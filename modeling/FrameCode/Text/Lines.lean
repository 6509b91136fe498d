/-!
A text is cut into lines after each line feed. The line feed, and one carriage return directly
before it, are not part of the line. What follows the last line feed is a line of its own if it is
not empty, and keeps its carriage return.
-/

namespace FrameCode.Text

/-- The text without one final carriage return, if it has one. -/
def dropReturn (line : List Char) : List Char :=
  if line.getLast? = some '\r' then line.dropLast else line

/-- Turns the pieces between line feeds into lines; only the last piece was not ended by one. -/
def endLines : List (List Char) → List (List Char)
  | [] => []
  | [last] => if last.isEmpty then [] else [last]
  | piece :: rest => dropReturn piece :: endLines rest

def lines (text : List Char) : List (List Char) :=
  endLines (text.splitOn '\n')

end FrameCode.Text
