import FrameCode.Text.White
import FrameCode.Text.Lines
import FrameCode.Text.Bytes
import FrameCode.Text.Escape
import FrameCode.Numeral
import FrameCode.Binary64.Basic
import FrameCode.Binary64.Hex
import FrameCode.Binary64.Decimal
import FrameCode.Value
import FrameCode.Operand
import FrameCode.Opcode
import FrameCode.Instruction
import FrameCode.SortByKey
import FrameCode.Program
import FrameCode.Source.Error
import FrameCode.Source.Word
import FrameCode.Source.Statement
import FrameCode.Source.Load
import FrameCode.Check.Finding
import FrameCode.Check.Scan
import FrameCode.Fault
import FrameCode.Operation
import FrameCode.Stack
import FrameCode.Frames
import FrameCode.Channel
import FrameCode.Machine.Basic
import FrameCode.Machine.Report
import FrameCode.Machine.Action
import FrameCode.Machine.Run
import FrameCode.CommandLine.Session
import FrameCode.Main.Arguments
import FrameCode.Main
import FrameCode.Proofs.Fallible
import FrameCode.Proofs.Machine.Trace
import FrameCode.Proofs.Machine.Control
import FrameCode.Proofs.CallDiscipline
import FrameCode.Proofs.Labels
import FrameCode.Proofs.Frames
import FrameCode.Proofs.Machine.Failures
import FrameCode.Proofs.Soundness
import FrameCode.Proofs.Machine.Variables
import FrameCode.Proofs.Machine.Transport
import FrameCode.Proofs.DebugTransparency
import FrameCode.Proofs.Program
import FrameCode.Proofs.Source.Statements
import FrameCode.Proofs.Text.Pieces
import FrameCode.Proofs.Source.RoundTrip
import FrameCode.Proofs.Check.Exactness
import FrameCode.Proofs.GlobalVariables
import FrameCode.Proofs.ForwardPrograms
import FrameCode.Proofs.StackForms
import FrameCode.Proofs.CallerFrames
import FrameCode.Proofs.RunLoop
import FrameCode.Proofs.FailureEffects
import FrameCode.Proofs.Source.LoadedPrograms
import FrameCode.Proofs.RepeatedRuns
import FrameCode.Proofs.Check.LabelTables
import FrameCode.Proofs.Source.Loading
import FrameCode.Proofs.Source.Relocation
import FrameCode.Proofs.Source.Concatenation
import FrameCode.Proofs.Source.ErrorClasses
import FrameCode.Proofs.Machine.Rewiring
import FrameCode.Proofs.Rearrangement
import FrameCode.Proofs.InputLocality
import FrameCode.Proofs.OutputLimit
import FrameCode.Proofs.Endings
import FrameCode.Proofs.CommandLine.Prediction
import FrameCode.Proofs.SuccessEffects
import FrameCode.Proofs.Renumbering
import FrameCode.Proofs.Numerals
import FrameCode.Proofs.Source.StringLiterals
import FrameCode.Proofs.Text.Utf8
import FrameCode.Proofs.ReadBack
import FrameCode.Proofs.IntegerNumerals
import FrameCode.Proofs.LineReading
import FrameCode.Proofs.Binary64.Literals
import FrameCode.Proofs.Binary64.Values
import FrameCode.Proofs.Binary64.ExactArithmetic
import FrameCode.Proofs.Binary64.HexReading
import FrameCode.Proofs.Binary64.HexText
import FrameCode.Proofs.IntegerArithmetic
import FrameCode.Proofs.OperationTypes
import FrameCode.Proofs.Characters
import FrameCode.Proofs.Comparison
import FrameCode.Proofs.FrameStore
import FrameCode.Proofs.Binary64.Rounding
import FrameCode.Proofs.IntegerConversion
import FrameCode.Proofs.Source.Quotations
