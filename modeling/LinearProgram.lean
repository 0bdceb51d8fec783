import LinearProgram.Number.Decimal
import LinearProgram.Plane.Corners
import LinearProgram.Trace.Text
import LinearProgram.Simplex.Solve
import LinearProgram.Json.Reader
import LinearProgram.Json.Writer
import LinearProgram.Json.Decoder
import LinearProgram.Shape.Problem
import LinearProgram.Shape.Response
import LinearProgram.Language.Alphabet
import LinearProgram.Language.Lexer
import LinearProgram.Language.ParseError
import LinearProgram.Language.Parser
import LinearProgram.Language.Compile
import LinearProgram.Language.Diagnostic
import LinearProgram.Shape.Program
import LinearProgram.CommandLine.Arguments
import LinearProgram.CommandLine.Report
import LinearProgram.CommandLine.Run
import LinearProgram.Main
import LinearProgram.Proofs.Agreement
import LinearProgram.Proofs.Corners
import LinearProgram.Proofs.Compilation
import LinearProgram.Proofs.Improvement
import LinearProgram.Proofs.RecordedBasis
import LinearProgram.Proofs.TraceVerdict
import LinearProgram.Proofs.ParserSteps
import LinearProgram.Proofs.Tokens
import LinearProgram.Proofs.AcceptedTexts
import LinearProgram.Proofs.Multiplicity
import LinearProgram.Proofs.PointCheck
import LinearProgram.Proofs.PrintedProgram
import LinearProgram.Proofs.Json.Serialization
import LinearProgram.Proofs.CornerTrace
import LinearProgram.Proofs.TraceTableaus
import LinearProgram.Proofs.Caps
import LinearProgram.Proofs.Mirror
import LinearProgram.Proofs.Opposite
import LinearProgram.Proofs.StatementSpans
import LinearProgram.Proofs.Diagnostics
import LinearProgram.Proofs.ConstraintTexts
import LinearProgram.Proofs.Checked.Corners
import LinearProgram.Proofs.PivotCount
import LinearProgram.Proofs.StandardGrid
import LinearProgram.Proofs.FlaggedRows
import LinearProgram.Proofs.CornerAnswers
import LinearProgram.Proofs.FlippedRows
import LinearProgram.Proofs.Layout.Semicolons
import LinearProgram.Proofs.TokenSpans
import LinearProgram.Proofs.InferredNames
import LinearProgram.Proofs.FinalTableau
import LinearProgram.Proofs.NumberedNames
import LinearProgram.Proofs.TokenShapes
import LinearProgram.Proofs.InertRows
import LinearProgram.Proofs.NegativeZeros
