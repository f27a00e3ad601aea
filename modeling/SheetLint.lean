import SheetLint.Main
import SheetLint.Proofs.BlockGrammar
import SheetLint.Proofs.BodyExtent
import SheetLint.Proofs.ByteOrderMark
import SheetLint.Proofs.ByteStructure
import SheetLint.Proofs.CanonicalPlaces
import SheetLint.Proofs.ColorScan
import SheetLint.Proofs.ErrorPrecedence
import SheetLint.Proofs.ExitStatus
import SheetLint.Proofs.FindingLines
import SheetLint.Proofs.HexColor
import SheetLint.Proofs.IssueLimit
import SheetLint.Proofs.JsonLines
import SheetLint.Proofs.LetterNumerals
import SheetLint.Proofs.LineEnding
import SheetLint.Proofs.OrderAdvice
import SheetLint.Proofs.Ordering
import SheetLint.Proofs.Rendering
import SheetLint.Proofs.ReplacementCount
import SheetLint.Proofs.RuleRecords
import SheetLint.Proofs.ScoreGrowth
import SheetLint.Proofs.SeveralInputs
import SheetLint.Proofs.SyntheticSheets
import SheetLint.Submission
