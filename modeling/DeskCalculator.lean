import DeskCalculator.Main
import DeskCalculator.Proofs.Parsing
import DeskCalculator.Proofs.StackEvaluation
import DeskCalculator.Proofs.Typing
import DeskCalculator.Proofs.EntryCharacters
import DeskCalculator.Proofs.StandardKeypad
import DeskCalculator.Proofs.NewEntry
import DeskCalculator.Proofs.ShownValue
import DeskCalculator.Proofs.ImplicitProduct
import DeskCalculator.Proofs.ContinuedResult
import DeskCalculator.Proofs.Lines
import DeskCalculator.Proofs.Answers
import DeskCalculator.Proofs.Respelling
import DeskCalculator.Proofs.FirstFault
import DeskCalculator.Proofs.Depth
import DeskCalculator.Proofs.NumberEntry
import DeskCalculator.Proofs.LastOperator
import DeskCalculator.Proofs.Backspace
import DeskCalculator.Proofs.Building
import DeskCalculator.Proofs.Balance
import DeskCalculator.Proofs.TrimmedText
