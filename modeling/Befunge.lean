import Befunge.Main
import Befunge.Machine.Session
import Befunge.Proofs.InstructionEffects
import Befunge.StackStack.Op
import Befunge.Proofs.CursorInside
import Befunge.Proofs.CycleBudgets
import Befunge.Proofs.RowRequests
import Befunge.Proofs.TypedRows
import Befunge.Proofs.SpaceCells
import Befunge.Proofs.BlockScope
import Befunge.Proofs.GridMotion
import Befunge.Proofs.TorusCycles
import Befunge.Proofs.WiderDialect
import Befunge.Proofs.AppendedRows
import Befunge.Proofs.EndlessZeros
import Befunge.Proofs.TorusBounds
import Befunge.Proofs.TracedRuns
import Befunge.Proofs.SessionRuns
import Befunge.Proofs.ToldFaults
import Befunge.Proofs.ReachedMachines
import Befunge.Proofs.WellFormed
import Befunge.Proofs.LoadedText
import Befunge.Proofs.BufferedRuns
import Befunge.Proofs.ContinuedRuns
import Befunge.Proofs.DrivenRuns
import Befunge.Proofs.ExactLines
import Befunge.Proofs.LaheyLines
import Befunge.Proofs.BuiltSpaces
import Befunge.Proofs.WalkedSteps
import Befunge.Proofs.LaheyOrbits
import Befunge.Proofs.PendingMoves
import Befunge.Proofs.Suspension
import Befunge.Proofs.SkippedCells
import Befunge.Proofs.FencedWalks
import Befunge.Proofs.JumpSums
import Befunge.Proofs.WrappedReads
import Befunge.Proofs.WrittenCells
import Befunge.Proofs.ExchangedValues
import Befunge.Proofs.FlooredDivision
import Befunge.Proofs.ReadBack
import Befunge.Proofs.QuotedTexts
import Befunge.Proofs.RowBreaks
import Befunge.Proofs.WordStrides
