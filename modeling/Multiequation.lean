import Multiequation.CommandLine.FileTree
import Multiequation.Main
import Multiequation.Relational.Encoding
import Multiequation.Relational.Goal
import Multiequation.Symbol.Table
import Multiequation.Proofs.Multiterm.Description
import Multiequation.Proofs.Multiterm.MergeLaws
import Multiequation.Proofs.Multiterm.Overlay
import Multiequation.Proofs.Multiterm.Peeling
import Multiequation.Proofs.Multiterm.Shape
import Multiequation.Proofs.Outcome
import Multiequation.Proofs.Pool.PendingCounts
import Multiequation.Proofs.Pool.Words
import Multiequation.Proofs.Solve.Classification
import Multiequation.Proofs.Relational.Agreement
import Multiequation.Proofs.Pool.SolvedForm
import Multiequation.Proofs.Solve.Restatement
import Multiequation.Proofs.Solve.Uniqueness
import Multiequation.Proofs.Pool.EarlyMerges
import Multiequation.Proofs.System.Contract
import Multiequation.Proofs.Relational.GoalSearch
import Multiequation.Proofs.Equation.RoundTrip
import Multiequation.Proofs.Partition.Commutation
import Multiequation.Proofs.Partition.Histories
import Multiequation.Proofs.Solve.StuckVariables
import Multiequation.Proofs.Solution.Memoisation
import Multiequation.Proofs.Solve.Views
import Multiequation.Proofs.Text.Boundaries
import Multiequation.Proofs.Token.Filler
import Multiequation.Proofs.Token.Scanning
import Multiequation.Proofs.Equation.Blocking
import Multiequation.Proofs.Equation.ErrorPlaces
import Multiequation.Proofs.Relational.Depths
import Multiequation.Proofs.Relational.TakenAnswers
import Multiequation.Proofs.Relational.Decoding
import Multiequation.Proofs.Symbol.Interning
import Multiequation.Proofs.Relational.Texts
import Multiequation.Proofs.Pool.Sessions
