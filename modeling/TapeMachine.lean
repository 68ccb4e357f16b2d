import TapeMachine.Main
import TapeMachine.Proofs.Language.Layout
import TapeMachine.Proofs.Language.Words
import TapeMachine.Proofs.Language.Fronts
import TapeMachine.Proofs.Language.Lexemes
import TapeMachine.Proofs.Language.Positions
import TapeMachine.Proofs.Language.Declarations
import TapeMachine.Proofs.Language.Programs
import TapeMachine.Proofs.Language.Placement
import TapeMachine.Proofs.Language.Occurrences
import TapeMachine.Proofs.Language.Spans
import TapeMachine.Proofs.Language.Viable
import TapeMachine.Proofs.Language.GrammarErrors
import TapeMachine.Proofs.Building
import TapeMachine.Proofs.FirstFault
import TapeMachine.Proofs.IdealTape
import TapeMachine.Proofs.Runs
import TapeMachine.Proofs.FirstStop
import TapeMachine.Proofs.BatchedRuns
import TapeMachine.Proofs.StepLimits
import TapeMachine.Proofs.Command.CommandLines
import TapeMachine.Proofs.Command.Exits
import TapeMachine.Proofs.Command.Answers
import TapeMachine.Proofs.VisitCounts
import TapeMachine.Proofs.Batches
import TapeMachine.Proofs.LoopReports
import TapeMachine.Proofs.Calls
import TapeMachine.Proofs.Margins
import TapeMachine.Proofs.Scenes
import TapeMachine.Proofs.Libraries.Problems
import TapeMachine.Proofs.Libraries.Doubling
import TapeMachine.Proofs.Libraries.Subtraction
import TapeMachine.Proofs.Libraries.Sweeps
import TapeMachine.Proofs.Reordering
import TapeMachine.Proofs.Resets
import TapeMachine.Proofs.Histories
import TapeMachine.Proofs.Language.Shapes
import TapeMachine.Proofs.Language.PrintedRules
import TapeMachine.Proofs.Literals
import TapeMachine.Proofs.Libraries.Validation
import TapeMachine.Proofs.DocumentedFaults
import TapeMachine.Proofs.Diagnostics
import TapeMachine.Proofs.Libraries.Codes
import TapeMachine.Proofs.Libraries.Flaws
import TapeMachine.Proofs.Libraries.Isolation
import TapeMachine.Proofs.EarlyEnds
import TapeMachine.Proofs.Padding
import TapeMachine.Proofs.Overwrites
import TapeMachine.Proofs.Alignment
import TapeMachine.Proofs.Colors
