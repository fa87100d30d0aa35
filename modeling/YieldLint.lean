import YieldLint.Rule.Guide
import YieldLint.Session.Command
import YieldLint.Program
import YieldLint.FileSystem.Program
import YieldLint.Violation.Fields
import YieldLint.Proofs.Atomic
import YieldLint.Proofs.Calls
import YieldLint.Proofs.Rounds
import YieldLint.Proofs.Settling
import YieldLint.Proofs.Spellings
import YieldLint.Proofs.StaleFixes
import YieldLint.Proofs.Commuting
import YieldLint.Proofs.Trivia
import YieldLint.Proofs.Innermost
import YieldLint.Proofs.Optimality
import YieldLint.Proofs.Parentheses
import YieldLint.Proofs.Delegation
import YieldLint.Proofs.Reordering
import YieldLint.Proofs.Exactness
import YieldLint.Proofs.YieldArguments
import YieldLint.Proofs.TextsRead
import YieldLint.Proofs.InsertedImports
import YieldLint.Proofs.KnownEffects
import YieldLint.Proofs.Traversal
import YieldLint.Proofs.Components
import YieldLint.Proofs.Discovery
import YieldLint.Proofs.WorkspaceReports
import YieldLint.Proofs.DistinctNames
import YieldLint.Proofs.Previews
import YieldLint.Proofs.FileVerdicts
import YieldLint.Proofs.FixedMarks
import YieldLint.Proofs.OpenNodes
import YieldLint.Proofs.NearestLine
import YieldLint.Proofs.FailedLooks
