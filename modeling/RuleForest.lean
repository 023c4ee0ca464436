import RuleForest.Config.Schema
import RuleForest.Engine.Run
import RuleForest.Log.Mirror
import RuleForest.Proofs.Outcome
import RuleForest.Script.Behavior
import RuleForest.Proofs.Upkeep
import RuleForest.Proofs.Invariants
import RuleForest.Proofs.Signals
import RuleForest.Proofs.Service
import RuleForest.Proofs.Traversal
import RuleForest.Proofs.Cancellation
import RuleForest.Proofs.Course
import RuleForest.Proofs.Descent
import RuleForest.Proofs.Grammar
import RuleForest.Proofs.Search
import RuleForest.Proofs.Ownership
import RuleForest.Proofs.History
import RuleForest.Proofs.FileTree
import RuleForest.Proofs.Rotation
import RuleForest.Proofs.Chunks
import RuleForest.Proofs.Mirroring
import RuleForest.Proofs.NewestChunks
import RuleForest.Proofs.Redaction
import RuleForest.Proofs.Secrets
import RuleForest.Proofs.Account
import RuleForest.Proofs.Preorder
import RuleForest.Proofs.Visits
import RuleForest.Proofs.Journal
import RuleForest.Proofs.Alike
import RuleForest.Proofs.Afresh
import RuleForest.Proofs.LogLines
import RuleForest.Proofs.Building
import RuleForest.Proofs.Announcement
import RuleForest.Proofs.Overflow
import RuleForest.Proofs.Losses
import RuleForest.Proofs.Settings
import RuleForest.Proofs.Directives
import RuleForest.Proofs.Entries
import RuleForest.Proofs.Patterns
import RuleForest.Proofs.Twins
import RuleForest.Proofs.Masking
