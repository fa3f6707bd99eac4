import TargetLint.Main
import TargetLint.Proofs.Catalog.Selection
import TargetLint.Proofs.Command
import TargetLint.Proofs.Config
import TargetLint.Proofs.Enumeration
import TargetLint.Proofs.LintLedger.Siblings
import TargetLint.Proofs.Message.Encoding
import TargetLint.Proofs.Metadata
import TargetLint.Proofs.Overview.Tour
import TargetLint.Proofs.Project
import TargetLint.Proofs.ProjectSearch.Settled
import TargetLint.Proofs.Session.Activation
import TargetLint.Proofs.Session.FailedListing
import TargetLint.Proofs.Session.Isolation
import TargetLint.Proofs.Session.Outcome
import TargetLint.Proofs.Session.Positions
import TargetLint.Proofs.StreamReport.Composition
import TargetLint.Proofs.StreamReport.Placement
import TargetLint.Proofs.StreamReport.RootSpelling
import TargetLint.Proofs.Text.Expansion
import TargetLint.Proofs.ToolVersion
