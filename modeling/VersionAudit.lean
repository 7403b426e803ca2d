import VersionAudit.Main
import VersionAudit.Proofs.Analysis.DeepScan
import VersionAudit.Proofs.Analysis.DirectFlag
import VersionAudit.Proofs.Analysis.Failures
import VersionAudit.Proofs.Analysis.Specifications
import VersionAudit.Proofs.Analysis.Unreachable
import VersionAudit.Proofs.Analysis.Verdicts
import VersionAudit.Proofs.Analysis.Waivers
import VersionAudit.Proofs.Command.Verdict
import VersionAudit.Proofs.DepsDev.Accounted
import VersionAudit.Proofs.DepsDev.Address
import VersionAudit.Proofs.DepsDev.Callers
import VersionAudit.Proofs.DepsDev.Exclusions
import VersionAudit.Proofs.DepsDev.Management
import VersionAudit.Proofs.DepsDev.OutOfScope
import VersionAudit.Proofs.DepsDev.ProjectGraph
import VersionAudit.Proofs.DepsDev.Selection
import VersionAudit.Proofs.Graph.Recovery
import VersionAudit.Proofs.Graph.Search
import VersionAudit.Proofs.Identity.Sameness
import VersionAudit.Proofs.Pattern
import VersionAudit.Proofs.Pom.Management
import VersionAudit.Proofs.Pom.Property
import VersionAudit.Proofs.Pom.Reactor
import VersionAudit.Proofs.Report.Bill
import VersionAudit.Proofs.Resolution.Folding
import VersionAudit.Proofs.Strategy.Conventional
import VersionAudit.Proofs.Strategy.FirstPattern
import VersionAudit.Proofs.Strategy.SameVersion
import VersionAudit.Proofs.Version.Endings
import VersionAudit.Proofs.Version.RangeText
import VersionAudit.Proofs.Version.Rereading
import VersionAudit.Proofs.Version.Scanning
