import VerifierCI.Execution.CompletionFrame
import VerifierCI.Execution.Fencing
import VerifierCI.Execution.Finality
import VerifierCI.Execution.RunLifecycle
import VerifierCI.Execution.MatrixAgreement
import VerifierCI.Execution.MatrixCompleteness
import VerifierCI.Execution.MatrixIdentity
import VerifierCI.Execution.Confinement
import VerifierCI.Storage.Custody
import VerifierCI.Evaluators.PytestReport
import VerifierCI.Execution.Cancellation
import VerifierCI.Execution.Committing
import VerifierCI.Execution.FailureClasses
import VerifierCI.Execution.PoisonJobs
import VerifierCI.Execution.RetryBudget
import VerifierCI.Relational.Guards
import VerifierCI.Storage.Panels
import VerifierCI.Storage.SealedCohort
import VerifierCI.Storage.EvidenceCustody
import VerifierCI.Storage.SharedStore
import VerifierCI.Storage.SplitIsolation
import VerifierCI.Adapters.ImportedBundles
import VerifierCI.Evaluators.MalformedReports
import VerifierCI.Execution.Acceptance
import VerifierCI.Execution.CellClasses
import VerifierCI.Execution.CellEvidence
import VerifierCI.Execution.CommittableAttempts
import VerifierCI.Execution.EvidenceOwnership
import VerifierCI.Execution.References
import VerifierCI.Storage.MigrationOrder
import VerifierCI.Storage.MigrationResume
import VerifierCI.Execution.AttemptAccounts
import VerifierCI.Execution.CellLabels
import VerifierCI.Execution.ClaimSearch
import VerifierCI.Execution.CompletionOrder
import VerifierCI.Execution.HunkText
import VerifierCI.Execution.LeaseBoundary
import VerifierCI.Execution.LeaseDeadlines
import VerifierCI.Execution.PlanOrder
import VerifierCI.Execution.Resubmission
import VerifierCI.Models.TypeHints
import VerifierCI.Models.Decoder
import VerifierCI.Models.ConversionRoom
import VerifierCI.Models.Encoding
import VerifierCI.Models.StrictDecoding
import VerifierCI.Models.Reencodable
import VerifierCI.Storage.VerifiedReads
import VerifierCI.Storage.ContentAddressed
import VerifierCI.Storage.OutputQuotas
import VerifierCI.Storage.OutputConfinement
import VerifierCI.Execution.BoundedCapture
import VerifierCI.Execution.ManifestHash
import VerifierCI.Models.Lineage
import VerifierCI.Models.CanonicalForm
import VerifierCI.Models.ContentHashes
import VerifierCI.Adapters.SnapshotDigests
import VerifierCI.Execution.Draining
import VerifierCI.Execution.RunMatrix
import VerifierCI.Execution.JobTraces
import VerifierCI.Execution.LeaseProtection
import VerifierCI.Execution.RunIsolation
import VerifierCI.Execution.SerialQueue
import VerifierCI.Adapters.ImportConfinement
