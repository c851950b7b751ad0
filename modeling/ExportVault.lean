import ExportVault.Accounts
import ExportVault.AllDownloads
import ExportVault.AllExports
import ExportVault.AllOrNothing
import ExportVault.Api
import ExportVault.Assembly
import ExportVault.Audit
import ExportVault.Bounds
import ExportVault.Builtins
import ExportVault.Cancel
import ExportVault.Coherence
import ExportVault.Commands
import ExportVault.Completion
import ExportVault.Csv
import ExportVault.Damage
import ExportVault.Deletion
import ExportVault.Delivery
import ExportVault.Drift
import ExportVault.Effort
import ExportVault.Enrolment
import ExportVault.Exactness
import ExportVault.Exclusion
import ExportVault.Exports
import ExportVault.Frames
import ExportVault.Gate
import ExportVault.Guards
import ExportVault.Installation
import ExportVault.Interleaving
import ExportVault.Isolation
import ExportVault.Jobs
import ExportVault.Keyset
import ExportVault.Ledger
import ExportVault.Locality
import ExportVault.Log
import ExportVault.Outline
import ExportVault.Page
import ExportVault.Pending
import ExportVault.Position
import ExportVault.Progress
import ExportVault.Projection
import ExportVault.Proven
import ExportVault.Records
import ExportVault.Recovery
import ExportVault.Redelivery
import ExportVault.Remnants
import ExportVault.Resume
import ExportVault.Rfc4180
import ExportVault.Runner
import ExportVault.Seeding
import ExportVault.Serial
import ExportVault.Sessions
import ExportVault.Snapshot
import ExportVault.Spelling
import ExportVault.Storage
import ExportVault.Succession
import ExportVault.Sufficiency
import ExportVault.Sweeps
import ExportVault.System
import ExportVault.Terminal
import ExportVault.Traces
import ExportVault.Trail
import ExportVault.Vault
import ExportVault.Verdict
import ExportVault.Verification
import ExportVault.World
