import Depot.Batch
import Depot.CommandLine.Run
import Depot.Json.Dependency
import Depot.Main
import Depot.Store.Memory
import Depot.Store.File
import Depot.Store.Faulty
import Depot.Proofs.Resolution.Queue
import Depot.Proofs.Resolution.Selection
import Depot.Proofs.Resolution.Origin
import Depot.Proofs.Resolution.Completeness
import Depot.Proofs.Resolution.Lineage
import Depot.Proofs.Store.Manifests
import Depot.Proofs.Store.Catalogs
import Depot.Proofs.Cache.Coherence
import Depot.Proofs.Resolution.Failures
import Depot.Proofs.Cache.Locality
import Depot.Proofs.Cache.Traffic
import Depot.Proofs.Cache.Invalidation
import Depot.Proofs.Cache.Flight
import Depot.Proofs.Cache.Canonical
import Depot.Proofs.Cache.Writes
import Depot.Proofs.Store.Existence
import Depot.Proofs.Resolution.Conflicts
import Depot.Proofs.Cache.Evictions
import Depot.Proofs.Store.Isolation
import Depot.Proofs.Store.Packages
import Depot.Proofs.Store.FileNames
import Depot.Proofs.Resolution.Termination
import Depot.Proofs.Cache.Assembly
import Depot.Proofs.Text.Coordinates
import Depot.Proofs.Manifest.Written
import Depot.Proofs.Resolution.Listing
import Depot.Proofs.Cache.Accounts
import Depot.Proofs.Cache.Renaming
import Depot.Proofs.Cache.Operations
import Depot.Proofs.Cache.Courses
import Depot.Proofs.Cache.Cancellation
import Depot.Proofs.Units.Slots
import Depot.Proofs.Units.Loading
import Depot.Proofs.Config.Directories
import Depot.Proofs.Config.Validity
import Depot.Proofs.Config.Precedence
import Depot.Proofs.Config.Layers
import Depot.Proofs.Toml.Keys
import Depot.Proofs.Manifest.Flattening
import Depot.Proofs.Resolution.Closure
import Depot.Proofs.Cache.Sharing
import Depot.Proofs.Config.Nearest
import Depot.Proofs.Store.Probe
import Depot.Proofs.CommandLine.Kinds
