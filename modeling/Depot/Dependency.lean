import Depot.Coordinate
import Depot.Scope
import Depot.Kind

/-!
# Dependencies

One declaration in a manifest: which file of which package is needed, when, and what its own
dependencies must not bring in.
-/

namespace Depot

structure Dependency where
  coordinate : Coordinate
  scope : Scope
  kind : Kind
  exclusions : OrderedSet ArtifactKey
  deriving DecidableEq, Repr

def Dependency.excludes (d : Dependency) (k : ArtifactKey) : Bool := decide (k ∈ d.exclusions)

end Depot
