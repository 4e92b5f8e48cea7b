import Depot.Json.Dependency
import Depot.Cache

/-!
# Resolutions in JSON
-/

namespace Depot.Json

def ofCoordinate (c : Coordinate) : Json := .string c.text

def ofIdentity (i : Identity) : Json :=
  .object [("group", .string i.group), ("artifact", .string i.artifact),
    ("classifier", ofOption .string i.classifier)]

def ofEntry (e : Entry) : Json :=
  .object [("coordinate", ofCoordinate e.coordinate), ("depth", ofNat e.depth),
    ("kind", ofKind e.kind), ("parent", ofOption ofCoordinate e.parent)]

def ofOmission (o : Omission) : Json :=
  .object [("version", .string o.version), ("depth", ofNat o.depth),
    ("via", ofOption ofCoordinate o.via)]

def ofConflict (c : Conflict) : Json :=
  .object [("identity", ofIdentity c.identity), ("selected", ofCoordinate c.selected),
    ("selected_depth", ofNat c.depth), ("omitted", .array (c.omitted.map ofOmission))]

def ofResolution (r : Resolution) : Json :=
  .object [("entries", .array (r.entries.map ofEntry)),
    ("conflicts", .array (r.conflicts.map ofConflict))]

def ofClasspathEntry (e : ClasspathEntry) : Json :=
  .object [("coordinate", ofCoordinate e.coordinate), ("kind", ofKind e.kind),
    ("locator", .string e.locator.text)]

/-- A cached resolution with the time at which it was resolved. -/
def ofCached (time : String) (r : CachedResolution) : Json :=
  .object [("key", .array (r.key.toList.map ofCoordinate)),
    ("resolution", ofResolution r.resolution),
    ("classpath", .array (r.classpath.map ofClasspathEntry)), ("resolved_at", .string time)]

end Depot.Json
