import Depot.Toml.Number

/-!
# Tables under construction

A document opens tables by headers and by dotted keys, and who opened a table decides who may
add to it. A draft remembers that; a finished value does not.
-/

namespace Depot.Toml

/-- Who opened a table: a header of its own, a longer header that passes through it, or a
dotted key. -/
inductive Origin where
  | header
  | passage
  | dotted
  deriving DecidableEq, Repr

inductive Draft where
  | value (v : Value)
  | table (origin : Origin) (entries : List (String × Draft))
  | tables (elements : List (List (String × Draft)))

/-- Entries in the order in which they were first written. -/
abbrev Entries := List (String × Draft)

namespace Entries

/-- Put a draft in the place of the entry with the key, or at the end. -/
def set (k : String) (d : Draft) (es : Entries) : Entries :=
  if es.any (·.1 = k) then es.map fun e => if e.1 = k then (k, d) else e else es ++ [(k, d)]

/-- Change the last table of an array of tables. -/
def modifyLast? (f : Entries → Option Entries) : List Entries → Option (List Entries)
  | [] => none
  | [t] => (f t).map ([·])
  | t :: ts => (modifyLast? f ts).map (t :: ·)

/-- Add a value under a dotted key. The tables on the way must have been opened by dotted keys
or by passage, and the last of them by a dotted key; a key has one value. -/
def insertDotted (path : List String) (v : Value) (es : Entries) : Option Entries :=
  match path with
  | [] => none
  | [k] => if (es.lookup k).isSome then none else some (es ++ [(k, .value v)])
  | k :: rest =>
    match es.lookup k with
    | none => (insertDotted rest v []).map fun sub => es ++ [(k, .table .dotted sub)]
    | some (.table origin sub) =>
      if origin = .header ∨ (rest.length = 1 ∧ origin ≠ .dotted) then none
      else (insertDotted rest v sub).map fun sub => set k (.table origin sub) es
    | some (.tables elements) =>
      if rest.length = 1 then none
      else (modifyLast? (insertDotted rest v) elements).map fun ts => set k (.tables ts) es
    | some (.value _) => none

/-- Follow the keys of a header, but the last one, and change the table there. -/
def descend (path : List String) (f : Entries → Option Entries) (es : Entries) :
    Option Entries :=
  match path with
  | [] => f es
  | k :: rest =>
    match es.lookup k with
    | none => (descend rest f []).map fun sub => es ++ [(k, .table .passage sub)]
    | some (.table origin sub) => (descend rest f sub).map fun sub => set k (.table origin sub) es
    | some (.tables elements) =>
      (modifyLast? (descend rest f) elements).map fun ts => set k (.tables ts) es
    | some (.value _) => none

/-- Open the table of a header and fill it. A table that was only passed through may still get
its header. -/
def openTable (k : String) (fill : Entries → Option Entries) (es : Entries) : Option Entries :=
  match es.lookup k with
  | none => (fill []).map fun sub => es ++ [(k, .table .header sub)]
  | some (.table .passage sub) =>
    (fill sub).map fun sub => es.filter (·.1 ≠ k) ++ [(k, .table .header sub)]
  | some _ => none

/-- Append a table to an array of tables and fill it. -/
def appendTable (k : String) (fill : Entries → Option Entries) (es : Entries) : Option Entries :=
  match es.lookup k with
  | none => (fill []).map fun sub => es ++ [(k, .tables [sub])]
  | some (.tables ts) => (fill []).map fun sub => set k (.tables (ts ++ [sub])) es
  | some _ => none

/-- Add key and value pairs in order. -/
def fill (pairs : List (List String × Value)) (es : Entries) : Option Entries :=
  pairs.foldlM (fun es p => insertDotted p.1 p.2 es) es

end Entries

mutual

/-- The value, with the entries of each table in the order in which they were first written. -/
def Draft.finish : Draft → Value
  | .value v => v
  | .table _ es => .table (finishEntries es)
  | .tables ts => .array (finishTables ts)

def finishEntries : List (String × Draft) → List (String × Value)
  | [] => []
  | (k, d) :: es => (k, d.finish) :: finishEntries es

def finishTables : List (List (String × Draft)) → List Value
  | [] => []
  | es :: ts => .table (finishEntries es) :: finishTables ts

end

end Depot.Toml
