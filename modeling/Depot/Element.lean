import Depot.Utf8
import Depot.Toml.Document
import Depot.Toml.Settled

/-!
# Elements

A document as a tree of named elements. An element has text or children. A TOML document
becomes a tree in which tables are elements and an array repeats the name of its key.
-/

namespace Depot

open Text

inductive Element where
  | mk (name : String) (text : Option String) (children : List Element)
  deriving Repr

namespace Element

def name : Element → String
  | mk n _ _ => n

def text : Element → Option String
  | mk _ t _ => t

def children : Element → List Element
  | mk _ _ cs => cs

def leaf (name text : String) : Element := mk name (some text) []

def branch (name : String) (children : List Element) : Element := mk name none children

/-- The first child of a name. -/
def child? (e : Element) (n : String) : Option Element := e.children.find? (·.name = n)

/-- All children of a name, in order. -/
def named (e : Element) (n : String) : List Element := e.children.filter (·.name = n)

/-- The trimmed text of the first child of a name, if there is anything left of it. -/
def childText? (e : Element) (n : String) : Option String := do
  let t ← (← e.child? n).text
  if trim t = "" then none else some (trim t)

end Element

namespace Toml

mutual

/-- The elements that a value becomes under a key. -/
def Value.elements (k : String) : Value → List Element
  | .string s => [.leaf k s]
  | .integer i => [.leaf k (ofInt i)]
  | .float x => [.leaf k x.text]
  | .boolean b => [.leaf k (if b then "true" else "false")]
  | .dateTime t => [.leaf k ("\x7b \"" ++ dateTimeKey ++ "\" = \"" ++ t.text ++ "\" \x7d")]
  | .array vs => arrayElements k vs
  | .table es => [.branch k (tableElements es)]

def arrayElements (k : String) : List Value → List Element
  | [] => []
  | v :: vs => v.elements k ++ arrayElements k vs

def tableElements : List (String × Value) → List Element
  | [] => []
  | (k, v) :: es => v.elements k ++ tableElements es

end

inductive DecodeError where
  | notText (fault : Utf8.Fault)
  | invalid
  deriving DecidableEq, Repr

/-- Bytes as a tree. The root is called document. -/
def decode (bytes : Bytes) : Except DecodeError Element :=
  match Utf8.decode bytes with
  | .error fault => .error (.notText fault)
  | .ok s =>
    match (read? s).bind settleEntries? with
    | none => .error .invalid
    | some es => .ok (.branch "document" (tableElements (sortByKey es)))

end Toml

end Depot
