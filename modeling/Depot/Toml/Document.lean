import Depot.Toml.Draft

/-!
# TOML documents

The text of a document is a list of sections: the pairs before the first header, and then
each header with the pairs below it. Reading a document answers its entries by key, or fails.
-/

namespace Depot.Toml

namespace Scan

/-- Elements with commas between them, and perhaps one more comma. -/
def arrayOf (element : Scan Value) : Scan Value := do
  char '['
  let elements ← optional (sepBy1 (do trivia; let v ← element; trivia; return v) (char ','))
  if elements.isSome then
    let _ ← optional (char ',')
  trivia
  char ']'
  return .array (elements.getD [])

def pair (element : Scan Value) : Scan (List String × Value) := do
  let ks ← key
  char '='
  spaces
  let v ← element
  return (ks, v)

/-- Pairs in braces on one line. -/
def inlineTableOf (element : Scan Value) : Scan Value := do
  char '\x7b'
  let pairs ← optional (sepBy1 (do let p ← pair element; spaces; return p) (char ','))
  spaces
  char '\x7d'
  match Entries.fill (pairs.getD []) [] with
  | some es => return .table (finishEntries es)
  | none => failure

def boolean : Scan Bool := (do word "true"; return true) <|> (do word "false"; return false)

def scalar : Scan Value :=
  (do return .string (← string)) <|> (do return .boolean (← boolean)) <|> number

/-- A value with at most so many arrays and inline tables within each other. -/
def value : Nat → Scan Value
  | 0 => scalar
  | d + 1 => arrayOf (value d) <|> inlineTableOf (value d) <|> scalar

def maxDepth : Nat := 79

/-- Empty lines and comments. -/
def blankLines : Scan Unit := do
  let _ ← many (do spaces; let _ ← optional comment; newline)
  spaces
  let _ ← optional comment

def pairLine : Scan (List String × Value) := do
  blankLines
  let p ← pair (value maxDepth)
  lineEnd
  return p

inductive Header where
  | table (path : List String)
  | element (path : List String)

def header : Scan Header := do
  blankLines
  let h ← (do word "[["; let ks ← key; word "]]"; return .element ks) <|>
    (do char '['; let ks ← key; char ']'; return .table ks)
  lineEnd
  return h

structure Section where
  header : Header
  pairs : List (List String × Value)

def sectionBelow : Scan Section := do
  let h ← header
  return ⟨h, ← many pairLine⟩

/-- A byte order mark may come first. -/
def document : Scan (List (List String × Value) × List Section) := do
  let _ ← optional (char '\uFEFF')
  let pairs ← many pairLine
  let sections ← many sectionBelow
  blankLines
  atEnd
  return (pairs, sections)

end Scan

/-- Add the table of a header and its pairs. -/
def addSection (es : Entries) (s : Scan.Section) : Option Entries :=
  match s.header with
  | .table path =>
    match path.getLast? with
    | none => none
    | some k => Entries.descend path.dropLast (Entries.openTable k (Entries.fill s.pairs)) es
  | .element path =>
    match path.getLast? with
    | none => none
    | some k => Entries.descend path.dropLast (Entries.appendTable k (Entries.fill s.pairs)) es

/-- The entries of a document. -/
def read? (s : String) : Option (List (String × Value)) := do
  let ((pairs, sections), _) ← Scan.document s.toList
  let es ← Entries.fill pairs []
  let es ← sections.foldlM addSection es
  return finishEntries es

end Depot.Toml
