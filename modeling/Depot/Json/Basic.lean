import Depot.Text

/-!
# JSON

Values with the fields of an object in order, and their text over several lines: two spaces a
level, a field or an element a line.
-/

namespace Depot

open Text

inductive Json where
  | null
  | boolean (b : Bool)
  | number (text : String)
  | string (s : String)
  | array (elements : List Json)
  | object (fields : List (String × Json))
  deriving Repr, Inhabited

namespace Json

def hexDigit (n : Nat) : Char := (Nat.toDigits 16 n).headD '0'

/-- Control characters, quotes and backslashes are escaped, nothing else. -/
def escapeChar (c : Char) : List Char :=
  match c with
  | '"' => ['\\', '"']
  | '\\' => ['\\', '\\']
  | '\n' => ['\\', 'n']
  | '\r' => ['\\', 'r']
  | '\t' => ['\\', 't']
  | '\x08' => ['\\', 'b']
  | '\x0c' => ['\\', 'f']
  | c =>
    if c.toNat < 0x20 then ['\\', 'u', '0', '0', hexDigit (c.toNat / 16), hexDigit (c.toNat % 16)]
    else [c]

def quoted (s : String) : String :=
  "\"" ++ String.ofList (s.toList.flatMap escapeChar) ++ "\""

def indent (level : Nat) : String := repeated ' ' (2 * level)

/-- Lines between two brackets, one level in. -/
def block (level : Nat) (opening closing : String) (items : List String) : String :=
  if items.isEmpty then opening ++ closing
  else
    opening ++ "\n" ++
      join ",\n" (items.map (indent (level + 1) ++ ·)) ++ "\n" ++ indent level ++ closing

mutual

def render (level : Nat) : Json → String
  | null => "null"
  | boolean b => if b then "true" else "false"
  | number t => t
  | string s => quoted s
  | array vs => block level "[" "]" (renderElements (level + 1) vs)
  | object fs => block level "\x7b" "\x7d" (renderFields (level + 1) fs)

def renderElements (level : Nat) : List Json → List String
  | [] => []
  | v :: vs => v.render level :: renderElements level vs

def renderFields (level : Nat) : List (String × Json) → List String
  | [] => []
  | (k, v) :: fs => (quoted k ++ ": " ++ v.render level) :: renderFields level fs

end

def text (v : Json) : String := v.render 0

/-- Null for nothing. -/
def ofOption {α : Type} (f : α → Json) : Option α → Json
  | none => null
  | some a => f a

def ofNat (n : Nat) : Json := number (Text.ofNat n)

def field? (fields : List (String × Json)) (k : String) : Option Json := fields.lookup k

end Json

end Depot
