import Depot.Text

/-!
# Scanning

A scanner takes characters off the front of a text and answers a result, or fails. Blanks,
line ends, comments and the four forms of strings are scanned here. A loop takes the text that
is left when it begins as a bound on its rounds.
-/

namespace Depot.Toml

abbrev Scan (α : Type) := StateT (List Char) Option α

namespace Scan

def next : Scan Char := fun s =>
  match s with
  | [] => none
  | c :: r => some (c, r)

def satisfy (p : Char → Bool) : Scan Char := do
  let c ← next
  guard (p c)
  return c

def char (c : Char) : Scan Unit := do
  let _ ← satisfy (· == c)

/-- The longest run of characters of a class, which may be empty. -/
def takeWhile (p : Char → Bool) : Scan (List Char) := fun s =>
  some (s.takeWhile p, s.dropWhile p)

def takeWhile1 (p : Char → Bool) : Scan (List Char) := do
  let cs ← takeWhile p
  guard (!cs.isEmpty)
  return cs

def word (w : String) : Scan Unit := fun s =>
  if w.toList.isPrefixOf s then some ((), s.drop w.length) else none

def optional {α : Type} (p : Scan α) : Scan (Option α) := fun s =>
  match p s with
  | some (a, r) => some (some a, r)
  | none => some (none, s)

/-- As often as the scanner succeeds, with at most one round for each element of a list. -/
def manyWithin {α β : Type} (p : Scan α) : List β → Scan (List α)
  | [] => return []
  | _ :: bound => do
    match ← optional p with
    | none => return []
    | some a => return a :: (← manyWithin p bound)

/-- As often as the scanner succeeds. -/
def many {α : Type} (p : Scan α) : Scan (List α) := fun s => manyWithin p s s

/-- One and then more, each after a separator. -/
def sepBy1 {α β : Type} (p : Scan α) (sep : Scan β) : Scan (List α) := do
  let a ← p
  let as ← many (do let _ ← sep; p)
  return a :: as

def isSpace (c : Char) : Bool := c == ' ' || c == '\t'

def spaces : Scan Unit := do
  let _ ← takeWhile isSpace

/-- A line feed, or a carriage return with a line feed after it. -/
def newline : Scan Unit := word "\n" <|> word "\r\n"

def atEnd : Scan Unit := fun s => if s.isEmpty then some ((), s) else none

def isCommentChar (c : Char) : Bool := c == '\t' || (' ' ≤ c && c ≤ '~') || 0x80 ≤ c.toNat

def comment : Scan Unit := do
  char '#'
  let _ ← takeWhile isCommentChar

/-- The end of a line or of the text, with blanks and a comment before it. -/
def lineEnd : Scan Unit := do
  spaces
  let _ ← optional comment
  newline <|> atEnd

/-- Blanks, line ends and comments between the elements of an array. -/
def trivia : Scan Unit := do
  let _ ← many (newline <|> (do let _ ← takeWhile1 isSpace) <|> do comment; newline)

def isBasicChar (c : Char) : Bool := isCommentChar c && c != '"' && c != '\\'

def isLiteralChar (c : Char) : Bool := isCommentChar c && c != '\''

def hexValue? (c : Char) : Option Nat :=
  if c.isDigit then some (c.toNat - '0'.toNat)
  else if 'a' ≤ c && c ≤ 'f' then some (c.toNat - 'a'.toNat + 10)
  else if 'A' ≤ c && c ≤ 'F' then some (c.toNat - 'A'.toNat + 10)
  else none

/-- A code point in exactly so many hexadecimal digits. Surrogates are none. -/
def codePoint (digits : Nat) : Scan Char := fun s => do
  let cs := s.take digits
  guard (cs.length = digits)
  let ds ← cs.mapM hexValue?
  let n := ds.foldl (fun n d => n * 16 + d) 0
  if n.isValidChar then some (Char.ofNat n, s.drop digits) else none

/-- What follows a backslash. -/
def escape : Scan Char := do
  match ← next with
  | 'b' => return '\x08'
  | 'f' => return '\x0c'
  | 'n' => return '\n'
  | 'r' => return '\r'
  | 't' => return '\t'
  | '"' => return '"'
  | '\\' => return '\\'
  | 'u' => codePoint 4
  | 'U' => codePoint 8
  | _ => failure

/-- A string in double quotes on one line. -/
def basicString : Scan String := do
  char '"'
  let cs ← many (satisfy isBasicChar <|> do char '\\'; escape)
  char '"'
  return String.ofList cs

/-- A string in single quotes on one line, without escapes. -/
def literalString : Scan String := do
  char '\''
  let cs ← takeWhile isLiteralChar
  char '\''
  return String.ofList cs

/-- A backslash at the end of a line joins it to the next character that is no blank. -/
def lineJoin : Scan (List Char) := do
  char '\\'
  spaces
  newline
  let _ ← many (newline <|> (do let _ ← takeWhile1 isSpace))
  return []

def lineBreak : Scan (List Char) := do
  newline
  return ['\n']

/-- One or two quotes with no third one after them. -/
def fewQuotes (quote : Char) : Scan (List Char) := do
  let qs ← takeWhile1 (· == quote)
  guard (qs.length < 3)
  return qs

/-- Three quotes close; up to two more before them belong to the string. -/
def closing (quote : Char) : Scan (List Char) := do
  let qs ← takeWhile1 (· == quote)
  guard (3 ≤ qs.length ∧ qs.length ≤ 5)
  return qs.drop 3

/-- A string between triple quotes. A line end right after the opening ones is dropped. -/
def multiline (quote : Char) (piece : Scan (List Char)) : Scan String := do
  word (String.ofList [quote, quote, quote])
  let _ ← optional newline
  let pieces ← many (piece <|> lineBreak <|> fewQuotes quote)
  let last ← closing quote
  return String.ofList (pieces.flatten ++ last)

def multilineBasicString : Scan String :=
  multiline '"' (takeWhile1 isBasicChar <|> lineJoin <|> do char '\\'; return [← escape])

def multilineLiteralString : Scan String := multiline '\'' (takeWhile1 isLiteralChar)

def string : Scan String :=
  multilineBasicString <|> multilineLiteralString <|> basicString <|> literalString

def isBareKeyChar (c : Char) : Bool := c.isAlphanum || c == '-' || c == '_'

def simpleKey : Scan String :=
  basicString <|> literalString <|> do return String.ofList (← takeWhile1 isBareKeyChar)

/-- The keys between dots, with blanks around each. Eighty are too many. -/
def key : Scan (List String) := do
  let keys ← sepBy1 (do spaces; let k ← simpleKey; spaces; return k) (char '.')
  guard (keys.length < 80)
  return keys

end Scan

end Depot.Toml
