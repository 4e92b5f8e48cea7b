/-!
# Text

Blanks, trimming, splitting and ASCII case. A text is taken apart as its list of
characters and put together again with `String.ofList`, so every function here is a
function on lists with a thin name on strings.
-/

namespace Depot.Text

/-- The Unicode property White_Space. The zero width space, the byte order mark and the
information separators do not have it. -/
def isBlank (c : Char) : Bool :=
  let n := c.toNat
  (0x09 ≤ n && n ≤ 0x0D) || n == 0x20 || n == 0x85 || n == 0xA0 || n == 0x1680 ||
    (0x2000 ≤ n && n ≤ 0x200A) || n == 0x2028 || n == 0x2029 || n == 0x202F || n == 0x205F ||
    n == 0x3000

def trimChars (s : List Char) : List Char :=
  ((s.dropWhile isBlank).reverse.dropWhile isBlank).reverse

@[simp] theorem trimChars_nil : trimChars [] = [] := rfl

/-- The text without the blanks at its two ends. -/
def trim (s : String) : String := String.ofList (trimChars s.toList)

@[simp] theorem toList_trim (s : String) : (trim s).toList = trimChars s.toList := by simp [trim]

/-- The text with A to Z in lower case; no other letter changes. -/
def lower (s : String) : String := String.ofList (s.toList.map Char.toLower)

@[simp] theorem toList_lower (s : String) : (lower s).toList = s.toList.map Char.toLower := by
  simp [lower]

/-- The pieces between the separators: always one more than there are separators. -/
def split (sep : Char) (s : String) : List String := (s.toList.splitOn sep).map String.ofList

/-- The pieces with the separator between them. -/
def join (sep : String) (pieces : List String) : String := sep.intercalate pieces

def contains (s : String) (c : Char) : Bool := s.toList.contains c

def startsWith (s t : String) : Bool := t.toList.isPrefixOf s.toList

def endsWith (s t : String) : Bool := t.toList.isSuffixOf s.toList

def repeated (c : Char) (n : Nat) : String := String.ofList (List.replicate n c)

/-- Blanks on the left up to a width in characters. -/
def padLeft (width : Nat) (s : String) : String := repeated ' ' (width - s.length) ++ s

def padRight (width : Nat) (s : String) : String := s ++ repeated ' ' (width - s.length)

/-- The lines of a text with so many blanks before all but the first. -/
def hang (indent : Nat) (s : String) : String := join ("\n" ++ repeated ' ' indent) (split '\n' s)

/-- The text of a natural number in base ten. -/
def ofNat (n : Nat) : String := String.ofList (Nat.toDigits 10 n)

def ofInt : Int → String
  | .ofNat n => ofNat n
  | .negSucc n => "-" ++ ofNat (n + 1)

/-- A nonempty run of the digits 0 to 9, read in base ten. -/
def digits? (s : List Char) : Option Nat :=
  if s.isEmpty || s.any (fun c => !c.isDigit) then none
  else some (s.foldl (fun n c => n * 10 + (c.toNat - '0'.toNat)) 0)

end Depot.Text
