import Depot.Text

/-!
# Styled text

A line of a page in pieces, some of which stand out on a terminal: names are bold, headings
bold and underlined. The codes for that take no room in the line.
-/

namespace Depot.CommandLine

inductive Piece where
  | body (text : String)
  | name (text : String)
  | heading (text : String)
  deriving DecidableEq, Repr

namespace Piece

def text : Piece → String
  | body s | name s | heading s => s

/-- The codes in front of a piece. -/
def opening : Piece → String
  | body _ => ""
  | name _ => "\x1b[1m"
  | heading _ => "\x1b[1m\x1b[4m"

/-- The code behind a piece ends everything that was begun. -/
def closing : Piece → String
  | body _ => ""
  | name _ | heading _ => "\x1b[0m"

end Piece

abbrev Styled := List Piece

namespace Styled

/-- The text as it is read. -/
def text (ps : Styled) : String := String.join (ps.map Piece.text)

/-- The text with the codes for a terminal. -/
def coded (ps : Styled) : String :=
  String.join (ps.map fun p => p.opening ++ p.text ++ p.closing)

/-- Blanks on the right up to a width in characters that are read. -/
def padRight (width : Nat) (ps : Styled) : Styled :=
  ps ++ [.body (Text.repeated ' ' (width - ps.text.length))]

end Styled

end Depot.CommandLine
