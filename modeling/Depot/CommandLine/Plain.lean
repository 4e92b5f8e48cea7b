import Depot.Utf8

/-!
# Plain text

What is left of a text where it cannot steer a terminal: control characters go, but for tabs
and line ends, and so do escape sequences. A sequence may stand in another one or be cut short,
and a tab or line end within the short ones is shown, with the text right after it.
-/

namespace Depot.CommandLine

namespace Plain

/-- Where a reader of terminal output is: in the text, after an escape character, before the
end of a short sequence, before the last letter of a sequence with parameters, at the three
stages of the opening of a device string, in a string, or in a command for the terminal as a
whole. -/
inductive Mode where
  | text
  | escape
  | short
  | parameters
  | device
  | deviceParameters
  | deviceShort
  | string
  | command
  deriving DecidableEq, Repr

/-- Control characters that lay out a text. -/
def isLayout (c : Char) : Bool := c = '\t' || c = '\n' || c = '\x0c' || c = '\r'

def isShown (c : Char) : Bool := isLayout c || (' ' ≤ c && c ≠ '\x7f')

/-- A string ends at a byte, wherever that byte stands in the encoding of a character. -/
def endsString (c : Char) : Bool := (Utf8.encode (String.singleton c)).contains 0x9c

/-- The mode after a character that belongs to a sequence. -/
def Mode.next (m : Mode) (c : Char) : Mode :=
  match m with
  | text => text
  | escape =>
    if c = '[' then parameters
    else if c = ']' then command
    else if c = 'P' then device
    else if c = 'X' || c = '^' || c = '_' then string
    else if ' ' ≤ c && c ≤ '/' then short
    else if '0' ≤ c && c ≤ '~' then text
    else escape
  | short => if '0' ≤ c && c ≤ '~' then text else short
  | parameters => if '@' ≤ c && c ≤ '~' then text else parameters
  | device =>
    if ' ' ≤ c && c ≤ '/' then deviceShort
    else if '0' ≤ c && c ≤ '?' then deviceParameters
    else if '@' ≤ c && c ≤ '~' then string
    else device
  | deviceParameters =>
    if ' ' ≤ c && c ≤ '/' then deviceShort
    else if '<' ≤ c && c ≤ '~' then string
    else deviceParameters
  | deviceShort => if '0' ≤ c && c ≤ '~' then string else deviceShort
  | string => if endsString c then text else string
  | command => if c = '\x07' then text else command

/-- Whether tabs and line ends in a sequence are shown. -/
def Mode.showsLayout : Mode → Bool
  | text | escape | short | parameters => true
  | _ => false

/-- The characters that are shown. The text that follows a tab or line end within a sequence
flows on until something is not shown; then the sequence goes on, unless the text had a
character beyond ASCII. -/
def shown (m : Mode) (flowing : Bool) : List Char → List Char
  | [] => []
  | c :: cs =>
    if c = '\x1b' then shown .escape false cs
    else if c = '\x18' || c = '\x1a' then shown .text false cs
    else if flowing || m = .text then
      if isShown c then c :: shown (if c ≤ '\x7f' then m else .text) true cs
      else shown m false cs
    else if m.showsLayout && isLayout c then c :: shown m true cs
    else shown (m.next c) false cs

end Plain

/-- The text without control characters and escape sequences. -/
def plain (s : String) : String := String.ofList (Plain.shown .text false s.toList)

end Depot.CommandLine
