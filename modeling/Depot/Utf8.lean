/-!
# UTF-8

Bytes as lists, and reading them as text. A reading that fails says where and how: either the
bytes end within a character, or a run of one to three bytes can begin no character.
-/

namespace Depot

abbrev Bytes := List UInt8

namespace Utf8

inductive Fault where
  | invalid (length index : Nat)
  | incomplete (index : Nat)
  deriving DecidableEq, Repr

def Fault.message : Fault → String
  | .invalid n i => s!"invalid utf-8 sequence of {n} bytes from index {i}"
  | .incomplete i => s!"incomplete utf-8 byte sequence from index {i}"

def encode (s : String) : Bytes := s.toList.flatMap String.utf8EncodeChar

/-- The number of bytes in the character that a byte begins, zero if it begins none. -/
def width (b : UInt8) : Nat :=
  if b < 0x80 then 1
  else if 0xC2 ≤ b ∧ b ≤ 0xDF then 2
  else if 0xE0 ≤ b ∧ b ≤ 0xEF then 3
  else if 0xF0 ≤ b ∧ b ≤ 0xF4 then 4
  else 0

/-- Which second bytes may follow a first one: surrogates, values that fit in fewer bytes and
values above the last code point are left out. -/
def isSecond (first b : UInt8) : Bool :=
  if first = 0xE0 then 0xA0 ≤ b && b ≤ 0xBF
  else if first = 0xED then 0x80 ≤ b && b ≤ 0x9F
  else if first = 0xF0 then 0x90 ≤ b && b ≤ 0xBF
  else if first = 0xF4 then 0x80 ≤ b && b ≤ 0x8F
  else 0x80 ≤ b && b ≤ 0xBF

def isLater (b : UInt8) : Bool := 0x80 ≤ b && b ≤ 0xBF

/-- The low six bits. -/
def payload (b : UInt8) : Nat := b.toNat % 64

def char2 (a b : UInt8) : Char := Char.ofNat (a.toNat % 32 * 64 + payload b)

def char3 (a b c : UInt8) : Char :=
  Char.ofNat ((a.toNat % 16 * 64 + payload b) * 64 + payload c)

def char4 (a b c d : UInt8) : Char :=
  Char.ofNat (((a.toNat % 8 * 64 + payload b) * 64 + payload c) * 64 + payload d)

/-- Read from the byte with index `i` on. -/
def decodeFrom (i : Nat) : Bytes → Except Fault (List Char)
  | [] => .ok []
  | a :: r =>
    match width a with
    | 1 => (decodeFrom (i + 1) r).map (Char.ofNat a.toNat :: ·)
    | 2 =>
      match r with
      | [] => .error (.incomplete i)
      | b :: r =>
        if !isSecond a b then .error (.invalid 1 i)
        else (decodeFrom (i + 2) r).map (char2 a b :: ·)
    | 3 =>
      match r with
      | [] => .error (.incomplete i)
      | b :: r =>
        if !isSecond a b then .error (.invalid 1 i)
        else match r with
          | [] => .error (.incomplete i)
          | c :: r =>
            if !isLater c then .error (.invalid 2 i)
            else (decodeFrom (i + 3) r).map (char3 a b c :: ·)
    | 4 =>
      match r with
      | [] => .error (.incomplete i)
      | b :: r =>
        if !isSecond a b then .error (.invalid 1 i)
        else match r with
          | [] => .error (.incomplete i)
          | c :: r =>
            if !isLater c then .error (.invalid 2 i)
            else match r with
              | [] => .error (.incomplete i)
              | d :: r =>
                if !isLater d then .error (.invalid 3 i)
                else (decodeFrom (i + 4) r).map (char4 a b c d :: ·)
    | _ => .error (.invalid 1 i)

def decode (bytes : Bytes) : Except Fault String := (decodeFrom 0 bytes).map String.ofList

end Utf8

end Depot
