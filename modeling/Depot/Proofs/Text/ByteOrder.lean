import Mathlib.Data.String.Basic
import Depot.Utf8

/-!
# The order of bytes

Texts compare as their bytes do: of two characters, the lesser one has the lesser byte where their
bytes differ for the first time, and no character has the bytes of another one at its front. So the
order of characters is that of bytes, and a text begins with another one exactly if its bytes do.
-/

namespace Depot.Utf8

open String

/-! ### Characters -/

/-- Of two numbers, the first digit that differs tells which one is less. The digits are those of a
character in four bytes. -/
theorem lt_digits {v w : Nat} (h : v < w) :
    v / 262144 < w / 262144 ∨ v / 262144 = w / 262144 ∧ (v / 4096 % 64 < w / 4096 % 64 ∨
      v / 4096 % 64 = w / 4096 % 64 ∧ (v / 64 % 64 < w / 64 % 64 ∨
        v / 64 % 64 = w / 64 % 64 ∧ v % 64 < w % 64)) := by
  have last : v / 64 < w / 64 ∨ v / 64 = w / 64 ∧ v % 64 < w % 64 := by omega
  rcases last with front | ⟨same, last⟩
  · have third : v / 4096 < w / 4096 ∨
        v / 4096 = w / 4096 ∧ v / 64 % 64 < w / 64 % 64 := by omega
    rcases third with front | ⟨same, third⟩
    · have second : v / 262144 < w / 262144 ∨
          v / 262144 = w / 262144 ∧ v / 4096 % 64 < w / 4096 % 64 := by omega
      exact second.imp_right (And.imp_right .inl)
    · omega
  · omega

theorem ofNat_lt_ofNat {a b : Nat} (ha : a < 256) (hb : b < 256) :
    UInt8.ofNat a < UInt8.ofNat b ↔ a < b := by
  rw [UInt8.lt_iff_toNat_lt, UInt8.toNat_ofNat_of_lt' ha, UInt8.toNat_ofNat_of_lt' hb]

theorem ofNat_inj {a b : Nat} (ha : a < 256) (hb : b < 256) :
    UInt8.ofNat a = UInt8.ofNat b ↔ a = b := by
  rw [← UInt8.toNat_inj, UInt8.toNat_ofNat_of_lt' ha, UInt8.toNat_ofNat_of_lt' hb]

theorem val_lt (c : Char) : c.val.toNat < 0x110000 := by
  rcases c.valid with low | ⟨-, high⟩
  · omega
  · exact high

/-- Between two characters their own bytes decide, whatever follows. -/
theorem utf8EncodeChar_append_lt {c d : Char} (h : c < d) (r s : Bytes) :
    utf8EncodeChar c ++ r < utf8EncodeChar d ++ s := by
  have less : c.val.toNat < d.val.toNat := h
  have limit := val_lt d
  unfold utf8EncodeChar
  generalize c.val.toNat = v at *
  generalize d.val.toNat = w at *
  have digits := lt_digits less
  have first : v / 262144 % 8 = v / 262144 ∧ w / 262144 % 8 = w / 262144 := by omega
  -- the longer character has the greater first byte, and in characters of one length the digits decide
  simp only
  split_ifs <;> simp only [List.cons_append, List.nil_append, List.cons_lt_cons_iff] <;>
    simp (disch := omega) only [ofNat_lt_ofNat, ofNat_inj] <;> omega

theorem utf8EncodeChar_append_ne {c d : Char} (h : c ≠ d) (r s : Bytes) :
    utf8EncodeChar c ++ r ≠ utf8EncodeChar d ++ s := by
  intro same
  rcases lt_or_gt_of_ne h with less | more
  · exact List.lt_irrefl _ (same ▸ utf8EncodeChar_append_lt less r s)
  · exact List.lt_irrefl _ (same ▸ utf8EncodeChar_append_lt more s r)

/-! ### Texts -/

theorem flatMap_lt {cs ds : List Char} (h : cs < ds) :
    cs.flatMap utf8EncodeChar < ds.flatMap utf8EncodeChar := by
  induction cs generalizing ds with
  | nil =>
    cases ds with
    | nil => exact absurd h (List.lt_irrefl [])
    | cons d ds =>
      obtain ⟨b, bs, first⟩ := List.exists_cons_of_ne_nil (utf8EncodeChar_ne_nil (c := d))
      rw [List.flatMap_cons, first]
      exact List.nil_lt_cons b _
  | cons c cs ih =>
    cases ds with
    | nil => exact absurd h (List.not_lt_nil _)
    | cons d ds =>
      rw [List.flatMap_cons, List.flatMap_cons]
      rcases List.cons_lt_cons_iff.mp h with less | ⟨rfl, less⟩
      · exact utf8EncodeChar_append_lt less _ _
      · exact List.append_left_lt (ih less)

/-- The order of characters is the order of bytes. -/
theorem encode_lt_iff {s t : String} : encode s < encode t ↔ s.toList < t.toList := by
  constructor
  · intro less
    by_contra not_less
    rcases (not_lt.mp not_less).lt_or_eq with more | same
    · exact List.lt_asymm less (flatMap_lt more)
    · rw [encode, encode, same] at less
      exact List.lt_irrefl _ less
  · exact flatMap_lt

/-- A text begins with another one exactly if its bytes do. -/
theorem encode_isPrefix_iff {s t : String} : encode s <+: encode t ↔ s.toList <+: t.toList := by
  unfold encode
  generalize s.toList = cs
  generalize t.toList = ds
  constructor
  · intro h
    induction cs generalizing ds with
    | nil => exact List.nil_prefix
    | cons c cs ih =>
      obtain ⟨rest, whole⟩ := h
      rw [List.flatMap_cons, List.append_assoc] at whole
      cases ds with
      | nil => exact absurd (List.append_eq_nil_iff.mp whole).1 utf8EncodeChar_ne_nil
      | cons d ds =>
        rw [List.flatMap_cons] at whole
        obtain rfl : c = d := by
          by_contra other
          exact utf8EncodeChar_append_ne other _ _ whole
        exact (List.prefix_cons_inj c).mpr (ih ds ⟨rest, List.append_cancel_left whole⟩)
  · rintro ⟨rest, rfl⟩
    rw [List.flatMap_append]
    exact List.prefix_append _ _

end Depot.Utf8
