import Depot.Text

/-!
# Trimming and cutting

What a text is before it is trimmed: blanks, the trimmed text, and blanks again. So blanks that are
put around a text cannot be seen, a trimmed text stays as it is, and so does every text without a
blank in it. A text that is joined from pieces is cut into these pieces again, as long as none of
them has the separator in it.
-/

namespace Depot.Text

/-- Nothing but blanks, or nothing at all. -/
def Blank (s : String) : Prop := ∀ c ∈ s.toList, isBlank c = true

theorem blank_empty : Blank "" := by simp [Blank]

/-- Blanks at the two ends are not seen. -/
theorem trimChars_pad {before after : List Char} (front : ∀ c ∈ before, isBlank c = true)
    (back : ∀ c ∈ after, isBlank c = true) (s : List Char) :
    trimChars (before ++ s ++ after) = trimChars s := by
  have last : ∀ c ∈ after.reverse, isBlank c = true := fun c hc => back c (List.mem_reverse.mp hc)
  rw [trimChars, trimChars, List.append_assoc, List.dropWhile_append_of_pos front,
    List.dropWhile_append]
  split
  · -- there is nothing but blanks
    rename_i none
    have gone : (after ++ []).dropWhile isBlank = [] := List.dropWhile_append_of_pos back
    rw [List.isEmpty_iff.mp none, ← List.append_nil after, gone]
  · rw [List.reverse_append, List.dropWhile_append_of_pos last]

theorem exists_pad_trimChars (s : List Char) : ∃ before after,
    (∀ c ∈ before, isBlank c = true) ∧ (∀ c ∈ after, isBlank c = true) ∧
      s = before ++ trimChars s ++ after := by
  have taken : ∀ {t : List Char}, ∀ c ∈ t.takeWhile isBlank, isBlank c = true :=
    fun c hc => List.all_eq_true.mp List.all_takeWhile c hc
  refine ⟨s.takeWhile isBlank, ((s.dropWhile isBlank).reverse.takeWhile isBlank).reverse, taken,
    fun c hc => taken c (List.mem_reverse.mp hc), ?_⟩
  rw [trimChars, List.append_assoc, ← List.reverse_append, List.takeWhile_append_dropWhile,
    List.reverse_reverse, List.takeWhile_append_dropWhile]

theorem trim_pad {before after : String} (front : Blank before) (back : Blank after) (s : String) :
    trim (before ++ s ++ after) = trim s := by
  rw [trim, String.toList_append, String.toList_append, trimChars_pad front back, ← trim]

/-- Trimming takes away blanks and nothing else. -/
theorem exists_pad_trim (s : String) :
    ∃ before after, Blank before ∧ Blank after ∧ s = before ++ trim s ++ after := by
  obtain ⟨before, after, front, back, whole⟩ := exists_pad_trimChars s.toList
  exact ⟨.ofList before, .ofList after, by simpa [Blank], by simpa [Blank],
    by simpa [← String.toList_inj] using whole⟩

/-- Of blanks nothing is left. -/
theorem trim_eq_empty_iff {s : String} : trim s = "" ↔ Blank s := by
  constructor
  · intro empty
    obtain ⟨before, after, front, back, whole⟩ := exists_pad_trim s
    rw [empty, String.append_empty] at whole
    intro c hc
    rw [whole, String.toList_append] at hc
    exact (List.mem_append.mp hc).elim (front c) (back c)
  · intro blank
    have padded := trim_pad blank blank_empty ""
    rwa [String.append_empty, String.append_empty] at padded

@[simp] theorem trim_trim (s : String) : trim (trim s) = trim s := by
  obtain ⟨before, after, front, back, whole⟩ := exists_pad_trim s
  calc trim (trim s) = trim (before ++ trim s ++ after) := (trim_pad front back _).symm
    _ = trim s := by rw [← whole]

theorem mem_of_mem_trim {s : String} {c : Char} (h : c ∈ (trim s).toList) : c ∈ s.toList := by
  obtain ⟨before, after, -, -, whole⟩ := exists_pad_trim s
  rw [whole, String.toList_append, String.toList_append]
  exact List.mem_append_left _ (List.mem_append_right _ h)

theorem trim_of_no_blank {s : String} (h : s.toList.any isBlank = false) : trim s = s := by
  have none : ∀ c ∈ s.toList, isBlank c ≠ true := List.any_eq_false.mp h
  obtain ⟨before, after, front, back, whole⟩ := exists_pad_trim s
  have empty : ∀ {t : String}, Blank t → (∀ c ∈ t.toList, c ∈ s.toList) → t = "" := by
    intro t blank inside
    refine String.toList_eq_nil_iff.mp (List.eq_nil_iff_forall_not_mem.mpr fun c hc => ?_)
    exact none c (inside c hc) (blank c hc)
  have no_before : before = "" := empty front fun c hc => by rw [whole]; simp [hc]
  have no_after : after = "" := empty back fun c hc => by rw [whole]; simp [hc]
  rw [no_before, no_after] at whole
  simpa using whole.symm

theorem split_join {sep : Char} {pieces : List String} (some : pieces ≠ [])
    (h : ∀ p ∈ pieces, sep ∉ p.toList) : split sep (join (String.singleton sep) pieces) = pieces := by
  have cut : ([sep].intercalate (pieces.map String.toList)).splitOn sep =
      pieces.map String.toList :=
    List.splitOn_intercalate sep (by simpa using h) (by simpa using some)
  rw [split, join, String.toList_intercalate, String.toList_singleton, cut, List.map_map]
  simp

theorem join_split (sep : Char) (s : String) : join (String.singleton sep) (split sep s) = s := by
  rw [← String.toList_inj, join, String.toList_intercalate, String.toList_singleton, split,
    List.map_map]
  simp [Function.comp_def, List.intercalate_splitOn]

end Depot.Text
