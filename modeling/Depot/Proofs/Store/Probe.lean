import Depot.Store.Memory
import Depot.Proofs.Text.ByteOrder

/-!
# One probe for a directory

Paths are stored in the order of their bytes, and those that begin with a given path follow one
another in that order, with nothing in between. So of a directory only the first path is looked at
that is not before its own: if any path lies in the directory, then this one does. Paths that go on
in another way, with a dot or a hyphen in the place of the slash, are before the directory.
-/

namespace Depot

open Text

/-- What lies between a text and a longer one is longer itself. -/
theorem prefix_of_not_lt {d q r : List Char} (ge : ¬ q < d) (le : ¬ d ++ r < q) : d <+: q := by
  induction d generalizing q with
  | nil => exact List.nil_prefix
  | cons a d ih =>
    cases q with
    | nil => exact absurd (List.nil_lt_cons a d) ge
    | cons b q =>
      rw [List.cons_lt_cons_iff, not_or] at ge
      rw [List.cons_append, List.cons_lt_cons_iff, not_or] at le
      obtain rfl : a = b := le_antisymm (not_lt.mp ge.1) (not_lt.mp le.1)
      have shorter : d <+: q := ih (fun h => ge.2 ⟨rfl, h⟩) fun h => le.2 ⟨rfl, h⟩
      exact (List.prefix_cons_inj a).mpr shorter

theorem startsWith_iff {p d : String} : startsWith p d = true ↔ d.toList <+: p.toList :=
  List.isPrefixOf_iff_prefix

theorem compare_eq_lt_iff {p q : String} : compare p q = .lt ↔ p.toList < q.toList := by
  rw [← String.lt_iff_toList_lt]
  exact compareOfLessAndEq_eq_lt

theorem isGE_compare_iff {p q : String} : (compare p q).isGE = true ↔ ¬ p.toList < q.toList := by
  rw [← compare_eq_lt_iff]
  exact Ordering.isGE_iff_ne_lt

namespace Contents

def paths (m : Contents) : List String := m.toList.map Prod.fst

variable {m : Contents} {d p k : String} {v : Bytes}

theorem mem_paths_insert {p : String} : p ∈ (m.insert k v).paths ↔ p = k ∨ p ∈ m.paths := by
  unfold paths insert
  simp only
  generalize m.toList = es
  induction es with
  | nil => simp [insertList]
  | cons e es ih =>
    unfold insertList
    split
    · simp
    · rename_i same
      rw [Std.LawfulEqCmp.eq_of_compare same]
      simp
    · rw [List.map_cons, List.mem_cons, ih, List.map_cons, List.mem_cons, or_left_comm]

theorem mem_paths_iff : p ∈ m.paths ↔ ∃ b, m.find? p = some b := by
  rw [← Option.isSome_iff_exists, paths, find?]
  induction m.toList with
  | nil => simp
  | cons e es ih =>
    rw [List.map_cons, List.mem_cons, List.lookup_cons]
    by_cases here : p = e.1
    · simp [here]
    · rw [beq_eq_false_iff_ne.mpr here]
      exact (or_iff_right here).trans ih

/-- The first of the stored paths from a given one on, in the order of bytes. -/
structure IsFirstFrom (m : Contents) (d p : String) : Prop where
  stored : p ∈ m.paths
  late : ¬ Utf8.encode p < Utf8.encode d
  first : ∀ q ∈ m.paths, ¬ Utf8.encode q < Utf8.encode d → ¬ Utf8.encode q < Utf8.encode p

theorem IsFirstFrom.unique {q : String} (hp : m.IsFirstFrom d p) (hq : m.IsFirstFrom d q) :
    p = q := by
  have not_before := hp.first q hq.stored hq.late
  have not_after := hq.first p hp.stored hp.late
  rw [Utf8.encode_lt_iff] at not_before not_after
  exact String.toList_inj.mp (le_antisymm (not_lt.mp not_before) (not_lt.mp not_after))

theorem isFirstFrom_of_firstFrom? (h : m.firstFrom? d = some p) : m.IsFirstFrom d p := by
  obtain ⟨e, found, rfl⟩ := Option.map_eq_some_iff.mp h
  obtain ⟨late, earlier, later, split, early⟩ := List.find?_eq_some_iff_append.mp found
  refine ⟨List.mem_map_of_mem (List.mem_of_find?_eq_some found), ?_, fun q hq from_d => ?_⟩
  · rwa [Utf8.encode_lt_iff, ← isGE_compare_iff]
  · rw [Utf8.encode_lt_iff, ← isGE_compare_iff] at from_d
    rw [Utf8.encode_lt_iff]
    obtain ⟨x, hx, rfl⟩ := List.mem_map.mp hq
    have sorted := m.increasing
    rw [split] at hx sorted
    rcases List.mem_append.mp hx with hx | hx
    · exact absurd from_d (by simpa using early x hx)
    · rcases List.mem_cons.mp hx with rfl | hx
      · exact lt_irrefl _
      · have after := (List.pairwise_cons.mp (List.pairwise_append.mp sorted).2.1).1 x hx
        exact lt_asymm (compare_eq_lt_iff.mp after)

theorem exists_firstFrom? (stored : p ∈ m.paths) (late : ¬ Utf8.encode p < Utf8.encode d) :
    ∃ q, m.firstFrom? d = some q := by
  obtain ⟨e, he, rfl⟩ := List.mem_map.mp stored
  rw [Utf8.encode_lt_iff, ← isGE_compare_iff] at late
  have some : (m.toList.find? fun e => (compare e.1 d).isGE).isSome = true :=
    List.find?_isSome.mpr ⟨e, he, late⟩
  obtain ⟨first, found⟩ := Option.isSome_iff_exists.mp some
  exact ⟨first.1, by rw [firstFrom?, found]; rfl⟩

theorem firstFrom?_eq_some_iff : m.firstFrom? d = some p ↔ m.IsFirstFrom d p := by
  refine ⟨isFirstFrom_of_firstFrom?, fun h => ?_⟩
  obtain ⟨q, found⟩ := exists_firstFrom? h.stored h.late
  rw [found, (isFirstFrom_of_firstFrom? found).unique h]

/-- The probe for a directory misses no path in it. -/
theorem startsWith_firstFrom? {d : String} :
    (∃ p, m.firstFrom? d = some p ∧ startsWith p d = true) ↔
      ∃ p ∈ m.paths, startsWith p d = true := by
  constructor
  · rintro ⟨p, found, starts⟩
    exact ⟨p, (isFirstFrom_of_firstFrom? found).stored, starts⟩
  · rintro ⟨p, stored, starts⟩
    obtain ⟨rest, whole⟩ := startsWith_iff.mp starts
    have late : ¬ Utf8.encode p < Utf8.encode d := by
      rw [Utf8.encode_lt_iff, ← whole]
      exact List.not_lt.mpr (List.IsPrefix.le (List.prefix_append _ _))
    obtain ⟨q, found⟩ := exists_firstFrom? stored late
    refine ⟨q, found, startsWith_iff.mpr ?_⟩
    -- what the probe finds comes after the directory, and not after the path in it
    have probed := isFirstFrom_of_firstFrom? found
    have from_d := probed.late
    have to_p := probed.first p stored late
    rw [Utf8.encode_lt_iff] at from_d to_p
    exact prefix_of_not_lt from_d (whole ▸ to_p)

end Contents

namespace MemoryStore

variable {s : MemoryStore} {l : Locator}

theorem holds_iff (directory : l.directory = true) :
    s.holds l = true ↔ ∃ p, s.contents.firstFrom? l.path = some p ∧ startsWith p l.path = true := by
  rw [holds, if_pos directory]
  cases s.contents.firstFrom? l.path <;> simp

theorem hasContent_eq (own : l.scheme = scheme) :
    s.hasContent l = s.online.map fun _ => s.holds l := by
  unfold hasContent owned
  rw [if_pos own]
  cases s.online <;> rfl

/-- Whether a directory has content is answered as long as the store is online, and what is answered
is what a scan of all paths would tell: whether the bytes of any of them begin with those of the
directory. For that only one path is looked at, the first one from the directory on. -/
theorem probe_eq_scan (own : l.scheme = scheme) (directory : l.directory = true) :
    ∃ found : Bool, s.hasContent l = s.online.map (fun _ => found) ∧
      (found = true ↔
        ∃ p, s.contents.IsFirstFrom l.path p ∧ Utf8.encode l.path <+: Utf8.encode p) ∧
      (found = true ↔
        ∃ p b, s.contents.find? p = some b ∧ Utf8.encode l.path <+: Utf8.encode p) := by
  have probed := (holds_iff (s := s) directory).trans Contents.startsWith_firstFrom?
  refine ⟨s.holds l, hasContent_eq own, ?_, ?_⟩
  · rw [holds_iff directory]
    simp only [Contents.firstFrom?_eq_some_iff, startsWith_iff, Utf8.encode_isPrefix_iff]
  · rw [probed]
    simp only [Contents.mem_paths_iff, startsWith_iff, Utf8.encode_isPrefix_iff, exists_and_right]

end MemoryStore

namespace Sample

/-- A version with a file, and two more whose directories are before its own. -/
def shelves : MemoryStore :=
  ⟨((Contents.empty.insert "/org/demo/app/1/app-1.jar" [1]).insert "/org/demo/app/1.1/app-1.1.jar"
    [2]).insert "/org/demo/app/1-rc/app-1-rc.jar" [3], true⟩

end Sample

open Sample in
theorem MemoryStore.probe_eq_scan_sample :
    shelves.hasContent ⟨"mem", "/org/demo/app/1/", false⟩ = .ok true ∧
    shelves.hasContent ⟨"mem", "/org/demo/app/1.0/", false⟩ = .ok false := by
  have directory : (Locator.mk "mem" "/org/demo/app/1/" false).directory = true := by decide +kernel
  have directory' : (Locator.mk "mem" "/org/demo/app/1.0/" false).directory = true := by
    decide +kernel
  obtain ⟨found, answer, -, scan⟩ := probe_eq_scan (s := shelves) rfl directory
  obtain ⟨found', answer', -, scan'⟩ := probe_eq_scan (s := shelves) rfl directory'
  have there : found = true :=
    scan.mpr ⟨"/org/demo/app/1/app-1.jar", [1], by decide +kernel, by decide +kernel⟩
  have absent : ¬ found' = true := by
    rw [scan']
    rintro ⟨p, b, stored, begins⟩
    have none : ∀ q ∈ shelves.contents.paths,
        ¬ Utf8.encode "/org/demo/app/1.0/" <+: Utf8.encode q := by decide +kernel
    exact none p (Contents.mem_paths_iff.mpr ⟨b, stored⟩) begins
  rw [answer, answer', there, Bool.eq_false_of_not_eq_true absent]
  exact ⟨rfl, rfl⟩

end Depot
