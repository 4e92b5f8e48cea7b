import Depot.Proofs.Resolution.Table
import Depot.Proofs.Store.Containment
import Depot.Proofs.Tree.Changes

/-!
# Writing a file to a file store

A file is written under another name, with a suffix, and then renamed. So a write that succeeds
puts the file in place, one that fails leaves it as it was, and in both cases all files of the
layout are as before except one: a file may itself have that other name, since an extension can end
in the suffix. That one is lost when the write succeeds. When it fails, the first of the new bytes
may be in it, none or all of them too.
-/

namespace Depot

open Text

/-! ### The file beside a file -/

namespace Place

variable {dir : List String} {name : String}

theorem path_append (dir : List String) (name t : String) :
    (Place.mk (dir ++ [name]) false).path ++ t = (Place.mk (dir ++ [name ++ t]) false).path := by
  rw [← String.toList_inj]
  simp [toList_path, pieces]

/-- The name under which a file is written first is a part as well. -/
theorem isPart_side (parts : ∀ s ∈ dir ++ [name], IsPart s) :
    ∀ s ∈ dir ++ [name ++ ".part"], IsPart s := by
  intro s hs
  rcases List.mem_append.mp hs with hs | hs
  · exact parts s (List.mem_append_left _ hs)
  · rw [List.mem_singleton.mp hs]
    have clean := (parts name List.mem_concat_self).clean
    exact (clean.append (by decide)).part (c := 'p') (by simp) (by decide)

end Place

namespace Layout

variable {c : Coordinate} {kind : Kind} {g : Option Signature} {p : String}

/-- The segments of the path of a file. -/
theorem exists_segments_path (h : path c (some kind) g = .ok p) :
    ∃ dir name, p = (Place.mk (dir ++ [name]) false).path ∧ ∀ s ∈ dir ++ [name], IsPart s := by
  obtain ⟨q, placed, rfl⟩ := exists_place h
  obtain ⟨dir, name, last⟩ := exists_segments_place placed
  have file := directory_place placed
  have parts := isPart_place placed
  obtain ⟨segments, directory⟩ := q
  obtain rfl : segments = dir ++ [name] := last
  obtain rfl : directory = false := file
  exact ⟨dir, name, rfl, parts⟩

theorem eq_t_of_part {a tail p : String} (h : a ++ tail = p ++ ".part") {x : Char}
    (hx : tail.toList.getLast? = some x) : x = 't' := by
  have last := congrArg (fun s : String => s.toList.getLast?) h
  simpa [hx] using last

/-- Only an extension makes a path end like that of a file that is being written. -/
theorem extension_of_part (h : path c (some kind) g = .ok (p ++ ".part")) :
    g = none ∧ ∃ e, kind = .other e ∧ endsWith ("." ++ e) ".part" = true := by
  obtain ⟨q, placed, ends⟩ := exists_place h
  have last : ∀ {ss : List String} {a z : String}, q = ⟨ss ++ [a ++ z], false⟩ →
      ∃ before, before ++ z = p ++ ".part" := by
    rintro ss a z rfl
    rw [ends, ← Place.path_append]
    exact ⟨_, rfl⟩
  have not_last : ∀ {ss : List String} {a z : String} {x : Char},
      z.toList.getLast? = some x → x ≠ 't' → q ≠ ⟨ss ++ [a ++ z], false⟩ := by
    intro ss a z x hx other at_end
    obtain ⟨before, same⟩ := last at_end
    exact other (eq_t_of_part same hx)
  cases g with
  | some g =>
    have signature : ∀ {ss : List String} {a : String}, q ≠ ⟨ss ++ [a ++ g.suffix], false⟩ := by
      cases g <;> exact not_last rfl (by decide)
    cases kind with
    | jar | source | manifest | metadata =>
      cases placed
      exact absurd rfl signature
    | other e =>
      simp only [place] at placed
      split at placed
      · cases placed
        exact absurd rfl signature
      · cases placed
  | none =>
    refine ⟨rfl, ?_⟩
    cases kind with
    | jar =>
      cases placed
      exact absurd rfl (not_last (z := ".jar") rfl (by decide))
    | source =>
      cases placed
      exact absurd rfl (not_last (z := "-sources.jar") rfl (by decide))
    | manifest =>
      cases placed
      exact absurd rfl (not_last (z := ".toml") rfl (by decide))
    | metadata =>
      cases placed
      exact absurd rfl (not_last (a := "metadata") (z := ".toml") rfl (by decide))
    | other e =>
      simp only [place, String.append_assoc] at placed
      split at placed
      · obtain ⟨before, same⟩ := last (Except.ok.inj placed).symm
        have ends_e : ("." ++ e).toList <:+ (p ++ ".part").toList :=
          ⟨before.toList, by simp [← same]⟩
        have ends_part : ".part".toList <:+ (p ++ ".part").toList :=
          ⟨p.toList, (String.toList_append ..).symm⟩
        refine ⟨e, rfl, List.isSuffixOf_iff_suffix.mpr ?_⟩
        rcases List.suffix_or_suffix_of_suffix ends_e ends_part with short | long
        · -- a shorter end of the suffix would have no dot
          rcases List.suffix_cons_iff.mp short with whole | shorter
          · rw [whole]
            exact List.suffix_refl _
          · have dot : '.' ∈ ['p', 'a', 'r', 't'] := shorter.mem (by simp)
            exact absurd dot (by decide)
        · exact long
      · cases placed

end Layout

namespace FileStore

variable {s s' : FileStore} {l : Locator} {dir r : List String} {name : String} {b : Bytes}
  {res : Except StoreError Unit}

open FileTree

theorem checkRoot_eq_ok : s.checkRoot = .ok () ↔ ∃ r, s.tree.entry s.root = .ok (r, .directory) := by
  unfold checkRoot
  cases s.tree.entry s.root with
  | error e => cases e <;> simp
  | ok found =>
    obtain ⟨path, n⟩ := found
    cases n <;> simp

theorem locator_eq_ok {c : Coordinate} {kind : Option Kind} {g : Option Signature} {writable : Bool}
    (h : s.locator c kind g writable = .ok l) :
    l.scheme = scheme ∧ l.writable = writable ∧ Layout.path c kind g = .ok l.path := by
  obtain ⟨_, -, h⟩ := exists_ok_of_bind h
  split at h
  · rename_i placed
    cases h
    exact ⟨rfl, rfl, placed⟩
  · cases h

theorem locator_of_prepare {c : Coordinate} {kind : Option Kind} {g : Option Signature}
    (h : (s.prepare c kind g).1 = .ok l) : s.locator c kind g true = .ok l := by
  unfold prepare at h
  split at h
  · cases h
  · rename_i m made
    rw [made]
    split at h
    · cases h
    · split at h
      · exact h
      · split at h
        · exact h
        · cases h

theorem resolvePath_file (filed : l.scheme = scheme)
    (at_path : l.path = (Place.mk (dir ++ [name]) false).path)
    (parts : ∀ s ∈ dir ++ [name], IsPart s) :
    s.resolvePath l = .ok (below s.root dir name) := by
  obtain ⟨_, _, writable⟩ := l
  subst filed at_path
  rw [resolvePath_place (fun t ht => .of_part (parts t ht)), List.foldl_append]
  rfl

/-- A store whose directory is there reads where the segments lead. -/
theorem read_file (rooted : s.tree.entry s.root = .ok (r, .directory))
    (filed : l.scheme = scheme) (at_path : l.path = (Place.mk (dir ++ [name]) false).path)
    (parts : ∀ s ∈ dir ++ [name], IsPart s) :
    s.read l = match s.tree.read (below s.root dir name) with
      | .ok b => .ok b
      | .error .noEntry => .error (.notFound l)
      | .error e => .error (.io e) := by
  unfold read
  rw [checkRoot_eq_ok.mpr ⟨r, rooted⟩, resolvePath_file filed at_path parts]
  rfl

/-- It has the files that lie there with the right names, if they can be read. -/
theorem read_eq_ok (tree : s.tree.IsTree) (rooted : s.tree.entry s.root = .ok (r, .directory))
    (filed : l.scheme = scheme) (at_path : l.path = (Place.mk (dir ++ [name]) false).path)
    (parts : ∀ s ∈ dir ++ [name], IsPart s) :
    s.read l = .ok b ↔ Fits s.root dir name ∧ s.tree.Opens r (dir ++ [name]) ∧
      ∃ m, s.tree.Holds (r ++ (dir ++ [name])) b m ∧ m.read = none := by
  rw [← tree.read_below rooted parts, read_file rooted filed at_path parts]
  cases s.tree.read (below s.root dir name) with
  | error e => cases e <;> simp
  | ok b => simp

theorem read_refused (tree : s.tree.IsTree) (rooted : s.tree.entry s.root = .ok (r, .directory))
    (filed : l.scheme = scheme) (at_path : l.path = (Place.mk (dir ++ [name]) false).path)
    (parts : ∀ s ∈ dir ++ [name], IsPart s) (fits : Fits s.root dir name)
    (opened : s.tree.Opens r (dir ++ [name])) {m : Refusals}
    (there : s.tree.Holds (r ++ (dir ++ [name])) b m) {why : Refusal} (refused : m.read = some why) :
    s.read l = .error (.io (.refused why)) := by
  rw [read_file rooted filed at_path parts,
    tree.read_refused rooted parts fits opened there refused]

/-- What writing a file comes to: nothing is written, or the file beside it has the first bytes,
maybe all of them, and keeps that name, or it has all of them and gets the right name. -/
inductive Written (root : String) (r dir : List String) (name : String) (b : Bytes)
    (t t' : FileTree) : Except StoreError Unit → Prop
  | refused (e : StoreError) : ChangesOnly [] t t' → Written root r dir name b t t' (.error e)
  | left (e : StoreError) {x : Bytes} {m : Refusals} : x <+: b →
      Writes root r dir (name ++ ".part") x m t t' → Written root r dir name b t t' (.error e)
  | placed {m : Refusals} {t₁ : FileTree} : Writes root r dir (name ++ ".part") b m t t₁ →
      ChangesOnly [r ++ (dir ++ [name]), r ++ (dir ++ [name ++ ".part"])] t₁ t' →
      t'.Holds (r ++ (dir ++ [name])) b m → t'.find? (r ++ (dir ++ [name ++ ".part"])) = none →
      Fits root dir name → Written root r dir name b t t' (.ok ())

/-- In any case the files in other places are as they were. -/
theorem Written.changes {root : String} {t t' : FileTree} (h : Written root r dir name b t t' res) :
    ChangesOnly [r ++ (dir ++ [name]), r ++ (dir ++ [name ++ ".part"])] t t' := by
  cases h with
  | refused e changes => exact changes.mono (by simp)
  | left e first wrote => exact wrote.fills.changes.mono (by simp)
  | placed wrote changes there gone fits => exact (wrote.fills.changes.mono (by simp)).trans changes

theorem replace_written (rooted : s.tree.entry s.root = .ok (r, .directory))
    (parts : ∀ s ∈ dir ++ [name], IsPart s)
    (h : s.replace (below s.root dir name) b = (res, s')) :
    s'.root = s.root ∧ Written s.root r dir name b s.tree s'.tree res := by
  have side_parts := Place.isPart_side parts
  have last : IsSegment name :=
    .of_part (parts name List.mem_concat_self)
  have side : below s.root dir name ++ ".part" = below s.root dir (name ++ ".part") :=
    (Path.join_append last ".part").symm
  simp only [replace, side] at h
  split at h
  · rename_i stopped stops
    cases h
    refine ⟨rfl, ?_⟩
    obtain unchanged | ⟨m, x, first, wrote⟩ := write_stops_below rooted side_parts stops
    · rw [unchanged]
      exact .refused _ (.refl _)
    · exact .left _ first wrote
  · rename_i t wrote
    obtain ⟨m, wrote⟩ := write_below rooted side_parts wrote
    split at h
    · cases h
      exact ⟨rfl, .left _ List.prefix_rfl wrote⟩
    · rename_i t' renamed
      cases h
      obtain ⟨b', m', ⟨there', refused'⟩, fits, -, changes, placed, gone⟩ :=
        rename_below (wrote.fills.changes.entry rooted) side_parts parts renamed
      obtain ⟨there, refused⟩ := wrote.fills.holds
      cases there.symm.trans there'
      cases refused.symm.trans refused'
      refine ⟨rfl, .placed wrote changes placed (gone ?_) fits⟩
      simp

theorem makeDirs_changes {d : String} (h : s.makeDirs d = (res, s')) :
    s'.root = s.root ∧ ChangesOnly [] s.tree s'.tree := by
  have changes := makeDirsWith_changes (d.length + 1) s.tree d
  unfold makeDirs at h
  split at h <;>
  · rename_i made
    cases h
    rw [FileTree.makeDirs] at made
    rw [made] at changes
    exact ⟨rfl, changes⟩

/-- Directories that were made before make no difference. -/
theorem Written.after {root : String} {t t' t'' : FileTree} (made : ChangesOnly [] t t')
    (h : Written root r dir name b t' t'' res) : Written root r dir name b t t'' res := by
  cases h with
  | refused e changes => exact .refused e (made.trans changes)
  | left e first wrote => exact .left e first (wrote.after made)
  | placed wrote changes there gone fits => exact .placed (wrote.after made) changes there gone fits

theorem checkWrite_file (rooted : s.tree.entry s.root = .ok (r, .directory))
    (filed : l.scheme = scheme) (writable : l.writable = true)
    (at_path : l.path = (Place.mk (dir ++ [name]) false).path)
    (parts : ∀ s ∈ dir ++ [name], IsPart s) : s.checkWrite l = .ok (below s.root dir name) := by
  have segments : ∀ s ∈ dir ++ [name], IsSegment s := fun s hs => .of_part (parts s hs)
  have file : l.directory = false := by
    rw [Locator.directory, at_path]
    exact Place.not_endsWith_slash segments rfl rfl
  unfold checkWrite
  rw [checkRoot_eq_ok.mpr ⟨r, rooted⟩, writable, file]
  exact resolvePath_file filed at_path parts

theorem write_written (rooted : s.tree.entry s.root = .ok (r, .directory))
    (filed : l.scheme = scheme) (writable : l.writable = true)
    (at_path : l.path = (Place.mk (dir ++ [name]) false).path)
    (parts : ∀ s ∈ dir ++ [name], IsPart s) (h : s.write l b = (res, s')) :
    s'.root = s.root ∧ Written s.root r dir name b s.tree s'.tree res := by
  simp only [write, checkWrite_file rooted filed writable at_path parts] at h
  split at h
  · exact replace_written rooted parts h
  · rename_i d _
    split at h
    · rename_i made
      cases h
      obtain ⟨same, changes⟩ := makeDirs_changes made
      exact ⟨same, .refused _ changes⟩
    · rename_i s₁ made
      obtain ⟨same, changes⟩ := makeDirs_changes made
      have rooted₁ : s₁.tree.entry s₁.root = .ok (r, .directory) := same ▸ changes.entry rooted
      rw [← same] at h ⊢
      obtain ⟨same', written⟩ := replace_written rooted₁ parts h
      exact ⟨same', written.after changes⟩

/-! ### All files of the layout -/

/-- A locator of a file that the layout has a place for. -/
def IsLaid (l : Locator) : Prop :=
  l.scheme = scheme ∧ ∃ c kind g, Layout.path c (some kind) g = .ok l.path

/-- What can be read through a locator in one of two stores can be read in the other. -/
def ReadsAlike (s s' : FileStore) (l : Locator) : Prop := ∀ b, s'.read l = .ok b ↔ s.read l = .ok b

theorem IsLaid.exists_segments (h : IsLaid l) : ∃ dir name,
    l.path = (Place.mk (dir ++ [name]) false).path ∧ ∀ s ∈ dir ++ [name], IsPart s := by
  obtain ⟨-, c, kind, g, path⟩ := h
  exact Layout.exists_segments_path path

/-- A file is read as before unless it lies in one of the places in which the tree changed. -/
theorem readsAlike (places : List (List String)) (tree : s.tree.IsTree)
    (rooted : s.tree.entry s.root = .ok (r, .directory)) (same : s'.root = s.root)
    (changes : ChangesOnly (places.map (r ++ ·)) s.tree s'.tree) (laid : IsLaid l)
    (elsewhere : ∀ segments ∈ places, l.path ≠ (Place.mk segments false).path) :
    ReadsAlike s s' l := by
  obtain ⟨dir, name, at_path, parts⟩ := laid.exists_segments
  have rooted' : s'.tree.entry s'.root = .ok (r, .directory) := same ▸ changes.entry rooted
  have apart : r ++ (dir ++ [name]) ∉ places.map (r ++ ·) := by
    intro changed
    obtain ⟨segments, listed, together⟩ := List.mem_map.mp changed
    exact elsewhere segments listed (List.append_cancel_left together ▸ at_path)
  intro b
  rw [read_eq_ok (changes.tree tree) rooted' laid.1 at_path parts,
    read_eq_ok tree rooted laid.1 at_path parts, same, changes.opens_iff]
  simp only [changes.file _ apart]

/-- A store whose directory is not there refuses to write. -/
theorem write_refused (absent : ¬∃ r, s.tree.entry s.root = .ok (r, .directory)) :
    ∃ e, s.write l b = (.error e, s) := by
  cases checked : s.checkRoot with
  | ok => exact absurd (checkRoot_eq_ok.mp checked) absent
  | error e =>
    refine ⟨e, ?_⟩
    simp [write, checkWrite, checked, bind, Except.bind]

/-- The locator of the file that is written first. -/
def beside (l : Locator) : Locator := { l with path := l.path ++ ".part" }

/-- The file beside has been filled. What it holds can be read, unless it is an old file that could
not be read before and cannot be now. -/
theorem read_beside (tree : s.tree.IsTree) (rooted : s.tree.entry s.root = .ok (r, .directory))
    (same : s'.root = s.root) {x : Bytes} {m : Refusals}
    (wrote : Writes s.root r dir name x m s.tree s'.tree)
    (parts : ∀ s ∈ dir ++ [name], IsPart s) :
    (∀ l', IsLaid l' → l'.path = (Place.mk (dir ++ [name]) false).path → s'.read l' = .ok x) ∨
      ∀ l', IsLaid l' → l'.path = (Place.mk (dir ++ [name]) false).path → ReadsAlike s s' l' := by
  have changes := wrote.fills.changes
  have tree' := changes.tree tree
  have rooted' : s'.tree.entry s'.root = .ok (r, .directory) := same ▸ changes.entry rooted
  have fits' : Fits s'.root dir name := same ▸ wrote.fits
  have opened' := changes.opens_iff.mpr wrote.opened
  obtain readable | ⟨why, x', refused, old⟩ := wrote.fills.readable_or
  · refine .inl fun l' laid here => ?_
    exact (read_eq_ok tree' rooted' laid.1 here parts).mpr
      ⟨fits', opened', m, wrote.fills.holds, readable⟩
  · refine .inr fun l' laid here y => ?_
    rw [read_refused tree rooted laid.1 here parts wrote.fits wrote.opened old refused,
      read_refused tree' rooted' laid.1 here parts fits' opened' wrote.fills.holds refused]

/-- The file that was filled beside has got its place. What it holds can be read there, unless it
could not be read beside. -/
theorem read_placed (tree : s.tree.IsTree) (rooted : s.tree.entry s.root = .ok (r, .directory))
    (same : s'.root = s.root) {places : List (List String)}
    (changes : ChangesOnly places s.tree s'.tree) {t₁ : FileTree} {m : Refusals}
    (wrote : Writes s.root r dir (name ++ ".part") b m s.tree t₁)
    (found : s'.tree.Holds (r ++ (dir ++ [name])) b m) (fits : Fits s.root dir name)
    (filed : l.scheme = scheme) (at_path : l.path = (Place.mk (dir ++ [name]) false).path)
    (parts : ∀ s ∈ dir ++ [name], IsPart s) :
    (∀ l', IsLaid l' → l'.path = l.path → s'.read l' = .ok b) ∨
      ∃ why, s.read (beside l) = .error (.io (.refused why)) ∧
        ∀ l', IsLaid l' → l'.path = l.path → s'.read l' = .error (.io (.refused why)) := by
  have tree' := changes.tree tree
  have rooted' : s'.tree.entry s'.root = .ok (r, .directory) := same ▸ changes.entry rooted
  have fits' : Fits s'.root dir name := same ▸ fits
  have opened : s.tree.Opens r (dir ++ [name]) := opens_concat.mpr (opens_concat.mp wrote.opened)
  have opened' := changes.opens_iff.mpr opened
  obtain readable | ⟨why, x, refused, old⟩ := wrote.fills.readable_or
  · refine .inl fun l' laid here => ?_
    exact (read_eq_ok tree' rooted' laid.1 (here.trans at_path) parts).mpr
      ⟨fits', opened', m, found, readable⟩
  · refine .inr ⟨why, ?_, fun l' laid here => ?_⟩
    · have side_path : (beside l).path = (Place.mk (dir ++ [name ++ ".part"]) false).path := by
        rw [beside, at_path, Place.path_append]
      exact read_refused (l := beside l) tree rooted filed side_path (Place.isPart_side parts)
        wrote.fits wrote.opened old refused
    · exact read_refused tree' rooted' laid.1 (here.trans at_path) parts fits' opened' found refused

/-- What a write does to every file that the layout has a place for, in any tree. A file in another
place is as it was, and one that is not has the name under which the new file is written first: its
kind is known by an extension with that suffix. A write that succeeds can be read, unless a file of
that other name was there and could not be, and takes the file of that name away. A write that fails
leaves the file in its place as it was, and the other one too unless it holds the first of the bytes
that were to be written, any number of them. In any case it leaves a tree. -/
theorem write_isolated {s₀ : FileStore} {c : Coordinate} {kind : Kind} {g : Option Signature}
    (located : (s₀.prepare c (some kind) g).1 = .ok l) (tree : s.tree.IsTree)
    (written : s.write l b = (res, s')) :
    s'.tree.IsTree ∧
    (∀ l', IsLaid l' → l'.path ≠ l.path → l'.path ≠ l.path ++ ".part" → ReadsAlike s s' l') ∧
    (∀ c' kind' g', Layout.path c' (some kind') g' = .ok (l.path ++ ".part") →
      g' = none ∧ ∃ e, kind' = .other e ∧ endsWith ("." ++ e) ".part" = true) ∧
    (res = .ok () →
      ((∀ l', IsLaid l' → l'.path = l.path → s'.read l' = .ok b) ∨
        ∃ why, s.read (beside l) = .error (.io (.refused why)) ∧
          ∀ l', IsLaid l' → l'.path = l.path → s'.read l' = .error (.io (.refused why))) ∧
      ∀ l', IsLaid l' → l'.path = l.path ++ ".part" → ∀ x, s'.read l' ≠ .ok x) ∧
    (∀ e, res = .error e → (∀ l', IsLaid l' → l'.path = l.path → ReadsAlike s s' l') ∧
      ((∀ l', IsLaid l' → l'.path = l.path ++ ".part" → ReadsAlike s s' l') ∨
        ∃ x, x <+: b ∧ ∀ l', IsLaid l' → l'.path = l.path ++ ".part" → s'.read l' = .ok x)) := by
  obtain ⟨filed, writable, path⟩ := locator_eq_ok (locator_of_prepare located)
  obtain ⟨dir, name, at_path, parts⟩ := Layout.exists_segments_path path
  have side_parts := Place.isPart_side parts
  have side_path : l.path ++ ".part" = (Place.mk (dir ++ [name ++ ".part"]) false).path := by
    rw [at_path, Place.path_append]
  have longer : l.path ≠ l.path ++ ".part" := Ne.symm (by simp)
  have named : ∀ c' kind' g', Layout.path c' (some kind') g' = .ok (l.path ++ ".part") →
      g' = none ∧ ∃ e, kind' = .other e ∧ endsWith ("." ++ e) ".part" = true :=
    fun _ _ _ => Layout.extension_of_part
  by_cases there : ∃ r, s.tree.entry s.root = .ok (r, .directory)
  · obtain ⟨r, rooted⟩ := there
    obtain ⟨same, outcome⟩ := write_written rooted filed writable at_path parts written
    have changes := outcome.changes
    have tree' := changes.tree tree
    have rooted' : s'.tree.entry s'.root = .ok (r, .directory) := same ▸ changes.entry rooted
    have others : ∀ l', IsLaid l' → l'.path ≠ l.path → l'.path ≠ l.path ++ ".part" →
        ReadsAlike s s' l' := by
      intro l' laid other beside
      exact readsAlike [dir ++ [name], dir ++ [name ++ ".part"]] tree rooted same changes laid
        (by simpa [← side_path, ← at_path] using ⟨other, beside⟩)
    refine ⟨tree', others, named, ?_⟩
    cases outcome with
    | refused e unchanged =>
      have alike : ∀ l', IsLaid l' → ReadsAlike s s' l' := fun l' laid =>
        readsAlike [] tree rooted same unchanged laid (by simp)
      exact ⟨nofun, fun _ _ => ⟨fun l' laid _ => alike l' laid, .inl fun l' laid _ => alike l' laid⟩⟩
    | @left e x m first wrote =>
      refine ⟨nofun, fun _ _ => ⟨fun l' laid here => ?_, ?_⟩⟩
      · exact readsAlike [dir ++ [name ++ ".part"]] tree rooted same wrote.fills.changes laid
          (by simpa [← side_path, here] using longer)
      · rw [side_path]
        exact (read_beside tree rooted same wrote side_parts).symm.imp_right
          fun holds => ⟨x, first, holds⟩
    | @placed m t₁ wrote _ found gone fits =>
      refine ⟨fun _ => ⟨?_, fun l' laid here x reads => ?_⟩, nofun⟩
      · exact read_placed tree rooted same changes wrote found fits filed at_path parts
      · obtain ⟨-, -, m', ⟨kept, -⟩, -⟩ := (read_eq_ok tree' rooted' laid.1 (here.trans side_path)
          side_parts).mp reads
        rw [gone] at kept
        cases kept
  · obtain ⟨e, unchanged⟩ := write_refused (l := l) (b := b) there
    cases unchanged.symm.trans written
    exact ⟨tree, fun _ _ _ _ _ => Iff.rfl, named, nofun,
      fun _ _ => ⟨fun _ _ _ _ => Iff.rfl, .inl fun _ _ _ _ => Iff.rfl⟩⟩

end FileStore

namespace Sample

/-- A store that holds one file, known by an extension that ends like the name of a file that is
being written. -/
def cabinet : FileStore where
  root := "/s"
  tree :=
    { nodes := [(["s"], .directory), (["s", "org"], .directory), (["s", "org", "demo"], .directory),
        (["s", "org", "demo", "app"], .directory), (["s", "org", "demo", "app", "1"], .directory),
        (["s", "org", "demo", "app", "1", "app-1.jar.part"], .file [1])]
      current := [] }

/-- The same store with no room for more than one byte. -/
def fullCabinet : FileStore :=
  { cabinet with
    tree.refused := [(["s", "org", "demo", "app", "1"], { room := some (1, .noSpace) })] }

def appJar : Locator := ⟨FileStore.scheme, "/org/demo/app/1/app-1.jar", true⟩

def appJarPart : Locator := ⟨FileStore.scheme, "/org/demo/app/1/app-1.jar.part", true⟩

theorem isTree_cabinet : cabinet.tree.IsTree := FileTree.isTree_of_nodes (by decide +kernel)

theorem isTree_fullCabinet : fullCabinet.tree.IsTree :=
  FileTree.isTree_of_nodes (by decide +kernel)

theorem prepare_appJar : (cabinet.prepare app (some .jar) none).1 = .ok appJar := by decide +kernel

theorem write_appJar : (cabinet.write appJar [2, 3]).1 = .ok () := by decide +kernel

theorem write_appJar_full :
    (fullCabinet.write appJar [2, 3]).1 = .error (.io (.refused .noSpace)) := by decide +kernel

end Sample

open Sample in
/-- A write that succeeds, and one that has to stop after the first byte, which is then in another
file of the layout. -/
theorem FileStore.write_isolated_sample :
    (cabinet.prepare app (some .jar) none).1 = .ok appJar ∧ cabinet.tree.IsTree ∧
    (cabinet.write appJar [2, 3]).1 = .ok () ∧
    (cabinet.write appJar [2, 3]).2.read appJar = .ok [2, 3] ∧
    (fullCabinet.write appJar [2, 3]).1 = .error (.io (.refused .noSpace)) ∧
    ReadsAlike fullCabinet (fullCabinet.write appJar [2, 3]).2 appJar ∧
    fullCabinet.read appJarPart = .ok [1] ∧
    ∃ x, x <+: [2, 3] ∧ (fullCabinet.write appJar [2, 3]).2.read appJarPart = .ok x := by
  have laid : IsLaid appJar := ⟨rfl, app, .jar, none, by decide +kernel⟩
  have laid_part : IsLaid appJarPart := ⟨rfl, app, .other "jar.part", none, by decide +kernel⟩
  have kept : fullCabinet.read appJarPart = .ok [1] := by decide +kernel
  have lost : (fullCabinet.write appJar [2, 3]).2.read appJarPart ≠ .ok [1] := by decide +kernel
  have not_refused : ∀ why, cabinet.read (beside appJar) ≠ .error (.io (.refused why)) := by
    have read : cabinet.read (beside appJar) = .ok [1] := by decide +kernel
    simp [read]
  obtain ⟨-, -, -, done, -⟩ := write_isolated prepare_appJar isTree_cabinet
    (Prod.ext write_appJar rfl : cabinet.write appJar [2, 3] =
      (.ok (), (cabinet.write appJar [2, 3]).2))
  obtain ⟨-, -, -, -, failed⟩ := write_isolated prepare_appJar isTree_fullCabinet
    (Prod.ext write_appJar_full rfl : fullCabinet.write appJar [2, 3] =
      (.error (.io (.refused .noSpace)), (fullCabinet.write appJar [2, 3]).2))
  obtain ⟨unchanged, alike | ⟨x, first, holds⟩⟩ := failed _ rfl
  · exact absurd ((alike appJarPart laid_part rfl [1]).mpr kept) lost
  · refine ⟨prepare_appJar, isTree_cabinet, write_appJar, ?_, write_appJar_full,
      unchanged appJar laid rfl, kept, x, first, holds appJarPart laid_part rfl⟩
    obtain reads | ⟨why, refused, -⟩ := (done rfl).1
    · exact reads appJar laid rfl
    · exact absurd refused (not_refused why)

open Sample in
/-- Writing the jar succeeds, and another file of the layout cannot be read any more. -/
theorem FileStore.lost_by_write :
    cabinet.tree.IsTree ∧ cabinet.tree.entry cabinet.root = .ok (["s"], .directory) ∧
    (cabinet.prepare app (some .jar) none).1 = .ok appJar ∧
    (cabinet.prepare app (some (.other "jar.part")) none).1 = .ok appJarPart ∧
    cabinet.read appJarPart = .ok [1] ∧ (cabinet.write appJar [2]).1 = .ok () ∧
    (cabinet.write appJar [2]).2.read appJarPart = .error (.notFound appJarPart) := by
  refine ⟨isTree_cabinet, ?_, prepare_appJar, ?_, ?_, ?_, ?_⟩ <;> decide +kernel

end Depot
