import Mathlib.Data.List.Induction
import Depot.Batch
import Depot.Store.Memory
import Depot.Proofs.Resolution.Table
import Depot.Proofs.Units.Slots

/-!
# Loading units

Units are asked for and evicted, one call after the other, and between the calls the store may
change. A unit is kept for the one resolution that it was loaded for, until its key is evicted or
another resolution with that key is asked for. All other calls read the files anew.
-/

namespace Depot

variable {σ : Type} [ArtifactStore σ]

/-- What an unreadable file is reported as. -/
def LoadError.ofRead (entry : ClasspathEntry) : StoreError → LoadError
  | .notFound _ => .artifact entry
  | e => .store e

namespace Bundle

theorem load_cons {s : σ} {x : ClasspathEntry} {cp : Classpath} {y : ClasspathEntry × Bytes}
    (read : readEntry s x = .ok y) :
    load s (x :: cp) = (load s cp).map fun b => ⟨y :: b.artifacts⟩ := by
  simp only [load, readAll, read]
  cases readAll s cp <;> rfl

/-- The result of reading all files, and which files have been read. -/
theorem load_cases (s : σ) (cp : Classpath) :
    (∃ b, load s cp = .ok b ∧ b.artifacts.map Prod.fst = cp ∧
      (∀ p ∈ b.artifacts, ArtifactStore.read s p.1.locator = .ok p.2) ∧
      reads s cp = cp.map ClasspathEntry.locator) ∨
    ∃ readable entry rest e, cp = readable ++ entry :: rest ∧
      (∀ x ∈ readable, ∃ bytes, ArtifactStore.read s x.locator = .ok bytes) ∧
      ArtifactStore.read s entry.locator = .error e ∧ load s cp = .error (.ofRead entry e) ∧
      reads s cp = (readable ++ [entry]).map ClasspathEntry.locator := by
  induction cp with
  | nil => exact .inl ⟨⟨[]⟩, rfl, rfl, by simp, rfl⟩
  | cons x cp ih =>
    cases hx : ArtifactStore.read s x.locator with
    | error e =>
      have failed : readEntry s x = .error (.ofRead x e) := by
        cases e <;> simp [readEntry, hx, LoadError.ofRead]
      refine .inr ⟨[], x, cp, e, rfl, by simp, hx, ?_, ?_⟩
      · simp [load, readAll, failed, Except.map]
      · simp [reads, failed]
    | ok bytes =>
      have read : readEntry s x = .ok (x, bytes) := by simp [readEntry, hx]
      rcases ih with ⟨⟨artifacts⟩, loaded, entries, all, places⟩ |
        ⟨readable, entry, rest, e, split, before, unreadable, loaded, places⟩
      · refine .inl ⟨⟨(x, bytes) :: artifacts⟩, ?_, by simp [← entries], by simpa [hx] using all, ?_⟩
        · rw [load_cons read, loaded, Except.map]
        · simp [reads, read, places]
      · refine .inr ⟨x :: readable, entry, rest, e, by rw [split]; rfl, ?_, unreadable, ?_, ?_⟩
        · simpa [hx] using before
        · rw [load_cons read, loaded, Except.map]
        · simp [reads, read, places]

theorem entries_of_load {s : σ} {cp : Classpath} {b : Bundle} (h : load s cp = .ok b) :
    b.artifacts.map Prod.fst = cp := by
  rcases load_cases s cp with ⟨b', loaded, entries, -⟩ | ⟨_, _, _, _, -, -, -, failed, -⟩
  · cases h.symm.trans loaded
    exact entries
  · cases h.symm.trans failed

end Bundle

/-- What is asked of loaded units. -/
inductive Demand where
  | load (r : CachedResolution)
  | evict (roots : List Coordinate)

/-- Whether something takes away the unit of a resolution: an eviction of its key, or another
resolution with the same key. -/
def Demand.Displaces (r : CachedResolution) : Demand → Prop
  | .load r' => r'.key = r.key ∧ r'.number ≠ r.number
  | .evict roots => RootKey.ofRoots roots = r.key

def Demand.call : Demand → Call σ
  | .load r => .loadUnit r
  | .evict roots => .evictUnit roots

namespace Bench

/-- One call, on the store as it is then. -/
def serve (b : Bench σ) (p : σ × Demand) : List (Except PackageError Answer) × Bench σ :=
  { b with repository := { b.repository with store := p.1 } }.run [p.2.call]

/-- One call after the other. -/
def serveAll (b : Bench σ) (history : List (σ × Demand)) : Bench σ :=
  history.foldl (fun b p => (b.serve p).2) b

variable {b : Bench σ} {s : σ} {r : CachedResolution} {roots : List Coordinate}

theorem answerLoad_eq {x : Except LoadError LoadedUnit} {v : LoadedUnit} :
    [answerLoad x] = [.ok (.loaded v)] ↔ x = .ok v := by
  cases x <;> simp [answerLoad]

theorem serve_load (h : b.units.Sound) (s : σ) (r : CachedResolution) :
    let slot := (b.units.start r).1
    (b.serve (s, .load r)).1 = [answerLoad (slot.answer (Bundle.load s r.classpath))] ∧
      (b.serve (s, .load r)).2.units =
        ((b.units.start r).2.finish slot.number (Bundle.load s r.classpath)).2.settle ∧
      (b.serve (s, .load r)).2.reads.Perm
        ((if slot.loaded.isSome then [] else Bundle.reads s r.classpath).map Locator.path) := by
  intro slot
  have started : Units.Starts b.units r slot (b.units.start r).2 := h.start r
  have there : (b.units.start r).2.mapped? r.key = some slot := by rw [started.mapped?, if_pos rfl]
  have found : (b.units.start r).2.slot? slot.number = some slot :=
    started.sound.slot?_number (Units.mem_of_mapped? there).1
  obtain ⟨answered, -, -⟩ := started.sound.finish_eq there (Bundle.load s r.classpath)
  let now : Bench σ :=
    { b with repository := { b.repository with store := s }, reads := [], units := (b.units.start r).2 }
  have served : (b.serve (s, .load r)) =
      ([answerLoad (now.runLoad slot.number r.classpath).1],
        let b' := (now.runLoad slot.number r.classpath).2
        { b' with reads := b'.reads.mergeSort (fun x y => decide (x ≤ y)),
                  units := b'.units.settle }) := by
    unfold serve run
    simp only [Demand.call, startAll, start]
    split <;> rfl
  rw [served, ← answered]
  refine ⟨rfl, rfl, (List.mergeSort_perm _ _).trans (.of_eq ?_)⟩
  simp only [runLoad, noteReads, now, found, Option.bind_some, List.nil_append]
  rfl

theorem serve_evict (b : Bench σ) (s : σ) (roots : List Coordinate) :
    (b.serve (s, .evict roots)).2.units = (b.units.evict (.ofRoots roots)).2.settle := rfl

/-! ### What has been asked for -/

/-- A call for a resolution was answered with a unit, and this is what came later. -/
def Got (b : Bench σ) (history : List (σ × Demand)) (r : CachedResolution) (v : LoadedUnit)
    (later : List (σ × Demand)) : Prop :=
  ∃ earlier s, history = earlier ++ (s, .load r) :: later ∧
    ((b.serveAll earlier).serve (s, .load r)).1 = [.ok (.loaded v)]

/-- A unit that some call was answered with. -/
def Answered (b : Bench σ) (history : List (σ × Demand)) (v : LoadedUnit) : Prop :=
  ∃ r later, b.Got history r v later

/-- A unit that a call for a resolution was answered with, and nothing has displaced it since. -/
def Kept (b : Bench σ) (history : List (σ × Demand)) (r : CachedResolution) (v : LoadedUnit) : Prop :=
  ∃ later, b.Got history r v later ∧ ∀ p ∈ later, ¬ p.2.Displaces r

/-- Resolutions are told apart by their numbers. -/
def Identified (history : List (σ × Demand)) : Prop :=
  ∀ p ∈ history, ∀ q ∈ history, ∀ r r', p.2 = .load r → q.2 = .load r' → r.number = r'.number → r = r'

variable {h later : List (σ × Demand)} {p : σ × Demand} {v : LoadedUnit}

theorem serveAll_append (b : Bench σ) (h later : List (σ × Demand)) :
    b.serveAll (h ++ later) = (b.serveAll h).serveAll later := List.foldl_append

theorem got_append : b.Got (h ++ [p]) r v later ↔
    (∃ l, later = l ++ [p] ∧ b.Got h r v l) ∨
      later = [] ∧ p.2 = .load r ∧ ((b.serveAll h).serve p).1 = [.ok (.loaded v)] := by
  constructor
  · rintro ⟨earlier, s, split, answered⟩
    rcases List.eq_nil_or_concat' later with rfl | ⟨l, q, rfl⟩
    · obtain ⟨rfl, last⟩ := List.append_inj' split rfl
      obtain rfl := List.singleton_inj.mp last
      exact .inr ⟨rfl, rfl, answered⟩
    · rw [← List.cons_append, ← List.append_assoc] at split
      obtain ⟨rfl, last⟩ := List.append_inj' split rfl
      obtain rfl := List.singleton_inj.mp last
      exact .inl ⟨l, rfl, earlier, s, rfl, answered⟩
  · rintro (⟨l, rfl, earlier, s, rfl, answered⟩ | ⟨rfl, asked, answered⟩)
    · exact ⟨earlier, s, by simp, answered⟩
    · obtain ⟨s, d⟩ := p
      cases asked
      exact ⟨h, s, rfl, answered⟩

theorem answered_append : b.Answered (h ++ [p]) v ↔ b.Answered h v ∨
    ∃ r, p.2 = .load r ∧ ((b.serveAll h).serve p).1 = [.ok (.loaded v)] := by
  simp only [Answered, got_append]
  constructor
  · rintro ⟨r, later, ⟨l, -, got⟩ | ⟨-, last⟩⟩
    · exact .inl ⟨r, l, got⟩
    · exact .inr ⟨r, last⟩
  · rintro (⟨r, l, got⟩ | ⟨r, last⟩)
    · exact ⟨r, l ++ [p], .inl ⟨l, rfl, got⟩⟩
    · exact ⟨r, [], .inr ⟨rfl, last⟩⟩

theorem kept_append : b.Kept (h ++ [p]) r v ↔ (b.Kept h r v ∧ ¬ p.2.Displaces r) ∨
    p.2 = .load r ∧ ((b.serveAll h).serve p).1 = [.ok (.loaded v)] := by
  simp only [Kept, got_append]
  constructor
  · rintro ⟨later, ⟨l, rfl, got⟩ | ⟨-, last⟩, calm⟩
    · exact .inl ⟨⟨l, got, fun q hq => calm q (List.mem_append_left _ hq)⟩, calm p (by simp)⟩
    · exact .inr last
  · rintro (⟨⟨l, got, calm⟩, kept⟩ | last)
    · refine ⟨l ++ [p], .inl ⟨l, rfl, got⟩, fun q hq => ?_⟩
      rcases List.mem_append.mp hq with hq | hq
      · exact calm q hq
      · rw [List.mem_singleton.mp hq]
        exact kept
    · exact ⟨[], .inr ⟨rfl, last⟩, by simp⟩

/-- What is kept later, without having been asked for again, was kept before. -/
theorem kept_of_append (unasked : ∀ p ∈ later, p.2 ≠ .load r) (kept : b.Kept (h ++ later) r v) :
    b.Kept h r v := by
  induction later using List.reverseRecOn with
  | nil => simpa using kept
  | append_singleton later p ih =>
    rw [← List.append_assoc] at kept
    rcases kept_append.mp kept with ⟨kept, -⟩ | ⟨asked, -⟩
    · exact ih (fun q hq => unasked q (List.mem_append_left _ hq)) kept
    · exact absurd asked (unasked p (by simp))

/-- How a call for a resolution is served. -/
structure Serves (b : Bench σ) (s : σ) (r : CachedResolution) (slot : UnitSlot) (b' : Bench σ) :
    Prop where
  sound : b'.units.Sound
  mapped? : ∀ key, b'.units.mapped? key =
    if key = r.key then some (slot.fill (Bundle.load s r.classpath)) else b.units.mapped? key
  key : slot.key = r.key
  source : slot.source = r.number
  found : (b.units.mapped? r.key = some slot ∧ b'.units.next = b.units.next) ∨
    (∀ t, b.units.mapped? r.key = some t → t.source ≠ r.number) ∧ slot.number = b.units.next ∧
      slot.loaded = none ∧ b'.units.next = b.units.next + 1
  reads : b'.reads.Perm
    ((if slot.loaded.isSome then [] else Bundle.reads s r.classpath).map Locator.path)

theorem exists_serves (sound : b.units.Sound) (s : σ) (r : CachedResolution) :
    ∃ slot, b.Serves s r slot (b.serve (s, .load r)).2 ∧
      (b.serve (s, .load r)).1 = [answerLoad (slot.answer (Bundle.load s r.classpath))] := by
  obtain ⟨answers, units, reads⟩ := serve_load sound s r
  have started := sound.start r
  have there : (b.units.start r).2.mapped? r.key = some (b.units.start r).1 := by
    rw [started.mapped?, if_pos rfl]
  obtain ⟨-, next, mapped⟩ := started.sound.finish_eq there (Bundle.load s r.classpath)
  refine ⟨_, ⟨?_, fun key => ?_, started.key, started.source, ?_, reads⟩, answers⟩
  · rw [units]
    exact (started.sound.finish _ _).settle
  · rw [units, Units.mapped?_settle, mapped]
    by_cases here : key = r.key
    · rw [if_pos here, if_pos here]
    · rw [if_neg here, if_neg here, started.mapped?, if_neg here]
  · rw [units]
    simp only [Units.settle, next]
    exact started.found

/-- What a history tells about the units. -/
structure Books (b : Bench σ) (history : List (σ × Demand)) (u : Units) : Prop where
  sound : u.Sound
  kept : ∀ r v, b.Kept history r v →
    ∃ s, u.mapped? r.key = some s ∧ s.source = r.number ∧ s.loaded = some v
  loaded : ∀ k s v, u.mapped? k = some s → s.loaded = some v → v.number = s.number ∧
    ∃ r, r.key = k ∧ r.number = s.source ∧ b.Kept history r v ∧
      v.bundle.artifacts.map Prod.fst = r.classpath
  answered : ∀ v, b.Answered history v → v.number < u.next ∧
    ∀ k s, u.mapped? k = some s → s.number = v.number → s.loaded = some v

namespace Books

theorem evict (books : Books b h (b.serveAll h).units) (s : σ) (roots : List Coordinate) :
    Books b (h ++ [(s, .evict roots)]) ((b.serveAll h).serve (s, .evict roots)).2.units := by
  have units := serve_evict (b.serveAll h) s roots
  have mapped : ∀ key, ((b.serveAll h).serve (s, .evict roots)).2.units.mapped? key =
      if key = .ofRoots roots then none else (b.serveAll h).units.mapped? key := by
    intro key
    rw [units, Units.mapped?_settle, Units.mapped?_evict]
  have stays : ∀ key t, ((b.serveAll h).serve (s, .evict roots)).2.units.mapped? key = some t →
      key ≠ .ofRoots roots ∧ (b.serveAll h).units.mapped? key = some t := by
    intro key t found
    rw [mapped] at found
    by_cases here : key = .ofRoots roots
    · rw [if_pos here] at found
      cases found
    · rw [if_neg here] at found
      exact ⟨here, found⟩
  refine ⟨?_, fun r v kept => ?_, fun k t v found loaded => ?_, fun v answered => ?_⟩
  · rw [units]
    exact (books.sound.evict _).settle
  · rcases kept_append.mp kept with ⟨kept, calm⟩ | ⟨asked, -⟩
    · obtain ⟨t, found, source, loaded⟩ := books.kept r v kept
      refine ⟨t, ?_, source, loaded⟩
      rw [mapped, if_neg fun here => calm here.symm, found]
    · cases asked
  · obtain ⟨other, found⟩ := stays k t found
    obtain ⟨number, r, key, source, kept, entries⟩ := books.loaded k t v found loaded
    refine ⟨number, r, key, source, kept_append.mpr (.inl ⟨kept, fun gone => ?_⟩), entries⟩
    exact other (key.symm.trans gone.symm)
  · rcases answered_append.mp answered with answered | ⟨r, asked, -⟩
    · obtain ⟨old, loaded⟩ := books.answered v answered
      exact ⟨old, fun k t found => loaded k t (stays k t found).2⟩
    · cases asked

theorem load (books : Books b h (b.serveAll h).units) (s : σ) (r : CachedResolution) :
    Books b (h ++ [(s, .load r)]) ((b.serveAll h).serve (s, .load r)).2.units := by
  obtain ⟨slot, serves, answers⟩ := exists_serves books.sound s r
  have asked : ∀ v, ((b.serveAll h).serve (s, .load r)).1 = [.ok (.loaded v)] ↔
      (slot.fill (Bundle.load s r.classpath)).loaded = some v := fun v => by
    rw [answers, answerLoad_eq, UnitSlot.loaded_fill]
  have next_le : (b.serveAll h).units.next ≤ ((b.serveAll h).serve (s, .load r)).2.units.next := by
    rcases serves.found with ⟨-, same⟩ | ⟨-, -, -, grown⟩ <;> omega
  refine ⟨serves.sound, fun r' v kept => ?_, fun k t v found loaded => ?_, fun v answered => ?_⟩
  · rcases kept_append.mp kept with ⟨kept, calm⟩ | ⟨same, answered⟩
    · obtain ⟨t, found, source, loaded⟩ := books.kept r' v kept
      by_cases here : r'.key = r.key
      · have number : r.number = r'.number := by
          by_contra other
          exact calm ⟨here.symm, other⟩
        rw [here] at found
        rcases serves.found with ⟨found', -⟩ | ⟨other, -⟩
        · cases found.symm.trans found'
          refine ⟨slot.fill (Bundle.load s r.classpath), ?_, source, ?_⟩
          · rw [serves.mapped?, if_pos here]
          · rwa [UnitSlot.fill_of_loaded loaded]
        · exact absurd (source.trans number.symm) (other t found)
      · exact ⟨t, by rw [serves.mapped?, if_neg here, found], source, loaded⟩
    · cases same
      exact ⟨slot.fill (Bundle.load s r.classpath), by rw [serves.mapped?, if_pos rfl],
        serves.source, (asked v).mp answered⟩
  · rw [serves.mapped?] at found
    by_cases here : k = r.key
    · rw [if_pos here] at found
      cases found
      rcases UnitSlot.loaded_fill_cases loaded with there | ⟨-, bundle, read, rfl⟩
      · rcases serves.found with ⟨found', -⟩ | ⟨-, -, empty, -⟩
        · obtain ⟨number, r', key, source, kept, entries⟩ := books.loaded r.key slot v found' there
          refine ⟨number, r', key.trans here.symm, source, ?_, entries⟩
          exact kept_append.mpr (.inl ⟨kept, fun gone =>
            gone.2 (serves.source.symm.trans source.symm)⟩)
        · cases empty.symm.trans there
      · exact ⟨rfl, r, here.symm, serves.source.symm,
          kept_append.mpr (.inr ⟨rfl, (asked _).mpr loaded⟩), Bundle.entries_of_load read⟩
    · rw [if_neg here] at found
      obtain ⟨number, r', key, source, kept, entries⟩ := books.loaded k t v found loaded
      refine ⟨number, r', key, source, kept_append.mpr (.inl ⟨kept, fun gone => ?_⟩), entries⟩
      exact here (key.symm.trans gone.1.symm)
  · rcases answered_append.mp answered with answered | ⟨r', same, answered⟩
    · obtain ⟨old, loaded⟩ := books.answered v answered
      refine ⟨Nat.lt_of_lt_of_le old next_le, fun k t found number => ?_⟩
      rw [serves.mapped?] at found
      by_cases here : k = r.key
      · rw [if_pos here] at found
        cases found
        rcases serves.found with ⟨found', -⟩ | ⟨-, new, -⟩
        · have there := loaded r.key slot found' number
          rwa [UnitSlot.fill_of_loaded there]
        · have number : slot.number = v.number := number
          omega
      · rw [if_neg here] at found
        exact loaded k t found number
    · cases same
      have loaded := (asked v).mp answered
      have here : ((b.serveAll h).serve (s, .load r)).2.units.mapped? r.key =
          some (slot.fill (Bundle.load s r.classpath)) := by rw [serves.mapped?, if_pos rfl]
      obtain ⟨mem, -⟩ := Units.mem_of_mapped? here
      have number : v.number = slot.number := by
        rcases UnitSlot.loaded_fill_cases loaded with there | ⟨-, bundle, -, rfl⟩
        · rcases serves.found with ⟨found, -⟩ | ⟨-, -, empty, -⟩
          · exact (books.loaded r.key slot v found there).1
          · cases empty.symm.trans there
        · rfl
      have early : slot.number < _ :=
        serves.sound.numbered (slot.fill (Bundle.load s r.classpath)) mem
      refine ⟨number ▸ early, fun k t found same => ?_⟩
      rw [serves.sound.eq_of_number (Units.mem_of_mapped? found).1 mem (same.trans number), loaded]

end Books

theorem books (new : b.units = .empty) (history : List (σ × Demand)) :
    Books b history (b.serveAll history).units := by
  induction history using List.reverseRecOn with
  | nil =>
    have none : ∀ r v later, ¬ b.Got [] r v later := fun r v later ⟨earlier, s, split, _⟩ => by
      simp at split
    refine ⟨?_, ?_, ?_, ?_⟩
    · exact new ▸ Units.sound_empty
    · rintro r v ⟨later, got, -⟩
      exact absurd got (none r v later)
    · intro k s v found
      have found : (Units.empty).mapped? k = some s := new ▸ found
      cases found
    · rintro v ⟨r, later, got⟩
      exact absurd got (none r v later)
  | append_singleton history p ih =>
    obtain ⟨s, d⟩ := p
    rw [serveAll_append]
    cases d with
    | load r => exact ih.load s r
    | evict roots => exact ih.evict s roots

namespace Books

variable {s : σ} {slot : UnitSlot} {b' : Bench σ} (books : Books b h (b.serveAll h).units)
include books

theorem loaded_of_kept (serves : (b.serveAll h).Serves s r slot b') (kept : b.Kept h r v) :
    slot.loaded = some v := by
  obtain ⟨t, found, source, loaded⟩ := books.kept r v kept
  rcases serves.found with ⟨found', -⟩ | ⟨other, -⟩
  · cases found.symm.trans found'
    exact loaded
  · exact absurd source (other t found)

/-- A unit that is there has been kept for this very resolution. -/
theorem of_loaded (identified : Identified (h ++ [(s, .load r)]))
    (serves : (b.serveAll h).Serves s r slot b') (there : slot.loaded = some v) :
    b.Kept h r v ∧ v.bundle.artifacts.map Prod.fst = r.classpath := by
  rcases serves.found with ⟨found, -⟩ | ⟨-, -, empty, -⟩
  · obtain ⟨-, r', -, source, kept, entries⟩ := books.loaded r.key slot v found there
    have mem : ∃ s', (s', Demand.load r') ∈ h ++ [(s, .load r)] := by
      obtain ⟨later, ⟨earlier, s', split, -⟩, -⟩ := kept
      exact ⟨s', by simp [split]⟩
    obtain ⟨s', mem⟩ := mem
    obtain rfl : r' = r := identified _ mem (s, .load r) (by simp) r' r rfl rfl
      (source.trans serves.source)
    exact ⟨kept, entries⟩
  · cases empty.symm.trans there

/-- The number of an empty slot is not the number of a unit that anybody has. -/
theorem unanswered (serves : (b.serveAll h).Serves s r slot b') (empty : slot.loaded = none)
    (bundle : Bundle) : ¬ b.Answered h ⟨slot.number, bundle⟩ := by
  intro answered
  obtain ⟨old, loaded⟩ := books.answered _ answered
  rcases serves.found with ⟨found, -⟩ | ⟨-, new, -⟩
  · cases empty.symm.trans (loaded r.key slot found rfl)
  · exact absurd new (Nat.ne_of_lt old)

end Books

/-- Units that are asked for and evicted one call after the other, from a store that may be another
each time. The bundle of a unit holds the files of the classpath in its order. A call is answered
with a unit that an earlier call was answered with, and reads nothing, if and only if an earlier call
for that resolution was answered and nothing has displaced the unit since. Any other call reads the
files from the store as it is then: all of them, into a unit that nobody has had before, or up to
the first that cannot be read, which it reports, and then no unit is kept until the resolution is
asked for again. -/
theorem units_follow_resolutions (b : Bench σ) (new : b.units = .empty) (history : List (σ × Demand))
    (s : σ) (r : CachedResolution) (identified : Identified (history ++ [(s, .load r)])) :
    let answers := ((b.serveAll history).serve (s, .load r)).1
    let reads := ((b.serveAll history).serve (s, .load r)).2.reads
    (∀ v, answers = [.ok (.loaded v)] → v.bundle.artifacts.map Prod.fst = r.classpath ∧
      ((b.Answered history v ∧ reads = []) ↔ ∃ v', b.Kept history r v')) ∧
    (∀ v, b.Kept history r v → answers = [.ok (.loaded v)] ∧ reads = []) ∧
    ((∀ v, ¬ b.Kept history r v) →
      (∃ v, answers = [.ok (.loaded v)] ∧ ¬ b.Answered history v ∧
        (∀ p ∈ v.bundle.artifacts, ArtifactStore.read s p.1.locator = .ok p.2) ∧
        reads.Perm (r.classpath.map fun e => e.locator.path)) ∨
      ∃ readable entry rest e, r.classpath = readable ++ entry :: rest ∧
        (∀ x ∈ readable, ∃ bytes, ArtifactStore.read s x.locator = .ok bytes) ∧
        ArtifactStore.read s entry.locator = .error e ∧
        answers = [.error (.load (.ofRead entry e))] ∧
        reads.Perm ((readable ++ [entry]).map fun e => e.locator.path) ∧
        ∀ later, (∀ p ∈ later, p.2 ≠ .load r) →
          ∀ v, ¬ b.Kept (history ++ (s, .load r) :: later) r v) := by
  intro answers reads
  have books : Books b history (b.serveAll history).units := books new history
  obtain ⟨slot, serves, answered⟩ := exists_serves books.sound s r
  have kept_iff : ∀ v, slot.loaded = some v ↔ b.Kept history r v := fun v =>
    ⟨fun there => (books.of_loaded identified serves there).1, books.loaded_of_kept serves⟩
  have answers_eq : ∀ v, answers = [.ok (.loaded v)] ↔
      slot.answer (Bundle.load s r.classpath) = .ok v := fun v => by
    show ((b.serveAll history).serve (s, .load r)).1 = _ ↔ _
    rw [answered, answerLoad_eq]
  have reads_kept : ∀ v, slot.loaded = some v → reads = [] := fun v there => by
    have perm := serves.reads
    rw [there] at perm
    exact List.perm_nil.mp perm
  refine ⟨fun v hv => ?_, fun v kept => ?_, fun unkept => ?_⟩
  · rcases UnitSlot.loaded_fill_cases (UnitSlot.loaded_fill.mpr ((answers_eq v).mp hv)) with
      there | ⟨empty, bundle, read, rfl⟩
    · obtain ⟨kept, entries⟩ := books.of_loaded identified serves there
      obtain ⟨later, got, calm⟩ := kept
      exact ⟨entries, fun _ => ⟨v, later, got, calm⟩, fun _ => ⟨⟨r, later, got⟩, reads_kept v there⟩⟩
    · refine ⟨Bundle.entries_of_load read, fun old => ?_, fun ⟨v', kept⟩ => ?_⟩
      · exact absurd old.1 (books.unanswered serves empty bundle)
      · cases empty.symm.trans ((kept_iff v').mpr kept)
  · have there := (kept_iff v).mpr kept
    exact ⟨(answers_eq v).mpr (UnitSlot.answer_of_loaded there), reads_kept v there⟩
  · have empty : slot.loaded = none := by
      cases ho : slot.loaded with
      | none => rfl
      | some v => exact absurd ((kept_iff v).mp ho) (unkept v)
    have perm : reads.Perm ((Bundle.reads s r.classpath).map Locator.path) := by
      have perm := serves.reads
      rwa [empty] at perm
    rcases Bundle.load_cases s r.classpath with ⟨bundle, read, -, all, places⟩ |
      ⟨readable, entry, rest, e, split, before, unreadable, failed, places⟩
    · refine .inl ⟨⟨slot.number, bundle⟩, ?_, books.unanswered serves empty bundle, all, ?_⟩
      · rw [answers_eq, UnitSlot.answer_of_empty empty, read]
        rfl
      · rwa [places, List.map_map] at perm
    · have answers_error : answers = [.error (.load (.ofRead entry e))] := by
        show ((b.serveAll history).serve (s, .load r)).1 = _
        rw [answered, UnitSlot.answer_of_empty empty, failed]
        rfl
      refine .inr ⟨readable, entry, rest, e, split, before, unreadable, answers_error, ?_,
        fun later unasked v kept => ?_⟩
      · rwa [places, List.map_map] at perm
      · rw [List.append_cons] at kept
        rcases kept_append.mp (kept_of_append unasked kept) with ⟨kept, -⟩ | ⟨-, ok⟩
        · exact unkept v kept
        · cases answers_error.symm.trans ok

end Bench

namespace Sample

def coreJar : ClasspathEntry := ⟨core, .jar, ⟨"mem", "/core.jar", false⟩⟩

def coreJarBytes : Bytes := [1, 2]

def jarStore : MemoryStore := ⟨⟨[("/core.jar", coreJarBytes)], by simp⟩, true⟩

def resolvedCore : CachedResolution := ⟨0, .ofRoots [core], .empty, [coreJar]⟩

def coreUnit : LoadedUnit := ⟨0, ⟨[(coreJar, coreJarBytes)]⟩⟩

def bare : Bench MemoryStore := .new (.new jarStore .default)

/-- The jar is loaded and then taken out of the store, and another unit is evicted. -/
def demands : List (MemoryStore × Demand) :=
  [(jarStore, .load resolvedCore), (.empty, .evict [lib])]

end Sample

open Sample in
theorem Bench.units_follow_resolutions_sample :
    bare.units = .empty ∧ Identified (demands ++ [(.empty, .load resolvedCore)]) ∧
      ((bare.serveAll demands).serve (.empty, .load resolvedCore)).1 = [.ok (.loaded coreUnit)] ∧
      ((bare.serveAll demands).serve (.empty, .load resolvedCore)).2.reads = [] := by
  have identified : Identified (demands ++ [(.empty, .load resolvedCore)]) := by
    have only : ∀ p ∈ demands ++ [(.empty, .load resolvedCore)], ∀ r, p.2 = .load r →
        r = resolvedCore := by
      intro p hp r asked
      simp only [demands, List.cons_append, List.nil_append, List.mem_cons, List.not_mem_nil,
        or_false] at hp
      rcases hp with rfl | rfl | rfl <;> cases asked <;> rfl
    intro p hp q hq r r' asked asked' _
    rw [only p hp r asked, only q hq r' asked']
  have kept : bare.Kept demands resolvedCore coreUnit := by
    refine ⟨[(.empty, .evict [lib])], ⟨[], jarStore, rfl, ?_⟩, ?_⟩
    · rfl
    · simp only [List.mem_singleton, forall_eq, Demand.Displaces]
      decide +kernel
  obtain ⟨-, again, -⟩ :=
    units_follow_resolutions bare rfl demands .empty resolvedCore identified
  exact ⟨rfl, identified, again coreUnit kept⟩

end Depot
