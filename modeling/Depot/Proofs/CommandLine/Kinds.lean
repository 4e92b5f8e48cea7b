import Depot.CommandLine.Run
import Depot.Proofs.Cache.Canonical
import Depot.Proofs.CommandLine.Arguments
import Depot.Proofs.Manifest.Entries
import Depot.Proofs.Store.Isolation
import Depot.Proofs.Text.Kinds

/-!
# Kinds on the command line

The kind of a dependency is printed by its name, and where a kind is asked for, the name names it
again. Since a dependency comes out of a manifest only if its files can be stored, every command that
finds the store as it was when the dependencies were listed finds a place for them.
-/

namespace Depot

open Text

theorem Manifest.exists_declares_of_ofBytes {c : Coordinate} {bytes : Bytes} {m : Manifest}
    (h : ofBytes c bytes = .ok m) : ∀ d ∈ m.dependencies, ∃ entry : Element, entry.Declares d := by
  unfold ofBytes at h
  split at h
  · cases h
  · cases h
  · obtain ⟨-, rfl⟩ := ofElement_eq_ok_iff.mp h
    intro d hd
    rw [dependencies_contributions] at hd
    obtain ⟨entry, -, declared⟩ := List.mem_filterMap.mp hd
    exact ⟨entry, dependency?_eq_some_iff.mp declared⟩

namespace Kind

/-- The name of a kind that can be stored is a word. -/
theorem isWord_name {k : Kind} (h : k.isStorable = true) : k.name ≠ "" ∧ ' ' ∉ k.name.toList := by
  cases k with
  | jar | source | manifest | metadata => decide
  | other e =>
    have extension : isExtension e = true := h
    simp only [isExtension, Bool.and_eq_true, Bool.not_eq_true', List.all_eq_true] at extension
    obtain ⟨⟨nonempty, -⟩, plain⟩ := extension
    have some_extension : e ≠ "" := by simpa using nonempty
    refine ⟨some_extension, fun blank => ?_⟩
    cases plain ' ' blank

end Kind

namespace FileStore

variable {s : FileStore} {c : Coordinate} {kind : Option Kind} {g : Option Signature}

theorem locator_of_path (rooted : s.checkRoot = .ok ()) {p : String}
    (placed : Layout.path c kind g = .ok p) (writable : Bool) :
    s.locator c kind g writable = .ok ⟨scheme, p, writable⟩ := by
  unfold locator
  rw [rooted, placed]
  rfl

end FileStore

theorem Repository.locator_of_writeArtifact {r : Repository FileStore} {c : Coordinate} {kind : Kind}
    {b : Bytes} {l : Locator} (h : (r.writeArtifact c kind b).1 = .ok l) :
    r.store.locator c (some kind) none true = .ok l := by
  have prepared : (r.store.prepare c (some kind) none).1 = .ok l := by
    simp only [writeArtifact, writeAt, prepare] at h
    change (ArtifactStore.prepare r.store c (some kind) none).1 = .ok l
    revert h
    rcases ArtifactStore.prepare r.store c (some kind) none with ⟨_ | l', s⟩
    · exact id
    · dsimp only
      rcases Repository.write _ l' b with ⟨_ | _, r'⟩
      · rintro ⟨⟩
      · exact id
  exact FileStore.locator_of_prepare prepared

namespace Signature

theorem parse?_name (g : Signature) : parse? g.name = some g := by
  cases g <;> decide

end Signature

namespace CommandLine

variable {s : Setting} {i i' : Invocation} {c : Config} {args : List String}
  {r : Repository FileStore} {d : Dependency} {x : Coordinate} {t : String} {json : Bool}

/-! ### What is printed -/

/-- The words of a line. -/
def words (t : String) : List String := (split ' ' t).filter (· ≠ "")

theorem words_of_word {a : String} (h : a ≠ "" ∧ ' ' ∉ a.toList) : words a = [a] := by
  rw [words, split, List.splitOn_eq_singleton h.2]
  simp [h.1]

theorem words_cons {a : String} (h : a ≠ "" ∧ ' ' ∉ a.toList) (t : String) :
    words (a ++ ("  " ++ t)) = a :: words t := by
  have cut : (a ++ ("  " ++ t)).toList = a.toList ++ ' ' :: ' ' :: t.toList := by simp
  have blank : (' ' :: t.toList).splitOn ' ' = [] :: t.toList.splitOn ' ' :=
    List.splitOn_append_cons_self [] t.toList
  simp [words, split, cut, List.splitOn_append_cons_self, List.splitOn_eq_singleton h.2, blank, h.1]

/-- The kind is the third word that is printed of a dependency. -/
theorem exists_words_dependencyLine (storable : d.kind.isStorable = true) :
    ∃ rest, words (dependencyLine d) =
      d.coordinate.text :: d.scope.name :: d.kind.name :: rest := by
  have coordinate : d.coordinate.text ≠ "" ∧ ' ' ∉ d.coordinate.text.toList := by
    constructor
    · intro empty
      have parts := Coordinate.pieces_text d.coordinate
      rw [empty] at parts
      have count := d.coordinate.areParts_parts.count
      rw [← parts] at count
      revert count
      decide
    · intro blank
      exact absurd rfl (List.any_eq_false.mp d.coordinate.no_blank_text ' ' blank)
  have scope : d.scope.name ≠ "" ∧ ' ' ∉ d.scope.name.toList := by
    cases d.scope <;> decide
  have kind := Kind.isWord_name storable
  have excludes : "  excludes " = "  " ++ "excludes " := rfl
  rw [dependencyLine, String.append_assoc, String.append_assoc, String.append_assoc,
    String.append_assoc, words_cons coordinate, words_cons scope]
  split
  · exact ⟨[], by rw [String.append_empty, words_of_word kind]⟩
  · rw [excludes, String.append_assoc, words_cons kind]
    exact ⟨_, rfl⟩

/-- Where the name of the kind stands in what is printed of a dependency. In JSON it is a text, or the
text in the only field of an object. -/
structure ShowsKind (d : Dependency) : Prop where
  word : ∃ rest, words (dependencyLine d) =
    d.coordinate.text :: d.scope.name :: d.kind.name :: rest
  json : Json.ofKind d.kind = .string d.kind.name ∨
    Json.ofKind d.kind = .object [("other", .string d.kind.name)]

theorem showsKind_of_storable (storable : d.kind.isStorable = true) : ShowsKind d where
  word := exists_words_dependencyLine storable
  json := by
    cases d.kind with
    | jar | source | manifest | metadata => exact .inl rfl
    | other e => exact .inr rfl

/-- What is printed of the dependencies of a coordinate. -/
def listing (x : Coordinate) (ds : List Dependency) (json : Bool) : String :=
  if json then line (Json.array (ds.map Json.ofDependency)).text
  else if ds.isEmpty then line (x.text ++ " has no dependencies.")
  else String.join (ds.map fun d => line (dependencyLine d))

/-! ### Invocations that succeed -/

theorem run_of_parse (read : parse (s.environment.lookup jsonVariable) args = .ok i) :
    run s args = runInvocation s i := by
  simp only [run, read]

theorem exists_of_exit (success : (runInvocation s i).exit = 0) :
    ∃ c done files, loadConfig s i = .ok c ∧ runCommand s i c = (.ok done, files) ∧
      (runInvocation s i).out = done.out := by
  unfold runInvocation at success ⊢
  split at success
  · cases success
  · rename_i c loaded
    split at success
    · cases success
    · rename_i done files ran
      exact ⟨c, done, files, loaded, ran, rfl⟩

theorem ok_of_orFail {ε α : Type} {messages : ε → List String} {e : Except ε α} {a : α}
    (h : orFail messages e = .ok a) : e = .ok a := by
  cases e with
  | error e => cases h
  | ok a' =>
    cases h
    rfl

/-- The repository that an invocation opens. -/
def Opens (s : Setting) (i : Invocation) (r : Repository FileStore) : Prop :=
  ∃ c, loadConfig s i = .ok c ∧ openRepository s i c [] = .ok r

/-- Which repository is opened does not depend on the command. -/
theorem Opens.congr (h : Opens s i r) (root : i'.root = i.root) (config : i'.config = i.config) :
    Opens s i' r := by
  obtain ⟨_, _, _⟩ := i
  obtain ⟨_, _, _⟩ := i'
  dsimp only at root config
  subst root config
  exact h

theorem runInvocation_deps {ds : List Dependency} (command : i.command = .deps t json)
    (parsed : Coordinate.parse t = .ok x) (opened : Opens s i r) (listed : r.dependencies x = .ok ds) :
    runInvocation s i = ⟨0, listing x ds json, "", s.files⟩ := by
  obtain ⟨c, loaded, opened⟩ := opened
  have ran : runDeps s i c t json = .ok (s.done (listing x ds json)) := by
    simp only [runDeps, parseCoordinate, parsed, opened, listed, orFail, bind, Except.bind, pure,
      Except.pure, listing]
  simp only [runInvocation, loaded, runCommand, command, ran, unchanged, Setting.done, if_true]

theorem exists_of_deps (command : i.command = .deps t json)
    (success : (runInvocation s i).exit = 0) :
    ∃ x r ds, Coordinate.parse t = .ok x ∧ Opens s i r ∧ r.dependencies x = .ok ds := by
  obtain ⟨c, done, files, loaded, ran, -⟩ := exists_of_exit success
  rw [runCommand, command] at ran
  obtain ⟨x, parsed, ran⟩ := exists_ok_of_bind (congrArg Prod.fst ran)
  obtain ⟨r, opened, ran⟩ := exists_ok_of_bind ran
  obtain ⟨ds, read, ran⟩ := exists_ok_of_bind ran
  cases ran
  exact ⟨x, r, ds, ok_of_orFail parsed, ⟨c, loaded, opened⟩, ok_of_orFail read⟩

theorem runInvocation_locate {y : Coordinate} {n p : String} {g : Option Signature}
    (command : i.command = .locate y.text (some n) (g.map Signature.name)) (opened : Opens s i r)
    (rooted : r.store.checkRoot = .ok ())
    (placed : Layout.path y (some (Kind.ofType (some n))) g = .ok p) :
    runInvocation s i = ⟨0, line (Locator.mk FileStore.scheme p false).text, "", s.files⟩ := by
  obtain ⟨c, loaded, opened⟩ := opened
  have parsed : parseCoordinate y.text = .ok y := by
    rw [parseCoordinate, Coordinate.parse_eq_ok_iff.mpr (Coordinate.pieces_text y)]
    rfl
  have signed : (g.map Signature.name).mapM parseSignature = .ok g := by
    cases g with
    | none => rfl
    | some g =>
      simp only [Option.map_some, Option.mapM_some, parseSignature, Signature.parse?_name]
      rfl
  have located : r.locate y (some (Kind.ofType (some n))) g =
      .ok ⟨FileStore.scheme, p, false⟩ := FileStore.locator_of_path rooted placed false
  have ran : runLocate s i c y.text (some n) (g.map Signature.name) =
      .ok (s.done (line (Locator.mk FileStore.scheme p false).text)) := by
    simp only [runLocate, parsed, signed, opened, located, orFail, bind, Except.bind, pure,
      Except.pure]
  simp only [runInvocation, loaded, runCommand, command, ran, unchanged, Setting.done, if_true]

theorem exists_of_put {y : Coordinate} {file n p : String}
    (command : i.command = .put y.text file (some n)) (success : (runInvocation s i).exit = 0)
    (placed : Layout.path y (some (Kind.ofType (some n))) none = .ok p) :
    ∃ size, (runInvocation s i).out = line ("Stored " ++ ofNat size ++ " bytes at " ++
      (Locator.mk FileStore.scheme p true).text) := by
  obtain ⟨c, done, files, -, ran, out⟩ := exists_of_exit success
  rw [runCommand, command] at ran
  dsimp only at ran
  split at ran
  · cases ran
  · rename_i put prepared
    obtain ⟨y', parsed, prepared⟩ := exists_ok_of_bind prepared
    obtain ⟨b, -, prepared⟩ := exists_ok_of_bind prepared
    obtain ⟨r, -, prepared⟩ := exists_ok_of_bind prepared
    cases prepared
    obtain rfl : y = y' := by
      have read := Coordinate.parse_eq_ok_iff.mpr (Coordinate.pieces_text y)
      exact Except.ok.inj (read.symm.trans (ok_of_orFail parsed))
    obtain ⟨l, stored, rfl⟩ := map_eq_ok.mp (congrArg Prod.fst ran)
    obtain ⟨filed, writable, at_path⟩ :=
      FileStore.locator_eq_ok (Repository.locator_of_writeArtifact (ok_of_orFail stored))
    obtain ⟨_, _, _⟩ := l
    dsimp only at filed writable at_path
    rw [placed] at at_path
    cases at_path
    subst filed writable
    exact ⟨b.length, out⟩

/-! ### Kinds by their names -/

/-- What the name of a kind can be used for, with the options that a repository was opened with. It
can be given behind an equals sign, where every text is a value, and if it has no dash in front, as an
argument of its own. However it is given, the answers of `locate` and of `put` are the place that the
layout has for the kind. -/
structure Answers (s : Setting) (root config : Option String) (k : Kind) : Prop where
  locates : ∀ y g, parse (s.environment.lookup jsonVariable)
      (callArguments .locate (fileOptions root config k.name g) [y]) =
    .ok ⟨root, config, .locate y (some k.name) g⟩
  apart : isValue k.name = true → ∀ y, parse (s.environment.lookup jsonVariable)
      ("locate" :: (placeOptions root config).map (fun o => o.1.argument o.2) ++
        ["--kind", k.name, "--", y]) =
    .ok ⟨root, config, .locate y (some k.name) none⟩
  puts : ∀ y file, file ≠ "" → parse (s.environment.lookup jsonVariable)
      (callArguments .put (fileOptions root config k.name none) [y, file]) =
    .ok ⟨root, config, .put y file (some k.name)⟩
  located : ∀ (y : Coordinate) (g : Option Signature), ∃ p, Layout.path y (some k) g = .ok p ∧
    ∀ args, parse (s.environment.lookup jsonVariable) args =
        .ok ⟨root, config, .locate y.text (some k.name) (g.map Signature.name)⟩ →
      run s args = ⟨0, line (Locator.mk FileStore.scheme p false).text, "", s.files⟩
  stored : ∀ (y : Coordinate) file p, Layout.path y (some k) none = .ok p →
    ∀ args, parse (s.environment.lookup jsonVariable) args =
        .ok ⟨root, config, .put y.text file (some k.name)⟩ → (run s args).exit = 0 →
      ∃ size, (run s args).out = line ("Stored " ++ ofNat size ++ " bytes at " ++
        (Locator.mk FileStore.scheme p true).text)

theorem Opens.answers {k : Kind} (opened : Opens s i r) (rooted : r.store.checkRoot = .ok ())
    (paths : i.root ≠ some "" ∧ i.config ≠ some "") (named : Kind.ofType (some k.name) = k)
    (storable : k.isStorable = true) : Answers s i.root i.config k where
  locates y g := parse_locate paths k.name y _ g
  apart value y := by rw [parse_locate_apart paths, if_pos value]
  puts y file given := parse_put paths k.name y _ given
  located y g := by
    obtain ⟨p, placed⟩ := Layout.exists_path storable y g
    refine ⟨p, placed, fun args read => ?_⟩
    rw [run_of_parse read]
    exact runInvocation_locate rfl (opened.congr rfl rfl) rooted (named.symm ▸ placed)
  stored y file p placed args read success := by
    rw [run_of_parse read] at success ⊢
    exact exists_of_put rfl success (named.symm ▸ placed)

/-- Whatever the type, the name of the kind that it names is a type of that kind. Apart from the
named kinds, the kinds of types are the extensions that are not empty, trimmed, without capitals and
no name themselves. Two types name the same kind exactly if they agree once they are trimmed and in
small letters and aliases are replaced. And the kinds that are printed when dependencies are listed
can be given back by their names to get the places that the layout has for them. -/
theorem types_normalised :
    (∀ t, Kind.ofType (some (Kind.ofType t).name) = Kind.ofType t) ∧
    (∀ e, (∃ t, Kind.ofType t = .other e) ↔ Kind.IsTyped e) ∧
    (∀ t u, Kind.ofType t = Kind.ofType u ↔
      Kind.unaliased (Kind.key t) = Kind.unaliased (Kind.key u)) ∧
    ∀ s args root config t json, parse (s.environment.lookup jsonVariable) args =
        .ok ⟨root, config, .deps t json⟩ → (run s args).exit = 0 →
      ∃ x r ds, Coordinate.parse t = .ok x ∧ Opens s ⟨root, config, .deps t json⟩ r ∧
        r.dependencies x = .ok ds ∧ run s args = ⟨0, listing x ds json, "", s.files⟩ ∧
        ∀ d ∈ ds, ShowsKind d ∧ Answers s root config d.kind := by
  refine ⟨Kind.ofType_name, fun _ => Kind.exists_ofType_eq_other_iff, fun _ _ => Kind.ofType_eq_iff,
    fun s args root config t json read success => ?_⟩
  rw [run_of_parse read] at success ⊢
  obtain ⟨x, r, ds, parsed, opened, listed⟩ := exists_of_deps rfl success
  refine ⟨x, r, ds, parsed, opened, listed, runInvocation_deps rfl parsed opened listed,
    fun d hd => ?_⟩
  -- the manifest was found, so the store is there, and each of its entries can be stored
  obtain ⟨m, fetched, rfl⟩ := map_eq_ok.mp listed
  obtain ⟨l, bytes, located, -, decoded⟩ := fetch_eq_ok fetched
  obtain ⟨_, rooted, -⟩ := exists_ok_of_bind located
  obtain ⟨entry, declared⟩ := Manifest.exists_declares_of_ofBytes decoded d (List.mem_of_mem_filter hd)
  have named : Kind.ofType (some d.kind.name) = d.kind := by rw [← declared.kind, Kind.ofType_name]
  exact ⟨showsKind_of_storable declared.storable,
    opened.answers rooted (paths_of_parse read) named declared.storable⟩

end CommandLine

namespace Sample

/-- A store with the manifest of `app`, which needs an archive of `lib`. -/
def depot : CommandLine.Setting where
  files :=
    { nodes := [(["s"], .directory), (["s", "org"], .directory), (["s", "org", "demo"], .directory),
        (["s", "org", "demo", "app"], .directory), (["s", "org", "demo", "app", "1"], .directory),
        (["s", "org", "demo", "app", "1", "app-1.toml"],
          .file (document app (some lib) ++ Utf8.encode "type = ' Tar.GZ '\n"))]
      current := [] }
  environment := []
  time := ""

end Sample

open Sample in
theorem CommandLine.types_normalised_sample :
    (run depot ["deps", "--root=/s", "org.demo:app:1"]).exit = 0 ∧
    run depot ["locate", "-k", "tar.gz", "org.demo:app:1", "--root=/s"] =
      ⟨0, "file://org/demo/app/1/app-1.tar.gz\n", "", depot.files⟩ := by
  have read : parse (depot.environment.lookup jsonVariable) ["deps", "--root=/s", "org.demo:app:1"] =
      .ok ⟨some "/s", none, .deps "org.demo:app:1" false⟩ := by decide +kernel
  have configured : loadConfig depot ⟨some "/s", none, .deps "org.demo:app:1" false⟩ =
      .ok ⟨.empty, none⟩ := by decide +kernel
  have named : Coordinate.parse "org.demo:app:1" = .ok app := by decide +kernel
  have opens : openRepository depot ⟨some "/s", none, .deps "org.demo:app:1" false⟩ ⟨.empty, none⟩ [] =
      .ok (.new ⟨"/s", depot.files⟩ .default) := rfl
  have needed : (Repository.new (FileStore.mk "/s" depot.files) .default).dependencies app =
      .ok [⟨lib, .compile, .other "tar.gz", ∅⟩] := by decide +kernel
  have success : (run depot ["deps", "--root=/s", "org.demo:app:1"]).exit = 0 := by
    rw [run_of_parse read, runInvocation_deps rfl named ⟨_, configured, opens⟩ needed]
  obtain ⟨-, -, -, lists⟩ := types_normalised
  obtain ⟨x, r, ds, parsed, ⟨c, loaded, opened⟩, listed, -, given_back⟩ :=
    lists depot _ _ _ _ _ read success
  obtain rfl := Except.ok.inj (named.symm.trans parsed)
  obtain rfl := Except.ok.inj (configured.symm.trans loaded)
  obtain rfl := Except.ok.inj (opens.symm.trans opened)
  obtain rfl := Except.ok.inj (needed.symm.trans listed)
  obtain ⟨-, answers⟩ := given_back _ (List.mem_singleton_self _)
  obtain ⟨p, placed, located⟩ := answers.located app none
  obtain rfl : "/org/demo/app/1/app-1.tar.gz" = p := Except.ok.inj placed
  exact ⟨success, located _ (by decide +kernel)⟩

end Depot
