import ForwardDecl.Proofs.IgnoreWords
import ForwardDecl.Proofs.ScanPaths

/-! # Naming what a scan comes upon

An ignore map and the lists of files and directories to ignore name places by their relative
paths, as text.  A scan makes the relative paths that it compares them with from the names in the
directories, one after the other.  These names are never empty, `.` or `..` and hold no slash, so
that their path is clean already (`Path.clean_relative`), and whatever a scan comes upon
or looks into can be named.

The directories that a scan looks into are listed by `lookedInto`, with the relative path of each;
they are the ones whose paths the scan asks for, in the same order (`explore_noting`).
-/
namespace ForwardDecl

/-! ## Clean paths -/

namespace Path
variable {names : Location}

theorem clean_ofSegments (hne : names ≠ []) (hl : ∀ name ∈ names, isLegalName name = true) :
    isAbsolute (ofSegments names) = false ∧ clean (ofSegments names) = ofSegments names := by
  have hproper : ∀ name ∈ names, Proper name := fun name hname =>
    proper_of_isLegalName (hl name hname)
  have hwritten : written false names = ofSegments names := String.empty_append
  have habsolute : isAbsolute (ofSegments names) = false := by
    rw [← hwritten]
    exact isAbsolute_written hne hproper
  have htaken : Taken false names.reverse := by
    have hnone : Taken false [] := trivial
    have hall := taken_append_of_isLegalName hnone hl
    rwa [List.append_nil] at hall
  have hsegments : cleanSegments (ofSegments names) = names := by
    rw [← hwritten]
    exact cleanSegments_written hne hproper htaken
  refine ⟨habsolute, ?_⟩
  rw [clean_eq_written (by rwa [hsegments]), habsolute, hsegments, hwritten]

theorem checkRelative_eq_ok_iff {field : String} {paths : List String} :
    checkRelative field paths = .ok () ↔
      ∀ path ∈ paths, path ≠ "" ∧ isAbsolute path = false ∧ clean path = path := by
  rw [checkRelative, forM_eq_ok_iff]
  refine forall₂_congr fun path _ => ?_
  by_cases hempty : path = ""
  · simp [hempty]
  by_cases habsolute : isAbsolute path = true
  · simp [hempty, habsolute]
  by_cases hclean : clean path = path <;> simp [hempty, habsolute, hclean]

/-- **The path of legal names is relative and clean.** -/
theorem clean_relative (hl : ∀ name ∈ names, isLegalName name = true) :
    relative names ≠ "" ∧ isAbsolute (relative names) = false ∧
      clean (relative names) = relative names := by
  by_cases hne : names = []
  · rw [hne]
    decide
  · rw [relative_of_ne hne]
    exact ⟨ofSegments_ne_empty hne hl, clean_ofSegments hne hl⟩

end Path

/-! ## The directories of a scan -/

/-- The directories that a scan of the directory at a path looks into, on so many levels: the path
of each, and its relative path. -/
def lookedInto (fs : FileSystem) (s : Selection) (levels : Nat) (path relPath : String) :
    List (String × String) :=
  (path, relPath) ::
    match fs.list path with
    | .error _ => []
    | .ok entries =>
      match levels with
      | 0 => []
      | below + 1 => (subdirectories s relPath entries).flatMap fun name =>
          lookedInto fs s below (Path.join path name) (joinRel relPath name)

/-- Look into a directory, and note its path. -/
def noting (fs : FileSystem) (path : String) : StateM (List String) (Except FileError Entries) := do
  modify (· ++ [path])
  return fs.list path

section
variable {fs : FileSystem} {s : Selection} {β : Type}

/-- **A scan looks into the directories that are listed for it,** whatever it does with what it
finds. -/
theorem explore_noting (fs : FileSystem) (s : Selection) (visit : β → ScanItem → β) (levels : Nat)
    (path relPath : String) (b : β) (log : List String) :
    (explore (noting fs) s (fun b i => pure (visit b i)) levels path relPath b).run log =
      pure ((findings fs s levels path relPath).foldl visit b,
        log ++ (lookedInto fs s levels path relPath).map Prod.fst) := by
  induction levels generalizing path relPath b log with
  | zero =>
    rw [explore, findings, lookedInto]
    cases hlist : fs.list path with
    | error cause => simp [noting, hlist]
    | ok entries => simp [noting, hlist, List.foldl_map]
  | succ below ih =>
    rw [explore, findings, lookedInto]
    cases hlist : fs.list path with
    | error cause => simp [noting, hlist]
    | ok entries =>
      have hflat : ∀ (names : List String) (b : β) (log : List String),
          (names.foldlM (fun b name => explore (noting fs) s (fun b i => pure (visit b i)) below
            (Path.join path name) (joinRel relPath name) b) b).run log =
          pure ((names.flatMap fun name => findings fs s below (Path.join path name)
              (joinRel relPath name)).foldl visit b,
            log ++ (names.flatMap fun name => lookedInto fs s below (Path.join path name)
              (joinRel relPath name)).map Prod.fst) := by
        intro names
        induction names with
        | nil => intro b log; simp
        | cons name names ihn =>
          intro b log
          simp [ih, ihn]
      simp [noting, hlist, hflat, List.foldl_map]

theorem scanM_noting (fs : FileSystem) (root : String) (s : Selection) (log : List String) :
    (scanM (noting fs) (fun items i => pure (items ++ [i])) false root s []).run log =
      pure (scan fs false root s,
        log ++ (lookedInto fs s (maxPathSize + 1) root ".").map Prod.fst) := by
  rw [scanM, if_neg Bool.false_ne_true, explore_noting fs s fun items i => items ++ [i],
    List.foldl_append_eq_append, ← List.flatMap_def, List.flatMap_singleton', List.nil_append,
    scan_eq_findings]

/-- A directory that is looked into has a relative path of legal names. -/
theorem names_of_mem_lookedInto {levels : Nat} {path : String} {above : Location}
    (habove : ∀ k ∈ above, isLegalName k = true) {place : String × String}
    (h : place ∈ lookedInto fs s levels path (Path.relative above)) :
    ∃ names, (∀ k ∈ names, isLegalName k = true) ∧ place.2 = Path.relative names := by
  induction levels generalizing path above with
  | zero =>
    rw [lookedInto] at h
    rcases List.mem_cons.mp h with rfl | h
    · exact ⟨above, habove, rfl⟩
    · cases hlist : fs.list path with
      | error cause => rw [hlist] at h; cases h
      | ok entries => rw [hlist] at h; cases h
  | succ below ih =>
    rw [lookedInto] at h
    rcases List.mem_cons.mp h with rfl | h
    · exact ⟨above, habove, rfl⟩
    · cases hlist : fs.list path with
      | error cause => rw [hlist] at h; cases h
      | ok entries =>
        rw [hlist] at h
        obtain ⟨name, hname, hplace⟩ := List.mem_flatMap.mp h
        obtain ⟨hlegal, hrel⟩ := subdirectory_snoc habove (legal_of_list hlist).2 hname
        rw [hrel] at hplace
        exact ih hlegal hplace

end

/-- There is a tree of which a scan comes upon something with this relative path, or looks into a
directory with it. -/
def Scanned (relPath : String) : Prop :=
  ∃ (fs : FileSystem) (root : String) (s : Selection),
    (∃ cancelled, ∃ i ∈ scan fs cancelled root s, i.file.relPath = relPath) ∨
      ∃ path, (path, relPath) ∈ lookedInto fs s (maxPathSize + 1) root "."

theorem Scanned.names {relPath : String} (h : Scanned relPath) :
    ∃ names, (∀ k ∈ names, isLegalName k = true) ∧ relPath = Path.relative names := by
  obtain ⟨fs, root, s, ⟨cancelled, i, hi, rfl⟩ | ⟨path, hplace⟩⟩ := h
  · cases cancelled with
    | true =>
      -- a scan that is cancelled says so of the root
      obtain rfl := List.mem_singleton.mp hi
      exact ⟨[], fun _ hk => (nomatch hk), rfl⟩
    | false =>
      rw [scan_eq_findings] at hi
      have hbelow : i.Below [] := below_of_mem_findings (fun _ hk => nomatch hk) hi
      obtain ⟨names, -, hlegal, hrel⟩ := hbelow
      exact ⟨names, hlegal, hrel⟩
  · have hroot : ∀ k ∈ ([] : Location), isLegalName k = true := fun _ hk => nomatch hk
    exact names_of_mem_lookedInto hroot hplace

theorem checkRelative_of_scanned {paths : List String} (h : ∀ path ∈ paths, Scanned path)
    (field : String) : Path.checkRelative field paths = .ok () := by
  refine Path.checkRelative_eq_ok_iff.mpr fun path hpath => ?_
  obtain ⟨names, hlegal, rfl⟩ := (h path hpath).names
  exact Path.clean_relative hlegal

/-! ## Pairs for what was scanned -/

/-- There is no white space around the word. -/
def Unspaced (word : String) : Prop :=
  (∀ c ∈ word.toList.head?, isSpace c = false) ∧ ∀ c ∈ word.toList.getLast?, isSpace c = false

theorem unspaced_of_ends {word : String} {first last : Char}
    (hfirst : word.toList.head? = some first) (hlast : word.toList.getLast? = some last)
    (hf : isSpace first = false) (hl : isSpace last = false) : Unspaced word :=
  ⟨fun _ hc => Option.some.inj (hfirst.symm.trans hc) ▸ hf,
    fun _ hc => Option.some.inj (hlast.symm.trans hc) ▸ hl⟩

theorem Unspaced.trimmed_eq {word : String} (h : Unspaced word) : trimmed word = word := by
  have htrims : Trims isSpace word.toList word.toList :=
    ⟨[], [], (List.append_nil _).symm, fun _ hc => (nomatch hc), h.1, h.2⟩
  rw [trimmed, ← htrims.eq_trimWhile, String.ofList_toList]

namespace IgnoreMap

theorem mem_map_fst_merge {m more : IgnoreMap} {path : String} :
    path ∈ (m.merge more).map Prod.fst ↔ path ∈ m.map Prod.fst ∨ path ∈ more.map Prod.fst := by
  rw [mem_keys_iff, lookup_merge]
  by_cases hmore : path ∈ more.map Prod.fst
  · rw [if_pos hmore]
    exact iff_of_true (Option.some_ne_none _) (Or.inr hmore)
  · rw [if_neg hmore, ← mem_keys_iff, or_iff_left hmore]

/-- **Pairs are read into the entries for each path, in their order.** -/
theorem get_of_pairs {pairs : List (String × String)} (path : String) :
    (merge [] (ofPairs pairs)).get path = (wordsFor pairs path).map IgnoreEntry.ofWord := by
  rw [get, lookup_merge, entriesFor_ofPairs]
  by_cases hpath : path ∈ (ofPairs pairs).map Prod.fst
  · rw [if_pos hpath]
    rfl
  · rw [if_neg hpath, Classical.not_not.mp (mt mem_map_fst_ofPairs.mpr hpath)]
    rfl

end IgnoreMap

/-- **Whatever a scan comes upon or looks into can be named.**  Its relative path is in order as
one to ignore, and pairs of such paths and words are read into a map that holds the entries for
each path, in their order, and nothing else. -/
theorem scanned_nameable :
    (∀ (fs : FileSystem) (root : String) (s : Selection) (log : List String),
      (scanM (noting fs) (fun items i => pure (items ++ [i])) false root s []).run log =
        pure (scan fs false root s,
          log ++ (lookedInto fs s (maxPathSize + 1) root ".").map Prod.fst)) ∧
    (∀ (field : String) (paths : List String), (∀ path ∈ paths, Scanned path) →
      Path.checkRelative field paths = .ok () ∧
        ∀ path ∈ paths, Path.isAbsolute path = false ∧ Path.clean path = path) ∧
    ∀ (pairs : List (String × String)) (read : String → IgnoreEntry),
      (∀ pair ∈ pairs, Scanned pair.1 ∧ Unspaced pair.1) →
      (∀ pair ∈ pairs, ':' ∉ pair.2.toList ∧ IgnoreEntry.parse pair.2 = .ok (read pair.2)) →
      ∃ m : IgnoreMap, IgnoreMap.parse (pairs.map fun pair => pair.1 ++ ":" ++ pair.2) = .ok m ∧
        (m.map Prod.fst).Nodup ∧ (∀ path, path ∈ m.map Prod.fst ↔ path ∈ pairs.map Prod.fst) ∧
        ∀ path, m.get path = (pairs.filter (·.1 = path)).map fun pair => read pair.2 := by
  refine ⟨scanM_noting, ?_, ?_⟩
  · intro field paths hpaths
    have hcheck := checkRelative_of_scanned hpaths field
    exact ⟨hcheck, fun path hpath => (Path.checkRelative_eq_ok_iff.mp hcheck path hpath).2⟩
  · intro pairs read hpaths hwords
    have hkey : ∀ pair ∈ pairs, IgnoreMap.IsKey pair.1 := fun pair hpair =>
      ⟨(hpaths pair hpair).2.trimmed_eq,
        checkRelative_of_scanned (List.forall_mem_singleton.mpr (hpaths pair hpair).1) _⟩
    have hreadable : ∀ pair ∈ pairs, IgnoreEntry.isReadable pair.2 = true := by
      intro pair hpair
      rw [IgnoreEntry.isReadable, (hwords pair hpair).2]
      rfl
    have hread : ∀ pair ∈ pairs, IgnoreEntry.ofWord pair.2 = read pair.2 := by
      intro pair hpair
      rw [IgnoreEntry.ofWord, (hwords pair hpair).2]
      rfl
    have hparse := IgnoreMap.parse_pairs hkey (fun pair hpair => (hwords pair hpair).1) hreadable
    have hdistinct : IgnoreMap.Distinct [] := List.nodup_nil
    refine ⟨_, hparse, hdistinct.merge _, fun path => ?_, fun path => ?_⟩
    · rw [IgnoreMap.mem_map_fst_merge]
      simp [IgnoreMap.ofPairs]
    · rw [IgnoreMap.get_of_pairs, IgnoreMap.wordsFor, List.map_map]
      exact List.map_congr_left fun pair hpair => hread pair (List.mem_filter.mp hpair).1

def packageEntries : Entries := [("a:b.py", .file ⟨.empty, 0o644, 0, 0⟩)]

def packageFiles : FileSystem where
  root := .dir [("pkg", .dir packageEntries)]
  cwd := []
  now := 0
  wellFormed := by
    simp only [Node.WellFormed, Node.WellFormedEntries, packageEntries]
    decide

theorem list_package : packageFiles.list "pkg" = .ok packageEntries := by
  have hlocate : packageFiles.locate "pkg" = .ok (.found ["pkg"] (.dir packageEntries)) :=
    FileSystem.locate_of_get? rfl "pkg" ["pkg"] (by decide) rfl
  rw [FileSystem.list, hlocate]

theorem list_here : packageFiles.list "." = .ok [("pkg", .dir packageEntries)] := by
  have hlocate : packageFiles.locate "." = .ok (.found [] (.dir [("pkg", .dir packageEntries)])) :=
    (FileSystem.locate_relative (by decide)).trans
      ((Node.walk_dot rfl (Or.inr rfl) []).trans (Node.walk_nil rfl))
  rw [FileSystem.list, hlocate]

/-- The names of a file with a colon and of its directory. -/
theorem scanned_package : Scanned "pkg/a:b.py" ∧ Scanned "pkg" := by
  have hsub : subdirectories ⟨".py", [], []⟩ "." [("pkg", .dir packageEntries)] = ["pkg"] := by
    decide
  have hjoin : Path.join "." "pkg" = "pkg" := by decide
  have hown : ownSources ⟨".py", [], []⟩ "pkg" "pkg" packageEntries =
      [⟨"pkg/a:b.py", "pkg/a:b.py"⟩] := by decide
  refine ⟨⟨packageFiles, ".", ⟨".py", [], []⟩, .inl ⟨false, ⟨⟨"pkg/a:b.py", "pkg/a:b.py"⟩, none⟩,
    ?_, rfl⟩⟩, ⟨packageFiles, ".", ⟨".py", [], []⟩, .inr ⟨"pkg", ?_⟩⟩⟩
  · rw [scan_eq_findings, findings, list_here]
    dsimp only
    rw [hsub, List.flatMap_singleton, hjoin, joinRel, if_pos rfl, maxPathSize, findings,
      list_package]
    dsimp only
    rw [hown]
    exact List.mem_append_right _ (List.mem_append_left _ (List.mem_singleton_self _))
  · rw [lookedInto, list_here]
    dsimp only
    rw [hsub, List.flatMap_singleton, hjoin, joinRel, if_pos rfl, maxPathSize, lookedInto]
    exact List.mem_cons_of_mem _ List.mem_cons_self

/-- A file with a colon in its name is given two entries, and its directory one between them. -/
theorem scanned_nameable_package :
    Path.checkRelative "ignore-files" ["pkg/a:b.py", "pkg"] = .ok () ∧
    ∃ m : IgnoreMap, IgnoreMap.parse ["pkg/a:b.py:3", "pkg:C", "pkg/a:b.py: A B "] = .ok m ∧
      (∀ path, path ∈ m.map Prod.fst ↔ path = "pkg/a:b.py" ∨ path = "pkg") ∧
      m.get "pkg/a:b.py" = [.ofLine 3, .ofClass "A B"] ∧ m.get "pkg" = [.ofClass "C"] := by
  obtain ⟨hfile, hdir⟩ := scanned_package
  obtain ⟨-, hcheck, hpairs⟩ := scanned_nameable
  refine ⟨(hcheck "ignore-files" _ ?_).1, ?_⟩
  · exact List.forall_mem_cons.mpr ⟨hfile, List.forall_mem_singleton.mpr hdir⟩
  · have hfile : Scanned "pkg/a:b.py" ∧ Unspaced "pkg/a:b.py" :=
      ⟨hfile, unspaced_of_ends rfl rfl rfl rfl⟩
    have hdir : Scanned "pkg" ∧ Unspaced "pkg" := ⟨hdir, unspaced_of_ends rfl rfl rfl rfl⟩
    obtain ⟨m, hparse, -, hkeys, hget⟩ := hpairs
      [("pkg/a:b.py", "3"), ("pkg", "C"), ("pkg/a:b.py", " A B ")] IgnoreEntry.ofWord
      (List.forall_mem_cons.mpr ⟨hfile, List.forall_mem_cons.mpr ⟨hdir,
        List.forall_mem_singleton.mpr hfile⟩⟩) (by decide)
    refine ⟨m, hparse, fun path => ?_, hget "pkg/a:b.py", hget "pkg"⟩
    rw [hkeys]
    simp only [List.map_cons, List.map_nil, List.mem_cons, List.not_mem_nil, or_false]
    constructor
    · rintro (h | h | h)
      exacts [Or.inl h, Or.inr h, Or.inl h]
    · rintro (h | h)
      exacts [Or.inl h, Or.inr (Or.inl h)]

end ForwardDecl
