import Mathlib.Algebra.GroupWithZero.Nat
import Mathlib.Data.List.Nodup
import ForwardDecl.Proofs.Cancelling
import ForwardDecl.Proofs.ScanPaths

/-! # The books of a run over a tree

A run over a tree goes from item to item and keeps one result, in which it counts files
and lines and keeps three lists.  Behind this there is a simpler record: one `Note` for
each item, in the order of the scan, which says that the file was edited, skipped or
failed.  The notes do not depend on what is reported, and the result of a run is what is
read off them (`foldl_noted`): the three lists are the notes of each kind, and the two
numbers are sums over the edited ones.

So the books balance (`Edit.tree_accounts`): what was noted of the items of a scan is
split into the three lists, each path is in one of them, and being verbose adds nothing
but the files in which nothing was modified.
-/
namespace ForwardDecl

/-! ## Notes -/

/-- What a run over a tree notes of an item. -/
inductive Note
  | edited (result : FileResult)
  | skipped (failure : FileFailure)
  | failed (failure : FileFailure)

namespace Note

/-- The relative path of the item. -/
def path : Note → String
  | edited result => result.path
  | skipped failure => failure.path
  | failed failure => failure.path

def edited? : Note → Option FileResult
  | edited result => some result
  | _ => none

def skipped? : Note → Option FileFailure
  | skipped failure => some failure
  | _ => none

def failed? : Note → Option FileFailure
  | failed failure => some failure
  | _ => none

/-- The mode for the next item. -/
def carry (mode : Mode) : Note → Mode
  | edited result => TreeResult.carry mode result.mode
  | _ => mode

end Note

/-- Take one more note into a result. -/
def TreeResult.noted (verbose : Bool) (r : TreeResult) : Note → TreeResult
  | .edited result => r.add verbose result
  | .skipped failure => { r with skipped := r.skipped ++ [failure] }
  | .failed failure => { r with failed := r.failed ++ [failure] }

/-- The relative paths that a result lists. -/
def TreeResult.paths (r : TreeResult) : List String :=
  r.files.map (·.path) ++ r.skipped.map (·.path) ++ r.failed.map (·.path)

section
variable {notes : List Note} {note : Note}

theorem mode_noted (verbose : Bool) (r : TreeResult) (note : Note) :
    (r.noted verbose note).mode = note.carry r.mode := by
  cases note <;> rfl

/-- **A result is read off the notes**: the counts are sums over the edited files, and the lists
are the notes of each kind. -/
theorem foldl_noted (verbose : Bool) (notes : List Note) (r : TreeResult) :
    notes.foldl (TreeResult.noted verbose) r =
      { r with
        mode := notes.foldl Note.carry r.mode
        modifiedFiles := r.modifiedFiles +
          (notes.filterMap Note.edited?).countP (0 < ·.modifications)
        modifiedLines := r.modifiedLines +
          ((notes.filterMap Note.edited?).map (·.modifications)).sum
        files := r.files ++
          (notes.filterMap Note.edited?).filter fun f => 0 < f.modifications ∨ verbose
        skipped := r.skipped ++ notes.filterMap Note.skipped?
        failed := r.failed ++ notes.filterMap Note.failed? } := by
  induction notes generalizing r with
  | nil => simp
  | cons note notes ih =>
    rw [List.foldl_cons, ih]
    cases note with
    | edited f =>
      by_cases hm : 0 < f.modifications <;> cases verbose <;>
        simp [TreeResult.noted, TreeResult.add, Note.carry, List.filterMap_cons, Note.edited?,
          Note.skipped?, Note.failed?, hm, Nat.add_assoc, Nat.add_comm 1]
    | skipped x | failed x =>
      simp [TreeResult.noted, Note.carry, List.filterMap_cons, Note.edited?, Note.skipped?,
        Note.failed?]

/-- Being verbose makes a difference to the list of files only. -/
theorem foldl_noted_eq (verbose verbose' : Bool) (notes : List Note) (root : String) (mode : Mode)
    (installed : Bool) :
    notes.foldl (TreeResult.noted verbose') (.start root mode installed) =
      { notes.foldl (TreeResult.noted verbose) (.start root mode installed) with
        files := (notes.filterMap Note.edited?).filter
          fun f => 0 < f.modifications ∨ verbose' } := by
  rw [foldl_noted, foldl_noted]
  rfl

/-! ## The notes of each kind -/

/-- The notes of one kind stand in the order of all notes. -/
theorem map_filterMap_sublist {α : Type} {kind : Note → Option α} {pathOf : α → String}
    (h : ∀ note a, kind note = some a → pathOf a = note.path) (notes : List Note) :
    ((notes.filterMap kind).map pathOf).Sublist (notes.map Note.path) := by
  induction notes with
  | nil => exact .slnil
  | cons note notes ih =>
    cases hkind : kind note with
    | none =>
      rw [List.filterMap_cons_none hkind]
      exact ih.cons _
    | some a =>
      rw [List.filterMap_cons_some hkind, List.map_cons, List.map_cons, h note a hkind]
      exact ih.cons_cons _

theorem path_of_edited? {f : FileResult} (h : note.edited? = some f) : f.path = note.path := by
  cases note <;> cases h
  rfl

theorem path_of_skipped? {x : FileFailure} (h : note.skipped? = some x) : x.path = note.path := by
  cases note <;> cases h
  rfl

theorem path_of_failed? {x : FileFailure} (h : note.failed? = some x) : x.path = note.path := by
  cases note <;> cases h
  rfl

/-- Every note is of one kind. -/
theorem perm_of_kinds (notes : List Note) :
    ((notes.filterMap Note.edited?).map (·.path) ++ (notes.filterMap Note.skipped?).map (·.path) ++
      (notes.filterMap Note.failed?).map (·.path)).Perm (notes.map Note.path) := by
  induction notes with
  | nil => exact .nil
  | cons note notes ih =>
    cases note with
    | edited f => exact ih.cons f.path
    | skipped x =>
      refine .trans ?_ (ih.cons x.path)
      simp only [List.filterMap_cons, Note.edited?, Note.skipped?, Note.failed?, List.map_cons,
        List.append_assoc, List.cons_append]
      exact List.perm_middle
    | failed x =>
      refine .trans ?_ (ih.cons x.path)
      simp only [List.filterMap_cons, Note.edited?, Note.skipped?, Note.failed?, List.map_cons]
      exact List.perm_middle

/-- If no path was noted twice, the path of a note is listed with the notes of its own kind
only. -/
theorem path_mem_iff {α : Type} {kind : Note → Option α} {pathOf : α → String}
    (h : ∀ note a, kind note = some a → pathOf a = note.path) (hnodup : (notes.map Note.path).Nodup)
    (hnote : note ∈ notes) : note.path ∈ (notes.filterMap kind).map pathOf ↔
      (kind note).isSome = true := by
  constructor
  · intro hmem
    obtain ⟨a, ha, hpath⟩ := List.mem_map.mp hmem
    obtain ⟨other, hother, hkind⟩ := List.mem_filterMap.mp ha
    rw [h other a hkind] at hpath
    obtain rfl := List.inj_on_of_nodup_map hnodup hother hnote hpath
    rw [hkind]
    rfl
  · intro hsome
    obtain ⟨a, ha⟩ := Option.isSome_iff_exists.mp hsome
    exact List.mem_map.mpr ⟨a, List.mem_filterMap.mpr ⟨note, hnote, ha⟩, h note a ha⟩

end

/-! ## Books that balance -/

/-- The numbers of a result agree with its lists, and each list holds some of the paths in their
order, none of them twice; all together hold every path if nothing is left out. -/
structure TreeResult.Balances (verbose : Bool) (paths : List String) (r : TreeResult) : Prop where
  modifiedFiles : r.modifiedFiles =
    (if r.runtimeInstalled then 1 else 0) + r.files.countP (0 < ·.modifications)
  modifiedLines : r.modifiedLines = (r.files.map (·.modifications)).sum
  files_in_order : (r.files.map (·.path)).Sublist paths
  skipped_in_order : (r.skipped.map (·.path)).Sublist paths
  failed_in_order : (r.failed.map (·.path)).Sublist paths
  once : r.paths.Nodup
  complete : verbose = true → r.paths.Perm paths

/-- The lists of a result say of a file with these bytes what a run in this mode makes of it: it is
skipped exactly if it is no text, and it failed exactly if the text is malformed. -/
structure TreeResult.Sorts (r : TreeResult) (mode : Mode) (ignore : IgnoreList) (relPath : String)
    (bytes : ByteArray) : Prop where
  skipped_iff : relPath ∈ r.skipped.map (·.path) ↔ String.fromUTF8? bytes = none
  failed_iff : relPath ∈ r.failed.map (·.path) ↔ ∃ text cause,
    String.fromUTF8? bytes = some text ∧ convert mode ignore text.toList = .error (.shape cause)

theorem sum_modifications_filter (fs : List FileResult) (verbose : Bool) :
    ((fs.filter fun f => 0 < f.modifications ∨ verbose).map (·.modifications)).sum =
      (fs.map (·.modifications)).sum := by
  induction fs with
  | nil => rfl
  | cons f fs ih =>
    by_cases hm : 0 < f.modifications ∨ verbose = true
    · rw [List.filter_cons_of_pos (by simpa using hm), List.map_cons, List.sum_cons, ih]
      rfl
    · have hzero : f.modifications = 0 := by omega
      rw [List.filter_cons_of_neg (by simpa using hm), ih, List.map_cons, List.sum_cons, hzero,
        Nat.zero_add]

theorem countP_modified_filter (fs : List FileResult) (verbose : Bool) :
    (fs.filter fun f => 0 < f.modifications ∨ verbose).countP (0 < ·.modifications) =
      fs.countP (0 < ·.modifications) := by
  rw [List.countP_filter]
  congr 1
  funext f
  by_cases hm : 0 < f.modifications <;> simp [hm]

/-- **The result of different notes balances.** -/
theorem balances_of_notes {notes : List Note} (hnodup : (notes.map Note.path).Nodup)
    (verbose : Bool) (root : String) (mode : Mode) (installed : Bool) :
    (notes.foldl (TreeResult.noted verbose) (.start root mode installed)).Balances verbose
      (notes.map Note.path) := by
  have hperm := perm_of_kinds notes
  have hedited : (((notes.filterMap Note.edited?).filter
      fun f => 0 < f.modifications ∨ verbose).map (·.path)).Sublist
        ((notes.filterMap Note.edited?).map (·.path)) := List.filter_sublist.map _
  rw [foldl_noted]
  refine ⟨?_, ?_, ?_, ?_, ?_, ?_, ?_⟩
  · exact congrArg _ (countP_modified_filter _ verbose).symm
  · exact (Nat.zero_add _).trans (sum_modifications_filter _ verbose).symm
  · exact hedited.trans (map_filterMap_sublist (fun _ _ => path_of_edited?) notes)
  · exact map_filterMap_sublist (fun _ _ => path_of_skipped?) notes
  · exact map_filterMap_sublist (fun _ _ => path_of_failed?) notes
  · exact (hperm.nodup_iff.mpr hnodup).sublist ((hedited.append_right _).append_right _)
  · rintro rfl
    have hall : ((notes.filterMap Note.edited?).filter fun f => 0 < f.modifications ∨ true) =
        notes.filterMap Note.edited? := List.filter_eq_self.mpr (by simp)
    show (List.map _ ([] ++ _) ++ _ ++ _).Perm _
    rw [hall]
    exact hperm

namespace Edit

/-! ## The notes of a run -/

/-- What a run in a mode notes of an item whose file has these bytes, or cannot be read; the error
is the one that ends the run. -/
def noteOf (run : TreeRun) (mode : Mode) (i : ScanItem) (fetched : Except FileError ByteArray) :
    Except Error Note :=
  match i.failure with
  | some cause => .ok (.failed ⟨i.file.relPath, cause⟩)
  | none =>
    match fileResult run mode i.file fetched with
    | .ok result => .ok (.edited { result with path := i.file.relPath })
    | .error cause =>
      if cause.root = .notText then .ok (.skipped ⟨i.file.relPath, cause⟩)
      else if cause.isShape ∧ !run.strict then .ok (.failed ⟨i.file.relPath, cause⟩)
      else .error cause

/-- A run that begins in this mode with these files notes this of some items, and leaves the files
`fs'`. -/
inductive Logged (run : TreeRun) : Mode → FileSystem → List ScanItem → List Note → FileSystem → Prop
  | nil (mode : Mode) (fs : FileSystem) : Logged run mode fs [] [] fs
  | cons {mode : Mode} {fs fs' : FileSystem} {i : ScanItem} {items : List ScanItem} {note : Note}
      {notes : List Note} (h : noteOf run mode i (fs.fetch i.file.path) = .ok note)
      (rest : Logged run (note.carry mode) (filesAfter run mode i fs) items notes fs') :
      Logged run mode fs (i :: items) (note :: notes) fs'

section
variable {run : TreeRun} {mode : Mode} {fs fs' : FileSystem} {i : ScanItem}
  {items pre post : List ScanItem} {note : Note} {notes : List Note} {r r' : TreeResult}
  {fetched : Except FileError ByteArray}

theorem itemResult_eq_noted (h : i.isModule = false) (run : TreeRun) (r : TreeResult)
    (fetched : Except FileError ByteArray) : itemResult run r i fetched =
      (noteOf run r.mode i fetched).map (r.noted run.verbose) := by
  rw [itemResult.eq_def, noteOf.eq_def]
  cases hfail : i.failure with
  | some cause => rfl
  | none =>
    have hmodule : i.file.relPath ≠ SupportModule.path := by
      simpa [ScanItem.isModule, hfail] using h
    dsimp only
    rw [if_neg hmodule, takeIn.eq_def]
    cases fileResult run r.mode i.file fetched with
    | ok result => rfl
    | error cause =>
      dsimp only
      split
      · rfl
      · split <;> rfl

/-- **A run is its notes**: it comes to its end with the result that is read off them. -/
theorem runItems_eq_ok_iff (hitems : ∀ i ∈ items, i.isModule = false) :
    runItems run items r fs = (.ok r', fs') ↔
      ∃ notes, Logged run r.mode fs items notes fs' ∧
        r' = notes.foldl (TreeResult.noted run.verbose) r := by
  induction items generalizing r fs with
  | nil =>
    constructor
    · intro h
      obtain ⟨hr, rfl⟩ := Prod.mk.inj h
      exact ⟨[], .nil _ _, (Except.ok.inj hr).symm⟩
    · rintro ⟨notes, hlog, rfl⟩
      cases hlog
      rfl
  | cons i items ih =>
    obtain ⟨hi, hitems⟩ := List.forall_mem_cons.mp hitems
    rw [runItems, itemResult_eq_noted hi]
    cases hnote : noteOf run r.mode i (fs.fetch i.file.path) with
    | error cause =>
      constructor
      · intro h
        cases h
      · rintro ⟨notes, hlog, -⟩
        cases hlog with
        | cons h rest => cases hnote.symm.trans h
    | ok note =>
      show runItems run items (r.noted run.verbose note) _ = _ ↔ _
      rw [ih hitems, mode_noted]
      constructor
      · rintro ⟨notes, hlog, rfl⟩
        exact ⟨note :: notes, .cons hnote hlog, rfl⟩
      · rintro ⟨notes, hlog, rfl⟩
        cases hlog with
        | cons h rest =>
          obtain rfl := Except.ok.inj (hnote.symm.trans h)
          exact ⟨_, rest, rfl⟩

/-- What is noted does not depend on what is reported. -/
theorem Logged.of_verbose (h : Logged run mode fs items notes fs') (verbose : Bool) :
    Logged { run with verbose } mode fs items notes fs' := by
  induction h with
  | nil mode fs => exact .nil mode fs
  | cons h rest ih => exact .cons h ih

theorem path_of_noteOf (h : noteOf run mode i fetched = .ok note) :
    note.path = i.file.relPath := by
  rw [noteOf.eq_def] at h
  split at h
  · rw [← Except.ok.inj h]
    rfl
  · split at h
    · rw [← Except.ok.inj h]
      rfl
    · split at h
      · rw [← Except.ok.inj h]
        rfl
      · split at h
        · rw [← Except.ok.inj h]
          rfl
        · cases h

/-- There is one note for each item, in the order of the items. -/
theorem Logged.map_path (h : Logged run mode fs items notes fs') :
    notes.map Note.path = items.map (·.file.relPath) := by
  induction h with
  | nil mode fs => rfl
  | cons h rest ih => rw [List.map_cons, List.map_cons, path_of_noteOf h, ih]

/-- The note of one item, and the notes before it. -/
theorem Logged.split (h : Logged run mode fs (pre ++ i :: post) notes fs') :
    ∃ before note fs₁, note ∈ notes ∧ Logged run mode fs pre before fs₁ ∧
      noteOf run (before.foldl Note.carry mode) i (fs₁.fetch i.file.path) = .ok note := by
  induction pre generalizing mode fs notes with
  | nil =>
    cases h with
    | cons h rest => exact ⟨[], _, fs, List.mem_cons_self, .nil mode fs, h⟩
  | cons j pre ih =>
    cases h with
    | cons h rest =>
      obtain ⟨before, note, fs₁, hmem, hlog, hnote⟩ := ih rest
      exact ⟨_ :: before, note, fs₁, List.mem_cons_of_mem _ hmem, .cons h hlog, hnote⟩

/-- **What is noted of a file**: it is skipped if it is no text, it fails if its text is malformed,
and else it is edited.  A run in which it cannot be read does not go on. -/
theorem noteOf_file (hcheck : (run.ignoreMap.get i.file.relPath).check = .ok ())
    (hsource : i.failure = none) (h : noteOf run mode i fetched = .ok note) :
    ∃ bytes, fetched = .ok bytes ∧
      (note.skipped?.isSome = true ↔ String.fromUTF8? bytes = none) ∧
      (note.failed?.isSome = true ↔ ∃ text cause, String.fromUTF8? bytes = some text ∧
        convert mode (run.ignoreMap.get i.file.relPath) text.toList = .error (.shape cause)) := by
  rw [noteOf.eq_def, hsource] at h
  cases fetched with
  | error cause =>
    -- such an error is neither of the two kinds that are noted
    cases h
  | ok bytes =>
    refine ⟨bytes, rfl, ?_⟩
    dsimp only [fileResult] at h
    rw [sourceResult] at h
    cases htext : String.fromUTF8? bytes with
    | none =>
      rw [htext] at h
      obtain rfl := Except.ok.inj h
      simp [Note.skipped?, Note.failed?]
    | some text =>
      rw [htext] at h
      dsimp only at h
      rcases convert_cases hcheck mode text.toList with ⟨c, hc⟩ | ⟨cause, hc⟩
      · rw [hc] at h
        obtain rfl := Except.ok.inj h
        simp [Note.skipped?, Note.failed?, hc]
      · rw [hc] at h
        change (if Error.shape { cause with path := i.file.path } = .notText then _ else
          if true = true ∧ (!run.strict) = true then .ok (Note.failed ⟨i.file.relPath, _⟩) else _) =
            Except.ok note at h
        rw [if_neg (by intro hcause; cases hcause)] at h
        split at h
        · obtain rfl := Except.ok.inj h
          simp [Note.skipped?, Note.failed?, hc]
        · cases h

theorem noteOf_failure (hfail : i.failure ≠ none) (h : noteOf run mode i fetched = .ok note) :
    note.failed?.isSome = true := by
  obtain ⟨cause, hcause⟩ := Option.ne_none_iff_exists'.mp hfail
  rw [noteOf.eq_def, hcause] at h
  obtain rfl := Except.ok.inj h
  rfl

/-! ## Runs that give a result -/

theorem determined_installFor (config : Config) (run : TreeRun) (mode : Mode) :
    Determined (installFor config run mode) := by
  intro fs
  by_cases hwanted : run.installRuntime = true ∧ mode ≠ .remove
  · obtain ⟨done, fs', hgives⟩ := SupportModule.install_of_compositional compositional_determined
      determined_setFiles determined_fileCall run.root config.runtimeTemplate run.dryRun fs
    exact ⟨done, fs', installFor_of_install config run hwanted hgives⟩
  · exact ⟨_, fs, installFor_of_not_wanted config run hwanted fs⟩

/-- A run that gives a result was not cancelled, it was in order, and it went over the items of a
scan of the files that it left when the support module was seen to. -/
theorem runItems_of_outcome {config : Config} {cancelled : Bool}
    (h : (tree config cancelled run).outcome fs = (.ok r, fs')) :
    cancelled = false ∧ ∃ mode installed mid, run.check = .ok mode ∧
      fs.checkRoot run.root = .ok () ∧
      Gives (installFor config run mode) fs (.ok installed) mid ∧
      runItems run (workItems mid run.root (selection config.suffix run))
        (.start run.root mode installed) mid = (.ok r, fs') := by
  cases cancelled with
  | true =>
    obtain ⟨cause, fs'', hgives, -⟩ := tree_cancelled config run fs
    rw [hgives.outcome_eq] at h
    cases h
  | false =>
    have hend : ∀ mode, fs.checkRoot run.root = .ok () →
        ∃ done mid, Gives (installFor config run mode) fs done mid :=
      fun mode _ => determined_installFor config run mode fs
    obtain ⟨mode, installed, mid, hmode, hroot, hinstall⟩ :=
      begun_of_outcome hend (congrArg Prod.fst h)
    rw [(tree_gives hmode hroot hinstall).outcome_eq, ← runItems_workItems] at h
    exact ⟨rfl, mode, installed, mid, hmode, hroot, hinstall, h⟩

theorem not_isModule_of_mem_workItems {root : String} {s : Selection}
    (h : i ∈ workItems fs root s) : i.isModule = false := by
  simpa using (List.mem_filter.mp h).2

theorem outcome_of_logged {config : Config} {mid : FileSystem} {installed : Bool}
    (hmode : run.check = .ok mode) (hroot : fs.checkRoot run.root = .ok ())
    (hinstall : Gives (installFor config run mode) fs (.ok installed) mid)
    (hlog : Logged run mode mid (workItems mid run.root (selection config.suffix run)) notes fs')
    (verbose : Bool) : (tree config false { run with verbose }).outcome fs =
      (.ok (notes.foldl (TreeResult.noted verbose) (.start run.root mode installed)), fs') := by
  have hgives := @tree_gives fs mid config { run with verbose } mode installed hmode hroot hinstall
  rw [hgives.outcome_eq, ← runItems_workItems]
  exact (runItems_eq_ok_iff fun i => not_isModule_of_mem_workItems).mpr
    ⟨notes, hlog.of_verbose verbose, rfl⟩

/-- The relative paths of the items of a run are different. -/
theorem nodup_workItems (fs : FileSystem) (root : String) (s : Selection) :
    ((workItems fs root s).map (·.file.relPath)).Nodup :=
  (nodup_relPaths fs root s).sublist (List.filter_sublist.map _)

theorem isTarget_of_source (hmodule : i.isModule = false) (hsource : i.failure = none) :
    i.isTarget = true := by
  simpa [ScanItem.isModule, ScanItem.isTarget, hsource] using hmodule

/-- When a run comes to an item that stands apart, its file is as it was in the beginning. -/
theorem fetch_before_turn (hapart : Apart fs (pre ++ i :: post)) (htarget : i.isTarget = true)
    (run : TreeRun) (r : TreeResult) :
    (runItems run pre r fs).2.fetch i.file.path = fs.fetch i.file.path := by
  refine fetch_of_shape (shape_runItems run pre r fs).symm fun loc f hl => ?_
  have hplace := ScanItem.place?_eq_some_iff.mpr ⟨htarget, f, hl⟩
  obtain ⟨-, hbefore, -⟩ := hapart.split hplace
  exact ⟨f, (at?_runItems_of_ne run r hbefore).trans (FileSystem.at?_of_locate hl), rfl⟩

theorem prepares_of_installFor {config : Config} {mid : FileSystem} {installed : Bool}
    (hlf : fs.root.linkFree = true) (hroot : fs.checkRoot run.root = .ok ())
    (hinstall : Gives (installFor config run mode) fs (.ok installed) mid) :
    ∃ L es, fs.locate run.root = .ok (.found L (.dir es)) ∧
      SupportModule.Prepares run.root L config.runtimeTemplate fs mid := by
  obtain ⟨L, es, hlocate⟩ := checkRoot_eq_ok_iff.mp hroot
  obtain ⟨done, mid', hgives, hprep, -⟩ := installFor_prepares config run mode hlf hlocate
  obtain ⟨-, rfl⟩ := hgives.unique hinstall
  exact ⟨L, es, hlocate, hprep⟩

/-- Without links, each file is read as it was in the beginning. -/
theorem fetch_of_linkFree {config : Config} {mid : FileSystem} {installed : Bool}
    (hlf : fs.root.linkFree = true) (hroot : fs.checkRoot run.root = .ok ())
    (hinstall : Gives (installFor config run mode) fs (.ok installed) mid)
    (hsplit : workItems mid run.root (selection config.suffix run) = pre ++ i :: post)
    (htarget : i.isTarget = true) (r : TreeResult) :
    (runItems run pre r mid).2.fetch i.file.path = fs.fetch i.file.path := by
  obtain ⟨L, es, hlocate, hprep⟩ := prepares_of_installFor hlf hroot hinstall
  obtain ⟨es', hlocate'⟩ := hprep.locate_dir hlf hlocate
  have hitems := hprep.workItems_eq hlf hlocate (selection config.suffix run)
  have hi : i ∈ workItems fs run.root (selection config.suffix run) := by
    rw [← hitems, hsplit]
    simp
  have hapart := apart_workItems (hprep.linkFree_root hlf) hlocate' (selection config.suffix run)
  rw [hsplit] at hapart
  rw [fetch_before_turn hapart htarget]
  exact (target_of_prepares hprep hlf hlocate hi htarget).2

/-- **The books of a run balance.**  A run that gives a result has seen to the support module and
has then gone over the items of a scan, less the module, one after the other.

* The numbers and the lists of its result balance with the relative paths of these items.
* If the same run is verbose, it gives the same result with more files listed; if it is not, it
  lists those of them in which something was modified.
* A directory that cannot be looked into is listed as failed.  A file is listed by what the run
  makes of the bytes that it has when the run comes to it, in the mode that the run is then in.
* Without links, the items are those of a scan of the files in the beginning, and the bytes are
  those in the beginning, too. -/
theorem tree_accounts {config : Config} {cancelled : Bool}
    (h : (tree config cancelled run).outcome fs = (.ok r, fs')) :
    ∃ mode installed mid, run.check = .ok mode ∧
      (installFor config run mode).outcome fs = (.ok installed, mid) ∧
      r.runtimeInstalled = installed ∧
      r.Balances run.verbose
        ((workItems mid run.root (selection config.suffix run)).map (·.file.relPath)) ∧
      (∃ all, (tree config cancelled { run with verbose := true }).outcome fs =
          (.ok { r with files := all }, fs') ∧
        (tree config cancelled { run with verbose := false }).outcome fs =
          (.ok { r with files := all.filter (0 < ·.modifications) }, fs')) ∧
      (fs.root.linkFree = true → workItems mid run.root (selection config.suffix run) =
        workItems fs run.root (selection config.suffix run)) ∧
      ∀ pre i post, workItems mid run.root (selection config.suffix run) = pre ++ i :: post →
        (i.failure ≠ none → i.file.relPath ∈ r.failed.map (·.path)) ∧
        (i.failure = none → ∃ before fs₁ bytes,
          (pre.foldlM (item run cancelled) (.start run.root mode installed)).outcome mid =
            (.ok before, fs₁) ∧
          fs₁.fetch i.file.path = .ok bytes ∧
          (fs.root.linkFree = true → fs.fetch i.file.path = .ok bytes) ∧
          r.Sorts before.mode (run.ignoreMap.get i.file.relPath) i.file.relPath bytes) := by
  obtain ⟨rfl, mode, installed, mid, hmode, hroot, hinstall, hrun⟩ := runItems_of_outcome h
  have hwork : ∀ i ∈ workItems mid run.root (selection config.suffix run), i.isModule = false :=
    fun i => not_isModule_of_mem_workItems
  obtain ⟨notes, hlog, rfl⟩ := (runItems_eq_ok_iff hwork).mp hrun
  have hpaths := hlog.map_path
  have hnodup : (notes.map Note.path).Nodup := by
    rw [hpaths]
    exact nodup_workItems mid run.root _
  have hfields := foldl_noted run.verbose notes (.start run.root mode installed)
  refine ⟨mode, installed, mid, hmode, hinstall.outcome_eq, by rw [hfields]; rfl, ?_, ?_, ?_, ?_⟩
  · rw [← hpaths]
    exact balances_of_notes hnodup run.verbose run.root mode installed
  · have hall : (notes.filterMap Note.edited?).filter (fun f => 0 < f.modifications ∨ true) =
        notes.filterMap Note.edited? := List.filter_eq_self.mpr (by simp)
    have hmodified : (notes.filterMap Note.edited?).filter (fun f => 0 < f.modifications ∨ false) =
        (notes.filterMap Note.edited?).filter (0 < ·.modifications) := by simp
    refine ⟨notes.filterMap Note.edited?, ?_, ?_⟩
    · rw [outcome_of_logged hmode hroot hinstall hlog, foldl_noted_eq run.verbose true, hall]
    · rw [outcome_of_logged hmode hroot hinstall hlog, foldl_noted_eq run.verbose false, hmodified]
  · intro hlf
    obtain ⟨L, es, hlocate, hprep⟩ := prepares_of_installFor hlf hroot hinstall
    exact hprep.workItems_eq hlf hlocate _
  · intro pre i post hsplit
    rw [hsplit] at hlog hwork
    obtain ⟨before, note, fs₁, hnote, hbefore, hturn⟩ := hlog.split
    have hpre : runItems run pre (.start run.root mode installed) mid = (.ok _, fs₁) :=
      (runItems_eq_ok_iff fun j hj => hwork j (List.mem_append_left _ hj)).mpr
        ⟨before, hbefore, rfl⟩
    -- the path of the item is listed with the kind of its note
    have hskipped := path_mem_iff (fun _ _ => path_of_skipped?) hnodup hnote
    have hfailed := path_mem_iff (fun _ _ => path_of_failed?) hnodup hnote
    rw [path_of_noteOf hturn] at hskipped hfailed
    rw [hfields]
    refine ⟨fun hfail => hfailed.mpr (noteOf_failure hfail hturn), fun hsource => ?_⟩
    obtain ⟨bytes, hbytes, htext, hshape⟩ := noteOf_file (check_get hmode _) hsource hturn
    have hgives := foldlM_item_gives run pre (.start run.root mode installed) mid
    rw [hpre] at hgives
    refine ⟨_, fs₁, bytes, hgives.outcome_eq, hbytes, ?_, hskipped.trans htext, ?_⟩
    · intro hlf
      have htarget := isTarget_of_source (hwork i (by simp)) hsource
      rw [← fetch_of_linkFree hlf hroot hinstall hsplit htarget (.start run.root mode installed),
        hpre]
      exact hbytes
    · rw [foldl_noted]
      exact hfailed.trans hshape

end

/-- What a toggle of the mixed files gives: two files are modified, one is no text and one is
malformed. -/
def mixedResult : TreeResult where
  root := "t"
  mode := .remove
  modifiedFiles := 2
  modifiedLines := 2
  runtimeInstalled := false
  files := [⟨"a.py", .remove, 1, none, true, ""⟩, ⟨"d.py", .remove, 1, none, true, ""⟩]
  skipped := [⟨"b.py", .within "t/b.py" .notText⟩]
  failed := [⟨"c.py", .shape ⟨"t/c.py", 2, "x = 1".toList, Pass.expectedClass⟩⟩]

theorem workItems_mixed : workItems mixedFiles "t" (selection ".py" (toggleRun false)) =
    [⟨⟨"t/a.py", "a.py"⟩, none⟩, ⟨⟨"t/b.py", "b.py"⟩, none⟩, ⟨⟨"t/c.py", "c.py"⟩, none⟩,
      ⟨⟨"t/d.py", "d.py"⟩, none⟩] := by
  rw [workItems_eq linkFree_mixed locate_mixed]
  decide +kernel

theorem tree_mixed : ∃ fs', (tree .default false (toggleRun false)).outcome mixedFiles =
    (.ok mixedResult, fs') := by
  have ha := fetch_of_locate (FileSystem.locate_of_get? linkFree_mixed "t/a.py" ["t", "a.py"]
    (by decide +kernel) rfl)
  have hb := fetch_of_locate (FileSystem.locate_of_get? linkFree_mixed "t/b.py" ["t", "b.py"]
    (by decide +kernel) rfl)
  have hc := fetch_of_locate (FileSystem.locate_of_get? linkFree_mixed "t/c.py" ["t", "c.py"]
    (by decide +kernel) rfl)
  have hd := fetch_of_locate (FileSystem.locate_of_get? linkFree_mixed "t/d.py" ["t", "d.py"]
    (by decide +kernel) rfl)
  obtain ⟨done, mid, hgives, hprep, -⟩ :=
    installFor_prepares .default (toggleRun false) .toggle linkFree_mixed locate_mixed
  obtain ⟨hdone, rfl⟩ := Prod.mk.inj (hgives.outcome_eq.symm.trans
    (installFor_of_not_wanted .default (toggleRun false) (by decide) mixedFiles).outcome_eq)
  subst hdone
  obtain ⟨-, -, hresult⟩ := tree_outcome linkFree_mixed
    (show (toggleRun false).check = .ok .toggle from rfl) locate_mixed hprep hgives
  refine ⟨_, Prod.ext (hresult.trans ?_) rfl⟩
  show itemsResult _ _ _ (workItems mixedFiles "t" (selection ".py" (toggleRun false))) = _
  rw [workItems_mixed]
  simp only [itemsResult_cons, ha, hb, hc, hd]
  decide +kernel

theorem tree_accounts_mixed :
    ∃ fs', (tree .default false (toggleRun false)).outcome mixedFiles = (.ok mixedResult, fs') ∧
      mixedResult.Balances false ["a.py", "b.py", "c.py", "d.py"] ∧
      (∃ all, (tree .default false { toggleRun false with verbose := true }).outcome mixedFiles =
        (.ok { mixedResult with files := all }, fs')) ∧
      ∀ name ∈ ["a.py", "b.py", "c.py", "d.py"], ∃ mode bytes,
        mixedFiles.fetch ("t/" ++ name) = .ok bytes ∧ mixedResult.Sorts mode [] name bytes := by
  obtain ⟨fs', h⟩ := tree_mixed
  obtain ⟨mode, installed, mid, -, -, -, hbalances, ⟨all, hall, -⟩, hitems, hsorts⟩ :=
    tree_accounts h
  have hmem : ∀ name ∈ ["a.py", "b.py", "c.py", "d.py"], ScanItem.mk ⟨"t/" ++ name, name⟩ none ∈
      workItems mixedFiles "t" (selection ".py" (toggleRun false)) := by
    rw [workItems_mixed]
    decide +kernel
  refine ⟨fs', h, ?_, ⟨all, hall⟩, fun name hname => ?_⟩
  · rw [(hitems linkFree_mixed).trans workItems_mixed] at hbalances
    exact hbalances
  · obtain ⟨pre, post, hsplit⟩ := List.append_of_mem (hmem name hname)
    obtain ⟨before, -, bytes, -, -, hbytes, hsort⟩ :=
      (hsorts pre _ post ((hitems linkFree_mixed).trans hsplit)).2 rfl
    exact ⟨before.mode, bytes, hbytes linkFree_mixed, hsort⟩

end Edit
end ForwardDecl
