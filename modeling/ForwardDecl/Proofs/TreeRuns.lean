import ForwardDecl.Proofs.FileEdits
import ForwardDecl.Proofs.Findings

/-! # What editing a tree comes to

A run over a tree goes from one item of a scan to the next.  What it makes of an
item is known from the bytes of its file (`Edit.itemResult`), and only that file
changes (`Edit.filesAfter`); so a whole run is known from the items and the files
(`Edit.runItems`, `Edit.tree_gives`).

The items of a scan stand at different places.  Each file is therefore still as it
was in the beginning when the run comes to it, and afterwards it is left alone: the
result is that of the bytes in the beginning (`Edit.runItems_fst`), and every file
is in the end what the edit in the mode of its turn leaves of it
(`Edit.at?_runItems_reached`, `Edit.at?_runItems_unreached`).
-/
namespace ForwardDecl

/-! ## The files that a run edits -/

namespace ScanItem

/-- Whether a run edits the item: it is a file, and not the support module. -/
def isTarget (i : ScanItem) : Bool :=
  i.failure.isNone && i.file.relPath ≠ SupportModule.path

/-- What a run notes of an item that it does not edit: why it cannot, unless the item is
the support module. -/
def failures (i : ScanItem) : List FileFailure :=
  i.failure.toList.map fun cause => ⟨i.file.relPath, cause⟩

/-- The location of the file that a run edits for the item. -/
def place? (fs : FileSystem) (i : ScanItem) : Option Location :=
  if i.isTarget then
    match fs.locate i.file.path with
    | .ok (.found loc (.file _)) => some loc
    | _ => none
  else none

section
variable {fs fs' : FileSystem} {i : ScanItem} {loc : Location}

theorem isTarget_iff :
    i.isTarget = true ↔ i.failure = none ∧ i.file.relPath ≠ SupportModule.path := by
  rw [isTarget, Bool.and_eq_true, Option.isNone_iff_eq_none, decide_eq_true_eq]

theorem failures_of_none (h : i.failure = none) : i.failures = [] := by
  rw [failures, h]
  rfl

theorem place?_eq_some_iff : i.place? fs = some loc ↔
    i.isTarget = true ∧ ∃ f, fs.locate i.file.path = .ok (.found loc (.file f)) := by
  rw [place?]
  split
  · rename_i htarget
    constructor
    · intro h
      split at h
      · rename_i loc' f hl
        obtain rfl := Option.some.inj h
        exact ⟨htarget, f, hl⟩
      · cases h
    · rintro ⟨-, f, hl⟩
      rw [hl]
  · rename_i htarget
    exact ⟨(fun h => nomatch h), fun h => absurd h.1 htarget⟩

theorem place?_of_shape (h : fs.shape = fs'.shape) (i : ScanItem) : i.place? fs = i.place? fs' := by
  refine Option.ext fun loc => ?_
  rw [place?_eq_some_iff, place?_eq_some_iff]
  refine and_congr_right fun _ => ⟨?_, ?_⟩
  · rintro ⟨f, hl⟩
    exact FileSystem.locate_of_shape h hl
  · rintro ⟨f, hl⟩
    exact FileSystem.locate_of_shape h.symm hl

end
end ScanItem

namespace Edit

/-! ## One item -/

/-- Take into a result what came of a file: a file that is no text is skipped, and
a malformed one fails unless the run is strict. -/
def takeIn (run : TreeRun) (r : TreeResult) (relPath : String) (done : Except Error FileResult) :
    Except Error TreeResult :=
  match done with
  | .ok result => .ok (r.add run.verbose { result with path := relPath })
  | .error cause =>
    if cause.root = .notText then .ok { r with skipped := r.skipped ++ [⟨relPath, cause⟩] }
    else if cause.isShape ∧ !run.strict then .ok { r with failed := r.failed ++ [⟨relPath, cause⟩] }
    else .error cause

/-- What comes of a file of a run that has these bytes, or cannot be read. -/
def fileResult (run : TreeRun) (mode : Mode) (f : SourceFile)
    (fetched : Except FileError ByteArray) : Except Error FileResult :=
  match fetched with
  | .error cause => .error (.file cause)
  | .ok bytes => sourceResult f.path f.relPath mode (run.ignoreMap.get f.relPath)
      ⟨run.dryRun, run.showDiff⟩ bytes

/-- What a run makes of an item whose file has these bytes, or cannot be read. -/
def itemResult (run : TreeRun) (r : TreeResult) (i : ScanItem)
    (fetched : Except FileError ByteArray) : Except Error TreeResult :=
  match i.failure with
  | some cause => .ok { r with failed := r.failed ++ [⟨i.file.relPath, cause⟩] }
  | none =>
    if i.file.relPath = SupportModule.path then .ok r
    else takeIn run r i.file.relPath (fileResult run r.mode i.file fetched)

/-- The files after a run has come to an item in a mode. -/
def filesAfter (run : TreeRun) (mode : Mode) (i : ScanItem) (fs : FileSystem) : FileSystem :=
  if i.isTarget then
    match fs.locate i.file.path with
    | .ok (.found loc (.file f)) =>
      fs.putFile loc (fileAfter fs.now mode (run.ignoreMap.get i.file.relPath) run.dryRun f)
    | _ => fs
  else fs

section
variable {fs fs' : FileSystem} {run : TreeRun} {r r' : TreeResult} {i : ScanItem}
  {items : List ScanItem} {mode : Mode} {loc : Location} {f : File}

/-- What an item does to the files: nothing, or an edit of the file at its place. -/
theorem filesAfter_cases (run : TreeRun) (mode : Mode) (i : ScanItem) (fs : FileSystem) :
    (i.place? fs = none ∧ filesAfter run mode i fs = fs) ∨
    ∃ loc f, i.place? fs = some loc ∧ fs.locate i.file.path = .ok (.found loc (.file f)) ∧
      filesAfter run mode i fs =
        fs.putFile loc (fileAfter fs.now mode (run.ignoreMap.get i.file.relPath) run.dryRun f) := by
  rw [ScanItem.place?, filesAfter]
  split
  · split
    · rename_i loc f hl
      exact Or.inr ⟨loc, f, rfl, hl, rfl⟩
    · exact Or.inl ⟨rfl, rfl⟩
  · exact Or.inl ⟨rfl, rfl⟩

theorem attempt_gives {α : Type} {e : Edit α} {done : Except Error α} (h : Gives e fs done fs') :
    Gives (attempt e) fs (.ok done) fs' := by
  intro trace
  obtain ⟨trace', hrun⟩ := h trace
  refine ⟨trace', ?_⟩
  show EStateM.tryCatch (EStateM.bind e fun a => pure (Except.ok a)) _ ⟨fs, trace⟩ = _
  delta EStateM.tryCatch
  rw [EStateM.bind, show e ⟨fs, trace⟩ = _ from hrun]
  cases done <;> rfl

theorem takeIn_gives (run : TreeRun) (r : TreeResult) (relPath : String)
    (done : Except Error FileResult) (fs : FileSystem) :
    Gives (match done with
      | .ok result => return r.add run.verbose { result with path := relPath }
      | .error cause =>
        if cause.root = .notText then skip r relPath cause
        else if cause.isShape ∧ !run.strict then fail r relPath cause
        else throw cause) fs (takeIn run r relPath done) fs := by
  cases done with
  | ok result => exact gives_pure _ _
  | error cause =>
    rw [takeIn]
    dsimp only
    split
    · exact (gives_tell _ _).bind (gives_pure _ _)
    · split
      · exact (gives_tell _ _).bind (gives_pure _ _)
      · exact gives_throw _ _

/-- **One item.**  The result depends on the bytes of the file alone, and only the
file changes. -/
theorem item_gives (run : TreeRun) (r : TreeResult) (i : ScanItem) (fs : FileSystem) :
    Gives (item run false r i) fs (itemResult run r i (fs.fetch i.file.path))
      (filesAfter run r.mode i fs) := by
  rw [item, itemResult.eq_def, filesAfter, ScanItem.isTarget]
  cases hfail : i.failure with
  | some cause => exact (gives_tell _ _).bind (gives_pure _ _)
  | none =>
    dsimp only
    by_cases hmodule : i.file.relPath = SupportModule.path
    · rw [if_pos hmodule, if_pos hmodule, if_neg (by simp [hmodule])]
      exact gives_pure _ _
    · rw [if_neg hmodule, if_neg hmodule, if_pos (by simp [hmodule])]
      cases hfetch : fs.fetch i.file.path with
      | ok bytes =>
        obtain ⟨loc, f, hl, rfl⟩ := locate_of_fetch hfetch
        rw [hl]
        exact (attempt_gives (source_gives_file hl)).bind (takeIn_gives _ _ _ _ _)
      | error cause =>
        have hfiles : ∀ loc f, fs.locate i.file.path ≠ .ok (.found loc (.file f)) := by
          intro loc f hl
          rw [fetch_of_locate hl] at hfetch
          cases hfetch
        have hsame : (match fs.locate i.file.path with
            | .ok (.found loc (.file f)) => fs.putFile loc (fileAfter fs.now r.mode
                (run.ignoreMap.get i.file.relPath) run.dryRun f)
            | _ => fs) = fs := by
          split
          · rename_i loc f hl
            exact absurd hl (hfiles loc f)
          · rfl
        rw [hsame]
        exact (attempt_gives (source_gives_error hfetch)).bind
          (takeIn_gives run r i.file.relPath (.error (.file cause)) fs)

theorem shape_filesAfter (run : TreeRun) (mode : Mode) (i : ScanItem) (fs : FileSystem) :
    (filesAfter run mode i fs).shape = fs.shape := by
  rcases filesAfter_cases run mode i fs with ⟨-, heq⟩ | ⟨loc, f, -, hl, heq⟩
  · rw [heq]
  · rw [heq, FileSystem.shape_putFile (FileSystem.at?_of_locate hl)]

theorem now_filesAfter (run : TreeRun) (mode : Mode) (i : ScanItem) (fs : FileSystem) :
    (filesAfter run mode i fs).now = fs.now := by
  rcases filesAfter_cases run mode i fs with ⟨-, heq⟩ | ⟨loc, f, -, -, heq⟩ <;> rw [heq]
  rfl

theorem at?_filesAfter (run : TreeRun) (mode : Mode) (h : i.place? fs = some loc)
    (hf : fs.at? loc = some (.file f)) : (filesAfter run mode i fs).at? loc =
      some (.file (fileAfter fs.now mode (run.ignoreMap.get i.file.relPath) run.dryRun f)) := by
  rcases filesAfter_cases run mode i fs with ⟨hnone, -⟩ | ⟨loc', f', hsome, hl, heq⟩
  · rw [h] at hnone
    cases hnone
  · obtain rfl := Option.some.inj (h.symm.trans hsome)
    have hat := FileSystem.at?_of_locate hl
    obtain rfl := Node.file.inj (Option.some.inj (hf.symm.trans hat))
    rw [heq, FileSystem.at?_putFile hat, if_pos rfl]

theorem at?_filesAfter_of_ne (run : TreeRun) (mode : Mode) (h : i.place? fs ≠ some loc) :
    (filesAfter run mode i fs).at? loc = fs.at? loc := by
  rcases filesAfter_cases run mode i fs with ⟨-, heq⟩ | ⟨loc', f, hsome, hl, heq⟩
  · rw [heq]
  · rw [heq, FileSystem.at?_putFile (FileSystem.at?_of_locate hl), if_neg]
    rintro rfl
    exact h hsome

/-- An item elsewhere makes no difference to the bytes of a file. -/
theorem fetch_filesAfter {j : ScanItem} (run : TreeRun) (mode : Mode)
    (h : ∀ loc, i.place? fs = some loc → j.place? fs ≠ some loc) (hj : j.isTarget = true) :
    (filesAfter run mode i fs).fetch j.file.path = fs.fetch j.file.path := by
  refine fetch_of_shape (shape_filesAfter run mode i fs).symm fun loc f hl => ?_
  have hplace : j.place? fs = some loc := ScanItem.place?_eq_some_iff.mpr ⟨hj, f, hl⟩
  refine ⟨f, ?_, rfl⟩
  rw [at?_filesAfter_of_ne run mode fun hi => h loc hi hplace]
  exact FileSystem.at?_of_locate hl

theorem keepsShape_item (run : TreeRun) : KeepsShape (item run false) := by
  intro r i d r' d' h
  obtain ⟨trace', hrun⟩ := item_gives run r i d.files d.trace
  have hboth := hrun.symm.trans h
  cases hres : itemResult run r i (d.files.fetch i.file.path) with
  | error cause =>
    rw [hres] at hboth
    cases hboth
  | ok r'' =>
    rw [hres] at hboth
    obtain ⟨-, rfl⟩ := EStateM.Result.ok.inj hboth
    exact shape_filesAfter run r.mode i d.files

theorem itemResult_of_target (h : i.isTarget = true) (run : TreeRun) (r : TreeResult)
    (fetched : Except FileError ByteArray) : itemResult run r i fetched =
      takeIn run r i.file.relPath (fileResult run r.mode i.file fetched) := by
  obtain ⟨hsource, hmodule⟩ := ScanItem.isTarget_iff.mp h
  rw [itemResult.eq_def, hsource]
  exact if_neg hmodule

/-- An item that is no target makes no difference but for what is noted of it, and its
bytes make none to it. -/
theorem itemResult_of_not_target (h : i.isTarget = false) (run : TreeRun) (r : TreeResult)
    (fetched : Except FileError ByteArray) :
    itemResult run r i fetched = .ok { r with failed := r.failed ++ i.failures } := by
  rw [itemResult.eq_def, ScanItem.failures]
  cases hfail : i.failure with
  | some cause => rfl
  | none =>
    have hmodule : i.file.relPath = SupportModule.path := Decidable.byContradiction fun hne =>
      Bool.eq_false_iff.mp h (ScanItem.isTarget_iff.mpr ⟨hfail, hne⟩)
    rw [Option.toList_none, List.map_nil, List.append_nil]
    exact if_pos hmodule

theorem itemResult_congr {x y : Except FileError ByteArray} (h : i.isTarget = true → x = y) :
    itemResult run r i x = itemResult run r i y := by
  cases htarget : i.isTarget with
  | true => rw [h htarget]
  | false =>
    rw [itemResult_of_not_target htarget, itemResult_of_not_target htarget]

/-! ## All items -/

/-- What a run over some items comes to. -/
def runItems (run : TreeRun) : List ScanItem → TreeResult → FileSystem →
    Except Error TreeResult × FileSystem
  | [], r, fs => (.ok r, fs)
  | i :: items, r, fs =>
    match itemResult run r i (fs.fetch i.file.path) with
    | .ok r' => runItems run items r' (filesAfter run r.mode i fs)
    | .error cause => (.error cause, filesAfter run r.mode i fs)

/-- What a run over some items gives if their files have the bytes that are
fetched. -/
def itemsResult (run : TreeRun) (fetch : String → Except FileError ByteArray) (r : TreeResult)
    (items : List ScanItem) : Except Error TreeResult :=
  items.foldlM (fun r i => itemResult run r i (fetch i.file.path)) r

theorem itemsResult_cons (run : TreeRun) (fetch : String → Except FileError ByteArray)
    (r : TreeResult) (i : ScanItem) (items : List ScanItem) :
    itemsResult run fetch r (i :: items) =
      itemResult run r i (fetch i.file.path) >>= (itemsResult run fetch · items) :=
  List.foldlM_cons

theorem itemsResult_congr {fetch fetch' : String → Except FileError ByteArray}
    (h : ∀ i ∈ items, i.isTarget = true → fetch i.file.path = fetch' i.file.path)
    (run : TreeRun) (r : TreeResult) :
    itemsResult run fetch r items = itemsResult run fetch' r items := by
  induction items generalizing r with
  | nil => rfl
  | cons i items ih =>
    obtain ⟨hi, hitems⟩ := List.forall_mem_cons.mp h
    rw [itemsResult_cons, itemsResult_cons, itemResult_congr hi]
    exact bind_congr fun r' => ih hitems r'

theorem foldlM_item_gives (run : TreeRun) (items : List ScanItem) (r : TreeResult)
    (fs : FileSystem) : Gives (items.foldlM (item run false) r) fs
      (runItems run items r fs).1 (runItems run items r fs).2 := by
  induction items generalizing r fs with
  | nil => exact gives_pure _ _
  | cons i items ih =>
    have hitem := item_gives run r i fs
    rw [List.foldlM_cons, runItems]
    cases hres : itemResult run r i (fs.fetch i.file.path) with
    | ok r' =>
      rw [hres] at hitem
      exact hitem.bind (ih _ _)
    | error cause =>
      rw [hres] at hitem
      exact hitem.bind_error _

theorem shape_runItems (run : TreeRun) (items : List ScanItem) (r : TreeResult)
    (fs : FileSystem) : (runItems run items r fs).2.shape = fs.shape := by
  induction items generalizing r fs with
  | nil => rfl
  | cons i items ih =>
    rw [runItems]
    split
    · rw [ih, shape_filesAfter]
    · exact shape_filesAfter run r.mode i fs

theorem now_runItems (run : TreeRun) (items : List ScanItem) (r : TreeResult) (fs : FileSystem) :
    (runItems run items r fs).2.now = fs.now := by
  induction items generalizing r fs with
  | nil => rfl
  | cons i items ih =>
    rw [runItems]
    split
    · rw [ih, now_filesAfter]
    · exact now_filesAfter run r.mode i fs

/-- A run changes nothing but the files at the places of its items. -/
theorem at?_runItems_of_ne (run : TreeRun) (r : TreeResult)
    (h : ∀ i ∈ items, i.place? fs ≠ some loc) :
    (runItems run items r fs).2.at? loc = fs.at? loc := by
  induction items generalizing r fs with
  | nil => rfl
  | cons i items ih =>
    obtain ⟨hi, hitems⟩ := List.forall_mem_cons.mp h
    rw [runItems]
    split
    · rw [ih, at?_filesAfter_of_ne run r.mode hi]
      intro j hj
      rw [ScanItem.place?_of_shape (shape_filesAfter run r.mode i fs)]
      exact hitems j hj
    · exact at?_filesAfter_of_ne run r.mode hi

theorem runItems_append (run : TreeRun) (xs ys : List ScanItem) (r : TreeResult)
    (fs : FileSystem) : runItems run (xs ++ ys) r fs =
      match runItems run xs r fs with
      | (.ok r', fs') => runItems run ys r' fs'
      | (.error cause, fs') => (.error cause, fs') := by
  induction xs generalizing r fs with
  | nil => rfl
  | cons i xs ih =>
    rw [List.cons_append, runItems, runItems]
    cases itemResult run r i (fs.fetch i.file.path) with
    | ok r' => exact ih r' _
    | error cause => rfl

/-! ## Items at different places -/

/-- No two of the items are at the same place. -/
def Apart (fs : FileSystem) (items : List ScanItem) : Prop :=
  items.Pairwise fun i j => ∀ loc, i.place? fs = some loc → j.place? fs ≠ some loc

theorem Apart.of_shape (h : Apart fs items) (hs : fs.shape = fs'.shape) : Apart fs' items := by
  refine List.Pairwise.imp ?_ h
  intro i j hij
  rwa [← ScanItem.place?_of_shape hs, ← ScanItem.place?_of_shape hs]

/-- **The result of a run over items apart is that of the bytes in the beginning.** -/
theorem runItems_fst (h : Apart fs items) (run : TreeRun) (r : TreeResult) :
    (runItems run items r fs).1 = itemsResult run fs.fetch r items := by
  induction items generalizing r fs with
  | nil => rfl
  | cons i items ih =>
    obtain ⟨hi, hitems⟩ := List.pairwise_cons.mp h
    rw [runItems, itemsResult_cons]
    cases itemResult run r i (fs.fetch i.file.path) with
    | error cause => rfl
    | ok r' =>
      have hlater := ih (Apart.of_shape hitems (shape_filesAfter run r.mode i fs).symm) r'
      refine hlater.trans ?_
      exact itemsResult_congr (fun j hj hjt => fetch_filesAfter run r.mode (hi j hj) hjt) run r'

section
variable {pre post : List ScanItem}

theorem Apart.split (h : Apart fs (pre ++ i :: post)) (hi : i.place? fs = some loc) :
    Apart fs pre ∧ (∀ j ∈ pre, j.place? fs ≠ some loc) ∧ ∀ j ∈ post, j.place? fs ≠ some loc := by
  obtain ⟨hpre, hpost, hbetween⟩ := List.pairwise_append.mp h
  refine ⟨hpre, fun j hj hjl => ?_, fun j hj => (List.pairwise_cons.mp hpost).1 j hj loc hi⟩
  exact hbetween j hj i List.mem_cons_self loc hjl hi

/-- **A file that a run comes to** is in the end what an edit in the mode of its turn
leaves of it. -/
theorem at?_runItems_reached (h : Apart fs (pre ++ i :: post)) (hi : i.place? fs = some loc)
    (hf : fs.at? loc = some (.file f)) (hpre : itemsResult run fs.fetch r pre = .ok r') :
    (runItems run (pre ++ i :: post) r fs).2.at? loc = some (.file
      (fileAfter fs.now r'.mode (run.ignoreMap.get i.file.relPath) run.dryRun f)) := by
  -- no other file of the run is in this place, neither before the turn nor after it
  obtain ⟨hapart, hbefore, hafter⟩ := h.split hi
  have hresult := (runItems_fst hapart run r).trans hpre
  have hshape := shape_runItems run pre r fs
  have hnow := now_runItems run pre r fs
  have hkept := at?_runItems_of_ne run r hbefore
  rw [runItems_append]
  generalize runItems run pre r fs = done at hresult hshape hnow hkept
  obtain ⟨done, fs₁⟩ := done
  obtain rfl : done = .ok r' := hresult
  dsimp only at hshape hnow hkept ⊢
  have hi₁ : i.place? fs₁ = some loc := by rw [ScanItem.place?_of_shape hshape, hi]
  have hturn := at?_filesAfter run r'.mode hi₁ (hkept.trans hf)
  rw [hnow] at hturn
  rw [runItems]
  split
  · rw [at?_runItems_of_ne, hturn]
    intro j hj
    rw [ScanItem.place?_of_shape ((shape_filesAfter run r'.mode i fs₁).trans hshape)]
    exact hafter j hj
  · exact hturn

/-- **A file that a run does not come to** is as it was. -/
theorem at?_runItems_unreached (h : Apart fs (pre ++ i :: post)) (hi : i.place? fs = some loc)
    {cause : Error} (hpre : itemsResult run fs.fetch r pre = .error cause) :
    (runItems run (pre ++ i :: post) r fs).2.at? loc = fs.at? loc := by
  obtain ⟨hapart, hbefore, -⟩ := h.split hi
  have hresult := (runItems_fst hapart run r).trans hpre
  have hkept := at?_runItems_of_ne run r hbefore
  rw [runItems_append]
  generalize runItems run pre r fs = done at hresult hkept
  obtain ⟨done, fs₁⟩ := done
  obtain rfl : done = .error cause := hresult
  exact hkept

/-- What can be read of a file in the end, if the run comes to it. -/
theorem fetch_runItems_reached (h : Apart fs (pre ++ i :: post)) (htarget : i.isTarget = true)
    (hpre : itemsResult run fs.fetch r pre = .ok r') :
    (runItems run (pre ++ i :: post) r fs).2.fetch i.file.path =
      (fs.fetch i.file.path).map fun bytes => if run.dryRun then bytes
        else bytesAfter r'.mode (run.ignoreMap.get i.file.relPath) bytes := by
  have hshape := shape_runItems run (pre ++ i :: post) r fs
  cases hfetch : fs.fetch i.file.path with
  | ok bytes =>
    obtain ⟨loc, f, hl, rfl⟩ := locate_of_fetch hfetch
    have hplace := ScanItem.place?_eq_some_iff.mpr ⟨htarget, f, hl⟩
    have hat := at?_runItems_reached h hplace (FileSystem.at?_of_locate hl) hpre
    obtain ⟨f', hl'⟩ := FileSystem.locate_of_shape hshape.symm hl
    have hfile := hat.symm.trans (FileSystem.at?_of_locate hl')
    rw [fetch_of_locate hl', ← Node.file.inj (Option.some.inj hfile), bytes_fileAfter]
    rfl
  | error cause =>
    rw [fetch_of_shape hshape.symm, hfetch]
    · rfl
    · intro loc f hl
      rw [fetch_of_locate hl] at hfetch
      cases hfetch

/-- A run that does not come to a file leaves it as it was to be read. -/
theorem fetch_runItems_unreached (h : Apart fs (pre ++ i :: post)) (htarget : i.isTarget = true)
    {cause : Error} (hpre : itemsResult run fs.fetch r pre = .error cause) :
    (runItems run (pre ++ i :: post) r fs).2.fetch i.file.path = fs.fetch i.file.path := by
  refine fetch_of_shape (shape_runItems run (pre ++ i :: post) r fs).symm fun loc f hl => ?_
  have hplace := ScanItem.place?_eq_some_iff.mpr ⟨htarget, f, hl⟩
  refine ⟨f, ?_, rfl⟩
  rw [at?_runItems_unreached h hplace hpre]
  exact FileSystem.at?_of_locate hl

end

end

/-! ## The whole run -/

theorem checkRoot_eq_ok_iff {fs : FileSystem} {path : String} : fs.checkRoot path = .ok () ↔
    ∃ L es, fs.locate path = .ok (.found L (.dir es)) := by
  rw [FileSystem.checkRoot, FileSystem.stat]
  constructor
  · intro h
    split at h
    · cases h
    · cases hl : fs.locate path with
      | error fault => rw [hl] at h; cases h
      | ok target =>
        rw [hl] at h
        cases target with
        | absent loc => cases h
        | found L n =>
          cases n with
          | dir es => exact ⟨L, es, rfl⟩
          | file f => cases h
          | link target => cases h
  · rintro ⟨L, es, hl⟩
    have hne : path ≠ "" := by
      rintro rfl
      cases hl
    rw [if_neg hne, hl]
    rfl

theorem scanM_item_gives (run : TreeRun) (s : Selection) (r : TreeResult) (fs : FileSystem) :
    Gives (scanM listing (item run false) false run.root s r) fs
      (runItems run (scan fs false run.root s) r fs).1
      (runItems run (scan fs false run.root s) r fs).2 := by
  intro trace
  obtain ⟨trace', hrun⟩ := foldlM_item_gives run (scan fs false run.root s) r fs trace
  refine ⟨trace', ?_⟩
  rw [← hrun, scanM, if_neg Bool.false_ne_true, scan_eq_findings]
  exact explore_listing (keepsShape_item run) s _ _ _ r ⟨fs, trace⟩

section
variable {fs fs₁ : FileSystem} {config : Config} {run : TreeRun} {mode : Mode} {installed : Bool}
  {cancelled : Bool} {cause : Error}

/-! A run may end before it looks for files. -/

theorem tree_gives_of_check (h : run.check = .error cause) :
    Gives (tree config cancelled run) fs (.error cause) fs := by
  rw [tree, h]
  exact (gives_throw cause fs).bind_error _

theorem tree_gives_of_root (hmode : run.check = .ok mode)
    (h : fs.checkRoot run.root = .error cause) :
    Gives (tree config cancelled run) fs (.error cause) fs := by
  rw [tree, hmode]
  refine (gives_pure mode fs).bind ((gives_files fs).bind ?_)
  rw [h]
  exact (gives_throw cause fs).bind_error _

theorem tree_gives_of_install (hmode : run.check = .ok mode)
    (hroot : fs.checkRoot run.root = .ok ())
    (h : Gives (installFor config run mode) fs (.error cause) fs₁) :
    Gives (tree config cancelled run) fs (.error cause) fs₁ := by
  rw [tree, hmode]
  refine (gives_pure mode fs).bind ((gives_files fs).bind ?_)
  rw [hroot]
  exact (gives_pure () fs).bind ((gives_tell _ _).bind (h.bind_error _))

/-- A run that is cancelled looks for no files. -/
theorem tree_gives_of_cancelled (hmode : run.check = .ok mode)
    (hroot : fs.checkRoot run.root = .ok ())
    (h : Gives (installFor config run mode) fs (.ok installed) fs₁) :
    Gives (tree config true run) fs (.error .cancelled) fs₁ := by
  rw [tree, hmode]
  refine (gives_pure mode fs).bind ((gives_files fs).bind ?_)
  rw [hroot]
  refine (gives_pure () fs).bind ((gives_tell _ _).bind (h.bind ?_))
  exact (gives_throw .cancelled fs₁).bind_error _

/-- **A run over a tree** whose settings and root are in order, after what it
installed: it goes over the items of a scan of the files as they are then. -/
theorem tree_gives (hmode : run.check = .ok mode) (hroot : fs.checkRoot run.root = .ok ())
    (hinstall : Gives (installFor config run mode) fs (.ok installed) fs₁) :
    Gives (tree config false run) fs
      (runItems run (scan fs₁ false run.root (selection config.suffix run))
        (.start run.root mode installed) fs₁).1
      (runItems run (scan fs₁ false run.root (selection config.suffix run))
        (.start run.root mode installed) fs₁).2 := by
  have hscan := scanM_item_gives run (selection config.suffix run)
    (.start run.root mode installed) fs₁
  rw [tree, hmode]
  refine (gives_pure mode fs).bind ((gives_files fs).bind ?_)
  rw [hroot]
  refine (gives_pure () fs).bind ((gives_tell _ _).bind (hinstall.bind ?_))
  cases hres : (runItems run (scan fs₁ false run.root (selection config.suffix run))
      (.start run.root mode installed) fs₁).1 with
  | ok result =>
    rw [hres] at hscan
    exact hscan.bind ((gives_tell _ _).bind (gives_pure _ _))
  | error cause =>
    rw [hres] at hscan
    exact hscan.bind_error _

/-- A run that gives a result was in order, had a directory to look into, and installed
what it was to install, if an installation comes to an end. -/
theorem begun_of_outcome {r : TreeResult} (hend : ∀ mode, fs.checkRoot run.root = .ok () →
      ∃ done fs₁, Gives (installFor config run mode) fs done fs₁)
    (h : ((tree config false run).outcome fs).1 = .ok r) :
    ∃ mode installed fs₁, run.check = .ok mode ∧ fs.checkRoot run.root = .ok () ∧
      Gives (installFor config run mode) fs (.ok installed) fs₁ := by
  cases hmode : run.check with
  | error cause =>
    rw [(tree_gives_of_check hmode).outcome_eq] at h
    cases h
  | ok mode =>
    cases hroot : fs.checkRoot run.root with
    | error cause =>
      rw [(tree_gives_of_root hmode hroot).outcome_eq] at h
      cases h
    | ok u =>
      obtain ⟨done, fs₁, hinstall⟩ := hend mode hroot
      cases done with
      | error cause =>
        rw [(tree_gives_of_install hmode hroot hinstall).outcome_eq] at h
        cases h
      | ok installed => exact ⟨mode, installed, fs₁, rfl, rfl, hinstall⟩

end

/-! ## Targets of a run -/

section
variable {fs : FileSystem} {root : String} {s : Selection} {L : Location} {es : Entries}
  {i : Finding} {loc : Location}

/-- A source file that a scan finds is a file below the root, and its path leads to
it unless it is no path. -/
theorem locate_source (hlf : fs.root.linkFree = true)
    (hroot : fs.locate root = .ok (.found L (.dir es))) (hi : i ∈ (Node.dir es).finds root s [])
    (hfault : i.fault = none) :
    ∃ f, fs.at? (L ++ i.names) = some (.file f) ∧ Node.Admitted s [] i.names ∧
      fs.locate (Path.below root i.names) =
        match FileSystem.pathFault? (Path.below root i.names) with
        | some fault => .error fault
        | none => .ok (.found (L ++ i.names) (.file f)) := by
  have hes := FileSystem.get?_of_locate hroot
  obtain ⟨names, m, hnames, hm, hfile, -⟩ :=
    Node.place_of_mem_finds (fs.wellFormed.of_get? hes).1 hi
  obtain ⟨⟨f, rfl⟩, hadmitted⟩ := hfile hfault
  rw [List.nil_append] at hnames
  have hget : fs.root.get? (L ++ i.names) = some (.file f) := by
    rw [Node.get?_append, hes, hnames]
    exact hm
  exact ⟨f, Node.at?_eq_file_iff.mpr hget, hnames ▸ hadmitted,
    (FileSystem.leads_of_locate hlf hroot).locate_below hlf hget⟩

theorem fault_of_isTarget (h : (i.item root).isTarget = true) : i.fault = none :=
  Option.map_eq_none_iff.mp (ScanItem.isTarget_iff.mp h).1

/-- The place of a finding is its location below the root. -/
theorem place?_item (hlf : fs.root.linkFree = true)
    (hroot : fs.locate root = .ok (.found L (.dir es))) (hi : i ∈ (Node.dir es).finds root s [])
    (h : (i.item root).place? fs = some loc) : loc = L ++ i.names := by
  obtain ⟨htarget, f, hl⟩ := ScanItem.place?_eq_some_iff.mp h
  obtain ⟨g, -, -, hlocate⟩ := locate_source hlf hroot hi (fault_of_isTarget htarget)
  have hboth := hlocate.symm.trans hl
  split at hboth
  · cases hboth
  · exact (Target.found.inj (Except.ok.inj hboth)).1.symm

/-- **The items of a scan are apart.** -/
theorem apart_scan (hlf : fs.root.linkFree = true)
    (hroot : fs.locate root = .ok (.found L (.dir es))) (s : Selection) :
    Apart fs (scan fs false root s) := by
  have hw := (fs.wellFormed.of_get? (FileSystem.get?_of_locate hroot)).1
  rw [scan_eq_finds hlf hroot, Apart, List.pairwise_map]
  refine (Node.nodup_finds root s [] hw).imp_of_mem ?_
  intro i j hi hj hne loc hil hjl
  have hsame := (place?_item hlf hroot hi hil).symm.trans (place?_item hlf hroot hj hjl)
  exact hne (List.append_cancel_left hsame)

end
end Edit
end ForwardDecl
