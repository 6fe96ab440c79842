import ForwardDecl.Proofs.Endings
import ForwardDecl.Proofs.IgnoreLists
import ForwardDecl.Proofs.Preparing

/-! # Each file in its turn

A run over a tree comes to one file after the other.  The mode of a file's turn is
carried from the files before it: a toggle becomes what the first file that can be
converted resolves it to (`Edit.modeAfter`).  A file ends the run if it cannot be
read, or if it is malformed and the run is strict (`Edit.ending?`); the files before it
are converted, each in the mode of its turn, and the others are left alone
(`Edit.tree_edits_in_turn`).
-/
namespace ForwardDecl
namespace Edit

/-- The files among some items that a run edits. -/
def targetFiles (items : List ScanItem) : List SourceFile :=
  (items.filter ScanItem.isTarget).map ScanItem.file

/-- The files that a run over a tree edits, in the order of a scan. -/
def targets (fs : FileSystem) (config : Config) (run : TreeRun) : List SourceFile :=
  targetFiles (scan fs false run.root (selection config.suffix run))

/-- The mode after a file: a toggle goes on as what the conversion of the file
resolved it to, if the file is a text that can be converted. -/
def modeAfter (ignore : IgnoreList) (fetched : Except FileError ByteArray) (mode : Mode) : Mode :=
  if mode = .toggle then
    match fetched.toOption.bind (conversion? .toggle ignore) with
    | some converted => converted.mode
    | none => mode
  else mode

/-- How a text of the wrong shape is malformed. -/
def malformed? (mode : Mode) (ignore : IgnoreList) (bytes : ByteArray) : Option ShapeError :=
  match String.fromUTF8? bytes with
  | none => none
  | some text =>
    match convert mode ignore text.toList with
    | .error (.shape cause) => some cause
    | _ => none

/-- The error with which a file ends a run: it cannot be read, or it is malformed and
the run is strict. -/
def ending? (run : TreeRun) (mode : Mode) (f : SourceFile)
    (fetched : Except FileError ByteArray) : Option Error :=
  match fetched with
  | .error cause => some (.file cause)
  | .ok bytes =>
    if run.strict then
      (malformed? mode (run.ignoreMap.get f.relPath) bytes).map fun cause =>
        .shape { cause with path := f.path }
    else none

section
variable (run : TreeRun) (fetch : String → Except FileError ByteArray)

/-- The mode after some files. -/
def modeAfterAll (mode : Mode) (files : List SourceFile) : Mode :=
  files.foldl (fun mode f => modeAfter (run.ignoreMap.get f.relPath) (fetch f.path) mode) mode

/-- Whether none of the files ends the run. -/
def passes : Mode → List SourceFile → Bool
  | _, [] => true
  | mode, f :: files => (ending? run mode f (fetch f.path)).isNone &&
      passes (modeAfter (run.ignoreMap.get f.relPath) (fetch f.path) mode) files

end

section
variable {run : TreeRun} {fetch : String → Except FileError ByteArray} {mode : Mode}
  {files : List SourceFile} {f : SourceFile} {i : ScanItem} {r : TreeResult}
  {items : List ScanItem}

theorem passes_cons : passes run fetch mode (f :: files) = true ↔
    ending? run mode f (fetch f.path) = none ∧
      passes run fetch (modeAfter (run.ignoreMap.get f.relPath) (fetch f.path) mode) files = true := by
  rw [passes, Bool.and_eq_true, Option.isNone_iff_eq_none]

theorem passes_snoc : passes run fetch mode (files ++ [f]) = true ↔
    passes run fetch mode files = true ∧
      ending? run (modeAfterAll run fetch mode files) f (fetch f.path) = none := by
  induction files generalizing mode with
  | nil => rw [List.nil_append, passes_cons]; exact and_comm
  | cons g files ih =>
    rw [List.cons_append, passes_cons, ih, passes_cons, and_assoc]
    rfl

/-! ## One file -/

theorem check_eq_ok_iff : run.check = .ok mode ↔ run.root ≠ "" ∧ Mode.ofName run.mode = .ok mode ∧
    run.ignoreMap.check (fun path => "ignore list for " ++ path) = .ok () := by
  rw [TreeRun.check]
  by_cases hroot : run.root = ""
  · rw [if_pos hroot]
    exact ⟨(fun h => nomatch h), fun h => absurd hroot h.1⟩
  · rw [if_neg hroot]
    cases Mode.ofName run.mode with
    | error cause => exact ⟨(fun h => nomatch h), fun h => nomatch h.2.1⟩
    | ok word =>
      cases run.ignoreMap.check fun path => "ignore list for " ++ path with
      | error cause => exact ⟨(fun h => nomatch h), fun h => nomatch h.2.2⟩
      | ok u => exact ⟨fun h => ⟨hroot, h, rfl⟩, fun h => h.2.1⟩

/-- The ignore lists of a run that is in order are in order. -/
theorem check_get (hmode : run.check = .ok mode) (path : String) :
    (run.ignoreMap.get path).check = .ok () := by
  obtain ⟨-, -, hmap⟩ := check_eq_ok_iff.mp hmode
  exact (IgnoreMap.check_eq_ok_iff.mp hmap).get path

/-- What converting a text under a list that is in order can come to. -/
theorem convert_cases {ignore : IgnoreList} (h : ignore.check = .ok ()) (mode : Mode)
    (text : List Char) : (∃ c, convert mode ignore text = .ok c) ∨
      ∃ cause, convert mode ignore text = .error (.shape cause) := by
  rw [convert_of_check h]
  cases hf : Conversion.finish (splitLines text) (Pass.run mode ignore (splitLines text)).ending with
  | ok c => exact Or.inl ⟨c, rfl⟩
  | error err =>
    obtain ⟨cause, rfl, -⟩ := Conversion.finish_eq_error hf
    exact Or.inr ⟨cause, rfl⟩

theorem modeAfter_of_ok {ignore : IgnoreList} {bytes : ByteArray} {c : Converted}
    (h : conversion? mode ignore bytes = some c) :
    modeAfter ignore (.ok bytes) mode = TreeResult.carry mode c.mode := by
  rw [modeAfter, TreeResult.carry]
  by_cases hm : mode = .toggle
  · rw [if_pos hm, if_pos hm, ← hm]
    show (match conversion? mode ignore bytes with
      | some converted => converted.mode
      | none => mode) = c.mode
    rw [h]
  · rw [if_neg hm, if_neg hm]

theorem modeAfter_of_none {ignore : IgnoreList} {bytes : ByteArray}
    (h : conversion? mode ignore bytes = none) : modeAfter ignore (.ok bytes) mode = mode := by
  rw [modeAfter]
  by_cases hm : mode = .toggle
  · rw [if_pos hm, ← hm]
    show (match conversion? mode ignore bytes with
      | some converted => converted.mode
      | none => mode) = mode
    rw [h]
  · rw [if_neg hm]

/-- **One file in its turn** ends the run, or the run goes on in the mode after it. -/
theorem itemResult_turn (hcheck : (run.ignoreMap.get i.file.relPath).check = .ok ())
    (htarget : i.isTarget = true) (r : TreeResult) (fetched : Except FileError ByteArray) :
    match ending? run r.mode i.file fetched with
    | some cause => itemResult run r i fetched = .error cause
    | none => ∃ r', itemResult run r i fetched = .ok r' ∧
        r'.mode = modeAfter (run.ignoreMap.get i.file.relPath) fetched r.mode := by
  rw [itemResult_of_target htarget]
  cases fetched with
  | error cause => rfl
  | ok bytes =>
    rw [ending?, fileResult, sourceResult, malformed?]
    cases hutf : String.fromUTF8? bytes with
    | none =>
      -- no text: the file is skipped
      have hnone : conversion? r.mode (run.ignoreMap.get i.file.relPath) bytes = none := by
        rw [conversion?, hutf]
        rfl
      rw [modeAfter_of_none hnone]
      cases run.strict <;> exact ⟨_, rfl, rfl⟩
    | some text =>
      dsimp only
      rcases convert_cases hcheck r.mode text.toList with ⟨c, hc⟩ | ⟨cause, hc⟩
      · have hsome : conversion? r.mode (run.ignoreMap.get i.file.relPath) bytes = some c := by
          rw [conversion?, hutf]
          show (convert r.mode (run.ignoreMap.get i.file.relPath) text.toList).toOption = _
          rw [hc]
          rfl
        rw [modeAfter_of_ok hsome, hc]
        cases run.strict <;> exact ⟨_, rfl, rfl⟩
      · have hnone : conversion? r.mode (run.ignoreMap.get i.file.relPath) bytes = none := by
          rw [conversion?, hutf]
          show (convert r.mode (run.ignoreMap.get i.file.relPath) text.toList).toOption = _
          rw [hc]
          rfl
        rw [modeAfter_of_none hnone, hc, takeIn.eq_def]
        cases run.strict with
        | true => rfl
        | false => exact ⟨_, rfl, rfl⟩

/-- A file that ends the run is left as it was to be read. -/
theorem map_bytesAfter_of_ending? {fetched : Except FileError ByteArray} {cause : Error}
    (h : ending? run mode f fetched = some cause) :
    fetched.map (bytesAfter mode (run.ignoreMap.get f.relPath)) = fetched := by
  cases fetched with
  | error cause => rfl
  | ok bytes =>
    have hnone : conversion? mode (run.ignoreMap.get f.relPath) bytes = none := by
      rw [ending?, malformed?] at h
      rw [conversion?]
      cases hutf : String.fromUTF8? bytes with
      | none => rfl
      | some text =>
        rw [hutf] at h
        dsimp only at h
        show (convert mode (run.ignoreMap.get f.relPath) text.toList).toOption = none
        cases hc : convert mode (run.ignoreMap.get f.relPath) text.toList with
        | error cause => rfl
        | ok c =>
          rw [hc] at h
          split at h <;> cases h
    show Except.ok (bytesAfter _ _ bytes) = _
    rw [bytesAfter, newBytes?, hnone]
    rfl

/-! ## All files -/

theorem targetFiles_cons (i : ScanItem) (items : List ScanItem) : targetFiles (i :: items) =
    if i.isTarget then i.file :: targetFiles items else targetFiles items := by
  rw [targetFiles, List.filter_cons]
  split <;> rfl

theorem split_targetFiles {pre post : List SourceFile} (h : targetFiles items = pre ++ f :: post) :
    ∃ ipre i ipost, items = ipre ++ i :: ipost ∧ targetFiles ipre = pre ∧ i.isTarget = true ∧
      i.file = f ∧ targetFiles ipost = post := by
  induction items generalizing pre with
  | nil => exact absurd h.symm (by simp [targetFiles])
  | cons i items ih =>
    rw [targetFiles_cons] at h
    split at h
    · rename_i htarget
      cases pre with
      | nil =>
        obtain ⟨rfl, rfl⟩ := List.cons.inj h
        exact ⟨[], i, items, rfl, rfl, htarget, rfl, rfl⟩
      | cons g pre =>
        obtain ⟨rfl, hrest⟩ := List.cons.inj h
        obtain ⟨ipre, j, ipost, rfl, rfl, hj, rfl, rfl⟩ := ih hrest
        refine ⟨i :: ipre, j, ipost, rfl, ?_, hj, rfl, rfl⟩
        rw [targetFiles_cons, if_pos htarget]
    · rename_i htarget
      obtain ⟨ipre, j, ipost, rfl, rfl, hj, rfl, rfl⟩ := ih h
      refine ⟨i :: ipre, j, ipost, rfl, ?_, hj, rfl, rfl⟩
      rw [targetFiles_cons, if_neg htarget]

/-- A run goes over files none of which ends it, and carries the mode along. -/
theorem itemsResult_passes (hcheck : ∀ path, (run.ignoreMap.get path).check = .ok ())
    (h : passes run fetch r.mode (targetFiles items) = true) :
    ∃ r', itemsResult run fetch r items = .ok r' ∧
      r'.mode = modeAfterAll run fetch r.mode (targetFiles items) := by
  induction items generalizing r with
  | nil => exact ⟨r, rfl, rfl⟩
  | cons i items ih =>
    rw [targetFiles_cons] at h ⊢
    rw [itemsResult_cons]
    cases htarget : i.isTarget with
    | true =>
      rw [htarget, if_pos rfl, passes_cons] at h
      have hturn := itemResult_turn (hcheck _) htarget r (fetch i.file.path)
      rw [h.1] at hturn
      obtain ⟨r₁, hr₁, hmode⟩ := hturn
      rw [← hmode] at h
      obtain ⟨r', hr', hmode'⟩ := ih h.2
      refine ⟨r', by rw [hr₁]; exact hr', ?_⟩
      rw [hmode', hmode, if_pos rfl]
      rfl
    | false =>
      rw [htarget, if_neg Bool.false_ne_true] at h
      rw [if_neg Bool.false_ne_true]
      rw [itemResult_of_not_target htarget]
      exact ih h

theorem itemsResult_append (run : TreeRun) (fetch : String → Except FileError ByteArray)
    (r : TreeResult) (xs ys : List ScanItem) : itemsResult run fetch r (xs ++ ys) =
      itemsResult run fetch r xs >>= (itemsResult run fetch · ys) :=
  List.foldlM_append

/-- A run ends at a file that ends it. -/
theorem itemsResult_ending (hcheck : ∀ path, (run.ignoreMap.get path).check = .ok ())
    {ipre : List ScanItem} (h : passes run fetch r.mode (targetFiles ipre) = true)
    (htarget : i.isTarget = true) {cause : Error}
    (hend : ending? run (modeAfterAll run fetch r.mode (targetFiles ipre)) i.file
      (fetch i.file.path) = some cause) (ipost : List ScanItem) :
    itemsResult run fetch r (ipre ++ i :: ipost) = .error cause := by
  obtain ⟨r', hr', hmode⟩ := itemsResult_passes hcheck h
  have hturn := itemResult_turn (hcheck _) htarget r' (fetch i.file.path)
  rw [hmode, hend] at hturn
  rw [itemsResult_append, hr']
  show itemsResult run fetch r' (i :: ipost) = _
  rw [itemsResult_cons, hturn]
  rfl

section
variable {fs : FileSystem} {ipre ipost : List ScanItem}

/-- What can be read in the end of a file that the run comes to. -/
theorem fetch_of_turn (hcheck : ∀ path, (run.ignoreMap.get path).check = .ok ())
    (hreal : run.dryRun = false) (hapart : Apart fs (ipre ++ i :: ipost))
    (hbytes : ∀ j ∈ ipre ++ i :: ipost, j.isTarget = true → fs.fetch j.file.path = fetch j.file.path)
    (htarget : i.isTarget = true) (h : passes run fetch r.mode (targetFiles ipre) = true) :
    (runItems run (ipre ++ i :: ipost) r fs).2.fetch i.file.path = (fetch i.file.path).map
      (bytesAfter (modeAfterAll run fetch r.mode (targetFiles ipre))
        (run.ignoreMap.get i.file.relPath)) := by
  obtain ⟨r', hr', hmode⟩ := itemsResult_passes hcheck h
  have hbefore : itemsResult run fs.fetch r ipre = .ok r' := by
    rw [itemsResult_congr fun j hj => hbytes j (List.mem_append_left _ hj), hr']
  rw [fetch_runItems_reached hapart htarget hbefore, hbytes i (by simp) htarget, hmode, hreal]
  rfl

/-- What can be read in the end of a file after the one that ended the run. -/
theorem fetch_of_ending (hcheck : ∀ path, (run.ignoreMap.get path).check = .ok ())
    (hapart : Apart fs (ipre ++ i :: ipost))
    (hbytes : ∀ j ∈ ipre ++ i :: ipost, j.isTarget = true → fs.fetch j.file.path = fetch j.file.path)
    (htarget : i.isTarget = true) (h : passes run fetch r.mode (targetFiles ipre) = true)
    {cause : Error} (hend : ending? run (modeAfterAll run fetch r.mode (targetFiles ipre)) i.file
      (fetch i.file.path) = some cause) {g : SourceFile} (hg : g ∈ targetFiles ipost) :
    (runItems run (ipre ++ i :: ipost) r fs).2.fetch g.path = fetch g.path := by
  obtain ⟨before, after, hsplit⟩ := List.append_of_mem hg
  obtain ⟨jpre, j, jpost, rfl, -, hj, rfl, -⟩ := split_targetFiles hsplit
  have hstopped : itemsResult run fs.fetch r (ipre ++ i :: jpre) = .error cause := by
    rw [itemsResult_congr, itemsResult_ending hcheck h htarget hend]
    intro k hk
    refine hbytes k ?_
    rcases List.mem_append.mp hk with hk | hk
    · exact List.mem_append_left _ hk
    · rw [← List.cons_append]
      exact List.mem_append_right _ (List.mem_append_left _ hk)
  have hassoc : ipre ++ i :: (jpre ++ j :: jpost) = (ipre ++ i :: jpre) ++ j :: jpost := by simp
  rw [hassoc] at hapart hbytes ⊢
  rw [fetch_runItems_unreached hapart hj hstopped]
  exact hbytes j (by simp) hj

end
end

/-! ## The whole run -/

theorem targets_eq (fs : FileSystem) (config : Config) (run : TreeRun) :
    targets fs config run =
      targetFiles (workItems fs run.root (selection config.suffix run)) := by
  rw [targets, targetFiles, targetFiles, workItems, List.filter_filter]
  congr 1
  refine List.filter_congr fun i _ => ?_
  rw [ScanItem.isTarget, ScanItem.isModule]
  cases i.failure.isNone <;> simp

/-- A file to remove declarations from, one that is no text, one that is malformed and
another one to remove declarations from. -/
def mixedEntries : Entries :=
  [("a.py", .file ⟨"from forward import *\nx = 1\n".toUTF8, 0o644, 0, 0⟩),
    ("b.py", .file ⟨⟨#[0xff]⟩, 0o644, 0, 0⟩),
    ("c.py", .file ⟨"@forward()\nx = 1\n".toUTF8, 0o644, 0, 0⟩),
    ("d.py", .file ⟨"del forward\ny = 2\n".toUTF8, 0o644, 0, 0⟩)]

def mixedFiles : FileSystem where
  root := .dir [("t", .dir mixedEntries)]
  cwd := []
  now := 1
  wellFormed := by
    simp only [Node.WellFormed, Node.WellFormedEntries, mixedEntries]
    decide +kernel

/-- A run that toggles the files of `t`. -/
def toggleRun (strict : Bool) : TreeRun where
  root := "t"
  mode := "toggle"
  ignoreDirs := []
  ignoreFiles := []
  ignoreMap := []
  verbose := false
  installRuntime := false
  dryRun := false
  showDiff := false
  strict := strict

theorem linkFree_mixed : mixedFiles.root.linkFree = true := by decide

theorem locate_mixed : mixedFiles.locate "t" = .ok (.found ["t"] (.dir mixedEntries)) :=
  FileSystem.locate_of_get? linkFree_mixed "t" ["t"] (by decide +kernel) rfl

theorem targets_mixed (strict : Bool) : targets mixedFiles .default (toggleRun strict) =
    [⟨"t/a.py", "a.py"⟩, ⟨"t/b.py", "b.py"⟩, ⟨"t/c.py", "c.py"⟩, ⟨"t/d.py", "d.py"⟩] := by
  show targetFiles (scan mixedFiles false "t" (selection ".py" (toggleRun strict))) = _
  rw [scan_eq_finds linkFree_mixed locate_mixed]
  decide +kernel +revert

end Edit
end ForwardDecl
