import ForwardDecl.Proofs.RoundTrip
import ForwardDecl.Proofs.TreeEdits

/-! # Removing from a tree undoes adding to it

A file that is no text is skipped by every run.  A text that ends every line with LF
and can be restored (`Edit.Reversible`) comes back byte by byte: either adding has
modified it, and then removing finds just those modifications, or adding has left it
alone, and then there is nothing to remove (`Edit.bytes_restored`).  A run that adds
comes to every file in the same mode, so that what a run that removes makes of a file
is known from the bytes in the beginning, and the two runs count alike item by item
(`Edit.itemsResult_undone`).
-/
namespace ForwardDecl

/-! ## One text -/

section
variable {ignore : IgnoreList}

/-- There is nothing to remove from a text without markers. -/
theorem convert_remove_unmarked (h : ignore.check = .ok ()) {text : List Char}
    (hu : ∀ l ∈ splitLines text, stripped l ∉ Marker.fixed) :
    ∃ c, convert .remove ignore text = .ok c ∧ c.modifications = 0 := by
  rw [convert_of_check h]
  rcases Pass.remove_unmarked hu 0 with he | ⟨reason, he⟩
  · rw [show Pass.run .remove ignore (splitLines text) = Pass.remove 0 .outside (splitLines text)
      from rfl, he, Conversion.finish]
    split
    · exact ⟨_, rfl, rfl⟩
    · exact ⟨_, rfl, rfl⟩
  · rw [show Pass.run .remove ignore (splitLines text) = Pass.remove 0 .outside (splitLines text)
      from rfl, he]
    exact ⟨_, rfl, rfl⟩

end

namespace Edit

/-! ## One file -/

theorem fromUTF8?_toUTF8 (text : String) : String.fromUTF8? text.toUTF8 = some text := by
  rw [String.fromUTF8?, dif_pos (show text.toUTF8.IsValidUTF8 from text.isValidUTF8)]
  rfl

theorem toUTF8_of_fromUTF8? {bytes : ByteArray} {text : String}
    (h : String.fromUTF8? bytes = some text) : text.toUTF8 = bytes := by
  rw [String.fromUTF8?] at h
  split at h
  · obtain rfl := Option.some.inj h
    rfl
  · cases h

/-- Bytes that come back when something is added and removed: they are no text, or a
text that ends every line with LF and can be restored. -/
def Reversible (ignore : IgnoreList) (bytes : ByteArray) : Prop :=
  ∀ text, String.fromUTF8? bytes = some text →
    Terminated text.toList ∧ Restorable ignore (splitLines text.toList)

instance (ignore : IgnoreList) (bytes : ByteArray) : Decidable (Reversible ignore bytes) :=
  match h : String.fromUTF8? bytes with
  | none => isTrue fun _ htext => nomatch h.symm.trans htext
  | some text =>
    decidable_of_iff (Terminated text.toList ∧ Restorable ignore (splitLines text.toList))
      ⟨fun hrest _ htext => Option.some.inj (h.symm.trans htext) ▸ hrest, fun hall => hall text h⟩

section
variable {ignore : IgnoreList} {bytes : ByteArray} {text : String} {mode : Mode}

theorem bytesAfter_of_not_text (h : String.fromUTF8? bytes = none) :
    bytesAfter mode ignore bytes = bytes := by
  rw [bytesAfter, newBytes?, conversion?, h]
  rfl

theorem bytesAfter_of_convert {c : Converted} (htext : String.fromUTF8? bytes = some text)
    (hc : convert mode ignore text.toList = .ok c) : bytesAfter mode ignore bytes =
      if c.modifications = 0 then bytes else (String.ofList c.text).toUTF8 := by
  have hsome : conversion? mode ignore bytes = some c := by
    rw [conversion?, htext]
    show (convert mode ignore text.toList).toOption = _
    rw [hc]
    rfl
  rw [bytesAfter, newBytes?, hsome]
  show Option.getD
    (if c.modifications = 0 then none else some (String.ofList c.text).toUTF8) bytes = _
  split <;> rfl

/-- **A file comes back.**  Adding to a text succeeds; removing from the bytes that it
leaves succeeds with as many modifications, and leaves the first bytes. -/
theorem bytes_restored (hcheck : ignore.check = .ok ()) (h : Reversible ignore bytes)
    (htext : String.fromUTF8? bytes = some text) :
    ∃ c text' c', convert .add ignore text.toList = .ok c ∧
      String.fromUTF8? (bytesAfter .add ignore bytes) = some text' ∧
      convert .remove ignore text'.toList = .ok c' ∧ c'.modifications = c.modifications ∧
      bytesAfter .remove ignore (bytesAfter .add ignore bytes) = bytes := by
  obtain ⟨hends, hrestorable⟩ := h text htext
  obtain ⟨c, hc⟩ := convert_add_ok hcheck text.toList
  have hadded := bytesAfter_of_convert htext hc
  by_cases hm : c.modifications = 0
  · -- nothing was added, and without markers there is nothing to remove
    rw [if_pos hm] at hadded
    obtain ⟨c', hc', hm'⟩ := convert_remove_unmarked hcheck hrestorable.unmarked
    refine ⟨c, text, c', hc, by rw [hadded, htext], hc', hm'.trans hm.symm, ?_⟩
    rw [hadded, bytesAfter_of_convert htext hc', if_pos hm']
  · rw [if_neg hm] at hadded
    have hback := convert_remove_of_added hc (Nat.pos_of_ne_zero hm) hrestorable hcheck
    rw [← String.toList_ofList (l := c.text)] at hback
    have htext' := fromUTF8?_toUTF8 (String.ofList c.text)
    refine ⟨c, String.ofList c.text, _, hc, by rw [hadded, htext'], hback, rfl, ?_⟩
    rw [hadded, bytesAfter_of_convert htext' hback, if_neg hm]
    show (String.ofList (joinLines (splitLines text.toList))).toUTF8 = bytes
    rw [joinLines_splitLines hends, String.ofList_toList]
    exact toUTF8_of_fromUTF8? htext

theorem bytesAfter_bytesAfter (hcheck : ignore.check = .ok ()) (h : Reversible ignore bytes) :
    bytesAfter .remove ignore (bytesAfter .add ignore bytes) = bytes := by
  cases htext : String.fromUTF8? bytes with
  | none => rw [bytesAfter_of_not_text htext, bytesAfter_of_not_text htext]
  | some text =>
    obtain ⟨c, text', c', -, -, -, -, hback⟩ := bytes_restored hcheck h htext
    exact hback

end

/-! ## All items -/

section
variable {run back : TreeRun} {i : ScanItem} {items : List ScanItem} {r r' s : TreeResult}

/-- A mode that is no toggle stays. -/
theorem itemResult_mode {fetched : Except FileError ByteArray} (hm : r.mode ≠ .toggle)
    (h : itemResult run r i fetched = .ok r') : r'.mode = r.mode := by
  cases htarget : i.isTarget with
  | false =>
    rw [itemResult_of_not_target htarget] at h
    rw [← Except.ok.inj h]
  | true =>
    rw [itemResult_of_target htarget, takeIn.eq_def] at h
    split at h
    · rw [← Except.ok.inj h]
      exact if_neg hm
    · split at h
      · rw [← Except.ok.inj h]
      · split at h
        · rw [← Except.ok.inj h]
        · cases h

theorem itemsResult_mode {fetch : String → Except FileError ByteArray} (hm : r.mode ≠ .toggle)
    (h : itemsResult run fetch r items = .ok r') : r'.mode = r.mode := by
  induction items generalizing r with
  | nil => rw [← Except.ok.inj h]
  | cons i items ih =>
    rw [itemsResult_cons] at h
    obtain ⟨r₁, hi, hitems⟩ := exists_of_bind_eq_ok h
    have hmode := itemResult_mode hm hi
    rw [ih (hmode ▸ hm) hitems, hmode]

/-- **One item, there and back.**  If a run that adds goes over an item, a run that
removes goes over what is left of it and counts as much. -/
theorem itemResult_undone (hcheck : (run.ignoreMap.get i.file.relPath).check = .ok ())
    (hmap : back.ignoreMap = run.ignoreMap) {fetched : Except FileError ByteArray}
    (hrev : i.isTarget = true → ∀ bytes, fetched = .ok bytes →
      Reversible (run.ignoreMap.get i.file.relPath) bytes)
    (hadd : r.mode = .add) (hremove : s.mode = .remove)
    (hlines : s.modifiedLines = r.modifiedLines) (h : itemResult run r i fetched = .ok r') :
    ∃ s', itemResult back s i
        (fetched.map (bytesAfter .add (run.ignoreMap.get i.file.relPath))) = .ok s' ∧
      s'.modifiedLines = r'.modifiedLines ∧ (i.failure = none → s'.failed = s.failed) := by
  cases htarget : i.isTarget with
  | false =>
    rw [itemResult_of_not_target htarget] at h
    rw [itemResult_of_not_target htarget]
    rw [← Except.ok.inj h]
    refine ⟨_, rfl, hlines, fun hsource => ?_⟩
    rw [ScanItem.failures_of_none hsource]
    exact List.append_nil s.failed
  | true =>
    rw [itemResult_of_target htarget] at h
    rw [itemResult_of_target htarget]
    cases fetched with
    | error cause => cases h
    | ok bytes =>
      rw [fileResult, sourceResult, hadd] at h
      show ∃ s', takeIn back s i.file.relPath (sourceResult i.file.path i.file.relPath s.mode
        (back.ignoreMap.get i.file.relPath) ⟨back.dryRun, back.showDiff⟩
        (bytesAfter .add (run.ignoreMap.get i.file.relPath) bytes)) = .ok s' ∧ _
      rw [sourceResult, hremove, hmap]
      cases htext : String.fromUTF8? bytes with
      | none =>
        rw [htext] at h
        rw [bytesAfter_of_not_text htext, htext]
        rw [← Except.ok.inj h]
        exact ⟨_, rfl, hlines, fun _ => rfl⟩
      | some text =>
        obtain ⟨c, text', c', hc, htext', hc', hcount, -⟩ :=
          bytes_restored hcheck (hrev htarget bytes rfl) htext
        rw [htext] at h
        dsimp only at h
        rw [hc] at h
        rw [htext']
        dsimp only
        rw [hc', ← Except.ok.inj h]
        refine ⟨_, rfl, ?_, fun _ => rfl⟩
        show s.modifiedLines + c'.modifications = r.modifiedLines + c.modifications
        rw [hlines, hcount]

/-- **All items, there and back.** -/
theorem itemsResult_undone {fetch fetch' : String → Except FileError ByteArray}
    (hcheck : ∀ path, (run.ignoreMap.get path).check = .ok ())
    (hmap : back.ignoreMap = run.ignoreMap)
    (hrev : ∀ i ∈ items, i.isTarget = true → ∀ bytes, fetch i.file.path = .ok bytes →
      Reversible (run.ignoreMap.get i.file.relPath) bytes)
    (hfetch : ∀ i ∈ items, i.isTarget = true → fetch' i.file.path =
      (fetch i.file.path).map (bytesAfter .add (run.ignoreMap.get i.file.relPath)))
    (hadd : r.mode = .add) (hremove : s.mode = .remove)
    (hlines : s.modifiedLines = r.modifiedLines) (h : itemsResult run fetch r items = .ok r') :
    ∃ s', itemsResult back fetch' s items = .ok s' ∧ s'.modifiedLines = r'.modifiedLines ∧
      ((∀ i ∈ items, i.failure = none) → s'.failed = s.failed) := by
  induction items generalizing r s with
  | nil =>
    rw [← Except.ok.inj h]
    exact ⟨s, rfl, hlines, fun _ => rfl⟩
  | cons i items ih =>
    obtain ⟨hrevi, hrevs⟩ := List.forall_mem_cons.mp hrev
    obtain ⟨hfetchi, hfetchs⟩ := List.forall_mem_cons.mp hfetch
    rw [itemsResult_cons] at h ⊢
    obtain ⟨r₁, hi, hitems⟩ := exists_of_bind_eq_ok h
    obtain ⟨s₁, hs₁, hlines₁, hfailed₁⟩ :=
      itemResult_undone (hcheck _) hmap hrevi hadd hremove hlines hi
    have hr₁mode : r₁.mode = .add := (itemResult_mode (by rw [hadd]; decide) hi).trans hadd
    have hs₁mode : s₁.mode = .remove :=
      (itemResult_mode (by rw [hremove]; decide) hs₁).trans hremove
    obtain ⟨s', hs', hlines', hfailed'⟩ := ih hrevs hfetchs hr₁mode hs₁mode hlines₁ hitems
    refine ⟨s', ?_, hlines', fun hnone => ?_⟩
    · rw [itemResult_congr hfetchi, hs₁]
      exact hs'
    · obtain ⟨hnonei, hnones⟩ := List.forall_mem_cons.mp hnone
      rw [hfailed' hnones, hfailed₁ hnonei]

theorem itemsResult_before {fetch : String → Except FileError ByteArray} {later : List ScanItem}
    (h : itemsResult run fetch r (items ++ later) = .ok r') :
    ∃ r₁, itemsResult run fetch r items = .ok r₁ := by
  rw [itemsResult_append] at h
  obtain ⟨r₁, hr, -⟩ := exists_of_bind_eq_ok h
  exact ⟨r₁, hr⟩

section
variable {fs : FileSystem} {loc : Location} {f : File} {mode : Mode}

/-- A run that gives a result, in a mode that is no toggle, edits every file in it. -/
theorem at?_runItems_ok (hapart : Apart fs items) (hm : r.mode = mode) (hne : mode ≠ .toggle)
    (h : itemsResult run fs.fetch r items = .ok r') (hi : i ∈ items)
    (hplace : i.place? fs = some loc) (hf : fs.at? loc = some (.file f)) :
    (runItems run items r fs).2.at? loc = some (.file
      (fileAfter fs.now mode (run.ignoreMap.get i.file.relPath) run.dryRun f)) := by
  subst hm
  obtain ⟨before, later, rfl⟩ := List.append_of_mem hi
  obtain ⟨r₁, hr₁⟩ := itemsResult_before h
  rw [at?_runItems_reached hapart hplace hf hr₁, itemsResult_mode hne hr₁]

theorem fetch_runItems_ok (hapart : Apart fs items) (hm : r.mode = mode) (hne : mode ≠ .toggle)
    (h : itemsResult run fs.fetch r items = .ok r') (hreal : run.dryRun = false) (hi : i ∈ items)
    (htarget : i.isTarget = true) : (runItems run items r fs).2.fetch i.file.path =
      (fs.fetch i.file.path).map (bytesAfter mode (run.ignoreMap.get i.file.relPath)) := by
  subst hm
  obtain ⟨before, later, rfl⟩ := List.append_of_mem hi
  obtain ⟨r₁, hr₁⟩ := itemsResult_before h
  rw [fetch_runItems_reached hapart htarget hr₁, itemsResult_mode hne hr₁, hreal]
  rfl

end
end

/-! ## The whole run -/

/-- A run in earnest that removes declarations from the files that another run looks
for. -/
structure Undoes (back run : TreeRun) : Prop where
  root_eq : back.root = run.root
  dirs_eq : back.ignoreDirs = run.ignoreDirs
  files_eq : back.ignoreFiles = run.ignoreFiles
  map_eq : back.ignoreMap = run.ignoreMap
  mode_eq : Mode.ofName back.mode = .ok .remove
  real : back.dryRun = false

section
variable {fs fs' : FileSystem} {config : Config} {run back : TreeRun} {items : List ScanItem}
  {start start' r r' : TreeResult} {loc : Location}

theorem Undoes.check (h : Undoes back run) {mode : Mode} (hmode : run.check = .ok mode) :
    back.check = .ok .remove := by
  obtain ⟨hroot, -, hmap⟩ := check_eq_ok_iff.mp hmode
  exact check_eq_ok_iff.mpr ⟨h.root_eq ▸ hroot, h.mode_eq, h.map_eq ▸ hmap⟩

theorem Undoes.selection_eq (h : Undoes back run) (suffix : String) :
    selection suffix back = selection suffix run := by
  rw [selection, selection, h.dirs_eq, h.files_eq]

/-- What the run that undoes comes to.  It installs nothing. -/
theorem Undoes.outcome_eq (h : Undoes back run) {mode : Mode} (hmode : run.check = .ok mode)
    (hlf : fs.root.linkFree = true) {L : Location} {es : Entries}
    (hroot : fs.locate run.root = .ok (.found L (.dir es))) (config : Config) :
    let items := workItems fs run.root (selection config.suffix run)
    let start := TreeResult.start run.root .remove false
    (tree config false back).outcome fs = runItems back items start fs ∧
      ((tree config false back).outcome fs).1 = itemsResult back fs.fetch start items := by
  intro items start
  rw [← h.root_eq] at hroot
  have hinstall : Gives (installFor config back .remove) fs (.ok false) fs :=
    installFor_of_not_wanted config back (fun h => h.2 rfl) fs
  obtain ⟨hrun, -, hresult⟩ := tree_outcome hlf (h.check hmode) hroot
    (.refl back.root L config.runtimeTemplate fs) hinstall
  rw [h.selection_eq, h.root_eq] at hrun hresult
  exact ⟨hrun, hresult⟩

/-- **Every place comes back**, but for access times. -/
theorem unread_at?_undone (hback : Undoes back run) (hreal : run.dryRun = false)
    (hcheck : ∀ path, (run.ignoreMap.get path).check = .ok ())
    (hapart : Apart fs items) (hadd : start.mode = .add) (hremove : start'.mode = .remove)
    (hrev : ∀ i ∈ items, i.isTarget = true → ∀ bytes, fs.fetch i.file.path = .ok bytes →
      Reversible (run.ignoreMap.get i.file.relPath) bytes)
    (h : itemsResult run fs.fetch start items = .ok r)
    (h' : itemsResult back (runItems run items start fs).2.fetch start' items = .ok r')
    (loc : Location) :
    (runItems back items start' (runItems run items start fs).2).2.unread.at? loc =
      fs.unread.at? loc := by
  have hshape := shape_runItems run items start fs
  by_cases hplace : ∃ i ∈ items, i.place? fs = some loc
  · obtain ⟨i, hi, hplace⟩ := hplace
    obtain ⟨htarget, f, hl⟩ := ScanItem.place?_eq_some_iff.mp hplace
    have hf := FileSystem.at?_of_locate hl
    have hf₁ := at?_runItems_ok hapart hadd (by decide) h hi hplace hf
    have hplace₁ : i.place? (runItems run items start fs).2 = some loc := by
      rw [ScanItem.place?_of_shape hshape, hplace]
    have hf₂ := at?_runItems_ok (hapart.of_shape hshape.symm) hremove (by decide) h' hi hplace₁ hf₁
    rw [FileSystem.at?_unread, FileSystem.at?_unread, hf₂, hf]
    obtain ⟨bytes, time, heq, hbytes, -⟩ := fileAfter_eq fs.now .add
      (run.ignoreMap.get i.file.relPath) run.dryRun f
    rw [heq]
    obtain ⟨bytes', time', heq', hbytes', -⟩ := fileAfter_eq
      (runItems run items start fs).2.now .remove (back.ignoreMap.get i.file.relPath)
      back.dryRun { f with bytes, accessed := time }
    rw [heq']
    obtain rfl : bytes' = f.bytes := by
      rw [hbytes', hbytes, hreal, hback.real, hback.map_eq]
      exact bytesAfter_bytesAfter (hcheck _) (hrev i hi htarget _ (fetch_of_locate hl))
    rfl
  · have hnone : ∀ i ∈ items, i.place? fs ≠ some loc := fun i hi hl => hplace ⟨i, hi, hl⟩
    have hnone₁ : ∀ i ∈ items, i.place? (runItems run items start fs).2 ≠ some loc := by
      intro i hi
      rw [ScanItem.place?_of_shape hshape]
      exact hnone i hi
    rw [FileSystem.at?_unread, FileSystem.at?_unread, at?_runItems_of_ne back start' hnone₁,
      at?_runItems_of_ne run start hnone]

end

/-- A class to declare and a file that is no text. -/
def plainEntries : Entries :=
  [("a.py", .file ⟨"class A:\n    pass\n".toUTF8, 0o600, 0, 0⟩),
    ("b.py", .file ⟨⟨#[0xff]⟩, 0o644, 0, 0⟩)]

def plainFiles : FileSystem where
  root := .dir [("t", .dir plainEntries)]
  cwd := []
  now := 1
  wellFormed := by
    simp only [Node.WellFormed, Node.WellFormedEntries, plainEntries]
    decide +kernel

/-- A run over `t` in a mode. -/
def plainRun (mode : Mode) : TreeRun where
  root := "t"
  mode := mode.name
  ignoreDirs := []
  ignoreFiles := []
  ignoreMap := []
  verbose := false
  installRuntime := false
  dryRun := false
  showDiff := false
  strict := false

theorem linkFree_plain : plainFiles.root.linkFree = true := by decide

theorem locate_plain : plainFiles.locate "t" = .ok (.found ["t"] (.dir plainEntries)) :=
  FileSystem.locate_of_get? linkFree_plain "t" ["t"] (by decide +kernel) rfl

theorem scan_plain : scan plainFiles false "t" (selection ".py" (plainRun .add)) =
    [⟨⟨"t/a.py", "a.py"⟩, none⟩, ⟨⟨"t/b.py", "b.py"⟩, none⟩] := by
  rw [scan_eq_finds linkFree_plain locate_plain]
  decide +kernel

end Edit
end ForwardDecl
