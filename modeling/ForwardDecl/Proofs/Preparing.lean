import ForwardDecl.Proofs.Installing

/-! # What a run finds after an installation

A run over a tree may install the support module before it looks for files.  Nothing
that was there has changed then but the access time of the template
(`SupportModule.Prepares`); the items that the run works on are those of a scan of the
first files, at the same places and with the same bytes
(`SupportModule.Prepares.workItems_eq`, `Edit.target_of_prepares`).
-/
namespace ForwardDecl

namespace SupportModule
variable {fs fs' : FileSystem} {root templatePath : String} {L : Location} {es : Entries}

/-- Everything that was there is still there, and what is new is the module and its
directory. -/
theorem Installs.at?_cases (h : Installs root L fs fs') (loc : Location) :
    fs'.at? loc = fs.at? loc ∨
    fs.at? loc = none ∧ (loc = L ++ home ∧ fs'.at? loc = some (.dir []) ∨
      loc = L ++ location ∧ ∃ f, fs'.at? loc = some (.file f)) := by
  obtain ⟨mid, hmid, hnew⟩ := h
  have hfree : ∀ {fs loc new fs'}, FileSystem.Adds fs loc new fs' → fs.at? loc = none :=
    fun hadds => Node.at?_eq_none_iff.mpr hadds.free
  have hfirst : mid.at? loc = fs.at? loc ∨ fs.at? loc = none ∧ loc = L ++ home ∧
      mid.at? loc = some (.dir []) := by
    rcases hmid with rfl | ⟨hadds, -⟩
    · exact Or.inl rfl
    · rw [hadds.at?_eq]
      by_cases hloc : loc = L ++ home
      · exact Or.inr ⟨hloc ▸ hfree hadds, hloc, if_pos hloc⟩
      · exact Or.inl (if_neg hloc)
  rcases hnew with rfl | ⟨f, hadds⟩
  · exact hfirst.imp id fun h => ⟨h.1, Or.inl h.2⟩
  · by_cases hloc : loc = L ++ location
    · have hnone := hfree hadds
      rw [← hloc] at hnone hadds
      have hmodule := hadds.at?_eq loc
      rw [if_pos rfl] at hmodule
      rcases hfirst with hsame | ⟨hnone', -, -⟩
      · exact Or.inr ⟨hsame.symm.trans hnone, Or.inr ⟨hloc, f, hmodule⟩⟩
      · exact Or.inr ⟨hnone', Or.inr ⟨hloc, f, hmodule⟩⟩
    · rw [hadds.at?_eq, if_neg hloc]
      exact hfirst.imp id fun h => ⟨h.1, Or.inl h.2⟩

theorem Installs.at?_of_some (h : Installs root L fs fs') {loc : Location} {n : Node}
    (hn : fs.at? loc = some n) : fs'.at? loc = some n := by
  rcases h.at?_cases loc with hsame | ⟨hnone, -⟩
  · exact hsame.trans hn
  · rw [hn] at hnone
    cases hnone

theorem Installs.linkFree_root (h : Installs root L fs fs') (hlf : fs.root.linkFree = true) :
    fs'.root.linkFree = true := by
  obtain ⟨mid, rfl | ⟨hadds, -⟩, rfl | ⟨f, hadds'⟩⟩ := h
  · exact hlf
  · exact hadds'.linkFree_root hlf
  · exact hadds.linkFree_root hlf
  · exact hadds'.linkFree_root (hadds.linkFree_root hlf)

theorem Installs.locate_dir (h : Installs root L fs fs') (hlf : fs.root.linkFree = true)
    (hroot : fs.locate root = .ok (.found L (.dir es))) :
    ∃ es', fs'.locate root = .ok (.found L (.dir es')) := by
  obtain ⟨mid, rfl | ⟨hadds, -⟩, rfl | ⟨f, hadds'⟩⟩ := h
  · exact ⟨es, hroot⟩
  · exact hadds'.locate_dir hlf hroot
  · exact hadds.locate_dir hlf hroot
  · obtain ⟨es', hroot'⟩ := hadds.locate_dir hlf hroot
    exact hadds'.locate_dir (hadds.linkFree_root hlf) hroot'

theorem Installs.workItems_eq (h : Installs root L fs fs') (hlf : fs.root.linkFree = true)
    (hroot : fs.locate root = .ok (.found L (.dir es))) (s : Selection) :
    Edit.workItems fs' root s = Edit.workItems fs root s := by
  have hhome : FileSystem.pathFault? (Path.join root directory) = none →
      Node.Unfound root (fun i => i ≠ ⟨location, none⟩) home (.dir []) := by
    intro hpath
    refine .dir ?_
    rwa [Path.below_of_ne (by decide), ← directory_eq]
  have hmodule : ∀ f, Node.Unfound root (fun i => i ≠ ⟨location, none⟩) location (.file f) :=
    fun f => .file f (by decide)
  obtain ⟨mid, rfl | ⟨hadds, hpath⟩, rfl | ⟨f, hadds'⟩⟩ := h
  · rfl
  · exact Edit.workItems_of_adds hlf hroot hadds' (hmodule f) s
  · exact Edit.workItems_of_adds hlf hroot hadds (hhome hpath) s
  · obtain ⟨es', hroot'⟩ := hadds.locate_dir hlf hroot
    rw [Edit.workItems_of_adds (hadds.linkFree_root hlf) hroot' hadds' (hmodule f) s,
      Edit.workItems_of_adds hlf hroot hadds (hhome hpath) s]

/-! ## The files that a run finds after it -/

/-- The files after the template may have been read and something installed. -/
def Prepares (root : String) (L : Location) (templatePath : String) (fs fs' : FileSystem) : Prop :=
  ∃ mid, Sampled templatePath fs mid ∧ Installs root L mid fs'

theorem Prepares.refl (root : String) (L : Location) (templatePath : String) (fs : FileSystem) :
    Prepares root L templatePath fs fs := ⟨fs, .unread, .refl root L fs⟩

section
variable (h : Prepares root L templatePath fs fs') (hlf : fs.root.linkFree = true)
  (hroot : fs.locate root = .ok (.found L (.dir es)))
include h

/-- What was there is still there, and only the access time of the template has
moved. -/
theorem Prepares.at?_file {loc : Location} {f : File} (hf : fs.at? loc = some (.file f)) :
    ∃ time, fs'.at? loc = some (.file { f with accessed := time }) ∧
      (time = f.accessed ∨
        time = fs.now ∧ fs.locate templatePath = .ok (.found loc (.file f))) := by
  obtain ⟨mid, hsampled, hinstalls⟩ := h
  rcases hsampled.at?_cases loc with hsame | ⟨g, hg, hread, hl⟩
  · exact ⟨f.accessed, hinstalls.at?_of_some (hsame.trans hf), Or.inl rfl⟩
  · obtain rfl := Node.file.inj (Option.some.inj (hf.symm.trans hg))
    exact ⟨fs.now, hinstalls.at?_of_some hread, Or.inr ⟨rfl, hl⟩⟩

/-- Every place is as it was, but for access times, and what is new is the module and
its directory. -/
theorem Prepares.at?_cases (loc : Location) : fs'.unread.at? loc = fs.unread.at? loc ∨
    fs.at? loc = none ∧ (loc = L ++ home ∧ fs'.at? loc = some (.dir []) ∨
      loc = L ++ location ∧ ∃ f, fs'.at? loc = some (.file f)) := by
  obtain ⟨mid, hsampled, hinstalls⟩ := h
  have hmid : mid.unread.at? loc = fs.unread.at? loc := by rw [hsampled.unread_eq]
  rcases hinstalls.at?_cases loc with hsame | ⟨hnone, hnew⟩
  · refine Or.inl (Eq.trans ?_ hmid)
    rw [FileSystem.at?_unread, FileSystem.at?_unread, hsame]
  · refine Or.inr ⟨?_, hnew⟩
    rw [FileSystem.at?_unread, FileSystem.at?_unread, hnone] at hmid
    exact Option.map_eq_none_iff.mp hmid.symm

include hlf

theorem Prepares.linkFree_root : fs'.root.linkFree = true := by
  obtain ⟨mid, hsampled, hinstalls⟩ := h
  exact hinstalls.linkFree_root (FileSystem.linkFree_of_shape hsampled.shape_eq.symm hlf)

include hroot

theorem Prepares.locate_dir : ∃ es', fs'.locate root = .ok (.found L (.dir es')) := by
  obtain ⟨mid, hsampled, hinstalls⟩ := h
  obtain ⟨es', hroot'⟩ := FileSystem.locate_dir_of_shape hsampled.shape_eq.symm hroot
  exact hinstalls.locate_dir (FileSystem.linkFree_of_shape hsampled.shape_eq.symm hlf) hroot'

/-- **An installation adds no work.** -/
theorem Prepares.workItems_eq (s : Selection) :
    Edit.workItems fs' root s = Edit.workItems fs root s := by
  obtain ⟨mid, hsampled, hinstalls⟩ := h
  obtain ⟨es', hroot'⟩ := FileSystem.locate_dir_of_shape hsampled.shape_eq.symm hroot
  rw [hinstalls.workItems_eq (FileSystem.linkFree_of_shape hsampled.shape_eq.symm hlf) hroot',
    Edit.workItems_of_shape hsampled.shape_eq]

end

end SupportModule

namespace Edit
open SupportModule

section
variable {fs fs' : FileSystem} {root templatePath : String} {L : Location} {es : Entries}
  {s : Selection} {i : ScanItem}

/-- What a run edits is found at the same place after an installation, with the same
bytes. -/
theorem target_of_prepares (h : Prepares root L templatePath fs fs')
    (hlf : fs.root.linkFree = true) (hroot : fs.locate root = .ok (.found L (.dir es)))
    (hi : i ∈ workItems fs root s) (htarget : i.isTarget = true) :
    i.place? fs' = i.place? fs ∧ fs'.fetch i.file.path = fs.fetch i.file.path := by
  rw [workItems_eq hlf hroot] at hi
  obtain ⟨j, hj, rfl⟩ := List.mem_map.mp hi
  obtain ⟨f, hf, -, hlocate⟩ :=
    locate_source hlf hroot (List.mem_filter.mp hj).1 (fault_of_isTarget htarget)
  obtain ⟨time, hf', -⟩ := h.at?_file hf
  obtain ⟨es', hroot'⟩ := h.locate_dir hlf hroot
  have hlf' := h.linkFree_root hlf
  have hlocate' := (FileSystem.leads_of_locate hlf' hroot').locate_below hlf'
    (Node.at?_eq_file_iff.mp hf')
  change fs.locate (j.item root).file.path = _ at hlocate
  change fs'.locate (j.item root).file.path = _ at hlocate'
  rw [ScanItem.place?, ScanItem.place?, fetch_eq, fetch_eq, hlocate, hlocate']
  cases FileSystem.pathFault? (Path.below root j.names) <;> exact ⟨rfl, rfl⟩

theorem installFor_of_install (config : Config) (run : TreeRun) {mode : Mode}
    {done : Except Error Bool} (hwanted : run.installRuntime = true ∧ mode ≠ .remove)
    (h : Gives (install run.root config.runtimeTemplate run.dryRun) fs done fs') :
    Gives (installFor config run mode) fs done fs' := by
  rw [installFor, if_pos hwanted]
  cases done with
  | error cause => exact h.bind_error _
  | ok installed =>
    refine h.bind ?_
    cases installed with
    | false => exact gives_pure _ _
    | true => exact (gives_tell _ _).bind (gives_pure _ _)

theorem installFor_of_not_wanted (config : Config) (run : TreeRun) {mode : Mode}
    (hwanted : ¬(run.installRuntime = true ∧ mode ≠ .remove)) (fs : FileSystem) :
    Gives (installFor config run mode) fs (.ok false) fs := by
  rw [installFor, if_neg hwanted]
  exact gives_pure _ _

/-- **What a run installs**, in earnest and in a dry run. -/
theorem installFor_gives (config : Config) (run : TreeRun) (mode : Mode)
    (hlf : fs.root.linkFree = true) (hroot : fs.locate run.root = .ok (.found L (.dir es))) :
    ∃ dry done mid fs', Gives (installFor config { run with dryRun := true } mode) fs dry mid ∧
      Gives (installFor config { run with dryRun := false } mode) fs done fs' ∧
      Sampled config.runtimeTemplate fs mid ∧ Installs run.root L mid fs' ∧
      ((run.installRuntime = true → present fs run.root = true ∨ Ready run.root L fs) →
        done = dry) ∧
      (run.installRuntime = true ∧ mode ≠ .remove ∨ mid = fs ∧ fs' = fs) := by
  by_cases hwanted : run.installRuntime = true ∧ mode ≠ .remove
  · obtain ⟨dry, done, mid, fs', hdry, hdone, hsampled, hinstalls, hsame⟩ :=
      install_gives hlf hroot config.runtimeTemplate
    exact ⟨dry, done, mid, fs',
      installFor_of_install config { run with dryRun := true } hwanted hdry,
      installFor_of_install config { run with dryRun := false } hwanted hdone, hsampled, hinstalls,
      fun h => hsame (h hwanted.1), Or.inl hwanted⟩
  · exact ⟨.ok false, .ok false, fs, fs,
      installFor_of_not_wanted config { run with dryRun := true } hwanted fs,
      installFor_of_not_wanted config { run with dryRun := false } hwanted fs, .unread,
      .refl run.root L fs, fun _ => rfl, Or.inr ⟨rfl, rfl⟩⟩

theorem installFor_prepares (config : Config) (run : TreeRun) (mode : Mode)
    (hlf : fs.root.linkFree = true) (hroot : fs.locate run.root = .ok (.found L (.dir es))) :
    ∃ done fs', Gives (installFor config run mode) fs done fs' ∧
      Prepares run.root L config.runtimeTemplate fs fs' ∧
      (run.installRuntime = true ∧ mode ≠ .remove ∨ fs' = fs) := by
  obtain ⟨dry, done, mid, fs', hdry, hdone, hsampled, hinstalls, -, hwanted⟩ :=
    installFor_gives config run mode hlf hroot
  cases hd : run.dryRun with
  | true =>
    have hrun : { run with dryRun := true } = run := by rw [← hd]
    rw [hrun] at hdry
    exact ⟨dry, mid, hdry, ⟨mid, hsampled, .refl _ _ _⟩, hwanted.imp id fun h => h.1⟩
  | false =>
    have hrun : { run with dryRun := false } = run := by rw [← hd]
    rw [hrun] at hdone
    exact ⟨done, fs', hdone, ⟨mid, hsampled, hinstalls⟩, hwanted.imp id fun h => h.2⟩

/-! ## The whole run -/

theorem apart_workItems (hlf : fs.root.linkFree = true)
    (hroot : fs.locate root = .ok (.found L (.dir es))) (s : Selection) :
    Apart fs (workItems fs root s) :=
  List.Pairwise.filter _ (apart_scan hlf hroot s)

/-- A run that gives a result was in order, had a directory to look into, and installed
what it was to install. -/
theorem tree_begun {config : Config} {run : TreeRun} {r : TreeResult}
    (hlf : fs.root.linkFree = true) (h : ((tree config false run).outcome fs).1 = .ok r) :
    ∃ mode L es installed fs', run.check = .ok mode ∧
      fs.locate run.root = .ok (.found L (.dir es)) ∧
      Prepares run.root L config.runtimeTemplate fs fs' ∧
      Gives (installFor config run mode) fs (.ok installed) fs' := by
  have hend : ∀ mode, fs.checkRoot run.root = .ok () →
      ∃ done fs', Gives (installFor config run mode) fs done fs' := by
    intro mode hroot
    obtain ⟨L, es, hlocate⟩ := checkRoot_eq_ok_iff.mp hroot
    obtain ⟨done, fs', hgives, -⟩ := installFor_prepares config run mode hlf hlocate
    exact ⟨done, fs', hgives⟩
  obtain ⟨mode, installed, fs', hmode, hroot, hgives⟩ := begun_of_outcome hend h
  obtain ⟨L, es, hlocate⟩ := checkRoot_eq_ok_iff.mp hroot
  obtain ⟨done, mid, hdone, hprep, -⟩ := installFor_prepares config run mode hlf hlocate
  obtain ⟨rfl, rfl⟩ := hdone.unique hgives
  exact ⟨mode, L, es, installed, mid, hmode, hlocate, hprep, hgives⟩

/-- **A run over a tree without links** works on the items of a scan of the files in
the beginning, and what it gives depends on their bytes then. -/
theorem tree_outcome {config : Config} {run : TreeRun} {mode : Mode} {installed : Bool}
    (hlf : fs.root.linkFree = true) (hmode : run.check = .ok mode)
    (hroot : fs.locate run.root = .ok (.found L (.dir es)))
    (hprep : Prepares run.root L config.runtimeTemplate fs fs')
    (hinstall : Gives (installFor config run mode) fs (.ok installed) fs') :
    let items := workItems fs run.root (selection config.suffix run)
    let start := TreeResult.start run.root mode installed
    (tree config false run).outcome fs = runItems run items start fs' ∧ Apart fs' items ∧
      ((tree config false run).outcome fs).1 = itemsResult run fs.fetch start items := by
  intro items start
  obtain ⟨es', hroot'⟩ := hprep.locate_dir hlf hroot
  have hitems : workItems fs' run.root (selection config.suffix run) = items :=
    hprep.workItems_eq hlf hroot _
  have hrun := (tree_gives hmode (checkRoot_eq_ok_iff.mpr ⟨L, es, hroot⟩) hinstall).outcome_eq
  rw [← runItems_workItems, ← workItems, hitems] at hrun
  have hapart : Apart fs' items := hitems ▸ apart_workItems (hprep.linkFree_root hlf) hroot' _
  refine ⟨hrun, hapart, ?_⟩
  rw [hrun]
  refine (runItems_fst hapart run start).trans ?_
  exact itemsResult_congr
    (fun i hi htarget => (target_of_prepares hprep hlf hroot hi htarget).2) run start

end
end Edit
end ForwardDecl
