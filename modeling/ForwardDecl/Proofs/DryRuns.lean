import ForwardDecl.Proofs.TreeEdits

/-! # A dry run predicts the real run

A dry run and a real run of the same edit go through the same conversions, since the
files that a real run writes are not read again: what either gives is known from the
bytes in the beginning.  The results differ in nothing but whether files were written
(`TreeResult.unwritten`).  A dry run reads files, so that their access times move, and
changes nothing else: the files `FileSystem.unread` stay.
-/
namespace ForwardDecl

/-- A result with no file written. -/
def FileResult.unwritten (r : FileResult) : FileResult := { r with written := false }

/-- A result with no file written. -/
def TreeResult.unwritten (r : TreeResult) : TreeResult :=
  { r with files := r.files.map FileResult.unwritten }

/-! ## Files that were only read -/

namespace FileSystem
variable {fs fs' : FileSystem}

theorem stat_mapFiles (g : File → File) (fs : FileSystem) (path : String) :
    (fs.mapFiles g).stat path = (fs.stat path).map (Node.mapFiles g) := by
  rw [stat, stat, locate_mapFiles]
  cases fs.locate path with
  | error fault => rfl
  | ok target => cases target <;> rfl

/-- A source file can be edited or not, whenever it was read. -/
theorem checkSource_of_unread (h : fs.unread = fs'.unread) (path suffix : String) :
    fs.checkSource path suffix = fs'.checkSource path suffix := by
  have hunread : ∀ fs : FileSystem, fs.unread.checkSource path suffix =
      fs.checkSource path suffix := by
    intro fs
    rw [checkSource, checkSource, unread, stat_mapFiles]
    cases fs.stat path with
    | error cause => rfl
    | ok node => cases node <;> rfl
  rw [← hunread fs, h, hunread]

theorem fetch_of_unread (h : fs.unread = fs'.unread) (path : String) :
    fs.fetch path = fs'.fetch path := by
  have hunread : ∀ fs : FileSystem, fs.unread.fetch path = fs.fetch path := by
    intro fs
    rw [Edit.fetch_eq, Edit.fetch_eq, unread, locate_mapFiles]
    cases fs.locate path with
    | error fault => rfl
    | ok target =>
      cases target with
      | absent loc => rfl
      | found loc n => cases n <;> rfl
  rw [← hunread fs, h, hunread]

end FileSystem

namespace Edit

/-! ## One file -/

section
variable {fs fs' : FileSystem} {config : Config} {path name : String} {mode : Mode}
  {ignore : IgnoreList} {options : EditOptions}

theorem unread_putFile_dry {loc : Location} {f : File} (hf : fs.at? loc = some (.file f))
    (now : Time) (mode : Mode) (ignore : IgnoreList) :
    (fs.putFile loc (fileAfter now mode ignore true f)).unread = fs.unread := by
  obtain ⟨bytes, accessed, heq, hbytes, -⟩ := fileAfter_eq now mode ignore true f
  obtain rfl : bytes = f.bytes := hbytes
  rw [heq]
  exact FileSystem.unread_putFile hf accessed

theorem sourceResult_dry (path name : String) (mode : Mode) (ignore : IgnoreList) (showDiff : Bool)
    (bytes : ByteArray) : sourceResult path name mode ignore ⟨true, showDiff⟩ bytes =
      (sourceResult path name mode ignore ⟨false, showDiff⟩ bytes).map FileResult.unwritten := by
  rw [sourceResult, sourceResult]
  cases String.fromUTF8? bytes with
  | none => rfl
  | some text =>
    dsimp only
    cases convert mode ignore text.toList with
    | error cause => rfl
    | ok c =>
      have hwritten : (decide (c.modifications ≠ 0) && !true) = false := Bool.and_false _
      show Except.ok (report path name ⟨true, showDiff⟩ text.toList c) = .ok _
      rw [report, hwritten]
      rfl

/-- What editing a source file gives, if it can be edited. -/
def fileOutcome (config : Config) (path : String) (mode : Mode) (ignore : IgnoreList)
    (options : EditOptions) (fs : FileSystem) : Except Error FileResult := do
  inContext path ignore.check
  fs.checkSource path config.suffix
  match fs.fetch path with
  | .error cause => .error (.file cause)
  | .ok bytes => sourceResult path (Path.base path) mode ignore options bytes

theorem file_gives (config : Config) (path : String) (mode : Mode) (ignore : IgnoreList)
    (options : EditOptions) (fs : FileSystem) : ∃ fs',
    Gives (file config false path mode ignore options) fs
      (fileOutcome config path mode ignore options fs) fs' ∧
      (options.dryRun = true → fs'.unread = fs.unread) := by
  rw [file, fileOutcome]
  cases inContext path ignore.check with
  | error cause => exact ⟨fs, (gives_throw cause fs).bind_error _, fun _ => rfl⟩
  | ok u =>
    cases hsource : fs.checkSource path config.suffix with
    | error cause =>
      refine ⟨fs, (gives_pure u fs).bind ((gives_files fs).bind ?_), fun _ => rfl⟩
      rw [hsource]
      exact (gives_throw cause fs).bind_error _
    | ok u' =>
      have hstart : ∀ {done fs'}, Gives (source false path (Path.base path) mode ignore options) fs
          done fs' → Gives (do
            ofExcept (Except.ok u)
            ofExcept ((← files).checkSource path config.suffix)
            source false path (Path.base path) mode ignore options) fs done fs' := by
        intro done fs' h
        refine (gives_pure u fs).bind ((gives_files fs).bind ?_)
        rw [hsource]
        exact (gives_pure u' fs).bind h
      cases hfetch : fs.fetch path with
      | error cause => exact ⟨fs, hstart (source_gives_error hfetch), fun _ => rfl⟩
      | ok bytes =>
        obtain ⟨loc, f, hl, rfl⟩ := locate_of_fetch hfetch
        refine ⟨_, hstart (source_gives_file hl), fun hdry => ?_⟩
        rw [hdry]
        exact unread_putFile_dry (FileSystem.at?_of_locate hl) _ _ _

theorem fileOutcome_of_unread (h : fs.unread = fs'.unread) (config : Config) (path : String)
    (mode : Mode) (ignore : IgnoreList) (options : EditOptions) :
    fileOutcome config path mode ignore options fs =
      fileOutcome config path mode ignore options fs' := by
  rw [fileOutcome, fileOutcome, FileSystem.checkSource_of_unread h, FileSystem.fetch_of_unread h]

theorem fileOutcome_dry (config : Config) (path : String) (mode : Mode) (ignore : IgnoreList)
    (showDiff : Bool) (fs : FileSystem) : fileOutcome config path mode ignore ⟨true, showDiff⟩ fs =
      (fileOutcome config path mode ignore ⟨false, showDiff⟩ fs).map FileResult.unwritten := by
  rw [fileOutcome, fileOutcome]
  cases inContext path ignore.check with
  | error cause => rfl
  | ok u =>
    cases fs.checkSource path config.suffix with
    | error cause => rfl
    | ok u' =>
      cases fs.fetch path with
      | error cause => rfl
      | ok bytes => exact sourceResult_dry path (Path.base path) mode ignore showDiff bytes

/-- **A dry edit of a file** reports what a real one does. -/
theorem file_dry (config : Config) (path : String) (mode : Mode) (ignore : IgnoreList)
    (showDiff : Bool) (fs : FileSystem) :
    ∃ fs', Gives (file config false path mode ignore ⟨true, showDiff⟩) fs
      (((file config false path mode ignore ⟨false, showDiff⟩).outcome fs).1.map
        FileResult.unwritten) fs' ∧ fs'.unread = fs.unread := by
  obtain ⟨fs', hdry, hunread⟩ := file_gives config path mode ignore ⟨true, showDiff⟩ fs
  obtain ⟨fs'', hreal, -⟩ := file_gives config path mode ignore ⟨false, showDiff⟩ fs
  rw [fileOutcome_dry] at hdry
  rw [hreal.outcome_eq]
  exact ⟨fs', hdry, hunread rfl⟩

/-- What was only read makes no difference to later files. -/
theorem mapM_file_gives (config : Config) (paths : List String) (fs : FileSystem) :
    ∃ fs', Gives (paths.mapM fun path => file config false path .toggle [] ⟨true, false⟩) fs
      (paths.mapM fun path => fileOutcome config path .toggle [] ⟨true, false⟩ fs) fs' ∧
      fs'.unread = fs.unread := by
  induction paths generalizing fs with
  | nil => exact ⟨fs, gives_pure _ _, rfl⟩
  | cons path paths ih =>
    obtain ⟨fs₁, hfirst, hunread₁⟩ := file_gives config path .toggle [] ⟨true, false⟩ fs
    rw [List.mapM_cons, List.mapM_cons]
    cases hdone : fileOutcome config path .toggle [] ⟨true, false⟩ fs with
    | error cause =>
      rw [hdone] at hfirst
      exact ⟨fs₁, hfirst.bind_error _, hunread₁ rfl⟩
    | ok result =>
      rw [hdone] at hfirst
      -- the first file was only read, and the others are read as in the beginning
      obtain ⟨fs₂, hrest, hunread₂⟩ := ih fs₁
      have hsame : (paths.mapM fun path => fileOutcome config path .toggle [] ⟨true, false⟩ fs₁) =
          paths.mapM fun path => fileOutcome config path .toggle [] ⟨true, false⟩ fs := by
        congr 1
        funext path
        exact fileOutcome_of_unread (hunread₁ rfl) config path .toggle [] ⟨true, false⟩
      rw [hsame] at hrest
      refine ⟨fs₂, hfirst.bind ?_, hunread₂.trans (hunread₁ rfl)⟩
      show Gives _ fs₁ ((paths.mapM fun path =>
        fileOutcome config path .toggle [] ⟨true, false⟩ fs) >>= fun results =>
          pure (result :: results)) fs₂
      cases hresults : paths.mapM fun path =>
          fileOutcome config path .toggle [] ⟨true, false⟩ fs with
      | error cause =>
        rw [hresults] at hrest
        exact hrest.bind_error _
      | ok results =>
        rw [hresults] at hrest
        exact hrest.bind (gives_pure _ _)

end

/-! ## All items of a tree -/

section
variable {run : TreeRun} {fs : FileSystem}

theorem add_unwritten (r : TreeResult) (verbose : Bool) (f : FileResult) :
    r.unwritten.add verbose f.unwritten = (r.add verbose f).unwritten := by
  have hfiles : (if 0 < f.modifications ∨ verbose = true
      then r.files.map FileResult.unwritten ++ [f.unwritten]
      else r.files.map FileResult.unwritten) =
      (if 0 < f.modifications ∨ verbose = true then r.files ++ [f] else r.files).map
        FileResult.unwritten := by
    split
    · rw [List.map_append]
      rfl
    · rfl
  exact congrArg (fun files => { r.add verbose f with files }) hfiles

theorem takeIn_dry (run : TreeRun) (r : TreeResult) (relPath : String)
    (done : Except Error FileResult) :
    takeIn { run with dryRun := true } r.unwritten relPath (done.map FileResult.unwritten) =
      (takeIn { run with dryRun := false } r relPath done).map TreeResult.unwritten := by
  cases done with
  | ok result =>
    exact congrArg Except.ok (add_unwritten r run.verbose { result with path := relPath })
  | error cause =>
    show takeIn { run with dryRun := true } r.unwritten relPath (.error cause) = _
    rw [takeIn.eq_def, takeIn.eq_def]
    dsimp only
    split
    · rfl
    · split <;> rfl

/-- **One item** gives the same in a dry run. -/
theorem itemResult_dry (run : TreeRun) (r : TreeResult) (i : ScanItem)
    (fetched : Except FileError ByteArray) :
    itemResult { run with dryRun := true } r.unwritten i fetched =
      (itemResult { run with dryRun := false } r i fetched).map TreeResult.unwritten := by
  cases htarget : i.isTarget with
  | true =>
    have hfile : fileResult { run with dryRun := true } r.mode i.file fetched =
        (fileResult { run with dryRun := false } r.mode i.file fetched).map
          FileResult.unwritten := by
      cases fetched with
      | error cause => rfl
      | ok bytes => exact sourceResult_dry _ _ _ _ _ bytes
    rw [itemResult_of_target htarget, itemResult_of_target htarget]
    show takeIn _ _ _ (fileResult { run with dryRun := true } r.mode i.file fetched) = _
    rw [hfile]
    exact takeIn_dry run r i.file.relPath _
  | false =>
    rw [itemResult_of_not_target htarget, itemResult_of_not_target htarget]
    rfl

theorem itemsResult_dry (run : TreeRun) (fetch : String → Except FileError ByteArray)
    (r : TreeResult) (items : List ScanItem) :
    itemsResult { run with dryRun := true } fetch r.unwritten items =
      (itemsResult { run with dryRun := false } fetch r items).map TreeResult.unwritten := by
  induction items generalizing r with
  | nil => rfl
  | cons i items ih =>
    rw [itemsResult_cons, itemsResult_cons, itemResult_dry]
    cases itemResult { run with dryRun := false } r i (fetch i.file.path) with
    | error cause => rfl
    | ok r' => exact ih r'

theorem unread_filesAfter (hdry : run.dryRun = true) (mode : Mode) (i : ScanItem)
    (fs : FileSystem) : (filesAfter run mode i fs).unread = fs.unread := by
  rcases filesAfter_cases run mode i fs with ⟨-, heq⟩ | ⟨loc, f, -, hl, heq⟩
  · rw [heq]
  · rw [heq, hdry]
    exact unread_putFile_dry (FileSystem.at?_of_locate hl) _ _ _

/-- A dry run over some items changes nothing. -/
theorem unread_runItems (hdry : run.dryRun = true) (items : List ScanItem) (r : TreeResult)
    (fs : FileSystem) : (runItems run items r fs).2.unread = fs.unread := by
  induction items generalizing r fs with
  | nil => rfl
  | cons i items ih =>
    rw [runItems]
    split
    · rw [ih, unread_filesAfter hdry]
    · exact unread_filesAfter hdry r.mode i fs

end

end Edit

/-! ## What can be installed -/

namespace SupportModule
variable {fs : FileSystem} {root path' : String} {L : Location} {es : Entries}

/-- Nothing stands in the way of an installation: the directory of the module is a
directory or missing, and the module is a file or missing. -/
structure Installable (fs : FileSystem) (root : String) : Prop where
  directory_ok : (∃ ds, fs.stat (Path.join root directory) = .ok (.dir ds)) ∨
    fs.stat (Path.join root directory) = .error ⟨.stat, Path.join root directory, .missing⟩
  module_ok : (∃ f, fs.stat (Path.join root path) = .ok (.file f)) ∨
    fs.stat (Path.join root path) = .error ⟨.stat, Path.join root path, .missing⟩

/-- A path that leads somewhere, or to nothing, is a path. -/
theorem pathFault?_of_stat (hne : path' ≠ "") (h : (∃ n, fs.stat path' = .ok n) ∨
    fs.stat path' = .error ⟨.stat, path', .missing⟩) : FileSystem.pathFault? path' = none := by
  cases hfault : FileSystem.pathFault? path' with
  | none => rfl
  | some fault =>
    have hstat : fs.stat path' = .error ⟨.stat, path', fault⟩ := by
      rw [FileSystem.stat, FileSystem.locate_of_fault hfault]
    rw [hstat] at h
    obtain ⟨n, hn⟩ | hmissing := h
    · cases hn
    · obtain rfl : fault = .missing := (FileError.mk.inj (Except.error.inj hmissing)).2.2
      -- only the empty path is missing whatever the files are
      rw [FileSystem.pathFault?, if_neg hne] at hfault
      split at hfault
      · cases hfault
      · split at hfault <;> cases hfault

theorem ready_of_installable (hlf : fs.root.linkFree = true)
    (hroot : fs.locate root = .ok (.found L (.dir es))) (h : Installable fs root) :
    present fs root = true ∨ Ready root L fs := by
  have hne : root ≠ "" := (FileSystem.leads_of_locate hlf hroot).1
  have hdirectory : FileSystem.pathFault? (Path.join root directory) = none :=
    pathFault?_of_stat (directory_eq ▸ Path.join_ne_empty hne (by decide) legal_of_mem_home)
      (h.directory_ok.imp (fun ⟨ds, hds⟩ => ⟨_, hds⟩) id)
  have hpath : FileSystem.pathFault? (Path.join root path) = none :=
    pathFault?_of_stat (path_eq ▸ Path.join_ne_empty hne (by decide) legal_of_mem_location)
      (h.module_ok.imp (fun ⟨f, hf⟩ => ⟨_, hf⟩) id)
  rcases h.module_ok with ⟨f, hf⟩ | hmissing
  · exact Or.inl (by rw [present, hf]; rfl)
  · refine Or.inr ⟨hdirectory, hpath, ?_⟩
    have hes := FileSystem.get?_of_locate hroot
    have hhome : fs.root.get? (L ++ home) = Entries.get? es "forward" := Node.get?_snoc hes _
    have hlocate := locate_module hlf hroot
    rw [hpath] at hlocate
    dsimp only at hlocate
    cases hget : Entries.get? es "forward" with
    | none => exact Or.inl (Node.at?_eq_none_iff.mpr (hhome.trans hget))
    | some m =>
      rw [hget] at hlocate hhome
      cases m with
      | file f =>
        rw [FileSystem.stat, hlocate] at hmissing
        cases hmissing
      | link target =>
        rw [FileSystem.stat, hlocate] at hmissing
        cases hmissing
      | dir ds =>
        dsimp only at hlocate
        refine Or.inr ⟨Node.at?_eq_dir_iff.mpr ⟨ds, hhome⟩, Node.at?_eq_none_iff.mpr ?_⟩
        rw [append_location, Node.get?_snoc hhome]
        cases hmodule : Entries.get? ds "__init__.py" with
        | none => rfl
        | some m =>
          rw [hmodule] at hlocate
          rw [FileSystem.stat, hlocate] at hmissing
          cases hmissing

/-- A tree without the directory of the module can be installed into, if the paths are
not too long. -/
theorem installable_of_free (hlf : fs.root.linkFree = true)
    (hroot : fs.locate root = .ok (.found L (.dir es)))
    (hdirectory : FileSystem.pathFault? (Path.join root directory) = none)
    (hpath : FileSystem.pathFault? (Path.join root path) = none)
    (hfree : Entries.get? es "forward" = none) : Installable fs root where
  directory_ok := by
    have hlocate := (FileSystem.leads_of_locate hlf hroot).locate_join hlf (by decide)
      legal_of_mem_home
    rw [← directory_eq, hdirectory] at hlocate
    dsimp only [home] at hlocate
    rw [Node.walk_free (FileSystem.get?_of_locate hroot) isLegalName_home hfree, if_pos rfl]
      at hlocate
    exact Or.inr (by rw [FileSystem.stat, hlocate])
  module_ok := by
    have hlocate := locate_module hlf hroot
    rw [hpath, hfree] at hlocate
    exact Or.inr (by rw [FileSystem.stat, hlocate])

end SupportModule

namespace Edit
open SupportModule

/-! ## The whole run -/

/-- **A dry run over a tree** gives what the real run does. -/
theorem tree_dry {fs : FileSystem} (hlf : fs.root.linkFree = true) (config : Config)
    (run : TreeRun) (hmodule : run.installRuntime = true → fs.checkRoot run.root = .ok () →
      Installable fs run.root) :
    ((tree config false { run with dryRun := true }).outcome fs).1 =
        ((tree config false { run with dryRun := false }).outcome fs).1.map
          TreeResult.unwritten ∧
      ((tree config false { run with dryRun := true }).outcome fs).2.unread = fs.unread := by
  cases hmode : run.check with
  | error cause =>
    have hcheck : ∀ d, { run with dryRun := d }.check = .error cause := fun _ => hmode
    rw [(tree_gives_of_check (hcheck true)).outcome_eq,
      (tree_gives_of_check (hcheck false)).outcome_eq]
    exact ⟨rfl, rfl⟩
  | ok mode =>
    have hcheck : ∀ d, { run with dryRun := d }.check = .ok mode := fun _ => hmode
    cases hroot : fs.checkRoot run.root with
    | error cause =>
      rw [(tree_gives_of_root (hcheck true) hroot).outcome_eq,
        (tree_gives_of_root (hcheck false) hroot).outcome_eq]
      exact ⟨rfl, rfl⟩
    | ok u =>
      obtain ⟨L, es, hlocate⟩ := checkRoot_eq_ok_iff.mp hroot
      obtain ⟨dry, done, mid, fs', hdry, hdone, hsampled, hinstalls, hsame, -⟩ :=
        installFor_gives config run mode hlf hlocate
      obtain rfl : done = dry :=
        hsame fun hwanted => ready_of_installable hlf hlocate (hmodule hwanted hroot)
      cases done with
      | error cause =>
        rw [(tree_gives_of_install (hcheck true) hroot hdry).outcome_eq,
          (tree_gives_of_install (hcheck false) hroot hdone).outcome_eq]
        exact ⟨rfl, hsampled.unread_eq⟩
      | ok installed =>
        -- the real run finds the same items and bytes, whatever it installed
        obtain ⟨hrun, -, hresult⟩ := tree_outcome hlf (hcheck true) hlocate
          ⟨mid, hsampled, .refl run.root L mid⟩ hdry
        obtain ⟨-, -, hresult'⟩ := tree_outcome hlf (hcheck false) hlocate
          ⟨mid, hsampled, hinstalls⟩ hdone
        rw [hresult, hresult', hrun]
        refine ⟨?_, ?_⟩
        · exact itemsResult_dry run fs.fetch (.start run.root mode installed) _
        · rw [unread_runItems rfl, hsampled.unread_eq]

end Edit
end ForwardDecl
