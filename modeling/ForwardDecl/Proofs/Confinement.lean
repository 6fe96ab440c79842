import ForwardDecl.Proofs.TreeEdits

/-! # What a run over a tree can change

Whatever a run over a tree comes to, a result or an error, it changes nothing but
source files below its root, which the settings admit, and adds nothing but the support
module and its directory (`Edit.Change`).  A source file that is written keeps its
permissions and its modification time.  Its access time moves only if the run has read
the file before, as the template of the module.
-/
namespace ForwardDecl
namespace Edit
open SupportModule

/-! ## Errors of edits -/

section
variable {α β : Type} {e : Edit α} {fs fs' : FileSystem} {cause : Error}

/-- The edit may fail, but not because of the settings. -/
def Configured (e : Edit α) : Prop :=
  ∀ desk cause desk', e.run desk = .error cause desk' → cause.isConfig = false

theorem Configured.of_gives (h : Configured e) (hgives : Gives e fs (.error cause) fs') :
    cause.isConfig = false := by
  obtain ⟨trace', hrun⟩ := hgives []
  exact h _ _ _ hrun

theorem configured_pure (a : α) : Configured (pure a : Edit α) :=
  fun _ _ _ h => nomatch h

theorem configured_files : Configured files := fun _ _ _ h => nomatch h

theorem configured_setFiles (fs : FileSystem) : Configured (setFiles fs) :=
  fun _ _ _ h => nomatch h

theorem configured_tell (events : List Event) : Configured (tell events) :=
  fun _ _ _ h => nomatch h

theorem Configured.bind {f : α → Edit β} (h : Configured e) (hf : ∀ a, Configured (f a)) :
    Configured (e >>= f) := by
  intro desk cause desk' hrun
  change EStateM.bind e f desk = _ at hrun
  rw [EStateM.bind] at hrun
  cases he : e desk with
  | ok a mid =>
    rw [he] at hrun
    exact hf a mid cause desk' hrun
  | error cause' mid =>
    rw [he] at hrun
    obtain ⟨rfl, rfl⟩ := EStateM.Result.error.inj hrun
    exact h desk _ _ he

theorem configured_fileCall (context : String) (r : Except FileError α) :
    Configured (fileCall context r) := by
  intro desk cause desk' h
  cases r with
  | ok a => cases h
  | error e =>
    obtain ⟨rfl, -⟩ := EStateM.Result.error.inj h
    rfl

theorem configured_read (path : String) : Configured (read path) := by
  refine configured_files.bind fun fs => ?_
  split
  · exact (configured_setFiles _).bind fun _ => configured_pure _
  · exact configured_pure _

theorem compositional_configured : Compositional fun e => Configured e where
  pure := configured_pure
  files := configured_files
  read := configured_read
  bind := Configured.bind

/-- What goes wrong in an installation goes wrong with files. -/
theorem configured_installFor (config : Config) (run : TreeRun) (mode : Mode) :
    Configured (installFor config run mode) := by
  rw [installFor]
  split
  · refine Configured.bind ?_ fun installed => ?_
    · exact install_of_compositional compositional_configured configured_setFiles
        configured_fileCall run.root config.runtimeTemplate run.dryRun
    · split
      · exact (configured_tell _).bind fun _ => configured_pure _
      · exact configured_pure _
  · exact configured_pure _

end

section
variable {run : TreeRun} {r : TreeResult} {i : ScanItem} {items : List ScanItem} {cause : Error}

theorem isConfig_of_ending? {mode : Mode} {f : SourceFile} {fetched : Except FileError ByteArray}
    (h : ending? run mode f fetched = some cause) : cause.isConfig = false := by
  rw [ending?.eq_def] at h
  split at h
  · rw [← Option.some.inj h]
    rfl
  · split at h
    · obtain ⟨shape, -, rfl⟩ := Option.map_eq_some_iff.mp h
      rfl
    · cases h

/-- The settings were checked before, so that no item fails because of them. -/
theorem isConfig_of_itemResult (hcheck : (run.ignoreMap.get i.file.relPath).check = .ok ())
    {fetched : Except FileError ByteArray} (h : itemResult run r i fetched = .error cause) :
    cause.isConfig = false := by
  cases htarget : i.isTarget with
  | false =>
    rw [itemResult_of_not_target htarget] at h
    cases h
  | true =>
    have hturn := itemResult_turn hcheck htarget r fetched
    cases hend : ending? run r.mode i.file fetched with
    | some cause' =>
      rw [hend, h] at hturn
      obtain rfl := Except.error.inj hturn
      exact isConfig_of_ending? hend
    | none =>
      rw [hend] at hturn
      obtain ⟨r', hr', -⟩ := hturn
      rw [hr'] at h
      cases h

theorem isConfig_of_itemsResult (hcheck : ∀ path, (run.ignoreMap.get path).check = .ok ())
    {fetch : String → Except FileError ByteArray}
    (h : itemsResult run fetch r items = .error cause) : cause.isConfig = false := by
  induction items generalizing r with
  | nil => cases h
  | cons i items ih =>
    rw [itemsResult_cons] at h
    cases hi : itemResult run r i (fetch i.file.path) with
    | ok r' =>
      rw [hi] at h
      exact ih h
    | error cause' =>
      rw [hi] at h
      obtain rfl := Except.error.inj h
      exact isConfig_of_itemResult (hcheck _) hi

end

/-! ## Changes -/

/-- A change that a run over the tree at the location `L` can make to what stands at a
location. -/
inductive Change (config : Config) (run : TreeRun) (L : Location) (fs after : FileSystem) :
    Location → Prop
  /-- A source file that the settings admit, and that is not the support module, was
  written.  The access time is that of the file in the beginning, or the file was read
  as the template. -/
  | edited {names : Location} {f : File} {bytes : ByteArray} {accessed : Time}
      (admitted : Node.Admitted (selection config.suffix run) [] names)
      (other : names ≠ location)
      (before : fs.at? (L ++ names) = some (.file f))
      (written : after.at? (L ++ names) = some (.file { f with bytes, accessed }))
      (time : accessed = f.accessed ∨ run.installRuntime = true ∧ accessed = fs.now ∧
        fs.locate config.runtimeTemplate = .ok (.found (L ++ names) (.file f))) :
      Change config run L fs after (L ++ names)
  /-- The module or its directory was made, because the run asks for the module, does
  not remove declarations, and there was none. -/
  | made {names : Location}
      (place : names = home ∧ after.at? (L ++ names) = some (.dir []) ∨
        names = location ∧ ∃ f, after.at? (L ++ names) = some (.file f))
      (wanted : run.installRuntime = true) (mode : Mode.ofName run.mode ≠ .ok .remove)
      (free : fs.at? (L ++ names) = none) (missing : fs.at? (L ++ location) = none) :
      Change config run L fs after (L ++ names)

section
variable {config : Config} {run : TreeRun} {L loc : Location} {es : Entries}
  {fs fs' after after' : FileSystem} {mode : Mode} {r : TreeResult}

theorem Change.of_at? (h : Change config run L fs after loc)
    (hsame : after'.at? loc = after.at? loc) : Change config run L fs after' loc := by
  cases h with
  | edited admitted other before written time =>
    exact .edited admitted other before (hsame.trans written) time
  | made place wanted mode free missing =>
    rw [← hsame] at place
    exact .made place wanted mode free missing

/-- What an installation changes. -/
theorem change_of_prepares (hprep : Prepares run.root L config.runtimeTemplate fs fs')
    (hword : Mode.ofName run.mode = .ok mode)
    (hwanted : run.installRuntime = true ∧ mode ≠ .remove ∨ fs' = fs) (loc : Location) :
    fs'.unread.at? loc = fs.unread.at? loc ∨ Change config run L fs fs' loc := by
  rcases hwanted with ⟨hinstall, hmode⟩ | rfl
  · have hremove : Mode.ofName run.mode ≠ .ok .remove := by
      rw [hword]
      exact fun h => hmode (Except.ok.inj h)
    refine (hprep.at?_cases loc).imp id ?_
    rintro ⟨hfree, ⟨rfl, hnew⟩ | ⟨rfl, hnew⟩⟩
    · -- without its directory there is no module
      have hmissing : fs.at? (L ++ location) = none := by
        rw [FileSystem.at?, Node.at?_eq_none_iff] at hfree ⊢
        rw [append_location, Node.get?_append, hfree]
        rfl
      exact .made (Or.inl ⟨rfl, hnew⟩) hinstall hremove hfree hmissing
    · exact .made (Or.inr ⟨rfl, hnew⟩) hinstall hremove hfree hfree
  · exact Or.inl rfl

/-- A file that a run edits stands where the settings admit it, and is not the
support module. -/
theorem admitted_of_place? (hlf : fs.root.linkFree = true)
    (hroot : fs.locate run.root = .ok (.found L (.dir es))) {s : Selection} {i : ScanItem}
    (hi : i ∈ workItems fs run.root s) (hplace : i.place? fs = some loc) :
    ∃ names, loc = L ++ names ∧ Node.Admitted s [] names ∧ names ≠ location := by
  rw [workItems_eq hlf hroot] at hi
  obtain ⟨j, hj, rfl⟩ := List.mem_map.mp hi
  obtain ⟨hj, hother⟩ := List.mem_filter.mp hj
  have hfault := fault_of_isTarget (ScanItem.place?_eq_some_iff.mp hplace).1
  obtain ⟨f, -, hadmitted, -⟩ := locate_source hlf hroot hj hfault
  refine ⟨j.names, place?_item hlf hroot hj hplace, hadmitted, fun hnames => ?_⟩
  have hmodule : j = ⟨location, none⟩ := by
    obtain ⟨names, fault⟩ := j
    obtain rfl : names = location := hnames
    obtain rfl : fault = none := hfault
    rfl
  exact of_decide_eq_true hother hmodule

/-- A file of a run keeps its permissions and its modification time, and its access time
moves only if its bytes stay. -/
theorem at?_runItems_file {items : List ScanItem} {i : ScanItem} {f : File}
    (hapart : Apart fs items) (hi : i ∈ items) (hplace : i.place? fs = some loc)
    (hf : fs.at? loc = some (.file f)) (run : TreeRun) (r : TreeResult) :
    ∃ bytes accessed, (runItems run items r fs).2.at? loc =
        some (.file { f with bytes, accessed }) ∧
      (accessed = f.accessed ∨ bytes = f.bytes) := by
  obtain ⟨before, later, rfl⟩ := List.append_of_mem hi
  cases hbefore : itemsResult run fs.fetch r before with
  | error cause =>
    exact ⟨f.bytes, f.accessed, (at?_runItems_unreached hapart hplace hbefore).trans hf, Or.inl rfl⟩
  | ok r' =>
    obtain ⟨bytes, accessed, heq, -, haccessed⟩ := fileAfter_eq fs.now r'.mode
      (run.ignoreMap.get i.file.relPath) run.dryRun f
    refine ⟨bytes, accessed, ?_, haccessed.imp id And.right⟩
    rw [at?_runItems_reached hapart hplace hf hbefore, heq]

/-- What a run over the items changes, on top of what it installed. -/
theorem change_of_runItems (hlf : fs.root.linkFree = true)
    (hroot : fs.locate run.root = .ok (.found L (.dir es)))
    (hprep : Prepares run.root L config.runtimeTemplate fs fs')
    (hword : Mode.ofName run.mode = .ok mode)
    (hwanted : run.installRuntime = true ∧ mode ≠ .remove ∨ fs' = fs)
    (hapart : Apart fs' (workItems fs run.root (selection config.suffix run))) (r : TreeResult)
    (loc : Location) :
    let after := (runItems run (workItems fs run.root (selection config.suffix run)) r fs').2
    after.unread.at? loc = fs.unread.at? loc ∨ Change config run L fs after loc := by
  intro after
  by_cases hplace : ∃ i ∈ workItems fs run.root (selection config.suffix run),
      i.place? fs' = some loc
  · obtain ⟨i, hi, hplace⟩ := hplace
    have htarget := (ScanItem.place?_eq_some_iff.mp hplace).1
    have hplace' : i.place? fs = some loc :=
      (target_of_prepares hprep hlf hroot hi htarget).1.symm.trans hplace
    obtain ⟨-, f, hl⟩ := ScanItem.place?_eq_some_iff.mp hplace'
    have hf := FileSystem.at?_of_locate hl
    obtain ⟨time, hf', htime⟩ := hprep.at?_file hf
    obtain ⟨bytes, accessed, hafter, haccessed⟩ := at?_runItems_file hapart hi hplace hf' run r
    change after.at? loc = _ at hafter
    rcases haccessed with rfl | rfl
    · obtain ⟨names, rfl, hadmitted, hother⟩ := admitted_of_place? hlf hroot hi hplace'
      refine Or.inr (.edited hadmitted hother hf hafter ?_)
      rcases hwanted with ⟨hinstall, -⟩ | rfl
      · exact htime.imp id fun h => ⟨hinstall, h⟩
      · -- nothing was read before the run came to the file
        have hsame := Node.file.inj (Option.some.inj (hf'.symm.trans hf))
        exact Or.inl (congrArg File.accessed hsame)
    · refine Or.inl ?_
      rw [FileSystem.at?_unread, FileSystem.at?_unread, hafter, hf]
      rfl
  · have hsame : after.at? loc = fs'.at? loc :=
      at?_runItems_of_ne run r fun i hi hl => hplace ⟨i, hi, hl⟩
    refine (change_of_prepares hprep hword hwanted loc).imp (fun h => ?_) fun h => h.of_at? hsame
    rw [← h, FileSystem.at?_unread, FileSystem.at?_unread, hsame]

/-! ## The whole run -/

/-- No change is one of a module that is there. -/
theorem Change.ne_module (h : Change config run L fs after loc) {f : File}
    (hf : fs.at? (L ++ location) = some (.file f)) : loc ≠ L ++ location := by
  cases h with
  | edited admitted other before written time => exact fun h => other (List.append_cancel_left h)
  | made place wanted mode free missing =>
    rw [hf] at missing
    cases missing

/-- Every way in which a run can end. -/
theorem tree_outcome_confined (hlf : fs.root.linkFree = true) (config : Config) (cancelled : Bool)
    (run : TreeRun) : ∃ result after, (tree config cancelled run).outcome fs = (result, after) ∧
      (∀ loc, after.unread.at? loc = fs.unread.at? loc ∨
        ∃ L es, fs.locate run.root = .ok (.found L (.dir es)) ∧
          Change config run L fs after loc) ∧
      ∀ cause, result = .error cause → cause.isConfig = true → after = fs := by
  cases hmode : run.check with
  | error cause =>
    exact ⟨.error cause, fs, (tree_gives_of_check hmode).outcome_eq, fun _ => Or.inl rfl,
      fun _ _ _ => rfl⟩
  | ok mode =>
    cases hroot : fs.checkRoot run.root with
    | error cause =>
      exact ⟨.error cause, fs, (tree_gives_of_root hmode hroot).outcome_eq, fun _ => Or.inl rfl,
        fun _ _ _ => rfl⟩
    | ok u =>
      obtain ⟨L, es, hlocate⟩ := checkRoot_eq_ok_iff.mp hroot
      obtain ⟨done, fs', hinstall, hprep, hwanted⟩ :=
        installFor_prepares config run mode hlf hlocate
      have hword := (check_eq_ok_iff.mp hmode).2.1
      have hprepared : ∀ loc, fs'.unread.at? loc = fs.unread.at? loc ∨
          ∃ L es, fs.locate run.root = .ok (.found L (.dir es)) ∧
            Change config run L fs fs' loc := fun loc =>
        (change_of_prepares hprep hword hwanted loc).imp id fun h => ⟨L, es, hlocate, h⟩
      cases done with
      | error cause =>
        -- the settings were in order before the installation began
        have hcause := (configured_installFor config run mode).of_gives hinstall
        refine ⟨.error cause, fs', (tree_gives_of_install hmode hroot hinstall).outcome_eq,
          hprepared, ?_⟩
        rintro _ hsame hconfig
        rw [← Except.error.inj hsame, hcause] at hconfig
        cases hconfig
      | ok installed =>
        cases cancelled with
        | true =>
          refine ⟨.error .cancelled, fs', (tree_gives_of_cancelled hmode hroot hinstall).outcome_eq,
            hprepared, ?_⟩
          rintro _ hsame hconfig
          rw [← Except.error.inj hsame] at hconfig
          cases hconfig
        | false =>
          obtain ⟨hrun, hapart, hresult⟩ := tree_outcome hlf hmode hlocate hprep hinstall
          refine ⟨_, _, hrun, fun loc => ?_, fun cause hcause hconfig => ?_⟩
          · exact (change_of_runItems hlf hlocate hprep hword hwanted hapart _ loc).imp id
              fun h => ⟨L, es, hlocate, h⟩
          · rw [hrun, hcause] at hresult
            rw [isConfig_of_itemsResult (check_get hmode) hresult.symm] at hconfig
            cases hconfig

/-- **A run over a tree is confined**, whatever it comes to.

* What stands at a place is as it was, but for access times, unless the run changed it
  in one of the ways of `Change`.
* A support module that was there is as it was, but for its access time.
* An error of the settings leaves everything exactly as it was. -/
theorem tree_confined (hlf : fs.root.linkFree = true) (config : Config) (cancelled : Bool)
    (run : TreeRun) :
    let done := (tree config cancelled run).outcome fs
    (∀ loc, done.2.unread.at? loc = fs.unread.at? loc ∨
      ∃ L es, fs.locate run.root = .ok (.found L (.dir es)) ∧ Change config run L fs done.2 loc) ∧
    (∀ L es f, fs.locate run.root = .ok (.found L (.dir es)) →
      fs.at? (L ++ location) = some (.file f) →
      done.2.unread.at? (L ++ location) = fs.unread.at? (L ++ location)) ∧
    ∀ cause, done.1 = .error cause → cause.isConfig = true → done.2 = fs := by
  obtain ⟨result, after, houtcome, hplaces, hconfig⟩ := tree_outcome_confined hlf config cancelled run
  dsimp only
  rw [houtcome]
  refine ⟨hplaces, fun L es f hlocate hf => ?_, hconfig⟩
  refine (hplaces _).resolve_right ?_
  rintro ⟨L', es', hlocate', hchange⟩
  obtain ⟨rfl, -⟩ := Target.found.inj (Except.ok.inj (hlocate'.symm.trans hlocate))
  exact hchange.ne_module hf rfl

end

/-! ## A template that is a source file -/

section
variable {fs : FileSystem} {root templatePath : String} {L loc : Location} {es : Entries} {f : File}

theorem source_gives_template (hne : templatePath ≠ "")
    (hl : fs.locate templatePath = .ok (.found loc (.file f))) :
    Gives (SupportModule.source templatePath) fs (.ok (f.bytes, f.perm))
      (fs.putFile loc { f with accessed := fs.now }) := by
  rw [SupportModule.source, if_neg hne]
  refine (gives_files fs).bind ?_
  rw [FileSystem.stat, hl]
  refine (gives_pure (Node.file f) fs).bind ?_
  exact ((read_gives hl).bind (gives_pure f.bytes _)).bind (gives_pure _ _)

/-- Installing the module moves the access time of the template, wherever it is. -/
theorem install_gives_template (hlf : fs.root.linkFree = true)
    (hroot : fs.locate root = .ok (.found L (.dir es))) (hready : Ready root L fs)
    (hmissing : present fs root = false) (hne : templatePath ≠ "")
    (hl : fs.locate templatePath = .ok (.found loc (.file f))) :
    ∃ fs', Gives (install root templatePath false) fs (.ok true) fs' ∧
      Prepares root L templatePath fs fs' ∧
      fs'.at? loc = some (.file { f with accessed := fs.now }) := by
  obtain ⟨dry, done, mid, fs', hdry, hdone, hsampled, hinstalls, hsame⟩ :=
    install_gives hlf hroot templatePath
  have hread : Gives (install root templatePath true) fs (.ok true)
      (fs.putFile loc { f with accessed := fs.now }) := by
    exact install_gives_missing hmissing ((source_gives_template hne hl).bind (gives_pure true _))
  obtain ⟨rfl, rfl⟩ := hdry.unique hread
  rw [hsame (Or.inr hready)] at hdone
  refine ⟨fs', hdone, ⟨_, hsampled, hinstalls⟩, hinstalls.at?_of_some ?_⟩
  rw [FileSystem.at?_putFile (FileSystem.at?_of_locate hl), if_pos rfl]

end

/-- A class to declare, in a file that is also the template. -/
def templateEntries : Entries :=
  [("a.py", .file ⟨"class A:\n    pass\n".toUTF8, 0o644, 0, 0⟩)]

def templateFiles : FileSystem where
  root := .dir [("t", .dir templateEntries)]
  cwd := []
  now := 1
  wellFormed := by
    simp only [Node.WellFormed, Node.WellFormedEntries, templateEntries]
    decide +kernel

def templateConfig : Config := { Config.default with runtimeTemplate := "t/a.py" }

def templateRun : TreeRun := templateConfig.treeRun "t" "add"

theorem linkFree_template : templateFiles.root.linkFree = true := by decide

theorem locate_template : templateFiles.locate "t" = .ok (.found ["t"] (.dir templateEntries)) :=
  FileSystem.locate_of_get? linkFree_template "t" ["t"] (by decide +kernel) rfl

theorem workItems_template : workItems templateFiles "t" (selection ".py" templateRun) =
    [⟨⟨"t/a.py", "a.py"⟩, none⟩] := by
  rw [workItems_eq linkFree_template locate_template]
  decide +kernel

/-- **The access time of an edited file can move.**  The run reads the file as the
template of the module before it comes to edit it, and gives it back the times that it
has then. -/
theorem template_time_moves :
    let done := (tree templateConfig false templateRun).outcome templateFiles
    templateFiles.root.linkFree = true ∧ ∃ f g,
      templateFiles.at? ["t", "a.py"] = some (.file f) ∧
      done.2.at? ["t", "a.py"] = some (.file g) ∧ g.bytes ≠ f.bytes ∧ g.accessed ≠ f.accessed := by
  intro done
  let f : File := ⟨"class A:\n    pass\n".toUTF8, 0o644, 0, 0⟩
  have hl : templateFiles.locate "t/a.py" = .ok (.found ["t", "a.py"] (.file f)) :=
    FileSystem.locate_of_get? linkFree_template "t/a.py" ["t", "a.py"] (by decide +kernel) rfl
  have hpath : FileSystem.pathFault? (Path.join "t" SupportModule.path) = none := by decide +kernel
  have hmissing : present templateFiles "t" = false := by
    have hlocate := locate_module linkFree_template locate_template
    rw [hpath] at hlocate
    rw [present, FileSystem.stat, hlocate]
    rfl
  have hready : Ready "t" ["t"] templateFiles := ⟨by decide +kernel, hpath, Or.inl rfl⟩
  obtain ⟨fs', hinstall, hprep, hf⟩ := install_gives_template linkFree_template locate_template
    hready hmissing (by decide) hl
  have hgives : Gives (installFor templateConfig templateRun .add) templateFiles (.ok true) fs' :=
    installFor_of_install templateConfig templateRun (by decide) hinstall
  obtain ⟨hrun, hapart, -⟩ := tree_outcome linkFree_template rfl locate_template hprep hgives
  have hitem : (⟨⟨"t/a.py", "a.py"⟩, none⟩ : ScanItem) ∈
      workItems templateFiles "t" (selection ".py" templateRun) := by
    rw [workItems_template]
    exact List.mem_singleton_self _
  have hplace : ScanItem.place? fs' ⟨⟨"t/a.py", "a.py"⟩, none⟩ = some ["t", "a.py"] := by
    rw [(target_of_prepares hprep linkFree_template locate_template hitem (by decide)).1]
    exact ScanItem.place?_eq_some_iff.mpr ⟨by decide, f, hl⟩
  have hnone : itemsResult templateRun fs'.fetch (.start "t" .add true) [] =
      .ok (.start "t" .add true) := rfl
  have hafter := congrArg (fun out => FileSystem.at? (Prod.snd out) ["t", "a.py"]) hrun
  rw [show templateRun.root = "t" from rfl, show templateConfig.suffix = ".py" from rfl,
    workItems_template] at hafter hapart
  rw [← List.nil_append [_]] at hapart
  have hreached := at?_runItems_reached hapart hplace hf hnone
  obtain ⟨bytes, accessed, heq, hbytes, htime⟩ := fileAfter_eq fs'.now
    (TreeResult.start "t" .add true).mode (templateRun.ignoreMap.get "a.py") templateRun.dryRun
    { f with accessed := templateFiles.now }
  have hchanged : bytes ≠ f.bytes := by
    rw [hbytes]
    decide +kernel
  rw [heq] at hreached
  obtain rfl : accessed = templateFiles.now := htime.resolve_right fun h => hchanged h.2
  exact ⟨linkFree_template, f, _, rfl, hafter.trans hreached, hchanged, Nat.one_ne_zero⟩

/-- A run that edits its own template, and one whose mode is no mode. -/
theorem tree_confined_template :
    let done := (tree templateConfig false templateRun).outcome templateFiles
    let refused := (tree templateConfig false { templateRun with mode := "sideways" }).outcome
      templateFiles
    templateFiles.root.linkFree = true ∧
      (∀ loc, done.2.unread.at? loc = templateFiles.unread.at? loc ∨
        ∃ L es, templateFiles.locate "t" = .ok (.found L (.dir es)) ∧
          Change templateConfig templateRun L templateFiles done.2 loc) ∧
      refused.1 = .error (.config (.unknownMode "sideways")) ∧ refused.2 = templateFiles := by
  intro done refused
  have hrefused : refused.1 = .error (.config (.unknownMode "sideways")) := by
    have hcheck : { templateRun with mode := "sideways" }.check =
        .error (.config (.unknownMode "sideways")) := rfl
    exact congrArg Prod.fst (tree_gives_of_check hcheck).outcome_eq
  refine ⟨linkFree_template, ?_, hrefused, ?_⟩
  · exact (tree_confined linkFree_template templateConfig false templateRun).1
  · exact (tree_confined linkFree_template templateConfig false
      { templateRun with mode := "sideways" }).2.2 _ hrefused rfl

end Edit
end ForwardDecl
