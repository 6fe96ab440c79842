import ForwardDecl.Proofs.Confinement
import ForwardDecl.Proofs.Postconditions

/-! # Edits that are cancelled before they begin

A cancelled edit of a file fails before it reads the file, and a cancelled scan before
it lists a directory.  A run over a tree, however, makes the support module before it
scans anything.  So a cancelled run leaves the files as they are, but for access times,
unless it is to write a module that is missing (`Edit.WritesModule`); then it leaves what
the installation makes of them (`Edit.cancelled_leaves`), and where nothing stands in the
way of the module, it writes it (`Edit.tree_cancelled_writes`).
-/
namespace ForwardDecl
namespace Edit
open SupportModule

/-! ## Edits that do not depend on what was told -/

section
variable {α β : Type} {e : Edit α}

/-- The files alone determine what the edit gives. -/
def Determined (e : Edit α) : Prop := ∀ fs, ∃ r fs', Gives e fs r fs'

theorem determined_pure (a : α) : Determined (pure a : Edit α) :=
  fun fs => ⟨_, _, gives_pure a fs⟩

theorem determined_throw (cause : Error) : Determined (throw cause : Edit α) :=
  fun fs => ⟨_, _, gives_throw cause fs⟩

theorem determined_files : Determined files := fun fs => ⟨_, _, gives_files fs⟩

theorem determined_setFiles (new : FileSystem) : Determined (setFiles new) :=
  fun fs => ⟨_, _, gives_setFiles fs new⟩

theorem determined_fileCall (context : String) (r : Except FileError α) :
    Determined (fileCall context r) :=
  fun fs => ⟨_, _, gives_fileCall context r fs⟩

theorem Determined.bind {f : α → Edit β} (h : Determined e) (hf : ∀ a, Determined (f a)) :
    Determined (e >>= f) := by
  intro fs
  obtain ⟨r, fs₁, hgives⟩ := h fs
  cases r with
  | error cause => exact ⟨_, _, hgives.bind_error f⟩
  | ok a =>
    obtain ⟨r', fs₂, hgives'⟩ := hf a fs₁
    exact ⟨_, _, hgives.bind hgives'⟩

theorem determined_read (path : String) : Determined (read path) := by
  refine determined_files.bind fun fs => ?_
  split
  · exact (determined_setFiles _).bind fun _ => determined_pure _
  · exact determined_pure _

theorem compositional_determined : Compositional fun e => Determined e where
  pure := determined_pure
  files := determined_files
  read := determined_read
  bind := Determined.bind

end

/-! ## Single files -/

/-- If what follows a check fails without a change, so does the whole. -/
theorem ofExcept_bind_fails {α β : Type} {f : α → Edit β} {fs : FileSystem} (r : Except Error α)
    (h : ∀ a, ∃ cause, Gives (f a) fs (.error cause) fs) :
    ∃ cause, Gives (ofExcept r >>= f) fs (.error cause) fs := by
  cases r with
  | error cause => exact ⟨cause, (gives_throw cause fs).bind_error f⟩
  | ok a =>
    obtain ⟨cause, hf⟩ := h a
    exact ⟨cause, (gives_pure a fs).bind hf⟩

/-- A cancelled edit of a file fails, and nothing changes. -/
theorem file_cancelled (config : Config) (path : String) (mode : Mode) (ignore : IgnoreList)
    (options : EditOptions) (fs : FileSystem) :
    ∃ cause, Gives (file config true path mode ignore options) fs (.error cause) fs := by
  refine ofExcept_bind_fails _ fun _ => ?_
  obtain ⟨cause, hrest⟩ := ofExcept_bind_fails (fs.checkSource path config.suffix)
    (f := fun _ => source true path (Path.base path) mode ignore options) fun _ =>
      ⟨.cancelled, (gives_throw .cancelled fs).bind_error _⟩
  exact ⟨cause, (gives_files fs).bind hrest⟩

/-- The first of some files ends a cancelled report. -/
theorem detect_cancelled (config : Config) (paths : List String) (fs : FileSystem) :
    ∃ r, Gives (detect config true paths) fs r fs := by
  cases paths with
  | nil => exact ⟨_, gives_pure [] fs⟩
  | cons path paths =>
    obtain ⟨cause, hfile⟩ := file_cancelled config path .toggle [] ⟨true, false⟩ fs
    refine ⟨.error cause, ?_⟩
    rw [detect, List.mapM_cons]
    exact hfile.bind_error _

/-! ## Runs over trees -/

section
variable {config : Config} {run : TreeRun} {fs fs' : FileSystem}

/-- The run is in order and is to write the support module, which is missing. -/
structure WritesModule (run : TreeRun) (fs : FileSystem) : Prop where
  mode : ∃ mode, run.check = .ok mode ∧ mode ≠ .remove
  root : fs.checkRoot run.root = .ok ()
  wanted : run.installRuntime = true
  wet : run.dryRun = false
  missing : present fs run.root = false

/-- What a cancelled run leaves of some files: what the installation of the module makes
of them if the module is to be written, and else the files as they are, but for access
times. -/
structure LeftBy (config : Config) (run : TreeRun) (fs fs' : FileSystem) : Prop where
  written : WritesModule run fs →
    fs' = ((install run.root config.runtimeTemplate false).outcome fs).2
  unread : ¬ WritesModule run fs → fs'.unread = fs.unread

theorem leftBy_self (h : ¬ WritesModule run fs) : LeftBy config run fs fs :=
  ⟨fun hwrites => absurd hwrites h, fun _ => rfl⟩

/-- An installation that does not write the module leaves the files as they are, but for
the access time of the template. -/
theorem install_unread {root templatePath : String} {dryRun : Bool} {r : Except Error Bool}
    (h : present fs root = true ∨ dryRun = true)
    (hgives : Gives (install root templatePath dryRun) fs r fs') : fs'.unread = fs.unread := by
  obtain ⟨done, mid, hmid, hsampled⟩ := install_samples h templatePath
  obtain ⟨-, rfl⟩ := hmid.unique hgives
  exact hsampled.unread_eq

/-- **A cancelled run over a tree fails.** -/
theorem tree_cancelled (config : Config) (run : TreeRun) (fs : FileSystem) : ∃ cause fs',
    Gives (tree config true run) fs (.error cause) fs' ∧ LeftBy config run fs fs' := by
  cases hcheck : run.check with
  | error cause =>
    refine ⟨cause, fs, tree_gives_of_check hcheck, leftBy_self fun h => ?_⟩
    obtain ⟨mode, hmode, -⟩ := h.mode
    cases hcheck.symm.trans hmode
  | ok mode =>
    cases hroot : fs.checkRoot run.root with
    | error cause =>
      refine ⟨cause, fs, tree_gives_of_root hcheck hroot, leftBy_self fun h => ?_⟩
      cases hroot.symm.trans h.root
    | ok u =>
      by_cases hwanted : run.installRuntime = true ∧ mode ≠ .remove
      · obtain ⟨done, fs', hgives⟩ := install_of_compositional compositional_determined
          determined_setFiles determined_fileCall run.root config.runtimeTemplate run.dryRun fs
        have hinstall := installFor_of_install config run hwanted hgives
        have hleft : LeftBy config run fs fs' := by
          refine ⟨fun h => ?_, fun h => install_unread ?_ hgives⟩
          · rw [h.wet] at hgives
            rw [hgives.outcome_eq]
          · cases hp : present fs run.root with
            | true => exact Or.inl rfl
            | false =>
              cases hdry : run.dryRun with
              | true => exact Or.inr rfl
              | false =>
                exact absurd ⟨⟨mode, hcheck, hwanted.2⟩, hroot, hwanted.1, hdry, hp⟩ h
        cases done with
        | error cause => exact ⟨cause, fs', tree_gives_of_install hcheck hroot hinstall, hleft⟩
        | ok installed => exact ⟨_, fs', tree_gives_of_cancelled hcheck hroot hinstall, hleft⟩
      · have hinstall := installFor_of_not_wanted config run hwanted fs
        refine ⟨_, fs, tree_gives_of_cancelled hcheck hroot hinstall, leftBy_self fun h => ?_⟩
        obtain ⟨mode', hmode, hne⟩ := h.mode
        obtain rfl := Except.ok.inj (hcheck.symm.trans hmode)
        exact hwanted ⟨h.wanted, hne⟩

/-- The run over a tree that edits a checkout. -/
def checkoutRun (config : Config) (root mode : String) (options : EditOptions) : TreeRun where
  root := Path.join root config.checkout.subdir
  mode := mode
  ignoreDirs := config.checkout.ignoreDirs
  ignoreFiles := config.checkout.ignoreFiles
  ignoreMap := config.checkout.ignoreClasses
  verbose := false
  installRuntime := true
  dryRun := options.dryRun
  showDiff := options.showDiff
  strict := config.strict

/-- A cancelled edit of a checkout fails.  The checkout is looked at before, which moves
no more than access times. -/
theorem checkout_cancelled (config : Config) (root mode : String) (options : EditOptions)
    (fs : FileSystem) : ∃ cause fs',
      Gives (checkout config true root mode options) fs (.error cause) fs' ∧
      (fs'.unread = fs.unread ∨ ∃ checked, checked.unread = fs.unread ∧
        LeftBy config (checkoutRun config root mode options) checked fs') := by
  obtain ⟨r, checked, hcheck⟩ := checkCheckout_of_compositional compositional_determined
    determined_throw root config.checkout fs
  have hunread : checked.unread = fs.unread := by
    have hkept : Preserves (fun d => d.files.unread) (checkCheckout root config.checkout) :=
      preserves_checkCheckout (fun _ _ h => h) root config.checkout
    obtain ⟨trace, hrun⟩ := hcheck []
    cases r with
    | ok u => exact (hkept ⟨fs, []⟩).of_ok hrun
    | error cause => exact (hkept ⟨fs, []⟩).of_error hrun
  cases r with
  | error cause => exact ⟨cause, checked, hcheck.bind_error _, Or.inl hunread⟩
  | ok u =>
    obtain ⟨cause, fs', htree, hleft⟩ :=
      tree_cancelled config (checkoutRun config root mode options) checked
    exact ⟨cause, fs', hcheck.bind htree, Or.inr ⟨checked, hunread, hleft⟩⟩

end

/-- **What cancelled edits leave.**  Editing a file and reporting on some change nothing.
A run over a tree, and over a checkout after it was looked at, leaves the files as they
are, but for access times, unless it is to write a support module that is missing. -/
theorem cancelled_leaves (config : Config) (fs : FileSystem) :
    (∀ path mode ignore options, ∃ cause,
      (file config true path mode ignore options).outcome fs = (.error cause, fs)) ∧
    (∀ paths, ((detect config true paths).outcome fs).2 = fs) ∧
    (∀ run, ∃ cause fs', (tree config true run).outcome fs = (.error cause, fs') ∧
      LeftBy config run fs fs') ∧
    ∀ root mode options, ∃ cause fs',
      (checkout config true root mode options).outcome fs = (.error cause, fs') ∧
      (fs'.unread = fs.unread ∨ ∃ checked, checked.unread = fs.unread ∧
        LeftBy config (checkoutRun config root mode options) checked fs') := by
  refine ⟨fun path mode ignore options => ?_, fun paths => ?_, fun run => ?_,
    fun root mode options => ?_⟩
  · obtain ⟨cause, h⟩ := file_cancelled config path mode ignore options fs
    exact ⟨cause, h.outcome_eq⟩
  · obtain ⟨r, h⟩ := detect_cancelled config paths fs
    rw [h.outcome_eq]
  · obtain ⟨cause, fs', h, hleft⟩ := tree_cancelled config run fs
    exact ⟨cause, fs', h.outcome_eq, hleft⟩
  · obtain ⟨cause, fs', h, hleft⟩ := checkout_cancelled config root mode options fs
    exact ⟨cause, fs', h.outcome_eq, hleft⟩

/-! ## Modules that are written all the same -/

section
variable {fs : FileSystem} {root : String} {L : Location} {es : Entries}

/-- Where nothing stands in its way, the module is not there. -/
theorem not_present_of_ready (hlf : fs.root.linkFree = true)
    (hroot : fs.locate root = .ok (.found L (.dir es))) (hready : Ready root L fs) :
    present fs root = false := by
  have hhome : fs.root.get? (L ++ home) = Entries.get? es "forward" :=
    Node.get?_snoc (FileSystem.get?_of_locate hroot) _
  rw [present, FileSystem.stat]
  cases hget : Entries.get? es "forward" with
  | none =>
    have hlocate := locate_module hlf hroot
    rw [hready.path_ok, hget] at hlocate
    rw [hlocate]
  | some m =>
    obtain ⟨ds, rfl⟩ := hready.dir_of_get? (hhome.trans hget)
    rw [locate_of_ready hlf hroot hready hget]

theorem writeModule_writes (hlf : fs.root.linkFree = true)
    (hroot : fs.locate root = .ok (.found L (.dir es)))
    (hl : fs.locate (Path.join root path) = .ok (.absent (L ++ location)))
    (templatePath : String) (bytes : ByteArray) (perm : Nat) : ∃ f fs',
      Gives (writeModule root templatePath bytes perm) fs (.ok true) fs' ∧
      fs'.at? (L ++ location) = some (.file f) := by
  rcases locate_module_cases hlf hroot with ⟨fault, hl'⟩ | ⟨m, hl'⟩ | ⟨ds, hds, hfree, -⟩
  · cases hl.symm.trans hl'
  · cases hl.symm.trans hl'
  · obtain ⟨f, hgives⟩ := writeModule_absent hlf (FileSystem.leads_of_locate hlf hroot) hds hfree hl
      templatePath bytes perm
    refine ⟨f, _, hgives, ?_⟩
    rw [(adds_module hds hfree f).at?_eq, if_pos rfl]

/-- Where nothing stands in its way, the module is made. -/
theorem make_writes (hlf : fs.root.linkFree = true)
    (hroot : fs.locate root = .ok (.found L (.dir es))) (hready : Ready root L fs)
    (templatePath : String) (bytes : ByteArray) (perm : Nat) : ∃ f fs',
      Gives (make root templatePath bytes perm) fs (.ok true) fs' ∧
      fs'.at? (L ++ location) = some (.file f) := by
  -- once its directory is there, the module is absent from it
  obtain ⟨mid, es', hdirs, hlf', hroot', hl⟩ : ∃ mid es',
      fs.makeDirs (Path.join root directory) = .ok mid ∧ mid.root.linkFree = true ∧
      mid.locate root = .ok (.found L (.dir es')) ∧
      mid.locate (Path.join root path) = .ok (.absent (L ++ location)) := by
    have hdirs := makeDirs_home hlf hroot
    cases hget : Entries.get? es "forward" with
    | none =>
      rw [hget, hready.directory_ok] at hdirs
      have hadds := adds_home (FileSystem.get?_of_locate hroot) hget
      obtain ⟨es', hroot'⟩ := hadds.locate_dir hlf hroot
      exact ⟨_, es', hdirs, hadds.linkFree_root hlf, hroot',
        (locate_of_adds_home hlf hroot hadds hready.path_ok).2⟩
    | some m =>
      have hhome : fs.root.get? (L ++ home) = some m :=
        (Node.get?_snoc (FileSystem.get?_of_locate hroot) _).trans hget
      obtain ⟨ds, rfl⟩ := hready.dir_of_get? hhome
      rw [hget] at hdirs
      exact ⟨fs, es, hdirs, hlf, hroot, locate_of_ready hlf hroot hready hget⟩
  obtain ⟨f, fs', hgives, hf⟩ := writeModule_writes hlf' hroot' hl templatePath bytes perm
  exact ⟨f, fs', .change hdirs hgives, hf⟩

/-- **A run that is cancelled writes the module.**  All it takes is that the run is in
order, that it is to write the built-in module, and that nothing stands in the way. -/
theorem tree_cancelled_writes (config : Config) {run : TreeRun} (hlf : fs.root.linkFree = true)
    (hroot : fs.locate run.root = .ok (.found L (.dir es))) (hready : Ready run.root L fs)
    (hwrites : WritesModule run fs) (htemplate : config.runtimeTemplate = "") : ∃ f fs',
      Gives (tree config true run) fs (.error .cancelled) fs' ∧
      fs'.at? (L ++ location) = some (.file f) := by
  obtain ⟨mode, hmode, hne⟩ := hwrites.mode
  obtain ⟨f, fs', hmake, hf⟩ := make_writes hlf hroot hready "" template.toUTF8 defaultPerm
  have hinstall : Gives (install run.root config.runtimeTemplate run.dryRun) fs (.ok true) fs' := by
    rw [htemplate, hwrites.wet]
    exact install_gives_missing hwrites.missing ((gives_pure _ _).bind hmake)
  exact ⟨f, fs', tree_gives_of_cancelled hmode hwrites.root
    (installFor_of_install config run ⟨hwrites.wanted, hne⟩ hinstall), hf⟩

end

/-- A cancelled run over the tree `t` puts the module into it. -/
theorem cancelled_module_written :
    let done := (tree Config.default true (Config.default.treeRun "t" "add")).outcome templateFiles
    done.1 = .error .cancelled ∧ done.2 ≠ templateFiles ∧
      templateFiles.at? ["t", "forward", "__init__.py"] = none ∧
      ∃ f, done.2.at? ["t", "forward", "__init__.py"] = some (.file f) := by
  have hready : Ready "t" ["t"] templateFiles :=
    ⟨by decide +kernel, by decide +kernel, Or.inl rfl⟩
  have hwrites : WritesModule (Config.default.treeRun "t" "add") templateFiles :=
    ⟨⟨.add, rfl, by decide⟩, checkRoot_eq_ok_iff.mpr ⟨_, _, locate_template⟩, rfl, rfl,
      not_present_of_ready linkFree_template locate_template hready⟩
  obtain ⟨f, fs', hgives, hf⟩ := tree_cancelled_writes Config.default linkFree_template
    locate_template hready hwrites rfl
  intro done
  have hdone : done = (.error .cancelled, fs') := hgives.outcome_eq
  have hfree : templateFiles.at? ["t", "forward", "__init__.py"] = none := rfl
  rw [hdone]
  refine ⟨rfl, fun hsame => ?_, hfree, f, hf⟩
  subst hsame
  cases hfree.symm.trans hf

end Edit
end ForwardDecl
