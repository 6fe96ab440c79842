import ForwardDecl.Proofs.Commands
import ForwardDecl.Proofs.Confinement
import ForwardDecl.Proofs.DryRuns
import ForwardDecl.Proofs.Postconditions
import ForwardDecl.Proofs.TreeRoundTrip

/-! # When a command is refused

An error in the settings or in the arguments refuses what a command was to work on.  A
single file or tree is refused before anything is done to it (`Edit.ensures_file`,
`Edit.tree_refused`).  A command that works on several of them checks each one only when
its turn comes, so that those before it are already edited: the files are then as the
same command leaves them that has only those before the refused one for arguments
(`Command.refused_in_turn`).
-/
namespace ForwardDecl
namespace Edit

section
variable {α : Type} {e : Edit α} {d : Desk} {fs fs' : FileSystem} {r : Except Error α}

theorem Gives.ensures (h : Gives e fs r fs') (trace : List Event) :
    Ensures e ⟨fs, trace⟩ (fun _ d' => d'.files = fs') (fun _ d' => d'.files = fs') := by
  obtain ⟨trace', hrun⟩ := h trace
  rw [Ensures, hrun]
  cases r <;> rfl

theorem Configured.ensures (h : Configured e) (d : Desk) :
    Ensures e d (fun _ _ => True) (fun cause _ => cause.isConfig = false) := by
  rw [Ensures]
  cases hrun : e.run d with
  | ok a d' => trivial
  | error cause d' => exact h d cause d' hrun

/-- The settings of a run that were checked are not to blame for what goes wrong with a
file. -/
theorem item_blameless {run : TreeRun} (hcheck : ∀ path, (run.ignoreMap.get path).check = .ok ())
    (i : ScanItem) (r : TreeResult) (d : Desk) : Ensures (item run false r i) d (fun _ _ => True)
      (fun cause _ => cause.isConfig = false) := by
  rw [item]
  dsimp only
  cases i.failure with
  | some cause => exact Ensures.bind (ensures_tell (ensures_pure trivial))
  | none =>
    dsimp only
    split
    · exact ensures_pure trivial
    · refine Ensures.bind (Ensures.attempt ((ensures_source _ _ _ _ _ d).imp
        (fun _ _ _ => ensures_pure trivial) fun cause d' hfailed => ?_))
      dsimp only
      split
      · exact Ensures.bind (ensures_tell (ensures_pure trivial))
      · split
        · exact Ensures.bind (ensures_tell (ensures_pure trivial))
        · exact ensures_throw (hfailed.blameless (hcheck _))

/-- **A tree is refused before anything is done to it.** -/
theorem tree_refused (config : Config) (run : TreeRun) (d : Desk) :
    Ensures (tree config false run) d (fun _ _ => True)
      (fun cause d' => cause.isConfig = true → d' = d) := by
  have hblame : ∀ (cause : Error) (d' : Desk), cause.isConfig = false → cause.isConfig = true →
      d' = d := by
    intro cause d' hfalse htrue
    rw [hfalse] at htrue
    cases htrue
  refine Ensures.bind (ensures_ofExcept (fun mode hmode => ?_) fun _ _ _ => rfl)
  refine Ensures.bind (ensures_files (Ensures.bind ?_))
  refine ensures_ofExcept (fun _ _ => ?_) fun _ _ _ => rfl
  refine Ensures.bind (ensures_tell (Ensures.bind ?_))
  refine ((configured_installFor config run mode).ensures _).imp (fun installed d₁ _ => ?_) hblame
  have hscan : Ensures (scanM listing (item run false) false run.root
      (selection config.suffix run) (.start run.root mode installed)) d₁ (fun _ _ => True)
      (fun cause _ => cause.isConfig = false) :=
    ensures_explore (fun r i d _ => item_blameless (check_get hmode) i r d) _ _ _ _ trivial
  exact Ensures.bind (hscan.imp (fun _ _ _ => Ensures.bind (ensures_tell (ensures_pure trivial)))
    hblame)

end
end Edit

namespace Command
open Edit
variable {argv : List String} {fs fs' : FileSystem} {c : Command} {config : Config}
  {g : GlobalOptions} {p : Parsed} {d : Desk}

/-! ## Commands with several arguments -/

/-- The files before a refused one have been edited, and nothing else has happened. -/
theorem editFiles_refused (config : Config) (ignore : IgnoreList) (options : EditOptions)
    (mode : Mode) (paths : List String) (d : Desk) :
    Ensures (editFiles config ignore options mode paths) d (fun _ _ => True)
      (fun cause d' => cause.isConfig = true → ∃ before refused after results,
        paths = before ++ refused :: after ∧
          (editFiles config ignore options mode before).run d = .ok results d') := by
  simp only [editFiles_eq_inTurn]
  refine inTurn_refused (fun mode path d => ?_) mode paths d
  refine (ensures_file config path mode ignore options d).imp (fun _ _ _ => trivial) ?_
  rintro cause d' (rfl | ⟨-, hfalse⟩) hconfig
  · rfl
  · rw [hfalse] at hconfig
    cases hconfig

/-- The trees before a refused one have been edited, and nothing else has happened. -/
theorem editTrees_refused (config : Config) (run : (root mode : String) → TreeRun)
    (word : String) (roots : List String) (d : Desk) :
    Ensures (editTrees config run word roots) d (fun _ _ => True)
      (fun cause d' => cause.isConfig = true → ∃ before refused after results,
        roots = before ++ refused :: after ∧
          (editTrees config run word before).run d = .ok results d') := by
  simp only [editTrees_eq_inTurn]
  exact inTurn_refused (fun word root d => tree_refused config (run root word) d) word roots d

/-- The command, given only some of its arguments, succeeds and leaves a desk behind. -/
def LeavesAfter (c : Command) (config : Config) (g : GlobalOptions) (p : Parsed)
    (fs : FileSystem) (before : List String) (d : Desk) : Prop :=
  ∃ stdout, (c.edit config g { p with args := before }).run ⟨fs, []⟩ = .ok stdout d

/-- What a command leaves behind when it is refused: the desk as it was, or as the command
leaves it with the arguments before the refused one. -/
def RefusedInTurn (c : Command) (config : Config) (g : GlobalOptions) (p : Parsed)
    (fs : FileSystem) (d : Desk) : Prop :=
  d.files.unread = fs.unread ∨ ∃ before refused after,
    p.args = before ++ refused :: after ∧ before ≠ [] ∧ LeavesAfter c config g p fs before d

theorem file_leaves {word : String} {ignore : IgnoreList} {mode : Mode} {results : List FileResult}
    (hword : modeWord p config.mode = .ok word)
    (hignore : IgnoreList.parse (p.texts "ignore") = .ok ignore) (hargs : p.args ≠ [])
    (hmode : Mode.ofName word = .ok mode)
    (hrun : (editFiles config ignore ⟨isDry g p, p.isOn "diff"⟩ mode p.args).run ⟨fs, []⟩ =
      .ok results d) : ∃ stdout, (file.edit config g p).run ⟨fs, []⟩ = .ok stdout d := by
  dsimp only [file]
  rw [hword, hignore]
  simp only [Edit.ofExcept, pure_bind, if_neg hargs, hmode]
  rw [run_bind, hrun]
  exact ⟨_, rfl⟩

theorem tree_leaves {word : String} {ignore : IgnoreMap} {results : List TreeResult}
    (hword : modeWord p config.mode = .ok word)
    (hignore : IgnoreMap.parse (p.texts "ignore") = .ok ignore) (hargs : p.args ≠ [])
    (hrun : (editTrees config (treeRun config g p ignore) word p.args).run ⟨fs, []⟩ =
      .ok results d) : ∃ stdout, (tree.edit config g p).run ⟨fs, []⟩ = .ok stdout d := by
  dsimp only [tree]
  rw [hword, hignore]
  simp only [Edit.ofExcept, pure_bind, if_neg hargs]
  rw [run_bind, hrun]
  exact ⟨_, rfl⟩

theorem file_refused (config : Config) (g : GlobalOptions) (p : Parsed) (fs : FileSystem) :
    Ensures (file.edit config g p) ⟨fs, []⟩ (fun _ _ => True)
      (fun cause d => cause.isConfig = true → RefusedInTurn file config g p fs d) := by
  refine Ensures.bind (ensures_ofExcept (fun word hword => ?_) fun _ _ _ => Or.inl rfl)
  refine Ensures.bind (ensures_ofExcept (fun ignore hignore => ?_) fun _ _ _ => Or.inl rfl)
  split
  · exact ensures_throw fun _ => Or.inl rfl
  · refine Ensures.bind (ensures_ofExcept (fun mode hmode => ?_) fun _ _ _ => Or.inl rfl)
    refine Ensures.bind ((editFiles_refused config ignore ⟨isDry g p, p.isOn "diff"⟩ mode p.args
      ⟨fs, []⟩).imp (fun _ _ _ => ensures_pure trivial) fun cause d hrefused hconfig => ?_)
    obtain ⟨before, refused, after, results, hargs, hbefore⟩ := hrefused hconfig
    by_cases hne : before = []
    · subst hne
      obtain ⟨-, rfl⟩ := EStateM.Result.ok.inj hbefore
      exact Or.inl rfl
    · exact Or.inr ⟨before, refused, after, hargs, hne, file_leaves hword hignore hne hmode hbefore⟩

theorem tree_refused_in_turn (config : Config) (g : GlobalOptions) (p : Parsed)
    (fs : FileSystem) : Ensures (tree.edit config g p) ⟨fs, []⟩ (fun _ _ => True)
      (fun cause d => cause.isConfig = true → RefusedInTurn tree config g p fs d) := by
  refine Ensures.bind (ensures_ofExcept (fun word hword => ?_) fun _ _ _ => Or.inl rfl)
  refine Ensures.bind (ensures_ofExcept (fun ignore hignore => ?_) fun _ _ _ => Or.inl rfl)
  split
  · exact ensures_throw fun _ => Or.inl rfl
  · refine Ensures.bind ((editTrees_refused config (treeRun config g p ignore) word p.args
      ⟨fs, []⟩).imp (fun _ _ _ => ensures_pure trivial) fun cause d hrefused hconfig => ?_)
    obtain ⟨before, refused, after, results, hargs, hbefore⟩ := hrefused hconfig
    by_cases hne : before = []
    · subst hne
      obtain ⟨-, rfl⟩ := EStateM.Result.ok.inj hbefore
      exact Or.inl rfl
    · exact Or.inr ⟨before, refused, after, hargs, hne, tree_leaves hword hignore hne hbefore⟩

/-! ## Commands with nothing before what is refused -/

theorem checkout_refused (config : Config) (g : GlobalOptions) (p : Parsed) (fs : FileSystem) :
    Ensures (checkout.edit config g p) ⟨fs, []⟩ (fun _ _ => True)
      (fun cause d => cause.isConfig = true → d.files.unread = fs.unread) := by
  refine Ensures.bind (ensures_ofExcept (fun word _ => ?_) fun _ _ _ => rfl)
  split
  · rename_i root _
    have hcheck : Preserves (fun d => d.files.unread) (checkCheckout root config.checkout) :=
      preserves_checkCheckout (fun _ _ h => h) _ _
    refine Ensures.bind (Ensures.bind ((hcheck ⟨fs, []⟩).imp (fun _ d' hunread => ?_)
      fun _ d' hunread _ => hunread))
    refine (Edit.tree_refused config _ d').imp (fun _ _ _ => ensures_pure trivial)
      fun cause d'' hrefused hconfig => ?_
    rw [hrefused hconfig]
    exact hunread
  · exact ensures_throw fun _ => rfl

theorem detect_refused (config : Config) (g : GlobalOptions) (p : Parsed) (fs : FileSystem) :
    Ensures (detect.edit config g p) ⟨fs, []⟩ (fun _ _ => True)
      (fun _ d => d.files.unread = fs.unread) := by
  dsimp only [detect]
  split
  · exact ensures_throw rfl
  · obtain ⟨fs', hgives, hunread⟩ := mapM_file_gives config p.args fs
    refine Ensures.bind ((hgives.ensures []).imp (fun _ _ _ => ensures_pure trivial)
      fun _ d hfiles => ?_)
    rw [hfiles]
    exact hunread

/-! ## The program -/

/-- **What a refused command has changed.**  If the program fails because of its settings
or arguments, then the files are as they were, or the command had several files or
trees to work on, and they are as the same command leaves them with the arguments before
the refused one. -/
theorem refused_in_turn {e : Error} (herror : (run argv fs).error = some e)
    (hconfig : e.isConfig = true) :
    (run argv fs).files.unread = fs.unread ∨
      ∃ c config g p fs' before refused after stdout d, Begins argv fs c config g p fs' ∧
        (c = file ∨ c = tree) ∧ p.args = before ++ refused :: after ∧ before ≠ [] ∧
        (c.edit config g { p with args := before }).run ⟨fs', []⟩ = .ok stdout d ∧
        (run argv fs).files = d.files := by
  rcases begins_or_unread argv fs with ⟨c, config, g, p, fs', hbegins⟩ | hunread
  · have hloaded := unread_of_loadConfig hbegins.loaded
    rw [hbegins.run_eq] at herror ⊢
    cases hrun : (c.edit config g p).run ⟨fs', []⟩ with
    | ok stdout d => rw [hrun] at herror; cases herror
    | error cause d =>
      rw [hrun] at herror
      obtain rfl := Option.some.inj herror
      have hturn : (c = file ∨ c = tree) → RefusedInTurn c config g p fs' d →
          d.files.unread = fs.unread ∨
            ∃ c config g p fs' before refused after stdout d', Begins argv fs c config g p fs' ∧
              (c = file ∨ c = tree) ∧ p.args = before ++ refused :: after ∧ before ≠ [] ∧
              (c.edit config g { p with args := before }).run ⟨fs', []⟩ = .ok stdout d' ∧
              d.files = d'.files := by
        rintro hc (hsame | ⟨before, refused, after, hargs, hne, stdout, hbefore⟩)
        · exact Or.inl (hsame.trans hloaded)
        · exact Or.inr ⟨c, config, g, p, fs', before, refused, after, stdout, d, hbegins, hc, hargs,
            hne, hbefore, rfl⟩
      have hmem := hbegins.mem_all
      simp only [all, List.mem_cons, List.not_mem_nil, or_false] at hmem
      rcases hmem with rfl | rfl | rfl | rfl
      · exact hturn (Or.inl rfl) ((file_refused config g p fs').of_error hrun hconfig)
      · exact hturn (Or.inr rfl) ((tree_refused_in_turn config g p fs').of_error hrun hconfig)
      · exact Or.inl (((checkout_refused config g p fs').of_error hrun hconfig).trans hloaded)
      · exact Or.inl (((detect_refused config g p fs').of_error hrun).trans hloaded)
  · exact Or.inl hunread

/-! ## A file that is edited before another one is refused -/

/-- A file that passes its checks is edited. -/
theorem file_gives_source {path : String} {mode : Mode} {ignore : IgnoreList} {loc : Location}
    {f : File} {options : EditOptions} (hcheck : ignore.check = .ok ())
    (hsuffix : config.suffix.toList.isSuffixOf path.toList = true)
    (hl : fs.locate path = .ok (.found loc (.file f))) :
    Gives (Edit.file config false path mode ignore options) fs
      (sourceResult path (Path.base path) mode ignore options f.bytes)
      (fs.putFile loc (fileAfter fs.now mode ignore options.dryRun f)) := by
  have hempty : path ≠ "" := by
    rintro rfl
    cases hl
  have hsource : fs.checkSource path config.suffix = .ok () := by
    rw [FileSystem.checkSource, if_neg hempty, hsuffix, FileSystem.stat, hl]
    rfl
  rw [Edit.file, hcheck]
  refine (gives_pure () fs).bind ((gives_files fs).bind ?_)
  rw [hsource]
  exact (gives_pure () fs).bind (source_gives_file hl)

theorem begins_late : Begins ["forward-edit", "file", "-a", "t/a.py", "t/b.txt"] templateFiles file
    .default ⟨false, false, ""⟩ ⟨[("add", "true")], ["t/a.py", "t/b.txt"]⟩ templateFiles where
  parsed := by
    refine ⟨"file", ["-a", "t/a.py", "t/b.txt"], Invocation.parse_command (by decide) rfl, rfl, ?_⟩
    have hflag : Flag.read? file.flags "-a" (some "t/a.py") =
        some (.ok ([("add", "true")], false)) := rfl
    rw [Flag.parse, Flag.parseFrom_flags (by decide) hflag, Bool.toNat_false, List.drop_zero,
      Flag.parseFrom_argument (by decide) rfl, Flag.parseFrom_argument (by decide) rfl,
      Flag.parseFrom]
    rfl
  loaded := rfl

/-- The first file of the command. -/
def lateSource : File := ⟨"class A:\n    pass\n".toUTF8, 0o644, 0, 0⟩

theorem locate_late :
    templateFiles.locate "t/a.py" = .ok (.found ["t", "a.py"] (.file lateSource)) :=
  FileSystem.locate_of_get? linkFree_template "t/a.py" ["t", "a.py"] (by decide +kernel) rfl

/-- The files once the first one is edited. -/
def lateFiles : FileSystem :=
  templateFiles.putFile ["t", "a.py"] (fileAfter templateFiles.now .add [] false lateSource)

theorem late_gives : Gives (file.edit .default ⟨false, false, ""⟩
    ⟨[("add", "true")], ["t/a.py", "t/b.txt"]⟩) templateFiles
      (.error (.config (.wrongSuffix "t/b.txt" ".py"))) lateFiles := by
  obtain ⟨c, hc⟩ := convert_add_ok (show IgnoreList.check [] = .ok () from rfl)
    "class A:\n    pass\n".toList
  have hfirst : ∃ r, Gives (Edit.file .default false "t/a.py" .add [] ⟨false, false⟩) templateFiles
      (.ok r) lateFiles := by
    have hgives : Gives (Edit.file .default false "t/a.py" .add [] ⟨false, false⟩) templateFiles _
        lateFiles := file_gives_source rfl (by decide) locate_late
    rw [sourceResult, lateSource, fromUTF8?_toUTF8] at hgives
    dsimp only at hgives
    rw [hc] at hgives
    exact ⟨_, hgives⟩
  obtain ⟨r, hfirst⟩ := hfirst
  have hsecond : Gives (Edit.file .default false "t/b.txt" r.mode [] ⟨false, false⟩) lateFiles
      (.error (.config (.wrongSuffix "t/b.txt" ".py"))) lateFiles :=
    (gives_pure () _).bind ((gives_files _).bind ((gives_throw _ _).bind_error _))
  refine (gives_pure "add" _).bind ((gives_pure [] _).bind ((gives_pure Mode.add _).bind ?_))
  exact Gives.bind_error (hfirst.bind (Gives.bind_error (hsecond.bind_error _) _)) _

theorem run_late : ∃ trace,
    run ["forward-edit", "file", "-a", "t/a.py", "t/b.txt"] templateFiles =
      ⟨"", shownTrace false trace, some (.config (.wrongSuffix "t/b.txt" ".py")), lateFiles⟩ := by
  obtain ⟨trace, hrun⟩ := late_gives []
  rw [begins_late.run_eq, hrun]
  exact ⟨trace, rfl⟩

/-- The new bytes of the first file show, whoever has read it. -/
theorem unread_late : lateFiles.unread ≠ templateFiles.unread := by
  intro hunread
  have hat := FileSystem.at?_of_locate locate_late
  have hsame : lateFiles.unread.at? ["t", "a.py"] = templateFiles.unread.at? ["t", "a.py"] := by
    rw [hunread]
  rw [FileSystem.at?_unread, FileSystem.at?_unread, lateFiles, FileSystem.at?_putFile hat,
    if_pos rfl, hat] at hsame
  have hbytes := congrArg File.bytes (Node.file.inj (Option.some.inj hsame))
  exact absurd ((bytes_fileAfter templateFiles.now .add [] false lateSource).symm.trans hbytes)
    (by decide +kernel)

/-- **A command can be refused after it has changed a file.**  The second file has no
name of a source file, which is found out when the first one is already written. -/
theorem refused_late :
    let argv := ["forward-edit", "file", "-a", "t/a.py", "t/b.txt"]
    (run argv templateFiles).error = some (.config (.wrongSuffix "t/b.txt" ".py")) ∧
      (run argv templateFiles).files.unread ≠ templateFiles.unread := by
  intro argv
  obtain ⟨trace, hrun⟩ := run_late
  rw [hrun]
  exact ⟨rfl, unread_late⟩

/-- The same files are left by the command without the file that is refused. -/
theorem refused_in_turn_late :
    ∃ c config g p fs' before refused after stdout d,
      Begins ["forward-edit", "file", "-a", "t/a.py", "t/b.txt"] templateFiles c config g p fs' ∧
        (c = file ∨ c = tree) ∧ p.args = before ++ refused :: after ∧ before ≠ [] ∧
        (c.edit config g { p with args := before }).run ⟨fs', []⟩ = .ok stdout d ∧
        lateFiles = d.files := by
  obtain ⟨trace, hrun⟩ := run_late
  have hturn := refused_in_turn (congrArg Outcome.error hrun) rfl
  rw [hrun] at hturn
  exact hturn.resolve_left unread_late

end Command
end ForwardDecl
