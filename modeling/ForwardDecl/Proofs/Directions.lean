import ForwardDecl.Proofs.Commands
import ForwardDecl.Proofs.Postconditions
import ForwardDecl.Proofs.RoundTrip
import ForwardDecl.Proofs.TreeEdits

/-! # One direction in a command

A command carries a mode from file to file and from root to root.  A toggle may be
carried for a while; once the mode is to add or to remove, it stays.  The modes can be
seen in what a command tells: each file and each root is entered with the mode that is
carried then, and each file that is modified is told of with the direction that was
taken.  `Told` is the invariant of a command, and whatever an edit tells, it keeps it,
also when it fails.
-/
namespace ForwardDecl

/-! ## Modes that are carried -/

/-- A mode can follow another one: only a toggle can be given up. -/
def Mode.Keeps (a b : Mode) : Prop := a ≠ .toggle → b = a

theorem Mode.Keeps.refl (a : Mode) : a.Keeps a := fun _ => rfl

theorem Mode.Keeps.trans {a b c : Mode} (hab : a.Keeps b) (hbc : b.Keeps c) : a.Keeps c := by
  intro ha
  have hb := hab ha
  rw [← hb] at ha ⊢
  exact hbc ha

/-- The mode that an event shows.  That a toggle is resolved for one file says nothing
of the files after it, because the file may still turn out to be malformed. -/
def Event.mode? : Event → Option Mode
  | fileEntered _ mode _ => some mode
  | fileModified _ _ mode => some mode
  | treeEntered _ mode _ _ _ => some mode
  | treeLeft mode _ _ => some mode
  | _ => none

/-- The modes that events show, in order. -/
def modesTold (events : List Event) : List Mode := events.filterMap Event.mode?

/-- After a command that was asked for a mode has told of some events, it carries
another one.  No mode in between was given up but toggling, and nothing was modified
while toggling. -/
structure Told (asked carried : Mode) (events : List Event) : Prop where
  steady : (asked :: modesTold events ++ [carried]).Pairwise Mode.Keeps
  settled : ∀ path n mode, .fileModified path n mode ∈ events → mode ≠ .toggle

namespace Told
variable {asked carried next : Mode} {events : List Event}

theorem start (mode : Mode) : Told mode mode [] where
  steady := List.pairwise_pair.mpr (.refl mode)
  settled := fun _ _ _ h => nomatch h

theorem keeps (h : Told asked carried events) (hnext : carried.Keeps next) :
    Told asked next events where
  steady := by
    obtain ⟨hbefore, -, hlast⟩ := List.pairwise_append.mp h.steady
    refine List.pairwise_append.mpr ⟨hbefore, List.pairwise_singleton _ _, fun a ha b hb => ?_⟩
    rw [List.mem_singleton.mp hb]
    exact (hlast a ha carried (List.mem_singleton_self _)).trans hnext
  settled := h.settled

/-- A conversion shows no mode that is carried. -/
theorem quiet (h : Told asked carried events) {more : List Event} (hmore : modesTold more = []) :
    Told asked carried (events ++ more) where
  steady := by
    rw [modesTold, List.filterMap_append, ← modesTold, ← modesTold, hmore, List.append_nil]
    exact h.steady
  settled := by
    intro path n mode hmem
    rcases List.mem_append.mp hmem with hmem | hmem
    · exact h.settled path n mode hmem
    · rw [modesTold, List.filterMap_eq_nil_iff] at hmore
      cases hmore _ hmem

theorem tell (h : Told asked carried events) {e : Event} (hmode : e.mode? = some carried)
    (hsettled : ∀ path n mode, e = .fileModified path n mode → mode ≠ .toggle) :
    Told asked carried (events ++ [e]) where
  steady := by
    have hmore : modesTold (events ++ [e]) = modesTold events ++ [carried] := by
      rw [modesTold, List.filterMap_append, List.filterMap_cons_some hmode]
      rfl
    rw [hmore, ← List.cons_append]
    refine List.pairwise_append.mpr ⟨h.steady, List.pairwise_singleton _ _, fun a ha b hb => ?_⟩
    rw [List.mem_singleton.mp hb]
    rcases List.mem_append.mp ha with ha | ha
    · exact (List.pairwise_append.mp h.steady).2.2 a ha carried (List.mem_singleton_self _)
    · rw [List.mem_singleton.mp ha]
      exact .refl carried
  settled := by
    intro path n mode hmem
    rcases List.mem_append.mp hmem with hmem | hmem
    · exact h.settled path n mode hmem
    · exact hsettled path n mode (List.mem_singleton.mp hmem).symm

end Told

/-! ## Conversions -/

section
variable {mode : Mode} {ignore : IgnoreList} {text : List Char} {c : Converted}

namespace Pass

@[simp] theorem modesTold_tell (events : List Event) (p : Pass) :
    modesTold (p.tell events).events = modesTold events ++ modesTold p.events :=
  List.filterMap_append

@[simp] theorem events_keep (l : Line) (p : Pass) : (p.keep l).events = p.events :=
  emit_events _ _ p

@[simp] theorem events_drop (p : Pass) : p.drop.events = p.events := emit_events _ _ p

@[simp] theorem modesTold_bar (mode : Mode) (reason : SkipReason) (number : Nat) (l : Line) :
    modesTold (bar mode reason number l).events = [] := by
  rw [bar, modesTold_tell]
  split <;> rfl

theorem modesTold_add (ignore : IgnoreList) (read : Nat) (ls : List Line) :
    modesTold (add ignore read ls).events = [] := by
  fun_induction add ignore read ls with
  | case1 => rfl
  | case2 => simp [*]
  | case3 => simp
  | case4 => simp [*]
  | case5 => rfl
  | case6 => simp [*]
  | case7 => simp [*]; rfl
  | case8 => simp [*]; rfl

theorem modesTold_remove (read : Nat) (site : Site) (ls : List Line) :
    modesTold (remove read site ls).events = [] := by
  fun_induction remove read site ls with
  | case1 => rfl
  | case2 => rfl
  | case3 => simp [*]
  | case4 => simp [*]
  | case5 => simp
  | case6 => simp [*]; rfl
  | case7 => simp [*]
  | case8 => simp [*]
  | case9 => simp [*]; rfl
  | case10 => rfl
  | case11 => simp [*]; rfl
  | case12 => simp [*]

theorem modesTold_toggle (ignore : IgnoreList) (read : Nat) (ls : List Line) :
    modesTold (toggle ignore read ls).events = [] := by
  fun_induction toggle ignore read ls with
  | case1 => rfl
  | case2 => simp [*]
  | case3 => simp
  | case4 => rw [modesTold_tell, modesTold_add]; rfl
  | case5 => rw [modesTold_tell, modesTold_remove]; rfl
  | case6 => rw [modesTold_tell, modesTold_remove]; rfl
  | case7 => simp [*]

end Pass

theorem modesTold_conversionEvents (mode : Mode) (ignore : IgnoreList) (text : List Char) :
    modesTold (conversionEvents mode ignore text) = [] := by
  have hpass : modesTold (Pass.run mode ignore (splitLines text)).events = [] := by
    cases mode with
    | add => exact Pass.modesTold_add ignore 0 _
    | remove => exact Pass.modesTold_remove 0 .outside _
    | toggle => exact Pass.modesTold_toggle ignore 0 _
  rw [conversionEvents]
  split
  · rfl
  · dsimp only
    rw [modesTold, List.filterMap_append, ← modesTold, hpass, List.nil_append]
    cases (Pass.run mode ignore (splitLines text)).ending <;> rfl

/-- A conversion keeps its direction. -/
theorem keeps_of_convert (h : convert mode ignore text = .ok c) : mode.Keeps c.mode := by
  intro hmode
  cases mode with
  | toggle => exact absurd rfl hmode
  | add => exact mode_of_convert_add h
  | remove => exact Pass.remove_mode (convert_eq_ok_iff.mp h).2.mode?_eq

/-- What is modified is modified in a direction. -/
theorem direction_of_convert (h : convert mode ignore text = .ok c) (hm : c.modifications ≠ 0) :
    c.mode ≠ .toggle := by
  intro htoggle
  cases mode with
  | toggle => exact hm (toggle_unresolved h htoggle).1
  | add =>
    rw [keeps_of_convert h (by decide)] at htoggle
    cases htoggle
  | remove =>
    rw [keeps_of_convert h (by decide)] at htoggle
    cases htoggle

end

namespace Edit

/-- Installing the module tells nothing of itself. -/
theorem preserves_install (root templatePath : String) (dryRun : Bool) :
    Preserves Desk.trace (SupportModule.install root templatePath dryRun) :=
  SupportModule.install_of_compositional (compositional_preserves fun _ _ _ => rfl)
    (fun _ _ => ensures_setFiles rfl) preserves_fileCall root templatePath dryRun

/-! ## Editing files and trees -/

section
variable {asked mode : Mode} {d : Desk}

theorem ConversionTold.quiet {ignore : IgnoreList} {events : List Event}
    (h : ConversionTold mode ignore events) : modesTold events = [] := by
  rcases h with rfl | ⟨text, rfl⟩
  · rfl
  · exact modesTold_conversionEvents mode ignore text

theorem SourceDone.direction {path : String} {ignore : IgnoreList} {options : EditOptions}
    {r : FileResult} {d' : Desk} (hdone : SourceDone path mode ignore options d r d')
    (h : Told asked mode d.trace) : mode.Keeps r.mode ∧ Told asked r.mode d'.trace := by
  obtain ⟨⟨text, c, hconv, hmode, -, htrace⟩, -⟩ := hdone
  have hentered : Told asked mode (d.trace ++ [.fileEntered path mode ignore.render]) :=
    h.tell rfl (by intro _ _ _ he; cases he)
  have hkeeps := keeps_of_convert hconv
  have hconverted := (hentered.quiet (modesTold_conversionEvents mode ignore text)).keeps hkeeps
  rw [hmode, htrace]
  refine ⟨hkeeps, ?_⟩
  split
  · rwa [List.append_nil]
  · rename_i hm
    refine hconverted.tell rfl fun _ _ _ he => ?_
    obtain ⟨-, -, rfl⟩ := Event.fileModified.inj he
    exact direction_of_convert hconv hm

/-- A result with modifications has been told of. -/
theorem SourceDone.mem_trace {path : String} {ignore : IgnoreList} {options : EditOptions}
    {r : FileResult} {d' : Desk} (hdone : SourceDone path mode ignore options d r d')
    (hm : r.modifications ≠ 0) : .fileModified path r.modifications r.mode ∈ d'.trace := by
  obtain ⟨⟨text, c, -, hmode, hmods, htrace⟩, -⟩ := hdone
  rw [hmods] at hm ⊢
  rw [hmode, htrace, if_neg hm]
  exact List.mem_append_right _ (List.mem_singleton_self _)

theorem SourceFailed.direction {path : String} {ignore : IgnoreList} {cause : Error} {d' : Desk}
    (hfailed : SourceFailed path mode ignore d cause d') (h : Told asked mode d.trace) :
    Told asked mode d'.trace := by
  obtain ⟨⟨events, hevents, htrace⟩, -⟩ := hfailed
  have hentered : Told asked mode (d.trace ++ [.fileEntered path mode ignore.render]) :=
    h.tell rfl (by intro _ _ _ he; cases he)
  rw [htrace]
  exact hentered.quiet hevents.quiet

/-- **Editing one more file of a tree keeps the direction**, whether the file is edited,
skipped or failed. -/
theorem item_told (run : TreeRun) (i : ScanItem) (r : TreeResult) (h : Told asked r.mode d.trace) :
    Ensures (item run false r i) d (fun r' d' => Told asked r'.mode d'.trace)
      (fun _ d' => ∃ carried, Told asked carried d'.trace) := by
  have hfail : ∀ d' cause, Told asked r.mode d'.trace →
      Ensures (fail r i.file.relPath cause) d' (fun r' d' => Told asked r'.mode d'.trace)
        (fun _ d' => ∃ carried, Told asked carried d'.trace) := fun d' cause h =>
    Ensures.bind (ensures_tell (ensures_pure (h.quiet rfl)))
  rw [item]
  dsimp only
  cases i.failure with
  | some cause => exact hfail d cause h
  | none =>
    dsimp only
    split
    · exact ensures_pure h
    · refine Ensures.bind (Ensures.attempt ((ensures_source _ _ _ _ _ d).imp ?_ ?_))
      · intro result d' hdone
        obtain ⟨hkeeps, htold⟩ := hdone.direction h
        refine ensures_pure ?_
        show Told asked (TreeResult.carry r.mode result.mode) d'.trace
        rw [TreeResult.carry]
        split
        · exact htold
        · rename_i hmode
          rwa [← hkeeps hmode]
      · intro cause d' hfailed
        have htold := hfailed.direction h
        dsimp only
        split
        · exact Ensures.bind (ensures_tell (ensures_pure (htold.quiet rfl)))
        · split
          · exact hfail d' cause htold
          · exact ensures_throw ⟨_, htold⟩

theorem installFor_told (config : Config) (run : TreeRun) (mode : Mode)
    (h : Told asked mode d.trace) :
    Ensures (installFor config run mode) d (fun _ d' => Told asked mode d'.trace)
      (fun _ d' => Told asked mode d'.trace) := by
  rw [installFor]
  split
  · refine Ensures.bind ((preserves_install _ _ _ d).imp (fun installed d' htrace => ?_)
      fun _ d' htrace => by rwa [htrace])
    have h' : Told asked mode d'.trace := by rwa [htrace]
    cases installed with
    | true => exact Ensures.bind (ensures_tell (ensures_pure (h'.quiet rfl)))
    | false => exact ensures_pure h'
  · exact ensures_pure h

/-- **A run over a tree keeps the direction**, and leaves it to the next one. -/
theorem tree_told (config : Config) {run : TreeRun} (hrun : run.mode = mode.name)
    (h : Told asked mode d.trace) :
    Ensures (tree config false run) d (fun r d' => Told asked r.mode d'.trace)
      (fun _ d' => ∃ carried, Told asked carried d'.trace) := by
  refine Ensures.bind (ensures_ofExcept (fun mode' hcheck => ?_) fun _ _ => ⟨_, h⟩)
  have hmode : mode' = mode := by
    have hname := (check_eq_ok_iff.mp hcheck).2.1
    rw [hrun, Mode.ofName, Mode.ofName?_name] at hname
    exact (Except.ok.inj hname).symm
  subst hmode
  refine Ensures.bind (ensures_files (Ensures.bind ?_))
  refine ensures_ofExcept (fun _ _ => ?_) fun _ _ => ⟨_, h⟩
  refine Ensures.bind (ensures_tell (Ensures.bind ?_))
  have hentered : Told asked mode' (d.trace ++ [.treeEntered run.root mode' run.ignoreDirs
      run.ignoreFiles run.installRuntime]) := h.tell rfl (by intro _ _ _ he; cases he)
  refine (installFor_told config run mode' hentered).imp (fun installed d₁ h₁ => ?_)
    fun _ _ h => ⟨_, h⟩
  refine Ensures.bind ((ensures_explore (fun r i d => item_told run i r) _ _ _ _ h₁).imp
    (fun r d₂ h₂ => ?_) fun _ _ h => h)
  refine Ensures.bind (ensures_tell (ensures_pure ?_))
  exact h₂.tell rfl (by intro _ _ _ he; cases he)

end
end Edit

/-! ## Commands -/

namespace Command
open Edit
variable {argv : List String} {fs fs' : FileSystem} {c : Command} {config : Config}
  {g : GlobalOptions} {p : Parsed} {asked mode : Mode} {d : Desk}

/-- An edit of a command that was asked for a mode: whether it fails or not, it has
kept its direction. -/
def KeepsDirection {α : Type} (asked : Mode) (e : Edit α) (d : Desk) : Prop :=
  Ensures e d (fun _ d' => ∃ carried, Told asked carried d'.trace)
    (fun _ d' => ∃ carried, Told asked carried d'.trace)

/-- A file takes over what the files before it have settled. -/
theorem editFiles_told (config : Config) (ignore : IgnoreList) (options : EditOptions)
    (paths : List String) (h : Told asked mode d.trace) :
    KeepsDirection asked (editFiles config ignore options mode paths) d := by
  rw [editFiles_eq_inTurn]
  refine ensures_inTurn (I := fun mode d => Told asked mode d.trace) (fun mode path d h => ?_)
    paths h
  refine (ensures_file config path mode ignore options d).imp
    (fun r d₁ hdone => (hdone.direction h).2) ?_
  rintro cause d₁ (rfl | ⟨hfailed, -⟩)
  · exact ⟨_, h⟩
  · exact ⟨_, hfailed.direction h⟩

/-- A tree takes over what the trees before it have settled. -/
theorem editTrees_told (config : Config) {run : (root mode : String) → TreeRun}
    (hrun : ∀ root word, (run root word).mode = word) (roots : List String)
    (h : Told asked mode d.trace) :
    KeepsDirection asked (editTrees config run mode.name roots) d := by
  have hstep : ∀ word root d, (∃ mode : Mode, word = mode.name ∧ Told asked mode d.trace) →
      Ensures (Edit.tree config false (run root word)) d
        (fun r d' => ∃ mode : Mode, r.mode.name = mode.name ∧ Told asked mode d'.trace)
        (fun _ d' => ∃ carried, Told asked carried d'.trace) := by
    rintro _ root d ⟨mode, rfl, h⟩
    exact (tree_told config (hrun root mode.name) h).imp (fun r _ h => ⟨r.mode, rfl, h⟩)
      fun _ _ h => h
  rw [editTrees_eq_inTurn]
  refine (ensures_inTurn hstep roots ⟨mode, rfl, h⟩).imp ?_ fun _ _ h => h
  rintro _ d' ⟨_, carried, -, h⟩
  exact ⟨carried, h⟩

theorem file_keeps (hasked : modeWord p config.mode = .ok asked.name) (g : GlobalOptions)
    (fs : FileSystem) : KeepsDirection asked (file.edit config g p) ⟨fs, []⟩ := by
  have hstart : ∃ carried, Told asked carried [] := ⟨_, .start asked⟩
  refine Ensures.bind (ensures_ofExcept (fun word hword => ?_) fun _ _ => hstart)
  obtain rfl := Except.ok.inj (hword.symm.trans hasked)
  refine Ensures.bind (ensures_ofExcept (fun ignore _ => ?_) fun _ _ => hstart)
  split
  · exact ensures_throw hstart
  · refine Ensures.bind (ensures_ofExcept (fun mode hmode => ?_) fun _ _ => hstart)
    rw [Mode.ofName, Mode.ofName?_name] at hmode
    obtain rfl := Except.ok.inj hmode
    refine Ensures.bind ((editFiles_told config ignore _ p.args ?_).imp
      (fun _ _ h => ensures_pure h) fun _ _ h => h)
    exact .start asked

theorem tree_keeps (hasked : modeWord p config.mode = .ok asked.name) (g : GlobalOptions)
    (fs : FileSystem) : KeepsDirection asked (tree.edit config g p) ⟨fs, []⟩ := by
  have hstart : ∃ carried, Told asked carried [] := ⟨_, .start asked⟩
  refine Ensures.bind (ensures_ofExcept (fun word hword => ?_) fun _ _ => hstart)
  obtain rfl := Except.ok.inj (hword.symm.trans hasked)
  refine Ensures.bind (ensures_ofExcept (fun ignore _ => ?_) fun _ _ => hstart)
  split
  · exact ensures_throw hstart
  · refine Ensures.bind ((editTrees_told config (fun _ _ => rfl) p.args ?_).imp
      (fun _ _ h => ensures_pure h) fun _ _ h => h)
    exact .start asked

theorem checkout_keeps (hasked : modeWord p config.mode = .ok asked.name) (g : GlobalOptions)
    (fs : FileSystem) : KeepsDirection asked (checkout.edit config g p) ⟨fs, []⟩ := by
  have hstart : Told asked asked [] := .start asked
  refine Ensures.bind (ensures_ofExcept (fun word hword => ?_) fun _ _ => ⟨_, hstart⟩)
  obtain rfl := Except.ok.inj (hword.symm.trans hasked)
  split
  · rename_i root _
    have hcheck : Preserves Desk.trace (checkCheckout root config.checkout) :=
      preserves_checkCheckout (fun _ _ _ => rfl) _ _
    refine Ensures.bind (Ensures.bind ((hcheck _).imp (fun _ d' htrace => ?_)
      fun _ d' htrace => ⟨asked, by rw [htrace]; exact hstart⟩))
    have htree : ∀ run : TreeRun, run.mode = asked.name → Ensures (Edit.tree config false run) d'
        (fun r d'' => Told asked r.mode d''.trace)
        (fun _ d'' => ∃ carried, Told asked carried d''.trace) := fun run hrun =>
      Edit.tree_told config hrun (by rw [htrace]; exact hstart)
    exact (htree _ rfl).imp (fun _ _ h => ensures_pure ⟨_, h⟩) fun _ _ h => h
  · exact ensures_throw ⟨_, hstart⟩

/-- The mode that a command is asked for is a mode, or there is more than one. -/
theorem modeWord_cases (h : Begins argv fs c config g p fs') :
    (∃ asked : Mode, modeWord p config.mode = .ok asked.name) ∨
      ∃ cause, modeWord p config.mode = .error cause := by
  rw [modeWord]
  split
  · obtain ⟨mode, hmode⟩ := mode_of_loadConfig h.loaded
    exact Or.inl ⟨mode, congrArg _ hmode⟩
  · exact Or.inl ⟨_, rfl⟩
  · exact Or.inr ⟨_, rfl⟩

/-- **What a command tells is in one direction**, whatever mode it was asked for. -/
theorem exists_told (h : Begins argv fs c config g p fs')
    (hc : c = file ∨ c = tree ∨ c = checkout) : ∃ asked carried,
      (∀ mode : Mode, modeWord p config.mode = .ok mode.name → mode = asked) ∧
        Told asked carried (c.told config g p fs') := by
  rcases modeWord_cases h with ⟨asked, hasked⟩ | ⟨cause, hcause⟩
  · have hkeeps : KeepsDirection asked (c.edit config g p) ⟨fs', []⟩ := by
      rcases hc with rfl | rfl | rfl
      · exact file_keeps hasked g fs'
      · exact tree_keeps hasked g fs'
      · exact checkout_keeps hasked g fs'
    have htold : ∃ carried, Told asked carried (c.told config g p fs') := by
      rw [told]
      cases hrun : (c.edit config g p).run ⟨fs', []⟩ with
      | ok stdout d => exact hkeeps.of_ok hrun
      | error cause d => exact hkeeps.of_error hrun
    obtain ⟨carried, htold⟩ := htold
    refine ⟨asked, carried, fun mode hmode => ?_, htold⟩
    have hname := Except.ok.inj (hmode.symm.trans hasked)
    have := congrArg Mode.ofName? hname
    rw [Mode.ofName?_name, Mode.ofName?_name] at this
    exact Option.some.inj this
  · -- the command fails before it tells anything
    have hnothing : c.told config g p fs' = [] := by
      have hedit : (c.edit config g p).run ⟨fs', []⟩ = .error cause ⟨fs', []⟩ := by
        rcases hc with rfl | rfl | rfl
        all_goals
          dsimp only [file, tree, checkout]
          rw [hcause]
          rfl
      rw [told, hedit]
    refine ⟨.toggle, .toggle, fun mode hmode => ?_, ?_⟩
    · rw [hcause] at hmode
      cases hmode
    · rw [hnothing]
      exact .start .toggle

/-- **A command never edits in both directions.**  All files that it modifies before it
ends or fails are modified in one direction, which is the one that it was asked for
unless that is to toggle.  Once a mode other than toggling is carried, every mode that is
told of later is the same.  No result that shows a file modified is left untold. -/
theorem one_direction (h : Begins argv fs c config g p fs')
    (hc : c = file ∨ c = tree ∨ c = checkout) :
    (∀ path name mode ignore options d r d',
      (source false path name mode ignore options).run d = .ok r d' → r.modifications ≠ 0 →
      .fileModified path r.modifications r.mode ∈ d'.trace) ∧
    (run argv fs).stderr = shownTrace g.verbose (c.told config g p fs') ∧
    (∃ direction : Mode, direction ≠ .toggle ∧
      (∀ path n mode, .fileModified path n mode ∈ c.told config g p fs' → mode = direction) ∧
      ∀ asked : Mode, modeWord p config.mode = .ok asked.name → asked ≠ .toggle →
        direction = asked) ∧
    (modesTold (c.told config g p fs')).Pairwise fun earlier later =>
      earlier ≠ .toggle → later = earlier := by
  obtain ⟨asked, carried, hasked, htold⟩ := exists_told h hc
  obtain ⟨hbefore, -, hlast⟩ := List.pairwise_append.mp htold.steady
  -- every mode that was carried is the last one, or toggling
  have hcarried : ∀ mode ∈ asked :: modesTold (c.told config g p fs'), mode ≠ .toggle →
      carried = mode := fun mode hmem => hlast mode hmem carried (List.mem_singleton_self _)
  refine ⟨fun path name mode ignore options d r d' hrun => ?_, h.stderr_eq,
    ⟨if carried = .toggle then .add else carried, ?_, ?_, ?_⟩, (List.pairwise_cons.mp hbefore).2⟩
  · exact ((ensures_source path name mode ignore options d).of_ok hrun).mem_trace
  · split
    · decide
    · assumption
  · intro path n mode hmem
    have hmode := htold.settled path n mode hmem
    have hmodes : mode ∈ modesTold (c.told config g p fs') :=
      List.mem_filterMap.mpr ⟨_, hmem, rfl⟩
    have heq := hcarried mode (List.mem_cons_of_mem _ hmodes) hmode
    rw [heq, if_neg hmode]
  · intro mode hmode hne
    obtain rfl := hasked mode hmode
    rw [hcarried mode List.mem_cons_self hne, if_neg hne]

theorem begins_removing : Begins ["forward-edit", "tree", "-r", "t"] mixedFiles tree .default
    ⟨false, false, ""⟩ ⟨[("remove", "true")], ["t"]⟩ mixedFiles where
  parsed := by
    refine ⟨"tree", ["-r", "t"], Invocation.parse_command (by decide) rfl, rfl, ?_⟩
    have hflag : Flag.read? tree.flags "-r" (some "t") = some (.ok ([("remove", "true")], false)) :=
      rfl
    rw [Flag.parse, Flag.parseFrom_flags (by decide) hflag, Bool.toNat_false, List.drop_zero,
      Flag.parseFrom_argument (by decide) rfl, Flag.parseFrom]
    rfl
  loaded := rfl

theorem one_direction_removing :
    Begins ["forward-edit", "tree", "-r", "t"] mixedFiles tree .default ⟨false, false, ""⟩
      ⟨[("remove", "true")], ["t"]⟩ mixedFiles ∧
    ∀ path n mode, .fileModified path n mode ∈ tree.told .default ⟨false, false, ""⟩
      ⟨[("remove", "true")], ["t"]⟩ mixedFiles → mode = .remove := by
  refine ⟨begins_removing, fun path n mode h => ?_⟩
  obtain ⟨-, -, ⟨direction, -, hall, hasked⟩, -⟩ :=
    one_direction begins_removing (Or.inr (Or.inl rfl))
  rw [hall path n mode h]
  exact hasked .remove (by decide) (by decide)

end Command
end ForwardDecl
