import ForwardDecl.Command.Basic
import ForwardDecl.Proofs.Postconditions

/-! # How a command begins and goes on

A command line is read and the configuration is loaded before a command does anything.
`Command.Begins` says that this went well; the run of the program is then what the command
does (`Command.Begins.run_eq`).  Up to there at most the configuration file was read,
which is all that happens if no command begins (`Command.begins_or_unread`).

A command with several arguments then works on one after the other (`Command.inTurn`),
so that what each edit keeps all of them keep (`Command.ensures_inTurn`), and where one
is refused those before it are done (`Command.inTurn_refused`).
-/
namespace ForwardDecl

/-! ## Reading a command line -/

namespace Flag
variable {flags : List Flag} {acc : Parsed} {arg : String} {rest : List String}

theorem parseFrom_flags {interspersed taken : Bool} {found : List (String × String)}
    (hne : arg ≠ "--") (h : read? flags arg rest.head? = some (.ok (found, taken))) :
    parseFrom flags interspersed acc (arg :: rest) =
      parseFrom flags interspersed { acc with settings := acc.settings ++ found }
        (rest.drop taken.toNat) := by
  rw [parseFrom, if_neg hne, h]

theorem parseFrom_argument (hne : arg ≠ "--") (h : read? flags arg rest.head? = none) :
    parseFrom flags true acc (arg :: rest) =
      parseFrom flags true { acc with args := acc.args ++ [arg] } rest := by
  rw [parseFrom, if_neg hne, h]
  rfl

theorem parseFrom_first (hne : arg ≠ "--") (h : read? flags arg rest.head? = none) :
    parseFrom flags false acc (arg :: rest) =
      .ok { acc with args := acc.args ++ arg :: rest } := by
  rw [parseFrom, if_neg hne, h]
  rfl

end Flag

/-- Without options the first word after the program is the name of the command. -/
theorem Invocation.parse_command {program name : String} {args : List String}
    (hne : name ≠ "--") (h : Flag.read? flags name args.head? = none) :
    parse (program :: name :: args) = .ok (.command ⟨false, false, ""⟩ name args) := by
  rw [parse, Flag.parse, Flag.parseFrom_first hne h]
  rfl

namespace Command
variable {argv : List String} {fs fs' : FileSystem} {c : Command} {config : Config}
  {g : GlobalOptions} {p : Parsed}

/-- The command line asks for the command `c` with the options `g` and `p`, and the
configuration is there.  The files are then `fs'`. -/
structure Begins (argv : List String) (fs : FileSystem) (c : Command) (config : Config)
    (g : GlobalOptions) (p : Parsed) (fs' : FileSystem) : Prop where
  parsed : ∃ name args, Invocation.parse argv = .ok (.command g name args) ∧
    all.find? (·.name = name) = some c ∧ Flag.parse c.flags true args = .ok p
  loaded : loadConfig fs g.config = .ok (config, fs')

/-- **A run of the program is what its command does.** -/
theorem Begins.run_eq (h : Begins argv fs c config g p fs') : run argv fs =
    match (c.edit config g p).run ⟨fs', []⟩ with
    | .ok stdout desk => ⟨stdout, shownTrace g.verbose desk.trace, none, desk.files⟩
    | .error e desk => ⟨"", shownTrace g.verbose desk.trace, some e, desk.files⟩ := by
  obtain ⟨⟨name, args, hargv, hname, hargs⟩, hload⟩ := h
  rw [run, hargv]
  dsimp only
  rw [hload]
  dsimp only
  rw [hname]
  dsimp only
  rewrite [runWith, hargs]
  rfl

/-- What a command has told when it ends, or fails. -/
def told (c : Command) (config : Config) (g : GlobalOptions) (p : Parsed) (fs : FileSystem) :
    List Event :=
  match (c.edit config g p).run ⟨fs, []⟩ with
  | .ok _ desk => desk.trace
  | .error _ desk => desk.trace

theorem Begins.stderr_eq (h : Begins argv fs c config g p fs') :
    (run argv fs).stderr = shownTrace g.verbose (c.told config g p fs') := by
  rw [h.run_eq, told]
  cases (c.edit config g p).run ⟨fs', []⟩ <;> rfl

/-- A command that begins is one of the four. -/
theorem Begins.mem_all (h : Begins argv fs c config g p fs') : c ∈ all := by
  obtain ⟨⟨name, args, -, hname, -⟩, -⟩ := h
  exact List.mem_of_find?_eq_some hname

theorem mode_of_check (h : config.check = .ok ()) : ∃ mode : Mode, config.mode = mode.name := by
  rw [Config.check] at h
  split at h
  · cases h
  · cases hmode : Mode.ofName config.mode with
    | error cause => rw [hmode] at h; cases h
    | ok mode =>
      rw [Mode.ofName] at hmode
      split at hmode
      · rename_i mode' hname
        exact ⟨mode', Mode.ofName?_eq_some_iff.mp hname⟩
      · cases hmode

theorem mode_of_ofBytes {path : String} {bytes : ByteArray}
    (h : Config.ofBytes path bytes = .ok config) : ∃ mode : Mode, config.mode = mode.name := by
  rw [Config.ofBytes] at h
  cases hdoc : Config.ofDocumentBytes bytes with
  | error problem => rw [hdoc] at h; cases h
  | ok config' =>
    rw [hdoc] at h
    change (config'.check >>= fun _ => pure config') = _ at h
    cases hcheck : config'.check with
    | error cause => rw [hcheck] at h; cases h
    | ok u =>
      rw [hcheck] at h
      obtain rfl := Except.ok.inj h
      exact mode_of_check hcheck

/-- A configuration that was loaded is the default one, or it was read from a file. -/
theorem loadConfig_cases {path : String} (h : loadConfig fs path = .ok (config, fs')) :
    (config = .default ∧ fs' = fs) ∨
      ∃ bytes, fs.read path = .ok (bytes, fs') ∧ Config.ofBytes path bytes = .ok config := by
  rw [loadConfig, inContext, Config.load] at h
  split at h
  · obtain ⟨rfl, rfl⟩ := Prod.mk.inj (Except.ok.inj h)
    exact Or.inl ⟨rfl, rfl⟩
  · split at h
    · cases h
    · rename_i bytes fs₁ hread
      cases hbytes : Config.ofBytes path bytes with
      | error cause => rw [hbytes] at h; cases h
      | ok config' =>
        rw [hbytes] at h
        obtain ⟨rfl, rfl⟩ := Prod.mk.inj (Except.ok.inj h)
        exact Or.inr ⟨bytes, hread, hbytes⟩

/-- Loading the configuration reads a file, at most. -/
theorem unread_of_loadConfig {path : String} (h : loadConfig fs path = .ok (config, fs')) :
    fs'.unread = fs.unread := by
  obtain ⟨-, rfl⟩ | ⟨bytes, hread, -⟩ := loadConfig_cases h
  · rfl
  · exact FileSystem.unread_of_read hread

/-- A configuration that was loaded has a mode. -/
theorem mode_of_loadConfig {path : String} (h : loadConfig fs path = .ok (config, fs')) :
    ∃ mode : Mode, config.mode = mode.name := by
  obtain ⟨rfl, -⟩ | ⟨bytes, -, hbytes⟩ := loadConfig_cases h
  · exact ⟨.toggle, rfl⟩
  · exact mode_of_ofBytes hbytes

theorem begins_or_unread (argv : List String) (fs : FileSystem) :
    (∃ c config g p fs', Begins argv fs c config g p fs') ∨
      (run argv fs).files.unread = fs.unread := by
  rw [run]
  cases hargv : Invocation.parse argv with
  | error e => exact Or.inr rfl
  | ok invocation =>
    cases invocation with
    | help => exact Or.inr rfl
    | serve path =>
      dsimp only
      cases hload : loadConfig fs path with
      | error e => exact Or.inr rfl
      | ok loaded => exact Or.inr (unread_of_loadConfig hload)
    | command g name args =>
      dsimp only
      cases hload : loadConfig fs g.config with
      | error e => exact Or.inr rfl
      | ok loaded =>
        obtain ⟨config, fs'⟩ := loaded
        have hunread := unread_of_loadConfig hload
        dsimp only
        cases hname : all.find? (·.name = name) with
        | none => exact Or.inr hunread
        | some c =>
          dsimp only
          cases hargs : Flag.parse c.flags true args with
          | ok p => exact Or.inl ⟨c, config, g, p, fs', ⟨name, args, hargv, hname, hargs⟩, hload⟩
          | error e =>
            right
            rw [runWith, hargs]
            split
            · exact hunread
            · exact hunread
            · rename_i hok
              cases hok

/-! ## One argument after the other -/

section
open Edit
variable {σ α β : Type} {step : σ → α → Edit β} {next : β → σ}

/-- Work on one argument after the other, each in the state that the one before it leads
to. -/
def inTurn (step : σ → α → Edit β) (next : β → σ) : σ → List α → Edit (List β)
  | _, [] => return []
  | s, a :: as => do
    let b ← step s a
    return b :: (← inTurn step next (next b) as)

theorem editFiles_eq_inTurn (config : Config) (ignore : IgnoreList) (options : EditOptions)
    (mode : Mode) (paths : List String) : editFiles config ignore options mode paths =
      inTurn (fun mode path => Edit.file config false path mode ignore options) FileResult.mode
        mode paths := by
  induction paths generalizing mode with
  | nil => rfl
  | cons path paths ih => simp only [editFiles, inTurn, ih]

theorem editTrees_eq_inTurn (config : Config) (run : (root mode : String) → TreeRun)
    (word : String) (roots : List String) : editTrees config run word roots =
      inTurn (fun word root => Edit.tree config false (run root word)) (fun r => r.mode.name)
        word roots := by
  induction roots generalizing word with
  | nil => rfl
  | cons root roots ih => simp only [editTrees, inTurn, ih]

/-- **What each edit keeps all of them keep.** -/
theorem ensures_inTurn {I : σ → Desk → Prop} {E : Error → Desk → Prop}
    (hstep : ∀ s a d, I s d → Ensures (step s a) d (fun b d' => I (next b) d') E) (as : List α)
    {s : σ} {d : Desk} (h : I s d) :
    Ensures (inTurn step next s as) d (fun _ d' => ∃ s', I s' d') E := by
  induction as generalizing s d with
  | nil => exact ensures_pure ⟨s, h⟩
  | cons a as ih =>
    refine Ensures.bind ((hstep s a d h).imp (fun b d₁ hb => ?_) fun _ _ h => h)
    exact Ensures.bind ((ih hb).imp (fun _ _ h => ensures_pure h) fun _ _ h => h)

/-- **Where one is refused those before it are done**, and nothing else has happened. -/
theorem inTurn_refused {P : Error → Prop}
    (hstep : ∀ s a d, Ensures (step s a) d (fun _ _ => True) (fun cause d' => P cause → d' = d))
    (s : σ) (as : List α) (d : Desk) :
    Ensures (inTurn step next s as) d (fun _ _ => True)
      (fun cause d' => P cause → ∃ before refused after results, as = before ++ refused :: after ∧
        (inTurn step next s before).run d = .ok results d') := by
  induction as generalizing s d with
  | nil => exact ensures_pure trivial
  | cons a as ih =>
    rw [Ensures, inTurn, run_bind]
    cases hfirst : (step s a).run d with
    | error cause d' =>
      intro hcause
      obtain rfl := (hstep s a d).of_error hfirst hcause
      exact ⟨[], a, as, [], rfl, rfl⟩
    | ok b d₁ =>
      dsimp only
      rw [run_bind]
      cases hrest : (inTurn step next (next b) as).run d₁ with
      | ok results d' => trivial
      | error cause d' =>
        intro hcause
        obtain ⟨before, refused, after, results, rfl, hbefore⟩ :=
          (ih (next b) d₁).of_error hrest hcause
        refine ⟨a :: before, refused, after, b :: results, rfl, ?_⟩
        rw [inTurn, run_bind, hfirst]
        dsimp only
        rw [run_bind, hbefore]
        rfl

end

end Command
end ForwardDecl
