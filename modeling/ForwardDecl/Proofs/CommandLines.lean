import ForwardDecl.Proofs.Commands
import ForwardDecl.Proofs.Postconditions

/-! # Command lines that are written out

A command line that is flags, then `--`, then arguments is read as it is meant: every flag
adds its setting, whatever comes after it (`Flag.Reads`), and the flags are put together in
any order (`Flag.Reads.append`).  What a command makes of the settings is then a matter of
which settings there are (`Parsed.isOn_iff`, `Command.modeWord_of_asked`).

The commands for files and for trees end as the edit of their files or trees does
(`Command.file_runWith`, `Command.tree_runWith`).
-/
namespace ForwardDecl

/-! ## Flags -/

namespace Flag
variable {flags : List Flag} {words : List String} {settings : List (String × String)}
  {word : String} {setting : String × String}

/-- Where the words stand, reading goes on behind them with more settings. -/
def Reads (flags : List Flag) (words : List String) (settings : List (String × String)) : Prop :=
  ∀ acc rest, parseFrom flags true acc (words ++ rest) =
    parseFrom flags true { acc with settings := acc.settings ++ settings } rest

theorem reads_nil (flags : List Flag) : Reads flags [] [] := by
  intro acc rest
  rw [List.append_nil, List.nil_append]

theorem Reads.append {words' : List String} {settings' : List (String × String)}
    (h : Reads flags words settings) (h' : Reads flags words' settings') :
    Reads flags (words ++ words') (settings ++ settings') := by
  intro acc rest
  rw [List.append_assoc, h, h', List.append_assoc]

/-- Flags that are put together add their settings in the same order. -/
theorem reads_flatMap {α : Type} {items : List α} {written : α → List String}
    {meant : α → String × String} (h : ∀ x ∈ items, Reads flags (written x) [meant x]) :
    Reads flags (items.flatMap written) (items.map meant) := by
  induction items with
  | nil => exact reads_nil flags
  | cons x items ih =>
    rw [List.forall_mem_cons] at h
    exact h.1.append (ih h.2)

theorem reads_switch (hne : word ≠ "--")
    (h : ∀ next, read? flags word next = some (.ok ([setting], false))) :
    Reads flags [word] [setting] := by
  intro acc rest
  exact parseFrom_flags hne (h rest.head?)

theorem reads_value {value : String} (hne : word ≠ "--")
    (h : read? flags word (some value) = some (.ok ([setting], true))) :
    Reads flags [word, value] [setting] := by
  intro acc rest
  have hread : read? flags word (value :: rest).head? = some (.ok ([setting], true)) := h
  exact parseFrom_flags hne hread

/-- **Flags, then `--`, then arguments.** -/
theorem Reads.parse_eq (h : Reads flags words settings) (args : List String) :
    parse flags true (words ++ "--" :: args) = .ok ⟨settings, args⟩ := by
  rw [parse, h, parseFrom, if_pos rfl]
  rfl

end Flag

namespace Parsed
variable {p : Parsed} {name : String}

/-- A switch that is never set to anything but true is on if it is set. -/
theorem isOn_iff (h : ∀ value, (name, value) ∈ p.settings → value = "true") :
    p.isOn name = true ↔ (name, "true") ∈ p.settings := by
  rw [isOn]
  cases hl : p.settings.reverse.lookup name with
  | none =>
    have hnone : ∀ entry ∈ p.settings.reverse, ¬(name == entry.1) = true := by
      simpa using List.lookup_eq_none_iff.mp hl
    constructor
    · intro hon
      cases hon
    · intro hmem
      exact absurd (beq_self_eq_true name) (hnone _ (List.mem_reverse.mpr hmem))
  | some value =>
    obtain ⟨before, after, hsplit, -⟩ := List.lookup_eq_some_iff.mp hl
    have hmem : (name, value) ∈ p.settings := by
      rw [← List.mem_reverse, hsplit]
      simp
    obtain rfl := h value hmem
    exact ⟨fun _ => hmem, fun _ => rfl⟩

theorem isOn_of_not_mem (h : ∀ value, (name, value) ∉ p.settings) : p.isOn name = false := by
  refine Bool.eq_false_iff.mpr fun hon => ?_
  rw [isOn_iff fun value hmem => absurd hmem (h value)] at hon
  exact h "true" hon

end Parsed

/-! ## Commands -/

theorem Edit.outcome_map {α β : Type} (e : Edit α) (f : α → β) (fs : FileSystem) :
    (e >>= fun a => pure (f a)).outcome fs = ((e.outcome fs).1.map f, (e.outcome fs).2) := by
  rw [outcome, run_bind, outcome]
  cases e.run ⟨fs, []⟩ <;> rfl

namespace Command
open Edit
variable {config : Config} {g : GlobalOptions} {args : List String} {p : Parsed} {fs : FileSystem}
  {word root : String}

/-- The letter of a mode as an option. -/
def modeOption : Mode → String
  | .add => "-a"
  | .remove => "-r"
  | .toggle => "-t"

theorem reads_modeOption {c : Command} (h : c = file ∨ c = tree) (m : Mode) :
    Flag.Reads c.flags [modeOption m] [(m.name, "true")] := by
  rcases h with rfl | rfl <;> cases m <;> exact Flag.reads_switch (by decide) fun _ => rfl

theorem modeWord_of_asked {m : Mode} (h : ∀ m' : Mode, p.isOn m'.name = true ↔ m' = m)
    (fallback : String) : modeWord p fallback = .ok m.name := by
  have hasked : modesAsked p = [m] := by
    have hfilter : modesAsked p = Mode.all.filter (· = m) := by
      refine List.filter_congr fun m' _ => ?_
      rw [Bool.eq_iff_iff, h, decide_eq_true_eq]
    rw [hfilter]
    cases m <;> rfl
  rw [modeWord, hasked]

theorem modeWord_of_none (h : ∀ m : Mode, p.isOn m.name = false) (fallback : String) :
    modeWord p fallback = .ok fallback := by
  have hasked : modesAsked p = [] := by
    refine List.filter_eq_nil_iff.mpr fun m _ => ?_
    rw [h m]
    exact Bool.false_ne_true
  rw [modeWord, hasked]

/-- How a command ends whose edit comes to a report and to files. -/
def ending (done : Except Error String × FileSystem) : Outcome :=
  match done.1 with
  | .ok report => ⟨report, "", none, done.2⟩
  | .error cause => ⟨"", "", some cause, done.2⟩

theorem runWith_eq (c : Command) (hparse : Flag.parse c.flags true args = .ok p)
    (hg : g.verbose = false) :
    c.runWith config g args fs = ending ((c.edit config g p).outcome fs) := by
  rw [runWith, hparse]
  dsimp only
  rw [hg, outcome]
  cases (c.edit config g p).run ⟨fs, []⟩ <;> rfl

/-- Without options of the program, a command runs under the settings that hold unless
something else is said. -/
theorem run_bare {program name : String} {c : Command} (hne : name ≠ "--")
    (hname : Flag.read? Invocation.flags name args.head? = none)
    (hc : all.find? (·.name = name) = some c) (fs : FileSystem) :
    run (program :: name :: args) fs = c.runWith .default ⟨false, false, ""⟩ args fs := by
  rw [run, Invocation.parse_command hne hname]
  dsimp only
  rw [show loadConfig fs "" = .ok (.default, fs) from rfl]
  dsimp only
  rw [hc]

/-- What the command for trees reports on one tree. -/
def treeText (dryRun : Bool) (r : TreeResult) : String :=
  (if dryRun then dryRunNotice else "") ++ r.report false

/-- **The command for trees, given one root,** ends as the edit of the tree does. -/
theorem tree_runWith {ignore : IgnoreMap} (hparse : Flag.parse tree.flags true args = .ok p)
    (hg : g.verbose = false) (hword : modeWord p config.mode = .ok word)
    (hignore : IgnoreMap.parse (p.texts "ignore") = .ok ignore) (hargs : p.args = [root])
    (hjson : p.isOn "json" = false) :
    let done := (Edit.tree config false (treeRun config g p ignore root word)).outcome fs
    tree.runWith config g args fs = ending (done.1.map (treeText (isDry g p)), done.2) := by
  intro done
  have hedit : tree.edit config g p =
      Edit.tree config false (treeRun config g p ignore root word) >>= fun r =>
        pure (treeText (isDry g p) r) := by
    dsimp only [tree]
    rw [hword, hignore, hargs]
    simp only [Edit.ofExcept, pure_bind, List.cons_ne_nil, if_false, editTrees, bind_assoc]
    refine bind_congr fun r => ?_
    rw [output, hjson, hg]
    simp [treeText, String.join]
  rw [runWith_eq tree hparse hg, hedit, outcome_map]

/-- What the command for files reports. -/
def filesText (results : List FileResult) : String :=
  String.join (results.map (·.report false))

/-- **The command for files,** in earnest and without ignoring anything, ends as the edit
of the files does. -/
theorem file_runWith {mode : Mode} (hparse : Flag.parse file.flags true args = .ok p)
    (hg : g.verbose = false) (hword : modeWord p config.mode = .ok mode.name)
    (hignore : p.texts "ignore" = []) (hargs : p.args ≠ []) (hjson : p.isOn "json" = false)
    (hdry : isDry g p = false) (hdiff : p.isOn "diff" = false) :
    let done := (editFiles config [] ⟨false, false⟩ mode p.args).outcome fs
    file.runWith config g args fs = ending (done.1.map filesText, done.2) := by
  intro done
  have hmode : Mode.ofName mode.name = .ok mode := by rw [Mode.ofName, Mode.ofName?_name]
  have hedit : file.edit config g p =
      editFiles config [] ⟨false, false⟩ mode p.args >>= fun results =>
        pure (filesText results) := by
    dsimp only [file]
    rw [hword, hignore, show IgnoreList.parse [] = .ok [] from rfl, hdry, hdiff]
    simp only [Edit.ofExcept, pure_bind, if_neg hargs, hmode]
    refine bind_congr fun results => ?_
    rw [output, hjson]
    simp [filesText]
  rw [runWith_eq file hparse hg, hedit, outcome_map]

end Command
end ForwardDecl
