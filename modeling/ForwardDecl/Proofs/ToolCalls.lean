import ForwardDecl.Proofs.IgnoreLists
import ForwardDecl.Proofs.Refusals
import ForwardDecl.Tool

/-! # What the call of a tool comes to

A tool reads an object that spells its arguments as the tool does, with values of the right
types, as it stands (`Arguments.read_of_plain`); the call is then an edit of the files
(`Tool.run_of_gives`).

One tool converts a text that it is given, and another one edits a file.  Both read the mode
and the ignore list in the same way and run the same conversion; the one gives the text back
as it was and the other leaves the file alone when nothing is modified.  So they agree on
every text (`Tool.convertText_agrees`).
-/
namespace ForwardDecl

/-! ## Arguments -/

namespace Json

/-- The value of a field of an object. -/
def field? (value : Json) (name : String) : Option Json := value.fields.lookup name

/-- A list of texts. -/
def ofTexts (texts : List String) : Json := .arr (texts.map .str)

@[simp] theorem asTexts_ofTexts (texts : List String) : (ofTexts texts).asTexts = texts := by
  show (texts.map Json.str).map asText = texts
  rw [List.map_map]
  exact List.map_id _

end Json

namespace ArgumentType

theorem readItems_str (texts : List String) : readItems [] (texts.map .str) = some texts := by
  induction texts with
  | nil => rfl
  | cons s texts ih => rw [List.map_cons, readItems, List.tail_nil, ih]; rfl

@[simp] theorem read_ofTexts (texts : List String) :
    read .texts .null (.ofTexts texts) = some (.ofTexts texts) := by
  show (readItems [] (texts.map .str)).map _ = _
  rw [readItems_str]
  rfl

end ArgumentType

namespace Arguments
variable {parameters : List Parameter} {args fields : Arguments} {name : String} {value : Json}

/-- A name as it is looked up among the parameters. -/
def smallName (name : String) : String := String.ofList (name.toList.map smallLetter)

/-- An argument as the parameters ask for it, with a value of the type that goes with its
name. -/
def Fits (parameters : List Parameter) (field : String × Json) : Prop :=
  ∃ parameter, parameters.find? (·.name = field.1) = some parameter ∧
    parameter.type.read .null field.2 = some field.2

theorem set_of_fresh (h : args.lookup name = none) :
    args.set name value = args ++ [(name, value)] := by
  induction args with
  | nil => rfl
  | cons a args ih =>
    rw [List.lookup_cons] at h
    split at h
    · cases h
    · rename_i hne
      rw [set, if_neg fun heq => by simp [heq] at hne, ih h]
      rfl

theorem readField_of_fits (hsmall : ∀ parameter ∈ parameters, smallName parameter.name =
    parameter.name) (hfresh : args.lookup name = none) (h : Fits parameters (name, value)) :
    readField parameters args (name, value) = some (args ++ [(name, value)]) := by
  obtain ⟨parameter, hfind, hread⟩ := h
  have hname : parameter.name = name := by simpa using List.find?_some hfind
  have hspelled : String.ofList (name.toList.map smallLetter) = name := by
    rw [← hname]
    exact hsmall parameter (List.mem_of_find?_eq_some hfind)
  have hget : args.get name = .null := by rw [get, hfresh]; rfl
  unfold readField
  dsimp only at hfind hread ⊢
  rw [hspelled, hfind]
  simp only [Option.bind_eq_bind, Option.bind_some, hget, hread, set_of_fresh hfresh,
    Option.pure_def]

/-- **An object in the order of its names is read as it stands**, if every field fits. -/
theorem read_of_plain (hsmall : ∀ parameter ∈ parameters, smallName parameter.name =
    parameter.name) (hordered : (fields.map Prod.fst).Pairwise (· < ·))
    (hfits : ∀ field ∈ fields, Fits parameters field) :
    read parameters (.obj fields) = some fields := by
  rw [List.pairwise_map] at hordered
  have hsorted : (fields.mergeSort fun a b => decide (a.1 ≤ b.1)) = fields := by
    refine List.mergeSort_of_pairwise (hordered.imp fun hlt => ?_)
    exact decide_eq_true (String.not_lt.mp (String.lt_asymm hlt))
  -- the arguments that were read before stand in front, and have other names
  have hfold : ∀ (fields done : Arguments), fields.Pairwise (fun a b => a.1 < b.1) →
      (∀ field ∈ fields, Fits parameters field) → (∀ field ∈ fields, done.lookup field.1 = none) →
      fields.foldlM (readField parameters) done = some (done ++ fields) := by
    intro fields
    induction fields with
    | nil => intro done _ _ _; simp
    | cons field fields ih =>
      intro done hordered hfits hfresh
      rw [List.pairwise_cons] at hordered
      rw [List.forall_mem_cons] at hfits hfresh
      rw [List.foldlM_cons, readField_of_fits hsmall hfresh.1 hfits.1, Option.bind_eq_bind,
        Option.bind_some, ih _ hordered.2 hfits.2, List.append_assoc]
      · rfl
      · intro later hlater
        have hne : later.1 ≠ field.1 := by
          intro heq
          exact absurd (hordered.1 later hlater) (heq ▸ String.lt_irrefl _)
        rw [List.lookup_append, hfresh.2 later hlater]
        simp [hne]
  rw [read, hsorted, hfold fields [] hordered hfits (fun _ _ => rfl), List.nil_append]

end Arguments

/-! ## Calls -/

namespace Tool
open Edit
variable {config : Config} {fs fs' : FileSystem} {tool : Tool} {args : Arguments} {name : String}

theorem run_within {α : Type} (context : String) (e : Edit α) (d : Desk) :
    (within context e).run d =
      match e.run d with
      | .ok a d' => .ok a d'
      | .error cause d' => .error (.within context cause) d' := by
  show EStateM.tryCatch e _ d = _
  delta EStateM.tryCatch
  rw [EStateM.run]
  cases e d <;> rfl

theorem within_gives {α : Type} {e : Edit α} {r : Except Error α} (h : Gives e fs r fs')
    (context : String) : Gives (within context e) fs (r.mapError (.within context)) fs' := by
  intro trace
  obtain ⟨trace', hrun⟩ := h trace
  refine ⟨trace', ?_⟩
  rw [run_within, hrun]
  cases r <;> rfl

theorem outcome_within {α : Type} (context : String) (e : Edit α) (fs : FileSystem) :
    (within context e).outcome fs =
      ((e.outcome fs).1.mapError (.within context), (e.outcome fs).2) := by
  rw [outcome, run_within, outcome]
  cases e.run ⟨fs, []⟩ <;> rfl

/-- The tools name their parameters in small letters. -/
theorem smallName_parameter : ∀ tool ∈ all, ∀ parameter ∈ tool.parameters,
    Arguments.smallName parameter.name = parameter.name := by
  decide

/-- A call with fitting arguments is the edit of the tool. -/
theorem run_of_fits (hname : all.find? (·.name = name) = some tool)
    (hordered : (args.map Prod.fst).Pairwise (· < ·))
    (hfits : ∀ field ∈ args, Arguments.Fits tool.parameters field) (config : Config)
    (fs : FileSystem) :
    let done := (tool.call config args).outcome fs
    run config name (.obj args) fs = (done.1.mapError .failed, done.2) := by
  have hsmall := smallName_parameter tool (List.mem_of_find?_eq_some hname)
  intro done
  rw [run, hname]
  dsimp only
  rw [Arguments.read_of_plain hsmall hordered hfits]
  dsimp only [done]
  rw [outcome]
  cases (tool.call config args).run ⟨fs, []⟩ <;> rfl

theorem run_of_gives {r : Except Error Json} (hname : all.find? (·.name = name) = some tool)
    (hordered : (args.map Prod.fst).Pairwise (· < ·))
    (hfits : ∀ field ∈ args, Arguments.Fits tool.parameters field)
    (h : Gives (tool.call config args) fs r fs') :
    run config name (.obj args) fs = (r.mapError .failed, fs') := by
  rw [run_of_fits hname hordered hfits, h.outcome_eq]

/-! ## A text and a file that holds it -/

/-- The arguments for converting a text. -/
def textArguments (text mode : String) (ignore : List String) : Arguments :=
  [("ignore", .ofTexts ignore), ("mode", .str mode), ("text", .str text)]

/-- The arguments for editing a file in earnest. -/
def fileArguments (path mode : String) (ignore : List String) (diff : Bool) : Arguments :=
  [("diff", .bool diff), ("dry_run", .bool false), ("ignore", .ofTexts ignore),
    ("mode", .str mode), ("path", .str path)]

theorem ordered_textArguments (text mode : String) (ignore : List String) :
    ((textArguments text mode ignore).map Prod.fst).Pairwise (· < ·) := by
  show ["ignore", "mode", "text"].Pairwise (· < ·)
  decide

theorem ordered_fileArguments (path mode : String) (ignore : List String) (diff : Bool) :
    ((fileArguments path mode ignore diff).map Prod.fst).Pairwise (· < ·) := by
  show ["diff", "dry_run", "ignore", "mode", "path"].Pairwise (· < ·)
  decide

theorem fits_textArguments (text mode : String) (ignore : List String) :
    ∀ field ∈ textArguments text mode ignore, Arguments.Fits convertText.parameters field := by
  refine List.forall_mem_cons.mpr ⟨⟨_, rfl, ArgumentType.read_ofTexts ignore⟩, ?_⟩
  refine List.forall_mem_cons.mpr ⟨⟨_, rfl, rfl⟩, ?_⟩
  exact List.forall_mem_singleton.mpr ⟨_, rfl, rfl⟩

theorem fits_fileArguments (path mode : String) (ignore : List String) (diff : Bool) :
    ∀ field ∈ fileArguments path mode ignore diff, Arguments.Fits editFile.parameters field := by
  refine List.forall_mem_cons.mpr ⟨⟨_, rfl, rfl⟩, ?_⟩
  refine List.forall_mem_cons.mpr ⟨⟨_, rfl, rfl⟩, ?_⟩
  refine List.forall_mem_cons.mpr ⟨⟨_, rfl, ArgumentType.read_ofTexts ignore⟩, ?_⟩
  refine List.forall_mem_cons.mpr ⟨⟨_, rfl, rfl⟩, ?_⟩
  exact List.forall_mem_singleton.mpr ⟨_, rfl, rfl⟩

/-- The object tells of a conversion: its mode, how many modifications it made, and why it
made none, if there is a reason. -/
structure TellsOf (value : Json) (mode : Mode) (modifications : Nat) (skipped : Option SkipReason) :
    Prop where
  mode : value.field? "mode" = some (.str mode.name)
  modifications : value.field? "modifications" = some (.nat modifications)
  skipped : value.field? "skipped" = skipped.map fun reason => .str reason.name

/-- An object tells of one conversion. -/
theorem TellsOf.unique {value : Json} {m m' : Mode} {n n' : Nat} {s s' : Option SkipReason}
    (h : TellsOf value m n s) (h' : TellsOf value m' n' s') : m = m' ∧ n = n' ∧ s = s' := by
  have hmode := Json.str.inj (Option.some.inj (h.mode.symm.trans h'.mode))
  have hnumber := Json.int.inj (Option.some.inj (h.modifications.symm.trans h'.modifications))
  have hskipped := h.skipped.symm.trans h'.skipped
  refine ⟨?_, Int.ofNat.inj hnumber, ?_⟩
  · exact Option.some.inj (by rw [← Mode.ofName?_name m, ← Mode.ofName?_name m', hmode])
  · have hname : ∀ r r' : SkipReason, r.name = r'.name → r = r' := by
      intro r r'
      cases r <;> cases r' <;> decide
    cases s with
    | none => cases s' with
      | none => rfl
      | some r' => cases hskipped
    | some r => cases s' with
      | none => cases hskipped
      | some r' => rw [hname r r' (Json.str.inj (Option.some.inj hskipped))]

section
variable {path mode text : String} {ignore : List String} {loc : Location} {f : File}

/-- The text that a conversion gives back. -/
def newText (text : String) (c : Converted) : String :=
  if 0 < c.modifications then String.ofList c.text else text

/-- Converting a text gives the new text and tells of the conversion. -/
theorem convertGiven_of_convert {m : Mode} {list : IgnoreList} {c : Converted}
    (h : convert m list text.toList = .ok c) : ∃ value, convertGiven m list text = .ok value ∧
      value.field? "text" = some (.str (newText text c)) ∧
      TellsOf value c.mode c.modifications c.skipped := by
  rw [convertGiven, h]
  refine ⟨_, rfl, rfl, rfl, rfl, ?_⟩
  cases c.skipped with
  | none => rfl
  | some reason => cases reason <;> rfl

/-- What is given of an edit tells of the conversion. -/
theorem tellsOf_report (path name : String) (options : EditOptions) (text : List Char)
    (c : Converted) :
    TellsOf (report path name options text c).toJson c.mode c.modifications c.skipped := by
  refine ⟨rfl, rfl, ?_⟩
  have hdiff : ∀ diff : String,
      (Json.unlessEmpty "diff" (.str diff)).lookup "skipped" = none := by
    intro diff
    unfold Json.unlessEmpty
    split <;> rfl
  show List.lookup "skipped" (_ ++ _ ++ _ ++ _) = _
  rw [List.lookup_append, hdiff, Option.or_none]
  unfold report
  dsimp only
  cases c.skipped with
  | none => rfl
  | some reason => cases reason <;> rfl

/-- An edit leaves the bytes of the text that a conversion gives back. -/
theorem bytes_fileAfter_of_convert {now : Time} {m : Mode} {list : IgnoreList} {c : Converted}
    (hbytes : f.bytes = text.toUTF8) (h : convert m list text.toList = .ok c) :
    (fileAfter now m list false f).bytes = (newText text c).toUTF8 := by
  rw [bytes_fileAfter, hbytes, bytesAfter_of_convert (fromUTF8?_toUTF8 text) h]
  unfold newText
  by_cases hm : c.modifications = 0
  · simp [hm]
  · simp [hm, Nat.pos_of_ne_zero hm]

/-- A text that cannot be converted is left as it is. -/
theorem bytes_fileAfter_of_error {now : Time} {m : Mode} {list : IgnoreList} {cause : Error}
    (hbytes : f.bytes = text.toUTF8) (h : convert m list text.toList = .error cause) :
    (fileAfter now m list false f).bytes = text.toUTF8 := by
  have hnone : conversion? m list f.bytes = none := by
    rw [conversion?, hbytes, fromUTF8?_toUTF8]
    show (convert m list text.toList).toOption = none
    rw [h]
    rfl
  rw [bytes_fileAfter, bytesAfter, newBytes?, hnone]
  exact hbytes

/-! Both tools read the mode and then the ignore list before they do anything. -/

/-- The mode and the ignore list that the words of a call mean. -/
def asked (mode : String) (ignore : List String) : Except Error (Mode × IgnoreList) := do
  let m ← modeOf mode
  let list ← IgnoreList.parse ignore
  return (m, list)

/-- Go on with the mode and the ignore list that the words mean. -/
def asking {α : Type} (mode : String) (ignore : List String) (e : Mode → IgnoreList → Edit α) :
    Edit α := do
  let m ← Edit.ofExcept (modeOf mode)
  let list ← Edit.ofExcept (IgnoreList.parse ignore)
  e m list

theorem asked_eq_ok_iff {m : Mode} {list : IgnoreList} : asked mode ignore = .ok (m, list) ↔
    modeOf mode = .ok m ∧ IgnoreList.parse ignore = .ok list := by
  unfold asked
  cases modeOf mode with
  | error cause => exact ⟨(fun h => nomatch h), fun h => nomatch h.1⟩
  | ok m' =>
    cases IgnoreList.parse ignore with
    | error cause => exact ⟨(fun h => nomatch h), fun h => nomatch h.2⟩
    | ok list' =>
      constructor
      · intro h
        obtain ⟨rfl, rfl⟩ := Prod.mk.inj (Except.ok.inj h)
        exact ⟨rfl, rfl⟩
      · rintro ⟨hm, hlist⟩
        rw [Except.ok.inj hm, Except.ok.inj hlist]
        rfl

theorem asking_gives {α : Type} {e : Mode → IgnoreList → Edit α} {r : Except Error α} {m : Mode}
    {list : IgnoreList} (h : asked mode ignore = .ok (m, list))
    (hgives : Gives (e m list) fs r fs') :
    Gives (asking mode ignore e) fs r fs' := by
  obtain ⟨hm, hlist⟩ := asked_eq_ok_iff.mp h
  rw [asking, hm, hlist]
  exact (gives_pure _ _).bind ((gives_pure _ _).bind hgives)

theorem asking_gives_error {α : Type} {e : Mode → IgnoreList → Edit α} {cause : Error}
    (h : asked mode ignore = .error cause) (fs : FileSystem) :
    Gives (asking mode ignore e) fs (.error cause) fs := by
  unfold asked at h
  unfold asking
  cases hm : modeOf mode with
  | error cause' =>
    rw [hm] at h
    obtain rfl : cause' = cause := Except.error.inj h
    exact (gives_throw _ _).bind_error _
  | ok m =>
    cases hlist : IgnoreList.parse ignore with
    | error cause' =>
      rw [hm, hlist] at h
      obtain rfl : cause' = cause := Except.error.inj h
      exact (gives_pure _ _).bind ((gives_throw _ _).bind_error _)
    | ok list => rw [hm, hlist] at h; cases h

theorem convertText_call (config : Config) (text mode : String) (ignore : List String) :
    convertText.call config (textArguments text mode ignore) =
      asking mode ignore fun m list => Edit.ofExcept (convertGiven m list text) := by
  show asking mode (Json.ofTexts ignore).asTexts _ = _
  rw [Json.asTexts_ofTexts]
  rfl

theorem editFile_call (config : Config) (path mode : String) (ignore : List String)
    (diff : Bool) : editFile.call config (fileArguments path mode ignore diff) =
      asking mode ignore fun m list => do
        let result ← within "failed to edit file" (Edit.file config false path m list ⟨false, diff⟩)
        return result.toJson := by
  show asking mode (Json.ofTexts ignore).asTexts _ = _
  rw [Json.asTexts_ofTexts]
  rfl

/-- A text is converted as the words of the call say, and no file is touched. -/
theorem run_convertText {m : Mode} {list : IgnoreList} (h : asked mode ignore = .ok (m, list))
    (config : Config) (text : String) (fs : FileSystem) :
    run config "rewrite_text" (.obj (textArguments text mode ignore)) fs =
      ((convertGiven m list text).mapError .failed, fs) := by
  refine run_of_gives rfl (ordered_textArguments text mode ignore)
    (fits_textArguments text mode ignore) ?_
  rw [convertText_call]
  exact asking_gives h (gives_ofExcept _ fs)

/-- **Converting a text and editing a file that holds it come to the same.**  Either both
calls fail, and the file is as it was to be read; or both tell of the same conversion, the
file holds the text that is given back, and that is the old one if nothing was modified. -/
theorem convertText_agrees (config : Config) (mode : String) (ignore : List String) (diff : Bool)
    (hsuffix : config.suffix.toList.isSuffixOf path.toList = true)
    (hl : fs.locate path = .ok (.found loc (.file f))) (hbytes : f.bytes = text.toUTF8) :
    let given := run config "rewrite_text" (.obj (textArguments text mode ignore)) fs
    let edited := run config "edit_file" (.obj (fileArguments path mode ignore diff)) fs
    given.2 = fs ∧
      ((∃ cause cause', given.1 = .error (.failed cause) ∧ edited.1 = .error (.failed cause') ∧
          edited.2.fetch path = .ok text.toUTF8) ∨
        ∃ value result new m n skipped, given.1 = .ok value ∧ edited.1 = .ok result ∧
          TellsOf value m n skipped ∧ TellsOf result m n skipped ∧
          value.field? "text" = some (.str new) ∧ edited.2.fetch path = .ok new.toUTF8 ∧
          (n = 0 → new = text)) := by
  intro given edited
  have hedited : ∀ {r fs'},
      Gives (editFile.call config (fileArguments path mode ignore diff)) fs r fs' →
        edited = (r.mapError .failed, fs') :=
    run_of_gives rfl (ordered_fileArguments path mode ignore diff)
      (fits_fileArguments path mode ignore diff)
  rw [editFile_call] at hedited
  cases hasked : asked mode ignore with
  | error cause =>
    have hgiven : given = _ := run_of_gives rfl (ordered_textArguments text mode ignore)
      (fits_textArguments text mode ignore)
      (convertText_call config text mode ignore ▸ asking_gives_error hasked fs)
    rw [hgiven, hedited (asking_gives_error hasked fs)]
    exact ⟨rfl, Or.inl ⟨cause, cause, rfl, rfl, hbytes ▸ fetch_of_locate hl⟩⟩
  | ok both =>
    obtain ⟨m, list⟩ := both
    have hcheck := IgnoreList.check_of_parse (asked_eq_ok_iff.mp hasked).2
    have hconvert : given = _ := run_convertText hasked config text fs
    have hfile : Gives (Edit.file config false path m list ⟨false, diff⟩) fs _ _ :=
      Command.file_gives_source hcheck hsuffix hl
    have hfetch := fetch_of_locate (FileSystem.locate_putFile hl (fileAfter fs.now m list false f))
    rw [sourceResult, hbytes, fromUTF8?_toUTF8] at hfile
    dsimp only at hfile
    cases hc : convert m list text.toList with
    | error cause =>
      rw [hc] at hfile
      rw [bytes_fileAfter_of_error hbytes hc] at hfetch
      have hresult := (within_gives hfile "failed to edit file").bind_error
        fun result => pure result.toJson
      have hfailed : convertGiven m list text =
          .error (.within "failed to rewrite text" cause) := by
        rw [convertGiven, hc]
        rfl
      rw [hfailed] at hconvert
      rw [hconvert, hedited (asking_gives hasked hresult)]
      exact ⟨rfl, Or.inl ⟨_, _, rfl, rfl, hfetch⟩⟩
    | ok c =>
      rw [hc] at hfile
      rw [bytes_fileAfter_of_convert hbytes hc] at hfetch
      obtain ⟨value, hvalue, htext, htells⟩ := convertGiven_of_convert hc
      rw [hvalue] at hconvert
      rw [hconvert, hedited (asking_gives hasked
        ((within_gives hfile "failed to edit file").bind (gives_pure _ _)))]
      refine ⟨rfl, Or.inr ⟨value, _, newText text c, c.mode, c.modifications, c.skipped, rfl, rfl,
        htells, tellsOf_report _ _ _ _ c, htext, hfetch, fun hm => ?_⟩⟩
      simp [newText, hm]

end

/-- A text with other line ends than the editor writes, and none after its last line. -/
def looseText : String := "x = 1\r\nclass A: pass"

/-- A file that holds the text. -/
def looseFiles : FileSystem where
  root := .dir [("a.py", .file ⟨looseText.toUTF8, 0o644, 0, 0⟩)]
  cwd := []
  now := 1
  wellFormed := by
    simp only [Node.WellFormed, Node.WellFormedEntries]
    decide +kernel

/-- If the class is left alone, there is nothing to add: the text comes back as it was, and
the file still has its line ends. -/
theorem convertText_agrees_loose :
    let given := run .default "rewrite_text" (.obj (textArguments looseText "add" ["A"])) looseFiles
    let edited := run .default "edit_file" (.obj (fileArguments "a.py" "add" ["A"] true)) looseFiles
    ∃ value result, given.1 = .ok value ∧ edited.1 = .ok result ∧ TellsOf value .add 0 none ∧
      TellsOf result .add 0 none ∧ value.field? "text" = some (.str looseText) ∧
      edited.2.fetch "a.py" = .ok looseText.toUTF8 := by
  intro given edited
  have hlocate : looseFiles.locate "a.py" =
      .ok (.found ["a.py"] (.file ⟨looseText.toUTF8, 0o644, 0, 0⟩)) :=
    FileSystem.locate_of_get? (by decide) "a.py" ["a.py"] (by decide +kernel) rfl
  have hasked : asked "add" ["A"] = .ok (.add, [.ofClass "A"]) := rfl
  have hgiven : given = (.ok (.obj [("text", .str looseText), ("mode", .str "add"),
      ("modifications", .nat 0)]), looseFiles) :=
    (run_convertText hasked .default looseText looseFiles).trans rfl
  have hagree := convertText_agrees .default "add" ["A"] true (by decide) hlocate rfl
  obtain ⟨-, ⟨cause, -, hfailed, -⟩ | ⟨value, result, new, m, n, skipped, hvalue, hresult, htells,
    htells', htext, hfetch, hnew⟩⟩ := hagree
  · cases (congrArg Prod.fst hgiven).symm.trans hfailed
  · obtain rfl := Except.ok.inj ((congrArg Prod.fst hgiven).symm.trans hvalue)
    obtain ⟨rfl, rfl, rfl⟩ := htells.unique (show TellsOf _ .add 0 none from ⟨rfl, rfl, rfl⟩)
    rw [hnew rfl] at hfetch
    exact ⟨_, result, hvalue, hresult, htells, htells', rfl, hfetch⟩

end Tool
end ForwardDecl
