import ForwardDecl.Proofs.Cancelling
import ForwardDecl.Proofs.Conservation
import ForwardDecl.Proofs.LinkedRoots
import ForwardDecl.Proofs.TreeRoundTrip

/-! # Editing one file is all or nothing

An edit of one file can end in many ways: its mode, its ignore list or its path is bad,
it was cancelled, the file cannot be reached, it is no text, it is malformed, or there
is nothing to do.  All of them come before the file is written, and nothing can fail
after that.  So an edit that does not say that it wrote the file has left all files as
they were, but for the time of the last access if it came to read the file; and one that
does say so has put the converted text, which is never the text that was there, into the
file that the path leads to, and has touched nothing else (`Edit.file_all_or_nothing`).

Everything is read off one inversion lemma: an edit fails before it reads anything, or
it gives what the bytes of its file determine (`Edit.file_cases`).
-/
namespace ForwardDecl

/-! ## A conversion that counts something changes the text -/

section
variable {mode : Mode} {ignore : IgnoreList} {text : List Char} {c : Converted}

theorem Conversion.Finished.skipped_eq_none {source : List Line} {e : Ending}
    (h : Finished source e c) (hm : 0 < c.modifications) : c.skipped = none := by
  cases h with
  | untouched mode reason => exact absurd hm (Nat.lt_irrefl 0)
  | empty mode n => exact absurd hm (Nat.lt_irrefl 0)
  | unmodified mode hl => rfl
  | added hl hn => rfl
  | cut hne hl hn => rfl

/-- What is put in or left out are whole lines, so that their number changes. -/
theorem text_ne_of_modified (h : convert mode ignore text = .ok c) (hm : 0 < c.modifications) :
    c.text ≠ text := by
  intro heq
  have hs : c.skipped ≠ some .empty := by
    rw [(convert_eq_ok_iff.mp h).2.skipped_eq_none hm]
    nofun
  have hlength := (conserves_of_convert h hs).length_ne hm
  rw [← splitLines_text h, heq] at hlength
  exact hlength rfl

end

/-! ## Errors that only the text can cause -/

/-- An error that tells of a text, which was read therefore. -/
def Error.TellsOfText (e : Error) : Prop := e.isShape = true ∨ e.root = .notText

theorem Error.not_tellsOfText_of_isConfig {e : Error} (h : e.isConfig = true) :
    ¬ e.TellsOfText := by
  rintro (hs | hn)
  · rw [isConfig] at h
    rw [isShape] at hs
    split at h
    · rename_i hroot
      rw [hroot] at hs
      cases hs
    · cases h
  · rw [isConfig, hn] at h
    cases h

theorem IgnoreList.isConfig_of_check {list : IgnoreList} {cause : Error}
    (h : list.check = .error cause) : cause.isConfig = true := by
  induction list with
  | nil => cases h
  | cons e list ih =>
    change (e.check >>= fun _ => check list) = _ at h
    cases he : e.check with
    | ok u =>
      rw [he] at h
      exact ih h
    | error cause' =>
      rw [he] at h
      obtain rfl : cause' = cause := Except.error.inj h
      rw [IgnoreEntry.check] at he
      split at he
      · rw [← Except.error.inj he]
        rfl
      · split at he
        · rw [← Except.error.inj he]
          rfl
        · split at he
          · rw [← Except.error.inj he]
            rfl
          · cases he

theorem Mode.isConfig_of_ofName {word : String} {cause : Error} (h : ofName word = .error cause) :
    cause.isConfig = true := by
  rw [ofName] at h
  split at h
  · cases h
  · rw [← Except.error.inj h]
    rfl

namespace FileSystem
variable {fs : FileSystem} {path : String} {loc : Location} {f : File}

theorem isConfig_of_checkSource {suffix : String} {cause : Error}
    (h : fs.checkSource path suffix = .error cause) : cause.isConfig = true := by
  rw [checkSource] at h
  split at h
  · rw [← Except.error.inj h]
    rfl
  · split at h
    · rw [← Except.error.inj h]
      rfl
    · split at h
      · rw [← Except.error.inj h]
        rfl
      · split at h
        · rw [← Except.error.inj h]
          rfl
        · cases h

/-! ## Files that differ in one place -/

/-- The later files differ from the earlier ones in one place at most, where `g` stands in the
place of `f`. -/
structure Replaces (fs : FileSystem) (loc : Location) (f g : File) (fs' : FileSystem) :
    Prop where
  before : fs.at? loc = some (.file f)
  after : fs'.at? loc = some (.file g)
  elsewhere : ∀ loc', loc' ≠ loc → fs'.at? loc' = fs.at? loc'

theorem replaces_putFile (h : fs.at? loc = some (.file f)) (g : File) :
    fs.Replaces loc f g (fs.putFile loc g) where
  before := h
  after := by rw [at?_putFile h, if_pos rfl]
  elsewhere loc' hne := by rw [at?_putFile h, if_neg hne]

/-- The file that a path leads to was read, and nothing else happened. -/
def WasRead (fs : FileSystem) (path : String) (fs' : FileSystem) : Prop :=
  ∃ loc f, fs.locate path = .ok (.found loc (.file f)) ∧
    fs.Replaces loc f { f with accessed := fs.now } fs'

end FileSystem

namespace Edit

/-- The file that a path leads to, through links if there are any, holds the conversion of its
text, which is another text.  It has the permissions and the times that it had, and nothing else
happened. -/
structure Rewrites (mode : Mode) (ignore : IgnoreList) (path : String) (fs : FileSystem)
    (loc : Location) (f : File) (text : String) (c : Converted) (fs' : FileSystem) : Prop where
  leads : fs.locate path = .ok (.found loc (.file f))
  decoded : String.fromUTF8? f.bytes = some text
  converted : convert mode ignore text.toList = .ok c
  differs : (String.ofList c.text).toUTF8 ≠ f.bytes
  only : fs.Replaces loc f { f with bytes := (String.ofList c.text).toUTF8 } fs'

section
variable {config : Config} {cancelled : Bool} {path name : String} {mode : Mode}
  {ignore : IgnoreList} {options : EditOptions} {fs : FileSystem} {f : File} {bytes : ByteArray}
  {text : String} {c : Converted}

/-! ## What the bytes of a file determine -/

/-- A file that can be converted was written, if there was something to write, and else read. -/
theorem fileAfter_of_convert (htext : String.fromUTF8? f.bytes = some text)
    (hc : convert mode ignore text.toList = .ok c) (now : Time) (dryRun : Bool) :
    fileAfter now mode ignore dryRun f =
      if 0 < c.modifications ∧ dryRun = false
      then { f with bytes := (String.ofList c.text).toUTF8 } else { f with accessed := now } := by
  have hnew : newBytes? mode ignore f.bytes =
      if c.modifications = 0 then none else some (String.ofList c.text).toUTF8 := by
    rw [newBytes?, conversion?, htext]
    dsimp only [Option.bind_eq_bind, Option.bind_some]
    rw [hc]
    rfl
  rw [fileAfter, hnew]
  by_cases hm : c.modifications = 0
  · simp [hm]
  · cases dryRun <;> simp [hm, Nat.pos_iff_ne_zero]

/-- A file that cannot be converted was only read. -/
theorem fileAfter_of_error {cause : Error}
    (h : sourceResult path name mode ignore options f.bytes = .error cause) (now : Time)
    (dryRun : Bool) : fileAfter now mode ignore dryRun f = { f with accessed := now } := by
  have hnone : newBytes? mode ignore f.bytes = none := by
    rw [newBytes?, conversion?]
    rw [sourceResult] at h
    cases htext : String.fromUTF8? f.bytes with
    | none => rfl
    | some text =>
      rw [htext] at h
      cases hc : convert mode ignore text.toList with
      | ok c =>
        dsimp only at h
        rw [hc] at h
        cases h
      | error cause' =>
        dsimp only [Option.bind_eq_bind, Option.bind_some]
        rw [hc]
        rfl
  rw [fileAfter, hnone]

/-- What goes wrong with the bytes is that they are no text, or that the text is malformed, and
this error says in which file. -/
theorem tellsOfText_of_sourceResult {cause : Error} (hcheck : ignore.check = .ok ())
    (h : sourceResult path name mode ignore options bytes = .error cause) :
    cause.TellsOfText ∧
      (cause.isShape = true → ∃ shape, cause = .shape shape ∧ shape.path = path) := by
  rw [sourceResult] at h
  split at h
  · obtain rfl := Except.error.inj h
    refine ⟨Or.inr rfl, fun hshape => ?_⟩
    cases hshape
  · rename_i text htext
    cases hc : convert mode ignore text.toList with
    | ok c =>
      rw [hc] at h
      cases h
    | error cause' =>
      obtain ⟨shape, rfl, -⟩ := (convert_eq_error_iff hcheck).mp hc
      rw [hc] at h
      obtain rfl := Except.error.inj h
      exact ⟨Or.inl rfl, fun _ => ⟨{ shape with path }, rfl, rfl⟩⟩

theorem report_of_sourceResult {r : FileResult}
    (h : sourceResult path name mode ignore options bytes = .ok r) :
    ∃ text c, String.fromUTF8? bytes = some text ∧ convert mode ignore text.toList = .ok c ∧
      r = report path name options text.toList c := by
  rw [sourceResult] at h
  split at h
  · cases h
  · rename_i text htext
    cases hc : convert mode ignore text.toList with
    | ok c =>
      rw [hc] at h
      exact ⟨text, c, htext, hc, (Except.ok.inj h).symm⟩
    | error cause =>
      rw [hc] at h
      cases h

/-- A result says that the file was written exactly if something was to be written. -/
theorem written_report : (report path name options text.toList c).written = true ↔
    0 < c.modifications ∧ options.dryRun = false := by
  simp [report, Nat.pos_iff_ne_zero]

/-! ## The ways an edit can end -/

theorem file_of_checks {result : Except Error FileResult} {fs' : FileSystem}
    (hcheck : ignore.check = .ok ()) (hsource : fs.checkSource path config.suffix = .ok ())
    (h : Gives (source cancelled path (Path.base path) mode ignore options) fs result fs') :
    Gives (file config cancelled path mode ignore options) fs result fs' := by
  rw [file, hcheck]
  refine (gives_pure () fs).bind ((gives_files fs).bind ?_)
  rw [hsource]
  exact (gives_pure () fs).bind h

/-- **An edit of a file fails before it reads anything**, and nothing changes, **or it gives what
the bytes of the file determine.** -/
theorem file_cases (config : Config) (cancelled : Bool) (path : String) (mode : Mode)
    (ignore : IgnoreList) (options : EditOptions) (fs : FileSystem) :
    (∃ cause, ¬ cause.TellsOfText ∧
      Gives (file config cancelled path mode ignore options) fs (.error cause) fs) ∨
    ∃ loc f, ignore.check = .ok () ∧ fs.locate path = .ok (.found loc (.file f)) ∧
      Gives (file config cancelled path mode ignore options) fs
        (sourceResult path (Path.base path) mode ignore options f.bytes)
        (fs.putFile loc (fileAfter fs.now mode ignore options.dryRun f)) := by
  cases hcheck : ignore.check with
  | error cause =>
    have hconfig := IgnoreList.isConfig_of_check hcheck
    have hwithin : (Error.within path cause).isConfig = true := hconfig
    refine Or.inl ⟨.within path cause, Error.not_tellsOfText_of_isConfig hwithin, ?_⟩
    rw [file, hcheck]
    exact (gives_throw _ fs).bind_error _
  | ok u =>
    cases hsource : fs.checkSource path config.suffix with
    | error cause =>
      have hconfig := FileSystem.isConfig_of_checkSource hsource
      refine Or.inl ⟨cause, Error.not_tellsOfText_of_isConfig hconfig, ?_⟩
      rw [file, hcheck]
      refine (gives_pure u fs).bind ((gives_files fs).bind ?_)
      rw [hsource]
      exact (gives_throw cause fs).bind_error _
    | ok u' =>
      cases cancelled with
      | true =>
        have hnot : ¬ Error.cancelled.TellsOfText := by rintro (h | h) <;> cases h
        refine Or.inl ⟨.cancelled, hnot, ?_⟩
        exact file_of_checks hcheck hsource ((gives_throw .cancelled fs).bind_error _)
      | false =>
        cases hfetch : fs.fetch path with
        | error cause =>
          have hnot : ¬ (Error.file cause).TellsOfText := by rintro (h | h) <;> cases h
          refine Or.inl ⟨.file cause, hnot, ?_⟩
          exact file_of_checks hcheck hsource (source_gives_error hfetch)
        | ok bytes =>
          obtain ⟨loc, f, hl, -⟩ := locate_of_fetch hfetch
          exact Or.inr ⟨loc, f, rfl, hl, file_of_checks hcheck hsource (source_gives_file hl)⟩

/-- The same for a mode that is given by its name. -/
theorem file_named_cases (config : Config) (cancelled : Bool) (path word : String)
    (ignore : IgnoreList) (options : EditOptions) (fs : FileSystem) :
    let edit : Edit FileResult := do
      let mode ← ofExcept (Mode.ofName word)
      file config cancelled path mode ignore options
    (∃ cause, ¬ cause.TellsOfText ∧ edit.outcome fs = (.error cause, fs)) ∨
    ∃ mode loc f, Mode.ofName word = .ok mode ∧ ignore.check = .ok () ∧
      fs.locate path = .ok (.found loc (.file f)) ∧
      edit.outcome fs = (sourceResult path (Path.base path) mode ignore options f.bytes,
        fs.putFile loc (fileAfter fs.now mode ignore options.dryRun f)) := by
  cases hmode : Mode.ofName word with
  | error cause =>
    have hnot := Error.not_tellsOfText_of_isConfig (Mode.isConfig_of_ofName hmode)
    exact Or.inl ⟨cause, hnot, ((gives_throw cause fs).bind_error _).outcome_eq⟩
  | ok mode =>
    rcases file_cases config cancelled path mode ignore options fs with
      ⟨cause, hnot, hgives⟩ | ⟨loc, f, hcheck, hl, hgives⟩
    · exact Or.inl ⟨cause, hnot, ((gives_pure mode fs).bind hgives).outcome_eq⟩
    · exact Or.inr ⟨mode, loc, f, rfl, hcheck, hl, ((gives_pure mode fs).bind hgives).outcome_eq⟩

theorem wasRead_of_locate {loc : Location} (hl : fs.locate path = .ok (.found loc (.file f))) :
    fs.WasRead path (fs.putFile loc { f with accessed := fs.now }) :=
  ⟨loc, f, hl, FileSystem.replaces_putFile (FileSystem.at?_of_locate hl) _⟩

/-- A file that was written holds the conversion of its text. -/
theorem rewrites_of_modified {loc : Location} (hl : fs.locate path = .ok (.found loc (.file f)))
    (htext : String.fromUTF8? f.bytes = some text) (hc : convert mode ignore text.toList = .ok c)
    (hm : 0 < c.modifications) : Rewrites mode ignore path fs loc f text c
      (fs.putFile loc { f with bytes := (String.ofList c.text).toUTF8 }) where
  leads := hl
  decoded := htext
  converted := hc
  differs := by
    intro heq
    have hsame := fromUTF8?_toUTF8 (String.ofList c.text)
    rw [heq, htext] at hsame
    apply text_ne_of_modified hc hm
    rw [Option.some.inj hsame, String.toList_ofList]
  only := FileSystem.replaces_putFile (FileSystem.at?_of_locate hl) _

/-- **Editing one file is all or nothing**, whatever the files, the path, the mode, the ignore list
and the options are, and whether or not it is cancelled.

* If it fails, nothing has changed, but that the file was read if the error tells of its text.  A
  malformed text is blamed on the file at this path.
* If it gives a result that says that nothing was written, the file was read, and no more.
* If the result says that the file was written, it was no dry run, something was modified, and the
  file that the path leads to holds the conversion of its text and is otherwise as it was, like all
  other files.
* The file was written if something was modified and it was no dry run. -/
theorem file_all_or_nothing (config : Config) (cancelled : Bool) (path word : String)
    (ignore : IgnoreList) (options : EditOptions) (fs : FileSystem) :
    let done := (do
      let mode ← ofExcept (Mode.ofName word)
      file config cancelled path mode ignore options : Edit FileResult).outcome fs
    (∀ cause, done.1 = .error cause →
      (done.2 = fs ∨ cause.TellsOfText ∧ fs.WasRead path done.2) ∧
      (cause.isShape = true → ∃ shape, cause = .shape shape ∧ shape.path = path)) ∧
    ∀ r, done.1 = .ok r →
      (r.written = false → fs.WasRead path done.2) ∧
      (r.written = true → options.dryRun = false ∧ 0 < r.modifications ∧
        ∃ mode loc f text c, Mode.ofName word = .ok mode ∧
          Rewrites mode ignore path fs loc f text c done.2 ∧ r.modifications = c.modifications) ∧
      (0 < r.modifications → options.dryRun = false → r.written = true) := by
  intro done
  have hcases := file_named_cases config cancelled path word ignore options fs
  change (∃ cause, _ ∧ done = _) ∨ ∃ mode loc f, _ ∧ _ ∧ _ ∧ done = _ at hcases
  clear_value done
  rcases hcases with ⟨cause, hnot, rfl⟩ | ⟨mode, loc, f, hmode, hcheck, hl, rfl⟩
  · refine ⟨?_, nofun⟩
    intro cause' hcause
    obtain rfl := Except.error.inj hcause
    exact ⟨Or.inl rfl, fun hshape => absurd (Or.inl hshape) hnot⟩
  · refine ⟨?_, ?_⟩
    · intro cause hcause
      obtain ⟨htells, hplaced⟩ := tellsOfText_of_sourceResult hcheck hcause
      refine ⟨Or.inr ⟨htells, ?_⟩, hplaced⟩
      dsimp only
      rw [fileAfter_of_error hcause]
      exact wasRead_of_locate hl
    · intro r hr
      obtain ⟨text, c, htext, hc, rfl⟩ := report_of_sourceResult hr
      dsimp only
      rw [fileAfter_of_convert htext hc]
      refine ⟨?_, ?_, fun hm hreal => written_report.mpr ⟨hm, hreal⟩⟩
      · intro hwritten
        rw [if_neg (fun h => by rw [written_report.mpr h] at hwritten; cases hwritten)]
        exact wasRead_of_locate hl
      · intro hwritten
        obtain ⟨hm, hreal⟩ := written_report.mp hwritten
        rw [if_pos ⟨hm, hreal⟩]
        exact ⟨hreal, hm, mode, loc, f, text, c, hmode, rewrites_of_modified hl htext hc hm, rfl⟩

end

/-- A source file. -/
def aliasSource : File := ⟨"class A:\n    pass\n".toUTF8, 0o600, 3, 5⟩

/-- The source file, and a link to it. -/
def aliasEntries : Entries := [("a.py", .file aliasSource), ("l.py", .link "a.py")]

def aliasFiles : FileSystem where
  root := .dir aliasEntries
  cwd := []
  now := 9
  wellFormed := by
    simp only [Node.WellFormed, Node.WellFormedEntries, aliasEntries]
    decide +kernel

theorem locate_alias : aliasFiles.locate "l.py" = .ok (.found ["a.py"] (.file aliasSource)) := by
  have hpath : FileSystem.pathFault? "l.py" = none ∧ Path.isAbsolute "l.py" = false ∧
      Path.segments "l.py" = ["l.py"] := by decide +kernel
  have htarget : Path.segments "a.py" = ["a.py"] := by decide +kernel
  have htop : aliasFiles.root.get? aliasFiles.cwd = some (.dir aliasEntries) := rfl
  have hfile : aliasFiles.root.get? ["a.py"] = some (.file aliasSource) := rfl
  rw [FileSystem.locate_relative hpath, show maxLinks = 39 + 1 from rfl,
    Node.walk_link htop (by decide +kernel) rfl (by decide +kernel), htarget]
  exact (Node.walk_entry htop (by decide +kernel) rfl (Node.ne_link_of_linkFree rfl) []).trans
    (Node.walk_nil hfile)

/-- What an edit through the link gives. -/
theorem alias_outcome {word : String} {mode : Mode} {c : Converted}
    (hmode : Mode.ofName word = .ok mode)
    (hc : convert mode [] "class A:\n    pass\n".toList = .ok c) :
    (do
      let mode ← ofExcept (Mode.ofName word)
      file .default false "l.py" mode [] ⟨false, false⟩ : Edit FileResult).outcome aliasFiles =
        (.ok (report "l.py" "l.py" ⟨false, false⟩ "class A:\n    pass\n".toList c),
          aliasFiles.putFile ["a.py"] (fileAfter 9 mode [] false aliasSource)) := by
  have hsource : aliasFiles.checkSource "l.py" ".py" = .ok () := by
    rw [FileSystem.checkSource, FileSystem.stat, locate_alias]
    decide +kernel
  have hgives : Gives (file .default false "l.py" mode [] ⟨false, false⟩) aliasFiles _ _ :=
    file_of_checks rfl hsource (source_gives_file locate_alias)
  have hresult : sourceResult "l.py" (Path.base "l.py") mode [] ⟨false, false⟩ aliasSource.bytes =
      .ok (report "l.py" "l.py" ⟨false, false⟩ "class A:\n    pass\n".toList c) := by
    rw [sourceResult, aliasSource, fromUTF8?_toUTF8]
    dsimp only
    rw [hc, show Path.base "l.py" = "l.py" by decide +kernel]
    rfl
  rw [hresult] at hgives
  rw [hmode]
  exact ((gives_pure mode aliasFiles).bind hgives).outcome_eq

/-- The file behind the link is written, with its permissions and its times. -/
theorem file_all_or_nothing_alias :
    let done := (do
      let mode ← ofExcept (Mode.ofName "add")
      file .default false "l.py" mode [] ⟨false, false⟩ : Edit FileResult).outcome aliasFiles
    ∃ r, done.1 = .ok r ∧ r.written = true ∧ r.modifications = 9 ∧
      ∃ mode loc f text c, Mode.ofName "add" = .ok mode ∧
        Rewrites mode [] "l.py" aliasFiles loc f text c done.2 := by
  intro done
  let added : Converted := ⟨["from forward import *", "@forward()", "class A:", "    ...",
    "@continue_(A)", "class _____:", "    pass", "", "del forward", "del continue_", ""].map
      String.toList, .add, 9, none⟩
  have hdone : done = _ := alias_outcome (show Mode.ofName "add" = .ok .add from rfl)
    (show convert .add [] _ = .ok added by decide +kernel)
  have hresult : done.1 = .ok (report "l.py" "l.py" ⟨false, false⟩ "class A:\n    pass\n".toList
      added) := by rw [hdone]
  obtain ⟨-, -, mode, loc, f, text, c, hmode, hrewrites, -⟩ :=
    ((file_all_or_nothing .default false "l.py" "add" [] ⟨false, false⟩ aliasFiles).2 _
      hresult).2.1 rfl
  exact ⟨_, hresult, rfl, rfl, mode, loc, f, text, c, hmode, hrewrites⟩

/-- **An edit that writes nothing still counts as an access.**  There is nothing to remove, and the
file keeps its bytes, its permissions and its modification time, but not its access time. -/
theorem access_time_moves :
    let done := (do
      let mode ← ofExcept (Mode.ofName "remove")
      file .default false "l.py" mode [] ⟨false, false⟩ : Edit FileResult).outcome aliasFiles
    ∃ r, done.1 = .ok r ∧ r.written = false ∧
      aliasFiles.at? ["a.py"] = some (.file aliasSource) ∧
      done.2.at? ["a.py"] = some (.file { aliasSource with accessed := 9 }) ∧
      done.2 ≠ aliasFiles := by
  intro done
  let same : Converted := ⟨["class A:".toList, "    pass".toList], .remove, 0, none⟩
  have hsame : convert .remove [] "class A:\n    pass\n".toList = .ok same := by decide +kernel
  have hdone : done = _ := alias_outcome (show Mode.ofName "remove" = .ok .remove from rfl) hsame
  have hbefore := FileSystem.at?_of_locate locate_alias
  have hread : fileAfter 9 .remove [] false aliasSource = { aliasSource with accessed := 9 } :=
    fileAfter_of_convert (fromUTF8?_toUTF8 "class A:\n    pass\n") hsame 9 false
  have hafter : done.2.at? ["a.py"] = some (.file { aliasSource with accessed := 9 }) := by
    rw [hdone, ← hread]
    exact (FileSystem.at?_putFile hbefore _ _).trans (if_pos rfl)
  refine ⟨_, by rw [hdone], rfl, hbefore, hafter, ?_⟩
  intro heq
  rw [heq, hbefore] at hafter
  have htimes := congrArg File.accessed (Node.file.inj (Option.some.inj hafter))
  exact absurd htimes (by decide)

end Edit
end ForwardDecl
