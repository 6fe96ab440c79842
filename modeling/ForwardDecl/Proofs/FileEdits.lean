import ForwardDecl.Edit.File
import ForwardDecl.Proofs.Locating

/-! # What editing a file comes to

An edit gives a result or an error and leaves files behind (`Edit.outcome`); what
it has told of before makes no difference to either (`Edit.Gives`).  Each step of
an edit has a rule for what it gives, so that a longer edit is followed from one
step to the next.

Editing a file that holds some bytes gives `Edit.sourceResult` of these bytes and
leaves `Edit.fileAfter` at the location of the file; the rest of the files is as
it was (`Edit.source_gives_file`).  A file that cannot be read is an error, and
nothing changes (`Edit.source_gives_error`).
-/
namespace ForwardDecl
namespace Edit

/-! ## Results and files -/

section
variable {α β : Type} {e : Edit α} {fs fs' fs'' : FileSystem} {r : Except Error α}

/-- What an edit of some files comes to: its result or error, and the files
afterwards. -/
def outcome (e : Edit α) (fs : FileSystem) : Except Error α × FileSystem :=
  match e.run ⟨fs, []⟩ with
  | .ok a desk => (.ok a, desk.files)
  | .error cause desk => (.error cause, desk.files)

/-- A run that ended with a result or an error. -/
def ended (r : Except Error α) (desk : Desk) : EStateM.Result Error Desk α :=
  match r with
  | .ok a => .ok a desk
  | .error cause => .error cause desk

/-- From some files the edit ends with `r` and leaves the files `fs'`, whatever it
has told of before. -/
def Gives (e : Edit α) (fs : FileSystem) (r : Except Error α) (fs' : FileSystem) : Prop :=
  ∀ trace, ∃ trace', e.run ⟨fs, trace⟩ = ended r ⟨fs', trace'⟩

theorem Gives.outcome_eq (h : Gives e fs r fs') : e.outcome fs = (r, fs') := by
  obtain ⟨trace', hrun⟩ := h []
  rw [outcome, hrun]
  cases r <;> rfl

/-- An edit ends in one way. -/
theorem Gives.unique {r' : Except Error α} (h : Gives e fs r fs') (h' : Gives e fs r' fs'') :
    r = r' ∧ fs' = fs'' :=
  Prod.mk.inj (h.outcome_eq.symm.trans h'.outcome_eq)

theorem gives_pure (a : α) (fs : FileSystem) : Gives (pure a) fs (.ok a) fs :=
  fun trace => ⟨trace, rfl⟩

theorem gives_throw (cause : Error) (fs : FileSystem) :
    Gives (throw cause : Edit α) fs (.error cause) fs :=
  fun trace => ⟨trace, rfl⟩

theorem gives_tell (events : List Event) (fs : FileSystem) : Gives (tell events) fs (.ok ()) fs :=
  fun trace => ⟨trace ++ events, rfl⟩

theorem gives_files (fs : FileSystem) : Gives files fs (.ok fs) fs :=
  fun trace => ⟨trace, rfl⟩

theorem gives_setFiles (fs fs' : FileSystem) : Gives (setFiles fs') fs (.ok ()) fs' :=
  fun trace => ⟨trace, rfl⟩

theorem gives_ofExcept (r : Except Error α) (fs : FileSystem) : Gives (ofExcept r) fs r fs := by
  cases r with
  | ok a => exact gives_pure a fs
  | error cause => exact gives_throw cause fs

theorem gives_fileCall (context : String) (r : Except FileError α) (fs : FileSystem) :
    Gives (fileCall context r) fs (r.mapError fun e => .within context (.file e)) fs := by
  cases r with
  | ok a => exact gives_pure a fs
  | error cause => exact gives_throw _ fs

theorem Gives.bind {a : α} {f : α → Edit β} {r : Except Error β} (h : Gives e fs (.ok a) fs')
    (hf : Gives (f a) fs' r fs'') : Gives (e >>= f) fs r fs'' := by
  intro trace
  obtain ⟨trace', hrun⟩ := h trace
  obtain ⟨trace'', hrun'⟩ := hf trace'
  refine ⟨trace'', ?_⟩
  show EStateM.bind e f ⟨fs, trace⟩ = _
  rw [EStateM.bind, show e ⟨fs, trace⟩ = _ from hrun]
  exact hrun'

theorem Gives.bind_error {cause : Error} (h : Gives e fs (.error cause) fs') (f : α → Edit β) :
    Gives (e >>= f) fs (.error cause) fs' := by
  intro trace
  obtain ⟨trace', hrun⟩ := h trace
  refine ⟨trace', ?_⟩
  show EStateM.bind e f ⟨fs, trace⟩ = _
  rw [EStateM.bind, show e ⟨fs, trace⟩ = _ from hrun]
  rfl

/-- An operation that changes the files, and what follows it. -/
theorem Gives.change {context : String} {op : FileSystem → Except FileError FileSystem}
    (h : op fs = .ok fs') (hrest : Gives e fs' r fs'') :
    Gives (files >>= fun fs => fileCall context (op fs) >>= fun fs => setFiles fs >>= fun _ => e)
      fs r fs'' := by
  refine (gives_files fs).bind ?_
  rw [h]
  exact (gives_pure _ _).bind ((gives_setFiles _ _).bind hrest)

/-- An operation that fails changes nothing, and nothing follows it. -/
theorem gives_change_error {context : String} {op : FileSystem → Except FileError FileSystem}
    {cause : FileError} (h : op fs = .error cause) (e : Edit α) :
    Gives (files >>= fun fs => fileCall context (op fs) >>= fun fs => setFiles fs >>= fun _ => e)
      fs (.error (.within context (.file cause))) fs := by
  refine (gives_files fs).bind ?_
  rw [h]
  exact (gives_throw _ _).bind_error _

end

/-- A property of edits that looking at the files has, and that is kept when one edit
follows another.  The steps of a long edit are gone through once for all of these. -/
structure Compositional (P : {α : Type} → Edit α → Prop) : Prop where
  pure : ∀ {α : Type} (a : α), P (Pure.pure a : Edit α)
  files : P Edit.files
  read : ∀ path, P (Edit.read path)
  bind : ∀ {α β : Type} {e : Edit α} {f : α → Edit β}, P e → (∀ a, P (f a)) → P (e >>= f)

/-! ## Reading and converting -/

end Edit

/-- Read a file after its times were looked up: its bytes, or the first error. -/
def FileSystem.fetch (fs : FileSystem) (path : String) : Except FileError ByteArray := do
  let _ ← fs.times path
  let (bytes, _) ← fs.read path
  return bytes

namespace Edit

/-- The conversion of the text that some bytes are, if they are a text and can be
converted. -/
def conversion? (mode : Mode) (ignore : IgnoreList) (bytes : ByteArray) : Option Converted := do
  let text ← String.fromUTF8? bytes
  (convert mode ignore text.toList).toOption

/-- The bytes that a conversion puts in the place of others, if it modifies them. -/
def newBytes? (mode : Mode) (ignore : IgnoreList) (bytes : ByteArray) : Option ByteArray := do
  let converted ← conversion? mode ignore bytes
  if converted.modifications = 0 then none else some (String.ofList converted.text).toUTF8

/-- The bytes that an edit leaves in the place of others. -/
def bytesAfter (mode : Mode) (ignore : IgnoreList) (bytes : ByteArray) : ByteArray :=
  (newBytes? mode ignore bytes).getD bytes

/-- What an edit leaves of a file at the time `now`.  A file that is written gets
its times back; one that is only read was accessed. -/
def fileAfter (now : Time) (mode : Mode) (ignore : IgnoreList) (dryRun : Bool) (f : File) : File :=
  match newBytes? mode ignore f.bytes with
  | some bytes => if dryRun then { f with accessed := now } else { f with bytes }
  | none => { f with accessed := now }

/-- What an edit reports of a text that was converted. -/
def report (path name : String) (options : EditOptions) (text : List Char) (c : Converted) :
    FileResult where
  path := path
  mode := c.mode
  modifications := c.modifications
  skipped := c.skipped
  written := c.modifications ≠ 0 && !options.dryRun
  diff := if c.modifications ≠ 0 && options.showDiff then Diff.unified name text c.text else ""

/-- What editing a file with some bytes gives. -/
def sourceResult (path name : String) (mode : Mode) (ignore : IgnoreList) (options : EditOptions)
    (bytes : ByteArray) : Except Error FileResult :=
  match String.fromUTF8? bytes with
  | none => .error (.within path .notText)
  | some text => ((convert mode ignore text.toList).mapError (placed path)).map
      (report path name options text.toList)

section
variable {fs : FileSystem} {path name : String} {mode : Mode} {ignore : IgnoreList}
  {options : EditOptions} {loc : Location} {f : File}

/-- An edit leaves the permissions of a file and its modification time, and moves the
access time only if it leaves the bytes. -/
theorem fileAfter_eq (now : Time) (mode : Mode) (ignore : IgnoreList) (dryRun : Bool) (f : File) :
    ∃ bytes accessed, fileAfter now mode ignore dryRun f = { f with bytes, accessed } ∧
      (bytes = if dryRun then f.bytes else bytesAfter mode ignore f.bytes) ∧
      (accessed = f.accessed ∨ accessed = now ∧ bytes = f.bytes) := by
  rw [fileAfter, bytesAfter]
  cases newBytes? mode ignore f.bytes with
  | none => exact ⟨f.bytes, now, rfl, by cases dryRun <;> rfl, Or.inr ⟨rfl, rfl⟩⟩
  | some bytes =>
    cases dryRun with
    | true => exact ⟨f.bytes, now, rfl, rfl, Or.inr ⟨rfl, rfl⟩⟩
    | false => exact ⟨bytes, f.accessed, rfl, rfl, Or.inl rfl⟩

theorem bytes_fileAfter (now : Time) (mode : Mode) (ignore : IgnoreList) (dryRun : Bool)
    (f : File) : (fileAfter now mode ignore dryRun f).bytes =
      if dryRun then f.bytes else bytesAfter mode ignore f.bytes := by
  obtain ⟨bytes, accessed, heq, hbytes, -⟩ := fileAfter_eq now mode ignore dryRun f
  rw [heq, ← hbytes]

theorem times_of_locate (h : fs.locate path = .ok (.found loc (.file f))) :
    fs.times path = .ok (f.accessed, f.modified) := by
  rw [FileSystem.times, FileSystem.stat, h]
  rfl

theorem read_of_locate (h : fs.locate path = .ok (.found loc (.file f))) :
    fs.read path = .ok (f.bytes, fs.putFile loc { f with accessed := fs.now }) := by
  rw [FileSystem.read, h]

theorem fetch_of_locate (h : fs.locate path = .ok (.found loc (.file f))) :
    fs.fetch path = .ok f.bytes := by
  rw [FileSystem.fetch, times_of_locate h, read_of_locate h]
  rfl

/-- What is fetched depends on where the path leads and on nothing else. -/
theorem fetch_eq (fs : FileSystem) (path : String) : fs.fetch path =
    match fs.locate path with
    | .ok (.found _ (.file f)) => .ok f.bytes
    | .ok (.found _ _) => .error ⟨.reading, path, .isDirectory⟩
    | .ok (.absent _) => .error ⟨.stat, path, .missing⟩
    | .error fault => .error ⟨.stat, path, fault⟩ := by
  rw [FileSystem.fetch, FileSystem.times, FileSystem.stat, FileSystem.read]
  cases fs.locate path with
  | error fault => rfl
  | ok target =>
    cases target with
    | absent loc => rfl
    | found loc n => cases n <;> rfl

/-- What can be fetched is the file that the path leads to. -/
theorem locate_of_fetch {bytes : ByteArray} (h : fs.fetch path = .ok bytes) :
    ∃ loc f, fs.locate path = .ok (.found loc (.file f)) ∧ f.bytes = bytes := by
  rw [fetch_eq] at h
  split at h
  · rename_i loc f hl
    exact ⟨loc, f, hl, Except.ok.inj h⟩
  all_goals cases h

/-- What cannot be fetched cannot be fetched from other files in the same places
either. -/
theorem fetch_mapFiles_error {cause : FileError} (g : File → File)
    (h : fs.fetch path = .error cause) : (fs.mapFiles g).fetch path = .error cause := by
  rw [fetch_eq] at h
  rw [fetch_eq, FileSystem.locate_mapFiles]
  cases hl : fs.locate path with
  | error fault => rw [hl] at h; exact h
  | ok target =>
    rw [hl] at h
    cases target with
    | absent loc => exact h
    | found loc n =>
      cases n with
      | file f => cases h
      | link t => exact h
      | dir es => exact h

/-- Files in the same places can be fetched from them, and what cannot be fetched
fails in the same way. -/
theorem fetch_of_shape {fs' : FileSystem} (h : fs.shape = fs'.shape)
    (hsame : ∀ loc f, fs.locate path = .ok (.found loc (.file f)) →
      ∃ f', fs'.at? loc = some (.file f') ∧ f'.bytes = f.bytes) :
    fs'.fetch path = fs.fetch path := by
  cases hf : fs.fetch path with
  | ok bytes =>
    obtain ⟨loc, f, hl, rfl⟩ := locate_of_fetch hf
    obtain ⟨f', hat, hbytes⟩ := hsame loc f hl
    obtain ⟨f'', hl'⟩ := FileSystem.locate_of_shape h hl
    have hfile := hat.symm.trans (FileSystem.at?_of_locate hl')
    obtain rfl := Node.file.inj (Option.some.inj hfile)
    rw [fetch_of_locate hl', hbytes]
  | error cause =>
    have hshape : fs'.shape.fetch path = .error cause := h ▸ fetch_mapFiles_error _ hf
    cases hf' : fs'.fetch path with
    | error cause' => exact (fetch_mapFiles_error _ hf').symm.trans hshape
    | ok bytes =>
      obtain ⟨loc, f, hl, -⟩ := locate_of_fetch hf'
      obtain ⟨f', hl'⟩ := FileSystem.locate_of_shape h.symm hl
      rw [fetch_of_locate hl'] at hf
      cases hf

theorem read_gives (h : fs.locate path = .ok (.found loc (.file f))) :
    Gives (read path) fs (.ok (.ok f.bytes)) (fs.putFile loc { f with accessed := fs.now }) := by
  refine (gives_files fs).bind ?_
  rw [read_of_locate h]
  exact (gives_setFiles _ _).bind (gives_pure _ _)

theorem readText_gives (h : fs.locate path = .ok (.found loc (.file f))) :
    Gives (readText path) fs
      (match String.fromUTF8? f.bytes with
        | none => .error (.within path .notText)
        | some text => .ok text.toList) (fs.putFile loc { f with accessed := fs.now }) := by
  refine (read_gives h).bind ?_
  dsimp only
  cases String.fromUTF8? f.bytes with
  | none => exact gives_throw _ _
  | some text => exact gives_pure _ _

theorem convertText_gives (path : String) (mode : Mode) (ignore : IgnoreList) (text : List Char)
    (fs : FileSystem) : Gives (convertText path mode ignore text) fs
      ((convert mode ignore text).mapError (placed path)) fs :=
  (gives_tell _ _).bind (gives_ofExcept _ _)

/-- A file that is written and given its times back is as it was but for its
bytes. -/
theorem writeText_gives {g : File} (h : fs.locate path = .ok (.found loc (.file g)))
    (text : List Char) (times : Time × Time) :
    Gives (writeText path text times) fs (.ok ()) (fs.putFile loc { g with
      bytes := (String.ofList text).toUTF8, accessed := times.1, modified := times.2 }) := by
  have hwrite : fs.write path (String.ofList text).toUTF8 defaultPerm =
      .ok (fs.putFile loc { g with bytes := (String.ofList text).toUTF8, modified := fs.now }) := by
    rw [FileSystem.write, h]
  have hset := FileSystem.locate_putFile h
    { g with bytes := (String.ofList text).toUTF8, modified := fs.now }
  refine (gives_files fs).bind ?_
  rw [hwrite]
  dsimp only
  rw [FileSystem.setTimes, hset]
  dsimp only
  rw [FileSystem.putFile_putFile]
  exact gives_setFiles _ _

/-- A text that was not changed is reported and not written. -/
theorem report_of_unmodified {text : List Char} {c : Converted}
    (hm : c.modifications = 0) : report path name options text c =
      ⟨path, c.mode, c.modifications, c.skipped, false, ""⟩ := by
  simp [report, hm]

theorem report_of_modified {text : List Char} {c : Converted}
    (hm : c.modifications ≠ 0) : report path name options text c =
      ⟨path, c.mode, c.modifications, c.skipped, !options.dryRun,
        if options.showDiff then Diff.unified name text c.text else ""⟩ := by
  simp [report, hm]

/-- **Editing a file.**  The result depends on the bytes of the file alone, and
only the file changes. -/
theorem source_gives_file (h : fs.locate path = .ok (.found loc (.file f))) :
    Gives (source false path name mode ignore options) fs
      (sourceResult path name mode ignore options f.bytes)
      (fs.putFile loc (fileAfter fs.now mode ignore options.dryRun f)) := by
  have hread := FileSystem.locate_putFile h { f with accessed := fs.now }
  have htext := readText_gives h
  -- the times are taken before the file is read
  refine (gives_tell _ _).bind ((gives_files fs).bind ?_)
  rw [times_of_locate h]
  refine (gives_ofExcept _ _).bind ?_
  rw [sourceResult, fileAfter, newBytes?, conversion?]
  cases hutf : String.fromUTF8? f.bytes with
  | none =>
    rw [hutf] at htext
    exact htext.bind_error _
  | some text =>
    rw [hutf] at htext
    refine htext.bind ?_
    have hconv := convertText_gives path mode ignore text.toList
      (fs.putFile loc { f with accessed := fs.now })
    dsimp only [Option.bind_eq_bind, Option.bind_some]
    cases hc : convert mode ignore text.toList with
    | error cause =>
      rw [hc] at hconv
      exact hconv.bind_error _
    | ok c =>
      rw [hc] at hconv
      refine hconv.bind ?_
      dsimp only [Except.toOption, Option.bind_some]
      by_cases hm : c.modifications = 0
      · rw [if_pos hm, if_pos hm]
        show Gives _ _ (.ok (report path name options text.toList c)) _
        rw [report_of_unmodified hm]
        exact gives_pure _ _
      · rw [if_neg hm, if_neg hm]
        show Gives _ _ (.ok (report path name options text.toList c)) _
        rw [report_of_modified hm]
        cases options.dryRun with
        | true => exact (gives_tell _ _).bind (gives_pure _ _)
        | false =>
          -- the file is written over what reading it left, and given the first times back
          have hwrite := writeText_gives hread c.text (f.accessed, f.modified)
          rw [FileSystem.putFile_putFile] at hwrite
          exact hwrite.bind ((gives_tell _ _).bind (gives_pure _ _))

/-- A file that cannot be read is an error, and nothing changes. -/
theorem source_gives_error {cause : FileError} (h : fs.fetch path = .error cause) :
    Gives (source false path name mode ignore options) fs (.error (.file cause)) fs := by
  refine (gives_tell _ _).bind ((gives_files fs).bind ?_)
  rw [FileSystem.fetch] at h
  cases ht : fs.times path with
  | error e =>
    rw [ht] at h
    obtain rfl : e = cause := Except.error.inj h
    exact (gives_throw _ _).bind_error _
  | ok times =>
    refine (gives_pure _ _).bind ?_
    rw [ht] at h
    cases hr : fs.read path with
    | ok p => rw [hr] at h; cases h
    | error e =>
      rw [hr] at h
      obtain rfl : e = cause := Except.error.inj h
      refine Gives.bind_error ?_ _
      have hread : Gives (read path) fs (.ok (.error e)) fs := by
        refine (gives_files fs).bind ?_
        rw [hr]
        exact gives_pure _ _
      exact hread.bind (gives_throw _ _)

end
end Edit
end ForwardDecl
