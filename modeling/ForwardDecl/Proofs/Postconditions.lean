import ForwardDecl.Edit.Tree
import ForwardDecl.Proofs.FileEdits

/-! # What an edit ensures

Whether an edit gives a result or fails, it leaves a desk behind.  `Edit.Ensures` says
something of both ends of it.  Each step of an edit has a rule that takes what is to be
ensured back over the step, so that a longer edit is followed from its end to its
beginning; a loop, and a scan with it, needs an invariant that one step keeps
(`Edit.ensures_foldlM`, `Edit.ensures_explore`).
-/
namespace ForwardDecl
namespace Edit

section
variable {α β : Type} {e : Edit α} {d : Desk} {Q Q' : α → Desk → Prop} {E E' : Error → Desk → Prop}

/-- From a desk the edit ends with a result that has `Q`, or with an error that has
`E`. -/
def Ensures (e : Edit α) (d : Desk) (Q : α → Desk → Prop) (E : Error → Desk → Prop) : Prop :=
  match e.run d with
  | .ok a d' => Q a d'
  | .error cause d' => E cause d'

theorem Ensures.of_ok {a : α} {d' : Desk} (h : Ensures e d Q E) (hrun : e.run d = .ok a d') :
    Q a d' := by
  rw [Ensures, hrun] at h
  exact h

theorem Ensures.of_error {cause : Error} {d' : Desk} (h : Ensures e d Q E)
    (hrun : e.run d = .error cause d') : E cause d' := by
  rw [Ensures, hrun] at h
  exact h

theorem Ensures.imp (h : Ensures e d Q E) (hQ : ∀ a d', Q a d' → Q' a d')
    (hE : ∀ cause d', E cause d' → E' cause d') : Ensures e d Q' E' := by
  rw [Ensures] at h ⊢
  cases hrun : e.run d with
  | ok a d' => rw [hrun] at h; exact hQ a d' h
  | error cause d' => rw [hrun] at h; exact hE cause d' h

theorem ensures_pure {a : α} (h : Q a d) : Ensures (pure a) d Q E := h

theorem ensures_throw {cause : Error} (h : E cause d) : Ensures (throw cause : Edit α) d Q E := h

theorem ensures_tell {Q : Unit → Desk → Prop} {events : List Event}
    (h : Q () { d with trace := d.trace ++ events }) : Ensures (tell events) d Q E := h

theorem ensures_files {Q : FileSystem → Desk → Prop} (h : Q d.files d) : Ensures files d Q E := h

theorem ensures_setFiles {Q : Unit → Desk → Prop} {fs : FileSystem}
    (h : Q () { d with files := fs }) : Ensures (setFiles fs) d Q E := h

theorem ensures_ofExcept {r : Except Error α} (hok : ∀ a, r = .ok a → Q a d)
    (herror : ∀ cause, r = .error cause → E cause d) : Ensures (ofExcept r) d Q E := by
  cases r with
  | ok a => exact hok a rfl
  | error cause => exact herror cause rfl

/-- The error of a file operation is not one of the settings. -/
theorem ensures_ofFile {r : Except FileError α} (hok : ∀ a, Q a d)
    (herror : ∀ cause : FileError, E (.file cause) d) :
    Ensures (ofExcept (r.mapError .file)) d Q E := by
  cases r with
  | ok a => exact hok a
  | error cause => exact herror cause

theorem Ensures.bind {f : α → Edit β} {Q : β → Desk → Prop}
    (h : Ensures e d (fun a d' => Ensures (f a) d' Q E) E) : Ensures (e >>= f) d Q E := by
  rw [Ensures] at h ⊢
  show match EStateM.bind e f d with
    | .ok b d' => Q b d'
    | .error cause d' => E cause d'
  rw [EStateM.bind]
  cases hrun : e d with
  | ok a d' =>
    rw [show e.run d = _ from hrun] at h
    exact h
  | error cause d' =>
    rw [show e.run d = _ from hrun] at h
    exact h

theorem run_bind (e : Edit α) (f : α → Edit β) (d : Desk) : (e >>= f).run d =
    match e.run d with
    | .ok a d' => (f a).run d'
    | .error cause d' => .error cause d' := by
  show EStateM.bind e f d = _
  rw [EStateM.bind, EStateM.run]
  cases e d <;> rfl

theorem Ensures.attempt {Q : Except Error α → Desk → Prop}
    (h : Ensures e d (fun a => Q (.ok a)) (fun cause => Q (.error cause))) :
    Ensures (Edit.attempt e) d Q E := by
  rw [Ensures] at h ⊢
  have hattempt : (Edit.attempt e).run d = match e.run d with
      | .ok a d' => .ok (.ok a) d'
      | .error cause d' => .ok (.error cause) d' := by
    show EStateM.tryCatch (EStateM.bind e fun a => pure (Except.ok a)) _ d = _
    delta EStateM.tryCatch
    rw [EStateM.bind, EStateM.run]
    cases e d <;> rfl
  rw [hattempt]
  cases hrun : e.run d with
  | ok a d' => rw [hrun] at h; exact h
  | error cause d' => rw [hrun] at h; exact h

theorem ensures_listing {Q : Except FileError Entries → Desk → Prop} {path : String}
    (h : Q (d.files.list path) d) : Ensures (listing path) d Q E := h

/-- Reading a file is an access to it, which `unread` does not show. -/
theorem ensures_read {Q : Except FileError ByteArray → Desk → Prop} {path : String}
    (hok : ∀ bytes fs, fs.unread = d.files.unread → Q (.ok bytes) { d with files := fs })
    (herror : ∀ cause, Q (.error cause) d) : Ensures (read path) d Q E := by
  refine Ensures.bind (ensures_files ?_)
  cases hread : d.files.read path with
  | error cause => exact ensures_pure (herror cause)
  | ok found =>
    obtain ⟨bytes, fs⟩ := found
    exact Ensures.bind (ensures_setFiles (ensures_pure
      (hok bytes fs (FileSystem.unread_of_read hread))))

/-- A property that every check of a checkout has is one of all of them together. -/
theorem checkCheckout_of_compositional {P : {α : Type} → Edit α → Prop} (h : Compositional P)
    (hthrow : ∀ {α : Type} (cause : Error), P (throw cause : Edit α)) (root : String)
    (c : CheckoutConfig) : P (checkCheckout root c) := by
  have hcheck : ∀ r : Except Error Unit, P (ofExcept r) := by
    intro r
    cases r with
    | ok u => exact h.pure u
    | error cause => exact hthrow cause
  have hsubdir : P (files >>= fun fs => ofExcept (fs.checkRoot (Path.join root c.subdir))) :=
    h.bind h.files fun _ => hcheck _
  have hrevision : P (checkRevision root c.revision) := by
    refine h.bind (h.read _) fun r => ?_
    split
    · exact hthrow _
    · split
      · exact hthrow _
      · exact h.pure _
  refine h.bind h.files fun _ => h.bind (hcheck _) fun _ =>
    h.bind h.files fun _ => h.bind (hcheck _) fun _ => ?_
  by_cases hrev : c.revision ≠ "" <;> by_cases hsub : c.subdir ≠ ""
  · rw [if_pos hsub, if_pos hrev]
    exact h.bind hrevision fun _ => hsubdir
  · rw [if_neg hsub, if_pos hrev]
    exact h.bind hrevision fun _ => h.pure _
  · rw [if_pos hsub, if_neg hrev]
    exact hsubdir
  · rw [if_neg hsub, if_neg hrev]
    exact h.pure _

/-! ## Views of the desk -/

/-- The edit leaves a view of the desk as it is, whether it fails or not. -/
def Preserves {γ : Type} (view : Desk → γ) (e : Edit α) : Prop :=
  ∀ d, Ensures e d (fun _ d' => view d' = view d) (fun _ d' => view d' = view d)

section
variable {γ : Type} {view : Desk → γ}

theorem preserves_pure (a : α) : Preserves view (pure a : Edit α) := fun _ => ensures_pure rfl

theorem preserves_throw (cause : Error) : Preserves view (throw cause : Edit α) :=
  fun _ => ensures_throw rfl

theorem preserves_files : Preserves view files := fun _ => ensures_files rfl

theorem preserves_fileCall (context : String) (r : Except FileError α) :
    Preserves view (fileCall context r) := by
  cases r with
  | ok a => exact preserves_pure a
  | error cause => exact preserves_throw _

theorem Preserves.bind {f : α → Edit β} (h : Preserves view e)
    (hf : ∀ a, Preserves view (f a)) : Preserves view (e >>= f) := by
  intro d
  refine Ensures.bind ((h d).imp (fun a d' hview => ?_) fun _ _ hview => hview)
  rw [← hview]
  exact hf a d'

/-- Reading cannot be seen in a view that does not show accesses. -/
theorem preserves_read
    (hview : ∀ d fs, fs.unread = d.files.unread → view { d with files := fs } = view d)
    (path : String) : Preserves view (read path) :=
  fun d => ensures_read (fun _ fs hfs => hview d fs hfs) fun _ => rfl

theorem compositional_preserves
    (hview : ∀ d fs, fs.unread = d.files.unread → view { d with files := fs } = view d) :
    Compositional fun e => Preserves view e where
  pure := preserves_pure
  files := preserves_files
  read := preserves_read hview
  bind := Preserves.bind

theorem preserves_checkCheckout
    (hview : ∀ d fs, fs.unread = d.files.unread → view { d with files := fs } = view d)
    (root : String) (c : CheckoutConfig) : Preserves view (checkCheckout root c) :=
  checkCheckout_of_compositional (compositional_preserves hview) preserves_throw root c

end

/-! ## Loops -/

/-- **What every step keeps is kept by a loop.** -/
theorem ensures_foldlM {visit : β → α → Edit β} {I : β → Desk → Prop} {xs : List α}
    (hstep : ∀ b x d, x ∈ xs → I b d → Ensures (visit b x) d I E) {b : β} (h : I b d) :
    Ensures (xs.foldlM visit b) d I E := by
  induction xs generalizing b d with
  | nil => exact ensures_pure h
  | cons x xs ih =>
    rw [List.foldlM_cons]
    refine Ensures.bind ?_
    refine (hstep b x d List.mem_cons_self h).imp (fun b' d' h' => ?_) (fun _ _ h => h)
    exact ih (fun b x d hx => hstep b x d (List.mem_cons_of_mem _ hx)) h'

/-- **What every visit keeps is kept by a scan**, whatever it comes upon on the way. -/
theorem ensures_explore {visit : β → ScanItem → Edit β} {I : β → Desk → Prop}
    (hstep : ∀ b i d, I b d → Ensures (visit b i) d I E) (s : Selection) (levels : Nat)
    (path relPath : String) {b : β} (h : I b d) :
    Ensures (explore listing s visit levels path relPath b) d I E := by
  have hown : ∀ entries d b, I b d → Ensures ((ownSources s path relPath entries).foldlM
      (fun b f => visit b ⟨f, none⟩) b) d I E := fun entries d b h =>
    ensures_foldlM (fun b f d _ hb => hstep b ⟨f, none⟩ d hb) h
  induction levels generalizing path relPath b d with
  | zero =>
    rw [explore]
    refine Ensures.bind (ensures_listing ?_)
    cases d.files.list path with
    | error cause => exact hstep b _ d h
    | ok entries =>
      refine Ensures.bind ((hown entries d b h).imp (fun b' d' h' => ?_) fun _ _ h => h)
      exact ensures_pure h'
  | succ below ih =>
    rw [explore]
    refine Ensures.bind (ensures_listing ?_)
    cases d.files.list path with
    | error cause => exact hstep b _ d h
    | ok entries =>
      refine Ensures.bind ((hown entries d b h).imp (fun b' d' h' => ?_) fun _ _ h => h)
      refine ensures_foldlM (fun b name d _ hb => ?_) h'
      exact ih _ _ hb fun entries d b h =>
        ensures_foldlM (fun b f d _ hb => hstep b ⟨f, none⟩ d hb) h

end

/-! ## Editing a file -/

section
variable {d : Desk} {path : String} {mode : Mode} {ignore : IgnoreList} {text : List Char}

theorem ensures_readText (path : String) (d : Desk) : Ensures (readText path) d
    (fun _ d' => d'.trace = d.trace ∧ d'.files.unread = d.files.unread)
    (fun cause d' => cause.isConfig = false ∧ d'.trace = d.trace ∧
      d'.files.unread = d.files.unread) := by
  refine Ensures.bind (ensures_read (fun bytes fs hfs => ?_) fun cause => ?_)
  · dsimp only
    cases String.fromUTF8? bytes with
    | some text => exact ensures_pure ⟨rfl, hfs⟩
    | none => exact ensures_throw ⟨rfl, rfl, hfs⟩
  · exact ensures_throw ⟨rfl, rfl, rfl⟩

theorem ensures_writeText (path : String) (text : List Char) (times : Time × Time) (d : Desk) :
    Ensures (writeText path text times) d (fun _ d' => d'.trace = d.trace)
      (fun cause d' => cause.isConfig = false ∧ d' = d) := by
  refine Ensures.bind (ensures_files ?_)
  split
  · exact ensures_throw ⟨rfl, rfl⟩
  · exact ensures_setFiles rfl

/-- The settings are not to blame for a text that cannot be converted. -/
theorem isConfig_of_convert {cause : Error} (hcheck : ignore.check = .ok ())
    (h : convert mode ignore text = .error cause) (path : String) :
    (placed path cause).isConfig = false := by
  rw [convert, hcheck] at h
  change Conversion.finish _ _ = _ at h
  rw [Conversion.finish.eq_def] at h
  split at h
  · obtain rfl := Except.error.inj h
    rfl
  · cases h
  · split at h
    · cases h
    · split at h
      · cases h
      · split at h <;> cases h

theorem ensures_convertText (path : String) (mode : Mode) (ignore : IgnoreList)
    (text : List Char) (d : Desk) : Ensures (convertText path mode ignore text) d
      (fun c d' => convert mode ignore text = .ok c ∧
        d' = { d with trace := d.trace ++ conversionEvents mode ignore text })
      (fun cause d' => (ignore.check = .ok () → cause.isConfig = false) ∧
        d' = { d with trace := d.trace ++ conversionEvents mode ignore text }) := by
  refine Ensures.bind (ensures_tell ?_)
  cases hconv : convert mode ignore text with
  | ok c => exact ensures_pure ⟨rfl, rfl⟩
  | error cause => exact ensures_throw ⟨fun hcheck => isConfig_of_convert hcheck hconv path, rfl⟩

/-- The events of a conversion, or none if it was not reached. -/
def ConversionTold (mode : Mode) (ignore : IgnoreList) (events : List Event) : Prop :=
  events = [] ∨ ∃ text, events = conversionEvents mode ignore text

/-- What editing a file tells, and what it leaves of the files if it is a dry run.  A
file that is modified is told of with the direction that was taken. -/
structure SourceDone (path : String) (mode : Mode) (ignore : IgnoreList) (options : EditOptions)
    (d : Desk) (r : FileResult) (d' : Desk) : Prop where
  told : ∃ text c, convert mode ignore text = .ok c ∧ r.mode = c.mode ∧
    r.modifications = c.modifications ∧
    d'.trace = d.trace ++ [.fileEntered path mode ignore.render] ++
      conversionEvents mode ignore text ++
      (if c.modifications = 0 then [] else [.fileModified path c.modifications c.mode])
  unread : options.dryRun = true → d'.files.unread = d.files.unread

/-- What editing a file has told when it fails.  The files are as they were, and a list
to ignore that was checked is not to blame. -/
structure SourceFailed (path : String) (mode : Mode) (ignore : IgnoreList) (d : Desk)
    (cause : Error) (d' : Desk) : Prop where
  told : ∃ events, ConversionTold mode ignore events ∧
    d'.trace = d.trace ++ [.fileEntered path mode ignore.render] ++ events
  blameless : ignore.check = .ok () → cause.isConfig = false
  unread : d'.files.unread = d.files.unread

theorem ensures_source (path name : String) (mode : Mode) (ignore : IgnoreList)
    (options : EditOptions) (d : Desk) :
    Ensures (source false path name mode ignore options) d (SourceDone path mode ignore options d)
      (SourceFailed path mode ignore d) := by
  have hentered : ∀ d' : Desk, d'.trace = d.trace ++ [.fileEntered path mode ignore.render] →
      ∃ events, ConversionTold mode ignore events ∧
        d'.trace = d.trace ++ [.fileEntered path mode ignore.render] ++ events := fun d' h =>
    ⟨[], Or.inl rfl, by rw [h, List.append_nil]⟩
  refine Ensures.bind (ensures_tell (Ensures.bind (ensures_files (Ensures.bind ?_))))
  refine ensures_ofFile (fun times => ?_) fun cause => ⟨hentered _ rfl, fun _ => rfl, rfl⟩
  refine Ensures.bind ((ensures_readText path _).imp ?read fun cause d₁ h =>
    ⟨hentered d₁ h.2.1, fun _ => h.1, h.2.2⟩)
  rintro text d₁ ⟨htrace, hunread⟩
  have hconverted : ∃ events, ConversionTold mode ignore events ∧
      d₁.trace ++ conversionEvents mode ignore text =
        d.trace ++ [.fileEntered path mode ignore.render] ++ events :=
    ⟨_, Or.inr ⟨text, rfl⟩, by rw [htrace]⟩
  refine Ensures.bind ((ensures_convertText path mode ignore text d₁).imp ?convert ?failed)
  case failed =>
    rintro cause d₂ ⟨hconfig, rfl⟩
    exact ⟨hconverted, hconfig, hunread⟩
  rintro c d₂ ⟨hconv, rfl⟩
  by_cases hm : c.modifications = 0
  · dsimp only
    rw [if_pos hm]
    refine ensures_pure ⟨⟨text, c, hconv, rfl, rfl, ?_⟩, fun _ => hunread⟩
    rw [if_pos hm, List.append_nil, htrace]
  · dsimp only
    rw [if_neg hm]
    cases hdry : options.dryRun with
    | true =>
      refine Ensures.bind (ensures_tell (ensures_pure
        ⟨⟨text, c, hconv, rfl, rfl, ?_⟩, fun _ => hunread⟩))
      rw [if_neg hm, htrace]
    | false =>
      refine Ensures.bind ((ensures_writeText path c.text times _).imp ?_ ?_)
      · rintro - d₃ htrace₃
        refine Ensures.bind (ensures_tell (ensures_pure ⟨⟨text, c, hconv, rfl, rfl, ?_⟩, ?_⟩))
        · rw [if_neg hm, htrace₃, htrace]
        · rw [hdry]
          exact fun h => nomatch h
      · rintro cause d₃ ⟨hconfig, rfl⟩
        exact ⟨hconverted, fun _ => hconfig, hunread⟩

/-- A file that is refused leaves the desk as it is; after that the settings are no
longer to blame. -/
theorem ensures_file (config : Config) (path : String) (mode : Mode) (ignore : IgnoreList)
    (options : EditOptions) (d : Desk) :
    Ensures (file config false path mode ignore options) d (SourceDone path mode ignore options d)
      (fun cause d' => d' = d ∨ SourceFailed path mode ignore d cause d' ∧
        cause.isConfig = false) := by
  refine Ensures.bind (ensures_ofExcept (fun _ hcheck => ?_) fun _ _ => Or.inl rfl)
  refine Ensures.bind (ensures_files (Ensures.bind ?_))
  refine ensures_ofExcept (fun _ _ => ?_) fun _ _ => Or.inl rfl
  have hcheck : ignore.check = .ok () := by
    cases h : ignore.check with
    | ok u => rfl
    | error cause => rw [h] at hcheck; cases hcheck
  refine (ensures_source path (Path.base path) mode ignore options d).imp (fun _ _ h => h) ?_
  exact fun cause d' h => Or.inr ⟨h, h.blameless hcheck⟩

end
end Edit
end ForwardDecl
