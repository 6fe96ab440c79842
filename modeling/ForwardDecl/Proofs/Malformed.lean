import ForwardDecl.Proofs.Losses

/-! # What a malformed text looks like

Only removing finds a text malformed, and only where it awaits a class
declaration.  From the decorator on it has then read blank lines alone, and the
site keeps the line that was read last, so that a report names a line of the text
in either case: the line that is no class declaration, or the last one, if the
text ends before any other line came (`Reports`).  Both facts are carried from
line to line (`Pass.reached_step`, `Pass.recalls_step`).

A toggling pass that removes has come over quiet lines only.  These bring a
removing pass back outside (`Pass.steps_quiet`), so that toggling reports what
removing reports.  And a pass that removes without an error has met a class
declaration after each decorator at which it was outside (`shape_errors_exact`).
-/
namespace ForwardDecl
open Marked

/-- The nearest line above that is not blank is a decorator. -/
def AfterDecorator (before : List Line) : Prop :=
  ∃ start d gap, before = start ++ d :: gap ∧ stripped d = Marker.decorator ∧
    ∀ b ∈ gap, stripped b = []

/-- What the report of a malformed text says of the lines of the text, of which it names the
`n`-th.  There are two kinds of it. -/
structure Reports (source : List Line) (cause : ShapeError) (n : Nat) : Prop where
  path_eq : cause.path = ""
  line_eq : cause.line = n
  one_le : 1 ≤ n
  le_length : n ≤ source.length
  text_eq : source[n - 1]? = some cause.text
  /-- The line stands where a class declaration has to be, or the text ends before one. -/
  fault :
    cause.reason = "expected class declaration after @forward()" ∧ stripped cause.text ≠ [] ∧
      isClassDeclaration (stripped cause.text) = false ∧ AfterDecorator (source.take (n - 1)) ∨
    cause.reason = "file ends before the class declaration following @forward()" ∧
      n = source.length ∧ AfterDecorator source

/-- A conversion of these lines removes: it is told to, or the first line that tells a direction
tells it to. -/
def Removes (mode : Mode) (ls : List Line) : Prop :=
  mode = .remove ∨ mode = .toggle ∧ ∃ before l after, ls = before ++ l :: after ∧
    (∀ p ∈ before, Quiet p) ∧ SignalsRemoval l

namespace Pass

/-! ## Reports -/

/-- The site keeps the line that was read last, if it keeps one. -/
def Site.Recalls (before : List Line) (site : Site) : Prop :=
  ∀ last, site = .awaitingClass last → before.getLast? = some last

theorem recalls_step {site next : Site} {l : Line} {b : Bool} (before : List Line)
    (hs : Step site l b next) : next.Recalls (before ++ [l]) := by
  intro last hnext
  rw [List.getLast?_concat]
  cases hs with
  | blank hk =>
    cases site with
    | awaitingClass last' =>
      obtain rfl := Site.awaitingClass.inj hnext
      rfl
    | outside | awaitingContinuation => cases hnext
  | decorator hk =>
    obtain rfl := Site.awaitingClass.inj hnext
    rfl
  | loose hk hs | plain hk hd hs | head hk hc | body hk ho | opener hk => cases hnext

theorem expectedClass_eq : expectedClass = "expected class declaration after @forward()" := by
  decide

theorem endsBeforeClass_eq :
    endsBeforeClass = "file ends before the class declaration following @forward()" := by
  decide

/-- The report of a text that ends where a class declaration is awaited. -/
theorem reports_end {before : List Line} {last : Line} (hd : AfterDecorator before)
    (hl : before.getLast? = some last) :
    Reports before ⟨"", before.length, last, endsBeforeClass⟩ before.length := by
  have hpos : 0 < before.length := by
    obtain ⟨start, d, gap, rfl, -⟩ := hd
    rw [List.length_append, List.length_cons]
    omega
  refine ⟨rfl, rfl, hpos, Nat.le_refl _, ?_, Or.inr ⟨endsBeforeClass_eq, rfl, hd⟩⟩
  rw [← List.getLast?_eq_getElem?]
  exact hl

/-- The report of a line that is no class declaration where one is awaited. -/
theorem reports_line {before ls : List Line} {l s : Line} (hd : AfterDecorator before)
    (hk : lineKind l = .code s) (hc : isClassDeclaration s = false) :
    Reports (before ++ l :: ls) ⟨"", (before.length : Int) + 1, l, expectedClass⟩
      (before.length + 1) := by
  obtain ⟨rfl, hne, -⟩ := lineKind_eq_code_iff.mp hk
  refine ⟨rfl, rfl, Nat.succ_pos _, by simp, by simp, Or.inl ⟨expectedClass_eq, hne, hc, ?_⟩⟩
  rwa [Nat.add_sub_cancel, List.take_left]

/-- **What a removing pass reports**, after the lines `before` that brought it to its site. -/
theorem reports_of_remove {site : Site} {before ls : List Line} {cause : ShapeError}
    (hr : site.Reached before) (hl : site.Recalls before)
    (h : (remove before.length site ls).ending = .malformed cause) :
    ∃ n, Reports (before ++ ls) cause n := by
  induction ls generalizing before site with
  | nil =>
    cases site with
    | outside | awaitingContinuation => cases h
    | awaitingClass last =>
      obtain rfl := Ending.malformed.inj h
      rw [List.append_nil]
      exact ⟨_, reports_end hr (hl last rfl)⟩
  | cons l ls ih =>
    rcases step_or_stop site l before.length ls with
      ⟨b, next, hs⟩ | ⟨reason, -, he⟩ | ⟨last, s, rfl, hk, hc, he⟩
    · rw [remove_of_step hs, Ending.prepend_eq_malformed_iff] at h
      rw [List.append_cons]
      apply ih (reached_step hr hs) (recalls_step before hs)
      rwa [List.length_append, List.length_singleton]
    · rw [he] at h
      cases h
    · rw [he] at h
      obtain rfl := Ending.malformed.inj h
      exact ⟨_, reports_line hr hk hc⟩

/-! ## Directions -/

/-- Over quiet lines a removing pass comes back outside. -/
theorem steps_quiet {before : List Line} (h : ∀ p ∈ before, Quiet p) :
    ∃ marked, Steps .outside marked .outside ∧ lines marked = before := by
  induction before with
  | nil => exact ⟨[], .nil, rfl⟩
  | cons p before ih =>
    obtain ⟨⟨hb, -, -, hd⟩, hbefore⟩ := List.forall_mem_cons.mp h
    obtain ⟨marked, hm, rfl⟩ := ih hbefore
    rcases lineKind_of_not_bars hb with hk | hk
    · have hstep : Step .outside p true .outside := .blank hk
      exact ⟨(p, true) :: marked, .cons hstep hm, rfl⟩
    · cases hs : Marker.isLoose (stripped p) with
      | true => exact ⟨(p, false) :: marked, .cons (.loose hk hs) hm, rfl⟩
      | false => exact ⟨(p, true) :: marked, .cons (.plain hk hd hs) hm, rfl⟩

/-- **A pass that finds its text malformed removes**, and removing finds the same. -/
theorem remove_of_malformed {mode : Mode} {ignore : IgnoreList} {ls : List Line}
    {cause : ShapeError} (h : (run mode ignore ls).ending = .malformed cause) :
    Removes mode ls ∧ (remove 0 .outside ls).ending = .malformed cause := by
  obtain ⟨before, rest, rfl, hq, he, hdirection⟩ := removing_of_run ignore ls h nofun nofun
  constructor
  · rcases hdirection with ⟨hm, -⟩ | ⟨hm, l, after, rfl, hs⟩
    · exact Or.inl hm
    · exact Or.inr ⟨hm, before, l, after, rfl, hq, hs⟩
  · have hrest := Ending.prepend_eq_malformed_iff.mp he.symm
    obtain ⟨marked, hm, rfl⟩ := steps_quiet hq
    rw [remove_of_steps hm, Ending.prepend_eq_malformed_iff, Nat.zero_add]
    rwa [lines, List.length_map] at hrest

/-! ## Decorators with their class -/

/-- After the lines `above` a removing pass has not stopped and is at this site. -/
def ComesTo (above : List Line) (site : Site) : Prop :=
  ∃ marked, Steps .outside marked site ∧ lines marked = above

/-- A pass that comes to its end has found a class declaration after each decorator at which it
was outside. -/
theorem classFollows_of_complete {above below out : List Line} {d : Line} {mode : Mode} {n : Nat}
    (h : (remove 0 .outside (above ++ d :: below)).ending = .complete mode out n)
    (ha : ComesTo above .outside) (hd : stripped d = Marker.decorator) : ClassFollows below := by
  have hk : lineKind d = .code Marker.decorator :=
    lineKind_eq_code_iff.mpr ⟨hd, by decide, by decide, by decide⟩
  obtain ⟨marked, hm, rfl⟩ := ha
  rw [remove_of_steps hm, remove_of_step (.decorator hk)] at h
  obtain ⟨rest, k, hrest, -⟩ := Ending.prepend_eq_complete_iff.mp h
  obtain ⟨rest, k, hrest, -⟩ := Ending.prepend_eq_complete_iff.mp hrest
  obtain ⟨later, last, hsteps, hlast, rfl, -⟩ := steps_of_remove hrest
  exact classFollows_of_steps hsteps hlast

end Pass

/-! ## Conversions -/

/-- **The errors of a conversion are exact.**  Adding gives a result.  Every error is the report
of a malformed text: the conversion removes, removing gives the same error, and the report names
a line of the text and one of the two faults.  Conversely, if removing gives a result and is not
skipped, each decorator that it met outside of declarations has a class declaration as the next
line that is not blank. -/
theorem shape_errors_exact (ignore : IgnoreList) (text : List Char) (hc : ignore.check = .ok ()) :
    (∃ r, convert .add ignore text = .ok r) ∧
    (∀ mode err, convert mode ignore text = .error err →
      ∃ cause n, err = .shape cause ∧ Removes mode (splitLines text) ∧
        convert .remove ignore text = .error err ∧ Reports (splitLines text) cause n) ∧
    (∀ r, convert .remove ignore text = .ok r → r.skipped = none →
      ∀ above d below, splitLines text = above ++ d :: below →
        stripped d = Marker.decorator → Pass.ComesTo above .outside → ClassFollows below) := by
  refine ⟨convert_add_ok hc text, ?_, ?_⟩
  · intro mode err h
    obtain ⟨cause, rfl, he⟩ := (convert_eq_error_iff hc).mp h
    obtain ⟨hremoves, hremove⟩ := Pass.remove_of_malformed he
    have hstart : Pass.Site.outside.Reached [] := trivial
    obtain ⟨n, hn⟩ := Pass.reports_of_remove hstart (fun _ => nofun) hremove
    exact ⟨cause, n, rfl, hremoves, (convert_eq_error_iff hc).mpr ⟨cause, rfl, hremove⟩, hn⟩
  · intro r h hs above d below hsplit hd ha
    have hmode := (convert_eq_ok_iff.mp h).2.mode?_eq
    have hm : r.mode ≠ .add := by
      rw [Pass.remove_mode hmode]
      decide
    obtain ⟨out, n, -, he, -⟩ := (convert_eq_ok_iff.mp h).2.kept hm hs
    rw [hsplit] at he
    exact Pass.classFollows_of_complete he ha hd

/-- A class declaration over two lines, a text that ends in blank lines, and two decorators of
which only the first is met outside. -/
theorem shape_errors_exact_each :
    (∃ cause n, convert .toggle [] "\n@forward()\n\nclass A(\n    B):\n".toList =
        .error (.shape cause) ∧ cause.line = 4 ∧
      Removes .toggle (splitLines "\n@forward()\n\nclass A(\n    B):\n".toList) ∧
      Reports (splitLines "\n@forward()\n\nclass A(\n    B):\n".toList) cause n) ∧
    (∃ cause n, convert .remove [] "import os\n@forward()\n \n".toList =
        .error (.shape cause) ∧ cause.line = 3 ∧
      Reports (splitLines "import os\n@forward()\n \n".toList) cause n) ∧
    ∃ r, convert .remove [] "x = 1\n@forward()\n\nclass A:\n@forward()\nclass _____:\n".toList =
        .ok r ∧ r.skipped = none ∧
      ClassFollows (["", "class A:", "@forward()", "class _____:"].map String.toList) := by
  refine ⟨?_, ?_, ?_⟩
  · have h : convert .toggle [] "\n@forward()\n\nclass A(\n    B):\n".toList =
        .error (.shape ⟨"", 4, "class A(".toList, Pass.expectedClass⟩) := by decide +kernel
    obtain ⟨cause, n, hcause, hremoves, -, hreports⟩ :=
      (shape_errors_exact [] _ rfl).2.1 .toggle _ h
    obtain rfl := Error.shape.inj hcause
    exact ⟨_, n, h, rfl, hremoves, hreports⟩
  · have h : convert .remove [] "import os\n@forward()\n \n".toList =
        .error (.shape ⟨"", 3, " ".toList, Pass.endsBeforeClass⟩) := by decide +kernel
    obtain ⟨cause, n, hcause, -, -, hreports⟩ := (shape_errors_exact [] _ rfl).2.1 .remove _ h
    obtain rfl := Error.shape.inj hcause
    exact ⟨_, n, h, rfl, hreports⟩
  · have h : convert .remove []
        "x = 1\n@forward()\n\nclass A:\n@forward()\nclass _____:\n".toList =
        .ok ⟨["x = 1", "", "class A:"].map String.toList, .remove, 3, none⟩ := by decide +kernel
    have hsplit : splitLines "x = 1\n@forward()\n\nclass A:\n@forward()\nclass _____:\n".toList =
        ["x = 1".toList] ++ "@forward()".toList ::
          ["", "class A:", "@forward()", "class _____:"].map String.toList := by decide +kernel
    have hstep : Pass.Step .outside "x = 1".toList true .outside :=
      .plain (s := "x = 1".toList) (by decide +kernel) (by decide) (by decide)
    exact ⟨_, h, rfl, (shape_errors_exact [] _ rfl).2.2 _ h rfl _ _ _ hsplit (by decide +kernel)
      ⟨[("x = 1".toList, true)], .cons hstep .nil, rfl⟩⟩

end ForwardDecl
