import ForwardDecl.Proofs.Toggling

/-! # What removing can lose

A line stands *in a declaration* (`InDeclaration`) when there is a decorator
above it, then only blank lines, then a class declaration, and no opener since.
Outside of declarations removing leaves out only the fixed marker lines.  Inside
of one it leaves out every line that is not blank, whatever it says, because it
takes all of them for the placeholder and the head of the continuation.  A class
body that was written there by hand is lost without an error
(`remove_loses_body`); what is certain is that nothing else is lost
(`remove_loses_only_declarations`).

The one shape that removing insists on is that a decorator outside of
declarations is followed by its class declaration (`Headed`).  A text that does
not have it is malformed.
-/
namespace ForwardDecl
open Marked

/-- The lines `before` end in a declaration: a decorator, blank lines, a class
declaration, and no opener since. -/
def InDeclaration (before : List Line) : Prop :=
  ∃ start d gap c body, before = start ++ d :: (gap ++ c :: body) ∧
    stripped d = Marker.decorator ∧ (∀ b ∈ gap, stripped b = []) ∧
    isClassDeclaration (stripped c) = true ∧ ∀ b ∈ body, stripped b ≠ Marker.opener

/-- The next line that is not blank is a class declaration. -/
def ClassFollows (after : List Line) : Prop :=
  ∃ gap c rest, after = gap ++ c :: rest ∧ (∀ b ∈ gap, stripped b = []) ∧
    isClassDeclaration (stripped c) = true

/-- A line that removing may leave out after the lines `before`. -/
def Expendable (before : List Line) (l : Line) : Prop :=
  stripped l ∈ Marker.fixed ∨ stripped l ≠ [] ∧ InDeclaration before

/-- Every line of a marked text that is left out is expendable after the lines
`before` and those of the text above it. -/
def Spares (before : List Line) (marked : List (Line × Bool)) : Prop :=
  ∀ above l below, marked = above ++ (l, false) :: below →
    Expendable (before ++ lines above) l

/-- After the lines `before`, each decorator outside of declarations is followed
by its class declaration. -/
def Headed (before ls : List Line) : Prop :=
  ∀ above d below, ls = above ++ d :: below → stripped d = Marker.decorator →
    ¬ InDeclaration (before ++ above) → ClassFollows below

section
variable {before : List Line} {l : Line} {b : Bool} {marked : List (Line × Bool)}
  {ls : List Line}

theorem Spares.nil : Spares before [] := by
  intro above l below h
  simp at h

theorem Spares.cons (h : Spares (before ++ [l]) marked) (hl : b = false → Expendable before l) :
    Spares before ((l, b) :: marked) := by
  intro above m below hsplit
  rcases List.cons_eq_append_iff.mp hsplit with ⟨rfl, hc⟩ | ⟨above', rfl, rfl⟩
  · obtain ⟨hm, -⟩ := List.cons.inj hc
    obtain ⟨rfl, hb⟩ := Prod.mk.inj hm
    rw [lines_nil, List.append_nil]
    exact hl hb.symm
  · have := h above' m below rfl
    rwa [List.append_assoc] at this

theorem Headed.nil : Headed before [] := by
  intro above d below h
  simp at h

theorem Headed.cons (h : Headed (before ++ [l]) ls)
    (hl : stripped l = Marker.decorator → ¬ InDeclaration before → ClassFollows ls) :
    Headed before (l :: ls) := by
  intro above d below hsplit hd hin
  rcases List.cons_eq_append_iff.mp hsplit with ⟨rfl, hc⟩ | ⟨above', rfl, rfl⟩
  · obtain ⟨rfl, rfl⟩ := List.cons.inj hc
    rw [List.append_nil] at hin
    exact hl hd hin
  · refine h above' d below rfl hd ?_
    rwa [List.append_assoc]

theorem InDeclaration.snoc (h : InDeclaration before) (hl : stripped l ≠ Marker.opener) :
    InDeclaration (before ++ [l]) := by
  obtain ⟨start, d, gap, c, body, rfl, hd, hgap, hc, hbody⟩ := h
  refine ⟨start, d, gap, c, body ++ [l], by simp, hd, hgap, hc, ?_⟩
  intro m hm
  rcases List.mem_append.mp hm with hm | hm
  · exact hbody m hm
  · rw [List.mem_singleton.mp hm]
    exact hl

end

namespace Pass

/-! ## Along a run -/

/-- What the lines above say of the site that a removing pass has come to. -/
def Site.Reached (before : List Line) : Site → Prop
  | .outside => True
  | .awaitingClass _ => ∃ start d gap, before = start ++ d :: gap ∧
      stripped d = Marker.decorator ∧ ∀ b ∈ gap, stripped b = []
  | .awaitingContinuation => InDeclaration before

theorem empty_ne_opener : ([] : Line) ≠ Marker.opener := by decide

/-- A step keeps account of the lines above. -/
theorem reached_step {site next : Site} {l : Line} {b : Bool} {before : List Line}
    (hr : site.Reached before) (hs : Step site l b next) : next.Reached (before ++ [l]) := by
  cases hs with
  | blank hk =>
    have hl := lineKind_eq_blank_iff.mp hk
    cases site with
    | outside => trivial
    | awaitingClass last =>
      obtain ⟨start, d, gap, rfl, hd, hgap⟩ := hr
      refine ⟨start, d, gap ++ [l], by simp, hd, ?_⟩
      intro m hm
      rcases List.mem_append.mp hm with hm | hm
      · exact hgap m hm
      · rw [List.mem_singleton.mp hm, hl]
    | awaitingContinuation => exact InDeclaration.snoc hr (hl ▸ empty_ne_opener)
  | decorator hk =>
    exact ⟨before, l, [], rfl, stripped_of_lineKind_code hk, fun m hm => by cases hm⟩
  | loose hk hs => trivial
  | plain hk hd hs => trivial
  | head hk hc =>
    obtain ⟨start, d, gap, rfl, hd, hgap⟩ := hr
    rw [← stripped_of_lineKind_code hk] at hc
    exact ⟨start, d, gap, l, [], by simp, hd, hgap, hc, fun m hm => by cases hm⟩
  | body hk ho =>
    rw [← stripped_of_lineKind_code hk] at ho
    exact InDeclaration.snoc hr ho
  | opener hk => trivial

/-- A step leaves out only what is expendable. -/
theorem expendable_of_step {site next : Site} {l : Line} {before : List Line}
    (hr : site.Reached before) (hs : Step site l false next) : Expendable before l := by
  cases hs with
  | decorator hk =>
    exact Or.inl (Marker.mem_fixed_iff.mpr (Or.inr (stripped_of_lineKind_code hk)))
  | loose hk hs =>
    rw [← stripped_of_lineKind_code hk] at hs
    exact Or.inl (Marker.mem_fixed_iff.mpr (Or.inl hs))
  | body hk ho =>
    obtain ⟨rfl, hne, -⟩ := lineKind_eq_code_iff.mp hk
    exact Or.inr ⟨hne, hr⟩
  | opener hk =>
    refine Or.inr ⟨?_, hr⟩
    rw [stripped_of_lineKind_code hk]
    exact empty_ne_opener.symm

/-- **A run spares everything that is not expendable.** -/
theorem spares_of_steps {site last : Site} {marked : List (Line × Bool)} {before : List Line}
    (h : Steps site marked last) (hr : site.Reached before) : Spares before marked := by
  induction h generalizing before with
  | nil => exact .nil
  | cons hs _ ih =>
    refine .cons (ih (reached_step hr hs)) ?_
    rintro rfl
    exact expendable_of_step hr hs

/-- A run that may end goes on to a class declaration where one is awaited. -/
theorem classFollows_of_steps {last : Line} {site : Site} {marked : List (Line × Bool)}
    (h : Steps (.awaitingClass last) marked site) (hc : site.Closed) :
    ClassFollows (lines marked) := by
  obtain ⟨gap, c, rest, rfl, hgap, hcd⟩ := awaited_of_steps h hc
  exact ⟨gap, c, lines rest, by simp, hgap, hcd⟩

theorem isClassDeclaration_decorator : isClassDeclaration Marker.decorator = false := by decide

/-- **A run that may end is over a headed text.** -/
theorem headed_of_steps {site last : Site} {marked : List (Line × Bool)} {before : List Line}
    (h : Steps site marked last) (hl : last.Closed) (hr : site.Reached before) :
    Headed before (lines marked) := by
  induction h generalizing before with
  | nil => exact .nil
  | @cons site next _ l b marked hs ht ih =>
    refine .cons (ih hl (reached_step hr hs)) ?_
    intro hd hin
    -- only outside of declarations, where it opens one, is a decorator at issue
    cases hs with
    | blank hk =>
      rw [lineKind_eq_blank_iff.mp hk] at hd
      cases hd
    | decorator hk => exact classFollows_of_steps ht hl
    | loose hk hs =>
      rw [← stripped_of_lineKind_code hk, hd, isLoose_decorator] at hs
      cases hs
    | plain hk hne hs => exact absurd ((stripped_of_lineKind_code hk).symm.trans hd) hne
    | head hk hc =>
      rw [← stripped_of_lineKind_code hk, hd, isClassDeclaration_decorator] at hc
      cases hc
    | body hk ho => exact absurd hr hin
    | opener hk => exact absurd hr hin

/-- Lines that are kept in front change nothing, as long as none is a decorator. -/
theorem spares_headed_append (start : List Line) {before : List Line}
    {marked : List (Line × Bool)} (hq : ∀ p ∈ before, stripped p ≠ Marker.decorator)
    (hs : Spares (start ++ before) marked) (hh : Headed (start ++ before) (lines marked)) :
    Spares start (before.map (·, true) ++ marked) ∧ Headed start (before ++ lines marked) := by
  induction before generalizing start with
  | nil =>
    rw [List.append_nil] at hs hh
    exact ⟨hs, hh⟩
  | cons p before ih =>
    obtain ⟨hp, hq⟩ := List.forall_mem_cons.mp hq
    rw [List.append_cons] at hs hh
    obtain ⟨ihs, ihh⟩ := ih (start ++ [p]) hq hs hh
    exact ⟨.cons ihs (fun h => by cases h), .cons ihh (fun h => absurd h hp)⟩

/-- **What a pass that removes has done to its lines**, whether it was asked to
or found out by itself. -/
theorem marked_of_run {mode : Mode} {ignore : IgnoreList} {ls out : List Line} {n : Nat}
    (h : (run mode ignore ls).ending = .complete .remove out n) :
    ∃ marked, lines marked = ls ∧ kept marked = out ∧ Spares [] marked ∧ Headed [] ls := by
  obtain ⟨before, rest, rfl, hq, he, -⟩ := removing_of_run ignore ls h nofun nofun
  obtain ⟨out', m, hrest, rfl, -⟩ := Ending.prepend_eq_complete_iff.mp he.symm
  obtain ⟨marked, last, hs, hl, rfl, rfl, -⟩ := steps_of_remove hrest
  obtain ⟨hsp, hh⟩ := spares_headed_append [] (fun p hp => (hq p hp).2.2.2)
    (spares_of_steps hs trivial) (headed_of_steps hs hl trivial)
  refine ⟨before.map (·, true) ++ marked, ?_, ?_, hsp, hh⟩
  · rw [lines_append, lines_map_true]
  · rw [kept_append, kept_map_true]

end Pass

/-! ## Conversions -/

/-- A conversion that is not skipped and does not add keeps what its pass keeps,
less at most two empty lines at the end. -/
theorem Conversion.Finished.kept {source : List Line} {e : Ending} {r : Converted}
    (h : Finished source e r) (hm : r.mode ≠ .add) (hs : r.skipped = none) :
    ∃ out n k, e = .complete r.mode out n ∧ k ≤ 2 ∧ out = r.lines ++ List.replicate k [] := by
  cases h with
  | untouched mode reason => cases hs
  | empty mode n => cases hs
  | @unmodified mode out hl => exact ⟨out, 0, 0, rfl, Nat.zero_le 2, by simp⟩
  | added hl hn => exact absurd rfl hm
  | @cut mode out n hm hl hn =>
    obtain ⟨k, hk, he⟩ := Conversion.cutTail_append_replicate out
    exact ⟨out, n, k, rfl, hk, he.symm⟩

/-- **Removing loses only what stands in declarations.**  When a conversion
removes and is neither skipped nor in error, each line of the text that is not in
the result is a fixed marker, or it stands in a declaration and is not blank, or
it is one of at most two empty lines at the end of what was kept.  A text in
which a decorator outside of declarations lacks its class declaration never gets
so far: it is malformed, unless it is skipped or toggling finds that it is to be
added to. -/
theorem remove_loses_only_declarations (mode : Mode) (ignore : IgnoreList) (text : List Char)
    (hc : ignore.check = .ok ()) :
    (∀ r, convert mode ignore text = .ok r → r.mode = .remove → r.skipped = none →
      ∃ marked k, lines marked = splitLines text ∧ k ≤ 2 ∧
        kept marked = r.lines ++ List.replicate k [] ∧
        ∀ above l below, marked = above ++ (l, false) :: below → Expendable (lines above) l) ∧
    (¬ Headed [] (splitLines text) →
      (∃ cause, convert mode ignore text = .error (.shape cause)) ∨
      ∃ r, convert mode ignore text = .ok r ∧ (r.mode ≠ .remove ∨ r.skipped ≠ none)) := by
  -- both halves rest on what is known of the pass when nothing went wrong
  have key : ∀ r, convert mode ignore text = .ok r → r.mode = .remove → r.skipped = none →
      ∃ marked k, lines marked = splitLines text ∧ k ≤ 2 ∧
        kept marked = r.lines ++ List.replicate k [] ∧ Spares [] marked ∧
        Headed [] (splitLines text) := by
    intro r h hm hs
    obtain ⟨out, n, k, he, hk, rfl⟩ :=
      (convert_eq_ok_iff.mp h).2.kept (by rw [hm]; decide) hs
    rw [hm] at he
    obtain ⟨marked, hlines, hkept, hsp, hh⟩ := Pass.marked_of_run he
    exact ⟨marked, k, hlines, hk, hkept, hsp, hh⟩
  constructor
  · intro r h hm hs
    obtain ⟨marked, k, hlines, hk, hkept, hsp, -⟩ := key r h hm hs
    exact ⟨marked, k, hlines, hk, hkept, hsp⟩
  · intro hn
    cases h : convert mode ignore text with
    | error err =>
      rw [convert_of_check hc] at h
      obtain ⟨cause, rfl, -⟩ := Conversion.finish_eq_error h
      exact Or.inl ⟨cause, rfl⟩
    | ok r =>
      refine Or.inr ⟨r, rfl, ?_⟩
      by_contra hboth
      obtain ⟨hm, hs⟩ := not_or.mp hboth
      obtain ⟨-, -, -, -, -, -, hh⟩ := key r h (not_not.mp hm) (not_not.mp hs)
      exact hn hh

/-- Two empty lines go, and so does all that stands between the class and its
opener; but a decorator has to be followed by a class. -/
theorem remove_loses_only_declarations_mixed :
    (∃ marked k, lines marked =
        splitLines "x = 1\n@forward()\nclass A:\n    ...\nclass _____:\n    y = 2\n\n\n\n".toList ∧
      k ≤ 2 ∧ kept marked = ["x = 1", "class A:", "    y = 2", ""].map String.toList ++
        List.replicate k [] ∧
      ∀ above l below, marked = above ++ (l, false) :: below → Expendable (lines above) l) ∧
    ∃ cause, convert .remove [] "@forward()\nx = 1\n".toList = .error (.shape cause) := by
  constructor
  · have h : convert .toggle []
        "x = 1\n@forward()\nclass A:\n    ...\nclass _____:\n    y = 2\n\n\n\n".toList =
        .ok ⟨["x = 1", "class A:", "    y = 2", ""].map String.toList, .remove, 5, none⟩ := by
      decide +kernel
    exact (remove_loses_only_declarations .toggle [] _ rfl).1 _ h rfl rfl
  · have hn : ¬ Headed [] (splitLines "@forward()\nx = 1\n".toList) := by
      intro hh
      have hsplit : splitLines "@forward()\nx = 1\n".toList =
        [] ++ "@forward()".toList :: ["x = 1".toList] := by decide +kernel
      have hout : ¬ InDeclaration ([] ++ []) := by
        rintro ⟨start, d, gap, c, body, he, -⟩
        simp at he
      obtain ⟨gap, c, rest, he, hgap, hc⟩ := hh _ _ _ hsplit (by decide +kernel) hout
      rcases gap with _ | ⟨g, gap⟩
      · obtain ⟨rfl, -⟩ := List.cons.inj he
        exact absurd hc (by decide +kernel)
      · obtain ⟨rfl, -⟩ := List.cons.inj he
        exact absurd (hgap _ List.mem_cons_self) (by decide +kernel)
    rcases (remove_loses_only_declarations .remove [] _ rfl).2 hn with hcause | ⟨r, hr, -⟩
    · exact hcause
    · have herr : (convert .remove [] "@forward()\nx = 1\n".toList).isOk = false := by
        decide +kernel
      rw [hr] at herr
      cases herr

/-- **A body in front of the opener is lost.**  The text is read without an error,
and yet a line is missing from the result that adding never makes up. -/
theorem remove_loses_body :
    ∃ r, convert .remove []
        "@forward()\nclass A:\n    x = 1\n@continue_(A)\nclass _____:\n    pass\n".toList = .ok r ∧
      r.mode = .remove ∧ r.skipped = none ∧
      ∃ l ∈ splitLines
        "@forward()\nclass A:\n    x = 1\n@continue_(A)\nclass _____:\n    pass\n".toList,
        l ∉ r.lines ∧ l ≠ [] ∧ stripped l ∉ Marker.fixed ∧ stripped l ≠ "...".toList ∧
        stripped l ≠ Marker.opener ∧ ¬ "@continue_(".toList <+: stripped l := by
  refine ⟨⟨["class A:".toList, "    pass".toList], .remove, 4, none⟩, by decide +kernel, rfl, rfl,
    "    x = 1".toList, by decide +kernel⟩

end ForwardDecl
