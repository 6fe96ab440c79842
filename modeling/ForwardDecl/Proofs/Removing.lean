import ForwardDecl.Proofs.Endings
import ForwardDecl.Proofs.LineKinds

/-! # Removing, step by step

A *marked* text is a list of lines, each with a mark that says whether the line
is kept.  A removing pass is a run of small steps over a marked text (`Step`,
`Steps`): from its site, the kind of the next line decides the mark of the line
and the next site.  `remove_of_steps` and `steps_of_remove` tie the runs to the
pass, so that a property of removing is a property of a step, carried along a
run.
-/
namespace ForwardDecl

/-! ## Marked texts -/

namespace Marked

/-- All lines of a marked text. -/
def lines (marked : List (Line × Bool)) : List Line := marked.map Prod.fst

/-- The lines that are kept. -/
def kept (marked : List (Line × Bool)) : List Line := (marked.filter Prod.snd).map Prod.fst

/-- The number of lines that are left out. -/
def leftOut (marked : List (Line × Bool)) : Nat := marked.countP (!·.2)

variable (marked later : List (Line × Bool)) (l : Line)

@[simp] theorem lines_nil : lines [] = [] := rfl
@[simp] theorem lines_cons (b : Bool) : lines ((l, b) :: marked) = l :: lines marked := rfl
@[simp] theorem lines_append : lines (marked ++ later) = lines marked ++ lines later :=
  List.map_append

@[simp] theorem kept_nil : kept [] = [] := rfl
@[simp] theorem kept_cons_true : kept ((l, true) :: marked) = l :: kept marked := rfl
@[simp] theorem kept_cons_false : kept ((l, false) :: marked) = kept marked := rfl
@[simp] theorem kept_append : kept (marked ++ later) = kept marked ++ kept later := by
  simp [kept]

@[simp] theorem leftOut_nil : leftOut [] = 0 := rfl
@[simp] theorem leftOut_cons_true : leftOut ((l, true) :: marked) = leftOut marked := by
  simp [leftOut]
@[simp] theorem leftOut_cons_false : leftOut ((l, false) :: marked) = leftOut marked + 1 := by
  simp [leftOut]
@[simp] theorem leftOut_append : leftOut (marked ++ later) = leftOut marked + leftOut later :=
  List.countP_append

/-! A text of which every line is kept. -/

@[simp] theorem lines_map_true (ls : List Line) : lines (ls.map (·, true)) = ls := by
  simp [lines, Function.comp_def]
@[simp] theorem kept_map_true (ls : List Line) : kept (ls.map (·, true)) = ls := by
  induction ls with
  | nil => rfl
  | cons l ls ih => rw [List.map_cons, kept_cons_true, ih]
@[simp] theorem leftOut_map_true (ls : List Line) : leftOut (ls.map (·, true)) = 0 := by
  simp [leftOut]

theorem kept_cons (b : Bool) : kept ((l, b) :: marked) = kept [(l, b)] ++ kept marked := by
  cases b <;> rfl

theorem leftOut_cons (b : Bool) :
    leftOut ((l, b) :: marked) = leftOut [(l, b)] + leftOut marked := by
  cases b <;> simp [Nat.add_comm]

end Marked

namespace Pass
open Marked

/-! ## Steps of a removing pass -/

/-- The site after a blank line: it becomes the line that was read last. -/
def Site.afterBlank (l : Line) : Site → Site
  | .awaitingClass _ => .awaitingClass l
  | site => site

/-- A text may end here. -/
def Site.Closed (site : Site) : Prop := ∀ last, site ≠ .awaitingClass last

theorem Site.closed_outside : Site.outside.Closed := by
  intro last h
  cases h

/-- One step of a removing pass: at a site, the line is kept or left out, as the
mark says, and the pass goes on at the next site. -/
inductive Step : Site → Line → Bool → Site → Prop
  | blank {site : Site} {l : Line} (hk : lineKind l = .blank) :
      Step site l true (site.afterBlank l)
  | decorator {l : Line} (hk : lineKind l = .code Marker.decorator) :
      Step .outside l false (.awaitingClass l)
  | loose {l s : Line} (hk : lineKind l = .code s) (hs : Marker.isLoose s = true) :
      Step .outside l false .outside
  | plain {l s : Line} (hk : lineKind l = .code s) (hd : s ≠ Marker.decorator)
      (hs : Marker.isLoose s = false) : Step .outside l true .outside
  | head {last l s : Line} (hk : lineKind l = .code s) (hc : isClassDeclaration s = true) :
      Step (.awaitingClass last) l true .awaitingContinuation
  | body {l s : Line} (hk : lineKind l = .code s) (ho : s ≠ Marker.opener) :
      Step .awaitingContinuation l false .awaitingContinuation
  | opener {l : Line} (hk : lineKind l = .code Marker.opener) :
      Step .awaitingContinuation l false .outside

/-- A run of steps over a marked text. -/
inductive Steps : Site → List (Line × Bool) → Site → Prop
  | nil {site : Site} : Steps site [] site
  | cons {site next last : Site} {l : Line} {b : Bool} {marked : List (Line × Bool)}
      (hs : Step site l b next) (ht : Steps next marked last) : Steps site ((l, b) :: marked) last

theorem Steps.append {site mid last : Site} {marked later : List (Line × Bool)}
    (h : Steps site marked mid) (h' : Steps mid later last) :
    Steps site (marked ++ later) last := by
  induction h with
  | nil => exact h'
  | cons hs _ ih => exact .cons hs (ih h')

/-- Where a class declaration is awaited, a run that may end keeps all lines up to one. -/
theorem awaited_of_steps {last : Line} {site : Site} {marked : List (Line × Bool)}
    (h : Steps (.awaitingClass last) marked site) (hc : site.Closed) :
    ∃ (gap : List Line) (c : Line) (rest : List (Line × Bool)),
      marked = gap.map (·, true) ++ (c, true) :: rest ∧
      (∀ b ∈ gap, stripped b = []) ∧ isClassDeclaration (stripped c) = true := by
  generalize hw : Site.awaitingClass last = start at h
  induction h generalizing last with
  | nil => exact absurd hw.symm (hc last)
  | @cons _ next _ l b marked hs ht ih =>
    subst hw
    cases hs with
    | blank hk =>
      -- the class is still awaited, with one more line in the gap
      obtain ⟨gap, c, rest, rfl, hgap, hcd⟩ := ih hc rfl
      exact ⟨l :: gap, c, rest, rfl,
        List.forall_mem_cons.mpr ⟨lineKind_eq_blank_iff.mp hk, hgap⟩, hcd⟩
    | head hk hcd =>
      rw [← stripped_of_lineKind_code hk] at hcd
      exact ⟨[], l, marked, rfl, fun m hm => (nomatch hm), hcd⟩

/-- Outside a forward declaration, lines without markers are kept one by one. -/
theorem steps_plain {ls : List Line} (h : ∀ l ∈ ls, ¬ Bars l ∧ stripped l ∉ Marker.fixed) :
    Steps .outside (ls.map (·, true)) .outside := by
  induction ls with
  | nil => exact .nil
  | cons l ls ih =>
    obtain ⟨⟨hb, hf⟩, hls⟩ := List.forall_mem_cons.mp h
    rcases lineKind_of_not_bars hb with hk | hk
    · have hstep : Step .outside l true .outside := .blank hk
      exact .cons hstep (ih hls)
    · obtain ⟨hs, hd⟩ := not_or.mp (mt Marker.mem_fixed_iff.mpr hf)
      exact .cons (.plain hk hd (Bool.eq_false_iff.mpr hs)) (ih hls)

theorem isLoose_decorator : Marker.isLoose Marker.decorator = false := by decide

/-- What a step does to the ending of the pass. -/
theorem remove_of_step {site next : Site} {l : Line} {b : Bool} (h : Step site l b next)
    (read : Nat) (ls : List Line) :
    (remove read site (l :: ls)).ending =
      (remove (read + 1) next ls).ending.prepend (kept [(l, b)]) (leftOut [(l, b)]) := by
  cases h with
  | blank hk => cases site <;> simp [remove, hk, Site.afterBlank]
  | decorator hk => simp [remove, hk]
  | @loose _ s hk hs =>
    -- the pass asks for the decorator first, which is not one of the loose markers
    have hd : s ≠ Marker.decorator := by
      rintro rfl
      exact absurd hs (by simp [isLoose_decorator])
    simp [remove, hk, hs, hd]
  | plain hk hd hs => simp [remove, hk, hd, hs]
  | head hk hc => simp [remove, hk, hc]
  | body hk ho => simp [remove, hk, ho]
  | opener hk => simp [remove, hk]

/-- **A run tells how the pass goes on after it.** -/
theorem remove_of_steps {site last : Site} {marked : List (Line × Bool)}
    (h : Steps site marked last) (read : Nat) (ls : List Line) :
    (remove read site (lines marked ++ ls)).ending =
      (remove (read + marked.length) last ls).ending.prepend (kept marked) (leftOut marked) := by
  induction h generalizing read with
  | nil => simp
  | @cons site next last l b marked hs _ ih =>
    rw [lines_cons, List.cons_append, remove_of_step hs, ih, Ending.prepend_prepend,
      ← kept_cons, ← leftOut_cons, List.length_cons, Nat.add_assoc, Nat.add_comm 1]

/-- A run that may end gives a complete pass. -/
theorem remove_complete_of_steps {site last : Site} {marked : List (Line × Bool)}
    (h : Steps site marked last) (hl : last.Closed) (read : Nat) :
    (remove read site (lines marked)).ending =
      .complete .remove (kept marked) (leftOut marked) := by
  have hend : (remove (read + marked.length) last []).ending = .complete .remove [] 0 := by
    cases last with
    | outside => rfl
    | awaitingClass last => exact absurd rfl (hl last)
    | awaitingContinuation => rfl
  have hrun := remove_of_steps h read []
  rw [hend, List.append_nil] at hrun
  simpa [Ending.prepend] using hrun

/-- **Where a pass stops.**  A line either is a step, or it bars the text, or it
stands where a class declaration has to be. -/
theorem step_or_stop (site : Site) (l : Line) (read : Nat) (ls : List Line) :
    (∃ b next, Step site l b next) ∨
    (∃ reason, lineKind l = .barred reason ∧
      (remove read site (l :: ls)).ending = .untouched .remove reason) ∨
    ∃ last s, site = .awaitingClass last ∧ lineKind l = .code s ∧ isClassDeclaration s = false ∧
      (remove read site (l :: ls)).ending = .malformed ⟨"", read + 1, l, expectedClass⟩ := by
  cases hk : lineKind l with
  | blank => exact Or.inl ⟨true, _, .blank hk⟩
  | barred reason => exact Or.inr (Or.inl ⟨reason, rfl, by simp [remove, hk]⟩)
  | code s =>
    cases site with
    | outside =>
      by_cases hd : s = Marker.decorator
      · subst hd
        exact Or.inl ⟨false, _, .decorator hk⟩
      · cases hs : Marker.isLoose s with
        | true => exact Or.inl ⟨false, _, .loose hk hs⟩
        | false => exact Or.inl ⟨true, _, .plain hk hd hs⟩
    | awaitingClass last =>
      cases hc : isClassDeclaration s with
      | true => exact Or.inl ⟨true, _, .head hk hc⟩
      | false => exact Or.inr (Or.inr ⟨last, s, rfl, rfl, hc, by simp [remove, hk, hc]⟩)
    | awaitingContinuation =>
      by_cases ho : s = Marker.opener
      · subst ho
        exact Or.inl ⟨false, _, .opener hk⟩
      · exact Or.inl ⟨false, _, .body hk ho⟩

/-- A text without markers is kept as it is, unless one of its lines bars it. -/
theorem remove_unmarked {ls : List Line} (h : ∀ l ∈ ls, stripped l ∉ Marker.fixed) (read : Nat) :
    (remove read .outside ls).ending = .complete .remove ls 0 ∨
      ∃ reason, (remove read .outside ls).ending = .untouched .remove reason := by
  induction ls generalizing read with
  | nil => exact Or.inl rfl
  | cons l ls ih =>
    obtain ⟨hl, hls⟩ := List.forall_mem_cons.mp h
    have hkept : Step .outside l true .outside →
        (remove read .outside (l :: ls)).ending = .complete .remove (l :: ls) 0 ∨
          ∃ reason, (remove read .outside (l :: ls)).ending = .untouched .remove reason := by
      intro hs
      rw [remove_of_step hs]
      rcases ih hls (read + 1) with he | ⟨reason, he⟩
      · exact Or.inl (by rw [he]; rfl)
      · exact Or.inr ⟨reason, by rw [he]; rfl⟩
    cases hk : lineKind l with
    | blank => exact hkept (.blank hk)
    | barred reason => exact Or.inr ⟨reason, by simp [remove, hk]⟩
    | code s =>
      rw [← stripped_of_lineKind_code hk] at hk
      obtain ⟨hs, hd⟩ := not_or.mp (mt Marker.mem_fixed_iff.mpr hl)
      exact hkept (.plain hk hd (Bool.eq_false_iff.mpr hs))

/-- A removing pass reports no other direction. -/
theorem remove_mode {site : Site} {ls : List Line} {read : Nat} {mode : Mode}
    (h : (remove read site ls).ending.mode? = some mode) : mode = .remove := by
  induction ls generalizing read site with
  | nil =>
    cases site with
    | awaitingClass last => cases h
    | outside | awaitingContinuation => exact (Option.some.inj h).symm
  | cons l ls ih =>
    rcases step_or_stop site l read ls with ⟨b, next, hs⟩ | ⟨reason, -, he⟩ | ⟨_, _, -, -, -, he⟩
    · rw [remove_of_step hs, Ending.mode?_prepend] at h
      exact ih h
    · rw [he] at h
      exact (Option.some.inj h).symm
    · rw [he] at h
      cases h

/-- **A pass that comes to the end of the text is a run of steps.** -/
theorem steps_of_remove {site : Site} {ls out : List Line} {read n : Nat} {mode : Mode}
    (h : (remove read site ls).ending = .complete mode out n) :
    ∃ marked last, Steps site marked last ∧ last.Closed ∧ lines marked = ls ∧
      kept marked = out ∧ leftOut marked = n := by
  induction ls generalizing read site out n with
  | nil =>
    refine ⟨[], site, .nil, ?_, rfl, ?_⟩
    · rintro last rfl
      cases h
    · cases site with
      | awaitingClass last => cases h
      | outside | awaitingContinuation =>
        obtain ⟨-, rfl, rfl⟩ := Ending.complete.inj h
        exact ⟨rfl, rfl⟩
  | cons l ls ih =>
    -- a line at which the pass stops would not let it complete
    rcases step_or_stop site l read ls with ⟨b, next, hs⟩ | ⟨reason, -, he⟩ | ⟨_, _, -, -, -, he⟩
    · rw [remove_of_step hs] at h
      obtain ⟨rest, m, hrest, rfl, rfl⟩ := Ending.prepend_eq_complete_iff.mp h
      obtain ⟨marked, last, hm, hl, rfl, rfl, rfl⟩ := ih hrest
      exact ⟨(l, b) :: marked, last, .cons hs hm, hl, rfl, kept_cons _ _ _, leftOut_cons _ _ _⟩
    · rw [he] at h
      cases h
    · rw [he] at h
      cases h

end Pass
end ForwardDecl
