import ForwardDecl.Proofs.Declaring

/-! # What an ignore list can influence

An ignore list is consulted only while declarations are added, and only by asking
whether a line number or a class name is on it.  Both halves compare two runs over
one text, with a list each.

A removing pass has no list to look at.  A toggling pass hands its list on to the
pass that it goes over to, so that two of them keep in step up to the line that
tells the direction: from there on they are the same pass, or both add.  Endings
that are related in this way are `Alike`, each line keeps them so, and hence so does
a whole pass (`Pass.toggle_alike`).  Two lists with the same members answer every
question in the same way, and then even adding cannot tell them apart
(`Pass.run_of_same_answers`).
-/
namespace ForwardDecl

/-! ## Endings that differ only by adding -/

/-- Two endings that are the same, unless both come from adding. -/
def Ending.Alike (e₁ e₂ : Ending) : Prop :=
  e₁ = e₂ ∨ e₁.mode? = some .add ∧ e₂.mode? = some .add

namespace Ending.Alike
variable {e₁ e₂ : Ending}

theorem refl (e : Ending) : Alike e e := Or.inl rfl

theorem prepend (h : Alike e₁ e₂) (lines : List Line) (n : Nat) :
    Alike (e₁.prepend lines n) (e₂.prepend lines n) := by
  rcases h with rfl | ⟨h₁, h₂⟩
  · exact refl _
  · exact Or.inr ⟨by rw [mode?_prepend, h₁], by rw [mode?_prepend, h₂]⟩

end Ending.Alike

namespace Pass

/-- One line keeps two toggling passes alike. -/
theorem toggle_cons_alike {l₁ l₂ : IgnoreList} {read : Nat} {ls : List Line}
    (h : Ending.Alike (toggle l₁ (read + 1) ls).ending (toggle l₂ (read + 1) ls).ending)
    (l : Line) :
    Ending.Alike (toggle l₁ read (l :: ls)).ending (toggle l₂ read (l :: ls)).ending := by
  by_cases hq : Quiet l
  · -- a quiet line is copied, and the question is left to the lines below it
    have hl : ∀ p ∈ [l], Quiet p := by simpa using hq
    have hcopy : ∀ ignore, (toggle ignore read (l :: ls)).ending =
        (toggle ignore (read + 1) ls).ending.prepend [l] 0 := by
      intro ignore
      exact toggle_quiet ignore read ls hl
    rw [hcopy, hcopy]
    exact h.prepend [l] 0
  · rcases of_not_quiet hq with hb | ⟨hb, hc | hs⟩
    · -- both stop here, for the reason that the line gives
      have hbar : ∀ ignore, (toggle ignore read (l :: ls)).ending =
          (toggle [] read (l :: ls)).ending := by
        intro ignore
        cases hk : lineKind l with
        | blank => exact absurd hb (not_bars_of_lineKind_blank hk)
        | code s => exact absurd hb (not_bars_of_lineKind_code hk)
        | barred reason => simp [toggle, hk]
      rw [hbar l₁, hbar l₂]
      exact .refl _
    · rw [toggle_class _ _ _ hb hc, toggle_class _ _ _ hb hc]
      exact Or.inr ⟨add_mode l₁ read _, add_mode l₂ read _⟩
    · rw [toggle_signal _ _ _ hs, toggle_signal _ _ _ hs]
      exact .refl _

/-- **Toggling passes keep in step, whatever their ignore lists**, until both of them add. -/
theorem toggle_alike (l₁ l₂ : IgnoreList) (read : Nat) (ls : List Line) :
    Ending.Alike (toggle l₁ read ls).ending (toggle l₂ read ls).ending := by
  induction ls generalizing read with
  | nil => exact .refl _
  | cons l ls ih => exact toggle_cons_alike (ih (read + 1)) l

end Pass

namespace Conversion
variable {source : List Line} {e₁ e₂ : Ending}

/-- An ending with a direction finishes in it, and does not fail. -/
theorem map_mode_finish {mode : Mode} (h : e₁.mode? = some mode) :
    (finish source e₁).map Converted.mode = .ok mode := by
  cases hf : finish source e₁ with
  | ok r =>
    have hmode := (finish_eq_ok_iff.mp hf).mode?_eq
    obtain rfl := Option.some.inj (h.symm.trans hmode)
    rfl
  | error err =>
    obtain ⟨cause, -, rfl⟩ := finish_eq_error hf
    cases h

/-- Endings that are alike finish in the same direction, or fail in the same way. -/
theorem map_mode_finish_congr (h : Ending.Alike e₁ e₂) :
    (finish source e₁).map Converted.mode = (finish source e₂).map Converted.mode := by
  rcases h with rfl | ⟨h₁, h₂⟩
  · rfl
  · rw [map_mode_finish h₁, map_mode_finish h₂]

/-- Endings that are alike give one result, unless it comes from adding. -/
theorem finish_of_alike {r : Converted} (h : Ending.Alike e₁ e₂) (hr : finish source e₁ = .ok r)
    (hm : r.mode ≠ .add) : finish source e₂ = .ok r := by
  rcases h with rfl | ⟨h₁, -⟩
  · exact hr
  · have hmode := (finish_eq_ok_iff.mp hr).mode?_eq
    exact absurd (Option.some.inj (hmode.symm.trans h₁)) hm

end Conversion

/-! ## Lists with the same members -/

namespace IgnoreList
variable {l₁ l₂ : IgnoreList}

/-- Two lists that nothing which is asked of a list tells apart. -/
structure SameAnswers (l₁ l₂ : IgnoreList) : Prop where
  lines : ∀ number, l₁.ignoresLine number = l₂.ignoresLine number
  classes : ∀ name, l₁.ignoresClass name = l₂.ignoresClass name

/-- The answers depend only on which line numbers and which class names are listed. -/
theorem SameAnswers.of_mem (hlines : ∀ n, n ∈ l₁.lines ↔ n ∈ l₂.lines)
    (hclasses : ∀ c, c ∈ l₁.classes ↔ c ∈ l₂.classes) : SameAnswers l₁ l₂ where
  lines number := by
    rw [Bool.eq_iff_iff, ← mem_lines_iff, ← mem_lines_iff]
    exact hlines number
  classes name := by
    rw [Bool.eq_iff_iff, ← mem_classes_iff, ← mem_classes_iff]
    exact hclasses (String.ofList name)

end IgnoreList

namespace Pass
variable {l₁ l₂ : IgnoreList}

theorem add_of_same_answers (h : l₁.SameAnswers l₂) (read : Nat) (ls : List Line) :
    add l₁ read ls = add l₂ read ls := by
  induction ls generalizing read with
  | nil => rfl
  | cons l ls ih => simp only [add, h.lines, h.classes, ih]

theorem toggle_of_same_answers (h : l₁.SameAnswers l₂) (read : Nat) (ls : List Line) :
    toggle l₁ read ls = toggle l₂ read ls := by
  induction ls generalizing read with
  | nil => rfl
  | cons l ls ih => simp only [toggle, add_of_same_answers h, ih]

/-- **No pass tells lists with the same members apart**, in its ending or in its trace. -/
theorem run_of_same_answers (h : l₁.SameAnswers l₂) (mode : Mode) (ls : List Line) :
    run mode l₁ ls = run mode l₂ ls := by
  cases mode with
  | add => exact add_of_same_answers h 0 ls
  | remove => rfl
  | toggle => exact toggle_of_same_answers h 0 ls

end Pass

/-! ## Two conversions of one text -/

/-- **Ignore lists only influence adding, and only as sets.**  With any two lists in order, removing
gives the same result or the same error, and toggling finds the same direction or fails with the
same error, and gives the same result if it does not add.  Lists with the same line numbers and the
same class names give the same in every mode, whatever their order and however often they repeat an
entry. -/
theorem ignore_influences_adding {l₁ l₂ : IgnoreList} (h₁ : l₁.check = .ok ())
    (h₂ : l₂.check = .ok ()) (text : List Char) :
    convert .remove l₁ text = convert .remove l₂ text ∧
    (convert .toggle l₁ text).map Converted.mode = (convert .toggle l₂ text).map Converted.mode ∧
    (∀ r, convert .toggle l₁ text = .ok r → r.mode ≠ .add → convert .toggle l₂ text = .ok r) ∧
    ((∀ n, n ∈ l₁.lines ↔ n ∈ l₂.lines) → (∀ c, c ∈ l₁.classes ↔ c ∈ l₂.classes) →
      ∀ mode, convert mode l₁ text = convert mode l₂ text) := by
  simp only [convert_of_check h₁, convert_of_check h₂]
  have halike := Pass.toggle_alike l₁ l₂ 0 (splitLines text)
  refine ⟨rfl, Conversion.map_mode_finish_congr halike, ?_, ?_⟩
  · intro r hr hm
    exact Conversion.finish_of_alike halike hr hm
  · intro hlines hclasses mode
    rw [Pass.run_of_same_answers (.of_mem hlines hclasses)]

/-- Two lists that differ in order and in a repeated entry, over a text in which each entry keeps a
class from being declared; and two that differ altogether, over a text that toggling takes the
declaration out of. -/
theorem ignore_influences_adding_repeated :
    (∀ mode,
      convert mode [.ofLine 3, .ofClass "A", .ofLine 3] "class A:\nclass B:\nclass C:".toList =
        convert mode [.ofClass "A", .ofLine 3] "class A:\nclass B:\nclass C:".toList) ∧
    ∃ r, r.mode = .remove ∧
      convert .toggle [.ofClass "A", .ofLine 2] "@forward()\nclass A:\nclass _____:".toList =
        .ok r ∧
      convert .toggle [] "@forward()\nclass A:\nclass _____:".toList = .ok r := by
  constructor
  · refine (ignore_influences_adding (by decide) (by decide) _).2.2.2 ?_ ?_
    · intro n
      rfl
    · intro c
      rfl
  · have h : convert .toggle [.ofClass "A", .ofLine 2] "@forward()\nclass A:\nclass _____:".toList =
        .ok ⟨["class A:".toList], .remove, 2, none⟩ := by decide +kernel
    exact ⟨_, rfl, h, (ignore_influences_adding (by decide) (by decide) _).2.2.1 _ h (by decide)⟩

end ForwardDecl
