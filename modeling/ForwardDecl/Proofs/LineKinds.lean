import Mathlib.Data.List.TakeWhile
import Mathlib.Data.List.TakeDrop
import ForwardDecl.Conversion.Pass
import ForwardDecl.Proofs.Lines

/-! # What the passes see of a line

A pass looks at a line through `lineKind`, and that is decided by the stripped
form.  This module reads the kind off the stripped form in both directions, says
which lines begin a class, and gives the kinds of the lines that adding makes
up: padding in front of a marker changes nothing (`stripped_append`), so each of
them is the marker it was built from.
-/
namespace ForwardDecl

/-! ## Kinds -/

theorem lineKind_eq_blank_iff {l : Line} : lineKind l = .blank ↔ stripped l = [] := by
  constructor
  · intro h
    by_contra hs
    simp only [lineKind, if_neg hs] at h
    split at h
    · cases h
    · split at h <;> cases h
  · intro h
    simp [lineKind, h]

theorem lineKind_eq_code_iff {l s : Line} : lineKind l = .code s ↔
    stripped l = s ∧ s ≠ [] ∧ s ≠ Marker.sentinel ∧ Marker.isRejected s = false := by
  constructor
  · intro h
    simp only [lineKind] at h
    split at h
    · cases h
    · rename_i hne
      split at h
      · cases h
      · rename_i hs
        split at h
        · cases h
        · rename_i hr
          obtain rfl : stripped l = s := LineKind.code.inj h
          exact ⟨rfl, hne, hs, Bool.eq_false_iff.mpr hr⟩
  · rintro ⟨rfl, hne, hs, hr⟩
    simp [lineKind, hne, hs, hr]

theorem stripped_of_lineKind_code {l s : Line} (h : lineKind l = .code s) : stripped l = s :=
  (lineKind_eq_code_iff.mp h).1

/-- The line bars its text from being modified. -/
def Bars (l : Line) : Prop := stripped l = Marker.sentinel ∨ Marker.isRejected (stripped l) = true

instance (l : Line) : Decidable (Bars l) := inferInstanceAs (Decidable (_ ∨ _))

theorem bars_of_lineKind {l : Line} {reason : SkipReason} (h : lineKind l = .barred reason) :
    Bars l := by
  by_contra hb
  obtain ⟨hs, hr⟩ := not_or.mp hb
  by_cases he : stripped l = []
  · rw [lineKind_eq_blank_iff.mpr he] at h
    cases h
  · rw [lineKind_eq_code_iff.mpr ⟨rfl, he, hs, Bool.eq_false_iff.mpr hr⟩] at h
    cases h

theorem not_bars_of_lineKind_blank {l : Line} (h : lineKind l = .blank) : ¬ Bars l := by
  rw [Bars, lineKind_eq_blank_iff.mp h]
  decide

theorem not_bars_of_lineKind_code {l s : Line} (h : lineKind l = .code s) : ¬ Bars l := by
  obtain ⟨rfl, -, hs, hr⟩ := lineKind_eq_code_iff.mp h
  rintro (hb | hb)
  · exact hs hb
  · rw [hr] at hb
    cases hb

/-- A line that does not bar its text is blank or code. -/
theorem lineKind_of_not_bars {l : Line} (h : ¬ Bars l) :
    lineKind l = .blank ∨ lineKind l = .code (stripped l) := by
  cases hk : lineKind l with
  | blank => exact Or.inl rfl
  | barred reason => exact absurd (bars_of_lineKind hk) h
  | code s => exact Or.inr (by rw [stripped_of_lineKind_code hk])

/-! ## Markers -/

/-- The marker lines that removing leaves out wherever they stand outside a
forward declaration. -/
def Marker.fixed : List Line := [importLine, deleteForward, deleteContinue, decorator]

theorem Marker.mem_fixed_iff {s : Line} :
    s ∈ fixed ↔ isLoose s = true ∨ s = decorator := by
  simp only [fixed, isLoose, List.mem_cons, List.not_mem_nil, or_false, Bool.or_eq_true,
    decide_eq_true_eq, or_assoc]

/-- A fixed marker is code. -/
theorem lineKind_of_mem_fixed {l : Line} (h : stripped l ∈ Marker.fixed) :
    lineKind l = .code (stripped l) := by
  have hcode : ∀ s ∈ Marker.fixed,
      s ≠ [] ∧ s ≠ Marker.sentinel ∧ Marker.isRejected s = false := by decide
  exact lineKind_eq_code_iff.mpr ⟨rfl, hcode _ h⟩

/-! ## Padding -/

/-- Padding in front does not show in the stripped form. -/
theorem stripped_append {pad : Line} (h : ∀ c ∈ pad, isPad c = true) (l : Line) :
    stripped (pad ++ l) = stripped l := by
  unfold stripped trimWhile
  rw [List.dropWhile_append_of_pos h]

/-- A text between two characters that are no padding is its own stripped form. -/
theorem stripped_eq_self {c d : Char} (hc : isPad c = false) (hd : isPad d = false) (m : Line) :
    stripped (c :: (m ++ [d])) = c :: (m ++ [d]) := by
  have hfront : (c :: (m ++ [d])).dropWhile isPad = c :: (m ++ [d]) := by
    rw [List.dropWhile_cons_of_neg (by simp [hc])]
  have hback : (c :: (m ++ [d])).reverse = d :: (c :: m).reverse := by
    rw [← List.cons_append, List.reverse_append]
    rfl
  unfold stripped trimWhile dropEndWhile
  rw [hfront, hback, List.dropWhile_cons_of_neg (by simp [hd]), ← hback, List.reverse_reverse]

theorem isPad_of_mem_indentOf {l : Line} {c : Char} (h : c ∈ indentOf l) : isPad c = true :=
  List.mem_takeWhile_imp h

/-! ## Class declarations -/

theorem startsClass_of_declaredClass? {s name : Line} (h : declaredClass? s = some name) :
    startsClass s = true := by
  unfold declaredClass? at h
  split at h
  · rename_i hc
    exact (Bool.and_eq_true_iff.mp hc).1
  · cases h

theorem isClassDeclaration_of_declaredClass? {s name : Line} (h : declaredClass? s = some name) :
    isClassDeclaration s = true := by
  unfold declaredClass? at h
  split at h
  · assumption
  · cases h

/-- The characters of a declared class name are letters, digits and
underscores. -/
theorem isNameChar_of_declaredClass? {s name : Line} (h : declaredClass? s = some name) {c : Char}
    (hc : c ∈ name) : isNameChar c = true := by
  unfold declaredClass? className? at h
  rw [List.span_eq_takeWhile_dropWhile] at h
  split at h
  · split at h
    · split at h
      · cases h
      · rename_i heq
        split at h
        · obtain rfl := Option.some.inj h
          exact List.mem_takeWhile_imp ((Prod.mk.inj heq).1 ▸ hc)
        · cases h
      · cases h
    · cases h
  · cases h

theorem startsClass_decorator : startsClass Marker.decorator = false := by decide

theorem startsClass_importLine : startsClass Marker.importLine = false := by decide

/-! ## The lines that adding makes up -/

section Generated
variable (l : Line) (name : List Char)

theorem stripped_indented (m : Line) : stripped (indentOf l ++ m) = stripped m :=
  stripped_append (fun _ hc => isPad_of_mem_indentOf hc) m

theorem lineKind_decorator : lineKind (indentOf l ++ Marker.decorator) = .code Marker.decorator :=
  lineKind_eq_code_iff.mpr
    ⟨by rw [stripped_indented]; decide, by decide, by decide, by decide⟩

theorem lineKind_opener : lineKind (indentOf l ++ Marker.opener) = .code Marker.opener :=
  lineKind_eq_code_iff.mpr
    ⟨by rw [stripped_indented]; decide, by decide, by decide, by decide⟩

theorem lineKind_placeholder : lineKind (indentOf l ++ Marker.placeholder) = .code "...".toList :=
  lineKind_eq_code_iff.mpr
    ⟨by rw [stripped_indented]; decide, by decide, by decide, by decide⟩

theorem continuation_eq :
    Marker.continuation name = '@' :: 'c' :: ("ontinue_(".toList ++ name ++ [')']) := rfl

theorem lineKind_continuation : lineKind (indentOf l ++ Marker.continuation name) =
    .code (Marker.continuation name) := by
  rw [continuation_eq]
  refine lineKind_eq_code_iff.mpr ⟨?_, List.cons_ne_nil _ _, ?_, ?_⟩
  · rw [stripped_indented]
    exact stripped_eq_self (by decide) (by decide) ('c' :: ("ontinue_(".toList ++ name))
  · intro h
    exact absurd (List.cons.inj h).1 (by decide)
  · simp [Marker.isRejected, Marker.rejected, List.isPrefixOf]

theorem continuation_ne_opener : Marker.continuation name ≠ Marker.opener := by
  rw [continuation_eq]
  intro h
  exact absurd (List.cons.inj h).1 (by decide)

theorem unbroken_indented {m : Line} (h : Unbroken m) : Unbroken (indentOf l ++ m) :=
  (unbroken_of_forall (fun _ hc => isPad_of_mem_indentOf hc) (by decide) (by decide)).append h

end Generated

/-- A line and the name in it give unbroken lines. -/
theorem unbroken_forwardLines {l name : Line} (hl : Unbroken l)
    (hn : ∀ c ∈ name, isNameChar c = true) : ∀ m ∈ forwardLines l name, Unbroken m := by
  have hname : Unbroken name := unbroken_of_forall hn (by decide) (by decide)
  have hcont : Unbroken (Marker.continuation name) :=
    (Unbroken.append (by decide) hname).append (by decide)
  intro m hm
  simp only [forwardLines, List.mem_cons, List.not_mem_nil, or_false] at hm
  rcases hm with rfl | rfl | rfl | rfl | rfl
  · exact unbroken_indented l (by decide)
  · exact hl
  · exact unbroken_indented l (by decide)
  · exact unbroken_indented l hcont
  · exact unbroken_indented l (by decide)

/-- A declaration bars a text only if the line of its class does. -/
theorem not_bars_forwardLines {l : Line} (name : List Char) (hl : ¬ Bars l) :
    ∀ m ∈ forwardLines l name, ¬ Bars m := by
  intro m hm
  simp only [forwardLines, List.mem_cons, List.not_mem_nil, or_false] at hm
  rcases hm with rfl | rfl | rfl | rfl | rfl
  · exact not_bars_of_lineKind_code (lineKind_decorator l)
  · exact hl
  · exact not_bars_of_lineKind_code (lineKind_placeholder l)
  · exact not_bars_of_lineKind_code (lineKind_continuation l name)
  · exact not_bars_of_lineKind_code (lineKind_opener l)

end ForwardDecl
