import ForwardDecl.Proofs.Toggling

/-! # Lines are neither made up nor lost

A conversion counts the lines that it puts in or leaves out, and it does nothing
else to a text.  Adding only puts lines in, so that the source is a subsequence
of the result; removing only leaves lines out, so that the result is a
subsequence of the source; and the count is the difference of the lengths
(`lines_conserved`).

For a pass this is plain from its marked text, in which the lines that are kept
are a subsequence of all lines and the others are counted.  Head and tail of a
conversion keep the balance: they count what they put in, and what they cut.
-/
namespace ForwardDecl
open Marked

namespace Marked
variable (marked : List (Line × Bool))

theorem kept_sublist_lines : (kept marked).Sublist (lines marked) :=
  List.filter_sublist.map Prod.fst

/-- Each line is either kept or left out. -/
theorem length_lines : (lines marked).length = (kept marked).length + leftOut marked := by
  induction marked with
  | nil => rfl
  | cons m marked ih =>
    obtain ⟨l, b⟩ := m
    rw [lines_cons, List.length_cons, ih]
    cases b with
    | true =>
      rw [kept_cons_true, leftOut_cons_true, List.length_cons]
      omega
    | false =>
      rw [kept_cons_false, leftOut_cons_false]
      omega

end Marked

/-- The lines `out` come from the lines of `source` by `n` modifications in one
direction: as many lines are put in, or left out.  A text whose direction was not
found is not modified. -/
def Conserves (source out : List Line) (n : Nat) : Mode → Prop
  | .add => source.Sublist out ∧ out.length = source.length + n
  | .remove => out.Sublist source ∧ out.length + n = source.length
  | .toggle => out = source ∧ n = 0

theorem Conserves.refl (source : List Line) (mode : Mode) : Conserves source source 0 mode := by
  cases mode with
  | add | remove => exact ⟨List.Sublist.refl source, rfl⟩
  | toggle => exact ⟨rfl, rfl⟩

/-- Without a modification every line is where it was. -/
theorem Conserves.eq {source out : List Line} {mode : Mode} (h : Conserves source out 0 mode) :
    out = source := by
  cases mode with
  | add => exact (h.1.eq_of_length h.2.symm).symm
  | remove => exact h.1.eq_of_length h.2
  | toggle => exact h.1

/-- A modification shows in the number of lines. -/
theorem Conserves.length_ne {source out : List Line} {n : Nat} {mode : Mode}
    (h : Conserves source out n mode) (hn : 0 < n) : out.length ≠ source.length := by
  cases mode with
  | add | remove | toggle =>
    have := h.2
    omega

namespace Pass

/-! ## Passes -/

/-- What a pass that read all lines has put out, in each direction that it can
report. -/
inductive Output (ignore : IgnoreList) (ls : List Line) : Mode → List Line → Nat → Prop
  | added : Output ignore ls .add (lines (additions ignore 0 ls)) (leftOut (additions ignore 0 ls))
  | removed {marked : List (Line × Bool)} (hm : lines marked = ls) :
      Output ignore ls .remove (kept marked) (leftOut marked)
  | unresolved : Output ignore ls .toggle ls 0

section
variable {ignore : IgnoreList} {ls out : List Line} {n : Nat} {mode mode' : Mode}

theorem output_add (h : (add ignore 0 ls).ending = .complete mode out n) :
    Output ignore ls mode out n := by
  have hmode := add_mode ignore 0 ls
  rw [h] at hmode
  obtain rfl : mode = .add := Option.some.inj hmode
  obtain ⟨rfl, rfl, -⟩ := add_complete h
  exact .added

/-- A removing pass that begins after some lines that were kept. -/
theorem output_remove {read : Nat} (before : List Line)
    (h : (remove read .outside ls).ending = .complete mode out n) :
    Output ignore (before ++ ls) mode (before ++ out) n := by
  have hmode : mode = .remove := by
    apply remove_mode
    rw [h]
    rfl
  obtain ⟨marked, -, -, -, rfl, rfl, rfl⟩ := steps_of_remove h
  rw [hmode]
  have hout : Output ignore (before ++ lines marked) .remove
      (kept (before.map (·, true) ++ marked)) (leftOut (before.map (·, true) ++ marked)) :=
    .removed (by rw [lines_append, lines_map_true])
  simpa using hout

/-- **What every pass puts out**, whatever direction it was asked for. -/
theorem output_of_complete (h : (run mode ignore ls).ending = .complete mode' out n) :
    Output ignore ls mode' out n := by
  cases mode with
  | add => exact output_add h
  | remove => exact output_remove [] h
  | toggle =>
    have hres := toggle_resolution ignore 0 ls
    rw [show (toggle ignore 0 ls).ending = _ from h] at hres
    generalize he : Ending.complete mode' out n = e at hres
    cases hres with
    | unresolved hq =>
      obtain ⟨rfl, rfl, rfl⟩ := Ending.complete.inj he
      exact .unresolved
    | barred hq hb reason => cases he
    | adds hq hc => exact output_add he.symm
    | removes hq hs =>
      -- the lines before the one that told the direction were copied
      obtain ⟨rest, m, hrest, rfl, rfl⟩ := Ending.prepend_eq_complete_iff.mp he.symm
      rw [Nat.zero_add]
      exact output_remove _ hrest

theorem Output.conserves (h : Output ignore ls mode out n) : Conserves ls out n mode := by
  cases h with
  | added =>
    have hsub := kept_sublist_lines (additions ignore 0 ls)
    have hlen := length_lines (additions ignore 0 ls)
    rw [kept_additions] at hsub hlen
    exact ⟨hsub, hlen⟩
  | @removed marked hm =>
    subst hm
    exact ⟨kept_sublist_lines marked, (length_lines marked).symm⟩
  | unresolved => exact .refl _ _

theorem Output.unbroken (h : Output ignore ls mode out n) (hls : ∀ l ∈ ls, Unbroken l) :
    ∀ l ∈ out, Unbroken l := by
  cases h with
  | added => exact unbroken_additions hls
  | @removed marked hm =>
    subst hm
    exact fun l hl => hls l ((kept_sublist_lines marked).subset hl)
  | unresolved => exact hls

end
end Pass

namespace Conversion

/-! ## Head and tail -/

section
variable {source out : List Line} {n : Nat} {mode : Mode} {e : Ending} {r : Converted}

theorem insertImport_sublist (index : Nat) (ls : List Line) :
    ls.Sublist (insertImport index ls) := by
  have hsub : (ls.take index ++ ls.drop index).Sublist (insertImport index ls) :=
    (List.Sublist.refl _).append (List.sublist_cons_self _ _)
  rwa [List.take_append_drop] at hsub

/-- A line of what adding gives was put out by its pass, or it is the import, or it belongs to
the cleanup. -/
theorem mem_added {index : Nat} {ls : List Line} {m : Line}
    (hm : m ∈ insertImport index ls ++ tail) : m ∈ ls ∨ m = Marker.importLine ∨ m ∈ tail := by
  rcases List.mem_append.mp hm with hm | hm
  · rcases List.mem_append.mp hm with hm | hm
    · exact Or.inl (List.mem_of_mem_take hm)
    · rcases List.mem_cons.mp hm with rfl | hm
      · exact Or.inr (Or.inl rfl)
      · exact Or.inl (List.mem_of_mem_drop hm)
  · exact Or.inr (Or.inr hm)

theorem length_insertImport (index : Nat) (ls : List Line) :
    (insertImport index ls).length = ls.length + 1 := by
  have hlen := congrArg List.length (List.take_append_drop index ls)
  rw [List.length_append] at hlen
  rw [insertImport, List.length_append, List.length_cons]
  omega

theorem cutTail_isPrefix (ls : List Line) : cutTail ls <+: ls := by
  obtain ⟨k, -, he⟩ := cutTail_append_replicate ls
  exact ⟨_, he⟩

/-- Import and cleanup are five lines. -/
theorem conserves_added (h : Conserves source out n .add) (index : Nat) :
    Conserves source (insertImport index out ++ tail) (n + 5) .add := by
  obtain ⟨hsub, hlen⟩ := h
  constructor
  · exact (hsub.trans (insertImport_sublist index out)).trans (List.sublist_append_left _ _)
  · have htail : tail.length = 4 := rfl
    rw [List.length_append, length_insertImport, htail, hlen]
    omega

/-- What is cut from the end is counted. -/
theorem conserves_cut (h : Conserves source out n .remove) :
    Conserves source (cutTail out) (n + (out.length - (cutTail out).length)) .remove := by
  obtain ⟨hsub, hlen⟩ := h
  have hcut := cutTail_isPrefix out
  refine ⟨hcut.sublist.trans hsub, ?_⟩
  have := hcut.length_le
  omega

theorem Finished.conserves (h : Finished source e r) (hs : r.skipped ≠ some .empty)
    (he : ∀ mode out n, e = .complete mode out n → Conserves source out n mode) :
    Conserves source r.lines r.modifications r.mode := by
  cases h with
  | untouched mode reason => exact .refl source mode
  | empty mode n => exact absurd rfl hs
  | unmodified mode hl => exact he mode _ 0 rfl
  | added hl hn => exact conserves_added (he .add _ _ rfl) _
  | @cut mode out n hm hl hn =>
    have hc := he mode out n rfl
    cases mode with
    | add => exact absurd rfl hm
    | remove => exact conserves_cut hc
    | toggle => exact absurd hc.2 hn

theorem Finished.unbroken (h : Finished source e r) (hsource : ∀ l ∈ source, Unbroken l)
    (he : ∀ mode out n, e = .complete mode out n → ∀ l ∈ out, Unbroken l) :
    ∀ l ∈ r.lines, Unbroken l := by
  cases h with
  | untouched mode reason => exact hsource
  | empty mode n => intro l hl; cases hl
  | unmodified mode hl => exact he mode _ 0 rfl
  | @added out n hl hn =>
    intro l hl
    rcases mem_added hl with hl | rfl | hl
    · exact he .add out n rfl l hl
    · decide
    · exact (by decide : ∀ m ∈ tail, Unbroken m) l hl
  | @cut mode out n hm hl hn =>
    exact fun l hl => he mode out n rfl l ((cutTail_isPrefix out).subset hl)

end
end Conversion

/-! ## Conversions -/

section
variable {mode : Mode} {ignore : IgnoreList} {text : List Char} {r : Converted}

theorem conserves_of_convert (h : convert mode ignore text = .ok r)
    (hs : r.skipped ≠ some .empty) :
    Conserves (splitLines text) r.lines r.modifications r.mode :=
  (convert_eq_ok_iff.mp h).2.conserves hs fun _ _ _ he => (Pass.output_of_complete he).conserves

/-- The result of a conversion is read back as it was written. -/
theorem splitLines_text (h : convert mode ignore text = .ok r) : splitLines r.text = r.lines := by
  apply splitLines_joinLines
  have hsource : ∀ l ∈ splitLines text, Unbroken l := fun l hl => unbroken_of_mem_splitLines hl
  exact (convert_eq_ok_iff.mp h).2.unbroken hsource
    fun _ _ _ he => (Pass.output_of_complete he).unbroken hsource

/-- **Lines are neither made up nor lost.**  Unless a conversion would leave no line
at all, the source is a subsequence of what adding gives, and what removing gives is
a subsequence of the source; the modifications are the lines that the longer of the
two has more.  A text whose direction is not found is as it was.  So a conversion
that counts nothing leaves its text alone, and one that counts something writes a
text of another number of lines. -/
theorem lines_conserved (h : convert mode ignore text = .ok r) (hs : r.skipped ≠ some .empty) :
    (r.mode = .add → (splitLines text).Sublist r.lines ∧
      r.lines.length = (splitLines text).length + r.modifications) ∧
    (r.mode = .remove → r.lines.Sublist (splitLines text) ∧
      r.lines.length + r.modifications = (splitLines text).length) ∧
    (r.mode = .toggle → r.lines = splitLines text ∧ r.modifications = 0) ∧
    (r.modifications = 0 → r.lines = splitLines text) ∧
    (0 < r.modifications → (splitLines r.text).length ≠ (splitLines text).length) := by
  have hc := conserves_of_convert h hs
  refine ⟨?_, ?_, ?_, ?_, ?_⟩
  · intro hm
    rwa [hm] at hc
  · intro hm
    rwa [hm] at hc
  · intro hm
    rwa [hm] at hc
  · intro hn
    rw [hn] at hc
    exact hc.eq
  · intro hn
    rw [splitLines_text h]
    exact hc.length_ne hn

/-- Adding around one class, and removing until nothing but two empty lines is left to
cut. -/
theorem lines_conserved_both_ways :
    (∃ r, convert .toggle [] "x = 1\nclass A:\n    pass".toList = .ok r ∧ r.mode = .add ∧
      r.modifications = 9 ∧
      (splitLines "x = 1\nclass A:\n    pass".toList).Sublist r.lines ∧ r.lines.length = 12) ∧
    ∃ r, convert .remove [] "\n\ndel forward\n".toList = .ok r ∧ r.mode = .remove ∧
      r.modifications = 3 ∧ r.lines = [] ∧
      (splitLines r.text).length ≠ (splitLines "\n\ndel forward\n".toList).length := by
  constructor
  · let added : Converted := ⟨["from forward import *", "x = 1", "@forward()", "class A:",
      "    ...", "@continue_(A)", "class _____:", "    pass", "", "del forward", "del continue_",
      ""].map String.toList, .add, 9, none⟩
    have h : convert .toggle [] "x = 1\nclass A:\n    pass".toList = .ok added := by
      decide +kernel
    obtain ⟨hsub, -⟩ := (lines_conserved h (by decide)).1 rfl
    exact ⟨added, h, rfl, rfl, hsub, rfl⟩
  · have h : convert .remove [] "\n\ndel forward\n".toList = .ok ⟨[], .remove, 3, none⟩ := by
      decide +kernel
    exact ⟨_, h, rfl, rfl, rfl, (lines_conserved h (by decide)).2.2.2.2 (by decide)⟩

end
end ForwardDecl
