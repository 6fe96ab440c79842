import ForwardDecl.Conversion.Basic

/-! # How passes and conversions end

A pass is built from the pass over the later lines by putting lines in front of
what that one keeps, and all that this does to its ending is `Ending.prepend`.
What a conversion makes of an ending is the relation `Conversion.Finished`, with
one rule for each way to finish; `convert_eq_ok_iff` reads a conversion as a pass
and one of these rules, so that no later proof opens either function.
-/
namespace ForwardDecl

namespace Ending

/-- The ending of a pass that first puts out lines and counts `n`
modifications. -/
def prepend (lines : List Line) (n : Nat) : Ending → Ending
  | .complete mode rest m => .complete mode (lines ++ rest) (n + m)
  | e => e

/-- The direction that an ending reports; there is none in a malformed text. -/
def mode? : Ending → Option Mode
  | .complete mode _ _ => some mode
  | .untouched mode _ => some mode
  | .malformed _ => none

@[simp] theorem mode?_prepend (lines : List Line) (n : Nat) (e : Ending) :
    (e.prepend lines n).mode? = e.mode? := by
  cases e <;> rfl

@[simp] theorem prepend_nil (e : Ending) : e.prepend [] 0 = e := by
  cases e <;> simp [prepend]

theorem prepend_prepend (lines later : List Line) (n m : Nat) (e : Ending) :
    (e.prepend later m).prepend lines n = e.prepend (lines ++ later) (n + m) := by
  cases e <;> simp [prepend, Nat.add_assoc]

/-- A pass that keeps each of some lines, whatever comes after it, keeps all of
them. -/
theorem prepend_of_copies {f : Nat → List Line → Ending} {before : List Line}
    (h : ∀ p ∈ before, ∀ read ls, f read (p :: ls) = (f (read + 1) ls).prepend [p] 0)
    (read : Nat) (ls : List Line) :
    f read (before ++ ls) = (f (read + before.length) ls).prepend before 0 := by
  induction before generalizing read with
  | nil => exact (prepend_nil _).symm
  | cons p before ih =>
    obtain ⟨hp, hbefore⟩ := List.forall_mem_cons.mp h
    rw [List.cons_append, hp, ih hbefore, prepend_prepend, List.length_cons, Nat.add_assoc,
      Nat.add_comm 1]
    rfl

theorem prepend_eq_complete_iff {e : Ending} {lines kept : List Line} {n k : Nat} {mode : Mode} :
    e.prepend lines n = .complete mode kept k ↔
      ∃ rest m, e = .complete mode rest m ∧ kept = lines ++ rest ∧ k = n + m := by
  constructor
  · intro h
    cases e with
    | complete mode' rest m =>
      obtain ⟨rfl, rfl, rfl⟩ := Ending.complete.inj h
      exact ⟨rest, m, rfl, rfl, rfl⟩
    | untouched mode' reason => cases h
    | malformed cause => cases h
  · rintro ⟨rest, m, rfl, rfl, rfl⟩
    rfl

/-- Lines in front do not change why a text is left as it is. -/
theorem prepend_eq_untouched_iff {e : Ending} {lines : List Line} {n : Nat} {mode : Mode}
    {reason : SkipReason} :
    e.prepend lines n = .untouched mode reason ↔ e = .untouched mode reason := by
  cases e <;> simp [prepend]

/-- Lines in front do not change what is wrong with a text. -/
theorem prepend_eq_malformed_iff {e : Ending} {lines : List Line} {n : Nat} {cause : ShapeError} :
    e.prepend lines n = .malformed cause ↔ e = .malformed cause := by
  cases e <;> simp [prepend]

end Ending

namespace Pass

@[simp] theorem emit_ending (lines : List Line) (n : Nat) (p : Pass) :
    (p.emit lines n).ending = p.ending.prepend lines n := by
  cases h : p.ending with
  | complete mode rest m => rw [emit_complete h]; rfl
  | untouched mode reason => rw [emit_untouched h]; rfl
  | malformed cause => rw [emit_malformed h]; rfl

@[simp] theorem keep_ending (l : Line) (p : Pass) :
    (p.keep l).ending = p.ending.prepend [l] 0 := emit_ending [l] 0 p

@[simp] theorem drop_ending (p : Pass) : p.drop.ending = p.ending.prepend [] 1 :=
  emit_ending [] 1 p

@[simp] theorem bar_ending (mode : Mode) (reason : SkipReason) (number : Nat) (l : Line) :
    (bar mode reason number l).ending = .untouched mode reason := rfl

@[simp] theorem stop_ending (e : Ending) : (stop e).ending = e := rfl

end Pass

namespace Conversion

/-! ## The tail -/

/-- What is left out at the front are empty lines. -/
theorem replicate_append_dropEmpty (n : Nat) (ls : List Line) :
    ∃ k, k ≤ n ∧ List.replicate k [] ++ dropEmpty n ls = ls := by
  induction n, ls using dropEmpty.induct with
  | case1 n ls ih =>
    obtain ⟨k, hk, he⟩ := ih
    refine ⟨k + 1, Nat.succ_le_succ hk, ?_⟩
    rw [dropEmpty, List.replicate_succ, List.cons_append, he]
  | case2 n ls h =>
    refine ⟨0, Nat.zero_le n, ?_⟩
    rw [dropEmpty.eq_2 n ls h]
    rfl

/-- **Cutting the tail leaves out at most two lines, all of them empty.** -/
theorem cutTail_append_replicate (lines : List Line) :
    ∃ k, k ≤ 2 ∧ cutTail lines ++ List.replicate k [] = lines := by
  obtain ⟨k, hk, he⟩ := replicate_append_dropEmpty 2 lines.reverse
  refine ⟨k, hk, ?_⟩
  rw [cutTail, ← List.reverse_replicate, ← List.reverse_append, he, List.reverse_reverse]

/-- The two empty lines around the cleanup are cut again. -/
theorem cutTail_append_empty (lines : List Line) : cutTail (lines ++ [[], []]) = lines := by
  simp [cutTail, dropEmpty]

/-! ## Finishing -/

/-- What a conversion of the lines `source` makes of the ending of its pass. -/
inductive Finished (source : List Line) : Ending → Converted → Prop
  | untouched (mode : Mode) (reason : SkipReason) :
      Finished source (.untouched mode reason) ⟨source, mode, 0, some reason⟩
  | empty (mode : Mode) (n : Nat) :
      Finished source (.complete mode [] n) ⟨[], mode, 0, some .empty⟩
  | unmodified (mode : Mode) {lines : List Line} (hl : lines ≠ []) :
      Finished source (.complete mode lines 0) ⟨lines, mode, 0, none⟩
  | added {lines : List Line} {n : Nat} (hl : lines ≠ []) (hn : n ≠ 0) :
      Finished source (.complete .add lines n)
        ⟨insertImport (Docstring.insertionLine source) lines ++ tail, .add, n + 5, none⟩
  | cut {mode : Mode} {lines : List Line} {n : Nat} (hm : mode ≠ .add) (hl : lines ≠ [])
      (hn : n ≠ 0) :
      Finished source (.complete mode lines n)
        ⟨cutTail lines, mode, n + (lines.length - (cutTail lines).length), none⟩

variable {source : List Line} {e : Ending} {r : Converted}

theorem finish_eq_ok_iff : finish source e = .ok r ↔ Finished source e r := by
  constructor
  · intro h
    cases e with
    | malformed cause => cases h
    | untouched mode reason =>
      obtain rfl := Except.ok.inj h
      exact .untouched mode reason
    | complete mode lines n =>
      simp only [finish] at h
      split at h
      · rename_i hl
        obtain rfl := Except.ok.inj h
        subst hl
        exact .empty mode n
      · rename_i hl
        split at h
        · rename_i hn
          obtain rfl := Except.ok.inj h
          subst hn
          exact .unmodified mode hl
        · rename_i hn
          split at h
          · rename_i hm
            obtain rfl := Except.ok.inj h
            subst hm
            exact .added hl hn
          · rename_i hm
            obtain rfl := Except.ok.inj h
            exact .cut hm hl hn
  · intro h
    cases h with
    | untouched mode reason => rfl
    | empty mode n => rfl
    | unmodified mode hl => simp [finish, hl]
    | added hl hn => simp [finish, hl, hn]
    | cut hm hl hn => simp [finish, hl, hn, hm]

/-- A conversion reports the direction of its pass. -/
theorem Finished.mode?_eq (h : Finished source e r) : e.mode? = some r.mode := by
  cases h <;> rfl

/-- Two empty lines at the end are cut and counted. -/
theorem Finished.cut_two {lines : List Line} {n : Nat} (hn : n ≠ 0) :
    Finished source (.complete .remove (lines ++ [[], []]) n) ⟨lines, .remove, n + 2, none⟩ := by
  have h : Finished source (.complete .remove (lines ++ [[], []]) n) _ :=
    .cut (by decide) (by simp) hn
  rwa [cutTail_append_empty, List.length_append, Nat.add_sub_cancel_left] at h

/-- A malformed text is the only error. -/
theorem finish_eq_error {err : Error} (h : finish source e = .error err) :
    ∃ cause, err = .shape cause ∧ e = .malformed cause := by
  cases e with
  | malformed cause =>
    obtain rfl := Except.error.inj h
    exact ⟨cause, rfl, rfl⟩
  | untouched mode reason => cases h
  | complete mode lines n =>
    simp only [finish] at h
    split at h
    · cases h
    · split at h
      · cases h
      · split at h <;> cases h

end Conversion

/-! ## Converting -/

section Converting
variable {mode : Mode} {ignore : IgnoreList} {text : List Char} {r : Converted}

theorem convert_of_check (h : ignore.check = .ok ()) :
    convert mode ignore text =
      Conversion.finish (splitLines text) (Pass.run mode ignore (splitLines text)).ending := by
  rw [convert, h]
  rfl

theorem check_of_convert (h : convert mode ignore text = .ok r) : ignore.check = .ok () := by
  rw [convert] at h
  cases hc : ignore.check with
  | error err => rw [hc] at h; cases h
  | ok u => rfl

/-- **A conversion is a pass and one rule to finish it.** -/
theorem convert_eq_ok_iff : convert mode ignore text = .ok r ↔ ignore.check = .ok () ∧
    Conversion.Finished (splitLines text) (Pass.run mode ignore (splitLines text)).ending r := by
  constructor
  · intro h
    have hc := check_of_convert h
    rw [convert_of_check hc, Conversion.finish_eq_ok_iff] at h
    exact ⟨hc, h⟩
  · rintro ⟨hc, h⟩
    rw [convert_of_check hc, Conversion.finish_eq_ok_iff]
    exact h

/-- **A conversion fails exactly if its pass finds the text malformed.** -/
theorem convert_eq_error_iff {err : Error} (hc : ignore.check = .ok ()) :
    convert mode ignore text = .error err ↔ ∃ cause, err = .shape cause ∧
      (Pass.run mode ignore (splitLines text)).ending = .malformed cause := by
  rw [convert_of_check hc]
  constructor
  · exact Conversion.finish_eq_error
  · rintro ⟨cause, rfl, he⟩
    rw [he]
    rfl

/-- Passes that end in the same way give the same conversion. -/
theorem convert_congr (mode mode' : Mode)
    (h : (Pass.run mode ignore (splitLines text)).ending =
      (Pass.run mode' ignore (splitLines text)).ending) :
    convert mode ignore text = convert mode' ignore text := by
  unfold convert
  dsimp only
  rw [h]

/-- Only the lines of a text matter to its conversion. -/
theorem convert_of_splitLines {text' : List Char} (h : splitLines text = splitLines text') :
    convert mode ignore text = convert mode ignore text' := by
  unfold convert
  rw [h]

end Converting

end ForwardDecl
