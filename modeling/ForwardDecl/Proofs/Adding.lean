import ForwardDecl.Proofs.Removing

/-! # Adding, line by line

Adding is the other way to make a marked text: each line of the source is kept
(`true`), and the lines that are made up around it are marked as such (`false`).
`declares` says which class, if any, is declared forward at a line, and
`additions` is the marked text that all lines of a source give.  A complete
adding pass puts out the lines of that text and counts those that it made up
(`add_complete`); what it keeps is the source (`kept_additions`).
-/
namespace ForwardDecl
open Marked

/-- The class that adding declares forward at the line with this number. -/
def declares (ignore : IgnoreList) (number : Nat) (l : Line) : Option (List Char) :=
  if ignore.ignoresLine number then none
  else (declaredClass? (stripped l)).filter (!ignore.ignoresClass ·)

/-- The marked lines that adding puts out for the line with this number. -/
def addition (ignore : IgnoreList) (number : Nat) (l : Line) : List (Line × Bool) :=
  match declares ignore number l with
  | none => [(l, true)]
  | some name => (forwardLines l name).zip [false, true, false, false, false]

/-- The marked text that adding makes of the lines after the first `read` lines
of a source. -/
def additions (ignore : IgnoreList) (read : Nat) : List Line → List (Line × Bool)
  | [] => []
  | l :: ls => addition ignore (read + 1) l ++ additions ignore (read + 1) ls

section
variable {ignore : IgnoreList} {read number : Nat} {l : Line} {name : List Char}

theorem declaredClass?_of_declares (h : declares ignore number l = some name) :
    declaredClass? (stripped l) = some name := by
  unfold declares at h
  split at h
  · cases h
  · exact (Option.filter_eq_some_iff.mp h).1

/-- Nothing is declared at a line that does not begin a class. -/
theorem declares_of_not_startsClass (h : startsClass (stripped l) = false) :
    declares ignore number l = none := by
  cases hd : declares ignore number l with
  | none => rfl
  | some name =>
    have := startsClass_of_declaredClass? (declaredClass?_of_declares hd)
    rw [h] at this
    cases this

theorem addition_of_none (h : declares ignore number l = none) :
    addition ignore number l = [(l, true)] := by
  rw [addition, h]

theorem addition_of_some (h : declares ignore number l = some name) :
    addition ignore number l =
      [(indentOf l ++ Marker.decorator, false), (l, true),
        (indentOf l ++ Marker.placeholder, false),
        (indentOf l ++ Marker.continuation name, false),
        (indentOf l ++ Marker.opener, false)] := by
  rw [addition, h]
  rfl

theorem kept_addition (ignore : IgnoreList) (number : Nat) (l : Line) :
    kept (addition ignore number l) = [l] := by
  cases h : declares ignore number l with
  | none => rw [addition_of_none h]; rfl
  | some name => rw [addition_of_some h]; rfl

/-- **Adding keeps the source**: without the made-up lines it is all there. -/
theorem kept_additions (ignore : IgnoreList) (read : Nat) (ls : List Line) :
    kept (additions ignore read ls) = ls := by
  induction ls generalizing read with
  | nil => rfl
  | cons l ls ih => rw [additions, kept_append, kept_addition, ih]; rfl

theorem additions_append (ignore : IgnoreList) (read : Nat) (ls later : List Line) :
    additions ignore read (ls ++ later) =
      additions ignore read ls ++ additions ignore (read + ls.length) later := by
  induction ls generalizing read with
  | nil => rfl
  | cons l ls ih =>
    rw [List.cons_append, additions, additions, ih, List.append_assoc, List.length_cons,
      Nat.add_assoc, Nat.add_comm 1]

/-- Lines at which nothing is declared are put out as they are. -/
theorem additions_of_none {ls : List Line}
    (h : ∀ i, ∀ l ∈ ls[i]?, declares ignore (read + i + 1) l = none) :
    additions ignore read ls = ls.map (·, true) := by
  induction ls generalizing read with
  | nil => rfl
  | cons l ls ih =>
    have hl : declares ignore (read + 1) l = none := h 0 l rfl
    have hls : ∀ i, ∀ m ∈ ls[i]?, declares ignore (read + 1 + i + 1) m = none := by
      intro i m hm
      have := h (i + 1) m hm
      rwa [show read + (i + 1) + 1 = read + 1 + i + 1 from by omega] at this
    rw [additions, addition_of_none hl, ih hls]
    rfl

/-- A line of an addition is a line of the source, or it belongs to the declaration of one. -/
theorem mem_lines_additions {ls : List Line} {m : Line}
    (hm : m ∈ lines (additions ignore read ls)) :
    ∃ l ∈ ls, m = l ∨ ∃ number name, declares ignore number l = some name ∧
      m ∈ forwardLines l name := by
  induction ls generalizing read with
  | nil => cases hm
  | cons l ls ih =>
    rw [additions, lines_append] at hm
    rcases List.mem_append.mp hm with hm | hm
    · refine ⟨l, List.mem_cons_self, ?_⟩
      cases hd : declares ignore (read + 1) l with
      | none =>
        rw [addition_of_none hd] at hm
        exact Or.inl (List.mem_singleton.mp hm)
      | some name =>
        rw [addition_of_some hd] at hm
        exact Or.inr ⟨_, name, hd, hm⟩
    · obtain ⟨l', hl', hm⟩ := ih hm
      exact ⟨l', List.mem_cons_of_mem _ hl', hm⟩

theorem unbroken_additions {ls : List Line} (h : ∀ l ∈ ls, Unbroken l) :
    ∀ m ∈ lines (additions ignore read ls), Unbroken m := by
  intro m hm
  obtain ⟨l, hl, rfl | ⟨number, name, hd, hm⟩⟩ := mem_lines_additions hm
  · exact h m hl
  · exact unbroken_forwardLines (h l hl)
      (fun _ hc => isNameChar_of_declaredClass? (declaredClass?_of_declares hd) hc) m hm

/-- Adding makes up no line that bars the text. -/
theorem not_bars_additions {ls : List Line} (h : ∀ l ∈ ls, ¬ Bars l) :
    ∀ m ∈ lines (additions ignore read ls), ¬ Bars m := by
  intro m hm
  obtain ⟨l, hl, rfl | ⟨number, name, -, hm⟩⟩ := mem_lines_additions hm
  · exact h m hl
  · exact not_bars_forwardLines name (h l hl) m hm

end

namespace Pass

/-! ## The adding pass -/

/-- **Where an adding pass stops.**  It puts out the marked lines of a line, or
the line bars the text, or it is a decorator that is not to be ignored. -/
theorem add_cons (ignore : IgnoreList) (read : Nat) (l : Line) (ls : List Line) :
    (¬ Bars l ∧ (add ignore read (l :: ls)).ending =
      (add ignore (read + 1) ls).ending.prepend (lines (addition ignore (read + 1) l))
        (leftOut (addition ignore (read + 1) l))) ∨
    ∃ reason, (lineKind l = .barred reason ∨ stripped l = Marker.decorator ∧
        ignore.ignoresLine (read + 1) = false ∧ reason = .alreadyForward) ∧
      (add ignore read (l :: ls)).ending = .untouched .add reason := by
  have hput (hd : declares ignore (read + 1) l = none) :
      (add ignore (read + 1) ls).ending.prepend (lines (addition ignore (read + 1) l))
        (leftOut (addition ignore (read + 1) l)) =
      (add ignore (read + 1) ls).ending.prepend [l] 0 := by
    rw [addition_of_none hd]; rfl
  cases hk : lineKind l with
  | barred reason => exact Or.inr ⟨reason, Or.inl rfl, by simp [add, hk]⟩
  | blank =>
    have hs := lineKind_eq_blank_iff.mp hk
    refine Or.inl ⟨not_bars_of_lineKind_blank hk, ?_⟩
    rw [hput (declares_of_not_startsClass (by rw [hs]; rfl))]
    simp [add, hk]
  | code s =>
    obtain ⟨rfl, -⟩ := lineKind_eq_code_iff.mp hk
    have hb := not_bars_of_lineKind_code hk
    by_cases hi : ignore.ignoresLine (read + 1) = true
    · refine Or.inl ⟨hb, ?_⟩
      rw [hput (by simp [declares, hi])]
      simp [add, hk, hi]
    · by_cases hd : stripped l = Marker.decorator
      · exact Or.inr ⟨.alreadyForward, Or.inr ⟨hd, Bool.eq_false_iff.mpr hi, rfl⟩,
          by simp [add, hk, hi, hd]⟩
      · refine Or.inl ⟨hb, ?_⟩
        cases hc : declaredClass? (stripped l) with
        | none =>
          rw [hput (by simp [declares, hc])]
          simp [add, hk, hi, hd, hc]
        | some name =>
          by_cases hn : ignore.ignoresClass name = true
          · rw [hput (by simp [declares, hc, hn])]
            simp [add, hk, hi, hd, hc, hn]
          · have hsome : declares ignore (read + 1) l = some name := by
              simp [declares, hi, hc, hn]
            rw [addition_of_some hsome]
            simp [add, hk, hi, hd, hc, hn, forwardLines]

/-- An adding pass reports no other direction, and it never finds a text
malformed. -/
theorem add_mode (ignore : IgnoreList) (read : Nat) (ls : List Line) :
    (add ignore read ls).ending.mode? = some .add := by
  induction ls generalizing read with
  | nil => rfl
  | cons l ls ih =>
    rcases add_cons ignore read l ls with ⟨-, he⟩ | ⟨reason, -, he⟩
    · rw [he, Ending.mode?_prepend, ih]
    · rw [he]; rfl

/-- **A complete adding pass puts out the additions of its lines**, and none of
the lines bars the text. -/
theorem add_complete {ignore : IgnoreList} {read n : Nat} {ls out : List Line} {mode : Mode}
    (h : (add ignore read ls).ending = .complete mode out n) :
    out = lines (additions ignore read ls) ∧ n = leftOut (additions ignore read ls) ∧
      ∀ l ∈ ls, ¬ Bars l := by
  induction ls generalizing read out n with
  | nil =>
    obtain ⟨-, rfl, rfl⟩ := Ending.complete.inj h
    exact ⟨rfl, rfl, fun l hl => by cases hl⟩
  | cons l ls ih =>
    rcases add_cons ignore read l ls with ⟨hb, he⟩ | ⟨reason, -, he⟩
    · rw [he] at h
      obtain ⟨rest, m, hrest, rfl, rfl⟩ := Ending.prepend_eq_complete_iff.mp h
      obtain ⟨rfl, rfl, hbs⟩ := ih hrest
      refine ⟨?_, ?_, List.forall_mem_cons.mpr ⟨hb, hbs⟩⟩
      · rw [additions, lines_append]
      · rw [additions, leftOut_append]
    · rw [he] at h
      cases h

end Pass

/-- Adding never fails. -/
theorem convert_add_ok {ignore : IgnoreList} (h : ignore.check = .ok ()) (text : List Char) :
    ∃ c, convert .add ignore text = .ok c := by
  cases hc : convert .add ignore text with
  | ok c => exact ⟨c, rfl⟩
  | error err =>
    -- an adding pass never ends malformed, since it always has a mode
    obtain ⟨cause, -, he⟩ := (convert_eq_error_iff h).mp hc
    have hmode := Pass.add_mode ignore 0 (splitLines text)
    rw [show Pass.add ignore 0 (splitLines text) = Pass.run .add ignore (splitLines text) from rfl,
      he] at hmode
    cases hmode

end ForwardDecl
