import ForwardDecl.Text.Lines

/-! # Reading back what was written

A line that holds no terminator of its own is *unbroken*.  Every line of a text
is (`unbroken_of_mem_splitLines`), and unbroken lines that are written as a text
are read back as the same lines (`splitLines_joinLines`).  Whatever works on
lines may therefore go on from a written text as if it still had the lines.  The
other way around, a text is written as it was read if it is terminated
(`joinLines_splitLines`).
-/
namespace ForwardDecl

/-- A line without a line end inside it. -/
def Unbroken (l : Line) : Prop := '\n' ∉ l ∧ '\r' ∉ l

instance (l : Line) : Decidable (Unbroken l) := inferInstanceAs (Decidable (_ ∧ _))

theorem Unbroken.append {l m : Line} (hl : Unbroken l) (hm : Unbroken m) : Unbroken (l ++ m) :=
  ⟨fun h => (List.mem_append.mp h).elim hl.1 hm.1, fun h => (List.mem_append.mp h).elim hl.2 hm.2⟩

/-- A line is unbroken when some property that no line end has holds of all its
characters. -/
theorem unbroken_of_forall {p : Char → Bool} {l : Line} (h : ∀ c ∈ l, p c = true)
    (hn : p '\n' = false) (hr : p '\r' = false) : Unbroken l := by
  constructor
  · intro hc
    exact absurd (h _ hc) (by simp [hn])
  · intro hc
    exact absurd (h _ hc) (by simp [hr])

/-! ## Writing, then reading -/

theorem unifyEnds_of_not_mem {cs : List Char} (h : '\r' ∉ cs) : unifyEnds cs = cs := by
  induction cs using unifyEnds.induct with
  | case1 => rfl
  | case2 cs ih => simp at h
  | case3 c cs hne ih =>
    obtain ⟨hc, hcs⟩ := not_or.mp (mt List.mem_cons.mpr h)
    rw [unifyEnds.eq_3 c cs hne, ih hcs, if_neg (Ne.symm hc)]

/-- A line in front of a line end is the first line of the text. -/
theorem splitUnified_append_newline {l : Line} (h : '\n' ∉ l) (cs : List Char) :
    splitUnified (l ++ '\n' :: cs) = l :: splitUnified cs := by
  induction l with
  | nil => rfl
  | cons c l ih =>
    obtain ⟨hc, hl⟩ := not_or.mp (mt List.mem_cons.mpr h)
    rw [List.cons_append, splitUnified_cons (Ne.symm hc), ih hl]
    rfl

theorem splitUnified_joinLines {ls : List Line} (h : ∀ l ∈ ls, '\n' ∉ l) :
    splitUnified (joinLines ls) = ls := by
  induction ls with
  | nil => rfl
  | cons l ls ih =>
    obtain ⟨hl, hls⟩ := List.forall_mem_cons.mp h
    rw [joinLines_cons, splitUnified_append_newline hl, ih hls]

theorem not_mem_joinLines {ls : List Line} (h : ∀ l ∈ ls, '\r' ∉ l) : '\r' ∉ joinLines ls := by
  intro hc
  obtain ⟨l, hl, hcl⟩ := List.mem_flatMap.mp hc
  rcases List.mem_append.mp hcl with hcl | hcl
  · exact h l hl hcl
  · exact absurd hcl (by decide)

/-- **Unbroken lines are read back as they were written.** -/
theorem splitLines_joinLines {ls : List Line} (h : ∀ l ∈ ls, Unbroken l) :
    splitLines (joinLines ls) = ls := by
  rw [splitLines, unifyEnds_of_not_mem (not_mem_joinLines fun l hl => (h l hl).2),
    splitUnified_joinLines fun l hl => (h l hl).1]

/-! ## Reading gives unbroken lines -/

theorem not_mem_unifyEnds (cs : List Char) : '\r' ∉ unifyEnds cs := by
  induction cs using unifyEnds.induct with
  | case1 => simp [unifyEnds]
  | case2 cs ih =>
    rw [unifyEnds]
    simpa using ih
  | case3 c cs hne ih =>
    rw [unifyEnds.eq_3 c cs hne]
    by_cases hc : c = '\r'
    · simpa [hc] using ih
    · simpa [hc, Ne.symm hc] using ih

/-- The characters of the lines are characters of the text. -/
theorem mem_of_mem_splitUnified {cs : List Char} {l : Line} (hl : l ∈ splitUnified cs) {c : Char}
    (hc : c ∈ l) : c ∈ cs ∧ c ≠ '\n' := by
  induction cs generalizing l with
  | nil => simp at hl
  | cons d cs ih =>
    by_cases hd : d = '\n'
    · subst hd
      rw [splitUnified_newline] at hl
      rcases List.mem_cons.mp hl with rfl | hl
      · cases hc
      · exact ⟨List.mem_cons_of_mem _ (ih hl hc).1, (ih hl hc).2⟩
    · rw [splitUnified_cons hd] at hl
      cases hs : splitUnified cs with
      | nil =>
        rw [hs] at hl
        obtain rfl : l = [d] := by simpa [consLine] using hl
        obtain rfl : c = d := by simpa using hc
        exact ⟨List.mem_cons_self, hd⟩
      | cons m ms =>
        rw [hs] at hl ih
        rcases List.mem_cons.mp hl with rfl | hl
        · rcases List.mem_cons.mp hc with rfl | hc
          · exact ⟨List.mem_cons_self, hd⟩
          · exact ⟨List.mem_cons_of_mem _ (ih List.mem_cons_self hc).1,
              (ih List.mem_cons_self hc).2⟩
        · have := ih (List.mem_cons_of_mem _ hl) hc
          exact ⟨List.mem_cons_of_mem _ this.1, this.2⟩

/-- **The lines of every text are unbroken.** -/
theorem unbroken_of_mem_splitLines {text : List Char} {l : Line} (h : l ∈ splitLines text) :
    Unbroken l :=
  ⟨fun hc => (mem_of_mem_splitUnified h hc).2 rfl,
    fun hc => not_mem_unifyEnds text (mem_of_mem_splitUnified h hc).1⟩

/-! ## Reading, then writing -/

/-- A text whose line ends are all LF, and whose last line has one. -/
def Terminated (text : List Char) : Prop :=
  '\r' ∉ text ∧ (text = [] ∨ text.getLast? = some '\n')

instance (text : List Char) : Decidable (Terminated text) := inferInstanceAs (Decidable (_ ∧ _))

theorem joinLines_splitUnified {cs : List Char} (h : cs = [] ∨ cs.getLast? = some '\n') :
    joinLines (splitUnified cs) = cs := by
  induction cs with
  | nil => rfl
  | cons c cs ih =>
    cases cs with
    | nil =>
      obtain rfl : c = '\n' := by simpa using h
      rfl
    | cons d cs =>
      have hlast : (d :: cs).getLast? = some '\n' := by simpa using h
      have hrest := ih (Or.inr hlast)
      by_cases hc : c = '\n'
      · rw [hc, splitUnified_newline, joinLines_cons, hrest]
        rfl
      · rw [splitUnified_cons hc]
        cases hs : splitUnified (d :: cs) with
        | nil =>
          rw [hs] at hrest
          cases hrest
        | cons l ls =>
          rw [hs, joinLines_cons] at hrest
          show joinLines ((c :: l) :: ls) = _
          rw [joinLines_cons, List.cons_append, hrest]

/-- **A terminated text is written as it was read.** -/
theorem joinLines_splitLines {text : List Char} (h : Terminated text) :
    joinLines (splitLines text) = text := by
  rw [splitLines, unifyEnds_of_not_mem h.1, joinLines_splitUnified h.2]

end ForwardDecl
