import ForwardDecl.Proofs.Conservation

/-! # The ends of lines

A text is read in one go, in which CR LF, CR and LF all end a line.  What it is read as can be
said in two: put LF in the place of every CR LF, and then in the place of every CR that is left
(`unifyEnds_eq_normalized`).  The second replacement sees nothing of the first one, since a CR
in front of an LF is gone by then, and the LF that the first one puts in is no CR.

A text and its normal form have the same lines, and writing them gives the normal form again,
with an LF behind the last line if that had none (`joinLines_splitLines_eq`).  So texts and
lines are two views of the same thing, and what is converted can be handed on as either
(`lines_and_text_inverse`).
-/
namespace ForwardDecl

/-- Put `new` in the place of every occurrence of `old`, from the left. -/
def replaceAll (old new : List Char) : List Char → List Char
  | [] => []
  | c :: cs =>
    if old <+: c :: cs then new ++ replaceAll old new (cs.drop (old.length - 1))
    else c :: replaceAll old new cs
termination_by text => text.length
decreasing_by
  · simp only [List.length_drop, List.length_cons]
    omega
  · simp only [List.length_cons]
    omega

/-- The text with LF in the place of every CR LF, and then of every CR that is left. -/
def normalized (text : List Char) : List Char :=
  replaceAll ['\r'] ['\n'] (replaceAll ['\r', '\n'] ['\n'] text)

section
variable {c : Char} {cs text : List Char}

/-! ## One pass or two -/

theorem replaceAll_nil (old new : List Char) : replaceAll old new [] = [] := by
  rw [replaceAll]

theorem replaceAll_pair (cs : List Char) :
    replaceAll ['\r', '\n'] ['\n'] ('\r' :: '\n' :: cs) =
      '\n' :: replaceAll ['\r', '\n'] ['\n'] cs := by
  rw [replaceAll, if_pos ⟨cs, rfl⟩]
  rfl

theorem replaceAll_pair_other (h : ∀ rest, c = '\r' → cs ≠ '\n' :: rest) :
    replaceAll ['\r', '\n'] ['\n'] (c :: cs) = c :: replaceAll ['\r', '\n'] ['\n'] cs := by
  rw [replaceAll, if_neg]
  rintro ⟨rest, hrest⟩
  obtain ⟨hc, hcs⟩ := List.cons.inj hrest
  exact h rest hc.symm hcs.symm

theorem replaceAll_single (c : Char) (cs : List Char) :
    replaceAll ['\r'] ['\n'] (c :: cs) =
      (if c = '\r' then '\n' else c) :: replaceAll ['\r'] ['\n'] cs := by
  rw [replaceAll]
  by_cases hc : c = '\r'
  · subst hc
    rw [if_pos ⟨cs, rfl⟩, if_pos rfl]
    rfl
  · rw [if_neg hc, if_neg]
    rintro ⟨rest, hrest⟩
    exact hc (List.cons.inj hrest).1.symm

/-- **One pass does the work of two.**  The cases are those of the pass: at a CR LF both
characters are read at once, and elsewhere one. -/
theorem unifyEnds_eq_normalized (text : List Char) : unifyEnds text = normalized text := by
  unfold normalized
  induction text using unifyEnds.induct with
  | case1 => rw [unifyEnds, replaceAll_nil, replaceAll_nil]
  | case2 cs ih => rw [unifyEnds, replaceAll_pair, replaceAll_single, if_neg (by decide), ih]
  | case3 c cs hne ih =>
    rw [unifyEnds.eq_3 c cs hne, replaceAll_pair_other hne, replaceAll_single, ih]

theorem unifyEnds_normalized (text : List Char) :
    unifyEnds (normalized text) = normalized text := by
  rw [← unifyEnds_eq_normalized]
  exact unifyEnds_of_not_mem (not_mem_unifyEnds text)

/-- A text has the lines of its normal form. -/
theorem splitLines_normalized (text : List Char) :
    splitLines (normalized text) = splitLines text := by
  rw [splitLines, splitLines, unifyEnds_normalized, unifyEnds_eq_normalized]

theorem normalized_ne_nil (h : text ≠ []) : normalized text ≠ [] := by
  rw [← unifyEnds_eq_normalized]
  fun_cases unifyEnds text with
  | case1 => exact absurd rfl h
  | case2 cs => exact List.cons_ne_nil _ _
  | case3 c cs hne => exact List.cons_ne_nil _ _

/-! ## The last line -/

/-- An LF behind a last line that has none opens no further line. -/
theorem splitUnified_append_end (hne : cs ≠ []) (hlast : cs.getLast? ≠ some '\n') :
    splitUnified (cs ++ ['\n']) = splitUnified cs := by
  induction cs with
  | nil => exact absurd rfl hne
  | cons c cs ih =>
    cases cs with
    | nil =>
      have hc : c ≠ '\n' := by simpa using hlast
      rw [splitUnified_cons hc]
      exact splitUnified_append_newline (l := [c]) (by simpa using hc.symm) []
    | cons d cs =>
      have hrest := ih (List.cons_ne_nil d cs) (by simpa using hlast)
      rw [List.cons_append]
      by_cases hc : c = '\n'
      · rw [hc, splitUnified_newline, splitUnified_newline, hrest]
      · rw [splitUnified_cons hc, splitUnified_cons hc, hrest]

/-- **What is written after reading.**  Writing the lines of a text gives its normal form, in
which the last line is ended too. -/
theorem joinLines_splitLines_eq (h : text ≠ []) :
    joinLines (splitLines text) =
      normalized text ++ if (normalized text).getLast? = some '\n' then [] else ['\n'] := by
  rw [splitLines, unifyEnds_eq_normalized]
  by_cases hlast : (normalized text).getLast? = some '\n'
  · rw [if_pos hlast, List.append_nil]
    exact joinLines_splitUnified (Or.inr hlast)
  · rw [if_neg hlast, ← splitUnified_append_end (normalized_ne_nil h) hlast]
    exact joinLines_splitUnified (Or.inr List.getLast?_concat)

end

/-! ## Texts and lines -/

/-- **Lines and text are two views of the same thing.**  Lines without line ends inside them are
read back from their text.  A text has the lines of its normal form, no line of it holds a line
end, and what it is written as is the normal form with all lines ended.  The lines of every
conversion can therefore be read back from its text. -/
theorem lines_and_text_inverse :
    (∀ r : Converted, r.lines ≠ [] → (∀ l ∈ r.lines, '\r' ∉ l ∧ '\n' ∉ l) →
      splitLines r.text = r.lines) ∧
    (∀ text : List Char, text ≠ [] →
      splitLines text = splitLines (normalized text) ∧
      (∀ l ∈ splitLines text, '\r' ∉ l ∧ '\n' ∉ l) ∧
      ∀ r : Converted, r.lines = splitLines text →
        r.text = normalized text ++
          if (normalized text).getLast? = some '\n' then [] else ['\n']) ∧
    (∀ (mode : Mode) (ignore : IgnoreList) (text : List Char) (r : Converted),
      convert mode ignore text = .ok r → r.lines ≠ [] → splitLines r.text = r.lines) := by
  refine ⟨?_, ?_, ?_⟩
  · intro r _ hunbroken
    exact splitLines_joinLines fun l hl => (hunbroken l hl).symm
  · intro text hne
    refine ⟨(splitLines_normalized text).symm, ?_, ?_⟩
    · intro l hl
      exact (unbroken_of_mem_splitLines hl).symm
    · intro r hlines
      rw [Converted.text, hlines, joinLines_splitLines_eq hne]
  · intro mode ignore text r h _
    exact splitLines_text h

/-- A text with all three line ends, CR LF among them twice in a row with a CR in front, and no
end of its last line; and the lines that removing leaves of another one. -/
theorem lines_and_text_inverse_mixed :
    (let text := "a\r\r\n\r\nb\n\rc".toList
      let lines := ["a", "", "", "b", "", "c"].map String.toList
      splitLines text = lines ∧ normalized text = "a\n\n\nb\n\nc".toList ∧
        joinLines lines = "a\n\n\nb\n\nc\n".toList ∧ splitLines (joinLines lines) = lines) ∧
    ∃ r, convert .remove [] "x\r\ndel forward\ry\r".toList = .ok r ∧ r.modifications = 1 ∧
      r.text = "x\ny\n".toList ∧ splitLines r.text = r.lines := by
  obtain ⟨hback, hread, hconverted⟩ := lines_and_text_inverse
  constructor
  · intro text lines
    have hsplit : splitLines text = lines := by decide
    have hnormal : normalized text = "a\n\n\nb\n\nc".toList := by
      rw [← unifyEnds_eq_normalized]
      decide
    have hwritten := (hread text (by decide)).2.2 ⟨lines, .toggle, 0, none⟩ hsplit.symm
    rw [hnormal] at hwritten
    exact ⟨hsplit, hnormal, hwritten, hback ⟨lines, .toggle, 0, none⟩ (by decide) (by decide)⟩
  · have h : convert .remove [] "x\r\ndel forward\ry\r".toList =
        .ok ⟨[['x'], ['y']], .remove, 1, none⟩ := by decide
    exact ⟨_, h, rfl, rfl, hconverted _ _ _ _ h (by decide)⟩

end ForwardDecl
