import ForwardDecl.Docstring

/-! # The grammar of docstrings

A docstring statement is `d` opening parentheses, one or more string literals and `d`
closing parentheses, with gaps between these tokens (`Docstring.Statement`).  It ends at the
end of a line or at a comment, once all parentheses are closed, or at a semicolon.  The
grammar says nothing of how a text is read; `Docstring.statementEnd?` reads one character
after the other and accepts exactly the statements of the grammar
(`Docstring.statementEnd?_eq_some_iff`).

That the reader accepts every statement is seen token by token: in front of a gap it gives
what it gives behind it, and so with every token (`Docstring.Gap.statementEnd?_eq` and the
lemmas after it).  That it accepts nothing else rests on an invariant: what it has read when
it comes to a place is the beginning of a statement (`Docstring.Reached`).
-/
namespace ForwardDecl
namespace Docstring

/-! ## Tokens and what stands between them -/

/-- What may stand between tokens: blanks, line breaks after a backslash, and, inside of
parentheses, any line breaks, with comments before them. -/
inductive Gap (isOpen : Prop) : Place → Place → Prop
  | nothing (p : Place) : Gap isOpen p p
  | blank {n : Nat} {c : Char} {cs : List Char} {rest : List Line} {q : Place}
      (hc : isInline c = true) (h : Gap isOpen ⟨n, cs, rest⟩ q) : Gap isOpen ⟨n, c :: cs, rest⟩ q
  | joined {n : Nat} {l : Line} {rest : List Line} {q : Place}
      (h : Gap isOpen ⟨n + 1, l, rest⟩ q) : Gap isOpen ⟨n, ['\\'], l :: rest⟩ q
  | broken {n : Nat} {l : Line} {rest : List Line} {q : Place}
      (ho : isOpen) (h : Gap isOpen ⟨n + 1, l, rest⟩ q) : Gap isOpen ⟨n, [], l :: rest⟩ q
  | comment {n : Nat} {cs : List Char} {l : Line} {rest : List Line} {q : Place}
      (ho : isOpen) (h : Gap isOpen ⟨n + 1, l, rest⟩ q) : Gap isOpen ⟨n, '#' :: cs, l :: rest⟩ q

/-- The quotation marks around a string. -/
def delimiter (mark : Char) (triple : Bool) : List Char :=
  if triple then [mark, mark, mark] else [mark]

/-- What stands behind the first quotation marks of a string, up to and with the last ones.
A backslash takes along the character after it, or the line break.  Other line breaks stand
only between triple marks. -/
inductive Inside (mark : Char) (triple : Bool) : Place → Place → Prop
  | closed {n : Nat} {cs : List Char} {rest : List Line} :
      Inside mark triple ⟨n, delimiter mark triple ++ cs, rest⟩ ⟨n, cs, rest⟩
  | escaped {n : Nat} {c : Char} {cs : List Char} {rest : List Line} {q : Place}
      (h : Inside mark triple ⟨n, cs, rest⟩ q) : Inside mark triple ⟨n, '\\' :: c :: cs, rest⟩ q
  | character {n : Nat} {c : Char} {cs : List Char} {rest : List Line} {q : Place}
      (hc : c ≠ '\\') (hopen : ¬delimiter mark triple <+: c :: cs)
      (h : Inside mark triple ⟨n, cs, rest⟩ q) : Inside mark triple ⟨n, c :: cs, rest⟩ q
  | joined {n : Nat} {l : Line} {rest : List Line} {q : Place}
      (h : Inside mark triple ⟨n + 1, l, rest⟩ q) : Inside mark triple ⟨n, ['\\'], l :: rest⟩ q
  | broken {n : Nat} {l : Line} {rest : List Line} {q : Place} (htriple : triple = true)
      (h : Inside mark triple ⟨n + 1, l, rest⟩ q) : Inside mark triple ⟨n, [], l :: rest⟩ q

/-- The characters that quote a string. -/
def quotes : List Char := ['"', '\'']

/-- What may stand in front of the quotation marks. -/
def prefixes : List (List Char) := [[], ['r'], ['R'], ['u'], ['U']]

/-- A string literal: an optional letter, and a string in triple marks if three of them
follow, and else in single ones. -/
inductive Literal : Place → Place → Prop
  | triple {n : Nat} {letter : List Char} {mark : Char} {cs : List Char} {rest : List Line}
      {q : Place} (hletter : letter ∈ prefixes) (hmark : mark ∈ quotes)
      (h : Inside mark true ⟨n, cs, rest⟩ q) :
      Literal ⟨n, letter ++ mark :: mark :: mark :: cs, rest⟩ q
  | single {n : Nat} {letter : List Char} {mark : Char} {cs : List Char} {rest : List Line}
      {q : Place} (hletter : letter ∈ prefixes) (hmark : mark ∈ quotes)
      (hfew : ¬[mark, mark] <+: cs) (h : Inside mark false ⟨n, cs, rest⟩ q) :
      Literal ⟨n, letter ++ mark :: cs, rest⟩ q

/-! ## Statements -/

/-- So many opening parentheses, with gaps before them. -/
inductive Opens : Nat → Place → Place → Prop
  | nothing (p : Place) : Opens 0 p p
  | more {d n : Nat} {p q : Place} {cs : List Char} {rest : List Line} (h : Opens d p q)
      (hgap : Gap (d ≠ 0) q ⟨n, '(' :: cs, rest⟩) : Opens (d + 1) p ⟨n, cs, rest⟩

/-- One or more string literals, with gaps before them. -/
inductive Literals (isOpen : Prop) : Place → Place → Prop
  | one {p q r : Place} (hgap : Gap isOpen p q) (h : Literal q r) : Literals isOpen p r
  | more {p q r s : Place} (h : Literals isOpen p q) (hgap : Gap isOpen q r) (hlit : Literal r s) :
      Literals isOpen p s

/-- Closing parentheses, with gaps before them, from one depth to another. -/
inductive Closes (top : Nat) : Nat → Place → Place → Prop
  | nothing (p : Place) : Closes top top p p
  | more {d n : Nat} {p q : Place} {cs : List Char} {rest : List Line}
      (h : Closes top (d + 1) p q) (hgap : Gap True q ⟨n, ')' :: cs, rest⟩) :
      Closes top d p ⟨n, cs, rest⟩

/-- Where a statement ends: at the end of a line, at a comment, at a backslash behind which
there is no line, or at a semicolon. -/
inductive Ends : Place → Ending → Prop
  | line (n : Nat) (rest : List Line) : Ends ⟨n, [], rest⟩ (.lineEnd n rest)
  | comment (n : Nat) (cs : List Char) (rest : List Line) :
      Ends ⟨n, '#' :: cs, rest⟩ (.lineEnd n rest)
  | last (n : Nat) : Ends ⟨n, ['\\'], []⟩ (.lineEnd n [])
  | semicolon (n : Nat) (cs : List Char) (rest : List Line) :
      Ends ⟨n, ';' :: cs, rest⟩ (.semicolon n)

/-- A docstring statement that begins at a place. -/
def Statement (p : Place) (ending : Ending) : Prop :=
  ∃ d p₁ p₂ p₃ p₄, Opens d p p₁ ∧ Literals (d ≠ 0) p₁ p₂ ∧ Closes d 0 p₂ p₃ ∧
    Gap False p₃ p₄ ∧ Ends p₄ ending

/-! ## The reader accepts string literals -/

section
variable {mark : Char} {triple : Bool} {n : Nat} {cs after : List Char} {rest : List Line}
  {p q : Place}

theorem closing?_eq_some_iff :
    closing? mark triple cs = some after ↔ cs = delimiter mark triple ++ after := by
  unfold closing? delimiter
  constructor
  · intro h
    split at h
    · split at h <;> simp_all
    · split at h <;> simp_all
    · cases h
  · rintro rfl
    cases triple <;> simp

theorem closing?_eq_none_iff : closing? mark triple cs = none ↔ ¬delimiter mark triple <+: cs := by
  rw [Option.eq_none_iff_forall_ne_some]
  constructor
  · rintro h ⟨after, rfl⟩
    exact h after (closing?_eq_some_iff.mpr rfl)
  · intro h after hafter
    exact h ⟨after, (closing?_eq_some_iff.mp hafter).symm⟩

/-- A character that is neither a backslash at the end of a line nor one before another
character is no backslash. -/
theorem ne_backslash {c : Char} (hlone : c = '\\' → cs = [] → False)
    (hpair : ∀ d ds, c = '\\' → cs = d :: ds → False) : c ≠ '\\' := by
  intro hc
  cases cs with
  | nil => exact hlone hc rfl
  | cons d ds => exact hpair d ds hc rfl

/-- A line in which a string is closed. -/
theorem inside_of_closed (h : scanLine mark triple cs = .closed after) :
    Inside mark triple ⟨n, cs, rest⟩ ⟨n, after, rest⟩ := by
  fun_induction scanLine mark triple cs with
  | case1 => cases h
  | case2 => cases h
  | case3 c cs ih => exact .escaped (ih h)
  | case4 c cs hlone hpair after' hafter =>
    obtain rfl := LineScan.closed.inj h
    rw [closing?_eq_some_iff.mp hafter]
    exact .closed
  | case5 c cs hlone hpair hopen ih =>
    exact .character (ne_backslash hlone hpair) (closing?_eq_none_iff.mp hopen) (ih h)

/-- A line that a string runs through. -/
theorem inside_of_ran {escaped : Bool} {l : Line} (h : scanLine mark triple cs = .ran escaped)
    (hgoes : (triple || escaped) = true) (hnext : Inside mark triple ⟨n + 1, l, rest⟩ q) :
    Inside mark triple ⟨n, cs, l :: rest⟩ q := by
  fun_induction scanLine mark triple cs with
  | case1 =>
    obtain rfl := LineScan.ran.inj h
    exact .broken (by simpa using hgoes) hnext
  | case2 => exact .joined hnext
  | case3 c cs ih => exact .escaped (ih h)
  | case4 c cs hlone hpair after' hafter => cases h
  | case5 c cs hlone hpair hopen ih =>
    exact .character (ne_backslash hlone hpair) (closing?_eq_none_iff.mp hopen) (ih h)

theorem inside_of_closeLiteral (h : closeLiteral mark triple n cs rest = some q) :
    Inside mark triple ⟨n, cs, rest⟩ q := by
  induction rest generalizing n cs with
  | nil =>
    rw [closeLiteral.eq_def] at h
    split at h
    · obtain rfl := Option.some.inj h
      exact inside_of_closed ‹_›
    · cases h
  | cons l rest ih =>
    rw [closeLiteral.eq_def] at h
    split at h
    · obtain rfl := Option.some.inj h
      exact inside_of_closed ‹_›
    · dsimp only at h
      split at h
      · exact inside_of_ran ‹_› ‹_› (ih h)
      · cases h

theorem scanLine_character {c : Char} (hc : c ≠ '\\') : scanLine mark triple (c :: cs) =
    match closing? mark triple (c :: cs) with
    | some after => .closed after
    | none => scanLine mark triple cs :=
  scanLine.eq_4 mark triple c cs (fun h _ => hc h) fun _ _ h _ => hc h

/-- Where a line goes on in the same way, so does a literal. -/
theorem closeLiteral_congr {ds : List Char}
    (h : scanLine mark triple cs = scanLine mark triple ds) :
    closeLiteral mark triple n cs rest = closeLiteral mark triple n ds rest := by
  rw [closeLiteral.eq_def, h, ← closeLiteral.eq_def]

theorem closeLiteral_of_inside (hmark : mark ∈ quotes) (h : Inside mark triple p q) :
    closeLiteral mark triple p.line p.cur p.rest = some q := by
  have hne : mark ≠ '\\' := by
    rintro rfl
    exact absurd hmark (by decide)
  induction h with
  | @closed n cs rest =>
    have hscan : scanLine mark triple (delimiter mark triple ++ cs) = .closed cs := by
      have hclosing := closing?_eq_some_iff.mpr (Eq.refl (delimiter mark triple ++ cs))
      unfold delimiter at hclosing ⊢
      cases triple <;> exact (scanLine_character hne).trans (by simp_all)
    rw [closeLiteral.eq_def, hscan]
  | @escaped n c cs rest q h ih =>
    rw [← ih]
    exact closeLiteral_congr (by rw [scanLine])
  | character hc hopen h ih =>
    rw [← ih]
    apply closeLiteral_congr
    rw [scanLine_character hc, closing?_eq_none_iff.mpr hopen]
  | joined h ih =>
    rw [closeLiteral.eq_def, scanLine]
    simpa using ih
  | broken htriple h ih =>
    rw [closeLiteral.eq_def, scanLine, htriple]
    simpa [htriple] using ih

theorem dropStringLetter_append {letter : List Char} (hletter : letter ∈ prefixes)
    (hmark : mark ∈ quotes) : dropStringLetter (letter ++ mark :: cs) = mark :: cs := by
  simp only [prefixes, quotes, List.mem_cons, List.not_mem_nil, or_false] at hletter hmark
  rcases hletter with rfl | rfl | rfl | rfl | rfl <;> rcases hmark with rfl | rfl <;> rfl

theorem exists_letter (cs : List Char) :
    ∃ letter ∈ prefixes, cs = letter ++ dropStringLetter cs := by
  unfold dropStringLetter
  cases cs with
  | nil => exact ⟨[], by decide, rfl⟩
  | cons c cs =>
    dsimp only
    split
    · rename_i hc
      simp only [Bool.or_eq_true, decide_eq_true_eq] at hc
      exact ⟨[c], by rcases hc with ((rfl | rfl) | rfl) | rfl <;> decide, rfl⟩
    · exact ⟨[], by decide, rfl⟩

theorem literal?_triple {letter : List Char} (hletter : letter ∈ prefixes)
    (hmark : mark ∈ quotes) : literal? ⟨n, letter ++ mark :: mark :: mark :: cs, rest⟩ =
      closeLiteral mark true n cs rest := by
  unfold literal?
  rw [dropStringLetter_append hletter hmark]
  dsimp only
  rw [if_pos (by simpa [quotes] using hmark), if_pos ⟨rfl, rfl⟩]

theorem literal?_single {letter : List Char} (hletter : letter ∈ prefixes)
    (hmark : mark ∈ quotes) (hfew : ¬[mark, mark] <+: cs) :
    literal? ⟨n, letter ++ mark :: cs, rest⟩ = closeLiteral mark false n cs rest := by
  unfold literal?
  rw [dropStringLetter_append hletter hmark]
  dsimp only
  rw [if_pos (by simpa [quotes] using hmark)]
  split
  · rw [if_neg]
    rintro ⟨rfl, rfl⟩
    exact hfew ⟨_, rfl⟩
  · rfl

/-- **The reader accepts exactly the string literals.** -/
theorem literal?_eq_some_iff : literal? p = some q ↔ Literal p q := by
  constructor
  · intro h
    obtain ⟨letter, hletter, hcur⟩ := exists_letter p.cur
    have hp : p = ⟨p.line, letter ++ dropStringLetter p.cur, p.rest⟩ := by rw [← hcur]
    rw [hp]
    unfold literal? at h
    split at h
    · cases h
    · rename_i mark cs hdrop
      rw [hdrop]
      split at h
      · rename_i hmark
        replace hmark : mark ∈ quotes := by simpa [quotes] using hmark
        split at h
        · rename_i b c inner
          split at h
          · rename_i hthree
            obtain ⟨rfl, rfl⟩ := hthree
            exact .triple hletter hmark (inside_of_closeLiteral h)
          · rename_i hthree
            refine .single hletter hmark ?_ (inside_of_closeLiteral h)
            rintro ⟨ds, hds⟩
            simp only [List.cons_append, List.nil_append, List.cons.injEq] at hds
            exact hthree ⟨hds.1.symm, hds.2.1.symm⟩
        · rename_i hshort
          refine .single hletter hmark ?_ (inside_of_closeLiteral h)
          rintro ⟨ds, hds⟩
          exact hshort _ _ _ hds.symm
      · cases h
  · intro h
    cases h with
    | triple hletter hmark h =>
      rw [literal?_triple hletter hmark]
      exact closeLiteral_of_inside hmark h
    | single hletter hmark hfew h =>
      rw [literal?_single hletter hmark hfew]
      exact closeLiteral_of_inside hmark h

end

/-! ## The reader accepts every statement -/

section
variable {d n : Nat} {prev : Token} {c : Char} {cs : List Char} {l : Line} {rest : List Line}
  {p q : Place}

/-- What the reader does where a line has nothing but blanks left. -/
theorem statementEnd?_of_nil (h : p.cur.dropWhile isInline = []) :
    statementEnd? d prev p =
      if isDone d prev then some (.lineEnd p.line p.rest)
      else if d = 0 then none
      else p.nextLine?.bind (statementEnd? d prev) := by
  rw [statementEnd?.eq_def]
  split
  · split
    · rfl
    · split
      · rfl
      · split <;> simp_all
  · rename_i hcur
    cases h.symm.trans hcur

/-- In front of a character that is no blank there is nothing to skip. -/
theorem cur_dropWhile (h : isInline c = false) :
    (Place.mk n (c :: cs) rest).cur.dropWhile isInline = c :: cs := by
  simp [h]

/-- What the reader does at the next character that is no blank. -/
theorem statementEnd?_of_cons (h : p.cur.dropWhile isInline = c :: cs) :
    statementEnd? d prev p =
      if c = '#' then
        if isDone d prev then some (.lineEnd p.line p.rest)
        else if d = 0 then none
        else p.nextLine?.bind (statementEnd? d prev)
      else if c = '\\' ∧ cs = [] then
        match p.nextLine? with
        | none => if isDone d prev then some (.lineEnd p.line []) else none
        | some q => statementEnd? d prev q
      else if c = ';' then if isDone d prev then some (.semicolon p.line) else none
      else if c = '(' then
        if prev = .start ∨ prev = .opening then
          statementEnd? (d + 1) .opening ⟨p.line, cs, p.rest⟩
        else none
      else if c = ')' then
        if d = 0 ∨ ¬(prev = .string ∨ prev = .closing) then none
        else statementEnd? (d - 1) .closing ⟨p.line, cs, p.rest⟩
      else if prev = .closing then none
      else (literal? ⟨p.line, c :: cs, p.rest⟩).bind (statementEnd? d .string) := by
  rw [statementEnd?.eq_def]
  split
  · rename_i hcur
    cases h.symm.trans hcur
  · rename_i c' cs' hcur
    obtain ⟨rfl, rfl⟩ := List.cons.inj (h.symm.trans hcur)
    dsimp only
    by_cases hcomment : c = '#'
    · rw [if_pos hcomment, if_pos hcomment]
      congr 2
      cases hnext : p.nextLine? <;> simp_all
    · rw [if_neg hcomment, if_neg hcomment]
      congr 1
      · split <;> simp_all
      · congr 4
        split <;> simp_all

/-- Blanks in front make no difference. -/
theorem statementEnd?_blank (hc : isInline c = true) :
    statementEnd? d prev ⟨n, c :: cs, rest⟩ = statementEnd? d prev ⟨n, cs, rest⟩ := by
  have hdrop : (c :: cs).dropWhile isInline = cs.dropWhile isInline := by simp [hc]
  cases h : cs.dropWhile isInline with
  | nil =>
    exact (statementEnd?_of_nil (p := ⟨n, c :: cs, rest⟩) (hdrop.trans h)).trans
      (statementEnd?_of_nil (p := ⟨n, cs, rest⟩) h).symm
  | cons b bs =>
    exact (statementEnd?_of_cons (p := ⟨n, c :: cs, rest⟩) (hdrop.trans h)).trans
      (statementEnd?_of_cons (p := ⟨n, cs, rest⟩) h).symm

/-- Behind a gap the reader goes on as in front of it. -/
theorem Gap.statementEnd?_eq (h : Gap (d ≠ 0) p q) (prev : Token) :
    statementEnd? d prev p = statementEnd? d prev q := by
  have hopen : d ≠ 0 → isDone d prev = false := fun hd => by simp [isDone, hd]
  induction h with
  | nothing => rfl
  | blank hc h ih => rw [statementEnd?_blank hc, ih]
  | joined h ih =>
    rw [statementEnd?_of_cons (cur_dropWhile (by decide)), ← ih]
    rfl
  | broken ho h ih =>
    rw [statementEnd?_of_nil rfl, hopen ho, ← ih]
    simp [ho, Place.nextLine?]
  | @comment n cs l rest q ho h ih =>
    rw [statementEnd?_of_cons (cur_dropWhile (by decide)), hopen ho, ← ih]
    simp [ho, Place.nextLine?]

theorem statementEnd?_opening (hprev : prev = .start ∨ prev = .opening) :
    statementEnd? d prev ⟨n, '(' :: cs, rest⟩ = statementEnd? (d + 1) .opening ⟨n, cs, rest⟩ := by
  rw [statementEnd?_of_cons (cur_dropWhile (by decide))]
  simp [hprev]

theorem statementEnd?_closing (hprev : prev = .string ∨ prev = .closing) :
    statementEnd? (d + 1) prev ⟨n, ')' :: cs, rest⟩ = statementEnd? d .closing ⟨n, cs, rest⟩ := by
  rw [statementEnd?_of_cons (cur_dropWhile (by decide))]
  simp [hprev]

/-- The characters with which a string literal begins. -/
def literalStarts : List Char := ['r', 'R', 'u', 'U', '"', '\'']

theorem literalStart_of_letter {letter : List Char} {mark : Char} (hletter : letter ∈ prefixes)
    (hmark : mark ∈ quotes) (cs : List Char) :
    ∃ c ds, letter ++ mark :: cs = c :: ds ∧ c ∈ literalStarts := by
  simp only [prefixes, quotes, List.mem_cons, List.not_mem_nil, or_false] at hletter hmark
  rcases hletter with rfl | rfl | rfl | rfl | rfl <;> rcases hmark with rfl | rfl <;>
    exact ⟨_, _, rfl, by decide⟩

theorem Literal.cur_eq (h : Literal p q) : ∃ c cs, p.cur = c :: cs ∧ c ∈ literalStarts := by
  cases h with
  | triple hletter hmark h => exact literalStart_of_letter hletter hmark _
  | single hletter hmark hfew h => exact literalStart_of_letter hletter hmark _

/-- At the first character of a string literal, the reader reads a string literal. -/
theorem statementEnd?_of_literalStart (h : p.cur.dropWhile isInline = c :: cs)
    (hc : c ∈ literalStarts) (hprev : prev ≠ .closing) : statementEnd? d prev p =
      (literal? ⟨p.line, c :: cs, p.rest⟩).bind (statementEnd? d .string) := by
  rw [statementEnd?_of_cons h]
  simp only [literalStarts, List.mem_cons, List.not_mem_nil, or_false] at hc
  rcases hc with rfl | rfl | rfl | rfl | rfl | rfl <;> simp [hprev]

theorem Literal.statementEnd?_eq (h : Literal p q) (hprev : prev ≠ .closing) :
    statementEnd? d prev p = statementEnd? d .string q := by
  obtain ⟨c, cs, hcur, hc⟩ := h.cur_eq
  have hdrop : p.cur.dropWhile isInline = c :: cs := by
    rw [hcur]
    simp only [literalStarts, List.mem_cons, List.not_mem_nil, or_false] at hc
    rcases hc with rfl | rfl | rfl | rfl | rfl | rfl <;> simp [isInline]
  have hread : literal? ⟨p.line, c :: cs, p.rest⟩ = some q := by
    rw [← hcur]
    exact literal?_eq_some_iff.mpr h
  rw [statementEnd?_of_literalStart hdrop hc hprev, hread]
  rfl

/-! The tokens of a statement, one group after the other. -/

theorem Opens.statementEnd?_eq (h : Opens d p q) : ∃ prev, (prev = .start ∨ prev = .opening) ∧
    statementEnd? 0 .start p = statementEnd? d prev q := by
  induction h with
  | nothing => exact ⟨.start, Or.inl rfl, rfl⟩
  | more h hgap ih =>
    obtain ⟨prev, hprev, heq⟩ := ih
    refine ⟨.opening, Or.inr rfl, ?_⟩
    rw [heq, hgap.statementEnd?_eq, statementEnd?_opening hprev]

theorem Literals.statementEnd?_eq (h : Literals (d ≠ 0) p q) (hprev : prev ≠ .closing) :
    statementEnd? d prev p = statementEnd? d .string q := by
  induction h with
  | one hgap hlit => rw [hgap.statementEnd?_eq, hlit.statementEnd?_eq hprev]
  | more h hgap hlit ih => rw [ih, hgap.statementEnd?_eq, hlit.statementEnd?_eq (by decide)]

theorem Closes.statementEnd?_eq {top : Nat} (h : Closes top d p q) :
    ∃ prev, (prev = .string ∨ prev = .closing) ∧
      statementEnd? top .string p = statementEnd? d prev q := by
  induction h with
  | nothing => exact ⟨.string, Or.inl rfl, rfl⟩
  | @more d n p q cs rest h hgap ih =>
    obtain ⟨prev, hprev, heq⟩ := ih
    refine ⟨.closing, Or.inr rfl, ?_⟩
    have hgap' : Gap (d + 1 ≠ 0) q ⟨n, ')' :: cs, rest⟩ := by simpa using hgap
    rw [heq, hgap'.statementEnd?_eq, statementEnd?_closing hprev]

theorem Ends.statementEnd?_eq {ending : Ending} (h : Ends p ending) (hdone : isDone d prev = true) :
    statementEnd? d prev p = some ending := by
  cases h with
  | line n rest => rw [statementEnd?_of_nil rfl, if_pos hdone]
  | comment n cs rest =>
    rw [statementEnd?_of_cons (cur_dropWhile (by decide)), if_pos rfl, if_pos hdone]
  | last n =>
    rw [statementEnd?_of_cons (cur_dropWhile (by decide))]
    simp [Place.nextLine?, hdone]
  | semicolon n cs rest =>
    rw [statementEnd?_of_cons (cur_dropWhile (by decide))]
    simp [hdone]

theorem Statement.statementEnd?_eq {ending : Ending} (h : Statement p ending) :
    statementEnd? 0 .start p = some ending := by
  obtain ⟨d, p₁, p₂, p₃, p₄, hopens, hliterals, hcloses, hgap, hends⟩ := h
  obtain ⟨prev, hprev, hopened⟩ := hopens.statementEnd?_eq
  obtain ⟨prev', hprev', hclosed⟩ := hcloses.statementEnd?_eq
  have hlast : Gap ((0 : Nat) ≠ 0) p₃ p₄ := by simpa using hgap
  calc statementEnd? 0 .start p = statementEnd? d prev p₁ := hopened
    _ = statementEnd? d .string p₂ :=
      hliterals.statementEnd?_eq (by rcases hprev with rfl | rfl <;> decide)
    _ = statementEnd? 0 prev' p₃ := hclosed
    _ = statementEnd? 0 prev' p₄ := hlast.statementEnd?_eq prev'
    _ = some ending := hends.statementEnd?_eq (by rcases hprev' with rfl | rfl <;> decide)

end

/-! ## The reader accepts nothing else -/

section
variable {isOpen : Prop} {d n : Nat} {prev : Token} {c : Char} {cs : List Char} {rest : List Line}
  {start p q r : Place} {ending : Ending}

theorem Gap.trans (h : Gap isOpen p q) (h' : Gap isOpen q r) : Gap isOpen p r := by
  induction h with
  | nothing => exact h'
  | blank hc h ih => exact .blank hc (ih h')
  | joined h ih => exact .joined (ih h')
  | broken ho h ih => exact .broken ho (ih h')
  | comment ho h ih => exact .comment ho (ih h')

/-- The blanks up to the next other character are a gap. -/
theorem gap_blanks (h : p.cur.dropWhile isInline = cs) : Gap isOpen p ⟨p.line, cs, p.rest⟩ := by
  obtain ⟨n, bs, rest⟩ := p
  subst h
  induction bs with
  | nil => exact .nothing _
  | cons c bs ih =>
    dsimp only at ih ⊢
    by_cases hc : isInline c = true
    · rw [List.dropWhile_cons_of_pos hc]
      exact .blank hc ih
    · rw [List.dropWhile_cons_of_neg hc]
      exact .nothing _

theorem nextLine?_eq_some_iff : p.nextLine? = some q ↔
    ∃ l rest, p.rest = l :: rest ∧ q = ⟨p.line + 1, l, rest⟩ := by
  unfold Place.nextLine?
  cases p.rest with
  | nil => simp
  | cons l rest =>
    constructor
    · intro h
      exact ⟨l, rest, rfl, (Option.some.inj h).symm⟩
    · rintro ⟨l', rest', hrest, rfl⟩
      obtain ⟨rfl, rfl⟩ := List.cons.inj hrest
      rfl

theorem nextLine?_eq_none_iff : p.nextLine? = none ↔ p.rest = [] := by
  unfold Place.nextLine?
  cases p.rest <;> simp

/-- The same where another line follows. -/
theorem gap_before_break (h : p.cur.dropWhile isInline = cs) (hnext : p.nextLine? = some q) :
    ∃ l rest, Gap isOpen p ⟨p.line, cs, l :: rest⟩ ∧ q = ⟨p.line + 1, l, rest⟩ := by
  obtain ⟨l, rest, hrest, hq⟩ := nextLine?_eq_some_iff.mp hnext
  exact ⟨l, rest, hrest ▸ gap_blanks h, hq⟩

/-- What was read from a place on is the beginning of a statement, up to a gap behind the
token `prev`, inside of `depth` parentheses. -/
def Reached (start : Place) (depth : Nat) (prev : Token) (p : Place) : Prop :=
  match prev with
  | .start | .opening => ∃ q, Opens depth start q ∧ Gap (depth ≠ 0) q p
  | .string => ∃ q r, Opens depth start q ∧ Literals (depth ≠ 0) q r ∧ Gap (depth ≠ 0) r p
  | .closing => ∃ d q r s, Opens d start q ∧ Literals (d ≠ 0) q r ∧ Closes d depth r s ∧
      Gap (depth ≠ 0) s p

theorem Reached.gap (h : Reached start d prev p) (hgap : Gap (d ≠ 0) p q) :
    Reached start d prev q := by
  cases prev with
  | start | opening =>
    obtain ⟨p₁, hopens, h⟩ := h
    exact ⟨p₁, hopens, h.trans hgap⟩
  | string =>
    obtain ⟨p₁, p₂, hopens, hliterals, h⟩ := h
    exact ⟨p₁, p₂, hopens, hliterals, h.trans hgap⟩
  | closing =>
    obtain ⟨top, p₁, p₂, p₃, hopens, hliterals, hcloses, h⟩ := h
    exact ⟨top, p₁, p₂, p₃, hopens, hliterals, hcloses, h.trans hgap⟩

theorem Reached.opening (hprev : prev = .start ∨ prev = .opening)
    (h : Reached start d prev ⟨n, '(' :: cs, rest⟩) :
    Reached start (d + 1) .opening ⟨n, cs, rest⟩ := by
  obtain ⟨p₁, hopens, hgap⟩ : ∃ q, Opens d start q ∧ Gap (d ≠ 0) q ⟨n, '(' :: cs, rest⟩ := by
    rcases hprev with rfl | rfl <;> exact h
  exact ⟨_, .more hopens hgap, .nothing _⟩

theorem Reached.literal (hprev : prev ≠ .closing) (h : Reached start d prev p)
    (hlit : Literal p q) : Reached start d .string q := by
  cases prev with
  | start | opening =>
    obtain ⟨p₁, hopens, hgap⟩ := h
    exact ⟨p₁, q, hopens, .one hgap hlit, .nothing q⟩
  | string =>
    obtain ⟨p₁, p₂, hopens, hliterals, hgap⟩ := h
    exact ⟨p₁, q, hopens, .more hliterals hgap hlit, .nothing q⟩
  | closing => exact absurd rfl hprev

/-- Behind a string or a closing parenthesis there are only closing parentheses left. -/
theorem Reached.closes (hprev : prev = .string ∨ prev = .closing) (h : Reached start d prev p) :
    Reached start d .closing p := by
  rcases hprev with rfl | rfl
  · obtain ⟨p₁, p₂, hopens, hliterals, hgap⟩ := h
    exact ⟨d, p₁, p₂, p₂, hopens, hliterals, .nothing p₂, hgap⟩
  · exact h

theorem Reached.closing (hprev : prev = .string ∨ prev = .closing)
    (h : Reached start (d + 1) prev ⟨n, ')' :: cs, rest⟩) :
    Reached start d .closing ⟨n, cs, rest⟩ := by
  obtain ⟨top, p₁, p₂, p₃, hopens, hliterals, hcloses, hgap⟩ := h.closes hprev
  exact ⟨top, p₁, p₂, _, hopens, hliterals, .more hcloses (by simpa using hgap), .nothing _⟩

theorem Reached.statement (hdone : isDone d prev = true) (h : Reached start d prev p)
    (hends : Ends p ending) : Statement start ending := by
  simp only [isDone, Bool.and_eq_true, Bool.or_eq_true, decide_eq_true_eq] at hdone
  obtain ⟨rfl, hprev⟩ := hdone
  obtain ⟨top, p₁, p₂, p₃, hopens, hliterals, hcloses, hgap⟩ := h.closes hprev
  exact ⟨top, p₁, p₂, p₃, p, hopens, hliterals, hcloses, by simpa using hgap, hends⟩

/-- **What the reader has read is the beginning of a statement.**  So the end that it gives
is the end of a statement. -/
theorem Reached.statementEnd? (h : Reached start d prev p)
    (hend : statementEnd? d prev p = some ending) : Statement start ending := by
  fun_induction Docstring.statementEnd? d prev p with
  | case1 d prev p hcur hdone =>
    obtain rfl := Option.some.inj hend
    exact (h.gap (gap_blanks hcur)).statement hdone (.line _ _)
  | case4 d prev p hcur hdone hd q hnext hsize ih =>
    obtain ⟨l, rest, hbreak, rfl⟩ := gap_before_break hcur hnext
    exact ih ((h.gap hbreak).gap (.broken hd (.nothing _))) hend
  | case5 d prev p cs hdone hcur hlen =>
    obtain rfl := Option.some.inj hend
    exact (h.gap (gap_blanks hcur)).statement hdone (.comment _ _ _)
  | case8 d prev p cs hdone hd q hnext hsize hcur hlen ih =>
    obtain ⟨l, rest, hbreak, rfl⟩ := gap_before_break hcur hnext
    exact ih ((h.gap hbreak).gap (.comment hd (.nothing _))) hend
  | case9 d prev p c cs hcur hlen hcomment hlast hnext hdone =>
    obtain rfl := Option.some.inj hend
    obtain ⟨rfl, rfl⟩ := hlast
    have hlast := h.gap (gap_blanks hcur)
    rw [nextLine?_eq_none_iff.mp hnext] at hlast
    exact hlast.statement hdone (.last _)
  | case11 d prev p c cs hcur hlen hcomment hlast q hnext hsize ih =>
    obtain ⟨rfl, rfl⟩ := hlast
    obtain ⟨l, rest, hbreak, rfl⟩ := gap_before_break hcur hnext
    exact ih ((h.gap hbreak).gap (.joined (.nothing _))) hend
  | case12 d prev p cs hdone hcur =>
    obtain rfl := Option.some.inj hend
    exact (h.gap (gap_blanks hcur)).statement hdone (.semicolon _ _ _)
  | case14 d prev p cs hprev hcur hlen _ _ _ hsize ih =>
    exact ih ((h.gap (gap_blanks hcur)).opening hprev) hend
  | case17 d prev p cs hclose hcur hlen _ _ _ _ hsize ih =>
    obtain ⟨hd, hprev⟩ := not_or.mp hclose
    obtain ⟨e, rfl⟩ := Nat.exists_eq_succ_of_ne_zero hd
    exact ih ((h.gap (gap_blanks hcur)).closing (Classical.not_not.mp hprev)) hend
  | case20 d prev p c cs hcur hlen _ _ _ _ _ hprev q hlit hsize ih =>
    exact ih ((h.gap (gap_blanks hcur)).literal hprev (literal?_eq_some_iff.mp hlit)) hend
  | _ => cases hend

/-- **The reader accepts exactly the docstring statements.** -/
theorem statementEnd?_eq_some_iff :
    Docstring.statementEnd? 0 .start p = some ending ↔ Statement p ending := by
  have hstart : Reached p 0 .start p := ⟨p, .nothing p, .nothing p⟩
  exact ⟨hstart.statementEnd?, Statement.statementEnd?_eq⟩

end

end Docstring
end ForwardDecl
