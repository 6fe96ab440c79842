import Mathlib.Logic.Relation
import ForwardDecl.Proofs.ImportLines

/-! # The lines of the first statement

To find the docstring, the reader goes over the first statement token by token
(`Docstring.Step`), and it can go over many lines on the way: a string literal, an open
parenthesis and a backslash all make it go on in the next line.  What the reader finds at the
end is the same from each place that it comes to (`Docstring.Step.end?_eq`), so that it ends on
the last line that it comes to, and every line up to there begins between two tokens or inside
of a string literal (`Docstring.begins_of_end`).

The import must not go in between the lines that the reader went over.  It does not, with one
exception: a docstring of several lines with a semicolon behind it
(`Docstring.insertionLine_outside_iff`).
-/
namespace ForwardDecl
namespace Docstring

/-! ## Steps of the reader -/

/-- Where the reader is: inside how many parentheses, behind which token, and at which place. -/
structure Reading where
  depth : Nat
  prev : Token
  place : Place

/-- What the reader finds from here on. -/
def Reading.end? (s : Reading) : Option Ending := statementEnd? s.depth s.prev s.place

/-- The line on which a statement ends. -/
def Ending.line : Ending → Nat
  | .lineEnd n _ => n
  | .semicolon n => n

/-- The line to which the import goes where a docstring ends. -/
def Ending.importLine : Ending → Nat
  | .lineEnd n rest => nextStatement (n + 1) rest
  | .semicolon n => n

/-- The place of the next character that is no blank. -/
def Place.skip (p : Place) : Place := ⟨p.line, p.cur.dropWhile isInline, p.rest⟩

/-- One step of the reader: to the next line, over a parenthesis or over a string literal, with
the blanks before it. -/
inductive Step : Reading → Reading → Prop
  | broken {d : Nat} {prev : Token} {p q : Place} (hd : d ≠ 0) (hcur : p.skip.cur = [])
      (hnext : p.nextLine? = some q) : Step ⟨d, prev, p⟩ ⟨d, prev, q⟩
  | comment {d : Nat} {prev : Token} {p q : Place} {cs : List Char} (hd : d ≠ 0)
      (hcur : p.skip.cur = '#' :: cs) (hnext : p.nextLine? = some q) :
      Step ⟨d, prev, p⟩ ⟨d, prev, q⟩
  | joined {d : Nat} {prev : Token} {p q : Place} (hcur : p.skip.cur = ['\\'])
      (hnext : p.nextLine? = some q) : Step ⟨d, prev, p⟩ ⟨d, prev, q⟩
  | opening {d : Nat} {prev : Token} {p : Place} {cs : List Char}
      (hprev : prev = .start ∨ prev = .opening) (hcur : p.skip.cur = '(' :: cs) :
      Step ⟨d, prev, p⟩ ⟨d + 1, .opening, ⟨p.line, cs, p.rest⟩⟩
  | closing {d : Nat} {prev : Token} {p : Place} {cs : List Char}
      (hprev : prev = .string ∨ prev = .closing) (hcur : p.skip.cur = ')' :: cs) :
      Step ⟨d + 1, prev, p⟩ ⟨d, .closing, ⟨p.line, cs, p.rest⟩⟩
  | literal {d : Nat} {prev : Token} {p q : Place} (hprev : prev ≠ .closing)
      (hlit : Literal p.skip q) : Step ⟨d, prev, p⟩ ⟨d, .string, q⟩

/-- The reader that sets out at a place comes to a reading. -/
def Comes (start : Place) (s : Reading) : Prop := Relation.ReflTransGen Step ⟨0, .start, start⟩ s

section
variable {d n i : Nat} {prev : Token} {mark : Char} {triple : Bool} {cs : List Char}
  {start p q r : Place} {s t : Reading} {ending : Ending}

theorem skip_eq (hcur : p.skip.cur = cs) : p.skip = ⟨p.line, cs, p.rest⟩ := by
  rw [← hcur]
  rfl

theorem statementEnd?_skip (d : Nat) (prev : Token) (p : Place) :
    statementEnd? d prev p = statementEnd? d prev p.skip :=
  (gap_blanks rfl).statementEnd?_eq prev

/-- **A step does not change what the reader finds.** -/
theorem Step.end?_eq (h : Step s t) : s.end? = t.end? := by
  cases h with
  | @broken d prev p q hd hcur hnext =>
    obtain ⟨l, rest, hbreak, rfl⟩ := gap_before_break hcur hnext
    exact (hbreak.trans (.broken hd (.nothing _))).statementEnd?_eq prev
  | @comment d prev p q cs hd hcur hnext =>
    obtain ⟨l, rest, hbreak, rfl⟩ := gap_before_break hcur hnext
    exact (hbreak.trans (.comment hd (.nothing _))).statementEnd?_eq prev
  | @joined d prev p q hcur hnext =>
    obtain ⟨l, rest, hbreak, rfl⟩ := gap_before_break hcur hnext
    exact (hbreak.trans (.joined (.nothing _))).statementEnd?_eq prev
  | @opening d prev p cs hprev hcur =>
    show statementEnd? d prev p = _
    rw [statementEnd?_skip, skip_eq hcur, statementEnd?_opening hprev]
    rfl
  | @closing d prev p cs hprev hcur =>
    show statementEnd? (d + 1) prev p = _
    rw [statementEnd?_skip, skip_eq hcur, statementEnd?_closing hprev]
    rfl
  | @literal d prev p q hprev hlit =>
    show statementEnd? d prev p = _
    rw [statementEnd?_skip, hlit.statementEnd?_eq hprev]
    rfl

theorem Comes.end?_eq (h : Comes start s) : statementEnd? 0 .start start = s.end? := by
  induction h with
  | refl => rfl
  | tail h hs ih => exact ih.trans hs.end?_eq

theorem skip_size_le (p : Place) : p.skip.size ≤ p.size := by
  have := length_dropWhile_le isInline p.cur
  simp only [Place.size, Place.skip]
  omega

theorem size_lt_of_skip {c : Char} (hcur : p.skip.cur = c :: cs) :
    (Place.mk p.line cs p.rest).size < p.size := by
  have := skip_size_le p
  rw [skip_eq hcur] at this
  simp only [Place.size, List.length_cons] at this ⊢
  omega

/-- A step uses up a part of what is left to read. -/
theorem Step.size_lt (h : Step s t) : t.place.size < s.place.size := by
  cases h with
  | broken hd hcur hnext => exact nextLine?_size hnext
  | comment hd hcur hnext => exact nextLine?_size hnext
  | joined hcur hnext => exact nextLine?_size hnext
  | opening hprev hcur => exact size_lt_of_skip hcur
  | closing hprev hcur => exact size_lt_of_skip hcur
  | literal hprev hlit =>
    have hlt := literal?_size (literal?_eq_some_iff.mpr hlit)
    exact Nat.lt_of_lt_of_le hlt (skip_size_le _)

/-- **Where the reader finds the end of a statement, it goes on or the end is on this line.** -/
theorem step_or_end (h : s.end? = some ending) :
    (∃ t, Step s t) ∨ ending.line = s.place.line := by
  obtain ⟨d, prev, p⟩ := s
  change statementEnd? d prev p = some ending at h
  revert h
  fun_cases statementEnd? d prev p with
  | case4 hcur hdone hd q hnext => exact fun _ => Or.inl ⟨_, .broken hd hcur hnext⟩
  | case8 cs hdone hd q hnext hsize hcur => exact fun _ => Or.inl ⟨_, .comment hd hcur hnext⟩
  | case11 c cs hcur hlen hcomment hlast q hnext =>
    obtain ⟨rfl, rfl⟩ := hlast
    exact fun _ => Or.inl ⟨_, .joined hcur hnext⟩
  | case14 cs hprev hcur => exact fun _ => Or.inl ⟨_, .opening hprev hcur⟩
  | case17 cs hclose hcur =>
    obtain ⟨hd, hprev⟩ := not_or.mp hclose
    obtain ⟨e, rfl⟩ := Nat.exists_eq_succ_of_ne_zero hd
    exact fun _ => Or.inl ⟨_, .closing (Classical.not_not.mp hprev) hcur⟩
  | case20 c cs hcur hlen _ _ _ _ _ hprev q hlit =>
    rw [← skip_eq hcur] at hlit
    exact fun _ => Or.inl ⟨_, .literal hprev (literal?_eq_some_iff.mp hlit)⟩
  | case1 | case5 | case9 | case12 =>
    -- the reader finds the end right here
    intro h
    obtain rfl := Option.some.inj h
    exact Or.inr rfl
  | _ =>
    intro h
    cases h

/-! ## Lines between tokens -/

/-- The second place is the start of a later line. -/
def LaterLine (p q : Place) : Prop :=
  ∃ passed, p.rest = passed ++ q.cur :: q.rest ∧ q.line = p.line + passed.length + 1

theorem laterLine_nextLine (h : p.nextLine? = some q) : LaterLine p q := by
  obtain ⟨l, rest, hrest, rfl⟩ := nextLine?_eq_some_iff.mp h
  exact ⟨[], hrest, rfl⟩

theorem Onward.trans_laterLine (h : Onward p q) (h' : LaterLine q r) : LaterLine p r := by
  obtain ⟨passed, hrest, hline⟩ := h
  obtain ⟨passed', hrest', hline'⟩ := h'
  refine ⟨passed ++ passed', ?_, ?_⟩
  · rw [hrest, hrest', List.append_assoc]
  · rw [hline', hline, List.length_append, Nat.add_assoc p.line]

theorem Onward.line_le (h : Onward p q) : p.line ≤ q.line := by
  obtain ⟨passed, -, hline⟩ := h
  omega

theorem onward_of_nextLine? (h : p.nextLine? = some q) : Onward p q := by
  obtain ⟨l, rest, hrest, rfl⟩ := nextLine?_eq_some_iff.mp h
  exact ⟨[l], hrest, rfl⟩

theorem Step.onward (h : Step s t) : Onward s.place t.place := by
  cases h with
  | broken hd hcur hnext => exact onward_of_nextLine? hnext
  | comment hd hcur hnext => exact onward_of_nextLine? hnext
  | joined hcur hnext => exact onward_of_nextLine? hnext
  | opening hprev hcur => exact onward_line _ _ _ _
  | closing hprev hcur => exact onward_line _ _ _ _
  | literal hprev hlit => exact (onward_line _ _ _ _).trans hlit.onward

/-- The reader does not come beyond the line on which it finds the end. -/
theorem line_le_of_end (h : s.end? = some ending) : s.place.line ≤ ending.line := by
  induction hsize : s.place.size using Nat.strongRecOn generalizing s with
  | ind size ih =>
    subst hsize
    rcases step_or_end h with ⟨t, hs⟩ | hline
    · have hrest := ih _ hs.size_lt (hs.end?_eq ▸ h) rfl
      exact Nat.le_trans hs.onward.line_le hrest
    · exact Nat.le_of_eq hline.symm

/-! ## Lines inside of string literals -/

/-- The second place is behind the opening marks of the string literal at the first one. -/
inductive Opened (mark : Char) : Bool → Place → Place → Prop
  | triple {n : Nat} {letter cs : List Char} {rest : List Line} (hletter : letter ∈ prefixes)
      (hmark : mark ∈ quotes) :
      Opened mark true ⟨n, letter ++ mark :: mark :: mark :: cs, rest⟩ ⟨n, cs, rest⟩
  | single {n : Nat} {letter cs : List Char} {rest : List Line} (hletter : letter ∈ prefixes)
      (hmark : mark ∈ quotes) (hfew : ¬[mark, mark] <+: cs) :
      Opened mark false ⟨n, letter ++ mark :: cs, rest⟩ ⟨n, cs, rest⟩

/-- A string that goes on at the first place takes up the rest of the line, and it goes on at the
start of the next one. -/
inductive RunsOver (mark : Char) (triple : Bool) : Place → Place → Prop
  | intro {n : Nat} {cs : List Char} {l : Line} {rest : List Line} {escaped : Bool}
      (hscan : scanLine mark triple cs = .ran escaped) (hgoes : (triple || escaped) = true) :
      RunsOver mark triple ⟨n, cs, l :: rest⟩ ⟨n + 1, l, rest⟩

/-- The place behind the string that goes on at a place. -/
def Place.close? (mark : Char) (triple : Bool) (p : Place) : Option Place :=
  closeLiteral mark triple p.line p.cur p.rest

theorem Opened.literal?_eq (h : Opened mark triple p q) : literal? p = q.close? mark triple := by
  cases h with
  | triple hletter hmark => exact literal?_triple hletter hmark
  | single hletter hmark hfew => exact literal?_single hletter hmark hfew

theorem Opened.line_eq (h : Opened mark triple p q) : q.line = p.line := by
  cases h <;> rfl

/-- A literal that is closed was opened. -/
theorem Literal.opened (h : Literal p q) :
    ∃ mark triple r, Opened mark triple p r ∧ r.close? mark triple = some q := by
  cases h with
  | triple hletter hmark h =>
    exact ⟨_, _, _, .triple hletter hmark, closeLiteral_of_inside hmark h⟩
  | single hletter hmark hfew h =>
    exact ⟨_, _, _, .single hletter hmark hfew, closeLiteral_of_inside hmark h⟩

theorem RunsOver.close?_eq (h : Relation.TransGen (RunsOver mark triple) p q) :
    p.close? mark triple = q.close? mark triple := by
  have hone : ∀ {p q : Place}, RunsOver mark triple p q →
      p.close? mark triple = q.close? mark triple := by
    rintro p q ⟨hscan, hgoes⟩
    show closeLiteral _ _ _ _ _ = _
    rw [closeLiteral.eq_def, hscan]
    exact if_pos hgoes
  induction h with
  | single h => exact hone h
  | tail h h' ih => exact ih.trans (hone h')

theorem onward_of_close? (h : p.close? mark triple = some q) : Onward p q :=
  (inside_of_closeLiteral h).onward

/-- The lines up to the end of a string begin inside of it. -/
theorem runsOver_of_close? (h : p.close? mark triple = some q) (hi : p.line < i)
    (hle : i ≤ q.line) : ∃ r, Relation.TransGen (RunsOver mark triple) p r ∧ r.line = i := by
  obtain ⟨n, cs, rest⟩ := p
  change n < i at hi
  change closeLiteral mark triple n cs rest = some q at h
  induction rest generalizing n cs with
  | nil =>
    rw [closeLiteral.eq_def] at h
    split at h
    · obtain rfl := Option.some.inj h
      exact absurd hle (Nat.not_le_of_lt hi)
    · cases h
  | cons l rest ih =>
    rw [closeLiteral.eq_def] at h
    split at h
    · obtain rfl := Option.some.inj h
      exact absurd hle (Nat.not_le_of_lt hi)
    · rename_i escaped hscan
      dsimp only at h
      split at h
      · have hover : RunsOver mark triple ⟨n, cs, l :: rest⟩ ⟨n + 1, l, rest⟩ := .intro hscan ‹_›
        by_cases hnext : i = n + 1
        · exact ⟨_, .single hover, hnext.symm⟩
        · obtain ⟨r, hr, hline⟩ := ih (n + 1) l (by omega) h
          exact ⟨r, .head hover hr, hline⟩
      · cases h

/-- A line of the first statement begins at a place inside of a string literal, be it closed
later or not. -/
def InsideLiteral (start r : Place) : Prop :=
  ∃ s mark triple q, Comes start s ∧ s.prev ≠ .closing ∧ Opened mark triple s.place.skip q ∧
    Relation.TransGen (RunsOver mark triple) q r

/-! ## All lines of a statement -/

/-- What a step passes: it goes to the start of the next line, or the lines begin inside of the
literal that it reads. -/
theorem Step.begins (h : Step s t) (hi : s.place.line < i) (hle : i ≤ t.place.line) :
    LaterLine s.place t.place ∧ t.place.line = i ∨
      ∃ mark triple q r, s.prev ≠ .closing ∧ Opened mark triple s.place.skip q ∧
        Relation.TransGen (RunsOver mark triple) q r ∧ r.line = i := by
  have hbreak : ∀ {p q : Place}, p.nextLine? = some q → p.line < i → i ≤ q.line →
      LaterLine p q ∧ q.line = i := by
    intro p q hnext hi hle
    refine ⟨laterLine_nextLine hnext, ?_⟩
    obtain ⟨l, rest, -, rfl⟩ := nextLine?_eq_some_iff.mp hnext
    exact Nat.le_antisymm hi hle
  cases h with
  | broken hd hcur hnext => exact Or.inl (hbreak hnext hi hle)
  | comment hd hcur hnext => exact Or.inl (hbreak hnext hi hle)
  | joined hcur hnext => exact Or.inl (hbreak hnext hi hle)
  | opening hprev hcur => exact absurd hle (Nat.not_le_of_lt hi)
  | closing hprev hcur => exact absurd hle (Nat.not_le_of_lt hi)
  | @literal d prev p q hprev hlit =>
    obtain ⟨mark, triple, r, hopened, hclose⟩ := hlit.opened
    obtain ⟨r', hruns, hline⟩ := runsOver_of_close? hclose (hopened.line_eq ▸ hi) hle
    exact Or.inr ⟨mark, triple, r, r', hprev, hopened, hruns, hline⟩

/-- **Every line of a statement begins between two tokens or inside of a string literal.** -/
theorem begins_of_end (hcomes : Comes start s) (h : s.end? = some ending)
    (hi : s.place.line < i) (hle : i ≤ ending.line) :
    (∃ t, Comes start t ∧ LaterLine s.place t.place ∧ t.place.line = i) ∨
      ∃ r, InsideLiteral start r ∧ r.line = i := by
  -- by induction on what is left to read; the step that passes the line shows where it begins
  induction hsize : s.place.size using Nat.strongRecOn generalizing s with
  | ind size ih =>
    subst hsize
    rcases step_or_end h with ⟨t, hs⟩ | hline
    · have ht : Comes start t := hcomes.tail hs
      by_cases hpassed : i ≤ t.place.line
      · rcases hs.begins hi hpassed with
          ⟨hlater, hline⟩ | ⟨mark, triple, q, r, hprev, ho, hr, hline⟩
        · exact Or.inl ⟨t, ht, hlater, hline⟩
        · exact Or.inr ⟨r, ⟨s, mark, triple, q, hcomes, hprev, ho, hr⟩, hline⟩
      · rcases ih _ hs.size_lt ht (hs.end?_eq ▸ h) (Nat.lt_of_not_le hpassed) rfl with
          ⟨u, hu, hlater, hline⟩ | hinside
        · exact Or.inl ⟨u, hu, hs.onward.trans_laterLine hlater, hline⟩
        · exact Or.inr hinside
    · omega

/-! ## How far the reader comes -/

/-- The reader that sets out at a place reads on the line `e`: it comes there between two tokens,
or in the midst of a string literal. -/
def ReadsTo (start : Place) (e : Nat) : Prop :=
  (∃ s, Comes start s ∧ s.place.line = e) ∨ ∃ r, InsideLiteral start r ∧ r.line = e

theorem Opened.cur_eq (h : Opened mark triple p q) :
    ∃ c cs, p.cur = c :: cs ∧ c ∈ literalStarts := by
  cases h with
  | triple hletter hmark => exact literalStart_of_letter hletter hmark _
  | single hletter hmark hfew => exact literalStart_of_letter hletter hmark _

/-- Where a string literal was opened, the reader goes on behind it. -/
theorem Opened.end?_eq (h : Opened mark triple s.place.skip q) (hprev : s.prev ≠ .closing) :
    s.end? = (q.close? mark triple).bind (statementEnd? s.depth .string) := by
  obtain ⟨c, cs, hcur, hc⟩ := h.cur_eq
  rw [← h.literal?_eq, skip_eq hcur]
  exact statementEnd?_of_literalStart hcur hc hprev

theorem line_le_of_readsTo {e : Nat} (h : ReadsTo start e)
    (hend : statementEnd? 0 .start start = some ending) : e ≤ ending.line := by
  rcases h with ⟨s, hs, rfl⟩ | ⟨r, ⟨s, mark, triple, q, hs, hprev, hopened, hruns⟩, rfl⟩
  · exact line_le_of_end (hs.end?_eq ▸ hend)
  · -- the literal is closed, since the reader finds an end behind it
    rw [hs.end?_eq, hopened.end?_eq hprev, RunsOver.close?_eq hruns] at hend
    obtain ⟨u, hclose, hrest⟩ := Option.bind_eq_some_iff.mp hend
    have hbehind : u.line ≤ ending.line := @line_le_of_end ⟨s.depth, .string, u⟩ ending hrest
    exact Nat.le_trans (onward_of_close? hclose).line_le hbehind

/-- The reader comes to the line of the end. -/
theorem readsTo_of_end (h : statementEnd? 0 .start start = some ending) :
    ReadsTo start ending.line := by
  have hstart : Comes start ⟨0, .start, start⟩ := .refl
  rcases Nat.lt_or_eq_of_le (@line_le_of_end ⟨0, .start, start⟩ ending h) with hlt | heq
  · rcases begins_of_end hstart h hlt (Nat.le_refl _) with ⟨t, ht, -, hline⟩ | hinside
    · exact Or.inl ⟨t, ht, hline⟩
    · exact Or.inr hinside
  · exact Or.inl ⟨_, hstart, heq⟩

end

/-! ## The import and the first statement -/

section
variable {lines : List Line} {first : Nat}

theorem insertionLine_of_end {start : Place} {ending : Ending} (h : FirstCode lines 0 first)
    (hstart : lineStart? lines first = some start)
    (hend : statementEnd? 0 .start start = some ending) :
    insertionLine lines = ending.importLine := by
  rw [insertionLine_eq h, hstart]
  dsimp only
  rw [hend]
  cases ending <;> rfl

/-- Without a docstring it goes before the first statement. -/
theorem insertionLine_of_no_end (h : FirstCode lines 0 first)
    (hend : (lineStart? lines first).bind (statementEnd? 0 .start) = none) :
    insertionLine lines = first := by
  rw [insertionLine_eq h]
  cases hstart : lineStart? lines first with
  | none => rfl
  | some start =>
    rw [hstart] at hend
    dsimp only
    rw [show statementEnd? 0 .start start = none from hend]

theorem lt_nextStatement (e : Nat) (rest : List Line) : e < nextStatement (e + 1) rest := by
  unfold nextStatement
  omega

/-- **When the import goes outside of the first statement.**  Let `first` be the first line with
code, and let the reader read the statement there.  The import goes before the statement or
behind every line that the reader comes to, unless the statement is a docstring of several lines
with a semicolon behind it.  In that case the import goes in between these lines. -/
theorem insertionLine_outside_iff (h : FirstCode lines 0 first) :
    (∀ start e, lineStart? lines first = some start → ReadsTo start e →
      insertionLine lines ≤ first ∨ e < insertionLine lines) ↔
    ∀ e, SharesLine lines first e → e = first := by
  constructor
  · rintro hout e ⟨start, hstart, hs⟩
    have hend := statementEnd?_eq_some_iff.mpr hs
    have heq : insertionLine lines = e := insertionLine_of_end h hstart hend
    -- the semicolon is on the last line that is read, and the import goes before this line
    have hread : ReadsTo start e := readsTo_of_end hend
    have hle : start.line ≤ e := @line_le_of_end ⟨0, .start, start⟩ _ hend
    obtain ⟨-, -, hfirst⟩ := drop_of_lineStart? hstart
    have := hout start e hstart hread
    omega
  · intro hshares start e hstart hread
    cases hend : statementEnd? 0 .start start with
    | none =>
      refine Or.inl (Nat.le_of_eq (insertionLine_of_no_end h ?_))
      rw [hstart]
      exact hend
    | some ending =>
      have hle : e ≤ ending.line := line_le_of_readsTo hread hend
      have heq := insertionLine_of_end h hstart hend
      cases ending with
      | lineEnd e' rest =>
        have hlt : e' < insertionLine lines := heq ▸ lt_nextStatement e' rest
        exact Or.inr (Nat.lt_of_le_of_lt hle hlt)
      | semicolon e' =>
        have hfirst := hshares e' ⟨start, hstart, statementEnd?_eq_some_iff.mp hend⟩
        exact Or.inl (Nat.le_of_eq (heq.trans hfirst))

/-- A docstring of two literals in parentheses, over three lines. -/
def foldedLines : List Line := ["('a'  # one", "'''b", "two''')", "x = 1"].map String.toList

/-- The import goes behind all of them. -/
theorem insertionLine_outside_folded : FirstCode foldedLines 0 0 ∧
    ∀ start e, lineStart? foldedLines 0 = some start → ReadsTo start e →
      insertionLine foldedLines ≤ 0 ∨ e < insertionLine foldedLines := by
  have hfirst : FirstCode foldedLines 0 0 := firstCode_nextStatement [] foldedLines
  refine ⟨hfirst, (insertionLine_outside_iff hfirst).mpr ?_⟩
  rintro e ⟨start, hstart, hs⟩
  obtain rfl : start = ⟨0, "('a'  # one".toList, foldedLines.drop 1⟩ :=
    (Option.some.inj hstart).symm
  have hend : statementEnd? 0 .start ⟨0, "('a'  # one".toList, foldedLines.drop 1⟩ =
      some (.lineEnd 2 (foldedLines.drop 3)) := by decide +kernel
  rw [statementEnd?_eq_some_iff.mpr hs] at hend
  cases hend

/-- A docstring of two lines, with a semicolon behind it. -/
def sharedLines : List Line := ["'''a", "'''; x = 1"].map String.toList

/-- **The import can go into a docstring.**  The reader has come to the second line, which begins
inside of the string literal, and the import goes before that line. -/
theorem import_inside_docstring : FirstCode sharedLines 0 0 ∧
    ∃ start, lineStart? sharedLines 0 = some start ∧ ReadsTo start 1 ∧
      (∃ r, InsideLiteral start r ∧ r.line = insertionLine sharedLines) ∧
      ¬(insertionLine sharedLines ≤ 0 ∨ 1 < insertionLine sharedLines) := by
  have hline : insertionLine sharedLines = 1 := by decide +kernel
  have hinside : InsideLiteral ⟨0, "'''a".toList, sharedLines.drop 1⟩
      ⟨1, "'''; x = 1".toList, []⟩ := by
    refine ⟨_, '\'', true, ⟨0, "a".toList, sharedLines.drop 1⟩, .refl, nofun, ?_, .single ?_⟩
    · exact @Opened.triple _ 0 [] "a".toList _ (by decide) (by decide)
    · exact @RunsOver.intro _ _ 0 "a".toList _ [] false (by decide) rfl
  refine ⟨firstCode_nextStatement [] sharedLines, _, rfl, Or.inr ⟨_, hinside, rfl⟩,
    ⟨_, hinside, hline.symm⟩, ?_⟩
  rw [hline]
  decide

end
end Docstring
end ForwardDecl
