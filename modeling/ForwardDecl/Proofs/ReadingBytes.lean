import ForwardDecl.Proofs.Positions
import ForwardDecl.Proofs.StatementLines

/-! # Reading bytes and reading characters

The machine that reads bytes by their positions comes to the line that the reader of characters
finds for what the bytes show (`Docstring.inserts_iff`).  Both look for characters below 128 only.
Between two tokens they go side by side.  Inside of a string literal the machine goes through a
longer character byte by byte, and may even come into the midst of one behind a backslash; but the
bytes on the way are none that it looks for (`Docstring.scanLine_stretch`).

So each step of the machine leaves what the reader finds as it was, and with the bounds for the
positions it follows that the reader ends within the lines, whatever the bytes are
(`Docstring.reader_ends_within_lines`).
-/
namespace ForwardDecl
namespace Docstring

/-! ## Quotation marks -/

/-- The quotation mark as a character. -/
def Quotation.char (d : Quotation) : Char := Char.ofUInt8 d.mark

section
variable {line : ByteArray} {d : Quotation} {b : UInt8} {xs ys : List UInt8} {i n : Nat}

theorem Quotation.mark_lt (d : Quotation) : d.mark < 128 := by
  rcases d.isQuote with h | h <;> rw [h] <;> decide

theorem Quotation.char_lt (d : Quotation) : d.char.toNat < 128 := UInt8.lt_iff_toNat_lt.mp d.mark_lt

theorem Quotation.char_mem (d : Quotation) : d.char ∈ quotes := by
  rw [Quotation.char]
  rcases d.isQuote with h | h <;> rw [h] <;> decide

/-- The same byte over and over is the same character over and over. -/
theorem lossyChars_replicate (hb : b < 128) (h : List.replicate n b <+: bytesFrom line i) :
    lossyChars line i = List.replicate n (Char.ofUInt8 b) ++ lossyChars line (i + n) := by
  induction n generalizing i with
  | zero => rfl
  | succ n ih =>
    obtain ⟨xs, hxs⟩ := h
    rw [List.replicate_succ, List.cons_append] at hxs
    have hnext : List.replicate n b <+: bytesFrom line (i + 1) := by
      rw [bytesFrom_add, ← hxs]
      exact ⟨xs, rfl⟩
    rw [lossyChars_ascii hxs.symm hb, ih hnext, List.replicate_succ, List.cons_append,
      Nat.add_right_comm, Nat.add_assoc]

theorem replicate_prefix_of_lossyChars (hb : b < 128)
    (h : List.replicate n (Char.ofUInt8 b) <+: lossyChars line i) :
    List.replicate n b <+: bytesFrom line i := by
  induction n generalizing i with
  | zero => exact List.nil_prefix
  | succ n ih =>
    rw [List.replicate_succ] at h
    cases hbytes : bytesFrom line i with
    | nil =>
      rw [lossyChars_of_le (size_le_of_bytesFrom hbytes)] at h
      cases List.prefix_nil.mp h
    | cons a xs =>
      obtain ⟨c, cs, hchars, hc, hcs⟩ := lossyChars_head hbytes
      rw [hchars, List.cons_prefix_cons] at h
      have hlt : (Char.ofUInt8 b).toNat < 128 := UInt8.lt_iff_toNat_lt.mp hb
      have hab : a = b := by
        have := (hc _ hlt).mp h.1.symm
        rwa [← (ofUInt8_eq_iff hlt).mp rfl] at this
      subst hab
      have hnext := ih (hcs hb ▸ h.2)
      rw [bytesFrom_add, hbytes] at hnext
      exact List.cons_prefix_cons.mpr ⟨rfl, hnext⟩

theorem delimiter_eq (d : Quotation) :
    delimiter d.char d.triple = List.replicate d.bytes.length d.char := by
  rw [delimiter, Quotation.bytes, List.length_replicate]
  cases d.triple <;> rfl

/-- The closing marks stand among the bytes where they stand among the characters. -/
theorem bytes_prefix_iff :
    d.bytes <+: bytesFrom line i ↔ delimiter d.char d.triple <+: lossyChars line i := by
  rw [delimiter_eq, Quotation.bytes, List.length_replicate]
  constructor
  · intro h
    rw [lossyChars_replicate d.mark_lt h]
    exact List.prefix_append _ _
  · exact replicate_prefix_of_lossyChars d.mark_lt

/-! ## Inside of a line -/

theorem scanLine_wide {c : Char} {cs : List Char} (h : 128 ≤ c.toNat) :
    scanLine d.char d.triple (c :: cs) = scanLine d.char d.triple cs := by
  have hne : c ≠ '\\' := by
    rintro rfl
    exact absurd h (by decide)
  have hopen : ¬delimiter d.char d.triple <+: c :: cs := by
    intro hbegins
    have hmark : d.char = c := by
      rw [delimiter] at hbegins
      cases ht : d.triple <;> rw [ht] at hbegins <;> exact (List.cons_prefix_cons.mp hbegins).1
    exact absurd h (Nat.not_le.mpr (hmark ▸ d.char_lt))
  rw [scanLine_character hne, closing?_eq_none_iff.mpr hopen]

/-- **Where characters begin makes no difference** for bytes that are not below 128. -/
theorem scanLine_stretch (h : ys <+: bytesFrom line i) (hys : ∀ y ∈ ys, 128 ≤ y) :
    scanLine d.char d.triple (lossyChars line i) =
      scanLine d.char d.triple (lossyChars line (i + ys.length)) := by
  -- by induction on what is left of the line; the next character may end before or behind
  induction hsize : line.size - i using Nat.strongRecOn generalizing i ys with
  | ind size ih =>
    subst hsize
    cases ys with
    | nil => rfl
    | cons y ys =>
      obtain ⟨xs, hxs⟩ := h
      obtain ⟨c, ws, hc, hne, hws, hbegins, hchars⟩ :=
        lossyChars_wide hxs.symm (hys y List.mem_cons_self)
      have hlt := lt_size_of_bytesFrom hxs.symm
      have hpos : 0 < ws.length := List.length_pos_iff.mpr hne
      rw [hchars, scanLine_wide hc]
      rcases List.prefix_or_prefix_of_prefix hbegins ⟨xs, hxs⟩ with ⟨zs, hzs⟩ | ⟨zs, hzs⟩
      · have hrest : zs <+: bytesFrom line (i + ws.length) := by
          rw [bytesFrom_add, ← hxs, ← hzs, List.append_assoc, List.drop_left]
          exact List.prefix_append _ _
        rw [ih _ (by omega) hrest (fun z hz => hys z (hzs ▸ List.mem_append_right _ hz)) rfl,
          ← hzs, List.length_append, Nat.add_assoc]
      · have hrest : zs <+: bytesFrom line (i + (y :: ys).length) := by
          rw [bytesFrom_add]
          obtain ⟨vs, hvs⟩ := hbegins
          rw [← hvs, ← hzs, List.append_assoc, List.drop_left]
          exact List.prefix_append _ _
        rw [ih _ (by rw [List.length_cons]; omega) hrest
          (fun z hz => hws z (hzs ▸ List.mem_append_right _ hz)) rfl,
          ← hzs, List.length_append, Nat.add_assoc]

/-- What a string literal finds from a column on.  Beyond the end of a line it has run over it, with
a backslash. -/
def scanAt (d : Quotation) (line : ByteArray) (column : Nat) : LineScan :=
  if line.size < column then .ran true else scanLine d.char d.triple (lossyChars line column)

theorem scanAt_of_le (h : i ≤ line.size) :
    scanAt d line i = scanLine d.char d.triple (lossyChars line i) :=
  if_neg (Nat.not_lt.mpr h)

theorem scanAt_backslash (h : bytesFrom line i = '\\'.toUInt8 :: xs) :
    scanAt d line i = scanAt d line (i + 2) := by
  have hlt := lt_size_of_bytesFrom h
  have hchars : lossyChars line i = '\\' :: lossyChars line (i + 1) :=
    lossyChars_ascii h (by decide)
  rw [scanAt_of_le (Nat.le_of_lt hlt), hchars]
  cases hnext : bytesFrom line (i + 1) with
  | nil =>
    have hlast := size_le_of_bytesFrom hnext
    rw [lossyChars_of_le hlast, scanAt, if_pos (by omega), scanLine]
  | cons b ys =>
    rw [scanAt_of_le (lt_size_of_bytesFrom hnext)]
    by_cases hb : b < 128
    · rw [lossyChars_ascii hnext hb, scanLine]
    · -- the rest of the character behind the backslash is passed byte by byte
      obtain ⟨c, ws, -, hne, hws, hbegins, hwide⟩ := lossyChars_wide hnext (UInt8.not_lt.mp hb)
      cases ws with
      | nil => exact absurd rfl hne
      | cons w ws =>
        have hrest : ws <+: bytesFrom line (i + 1 + 1) := by
          obtain ⟨vs, hvs⟩ := hbegins
          rw [bytesFrom_add, ← hvs]
          exact List.prefix_append _ _
        rw [hwide, scanLine, List.length_cons, Nat.add_comm ws.length, ← Nat.add_assoc,
          ← scanLine_stretch hrest fun y hy => hws y (List.mem_cons_of_mem w hy)]

theorem scanAt_closing (h : bytesFrom line i = b :: xs) (hbegins : d.bytes <+: b :: xs) :
    scanAt d line i = .closed (lossyChars line (i + d.bytes.length)) := by
  rw [← h] at hbegins
  have hchars : lossyChars line i =
      delimiter d.char d.triple ++ lossyChars line (i + d.bytes.length) := by
    rw [delimiter_eq]
    rw [Quotation.bytes] at hbegins ⊢
    rw [List.length_replicate]
    exact lossyChars_replicate d.mark_lt hbegins
  have hclosing := closing?_eq_some_iff.mpr hchars
  obtain ⟨cs, hcs⟩ : ∃ cs, lossyChars line i = d.char :: cs := by
    rw [hchars, delimiter]
    cases d.triple <;> exact ⟨_, rfl⟩
  have hne : d.char ≠ '\\' := by
    intro hc
    exact absurd (hc ▸ d.char_mem) (by decide)
  rw [hcs] at hclosing
  rw [scanAt_of_le (Nat.le_of_lt (lt_size_of_bytesFrom h)), hcs, scanLine_character hne, hclosing]

theorem scanAt_other (h : bytesFrom line i = b :: xs) (hb : b ≠ '\\'.toUInt8)
    (hopen : ¬d.bytes <+: b :: xs) : scanAt d line i = scanAt d line (i + 1) := by
  have hlt := lt_size_of_bytesFrom h
  rw [scanAt_of_le (Nat.le_of_lt hlt), scanAt_of_le hlt]
  by_cases hascii : b < 128
  · rw [← h, bytes_prefix_iff, lossyChars_ascii h hascii] at hopen
    have hne : Char.ofUInt8 b ≠ '\\' := mt (ofUInt8_eq_iff (by decide)).mp hb
    rw [lossyChars_ascii h hascii, scanLine_character hne, closing?_eq_none_iff.mpr hopen]
  · have hbegins : [b] <+: bytesFrom line i := by
      rw [h]
      exact ⟨xs, rfl⟩
    exact scanLine_stretch hbegins (List.forall_mem_singleton.mpr (UInt8.not_lt.mp hascii))

end

/-! ## Places -/

/-- The lines that lines of bytes show. -/
def shown (lines : List ByteArray) : List Line := lines.map fun line => lossyChars line 0

/-- What is left to read at a position. -/
def Position.place (lines : List ByteArray) (p : Position) : Place :=
  ⟨p.line, lossyChars (lines[p.line]?.getD .empty) p.column, shown (lines.drop (p.line + 1))⟩

/-- Where the string literal ends that goes on at a position. -/
def Position.close? (lines : List ByteArray) (d : Quotation) (p : Position) : Option Place :=
  match lines[p.line]? with
  | none => none
  | some line =>
    match scanAt d line p.column, shown (lines.drop (p.line + 1)) with
    | .closed after, rest => some ⟨p.line, after, rest⟩
    | .ran _, [] => none
    | .ran escaped, l :: rest =>
      if d.triple || escaped then closeLiteral d.char d.triple (p.line + 1) l rest else none

section
variable {lines : List ByteArray} {line : ByteArray} {d : Quotation} {p q : Position}
  {b : UInt8} {xs : List UInt8}

theorem place_of_line (h : lines[p.line]? = some line) :
    p.place lines = ⟨p.line, lossyChars line p.column, shown (lines.drop (p.line + 1))⟩ := by
  rw [Position.place, h]
  rfl

/-- Behind a line the next one is left, or nothing is. -/
theorem shown_drop (lines : List ByteArray) (i : Nat) : shown (lines.drop i) =
    match lines[i]? with
    | none => []
    | some line => lossyChars line 0 :: shown (lines.drop (i + 1)) := by
  cases hline : lines[i]? with
  | none => rw [List.drop_eq_nil_of_le (List.getElem?_eq_none_iff.mp hline)]; rfl
  | some line =>
    obtain ⟨hlt, rfl⟩ := List.getElem?_eq_some_iff.mp hline
    rw [List.drop_eq_getElem_cons hlt]
    rfl

theorem close?_of_onLine (h : p.OnLine lines) :
    p.close? lines d = (p.place lines).close? d.char d.triple := by
  obtain ⟨line, hline, hcolumn⟩ := h
  rw [place_of_line hline, Position.close?, hline, Place.close?, closeLiteral.eq_def]
  dsimp only
  rw [scanAt_of_le hcolumn]
  cases scanLine d.char d.triple (lossyChars line p.column) with
  | closed after => rfl
  | ran escaped => cases shown (lines.drop (p.line + 1)) <;> rfl

/-- From the start of the next line a string literal goes on. -/
theorem close?_nextLine (p : Position) : p.nextLine.close? lines d =
    match shown (lines.drop (p.line + 1)) with
    | [] => none
    | l :: rest => closeLiteral d.char d.triple (p.line + 1) l rest := by
  rw [shown_drop]
  cases hline : lines[p.line + 1]? with
  | none => rw [Position.close?, show lines[p.nextLine.line]? = none from hline]
  | some line =>
    have honLine : p.nextLine.OnLine lines := ⟨line, hline, Nat.zero_le _⟩
    rw [close?_of_onLine honLine, place_of_line (p := p.nextLine) hline]
    rfl

theorem close?_right {n : Nat} (h : lines[p.line]? = some line)
    (hscan : scanAt d line p.column = scanAt d line (p.column + n)) :
    p.close? lines d = (p.right n).close? lines d := by
  rw [Position.close?, Position.close?, show lines[(p.right n).line]? = some line from h, h]
  dsimp only
  rw [hscan]
  rfl

theorem close?_of_ran {escaped : Bool} (h : lines[p.line]? = some line)
    (hscan : scanAt d line p.column = .ran escaped) :
    p.close? lines d = if d.triple || escaped then p.nextLine.close? lines d else none := by
  rw [close?_nextLine, Position.close?, h]
  dsimp only
  rw [hscan]
  cases shown (lines.drop (p.line + 1)) <;> simp

/-- What a string literal comes to by a step. -/
def closed? (lines : List ByteArray) (d : Quotation) : Position ⊕ Option Position → Option Place
  | .inl t => t.close? lines d
  | .inr r => r.map (Position.place lines)

/-- **A step inside of a string literal does not change where it ends.** -/
theorem close?_of_literalStep {o : Position ⊕ Option Position} (h : p.Bounded lines)
    (hstep : literalStep lines d p = .ok o) : p.close? lines d = closed? lines d o := by
  rcases h with ⟨line, hline, hcolumn⟩ | ⟨line, hline, hpos, hcolumn⟩ | ⟨hline, -⟩
  · cases hbytes : bytesFrom line p.column with
    | nil =>
      have hend := size_le_of_bytesFrom hbytes
      have hscan : scanAt d line p.column = .ran false := by
        rw [scanAt_of_le hcolumn, lossyChars_of_le hend, scanLine]
      have hescaped : ¬(0 < line.size ∧ p.column = line.size + 1) := by omega
      rw [literalStep_of_lineEnd hline hend] at hstep
      obtain rfl := Except.ok.inj hstep
      rw [close?_of_ran hline hscan]
      cases d.triple <;> simp [hescaped, closed?]
    | cons b xs =>
      rw [literalStep_of_byte hline hbytes] at hstep
      obtain rfl := Except.ok.inj hstep
      split
      · rename_i hb
        exact close?_right hline (scanAt_backslash (hb ▸ hbytes))
      · rename_i hb
        split
        · rename_i hbegins
          have hscan := scanAt_closing hbytes (List.isPrefixOf_iff_prefix.mp hbegins)
          rw [Position.close?, hline]
          dsimp only
          rw [hscan, closed?, Option.map_some, place_of_line (p := p.right _) hline]
          rfl
        · rename_i hbegins
          have hopen := mt List.isPrefixOf_iff_prefix.mpr hbegins
          exact close?_right hline (scanAt_other hbytes hb hopen)
  · have hscan : scanAt d line p.column = .ran true := if_pos (by omega)
    rw [literalStep_of_lineEnd hline (by omega), if_pos (Or.inr ⟨hpos, hcolumn⟩)] at hstep
    obtain rfl := Except.ok.inj hstep
    rw [close?_of_ran hline hscan, Bool.or_true, if_pos rfl, closed?]
  · rw [literalStep_of_end (Nat.le_of_eq hline.symm)] at hstep
    obtain rfl := Except.ok.inj hstep
    rw [Position.close?, List.getElem?_eq_none_iff.mpr (Nat.le_of_eq hline.symm)]
    rfl

/-- **A string literal is read to its end.** -/
theorem close?_of_runs {r : Option Position} (h : p.Bounded lines)
    (hrun : Runs (literalStep lines d) p r) : p.close? lines d = r.map (Position.place lines) := by
  induction hrun with
  | done hstep => exact close?_of_literalStep h hstep
  | next hstep hrun ih =>
    rw [close?_of_literalStep h hstep]
    exact ih (advances_of_step h hstep).2

/-! ## Opening marks -/

theorem dropStringLetter_lossyChars (line : ByteArray) (i : Nat) :
    dropStringLetter (lossyChars line i) = lossyChars line (afterLetter line i) := by
  rw [afterLetter]
  cases hbytes : bytesFrom line i with
  | nil =>
    dsimp only
    rw [lossyChars_of_le (size_le_of_bytesFrom hbytes)]
    rfl
  | cons b xs =>
    obtain ⟨c, cs, hchars, hc, hcs⟩ := lossyChars_head hbytes
    have hletter : (c = 'r' || c = 'R' || c = 'u' || c = 'U') = true ↔ b ∈ letters := by
      simp only [Bool.or_eq_true, decide_eq_true_eq, hc 'r' (by decide), hc 'R' (by decide),
        hc 'u' (by decide), hc 'U' (by decide), or_assoc]
      simp [letters]
    rw [hchars, dropStringLetter]
    dsimp only
    by_cases hb : b ∈ letters
    · have hascii : letters.all (· < 128) = true := by decide
      rw [if_pos (hletter.mpr hb), if_pos hb,
        hcs (of_decide_eq_true (List.all_eq_true.mp hascii b hb))]
    · rw [if_neg (mt hletter.mp hb), if_neg hb, hchars]

/-- The marks that are found among the bytes open a literal among the characters. -/
theorem opened_place (h : lines[p.line]? = some line) (hopened : opened line p = some (d, q)) :
    Opened d.char d.triple (p.place lines) (q.place lines) := by
  obtain ⟨letter, hletter, hcur⟩ := exists_letter (lossyChars line p.column)
  rw [dropStringLetter_lossyChars] at hcur
  rw [opened] at hopened
  split at hopened
  · rename_i b xs hbytes
    split at hopened
    · rename_i hquote
      obtain ⟨rfl, rfl⟩ := Prod.mk.inj (Option.some.inj hopened)
      generalize hthree : (List.replicate 3 b).isPrefixOf (b :: xs) = triple
      have hmark := (Quotation.mk b triple hquote).char_mem
      have hb : b < 128 := (Quotation.mk b triple hquote).mark_lt
      have hplace : ∀ n, Position.place lines ⟨p.line, afterLetter line p.column + n⟩ =
          ⟨p.line, lossyChars line (afterLetter line p.column + n),
            shown (lines.drop (p.line + 1))⟩ := fun n =>
        @place_of_line _ _ ⟨p.line, afterLetter line p.column + n⟩ h
      rw [place_of_line h, hplace, hcur]
      cases triple with
      | true =>
        have hbegins : List.replicate 3 b <+: bytesFrom line (afterLetter line p.column) := by
          rw [hbytes]
          exact List.isPrefixOf_iff_prefix.mp hthree
        rw [lossyChars_replicate hb hbegins]
        exact .triple hletter hmark
      | false =>
        have hfew : ¬[Char.ofUInt8 b, Char.ofUInt8 b] <+:
            lossyChars line (afterLetter line p.column + 1) := by
          intro hmore
          have hbegins : List.replicate 3 (Char.ofUInt8 b) <+:
              lossyChars line (afterLetter line p.column) := by
            rw [lossyChars_ascii hbytes hb]
            exact List.cons_prefix_cons.mpr ⟨rfl, hmore⟩
          have hall := replicate_prefix_of_lossyChars hb hbegins
          rw [hbytes, ← List.isPrefixOf_iff_prefix, hthree] at hall
          cases hall
        rw [lossyChars_ascii hbytes hb]
        exact .single hletter hmark hfew
    · cases hopened
  · cases hopened

/-- **The scan for a string literal, byte by byte.** -/
theorem literal?_place (h : lines[p.line]? = some line) : literal? (p.place lines) =
    (opened line p).bind fun found => found.2.close? lines found.1 := by
  cases hopened : opened line p with
  | some found =>
    obtain ⟨d, q⟩ := found
    rw [(opened_place h hopened).literal?_eq, Option.bind_some,
      close?_of_onLine (opened_spec h hopened).2]
  | none =>
    rw [opened] at hopened
    rw [place_of_line h, literal?]
    dsimp only
    rw [dropStringLetter_lossyChars]
    cases hbytes : bytesFrom line (afterLetter line p.column) with
    | nil =>
      rw [lossyChars_of_le (size_le_of_bytesFrom hbytes)]
      rfl
    | cons b xs =>
      obtain ⟨c, cs, hchars, hc, -⟩ := lossyChars_head hbytes
      rw [hbytes] at hopened
      have hquote : ¬(c = '"' || c = '\'') = true := by
        rw [Bool.or_eq_true, decide_eq_true_eq, decide_eq_true_eq, hc '"' (by decide),
          hc '\'' (by decide)]
        intro hb
        simp [hb] at hopened
      rw [hchars]
      dsimp only
      rw [if_neg hquote]
      rfl

end

/-! ## The statement -/

/-- The line of the import, by what is found at the end of the statement on the line `first`. -/
def importOf (first : Nat) : Option Ending → Nat
  | none => first
  | some ending => ending.importLine

/-- The line of the import that the reader of characters finds from here on. -/
def Cursor.answer (lines : List ByteArray) (first : Nat) : Cursor → Nat
  | ⟨.between depth prev, p⟩ => importOf first (statementEnd? depth prev (p.place lines))
  | ⟨.inside d depth, p⟩ =>
    importOf first ((p.close? lines d).bind (statementEnd? depth .string))
  | ⟨.behind, p⟩ => nextStatement p.line (shown (lines.drop p.line))

/-- The line of the import that is found after a step. -/
def answerOf (lines : List ByteArray) (first : Nat) : Cursor ⊕ Nat → Nat
  | .inl t => t.answer lines first
  | .inr r => r

section
variable {lines : List ByteArray} {line : ByteArray} {p : Position} {b : UInt8} {xs : List UInt8}
  {i r first depth : Nat} {prev : Token} {o : Cursor ⊕ Nat} {s : Cursor}

theorem nextLine?_place (lines : List ByteArray) (p : Position) : (p.place lines).nextLine? =
    if p.line + 1 < lines.length then some (p.nextLine.place lines) else none := by
  rw [Place.nextLine?, show (p.place lines).rest = shown (lines.drop (p.line + 1)) from rfl,
    shown_drop]
  cases hline : lines[p.line + 1]? with
  | none =>
    rw [if_neg (Nat.not_lt.mpr (List.getElem?_eq_none_iff.mp hline))]
  | some line =>
    rw [if_pos (List.getElem?_eq_some_iff.mp hline).1, place_of_line (p := p.nextLine) hline]
    rfl

theorem answer_breakStep (lines : List ByteArray) (first depth : Nat) (prev : Token)
    (p : Position) :
    importOf first
      (if isDone depth prev then some (.lineEnd p.line (shown (lines.drop (p.line + 1))))
        else if depth = 0 then none
        else (p.place lines).nextLine?.bind (statementEnd? depth prev)) =
      answerOf lines first (breakStep lines first depth prev p) := by
  rw [breakStep]
  by_cases hdone : isDone depth prev = true
  · rw [if_pos hdone, if_pos hdone]
    rfl
  rw [if_neg hdone, if_neg hdone]
  by_cases hdepth : depth = 0
  · rw [if_pos hdepth, if_pos (Or.inl hdepth)]
    rfl
  rw [if_neg hdepth, nextLine?_place]
  by_cases hlast : p.line + 1 < lines.length
  · rw [if_pos hlast, if_neg (not_or.mpr ⟨hdepth, Nat.not_le.mpr hlast⟩)]
    rfl
  · rw [if_neg hlast, if_pos (Or.inr (Nat.not_lt.mp hlast))]
    rfl

theorem answer_joinStep (first depth : Nat) (prev : Token) (hline : p.line < lines.length) :
    importOf first
      (match (p.place lines).nextLine? with
        | none => if isDone depth prev then some (.lineEnd p.line []) else none
        | some q => statementEnd? depth prev q) =
      answerOf lines first (joinStep lines first depth prev p) := by
  rw [joinStep, nextLine?_place]
  by_cases hend : lines.length ≤ p.line + 1
  · have hlength : nextStatement (p.line + 1) [] = lines.length := Nat.le_antisymm hline hend
    rw [if_pos hend, if_neg (Nat.not_lt.mpr hend)]
    cases isDone depth prev with
    | false => rfl
    | true => exact hlength
  · rw [if_neg hend, if_pos (Nat.lt_of_not_le hend)]
    rfl

theorem answer_beginLiteral (first depth : Nat) (h : lines[p.line]? = some line) :
    importOf first ((literal? (p.place lines)).bind (statementEnd? depth .string)) =
      answerOf lines first (beginLiteral first depth (opened line p)) := by
  rw [literal?_place h]
  cases opened line p <;> rfl

theorem answer_right (first depth : Nat) (prev : Token) (h : lines[p.line]? = some line) :
    importOf first (statementEnd? depth prev
      ⟨p.line, lossyChars line (p.column + 1), shown (lines.drop (p.line + 1))⟩) =
        answerOf lines first (.inl ⟨.between depth prev, p.right 1⟩) := by
  rw [answerOf, Cursor.answer, place_of_line (p := p.right 1) h]
  rfl

theorem lt_of_mem_blanks (h : b ∈ blanks) : b < 128 := by
  have hascii : blanks.all (· < 128) = true := by decide
  exact of_decide_eq_true (List.all_eq_true.mp hascii b h)

theorem isInline_iff_mem_blanks {c : Char}
    (hc : ∀ a : Char, a.toNat < 128 → (c = a ↔ b = a.toUInt8)) :
    isInline c = true ↔ b ∈ blanks := by
  simp only [isInline, Bool.or_eq_true, decide_eq_true_eq, hc ' ' (by decide),
    hc '\t' (by decide), hc '\x0c' (by decide), or_assoc]
  simp [blanks]

/-- A backslash is the last character of a line where it is the last byte. -/
theorem last_backslash_iff {c : Char} {cs : List Char} (hbytes : bytesFrom line i = b :: xs)
    (hc : ∀ a : Char, a.toNat < 128 → (c = a ↔ b = a.toUInt8))
    (hcs : b < 128 → cs = lossyChars line (i + 1)) :
    c = '\\' ∧ cs = [] ↔ b = '\\'.toUInt8 ∧ i = line.size - 1 := by
  have hlt := lt_size_of_bytesFrom hbytes
  rw [hc '\\' (by decide)]
  refine and_congr_right fun hb => ?_
  rw [hcs (hb ▸ by decide), lossyChars_eq_nil_iff]
  omega

/-- **What is done at a byte does not change the line of the import.** -/
theorem answer_byteStep (h : lines[p.line]? = some line)
    (hbytes : bytesFrom line p.column = b :: xs)
    (hstep : byteStep lines first depth prev p line.size b = .ok o) :
    importOf first (statementEnd? depth prev (p.place lines)) = answerOf lines first o := by
  obtain ⟨c, cs, hchars, hc, hcs⟩ := lossyChars_head hbytes
  have hplace : p.place lines = ⟨p.line, c :: cs, shown (lines.drop (p.line + 1))⟩ := by
    rw [place_of_line h, hchars]
  rw [byteStep] at hstep
  by_cases hb : b ∈ blanks
  · rw [if_pos hb] at hstep
    obtain rfl := Except.ok.inj hstep
    rw [hplace, statementEnd?_blank ((isInline_iff_mem_blanks hc).mpr hb),
      hcs (lt_of_mem_blanks hb)]
    exact answer_right first depth prev h
  have hinline : isInline c = false :=
    Bool.eq_false_iff.mpr (mt (isInline_iff_mem_blanks hc).mp hb)
  -- the reader and the machine ask the same questions in the same order
  rw [hplace, statementEnd?_of_cons (cur_dropWhile hinline), ← hplace]
  simp only [last_backslash_iff hbytes hc hcs, hc '#' (by decide), hc ';' (by decide),
    hc '(' (by decide), hc ')' (by decide)]
  rw [if_neg hb] at hstep
  by_cases hcomment : b = '#'.toUInt8
  · rw [if_pos hcomment] at hstep ⊢
    obtain rfl := Except.ok.inj hstep
    exact answer_breakStep lines first depth prev p
  rw [if_neg hcomment] at hstep ⊢
  by_cases hjoined : b = '\\'.toUInt8 ∧ p.column = line.size - 1
  · rw [if_pos hjoined] at hstep ⊢
    obtain rfl := Except.ok.inj hstep
    exact answer_joinStep first depth prev (List.getElem?_eq_some_iff.mp h).1
  rw [if_neg hjoined] at hstep ⊢
  by_cases hsemicolon : b = ';'.toUInt8
  · rw [if_pos hsemicolon] at hstep ⊢
    obtain rfl := Except.ok.inj hstep
    cases isDone depth prev <;> rfl
  rw [if_neg hsemicolon] at hstep ⊢
  by_cases hopening : b = '('.toUInt8
  · rw [if_pos hopening] at hstep ⊢
    obtain rfl := Except.ok.inj hstep
    split
    · rw [hcs (hopening ▸ by decide)]
      exact answer_right first _ _ h
    · rfl
  rw [if_neg hopening] at hstep ⊢
  by_cases hclosing : b = ')'.toUInt8
  · rw [if_pos hclosing] at hstep ⊢
    obtain rfl := Except.ok.inj hstep
    split
    · rfl
    · rw [hcs (hclosing ▸ by decide)]
      exact answer_right first _ _ h
  rw [if_neg hclosing] at hstep ⊢
  by_cases hprev : prev = .closing
  · rw [if_pos hprev] at hstep ⊢
    obtain rfl := Except.ok.inj hstep
    rfl
  · rw [if_neg hprev, openLiteral_eq h] at hstep
    obtain rfl := Except.ok.inj hstep
    rw [if_neg hprev]
    exact answer_beginLiteral first depth h

/-- The line with code that is found after a step of the search. -/
def soughtOf (lines : List ByteArray) : Nat ⊕ Nat → Nat
  | .inl j => nextStatement j (shown (lines.drop j))
  | .inr r => r

theorem nextStatement_of_seekStep {o : Nat ⊕ Nat} (h : i ≤ lines.length)
    (hstep : seekStep lines i = .ok o) :
    nextStatement i (shown (lines.drop i)) = soughtOf lines o := by
  rw [shown_drop]
  cases hline : lines[i]? with
  | none =>
    have hend := List.getElem?_eq_none_iff.mp hline
    rw [seekStep_of_end hend] at hstep
    obtain rfl := Except.ok.inj hstep
    exact Nat.le_antisymm h hend
  | some line =>
    rw [seekStep_of_line hline] at hstep
    obtain rfl := Except.ok.inj hstep
    dsimp only
    by_cases hcode : holdsCode (lossyChars line 0) = true
    · rw [if_pos hcode, nextStatement, List.takeWhile_cons_of_neg (by simp [hcode])]
      rfl
    · rw [if_neg hcode, nextStatement, List.takeWhile_cons_of_pos (by simpa using hcode),
        List.length_cons, soughtOf, nextStatement]
      omega

theorem nextStatement_of_runs (h : i ≤ lines.length) (hrun : Runs (seekStep lines) i r) :
    nextStatement i (shown (lines.drop i)) = r := by
  induction hrun with
  | done hstep => exact nextStatement_of_seekStep h hstep
  | next hstep hrun ih =>
    obtain ⟨o, ho, hgoes, -⟩ := seekStep_spec h
    obtain rfl := Except.ok.inj (ho.symm.trans hstep)
    rw [nextStatement_of_seekStep h hstep]
    exact ih (hgoes _ rfl).2

/-- **A step does not change the line of the import.** -/
theorem Cursor.InBounds.answer_eq (h : s.InBounds lines first)
    (hstep : s.step lines first = .ok o) : s.answer lines first = answerOf lines first o := by
  obtain ⟨stage, p⟩ := s
  obtain ⟨-, hallows⟩ := h
  cases stage with
  | between depth prev =>
    obtain ⟨line, hline, -⟩ := hallows
    cases hbytes : bytesFrom line p.column with
    | nil =>
      have hend := size_le_of_bytesFrom hbytes
      have hcur : (p.place lines).cur.dropWhile isInline = [] := by
        rw [place_of_line hline, lossyChars_of_le hend]
        rfl
      rw [step_of_lineEnd hline hend] at hstep
      obtain rfl := Except.ok.inj hstep
      rw [Cursor.answer, statementEnd?_of_nil hcur]
      exact answer_breakStep lines first depth prev p
    | cons b xs =>
      rw [step_of_byte hline hbytes] at hstep
      exact answer_byteStep hline hbytes hstep
  | inside d depth =>
    obtain ⟨o', ho, -⟩ := literalStep_spec d hallows
    rw [Cursor.step, ho] at hstep
    rw [Cursor.answer, close?_of_literalStep hallows ho]
    rcases o' with q | _ | q
    all_goals
      obtain rfl := Except.ok.inj hstep
      rfl
  | behind =>
    obtain ⟨o', ho, -⟩ := seekStep_spec hallows.1
    rw [Cursor.step, ho] at hstep
    rw [Cursor.answer, nextStatement_of_seekStep hallows.1 ho]
    rcases o' with j | r
    all_goals
      obtain rfl := Except.ok.inj hstep
      rfl

theorem answer_of_runs (h : s.InBounds lines first) (hrun : Runs (Cursor.step lines first) s r) :
    s.answer lines first = r := by
  induction hrun with
  | done hstep => exact h.answer_eq hstep
  | next hstep hrun ih =>
    rw [h.answer_eq hstep]
    exact ih (h.proceeds hstep).2

/-! ## The line of the import -/

/-- The byte order mark is skipped. -/
theorem dropMark_lossyChars (line : ByteArray) : dropMark (lossyChars line 0) =
    lossyChars line (if markBytes.isPrefixOf (bytesFrom line 0) then 3 else 0) := by
  have hcode : String.utf8EncodeChar byteOrderMark = markBytes := by decide
  by_cases hbegins : markBytes <+: bytesFrom line 0
  · rw [if_pos (List.isPrefixOf_iff_prefix.mpr hbegins), lossyChars_of_code (hcode ▸ hbegins),
      dropMark, if_pos rfl]
    rfl
  · rw [if_neg (mt List.isPrefixOf_iff_prefix.mp hbegins)]
    cases hchars : lossyChars line 0 with
    | nil => rfl
    | cons c cs =>
      rw [dropMark, if_neg]
      rintro rfl
      exact hbegins (hcode ▸ code_of_lossyChars hchars (by decide))

theorem startAt_spec (h : lines[first]? = some line) : ∃ p, startAt lines first = .ok p ∧
    p.line = first ∧ p.OnLine lines ∧ lineStart? (shown lines) first = some (p.place lines) := by
  have hdrop : (shown lines).drop first = lossyChars line 0 :: shown (lines.drop (first + 1)) := by
    have hshown := shown_drop lines first
    rw [h] at hshown
    exact List.map_drop.symm.trans hshown
  rw [startAt, lineStart?, hdrop]
  by_cases hfirst : first = 0
  · subst hfirst
    rw [if_pos rfl, lineAt_of_getElem? h]
    refine ⟨_, rfl, rfl, ⟨line, h, ?_⟩, ?_⟩
    · split
      · rename_i hmark
        have hle := (List.isPrefixOf_iff_prefix.mp hmark).length_le
        rw [length_bytesFrom] at hle
        exact hle
      · exact Nat.zero_le _
    · dsimp only
      rw [place_of_line h, dropMark_lossyChars]
      rfl
  · rw [if_neg hfirst]
    refine ⟨_, rfl, rfl, ⟨line, h, Nat.zero_le _⟩, ?_⟩
    rw [place_of_line h]
    dsimp only
    rw [if_neg hfirst]

/-- The line of the import, by what is found at the end of the first statement. -/
theorem insertionLine_eq_importOf {lines : List Line} (h : FirstCode lines 0 first) :
    insertionLine lines =
      importOf first ((lineStart? lines first).bind (statementEnd? 0 .start)) := by
  cases hend : (lineStart? lines first).bind (statementEnd? 0 .start) with
  | none => exact insertionLine_of_no_end h hend
  | some ending =>
    obtain ⟨p, hp, hends⟩ := Option.bind_eq_some_iff.mp hend
    exact insertionLine_of_end h hp hends

/-- The machine starts within the bounds. -/
theorem inBounds_start (h : p.OnLine lines) : Cursor.InBounds lines p.line ⟨.between 0 .start, p⟩ :=
  ⟨Nat.le_refl _, h⟩

theorem exists_inserts (lines : List ByteArray) : ∃ r, Inserts lines r := by
  obtain ⟨first, hseek⟩ := exists_runs_seek (Nat.zero_le lines.length)
  by_cases hlt : first < lines.length
  · obtain ⟨p, hstart, rfl, honLine, -⟩ := startAt_spec (List.getElem?_eq_getElem hlt)
    obtain ⟨r, hrun⟩ := exists_runs_cursor (inBounds_start honLine)
    exact ⟨r, p.line, hseek, by rw [if_pos hlt]; exact ⟨p, hstart, hrun⟩⟩
  · exact ⟨first, first, hseek, by rw [if_neg hlt]⟩

theorem eq_of_inserts (h : Inserts lines r) : r = insertionLine (shown lines) ∧
    nextStatement 0 (shown lines) ≤ r ∧ r ≤ lines.length := by
  obtain ⟨first, hseek, hrest⟩ := h
  have hfirst : nextStatement 0 (shown lines) = first :=
    nextStatement_of_runs (Nat.zero_le _) hseek
  have hcode : FirstCode (shown lines) 0 first := hfirst ▸ firstCode_nextStatement [] (shown lines)
  rw [hfirst, insertionLine_eq_importOf hcode]
  by_cases hlt : first < lines.length
  · rw [if_pos hlt] at hrest
    obtain ⟨p, hp, hrun⟩ := hrest
    obtain ⟨p', hp', hline, honLine, hstart⟩ := startAt_spec (List.getElem?_eq_getElem hlt)
    obtain rfl := Except.ok.inj (hp'.symm.trans hp)
    subst hline
    rw [hstart]
    exact ⟨(answer_of_runs (inBounds_start honLine) hrun).symm,
      le_of_runs_cursor (inBounds_start honLine) hrun⟩
  · rw [if_neg hlt] at hrest
    have hlength : (shown lines).length = lines.length := List.length_map _
    have hnone : lineStart? (shown lines) first = none := by
      rw [lineStart?, List.drop_eq_nil_of_le (by omega)]
    have hle := hcode.le_length
    rw [hnone, hrest]
    exact ⟨rfl, Nat.le_refl first, by omega⟩

/-- **The machine comes to the line that the reader finds,** and to no other. -/
theorem inserts_iff : Inserts lines r ↔ r = insertionLine (shown lines) := by
  refine ⟨fun h => (eq_of_inserts h).1, ?_⟩
  rintro rfl
  obtain ⟨r, hr⟩ := exists_inserts lines
  exact (eq_of_inserts hr).1 ▸ hr

theorem shown_utf8Encode (text : List Line) : shown (text.map List.utf8Encode) = text := by
  rw [shown, List.map_map]
  exact (List.map_congr_left fun l _ => lossyChars_utf8Encode l).trans (List.map_id text)

/-- What the scan for a string literal comes to. -/
theorem scansLiteral_spec (h : p.line < lines.length) :
    ∃ r, (∀ r', ScansLiteral lines p r' ↔ r' = r) ∧
    r.map (Position.place lines) = literal? (p.place lines) ∧
    ∀ q, r = some q → p < q ∧ q.OnLine lines := by
  have hline := List.getElem?_eq_getElem h
  have hopen := openLiteral_eq (p := p) hline
  rw [literal?_place hline]
  cases hopened : opened lines[p.line] p with
  | none =>
    rw [hopened] at hopen
    refine ⟨none, fun r' => ⟨?_, ?_⟩, rfl, fun q hq => nomatch hq⟩
    · rintro (⟨-, rfl⟩ | ⟨d, q, hq, -⟩)
      · rfl
      · cases hopen.symm.trans hq
    · exact fun hr => Or.inl ⟨hopen, hr⟩
  | some found =>
    obtain ⟨d, q⟩ := found
    rw [hopened] at hopen
    obtain ⟨hlt, honLine⟩ := opened_spec hline hopened
    obtain ⟨r, hrun⟩ := exists_runs_literal d (Or.inl honLine)
    refine ⟨r, fun r' => ⟨?_, ?_⟩, (close?_of_runs (Or.inl honLine) hrun).symm, ?_⟩
    · rintro (⟨hnone, -⟩ | ⟨d', q', hq, hrun'⟩)
      · cases hopen.symm.trans hnone
      · obtain ⟨rfl, rfl⟩ := Prod.mk.inj (Option.some.inj (Except.ok.inj (hq.symm.trans hopen)))
        exact hrun'.unique hrun
    · rintro rfl
      exact Or.inr ⟨d, q, hopen, hrun⟩
    · rintro q' rfl
      obtain ⟨hlt', honLine'⟩ := lt_of_runs_literal (Or.inl honLine) hrun
      exact ⟨Position.lt_trans hlt hlt', honLine'⟩

end

/-- **The reader ends, and it stays within the lines.**  For all lines of bytes:

* the machine ends at exactly one line, which is that of the import for the characters that the
  bytes show; its number is between that of the first line with code and the number of lines;
* the bytes of a text show the text;
* in the search for the first line with code and from there on, no step meets a fault, and every
  step makes the position grow;
* the scan for a string literal at any column of any line meets no fault and ends at exactly one
  result, which is that of the reader of characters; each of its steps makes the position grow, and
  the position that it gives is on a line and further on than where it began. -/
theorem reader_ends_within_lines (lines : List ByteArray) :
    (∃ r, Inserts lines r ∧ nextStatement 0 (shown lines) ≤ r ∧ r ≤ lines.length) ∧
    (∀ r, Inserts lines r ↔ r = insertionLine (shown lines)) ∧
    (∀ text : List Line, shown (text.map List.utf8Encode) = text) ∧
    Grows (seekStep lines) (fun i => ⟨i, 0⟩) 0 ∧
    (∀ first, Runs (seekStep lines) 0 first → first < lines.length →
      ∃ p, startAt lines first = .ok p ∧
        Grows (Cursor.step lines first) Cursor.position ⟨.between 0 .start, p⟩) ∧
    ∀ p : Position, p.line < lines.length →
      (∃ o, openLiteral lines p = .ok o ∧
        ∀ d q, o = some (d, q) → p < q ∧ Grows (literalStep lines d) id q) ∧
      ∃ r, (∀ r', ScansLiteral lines p r' ↔ r' = r) ∧
        r.map (Position.place lines) = literal? (p.place lines) ∧
        ∀ q, r = some q → p < q ∧ ∃ line, lines[q.line]? = some line ∧ q.column ≤ line.size := by
  refine ⟨?_, fun r => inserts_iff, shown_utf8Encode, ?_, fun first hseek hlt => ?_, fun p h => ?_⟩
  · obtain ⟨r, hr⟩ := exists_inserts lines
    exact ⟨r, hr, (eq_of_inserts hr).2⟩
  · exact Grows.of_inv seekStep_grows (Nat.zero_le lines.length)
  · obtain ⟨p, hstart, rfl, honLine, -⟩ := startAt_spec (List.getElem?_eq_getElem hlt)
    exact ⟨p, hstart, Grows.of_inv Cursor.step_grows (inBounds_start honLine)⟩
  · have hline := List.getElem?_eq_getElem h
    refine ⟨⟨_, openLiteral_eq hline, fun d q hopened => ?_⟩, scansLiteral_spec h⟩
    obtain ⟨hlt, honLine⟩ := opened_spec hline hopened
    exact ⟨hlt, Grows.of_inv (literalStep_grows d) (Or.inl honLine)⟩

/-- A string that goes on behind a backslash at the end of its line, with a byte that belongs to no
character, and another backslash at the end of all lines. -/
def brokenLines : List ByteArray := [⟨#[0x27, 0x61, 0x5c]⟩, ⟨#[0xff, 0x27, 0x20, 0x5c]⟩]

theorem seek_broken : Runs (seekStep brokenLines) 0 0 := by
  have hline : brokenLines[0]? = some ⟨#[0x27, 0x61, 0x5c]⟩ := rfl
  have hchars : lossyChars ⟨#[0x27, 0x61, 0x5c]⟩ 0 = "'a\\".toList :=
    lossyChars_utf8Encode "'a\\".toList
  refine .done ?_
  rw [seekStep_of_line hline, hchars]
  rfl

/-- The literal goes beyond the end of the first line, and ends on the second one. -/
theorem scansLiteral_broken : ScansLiteral brokenLines ⟨0, 0⟩ (some ⟨1, 2⟩) := by
  refine Or.inr ⟨⟨0x27, false, Or.inr rfl⟩, ⟨0, 1⟩, rfl, ?_⟩
  have hbyte : literalStep brokenLines ⟨0x27, false, Or.inr rfl⟩ ⟨0, 1⟩ = .ok (.inl ⟨0, 2⟩) := rfl
  have hbackslash : literalStep brokenLines ⟨0x27, false, Or.inr rfl⟩ ⟨0, 2⟩ = .ok (.inl ⟨0, 4⟩) :=
    rfl
  have hbeyond : literalStep brokenLines ⟨0x27, false, Or.inr rfl⟩ ⟨0, 4⟩ = .ok (.inl ⟨1, 0⟩) := rfl
  have hbroken : literalStep brokenLines ⟨0x27, false, Or.inr rfl⟩ ⟨1, 0⟩ = .ok (.inl ⟨1, 1⟩) := rfl
  have hclosing : literalStep brokenLines ⟨0x27, false, Or.inr rfl⟩ ⟨1, 1⟩ =
      .ok (.inr (some ⟨1, 2⟩)) := rfl
  exact .next hbyte (.next hbackslash (.next hbeyond (.next hbroken (.done hclosing))))

/-- The reader ends on these lines. -/
theorem reader_ends_within_lines_broken :
    (∃ r, Inserts brokenLines r ∧ r ≤ 2) ∧
    (∃ p, startAt brokenLines 0 = .ok p ∧
      Grows (Cursor.step brokenLines 0) Cursor.position ⟨.between 0 .start, p⟩) ∧
    ScansLiteral brokenLines ⟨0, 0⟩ (some ⟨1, 2⟩) ∧ (⟨0, 0⟩ : Position) < ⟨1, 2⟩ ∧
    ∃ line, brokenLines[1]? = some line ∧ 2 ≤ line.size := by
  obtain ⟨⟨r, hr, -, hle⟩, -, -, -, hgrows, hliteral⟩ := reader_ends_within_lines brokenLines
  obtain ⟨-, q, hunique, -, hq⟩ := hliteral ⟨0, 0⟩ (by decide)
  obtain rfl := (hunique _).mp scansLiteral_broken
  exact ⟨⟨r, hr, hle⟩, hgrows 0 seek_broken (by decide), scansLiteral_broken, hq _ rfl⟩

end Docstring
end ForwardDecl
