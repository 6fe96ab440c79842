import ForwardDecl.Config.Document
import ForwardDecl.Proofs.Endings
import ForwardDecl.Proofs.IgnoreLists
import Mathlib.Data.List.Induction
import Mathlib.Data.Nat.Digits.Defs

/-! # Words for ignore entries

A word is read as an ignore entry after the white space around it is taken away (`Trims`).  A
decimal numeral (`Denotes`) in the range of line numbers is a line number, any other numeral is
refused, and everything else but nothing at all is a class name
(`IgnoreEntry.parse_line_iff`, `IgnoreEntry.parse_error_iff`, `IgnoreEntry.parse_class`).

Writing an entry that was read gives a word for the same entry (`IgnoreEntry.parse_render`): the
numeral of a line number is read as the number, and a class name has no white space around it any
more.  Such an entry passes the check that a conversion makes, and so does every entry that a
scalar of a configuration document is read as, although that may keep the white space around a
class name.
-/
namespace ForwardDecl

/-! ## White space around a word -/

/-- The second list is the first one without the characters around it that satisfy `p`: such
characters are taken away, and it neither begins nor ends with one. -/
def Trims (p : Char → Bool) (cs mid : List Char) : Prop :=
  ∃ before after, cs = before ++ mid ++ after ∧ (∀ c ∈ before ++ after, p c = true) ∧
    (∀ c ∈ mid.head?, p c = false) ∧ ∀ c ∈ mid.getLast?, p c = false

section
variable {p : Char → Bool} {cs mid : List Char}

theorem dropWhile_of_head? (h : ∀ c ∈ cs.head?, p c = false) : cs.dropWhile p = cs := by
  cases cs with
  | nil => rfl
  | cons c cs => rw [List.dropWhile_cons_of_neg (by simpa using h c rfl)]

theorem dropEndWhile_of_getLast? (h : ∀ c ∈ cs.getLast?, p c = false) : dropEndWhile p cs = cs := by
  rw [dropEndWhile, dropWhile_of_head? (by simpa using h), List.reverse_reverse]

theorem head?_dropWhile (p : Char → Bool) (cs : List Char) :
    ∀ c ∈ (cs.dropWhile p).head?, p c = false := by
  intro c hc
  obtain ⟨r, hr⟩ := List.head?_eq_some_iff.mp hc
  exact dropWhile_head p cs hr

/-- Trimming does what it is for. -/
theorem trims_trimWhile (p : Char → Bool) (cs : List Char) : Trims p cs (trimWhile p cs) := by
  have hfront : cs.takeWhile p ++ cs.dropWhile p = cs := List.takeWhile_append_dropWhile
  generalize hd : cs.dropWhile p = d at hfront
  have hend : dropEndWhile p d ++ (d.reverse.takeWhile p).reverse = d := by
    rw [dropEndWhile, ← List.reverse_append, List.takeWhile_append_dropWhile, List.reverse_reverse]
  refine ⟨cs.takeWhile p, (d.reverse.takeWhile p).reverse, ?_, ?_, ?_, ?_⟩
  · rw [List.append_assoc, trimWhile, hd, hend, hfront]
  · intro c hc
    rcases List.mem_append.mp hc with hc | hc
    · exact (List.mem_takeWhile_imp hc)
    · exact List.mem_takeWhile_imp (List.mem_reverse.mp hc)
  · -- what is left begins as it began before its end was cut
    intro c hc
    rw [trimWhile, hd] at hc
    refine head?_dropWhile p cs c ?_
    rw [hd, ← hend, List.head?_append, hc]
    rfl
  · intro c hc
    rw [trimWhile, dropEndWhile, List.getLast?_reverse] at hc
    exact head?_dropWhile p _ c hc

/-- Trimming can be done in one way only. -/
theorem Trims.eq_trimWhile (h : Trims p cs mid) : mid = trimWhile p cs := by
  obtain ⟨before, after, rfl, hout, hhead, hlast⟩ := h
  have hbefore : ∀ c ∈ before, p c = true := fun c hc => hout c (List.mem_append_left _ hc)
  have hafter : ∀ c ∈ after, p c = true := fun c hc => hout c (List.mem_append_right _ hc)
  rw [trimWhile, List.append_assoc, List.dropWhile_append_of_pos hbefore]
  cases mid with
  | nil =>
    rw [List.nil_append, List.dropWhile_eq_nil_iff.mpr hafter]
    rfl
  | cons c mid =>
    have hstays : (c :: mid ++ after).dropWhile p = c :: mid ++ after :=
      dropWhile_of_head? (by simpa using hhead)
    rw [hstays, dropEndWhile, List.reverse_append,
      List.dropWhile_append_of_pos fun d hd => hafter d (List.mem_reverse.mp hd)]
    exact (dropEndWhile_of_getLast? hlast).symm

/-- What has been trimmed stays as it is. -/
theorem Trims.trimWhile_eq (h : Trims p cs mid) : trimWhile p mid = mid := by
  obtain ⟨before, after, -, -, hhead, hlast⟩ := h
  have hself : Trims p mid mid :=
    ⟨[], [], (List.append_nil _).symm, fun _ hc => (nomatch hc), hhead, hlast⟩
  exact hself.eq_trimWhile.symm

theorem trimWhile_of_forall (h : ∀ c ∈ cs, p c = false) : trimWhile p cs = cs := by
  have hself : Trims p cs cs :=
    ⟨[], [], (List.append_nil _).symm, fun _ hc => (nomatch hc),
      fun c hc => h c (List.mem_of_mem_head? hc), fun c hc => h c (List.mem_of_mem_getLast? hc)⟩
  exact hself.eq_trimWhile.symm

end

theorem trimmed_trimmed (word : String) : trimmed (trimmed word) = trimmed word := by
  rw [trimmed, trimmed, String.toList_ofList, (trims_trimWhile isSpace word.toList).trimWhile_eq]

/-! ## Numerals -/

/-- The word consists of decimal digits, and `n` is the number that it denotes. -/
def Denotes (word : List Char) (n : Nat) : Prop :=
  word ≠ [] ∧ (∀ c ∈ word, '0' ≤ c ∧ c ≤ '9') ∧
    Nat.ofDigits 10 (word.reverse.map fun c => c.toNat - '0'.toNat) = n

section
variable {word : List Char} {n : Nat}

theorem numeralValue_eq_ofDigits (word : List Char) : numeralValue word =
    Nat.ofDigits 10 (word.reverse.map fun c => c.toNat - '0'.toNat) := by
  induction word using List.reverseRecOn with
  | nil => rfl
  | append_singleton word c ih =>
    rw [numeralValue, List.foldl_append, List.reverse_append, List.map_append, Nat.ofDigits_append,
      ← ih]
    simp [numeralValue]
    omega

theorem isNumeral_iff : isNumeral word = true ↔ word ≠ [] ∧ ∀ c ∈ word, '0' ≤ c ∧ c ≤ '9' := by
  have hdigit : ∀ c : Char, c.isDigit = true ↔ '0' ≤ c ∧ c ≤ '9' := by
    intro c
    simp only [Char.isDigit, Bool.and_eq_true, decide_eq_true_eq, ge_iff_le, Char.le_def]
  simp only [isNumeral, Bool.and_eq_true, Bool.not_eq_true', List.isEmpty_eq_false_iff,
    List.all_eq_true, hdigit]

theorem denotes_iff : Denotes word n ↔ isNumeral word = true ∧ numeralValue word = n := by
  rw [Denotes, isNumeral_iff, numeralValue_eq_ofDigits, and_assoc]

/-- The numeral of a number denotes it. -/
theorem denotes_toDigits (n : Nat) : Denotes (Nat.toDigits 10 n) n := by
  refine denotes_iff.mpr ⟨?_, Nat.ofDigitChars_ten_toDigits⟩
  simp only [isNumeral, Bool.and_eq_true, Bool.not_eq_true', List.isEmpty_eq_false_iff,
    List.all_eq_true]
  exact ⟨Nat.toDigits_ne_nil, fun c hc => Nat.isDigit_of_mem_toDigits (by decide) (by decide) hc⟩

theorem isSpace_of_isDigit {c : Char} (h : '0' ≤ c ∧ c ≤ '9') : isSpace c = false := by
  have hlow : 48 ≤ c.toNat := h.1
  have hhigh : c.toNat ≤ 57 := h.2
  have hspace : c ≠ ' ' := by
    rintro rfl
    exact absurd hlow (by decide)
  simp only [isSpace, hspace, decide_false, Bool.or_false, Bool.or_eq_false_iff,
    Bool.and_eq_false_iff, decide_eq_false_iff_not]
  omega

end

/-! ## Reading a word -/

namespace IgnoreEntry
variable {word : String} {e : IgnoreEntry} {n : Nat}

/-- **What a word is read as.** -/
theorem parse_cases (h : parse word = .ok e) :
    (∃ n, Denotes (trimmed word).toList n ∧ 1 ≤ n ∧ n ≤ maxLine ∧ e = ofLine n) ∨
      (trimmed word ≠ "" ∧ isNumeral (trimmed word).toList = false ∧
        e = ofClass (trimmed word)) := by
  unfold parse at h
  dsimp only at h
  split at h
  · cases h
  · rename_i hword
    split at h
    · rename_i hnumeral
      split at h
      · rename_i hn
        exact Or.inl ⟨_, denotes_iff.mpr ⟨hnumeral, rfl⟩, hn.1, hn.2, (Except.ok.inj h).symm⟩
      · cases h
    · rename_i hnumeral
      exact Or.inr ⟨hword, Bool.eq_false_iff.mpr hnumeral, (Except.ok.inj h).symm⟩

theorem parse_of_denotes (h : Denotes (trimmed word).toList n) :
    parse word = if 1 ≤ n ∧ n ≤ maxLine then .ok (ofLine n)
      else .error (.config (.badIgnoreLine (trimmed word))) := by
  obtain ⟨hnumeral, rfl⟩ := denotes_iff.mp h
  have hne : trimmed word ≠ "" := by
    intro hempty
    rw [hempty] at h
    exact h.1 rfl
  unfold parse
  dsimp only
  rw [if_neg hne, if_pos hnumeral]

theorem parse_class (hne : trimmed word ≠ "") (h : ¬∃ n, Denotes (trimmed word).toList n) :
    parse word = .ok (ofClass (trimmed word)) := by
  have hnumeral : isNumeral (trimmed word).toList ≠ true :=
    fun hnumeral => h ⟨_, denotes_iff.mpr ⟨hnumeral, rfl⟩⟩
  unfold parse
  dsimp only
  rw [if_neg hne, if_neg hnumeral]

theorem ofLine_inj {m : Nat} (h : ofLine n = ofLine m) : n = m :=
  Int.ofNat.inj (congrArg line h)

/-- A word is read as a line number just if it is a numeral in their range. -/
theorem parse_line_iff :
    parse word = .ok (ofLine n) ↔ Denotes (trimmed word).toList n ∧ 1 ≤ n ∧ n ≤ maxLine := by
  constructor
  · intro h
    rcases parse_cases h with ⟨m, hm, hlow, hhigh, he⟩ | ⟨hne, -, he⟩
    · obtain rfl := ofLine_inj he
      exact ⟨hm, hlow, hhigh⟩
    · exact absurd (congrArg className he).symm hne
  · rintro ⟨hn, hrange⟩
    rw [parse_of_denotes hn, if_pos hrange]

/-- A word is refused just if nothing is left of it, or a numeral that is out of range. -/
theorem parse_error_iff : (∃ cause, parse word = .error cause) ↔
    trimmed word = "" ∨ ∃ n, Denotes (trimmed word).toList n ∧ ¬(1 ≤ n ∧ n ≤ maxLine) := by
  constructor
  · rintro ⟨cause, h⟩
    by_cases hempty : trimmed word = ""
    · exact Or.inl hempty
    by_cases hnumeral : ∃ n, Denotes (trimmed word).toList n
    · obtain ⟨n, hn⟩ := hnumeral
      refine Or.inr ⟨n, hn, fun hrange => ?_⟩
      rw [parse_of_denotes hn, if_pos hrange] at h
      cases h
    · rw [parse_class hempty hnumeral] at h
      cases h
  · rintro (hempty | ⟨n, hn, hrange⟩)
    · refine ⟨.config .emptyIgnore, ?_⟩
      unfold parse
      dsimp only
      rw [if_pos hempty]
    · exact ⟨_, by rw [parse_of_denotes hn, if_neg hrange]⟩

/-! ## Writing an entry -/

theorem render_ofLine (h : 1 ≤ n) : (ofLine n).render = n.repr := by
  have hline : (ofLine n).isLine = true := decide_eq_true (Int.ofNat_lt.mpr h)
  rw [render, if_pos hline]
  rfl

theorem trimmed_repr (n : Nat) : trimmed n.repr = n.repr := by
  rw [trimmed, Nat.toList_repr, trimWhile_of_forall, ← Nat.toList_repr, String.ofList_toList]
  exact fun c hc => isSpace_of_isDigit ((denotes_toDigits n).2.1 c hc)

/-- **An entry that was read is read back from what it is written as.** -/
theorem parse_render (h : parse word = .ok e) : parse e.render = .ok e := by
  rcases parse_cases h with ⟨n, -, hlow, hhigh, rfl⟩ | ⟨hne, hnumeral, rfl⟩
  · rw [render_ofLine hlow, parse_line_iff, trimmed_repr, Nat.toList_repr]
    exact ⟨denotes_toDigits n, hlow, hhigh⟩
  · change parse (trimmed word) = _
    have hclass : ¬∃ n, Denotes (trimmed (trimmed word)).toList n := by
      rintro ⟨n, hn⟩
      rw [trimmed_trimmed, denotes_iff, hnumeral] at hn
      exact Bool.false_ne_true hn.1
    rw [parse_class (trimmed_trimmed_ne hne) hclass, trimmed_trimmed]

/-- An entry that was read is one of the two things that an entry can be. -/
theorem line_or_class (h : parse word = .ok e) :
    0 < e.line ∧ e.className = "" ∨ ¬0 < e.line ∧ e.className ≠ "" := by
  rcases parse_cases h with ⟨n, -, hlow, -, rfl⟩ | ⟨hne, -, rfl⟩
  · exact Or.inl ⟨Int.ofNat_lt.mpr hlow, rfl⟩
  · exact Or.inr ⟨lt_irrefl _, hne⟩

end IgnoreEntry

namespace IgnoreList

/-- A list that was read is read back from what it is written as. -/
theorem parse_render {words : List String} {list : IgnoreList} (h : parse words = .ok list) :
    parse list.render = .ok list := by
  have hread : ∀ e ∈ list, IgnoreEntry.parse e.render = .ok (id e) := by
    intro e he
    obtain ⟨word, hword⟩ := mem_of_mapM_eq_ok h e he
    exact IgnoreEntry.parse_render hword
  rw [parse, render, List.mapM_map, Function.comp_def, mapM_eq_ok_map hread, List.map_id]

end IgnoreList

/-! ## Entries of a configuration document -/

namespace Config.Document
open Yaml (NodeId Tag)
open ForwardDecl.Decoding

theorem le_of_lineNumber? {value : String} {n : Nat} (h : lineNumber? value = some n) : 1 ≤ n := by
  unfold lineNumber? at h
  obtain ⟨hrange, hn⟩ := Option.ite_none_right_eq_some.mp h
  obtain rfl := Option.some.inj hn
  exact hrange.2.1

/-- **An entry that a scalar is read as passes its check,** whatever the scalar's tag is. -/
theorem check_of_scalarEntry {tag : Tag} {value : String} {e : IgnoreEntry}
    (h : scalarEntry tag value = .ok e) : e.check = .ok () := by
  unfold scalarEntry at h
  split at h
  · split at h
    · rename_i n hn
      obtain rfl := Except.ok.inj h
      exact IgnoreEntry.check_ofLine (le_of_lineNumber? hn)
    · cases h
  · split at h
    · split at h
      · cases h
      · rename_i hvalue
        obtain rfl := Except.ok.inj h
        exact IgnoreEntry.check_ofClass hvalue
    · cases h

section
variable {α β : Type} {g : Yaml.Graph} {notes notes' : Notes}

theorem exists_of_run_bind {x : Decoding α} {f : α → Decoding β} {b : β}
    (h : ((x >>= f).run g).run notes = .ok b notes') :
    ∃ a between, (x.run g).run notes = .ok a between ∧
      ((f a).run g).run between = .ok b notes' := by
  change EStateM.bind (x g) (fun a => f a g) notes = _ at h
  rw [EStateM.bind] at h
  cases hx : x g notes with
  | error problem between => rw [hx] at h; cases h
  | ok a between =>
    rw [hx] at h
    exact ⟨a, between, hx, h⟩

/-- The node that the node with a number stands for: itself, unless it is a reference. -/
def standsFor (g : Yaml.Graph) (id : NodeId) : Yaml.Node :=
  match (g.node id).content with
  | .reference _ target => g.node target
  | _ => g.node id

/-- What is read through a number is read from the node that it stands for. -/
theorem exists_of_follow {id : NodeId} {f : Yaml.Node → Decoding α} {a : α}
    (h : ((follow id f).run g).run notes = .ok a notes') :
    ∃ before after, ((f (standsFor g id)).run g).run before = .ok a after := by
  obtain ⟨-, visited, -, h⟩ := exists_of_run_bind h
  obtain ⟨n, between, hn, h⟩ := exists_of_run_bind h
  obtain ⟨rfl, rfl⟩ := EStateM.Result.ok.inj hn
  unfold standsFor
  cases hcontent : (Yaml.Graph.node g id).content with
  | reference name target =>
    rw [hcontent] at h
    obtain ⟨current, between, -, h⟩ := exists_of_run_bind h
    dsimp only at h
    split at h
    · obtain ⟨_, _, hthrow, -⟩ := exists_of_run_bind h
      cases hthrow
    · obtain ⟨-, noted, -, h⟩ := exists_of_run_bind h
      obtain ⟨-, counted, -, h⟩ := exists_of_run_bind h
      obtain ⟨n, before, hn, h⟩ := exists_of_run_bind h
      obtain ⟨rfl, rfl⟩ := EStateM.Result.ok.inj hn
      obtain ⟨a', after, ha, h⟩ := exists_of_run_bind h
      obtain ⟨-, -, -, h⟩ := exists_of_run_bind h
      obtain ⟨rfl, -⟩ := EStateM.Result.ok.inj h
      exact ⟨_, after, ha⟩
  | _ =>
    rw [hcontent] at h
    exact ⟨_, _, h⟩

/-- A scalar is never read as a mapping. -/
theorem record_of_scalar {shape : Shape α} {a : α} {found : Option α} {n : Yaml.Node}
    {value : String} (hnull : shape.null = none) (hcontent : n.content = .scalar value)
    (h : ((record shape a n).run g).run notes = .ok found notes') : found = none := by
  obtain ⟨graph, between, -, h⟩ := exists_of_run_bind h
  obtain ⟨fuel, hfuel⟩ := Nat.exists_eq_succ_of_ne_zero
    (show 3 * (graph.size + 1) * (graph.size + 1) ≠ 0 by simp)
  dsimp only at h
  rw [hfuel, readInto] at h
  obtain ⟨-, checked, -, h⟩ := exists_of_run_bind h
  rw [hcontent] at h
  dsimp only at h
  unfold scalar at h
  rw [hcontent] at h
  obtain ⟨v, resolved, -, h⟩ := exists_of_run_bind h
  split at h
  · obtain ⟨rfl, -⟩ := EStateM.Result.ok.inj h
    exact hnull
  · obtain ⟨-, -, -, h⟩ := exists_of_run_bind h
    obtain ⟨rfl, -⟩ := EStateM.Result.ok.inj h
    rfl

/-- **An entry that a scalar of a document is read as passes its check.** -/
theorem check_of_entry {id : NodeId} {value : String} {e : IgnoreEntry}
    (hscalar : (standsFor g id).content = .scalar value)
    (h : ((entry id).run g).run notes = .ok (some e) notes') : e.check = .ok () := by
  obtain ⟨before, after, h⟩ := exists_of_follow h
  rw [hscalar] at h
  dsimp only at h
  split at h
  · have hnone := record_of_scalar rfl hscalar h
    cases hnone
  · split at h
    · rename_i e' he
      obtain ⟨hsome, -⟩ := EStateM.Result.ok.inj h
      obtain rfl := Option.some.inj hsome
      exact check_of_scalarEntry he
    · cases h

end

end Config.Document

/-! ## All entries that are read -/

/-- **Entries that are read are valid and stable.**  A word is read as the entry that its kind
says; the entry passes its check, is either a line number or a class name, and is read back from
what it is written as.  The same holds of lists.  What a scalar is read as passes its check too,
so that a conversion with entries from either source fails only because of its text. -/
theorem entries_valid_and_stable :
    (∀ word e, IgnoreEntry.parse word = .ok e → e.check = .ok () ∧
      (0 < e.line ∧ e.className = "" ∨ ¬0 < e.line ∧ e.className ≠ "") ∧
      IgnoreEntry.parse e.render = .ok e) ∧
    (∀ word : String, ∃ w : String, Trims isSpace word.toList w.toList ∧
      (∀ n, IgnoreEntry.parse word = .ok (.ofLine n) ↔
        Denotes w.toList n ∧ 1 ≤ n ∧ n < 2 ^ 63) ∧
      ((∃ cause, IgnoreEntry.parse word = .error cause) ↔
        w = "" ∨ ∃ n, Denotes w.toList n ∧ ¬(1 ≤ n ∧ n < 2 ^ 63)) ∧
      (w ≠ "" → (¬∃ n, Denotes w.toList n) → IgnoreEntry.parse word = .ok (.ofClass w))) ∧
    (∀ words list, IgnoreList.parse words = .ok list →
      list.check = .ok () ∧ IgnoreList.parse list.render = .ok list) ∧
    (∀ tag value e, Config.Document.scalarEntry tag value = .ok e → e.check = .ok ()) ∧
    (∀ g id value notes notes' e, (Config.Document.standsFor g id).content = .scalar value →
      ((Config.Document.entry id).run g).run notes = .ok (some e) notes' → e.check = .ok ()) ∧
    (∀ list : IgnoreList, (∀ e ∈ list, (∃ word, IgnoreEntry.parse word = .ok e) ∨
        ∃ tag value, Config.Document.scalarEntry tag value = .ok e) →
      ∀ mode text cause, convert mode list text = .error cause →
        ∃ shape, cause = .shape shape) := by
  have hmax : ∀ n, n ≤ maxLine ↔ n < 2 ^ 63 := fun n => by rw [maxLine]; omega
  refine ⟨?_, ?_, ?_, ?_, ?_, ?_⟩
  · intro word e h
    exact ⟨IgnoreEntry.check_of_parse h, IgnoreEntry.line_or_class h, IgnoreEntry.parse_render h⟩
  · intro word
    simp only [← hmax]
    refine ⟨trimmed word, ?_, ?_, IgnoreEntry.parse_error_iff, IgnoreEntry.parse_class⟩
    · rw [trimmed, String.toList_ofList]
      exact trims_trimWhile isSpace word.toList
    · exact fun n => IgnoreEntry.parse_line_iff
  · intro words list h
    exact ⟨IgnoreList.check_of_parse h, IgnoreList.parse_render h⟩
  · intro tag value e h
    exact Config.Document.check_of_scalarEntry h
  · intro g id value notes notes' e hscalar h
    exact Config.Document.check_of_entry hscalar h
  · intro list hread mode text cause h
    have hcheck : list.check = .ok () := by
      refine IgnoreList.check_eq_ok_iff.mpr fun e he => ?_
      rcases hread e he with ⟨word, hword⟩ | ⟨tag, value, hscalar⟩
      · exact IgnoreEntry.check_of_parse hword
      · exact Config.Document.check_of_scalarEntry hscalar
    obtain ⟨shape, rfl, -⟩ := (convert_eq_error_iff hcheck).mp h
    exact ⟨shape, rfl⟩

/-- A numeral with zeros and an exotic space around it, the first number that is out of range, a
list with a name that begins with a digit, a scalar with white space around its name, a number in
a document, and a malformed text that is converted with both kinds of entries. -/
theorem entries_valid_and_stable_mixed :
    (IgnoreEntry.parse "\u2003007 " = .ok (.ofLine 7) ∧ IgnoreEntry.parse "7" = .ok (.ofLine 7)) ∧
    (∃ cause, IgnoreEntry.parse "9223372036854775808" = .error cause) ∧
    (IgnoreList.parse [" 1st", "07"] = .ok [.ofClass "1st", .ofLine 7] ∧
      IgnoreList.parse ["1st", "7"] = .ok [.ofClass "1st", .ofLine 7]) ∧
    (Config.Document.scalarEntry .str " A " = .ok (.ofClass " A ") ∧
      (IgnoreEntry.ofClass " A ").check = .ok ()) ∧
    (∃ e notes', ((Config.Document.entry 0).run #[⟨1, .int, .scalar "+07"⟩]).run
        ⟨#[], 1, 0, [], none⟩ = .ok (some e) notes' ∧ e.line = 7 ∧ e.check = .ok ()) ∧
    ∃ shape, convert .remove [.ofLine 7, .ofClass " A "] "@forward()".toList =
      .error (.shape shape) := by
  obtain ⟨hword, hwords, hlist, hscalar, hentry, hconvert⟩ := entries_valid_and_stable
  have hline : IgnoreEntry.parse "\u2003007 " = .ok (.ofLine 7) := by decide
  have hboth : IgnoreList.parse [" 1st", "07"] = .ok [.ofClass "1st", .ofLine 7] := by decide
  have hname : Config.Document.scalarEntry .str " A " = .ok (.ofClass " A ") := by decide
  have hrun : ((Config.Document.entry 0).run #[⟨1, .int, .scalar "+07"⟩]).run
      ⟨#[], 1, 0, [], none⟩ = .ok (some (.ofLine 7)) ⟨#[], 2, 0, [], none⟩ := rfl
  refine ⟨⟨hline, (hword _ _ hline).2.2⟩, ?_, ⟨hboth, (hlist _ _ hboth).2⟩,
    ⟨hname, hscalar _ _ _ hname⟩, ⟨_, _, hrun, rfl, hentry _ _ "+07" _ _ _ rfl hrun⟩, ?_⟩
  · obtain ⟨w, htrims, -, herror, -⟩ := hwords "9223372036854775808"
    have hw : w.toList = "9223372036854775808".toList := htrims.eq_trimWhile
    refine herror.mpr (Or.inr ⟨9223372036854775808, ?_, by decide⟩)
    rw [hw, denotes_iff]
    decide
  · have hshape : convert .remove [.ofLine 7, .ofClass " A "] "@forward()".toList =
        .error (.shape ⟨"", 1, "@forward()".toList, Pass.endsBeforeClass⟩) := by rfl
    have hread : ∀ e ∈ [IgnoreEntry.ofLine 7, .ofClass " A "],
        (∃ word, IgnoreEntry.parse word = .ok e) ∨
          ∃ tag value, Config.Document.scalarEntry tag value = .ok e :=
      List.forall_mem_cons.mpr ⟨Or.inl ⟨_, hline⟩,
        List.forall_mem_singleton.mpr (Or.inr ⟨_, _, hname⟩)⟩
    obtain ⟨shape, hcause⟩ := hconvert _ hread _ _ _ hshape
    exact ⟨shape, hcause ▸ hshape⟩

end ForwardDecl
