import ForwardDecl.Ignore.Map
import Mathlib.Data.List.TakeDrop
import Mathlib.Data.List.TakeWhile

/-! # Ignore lists that are in order

Every entry that is read from a word passes its check (`IgnoreEntry.check_of_parse`), so a
list or a map of such entries passes its own.

A map is used through its lookups.  Putting entries behind those of a map puts, for each
path, the entries for that path behind those that were there, in the order in which they
come (`IgnoreMap.lookup_merge`); how the entries for different paths are interleaved makes
no difference.
-/
namespace ForwardDecl

/-! ## Words without the white space around them -/

section
variable {p : Char → Bool} {cs : List Char} {c : Char}

theorem mem_dropWhile (hc : c ∈ cs) (hp : p c = false) : c ∈ cs.dropWhile p := by
  induction cs with
  | nil => cases hc
  | cons d ds ih =>
    rw [List.dropWhile_cons]
    split
    · rename_i hd
      rcases List.mem_cons.mp hc with rfl | hc
      · rw [hp] at hd
        cases hd
      · exact ih hc
    · exact hc

theorem mem_trimWhile (hc : c ∈ cs) (hp : p c = false) : c ∈ trimWhile p cs := by
  rw [trimWhile, dropEndWhile, List.mem_reverse]
  exact mem_dropWhile (List.mem_reverse.mpr (mem_dropWhile hc hp)) hp

/-- Trimming leaves nothing to trim that it would not have taken at once. -/
theorem trimWhile_trimWhile_ne_nil (h : trimWhile p cs ≠ []) :
    trimWhile p (trimWhile p cs) ≠ [] := by
  by_cases hall : ∀ c ∈ cs, p c = true
  · refine absurd ?_ h
    rw [trimWhile, List.dropWhile_eq_nil_iff.mpr hall]
    rfl
  · obtain ⟨c, hc⟩ := Classical.not_forall.mp hall
    obtain ⟨hmem, hp⟩ := Classical.not_imp.mp hc
    rw [Bool.not_eq_true] at hp
    exact List.ne_nil_of_mem (mem_trimWhile (mem_trimWhile hmem hp) hp)

end

theorem ofList_eq_empty_iff {cs : List Char} : String.ofList cs = "" ↔ cs = [] := by
  rw [← String.toList_inj, String.toList_ofList, String.toList_empty]

theorem trimmed_trimmed_ne {word : String} (h : trimmed word ≠ "") :
    trimmed (trimmed word) ≠ "" := by
  rw [trimmed, Ne, ofList_eq_empty_iff] at h ⊢
  rw [trimmed, String.toList_ofList]
  exact trimWhile_trimWhile_ne_nil h

/-! ## Checks -/

section
variable {α β : Type}

theorem forM_eq_ok_iff {xs : List α} {check : α → Except Error Unit} :
    xs.forM check = .ok () ↔ ∀ x ∈ xs, check x = .ok () := by
  induction xs with
  | nil => exact ⟨fun _ _ hx => (nomatch hx), fun _ => rfl⟩
  | cons x xs ih =>
    change (check x >>= fun _ => xs.forM check) = _ ↔ _
    rw [List.forall_mem_cons]
    cases hx : check x with
    | error cause => exact ⟨(fun h => nomatch h), fun h => nomatch h.1⟩
    | ok u => exact ih.trans ⟨fun h => ⟨rfl, h⟩, fun h => h.2⟩

theorem inContext_eq_ok_iff {context : String} {r : Except Error α} {a : α} :
    inContext context r = .ok a ↔ r = .ok a := by
  cases r with
  | ok b => exact Iff.rfl
  | error cause => exact ⟨(fun h => nomatch h), fun h => nomatch h⟩

theorem exists_of_bind_eq_ok {x : Except Error α} {f : α → Except Error β} {b : β}
    (h : (x >>= f) = .ok b) : ∃ a, x = .ok a ∧ f a = .ok b := by
  cases x with
  | error cause => cases h
  | ok a => exact ⟨a, rfl, h⟩

/-- What is read from a list is read from its items. -/
theorem mem_of_mapM_eq_ok {xs : List α} {read : α → Except Error β} {ys : List β}
    (h : xs.mapM read = .ok ys) : ∀ y ∈ ys, ∃ x, read x = .ok y := by
  induction xs generalizing ys with
  | nil =>
    obtain rfl := Except.ok.inj h
    exact fun _ hy => nomatch hy
  | cons x xs ih =>
    rw [List.mapM_cons] at h
    cases hx : read x with
    | error cause => rw [hx] at h; cases h
    | ok y =>
      cases hxs : xs.mapM read with
      | error cause => rw [hx, hxs] at h; cases h
      | ok zs =>
        rw [hx, hxs] at h
        obtain rfl := Except.ok.inj h
        exact List.forall_mem_cons.mpr ⟨⟨x, hx⟩, ih hxs⟩

theorem mapM_eq_ok_map {xs : List α} {read : α → Except Error β} {f : α → β}
    (h : ∀ x ∈ xs, read x = .ok (f x)) : xs.mapM read = .ok (xs.map f) := by
  induction xs with
  | nil => rfl
  | cons x xs ih =>
    rw [List.forall_mem_cons] at h
    rw [List.mapM_cons, h.1, ih h.2]
    rfl

end

namespace IgnoreEntry
variable {word : String} {e : IgnoreEntry}

theorem check_ofLine {n : Nat} (h : 1 ≤ n) : (ofLine n).check = .ok () := by
  have hneg : ¬((ofLine n).line < 0) := by
    simp only [ofLine]
    omega
  have hzero : (ofLine n).line ≠ 0 := by
    simp only [ofLine]
    omega
  rw [check, if_neg hneg, if_neg fun hboth => hboth.2 rfl, if_neg fun hboth => hzero hboth.1]

theorem check_ofClass {className : String} (h : trimmed className ≠ "") :
    (ofClass className).check = .ok () := by
  rw [check, if_neg (by simp [ofClass]), if_neg (by simp [ofClass]), if_neg fun hboth => h hboth.2]

/-- **An entry that is read passes its check.** -/
theorem check_of_parse (h : parse word = .ok e) : e.check = .ok () := by
  unfold parse at h
  dsimp only at h
  split at h
  · cases h
  · rename_i hword
    split at h
    · split at h
      · rename_i hn
        obtain rfl := Except.ok.inj h
        exact check_ofLine hn.1
      · cases h
    · obtain rfl := Except.ok.inj h
      exact check_ofClass (trimmed_trimmed_ne hword)

/-- Whether a word can be read as an entry. -/
def isReadable (word : String) : Bool := (parse word).isOk

/-- The entry that a word is read as. -/
def ofWord (word : String) : IgnoreEntry := (parse word).toOption.getD (.ofClass word)

theorem parse_of_isReadable (h : isReadable word = true) : parse word = .ok (ofWord word) := by
  unfold isReadable at h
  unfold ofWord
  cases hp : parse word with
  | error cause => rw [hp] at h; cases h
  | ok e => rfl

end IgnoreEntry

namespace IgnoreList
variable {words : List String} {list : IgnoreList}

theorem check_eq_ok_iff : list.check = .ok () ↔ ∀ e ∈ list, e.check = .ok () :=
  forM_eq_ok_iff

theorem check_of_parse (h : parse words = .ok list) : list.check = .ok () := by
  refine check_eq_ok_iff.mpr fun e he => ?_
  obtain ⟨word, hword⟩ := mem_of_mapM_eq_ok h e he
  exact IgnoreEntry.check_of_parse hword

theorem parse_of_isReadable (h : ∀ word ∈ words, IgnoreEntry.isReadable word = true) :
    parse words = .ok (words.map IgnoreEntry.ofWord) :=
  mapM_eq_ok_map fun word hword => IgnoreEntry.parse_of_isReadable (h word hword)

theorem check_append {more : IgnoreList} (h : list.check = .ok ()) (hmore : more.check = .ok ()) :
    (list ++ more).check = .ok () := by
  rw [check_eq_ok_iff] at h hmore ⊢
  exact List.forall_mem_append.mpr ⟨h, hmore⟩

end IgnoreList

/-! ## Lookups -/

namespace IgnoreMap
variable {m more : IgnoreMap} {path other : String} {list : IgnoreList}

theorem lookup_cons_eq (m : IgnoreMap) : ((path, list) :: m).lookup other =
    if other = path then some list else m.lookup other := by
  rw [List.lookup_cons]
  by_cases h : other = path
  · simp [h]
  · rw [beq_false_of_ne h, if_neg h]

theorem lookup_insert : (m.insert path list).lookup other =
    if other = path then some list else m.lookup other := by
  induction m with
  | nil => exact lookup_cons_eq []
  | cons entry m ih =>
    obtain ⟨q, l⟩ := entry
    rw [insert, lookup_cons_eq]
    by_cases hq : q = path
    · subst hq
      rw [if_pos rfl, lookup_cons_eq]
      by_cases h : other = q <;> simp only [h, if_true, if_false]
    · rw [if_neg hq, lookup_cons_eq, ih]
      by_cases h : other = q
      · subst h
        rw [if_pos rfl, if_neg hq, if_pos rfl]
      · rw [if_neg h, if_neg h]

theorem lookup_extend : (m.extend path list).lookup other =
    if other = path then some (m.get other ++ list) else m.lookup other := by
  rw [extend, lookup_insert]
  by_cases h : other = path
  · rw [if_pos h, if_pos h, h]
  · rw [if_neg h, if_neg h]

/-- The entries of a map for a path, whether or not they stand together. -/
def entriesFor (m : IgnoreMap) (path : String) : IgnoreList :=
  m.flatMap fun entry => if entry.1 = path then entry.2 else []

theorem entriesFor_of_not_mem (h : path ∉ m.map Prod.fst) : m.entriesFor path = [] := by
  refine List.flatMap_eq_nil_iff.mpr fun entry hentry => if_neg ?_
  rintro rfl
  exact h (List.mem_map_of_mem hentry)

/-- **The lookups of a merged map.**  The entries for a path stand behind those that were
there, in their order. -/
theorem lookup_merge (m more : IgnoreMap) (path : String) : (m.merge more).lookup path =
    if path ∈ more.map Prod.fst then some (m.get path ++ more.entriesFor path)
    else m.lookup path := by
  induction more generalizing m with
  | nil => rfl
  | cons entry more ih =>
    have hstep := ih (m.extend entry.1 entry.2)
    rw [get, lookup_extend] at hstep
    refine hstep.trans ?_
    simp only [List.map_cons, List.mem_cons]
    rw [show entriesFor (entry :: more) path = _ from List.flatMap_cons]
    by_cases h : path = entry.1
    · subst h
      rw [if_pos rfl, if_pos rfl, if_pos (Or.inl rfl), Option.getD_some, List.append_assoc]
      split
      · rfl
      · rename_i hlater
        rw [show more.flatMap _ = [] from entriesFor_of_not_mem hlater, List.append_nil]
    · rw [if_neg h, if_neg (Ne.symm h), List.nil_append]
      simp only [h, false_or]
      rfl

/-! ## Maps that name each path once -/

/-- No path is named twice. -/
def Distinct (m : IgnoreMap) : Prop := (m.map Prod.fst).Nodup

theorem mem_keys_iff : path ∈ m.map Prod.fst ↔ m.lookup path ≠ none := by
  induction m with
  | nil => simp
  | cons entry m ih =>
    rw [List.map_cons, List.mem_cons, ih, lookup_cons_eq]
    by_cases h : path = entry.1 <;> simp [h]

theorem Distinct.entriesFor_eq (h : m.Distinct) (path : String) :
    m.entriesFor path = m.get path := by
  induction m with
  | nil => rfl
  | cons entry m ih =>
    obtain ⟨hentry, hm⟩ := List.nodup_cons.mp h
    rw [entriesFor, List.flatMap_cons, get, lookup_cons_eq]
    by_cases hp : path = entry.1
    · subst hp
      rw [if_pos rfl, if_pos rfl, show m.flatMap _ = [] from entriesFor_of_not_mem hentry,
        List.append_nil]
      rfl
    · rw [if_neg hp, if_neg (Ne.symm hp)]
      exact ih hm

theorem map_fst_insert : (m.insert path list).map Prod.fst =
    if path ∈ m.map Prod.fst then m.map Prod.fst else m.map Prod.fst ++ [path] := by
  induction m with
  | nil => rfl
  | cons entry m ih =>
    obtain ⟨q, l⟩ := entry
    rw [insert]
    simp only [List.map_cons, List.mem_cons]
    by_cases hq : q = path
    · subst hq
      rw [if_pos rfl, if_pos (Or.inl rfl), List.map_cons]
    · rw [if_neg hq, List.map_cons, ih]
      simp only [Ne.symm hq, false_or]
      split <;> rfl

theorem Distinct.extend (h : m.Distinct) : (m.extend path list).Distinct := by
  rw [Distinct, IgnoreMap.extend, map_fst_insert]
  split
  · exact h
  · rename_i hfresh
    refine List.nodup_append.mpr ⟨h, List.pairwise_singleton _ _, ?_⟩
    rintro q hq r hr rfl
    obtain rfl := List.mem_singleton.mp hr
    exact hfresh hq

theorem Distinct.merge (h : m.Distinct) (more : IgnoreMap) : (m.merge more).Distinct := by
  induction more generalizing m with
  | nil => exact h
  | cons entry more ih => exact ih h.extend

/-- Maps with the same lookups make the same additions to a map. -/
theorem lookup_merge_congr {other : IgnoreMap} (hmore : more.Distinct) (hother : other.Distinct)
    (h : ∀ path, more.lookup path = other.lookup path) (m : IgnoreMap) (path : String) :
    (m.merge more).lookup path = (m.merge other).lookup path := by
  have hget : more.get path = other.get path := by rw [get, get, h]
  rw [lookup_merge, lookup_merge, hmore.entriesFor_eq, hother.entriesFor_eq, hget]
  simp only [mem_keys_iff, h]

/-! ## Maps whose lists are in order -/

/-- Every list of the map passes its check. -/
def InOrder (m : IgnoreMap) : Prop := ∀ entry ∈ m, entry.2.check = .ok ()

theorem check_eq_ok_iff {context : String → String} : m.check context = .ok () ↔ m.InOrder :=
  forM_eq_ok_iff.trans (forall₂_congr fun _ _ => inContext_eq_ok_iff)

theorem InOrder.get (h : m.InOrder) (path : String) : (m.get path).check = .ok () := by
  rw [IgnoreMap.get]
  cases hl : m.lookup path with
  | none => rfl
  | some list =>
    obtain ⟨before, after, hsplit, -⟩ := List.lookup_eq_some_iff.mp hl
    exact h (path, list) (by simp [hsplit])

theorem InOrder.insert (h : m.InOrder) (hlist : list.check = .ok ()) :
    (m.insert path list).InOrder := by
  induction m with
  | nil => exact List.forall_mem_singleton.mpr hlist
  | cons entry m ih =>
    obtain ⟨hentry, hm⟩ := List.forall_mem_cons.mp h
    rw [IgnoreMap.insert]
    split
    · exact List.forall_mem_cons.mpr ⟨hlist, hm⟩
    · exact List.forall_mem_cons.mpr ⟨hentry, ih hm⟩

/-- Maps that are in order are merged into one that is. -/
theorem InOrder.merge (h : m.InOrder) (hmore : more.InOrder) : (m.merge more).InOrder := by
  induction more generalizing m with
  | nil => exact h
  | cons entry more ih =>
    obtain ⟨hentry, hmore⟩ := List.forall_mem_cons.mp hmore
    exact ih (h.insert (IgnoreList.check_append (h.get entry.1) hentry)) hmore

/-! ## Pairs of a path and a word -/

theorem span_colon {word rest : List Char} (h : ':' ∉ word) :
    (word ++ ':' :: rest).span (· ≠ ':') = (word, ':' :: rest) := by
  have hword : ∀ c ∈ word, decide (c ≠ ':') = true := by
    intro c hc
    refine decide_eq_true ?_
    rintro rfl
    exact h hc
  rw [List.span_eq_takeWhile_dropWhile, List.takeWhile_append_of_pos hword,
    List.dropWhile_append_of_pos hword]
  simp

/-- A pair is divided in front of a word without colons, whatever the path holds. -/
theorem splitLastColon?_pair {word : String} (h : ':' ∉ word.toList) (path : String) :
    splitLastColon? (path ++ ":" ++ word) = some (path, word) := by
  have hreverse : (path ++ ":" ++ word).toList.reverse =
      word.toList.reverse ++ ':' :: path.toList.reverse := by
    simp [String.toList_append]
  rw [splitLastColon?, hreverse, span_colon (by simpa using h)]
  simp

/-- A clean relative path without white space around it. -/
def IsKey (path : String) : Prop :=
  trimmed path = path ∧ Path.checkRelative "--ignore" [path] = .ok ()

theorem parsePair_pair {word : String} (hpath : IsKey path) (hcolon : ':' ∉ word.toList)
    (hword : IgnoreEntry.isReadable word = true) :
    parsePair (path ++ ":" ++ word) = .ok (path, IgnoreEntry.ofWord word) := by
  have hne : path ≠ "" := by
    rintro rfl
    exact absurd hpath.2 (by decide)
  unfold parsePair
  rw [splitLastColon?_pair hcolon]
  dsimp only
  rw [if_neg hne, IgnoreEntry.parse_of_isReadable hword, hpath.1, hpath.2]
  rfl

/-- The map in which every pair is an entry of its own. -/
def ofPairs (pairs : List (String × String)) : IgnoreMap :=
  pairs.map fun pair => (pair.1, [IgnoreEntry.ofWord pair.2])

theorem foldlM_pairs {pairs : List (String × String)}
    {step : IgnoreMap → String → Except Error IgnoreMap}
    (hstep : ∀ pair ∈ pairs, ∀ m, step m (pair.1 ++ ":" ++ pair.2) =
      .ok (m.extend pair.1 [IgnoreEntry.ofWord pair.2])) (m : IgnoreMap) :
    (pairs.map fun pair => pair.1 ++ ":" ++ pair.2).foldlM step m =
      .ok (m.merge (ofPairs pairs)) := by
  induction pairs generalizing m with
  | nil => rfl
  | cons pair pairs ih =>
    rw [List.forall_mem_cons] at hstep
    rw [List.map_cons, List.foldlM_cons, hstep.1]
    exact ih hstep.2 _

/-- **Pairs are read one after the other into a map.** -/
theorem parse_pairs {pairs : List (String × String)} (hpath : ∀ pair ∈ pairs, IsKey pair.1)
    (hcolon : ∀ pair ∈ pairs, ':' ∉ pair.2.toList)
    (hword : ∀ pair ∈ pairs, IgnoreEntry.isReadable pair.2 = true) :
    parse (pairs.map fun pair => pair.1 ++ ":" ++ pair.2) = .ok (merge [] (ofPairs pairs)) := by
  refine foldlM_pairs (fun pair hpair m => ?_) []
  rw [parsePair_pair (hpath pair hpair) (hcolon pair hpair) (hword pair hpair)]
  rfl

/-! The same lists can be given as pairs, or whole. -/

/-- The words of the pairs for a path. -/
def wordsFor (pairs : List (String × String)) (path : String) : List String :=
  (pairs.filter (·.1 = path)).map Prod.snd

/-- The map of lists that are given whole. -/
def ofWords (lists : List (String × List String)) : IgnoreMap :=
  lists.map fun entry => (entry.1, entry.2.map IgnoreEntry.ofWord)

section
variable {pairs : List (String × String)} {lists : List (String × List String)}

theorem mem_wordsFor {word : String} : word ∈ wordsFor pairs path ↔ (path, word) ∈ pairs := by
  rw [wordsFor, List.mem_map]
  constructor
  · rintro ⟨pair, hpair, rfl⟩
    obtain ⟨hmem, hpath⟩ := List.mem_filter.mp hpair
    rw [← of_decide_eq_true hpath]
    exact hmem
  · intro hmem
    exact ⟨(path, word), List.mem_filter.mpr ⟨hmem, decide_eq_true rfl⟩, rfl⟩

theorem mem_map_fst_ofPairs : path ∈ (ofPairs pairs).map Prod.fst ↔ wordsFor pairs path ≠ [] := by
  rw [ofPairs, List.map_map, List.mem_map]
  constructor
  · rintro ⟨pair, hpair, rfl⟩
    exact List.ne_nil_of_mem (mem_wordsFor.mpr hpair)
  · intro hne
    obtain ⟨word, hword⟩ := List.exists_mem_of_ne_nil _ hne
    exact ⟨(path, word), mem_wordsFor.mp hword, rfl⟩

theorem entriesFor_ofPairs (pairs : List (String × String)) (path : String) :
    (ofPairs pairs).entriesFor path = (wordsFor pairs path).map IgnoreEntry.ofWord := by
  unfold entriesFor ofPairs wordsFor
  induction pairs with
  | nil => rfl
  | cons pair pairs ih =>
    rw [List.map_cons, List.flatMap_cons, ih, List.filter_cons]
    by_cases hpath : pair.1 = path <;> simp [hpath]

theorem lookup_ofWords (lists : List (String × List String)) (path : String) :
    (ofWords lists).lookup path = (lists.lookup path).map (·.map IgnoreEntry.ofWord) := by
  induction lists with
  | nil => rfl
  | cons entry lists ih =>
    obtain ⟨q, words⟩ := entry
    rw [ofWords, List.map_cons, lookup_cons_eq, List.lookup_cons]
    by_cases hq : path = q
    · simp [hq]
    · rw [if_neg hq, beq_false_of_ne hq]
      exact ih

/-- **Pairs give the map of the lists that they make up,** in whatever way the pairs for
different paths are interleaved. -/
theorem lookup_pairs (hne : ∀ entry ∈ lists, entry.2 ≠ [])
    (h : ∀ path, wordsFor pairs path = (lists.lookup path).getD []) (path : String) :
    (merge [] (ofPairs pairs)).lookup path = (ofWords lists).lookup path := by
  rw [lookup_merge, entriesFor_ofPairs, lookup_ofWords]
  simp only [mem_map_fst_ofPairs, h]
  cases hl : lists.lookup path with
  | none => rfl
  | some words =>
    obtain ⟨before, after, hsplit, -⟩ := List.lookup_eq_some_iff.mp hl
    have hwords : words ≠ [] := hne (path, words) (by simp [hsplit])
    rw [Option.getD_some, if_pos hwords]
    rfl

theorem inOrder_ofPairs (h : ∀ pair ∈ pairs, IgnoreEntry.isReadable pair.2 = true) :
    (ofPairs pairs).InOrder := by
  refine List.forall_mem_map.mpr fun pair hpair => ?_
  refine IgnoreList.check_eq_ok_iff.mpr (List.forall_mem_singleton.mpr ?_)
  exact IgnoreEntry.check_of_parse (IgnoreEntry.parse_of_isReadable (h pair hpair))

theorem inOrder_ofWords
    (h : ∀ entry ∈ lists, ∀ word ∈ entry.2, IgnoreEntry.isReadable word = true) :
    (ofWords lists).InOrder := by
  refine List.forall_mem_map.mpr fun entry hentry => ?_
  exact IgnoreList.check_of_parse (IgnoreList.parse_of_isReadable (h entry hentry))

end

end IgnoreMap
end ForwardDecl
