import ForwardDecl.FileSystem.Basic

/-! # Joining paths

A clean path is written from its segments, with a slash in front if it starts at
the top (`Path.written`), and reading the segments of what was written gives them
back.  Joining some names to a path therefore appends them to its cleaned
segments (`Path.join_ofSegments`), and joining names one by one comes to the same
as joining all of them at once (`Path.join_join`).
-/
namespace ForwardDecl
namespace Path

/-- A piece of a path that names something. -/
def Proper (name : String) : Prop := name ≠ "" ∧ '/' ∉ name.toList

theorem proper_of_isLegalName {name : String} (h : isLegalName name = true) : Proper name := by
  simp only [isLegalName, Bool.and_eq_true, decide_eq_true_eq, Bool.not_eq_true',
    List.contains_eq_mem, decide_eq_false_iff_not] at h
  exact ⟨h.1.1.1.1.1, h.1.1.2⟩

/-- A legal name leads to its own entry. -/
theorem ne_of_isLegalName {name : String} (h : isLegalName name = true) :
    ¬(name = "" ∨ name = ".") ∧ name ≠ ".." ∧ name.utf8ByteSize ≤ maxNameSize := by
  simp only [isLegalName, Bool.and_eq_true, decide_eq_true_eq] at h
  exact ⟨not_or.mpr ⟨h.1.1.1.1.1, h.1.1.1.1.2⟩, h.1.1.1.2, h.2⟩

/-! ## Segments -/

theorem segments_append (a b : String) : segments (a ++ "/" ++ b) = segments a ++ segments b := by
  have hslash : "/".toList = ['/'] := rfl
  rw [segments, String.toList_append, String.toList_append, hslash, List.append_assoc,
    List.singleton_append, List.splitOn_append_cons_self, List.map_append]
  rfl

theorem segments_ofSegments {names : List String} (hne : names ≠ [])
    (h : ∀ name ∈ names, '/' ∉ name.toList) : segments (ofSegments names) = names := by
  have hslash : "/".toList = ['/'] := rfl
  have hno : ∀ l ∈ names.map String.toList, '/' ∉ l := by
    intro l hl
    obtain ⟨name, hname, rfl⟩ := List.mem_map.mp hl
    exact h name hname
  rw [segments, ofSegments, String.toList_intercalate, hslash,
    List.splitOn_intercalate '/' hno (by simpa using hne), List.map_map]
  simp

theorem not_mem_of_mem_splitOn {cs piece : List Char} (h : piece ∈ cs.splitOn '/') :
    '/' ∉ piece := by
  induction cs generalizing piece with
  | nil =>
    obtain rfl : piece = [] := by simpa [List.splitOn_nil] using h
    exact List.not_mem_nil
  | cons c cs ih =>
    rw [List.splitOn_cons_eq_if_modifyHead] at h
    split at h
    · rcases List.mem_cons.mp h with rfl | h
      · exact List.not_mem_nil
      · exact ih h
    · rename_i hc
      cases hs : cs.splitOn '/' with
      | nil => exact absurd hs (List.splitOn_ne_nil _ _)
      | cons first rest =>
        rw [hs] at h ih
        rcases List.mem_cons.mp h with rfl | h
        · intro hmem
          rcases List.mem_cons.mp hmem with rfl | hmem
          · exact hc (beq_self_eq_true _)
          · exact ih List.mem_cons_self hmem
        · exact ih (List.mem_cons_of_mem _ h)

theorem not_mem_of_mem_segments {path name : String} (h : name ∈ segments path) :
    '/' ∉ name.toList := by
  obtain ⟨piece, hpiece, rfl⟩ := List.mem_map.mp h
  rw [String.toList_ofList]
  exact not_mem_of_mem_splitOn hpiece

/-! ## Clean segments -/

/-- Each of the segments, which stand last one first, was taken onto those before
it. -/
def Taken (rooted : Bool) : List String → Prop
  | [] => True
  | name :: done => Taken rooted done ∧ cleanStep rooted done name = name :: done

section
variable {rooted : Bool} {done : List String} {name : String}

theorem cleanStep_dot (hname : name = "" ∨ name = ".") : cleanStep rooted done name = done := by
  rw [cleanStep.eq_def, if_pos hname]

theorem cleanStep_name (hdot : ¬(name = "" ∨ name = ".")) (hup : name ≠ "..") :
    cleanStep rooted done name = name :: done := by
  rw [cleanStep.eq_def, if_neg hdot, if_neg hup]

/-- The last segment is taken back, unless it goes up itself. -/
theorem cleanStep_up (rooted : Bool) (last : String) (done : List String) :
    cleanStep rooted (last :: done) ".." =
      if last = ".." then ".." :: last :: done else done := by
  rw [cleanStep.eq_def, if_neg (by decide), if_pos rfl]

theorem cleanStep_of_isLegalName (h : isLegalName name = true) :
    cleanStep rooted done name = name :: done := by
  obtain ⟨hdot, hup, -⟩ := ne_of_isLegalName h
  exact cleanStep_name hdot hup

/-- What one more segment can do: nothing, to be taken, or to take one back. -/
theorem cleanStep_cases (rooted : Bool) (done : List String) (name : String) :
    cleanStep rooted done name = done ∨ cleanStep rooted done name = name :: done ∨
      ∃ last, done = last :: cleanStep rooted done name := by
  rw [cleanStep.eq_def]
  split
  · exact Or.inl rfl
  · split
    · rename_i hup
      subst hup
      cases done with
      | nil => cases rooted <;> simp
      | cons last rest =>
        dsimp only
        split
        · exact Or.inr (Or.inl rfl)
        · exact Or.inr (Or.inr ⟨last, rfl⟩)
    · exact Or.inr (Or.inl rfl)

theorem Taken.cleanStep (h : Taken rooted done) (name : String) :
    Taken rooted (cleanStep rooted done name) := by
  rcases cleanStep_cases rooted done name with he | he | ⟨last, he⟩
  · rw [he]
    exact h
  · rw [he]
    exact ⟨h, he⟩
  · rw [he] at h
    exact h.1

theorem Taken.not_dot (h : Taken rooted (name :: done)) : ¬(name = "" ∨ name = ".") := by
  intro hname
  have hstep := h.2
  rw [cleanStep_dot hname] at hstep
  exact absurd hstep (List.cons_ne_self name done).symm

theorem Taken.foldl (h : Taken rooted done) (names : List String) :
    Taken rooted (names.foldl (Path.cleanStep rooted) done) := by
  induction names generalizing done with
  | nil => exact h
  | cons name names ih => exact ih (h.cleanStep name)

/-- Cleaning leaves taken segments as they are. -/
theorem Taken.foldl_reverse (h : Taken rooted done) :
    done.reverse.foldl (Path.cleanStep rooted) [] = done := by
  induction done with
  | nil => rfl
  | cons name done ih =>
    rw [List.reverse_cons, List.foldl_append, ih h.1]
    exact h.2

theorem taken_append_of_isLegalName {names : List String} (h : Taken rooted done)
    (hl : ∀ name ∈ names, isLegalName name = true) : Taken rooted (names.reverse ++ done) := by
  induction names generalizing done with
  | nil => exact h
  | cons name names ih =>
    obtain ⟨hname, hnames⟩ := List.forall_mem_cons.mp hl
    rw [List.reverse_cons, List.append_assoc]
    exact ih ⟨h, cleanStep_of_isLegalName hname⟩ hnames

theorem foldl_cleanStep_of_isLegalName {names : List String}
    (hl : ∀ name ∈ names, isLegalName name = true) :
    names.foldl (cleanStep rooted) done = names.reverse ++ done := by
  induction names generalizing done with
  | nil => rfl
  | cons name names ih =>
    obtain ⟨hname, hnames⟩ := List.forall_mem_cons.mp hl
    rw [List.foldl_cons, cleanStep_of_isLegalName hname, ih hnames, List.reverse_cons,
      List.append_assoc]
    rfl

theorem proper_of_mem_foldl {names : List String} (h : ∀ name ∈ names, '/' ∉ name.toList)
    (hd : ∀ name ∈ done, Proper name) :
    ∀ name ∈ names.foldl (cleanStep rooted) done, Proper name := by
  induction names generalizing done with
  | nil => exact hd
  | cons name names ih =>
    obtain ⟨hname, hnames⟩ := List.forall_mem_cons.mp h
    refine ih hnames ?_
    by_cases hempty : name = ""
    · rw [cleanStep_dot (Or.inl hempty)]
      exact hd
    · rcases cleanStep_cases rooted done name with he | he | ⟨last, he⟩
      · rw [he]
        exact hd
      · rw [he]
        exact List.forall_mem_cons.mpr ⟨⟨hempty, hname⟩, hd⟩
      · rw [he] at hd
        exact (List.forall_mem_cons.mp hd).2

end

theorem taken_cleanSegments (path : String) :
    Taken (isAbsolute path) (cleanSegments path).reverse := by
  rw [cleanSegments, List.reverse_reverse]
  have hnone : Taken (isAbsolute path) [] := trivial
  exact hnone.foldl _

theorem proper_of_mem_cleanSegments {path name : String} (h : name ∈ cleanSegments path) :
    Proper name := by
  have hnone : ∀ name ∈ ([] : List String), Proper name := fun _ hname => nomatch hname
  exact proper_of_mem_foldl (fun _ => not_mem_of_mem_segments) hnone name (List.mem_reverse.mp h)

/-! ## Written paths -/

/-- The path of some segments, from the top or from the working directory. -/
def written (rooted : Bool) (names : List String) : String :=
  (if rooted then "/" else "") ++ ofSegments names

section
variable {rooted : Bool} {names : List String}

theorem clean_eq_written {path : String} (h : cleanSegments path ≠ []) :
    clean path = written (isAbsolute path) (cleanSegments path) := by
  rw [clean, written]
  cases isAbsolute path with
  | true => rfl
  | false => simp [h]

theorem segments_written (hne : names ≠ []) (h : ∀ name ∈ names, Proper name) :
    segments (written rooted names) = (if rooted then [""] else []) ++ names := by
  have hnames := segments_ofSegments hne fun name hname => (h name hname).2
  cases rooted with
  | true =>
    have htop := segments_append "" (ofSegments names)
    rw [String.empty_append, hnames] at htop
    exact htop
  | false =>
    rw [written, if_neg Bool.false_ne_true, String.empty_append, hnames]
    rfl

theorem isAbsolute_append {a : String} (ha : a ≠ "") (b : String) :
    isAbsolute (a ++ b) = isAbsolute a := by
  obtain ⟨c, cs, ha⟩ := List.exists_cons_of_ne_nil (mt String.toList_eq_nil_iff.mp ha)
  rw [isAbsolute, isAbsolute, String.toList_append, ha]
  rfl

theorem isAbsolute_of_proper {name : String} (h : Proper name) : isAbsolute name = false := by
  refine decide_eq_false fun hh => h.2 ?_
  exact List.mem_of_mem_head? hh

theorem isAbsolute_written (hne : names ≠ []) (h : ∀ name ∈ names, Proper name) :
    isAbsolute (written rooted names) = rooted := by
  cases rooted with
  | true =>
    rw [written, if_pos rfl, isAbsolute_append (by decide)]
    decide
  | false =>
    rw [written, if_neg Bool.false_ne_true, String.empty_append, ofSegments]
    obtain ⟨name, rest, rfl⟩ := List.exists_cons_of_ne_nil hne
    have hname := h name List.mem_cons_self
    cases rest with
    | nil => rw [String.intercalate_singleton, isAbsolute_of_proper hname]
    | cons second rest =>
      rw [String.intercalate_cons_cons, String.append_assoc, isAbsolute_append hname.1,
        isAbsolute_of_proper hname]

theorem cleanSegments_written (hne : names ≠ []) (h : ∀ name ∈ names, Proper name)
    (ht : Taken rooted names.reverse) : cleanSegments (written rooted names) = names := by
  have hfold : names.foldl (cleanStep rooted) [] = names.reverse := by
    simpa using ht.foldl_reverse
  rw [cleanSegments, isAbsolute_written hne h, segments_written hne h, List.foldl_append]
  have htop : (if rooted then [""] else []).foldl (cleanStep rooted) [] = [] := by
    cases rooted <;> rfl
  rw [htop, hfold, List.reverse_reverse]

/-- A path has at least as many bytes as segments. -/
theorem length_le_size_ofSegments (h : ∀ name ∈ names, Proper name) :
    names.length ≤ (ofSegments names).utf8ByteSize := by
  induction names with
  | nil => exact Nat.zero_le _
  | cons name names ih =>
    obtain ⟨hname, hnames⟩ := List.forall_mem_cons.mp h
    have hsize : 0 < name.utf8ByteSize :=
      Nat.pos_of_ne_zero fun hz => hname.1 (String.utf8ByteSize_eq_zero_iff.mp hz)
    have hrest := ih hnames
    cases names with
    | nil =>
      rw [ofSegments, String.intercalate_singleton]
      exact hsize
    | cons second rest =>
      rw [ofSegments, String.intercalate_cons_cons, String.utf8ByteSize_append,
        String.utf8ByteSize_append, ← ofSegments]
      rw [List.length_cons]
      omega

end

/-! ## Joining -/

section
variable {base : String} {names more : List String}

theorem ofSegments_ne_empty (hne : names ≠ []) (hl : ∀ name ∈ names, isLegalName name = true) :
    ofSegments names ≠ "" := by
  intro he
  have hp : ∀ name ∈ names, Proper name := fun name hname => proper_of_isLegalName (hl name hname)
  have hlen := length_le_size_ofSegments hp
  rw [he] at hlen
  exact hne (List.eq_nil_of_length_eq_zero (Nat.le_zero.mp hlen))

theorem cleanSegments_append (hb : base ≠ "") (hne : names ≠ [])
    (hl : ∀ name ∈ names, isLegalName name = true) :
    cleanSegments (base ++ "/" ++ ofSegments names) = cleanSegments base ++ names := by
  have hseg : segments (ofSegments names) = names :=
    segments_ofSegments hne fun name hname => (proper_of_isLegalName (hl name hname)).2
  rw [cleanSegments, String.append_assoc, isAbsolute_append hb, ← String.append_assoc,
    segments_append, hseg, List.foldl_append, foldl_cleanStep_of_isLegalName hl,
    List.reverse_append, List.reverse_reverse]
  rfl

/-- **Joining names appends them to the cleaned segments.** -/
theorem join_ofSegments (hb : base ≠ "") (hne : names ≠ [])
    (hl : ∀ name ∈ names, isLegalName name = true) :
    join base (ofSegments names) = written (isAbsolute base) (cleanSegments base ++ names) := by
  have hcs := cleanSegments_append hb hne hl
  have hcne : cleanSegments (base ++ "/" ++ ofSegments names) ≠ [] := by
    rw [hcs]
    exact List.append_ne_nil_of_right_ne_nil _ hne
  rw [join, if_neg hb, if_neg (ofSegments_ne_empty hne hl), clean_eq_written hcne, hcs,
    String.append_assoc, isAbsolute_append hb]

theorem proper_of_mem_join (base : String) (hl : ∀ name ∈ names, isLegalName name = true) :
    ∀ name ∈ cleanSegments base ++ names, Proper name := by
  intro name hname
  rcases List.mem_append.mp hname with h | h
  · exact proper_of_mem_cleanSegments h
  · exact proper_of_isLegalName (hl name h)

theorem isAbsolute_join (hb : base ≠ "") (hne : names ≠ [])
    (hl : ∀ name ∈ names, isLegalName name = true) :
    isAbsolute (join base (ofSegments names)) = isAbsolute base := by
  rw [join_ofSegments hb hne hl]
  exact isAbsolute_written (List.append_ne_nil_of_right_ne_nil _ hne) (proper_of_mem_join base hl)

theorem segments_join (hb : base ≠ "") (hne : names ≠ [])
    (hl : ∀ name ∈ names, isLegalName name = true) :
    segments (join base (ofSegments names)) =
      (if isAbsolute base then [""] else []) ++ (cleanSegments base ++ names) := by
  rw [join_ofSegments hb hne hl]
  exact segments_written (List.append_ne_nil_of_right_ne_nil _ hne) (proper_of_mem_join base hl)

theorem cleanSegments_join (hb : base ≠ "") (hne : names ≠ [])
    (hl : ∀ name ∈ names, isLegalName name = true) :
    cleanSegments (join base (ofSegments names)) = cleanSegments base ++ names := by
  rw [join_ofSegments hb hne hl]
  refine cleanSegments_written (List.append_ne_nil_of_right_ne_nil _ hne)
    (proper_of_mem_join base hl) ?_
  rw [List.reverse_append]
  exact taken_append_of_isLegalName (taken_cleanSegments base) hl

theorem join_ne_empty (hb : base ≠ "") (hne : names ≠ [])
    (hl : ∀ name ∈ names, isLegalName name = true) : join base (ofSegments names) ≠ "" := by
  intro he
  have hcs := cleanSegments_join hb hne hl
  rw [he] at hcs
  exact List.append_ne_nil_of_right_ne_nil _ hne hcs.symm

/-- Joining names in two steps is joining them all. -/
theorem join_join (hb : base ≠ "") (hne : names ≠ []) (hme : more ≠ [])
    (hl : ∀ name ∈ names, isLegalName name = true)
    (hm : ∀ name ∈ more, isLegalName name = true) :
    join (join base (ofSegments names)) (ofSegments more) =
      join base (ofSegments (names ++ more)) := by
  have hall : ∀ name ∈ names ++ more, isLegalName name = true := by
    intro name hname
    exact (List.mem_append.mp hname).elim (hl name) (hm name)
  rw [join_ofSegments (join_ne_empty hb hne hl) hme hm, isAbsolute_join hb hne hl,
    cleanSegments_join hb hne hl, List.append_assoc,
    join_ofSegments hb (List.append_ne_nil_of_right_ne_nil _ hme) hall]

/-- A path below another one is at least as long as it has names. -/
theorem length_le_size_join (hb : base ≠ "") (hne : names ≠ [])
    (hl : ∀ name ∈ names, isLegalName name = true) :
    names.length ≤ (join base (ofSegments names)).utf8ByteSize := by
  have hsize := length_le_size_ofSegments (proper_of_mem_join base hl)
  rw [join_ofSegments hb hne hl, written, String.utf8ByteSize_append]
  rw [List.length_append] at hsize
  omega

/-- Joining to names that stand alone keeps them as they are. -/
theorem join_names (hne : names ≠ []) (hme : more ≠ [])
    (hl : ∀ name ∈ names, isLegalName name = true)
    (hm : ∀ name ∈ more, isLegalName name = true) :
    join (ofSegments names) (ofSegments more) = ofSegments (names ++ more) := by
  have hp : ∀ name ∈ names, Proper name := fun name hname => proper_of_isLegalName (hl name hname)
  have halone : ofSegments names = written false names := by
    rw [written, if_neg Bool.false_ne_true, String.empty_append]
  have ht : Taken false (names.reverse ++ []) := taken_append_of_isLegalName trivial hl
  rw [List.append_nil] at ht
  rw [join_ofSegments (ofSegments_ne_empty hne hl) hme hm, halone, isAbsolute_written hne hp,
    cleanSegments_written hne hp ht, written, if_neg Bool.false_ne_true, String.empty_append]

/-- Names can be read off the path that they make. -/
theorem ofSegments_inj (hne : names ≠ []) (hme : more ≠ [])
    (hl : ∀ name ∈ names, isLegalName name = true)
    (hm : ∀ name ∈ more, isLegalName name = true)
    (h : ofSegments names = ofSegments more) : names = more := by
  rw [← segments_ofSegments hne fun name hname => (proper_of_isLegalName (hl name hname)).2,
    ← segments_ofSegments hme fun name hname => (proper_of_isLegalName (hm name hname)).2, h]

@[simp] theorem ofSegments_singleton (name : String) : ofSegments [name] = name :=
  String.intercalate_singleton

end

/-! ## Sizes and characters of paths -/

section
variable {c : Char} {names : List String}

theorem size_ofSegments_snoc (hne : names ≠ []) (name : String) :
    (ofSegments (names ++ [name])).utf8ByteSize =
      (ofSegments names).utf8ByteSize + 1 + name.utf8ByteSize := by
  induction names with
  | nil => exact absurd rfl hne
  | cons first names ih =>
    cases names with
    | nil => simp [ofSegments, String.intercalate_cons_cons]; rfl
    | cons second rest =>
      have hsize := ih (List.cons_ne_nil _ _)
      rw [List.cons_append, ofSegments, ofSegments, List.cons_append,
        String.intercalate_cons_cons, String.intercalate_cons_cons, ← List.cons_append,
        ← ofSegments, ← ofSegments, String.utf8ByteSize_append, hsize]
      simp only [String.utf8ByteSize_append]
      omega

theorem size_ofSegments_replicate (name : String) (n : Nat) :
    (ofSegments (List.replicate (n + 1) name)).utf8ByteSize =
      n * (name.utf8ByteSize + 1) + name.utf8ByteSize := by
  induction n with
  | zero => rw [List.replicate_one, ofSegments_singleton]; omega
  | succ n ih =>
    rw [List.replicate_succ', size_ofSegments_snoc (by simp), ih]
    rw [Nat.add_mul]
    omega

theorem mem_ofSegments (h : c ∈ (ofSegments names).toList) :
    c = '/' ∨ ∃ name ∈ names, c ∈ name.toList := by
  induction names with
  | nil => cases h
  | cons name names ih =>
    cases names with
    | nil =>
      rw [ofSegments_singleton] at h
      exact Or.inr ⟨name, List.mem_cons_self, h⟩
    | cons second rest =>
      rw [ofSegments, String.intercalate_cons_cons, ← ofSegments, String.toList_append,
        String.toList_append, List.mem_append, List.mem_append] at h
      rcases h with (h | h) | h
      · exact Or.inr ⟨name, List.mem_cons_self, h⟩
      · exact Or.inl (List.mem_singleton.mp h)
      · rcases ih h with h | ⟨k, hk, hc⟩
        · exact Or.inl h
        · exact Or.inr ⟨k, List.mem_cons_of_mem _ hk, hc⟩

theorem mem_of_mem_splitOn {cs piece : List Char} (h : piece ∈ cs.splitOn '/') (hc : c ∈ piece) :
    c ∈ cs := by
  induction cs generalizing piece with
  | nil =>
    obtain rfl : piece = [] := by simpa [List.splitOn_nil] using h
    exact hc
  | cons d cs ih =>
    rw [List.splitOn_cons_eq_if_modifyHead] at h
    split at h
    · rcases List.mem_cons.mp h with rfl | h
      · cases hc
      · exact List.mem_cons_of_mem _ (ih h hc)
    · cases hs : cs.splitOn '/' with
      | nil => exact absurd hs (List.splitOn_ne_nil _ _)
      | cons first rest =>
        rw [hs] at h ih
        rcases List.mem_cons.mp h with rfl | h
        · rcases List.mem_cons.mp hc with rfl | hc
          · exact List.mem_cons_self
          · exact List.mem_cons_of_mem _ (ih List.mem_cons_self hc)
        · exact List.mem_cons_of_mem _ (ih (List.mem_cons_of_mem _ h) hc)

theorem mem_of_mem_foldl {rooted : Bool} {done : List String} {name : String}
    (h : name ∈ names.foldl (cleanStep rooted) done) : name ∈ names ∨ name ∈ done := by
  induction names generalizing done with
  | nil => exact Or.inr h
  | cons k names ih =>
    rcases ih h with h | h
    · exact Or.inl (List.mem_cons_of_mem _ h)
    · rcases cleanStep_cases rooted done k with he | he | ⟨last, he⟩
      · exact Or.inr (he ▸ h)
      · rw [he] at h
        rcases List.mem_cons.mp h with rfl | h
        · exact Or.inl List.mem_cons_self
        · exact Or.inr h
      · rw [he]
        exact Or.inr (List.mem_cons_of_mem _ h)

/-- A joined path has no other characters than its parts, and slashes. -/
theorem mem_join {base : String} (hb : base ≠ "") (hne : names ≠ [])
    (hl : ∀ name ∈ names, isLegalName name = true)
    (h : c ∈ (join base (ofSegments names)).toList) :
    c = '/' ∨ c ∈ base.toList ∨ ∃ name ∈ names, c ∈ name.toList := by
  rw [join_ofSegments hb hne hl, written, String.toList_append, List.mem_append] at h
  rcases h with h | h
  · split at h
    · exact Or.inl (List.mem_singleton.mp h)
    · cases h
  · rcases mem_ofSegments h with h | ⟨name, hname, hc⟩
    · exact Or.inl h
    · rcases List.mem_append.mp hname with hclean | hname
      · rcases mem_of_mem_foldl (List.mem_reverse.mp hclean) with hseg | hnone
        · obtain ⟨piece, hpiece, rfl⟩ := List.mem_map.mp hseg
          rw [String.toList_ofList] at hc
          exact Or.inr (Or.inl (mem_of_mem_splitOn hpiece hc))
        · cases hnone
      · exact Or.inr (Or.inr ⟨name, hname, hc⟩)

end

end Path
end ForwardDecl
