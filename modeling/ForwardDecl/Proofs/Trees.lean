import ForwardDecl.FileSystem.Node

/-! # What stands where in a tree

A tree is known by what stands at each of its locations, without what is below
it (`Node.at?`).  Putting a leaf where there is room for one changes this at
that location and nowhere else (`Node.at?_put`); everything that an edit does to
files is made up of such steps.

Two more views of a tree serve to compare it with another one.  `Node.mapFiles`
puts other files into it and leaves all else as it is, so that two trees have the
same *shape* when they agree once every file is blank.  A tree without symbolic
links is `Node.linkFree`.
-/
namespace ForwardDecl

/-! ## Entries -/

namespace Entries
variable {es : Entries} {name other : String} {n m : Node}

@[simp] theorem get?_nil (name : String) : get? [] name = none := rfl

theorem get?_cons (k : String) (n : Node) (es : Entries) (name : String) :
    get? ((k, n) :: es) name = if name = k then some n else get? es name := by
  by_cases h : name = k
  · simp [get?, h]
  · simp [get?, List.lookup_cons, h, beq_eq_false_iff_ne.mpr h]

theorem get?_insert (name other : String) (n : Node) (es : Entries) :
    get? (insert name n es) other = if other = name then some n else get? es other := by
  induction es with
  | nil => rw [insert, get?_cons]
  | cons d ds ih =>
    obtain ⟨k, m⟩ := d
    rw [insert]
    split
    · rw [get?_cons]
    · split
      · rename_i hk
        subst hk
        rw [get?_cons, get?_cons]
        split <;> rfl
      · rename_i hk
        rw [get?_cons, get?_cons, ih]
        by_cases ho : other = k
        · rw [if_pos ho, if_pos ho, if_neg (fun h => hk (h.symm.trans ho))]
        · rw [if_neg ho, if_neg ho]

theorem insert_insert (name : String) (n m : Node) (es : Entries) :
    insert name n (insert name m es) = insert name n es := by
  induction es with
  | nil => simp [insert]
  | cons d ds ih =>
    obtain ⟨k, l⟩ := d
    by_cases hlt : name < k
    · simp [insert, hlt]
    · by_cases hk : name = k
      · simp [insert, hk]
      · simp [insert, hlt, hk, ih]

/-- What comes after an entry does not have its name. -/
theorem ne_of_mem {k : String} (h : Node.WellFormedEntries ((k, n) :: es)) {e : String × Node}
    (he : e ∈ es) : k ≠ e.1 := by
  intro hk
  exact absurd (h.2.2.1 e he) (hk ▸ String.lt_irrefl k)

theorem mem_of_get? (h : get? es name = some n) : (name, n) ∈ es := by
  induction es with
  | nil => cases h
  | cons d ds ih =>
    obtain ⟨k, m⟩ := d
    rw [get?_cons] at h
    split at h
    · rename_i hk
      obtain rfl := Option.some.inj h
      exact hk ▸ List.mem_cons_self
    · exact List.mem_cons_of_mem _ (ih h)

theorem get?_of_mem (hw : Node.WellFormedEntries es) (h : (name, n) ∈ es) :
    get? es name = some n := by
  induction es with
  | nil => cases h
  | cons d ds ih =>
    obtain ⟨k, m⟩ := d
    rw [get?_cons]
    rcases List.mem_cons.mp h with h | h
    · obtain ⟨rfl, rfl⟩ := Prod.mk.inj h
      exact if_pos rfl
    · rw [if_neg fun hk => ne_of_mem hw h hk.symm]
      exact ih hw.2.2.2 h

/-- Putting in an entry that is there changes nothing. -/
theorem insert_self (hw : Node.WellFormedEntries es) (h : get? es name = some n) :
    insert name n es = es := by
  induction es with
  | nil => cases h
  | cons d ds ih =>
    obtain ⟨k, m⟩ := d
    rw [get?_cons] at h
    rw [insert]
    split at h
    · rename_i hk
      subst hk
      obtain rfl := Option.some.inj h
      rw [if_neg (String.lt_irrefl name), if_pos rfl]
    · rename_i hk
      have hlt : k < name := hw.2.2.1 _ (mem_of_get? h)
      rw [if_neg (String.lt_asymm hlt), if_neg hk, ih hw.2.2.2 h]

/-- A new entry goes between the others. -/
theorem insert_of_none (h : get? es name = none) (n : Node) :
    ∃ before after, es = before ++ after ∧ insert name n es = before ++ (name, n) :: after := by
  induction es with
  | nil => exact ⟨[], [], rfl, rfl⟩
  | cons d ds ih =>
    obtain ⟨k, m⟩ := d
    rw [get?_cons] at h
    split at h
    · cases h
    · rename_i hk
      rw [insert]
      split
      · exact ⟨[], (k, m) :: ds, rfl, rfl⟩
      · obtain ⟨before, after, rfl, hins⟩ := ih h
        exact ⟨(k, m) :: before, after, rfl, by rw [hins]; rfl⟩

/-- An entry that is there is replaced where it stands. -/
theorem insert_of_some (hw : Node.WellFormedEntries es) (h : get? es name = some m) (n : Node) :
    ∃ before after, es = before ++ (name, m) :: after ∧
      insert name n es = before ++ (name, n) :: after := by
  induction es with
  | nil => cases h
  | cons d ds ih =>
    obtain ⟨k, l⟩ := d
    rw [get?_cons] at h
    rw [insert]
    split at h
    · rename_i hk
      subst hk
      obtain rfl := Option.some.inj h
      exact ⟨[], ds, rfl, by rw [if_neg (String.lt_irrefl name), if_pos rfl]; rfl⟩
    · rename_i hk
      have hlt : k < name := hw.2.2.1 _ (mem_of_get? h)
      obtain ⟨before, after, rfl, hins⟩ := ih hw.2.2.2 h
      refine ⟨(k, l) :: before, after, rfl, ?_⟩
      rw [if_neg (String.lt_asymm hlt), if_neg hk, hins]
      rfl

end Entries

/-! ## Looking up and putting -/

namespace Node

/-- Induction over a tree: what holds of a directory if it holds of all its
entries, and of files and links, holds of every node. -/
theorem inductOn {P : Node → Prop} (n : Node) (file : ∀ f, P (.file f)) (link : ∀ t, P (.link t))
    (dir : ∀ es : Entries, (∀ e ∈ es, P e.2) → P (.dir es)) : P n :=
  @Node.rec P (fun es => ∀ e ∈ es, P e.2) (fun e => P e.2) file link dir
    (fun _ he => nomatch he)
    (fun _ _ hd hds => List.forall_mem_cons.mpr ⟨hd, hds⟩) (fun _ _ hn => hn) n

/-- A node without what is below it. -/
def bare : Node → Node
  | dir _ => dir []
  | n => n

/-- What stands at a location, without what is below it. -/
def at? (n : Node) (loc : Location) : Option Node :=
  (n.get? loc).map bare

/-- A node below which there is nothing. -/
def Leaf (n : Node) : Prop := n.bare = n

/-- A leaf can be put at the location: one stands there, or nothing does. -/
def Room : Node → Location → Prop
  | n, [] => n.Leaf
  | dir es, name :: rest =>
    match Entries.get? es name with
    | some n => n.Room rest
    | none => rest = [] ∧ isLegalName name = true
  | _, _ :: _ => False

variable {n m new : Node} {es : Entries} {loc : Location} {name : String}

@[simp] theorem get?_nil (n : Node) : n.get? [] = some n := by
  cases n <;> rfl

theorem get?_dir_cons (es : Entries) (name : String) (rest : Location) :
    (dir es).get? (name :: rest) = (Entries.get? es name).bind (·.get? rest) := by
  rw [get?]
  cases Entries.get? es name <;> rfl

theorem get?_append (n : Node) (loc rest : Location) :
    n.get? (loc ++ rest) = (n.get? loc).bind (·.get? rest) := by
  induction loc generalizing n with
  | nil => rw [get?_nil]; rfl
  | cons name loc ih =>
    cases n with
    | file f => rfl
    | link t => rfl
    | dir es =>
      rw [List.cons_append, get?_dir_cons, get?_dir_cons, Option.bind_assoc]
      exact Option.bind_congr fun m _ => ih m

theorem get?_snoc (h : n.get? loc = some (dir es)) (name : String) :
    n.get? (loc ++ [name]) = Entries.get? es name := by
  rw [get?_append, h]
  show (dir es).get? [name] = _
  rw [get?_dir_cons]
  cases Entries.get? es name <;> simp

/-- What is at a location below another one is in a directory. -/
theorem dir_of_get?_snoc (h : n.get? (loc ++ [name]) = some m) :
    ∃ es, n.get? loc = some (dir es) ∧ Entries.get? es name = some m := by
  rw [get?_append] at h
  obtain ⟨d, hd, hm⟩ := Option.bind_eq_some_iff.mp h
  cases d with
  | file f => cases hm
  | link t => cases hm
  | dir es => exact ⟨es, hd, (get?_snoc hd name).symm.trans (by rw [get?_append, hd]; exact hm)⟩

theorem leaf_file (f : File) : (file f).Leaf := rfl

theorem leaf_dir : (dir []).Leaf := rfl

/-- There is nothing below a leaf. -/
theorem Leaf.get?_cons (h : n.Leaf) (name : String) (rest : Location) :
    n.get? (name :: rest) = none := by
  cases n with
  | file f => rfl
  | link t => rfl
  | dir es =>
    obtain rfl : [] = es := Node.dir.inj h
    rfl

theorem at?_eq_file_iff {f : File} : n.at? loc = some (file f) ↔ n.get? loc = some (file f) := by
  constructor
  · intro h
    obtain ⟨m, hm, hb⟩ := Option.map_eq_some_iff.mp h
    cases m with
    | file g => exact hb ▸ hm
    | link t => cases hb
    | dir es => cases hb
  · intro h
    rw [at?, h]
    rfl

theorem at?_eq_dir_iff : n.at? loc = some (dir []) ↔ ∃ es, n.get? loc = some (dir es) := by
  constructor
  · intro h
    obtain ⟨m, hm, hb⟩ := Option.map_eq_some_iff.mp h
    cases m with
    | file g => cases hb
    | link t => cases hb
    | dir es => exact ⟨es, hm⟩
  · rintro ⟨es, h⟩
    rw [at?, h]
    rfl

theorem at?_eq_none_iff : n.at? loc = none ↔ n.get? loc = none := Option.map_eq_none_iff

theorem room_of_file {f : File} (h : n.get? loc = some (file f)) : n.Room loc := by
  induction loc generalizing n with
  | nil =>
    rw [get?_nil] at h
    obtain rfl := Option.some.inj h
    exact leaf_file f
  | cons name rest ih =>
    cases n with
    | file g => cases h
    | link t => cases h
    | dir es =>
      rw [get?_dir_cons] at h
      obtain ⟨m, hm, hf⟩ := Option.bind_eq_some_iff.mp h
      rw [Room, hm]
      exact ih hf

theorem room_of_free (h : n.get? loc = some (dir es)) (hfree : Entries.get? es name = none)
    (hname : isLegalName name = true) : n.Room (loc ++ [name]) := by
  induction loc generalizing n with
  | nil =>
    rw [get?_nil] at h
    obtain rfl := Option.some.inj h
    rw [List.nil_append, Room, hfree]
    exact ⟨rfl, hname⟩
  | cons k rest ih =>
    cases n with
    | file g => cases h
    | link t => cases h
    | dir ds =>
      rw [get?_dir_cons] at h
      obtain ⟨m, hm, hd⟩ := Option.bind_eq_some_iff.mp h
      rw [List.cons_append, Room, hm]
      exact ih hd

/-- Room below a node is room in it. -/
theorem Room.of_append {rest : Location} (hroom : n.Room (loc ++ rest)) (h : n.get? loc = some m) :
    m.Room rest := by
  induction loc generalizing n with
  | nil =>
    rw [get?_nil] at h
    obtain rfl := Option.some.inj h
    exact hroom
  | cons name loc ih =>
    cases n with
    | file f => cases h
    | link t => cases h
    | dir es =>
      rw [get?_dir_cons] at h
      obtain ⟨d, hd, hm⟩ := Option.bind_eq_some_iff.mp h
      rw [List.cons_append, Room, hd] at hroom
      exact ih hroom hm

/-- **Putting a leaf where there is room changes only what stands there.** -/
theorem at?_put (hnew : new.Leaf) (hroom : n.Room loc) (loc' : Location) :
    (put new n loc).at? loc' = if loc' = loc then some new else n.at? loc' := by
  induction loc generalizing n loc' with
  | nil =>
    have hput : put new n [] = new := by cases n <;> rfl
    rw [hput]
    have hn : n.Leaf := by cases n <;> exact hroom
    cases loc' with
    | nil => rw [if_pos rfl, at?, get?_nil]; exact congrArg some hnew
    | cons name rest =>
      rw [if_neg (List.cons_ne_nil _ _), at?, at?, hnew.get?_cons, hn.get?_cons]
  | cons name rest ih =>
    cases n with
    | file f => exact absurd hroom id
    | link t => exact absurd hroom id
    | dir es =>
      cases loc' with
      | nil =>
        -- a directory on the way to the leaf stays one
        rw [if_neg (List.cons_ne_nil _ _).symm, at?, at?, put]
        cases Entries.get? es name with
        | some m => rfl
        | none => dsimp only; split <;> rfl
      | cons name' rest' =>
        rw [Room] at hroom
        rw [put, at?, at?]
        cases hm : Entries.get? es name with
        | some m =>
          rw [hm] at hroom
          dsimp only
          rw [get?_dir_cons, get?_dir_cons, Entries.get?_insert]
          by_cases hname : name' = name
          · subst hname
            have hbelow := ih hroom rest'
            rw [at?, at?] at hbelow
            rw [if_pos rfl, hm, Option.bind_some, Option.bind_some, hbelow]
            simp
          · rw [if_neg hname, if_neg fun h => hname (List.cons.inj h).1]
        | none =>
          -- there is room only for a new entry, and nothing stands below it
          rw [hm] at hroom
          obtain ⟨rfl, hlegal⟩ := hroom
          dsimp only
          rw [if_pos ⟨rfl, hlegal⟩, get?_dir_cons, get?_dir_cons, Entries.get?_insert]
          by_cases hname : name' = name
          · subst hname
            rw [if_pos rfl, hm, Option.bind_some, Option.bind_none]
            cases rest' with
            | nil => rw [if_pos rfl, get?_nil]; exact congrArg some hnew
            | cons k r => rw [hnew.get?_cons, if_neg (by simp)]
          · rw [if_neg hname, if_neg fun h => hname (List.cons.inj h).1]

/-- Of two nodes that are put at one location, the second one counts. -/
theorem put_put (a b n : Node) (loc : Location) : put a (put b n loc) loc = put a n loc := by
  induction loc generalizing n with
  | nil => cases n <;> cases b <;> rfl
  | cons name rest ih =>
    cases n with
    | file f => rfl
    | link t => rfl
    | dir es =>
      rw [put, put]
      cases hm : Entries.get? es name with
      | some m =>
        dsimp only
        rw [put, Entries.get?_insert, if_pos rfl]
        dsimp only
        rw [ih, Entries.insert_insert]
      | none =>
        dsimp only
        split
        · rename_i hr
          obtain ⟨rfl, hlegal⟩ := hr
          rw [put, Entries.get?_insert, if_pos rfl]
          dsimp only
          rw [Entries.insert_insert]
          congr 2
        · rename_i hr
          rw [put, hm]
          dsimp only
          rw [if_neg hr]

/-- What is put below a node is put into it. -/
theorem get?_put_append (h : n.get? loc = some m) (new : Node) (rest : Location) :
    (put new n (loc ++ rest)).get? loc = some (put new m rest) := by
  induction loc generalizing n with
  | nil =>
    rw [get?_nil] at h
    obtain rfl := Option.some.inj h
    exact get?_nil _
  | cons name loc ih =>
    cases n with
    | file f => cases h
    | link t => cases h
    | dir es =>
      rw [get?_dir_cons] at h
      obtain ⟨d, hd, hm⟩ := Option.bind_eq_some_iff.mp h
      rw [List.cons_append, put, hd]
      dsimp only
      rw [get?_dir_cons, Entries.get?_insert, if_pos rfl]
      exact ih hm

/-! ## Well-formed trees -/

theorem WellFormed.of_get? (h : n.WellFormed) (hm : n.get? loc = some m) :
    m.WellFormed ∧ ∀ name ∈ loc, isLegalName name = true := by
  induction loc generalizing n with
  | nil =>
    rw [get?_nil] at hm
    obtain rfl := Option.some.inj hm
    exact ⟨h, fun _ hname => nomatch hname⟩
  | cons name rest ih =>
    cases n with
    | file f => cases hm
    | link t => cases hm
    | dir es =>
      rw [get?_dir_cons] at hm
      obtain ⟨d, hd, hm⟩ := Option.bind_eq_some_iff.mp hm
      obtain ⟨hw, hname⟩ := wellFormed_of_get? h hd
      obtain ⟨hmw, hrest⟩ := ih hw hm
      exact ⟨hmw, List.forall_mem_cons.mpr ⟨hname, hrest⟩⟩

/-- Putting what is there changes nothing. -/
theorem put_self (h : n.WellFormed) (hm : n.get? loc = some m) : put m n loc = n := by
  induction loc generalizing n with
  | nil =>
    rw [get?_nil] at hm
    obtain rfl := Option.some.inj hm
    cases n <;> rfl
  | cons name rest ih =>
    cases n with
    | file f => cases hm
    | link t => cases hm
    | dir es =>
      rw [get?_dir_cons] at hm
      obtain ⟨d, hd, hm⟩ := Option.bind_eq_some_iff.mp hm
      rw [put, hd]
      dsimp only
      rw [ih (wellFormed_of_get? h hd).1 hm, Entries.insert_self h hd]

/-! ## Other files in the same places -/

mutual

/-- The tree with other files in the places of its files. -/
def mapFiles (g : File → File) : Node → Node
  | file f => file (g f)
  | link t => link t
  | dir es => dir (mapEntries g es)
termination_by structural n => n

/-- The entries with other files in the places of their files. -/
def mapEntries (g : File → File) : List (String × Node) → List (String × Node)
  | [] => []
  | (name, n) :: es => (name, n.mapFiles g) :: mapEntries g es
termination_by structural es => es

end

variable (g : File → File)

theorem mapEntries_eq (es : Entries) : mapEntries g es = es.map fun e => (e.1, e.2.mapFiles g) := by
  induction es with
  | nil => rfl
  | cons e es ih => rw [mapEntries, ih]; rfl

theorem get?_mapEntries (es : Entries) (name : String) :
    Entries.get? (mapEntries g es) name = (Entries.get? es name).map (mapFiles g) := by
  induction es with
  | nil => rfl
  | cons e es ih =>
    obtain ⟨k, n⟩ := e
    rw [mapEntries, Entries.get?_cons, Entries.get?_cons, ih]
    split <;> rfl

theorem mapEntries_insert (name : String) (n : Node) (es : Entries) :
    mapEntries g (Entries.insert name n es) =
      Entries.insert name (n.mapFiles g) (mapEntries g es) := by
  induction es with
  | nil => rfl
  | cons e es ih =>
    obtain ⟨k, m⟩ := e
    rw [Entries.insert, mapEntries, Entries.insert]
    split
    · rfl
    · split
      · rfl
      · rw [mapEntries, ih]

theorem get?_mapFiles (n : Node) (loc : Location) :
    (n.mapFiles g).get? loc = (n.get? loc).map (mapFiles g) := by
  induction loc generalizing n with
  | nil => rw [get?_nil, get?_nil]; rfl
  | cons name rest ih =>
    cases n with
    | file f => rfl
    | link t => rfl
    | dir es =>
      rw [mapFiles, get?_dir_cons, get?_dir_cons, get?_mapEntries]
      cases Entries.get? es name with
      | none => rfl
      | some m => exact ih m

theorem at?_mapFiles (n : Node) (loc : Location) :
    (n.mapFiles g).at? loc = (n.at? loc).map (mapFiles g) := by
  rw [at?, at?, get?_mapFiles, Option.map_map, Option.map_map]
  congr 1
  funext m
  cases m <;> rfl

theorem mapFiles_put (new n : Node) (loc : Location) :
    mapFiles g (put new n loc) = put (new.mapFiles g) (n.mapFiles g) loc := by
  induction loc generalizing n with
  | nil => cases n <;> rfl
  | cons name rest ih =>
    cases n with
    | file f => rfl
    | link t => rfl
    | dir es =>
      rw [mapFiles, put, put, get?_mapEntries]
      cases Entries.get? es name with
      | some m =>
        show dir (mapEntries g (Entries.insert name (put new m rest) es)) = _
        rw [mapEntries_insert, ih]
        rfl
      | none =>
        show mapFiles g (if _ then _ else _) = (if _ then _ else _)
        split
        · rw [mapFiles, mapEntries_insert]
        · rw [mapFiles]

theorem WellFormed.mapFiles (h : n.WellFormed) : (n.mapFiles g).WellFormed := by
  induction n using inductOn with
  | file f => trivial
  | link t => trivial
  | dir es ih =>
    show WellFormedEntries (mapEntries g es)
    change WellFormedEntries es at h
    induction es with
    | nil => trivial
    | cons e es ihes =>
      obtain ⟨name, m⟩ := e
      obtain ⟨hname, hm, hlt, hes⟩ := h
      refine ⟨hname, ih _ List.mem_cons_self hm, ?_,
        ihes (fun e he => ih e (List.mem_cons_of_mem _ he)) hes⟩
      intro e he
      rw [mapEntries_eq] at he
      obtain ⟨d, hd, rfl⟩ := List.mem_map.mp he
      exact hlt d hd

/-! ## Trees without links -/

mutual

/-- Whether there is no symbolic link in the tree. -/
def linkFree : Node → Bool
  | file _ => true
  | link _ => false
  | dir es => linkFreeEntries es
termination_by structural n => n

/-- Whether there is no symbolic link in the entries. -/
def linkFreeEntries : List (String × Node) → Bool
  | [] => true
  | (_, n) :: es => n.linkFree && linkFreeEntries es
termination_by structural es => es

end

theorem linkFreeEntries_iff {es : Entries} :
    linkFreeEntries es = true ↔ ∀ e ∈ es, e.2.linkFree = true := by
  induction es with
  | nil => exact ⟨fun _ _ he => (nomatch he), fun _ => rfl⟩
  | cons e es ih =>
    rw [linkFreeEntries, Bool.and_eq_true, ih, List.forall_mem_cons]

theorem linkFree_of_get? (h : n.linkFree = true) (hm : n.get? loc = some m) :
    m.linkFree = true := by
  induction loc generalizing n with
  | nil =>
    rw [get?_nil] at hm
    exact Option.some.inj hm ▸ h
  | cons name rest ih =>
    cases n with
    | file f => cases hm
    | link t => cases hm
    | dir es =>
      rw [get?_dir_cons] at hm
      obtain ⟨d, hd, hm⟩ := Option.bind_eq_some_iff.mp hm
      exact ih (linkFreeEntries_iff.mp h _ (Entries.mem_of_get? hd)) hm

theorem linkFree_put (hnew : new.linkFree = true) (h : n.linkFree = true) (loc : Location) :
    (put new n loc).linkFree = true := by
  induction loc generalizing n with
  | nil => cases n <;> exact hnew
  | cons name rest ih =>
    cases n with
    | file f => exact h
    | link t => exact h
    | dir es =>
      have hins : ∀ m : Node, m.linkFree = true →
          (dir (Entries.insert name m es)).linkFree = true := by
        intro m hm
        refine linkFreeEntries_iff.mpr fun e he => ?_
        rcases mem_insert he with rfl | he
        · exact hm
        · exact linkFreeEntries_iff.mp h e he
      rw [put]
      cases hd : Entries.get? es name with
      | some m => exact hins _ (ih (linkFreeEntries_iff.mp h _ (Entries.mem_of_get? hd)))
      | none =>
        dsimp only
        split
        · exact hins new hnew
        · exact h

theorem linkFree_mapFiles (n : Node) : (n.mapFiles g).linkFree = n.linkFree := by
  induction n using inductOn with
  | file f => rfl
  | link t => rfl
  | dir es ih =>
    show linkFreeEntries (mapEntries g es) = linkFreeEntries es
    induction es with
    | nil => rfl
    | cons e es ihes =>
      obtain ⟨he, hes⟩ := List.forall_mem_cons.mp ih
      rw [mapEntries, linkFreeEntries, linkFreeEntries, he, ihes hes]

end Node
end ForwardDecl
