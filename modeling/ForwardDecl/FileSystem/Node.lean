/-! # Directory trees

A directory tree is a finite tree of named nodes.  A directory holds its
entries in strictly ascending order of their names, and names are legal
(`Node.WellFormed`), so that a directory has one listing and a place in the
tree has one name.  Nodes are looked up, put and erased at a *location*, the
list of names that leads there; each operation keeps trees well formed.
-/
namespace ForwardDecl

/-- A point in time; only comparison matters. -/
abbrev Time := Nat

/-- A regular file. -/
structure File where
  bytes : ByteArray
  perm : Nat
  accessed : Time
  modified : Time

/-- A file, a symbolic link or a directory. -/
inductive Node
  | file (content : File)
  | link (target : String)
  | dir (entries : List (String × Node))

/-- The entries of a directory. -/
abbrev Entries := List (String × Node)

/-- The names that lead to a place in a tree, outermost first. -/
abbrev Location := List String

/-- The number of bytes that one name may have. -/
def maxNameSize : Nat := 255

/-- A name that can stand in a directory. -/
def isLegalName (name : String) : Bool :=
  name ≠ "" && name ≠ "." && name ≠ ".." && !name.toList.contains '/' &&
    !name.toList.contains '\x00' && name.utf8ByteSize ≤ maxNameSize

namespace Entries

/-- The node with a name. -/
def get? (es : Entries) (name : String) : Option Node :=
  List.lookup name es

/-- Put a node under a name, in the place of what is there. -/
def insert (name : String) (node : Node) : Entries → Entries
  | [] => [(name, node)]
  | (k, n) :: es =>
    if name < k then (name, node) :: (k, n) :: es
    else if name = k then (name, node) :: es
    else (k, n) :: insert name node es

/-- Take away what is under a name. -/
def erase (name : String) (es : Entries) : Entries :=
  es.filter fun e => e.1 ≠ name

end Entries

namespace Node

/-- Whether the node is a directory. -/
def isDir : Node → Bool
  | dir _ => true
  | _ => false

/-- The node at a location. -/
def get? : Node → Location → Option Node
  | n, [] => some n
  | dir es, name :: rest =>
    match Entries.get? es name with
    | some n => n.get? rest
    | none => none
  | _, _ :: _ => none

/-- Put a node at a location, in the place of what is there.  The tree stays as
it is when the location has no directory to be in, or no legal name. -/
def put (new : Node) : Node → Location → Node
  | _, [] => new
  | dir es, name :: rest =>
    match Entries.get? es name with
    | some n => dir (Entries.insert name (put new n rest) es)
    | none =>
      if rest = [] ∧ isLegalName name then dir (Entries.insert name new es) else dir es
  | n, _ :: _ => n

/-- Take away what is at a location, with everything below it. -/
def erase : Node → Location → Node
  | n, [] => n
  | dir es, name :: rest =>
    if rest = [] then dir (Entries.erase name es)
    else
      match Entries.get? es name with
      | some n => dir (Entries.insert name (n.erase rest) es)
      | none => dir es
  | n, _ :: _ => n

mutual

/-- Every node below a node, with its location, a directory before what is in
it. -/
def descendants : Node → List (Location × Node)
  | dir es => descendantsOf es
  | _ => []
termination_by structural n => n

/-- Every node of some entries, with its location. -/
def descendantsOf : List (String × Node) → List (Location × Node)
  | [] => []
  | (name, n) :: es =>
    ([name], n) :: n.descendants.map (fun d => (name :: d.1, d.2)) ++ descendantsOf es
termination_by structural es => es

end

/-! ## Well-formed trees -/

mutual

/-- All names are legal, and every directory is in strictly ascending order. -/
def WellFormed : Node → Prop
  | dir es => WellFormedEntries es
  | _ => True
termination_by structural n => n

/-- The entries have legal names, stand in strictly ascending order and are
well formed themselves. -/
def WellFormedEntries : List (String × Node) → Prop
  | [] => True
  | (name, n) :: es =>
    isLegalName name = true ∧ n.WellFormed ∧ (∀ e ∈ es, name < e.1) ∧ WellFormedEntries es
termination_by structural es => es

end

theorem wellFormed_of_get? {es : Entries} (h : WellFormedEntries es) {name : String} {n : Node}
    (hn : Entries.get? es name = some n) : n.WellFormed ∧ isLegalName name = true := by
  induction es with
  | nil => simp [Entries.get?] at hn
  | cons e es ih =>
    obtain ⟨k, m⟩ := e
    simp only [WellFormedEntries] at h
    simp only [Entries.get?, List.lookup_cons] at hn
    split at hn
    · rename_i heq
      simp only [beq_iff_eq] at heq
      simp only [Option.some.injEq] at hn
      subst hn heq
      exact ⟨h.2.1, h.1⟩
    · exact ih h.2.2.2 hn

theorem lt_of_not_lt_of_ne {a b : String} (h : ¬a < b) (hne : a ≠ b) : b < a := by
  rcases Classical.em (b < a) with hb | hb
  · exact hb
  · exact absurd (String.le_antisymm (String.not_lt.mp hb) (String.not_lt.mp h)) hne

theorem mem_insert {es : Entries} {name : String} {n : Node} {e : String × Node}
    (h : e ∈ Entries.insert name n es) : e = (name, n) ∨ e ∈ es := by
  induction es with
  | nil => simpa [Entries.insert] using h
  | cons d ds ih =>
    obtain ⟨k, m⟩ := d
    rw [Entries.insert] at h
    split at h
    · simpa using h
    · split at h
      · rcases List.mem_cons.mp h with h | h
        · exact Or.inl h
        · exact Or.inr (List.mem_cons_of_mem _ h)
      · rcases List.mem_cons.mp h with h | h
        · exact Or.inr (h ▸ List.mem_cons_self)
        · rcases ih h with h | h
          · exact Or.inl h
          · exact Or.inr (List.mem_cons_of_mem _ h)

theorem wellFormed_insert {es : Entries} (h : WellFormedEntries es) {name : String} {n : Node}
    (hname : isLegalName name = true) (hn : n.WellFormed) :
    WellFormedEntries (Entries.insert name n es) := by
  induction es with
  | nil => simp [Entries.insert, WellFormedEntries, hname, hn]
  | cons d ds ih =>
    obtain ⟨k, m⟩ := d
    simp only [WellFormedEntries] at h
    obtain ⟨hk, hm, hlt, hds⟩ := h
    rw [Entries.insert]
    split
    · rename_i hlt'
      refine ⟨hname, hn, ?_, hk, hm, hlt, hds⟩
      intro e he
      rcases List.mem_cons.mp he with he | he
      · exact he ▸ hlt'
      · exact String.lt_trans hlt' (hlt e he)
    · rename_i hnlt
      split
      · rename_i heq
        subst heq
        exact ⟨hname, hn, hlt, hds⟩
      · rename_i hne
        refine ⟨hk, hm, ?_, ih hds⟩
        intro e he
        rcases mem_insert he with he | he
        · exact he ▸ lt_of_not_lt_of_ne hnlt hne
        · exact hlt e he

theorem wellFormed_filter {es : Entries} (h : WellFormedEntries es) (p : String × Node → Bool) :
    WellFormedEntries (es.filter p) := by
  induction es with
  | nil => exact h
  | cons d ds ih =>
    obtain ⟨k, m⟩ := d
    simp only [WellFormedEntries] at h
    rw [List.filter_cons]
    split
    · exact ⟨h.1, h.2.1, fun e he => h.2.2.1 e (List.mem_filter.mp he).1, ih h.2.2.2⟩
    · exact ih h.2.2.2

/-- Putting a well-formed tree into a well-formed tree gives one. -/
theorem WellFormed.put {new : Node} (hnew : new.WellFormed) {n : Node} (h : n.WellFormed)
    (loc : Location) : (Node.put new n loc).WellFormed := by
  induction loc generalizing n with
  | nil => cases n <;> exact hnew
  | cons name rest ih =>
    cases n with
    | file f => exact h
    | link t => exact h
    | dir es =>
      simp only [WellFormed] at h
      simp only [Node.put]
      split
      · rename_i m hm
        obtain ⟨hmw, hname⟩ := wellFormed_of_get? h hm
        exact wellFormed_insert h hname (ih hmw)
      · split
        · rename_i hr
          exact wellFormed_insert h hr.2 hnew
        · exact h

/-- Taking away from a well-formed tree leaves one. -/
theorem WellFormed.erase {n : Node} (h : n.WellFormed) (loc : Location) :
    (n.erase loc).WellFormed := by
  induction loc generalizing n with
  | nil => cases n <;> exact h
  | cons name rest ih =>
    cases n with
    | file f => exact h
    | link t => exact h
    | dir es =>
      simp only [WellFormed] at h
      simp only [Node.erase]
      split
      · exact wellFormed_filter h _
      · split
        · rename_i m hm
          obtain ⟨hmw, hname⟩ := wellFormed_of_get? h hm
          exact wellFormed_insert h hname (ih hmw)
        · exact h

end Node
end ForwardDecl
