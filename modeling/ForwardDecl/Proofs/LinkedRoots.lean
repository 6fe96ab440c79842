import ForwardDecl.Proofs.Findings

/-! # Roots behind links

A scan lists the root by the path that it is given, and everything below by a path
that was joined to it.  Joining cleans a path without looking at the files, and takes
back a name in front of `..` even where the name is a link.  So the joined paths lead
below the root if its cleaned names lead where its path does (`FileSystem.Straight`),
whatever links are on the way to the root.  A root without `..` is always straight
(`FileSystem.straight_of_not_up`).
-/
namespace ForwardDecl

namespace Node
variable {root n : Node} {links : Nat} {loc loc' : Location} {xs ys : List String}

/-! ## Walking through links -/

/-- **A walk goes on from what its first names lead to**, with the links that are
left. -/
theorem walk_split (h : root.walk links loc (xs ++ ys) = .ok (.found loc' n)) :
    ∃ left mid m, root.walk links loc xs = .ok (.found mid m) ∧
      ∀ zs, root.walk links loc (xs ++ zs) = root.walk left mid zs := by
  fun_induction walk root links loc xs with
  | case1 links loc names hget =>
    rw [walk_lost hget] at h
    cases h
  | case2 links loc node hget => exact ⟨links, loc, node, rfl, fun _ => rfl⟩
  | case3 links loc es name rest hget hname ih =>
    rw [List.cons_append, walk_dot hget hname] at h
    obtain ⟨left, mid, m, hmid, hrest⟩ := ih h
    refine ⟨left, mid, m, hmid, fun zs => ?_⟩
    rw [List.cons_append, walk_dot hget hname, hrest]
  | case4 links loc es rest hget _ ih =>
    rw [List.cons_append, walk_up hget] at h
    obtain ⟨left, mid, m, hmid, hrest⟩ := ih h
    refine ⟨left, mid, m, hmid, fun zs => ?_⟩
    rw [List.cons_append, walk_up hget, hrest]
  | case5 links loc es name rest hget hdot hup hsize =>
    rw [List.cons_append, walk_too_long hget hdot hup hsize] at h
    cases h
  | case6 links loc es name hget hdot hup hsize hnone =>
    rw [List.cons_append, walk_absent hget hdot hup (Nat.not_lt.mp hsize) hnone] at h
    split at h <;> cases h
  | case7 links loc es name rest hget hdot hup hsize hnone hrest =>
    rw [List.cons_append, walk_absent hget hdot hup (Nat.not_lt.mp hsize) hnone] at h
    split at h <;> cases h
  | case8 loc es name rest hget hdot hup hsize target hlink =>
    rw [List.cons_append, walk_loop hget hdot hup (Nat.not_lt.mp hsize) hlink] at h
    cases h
  | case9 loc es name rest hget hdot hup hsize target hlink left ih =>
    have hstep : ∀ zs, root.walk (left + 1) loc (name :: rest ++ zs) = root.walk left
        (if Path.isAbsolute target then [] else loc) (Path.segments target ++ rest ++ zs) := by
      intro zs
      rw [List.cons_append, walk_follow hget hdot hup (Nat.not_lt.mp hsize) hlink,
        List.append_assoc]
    simp only [dite_eq_ite] at ih
    rw [hstep] at h
    obtain ⟨left', mid, m, hmid, hrest⟩ := ih h
    exact ⟨left', mid, m, hmid, fun zs => by rw [hstep, hrest]⟩
  | case10 links loc es name rest hget hdot hup hsize val hnolink hval ih =>
    have hstep : ∀ zs, root.walk links loc (name :: rest ++ zs) =
        root.walk links (loc ++ [name]) (rest ++ zs) := fun zs =>
      walk_down hget hdot hup (Nat.not_lt.mp hsize) hval hnolink (rest ++ zs)
    rw [hstep] at h
    obtain ⟨left, mid, m, hmid, hrest⟩ := ih h
    exact ⟨left, mid, m, hmid, fun zs => by rw [hstep, hrest]⟩
  | case11 links loc val name rest hnodir hget =>
    rw [List.cons_append, walk.eq_4 _ _ _ _ _ _ hget hnodir] at h
    cases h

/-- Names of entries lead down to a directory, whatever links are elsewhere. -/
theorem walk_to_dir {ds : Entries} (hw : root.WellFormed) (links : Nat)
    (h : root.get? (loc ++ xs) = some (dir ds)) (ys : List String) :
    root.walk links loc (xs ++ ys) = root.walk links (loc ++ xs) ys := by
  induction xs generalizing loc with
  | nil => rw [List.append_nil, List.nil_append]
  | cons name xs ih =>
    have hlegal := (hw.of_get? h).2 name (by simp)
    rw [List.append_cons] at h ⊢
    have hnext := h
    rw [get?_append] at hnext
    obtain ⟨m, hm, hbelow⟩ := Option.bind_eq_some_iff.mp hnext
    obtain ⟨es, hes, hentry⟩ := dir_of_get?_snoc hm
    rw [List.cons_append, walk_entry hes hlegal hentry, ih h]
    -- a link has no names below it, and is no directory itself
    rintro target rfl
    cases xs <;> cases hbelow

/-- Names that lead nowhere else can be left out. -/
theorem walk_filter (hup : ".." ∉ xs) (h : root.walk links loc xs = .ok (.found loc' n)) :
    root.walk links loc (xs.filter fun name => ¬(name = "" ∨ name = ".")) =
      .ok (.found loc' n) := by
  induction xs generalizing links loc with
  | nil => exact h
  | cons name xs ih =>
    have hxs : ".." ∉ xs := fun hmem => hup (List.mem_cons_of_mem _ hmem)
    by_cases hdot : name = "" ∨ name = "."
    · rw [List.filter_cons_of_neg (by rw [decide_eq_true_eq]; exact absurd hdot)]
      refine ih hxs ?_
      cases hget : root.get? loc with
      | none =>
        rw [walk_lost hget] at h
        cases h
      | some d =>
        cases d with
        | dir es => rwa [walk_dot hget hdot] at h
        | file f => rw [walk_not_dir hget rfl] at h; cases h
        | link t => rw [walk_not_dir hget rfl] at h; cases h
    · rw [List.filter_cons_of_pos (by rw [decide_eq_true_eq]; exact hdot)]
      have hfirst : root.walk links loc ([name] ++ xs) = .ok (.found loc' n) := h
      obtain ⟨left, mid, m, -, hrest⟩ := walk_split hfirst
      rw [hrest] at hfirst
      have hfiltered := ih hxs hfirst
      rwa [← hrest, List.singleton_append] at hfiltered

end Node

/-- Without `..` there is nothing to take back. -/
theorem Path.cleanSegments_of_not_up {path : String} (hup : ".." ∉ segments path) :
    cleanSegments path = (segments path).filter fun name => ¬(name = "" ∨ name = ".") := by
  have hfold : ∀ names done : List String, ".." ∉ names →
      names.foldl (cleanStep (isAbsolute path)) done =
        (names.filter fun name => ¬(name = "" ∨ name = ".")).reverse ++ done := by
    intro names
    induction names with
    | nil => exact fun _ _ => rfl
    | cons name names ih =>
      intro done hup
      have hname : name ≠ ".." := fun h => hup (h ▸ List.mem_cons_self)
      rw [List.foldl_cons, ih _ fun hmem => hup (List.mem_cons_of_mem _ hmem)]
      by_cases hdot : name = "" ∨ name = "."
      · rw [cleanStep_dot hdot,
          List.filter_cons_of_neg (by rw [decide_eq_true_eq]; exact absurd hdot)]
      · rw [cleanStep_name hdot hname,
          List.filter_cons_of_pos (by rw [decide_eq_true_eq]; exact hdot), List.reverse_cons,
          List.append_assoc]
        rfl
  rw [cleanSegments, hfold _ _ hup, List.append_nil, List.reverse_reverse]

namespace FileSystem
variable {fs : FileSystem} {root : String} {L : Location} {es : Entries}

/-! ## Paths from the working directory -/

theorem locate_relative {path : String} {names : List String}
    (hpath : pathFault? path = none ∧ Path.isAbsolute path = false ∧ Path.segments path = names) :
    fs.locate path = fs.root.walk maxLinks fs.cwd names := by
  rw [locate_eq_follow hpath.1, follow, hpath.2.1, hpath.2.2, if_neg Bool.false_ne_true]

/-- A path that begins with a link to a directory goes on from there. -/
theorem locate_through_link {path name target : String} {names rest : List String} {ds : Entries}
    (hpath : pathFault? path = none ∧ Path.isAbsolute path = false ∧
      Path.segments path = name :: rest)
    (hcwd : fs.root.get? fs.cwd = some (.dir es)) (hlegal : isLegalName name = true)
    (hlink : Entries.get? es name = some (.link target))
    (htarget : Path.isAbsolute target = false ∧ Path.segments target = names)
    (hdir : fs.root.get? (fs.cwd ++ names) = some (.dir ds)) :
    fs.locate path = fs.root.walk (maxLinks - 1) (fs.cwd ++ names) rest := by
  rw [locate_relative hpath, show maxLinks = maxLinks - 1 + 1 from rfl,
    Node.walk_link hcwd hlegal hlink htarget.1, htarget.2,
    Node.walk_to_dir fs.wellFormed _ hdir]
  rfl

/-! ## Straight roots -/

/-- If a path leads to a directory, then its cleaned names do, too. -/
def Straight (fs : FileSystem) (root : String) : Prop :=
  ∀ L es, fs.locate root = .ok (.found L (.dir es)) →
    fs.follow (Path.isAbsolute root) (Path.cleanSegments root) = .ok (.found L (.dir es))

theorem straight_of_not_up (hup : ".." ∉ Path.segments root) : fs.Straight root := by
  intro L es hlocate
  rw [locate] at hlocate
  split at hlocate
  · cases hlocate
  · rw [Path.cleanSegments_of_not_up hup]
    exact Node.walk_filter hup hlocate

/-- Without links a path leads where its cleaned names do. -/
theorem straight_of_linkFree (hlf : fs.root.linkFree = true) (root : String) :
    fs.Straight root := by
  intro L es hlocate
  have hway := (leads_of_locate hlf hlocate).cleaned
  exact (Node.walk_eq_found_iff hlf).mpr ⟨hway, get?_of_locate hlocate⟩

theorem ne_empty_of_locate {t : Target} (h : fs.locate root = .ok t) : root ≠ "" := by
  rintro rfl
  cases pathFault?_of_locate h

/-- **The joined paths below a straight root lead to its directories**, whatever links
are on the way to the root. -/
theorem Straight.reaches (hs : fs.Straight root)
    (hroot : fs.locate root = .ok (.found L (.dir es))) : fs.Reaches root L := by
  have hempty := ne_empty_of_locate hroot
  refine ⟨hempty, fun names ds hds => ?_⟩
  cases hfault : pathFault? (Path.below root names) with
  | some fault => exact locate_of_fault hfault
  | none =>
    by_cases hne : names = []
    · subst hne
      rw [List.append_nil] at hds ⊢
      obtain rfl := Node.dir.inj (Option.some.inj ((get?_of_locate hroot).symm.trans hds))
      exact hroot
    · have hl : ∀ name ∈ names, isLegalName name = true := fun name hname =>
        (fs.wellFormed.of_get? hds).2 name (List.mem_append_right _ hname)
      have hcat : Path.cleanSegments root ++ names ≠ [] :=
        List.append_ne_nil_of_right_ne_nil _ hne
      -- the walk goes on from the root with the links that are left, and meets none
      have hclean := hs L es hroot
      rw [follow, ← List.append_nil (Path.cleanSegments root)] at hclean
      obtain ⟨left, mid, m, hmid, hrest⟩ := Node.walk_split hclean
      rw [hrest, Node.walk_nil (Node.get?_of_walk hmid)] at hclean
      obtain ⟨rfl, -⟩ := Target.found.inj (Except.ok.inj hclean)
      rw [locate_eq_follow hfault, Path.below_of_ne hne, Path.isAbsolute_join hempty hne hl,
        Path.segments_join hempty hne hl, ← Node.walk_nil hds,
        ← Node.walk_to_dir fs.wellFormed left hds, List.append_nil, ← hrest, follow]
      cases Path.isAbsolute root with
      | true => exact Node.walk_empty_cons hcat
      | false => rfl

end FileSystem
end ForwardDecl
