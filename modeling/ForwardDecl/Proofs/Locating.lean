import ForwardDecl.Proofs.Paths
import ForwardDecl.Proofs.Trees

/-! # Where paths lead

What a path leads to depends on the files only through the shape of the tree: two
file systems of the same shape lead every path to the same location
(`FileSystem.locate_of_shape`).  Writing to a file keeps the shape, so that
nothing that is written to files redirects a path.

In a tree without links a path and its cleaned form lead to the same location
(`Node.walk_cleaned`), and so names that are joined to a path lead on from where
the path does (`FileSystem.Leads.below`).
-/
namespace ForwardDecl

/-! ## Walking -/

/-- The same target in a tree with other files. -/
def Target.mapFiles (g : File → File) : Target → Target
  | .found loc n => .found loc (n.mapFiles g)
  | .absent loc => .absent loc

namespace Node
variable {root n m : Node} {es : Entries} {links : Nat} {loc loc' : Location} {name : String}
  {names rest : List String}

/-- From a location that is not there nothing is found. -/
theorem walk_lost (h : root.get? loc = none) (names : List String) :
    root.walk links loc names = .error .missing :=
  walk.eq_1 _ _ _ _ h

/-- Without names the walk is over. -/
theorem walk_nil (h : root.get? loc = some n) : root.walk links loc [] = .ok (.found loc n) :=
  walk.eq_2 _ _ _ _ h

/-- Nothing leads on from what is no directory. -/
theorem walk_not_dir (h : root.get? loc = some n) (hn : n.isDir = false) (name : String)
    (rest : List String) : root.walk links loc (name :: rest) = .error .notDirectory := by
  refine walk.eq_4 _ _ _ _ _ _ h ?_
  rintro es rfl
  cases hn

theorem walk_dot (h : root.get? loc = some (dir es)) (hname : name = "" ∨ name = ".")
    (rest : List String) : root.walk links loc (name :: rest) = root.walk links loc rest := by
  rw [walk.eq_3 root links loc es name rest h, if_pos hname]

theorem walk_up (h : root.get? loc = some (dir es)) (rest : List String) :
    root.walk links loc (".." :: rest) = root.walk links loc.dropLast rest := by
  rw [walk.eq_3 root links loc es ".." rest h, if_neg (by decide), if_pos rfl]

theorem walk_too_long (h : root.get? loc = some (dir es)) (hdot : ¬(name = "" ∨ name = "."))
    (hup : name ≠ "..") (hsize : maxNameSize < name.utf8ByteSize) (rest : List String) :
    root.walk links loc (name :: rest) = .error .tooLong := by
  rw [walk.eq_3 root links loc es name rest h, if_neg hdot, if_neg hup, if_pos hsize]

section Entry
variable (h : root.get? loc = some (dir es)) (hdot : ¬(name = "" ∨ name = ".")) (hup : name ≠ "..")
  (hsize : name.utf8ByteSize ≤ maxNameSize)
include h hdot hup hsize

/-- A name without an entry leads to a free place, and nothing is below it. -/
theorem walk_absent (hm : Entries.get? es name = none) (rest : List String) :
    root.walk links loc (name :: rest) =
      if rest = [] then .ok (.absent (loc ++ [name])) else .error .missing := by
  rw [walk.eq_3 root links loc es name rest h, if_neg hdot, if_neg hup,
    if_neg (Nat.not_lt.mpr hsize), hm]

theorem walk_loop {target : String} (hm : Entries.get? es name = some (link target))
    (rest : List String) : root.walk 0 loc (name :: rest) = .error .linkLoop := by
  rw [walk.eq_3 root 0 loc es name rest h, if_neg hdot, if_neg hup,
    if_neg (Nat.not_lt.mpr hsize), hm]

/-- The names of a link's target come before the rest, and one link is used up. -/
theorem walk_follow {target : String} (hm : Entries.get? es name = some (link target))
    (rest : List String) : root.walk (links + 1) loc (name :: rest) =
      root.walk links (if Path.isAbsolute target then [] else loc)
        (Path.segments target ++ rest) := by
  rw [walk.eq_3 root (links + 1) loc es name rest h, if_neg hdot, if_neg hup,
    if_neg (Nat.not_lt.mpr hsize), hm]

/-- A name leads to its entry. -/
theorem walk_down (hm : Entries.get? es name = some m) (hlink : ∀ target, m ≠ link target)
    (rest : List String) :
    root.walk links loc (name :: rest) = root.walk links (loc ++ [name]) rest := by
  rw [walk.eq_3 root links loc es name rest h, if_neg hdot, if_neg hup,
    if_neg (Nat.not_lt.mpr hsize), hm]
  cases m with
  | file f => rfl
  | dir ds => rfl
  | link t => exact absurd rfl (hlink t)

end Entry

section Legal
variable (h : root.get? loc = some (dir es)) (hlegal : isLegalName name = true)
include h hlegal

theorem walk_free (hm : Entries.get? es name = none) (rest : List String) :
    root.walk links loc (name :: rest) =
      if rest = [] then .ok (.absent (loc ++ [name])) else .error .missing := by
  obtain ⟨hdot, hup, hsize⟩ := Path.ne_of_isLegalName hlegal
  exact walk_absent h hdot hup hsize hm rest

theorem walk_entry (hm : Entries.get? es name = some m) (hlink : ∀ target, m ≠ link target)
    (rest : List String) :
    root.walk links loc (name :: rest) = root.walk links (loc ++ [name]) rest := by
  obtain ⟨hdot, hup, hsize⟩ := Path.ne_of_isLegalName hlegal
  exact walk_down h hdot hup hsize hm hlink rest

/-- A link is followed from where it is. -/
theorem walk_link {target : String} (hm : Entries.get? es name = some (link target))
    (hrelative : Path.isAbsolute target = false) (rest : List String) :
    root.walk (links + 1) loc (name :: rest) =
      root.walk links loc (Path.segments target ++ rest) := by
  obtain ⟨hdot, hup, hsize⟩ := Path.ne_of_isLegalName hlegal
  rw [walk_follow h hdot hup hsize hm, hrelative, if_neg Bool.false_ne_true]

end Legal

theorem ne_link_of_linkFree (h : m.linkFree = true) (target : String) : m ≠ link target := by
  rintro rfl
  cases h

/-- The names lead from one location to another, step by step, and to no link. -/
inductive Way (root : Node) : Location → List String → Location → Prop
  | here {loc : Location} {n : Node} (h : root.get? loc = some n) : Way root loc [] loc
  | dot {loc loc' : Location} {es : Entries} {name : String} {rest : List String}
      (h : root.get? loc = some (dir es)) (hname : name = "" ∨ name = ".")
      (hw : Way root loc rest loc') : Way root loc (name :: rest) loc'
  | up {loc loc' : Location} {es : Entries} {rest : List String}
      (h : root.get? loc = some (dir es)) (hw : Way root loc.dropLast rest loc') :
      Way root loc (".." :: rest) loc'
  | down {loc loc' : Location} {es : Entries} {name : String} {rest : List String} {m : Node}
      (h : root.get? loc = some (dir es)) (hdot : ¬(name = "" ∨ name = ".")) (hup : name ≠ "..")
      (hsize : name.utf8ByteSize ≤ maxNameSize) (hm : Entries.get? es name = some m)
      (hw : Way root (loc ++ [name]) rest loc') : Way root loc (name :: rest) loc'

/-- In front of other names an empty one says nothing. -/
theorem walk_empty_cons (hne : rest ≠ []) :
    root.walk links loc ("" :: rest) = root.walk links loc rest := by
  cases hget : root.get? loc with
  | none => rw [walk_lost hget, walk_lost hget]
  | some d =>
    obtain ⟨name, later, rfl⟩ := List.exists_cons_of_ne_nil hne
    cases d with
    | dir es => exact walk_dot hget (Or.inl rfl) _
    | file f => rw [walk_not_dir hget rfl, walk_not_dir hget rfl]
    | link t => rw [walk_not_dir hget rfl, walk_not_dir hget rfl]

/-- What is found is there. -/
theorem get?_of_walk (h : root.walk links loc names = .ok (.found loc' n)) :
    root.get? loc' = some n := by
  fun_induction walk root links loc names with
  | case2 links loc node hget =>
    obtain ⟨rfl, rfl⟩ := Target.found.inj (Except.ok.inj h)
    exact hget
  | case3 _ _ _ _ _ _ _ ih => exact ih h
  | case4 _ _ _ _ _ _ ih => exact ih h
  | case9 _ _ _ _ _ _ _ _ _ _ _ ih =>
    simp only [dite_eq_ite] at ih
    exact ih h
  | case10 _ _ _ _ _ _ _ _ _ _ _ _ ih => exact ih h
  | _ => cases h

/-- **A walk in a tree with other files takes the same way.** -/
theorem walk_mapFiles (g : File → File) (root : Node) (links : Nat) (loc : Location)
    (names : List String) : (root.mapFiles g).walk links loc names =
      (root.walk links loc names).map (Target.mapFiles g) := by
  have hdir : ∀ {loc es}, root.get? loc = some (dir es) →
      (root.mapFiles g).get? loc = some (dir (mapEntries g es)) := by
    intro loc es h
    rw [get?_mapFiles, h]
    rfl
  have hentry : ∀ {es : Entries} {name o}, Entries.get? es name = o →
      Entries.get? (mapEntries g es) name = o.map (Node.mapFiles g) := by
    intro es name o h
    rw [get?_mapEntries, h]
  -- each step depends on names, directories and links, and all of these stay
  fun_induction walk root links loc names with
  | case1 links loc names hget =>
    rw [walk_lost (by rw [get?_mapFiles, hget]; rfl)]
    rfl
  | case2 links loc node hget =>
    rw [walk_nil (by rw [get?_mapFiles, hget]; rfl)]
    rfl
  | case3 links loc es name rest hget hname ih =>
    rw [walk_dot (hdir hget) hname, ih]
  | case4 links loc es rest hget _ ih =>
    rw [walk_up (hdir hget), ih]
  | case5 links loc es name rest hget hdot hup hsize =>
    rw [walk_too_long (hdir hget) hdot hup hsize]
    rfl
  | case6 links loc es name hget hdot hup hsize hnone =>
    rw [walk_absent (hdir hget) hdot hup (Nat.not_lt.mp hsize) (hentry hnone)]
    rfl
  | case7 links loc es name rest hget hdot hup hsize hnone hrest =>
    rw [walk_absent (hdir hget) hdot hup (Nat.not_lt.mp hsize) (hentry hnone)]
    exact if_neg hrest
  | case8 loc es name rest hget hdot hup hsize target hlink =>
    rw [walk_loop (hdir hget) hdot hup (Nat.not_lt.mp hsize) (hentry hlink)]
    rfl
  | case9 loc es name rest hget hdot hup hsize target hlink left ih =>
    simp only [dite_eq_ite] at ih
    rw [walk_follow (hdir hget) hdot hup (Nat.not_lt.mp hsize) (hentry hlink)]
    exact ih
  | case10 links loc es name rest hget hdot hup hsize val hnolink hval ih =>
    rw [walk_down (hdir hget) hdot hup (Nat.not_lt.mp hsize) (hentry hval), ih]
    intro target heq
    cases val with
    | link t => exact hnolink t rfl
    | file f => cases heq
    | dir ds => cases heq
  | case11 links loc val name rest hnodir hget =>
    have hget' : (root.mapFiles g).get? loc = some (val.mapFiles g) := by
      rw [get?_mapFiles, hget]
      rfl
    refine walk.eq_4 _ _ _ _ _ _ hget' fun ds hds => ?_
    cases val with
    | file f => cases hds
    | link t => cases hds
    | dir es => exact hnodir es rfl

/-! ## Walking in a tree without links -/

namespace Way

theorem start (h : Way root loc names loc') : ∃ n, root.get? loc = some n := by
  cases h with
  | here h => exact ⟨_, h⟩
  | dot h _ _ => exact ⟨_, h⟩
  | up h _ => exact ⟨_, h⟩
  | down h _ _ _ _ _ => exact ⟨_, h⟩

theorem append {mid : Location} (h : Way root loc names mid) (h' : Way root mid rest loc') :
    Way root loc (names ++ rest) loc' := by
  induction h with
  | here _ => exact h'
  | dot h hname _ ih => exact .dot h hname (ih h')
  | up h _ ih => exact .up h (ih h')
  | down h hdot hup hsize hm _ ih => exact .down h hdot hup hsize hm (ih h')

theorem split (h : Way root loc (names ++ rest) loc') :
    ∃ mid, Way root loc names mid ∧ Way root mid rest loc' := by
  induction names generalizing loc with
  | nil =>
    obtain ⟨n, hn⟩ := h.start
    exact ⟨loc, .here hn, h⟩
  | cons name names ih =>
    cases h with
    | dot h hname hw =>
      obtain ⟨mid, hmid, hrest⟩ := ih hw
      exact ⟨mid, .dot h hname hmid, hrest⟩
    | up h hw =>
      obtain ⟨mid, hmid, hrest⟩ := ih hw
      exact ⟨mid, .up h hmid, hrest⟩
    | down h hdot hup hsize hm hw =>
      obtain ⟨mid, hmid, hrest⟩ := ih hw
      exact ⟨mid, .down h hdot hup hsize hm hmid, hrest⟩

/-- A last name that is neither `.` nor `..` is the last one of the location. -/
theorem eq_snoc {mid : Location} (h : Way root mid [name] loc') (hdot : ¬(name = "" ∨ name = "."))
    (hup : name ≠ "..") : loc' = mid ++ [name] := by
  cases h with
  | dot _ hname _ => exact absurd hname hdot
  | up _ _ => exact absurd rfl hup
  | down _ _ _ _ _ hw =>
    cases hw
    rfl

/-- The way is still there when nothing was taken away. -/
theorem mono {root' : Node} (h : Way root loc names loc')
    (hkeep : ∀ loc n, root.at? loc = some n → ∃ n', root'.at? loc = some n' ∧
      (n = dir [] → n' = dir [])) : Way root' loc names loc' := by
  have hdir : ∀ {loc es}, root.get? loc = some (dir es) →
      ∃ es', root'.get? loc = some (dir es') := by
    intro loc es hes
    obtain ⟨n', hn', hd⟩ := hkeep loc _ (at?_eq_dir_iff.mpr ⟨es, hes⟩)
    obtain rfl := hd rfl
    exact at?_eq_dir_iff.mp hn'
  have hsome : ∀ {loc n}, root.get? loc = some n → ∃ n', root'.get? loc = some n' := by
    intro loc n hn
    obtain ⟨n', hn', -⟩ := hkeep loc n.bare (by rw [at?, hn]; rfl)
    obtain ⟨m, hm, -⟩ := Option.map_eq_some_iff.mp hn'
    exact ⟨m, hm⟩
  induction h with
  | here h =>
    obtain ⟨n', hn'⟩ := hsome h
    exact .here hn'
  | dot h hname _ ih =>
    obtain ⟨es', hes'⟩ := hdir h
    exact .dot hes' hname ih
  | up h _ ih =>
    obtain ⟨es', hes'⟩ := hdir h
    exact .up hes' ih
  | down h hdot hup hsize hm _ ih =>
    obtain ⟨es', hes'⟩ := hdir h
    obtain ⟨m', hm'⟩ := hsome ((get?_snoc h _).trans hm)
    exact .down hes' hdot hup hsize ((get?_snoc hes' _).symm.trans hm') ih

/-- Names of entries lead to them. -/
theorem of_get? (hw : root.WellFormed) (h : root.get? (loc ++ names) = some n) :
    Way root loc names (loc ++ names) := by
  induction names generalizing loc with
  | nil =>
    rw [List.append_nil] at h ⊢
    exact .here h
  | cons name names ih =>
    have hlegal := (hw.of_get? h).2 name (by simp)
    obtain ⟨hdot, hup, hsize⟩ := Path.ne_of_isLegalName hlegal
    rw [List.append_cons] at h ⊢
    have hnext := h
    rw [get?_append] at hnext
    obtain ⟨m, hm, -⟩ := Option.bind_eq_some_iff.mp hnext
    obtain ⟨es, hes, hentry⟩ := dir_of_get?_snoc hm
    exact .down hes hdot hup hsize hentry (ih h)

end Way

/-- **In a tree without links, a walk finds what its names lead to.** -/
theorem walk_eq_found_iff (hlf : root.linkFree = true) :
    root.walk links loc names = .ok (.found loc' n) ↔
      Way root loc names loc' ∧ root.get? loc' = some n := by
  constructor
  · intro h
    refine ⟨?_, get?_of_walk h⟩
    fun_induction walk root links loc names with
    | case2 links loc node hget =>
      obtain ⟨rfl, rfl⟩ := Target.found.inj (Except.ok.inj h)
      exact .here hget
    | case3 _ _ _ _ _ hget hname ih => exact .dot hget hname (ih h)
    | case4 _ _ _ _ hget _ ih => exact .up hget (ih h)
    | case9 loc es name rest hget _ _ _ target hlink _ _ =>
      -- no entry is a link that the walk could follow
      have hentry :=
        linkFreeEntries_iff.mp (linkFree_of_get? hlf hget) _ (Entries.mem_of_get? hlink)
      cases hentry
    | case10 _ _ _ _ _ hget hdot hup hsize _ _ hm ih =>
      exact .down hget hdot hup (Nat.not_lt.mp hsize) hm (ih h)
    | _ => cases h
  · rintro ⟨hw, hn⟩
    induction hw with
    | here h =>
      rw [walk_nil h]
      obtain rfl := Option.some.inj (h.symm.trans hn)
      rfl
    | dot h hname _ ih => rw [walk_dot h hname, ih hn]
    | up h _ ih => rw [walk_up h, ih hn]
    | down h hdot hup hsize hm _ ih =>
      have hmlf := linkFreeEntries_iff.mp (linkFree_of_get? hlf h) _ (Entries.mem_of_get? hm)
      rw [walk_down h hdot hup hsize hm (ne_link_of_linkFree hmlf), ih hn]

/-- A walk goes on from what its first names lead to. -/
theorem walk_append (hlf : root.linkFree = true) {mid : Location} (h : Way root loc names mid) :
    root.walk links loc (names ++ rest) = root.walk links mid rest := by
  induction h with
  | here _ => rfl
  | dot h hname _ ih => rw [List.cons_append, walk_dot h hname, ih]
  | up h _ ih => rw [List.cons_append, walk_up h, ih]
  | down h hdot hup hsize hm _ ih =>
    have hmlf := linkFreeEntries_iff.mp (linkFree_of_get? hlf h) _ (Entries.mem_of_get? hm)
    rw [List.cons_append, walk_down h hdot hup hsize hm (ne_link_of_linkFree hmlf), ih]

/-- **Cleaned names lead where the names do.**  The cleaned names so far, `done`,
lead to where the names so far do. -/
theorem Way.cleaned {rooted : Bool} {start : Location} (hroot : rooted = true → start = [])
    {done : List String} {mid : Location} (ht : Path.Taken rooted done)
    (hd : Way root start done.reverse mid) (h : Way root mid names loc') :
    Way root start (names.foldl (Path.cleanStep rooted) done).reverse loc' := by
  induction names generalizing done mid with
  | nil =>
    cases h
    exact hd
  | cons name names ih =>
    have htake := ht.cleanStep name
    rw [List.foldl_cons]
    cases h with
    | dot hget hname hw =>
      rw [Path.cleanStep_dot hname]
      exact ih ht hd hw
    | down hget hdot hup hsize hm hw =>
      rw [Path.cleanStep_name hdot hup] at htake ⊢
      obtain ⟨n, hn⟩ := hw.start
      refine ih htake ?_ hw
      rw [List.reverse_cons]
      exact hd.append (.down hget hdot hup hsize hm (.here hn))
    | up hget hw =>
      obtain ⟨n, hn⟩ := hw.start
      have hone : Way root mid [".."] mid.dropLast := .up hget (.here hn)
      cases done with
      | nil =>
        cases hd
        cases rooted with
        | true =>
          obtain rfl := hroot rfl
          exact ih trivial (.here hn) hw
        | false => exact ih htake hone hw
      | cons last done =>
        by_cases hlast : last = ".."
        · rw [Path.cleanStep_up, if_pos hlast] at htake ⊢
          refine ih htake ?_ hw
          rw [List.reverse_cons]
          exact hd.append hone
        · -- the last name is taken back, and so is the step that it led
          rw [Path.cleanStep_up, if_neg hlast]
          rw [List.reverse_cons] at hd
          obtain ⟨before, hbefore, hstep⟩ := hd.split
          obtain rfl := hstep.eq_snoc ht.not_dot hlast
          rw [List.dropLast_concat] at hw
          exact ih ht.1 hbefore hw

end Node

/-! ## Other files in the same places -/

namespace FileSystem
variable {fs fs' : FileSystem} {path : String} {loc : Location} {n : Node}

@[ext] theorem ext (hroot : fs.root = fs'.root) (hcwd : fs.cwd = fs'.cwd) (hnow : fs.now = fs'.now) :
    fs = fs' := by
  obtain ⟨root, cwd, now, hw⟩ := fs
  obtain ⟨root', cwd', now', hw'⟩ := fs'
  obtain rfl : root = root' := hroot
  obtain rfl : cwd = cwd' := hcwd
  obtain rfl : now = now' := hnow
  rfl

/-- The file system with other files in the places of its files. -/
def mapFiles (g : File → File) (fs : FileSystem) : FileSystem :=
  ⟨fs.root.mapFiles g, fs.cwd, fs.now, fs.wellFormed.mapFiles g⟩

/-- The file system with all files blank: where everything is, but not what is
in it. -/
def shape (fs : FileSystem) : FileSystem :=
  fs.mapFiles fun _ => ⟨ByteArray.empty, 0, 0, 0⟩

/-- The file system as if no file had ever been read. -/
def unread (fs : FileSystem) : FileSystem :=
  fs.mapFiles fun f => { f with accessed := 0 }

theorem linkFree_of_shape (h : fs.shape = fs'.shape) (hlf : fs.root.linkFree = true) :
    fs'.root.linkFree = true := by
  have hroot : fs.shape.root.linkFree = fs'.shape.root.linkFree := by rw [h]
  rw [shape, mapFiles, shape, mapFiles, Node.linkFree_mapFiles, Node.linkFree_mapFiles] at hroot
  rw [← hroot, hlf]

theorem locate_mapFiles (g : File → File) (fs : FileSystem) (path : String) :
    (fs.mapFiles g).locate path = (fs.locate path).map (Target.mapFiles g) := by
  rw [locate, locate]
  cases pathFault? path with
  | some fault => rfl
  | none => exact Node.walk_mapFiles g fs.root maxLinks _ _

theorem get?_of_locate (h : fs.locate path = .ok (.found loc n)) : fs.root.get? loc = some n := by
  rw [locate] at h
  split at h
  · cases h
  · exact Node.get?_of_walk h

theorem locate_of_fault {fault : FileFault} (h : pathFault? path = some fault) :
    fs.locate path = .error fault := by
  rw [locate, h]

theorem pathFault?_of_locate {target : Target} (h : fs.locate path = .ok target) :
    pathFault? path = none := by
  rw [locate] at h
  split at h
  · cases h
  · assumption

theorem locate_eq_follow (h : pathFault? path = none) :
    fs.locate path = fs.follow (Path.isAbsolute path) (Path.segments path) := by
  rw [locate, h]

/-- The names of what is below the working directory lead to it. -/
theorem locate_of_get? (hlf : fs.root.linkFree = true) (path : String) (names : List String)
    (hpath : pathFault? path = none ∧ Path.isAbsolute path = false ∧ Path.segments path = names)
    (h : fs.root.get? (fs.cwd ++ names) = some n) :
    fs.locate path = .ok (.found (fs.cwd ++ names) n) := by
  obtain ⟨hfault, hrel, hnames⟩ := hpath
  rw [locate_eq_follow hfault, hrel, hnames]
  exact (Node.walk_eq_found_iff hlf).mpr ⟨.of_get? fs.wellFormed h, h⟩

theorem list_mapFiles (g : File → File) (fs : FileSystem) (path : String) :
    (fs.mapFiles g).list path = (fs.list path).map (Node.mapEntries g) := by
  rw [list, list, locate_mapFiles]
  cases fs.locate path with
  | error fault => rfl
  | ok target =>
    cases target with
    | absent loc => rfl
    | found loc n => cases n <;> rfl

/-- **Files do not redirect paths.**  A path that leads to a file leads to a file
at the same location in every file system of the same shape. -/
theorem locate_of_shape {f : File} (h : fs.shape = fs'.shape)
    (hf : fs.locate path = .ok (.found loc (.file f))) :
    ∃ f', fs'.locate path = .ok (.found loc (.file f')) := by
  have hboth : fs.shape.locate path = fs'.shape.locate path := by rw [h]
  rw [shape, shape, locate_mapFiles, locate_mapFiles, hf] at hboth
  cases hloc : fs'.locate path with
  | error fault =>
    rw [hloc] at hboth
    cases hboth
  | ok target =>
    rw [hloc] at hboth
    have htarget := Except.ok.inj hboth
    cases target with
    | absent loc' => cases htarget
    | found loc' n' =>
      obtain ⟨rfl, hn⟩ := Target.found.inj htarget
      cases n' with
      | file f' => exact ⟨f', rfl⟩
      | link t => cases hn
      | dir es => cases hn

/-- A path that leads to a directory leads to a directory at the same location in
every file system of the same shape. -/
theorem locate_dir_of_shape {es : Entries} (h : fs.shape = fs'.shape)
    (hd : fs.locate path = .ok (.found loc (.dir es))) :
    ∃ es', fs'.locate path = .ok (.found loc (.dir es')) := by
  have hboth : fs.shape.locate path = fs'.shape.locate path := by rw [h]
  rw [shape, shape, locate_mapFiles, locate_mapFiles, hd] at hboth
  cases hloc : fs'.locate path with
  | error fault =>
    rw [hloc] at hboth
    cases hboth
  | ok target =>
    rw [hloc] at hboth
    have htarget := Except.ok.inj hboth
    cases target with
    | absent loc' => cases htarget
    | found loc' n' =>
      obtain ⟨rfl, hn⟩ := Target.found.inj htarget
      cases n' with
      | file f' => cases hn
      | link t => cases hn
      | dir es' => exact ⟨es', rfl⟩

/-! ## Putting files -/

/-- What stands at a location, without what is below it. -/
def at? (fs : FileSystem) (loc : Location) : Option Node := fs.root.at? loc

theorem at?_unread (fs : FileSystem) (loc : Location) : fs.unread.at? loc =
    (fs.at? loc).map (Node.mapFiles fun f => { f with accessed := 0 }) :=
  Node.at?_mapFiles _ fs.root loc

section
variable {f g : File}

theorem at?_putFile (h : fs.at? loc = some (.file f)) (g : File) (loc' : Location) :
    (fs.putFile loc g).at? loc' = if loc' = loc then some (.file g) else fs.at? loc' :=
  Node.at?_put (Node.leaf_file g) (Node.room_of_file (Node.at?_eq_file_iff.mp h)) loc'

theorem putFile_putFile (fs : FileSystem) (loc : Location) (f g : File) :
    (fs.putFile loc f).putFile loc g = fs.putFile loc g :=
  ext (Node.put_put (.file g) (.file f) fs.root loc) rfl rfl

/-- A view of the files that does not tell two files apart does not see one in the
place of the other. -/
theorem mapFiles_putFile (v : File → File) (h : fs.at? loc = some (.file f)) (hv : v g = v f) :
    (fs.putFile loc g).mapFiles v = fs.mapFiles v := by
  have hget : (fs.root.mapFiles v).get? loc = some (.file (v f)) := by
    rw [Node.get?_mapFiles, Node.at?_eq_file_iff.mp h]
    rfl
  refine ext ?_ rfl rfl
  show (Node.put (.file g) fs.root loc).mapFiles v = fs.root.mapFiles v
  rw [Node.mapFiles_put, Node.mapFiles, hv]
  exact Node.put_self (fs.wellFormed.mapFiles v) hget

theorem shape_putFile (h : fs.at? loc = some (.file f)) (g : File) :
    (fs.putFile loc g).shape = fs.shape := mapFiles_putFile _ h rfl

theorem unread_putFile (h : fs.at? loc = some (.file f)) (time : Time) :
    (fs.putFile loc { f with accessed := time }).unread = fs.unread := mapFiles_putFile _ h rfl

theorem at?_of_locate (h : fs.locate path = .ok (.found loc (.file f))) :
    fs.at? loc = some (.file f) := Node.at?_eq_file_iff.mpr (get?_of_locate h)

/-- A path that leads to a file leads to what was put there. -/
theorem locate_putFile (h : fs.locate path = .ok (.found loc (.file f))) (g : File) :
    (fs.putFile loc g).locate path = .ok (.found loc (.file g)) := by
  obtain ⟨g', hg'⟩ := locate_of_shape (shape_putFile (at?_of_locate h) g).symm h
  have hat := at?_of_locate hg'
  rw [at?_putFile (at?_of_locate h), if_pos rfl] at hat
  rw [hg', Node.file.inj (Option.some.inj hat)]

theorem unread_of_read {fs' : FileSystem} {bytes : ByteArray}
    (h : fs.read path = .ok (bytes, fs')) : fs'.unread = fs.unread := by
  rw [read] at h
  split at h
  · rename_i loc f hlocate
    obtain ⟨-, rfl⟩ := Prod.mk.inj (Except.ok.inj h)
    exact unread_putFile (at?_of_locate hlocate) _
  all_goals cases h

end

/-! ## Paths below a path -/

/-- A path leads to a location, however long the path is. -/
def Leads (fs : FileSystem) (path : String) (loc : Location) : Prop :=
  path ≠ "" ∧
    Node.Way fs.root (if Path.isAbsolute path then [] else fs.cwd) (Path.segments path) loc

theorem leads_of_locate (hlf : fs.root.linkFree = true)
    (h : fs.locate path = .ok (.found loc n)) : fs.Leads path loc := by
  rw [locate] at h
  split at h
  · cases h
  · rename_i hfault
    refine ⟨?_, ((Node.walk_eq_found_iff hlf).mp h).1⟩
    rintro rfl
    exact absurd hfault (by decide)

section
variable {base : String} {L : Location} {names : List String}

theorem Leads.cleaned (h : fs.Leads path loc) :
    Node.Way fs.root (if Path.isAbsolute path then [] else fs.cwd) (Path.cleanSegments path)
      loc := by
  obtain ⟨n, hn⟩ := h.2.start
  exact Node.Way.cleaned (fun habs => if_pos habs) trivial (.here hn) h.2

/-- **Names that are joined to a path lead on from where the path leads.** -/
theorem Leads.follow_join (hlf : fs.root.linkFree = true) (h : fs.Leads base L) (hne : names ≠ [])
    (hl : ∀ name ∈ names, isLegalName name = true) :
    fs.follow (Path.isAbsolute base) (Path.segments (Path.join base (Path.ofSegments names))) =
      fs.root.walk maxLinks L names := by
  have hcat : Path.cleanSegments base ++ names ≠ [] := List.append_ne_nil_of_right_ne_nil _ hne
  rw [follow, Path.segments_join h.1 hne hl, ← Node.walk_append hlf h.cleaned]
  cases Path.isAbsolute base with
  | true => exact Node.walk_empty_cons hcat
  | false => rfl

theorem Leads.locate_join (hlf : fs.root.linkFree = true) (h : fs.Leads base L) (hne : names ≠ [])
    (hl : ∀ name ∈ names, isLegalName name = true) :
    fs.locate (Path.join base (Path.ofSegments names)) =
      match pathFault? (Path.join base (Path.ofSegments names)) with
      | some fault => .error fault
      | none => fs.root.walk maxLinks L names := by
  cases hfault : pathFault? (Path.join base (Path.ofSegments names)) with
  | some fault => exact locate_of_fault hfault
  | none =>
    refine (locate_eq_follow hfault).trans ?_
    rw [Path.isAbsolute_join h.1 hne hl]
    exact h.follow_join hlf hne hl

/-- What stands below the location of a path is reached by the path. -/
theorem Leads.below (hlf : fs.root.linkFree = true) (h : fs.Leads base L) (hne : names ≠ [])
    (hn : fs.root.get? (L ++ names) = some n) :
    fs.Leads (Path.join base (Path.ofSegments names)) (L ++ names) := by
  have hl : ∀ name ∈ names, isLegalName name = true := fun name hname =>
    (fs.wellFormed.of_get? hn).2 name (List.mem_append_right _ hname)
  have hwalk : fs.root.walk maxLinks L names = .ok (.found (L ++ names) n) :=
    (Node.walk_eq_found_iff hlf).mpr ⟨.of_get? fs.wellFormed hn, hn⟩
  rw [← h.follow_join hlf hne hl, follow] at hwalk
  refine ⟨Path.join_ne_empty h.1 hne hl, ?_⟩
  rw [Path.isAbsolute_join h.1 hne hl]
  exact ((Node.walk_eq_found_iff hlf).mp hwalk).1

theorem Leads.locate (hlf : fs.root.linkFree = true) (h : fs.Leads path loc)
    (hn : fs.root.get? loc = some n) :
    fs.locate path =
      match pathFault? path with
      | some fault => .error fault
      | none => .ok (.found loc n) := by
  cases hfault : pathFault? path with
  | some fault => exact locate_of_fault hfault
  | none => exact (locate_eq_follow hfault).trans ((Node.walk_eq_found_iff hlf).mpr ⟨h.2, hn⟩)

end

end FileSystem
end ForwardDecl
