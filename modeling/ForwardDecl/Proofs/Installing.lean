import ForwardDecl.Proofs.NewEntries

/-! # Installing the support module

An installation reads the template, which moves the access time of that file
(`SupportModule.Sampled`), and then makes the directory of the module and the
module, where they are missing (`SupportModule.Installs`).  Nothing else happens,
whether the installation comes to its end or not, and a dry run foretells how it
ends (`SupportModule.install_gives`).
-/
namespace ForwardDecl

/-! ## Making the directory and the module -/

namespace SupportModule
variable {fs fs' : FileSystem} {root templatePath : String} {L : Location} {es ds : Entries}

theorem isLegalName_home : isLegalName "forward" = true := by decide

theorem isLegalName_module : isLegalName "__init__.py" = true := by decide

/-- What the path of the module leads to, if it is a path. -/
theorem locate_module (hlf : fs.root.linkFree = true)
    (hroot : fs.locate root = .ok (.found L (.dir es))) :
    fs.locate (Path.join root path) =
      match FileSystem.pathFault? (Path.join root path) with
      | some fault => .error fault
      | none =>
        match Entries.get? es "forward" with
        | none => .error .missing
        | some (.dir ds) =>
          match Entries.get? ds "__init__.py" with
          | none => .ok (.absent (L ++ location))
          | some m => .ok (.found (L ++ location) m)
        | some _ => .error .notDirectory := by
  have hes := FileSystem.get?_of_locate hroot
  have hloc : L ++ ["forward"] ++ ["__init__.py"] = L ++ location := by simp [location]
  rw [path_eq, (FileSystem.leads_of_locate hlf hroot).locate_join hlf (by decide)
    legal_of_mem_location, ← path_eq]
  cases FileSystem.pathFault? (Path.join root path) with
  | some fault => rfl
  | none =>
    dsimp only
    rw [location]
    cases hhome : Entries.get? es "forward" with
    | none => exact Node.walk_free hes isLegalName_home hhome _
    | some m =>
      have hm : fs.root.get? (L ++ ["forward"]) = some m := (Node.get?_snoc hes _).trans hhome
      have hmlf := Node.linkFree_of_get? hlf hm
      rw [Node.walk_entry hes isLegalName_home hhome (Node.ne_link_of_linkFree hmlf)]
      cases m with
      | link target => cases hmlf
      | file f => exact Node.walk_not_dir hm rfl _ _
      | dir ds =>
        dsimp only
        cases hmodule : Entries.get? ds "__init__.py" with
        | none =>
          rw [Node.walk_free hm isLegalName_module hmodule, if_pos rfl, hloc]
          rfl
        | some m' =>
          have hm' : fs.root.get? (L ++ ["forward"] ++ ["__init__.py"]) = some m' :=
            (Node.get?_snoc hm _).trans hmodule
          rw [Node.walk_entry hm isLegalName_module hmodule
              (Node.ne_link_of_linkFree (Node.linkFree_of_get? hlf hm')),
            Node.walk_nil hm', hloc]
          rfl

/-- Clean names that go on from the root lead on from its location. -/
theorem follow_clean (hlf : fs.root.linkFree = true) (hlead : fs.Leads root L)
    (rest : List String) : fs.follow (Path.isAbsolute root) (Path.cleanSegments root ++ rest) =
      fs.root.walk maxLinks L rest := by
  rw [FileSystem.follow, Node.walk_append hlf hlead.cleaned]

theorem follow_root (hlf : fs.root.linkFree = true) (hlead : fs.Leads root L)
    (hes : fs.root.get? L = some (.dir es)) :
    fs.follow (Path.isAbsolute root) (Path.cleanSegments root) = .ok (.found L (.dir es)) := by
  have hfollow := follow_clean hlf hlead []
  rwa [Node.walk_nil hes, List.append_nil] at hfollow

/-- No directory is missing above the root. -/
theorem makeParents_root (hlf : fs.root.linkFree = true) (hlead : fs.Leads root L)
    (hes : fs.root.get? L = some (.dir es)) :
    FileSystem.makeParents (Path.isAbsolute root) (Path.cleanSegments root).reverse fs =
      .ok fs := by
  have hfollow := follow_root hlf hlead hes
  cases hrev : (Path.cleanSegments root).reverse with
  | nil => rfl
  | cons name parents =>
    rw [List.reverse_eq_iff] at hrev
    rw [hrev] at hfollow
    rw [FileSystem.makeParents, hfollow]

/-- The names of the directory are those of the root and one more. -/
theorem reverse_cleanSegments_directory (hroot : root ≠ "") :
    (Path.cleanSegments (Path.join root directory)).reverse =
      "forward" :: (Path.cleanSegments root).reverse := by
  rw [directory_eq, Path.cleanSegments_join hroot (by decide) legal_of_mem_home,
    List.reverse_append]
  rfl

theorem isAbsolute_directory (hroot : root ≠ "") :
    Path.isAbsolute (Path.join root directory) = Path.isAbsolute root := by
  rw [directory_eq]
  exact Path.isAbsolute_join hroot (by decide) legal_of_mem_home

theorem pathOf_directory (hroot : root ≠ "") : FileSystem.pathOf (Path.isAbsolute root)
    ("forward" :: (Path.cleanSegments root).reverse) = Path.join root directory := by
  rw [FileSystem.pathOf, List.reverse_cons, List.reverse_reverse, directory_eq,
    Path.join_ofSegments hroot (by decide) legal_of_mem_home]
  rfl

/-- Making the directory of the module: it is there, or it is made, unless its path
is no path or something else is there. -/
theorem makeDirs_home (hlf : fs.root.linkFree = true)
    (hroot : fs.locate root = .ok (.found L (.dir es))) :
    fs.makeDirs (Path.join root directory) =
      match Entries.get? es "forward" with
      | some (.dir _) => .ok fs
      | some _ => .error ⟨.makingDirectory, Path.join root directory, .notDirectory⟩
      | none =>
        match FileSystem.pathFault? (Path.join root directory) with
        | some fault => .error ⟨.makingDirectory, Path.join root directory, fault⟩
        | none => .ok (fs.put (L ++ home) (.dir []) trivial) := by
  have hes := FileSystem.get?_of_locate hroot
  have hlead := FileSystem.leads_of_locate hlf hroot
  obtain ⟨-, -, hsize⟩ := Path.ne_of_isLegalName isLegalName_home
  -- only the last name can be missing
  rw [FileSystem.makeDirs, isAbsolute_directory hlead.1, reverse_cleanSegments_directory hlead.1]
  dsimp only
  rw [List.reverse_cons, List.reverse_reverse, follow_clean hlf hlead, pathOf_directory hlead.1,
    makeParents_root hlf hlead hes]
  cases hhome : Entries.get? es "forward" with
  | none =>
    rw [Node.walk_free hes isLegalName_home hhome, if_pos rfl]
    dsimp only [bind, Except.bind]
    rw [FileSystem.makeDir.eq_def]
    cases FileSystem.pathFault? (Path.join root directory) with
    | some fault => rfl
    | none =>
      dsimp only
      rw [List.reverse_reverse, follow_root hlf hlead hes]
      dsimp only
      rw [if_neg (Nat.not_lt.mpr hsize), hhome]
      rfl
  | some m =>
    have hm : fs.root.get? (L ++ ["forward"]) = some m := (Node.get?_snoc hes _).trans hhome
    have hmlf := Node.linkFree_of_get? hlf hm
    rw [Node.walk_entry hes isLegalName_home hhome (Node.ne_link_of_linkFree hmlf),
      Node.walk_nil hm]
    cases m with
    | dir ds => rfl
    | file f => rfl
    | link target => cases hmlf

/-! ## What an installation does to the files -/

/-- The files after the template was read, if it was. -/
inductive Sampled (templatePath : String) (fs : FileSystem) : FileSystem → Prop
  | unread : Sampled templatePath fs fs
  | read {loc : Location} {f : File}
      (h : fs.locate templatePath = .ok (.found loc (.file f))) :
      Sampled templatePath fs (fs.putFile loc { f with accessed := fs.now })

/-- The files after something was installed: the directory of the module may be
new, and so may be the module. -/
def Installs (root : String) (L : Location) (fs fs' : FileSystem) : Prop :=
  ∃ mid,
    (mid = fs ∨ fs.Adds (L ++ home) (.dir []) mid ∧
      FileSystem.pathFault? (Path.join root directory) = none) ∧
    (fs' = mid ∨ ∃ f, mid.Adds (L ++ location) (.file f) fs')

theorem Installs.refl (root : String) (L : Location) (fs : FileSystem) : Installs root L fs fs :=
  ⟨fs, Or.inl rfl, Or.inl rfl⟩

theorem Sampled.shape_eq (h : Sampled templatePath fs fs') : fs'.shape = fs.shape := by
  cases h with
  | unread => rfl
  | read h => exact FileSystem.shape_putFile (FileSystem.at?_of_locate h) _

theorem Sampled.unread_eq (h : Sampled templatePath fs fs') : fs'.unread = fs.unread := by
  cases h with
  | unread => rfl
  | read h => exact FileSystem.unread_putFile (FileSystem.at?_of_locate h) _

theorem readIn_gives (context templatePath : String) (fs : FileSystem) : ∃ done fs',
    Edit.Gives (Edit.readIn context templatePath) fs done fs' ∧ Sampled templatePath fs fs' := by
  cases hr : fs.read templatePath with
  | error cause =>
    have hread : Edit.Gives (Edit.read templatePath) fs (.ok (.error cause)) fs := by
      refine (Edit.gives_files fs).bind ?_
      rw [hr]
      exact Edit.gives_pure _ _
    exact ⟨_, fs, hread.bind (Edit.gives_throw _ _), .unread⟩
  | ok p =>
    rw [FileSystem.read] at hr
    split at hr
    · rename_i loc f hl
      exact ⟨_, _, (Edit.read_gives hl).bind (Edit.gives_pure _ _), .read hl⟩
    all_goals cases hr

theorem source_gives (templatePath : String) (fs : FileSystem) : ∃ done fs',
    Edit.Gives (source templatePath) fs done fs' ∧ Sampled templatePath fs fs' := by
  rw [source]
  split
  · exact ⟨.ok (template.toUTF8, defaultPerm), fs, Edit.gives_pure _ _, .unread⟩
  · have hfiles := Edit.gives_files fs
    have hstat := Edit.gives_fileCall "runtime template" (fs.stat templatePath) fs
    cases hs : (fs.stat templatePath).mapError fun e => Error.within "runtime template" (.file e) with
    | error cause =>
      rw [hs] at hstat
      exact ⟨.error cause, fs, hfiles.bind (hstat.bind_error _), .unread⟩
    | ok node =>
      rw [hs] at hstat
      obtain ⟨done, fs', hread, hsampled⟩ := readIn_gives "runtime template" templatePath fs
      cases done with
      | error cause =>
        exact ⟨.error cause, fs', hfiles.bind (hstat.bind (hread.bind_error _)), hsampled⟩
      | ok bytes =>
        exact ⟨.ok (bytes, node.perm), fs',
          hfiles.bind (hstat.bind (hread.bind (Edit.gives_pure _ _))), hsampled⟩

/-- Whether the module is there. -/
def present (fs : FileSystem) (root : String) : Bool :=
  match fs.stat (Path.join root path) with
  | .ok node => !node.isDir
  | .error _ => false

/-- Write the module below a root, with the times of its template. -/
def writeModule (root templatePath : String) (bytes : ByteArray) (perm : Nat) : Edit Bool := do
  Edit.setFiles (← Edit.fileCall "install runtime module"
    ((← Edit.files).write (Path.join root path) bytes perm))
  if templatePath ≠ "" then
    if let .ok (accessed, modified) := (← Edit.files).times templatePath then
      Edit.setFiles ((← Edit.files).setTimes (Path.join root path) accessed modified)
  return true

/-- Make the module below a root, with its directory if that is missing. -/
def make (root templatePath : String) (bytes : ByteArray) (perm : Nat) : Edit Bool := do
  Edit.setFiles (← Edit.fileCall "install runtime module"
    ((← Edit.files).makeDirs (Path.join root directory)))
  writeModule root templatePath bytes perm

theorem install_eq (root templatePath : String) (dryRun : Bool) :
    install root templatePath dryRun = Edit.files >>= fun fs =>
      if present fs root then pure false
      else source templatePath >>= fun content =>
        if dryRun then pure true else make root templatePath content.1 content.2 := by
  rw [install]
  refine bind_congr fun fs => ?_
  rw [present]
  cases fs.stat (Path.join root path) with
  | error cause => rfl
  | ok node => rfl

theorem install_gives_present (hp : present fs root = true) (templatePath : String)
    (dryRun : Bool) : Edit.Gives (install root templatePath dryRun) fs (.ok false) fs := by
  rw [install_eq]
  refine (Edit.gives_files fs).bind ?_
  rw [hp]
  exact Edit.gives_pure _ _

/-- Where the module is missing, what follows depends on the template. -/
theorem install_gives_missing {dryRun : Bool} {done : Except Error Bool}
    (hp : present fs root = false)
    (h : Edit.Gives (source templatePath >>= fun content =>
      if dryRun then pure true else make root templatePath content.1 content.2) fs done fs') :
    Edit.Gives (install root templatePath dryRun) fs done fs' := by
  rw [install_eq]
  refine (Edit.gives_files fs).bind ?_
  rw [hp]
  exact h

/-- An installation that makes nothing reads the template, at most. -/
theorem install_samples {dryRun : Bool} (h : present fs root = true ∨ dryRun = true)
    (templatePath : String) : ∃ done mid,
      Edit.Gives (install root templatePath dryRun) fs done mid ∧ Sampled templatePath fs mid := by
  cases hp : present fs root with
  | true => exact ⟨.ok false, fs, install_gives_present hp _ _, .unread⟩
  | false =>
    obtain rfl : dryRun = true := h.resolve_left (Bool.eq_false_iff.mp hp)
    obtain ⟨content, mid, hsource, hsampled⟩ := source_gives templatePath fs
    cases content with
    | error cause =>
      exact ⟨.error cause, mid, install_gives_missing hp (hsource.bind_error _), hsampled⟩
    | ok content =>
      exact ⟨.ok true, mid, install_gives_missing hp (hsource.bind (Edit.gives_pure _ _)), hsampled⟩

/-- A property that every step of an installation has is one of the installation. -/
theorem install_of_compositional {P : {α : Type} → Edit α → Prop} (h : Edit.Compositional P)
    (hset : ∀ fs, P (Edit.setFiles fs))
    (hcall : ∀ {α : Type} (context : String) (r : Except FileError α), P (Edit.fileCall context r))
    (root templatePath : String) (dryRun : Bool) : P (install root templatePath dryRun) := by
  have hsource : P (source templatePath) := by
    rw [source]
    split
    · exact h.pure _
    · exact h.bind h.files fun _ => h.bind (hcall _ _) fun _ =>
        h.bind (h.bind (h.read _) fun _ => hcall _ _) fun _ => h.pure _
  have hchange : ∀ {rest : Edit Bool} (r : FileSystem → Except FileError FileSystem), P rest →
      P (Edit.files >>= fun fs => Edit.fileCall "install runtime module" (r fs) >>= fun fs =>
        Edit.setFiles fs >>= fun _ => rest) := fun r hrest =>
    h.bind h.files fun _ => h.bind (hcall _ _) fun _ => h.bind (hset _) fun _ => hrest
  have hmake : ∀ bytes perm, P (make root templatePath bytes perm) := by
    intro bytes perm
    refine hchange _ (hchange _ ?_)
    split
    · refine h.bind h.files fun _ => ?_
      split
      · exact h.bind h.files fun _ => h.bind (hset _) fun _ => h.pure _
      · exact h.pure _
    · exact h.pure _
  rw [install_eq]
  refine h.bind h.files fun fs => ?_
  split
  · exact h.pure _
  · refine h.bind hsource fun content => ?_
    split
    · exact h.pure _
    · exact hmake _ _

theorem adds_home (hes : fs.root.get? L = some (.dir es))
    (hfree : Entries.get? es "forward" = none) :
    fs.Adds (L ++ home) (.dir []) (fs.put (L ++ home) (.dir []) trivial) where
  leaf := Node.leaf_dir
  linkFree := rfl
  room := Node.room_of_free hes hfree isLegalName_home
  free := (Node.get?_snoc hes _).trans hfree
  root_eq := rfl
  cwd_eq := rfl
  now_eq := rfl

theorem append_location (L : Location) : L ++ location = L ++ home ++ ["__init__.py"] := by
  rw [List.append_assoc]
  rfl

theorem adds_module (hds : fs.root.get? (L ++ home) = some (.dir ds))
    (hfree : Entries.get? ds "__init__.py" = none) (f : File) :
    fs.Adds (L ++ location) (.file f) (fs.putFile (L ++ location) f) where
  leaf := Node.leaf_file f
  linkFree := rfl
  room := by
    rw [append_location]
    exact Node.room_of_free hds hfree isLegalName_module
  free := by
    rw [append_location]
    exact (Node.get?_snoc hds _).trans hfree
  root_eq := rfl
  cwd_eq := rfl
  now_eq := rfl

theorem locate_module_cases (hlf : fs.root.linkFree = true)
    (hroot : fs.locate root = .ok (.found L (.dir es))) :
    (∃ fault, fs.locate (Path.join root path) = .error fault) ∨
    (∃ m, fs.locate (Path.join root path) = .ok (.found (L ++ location) m)) ∨
    ∃ ds, fs.root.get? (L ++ home) = some (.dir ds) ∧ Entries.get? ds "__init__.py" = none ∧
      fs.locate (Path.join root path) = .ok (.absent (L ++ location)) := by
  have hhome : fs.root.get? (L ++ home) = Entries.get? es "forward" :=
    Node.get?_snoc (FileSystem.get?_of_locate hroot) _
  rw [locate_module hlf hroot]
  split
  · exact Or.inl ⟨_, rfl⟩
  · split
    · exact Or.inl ⟨_, rfl⟩
    · rename_i ds hds
      split
      · rename_i hnone
        exact Or.inr (Or.inr ⟨ds, hhome.trans hds, hnone, rfl⟩)
      · exact Or.inr (Or.inl ⟨_, rfl⟩)
    · exact Or.inl ⟨_, rfl⟩

/-- The new module is found by its path. -/
theorem locate_putFile_module (hlf : fs.root.linkFree = true) (hlead : fs.Leads root L)
    (hds : fs.root.get? (L ++ home) = some (.dir ds))
    (hfree : Entries.get? ds "__init__.py" = none)
    (hl : fs.locate (Path.join root path) = .ok (.absent (L ++ location))) (f : File) :
    (fs.putFile (L ++ location) f).locate (Path.join root path) =
      .ok (.found (L ++ location) (.file f)) := by
  have hadds := adds_module hds hfree f
  have hget : (fs.putFile (L ++ location) f).root.get? (L ++ location) = some (.file f) := by
    have hat := hadds.at?_eq (L ++ location)
    rw [if_pos rfl] at hat
    exact Node.at?_eq_file_iff.mp hat
  have hbelow := (hadds.leads hlead).below (hadds.linkFree_root hlf) (by decide) hget
  rw [path_eq, hbelow.locate (hadds.linkFree_root hlf) hget, ← path_eq,
    FileSystem.pathFault?_of_locate hl]

/-- Writing the module where none is, in a directory. -/
theorem writeModule_absent (hlf : fs.root.linkFree = true) (hlead : fs.Leads root L)
    (hds : fs.root.get? (L ++ home) = some (.dir ds))
    (hfree : Entries.get? ds "__init__.py" = none)
    (hl : fs.locate (Path.join root path) = .ok (.absent (L ++ location)))
    (templatePath : String) (bytes : ByteArray) (perm : Nat) :
    ∃ f, Edit.Gives (writeModule root templatePath bytes perm) fs (.ok true)
      (fs.putFile (L ++ location) f) := by
  let f : File := ⟨bytes, FileSystem.newPerm perm, fs.now, fs.now⟩
  have hwrite : fs.write (Path.join root path) bytes perm = .ok (fs.putFile (L ++ location) f) := by
    rw [FileSystem.write, hl]
  rw [writeModule]
  split
  · cases htimes : (fs.putFile (L ++ location) f).times templatePath with
    | error cause =>
      refine ⟨f, .change hwrite ((Edit.gives_files _).bind ?_)⟩
      rw [htimes]
      exact Edit.gives_pure _ _
    | ok times =>
      refine ⟨{ f with accessed := times.1, modified := times.2 },
        .change hwrite ((Edit.gives_files _).bind ?_)⟩
      rw [htimes]
      refine (Edit.gives_files _).bind ?_
      -- the new file is given the times of the template
      rw [FileSystem.setTimes, locate_putFile_module hlf hlead hds hfree hl]
      dsimp only
      rw [FileSystem.putFile_putFile]
      exact (Edit.gives_setFiles _ _).bind (Edit.gives_pure _ _)
  · exact ⟨f, .change hwrite (Edit.gives_pure _ _)⟩

/-- Writing the module: it is new, or nothing happens. -/
theorem writeModule_gives (hlf : fs.root.linkFree = true)
    (hroot : fs.locate root = .ok (.found L (.dir es)))
    (hnone : FileSystem.pathFault? (Path.join root path) = none →
      ∀ f, fs.at? (L ++ location) ≠ some (.file f)) (templatePath : String) (bytes : ByteArray)
    (perm : Nat) : ∃ done fs', Edit.Gives (writeModule root templatePath bytes perm) fs done fs' ∧
      (fs' = fs ∨ ∃ f, fs.Adds (L ++ location) (.file f) fs') ∧
      (fs.locate (Path.join root path) = .ok (.absent (L ++ location)) → done = .ok true) := by
  rcases locate_module_cases hlf hroot with ⟨fault, hl⟩ | ⟨m, hl⟩ | ⟨ds, hds, hfree, hl⟩
  · have hwrite : fs.write (Path.join root path) bytes perm =
        .error ⟨.opening, Path.join root path, fault⟩ := by rw [FileSystem.write, hl]
    refine ⟨_, fs, Edit.gives_change_error hwrite _, Or.inl rfl, fun h => ?_⟩
    rw [hl] at h
    cases h
  · -- something is in the way that is no file
    have hm : ∀ f, m ≠ .file f := by
      rintro f rfl
      exact hnone (FileSystem.pathFault?_of_locate hl) f (FileSystem.at?_of_locate hl)
    have hwrite : fs.write (Path.join root path) bytes perm =
        .error ⟨.opening, Path.join root path, .isDirectory⟩ := by
      rw [FileSystem.write, hl]
      cases m with
      | file f => exact absurd rfl (hm f)
      | link target => rfl
      | dir ds => rfl
    refine ⟨_, fs, Edit.gives_change_error hwrite _, Or.inl rfl, fun h => ?_⟩
    rw [hl] at h
    cases h
  · obtain ⟨f, hgives⟩ := writeModule_absent hlf (FileSystem.leads_of_locate hlf hroot) hds hfree hl
      templatePath bytes perm
    exact ⟨_, _, hgives, Or.inr ⟨f, adds_module hds hfree f⟩, fun _ => rfl⟩

/-- The module can be made below a root at a location: its directory is missing, or
is there without it, and both paths are paths. -/
structure Ready (root : String) (L : Location) (fs : FileSystem) : Prop where
  directory_ok : FileSystem.pathFault? (Path.join root directory) = none
  path_ok : FileSystem.pathFault? (Path.join root path) = none
  free : fs.at? (L ++ home) = none ∨
    fs.at? (L ++ home) = some (.dir []) ∧ fs.at? (L ++ location) = none

theorem Ready.dir_of_get? (hready : Ready root L fs) {m : Node}
    (hm : fs.root.get? (L ++ home) = some m) : ∃ ds, m = .dir ds := by
  rcases hready.free with hnone | ⟨hdir, -⟩
  · rw [FileSystem.at?, Node.at?_eq_none_iff, hm] at hnone
    cases hnone
  · obtain ⟨ds, hds⟩ := Node.at?_eq_dir_iff.mp hdir
    exact ⟨ds, Option.some.inj (hm.symm.trans hds)⟩

theorem locate_of_ready (hlf : fs.root.linkFree = true)
    (hroot : fs.locate root = .ok (.found L (.dir es))) (hready : Ready root L fs)
    (hhome : Entries.get? es "forward" = some (.dir ds)) :
    fs.locate (Path.join root path) = .ok (.absent (L ++ location)) := by
  have hds : fs.root.get? (L ++ home) = some (.dir ds) :=
    (Node.get?_snoc (FileSystem.get?_of_locate hroot) _).trans hhome
  rcases hready.free with hnone | ⟨-, hfree⟩
  · rw [FileSystem.at?, Node.at?_eq_none_iff, hds] at hnone
    cases hnone
  · rw [FileSystem.at?, Node.at?_eq_none_iff, append_location, Node.get?_snoc hds] at hfree
    rw [locate_module hlf hroot, hready.path_ok]
    dsimp only
    rw [hhome]
    dsimp only
    rw [hfree]

/-- Where the directory of the module was missing, the new one has room for it. -/
theorem locate_of_adds_home (hlf : fs.root.linkFree = true)
    (hroot : fs.locate root = .ok (.found L (.dir es))) (hadds : fs.Adds (L ++ home) (.dir []) fs')
    (hpath : FileSystem.pathFault? (Path.join root path) = none) :
    fs'.at? (L ++ location) = none ∧
      fs'.locate (Path.join root path) = .ok (.absent (L ++ location)) := by
  obtain ⟨es', hroot'⟩ := hadds.locate_dir hlf hroot
  have hlf' := hadds.linkFree_root hlf
  have hat : fs'.at? (L ++ location) = none := by
    rw [hadds.at?_eq, if_neg (by simp [home, location]), FileSystem.at?, Node.at?_eq_none_iff,
      append_location, Node.get?_append, hadds.free]
    rfl
  refine ⟨hat, ?_⟩
  have hhome := hadds.at?_eq (L ++ home)
  rw [if_pos rfl] at hhome
  obtain ⟨ds, hds⟩ := Node.at?_eq_dir_iff.mp hhome
  have hfree := Node.at?_eq_none_iff.mp hat
  rw [append_location, Node.get?_snoc hds] at hfree
  have hes' : Entries.get? es' "forward" = some (.dir ds) :=
    (Node.get?_snoc (FileSystem.get?_of_locate hroot') _).symm.trans hds
  rw [locate_module hlf' hroot', hpath]
  dsimp only
  rw [hes']
  dsimp only
  rw [hfree]

/-- Making the module: what is new is at its place and at that of its directory. -/
theorem make_gives (hlf : fs.root.linkFree = true)
    (hroot : fs.locate root = .ok (.found L (.dir es)))
    (hnone : FileSystem.pathFault? (Path.join root path) = none →
      ∀ f, fs.at? (L ++ location) ≠ some (.file f)) (templatePath : String) (bytes : ByteArray)
    (perm : Nat) : ∃ done fs', Edit.Gives (make root templatePath bytes perm) fs done fs' ∧
      Installs root L fs fs' ∧ (Ready root L fs → done = .ok true) := by
  have hdirs := makeDirs_home hlf hroot
  cases hhome : Entries.get? es "forward" with
  | none =>
    rw [hhome] at hdirs
    cases hpath : FileSystem.pathFault? (Path.join root directory) with
    | some fault =>
      rw [hpath] at hdirs
      refine ⟨_, fs, Edit.gives_change_error hdirs _, .refl root L fs, fun hready => ?_⟩
      rw [hready.directory_ok] at hpath
      cases hpath
    | none =>
      rw [hpath] at hdirs
      -- the module goes into the new directory, which is empty
      have hadds := adds_home (FileSystem.get?_of_locate hroot) hhome
      obtain ⟨es', hroot'⟩ := hadds.locate_dir hlf hroot
      obtain ⟨done, fs', hwrite, hnew, hok⟩ := writeModule_gives (hadds.linkFree_root hlf) hroot'
        (fun hp f hf => nomatch (locate_of_adds_home hlf hroot hadds hp).1.symm.trans hf)
        templatePath bytes perm
      refine ⟨done, fs', .change hdirs hwrite,
        ⟨_, Or.inr ⟨hadds, hpath⟩, hnew⟩, fun hready => ?_⟩
      exact hok (locate_of_adds_home hlf hroot hadds hready.path_ok).2
  | some m =>
    rw [hhome] at hdirs
    have hm : fs.root.get? (L ++ home) = some m :=
      (Node.get?_snoc (FileSystem.get?_of_locate hroot) _).trans hhome
    cases m with
    | dir ds =>
      obtain ⟨done, fs', hwrite, hnew, hok⟩ :=
        writeModule_gives hlf hroot hnone templatePath bytes perm
      refine ⟨done, fs', .change hdirs hwrite, ⟨fs, Or.inl rfl, hnew⟩,
        fun hready => ?_⟩
      exact hok (locate_of_ready hlf hroot hready hhome)
    | _ =>
      -- something else has the name of the directory
      refine ⟨_, fs, Edit.gives_change_error hdirs _, .refl root L fs, fun hready => ?_⟩
      obtain ⟨ds, hds⟩ := hready.dir_of_get? hm
      cases hds

/-- Reading the template moves the access time of one file. -/
theorem Sampled.at?_cases (h : Sampled templatePath fs fs') (loc : Location) :
    fs'.at? loc = fs.at? loc ∨
    ∃ f, fs.at? loc = some (.file f) ∧ fs'.at? loc = some (.file { f with accessed := fs.now }) ∧
      fs.locate templatePath = .ok (.found loc (.file f)) := by
  cases h with
  | unread => exact Or.inl rfl
  | @read loc' f hl =>
    have hat := FileSystem.at?_of_locate hl
    rw [FileSystem.at?_putFile hat]
    by_cases hloc : loc = loc'
    · subst hloc
      exact Or.inr ⟨f, hat, if_pos rfl, hl⟩
    · exact Or.inl (if_neg hloc)

theorem Sampled.at?_eq_of_not_file (h : Sampled templatePath fs fs') {loc : Location}
    (hfile : ∀ f, fs.at? loc ≠ some (.file f)) : fs'.at? loc = fs.at? loc := by
  rcases h.at?_cases loc with hsame | ⟨f, hf, -⟩
  · exact hsame
  · exact absurd hf (hfile f)

theorem Sampled.ready (h : Sampled templatePath fs fs') (hready : Ready root L fs) :
    Ready root L fs' := by
  refine ⟨hready.directory_ok, hready.path_ok, ?_⟩
  rcases hready.free with hnone | ⟨hdir, hnone⟩
  · have hsame := h.at?_eq_of_not_file fun f hf => nomatch hnone.symm.trans hf
    exact Or.inl (hsame.trans hnone)
  · have hsame := h.at?_eq_of_not_file fun f hf => nomatch hdir.symm.trans hf
    have hsame' := h.at?_eq_of_not_file fun f hf => nomatch hnone.symm.trans hf
    exact Or.inr ⟨hsame.trans hdir, hsame'.trans hnone⟩

/-- Where the module is not present, no file is in its place, unless its path is no
path. -/
theorem not_file_of_not_present (hlf : fs.root.linkFree = true) (hlead : fs.Leads root L)
    (hp : present fs root = false) (hpath : FileSystem.pathFault? (Path.join root path) = none)
    (f : File) : fs.at? (L ++ location) ≠ some (.file f) := by
  intro hf
  have hget := Node.at?_eq_file_iff.mp hf
  have hlocate := (hlead.below hlf (by decide) hget).locate hlf hget
  rw [← path_eq, hpath] at hlocate
  rw [present, FileSystem.stat, hlocate] at hp
  cases hp

/-- **Installing the module**, in earnest and in a dry run: both read the template, a
dry run leaves it at that, and the other one makes the module.  They come to the same
if the module is there or can be made. -/
theorem install_gives (hlf : fs.root.linkFree = true)
    (hroot : fs.locate root = .ok (.found L (.dir es))) (templatePath : String) :
    ∃ dry done mid fs', Edit.Gives (install root templatePath true) fs dry mid ∧
      Edit.Gives (install root templatePath false) fs done fs' ∧
      Sampled templatePath fs mid ∧ Installs root L mid fs' ∧
      (present fs root = true ∨ Ready root L fs → done = dry) := by
  have hlead := FileSystem.leads_of_locate hlf hroot
  cases hp : present fs root with
  | true =>
    exact ⟨.ok false, .ok false, fs, fs, install_gives_present hp _ _,
      install_gives_present hp _ _, .unread, .refl root L fs, fun _ => rfl⟩
  | false =>
    obtain ⟨content, mid, hsource, hsampled⟩ := source_gives templatePath fs
    cases content with
    | error cause =>
      exact ⟨.error cause, .error cause, mid, mid, install_gives_missing hp (hsource.bind_error _),
        install_gives_missing hp (hsource.bind_error _), hsampled, .refl root L mid, fun _ => rfl⟩
    | ok content =>
      have hshape := hsampled.shape_eq
      have hlf' := FileSystem.linkFree_of_shape hshape.symm hlf
      obtain ⟨es', hroot'⟩ := FileSystem.locate_dir_of_shape hshape.symm hroot
      -- the template that was read does not stand in the place of the module
      have hnone : FileSystem.pathFault? (Path.join root path) = none →
          ∀ f, mid.at? (L ++ location) ≠ some (.file f) := by
        intro hpath f hf
        have hnot := not_file_of_not_present hlf hlead hp hpath
        rw [hsampled.at?_eq_of_not_file hnot] at hf
        exact hnot f hf
      obtain ⟨done, fs', hmake, hnew, hok⟩ :=
        make_gives hlf' hroot' hnone templatePath content.1 content.2
      refine ⟨.ok true, done, mid, fs', install_gives_missing hp (hsource.bind (Edit.gives_pure _ _)),
        install_gives_missing hp (hsource.bind hmake), hsampled, hnew, ?_⟩
      rintro (hpresent | hready)
      · cases hpresent
      · exact hok (hsampled.ready hready)

end SupportModule
end ForwardDecl
