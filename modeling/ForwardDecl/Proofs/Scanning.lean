import ForwardDecl.Edit.Tree
import ForwardDecl.Proofs.Locating

/-! # Visiting on the way

A scan looks into a directory only when everything before it has been visited.
As long as the visits change what is in files, but not where files are, this
makes no difference: visiting on the way is the same as visiting, one after the
other, what a scan of the first files comes upon (`explore_listing`).
-/
namespace ForwardDecl

/-- What a scan of the directory at a path comes upon, on so many levels, if no
visit changes anything. -/
def findings (fs : FileSystem) (s : Selection) (levels : Nat) (path relPath : String) :
    List ScanItem :=
  match fs.list path with
  | .error cause => [⟨⟨path, relPath⟩, some (.file cause)⟩]
  | .ok entries =>
    (ownSources s path relPath entries).map (⟨·, none⟩) ++
      match levels with
      | 0 => []
      | below + 1 => (subdirectories s relPath entries).flatMap fun name =>
          findings fs s below (Path.join path name) (joinRel relPath name)

section
variable {fs fs' : FileSystem} {s : Selection} {β : Type}

/-- A scan that sees the same files throughout visits its findings in order. -/
theorem explore_pure {m : Type → Type} [Monad m] [LawfulMonad m] (fs : FileSystem) (s : Selection)
    (visit : β → ScanItem → m β) (levels : Nat) (path relPath : String) (b : β) :
    explore (fun path => pure (fs.list path)) s visit levels path relPath b =
      (findings fs s levels path relPath).foldlM visit b := by
  induction levels generalizing path relPath b with
  | zero =>
    rw [explore, findings, pure_bind]
    cases fs.list path with
    | error cause => simp
    | ok entries => simp [List.foldlM_map]
  | succ below ih =>
    rw [explore, findings, pure_bind]
    cases fs.list path with
    | error cause => simp
    | ok entries =>
      have hflat : ∀ (names : List String) (b : β),
          names.foldlM (fun b name => explore (fun path => pure (fs.list path)) s visit below
            (Path.join path name) (joinRel relPath name) b) b =
          (names.flatMap fun name => findings fs s below (Path.join path name)
            (joinRel relPath name)).foldlM visit b := by
        intro names
        induction names with
        | nil => intro b; simp
        | cons name names ihn =>
          intro b
          rw [List.foldlM_cons, List.flatMap_cons, List.foldlM_append, ih]
          exact bind_congr fun b' => ihn b'
      simp only [List.foldlM_append, List.foldlM_map, hflat]

theorem scan_eq_findings (fs : FileSystem) (root : String) (s : Selection) :
    scan fs false root s = findings fs s (maxPathSize + 1) root "." := by
  have hfold : ∀ items done : List ScanItem,
      Id.run (items.foldlM (fun items i => pure (items ++ [i])) done) = done ++ items := by
    intro items
    induction items with
    | nil =>
      intro done
      exact (List.append_nil done).symm
    | cons i items ih =>
      intro done
      rw [List.foldlM_cons]
      exact (ih _).trans (List.append_assoc done [i] items)
  rw [scan, scanM, if_neg Bool.false_ne_true, explore_pure, hfold, List.nil_append]

/-! ## Where the files are is all that matters -/

theorem ownSources_mapEntries (g : File → File) (s : Selection) (path relPath : String)
    (es : Entries) : ownSources s path relPath (Node.mapEntries g es) =
      ownSources s path relPath es := by
  rw [ownSources, ownSources, Node.mapEntries_eq, List.filterMap_map]
  congr 1
  funext e
  obtain ⟨name, n⟩ := e
  cases n <;> rfl

theorem subdirectories_mapEntries (g : File → File) (s : Selection) (relPath : String)
    (es : Entries) : subdirectories s relPath (Node.mapEntries g es) =
      subdirectories s relPath es := by
  have hdir : ∀ n : Node, (n.mapFiles g).isDir = n.isDir := by
    intro n
    cases n <;> rfl
  rw [subdirectories, subdirectories, Node.mapEntries_eq, List.filter_map, List.map_map]
  simp only [Function.comp_def, hdir]

theorem findings_mapFiles (g : File → File) (fs : FileSystem) (s : Selection) (levels : Nat)
    (path relPath : String) :
    findings (fs.mapFiles g) s levels path relPath = findings fs s levels path relPath := by
  induction levels generalizing path relPath with
  | zero =>
    rw [findings, findings, FileSystem.list_mapFiles]
    cases fs.list path with
    | error cause => rfl
    | ok entries => simp only [Except.map, ownSources_mapEntries]
  | succ below ih =>
    rw [findings, findings, FileSystem.list_mapFiles]
    cases fs.list path with
    | error cause => rfl
    | ok entries => simp only [Except.map, ownSources_mapEntries, subdirectories_mapEntries, ih]

theorem findings_of_shape (h : fs.shape = fs'.shape) (s : Selection) (levels : Nat)
    (path relPath : String) :
    findings fs s levels path relPath = findings fs' s levels path relPath := by
  have hs : ∀ fs : FileSystem, findings fs s levels path relPath =
      findings fs.shape s levels path relPath := fun fs => (findings_mapFiles _ fs _ _ _ _).symm
  rw [hs fs, hs fs', h]

/-- A visit that leaves all files where they are, unless it fails. -/
def KeepsShape (visit : β → ScanItem → Edit β) : Prop :=
  ∀ b i d b' d', visit b i d = .ok b' d' → d'.files.shape = d.files.shape

theorem KeepsShape.foldlM {visit : β → ScanItem → Edit β} (hv : KeepsShape visit)
    {items : List ScanItem} {b b' : β} {d d' : Desk} (h : items.foldlM visit b d = .ok b' d') :
    d'.files.shape = d.files.shape := by
  induction items generalizing b d with
  | nil =>
    obtain ⟨-, rfl⟩ := EStateM.Result.ok.inj h
    rfl
  | cons i items ih =>
    rw [List.foldlM_cons] at h
    change EStateM.bind (visit b i) _ d = _ at h
    rw [EStateM.bind] at h
    cases hi : visit b i d with
    | error cause d₁ => rw [hi] at h; cases h
    | ok b₁ d₁ =>
      rw [hi] at h
      exact (ih h).trans (hv _ _ _ _ _ hi)

/-- **Visiting on the way.**  A scan that looks at the files as they are visits
what a scan of the files at its beginning comes upon. -/
theorem explore_listing {visit : β → ScanItem → Edit β} (hv : KeepsShape visit) (s : Selection)
    (levels : Nat) (path relPath : String) (b : β) (d : Desk) :
    explore Edit.listing s visit levels path relPath b d =
      (findings d.files s levels path relPath).foldlM visit b d := by
  induction levels generalizing path relPath b d with
  | zero =>
    rw [explore, findings]
    show EStateM.bind (Edit.listing path) _ d = _
    rw [EStateM.bind, show Edit.listing path d = .ok (d.files.list path) d from rfl]
    cases d.files.list path with
    | error cause => simp
    | ok entries => simp [List.foldlM_map]
  | succ below ih =>
    rw [explore, findings]
    show EStateM.bind (Edit.listing path) _ d = _
    rw [EStateM.bind, show Edit.listing path d = .ok (d.files.list path) d from rfl]
    cases d.files.list path with
    | error cause => simp
    | ok entries =>
      -- whatever was visited before, the files are still where they were
      have hflat : ∀ (names : List String) (b : β) (d' : Desk), d'.files.shape = d.files.shape →
          names.foldlM (fun b name => explore Edit.listing s visit below
            (Path.join path name) (joinRel relPath name) b) b d' =
          (names.flatMap fun name => findings d.files s below (Path.join path name)
            (joinRel relPath name)).foldlM visit b d' := by
        intro names
        induction names with
        | nil => intro b d' _; rfl
        | cons name names ihn =>
          intro b d' hd
          rw [List.foldlM_cons, List.flatMap_cons, List.foldlM_append]
          show EStateM.bind _ _ d' = EStateM.bind _ _ d'
          rw [EStateM.bind, EStateM.bind, ih, findings_of_shape hd]
          cases hrun : (findings d.files s below (Path.join path name)
              (joinRel relPath name)).foldlM visit b d' with
          | error cause d₁ => rfl
          | ok b₁ d₁ => exact ihn b₁ d₁ ((hv.foldlM hrun).trans hd)
      rw [List.foldlM_append, List.foldlM_map]
      show EStateM.bind _ _ d = EStateM.bind _ _ d
      rw [EStateM.bind, EStateM.bind]
      cases hown : (ownSources s path relPath entries).foldlM (fun b f => visit b ⟨f, none⟩) b d with
      | error cause d₁ => rfl
      | ok b₁ d₁ =>
        have hown' := hown
        rw [← List.foldlM_map (f := (⟨·, none⟩)) (g := visit)] at hown'
        exact hflat _ b₁ d₁ (hv.foldlM hown')

end
end ForwardDecl
