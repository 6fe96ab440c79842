import ForwardDecl.Proofs.FileLists

/-! # The relative paths of a scan

Whatever is found in a directory, or below a subdirectory of it, has a relative path that
goes on with the name of the entry it was found under.  The entries of a directory have
different names, and names without a slash can be read off a path again; so no relative
path occurs twice in a scan (`nodup_relPaths`).

This holds for every file system and every root.  Links on the way may make two of the
paths lead to the same file, but the relative paths are made from the names in the
listings alone.
-/
namespace ForwardDecl

/-- The relative path of the item is made of legal names, of which these come first. -/
def ScanItem.Below (above : Location) (i : ScanItem) : Prop :=
  ∃ names, above <+: names ∧ (∀ name ∈ names, isLegalName name = true) ∧
    i.file.relPath = Path.relative names

section
variable {fs : FileSystem} {s : Selection} {path name : String} {above : Location} {es : Entries}
  {levels : Nat} {i j : ScanItem}

theorem ScanItem.Below.of_snoc (h : i.Below (above ++ [name])) : i.Below above := by
  obtain ⟨names, hprefix, hlegal, hrel⟩ := h
  exact ⟨names, (List.prefix_append above [name]).trans hprefix, hlegal, hrel⟩

/-- Items under different names have different relative paths. -/
theorem relPath_ne_of_below {a b : String} (hne : a ≠ b) (hi : i.Below (above ++ [a]))
    (hj : j.Below (above ++ [b])) : i.file.relPath ≠ j.file.relPath := by
  obtain ⟨names, hnames, hlegal, hrel⟩ := hi
  obtain ⟨names', hnames', hlegal', hrel'⟩ := hj
  have hnonempty : ∀ {name names}, above ++ [name] <+: names → names ≠ [] := by
    rintro name names hprefix rfl
    simpa using List.prefix_nil.mp hprefix
  rw [hrel, hrel', Path.relative_of_ne (hnonempty hnames), Path.relative_of_ne (hnonempty hnames')]
  intro heq
  refine Node.names_ne_of_ne hne hnames hnames' ?_
  exact Path.ofSegments_inj (hnonempty hnames) (hnonempty hnames') hlegal hlegal' heq

theorem wellFormed_of_list (h : fs.list path = .ok es) : Node.WellFormedEntries es := by
  rw [FileSystem.list] at h
  split at h
  · rename_i loc ds hl
    obtain rfl := Except.ok.inj h
    exact (fs.wellFormed.of_get? (FileSystem.get?_of_locate hl)).1
  all_goals cases h

/-! ## One directory -/

theorem legal_snoc (habove : ∀ k ∈ above, isLegalName k = true)
    (hname : isLegalName name = true) : ∀ k ∈ above ++ [name], isLegalName k = true := by
  simpa [or_imp, forall_and] using ⟨habove, hname⟩

/-- A file of a directory is below its own name, which is no name of a directory. -/
theorem below_of_mem_ownSources (habove : ∀ k ∈ above, isLegalName k = true)
    (hes : ∀ entry ∈ es, isLegalName entry.1 = true) {f : SourceFile}
    (h : f ∈ ownSources s path (Path.relative above) es) :
    ∃ name g, (name, .file g) ∈ es ∧ ScanItem.Below (above ++ [name]) ⟨f, none⟩ := by
  obtain ⟨⟨name, n⟩, hmem, hsome⟩ := List.mem_filterMap.mp h
  have hname : isLegalName name = true := hes _ hmem
  dsimp only at hsome
  split at hsome
  · rename_i g
    split at hsome
    · obtain rfl := Option.some.inj hsome
      exact ⟨name, g, hmem, above ++ [name], List.prefix_rfl, legal_snoc habove hname,
        Path.joinRel_relative habove hname⟩
    · cases hsome
  · cases hsome

theorem mem_of_mem_subdirectories {relPath : String} (h : name ∈ subdirectories s relPath es) :
    ∃ ds, (name, .dir ds) ∈ es := by
  obtain ⟨⟨name', n⟩, hmem, rfl⟩ := List.mem_map.mp h
  obtain ⟨hentry, hdir⟩ := List.mem_filter.mp hmem
  cases n with
  | dir ds => exact ⟨ds, hentry⟩
  | file f => cases hdir
  | link t => cases hdir

/-- The names down to a subdirectory are legal, and make up its relative path. -/
theorem subdirectory_snoc (habove : ∀ k ∈ above, isLegalName k = true)
    (hes : ∀ entry ∈ es, isLegalName entry.1 = true)
    (h : name ∈ subdirectories s (Path.relative above) es) :
    (∀ k ∈ above ++ [name], isLegalName k = true) ∧
      joinRel (Path.relative above) name = Path.relative (above ++ [name]) := by
  obtain ⟨ds, hmem⟩ := mem_of_mem_subdirectories h
  have hname : isLegalName name = true := hes _ hmem
  exact ⟨legal_snoc habove hname, Path.joinRel_relative habove hname⟩

theorem pairwise_ownSources (hw : Node.WellFormedEntries es)
    (habove : ∀ k ∈ above, isLegalName k = true)
    (hes : ∀ entry ∈ es, isLegalName entry.1 = true) :
    (ownSources s path (Path.relative above) es).Pairwise fun f g => f.relPath ≠ g.relPath := by
  -- each file comes from one entry, which is all that has to be looked at
  have hbelow : ∀ e ∈ es, ∀ f ∈ ownSources s path (Path.relative above) [e],
      ScanItem.Below (above ++ [e.1]) ⟨f, none⟩ := by
    intro e he f hf
    obtain ⟨name, g, hmem, hitem⟩ := below_of_mem_ownSources habove (by simpa using hes e he) hf
    obtain rfl := List.mem_singleton.mp hmem
    exact hitem
  refine List.pairwise_filterMap.mpr ((Node.pairwise_ne_of_wellFormed hw).imp_of_mem ?_)
  intro e d he hd hne f hf g hg
  have hf := hbelow e he f (List.mem_filterMap.mpr ⟨e, List.mem_singleton_self e, hf⟩)
  have hg := hbelow d hd g (List.mem_filterMap.mpr ⟨d, List.mem_singleton_self d, hg⟩)
  exact relPath_ne_of_below hne hf hg

theorem pairwise_subdirectories (hw : Node.WellFormedEntries es) (relPath : String) :
    (subdirectories s relPath es).Pairwise (· ≠ ·) :=
  List.pairwise_map.mpr ((Node.pairwise_ne_of_wellFormed hw).filter _)

/-! ## A directory and everything below -/

/-- What is found is a directory that cannot be looked into, or a file of the directory, or it is
found in a subdirectory. -/
theorem mem_findings {relPath : String} (h : i ∈ findings fs s levels path relPath) :
    i.file.relPath = relPath ∨ ∃ es, fs.list path = .ok es ∧
      ((∃ f ∈ ownSources s path relPath es, i = ⟨f, none⟩) ∨
        ∃ below name, levels = below + 1 ∧ name ∈ subdirectories s relPath es ∧
          i ∈ findings fs s below (Path.join path name) (joinRel relPath name)) := by
  rw [findings.eq_def] at h
  split at h
  · obtain rfl := List.mem_singleton.mp h
    exact Or.inl rfl
  · rename_i es hlist
    refine Or.inr ⟨es, hlist, ?_⟩
    rcases List.mem_append.mp h with hown | hbelow
    · obtain ⟨f, hf, rfl⟩ := List.mem_map.mp hown
      exact Or.inl ⟨f, hf, rfl⟩
    · split at hbelow
      · cases hbelow
      · rename_i below
        obtain ⟨name, hname, hi⟩ := List.mem_flatMap.mp hbelow
        exact Or.inr ⟨below, name, rfl, hname, hi⟩

theorem below_of_mem_findings (habove : ∀ k ∈ above, isLegalName k = true)
    (h : i ∈ findings fs s levels path (Path.relative above)) : i.Below above := by
  induction levels using Nat.strongRecOn generalizing path above with
  | ind levels ih =>
    rcases mem_findings h with hself | ⟨es, hlist, ⟨f, hf, rfl⟩ | ⟨below, name, rfl, hname, hi⟩⟩
    · exact ⟨above, List.prefix_rfl, habove, hself⟩
    · obtain ⟨name, g, -, hbelow⟩ := below_of_mem_ownSources habove (legal_of_list hlist).2 hf
      exact hbelow.of_snoc
    · obtain ⟨hlegal, hrel⟩ := subdirectory_snoc habove (legal_of_list hlist).2 hname
      rw [hrel] at hi
      exact (ih below (Nat.lt_succ_self below) hlegal hi).of_snoc

/-- **No relative path is found twice.** -/
theorem pairwise_findings (habove : ∀ k ∈ above, isLegalName k = true) :
    (findings fs s levels path (Path.relative above)).Pairwise
      fun i j => i.file.relPath ≠ j.file.relPath := by
  induction levels using Nat.strongRecOn generalizing path above with
  | ind levels ih =>
    rw [findings.eq_def]
    split
    · exact List.pairwise_singleton _ _
    · rename_i es hlist
      have hw := wellFormed_of_list hlist
      have hes := (legal_of_list hlist).2
      have hown : ((ownSources s path (Path.relative above) es).map fun f =>
          ScanItem.mk f none).Pairwise fun i j => i.file.relPath ≠ j.file.relPath :=
        List.pairwise_map.mpr (pairwise_ownSources hw habove hes)
      split
      · rwa [List.append_nil]
      · rename_i below
        -- what is found in a subdirectory is below its name
        have hbelow : ∀ name ∈ subdirectories s (Path.relative above) es, ∀ i ∈ findings fs s below
            (Path.join path name) (joinRel (Path.relative above) name),
            i.Below (above ++ [name]) := by
          intro name hname i hi
          obtain ⟨hlegal, hrel⟩ := subdirectory_snoc habove hes hname
          rw [hrel] at hi
          exact below_of_mem_findings hlegal hi
        refine List.pairwise_append.mpr ⟨hown, List.pairwise_flatMap.mpr ⟨?_, ?_⟩, ?_⟩
        · intro name hname
          obtain ⟨hlegal, hrel⟩ := subdirectory_snoc habove hes hname
          rw [hrel]
          exact ih below (Nat.lt_succ_self below) hlegal
        · refine (pairwise_subdirectories hw _).imp_of_mem ?_
          intro a b ha hb hne i hi j hj
          exact relPath_ne_of_below hne (hbelow a ha i hi) (hbelow b hb j hj)
        · intro i hi j hj
          obtain ⟨f, hf, rfl⟩ := List.mem_map.mp hi
          obtain ⟨a, g, hfile, hi⟩ := below_of_mem_ownSources habove hes hf
          obtain ⟨b, hb, hj⟩ := List.mem_flatMap.mp hj
          obtain ⟨ds, hdir⟩ := mem_of_mem_subdirectories hb
          refine relPath_ne_of_below ?_ hi (hbelow b hb j hj)
          -- one name has one entry, and that is a file or a directory
          rintro rfl
          have hsame := (Entries.get?_of_mem hw hfile).symm.trans (Entries.get?_of_mem hw hdir)
          cases hsame

end

theorem nodup_relPaths (fs : FileSystem) (root : String) (s : Selection) :
    ((scan fs false root s).map (·.file.relPath)).Nodup := by
  have hfound : (findings fs s (maxPathSize + 1) root (Path.relative [])).Pairwise
      fun i j => i.file.relPath ≠ j.file.relPath := pairwise_findings nofun
  rw [scan_eq_findings]
  exact List.pairwise_map.mpr hfound

end ForwardDecl
