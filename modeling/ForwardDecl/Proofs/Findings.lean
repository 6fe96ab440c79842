import ForwardDecl.Proofs.Scanning

/-! # What a scan comes upon

In a file system without links this is known from the tree alone.  `Node.finds`
reads the findings off the directory at the root, each with its location, and a
scan by paths comes upon just these (`scan_eq_finds`).  A source file that is
found stands at a location that the selection admits (`Node.place_of_mem_finds`),
every file at such a location is found (`Node.mem_finds_of_admitted`), and no location
is found twice (`Node.nodup_finds`).

A file or an empty directory that is new in the tree adds at most itself to the
findings (`Node.finds_put`).
-/
namespace ForwardDecl

/-! ## Paths of locations below a root -/

namespace Path
variable {root name : String} {names : Location}

/-- The path of the place that some names lead to from a root. -/
def below (root : String) (names : Location) : String :=
  if names = [] then root else join root (ofSegments names)

/-- The path of that place relative to the root. -/
def relative (names : Location) : String :=
  if names = [] then "." else ofSegments names

theorem below_of_ne (hne : names ≠ []) : below root names = join root (ofSegments names) :=
  if_neg hne

theorem relative_of_ne (hne : names ≠ []) : relative names = ofSegments names := if_neg hne

theorem join_below (hroot : root ≠ "") (hl : ∀ k ∈ names, isLegalName k = true)
    (hname : isLegalName name = true) :
    join (below root names) name = below root (names ++ [name]) := by
  have hone : ∀ k ∈ [name], isLegalName k = true := by simpa using hname
  have hlonger : names ++ [name] ≠ [] := by simp
  rw [below_of_ne hlonger, below]
  split
  · rename_i he
    rw [he, List.nil_append, ofSegments_singleton]
  · rename_i hne
    rw [← join_join hroot hne (List.cons_ne_nil _ _) hl hone, ofSegments_singleton]

theorem joinRel_relative (hl : ∀ k ∈ names, isLegalName k = true)
    (hname : isLegalName name = true) :
    joinRel (relative names) name = relative (names ++ [name]) := by
  have hone : ∀ k ∈ [name], isLegalName k = true := by simpa using hname
  have hlonger : names ++ [name] ≠ [] := by simp
  rw [relative_of_ne hlonger, relative, joinRel]
  by_cases hne : names = []
  · rw [if_pos hne, if_pos rfl, hne, List.nil_append, ofSegments_singleton]
  · have hdot : ofSegments names ≠ "." := by
      intro he
      have hseg := segments_ofSegments hne fun k hk => (proper_of_isLegalName (hl k hk)).2
      rw [he, show segments "." = ["."] by decide] at hseg
      exact absurd (hl "." (hseg ▸ List.mem_cons_self)) (by decide)
    rw [if_neg hne, if_neg hdot, ← join_names hne (List.cons_ne_nil _ _) hl hone,
      ofSegments_singleton]

/-- A path that can be used is at least as long as it has names below the root. -/
theorem length_le_of_pathFault? (hroot : root ≠ "") (hl : ∀ k ∈ names, isLegalName k = true)
    (h : FileSystem.pathFault? (below root names) = none) : names.length ≤ maxPathSize := by
  by_cases hne : names = []
  · rw [hne]
    exact Nat.zero_le _
  · have hsize : (below root names).utf8ByteSize ≤ maxPathSize := by
      simp only [FileSystem.pathFault?] at h
      split at h
      · cases h
      · split at h
        · cases h
        · split at h
          · cases h
          · omega
    rw [below_of_ne hne] at hsize
    exact Nat.le_trans (length_le_size_join hroot hne hl) hsize

end Path

/-! ## Findings in a tree -/

/-- A place that a scan comes upon, by its names from the root: a source file, or
a directory that cannot be looked into. -/
structure Finding where
  names : Location
  fault : Option FileFault
  deriving DecidableEq

namespace Finding

/-- The finding as a file below a root. -/
def file (root : String) (i : Finding) : SourceFile :=
  ⟨Path.below root i.names, Path.relative i.names⟩

/-- The finding as an item of a scan of a root. -/
def item (root : String) (i : Finding) : ScanItem :=
  ⟨i.file root, i.fault.map fun fault => .file ⟨.opening, Path.below root i.names, fault⟩⟩

end Finding

/-- What an entry of a directory is to a scan that looks for files in it. -/
def ownFinding? (s : Selection) (above : Location) : String × Node → Option Finding
  | (name, .file _) =>
    if s.takesFile name (Path.relative (above ++ [name])) then some ⟨above ++ [name], none⟩
    else none
  | _ => none

namespace Node

mutual

/-- What a scan of a root comes upon in a directory, which is at the location
`above` from the root. -/
def finds (root : String) (s : Selection) (above : Location) : Node → List Finding
  | dir es =>
    match FileSystem.pathFault? (Path.below root above) with
    | some fault => [⟨above, some fault⟩]
    | none => es.filterMap (ownFinding? s above) ++ findsBelow root s above es
  | _ => []
termination_by structural n => n

/-- What a scan of a root comes upon in the directories among some entries. -/
def findsBelow (root : String) (s : Selection) (above : Location) :
    List (String × Node) → List Finding
  | [] => []
  | (name, n) :: es =>
    (if s.takesDir (Path.relative (above ++ [name])) then n.finds root s (above ++ [name]) else []) ++
      findsBelow root s above es
termination_by structural es => es

end

end Node

section
variable {fs : FileSystem} {s : Selection} {root : String} {L above : Location} {es : Entries}

theorem ownSources_eq (hroot : root ≠ "") (habove : ∀ k ∈ above, isLegalName k = true)
    (hes : ∀ e ∈ es, isLegalName e.1 = true) :
    (ownSources s (Path.below root above) (Path.relative above) es).map (⟨·, none⟩) =
      (es.filterMap (ownFinding? s above)).map (Finding.item root) := by
  induction es with
  | nil => rfl
  | cons e es ih =>
    obtain ⟨hname, hrest⟩ := List.forall_mem_cons.mp hes
    obtain ⟨name, n⟩ := e
    have ih := ih hrest
    rw [ownSources] at ih ⊢
    cases n with
    | link t => exact ih
    | dir ds => exact ih
    | file f =>
      rw [List.filterMap_cons, List.filterMap_cons, ownFinding?]
      dsimp only at hname ⊢
      rw [Path.joinRel_relative habove hname]
      by_cases htakes : s.takesFile name (Path.relative (above ++ [name])) = true
      · rw [if_pos htakes, if_pos htakes, Path.join_below hroot habove hname]
        exact congrArg _ ih
      · rw [if_neg htakes, if_neg htakes]
        exact ih

theorem subdirectories_cons (s : Selection) (relPath name : String) (n : Node) (es : Entries) :
    subdirectories s relPath ((name, n) :: es) =
      (if n.isDir && s.takesDir (joinRel relPath name) then [name] else []) ++
        subdirectories s relPath es := by
  rw [subdirectories, List.filter_cons]
  dsimp only
  split <;> rfl

theorem flatMap_subdirectories {look : String → List ScanItem}
    (habove : ∀ k ∈ above, isLegalName k = true) (hes : ∀ e ∈ es, isLegalName e.1 = true)
    (hlook : ∀ name ds, (name, Node.dir ds) ∈ es →
      look name = ((Node.dir ds).finds root s (above ++ [name])).map (Finding.item root)) :
    (subdirectories s (Path.relative above) es).flatMap look =
      (Node.findsBelow root s above es).map (Finding.item root) := by
  induction es with
  | nil => rfl
  | cons e es ih =>
    obtain ⟨hname, hnames⟩ := List.forall_mem_cons.mp hes
    obtain ⟨name, n⟩ := e
    have ih := ih hnames fun k ds hk => hlook k ds (List.mem_cons_of_mem _ hk)
    rw [subdirectories_cons, List.flatMap_append, ih, Node.findsBelow, List.map_append,
      Path.joinRel_relative habove hname]
    congr 1
    cases n with
    | file f => simp [Node.isDir, Node.finds]
    | link t => simp [Node.isDir, Node.finds]
    | dir ds =>
      rw [Node.isDir, Bool.true_and]
      split
      · rw [List.flatMap_singleton, hlook name ds List.mem_cons_self]
      · rfl

/-- What stands below the location of a root is reached by its path below the
root, unless the path is no path. -/
theorem FileSystem.Leads.locate_below {n : Node} (hlf : fs.root.linkFree = true)
    (hlead : fs.Leads root L) {names : Location} (hn : fs.root.get? (L ++ names) = some n) :
    fs.locate (Path.below root names) =
      match pathFault? (Path.below root names) with
      | some fault => .error fault
      | none => .ok (.found (L ++ names) n) := by
  rw [Path.below]
  split
  · rename_i he
    rw [he, List.append_nil] at hn ⊢
    exact hlead.locate hlf hn
  · rename_i hne
    exact (hlead.below hlf hne hn).locate hlf hn

/-- The path of a root leads to a directory at the location `L`, and its path below the
root leads to every directory below that, unless the path is no path. -/
structure FileSystem.Reaches (fs : FileSystem) (root : String) (L : Location) : Prop where
  nonempty : root ≠ ""
  locate : ∀ names ds, fs.root.get? (L ++ names) = some (.dir ds) →
    fs.locate (Path.below root names) =
      match pathFault? (Path.below root names) with
      | some fault => .error fault
      | none => .ok (.found (L ++ names) (.dir ds))

theorem FileSystem.Leads.reaches (hlf : fs.root.linkFree = true) (hlead : fs.Leads root L) :
    fs.Reaches root L where
  nonempty := hlead.1
  locate _ _ hds := hlead.locate_below hlf hds

/-- **A scan by paths finds what is in the tree.**  The induction is on the levels,
of which there are enough, because each adds to the path. -/
theorem findings_eq (hreach : fs.Reaches root L) {levels : Nat}
    (hlevels : maxPathSize < above.length + levels)
    (hdir : fs.root.get? (L ++ above) = some (.dir es)) :
    findings fs s levels (Path.below root above) (Path.relative above) =
      ((Node.dir es).finds root s above).map (Finding.item root) := by
  have hroot := hreach.nonempty
  induction levels generalizing above es with
  | zero =>
    have hw := fs.wellFormed.of_get? hdir
    have habove : ∀ k ∈ above, isLegalName k = true := fun k hk =>
      hw.2 k (List.mem_append_right _ hk)
    rw [findings, FileSystem.list, hreach.locate above es hdir, Node.finds]
    cases hfault : FileSystem.pathFault? (Path.below root above) with
    | some fault => rfl
    | none =>
      -- a path with so many names is too long
      have := Path.length_le_of_pathFault? hroot habove hfault
      omega
  | succ below ih =>
    have hw := fs.wellFormed.of_get? hdir
    have habove : ∀ k ∈ above, isLegalName k = true := fun k hk =>
      hw.2 k (List.mem_append_right _ hk)
    have hes : ∀ e ∈ es, isLegalName e.1 = true := fun e he =>
      (Node.wellFormed_of_get? hw.1 (Entries.get?_of_mem hw.1 he)).2
    rw [findings, FileSystem.list, hreach.locate above es hdir, Node.finds]
    cases hfault : FileSystem.pathFault? (Path.below root above) with
    | some fault => rfl
    | none =>
      dsimp only
      rw [List.map_append, ownSources_eq hroot habove hes]
      congr 1
      refine flatMap_subdirectories habove hes fun name ds hmem => ?_
      have hname := hes _ hmem
      rw [Path.join_below hroot habove hname, Path.joinRel_relative habove hname]
      refine ih ?_ ?_
      · rw [List.length_append, List.length_singleton]
        omega
      · rw [← List.append_assoc, Node.get?_snoc hdir]
        exact Entries.get?_of_mem hw.1 hmem

theorem scan_eq_finds_of_reaches (hreach : fs.Reaches root L)
    (hdir : fs.root.get? L = some (.dir es)) :
    scan fs false root s = ((Node.dir es).finds root s []).map (Finding.item root) := by
  have hlevels : maxPathSize < ([] : Location).length + (maxPathSize + 1) := by
    rw [List.length_nil]
    omega
  rw [scan_eq_findings]
  exact findings_eq hreach hlevels (by rwa [List.append_nil])

theorem scan_eq_finds (hlf : fs.root.linkFree = true)
    (hroot : fs.locate root = .ok (.found L (.dir es))) :
    scan fs false root s = ((Node.dir es).finds root s []).map (Finding.item root) :=
  scan_eq_finds_of_reaches ((FileSystem.leads_of_locate hlf hroot).reaches hlf)
    (FileSystem.get?_of_locate hroot)

end

/-! ## What is found, and where -/

namespace Node
variable {root : String} {s : Selection} {above names : Location} {n : Node} {es : Entries}
  {i : Finding}

theorem findsBelow_eq (root : String) (s : Selection) (above : Location) (es : Entries) :
    findsBelow root s above es = es.flatMap fun e =>
      if s.takesDir (Path.relative (above ++ [e.1])) then e.2.finds root s (above ++ [e.1])
      else [] := by
  induction es with
  | nil => rfl
  | cons e es ih => rw [findsBelow, ih]; rfl

theorem names_of_ownFinding? {e : String × Node} (h : ownFinding? s above e = some i) :
    i.names = above ++ [e.1] := by
  obtain ⟨name, n⟩ := e
  cases n with
  | link t => cases h
  | dir ds => cases h
  | file f =>
    rw [ownFinding?] at h
    split at h
    · exact congrArg Finding.names (Option.some.inj h).symm
    · cases h

theorem mem_ownFindings : i ∈ es.filterMap (ownFinding? s above) ↔
    ∃ name f, (name, file f) ∈ es ∧ s.takesFile name (Path.relative (above ++ [name])) = true ∧
      i = ⟨above ++ [name], none⟩ := by
  rw [List.mem_filterMap]
  constructor
  · rintro ⟨⟨name, n⟩, hmem, hown⟩
    cases n with
    | link t => cases hown
    | dir ds => cases hown
    | file f =>
      rw [ownFinding?] at hown
      split at hown
      · rename_i htakes
        exact ⟨name, f, hmem, htakes, (Option.some.inj hown).symm⟩
      · cases hown
  · rintro ⟨name, f, hmem, htakes, rfl⟩
    exact ⟨_, hmem, by rw [ownFinding?, if_pos htakes]⟩

theorem mem_findsBelow : i ∈ findsBelow root s above es ↔
    ∃ name m, (name, m) ∈ es ∧ s.takesDir (Path.relative (above ++ [name])) = true ∧
      i ∈ m.finds root s (above ++ [name]) := by
  rw [findsBelow_eq, List.mem_flatMap]
  constructor
  · rintro ⟨⟨name, m⟩, hmem, hi⟩
    dsimp only at hi
    split at hi
    · rename_i htakes
      exact ⟨name, m, hmem, htakes, hi⟩
    · cases hi
  · rintro ⟨name, m, hmem, htakes, hi⟩
    exact ⟨_, hmem, by rw [if_pos htakes]; exact hi⟩

/-- What can be found in a directory: itself, if it cannot be looked into, or
else what is in it. -/
theorem mem_finds_dir : i ∈ (dir es).finds root s above ↔
    (∃ fault, FileSystem.pathFault? (Path.below root above) = some fault ∧
      i = ⟨above, some fault⟩) ∨
    FileSystem.pathFault? (Path.below root above) = none ∧
      (i ∈ es.filterMap (ownFinding? s above) ∨ i ∈ findsBelow root s above es) := by
  rw [finds]
  cases FileSystem.pathFault? (Path.below root above) with
  | some fault => simp
  | none => simp only [List.mem_append, reduceCtorEq, false_and, exists_false, true_and, false_or]

/-- A location that a selection admits for a file: the name is one to look for,
and every directory on the way is one to look into. -/
def Admitted (s : Selection) (above names : Location) : Prop :=
  ∃ before name, names = before ++ [name] ∧
    s.takesFile name (Path.relative (above ++ names)) = true ∧
    ∀ pre k post, before = pre ++ k :: post →
      s.takesDir (Path.relative (above ++ (pre ++ [k]))) = true

/-- A file one directory further down is admitted if the directory is. -/
theorem Admitted.cons {name : String} {names : Location}
    (htakes : s.takesDir (Path.relative (above ++ [name])) = true)
    (h : Admitted s (above ++ [name]) names) : Admitted s above (name :: names) := by
  obtain ⟨before, last, rfl, hfile, hdirs⟩ := h
  refine ⟨name :: before, last, rfl, ?_, ?_⟩
  · rwa [List.append_assoc] at hfile
  · intro pre k post hsplit
    cases pre with
    | nil =>
      obtain ⟨rfl, -⟩ := List.cons.inj hsplit
      exact htakes
    | cons k' pre =>
      obtain ⟨rfl, hrest⟩ := List.cons.inj hsplit
      have := hdirs pre k post hrest
      rwa [List.append_assoc] at this

/-- **What a scan comes upon is there.**  A source file is a file at a location
that the selection admits; anything else is a directory. -/
theorem place_of_mem_finds (hw : n.WellFormed) (hi : i ∈ n.finds root s above) :
    ∃ names m, i.names = above ++ names ∧ n.get? names = some m ∧
      (i.fault = none → (∃ f, m = file f) ∧ Admitted s above names) ∧
      (i.fault ≠ none → ∃ es, m = dir es) := by
  induction n using inductOn generalizing above with
  | file f => cases hi
  | link t => cases hi
  | dir es ih =>
    rcases mem_finds_dir.mp hi with ⟨fault, -, rfl⟩ | ⟨-, hown | hbelow⟩
    · refine ⟨[], dir es, (List.append_nil _).symm, get?_nil _, (fun h => nomatch h), ?_⟩
      exact fun _ => ⟨es, rfl⟩
    · obtain ⟨name, f, hmem, htakes, rfl⟩ := mem_ownFindings.mp hown
      refine ⟨[name], file f, rfl, ?_, ?_, fun h => absurd rfl h⟩
      · rw [get?_dir_cons, Entries.get?_of_mem hw hmem]
        rfl
      · exact fun _ => ⟨⟨f, rfl⟩, [], name, rfl, htakes, fun pre k post h => by simp at h⟩
    · obtain ⟨name, m, hmem, htakes, hi⟩ := mem_findsBelow.mp hbelow
      have hget := Entries.get?_of_mem hw hmem
      obtain ⟨names, m', hnames, hm', hfile, hdir⟩ :=
        ih _ hmem (wellFormed_of_get? hw hget).1 hi
      refine ⟨name :: names, m', ?_, ?_, fun h => ⟨(hfile h).1, (hfile h).2.cons htakes⟩, hdir⟩
      · rw [hnames, List.append_assoc]
        rfl
      · rw [get?_dir_cons, hget]
        exact hm'

/-- What is found in a directory is below it. -/
theorem prefix_of_mem_finds (hi : i ∈ n.finds root s above) : above <+: i.names := by
  induction n using inductOn generalizing above with
  | file f => cases hi
  | link t => cases hi
  | dir es ih =>
    rcases mem_finds_dir.mp hi with ⟨fault, -, rfl⟩ | ⟨-, hown | hbelow⟩
    · exact List.prefix_refl _
    · obtain ⟨name, f, -, -, rfl⟩ := mem_ownFindings.mp hown
      exact List.prefix_append _ _
    · obtain ⟨name, m, hmem, -, hi⟩ := mem_findsBelow.mp hbelow
      exact (List.prefix_append _ _).trans (ih _ hmem hi)

/-- The directories on the way to a finding could be looked into. -/
theorem opened_of_mem_finds (hi : i ∈ n.finds root s above) {dir : Location} (hdir : above <+: dir)
    (hpre : dir <+: i.names) (hne : dir ≠ i.names) :
    FileSystem.pathFault? (Path.below root dir) = none := by
  induction n using inductOn generalizing above with
  | file f => cases hi
  | link t => cases hi
  | dir es ih =>
    rcases mem_finds_dir.mp hi with ⟨fault, -, rfl⟩ | ⟨hopen, hown | hbelow⟩
    · exact absurd (hpre.eq_of_length (Nat.le_antisymm hpre.length_le hdir.length_le)) hne
    · obtain ⟨name, f, -, -, rfl⟩ := mem_ownFindings.mp hown
      rcases List.prefix_concat_iff.mp hpre with heq | hpre
      · exact absurd heq hne
      · rwa [hpre.eq_of_length (Nat.le_antisymm hpre.length_le hdir.length_le)]
    · obtain ⟨name, m, hmem, -, hi⟩ := mem_findsBelow.mp hbelow
      by_cases habove : dir = above
      · rwa [habove]
      · have hlonger : above ++ [name] <+: dir := by
          refine List.prefix_of_prefix_length_le (prefix_of_mem_finds hi) hpre ?_
          have hlen : above.length ≠ dir.length := fun h => habove (hdir.eq_of_length h).symm
          have := hdir.length_le
          rw [List.length_append, List.length_singleton]
          omega
        exact ih _ hmem hi hlonger

/-- **A file that is looked for is found**, if the directories on the way can be looked
into. -/
theorem mem_finds_of_admitted {f : File} (hget : n.get? names = some (file f))
    (hadmitted : Admitted s above names)
    (hopen : ∀ dir, dir <+: names → dir ≠ names →
      FileSystem.pathFault? (Path.below root (above ++ dir)) = none) :
    ⟨above ++ names, none⟩ ∈ n.finds root s above := by
  induction names generalizing n above with
  | nil =>
    obtain ⟨before, name, hnames, -⟩ := hadmitted
    exact absurd hnames.symm (List.append_ne_nil_of_right_ne_nil _ (List.cons_ne_nil _ _))
  | cons name names ih =>
    obtain ⟨before, last, hnames, hfile, hdirs⟩ := hadmitted
    cases n with
    | file g => cases hget
    | link t => cases hget
    | dir es =>
      rw [get?_dir_cons] at hget
      obtain ⟨m, hm, hbelow⟩ := Option.bind_eq_some_iff.mp hget
      have hmem := Entries.mem_of_get? hm
      have hhere := hopen [] List.nil_prefix (List.cons_ne_nil _ _).symm
      rw [List.append_nil] at hhere
      refine mem_finds_dir.mpr (Or.inr ⟨hhere, ?_⟩)
      cases before with
      | nil =>
        obtain ⟨rfl, rfl⟩ := List.cons.inj hnames
        rw [get?_nil] at hbelow
        obtain rfl := Option.some.inj hbelow
        exact Or.inl (mem_ownFindings.mpr ⟨name, f, hmem, hfile, rfl⟩)
      | cons k before =>
        obtain ⟨rfl, rfl⟩ := List.cons.inj hnames
        have htakes := hdirs [] name before rfl
        have hadmitted : Admitted s (above ++ [name]) (before ++ [last]) := by
          refine ⟨before, last, rfl, ?_, ?_⟩
          · rwa [List.append_assoc]
          · intro pre k post hsplit
            have := hdirs (name :: pre) k post (by rw [hsplit, List.cons_append])
            rwa [List.append_assoc]
        refine Or.inr (mem_findsBelow.mpr ⟨name, m, hmem, htakes, ?_⟩)
        have hopen : ∀ dir, dir <+: before ++ [last] → dir ≠ before ++ [last] →
            FileSystem.pathFault? (Path.below root (above ++ [name] ++ dir)) = none := by
          intro dir hdir hne
          have := hopen (name :: dir) (List.cons_prefix_cons.mpr ⟨rfl, hdir⟩) fun h =>
            hne (List.cons.inj h).2
          rwa [List.append_assoc]
        have hfound := ih hbelow hadmitted hopen
        rwa [List.append_assoc] at hfound

theorem pairwise_ne_of_wellFormed (hw : WellFormedEntries es) :
    es.Pairwise fun e d => e.1 ≠ d.1 := by
  induction es with
  | nil => exact .nil
  | cons e es ih => exact .cons (fun d hd => Entries.ne_of_mem hw hd) (ih hw.2.2.2)

/-- Names below two entries of a directory are never the same. -/
theorem names_ne_of_ne {a b : String} {names names' : Location} (hne : a ≠ b)
    (ha : above ++ [a] <+: names) (hb : above ++ [b] <+: names') : names ≠ names' := by
  rintro rfl
  have heq : above ++ [a] = above ++ [b] :=
    List.IsPrefix.eq_of_length (List.prefix_of_prefix_length_le ha hb (by simp)) (by simp)
  exact hne (List.singleton_inj.mp (List.append_cancel_left heq))

/-- **No location is found twice.** -/
theorem nodup_finds (root : String) (s : Selection) (above : Location) (hw : n.WellFormed) :
    (n.finds root s above).Pairwise fun i j => i.names ≠ j.names := by
  induction n using inductOn generalizing above with
  | file f => exact .nil
  | link t => exact .nil
  | dir es ih =>
    have hkeys := pairwise_ne_of_wellFormed hw
    rw [finds]
    cases FileSystem.pathFault? (Path.below root above) with
    | some fault => exact List.pairwise_singleton _ _
    | none =>
      refine List.pairwise_append.mpr ⟨?_, ?_, ?_⟩
      · refine List.pairwise_filterMap.mpr (hkeys.imp ?_)
        intro e d hne i hi j hj heq
        rw [names_of_ownFinding? hi, names_of_ownFinding? hj] at heq
        exact hne (List.singleton_inj.mp (List.append_cancel_left heq))
      · rw [findsBelow_eq]
        refine List.pairwise_flatMap.mpr ⟨?_, ?_⟩
        · intro e he
          split
          · exact ih e he _ (wellFormed_of_get? hw (Entries.get?_of_mem hw he)).1
          · exact .nil
        · refine hkeys.imp ?_
          intro e d hne i hi j hj
          split at hi
          · split at hj
            · exact names_ne_of_ne hne (prefix_of_mem_finds hi) (prefix_of_mem_finds hj)
            · cases hj
          · cases hi
      · intro i hi j hj
        obtain ⟨name, f, hmem, -, rfl⟩ := mem_ownFindings.mp hi
        obtain ⟨name', m, hmem', -, hj⟩ := mem_findsBelow.mp hj
        by_cases hname : name = name'
        · -- a file, in which nothing is found
          subst hname
          have := (Entries.get?_of_mem hw hmem).symm.trans (Entries.get?_of_mem hw hmem')
          obtain rfl := Option.some.inj this
          cases hj
        · exact names_ne_of_ne hname (List.prefix_refl _) (prefix_of_mem_finds hj)

/-! ## New entries -/

section
variable {p : Finding → Bool} {new : Node} {loc : Location}

theorem findsBelow_append (root : String) (s : Selection) (above : Location) (es ds : Entries) :
    findsBelow root s above (es ++ ds) =
      findsBelow root s above es ++ findsBelow root s above ds := by
  rw [findsBelow_eq, findsBelow_eq, findsBelow_eq, List.flatMap_append]

theorem findsBelow_singleton (root : String) (s : Selection) (above : Location) (name : String)
    (n : Node) : findsBelow root s above [(name, n)] =
      if s.takesDir (Path.relative (above ++ [name])) then n.finds root s (above ++ [name])
      else [] := by
  rw [findsBelow_eq, List.flatMap_singleton]

/-- What has room for something new is a directory, and stays one. -/
theorem dir_of_room (hroom : n.Room loc) (hfree : n.get? loc = none) (new : Node) :
    ∃ es es', n = dir es ∧ put new n loc = dir es' := by
  cases loc with
  | nil =>
    rw [get?_nil] at hfree
    cases hfree
  | cons name rest =>
    cases n with
    | file f => exact absurd hroom id
    | link t => exact absurd hroom id
    | dir es =>
      rw [put]
      split
      · exact ⟨_, _, rfl, rfl⟩
      · split <;> exact ⟨_, _, rfl, rfl⟩

/-- Some entries of a directory can be exchanged for others in which the same is
found. -/
theorem filter_finds_exchange {mid mid' : Entries}
    (hown : (mid.filterMap (ownFinding? s above)).filter p =
      (mid'.filterMap (ownFinding? s above)).filter p)
    (hbelow : (findsBelow root s above mid).filter p = (findsBelow root s above mid').filter p)
    (before after : Entries) : ((dir (before ++ mid ++ after)).finds root s above).filter p =
      ((dir (before ++ mid' ++ after)).finds root s above).filter p := by
  rw [finds, finds]
  cases FileSystem.pathFault? (Path.below root above) with
  | some fault => rfl
  | none => simp only [List.filterMap_append, findsBelow_append, List.filter_append, hown, hbelow]

/-- A new file adds at most itself to what is found, and a new directory, which is
empty, adds nothing if it can be looked into. -/
inductive Unfound (root : String) (p : Finding → Bool) (loc : Location) : Node → Prop
  | file (f : File) (h : p ⟨loc, none⟩ = false) : Unfound root p loc (.file f)
  | dir (h : FileSystem.pathFault? (Path.below root loc) = none) : Unfound root p loc (.dir [])

theorem Unfound.own {name : String} (h : Unfound root p (above ++ [name]) new) :
    ([(name, new)].filterMap (ownFinding? s above)).filter p =
      (([] : Entries).filterMap (ownFinding? s above)).filter p := by
  cases h with
  | dir _ => rfl
  | file f hp =>
    rw [List.filterMap_cons, ownFinding?]
    by_cases htakes : s.takesFile name (Path.relative (above ++ [name])) = true
    · rw [if_pos htakes]
      exact List.filter_cons_of_neg (by rw [hp]; decide)
    · rw [if_neg htakes]

theorem Unfound.below {name : String} (h : Unfound root p (above ++ [name]) new) :
    (findsBelow root s above [(name, new)]).filter p =
      (findsBelow root s above []).filter p := by
  rw [findsBelow_singleton]
  cases h with
  | file f _ => split <;> rfl
  | dir hopen =>
    rw [finds, hopen]
    split <;> rfl

/-- **What is new adds at most itself to the findings.** -/
theorem finds_put (hw : n.WellFormed) (hroom : n.Room loc) (hfree : n.get? loc = none)
    (hnew : Unfound root p (above ++ loc) new) :
    ((put new n loc).finds root s above).filter p = (n.finds root s above).filter p := by
  induction loc generalizing n above with
  | nil =>
    rw [get?_nil] at hfree
    cases hfree
  | cons name rest ih =>
    cases n with
    | file f => exact absurd hroom id
    | link t => exact absurd hroom id
    | dir es =>
      rw [Room] at hroom
      rw [get?_dir_cons] at hfree
      rw [put]
      cases hm : Entries.get? es name with
      | none =>
        rw [hm] at hroom
        obtain ⟨rfl, hlegal⟩ := hroom
        dsimp only
        rw [if_pos ⟨rfl, hlegal⟩]
        obtain ⟨before, after, rfl, hins⟩ := Entries.insert_of_none hm new
        rw [hins, List.append_cons]
        simpa using filter_finds_exchange hnew.own hnew.below before after
      | some m =>
        rw [hm] at hroom hfree
        dsimp only at hroom ⊢
        have hmw := (wellFormed_of_get? hw hm).1
        obtain ⟨before, after, rfl, hins⟩ := Entries.insert_of_some hw hm (put new m rest)
        rw [hins, List.append_cons, List.append_cons before (name, m)]
        -- the entry is a directory before and after, because there is room in it
        obtain ⟨ds, ds', hds, hput⟩ := dir_of_room hroom hfree new
        rw [List.append_cons] at hnew
        have hbelow : (findsBelow root s above [(name, put new m rest)]).filter p =
            (findsBelow root s above [(name, m)]).filter p := by
          rw [findsBelow_singleton, findsBelow_singleton]
          split
          · exact ih hmw hroom hfree hnew
          · rfl
        refine filter_finds_exchange ?_ hbelow before after
        rw [hput, hds]
        rfl

end
end Node
end ForwardDecl
