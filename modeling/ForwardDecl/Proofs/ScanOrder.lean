import ForwardDecl.Proofs.LinkedRoots

/-! # What a scan yields, and in which order

A scan of a root yields the source files that it is for (`Wanted`), each of them once,
and passes over the directories that cannot be looked into.  The order is not the
order of the paths: the files of a directory come first, in the order of the bytes of
their names, and then its subdirectories, in the same order, each as a whole
(`Precedes`).

The root may be behind links, as long as it is straight.  The trees may hold links,
which lead nowhere here: a location is a list of real directories.
-/
namespace ForwardDecl

/-! ## Names in the order of their bytes -/

/-- The bytes of a name. -/
def bytesOf (name : String) : List UInt8 := name.toUTF8.data.toList

theorem bytesOf_eq (name : String) : bytesOf name = name.toList.flatMap String.utf8EncodeChar := by
  have hbytes : ∀ cs : List Char,
      (String.ofList cs).toUTF8.data.toList = cs.flatMap String.utf8EncodeChar := by
    intro cs
    rw [String.toUTF8_eq_toByteArray, String.toByteArray_ofList, List.utf8Encode]
    simp
  have := hbytes name.toList
  rwa [String.ofList_toList] at this

/-- The code of a smaller character is smaller, whatever comes after it. -/
theorem utf8EncodeChar_lt {c d : Char} (h : c < d) (xs ys : List UInt8) :
    String.utf8EncodeChar c ++ xs < String.utf8EncodeChar d ++ ys := by
  have hlt : c.val.toNat < d.val.toNat := h
  have hmax : d.val.toNat < 0x110000 := by
    rcases d.valid with hlow | ⟨-, hhigh⟩
    · exact Nat.lt_trans hlow (by decide)
    · exact hhigh
  simp only [String.utf8EncodeChar]
  generalize c.val.toNat = v at hlt
  generalize d.val.toNat = w at hlt hmax
  -- the digits of a code, six bits each
  have hdigits : ∀ v : Nat, v / 64 / 64 = v / 4096 ∧ v / 4096 / 64 = v / 262144 := by omega
  have hv := hdigits v
  have hw := hdigits w
  repeat' split
  all_goals
    simp only [List.cons_append, List.cons_lt_cons_iff, UInt8.lt_iff_toNat_lt, ← UInt8.toNat_inj,
      UInt8.toNat_ofNat', List.nil_append]
    simp (disch := omega) only [Nat.mod_eq_of_lt]
    omega

/-- Names stand in the order of their bytes. -/
theorem bytesOf_lt {a b : String} (h : a < b) : bytesOf a < bytesOf b := by
  rw [bytesOf_eq, bytesOf_eq]
  rw [String.lt_iff] at h
  generalize a.toList = cs at h
  generalize b.toList = ds at h
  induction h with
  | @nil d ds =>
    rw [List.flatMap_nil, List.flatMap_cons]
    have hne : String.utf8EncodeChar d ++ ds.flatMap String.utf8EncodeChar ≠ [] := by simp
    obtain ⟨x, xs, hxs⟩ := List.exists_cons_of_ne_nil hne
    rw [hxs]
    exact List.nil_lt_cons _ _
  | cons h ih =>
    rw [List.flatMap_cons, List.flatMap_cons]
    exact List.append_left_lt ih
  | rel h =>
    rw [List.flatMap_cons, List.flatMap_cons]
    exact utf8EncodeChar_lt h _ _

/-! ## The order of locations -/

/-- Which of two files below a directory comes first. -/
inductive Precedes : Location → Location → Prop
  /-- Of two files of the directory the one with the smaller name. -/
  | files {a b : String} (h : bytesOf a < bytesOf b) : Precedes [a] [b]
  /-- A file of the directory comes before those of its subdirectories. -/
  | deeper (a b : String) {names : Location} (hne : names ≠ []) : Precedes [a] (b :: names)
  /-- Of files of two subdirectories the one of the subdirectory with the smaller name. -/
  | dirs {a b : String} {names names' : Location} (h : bytesOf a < bytesOf b)
      (hne : names ≠ []) (hne' : names' ≠ []) : Precedes (a :: names) (b :: names')
  /-- Files of one subdirectory stand in the order that they have there. -/
  | within (name : String) {names names' : Location} (h : Precedes names names') :
      Precedes (name :: names) (name :: names')

namespace Precedes
variable {dir x y z : Location}

theorem ne_nil_right (h : Precedes x y) : y ≠ [] := by
  cases h <;> exact List.cons_ne_nil _ _

theorem ne (h : Precedes x y) : x ≠ y := by
  induction h with
  | files h =>
    rintro ⟨⟩
    exact List.lt_irrefl _ h
  | deeper a b hne =>
    rintro ⟨⟩
    exact hne rfl
  | dirs h _ _ =>
    rintro ⟨⟩
    exact List.lt_irrefl _ h
  | within name _ ih => exact fun heq => ih (List.cons.inj heq).2

/-- What comes between two files below a directory is below it. -/
theorem between (hx : x ≠ []) (hxy : Precedes (dir ++ x) y) (hyz : Precedes y (dir ++ z)) :
    ∃ w, w ≠ [] ∧ y = dir ++ w := by
  induction dir generalizing y with
  | nil => exact ⟨y, hxy.ne_nil_right, rfl⟩
  | cons name dir ih =>
    have hdx : dir ++ x ≠ [] := List.append_ne_nil_of_right_ne_nil _ hx
    rw [List.cons_append] at hxy hyz
    generalize dir ++ x = dx at hdx hxy ih
    generalize dir ++ z = dz at hyz ih
    cases hxy with
    | files _ => exact absurd rfl hdx
    | deeper _ _ _ => exact absurd rfl hdx
    | within _ h =>
      cases hyz with
      | files _ => exact absurd rfl h.ne_nil_right
      | deeper _ _ _ => exact absurd rfl h.ne_nil_right
      | dirs hlt _ _ => exact absurd hlt (List.lt_irrefl _)
      | within _ h' =>
        obtain ⟨w, hw, rfl⟩ := ih h h'
        exact ⟨w, hw, rfl⟩
    | dirs hlt _ hne =>
      -- the file in between would have to be on both sides of the directory
      cases hyz with
      | files _ => exact absurd rfl hne
      | deeper _ _ _ => exact absurd rfl hne
      | dirs hlt' _ _ => exact absurd hlt (List.lt_asymm hlt')
      | within _ _ => exact absurd hlt (List.lt_irrefl _)

end Precedes

namespace Node
variable {root : String} {s : Selection} {above names : Location} {n : Node} {es : Entries}
  {i : Finding}

/-! ## Findings stand in order -/

/-- A source file that is found in a directory has a name there. -/
theorem names_of_mem_finds (hw : n.WellFormed) (hi : i ∈ n.finds root s above)
    (hsource : i.fault = none) : ∃ names, names ≠ [] ∧ i.names = above ++ names := by
  obtain ⟨names, m, hnames, -, hfile, -⟩ := place_of_mem_finds hw hi
  obtain ⟨-, before, name, rfl, -⟩ := hfile hsource
  exact ⟨_, List.append_ne_nil_of_right_ne_nil _ (List.cons_ne_nil _ _), hnames⟩

theorem pairwise_lt_of_wellFormed (hw : WellFormedEntries es) :
    es.Pairwise fun e d => e.1 < d.1 := by
  induction es with
  | nil => exact .nil
  | cons e es ih => exact .cons hw.2.2.1 (ih hw.2.2.2)

/-- Two findings stand in the order of a scan of the directory at `above`, if both are
source files. -/
def InOrder (above : Location) (i j : Finding) : Prop :=
  i.fault = none → j.fault = none →
    ∃ x y, i.names = above ++ x ∧ j.names = above ++ y ∧ Precedes x y

/-- What is in order in a subdirectory is in order above it. -/
theorem InOrder.within {name : String} {j : Finding} (h : InOrder (above ++ [name]) i j) :
    InOrder above i j := by
  intro hi hj
  obtain ⟨x, y, hx, hy, hxy⟩ := h hi hj
  rw [List.append_assoc] at hx hy
  exact ⟨_, _, hx, hy, .within name hxy⟩

/-- **Source files are found in order.** -/
theorem pairwise_finds (root : String) (s : Selection) (above : Location) (hw : n.WellFormed) :
    (n.finds root s above).Pairwise (InOrder above) := by
  induction n using inductOn generalizing above with
  | file f => exact .nil
  | link t => exact .nil
  | dir es ih =>
    have hkeys := pairwise_lt_of_wellFormed hw
    have hbelow : ∀ e ∈ es, e.2.WellFormed := fun e he =>
      (wellFormed_of_get? hw (Entries.get?_of_mem hw he)).1
    rw [finds]
    cases FileSystem.pathFault? (Path.below root above) with
    | some fault => exact List.pairwise_singleton _ _
    | none =>
      refine List.pairwise_append.mpr ⟨?_, ?_, ?_⟩
      · refine List.pairwise_filterMap.mpr (hkeys.imp ?_)
        intro e d hlt i hi j hj _ _
        exact ⟨_, _, names_of_ownFinding? hi, names_of_ownFinding? hj, .files (bytesOf_lt hlt)⟩
      · rw [findsBelow_eq]
        refine List.pairwise_flatMap.mpr ⟨?_, ?_⟩
        · intro e he
          split
          · exact (ih e he _ (hbelow e he)).imp InOrder.within
          · exact .nil
        · refine hkeys.imp_of_mem ?_
          intro e d he hd hlt i hi j hj hisource hjsource
          split at hi
          · split at hj
            · obtain ⟨x, hx, hix⟩ := names_of_mem_finds (hbelow e he) hi hisource
              obtain ⟨y, hy, hjy⟩ := names_of_mem_finds (hbelow d hd) hj hjsource
              rw [List.append_assoc] at hix hjy
              exact ⟨_, _, hix, hjy, .dirs (bytesOf_lt hlt) hx hy⟩
            · cases hj
          · cases hi
      · intro i hi j hj _ hjsource
        obtain ⟨name, f, -, -, rfl⟩ := mem_ownFindings.mp hi
        obtain ⟨name', m, hmem, -, hj⟩ := mem_findsBelow.mp hj
        obtain ⟨y, hy, hjy⟩ := names_of_mem_finds (hbelow _ hmem) hj hjsource
        rw [List.append_assoc] at hjy
        exact ⟨_, _, rfl, hjy, .deeper name name' hy⟩

end Node

/-! ## What is yielded -/

/-- The source files among what a scan comes upon. -/
def sourcesOf (items : List ScanItem) : List SourceFile :=
  (items.filter (·.failure.isNone)).map ScanItem.file

/-- The source file at a location below a root. -/
def sourceAt (root : String) (names : Location) : SourceFile :=
  ⟨Path.join root (Path.ofSegments names), Path.ofSegments names⟩

/-- The locations of the source files that a scan of a root is for. -/
structure Sought (fs : FileSystem) (root : String) (s : Selection) (names : Location) : Prop where
  /-- There is a file, which is reached from the root through directories only. -/
  isFile : ∃ L es f, fs.locate root = .ok (.found L (.dir es)) ∧
    (Node.dir es).get? names = some (.file f)
  /-- Its name has the suffix. -/
  named : ∃ name, names.getLast? = some name ∧ s.suffix.toList <:+ name.toList
  /-- It is not ignored. -/
  notIgnored : Path.ofSegments names ∉ s.ignoreFiles
  /-- No directory on the way is ignored. -/
  entered : ∀ dir, dir <+: names → dir ≠ [] → dir ≠ names → Path.ofSegments dir ∉ s.ignoreDirs

/-- Those of them that can be come upon: the directories on the way are not too far from
the root for a path. -/
structure Wanted (fs : FileSystem) (root : String) (s : Selection) (names : Location) : Prop
    extends Sought fs root s names where
  near : ∀ dir, dir <+: names → dir ≠ [] → dir ≠ names →
    (Path.join root (Path.ofSegments dir)).utf8ByteSize ≤ maxPathSize

section
variable {fs : FileSystem} {root : String} {s : Selection} {names : Location} {L : Location}
  {es : Entries}

theorem Selection.takesFile_iff {name relPath : String} : s.takesFile name relPath = true ↔
    s.suffix.toList <:+ name.toList ∧ relPath ∉ s.ignoreFiles := by
  rw [takesFile, Bool.and_eq_true, List.isSuffixOf_iff_suffix, Bool.not_eq_true',
    List.contains_eq_mem, decide_eq_false_iff_not]

theorem Selection.takesDir_iff {relPath : String} :
    s.takesDir relPath = true ↔ relPath ∉ s.ignoreDirs := by
  rw [takesDir, Bool.not_eq_true', List.contains_eq_mem, decide_eq_false_iff_not]

/-- The directories above a file are the beginnings of its location. -/
theorem admitted_iff : Node.Admitted s [] names ↔
    (∃ name, names.getLast? = some name ∧ s.suffix.toList <:+ name.toList) ∧
      Path.ofSegments names ∉ s.ignoreFiles ∧
      ∀ dir, dir <+: names → dir ≠ [] → dir ≠ names → Path.ofSegments dir ∉ s.ignoreDirs := by
  constructor
  · rintro ⟨before, name, rfl, hfile, hdirs⟩
    rw [List.nil_append, Path.relative_of_ne (by simp), Selection.takesFile_iff] at hfile
    refine ⟨⟨name, by simp, hfile.1⟩, hfile.2, fun dir hpre hne hproper => ?_⟩
    obtain ⟨rest, rfl⟩ := (List.prefix_concat_iff.mp hpre).resolve_left hproper
    obtain ⟨pre, k, rfl⟩ := (List.eq_nil_or_concat dir).resolve_left hne
    rw [List.concat_eq_append]
    have htakes := hdirs pre k rest (by simp)
    rwa [List.nil_append, Path.relative_of_ne (by simp), Selection.takesDir_iff] at htakes
  · rintro ⟨⟨name, hlast, hsuffix⟩, hfile, hdirs⟩
    obtain ⟨before, rfl⟩ := List.getLast?_eq_some_iff.mp hlast
    refine ⟨before, name, rfl, ?_, fun pre k post hsplit => ?_⟩
    · rw [List.nil_append, Path.relative_of_ne (by simp), Selection.takesFile_iff]
      exact ⟨hsuffix, hfile⟩
    · rw [List.nil_append, Path.relative_of_ne (by simp), Selection.takesDir_iff]
      subst hsplit
      refine hdirs _ ⟨post ++ [name], by simp⟩ (by simp) fun h => ?_
      have := congrArg List.length h
      simp at this

/-- All that can be wrong with the path of a directory below a root is its size. -/
theorem pathFault?_below_iff (hroot : FileSystem.pathFault? root = none) (hne : names ≠ [])
    (hl : ∀ k ∈ names, isLegalName k = true) :
    FileSystem.pathFault? (Path.below root names) = none ↔
      (Path.join root (Path.ofSegments names)).utf8ByteSize ≤ maxPathSize := by
  have hempty : root ≠ "" := by
    rintro rfl
    exact absurd hroot (by decide)
  have hnul : '\x00' ∉ (Path.join root (Path.ofSegments names)).toList := by
    intro hmem
    rcases Path.mem_join hempty hne hl hmem with h | h | ⟨k, hk, h⟩
    · exact absurd h (by decide)
    · rw [FileSystem.pathFault?, if_pos (List.contains_iff_mem.mpr h)] at hroot
      cases hroot
    · have hlegal := hl k hk
      simp only [isLegalName, Bool.and_eq_true, Bool.not_eq_true', List.contains_eq_mem,
        decide_eq_false_iff_not] at hlegal
      exact hlegal.1.2 h
  rw [Path.below_of_ne hne, FileSystem.pathFault?, if_neg (by simpa using hnul),
    if_neg (Path.join_ne_empty hempty hne hl)]
  split
  · rename_i hlong
    exact iff_of_false (Option.some_ne_none _) (Nat.not_le.mpr hlong)
  · rename_i hshort
    exact iff_of_true rfl (Nat.le_of_not_lt hshort)

/-- **What is found is what is wanted.** -/
theorem mem_finds_iff_wanted (hroot : fs.locate root = .ok (.found L (.dir es))) :
    ⟨names, none⟩ ∈ (Node.dir es).finds root s [] ↔ Wanted fs root s names := by
  have hw := (fs.wellFormed.of_get? (FileSystem.get?_of_locate hroot)).1
  have hopen := FileSystem.pathFault?_of_locate hroot
  constructor
  · intro hmem
    obtain ⟨names', m, rfl, hget, hfile, -⟩ := Node.place_of_mem_finds hw hmem
    obtain ⟨⟨f, rfl⟩, hadmitted⟩ := hfile rfl
    obtain ⟨hnamed, hnot, hdirs⟩ := admitted_iff.mp hadmitted
    refine ⟨⟨⟨L, es, f, hroot, hget⟩, hnamed, hnot, hdirs⟩, fun dir hpre hne hproper => ?_⟩
    have hlegal : ∀ k ∈ dir, isLegalName k = true := fun k hk =>
      (hw.of_get? hget).2 k (hpre.mem hk)
    have hfault := Node.opened_of_mem_finds hmem List.nil_prefix hpre hproper
    exact (pathFault?_below_iff hopen hne hlegal).mp hfault
  · rintro ⟨⟨⟨L', es', f, hroot', hget⟩, hnamed, hnot, hdirs⟩, hnear⟩
    obtain ⟨-, hes⟩ := Target.found.inj (Except.ok.inj (hroot.symm.trans hroot'))
    obtain rfl := Node.dir.inj hes
    have hadmitted : Node.Admitted s [] names := admitted_iff.mpr ⟨hnamed, hnot, hdirs⟩
    refine Node.mem_finds_of_admitted hget hadmitted fun dir hpre hproper => ?_
    rw [List.nil_append]
    by_cases hne : dir = []
    · rw [hne]
      exact hopen
    · have hlegal : ∀ k ∈ dir, isLegalName k = true := fun k hk =>
        (hw.of_get? hget).2 k (hpre.mem hk)
      exact (pathFault?_below_iff hopen hne hlegal).mpr (hnear dir hpre hne hproper)

/-- A root that is no directory has nothing below it. -/
theorem sourcesOf_scan_of_not_dir (h : ∀ L es, fs.locate root ≠ .ok (.found L (.dir es))) :
    sourcesOf (scan fs false root s) = [] := by
  have hlist : ∃ cause, fs.list root = .error cause := by
    cases hroot : fs.locate root with
    | error fault => exact ⟨_, by rw [FileSystem.list, hroot]⟩
    | ok t =>
      cases t with
      | absent loc => exact ⟨_, by rw [FileSystem.list, hroot]⟩
      | found L n =>
        cases n with
        | file f => exact ⟨⟨.opening, root, .notDirectory⟩, by rw [FileSystem.list, hroot]⟩
        | link t => exact ⟨⟨.opening, root, .notDirectory⟩, by rw [FileSystem.list, hroot]⟩
        | dir es => exact absurd hroot (h L es)
  obtain ⟨cause, hcause⟩ := hlist
  rw [scan_eq_findings, findings, hcause]
  rfl

/-- The source files of a scan, by the locations at which they are found. -/
theorem sourcesOf_scan (hreach : fs.Reaches root L) (hdir : fs.root.get? L = some (.dir es)) :
    sourcesOf (scan fs false root s) =
      ((((Node.dir es).finds root s []).filter (·.fault.isNone)).map Finding.names).map
        (sourceAt root) := by
  have hw := (fs.wellFormed.of_get? hdir).1
  have hnone : ∀ i : Finding, (i.item root).failure.isNone = i.fault.isNone := by
    intro i
    rw [Finding.item, Option.isNone_map]
  rw [scan_eq_finds_of_reaches hreach hdir, sourcesOf, List.filter_map, List.map_map, List.map_map]
  simp only [Function.comp_def, hnone]
  refine List.map_congr_left fun i hi => ?_
  obtain ⟨hmem, hsource⟩ := List.mem_filter.mp hi
  obtain ⟨names, hne, hnames⟩ :=
    Node.names_of_mem_finds hw hmem (Option.isNone_iff_eq_none.mp hsource)
  rw [List.nil_append] at hnames
  rw [Finding.item, Finding.file, hnames, Path.below_of_ne hne, Path.relative_of_ne hne, sourceAt]

/-- **The locations of what a scan yields are the wanted ones, in order.** -/
theorem exists_locations (s : Selection) (hstraight : fs.Straight root) : ∃ locs : List Location,
    sourcesOf (scan fs false root s) = locs.map (sourceAt root) ∧
      (∀ names, names ∈ locs ↔ Wanted fs root s names) ∧ locs.Pairwise Precedes := by
  by_cases hdir : ∃ L es, fs.locate root = .ok (.found L (.dir es))
  · obtain ⟨L, es, hroot⟩ := hdir
    have hget := FileSystem.get?_of_locate hroot
    have hw := (fs.wellFormed.of_get? hget).1
    refine ⟨_, sourcesOf_scan (hstraight.reaches hroot) hget, fun names => ?_, ?_⟩
    · rw [← mem_finds_iff_wanted hroot]
      constructor
      · intro hmem
        obtain ⟨i, hi, rfl⟩ := List.mem_map.mp hmem
        obtain ⟨hi, hsource⟩ := List.mem_filter.mp hi
        rwa [← Option.isNone_iff_eq_none.mp hsource]
      · intro hmem
        exact List.mem_map.mpr ⟨_, List.mem_filter.mpr ⟨hmem, rfl⟩, rfl⟩
    · rw [List.pairwise_map, List.pairwise_filter]
      refine (Node.pairwise_finds root s [] hw).imp fun hij hi hj => ?_
      obtain ⟨x, y, hx, hy, hxy⟩ :=
        hij (Option.isNone_iff_eq_none.mp hi) (Option.isNone_iff_eq_none.mp hj)
      rwa [hx, hy]
  · have hnone : ∀ L es, fs.locate root ≠ .ok (.found L (.dir es)) := fun L es h =>
      hdir ⟨L, es, h⟩
    refine ⟨[], sourcesOf_scan_of_not_dir hnone, fun names => ?_, .nil⟩
    refine iff_of_false (fun h => nomatch h) ?_
    rintro ⟨⟨⟨L, es, -, hroot, -⟩, -⟩, -⟩
    exact hnone L es hroot

theorem Sought.isLegalName (h : Sought fs root s names) :
    names ≠ [] ∧ ∀ k ∈ names, isLegalName k = true := by
  obtain ⟨⟨L, es, f, hroot, hget⟩, ⟨name, hlast, -⟩, -⟩ := h
  have hw := (fs.wellFormed.of_get? (FileSystem.get?_of_locate hroot)).1
  refine ⟨?_, (hw.of_get? hget).2⟩
  rintro rfl
  cases hlast

/-- Wanted locations that stand in order have different relative paths. -/
theorem nodup_relPath {locs : List Location} (hwanted : ∀ names ∈ locs, Wanted fs root s names)
    (hordered : locs.Pairwise Precedes) :
    ((locs.map (sourceAt root)).map SourceFile.relPath).Nodup := by
  rw [List.map_map, List.Nodup, List.pairwise_map]
  refine hordered.imp_of_mem fun hx hy hxy heq => ?_
  obtain ⟨hxne, hxlegal⟩ := (hwanted _ hx).toSought.isLegalName
  obtain ⟨hyne, hylegal⟩ := (hwanted _ hy).toSought.isLegalName
  exact hxy.ne (Path.ofSegments_inj hxne hyne hxlegal hylegal heq)

end

/-! ## A consumer that stops -/

/-- Take an item, and stop once there are `k + 1` of them. -/
def stopAfter (k : Nat) (seen : List ScanItem) (i : ScanItem) :
    Except (List ScanItem) (List ScanItem) :=
  if seen.length < k then .ok (seen ++ [i]) else .error (seen ++ [i])

/-- What a consumer has seen, whether it has stopped or not. -/
def seenBy : Except (List ScanItem) (List ScanItem) → List ScanItem
  | .ok seen => seen
  | .error seen => seen

/-- A consumer sees the first items, up to the one at which it stops. -/
theorem seenBy_foldlM {k : Nat} {seen : List ScanItem} (items : List ScanItem)
    (hseen : seen.length ≤ k) :
    seenBy (items.foldlM (stopAfter k) seen) = (seen ++ items).take (k + 1) := by
  induction items generalizing seen with
  | nil =>
    rw [List.append_nil, List.take_of_length_le (Nat.le_succ_of_le hseen)]
    rfl
  | cons i items ih =>
    rw [List.foldlM_cons, stopAfter, List.append_cons seen i items]
    by_cases hmore : seen.length < k
    · rw [if_pos hmore]
      have hnext : (seen ++ [i]).length ≤ k := by
        rw [List.length_append, List.length_singleton]
        exact hmore
      exact ih hnext
    · rw [if_neg hmore]
      have hfull : (seen ++ [i]).length = k + 1 := by
        rw [List.length_append, List.length_singleton]
        omega
      rw [← hfull, List.take_left]
      rfl

/-! ## Exactness -/

/-- **A scan yields the files that it is for, once each and in order.**  If the root
is straight, the source files are those at some locations `locs`, which are the wanted
ones.  They stand in order, so that nothing from elsewhere stands between two files of
one directory.  A consumer that stops after some items has seen just the first of
all, whatever the root is. -/
theorem scan_exact (fs : FileSystem) (root : String) (s : Selection) :
    (fs.Straight root → ∃ locs : List Location,
      sourcesOf (scan fs false root s) = locs.map (sourceAt root) ∧
      (∀ names, names ∈ locs ↔ Wanted fs root s names) ∧
      ((sourcesOf (scan fs false root s)).map SourceFile.relPath).Nodup ∧
      locs.Pairwise Precedes ∧
      ∀ dir x y z, [dir ++ x, y, dir ++ z].Sublist locs → x ≠ [] →
        ∃ w, w ≠ [] ∧ y = dir ++ w) ∧
    ∀ k, seenBy (scanM (fun path => pure (fs.list path)) (stopAfter k) false root s []) =
      (scan fs false root s).take (k + 1) := by
  constructor
  · intro hstraight
    obtain ⟨locs, hsources, hwanted, hordered⟩ := exists_locations s hstraight
    refine ⟨locs, hsources, hwanted, ?_, hordered, ?_⟩
    · rw [hsources]
      exact nodup_relPath (fun names => (hwanted names).mp) hordered
    · intro dir x y z hthree hx
      have hthree := hordered.sublist hthree
      rw [List.pairwise_cons, List.pairwise_pair] at hthree
      exact Precedes.between hx (hthree.1 y List.mem_cons_self) hthree.2
  · intro k
    rw [scanM, if_neg Bool.false_ne_true, explore_pure, scan_eq_findings]
    exact seenBy_foldlM _ (Nat.zero_le k)

/-! ## Roots behind links, straight and not -/

section
variable {dir : Location} {a b : String}

theorem eq_singleton_of_proper (hpre : dir <+: [a, b]) (hne : dir ≠ []) (hproper : dir ≠ [a, b]) :
    dir = [a] := by
  rcases List.prefix_cons_iff.mp hpre with hnil | ⟨rest, rfl, hrest⟩
  · exact absurd hnil hne
  · rcases List.prefix_cons_iff.mp hrest with rfl | ⟨rest', rfl, hrest'⟩
    · rfl
    · rw [List.prefix_nil.mp hrest'] at hproper
      exact absurd rfl hproper

/-- A file of a directory below the root is sought, if nothing is to be ignored. -/
theorem sought_of_get? {fs : FileSystem} {root : String} {L : Location} {es : Entries} {f : File}
    (hroot : fs.locate root = .ok (.found L (.dir es)))
    (hget : (Node.dir es).get? [a, b] = some (.file f)) (hsuffix : ".py".toList <:+ b.toList) :
    Sought fs root ⟨".py", [], []⟩ [a, b] :=
  ⟨⟨L, es, f, hroot, hget⟩, ⟨b, rfl, hsuffix⟩, List.not_mem_nil, fun _ _ _ _ => List.not_mem_nil⟩

end

def linkedEntries : Entries :=
  [("a.py", .link "d/b.py"), ("d", .dir [("b.py", .file ⟨.empty, 0o644, 0, 0⟩)])]

/-- A link to a directory, which has a link to one of its files in it. -/
def linkedFiles : FileSystem where
  root := .dir [("l", .link "x"), ("x", .dir linkedEntries)]
  cwd := []
  now := 0
  wellFormed := by
    simp only [Node.WellFormed, Node.WellFormedEntries, linkedEntries]
    decide +kernel

theorem locate_linked : linkedFiles.locate "l" = .ok (.found ["x"] (.dir linkedEntries)) := by
  have hpath : FileSystem.pathFault? "l" = none ∧ Path.isAbsolute "l" = false ∧
      Path.segments "l" = ["l"] := by decide +kernel
  have htarget : Path.isAbsolute "x" = false ∧ Path.segments "x" = ["x"] := by decide +kernel
  rw [FileSystem.locate_through_link hpath rfl (by decide) rfl htarget rfl]
  exact Node.walk_nil rfl

theorem scan_exact_linked :
    ⟨"l/d/b.py", "d/b.py"⟩ ∈ sourcesOf (scan linkedFiles false "l" ⟨".py", [], []⟩) := by
  have hstraight : linkedFiles.Straight "l" := FileSystem.straight_of_not_up (by decide +kernel)
  obtain ⟨locs, hsources, hwanted, -⟩ := (scan_exact linkedFiles "l" ⟨".py", [], []⟩).1 hstraight
  rw [hsources]
  refine List.mem_map.mpr ⟨["d", "b.py"], (hwanted _).mpr ?_, by decide +kernel⟩
  refine ⟨sought_of_get? locate_linked rfl (by decide), fun dir hpre hne hproper => ?_⟩
  rw [eq_singleton_of_proper hpre hne hproper]
  decide +kernel

def asideEntries : Entries :=
  [("a.py", .file ⟨.empty, 0o644, 0, 0⟩), ("t", .dir [("b.py", .file ⟨.empty, 0o644, 0, 0⟩)])]

/-- A link to a directory that is not next to it. -/
def asideFiles : FileSystem where
  root := .dir [("l", .link "x/t"), ("x", .dir asideEntries)]
  cwd := []
  now := 0
  wellFormed := by
    simp only [Node.WellFormed, Node.WellFormedEntries, asideEntries]
    decide +kernel

theorem locate_aside : asideFiles.locate "l/.." = .ok (.found ["x"] (.dir asideEntries)) := by
  have hdir : asideFiles.root.get? ["x", "t"] =
      some (.dir [("b.py", .file ⟨.empty, 0o644, 0, 0⟩)]) := rfl
  have hpath : FileSystem.pathFault? "l/.." = none ∧ Path.isAbsolute "l/.." = false ∧
      Path.segments "l/.." = ["l", ".."] := by decide +kernel
  have htarget : Path.isAbsolute "x/t" = false ∧ Path.segments "x/t" = ["x", "t"] := by
    decide +kernel
  rw [FileSystem.locate_through_link hpath rfl (by decide) rfl htarget hdir]
  exact (Node.walk_up hdir []).trans (Node.walk_nil rfl)

/-- The files above the link are found, but not those in the directory of the link,
because that is looked for next to the link. -/
theorem sources_aside : sourcesOf (scan asideFiles false "l/.." ⟨".py", [], []⟩) =
    [⟨"a.py", "a.py"⟩] := by
  have hroot : asideFiles.list "l/.." = .ok asideEntries := by
    rw [FileSystem.list, locate_aside]
  have hbelow : asideFiles.list "t" = .error ⟨.opening, "t", .missing⟩ := by
    have hcwd : asideFiles.root.get? [] = some (.dir [("l", .link "x/t"),
        ("x", .dir asideEntries)]) := rfl
    have hfree : asideFiles.locate "t" = .ok (.absent ["t"]) :=
      (FileSystem.locate_relative (by decide +kernel)).trans
        (Node.walk_free hcwd (by decide) rfl [])
    rw [FileSystem.list, hfree]
  have hjoin : Path.join "l/.." "t" = "t" := by decide +kernel
  have hown : ownSources ⟨".py", [], []⟩ "l/.." "." asideEntries =
      [⟨"a.py", "a.py"⟩] := by decide +kernel
  have hsub : subdirectories ⟨".py", [], []⟩ "." asideEntries = ["t"] := by decide +kernel
  rw [scan_eq_findings, findings, hroot]
  dsimp only
  rw [hown, hsub, List.flatMap_singleton, hjoin, findings, hbelow]
  rfl

/-- A name that is one character over and over. -/
def repeated (c : Char) (n : Nat) : String := String.ofList (List.replicate n c)

theorem size_repeated {c : Char} (hc : c.utf8Size = 1) (n : Nat) :
    (repeated c n).utf8ByteSize = n := by
  induction n with
  | zero => rfl
  | succ n ih =>
    rw [repeated] at ih ⊢
    rw [List.replicate_succ, String.ofList_cons, String.utf8ByteSize_append, ih,
      String.utf8ByteSize_singleton, hc, Nat.add_comm]

theorem isLegalName_repeated {c : Char} {n : Nat} (hc : c.utf8Size = 1) (hslash : c ≠ '/')
    (hnul : c ≠ '\x00') (hn : 2 < n) (hmax : n ≤ maxNameSize) :
    isLegalName (repeated c n) = true := by
  have hsize := size_repeated hc n
  have hne : ∀ short : String, short.utf8ByteSize ≤ 2 → repeated c n ≠ short := by
    rintro short hshort rfl
    omega
  have hchars : ∀ d, d ∈ (repeated c n).toList → d = c := by
    intro d hd
    rw [repeated, String.toList_ofList] at hd
    exact List.eq_of_mem_replicate hd
  simp only [isLegalName, Bool.and_eq_true, decide_eq_true_eq, Bool.not_eq_true',
    List.contains_eq_mem, decide_eq_false_iff_not]
  refine ⟨⟨⟨⟨⟨?_, ?_⟩, ?_⟩, fun h => hslash (hchars _ h).symm⟩,
    fun h => hnul (hchars _ h).symm⟩, ?_⟩
  · exact hne _ (by decide)
  · exact hne _ (by decide)
  · exact hne _ (by decide)
  · rwa [hsize]

/-- A name that leads back to the directory in which it stands. -/
def loopName : String := repeated 'l' 250

def farName : String := repeated 's' 100

theorem isLegalName_loop : isLegalName loopName = true :=
  isLegalName_repeated rfl (by decide) (by decide) (by decide) (by decide)

theorem isLegalName_far : isLegalName farName = true :=
  isLegalName_repeated rfl (by decide) (by decide) (by decide) (by decide)

def farEntries : Entries :=
  [(loopName, .link "."), (farName, .dir [("x.py", .file ⟨.empty, 0o644, 0, 0⟩)])]

def farFiles : FileSystem where
  root := .dir farEntries
  cwd := []
  now := 0
  wellFormed := by
    have hlt : loopName < farName := by
      rw [String.lt_iff, loopName, farName, repeated, repeated, String.toList_ofList,
        String.toList_ofList]
      exact List.Lex.rel (by decide)
    refine ⟨isLegalName_loop, trivial, ?_, isLegalName_far, ?_, List.forall_mem_nil _, trivial⟩
    · exact List.forall_mem_singleton.mpr hlt
    · exact ⟨by decide +kernel, trivial, List.forall_mem_nil _, trivial⟩

/-- A path that a few more names make too long. -/
def farRoot : String := Path.ofSegments (List.replicate 16 loopName)

theorem segments_farRoot : Path.segments farRoot = List.replicate 16 loopName := by
  refine Path.segments_ofSegments (by simp) fun name hname => ?_
  rw [List.eq_of_mem_replicate hname]
  exact (Path.proper_of_isLegalName isLegalName_loop).2

theorem not_up_farRoot : ".." ∉ Path.segments farRoot := by
  rw [segments_farRoot]
  intro hmem
  exact (Path.ne_of_isLegalName isLegalName_loop).2.1 (List.eq_of_mem_replicate hmem).symm

theorem pathFault?_farRoot : FileSystem.pathFault? farRoot = none := by
  have hsize : farRoot.utf8ByteSize = 4015 := by
    rw [farRoot, Path.size_ofSegments_replicate, loopName, size_repeated rfl]
  have hnul : '\x00' ∉ farRoot.toList := by
    intro hmem
    rcases Path.mem_ofSegments hmem with h | ⟨name, hname, h⟩
    · exact absurd h (by decide)
    · rw [List.eq_of_mem_replicate hname, loopName, repeated, String.toList_ofList] at h
      exact absurd (List.eq_of_mem_replicate h) (by decide)
  have hne : farRoot ≠ "" := by
    intro h
    rw [h] at hsize
    exact absurd hsize (by decide)
  rw [FileSystem.pathFault?, if_neg (by simpa using hnul), if_neg hne, hsize]
  rfl

theorem walk_loop (n links : Nat) (h : n ≤ links) :
    farFiles.root.walk links [] (List.replicate n loopName) =
      .ok (.found [] (.dir farEntries)) := by
  have hget : farFiles.root.get? [] = some (.dir farEntries) := rfl
  induction n generalizing links with
  | zero => exact Node.walk_nil hget
  | succ n ih =>
    obtain ⟨left, rfl⟩ :=
      Nat.exists_eq_succ_of_ne_zero (Nat.ne_of_gt (Nat.lt_of_lt_of_le n.succ_pos h))
    have hlink : Entries.get? farEntries loopName = some (.link ".") := by
      rw [Entries.get?, farEntries, List.lookup_cons_self]
    rw [List.replicate_succ, Node.walk_link hget isLegalName_loop hlink (by decide +kernel),
      show Path.segments "." = ["."] by decide +kernel, List.singleton_append,
      Node.walk_dot hget (Or.inr rfl)]
    exact ih left (Nat.le_of_succ_le_succ h)

theorem locate_farRoot : farFiles.locate farRoot = .ok (.found [] (.dir farEntries)) := by
  rw [FileSystem.locate_eq_follow pathFault?_farRoot, segments_farRoot, FileSystem.follow]
  have hstart : (if Path.isAbsolute farRoot then [] else farFiles.cwd) = [] := by
    split <;> rfl
  rw [hstart]
  exact walk_loop 16 maxLinks (by decide)

theorem size_far : maxPathSize < (Path.join farRoot (Path.ofSegments [farName])).utf8ByteSize := by
  have hclean : Path.cleanSegments farRoot = List.replicate 16 loopName := by
    rw [Path.cleanSegments_of_not_up not_up_farRoot, segments_farRoot]
    refine List.filter_eq_self.mpr fun name hname => ?_
    rw [List.eq_of_mem_replicate hname]
    exact decide_eq_true (Path.ne_of_isLegalName isLegalName_loop).1
  have hfar : ∀ name ∈ [farName], isLegalName name = true :=
    List.forall_mem_singleton.mpr isLegalName_far
  have hsize : (Path.ofSegments (List.replicate 16 loopName ++ [farName])).utf8ByteSize = 4116 := by
    rw [Path.size_ofSegments_snoc (by simp), Path.size_ofSegments_replicate, loopName, farName,
      size_repeated rfl, size_repeated rfl]
  rw [Path.join_ofSegments (FileSystem.ne_empty_of_locate locate_farRoot) (List.cons_ne_nil _ _)
    hfar, hclean, Path.written, String.utf8ByteSize_append, hsize]
  exact Nat.lt_of_lt_of_le (by decide) (Nat.le_add_left _ _)

/-- **Not everything that is sought is found.**  A root with `..` behind a link is not
straight, and a directory can be too far from a root that is. -/
theorem scan_misses_sought :
    (Sought asideFiles "l/.." ⟨".py", [], []⟩ ["t", "b.py"] ∧
      ∀ source ∈ sourcesOf (scan asideFiles false "l/.." ⟨".py", [], []⟩),
        source.relPath ≠ Path.ofSegments ["t", "b.py"]) ∧
    Sought farFiles farRoot ⟨".py", [], []⟩ [farName, "x.py"] ∧
      ∀ source ∈ sourcesOf (scan farFiles false farRoot ⟨".py", [], []⟩),
        source.relPath ≠ Path.ofSegments [farName, "x.py"] := by
  refine ⟨⟨?_, ?_⟩, ?_, ?_⟩
  · exact sought_of_get? locate_aside rfl (by decide)
  · rw [sources_aside]
    decide +kernel
  · have hentry : Entries.get? farEntries farName =
        some (.dir [("x.py", .file ⟨.empty, 0o644, 0, 0⟩)]) :=
      Entries.get?_of_mem farFiles.wellFormed (List.mem_cons_of_mem _ List.mem_cons_self)
    have hget : (Node.dir farEntries).get? [farName, "x.py"] =
        some (.file ⟨.empty, 0o644, 0, 0⟩) := by
      rw [Node.get?_dir_cons, hentry]
      rfl
    exact sought_of_get? locate_farRoot hget (by decide)
  · obtain ⟨locs, hsources, hwanted, -⟩ :=
      exists_locations ⟨".py", [], []⟩ (FileSystem.straight_of_not_up not_up_farRoot)
    rw [hsources]
    intro source hsource heq
    obtain ⟨names, hmem, rfl⟩ := List.mem_map.mp hsource
    have hnames := (hwanted names).mp hmem
    obtain ⟨hne, hlegal⟩ := hnames.toSought.isLegalName
    have hfar : ∀ name ∈ [farName, "x.py"], isLegalName name = true :=
      List.forall_mem_cons.mpr ⟨isLegalName_far, by decide +kernel⟩
    obtain rfl := Path.ofSegments_inj hne (List.cons_ne_nil _ _) hlegal hfar heq
    refine absurd size_far (Nat.not_lt.mpr (hnames.near [farName] ?_ ?_ ?_))
    · exact List.prefix_append [farName] ["x.py"]
    · exact List.cons_ne_nil _ _
    · exact fun h => nomatch h

end ForwardDecl
