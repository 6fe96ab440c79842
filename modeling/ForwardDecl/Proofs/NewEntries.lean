import ForwardDecl.Proofs.TreeRuns

/-! # New entries in a tree

A leaf that is put where nothing was (`FileSystem.Adds`) leaves everything else where
and what it was, and paths go on leading where they led.  A new directory, which is
empty, and the support module add nothing to the items that a run works on
(`Edit.workItems_of_adds`).
-/
namespace ForwardDecl

/-! ## New leaves -/

namespace FileSystem

/-- The files `fs'` are those of `fs` with a leaf at a location that was free. -/
structure Adds (fs : FileSystem) (loc : Location) (new : Node) (fs' : FileSystem) : Prop where
  leaf : new.Leaf
  linkFree : new.linkFree = true
  room : fs.root.Room loc
  free : fs.root.get? loc = none
  root_eq : fs'.root = Node.put new fs.root loc
  cwd_eq : fs'.cwd = fs.cwd
  now_eq : fs'.now = fs.now

section
variable {fs fs' : FileSystem} {loc L : Location} {new n : Node} {path : String} {es : Entries}

theorem Adds.at?_eq (h : fs.Adds loc new fs') (loc' : Location) :
    fs'.at? loc' = if loc' = loc then some new else fs.at? loc' := by
  rw [FileSystem.at?, h.root_eq]
  exact Node.at?_put h.leaf h.room loc'

/-- What was there is still there. -/
theorem Adds.at?_of_some (h : fs.Adds loc new fs') {loc' : Location} (hn : fs.at? loc' = some n) :
    fs'.at? loc' = some n := by
  rw [h.at?_eq, if_neg, hn]
  rintro rfl
  rw [FileSystem.at?, Node.at?_eq_none_iff.mpr h.free] at hn
  cases hn

theorem Adds.linkFree_root (h : fs.Adds loc new fs') (hlf : fs.root.linkFree = true) :
    fs'.root.linkFree = true := by
  rw [h.root_eq]
  exact Node.linkFree_put h.linkFree hlf loc

theorem Adds.leads (h : fs.Adds loc new fs') (hp : fs.Leads path L) : fs'.Leads path L := by
  refine ⟨hp.1, ?_⟩
  rw [h.cwd_eq]
  exact hp.2.mono fun loc' n hn => ⟨n, h.at?_of_some hn, id⟩

/-- A path that led to a directory still leads there. -/
theorem Adds.locate_dir (h : fs.Adds loc new fs') (hlf : fs.root.linkFree = true)
    (hp : fs.locate path = .ok (.found L (.dir es))) :
    ∃ es', fs'.locate path = .ok (.found L (.dir es')) := by
  have hdir : fs.at? L = some (.dir []) := Node.at?_eq_dir_iff.mpr ⟨es, get?_of_locate hp⟩
  obtain ⟨es', hes'⟩ := Node.at?_eq_dir_iff.mp (h.at?_of_some hdir)
  refine ⟨es', ?_⟩
  rw [(h.leads (leads_of_locate hlf hp)).locate (h.linkFree_root hlf) hes']
  cases hfault : pathFault? path with
  | none => rfl
  | some fault =>
    rw [locate, hfault] at hp
    cases hp

end
end FileSystem

/-! ## The items that make a difference -/

/-- Where the module lives, from the root of a tree. -/
def SupportModule.location : Location := ["forward", "__init__.py"]

/-- Where the directory of the module is. -/
def SupportModule.home : Location := ["forward"]

namespace SupportModule

theorem path_eq : path = Path.ofSegments location := by decide

theorem directory_eq : directory = Path.ofSegments home := by decide

theorem legal_of_mem_location : ∀ name ∈ location, isLegalName name = true := by decide

theorem legal_of_mem_home : ∀ name ∈ home, isLegalName name = true := by decide

end SupportModule

/-- Whether the item is the support module, which a run passes over. -/
def ScanItem.isModule (i : ScanItem) : Bool :=
  i.failure.isNone && i.file.relPath = SupportModule.path

namespace Edit

/-- The items of a scan without the support module. -/
def workItems (fs : FileSystem) (root : String) (s : Selection) : List ScanItem :=
  (scan fs false root s).filter fun i => !i.isModule

section
variable {fs fs' : FileSystem} {root : String} {s : Selection} {L loc : Location} {es : Entries}
  {i : Finding} {new : Node}

theorem workItems_of_shape (h : fs.shape = fs'.shape) (root : String) (s : Selection) :
    workItems fs root s = workItems fs' root s := by
  rw [workItems, workItems, scan_eq_findings, scan_eq_findings, findings_of_shape h]

theorem runItems_workItems (run : TreeRun) (items : List ScanItem) (r : TreeResult)
    (fs : FileSystem) :
    runItems run (items.filter fun i => !i.isModule) r fs = runItems run items r fs := by
  induction items generalizing r fs with
  | nil => rfl
  | cons i items ih =>
    rw [List.filter_cons]
    split
    · rw [runItems, runItems]
      split
      · exact ih _ _
      · rfl
    · -- the module gives nothing and changes nothing
      rename_i hmodule
      rw [Bool.not_eq_true', Bool.not_eq_false, ScanItem.isModule, Bool.and_eq_true,
        Option.isNone_iff_eq_none, decide_eq_true_eq] at hmodule
      have htarget : i.isTarget = false :=
        Bool.eq_false_iff.mpr fun h => (ScanItem.isTarget_iff.mp h).2 hmodule.2
      have hfiles : filesAfter run r.mode i fs = fs := by
        rw [filesAfter, htarget, if_neg Bool.false_ne_true]
      rw [runItems, itemResult_of_not_target htarget, ScanItem.failures_of_none hmodule.1,
        List.append_nil, hfiles]
      exact ih r fs

/-- A finding is the support module if it stands at its location. -/
theorem isModule_item (hl : ∀ name ∈ i.names, isLegalName name = true) :
    (i.item root).isModule = true ↔ i = ⟨SupportModule.location, none⟩ := by
  rw [ScanItem.isModule, Bool.and_eq_true, Option.isNone_iff_eq_none, decide_eq_true_eq]
  constructor
  · rintro ⟨hfault, hrel⟩
    obtain ⟨names, fault⟩ := i
    obtain rfl : fault = none := Option.map_eq_none_iff.mp hfault
    change Path.relative names = _ at hrel
    have hne : names ≠ [] := by
      rintro rfl
      exact absurd hrel (by decide)
    rw [Path.relative_of_ne hne, SupportModule.path_eq] at hrel
    have hnames := Path.ofSegments_inj hne (by decide) hl SupportModule.legal_of_mem_location hrel
    rw [hnames]
  · rintro rfl
    have hrel : Path.relative SupportModule.location = SupportModule.path := by decide
    exact ⟨rfl, hrel⟩

theorem workItems_eq (hlf : fs.root.linkFree = true)
    (hroot : fs.locate root = .ok (.found L (.dir es))) :
    workItems fs root s = (((Node.dir es).finds root s []).filter
      fun i => i ≠ ⟨SupportModule.location, none⟩).map (Finding.item root) := by
  have hes := fs.wellFormed.of_get? (FileSystem.get?_of_locate hroot)
  rw [workItems, scan_eq_finds hlf hroot, List.filter_map]
  congr 1
  refine List.filter_congr fun i hi => ?_
  obtain ⟨names, m, hnames, hm, -, -⟩ := Node.place_of_mem_finds hes.1 hi
  have hl : ∀ name ∈ i.names, isLegalName name = true := by
    rw [hnames, List.nil_append]
    exact (hes.1.of_get? hm).2
  rw [Function.comp_apply, Bool.eq_iff_iff, Bool.not_eq_true', decide_eq_true_eq,
    ← Bool.not_eq_true, isModule_item hl]

/-- A new directory that can be looked into, or the new module, adds nothing to the
items that make a difference. -/
theorem workItems_of_adds (hlf : fs.root.linkFree = true)
    (hroot : fs.locate root = .ok (.found L (.dir es))) (hadds : fs.Adds (L ++ loc) new fs')
    (hnew : Node.Unfound root (fun i => i ≠ ⟨SupportModule.location, none⟩) loc new)
    (s : Selection) : workItems fs' root s = workItems fs root s := by
  obtain ⟨es', hroot'⟩ := hadds.locate_dir hlf hroot
  have hes := FileSystem.get?_of_locate hroot
  have hput := Node.get?_put_append hes new loc
  rw [← hadds.root_eq, FileSystem.get?_of_locate hroot'] at hput
  rw [workItems_eq hlf hroot, workItems_eq (hadds.linkFree_root hlf) hroot',
    Option.some.inj hput]
  congr 1
  have hfree := hadds.free
  rw [Node.get?_append, hes] at hfree
  exact Node.finds_put (fs.wellFormed.of_get? hes).1 (hadds.room.of_append hes) hfree hnew

end
end Edit

end ForwardDecl
