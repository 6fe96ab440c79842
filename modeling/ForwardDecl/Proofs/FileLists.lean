import ForwardDecl.Proofs.Directions
import ForwardDecl.Proofs.ScanOrder
import ForwardDecl.Proofs.TreeRequests

/-! # A tree and the list of its files

The files that a scan of a tree yields can be given to the command for files one by one.
Both commands carry a mode from file to file, in different ways: the command for files goes
on with the mode that the last file ended with, and a run over a tree with what a toggle was
first resolved to.  A conversion keeps its direction, so the two are the same mode
(`Edit.file_step`), and file after file the two commands do the same
(`Edit.editFiles_of_runItems`).

So the commands leave the same files, and the run over the tree reports those results of the
single files in which something was modified (`Command.file_follows_tree`).
-/
namespace ForwardDecl

/-! ## Paths of source files have the suffix -/

theorem Path.suffix_ofSegments (names : List String) (name : String) :
    name.toList <:+ (ofSegments (names ++ [name])).toList := by
  induction names with
  | nil => exact ⟨[], by simp⟩
  | cons first names ih =>
    obtain ⟨second, rest, hrest⟩ := List.exists_cons_of_ne_nil
      (List.append_ne_nil_of_right_ne_nil names (List.cons_ne_nil name []))
    rw [List.cons_append, ofSegments, hrest, String.intercalate_cons_cons, ← hrest, ← ofSegments,
      String.toList_append]
    exact ih.trans (List.suffix_append _ _)

/-- The path of an entry of a directory ends with the name of the entry. -/
theorem Path.suffix_join {base name : String} (hbase : base ≠ "")
    (hname : isLegalName name = true) : name.toList <:+ (join base name).toList := by
  have hjoin := join_ofSegments hbase (List.cons_ne_nil name []) (by simpa using hname)
  rw [ofSegments_singleton] at hjoin
  rw [hjoin, written, String.toList_append]
  exact (suffix_ofSegments _ name).trans (List.suffix_append _ _)

section
variable {fs : FileSystem} {s : Selection} {path relPath : String} {es : Entries} {f : SourceFile}

theorem legal_of_list (h : fs.list path = .ok es) :
    path ≠ "" ∧ ∀ entry ∈ es, isLegalName entry.1 = true := by
  rw [FileSystem.list] at h
  split at h
  · rename_i loc ds hl
    obtain rfl := Except.ok.inj h
    refine ⟨?_, fun entry hentry => ?_⟩
    · rintro rfl
      cases hl
    · have hw := (fs.wellFormed.of_get? (FileSystem.get?_of_locate hl)).1
      exact (Node.wellFormed_of_get? hw (Entries.get?_of_mem hw hentry)).2
  all_goals cases h

theorem suffix_of_mem_ownSources (hpath : path ≠ "")
    (hes : ∀ entry ∈ es, isLegalName entry.1 = true) (h : f ∈ ownSources s path relPath es) :
    s.suffix.toList.isSuffixOf f.path.toList = true := by
  obtain ⟨⟨name, n⟩, hentry, hsome⟩ := List.mem_filterMap.mp h
  dsimp only at hsome
  split at hsome
  · split at hsome
    · rename_i htakes
      obtain rfl := Option.some.inj hsome
      rw [Selection.takesFile, Bool.and_eq_true, List.isSuffixOf_iff_suffix] at htakes
      rw [List.isSuffixOf_iff_suffix]
      exact htakes.1.trans (Path.suffix_join hpath (hes _ hentry))
    · cases hsome
  · cases hsome

theorem suffix_of_mem_findings {levels : Nat} {i : ScanItem}
    (h : i ∈ findings fs s levels path relPath) (hsource : i.failure = none) :
    s.suffix.toList.isSuffixOf i.file.path.toList = true := by
  induction levels generalizing path relPath with
  | zero =>
    rw [findings] at h
    split at h
    · obtain rfl := List.mem_singleton.mp h
      cases hsource
    · rename_i es hlist
      obtain ⟨hpath, hes⟩ := legal_of_list hlist
      rw [List.append_nil] at h
      obtain ⟨f, hf, rfl⟩ := List.mem_map.mp h
      exact suffix_of_mem_ownSources hpath hes hf
  | succ below ih =>
    rw [findings] at h
    split at h
    · obtain rfl := List.mem_singleton.mp h
      cases hsource
    · rename_i es hlist
      obtain ⟨hpath, hes⟩ := legal_of_list hlist
      rcases List.mem_append.mp h with hown | hbelow
      · obtain ⟨f, hf, rfl⟩ := List.mem_map.mp hown
        exact suffix_of_mem_ownSources hpath hes hf
      · obtain ⟨name, -, hi⟩ := List.mem_flatMap.mp hbelow
        exact ih hi

/-- **Every source file that a scan yields has a path with the suffix.** -/
theorem suffix_of_mem_sourcesOf {root : String} (h : f ∈ sourcesOf (scan fs false root s)) :
    s.suffix.toList.isSuffixOf f.path.toList = true := by
  obtain ⟨i, hi, rfl⟩ := List.mem_map.mp h
  obtain ⟨hmem, hsource⟩ := List.mem_filter.mp hi
  rw [scan_eq_findings] at hmem
  exact suffix_of_mem_findings hmem (Option.isNone_iff_eq_none.mp hsource)

end

/-! ## Texts stay texts -/

namespace FileSystem
variable {fs : FileSystem} {path other : String} {loc : Location} {f g : File}

/-- The path leads to a file that is a text. -/
def HoldsText (fs : FileSystem) (path : String) : Prop :=
  ∃ text : String, fs.fetch path = .ok text.toUTF8

theorem HoldsText.putFile (h : fs.HoldsText other)
    (hl : fs.locate path = .ok (.found loc (.file f))) {text : String}
    (hg : g.bytes = text.toUTF8) : (fs.putFile loc g).HoldsText other := by
  obtain ⟨old, hold⟩ := h
  obtain ⟨loc', f', hl', hbytes⟩ := Edit.locate_of_fetch hold
  obtain ⟨g', hg'⟩ := locate_of_shape (shape_putFile (at?_of_locate hl) g).symm hl'
  have hat := at?_of_locate hg'
  rw [at?_putFile (at?_of_locate hl)] at hat
  rw [HoldsText, Edit.fetch_of_locate hg']
  split at hat
  · obtain rfl := Node.file.inj (Option.some.inj hat)
    exact ⟨text, by rw [hg]⟩
  · obtain rfl := Node.file.inj (Option.some.inj (hat.symm.trans (at?_of_locate hl')))
    exact ⟨old, by rw [hbytes]⟩

end FileSystem

/-! ## One file -/

namespace Edit

/-- The run over a tree under the settings that hold unless something else is said, without
an installation. -/
def bareRun (root : String) (mode : Mode) : TreeRun :=
  { Config.default.treeRun root mode.name with installRuntime := false }

section
variable {root : String} {mode : Mode} {fs fs' : FileSystem} {i : ScanItem} {r r' : TreeResult}
  {items : List ScanItem}

/-- Without a diff it makes no difference what a file would be called in it. -/
theorem report_of_quiet {path name : String} {dryRun : Bool} {text : List Char} {c : Converted}
    (other : String) : report path name ⟨dryRun, false⟩ text c =
      report path other ⟨dryRun, false⟩ text c := by
  simp [report]

theorem carry_of_keeps {before after : Mode} (h : before.Keeps after) :
    TreeResult.carry before after = after := by
  rw [TreeResult.carry]
  split
  · rfl
  · rename_i hne
    exact (h hne).symm

/-- **One file, in a tree and by itself.**  A run over a tree notes that the file failed; or
it takes in what an edit of the file by itself gives, which leaves the same files, and goes
on in the mode that this edit ended with. -/
theorem file_step (hsource : i.failure = none) (hmodule : i.file.relPath ≠ SupportModule.path)
    (hsuffix : ".py".toList.isSuffixOf i.file.path.toList = true)
    (htext : fs.HoldsText i.file.path) (r : TreeResult) :
    (∃ failure, itemResult (bareRun root mode) r i (fs.fetch i.file.path) =
        .ok { r with failed := r.failed ++ [failure] }) ∨
      ∃ done : FileResult, done.path = i.file.path ∧
        Gives (file .default false i.file.path r.mode [] ⟨false, false⟩) fs (.ok done)
          (filesAfter (bareRun root mode) r.mode i fs) ∧
        (∀ path, fs.HoldsText path →
          (filesAfter (bareRun root mode) r.mode i fs).HoldsText path) ∧
        TreeResult.carry r.mode done.mode = done.mode ∧
        itemResult (bareRun root mode) r i (fs.fetch i.file.path) =
          .ok (r.add false { done with path := i.file.relPath }) := by
  obtain ⟨text, hfetch⟩ := htext
  obtain ⟨loc, f, hl, hbytes⟩ := locate_of_fetch hfetch
  have htarget : i.isTarget = true := ScanItem.isTarget_iff.mpr ⟨hsource, hmodule⟩
  have hgives : Gives (file .default false i.file.path r.mode [] ⟨false, false⟩) fs _ _ :=
    Command.file_gives_source rfl hsuffix hl
  have hfiles : filesAfter (bareRun root mode) r.mode i fs =
      fs.putFile loc (fileAfter fs.now r.mode [] false f) := by
    rw [filesAfter, if_pos htarget, hl]
    rfl
  have hitem : itemResult (bareRun root mode) r i (fs.fetch i.file.path) =
      takeIn (bareRun root mode) r i.file.relPath
        (((convert r.mode [] text.toList).mapError (placed i.file.path)).map
          (report i.file.path i.file.relPath ⟨false, false⟩ text.toList)) := by
    rw [hfetch, itemResult_of_target htarget, fileResult, sourceResult, fromUTF8?_toUTF8]
    rfl
  rw [sourceResult, hbytes, fromUTF8?_toUTF8] at hgives
  dsimp only at hgives
  rw [hitem, hfiles]
  rcases convert_cases (show IgnoreList.check [] = .ok () from rfl) r.mode text.toList with
    ⟨c, hc⟩ | ⟨cause, hc⟩
  · rw [hc] at hgives ⊢
    refine Or.inr ⟨report i.file.path i.file.relPath ⟨false, false⟩ text.toList c, rfl, ?_, ?_, ?_,
      rfl⟩
    · rw [report_of_quiet (Path.base i.file.path)]
      exact hgives
    · exact fun path hpath => hpath.putFile hl (Tool.bytes_fileAfter_of_convert hbytes hc)
    · exact carry_of_keeps (keeps_of_convert hc)
  · rw [hc]
    exact Or.inl ⟨_, rfl⟩

/-! ## All files -/

/-- A run does not forget what failed. -/
theorem failed_of_itemResult {run : TreeRun} {fetched : Except FileError ByteArray}
    (h : itemResult run r i fetched = .ok r') : r.failed <+: r'.failed := by
  cases htarget : i.isTarget with
  | false =>
    rw [itemResult_of_not_target htarget] at h
    obtain rfl := Except.ok.inj h
    exact List.prefix_append _ _
  | true =>
    rw [itemResult_of_target htarget, takeIn.eq_def] at h
    split at h
    · obtain rfl := Except.ok.inj h
      exact List.prefix_rfl
    · split at h
      · obtain rfl := Except.ok.inj h
        exact List.prefix_rfl
      · split at h
        · obtain rfl := Except.ok.inj h
          exact List.prefix_append _ _
        · cases h

theorem failed_of_runItems {run : TreeRun} (h : runItems run items r fs = (.ok r', fs')) :
    r.failed <+: r'.failed := by
  induction items generalizing r fs with
  | nil =>
    obtain rfl := Except.ok.inj (Prod.mk.inj h).1
    exact List.prefix_rfl
  | cons i items ih =>
    rw [runItems] at h
    split at h
    · rename_i r₁ hitem
      exact (failed_of_itemResult hitem).trans (ih h)
    · cases h

/-- The results in which something was modified, under the relative paths of the files. -/
def modifiedIn (sources : List SourceFile) (results : List FileResult) : List FileResult :=
  ((sources.zip results).filter fun both => 0 < both.2.modifications).map fun both =>
    { both.2 with path := both.1.relPath }

theorem files_add (r : TreeResult) (done : FileResult) (path : String) :
    (r.add false { done with path }).files =
      r.files ++ if 0 < done.modifications then [{ done with path }] else [] := by
  rw [TreeResult.add]
  by_cases hm : 0 < done.modifications <;> simp [hm]

theorem sourcesOf_cons (i : ScanItem) (items : List ScanItem) : sourcesOf (i :: items) =
    if i.failure.isNone then i.file :: sourcesOf items else sourcesOf items := by
  rw [sourcesOf, List.filter_cons]
  split <;> rfl

/-- **All files, in a tree and by themselves.**  If a run over a tree comes to its end and
nothing failed, then the edit of its source files one after the other comes to its end too,
leaves the same files, and has the results that the run reports. -/
theorem editFiles_of_runItems
    (hmodule : ∀ f ∈ sourcesOf items, f.relPath ≠ SupportModule.path)
    (hsuffix : ∀ f ∈ sourcesOf items, ".py".toList.isSuffixOf f.path.toList = true)
    (htext : ∀ f ∈ sourcesOf items, fs.HoldsText f.path)
    (h : runItems (bareRun root mode) items r fs = (.ok r', fs')) (hfailed : r'.failed = []) :
    ∃ results, Gives (Command.editFiles .default [] ⟨false, false⟩ r.mode
        ((sourcesOf items).map SourceFile.path)) fs (.ok results) fs' ∧
      results.map FileResult.path = (sourcesOf items).map SourceFile.path ∧
      r'.files = r.files ++ modifiedIn (sourcesOf items) results := by
  induction items generalizing r fs with
  | nil =>
    obtain ⟨hr, rfl⟩ := Prod.mk.inj h
    obtain rfl := Except.ok.inj hr
    exact ⟨[], gives_pure [] fs, rfl, (List.append_nil r.files).symm⟩
  | cons i items ih =>
    rw [sourcesOf_cons] at hmodule hsuffix htext ⊢
    rw [runItems] at h
    split at h
    · rename_i r₁ hitem
      -- what failed here would still be noted in the end
      have hkept : r₁.failed = [] := List.prefix_nil.mp (hfailed ▸ failed_of_runItems h)
      cases hsource : i.failure with
      | some cause =>
        rw [itemResult.eq_def, hsource] at hitem
        obtain rfl := Except.ok.inj hitem
        exact absurd hkept (List.append_ne_nil_of_right_ne_nil _ (List.cons_ne_nil _ _))
      | none =>
        rw [hsource, Option.isNone_none, if_pos rfl, List.forall_mem_cons] at hmodule hsuffix htext
        rw [Option.isNone_none, if_pos rfl]
        rcases file_step hsource hmodule.1 hsuffix.1 htext.1 r with
          ⟨failure, hfail⟩ | ⟨done, hpath, hgives, hstays, hcarry, hadd⟩
        · obtain rfl := Except.ok.inj (hitem.symm.trans hfail)
          exact absurd hkept (List.append_ne_nil_of_right_ne_nil _ (List.cons_ne_nil _ _))
        · obtain rfl := Except.ok.inj (hitem.symm.trans hadd)
          obtain ⟨results, hrest, hpaths, hfiles⟩ := ih hmodule.2 hsuffix.2
            (fun f hf => hstays f.path (htext.2 f hf)) h
          have hmode : (r.add false { done with path := i.file.relPath }).mode = done.mode := hcarry
          rw [hmode] at hrest
          refine ⟨done :: results, hgives.bind (hrest.bind (gives_pure _ _)), ?_, ?_⟩
          · rw [List.map_cons, List.map_cons, hpath, hpaths]
          · rw [hfiles, files_add, List.append_assoc]
            congr 1
            rw [modifiedIn, modifiedIn, List.zip_cons_cons, List.filter_cons]
            by_cases hm : 0 < done.modifications <;> simp [hm]
    · cases h

/-! ## The commands -/

/-- A run that gave a result and had nothing to install went over the items of a scan. -/
theorem runItems_of_tree {config : Config} {run : TreeRun} (hbare : run.installRuntime = false)
    (h : (tree config false run).outcome fs = (.ok r, fs')) :
    ∃ mode, run.check = .ok mode ∧
      runItems run (scan fs false run.root (selection config.suffix run))
        (.start run.root mode false) fs = (.ok r, fs') := by
  cases hcheck : run.check with
  | error cause =>
    rw [(tree_gives_of_check hcheck).outcome_eq] at h
    cases h
  | ok mode =>
    cases hroot : fs.checkRoot run.root with
    | error cause =>
      rw [(tree_gives_of_root hcheck hroot).outcome_eq] at h
      cases h
    | ok u =>
      have hwanted : ¬(run.installRuntime = true ∧ mode ≠ .remove) := by
        rw [hbare]
        exact fun hboth => Bool.false_ne_true hboth.1
      have hinstall := installFor_of_not_wanted config run hwanted fs
      rw [(tree_gives hcheck hroot hinstall).outcome_eq] at h
      exact ⟨mode, rfl, h⟩

end
end Edit

namespace Command
open Edit
variable {root : String} {asked : Option Mode} {args : List String} {fs : FileSystem}

/-- The option for a mode, if one is asked for. -/
def modeWords (asked : Option Mode) : List String := asked.toList.map modeOption

/-- The mode that is asked for, or the one that holds unless something else is said. -/
def modeMeant (asked : Option Mode) : Mode := asked.getD .toggle

theorem modeWord_parsed {opts : List TreeOption}
    (h : ∀ m, TreeOption.mode m ∈ opts ↔ asked = some m) :
    modeWord (TreeOption.parsed opts args) Config.default.mode = .ok (modeMeant asked).name := by
  cases asked with
  | none =>
    refine modeWord_of_none (fun m => ?_) _
    rw [Bool.eq_false_iff, Ne, TreeOption.isOn_mode, h]
    exact fun hnone => nomatch hnone
  | some m =>
    refine modeWord_of_asked (fun m' => ?_) _
    rw [TreeOption.isOn_mode, h, Option.some_inj]
    exact eq_comm

/-- The mode as an option of the command for trees, if one is asked for. -/
def modeOptions (asked : Option Mode) : List TreeOption := asked.toList.map .mode

theorem mem_modeOptions (asked : Option Mode) (m : Mode) :
    .mode m ∈ modeOptions asked ↔ asked = some m := by
  cases asked with
  | none => exact ⟨(fun h => nomatch h), fun h => nomatch h⟩
  | some m' => simp [modeOptions, eq_comm]

/-- The command for trees with `-m` and a mode. -/
theorem run_tree (root : String) (asked : Option Mode) (fs : FileSystem) :
    let done := (Edit.tree .default false (bareRun root (modeMeant asked))).outcome fs
    run (["forward-edit", "tree", "-m"] ++ modeWords asked ++ ["--", root]) fs =
      ending (done.1.map (treeText false), done.2) := by
  have hparse := TreeOption.parse_words (.runtime :: modeOptions asked) [root]
  have hword : modeWord (TreeOption.parsed (.runtime :: modeOptions asked) [root])
      Config.default.mode = .ok (modeMeant asked).name := by
    refine modeWord_parsed fun m => ?_
    rw [List.mem_cons, mem_modeOptions]
    exact or_iff_right fun h => nomatch h
  have hplain : IgnoreMap.parse ((TreeOption.parsed (.runtime :: modeOptions asked)
        [root]).texts "ignore") = .ok [] ∧
      treeRun .default ⟨false, false, ""⟩ (TreeOption.parsed (.runtime :: modeOptions asked) [root])
        [] root (modeMeant asked).name = bareRun root (modeMeant asked) ∧
      isDry ⟨false, false, ""⟩ (TreeOption.parsed (.runtime :: modeOptions asked) [root]) =
        false := by
    cases asked with
    | none => exact ⟨rfl, rfl, rfl⟩
    | some m => cases m <;> exact ⟨rfl, rfl, rfl⟩
  obtain ⟨hignore, hrun, hdry⟩ := hplain
  have htree := @tree_runWith .default ⟨false, false, ""⟩ _ _ fs _ root _ hparse rfl hword hignore
    rfl TreeOption.isOn_json
  rw [hrun, hdry] at htree
  intro done
  have hargv : ["forward-edit", "tree", "-m"] ++ modeWords asked ++ ["--", root] =
      "forward-edit" :: "tree" ::
        (List.flatMap TreeOption.words (.runtime :: modeOptions asked) ++ "--" :: [root]) := by
    cases asked <;> rfl
  rw [hargv, run_bare (by decide) rfl rfl]
  exact htree

/-- The command for files with a mode. -/
theorem run_file {paths : List String} (hne : paths ≠ []) (asked : Option Mode)
    (fs : FileSystem) :
    let done := (editFiles .default [] ⟨false, false⟩ (modeMeant asked) paths).outcome fs
    run (["forward-edit", "file"] ++ modeWords asked ++ "--" :: paths) fs =
      ending (done.1.map filesText, done.2) := by
  have hreads : Flag.Reads file.flags ((modeOptions asked).flatMap TreeOption.words)
      ((modeOptions asked).map TreeOption.setting) := by
    refine Flag.reads_flatMap fun o ho => ?_
    obtain ⟨m, -, rfl⟩ := List.mem_map.mp ho
    exact reads_modeOption (Or.inl rfl) m
  have hparse : Flag.parse file.flags true _ = .ok (TreeOption.parsed (modeOptions asked) paths) :=
    hreads.parse_eq paths
  have hword : modeWord (TreeOption.parsed (modeOptions asked) paths) Config.default.mode =
      .ok (modeMeant asked).name :=
    modeWord_parsed (mem_modeOptions asked)
  have hplain : (TreeOption.parsed (modeOptions asked) paths).texts "ignore" = [] ∧
      isDry ⟨false, false, ""⟩ (TreeOption.parsed (modeOptions asked) paths) = false ∧
      (TreeOption.parsed (modeOptions asked) paths).isOn "diff" = false := by
    cases asked with
    | none => exact ⟨rfl, rfl, rfl⟩
    | some m => cases m <;> exact ⟨rfl, rfl, rfl⟩
  obtain ⟨hignore, hdry, hdiff⟩ := hplain
  have hfile := @file_runWith .default ⟨false, false, ""⟩ _ _ fs _ hparse rfl hword hignore hne
    TreeOption.isOn_json hdry hdiff
  intro done
  have hargv : ["forward-edit", "file"] ++ modeWords asked ++ "--" :: paths =
      "forward-edit" :: "file" ::
        ((modeOptions asked).flatMap TreeOption.words ++ "--" :: paths) := by
    cases asked <;> rfl
  rw [hargv, run_bare (by decide) rfl rfl]
  exact hfile

/-- **The command for files follows the command for trees.**  Suppose that a scan of a root
yields source files, that none of them is the support module and that all of them are texts.
If the command for trees, with `-m` and with or without a mode, succeeds and nothing failed,
then the command for files with the same mode succeeds on the paths of the source files,
leaves the same files, and its results with modifications are those that the tree has. -/
theorem file_follows_tree {root : String} {fs : FileSystem} (asked : Option Mode)
    (hne : sourcesOf (scan fs false root ⟨".py", [], []⟩) ≠ [])
    (hmodule : ∀ f ∈ sourcesOf (scan fs false root ⟨".py", [], []⟩),
      f.relPath ≠ SupportModule.path)
    (htext : ∀ f ∈ sourcesOf (scan fs false root ⟨".py", [], []⟩), fs.HoldsText f.path)
    (hok : (run (["forward-edit", "tree", "-m"] ++ modeWords asked ++ ["--", root]) fs).error =
      none) :
    let sources := sourcesOf (scan fs false root ⟨".py", [], []⟩)
    let edited := run (["forward-edit", "tree", "-m"] ++ modeWords asked ++ ["--", root]) fs
    ∃ r : TreeResult, edited.stdout = r.report false ∧
      (Edit.tree .default false (bareRun root (modeMeant asked))).outcome fs =
        (.ok r, edited.files) ∧
      (r.failed = [] → ∃ results,
        run (["forward-edit", "file"] ++ modeWords asked ++ "--" ::
          sources.map SourceFile.path) fs = ⟨filesText results, "", none, edited.files⟩ ∧
        results.map FileResult.path = sources.map SourceFile.path ∧
        r.files = modifiedIn sources results) := by
  intro sources edited
  have hedited : edited = _ := run_tree root asked fs
  have hok : edited.error = none := hok
  cases hdone : (Edit.tree .default false (bareRun root (modeMeant asked))).outcome fs with
  | mk result fs' =>
    rw [hdone] at hedited
    cases result with
    | error cause =>
      rw [hedited] at hok
      cases hok
    | ok r =>
      have hfiles : edited.files = fs' := congrArg Outcome.files hedited
      refine ⟨r, ?_, by rw [hfiles], fun hfailed => ?_⟩
      · refine (congrArg Outcome.stdout hedited).trans ?_
        exact String.empty_append
      · obtain ⟨mode, hcheck, hitems⟩ := runItems_of_tree rfl hdone
        have hmode : Mode.ofName (modeMeant asked).name = .ok mode :=
          (check_eq_ok_iff.mp hcheck).2.1
        rw [Mode.ofName, Mode.ofName?_name] at hmode
        obtain rfl := Except.ok.inj hmode
        obtain ⟨results, hgives, hpaths, hreported⟩ := editFiles_of_runItems hmodule
          (fun f hf => suffix_of_mem_sourcesOf hf) htext hitems hfailed
        have hpaths_ne : sources.map SourceFile.path ≠ [] := mt List.map_eq_nil_iff.mp hne
        refine ⟨results, ?_, hpaths, hreported⟩
        have hrun := run_file hpaths_ne asked fs
        have houtcome : (editFiles .default [] ⟨false, false⟩ (modeMeant asked)
            (sources.map SourceFile.path)).outcome fs = (.ok results, fs') := hgives.outcome_eq
        rw [houtcome] at hrun
        rw [hfiles]
        exact hrun

/-- A file to remove declarations from, and one that has only a class. -/
def pairEntries : Entries :=
  [("a.py", .file ⟨"from forward import *\nx = 1\n".toUTF8, 0o644, 0, 0⟩),
    ("b.py", .file ⟨"class B:\n    pass\n".toUTF8, 0o644, 0, 0⟩)]

def pairFiles : FileSystem where
  root := .dir [("t", .dir pairEntries)]
  cwd := []
  now := 1
  wellFormed := by
    simp only [Node.WellFormed, Node.WellFormedEntries, pairEntries]
    decide +kernel

theorem linkFree_pair : pairFiles.root.linkFree = true := by decide

theorem locate_pair : pairFiles.locate "t" = .ok (.found ["t"] (.dir pairEntries)) :=
  FileSystem.locate_of_get? linkFree_pair "t" ["t"] (by decide +kernel) rfl

theorem scan_pair : scan pairFiles false "t" ⟨".py", [], []⟩ =
    [⟨⟨"t/a.py", "a.py"⟩, none⟩, ⟨⟨"t/b.py", "b.py"⟩, none⟩] := by
  rw [scan_eq_finds linkFree_pair locate_pair]
  decide +kernel

theorem fetch_pair : pairFiles.fetch "t/a.py" = .ok "from forward import *\nx = 1\n".toUTF8 ∧
    pairFiles.fetch "t/b.py" = .ok "class B:\n    pass\n".toUTF8 :=
  ⟨fetch_of_locate (FileSystem.locate_of_get? linkFree_pair "t/a.py" ["t", "a.py"]
      (by decide +kernel) rfl),
    fetch_of_locate (FileSystem.locate_of_get? linkFree_pair "t/b.py" ["t", "b.py"]
      (by decide +kernel) rfl)⟩

/-- Toggling the tree resolves to removing at its first file. -/
theorem tree_pair : ((Edit.tree .default false (bareRun "t" .toggle)).outcome pairFiles).1 =
    .ok ⟨"t", .remove, 1, 1, false, [⟨"a.py", .remove, 1, none, true, ""⟩], [], []⟩ := by
  have hinstall := @installFor_of_not_wanted .default (bareRun "t" .toggle) .toggle (by decide)
    pairFiles
  obtain ⟨-, -, hresult⟩ := tree_outcome linkFree_pair rfl locate_pair
    (.refl "t" ["t"] "" pairFiles) hinstall
  refine hresult.trans ?_
  show itemsResult _ _ _ ((scan pairFiles false "t" ⟨".py", [], []⟩).filter _) = _
  rw [scan_pair]
  show itemsResult _ _ _ [⟨⟨"t/a.py", "a.py"⟩, none⟩, ⟨⟨"t/b.py", "b.py"⟩, none⟩] = _
  simp only [itemsResult, List.foldlM, fetch_pair.1, fetch_pair.2]
  decide +kernel

/-- The command for files leaves what toggling the tree leaves, and its first result is the
one that the tree reports. -/
theorem file_follows_tree_pair :
    ∃ first second : FileResult, first.mode = .remove ∧ first.modifications = 1 ∧
      second.modifications = 0 ∧
      run ["forward-edit", "file", "--", "t/a.py", "t/b.py"] pairFiles =
        ⟨filesText [first, second], "", none,
          (run ["forward-edit", "tree", "-m", "--", "t"] pairFiles).files⟩ := by
  have hsources : sourcesOf (scan pairFiles false "t" ⟨".py", [], []⟩) =
      [⟨"t/a.py", "a.py"⟩, ⟨"t/b.py", "b.py"⟩] := by
    rw [scan_pair]
    rfl
  have hok : (run ["forward-edit", "tree", "-m", "--", "t"] pairFiles).error = none := by
    have hrun := run_tree "t" none pairFiles
    dsimp only [modeMeant, Option.getD_none] at hrun
    rw [tree_pair] at hrun
    exact congrArg Outcome.error hrun
  obtain ⟨r, -, houtcome, hfollows⟩ := @file_follows_tree "t" pairFiles none
    (by rw [hsources]; exact List.cons_ne_nil _ _)
    (by rw [hsources]; decide)
    (by
      rw [hsources]
      exact List.forall_mem_cons.mpr ⟨⟨_, fetch_pair.1⟩,
        List.forall_mem_singleton.mpr ⟨_, fetch_pair.2⟩⟩) hok
  obtain rfl := Except.ok.inj ((congrArg Prod.fst houtcome).symm.trans tree_pair)
  obtain ⟨results, hrun, hpaths, hfiles⟩ := hfollows rfl
  rw [hsources] at hrun hpaths hfiles
  rcases results with _ | ⟨first, _ | ⟨second, _ | ⟨third, rest⟩⟩⟩
  · exact absurd hpaths (by simp)
  · exact absurd hpaths (by simp)
  · by_cases hfirst : 0 < first.modifications <;> by_cases hsecond : 0 < second.modifications <;>
      simp [modifiedIn, hfirst, hsecond] at hfiles
    exact ⟨first, second, hfiles.1.symm, hfiles.2.1.symm, Nat.eq_zero_of_not_pos hsecond, hrun⟩
  · exact absurd hpaths (by simp)

end Command
end ForwardDecl
