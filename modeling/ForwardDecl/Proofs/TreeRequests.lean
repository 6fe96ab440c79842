import ForwardDecl.Proofs.CommandLines
import ForwardDecl.Proofs.ToolCalls

/-! # One request, a command line and a tool

A tree can be edited by the command for trees and by a tool.  What is asked for is a
`TreeRequest`.  A command line writes it as a list of options in some order
(`TreeRequest.WrittenAs`), with a pair of path and word for every entry of an ignore list;
a call of the tool has a map of whole lists (`TreeRequest.arguments`).

Both come to the same run over the tree, but for the order of the paths in its map of
ignore lists.  A run looks lists up and does not see that order (`Edit.tree_of_lists`), so
the files and the result are the same (`TreeRequest.front_ends_agree`).
-/
namespace ForwardDecl

/-! ## A run sees its ignore lists through lookups -/

namespace Edit
variable {run : TreeRun} {m : IgnoreMap} {config : Config} {cancelled : Bool}

theorem item_of_lists (h : ∀ path, m.get path = run.ignoreMap.get path) :
    item { run with ignoreMap := m } cancelled = item run cancelled := by
  funext r i
  simp only [item, h]

/-- Maps that are in order and have the same lists make no difference to a run. -/
theorem tree_of_lists (h : ∀ path, m.get path = run.ignoreMap.get path) (hm : m.InOrder)
    (hrun : run.ignoreMap.InOrder) :
    tree config cancelled { run with ignoreMap := m } = tree config cancelled run := by
  have hcheck : ({ run with ignoreMap := m } : TreeRun).check = run.check := by
    unfold TreeRun.check
    rw [IgnoreMap.check_eq_ok_iff.mpr hm, IgnoreMap.check_eq_ok_iff.mpr hrun]
  rw [tree, hcheck, item_of_lists h]
  rfl

end Edit

/-- The ignore lists of a configuration that is in order are in order. -/
theorem Config.inOrder_of_check {config : Config} (h : config.check = .ok ()) :
    config.ignoreClasses.InOrder := by
  unfold Config.check at h
  split at h
  · cases h
  · obtain ⟨mode, -, h⟩ := exists_of_bind_eq_ok h
    obtain ⟨_, -, h⟩ := exists_of_bind_eq_ok h
    obtain ⟨_, -, h⟩ := exists_of_bind_eq_ok h
    obtain ⟨_, hclasses, -⟩ := exists_of_bind_eq_ok h
    exact IgnoreMap.check_eq_ok_iff.mp hclasses

/-! ## Options -/

/-- An option of the command for trees. -/
inductive TreeOption
  | mode (m : Mode)
  | ignoreDir (path : String)
  | ignoreFile (path : String)
  | ignore (path word : String)
  | runtime
  | strict
  | dryRun
  | diff
  deriving DecidableEq

namespace TreeOption
variable {opts : List TreeOption} {o : TreeOption} {args : List String}

/-- The option on a command line. -/
def words : TreeOption → List String
  | mode m => [Command.modeOption m]
  | ignoreDir path => ["-d", path]
  | ignoreFile path => ["-f", path]
  | ignore path word => ["-i", path ++ ":" ++ word]
  | runtime => ["-m"]
  | strict => ["--strict"]
  | dryRun => ["--dry-run"]
  | diff => ["--diff"]

/-- The setting that the option is read as. -/
def setting : TreeOption → String × String
  | mode m => (m.name, "true")
  | ignoreDir path => ("ignore-dir", path)
  | ignoreFile path => ("ignore-file", path)
  | ignore path word => ("ignore", path ++ ":" ++ word)
  | runtime => ("runtime", "true")
  | strict => ("strict", "true")
  | dryRun => ("dry-run", "true")
  | diff => ("diff", "true")

/-- The directory of the option, if it is to ignore one. -/
def dir? : TreeOption → Option String
  | ignoreDir path => some path
  | _ => none

/-- The file of the option, if it is to ignore one. -/
def file? : TreeOption → Option String
  | ignoreFile path => some path
  | _ => none

/-- The pair of the option, if it is an entry of an ignore list. -/
def pair? : TreeOption → Option (String × String)
  | ignore path word => some (path, word)
  | _ => none

theorem reads_words (o : TreeOption) : Flag.Reads Command.tree.flags o.words [o.setting] := by
  cases o with
  | mode m => exact Command.reads_modeOption (Or.inr rfl) m
  | ignoreDir path => exact Flag.reads_value (by decide) rfl
  | ignoreFile path => exact Flag.reads_value (by decide) rfl
  | ignore path word => exact Flag.reads_value (by decide) rfl
  | runtime => exact Flag.reads_switch (by decide) fun _ => rfl
  | strict => exact Flag.reads_switch (by decide) fun _ => rfl
  | dryRun => exact Flag.reads_switch (by decide) fun _ => rfl
  | diff => exact Flag.reads_switch (by decide) fun _ => rfl

/-- What the options of a command line are read as. -/
def parsed (opts : List TreeOption) (args : List String) : Parsed := ⟨opts.map setting, args⟩

theorem parse_words (opts : List TreeOption) (args : List String) :
    Flag.parse Command.tree.flags true (opts.flatMap words ++ "--" :: args) =
      .ok (parsed opts args) :=
  (Flag.reads_flatMap fun o _ => o.reads_words).parse_eq args

theorem texts_parsed {name : String} {pick : TreeOption → Option String}
    (h : ∀ o : TreeOption, (if o.setting.1 = name then some o.setting.2 else none) = pick o) :
    (parsed opts args).texts name = opts.filterMap pick := by
  unfold Parsed.texts parsed
  induction opts with
  | nil => rfl
  | cons o opts ih =>
    rw [List.map_cons, List.filter_cons, List.filterMap_cons, ← h o]
    by_cases hname : o.setting.1 = name
    · simp only [hname, decide_true, if_true, List.map_cons]
      rw [ih]
    · simp only [hname, decide_false, if_false, Bool.false_eq_true]
      exact ih

theorem texts_dirs : (parsed opts args).texts "ignore-dir" = opts.filterMap dir? := by
  refine texts_parsed fun o => ?_
  cases o with
  | mode m => cases m <;> rfl
  | _ => rfl

theorem texts_files : (parsed opts args).texts "ignore-file" = opts.filterMap file? := by
  refine texts_parsed fun o => ?_
  cases o with
  | mode m => cases m <;> rfl
  | _ => rfl

theorem texts_pairs : (parsed opts args).texts "ignore" =
    (opts.filterMap pair?).map fun pair => pair.1 ++ ":" ++ pair.2 := by
  rw [List.map_filterMap]
  refine texts_parsed fun o => ?_
  cases o with
  | mode m => cases m <;> rfl
  | _ => rfl

/-- The options that take no value. -/
def switches : List TreeOption := Mode.all.map mode ++ [runtime, strict, dryRun, diff]

theorem find?_switches (o : TreeOption) : switches.find? (·.setting.1 = o.setting.1) =
    if o ∈ switches then some o else none := by
  cases o with
  | mode m => cases m <;> rfl
  | _ => rfl

/-- A switch is known by the name of its setting. -/
theorem eq_switch {o' : TreeOption} (ho : o ∈ switches) (h : o'.setting.1 = o.setting.1) :
    o' = o := by
  have hfound := find?_switches o'
  rw [h, find?_switches o, if_pos ho] at hfound
  split at hfound
  · exact (Option.some.inj hfound).symm
  · cases hfound

/-- **A switch is on if it is among the options.** -/
theorem isOn_parsed (ho : o ∈ switches) :
    (parsed opts args).isOn o.setting.1 = true ↔ o ∈ opts := by
  have htrue : ∀ o ∈ switches, o.setting = (o.setting.1, "true") := by decide
  have hmem : ∀ value, (o.setting.1, value) ∈ opts.map setting →
      o ∈ opts ∧ value = "true" := by
    intro value hvalue
    obtain ⟨o', ho', heq⟩ := List.mem_map.mp hvalue
    have hname : o'.setting.1 = o.setting.1 := by rw [heq]
    obtain rfl := eq_switch ho hname
    exact ⟨ho', congrArg Prod.snd (heq.symm.trans (htrue o' ho))⟩
  rw [Parsed.isOn_iff fun value hvalue => (hmem value hvalue).2]
  constructor
  · exact fun hvalue => (hmem "true" hvalue).1
  · exact fun hopts => List.mem_map.mpr ⟨o, hopts, htrue o ho⟩

theorem isOn_mode (m : Mode) : (parsed opts args).isOn m.name = true ↔ .mode m ∈ opts :=
  isOn_parsed (o := .mode m) (by cases m <;> decide)

theorem isOn_json : (parsed opts args).isOn "json" = false := by
  refine Parsed.isOn_of_not_mem fun value hvalue => ?_
  obtain ⟨o, -, heq⟩ := List.mem_map.mp hvalue
  have hname : o.setting.1 ≠ "json" := by
    cases o with
    | mode m => cases m <;> decide
    | _ => simp [setting]
  exact hname (congrArg Prod.fst heq)

end TreeOption

/-! ## Requests -/

/-- An edit of a tree that is asked for, with the mode and with more things to ignore than
the configuration names. -/
structure TreeRequest where
  root : String
  mode : Mode
  ignoreDirs : List String
  ignoreFiles : List String
  /-- Words for lists by path. -/
  ignoreClasses : List (String × List String)
  /-- Whether the module is to be installed when the configuration does not say so, and not
  when it does. -/
  runtime : Bool
  strict : Bool
  dryRun : Bool
  diff : Bool

namespace TreeRequest
open TreeOption
variable {r : TreeRequest} {opts : List TreeOption} {config : Config}

/-- A request whose paths and words can be read. -/
structure Valid (r : TreeRequest) : Prop where
  distinct : (r.ignoreClasses.map Prod.fst).Nodup
  isKey : ∀ entry ∈ r.ignoreClasses, IgnoreMap.IsKey entry.1
  nonempty : ∀ entry ∈ r.ignoreClasses, entry.2 ≠ []
  noColon : ∀ entry ∈ r.ignoreClasses, ∀ word ∈ entry.2, ':' ∉ word.toList
  readable : ∀ entry ∈ r.ignoreClasses, ∀ word ∈ entry.2, IgnoreEntry.isReadable word = true

/-- The options ask for the request.  They may come in any order that keeps the order of
the directories, of the files and of the words for each path. -/
structure WrittenAs (r : TreeRequest) (opts : List TreeOption) : Prop where
  mode : ∀ m, .mode m ∈ opts ↔ m = r.mode
  ignoreDirs : opts.filterMap dir? = r.ignoreDirs
  ignoreFiles : opts.filterMap file? = r.ignoreFiles
  ignoreClasses : ∀ path, IgnoreMap.wordsFor (opts.filterMap pair?) path =
    (r.ignoreClasses.lookup path).getD []
  runtime : .runtime ∈ opts ↔ r.runtime = true
  strict : .strict ∈ opts ↔ r.strict = true
  dryRun : .dryRun ∈ opts ↔ r.dryRun = true
  diff : .diff ∈ opts ↔ r.diff = true

/-- Lists by path as the fields of an object. -/
def listFields (lists : List (String × List String)) : List (String × Json) :=
  lists.map fun entry => (entry.1, .ofTexts entry.2)

/-- The arguments for the tool.  Whether the module is installed is said outright. -/
def arguments (config : Config) (r : TreeRequest) : Arguments :=
  [("diff", .bool r.diff), ("dry_run", .bool r.dryRun),
    ("ignore_classes", .obj (listFields r.ignoreClasses)),
    ("ignore_dirs", .ofTexts r.ignoreDirs), ("ignore_files", .ofTexts r.ignoreFiles),
    ("install_runtime", .bool (config.installRuntime != r.runtime)), ("mode", .str r.mode.name),
    ("root", .str r.root), ("strict", .bool r.strict)]

theorem ordered_arguments (config : Config) (r : TreeRequest) :
    ((r.arguments config).map Prod.fst).Pairwise (· < ·) := by
  show ["diff", "dry_run", "ignore_classes", "ignore_dirs", "ignore_files", "install_runtime",
    "mode", "root", "strict"].Pairwise (· < ·)
  decide

theorem foldl_set_of_distinct {fields done : Arguments}
    (h : ((done ++ fields).map Prod.fst).Nodup) :
    fields.foldl (fun m field => Arguments.set m field.1 field.2) done = done ++ fields := by
  induction fields generalizing done with
  | nil => rw [List.foldl_nil, List.append_nil]
  | cons field fields ih =>
    have hfresh : done.lookup field.1 = none := by
      rw [List.map_append, List.nodup_append] at h
      refine List.lookup_eq_none_iff.mpr fun entry hentry => ?_
      have hne := h.2.2 _ (List.mem_map_of_mem hentry) _ List.mem_cons_self
      exact bne_iff_ne.mpr (Ne.symm hne)
    rw [List.foldl_cons, Arguments.set_of_fresh hfresh, ih (by simpa using h), List.append_assoc]
    rfl

theorem mapM_listFields (lists : List (String × List String)) :
    (listFields lists).mapM (fun field =>
      (ArgumentType.readTexts [] field.2).bind fun list => some (field.1, list)) =
        some (listFields lists) := by
  induction lists with
  | nil => rfl
  | cons entry lists ih =>
    have hentry : ArgumentType.readTexts [] (.ofTexts entry.2) = some (.ofTexts entry.2) :=
      ArgumentType.read_ofTexts entry.2
    rw [listFields, List.map_cons, List.mapM_cons, hentry, ← listFields, ih]
    rfl

/-- Lists for different paths are read as they stand. -/
theorem read_listFields {lists : List (String × List String)} (h : (lists.map Prod.fst).Nodup) :
    ArgumentType.read .textsByName .null (.obj (listFields lists)) =
      some (.obj (listFields lists)) := by
  have hdistinct : ((([] : Arguments) ++ listFields lists).map Prod.fst).Nodup := by
    rw [List.nil_append, listFields, List.map_map]
    exact h
  show Option.bind ((listFields lists).mapM fun field =>
    (ArgumentType.readTexts [] field.2).bind fun list => some (field.1, list)) _ = _
  rw [mapM_listFields]
  exact congrArg (some ∘ Json.obj) (foldl_set_of_distinct hdistinct)

theorem fits_arguments (h : r.Valid) (config : Config) : ∀ field ∈ r.arguments config,
    Arguments.Fits Tool.editTree.parameters field := by
  refine List.forall_mem_cons.mpr ⟨⟨_, rfl, rfl⟩, ?_⟩
  refine List.forall_mem_cons.mpr ⟨⟨_, rfl, rfl⟩, ?_⟩
  refine List.forall_mem_cons.mpr ⟨⟨_, rfl, read_listFields h.distinct⟩, ?_⟩
  refine List.forall_mem_cons.mpr ⟨⟨_, rfl, ArgumentType.read_ofTexts _⟩, ?_⟩
  refine List.forall_mem_cons.mpr ⟨⟨_, rfl, ArgumentType.read_ofTexts _⟩, ?_⟩
  refine List.forall_mem_cons.mpr ⟨⟨_, rfl, rfl⟩, ?_⟩
  refine List.forall_mem_cons.mpr ⟨⟨_, rfl, rfl⟩, ?_⟩
  refine List.forall_mem_cons.mpr ⟨⟨_, rfl, rfl⟩, ?_⟩
  exact List.forall_mem_singleton.mpr ⟨_, rfl, rfl⟩

/-- The run that a request adds up to, with a map for its ignore lists. -/
def run (config : Config) (r : TreeRequest) (ignore : IgnoreMap) : TreeRun where
  root := r.root
  mode := r.mode.name
  ignoreDirs := config.ignoreDirs ++ r.ignoreDirs
  ignoreFiles := config.ignoreFiles ++ r.ignoreFiles
  ignoreMap := config.ignoreClasses.merge ignore
  verbose := false
  installRuntime := config.installRuntime != r.runtime
  dryRun := r.dryRun
  showDiff := r.diff
  strict := config.strict || r.strict

theorem ignoreMapOf_listFields {lists : List (String × List String)}
    (h : ∀ entry ∈ lists, ∀ word ∈ entry.2, IgnoreEntry.isReadable word = true) :
    Tool.ignoreMapOf (.obj (listFields lists)) = .ok (IgnoreMap.ofWords lists) := by
  unfold Tool.ignoreMapOf listFields IgnoreMap.ofWords
  dsimp only
  rw [List.mapM_map]
  refine mapM_eq_ok_map fun entry hentry => ?_
  dsimp only [Function.comp]
  rw [Json.asTexts_ofTexts, IgnoreList.parse_of_isReadable (h entry hentry)]
  rfl

/-- What the tool is asked to run. -/
theorem treeRun_arguments (h : r.Valid) (config : Config) :
    Tool.treeRun config (r.arguments config) =
      .ok (r.run config (IgnoreMap.ofWords r.ignoreClasses)) := by
  have hmode : Tool.modeOf ((r.arguments config).text "mode") = .ok r.mode := by
    show Tool.modeOf r.mode.name = _
    cases r.mode <;> decide
  have hmap : Tool.ignoreMapOf ((r.arguments config).get "ignore_classes") =
      .ok (IgnoreMap.ofWords r.ignoreClasses) :=
    ignoreMapOf_listFields h.readable
  have hdirs : (r.arguments config).texts "ignore_dirs" = r.ignoreDirs :=
    Json.asTexts_ofTexts r.ignoreDirs
  have hfiles : (r.arguments config).texts "ignore_files" = r.ignoreFiles :=
    Json.asTexts_ofTexts r.ignoreFiles
  unfold Tool.treeRun
  rw [hmode, hmap, hdirs, hfiles]
  rfl

theorem isOn_dryRun (h : r.WrittenAs opts) :
    (parsed opts [r.root]).isOn "dry-run" = r.dryRun := by
  rw [Bool.eq_iff_iff, ← h.dryRun]
  exact isOn_parsed (o := .dryRun) (by decide)

/-- What the command is asked to run. -/
theorem treeRun_parsed (h : r.WrittenAs opts) (config : Config) (path : String)
    (ignore : IgnoreMap) :
    Command.treeRun config ⟨false, false, path⟩ (parsed opts [r.root]) ignore r.root r.mode.name =
      r.run config ignore := by
  have hruntime : (parsed opts [r.root]).isOn "runtime" = r.runtime := by
    rw [Bool.eq_iff_iff, ← h.runtime]
    exact isOn_parsed (o := .runtime) (by decide)
  have hstrict : (parsed opts [r.root]).isOn "strict" = r.strict := by
    rw [Bool.eq_iff_iff, ← h.strict]
    exact isOn_parsed (o := .strict) (by decide)
  have hdiff : (parsed opts [r.root]).isOn "diff" = r.diff := by
    rw [Bool.eq_iff_iff, ← h.diff]
    exact isOn_parsed (o := .diff) (by decide)
  unfold Command.treeRun Command.isDry
  rw [texts_dirs, texts_files, h.ignoreDirs, h.ignoreFiles, hruntime, hstrict, isOn_dryRun h, hdiff]
  rfl

/-- The pairs on the command line are entries of the lists. -/
theorem WrittenAs.mem_of_pair (h : r.WrittenAs opts) {pair : String × String}
    (hpair : pair ∈ opts.filterMap pair?) :
    ∃ words, (pair.1, words) ∈ r.ignoreClasses ∧ pair.2 ∈ words := by
  have hword := IgnoreMap.mem_wordsFor.mpr (show (pair.1, pair.2) ∈ opts.filterMap pair? from hpair)
  rw [h.ignoreClasses pair.1] at hword
  cases hl : r.ignoreClasses.lookup pair.1 with
  | none => rw [hl] at hword; cases hword
  | some words =>
    rw [hl] at hword
    obtain ⟨before, after, hsplit, -⟩ := List.lookup_eq_some_iff.mp hl
    exact ⟨words, by simp [hsplit], hword⟩

/-- The ignore lists of the options, one entry after the other. -/
def pairsMap (opts : List TreeOption) : IgnoreMap :=
  IgnoreMap.merge [] (IgnoreMap.ofPairs (opts.filterMap pair?))

theorem parse_pairsMap (hvalid : r.Valid) (h : r.WrittenAs opts) :
    IgnoreMap.parse ((parsed opts [r.root]).texts "ignore") = .ok (pairsMap opts) := by
  rw [texts_pairs]
  refine IgnoreMap.parse_pairs (fun pair hpair => ?_) (fun pair hpair => ?_) fun pair hpair => ?_
  · obtain ⟨words, hentry, -⟩ := h.mem_of_pair hpair
    exact hvalid.isKey (pair.1, words) hentry
  · obtain ⟨words, hentry, hword⟩ := h.mem_of_pair hpair
    exact hvalid.noColon (pair.1, words) hentry pair.2 hword
  · obtain ⟨words, hentry, hword⟩ := h.mem_of_pair hpair
    exact hvalid.readable (pair.1, words) hentry pair.2 hword

theorem inOrder_pairsMap (hvalid : r.Valid) (h : r.WrittenAs opts) : (pairsMap opts).InOrder := by
  refine IgnoreMap.InOrder.merge (fun _ hentry => nomatch hentry)
    (IgnoreMap.inOrder_ofPairs fun pair hpair => ?_)
  obtain ⟨words, hentry, hword⟩ := h.mem_of_pair hpair
  exact hvalid.readable (pair.1, words) hentry pair.2 hword

/-- Both maps have the same lists. -/
theorem lookup_run (hvalid : r.Valid) (h : r.WrittenAs opts) (config : Config) (path : String) :
    (r.run config (pairsMap opts)).ignoreMap.lookup path =
      (r.run config (IgnoreMap.ofWords r.ignoreClasses)).ignoreMap.lookup path := by
  have hempty : IgnoreMap.Distinct [] := List.Pairwise.nil
  have hpairs : (pairsMap opts).Distinct := hempty.merge _
  have hlists : (IgnoreMap.ofWords r.ignoreClasses).Distinct := by
    rw [IgnoreMap.Distinct, IgnoreMap.ofWords, List.map_map]
    exact hvalid.distinct
  exact IgnoreMap.lookup_merge_congr hpairs hlists
    (IgnoreMap.lookup_pairs hvalid.nonempty h.ignoreClasses) config.ignoreClasses path

/-! ## Agreement -/

/-- The tool ends as the edit of the tree does. -/
theorem run_arguments (h : r.Valid) (config : Config) (fs : FileSystem) :
    let done := (Edit.tree config false
      (r.run config (IgnoreMap.ofWords r.ignoreClasses))).outcome fs
    Tool.run config "edit_tree" (.obj (r.arguments config)) fs =
      ((done.1.map TreeResult.toJson).mapError fun cause =>
        .failed (.within "failed to edit tree" cause), done.2) := by
  have hcall : Tool.editTree.call config (r.arguments config) =
      Tool.within "failed to edit tree" (Edit.tree config false
        (r.run config (IgnoreMap.ofWords r.ignoreClasses))) >>= fun result =>
          pure result.toJson := by
    show Edit.ofExcept (Tool.treeRun config (r.arguments config)) >>= _ = _
    rw [treeRun_arguments h]
    rfl
  rw [Tool.run_of_fits rfl (ordered_arguments config r) (fits_arguments h config), hcall,
    Edit.outcome_map, Tool.outcome_within]
  generalize (Edit.tree config false _).outcome fs = done
  dsimp only
  cases done.1 <;> rfl

/-- **The command line and the tool agree.**  Under a configuration that is in order, the
options of a request are read and so are its arguments; the two runs over the tree differ
only in the spelling of their maps of ignore lists; and the files afterwards and the result,
or the error, of command and tool are those of one edit. -/
theorem front_ends_agree (hconfig : config.check = .ok ()) (hvalid : r.Valid)
    (hwritten : r.WrittenAs opts) (path : String) (fs : FileSystem) :
    let g : GlobalOptions := ⟨false, false, path⟩
    let argv := opts.flatMap words ++ ["--", r.root]
    ∃ p ignore asked, Flag.parse Command.tree.flags true argv = .ok p ∧
      IgnoreMap.parse (p.texts "ignore") = .ok ignore ∧
      Tool.treeRun config (r.arguments config) = .ok asked ∧
      let given := Command.treeRun config g p ignore r.root r.mode.name
      let done := (Edit.tree config false given).outcome fs
      { given with ignoreMap := asked.ignoreMap } = asked ∧
      (∀ path, given.ignoreMap.lookup path = asked.ignoreMap.lookup path) ∧
      (Edit.tree config false asked).outcome fs = done ∧
      Command.tree.runWith config g argv fs =
        Command.ending (done.1.map (Command.treeText r.dryRun), done.2) ∧
      Tool.run config "edit_tree" (.obj (r.arguments config)) fs =
        ((done.1.map TreeResult.toJson).mapError fun cause =>
          .failed (.within "failed to edit tree" cause), done.2) := by
  intro g argv
  have hparse : Flag.parse Command.tree.flags true argv = _ := parse_words opts [r.root]
  have hignore := parse_pairsMap hvalid hwritten
  have hasked := treeRun_arguments hvalid config
  have hword : Command.modeWord (parsed opts [r.root]) config.mode = .ok r.mode.name :=
    Command.modeWord_of_asked (fun m => (isOn_mode m).trans (hwritten.mode m)) config.mode
  have hpairs := inOrder_pairsMap hvalid hwritten
  have hlists := IgnoreMap.inOrder_ofWords hvalid.readable
  have hclasses := Config.inOrder_of_check hconfig
  refine ⟨_, _, _, hparse, hignore, hasked, ?_⟩
  intro given done
  have hgiven : given = r.run config (pairsMap opts) := treeRun_parsed hwritten config path _
  have hlookup := lookup_run hvalid hwritten config
  have htree : Edit.tree config false (r.run config (IgnoreMap.ofWords r.ignoreClasses)) =
      Edit.tree config false given := by
    rw [hgiven]
    refine @Edit.tree_of_lists (r.run config (pairsMap opts)) _ config false (fun path => ?_)
      (hclasses.merge hlists) (hclasses.merge hpairs)
    exact congrArg (Option.getD · []) (hlookup path).symm
  have hcommand := @Command.tree_runWith config g argv (parsed opts [r.root]) fs r.mode.name r.root
    _ hparse rfl hword hignore rfl isOn_json
  have hdry : Command.isDry g (parsed opts [r.root]) = r.dryRun := by
    exact isOn_dryRun hwritten
  refine ⟨by rw [hgiven]; rfl, by rw [hgiven]; exact hlookup, by rw [htree], ?_, ?_⟩
  · rw [hdry] at hcommand
    exact hcommand
  · have htool := run_arguments hvalid config fs
    rw [htree] at htool
    exact htool

/-- A request to add, with lists for two files. -/
def sample : TreeRequest where
  root := "t"
  mode := .add
  ignoreDirs := ["build"]
  ignoreFiles := []
  ignoreClasses := [("a.py", ["A", "3"]), ("b.py", ["B"])]
  runtime := true
  strict := true
  dryRun := false
  diff := false

/-- The request with an entry for the second file between those for the first one. -/
def interleaved : List TreeOption :=
  [.ignore "a.py" "A", .strict, .ignore "b.py" "B", .mode .add, .ignoreDir "build",
    .ignore "a.py" "3", .runtime]

theorem valid_sample : sample.Valid where
  distinct := by decide
  isKey := List.forall_mem_cons.mpr ⟨⟨by decide, by decide +kernel⟩,
    List.forall_mem_singleton.mpr ⟨by decide, by decide +kernel⟩⟩
  nonempty := by decide
  noColon := by decide
  readable := by decide

theorem writtenAs_interleaved : sample.WrittenAs interleaved where
  mode m := by cases m <;> decide
  ignoreDirs := rfl
  ignoreFiles := rfl
  ignoreClasses path := by
    show IgnoreMap.wordsFor [("a.py", "A"), ("b.py", "B"), ("a.py", "3")] path = _
    by_cases ha : path = "a.py"
    · subst ha
      rfl
    · by_cases hb : path = "b.py"
      · subst hb
        rfl
      · have hfilter : [("a.py", "A"), ("b.py", "B"), ("a.py", "3")].filter
            (fun pair : String × String => decide (pair.1 = path)) = [] := by
          simp [Ne.symm ha, Ne.symm hb]
        have hlookup : sample.ignoreClasses.lookup path = none := by
          simp [sample, ha, hb]
        rw [IgnoreMap.wordsFor, hfilter, hlookup]
        rfl
  runtime := by decide
  strict := by decide
  dryRun := by decide
  diff := by decide

/-- The interleaved options leave the same files as the call with whole lists, and fail if
it fails. -/
theorem front_ends_agree_interleaved :
    let command := Command.tree.runWith .default ⟨false, false, ""⟩
      (interleaved.flatMap words ++ ["--", "t"]) Edit.mixedFiles
    let tool := Tool.run .default "edit_tree" (.obj (sample.arguments .default)) Edit.mixedFiles
    command.files = tool.2 ∧ command.error.isNone = tool.1.isOk := by
  intro command tool
  obtain ⟨p, ignore, asked, -, -, -, -, -, -, hcommand, htool⟩ := front_ends_agree
    (show Config.default.check = .ok () by decide +kernel) valid_sample writtenAs_interleaved ""
      Edit.mixedFiles
  have hcommand : command = _ := hcommand
  have htool : tool = _ := htool
  rw [hcommand, htool]
  generalize (Edit.tree _ _ _).outcome _ = done
  unfold Command.ending
  dsimp only
  cases done.1 <;> exact ⟨rfl, rfl⟩

end TreeRequest
end ForwardDecl
