import ForwardDecl.Command.Flag
import ForwardDecl.Command.Help
import ForwardDecl.Config.Load
import ForwardDecl.Report

/-! # Commands

A command line names a command and what it is to work on.  Options of the
program stand before the name of the command and options of the command after
it.  `Command.run` is the whole program as a function of the files and the
command line: it gives what is written to the two output streams, the error,
if there is one, and the files afterwards.
-/
namespace ForwardDecl

/-! ## The command line as a whole -/

/-- Options that every command has. -/
structure GlobalOptions where
  verbose : Bool
  dryRun : Bool
  config : String
  deriving DecidableEq, Repr

/-- What a command line asks for. -/
inductive Invocation
  | help
  /-- To serve the tools, with the configuration file at a path. -/
  | serve (config : String)
  | command (options : GlobalOptions) (name : String) (args : List String)
  deriving DecidableEq, Repr

namespace Invocation

/-- The options that stand before the name of a command. -/
def flags : List Flag :=
  [⟨"help", some 'h', .switch, "Show help"⟩,
    ⟨"mcp", none, .switch, "Run as MCP server"⟩,
    ⟨"verbose", some 'v', .switch, "Verbose output"⟩,
    ⟨"dry-run", none, .switch, "Show what would be changed without making changes"⟩,
    ⟨"config", none, .text, "Path to configuration file"⟩]

/-- Read a command line, the first word of which names the program. -/
def parse (argv : List String) : Except Error Invocation :=
  match argv with
  | [] => .ok .help
  | _ :: args => do
    let p ← Flag.parse flags false args
    if p.isOn "help" then return .help
    if p.isOn "mcp" then return .serve (p.text "config")
    match p.args with
    | [] => return .help
    | name :: rest =>
      return .command ⟨p.isOn "verbose", p.isOn "dry-run", p.text "config"⟩ name rest

end Invocation

/-- Load the configuration for a run. -/
def loadConfig (fs : FileSystem) (path : String) : Except Error (Config × FileSystem) :=
  inContext "failed to load config" (Config.load fs path)

/-! ## The commands -/

/-- A command: its options, and what it does with the arguments.  It gives the
text for the standard output. -/
structure Command where
  name : String
  flags : List Flag
  edit : Config → GlobalOptions → Parsed → Edit String

namespace Command

/-- The options that tell the direction. -/
def modeFlags : List Flag :=
  [⟨"add", some 'a', .switch, "Add @forward() declarations"⟩,
    ⟨"remove", some 'r', .switch, "Remove @forward() declarations"⟩,
    ⟨"toggle", some 't', .switch, "Toggle the current state"⟩]

/-- The options for how results are shown. -/
def outputFlags : List Flag :=
  [⟨"diff", none, .switch, "Print a unified diff of each change"⟩,
    ⟨"json", none, .switch, "Output as JSON"⟩,
    ⟨"dry-run", none, .switch, "Show what would be changed without making changes"⟩]

/-- The modes that are asked for. -/
def modesAsked (p : Parsed) : List Mode :=
  Mode.all.filter fun m => p.isOn m.name

/-- The mode of a command: at most one may be asked for, and the configuration
tells it otherwise. -/
def modeWord (p : Parsed) (fallback : String) : Except Error String :=
  match modesAsked p with
  | [] => .ok fallback
  | [m] => .ok m.name
  | _ => .error (.config .modesExclude)

/-- Whether a command is to write nothing. -/
def isDry (g : GlobalOptions) (p : Parsed) : Bool :=
  g.dryRun || p.isOn "dry-run"

/-- The results as JSON or as a report. -/
def output (p : Parsed) (dryRun : Bool) (json : Json) (report : String) : String :=
  if p.isOn "json" then json.render ++ "\n"
  else (if dryRun then dryRunNotice else "") ++ report

/-- Edit files one after the other; a resolved toggle carries over to the files
after it. -/
def editFiles (config : Config) (ignore : IgnoreList) (options : EditOptions) (mode : Mode) :
    List String → Edit (List FileResult)
  | [] => return []
  | path :: paths => do
    let result ← Edit.file config false path mode ignore options
    return result :: (← editFiles config ignore options result.mode paths)

/-- Edit single files. -/
def file : Command where
  name := "file"
  flags := modeFlags ++
    ⟨"ignore", some 'i', .texts, "Line number or class name to leave alone (repeatable)"⟩ ::
      outputFlags
  edit config g p := do
    let word ← Edit.ofExcept (modeWord p config.mode)
    let ignore ← Edit.ofExcept (IgnoreList.parse (p.texts "ignore"))
    if p.args = [] then throw (.usage .noFiles)
    let mode ← Edit.ofExcept (Mode.ofName word)
    let dry := isDry g p
    let results ← editFiles config ignore ⟨dry, p.isOn "diff"⟩ mode p.args
    return output p dry (.arr (results.map FileResult.toJson))
      (String.join (results.map (·.report dry)))

/-- The run over one root that the options ask for. -/
def treeRun (config : Config) (g : GlobalOptions) (p : Parsed) (ignore : IgnoreMap)
    (root mode : String) : TreeRun :=
  let run := config.treeRun root mode
  { run with
    ignoreDirs := run.ignoreDirs ++ p.texts "ignore-dir"
    ignoreFiles := run.ignoreFiles ++ p.texts "ignore-file"
    ignoreMap := run.ignoreMap.merge ignore
    installRuntime := run.installRuntime != p.isOn "runtime"
    strict := run.strict || p.isOn "strict"
    verbose := g.verbose
    dryRun := isDry g p
    showDiff := p.isOn "diff" }

/-- Edit trees one after the other; a resolved toggle carries over to the trees
after it. -/
def editTrees (config : Config) (run : (root mode : String) → TreeRun) (mode : String) :
    List String → Edit (List TreeResult)
  | [] => return []
  | root :: roots => do
    let result ← Edit.tree config false (run root mode)
    return result :: (← editTrees config run result.mode.name roots)

/-- Edit trees of files. -/
def tree : Command where
  name := "tree"
  flags := modeFlags ++
    ⟨"ignore-dir", some 'd', .texts,
      "Relative directory to skip with everything under it (repeatable)"⟩ ::
    ⟨"ignore-file", some 'f', .texts, "Relative file path to skip (repeatable)"⟩ ::
    ⟨"ignore", some 'i', .texts,
      "PATH:IGNORE, a line number or class name to leave alone in PATH (repeatable)"⟩ ::
    ⟨"runtime", some 'm', .switch,
      "Toggle installing the forward runtime module into each root"⟩ ::
    ⟨"strict", none, .switch, "Abort the whole run on the first malformed file"⟩ :: outputFlags
  edit config g p := do
    let word ← Edit.ofExcept (modeWord p config.mode)
    let ignore ← Edit.ofExcept (IgnoreMap.parse (p.texts "ignore"))
    if p.args = [] then throw (.usage .noPaths)
    let results ← editTrees config (treeRun config g p ignore) word p.args
    return output p (isDry g p) (.arr (results.map TreeResult.toJson))
      (String.join (results.map (·.report g.verbose)))

/-- Edit a checkout. -/
def checkout : Command where
  name := "checkout"
  flags := modeFlags ++ outputFlags
  edit config g p := do
    let word ← Edit.ofExcept (modeWord p config.mode)
    match p.args with
    | [root] =>
      let dry := isDry g p
      let result ← Edit.checkout config false root word ⟨dry, p.isOn "diff"⟩
      return output p dry result.toJson (result.report g.verbose)
    | _ => throw (.usage .notOneCheckout)

/-- Report what toggling would do to files. -/
def detect : Command where
  name := "detect"
  flags := [⟨"json", none, .switch, "Output as JSON"⟩]
  edit config _ p := do
    if p.args = [] then throw (.usage .noFiles)
    let results ← Edit.detect config false p.args
    return output p false (.arr (results.map FileResult.toJson))
      (String.join (results.map FileResult.detection))

/-- All commands. -/
def all : List Command := [file, tree, checkout, detect]

/-! ## Running -/

/-- How a run of the program ends. -/
structure Outcome where
  stdout : String
  stderr : String
  error : Option Error
  files : FileSystem

/-- The trace of a run, as it is shown. -/
def shownTrace (verbose : Bool) (trace : List Event) : String :=
  if verbose then String.join (trace.map (·.message ++ "\n")) else ""

/-- Run a command with its own part of the command line. -/
def runWith (c : Command) (config : Config) (g : GlobalOptions) (args : List String)
    (fs : FileSystem) : Outcome :=
  match Flag.parse c.flags true args with
  | .error .helpRequested => ⟨"", Flag.usage c.name c.flags, some .helpRequested, fs⟩
  | .error e => ⟨"", "", some e, fs⟩
  | .ok p =>
    match (c.edit config g p).run ⟨fs, []⟩ with
    | .ok stdout desk => ⟨stdout, shownTrace g.verbose desk.trace, none, desk.files⟩
    | .error e desk => ⟨"", shownTrace g.verbose desk.trace, some e, desk.files⟩

/-- Run the program. -/
def run (argv : List String) (fs : FileSystem) : Outcome :=
  match Invocation.parse argv with
  | .error e => ⟨"", "", some e, fs⟩
  | .ok .help => ⟨helpText, "", none, fs⟩
  | .ok (.serve path) =>
    match loadConfig fs path with
    | .error e => ⟨"", "", some e, fs⟩
    | .ok (_, fs) => ⟨"", "", none, fs⟩
  | .ok (.command g name args) =>
    match loadConfig fs g.config with
    | .error e => ⟨"", "", some e, fs⟩
    | .ok (config, fs) =>
      match all.find? (·.name = name) with
      | none => ⟨"", "", some (.usage (.unknownCommand name)), fs⟩
      | some c => c.runWith config g args fs

end Command
end ForwardDecl
