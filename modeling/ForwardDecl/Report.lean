import ForwardDecl.Edit.Tree
import ForwardDecl.Json

/-! # Reports

What an edit did, as lines for a person and as JSON for a program.
-/
namespace ForwardDecl

/-- The name of a reason, or nothing. -/
def skipName (reason : Option SkipReason) : String :=
  (reason.map SkipReason.name).getD ""

/-! ## For programs -/

def FileResult.toJson (r : FileResult) : Json :=
  .obj ([("path", .str r.path), ("mode", .str r.mode.name),
      ("modifications", .nat r.modifications)] ++
    Json.unlessEmpty "skipped" (.str (skipName r.skipped)) ++ [("written", .bool r.written)] ++
    Json.unlessEmpty "diff" (.str r.diff))

def FileFailure.toJson (f : FileFailure) : Json :=
  .obj [("path", .str f.path), ("error", .str f.cause.message)]

def TreeResult.toJson (r : TreeResult) : Json :=
  .obj ([("root", .str r.root), ("mode", .str r.mode.name),
      ("modified_files", .nat r.modifiedFiles),
      ("modified_lines", .nat r.modifiedLines), ("runtime_installed", .bool r.runtimeInstalled)] ++
    Json.unlessEmpty "files" (.arr (r.files.map FileResult.toJson)) ++
    Json.unlessEmpty "skipped" (.arr (r.skipped.map FileFailure.toJson)) ++
    Json.unlessEmpty "failed" (.arr (r.failed.map FileFailure.toJson)))

/-! ## For people -/

/-- Said before the results of a dry run. -/
def dryRunNotice : String := "DRY RUN MODE - No files will be modified\n"

/-- What was done to one file. -/
def FileResult.report (r : FileResult) (dryRun : Bool) : String :=
  let amount := toString r.modifications ++ " modifications (mode=" ++ r.mode.name ++ ").\n"
  let outcome :=
    if 0 < r.modifications then
      (if dryRun then "    would be modified with " else "    modified with ") ++ amount
    else
      match r.skipped with
      | some reason => "    not modified (" ++ reason.name ++ ").\n"
      | none => "    not modified.\n"
  r.path ++ "\n" ++ outcome ++ r.diff

/-- One file in the report on a tree. -/
def FileResult.reportInTree (r : FileResult) (verbose : Bool) : String :=
  (if verbose ∨ 0 < r.modifications then
    "  " ++ r.path ++ ": " ++ toString r.modifications ++ "\n" else "") ++ r.diff

def FileFailure.report (f : FileFailure) (verb : String) : String :=
  "  " ++ verb ++ " " ++ f.path ++ ": " ++ f.cause.message ++ "\n"

/-- What was done to a tree of files. -/
def TreeResult.report (r : TreeResult) (verbose : Bool) : String :=
  r.root ++ "\n    " ++ toString r.modifiedFiles ++ " files modified with " ++
    toString r.modifiedLines ++ " modified lines (mode=" ++ r.mode.name ++ ").\n" ++
    (if r.runtimeInstalled then "    installed " ++ SupportModule.path ++ "\n" else "") ++
    String.join (r.files.map (·.reportInTree verbose)) ++
    String.join (r.skipped.map (·.report "skipped")) ++
    String.join (r.failed.map (·.report "failed"))

/-- What toggling would do to one file. -/
def FileResult.detection (r : FileResult) : String :=
  let direction :=
    if r.mode = .toggle then "no class declarations"
    else r.mode.name ++ " (" ++ toString r.modifications ++ " modifications)"
  r.path ++ ": " ++
    (match r.skipped with
      | none => direction
      | some .empty => direction
      | some reason => "untouched (" ++ reason.name ++ ")") ++ "\n"

end ForwardDecl
