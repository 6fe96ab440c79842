import ForwardDecl.Config.Basic
import ForwardDecl.Edit.Desk
import ForwardDecl.Text.Lossy

/-! # Checks before an edit

What is to be edited has to be there: a source file with the right suffix, the
root of a tree, or a checkout with all that belongs to it, at its revision.
-/
namespace ForwardDecl
namespace FileSystem

/-- Check that a path leads to a file and has the suffix. -/
def checkSource (fs : FileSystem) (path suffix : String) : Except Error Unit :=
  if path = "" then .error (.config .emptyPath)
  else if !suffix.toList.isSuffixOf path.toList then .error (.config (.wrongSuffix path suffix))
  else
    match fs.stat path with
    | .error cause => .error (.config (.sourceUnreachable path cause))
    | .ok node => if node.isDir then .error (.config (.sourceIsDirectory path)) else .ok ()

/-- Check that a path leads to a directory. -/
def checkRoot (fs : FileSystem) (path : String) : Except Error Unit :=
  if path = "" then .error (.config .emptyPath)
  else
    match fs.stat path with
    | .error cause => .error (.config (.rootUnreachable path cause))
    | .ok node => if node.isDir then .ok () else .error (.config (.rootNotDirectory path))

/-- Check that an entry of a checkout is there. -/
def checkRequired (fs : FileSystem) (root entry : String) : Except Error Unit :=
  match fs.stat (Path.join root entry) with
  | .ok _ => .ok ()
  | .error _ => .error (.config (.checkoutLacks root entry))

end FileSystem

namespace Edit

/-- Whether the bytes of a file are a text, with blanks around it.  Bytes that
are not UTF-8 are no text, however they are shown. -/
def holds (bytes : ByteArray) (text : String) : Bool :=
  (String.fromUTF8? bytes).any fun content => trimmed content = text

/-- Check that the wanted revision is checked out below a root. -/
def checkRevision (root revision : String) : Edit Unit := do
  match ← read (Path.join (Path.join root ".git") "HEAD") with
  | .error cause => throw (.config (.revisionUnreadable root cause))
  | .ok bytes =>
    if !holds bytes revision then
      throw (.config (.wrongRevision root (trimmed (lossyText bytes)) revision))

/-- Check that a root holds a checkout: everything that is required, the
revision if one is wanted, and the subdirectory. -/
def checkCheckout (root : String) (c : CheckoutConfig) : Edit Unit := do
  ofExcept ((← files).checkRoot root)
  let fs ← files
  ofExcept (c.required.forM (fs.checkRequired root))
  if c.revision ≠ "" then checkRevision root c.revision
  if c.subdir ≠ "" then ofExcept ((← files).checkRoot (Path.join root c.subdir))

end Edit
end ForwardDecl
