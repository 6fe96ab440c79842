import ForwardDecl.Config.Document
import ForwardDecl.FileSystem.Basic

/-! # Loading a configuration

A configuration file is a document.  No file means the default settings.
-/
namespace ForwardDecl
namespace Config

/-- The settings that the bytes of a configuration file say. -/
def ofBytes (path : String) (bytes : ByteArray) : Except Error Config := do
  let config ← (ofDocumentBytes bytes).mapError fun problem => .config (.badDocument path problem)
  config.check
  return config

/-- The settings of the file at a path, or the default ones for the empty path. -/
def load (fs : FileSystem) (path : String) : Except Error (Config × FileSystem) :=
  if path = "" then .ok (.default, fs)
  else
    match fs.read path with
    | .error cause => .error (.config (.fileUnreadable cause))
    | .ok (bytes, fs) => (ofBytes path bytes).map (·, fs)

end Config
end ForwardDecl
