import LiterateJournal.Document.Basic
import LiterateJournal.Files.Tree

/-!
# Errors that end a build

## Main definitions

* `BuildError` — why a build ended.
* `BuildError.message`, `BuildError.cause?` — the error and its cause as texts.
-/

namespace LiterateJournal

/-- Why a build ended. -/
inductive BuildError where
  | sourceRootNotFound (path : String)
  | noDocuments (root : String)
  | templateNotFound (path : String)
  | templateReadFailed (path : String) (cause : FileError)
  | imageDownloadFailed (document url reason : String)
  | invalidImageUrl (url reason : String)
  | outputWriteFailed (path : String) (cause : FileError)
  | directoryCreateFailed (path : String) (cause : FileError)
  | copyFailed (source target reason : String)
  | documentFailed (name : String) (cause : DocumentError)
  | invalidSettings (reason : String)
  | internal (reason : String)
deriving Repr, BEq, DecidableEq

namespace BuildError

def message : BuildError → String
  | .sourceRootNotFound path =>
    "Source directory not found: '" ++ path ++ "'\nCheck the path exists and is a directory."
  | .noDocuments root => "No literate scripts or Markdown files found in '" ++ root ++ "'"
  | .templateNotFound path =>
    "Template not found: '" ++ path ++ "'\nPass --templates <DIR> to copy the default styles."
  | .templateReadFailed path cause =>
    "Failed to read template '" ++ path ++ "': " ++ cause.message
  | .imageDownloadFailed document url reason =>
    "Failed to download image '" ++ url ++ "' for '" ++ document ++ "': " ++ reason
  | .invalidImageUrl url reason => "Invalid image URL '" ++ url ++ "': " ++ reason
  | .outputWriteFailed path cause =>
    "Failed to write output file '" ++ path ++ "': " ++ cause.message
  | .directoryCreateFailed path cause =>
    "Failed to create directory '" ++ path ++ "': " ++ cause.message
  | .copyFailed source target reason =>
    "Failed to copy '" ++ source ++ "' to '" ++ target ++ "': " ++ reason
  | .documentFailed name cause => "Document '" ++ name ++ "' failed: " ++ cause.message
  | .invalidSettings reason => "Invalid configuration: " ++ reason
  | .internal reason => "Internal error: " ++ reason

def cause? : BuildError → Option String
  | .templateReadFailed _ cause | .outputWriteFailed _ cause | .directoryCreateFailed _ cause =>
    some cause.message
  | .documentFailed _ cause => some cause.message
  | _ => none

end BuildError

end LiterateJournal
