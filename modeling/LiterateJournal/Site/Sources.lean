import LiterateJournal.Document.Basic
import LiterateJournal.Site.Settings
import LiterateJournal.Site.World

/-!
# Sources

The sources are the scripts and Markdown files right in the source directory, but for the build
script. All names are Unicode strings: a file whose stem is not UTF-8, which is no source, is
outside this model.

## Main definitions

* `SourceKind.ofPath?`, `isSource` — which files are sources.
* `discover`, `eligible` — the sources of a build.
* `isStale` — whether a page must be made again.
-/

namespace LiterateJournal

def asciiLower (s : String) : String := String.ofList (s.toList.map Char.toLower)

def SourceKind.ofPath? (path : String) : Option SourceKind :=
  match (Path.extension? path).map asciiLower with
  | some "fsx" => some .script
  | some "md" => some .markdown
  | _ => none

def isSource (path : String) : Bool :=
  (SourceKind.ofPath? path).isSome &&
    match Path.stem? path with
    | some stem => asciiLower stem ≠ "build"
    | none => false

/-- The name of a file, or nothing. -/
def sourceName (path : String) : String := (Path.fileName? path).getD ""

def pageName (path : String) : String := (Path.stem? path).getD "" ++ ".html"

def discover (s : Settings) : Run (List String) := do
  match (← Run.files).children s.root with
  | .error _ => throw (.sourceRootNotFound s.root)
  | .ok entries =>
    let files := entries.filter fun (_, e) => !e.isDirectory
    let paths := files.map fun (name, _) => Path.join s.root name
    pure (paths.filter fun path => isSource path && s.endsListed path)

def eligible (s : Settings) (discovered : List String) : List String :=
  discovered.filter fun path => s.isListed (sourceName path)

/-- Whether a page must be made again: it is older than its source, or all pages are made again. A
missing file is as old as can be. -/
def isStale (files : FileTree) (source page : String) (overwrite : Bool) : Bool :=
  overwrite || files.modified page < files.modified source

end LiterateJournal
