import LiterateJournal.Site.World

/-!
# Assets

Templates and other assets are copied into the output directory. What is there already stays.

A directory is listed before its copy is made and before what is in it is copied, and after what
comes before it has been copied. Thus a copy inside the directory that is being copied is copied
again, until a path is too long.

## Main definitions

* `ensureDirectory` — makes a directory.
* `copyAssets` — copies what is in a directory.
-/

namespace LiterateJournal

def ensureDirectory (path : String) : Run Unit :=
  Run.makeDirectories (.directoryCreateFailed path) path

def listingMessage (path : String) (e : FileError) : String :=
  "IO error for operation on " ++ path ++ ": " ++ e.message

/-- Copies a file, unless there is something at its target; gives the number of copies. -/
def copyAsset (source target : String) : Run Nat := do
  if (← Run.files).exists? target then return 0
  Run.change (fun e => .copyFailed source target e.message) fun files now =>
    files.copy now source target
  return 1

/-- Copies the entries of a directory that have been listed, and what is in them, down to `depth`
directories deep; gives the number of copied files. -/
def copyListed (root rootTarget : String) :
    Nat → String → String → List (String × Entry) → Run Nat
  | 0, _, _, _ => pure 0
  | depth + 1, source, target, entries =>
    entries.foldlM (fun copied (name, entry) => do
      let from_ := Path.join source name
      let to_ := Path.join target name
      match entry with
      | .file .. => return copied + (← copyAsset from_ to_)
      | .directory _ =>
        let listed := (← Run.files).children from_
        ensureDirectory to_
        match listed with
        | .ok inner => return copied + (← copyListed root rootTarget depth from_ to_ inner)
        | .error e => throw (.copyFailed root rootTarget (listingMessage from_ e))) 0

/-- Copies what is in a directory; gives the number of copied files. There is nothing in a file. -/
def copyAssets (source target : String) : Run Nat := do
  ensureDirectory target
  match (← Run.files).stat source with
  | .error e => throw (.copyFailed source target (listingMessage source e))
  | .ok (.file ..) => pure 0
  | .ok (.directory _) =>
    match (← Run.files).children source with
    | .error e => throw (.copyFailed source target (listingMessage source e))
    | .ok entries => copyListed source target FileTree.maxPath source target entries

end LiterateJournal
