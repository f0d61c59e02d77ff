import LiterateJournal.CommandLine.Options
import LiterateJournal.Site.World

/-!
# Inventories

The program is told which files there are by an inventory, a text with a line for each file and
directory. A line holds the time of the last change, a space and the path; the path of a directory
ends with a slash. What a build has changed is told by a list of changes.

## Main definitions

* `InventoryItem`, `InventoryItem.ofLine?` — a line of an inventory.
* `InventoryItem.addTo` — the files with one that is on the inventory.
* `Change`, `changesBetween` — what makes one file tree of another.
* `worldOf` — the world in which a build runs.
-/

namespace LiterateJournal.CommandLine

structure InventoryItem where
  path : String
  modified : Nat
deriving Repr, BEq, DecidableEq

namespace InventoryItem

def ofLine? (line : String) : Option InventoryItem :=
  let cs := line.toList.takeWhile (· ≠ '\n')
  match number? (String.ofList (cs.takeWhile (· ≠ ' '))), cs.dropWhile (· ≠ ' ') with
  | some modified, ' ' :: c :: path => some ⟨String.ofList (c :: path), modified⟩
  | _, _ => none

def isDirectory (item : InventoryItem) : Bool := Path.endsWithSlash item.path

/-- The files with the item among them, as a directory or with its content, in directories that are
made if they are missing. -/
def addTo (item : InventoryItem) (content : Content) (files : FileTree) : FileTree :=
  if item.isDirectory then (files.makeDirectories item.modified item.path).2
  else
    let files := match Path.parent? item.path with
      | some parent => (files.makeDirectories item.modified parent).2
      | none => files
    (files.write item.modified item.path content).toOption.getD files

end InventoryItem

def pathOf (loc : Location) : String :=
  (if loc.isAbsolute then "/" else "") ++ String.intercalate "/" loc.names

/-- A change of the files. -/
inductive Change where
  | makeDirectory (path : String)
  | writeFile (path : String) (content : Content)
  | removeFile (path : String)
deriving Repr, BEq, DecidableEq

/-- The changes that make a file tree of another one, in an order in which they can be done. -/
def changesBetween (before after : FileTree) : List Change :=
  let made := (after.entries.filter fun (loc, e) => before.get? loc ≠ some e).map fun (loc, e) =>
    match e with
    | .directory _ => Change.makeDirectory (pathOf loc)
    | .file content _ => .writeFile (pathOf loc) content
  let removed := (before.entries.filter fun (loc, _) => (after.get? loc).isNone).map
    fun (loc, _) => Change.removeFile (pathOf loc)
  made ++ removed

/-- The world with some files, in which every change is later than all before and no request is
answered. -/
def worldOf (files : FileTree) : World :=
  let latest := files.entries.foldl (fun time (_, e) => max time e.modified) 0
  ⟨files, latest + 1, fun _ => .dropped, [], []⟩

end LiterateJournal.CommandLine
