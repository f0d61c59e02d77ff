import LiterateJournal.Files.Node
import LiterateJournal.Files.Path

/-!
# File trees

The files and directories that a build can see, and the operations on them. Relative paths are taken
from the working directory; nothing is above it. Absolute paths start at a directory of their own.

## Main definitions

* `FileError` — why an operation failed.
* `FileTree`, `FileTree.get?` — the tree, and what stands at a location.
* `FileTree.resolve` — the location that a path leads to.
* `FileTree.makeDirectories`, `FileTree.readText`, `FileTree.write`, `FileTree.rename`,
  `FileTree.children` — operations by path.

## Main statements

* `FileTree.get?_set`, `FileTree.get?_erase` — what stands at a location after it has been changed.
* `FileTree.get?_alter_of_not_below` — what stands elsewhere.
-/

namespace LiterateJournal

inductive FileError where
  | notFound
  | alreadyExists
  /-- A part of the path that must be a directory is a file. -/
  | notDirectory
  /-- A directory stands where a file is needed. -/
  | isDirectory
  | nameTooLong
  /-- The path names its own directory or the one around it. -/
  | busy
  | notUtf8
  | other (text : String)
deriving Repr, BEq, DecidableEq, Inhabited

def FileError.message : FileError → String
  | .notFound => "No such file or directory (os error 2)"
  | .alreadyExists => "File exists (os error 17)"
  | .notDirectory => "Not a directory (os error 20)"
  | .isDirectory => "Is a directory (os error 21)"
  | .nameTooLong => "File name too long (os error 36)"
  | .busy => "Device or resource busy (os error 16)"
  | .notUtf8 => "stream did not contain valid UTF-8"
  | .other text => text

/-- The names that lead from the working directory, or from the start of absolute paths, to a
place. -/
structure Location where
  isAbsolute : Bool
  names : List String
deriving Repr, BEq, DecidableEq

structure FileTree where
  /-- When the two directories were made in which paths start. -/
  origin : Nat
  /-- What is in the working directory. -/
  working : Children
  /-- What is in the directory where absolute paths start. -/
  absolute : Children
deriving Inhabited

namespace FileTree

def new (origin : Nat) : FileTree := ⟨origin, [], []⟩

def start (t : FileTree) (isAbsolute : Bool) : FileNode :=
  .directory t.origin (if isAbsolute then t.absolute else t.working)

def node? (t : FileTree) (loc : Location) : Option FileNode :=
  FileNode.get? loc.names (some (t.start loc.isAbsolute))

def get? (t : FileTree) (loc : Location) : Option Entry := (t.node? loc).map FileNode.entry

/-- Changes what is in one of the two directories in which paths start. -/
def alterStart (t : FileTree) (isAbsolute : Bool) (f : Children → Children) : FileTree :=
  if isAbsolute then { t with absolute := f t.absolute } else { t with working := f t.working }

/-- Changes what stands at a location, if it has a place and is below a start of paths. -/
def alter (t : FileTree) (loc : Location) (f : Option FileNode → Option FileNode) : FileTree :=
  match loc.names with
  | [] => t
  | x :: xs => t.alterStart loc.isAbsolute (FileNode.alterChild x (FileNode.alter f xs))

def nodeOf (e : Entry) (old : Option FileNode) : FileNode :=
  match e, old with
  | .file content time, _ => .file content time
  | .directory time, some (.directory _ children) => .directory time children
  | .directory time, _ => .directory time []

def set (t : FileTree) (loc : Location) (e : Entry) : FileTree :=
  t.alter loc fun old => some (nodeOf e old)

def erase (t : FileTree) (loc : Location) : FileTree := t.alter loc fun _ => none

/-- Whether all above a location are directories, so that something can be there. -/
def hasPlace (t : FileTree) (loc : Location) : Bool :=
  FileNode.hasPlace loc.names (some (t.start loc.isAbsolute))

theorem start_alter (t : FileTree) (loc : Location) (f : Option FileNode → Option FileNode)
    (isAbsolute : Bool) (h : loc.names ≠ []) :
    some ((t.alter loc f).start isAbsolute) =
      if loc.isAbsolute = isAbsolute then
        FileNode.alter f loc.names (some (t.start isAbsolute))
      else some (t.start isAbsolute) := by
  obtain ⟨a, names⟩ := loc
  cases names with
  | nil => exact absurd rfl h
  | cons x xs => cases a <;> cases isAbsolute <;> rfl

/-- What is under a location after a change. -/
theorem node?_alter_append (t : FileTree) (loc : Location)
    (f : Option FileNode → Option FileNode) (rest : List String) (hp : t.hasPlace loc = true)
    (h : loc.names ≠ []) :
    (t.alter loc f).node? ⟨loc.isAbsolute, loc.names ++ rest⟩ =
      FileNode.get? rest (f (t.node? loc)) := by
  simp only [node?, start_alter t loc f _ h, if_true]
  exact FileNode.get?_alter_append f loc.names rest _ hp

/-- What stands neither at nor under a location stays when the location is changed. -/
theorem get?_alter_of_not_below (t : FileTree) (loc k : Location)
    (f : Option FileNode → Option FileNode)
    (h : ¬ (loc.isAbsolute = k.isAbsolute ∧ loc.names <+: k.names)) :
    (t.alter loc f).get? k = t.get? k := by
  by_cases hn : loc.names = []
  · simp [alter, hn]
  · simp only [get?, node?, start_alter t loc f _ hn]
    split
    · rename_i ha
      exact FileNode.entry_get?_alter f loc.names k.names _ fun hp => h ⟨ha, hp⟩
    · rfl

/-- An entry that is put at a location stands there. -/
theorem get?_set (t : FileTree) (loc : Location) (e : Entry) (hp : t.hasPlace loc = true)
    (h : loc.names ≠ []) : (t.set loc e).get? loc = some e := by
  have hset := node?_alter_append t loc (fun old => some (nodeOf e old)) [] hp h
  rw [List.append_nil] at hset
  simp only [get?, set, hset, FileNode.get?, Option.map_some]
  unfold nodeOf
  split <;> rfl

/-- Nothing stands at a location that has been left empty. -/
theorem get?_erase (t : FileTree) (loc : Location) (hp : t.hasPlace loc = true)
    (h : loc.names ≠ []) : (t.erase loc).get? loc = none := by
  have herase := node?_alter_append t loc (fun _ => none) [] hp h
  rw [List.append_nil] at herase
  simp only [get?, erase, herase, FileNode.get?, Option.map_none]

/-- The names and entries in a directory, in increasing order of the names. -/
def childrenAt (t : FileTree) (loc : Location) : List (String × Entry) :=
  match t.node? loc with
  | some (.directory _ children) => children.map fun (x, n) => (x, n.entry)
  | _ => []

/-- All that is in a directory, with the names that lead there from it. -/
def inside (t : FileTree) (loc : Location) : List (List String × Entry) :=
  match t.node? loc with
  | some n => n.inside
  | none => []

def entries (t : FileTree) : List (Location × Entry) :=
  [false, true].flatMap fun isAbsolute =>
    (t.start isAbsolute).inside.map fun (names, e) => (⟨isAbsolute, names⟩, e)

/-! ### Paths -/

def maxPath : Nat := 4095

def maxName : Nat := 255

/-- A place on the way along a path. -/
structure Place where
  isAbsolute : Bool
  /-- What is there. -/
  here : Option FileNode
  /-- The last name passed and what it was found in, then the one before it, and so on. -/
  above : List (String × Option FileNode)

namespace Place

def ofStart (t : FileTree) (isAbsolute : Bool) : Place :=
  ⟨isAbsolute, some (t.start isAbsolute), []⟩

def location (p : Place) : Location := ⟨p.isAbsolute, (p.above.map Prod.fst).reverse⟩

/-- The place that a component leads to. Whatever is passed through must be a directory. -/
def step (t : FileTree) (p : Place) (c : Path.Component) : Except FileError Place :=
  match p.here with
  | none => .error .notFound
  | some (.file ..) => .error .notDirectory
  | some (.directory _ children) =>
    match c, p.above with
    | .root, _ => .ok (ofStart t true)
    | .here, _ => .ok p
    | .up, [] => .ok p
    | .up, (_, n) :: above => .ok { p with here := n, above }
    | .name x, above =>
      if maxName < x.utf8ByteSize then .error .nameTooLong
      else .ok { p with here := children.lookup x, above := (x, p.here) :: above }

end Place

/-- The place that a path leads to; there may be nothing there. -/
def place (t : FileTree) (path : String) : Except FileError Place :=
  if path.isEmpty then .error .notFound
  else if maxPath < path.utf8ByteSize then .error .nameTooLong
  else do
    let p ← (Path.components path).foldlM (Place.step t) (Place.ofStart t false)
    if Path.endsWithDot path then p.step t .here else pure p

def resolve (t : FileTree) (path : String) : Except FileError Location :=
  (t.place path).map Place.location

def stat (t : FileTree) (path : String) : Except FileError Entry := do
  match (← t.place path).here with
  | none => .error .notFound
  | some n =>
    if Path.endsWithSlash path && !n.entry.isDirectory then .error .notDirectory else .ok n.entry

def exists? (t : FileTree) (path : String) : Bool := (t.stat path).isOk

def isDirectory (t : FileTree) (path : String) : Bool :=
  match t.stat path with
  | .ok e => e.isDirectory
  | .error _ => false

def modified (t : FileTree) (path : String) : Nat :=
  match t.stat path with
  | .ok e => e.modified
  | .error _ => 0

def children (t : FileTree) (path : String) : Except FileError (List (String × Entry)) := do
  match ← t.stat path with
  | .file .. => .error .notDirectory
  | .directory _ => return t.childrenAt (← t.resolve path)

/-! ### Changes -/

def makeDirectory (t : FileTree) (now : Nat) (path : String) : Except FileError FileTree := do
  let p ← t.place path
  if p.here.isSome then .error .alreadyExists else .ok (t.set p.location (.directory now))

/-- Makes a directory and those around it that are missing, at most `fuel` of them. The directories
that were made before one failed stay. -/
def makeDirectoriesFrom (now : Nat) :
    Nat → FileTree → String → Except FileError Unit × FileTree
  | 0, t, _ => (.error .notFound, t)
  | fuel + 1, t, path =>
    if path.isEmpty then (.ok (), t)
    else
      match t.makeDirectory now path with
      | .ok t => (.ok (), t)
      | .error .notFound =>
        match Path.parent? path with
        | none => (.error .notFound, t)
        | some parent =>
          match makeDirectoriesFrom now fuel t parent with
          | (.error e, t) => (.error e, t)
          | (.ok (), t) =>
            match t.makeDirectory now path with
            | .ok t => (.ok (), t)
            | .error e => if t.isDirectory path then (.ok (), t) else (.error e, t)
      | .error e => if t.isDirectory path then (.ok (), t) else (.error e, t)

def makeDirectories (t : FileTree) (now : Nat) (path : String) :
    Except FileError Unit × FileTree :=
  makeDirectoriesFrom now (path.length + 1) t path

def readText (t : FileTree) (path : String) : Except FileError String := do
  match ← t.stat path with
  | .directory _ => .error .isDirectory
  | .file (.text s) _ => .ok s
  | .file (.binary _) _ => .error .notUtf8

def write (t : FileTree) (now : Nat) (path : String) (content : Content) :
    Except FileError FileTree := do
  let p ← t.place path
  match p.here with
  | some (.directory ..) => .error .isDirectory
  | some (.file ..) =>
    if Path.endsWithSlash path then .error .notDirectory
    else .ok (t.set p.location (.file content now))
  | none =>
    if Path.endsWithSlash path then .error .isDirectory
    else .ok (t.set p.location (.file content now))

/-- Copies a file; the copy is new. -/
def copy (t : FileTree) (now : Nat) (source target : String) : Except FileError FileTree := do
  match ← t.stat source with
  | .directory _ =>
    .error (.other "the source path is neither a regular file nor a symlink to a regular file")
  | .file content _ => t.write now target content

/-- Gives a file or directory another path, in place of a file that stands there. -/
def rename (t : FileTree) (source target : String) : Except FileError FileTree := do
  let origin ← t.place source
  let p ← t.place target
  match origin.here with
  | none => .error .notFound
  | some n =>
    if (Path.fileName? target).isNone || Path.endsWithDot target then .error .busy
    else if Path.endsWithSlash target then .error .notDirectory
    else
      match p.here with
      | some (.directory ..) => .error .isDirectory
      | _ => .ok ((t.erase origin.location).alter p.location fun _ => some n)

end FileTree

end LiterateJournal
