import LiterateJournal.Text.Blank

/-!
# Paths

Paths are texts, so names are Unicode strings, and one that is not UTF-8 has no path. The components
of a path are the pieces between slashes; empty pieces and single dots say nothing, except for a dot
at the very start of a relative path.

## Main definitions

* `Path.components` — the components of a path.
* `Path.fileName?`, `Path.stem?`, `Path.extension?` — the last component and its parts.
* `Path.join`, `Path.parent?`, `Path.withExtension` — paths from paths.
-/

namespace LiterateJournal.Path

inductive Component where
  | root
  /-- A dot at the start of a relative path. -/
  | here
  /-- Two dots. -/
  | up
  | name (n : String)
deriving Repr, BEq, DecidableEq

/-- A path cut into its start, a slash or a dot or nothing, and the pieces between the slashes of
what follows. -/
structure Pieces where
  start : List Char
  pieces : List (List Char)

/-- Whether a piece says nothing. -/
def isSilent (piece : List Char) : Bool := piece.isEmpty || piece = ['.']

def dropSilentEnd : List (List Char) → List (List Char)
  | [] => []
  | p :: ps =>
    match dropSilentEnd ps with
    | [] => if isSilent p then [] else [p]
    | rest => p :: rest

def cut (path : String) : Pieces :=
  let (start, rest) := match path.toList with
    | '/' :: cs => (['/'], cs)
    | ['.'] => (['.'], [])
    | '.' :: '/' :: cs => (['.'], '/' :: cs)
    | cs => ([], cs)
  ⟨start, dropSilentEnd (Text.cutAt '/' rest)⟩

def Pieces.toText (p : Pieces) : String := String.ofList (p.start ++ Text.joinWith ['/'] p.pieces)

def Component.ofPiece (piece : List Char) : Component :=
  if piece = ['.', '.'] then .up else .name (String.ofList piece)

def components (path : String) : List Component :=
  let p := cut path
  let start := match p.start with
    | ['/'] => [.root]
    | ['.'] => [.here]
    | _ => []
  start ++ (p.pieces.filter (!isSilent ·)).map Component.ofPiece

def fileName? (path : String) : Option String :=
  match (components path).getLast? with
  | some (.name n) => some n
  | _ => none

/-- A name cut at its last dot, unless that is its first character or there is none. -/
def cutName (name : String) : String × Option String :=
  let reversed := name.toList.reverse
  let ext := reversed.takeWhile (· ≠ '.')
  match reversed.drop ext.length with
  | [] | [_] => (name, none)
  | _ :: stem => (String.ofList stem.reverse, some (String.ofList ext.reverse))

def stem? (path : String) : Option String := (fileName? path).map fun n => (cutName n).1

def extension? (path : String) : Option String := (fileName? path).bind fun n => (cutName n).2

/-- A path inside another one; an absolute path stands for itself. -/
def join (base path : String) : String :=
  if path.toList.head? = some '/' || base = "" then path
  else if base.toList.getLast? = some '/' then base ++ path
  else base ++ "/" ++ path

def parent? (path : String) : Option String :=
  let p := cut path
  match p.pieces with
  | [] => if p.start = ['.'] then some "" else none
  | pieces => some (Pieces.toText ⟨p.start, dropSilentEnd pieces.dropLast⟩)

def addExtension (path ext : String) : String :=
  let p := cut path
  match stem? path with
  | none => path
  | some stem =>
    Pieces.toText ⟨p.start, p.pieces.dropLast ++ [stem.toList ++ '.' :: ext.toList]⟩

/-- The path with another extension. As many characters as the old one has are dropped from the end
first, and what is left may be a path without a name. -/
def withExtension (path ext : String) : String :=
  match extension? path with
  | none => addExtension path ext
  | some old =>
    addExtension (String.ofList (path.toList.take (path.length - old.length))) ext

/-- Whether a path ends with a slash, and so can only be a directory's. -/
def endsWithSlash (path : String) : Bool := path.toList.getLast? = some '/'

/-- Whether a path ends with a dot that stands for the directory before it. -/
def endsWithDot (path : String) : Bool :=
  match path.toList.reverse.dropWhile (· = '/') with
  | '.' :: '/' :: _ => true
  | _ => false

end LiterateJournal.Path
