import LiterateJournal.Document.Basic
import LiterateJournal.Markdown.Marker

/-!
# Blocks of a Markdown text

The block outline of a text, before its inline content has been read, and the blocks that are still
open while it is made.

## Main definitions

* `Node` — a block of the outline.
* `Outline` — the blocks, link definitions and footnote labels of a text.
* `DefinitionOrder` — an order for the link definitions of a text.
* `Container`, `continueContainers` — an open block, and what it demands of a further line.
-/

namespace LiterateJournal.Markdown

/-- A block whose inline content has not been read yet. -/
inductive Node where
  /-- A paragraph, perhaps after a task mark. In a tight list it stands without a wrapper. -/
  | paragraph (tight : Bool) (task : Option Bool) (content : List Char)
  /-- A heading; one made by number signs may end with number signs too. -/
  | heading (level : Nat) (signs : Bool) (content : List Char)
  | rule
  /-- A code block; one in fences has an info string. -/
  | code (info : Option (List Char)) (source : List Char)
  | html (markup : List Char)
  | quote (children : List Node)
  | list (start : Option Nat) (items : List Node)
  | item (children : List Node)
  /-- The task mark of an item without content on its first line. -/
  | taskMark (ticked : Bool)
  | table (alignments : List Alignment) (rows : List (List (List Char)))
  | footnote (label : List Char) (children : List Node)
deriving Inhabited

/-- A link definition as the text gives it. -/
structure Definition where
  label : List Char
  destination : List Char
  title : List Char

/-- The order in which the definitions of a text are put into its link table. The text does not fix
it: of definitions whose labels have the same normal form any may come last. -/
structure DefinitionOrder where
  arrange : List Definition → List Definition
  perm : ∀ definitions, (arrange definitions).Perm definitions

/-- The order of the text itself. -/
def DefinitionOrder.ofText : DefinitionOrder := ⟨id, fun _ => .refl _⟩

/-- The blocks of a text, and what its inline content may refer to. -/
structure Outline where
  nodes : List Node
  definitions : List Definition
  footnotes : List (List Char)

/-- A block that is still open, and that further lines may belong to. -/
inductive Container where
  | quote
  | list (tight : Bool) (mark : ListMark)
  | item (indent : Nat)
  | footnote (label : List Char)

/-- Consumes an indentation, which an empty line need not have. -/
def Cursor.indented? (c : Cursor) (indent : Nat) : Option Cursor :=
  match c.take indent with
  | (next, 0) => some next
  | (next, _) => if next.atEnd then some next else none

/-- Consumes what an open block demands at the start of a further line. -/
def Container.enter? (c : Cursor) : Container → Option Cursor
  | .quote => c.quote?
  | .list _ _ => some c
  | .item indent => c.indented? indent
  | .footnote _ => c.indented? 4

/-- Consumes what the open blocks demand at the start of a line, from the outermost block on, and
tells how many of them go on. -/
def continueContainers : List Container → Cursor → Nat × Cursor
  | [], c => (0, c)
  | k :: ks, c =>
    match k.enter? c with
    | some next =>
      let (n, rest) := continueContainers ks next
      (n + 1, rest)
    | none => (0, c)

/-- An open block with its finished children, the last one first. -/
structure Frame where
  container : Container
  children : List Node

/-- A list item of a tight list: its paragraphs stand without wrappers. -/
def Node.tighten : Node → Node
  | .item children => .item (children.map fun
    | .paragraph _ task content => .paragraph true task content
    | node => node)
  | node => node

def Frame.close (f : Frame) : Node :=
  let children := f.children.reverse
  match f.container with
  | .quote => .quote children
  | .list tight mark =>
    .list (if mark.isOrdered then some mark.number else none)
      (if tight then children.map Node.tighten else children)
  | .item _ => .item children
  | .footnote label => .footnote label children

end LiterateJournal.Markdown
