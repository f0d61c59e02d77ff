import LiterateJournal.Document.Links
import LiterateJournal.Document.Span

/-!
# Documents

A document is what a source file becomes once its text has been read and its code evaluated. It
consists of blocks: leaves, sequences of spans, and blocks that nest further sequences of blocks in
their items, their quotation or their cells. A source file that cannot be read, evaluated or parsed
spoils its own page only.

## Main definitions

* `Block` — block content.
* `Document` — a source file, read and evaluated.
* `DocumentError`, `DocumentError.message` — what went wrong with a source file, and its text.
-/

namespace LiterateJournal

/-! ### Blocks -/

/-- A list is marked by bullets or by numbers from a first one on. -/
inductive ListKind where
  | bulleted
  | numbered (start : UInt64)
deriving Repr, BEq, DecidableEq, Inhabited

inductive Alignment where
  | default
  | left
  | center
  | right
deriving Repr, BEq, DecidableEq, Inhabited

inductive Block where
  | heading (level : UInt8) (body : List Span)
  | paragraph (body : List Span)
  | code (source : String) (language : Option String)
  /-- Markup of the output language, passed through as it is. -/
  | raw (markup : String)
  /-- Displayed mathematics. -/
  | math (source : String)
  | rule
  | list (kind : ListKind) (items : List (List Block))
  | quote (body : List Block)
  | table (alignments : List Alignment) (header : List (List Block))
      (rows : List (List (List Block)))
deriving Repr, BEq, Inhabited

abbrev Cell := List Block

/-! ### Documents -/

inductive SourceKind where
  /-- A program whose comments hold Markdown. -/
  | script
  | markdown
deriving Repr, BEq, DecidableEq, Inhabited

/-- A source file, read and evaluated. -/
structure Document where
  blocks : List Block
  links : LinkTable
  /-- Markup for tooltips, from the evaluation of the code. -/
  tooltips : String
  kind : SourceKind
  path : String
deriving BEq, Inhabited

/-- A document that comes from no file. -/
def Document.ofBlocks (blocks : List Block) : Document := ⟨blocks, ∅, "", .markdown, ""⟩

/-! ### Errors of one document -/

/-- What went wrong with a source file. -/
inductive DocumentError where
  /-- The file could not be read. -/
  | readFailed (path detail : String)
  /-- The evaluator refused a snippet; they are counted from zero. -/
  | evaluation (path : String) (snippet : Nat) (message : String)
  /-- The text is malformed. -/
  | parse (path detail : String)
deriving Repr, BEq, DecidableEq, Inhabited

def DocumentError.message : DocumentError → String
  | .readFailed path detail => path ++ ": read failed: " ++ detail
  | .evaluation path snippet message =>
    path ++ ": evaluation of snippet " ++ toString snippet ++ " failed: " ++ message
  | .parse path detail => path ++ ": " ++ detail

end LiterateJournal
