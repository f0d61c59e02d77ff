import LiterateJournal.Document.Spans

/-!
# The parts of a document

Every block and every span of a document, at any depth.
-/

namespace LiterateJournal

/-- A block or a span. -/
inductive Part where
  | block (b : Block)
  | span (s : Span)
deriving Repr, BEq

mutual

def Block.parts : Block → List Part
  | .heading level body => .block (.heading level body) :: (innerSpans body).map .span
  | .paragraph body => .block (.paragraph body) :: (innerSpans body).map .span
  | .list kind items => .block (.list kind items) :: partsInCells items
  | .quote body => .block (.quote body) :: partsOf body
  | .table alignments header rows =>
    .block (.table alignments header rows) :: (partsInCells header ++ partsInRows rows)
  | block => [.block block]

def partsOf : List Block → List Part
  | [] => []
  | b :: bs => b.parts ++ partsOf bs

def partsInCells : List (List Block) → List Part
  | [] => []
  | c :: cs => partsOf c ++ partsInCells cs

def partsInRows : List (List (List Block)) → List Part
  | [] => []
  | r :: rs => partsInCells r ++ partsInRows rs

end

def Part.isRaw : Part → Bool
  | .block (.raw _) | .span (.raw _) => true
  | _ => false

end LiterateJournal
