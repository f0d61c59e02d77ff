import LiterateJournal.Document.Basic

/-!
# Walks through a document

A walk collects something from the spans, the code and the markup of a document, in the order of the
text and whatever the blocks that they stand in.

## Main definitions

* `Walk` — what is collected from a span, from code and from markup.
* `Walk.blocks` — what is collected from a document.
-/

namespace LiterateJournal

/-- What a walk collects from a span, from code and from markup. -/
structure Walk (α : Type) where
  span : Span → List α
  code : String → List α
  raw : String → List α

namespace Walk

variable {α : Type} (w : Walk α)

def spans (spans : List Span) : List α := spans.flatMap w.span

mutual

def block : Block → List α
  | .heading _ body | .paragraph body => w.spans body
  | .code source _ => w.code source
  | .raw markup => w.raw markup
  | .math source => w.span (.math source true)
  | .rule => []
  | .list _ items => cells items
  | .quote body => blocks body
  | .table _ header body => cells header ++ rows body

def blocks : List Block → List α
  | [] => []
  | b :: bs => block b ++ blocks bs

def cells : List (List Block) → List α
  | [] => []
  | c :: cs => blocks c ++ cells cs

def rows : List (List (List Block)) → List α
  | [] => []
  | r :: rs => cells r ++ rows rs

end

@[simp] theorem spans_nil : w.spans [] = [] := rfl

@[simp] theorem spans_cons (s : Span) (spans : List Span) :
    w.spans (s :: spans) = w.span s ++ w.spans spans := List.flatMap_cons

@[simp] theorem spans_append (a b : List Span) : w.spans (a ++ b) = w.spans a ++ w.spans b :=
  List.flatMap_append

theorem blocks_singleton (b : Block) : w.blocks [b] = w.block b := List.append_nil _

@[simp] theorem blocks_append (a b : List Block) :
    w.blocks (a ++ b) = w.blocks a ++ w.blocks b := by
  induction a with
  | nil => rfl
  | cons block a ih => simp [blocks, ih]

end Walk

end LiterateJournal
