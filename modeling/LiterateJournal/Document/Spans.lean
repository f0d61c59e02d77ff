import LiterateJournal.Document.Basic

/-!
# The spans of a document

All spans of a document can be listed or replaced. Both go through the blocks in the order of the
text and visit the spans inside a span before that span.

## Main definitions

* `spansOf` — every span, in the order of the visit.
* `mapSpansM` — the blocks with every span replaced by a function with effects.
* `mapSpans` — the same for a function without effects.
-/

namespace LiterateJournal

mutual

def Span.withInner : Span → List Span
  | .strong body => innerSpans body ++ [.strong body]
  | .emphasis body => innerSpans body ++ [.emphasis body]
  | .link body url title => innerSpans body ++ [.link body url title]
  | .linkReference body written key => innerSpans body ++ [.linkReference body written key]
  | span => [span]

def innerSpans : List Span → List Span
  | [] => []
  | s :: rest => s.withInner ++ innerSpans rest

end

mutual

def Block.spans : Block → List Span
  | .heading _ body | .paragraph body => innerSpans body
  | .list _ items => spansInCells items
  | .quote body => spansOf body
  | .table _ header rows => spansInCells header ++ spansInRows rows
  | _ => []

def spansOf : List Block → List Span
  | [] => []
  | b :: bs => b.spans ++ spansOf bs

def spansInCells : List (List Block) → List Span
  | [] => []
  | c :: cs => spansOf c ++ spansInCells cs

def spansInRows : List (List (List Block)) → List Span
  | [] => []
  | r :: rs => spansInCells r ++ spansInRows rs

end

section Transform

variable {m : Type → Type} [Monad m] (f : Span → m Span)

mutual

def Span.transformM : Span → m Span
  | .strong body => do f (.strong (← transformSpansM body))
  | .emphasis body => do f (.emphasis (← transformSpansM body))
  | .link body url title => do f (.link (← transformSpansM body) url title)
  | .linkReference body written key => do
    f (.linkReference (← transformSpansM body) written key)
  | span => f span

def transformSpansM : List Span → m (List Span)
  | [] => pure []
  | s :: rest => do
    let s ← s.transformM
    let rest ← transformSpansM rest
    pure (s :: rest)

end

mutual

def Block.mapSpansM : Block → m Block
  | .heading level body => do pure (.heading level (← transformSpansM f body))
  | .paragraph body => do pure (.paragraph (← transformSpansM f body))
  | .list kind items => do pure (.list kind (← mapSpansInCellsM items))
  | .quote body => do pure (.quote (← mapSpansM body))
  | .table alignments header rows => do
    let header ← mapSpansInCellsM header
    let rows ← mapSpansInRowsM rows
    pure (.table alignments header rows)
  | block => pure block

def mapSpansM : List Block → m (List Block)
  | [] => pure []
  | b :: bs => do
    let b ← b.mapSpansM
    let bs ← mapSpansM bs
    pure (b :: bs)

def mapSpansInCellsM : List (List Block) → m (List (List Block))
  | [] => pure []
  | c :: cs => do
    let c ← mapSpansM c
    let cs ← mapSpansInCellsM cs
    pure (c :: cs)

def mapSpansInRowsM : List (List (List Block)) → m (List (List (List Block)))
  | [] => pure []
  | r :: rs => do
    let r ← mapSpansInCellsM r
    let rs ← mapSpansInRowsM rs
    pure (r :: rs)

end

end Transform

def mapSpans (f : Span → Span) (blocks : List Block) : List Block :=
  Id.run (mapSpansM (fun s => pure (f s)) blocks)

end LiterateJournal
