import LiterateJournal.Document.Spans
import LiterateJournal.Proofs.Markdown.LinkTargets
import LiterateJournal.Proofs.Markdown.Occurrences
import LiterateJournal.Proofs.Output.Escapes

/-!
# The source text of undefined references

A link or an image by a label that the link table does not have is written as text. That text is not
taken from the source: it is made of the plain text of what is in the brackets and of the label as
it was read. It is the source of the reference only where these two are.

## Main definitions

* `Span.isReference`, `referenceWalk` — the links and images by label of a document.
* `referencesFound` — those that the trees of a text hold.

## Main statements

* `Html.escape_inj` — text is known by its escape.
* `referencesFound_trees` — the trees of a block have the references that stand in the block.
* `undefined_keeps_source_iff` — how a reference without a definition is written, and when that is
  its source.
-/

namespace LiterateJournal

open Markdown

namespace Html

/-! ### Escaped text -/

/-- Text is known by its escape. -/
theorem escape_inj {s t : String} : escape s = escape t ↔ s = t := encodes_escape.injective.eq_iff

theorem lt_notMem_escape (s : String) : '<' ∉ (escape s).toList := by
  intro h
  exact absurd (eq_of_mem_escape (by decide) h) (by decide)

theorem element_ne_escape (name attributes body s : String) :
    element name attributes body ≠ escape s := by
  intro h
  apply lt_notMem_escape s
  rw [← h]
  simp [element]

theorem image_ne_escape (alt : String) (target : LinkTarget) (s : String) :
    image alt target ≠ escape s := by
  intro h
  apply lt_notMem_escape s
  rw [← h]
  simp [image]

end Html

def Span.isReference : Span → Bool
  | .linkReference .. | .imageReference .. => true
  | _ => false

/-- A walk that collects the links and images by label, each after those inside it. -/
def referenceWalk : Walk Span :=
  ⟨fun s => s.withInner.filter Span.isReference, fun _ => [], fun _ => []⟩

section

variable {spans : List Span}

theorem spans_referenceWalk (spans : List Span) :
    referenceWalk.spans spans = (innerSpans spans).filter Span.isReference := by
  induction spans with
  | nil => rfl
  | cons s spans ih => rw [Walk.spans_cons, ih, innerSpans, List.filter_append]; rfl

mutual

theorem block_referenceWalk : (b : Block) →
    referenceWalk.block b = b.spans.filter Span.isReference
  | .heading _ body | .paragraph body => spans_referenceWalk body
  | .code _ _ | .raw _ | .math _ | .rule => rfl
  | .list _ items => cells_referenceWalk items
  | .quote body => blocks_referenceWalk body
  | .table _ header rows => by
    rw [Walk.block, Block.spans, List.filter_append, cells_referenceWalk header,
      rows_referenceWalk rows]

/-- The walk collects the links and images by label of a document. -/
theorem blocks_referenceWalk : (blocks : List Block) →
    referenceWalk.blocks blocks = (spansOf blocks).filter Span.isReference
  | [] => rfl
  | b :: bs => by
    rw [Walk.blocks, spansOf, List.filter_append, block_referenceWalk b, blocks_referenceWalk bs]

theorem cells_referenceWalk : (cells : List (List Block)) →
    referenceWalk.cells cells = (spansInCells cells).filter Span.isReference
  | [] => rfl
  | c :: cs => by
    rw [Walk.cells, spansInCells, List.filter_append, blocks_referenceWalk c,
      cells_referenceWalk cs]

theorem rows_referenceWalk : (rows : List (List (List Block))) →
    referenceWalk.rows rows = (spansInRows rows).filter Span.isReference
  | [] => rfl
  | r :: rs => by
    rw [Walk.rows, spansInRows, List.filter_append, cells_referenceWalk r, rows_referenceWalk rs]

end

theorem references_addText (s : String) (spans : List Span) :
    referenceWalk.spans (addText s spans).reverse = referenceWalk.spans spans.reverse := by
  unfold addText
  split <;> simp [referenceWalk, Span.withInner, Span.isReference]

theorem references_addLeaf (spans : List Span) (l : Leaf) :
    referenceWalk.spans (addLeaf spans l).reverse = referenceWalk.spans spans.reverse := by
  cases l <;> simp [addLeaf, references_addText] <;> rfl

theorem references_addContainer {tag : Tag} (h : tag.isInline = true) (body before : List Span) :
    referenceWalk.spans (addContainer tag body before).reverse =
      referenceWalk.spans before.reverse ++ tag.references body (referenceWalk.spans body) := by
  rw [spans_referenceWalk body]
  cases tag with
  | emphasis | strong =>
    simp [addContainer, referenceWalk, Span.withInner, Span.isReference, Tag.references]
  | strikethrough =>
    rw [← spans_referenceWalk]
    simp [addContainer, Tag.references]
  | link form destination title label =>
    cases hform : form.isReference <;>
      simp [addContainer, hform, referenceWalk, Span.withInner, Span.isReference, Tag.references,
        referenceSpan, writtenReference]
  | image form destination title label =>
    cases hform : form.isReference <;>
      simp [addContainer, hform, referenceWalk, Span.withInner, Span.isReference, Tag.references,
        referenceSpan, writtenReference]
  | _ => cases h

/-- The spans of a line have the references of its trees. -/
theorem follows_referenceWalk : referenceWalk.Follows Tree.references := by
  intro t ht
  induction ht with
  | leaf l => exact fun spans => (references_addLeaf spans l).trans (List.append_nil _).symm
  | @node tag ts htag hts ih =>
    intro spans
    have hbody : referenceWalk.spans (spansOfTrees ts) = ts.flatMap Tree.references :=
      Walk.spans_addTrees ih []
    rw [Tree.addTo, references_node, ← hbody]
    exact references_addContainer htag _ _

end

/-! ### The references of a text -/

namespace Markdown

def referencesFound (ts : List Tree) : List Span := referenceWalk.trees Tree.references ts

theorem referencesFound_append (ts us : List Tree) :
    referencesFound (ts ++ us) = referencesFound ts ++ referencesFound us := by
  unfold referencesFound
  induction ts with
  | nil => rfl
  | cons t ts ih => rw [List.cons_append, Walk.trees_cons, Walk.trees_cons, ih, List.append_assoc]

theorem referencesFound_line (refs : References) (line : List Char) (ts : List Token) :
    referencesFound (treesOfTokens refs ts) =
      (occurrencesInLine refs line ts).map Occurrence.span := by
  rw [← references_treesOfTokens, referencesFound,
    Walk.trees_of_isInline (isInline_treesOfTokens refs ts)]

/-- A container that is read through has the references of what it holds. -/
theorem referencesFound_node (tag : Tag) {ts : List Tree}
    (h : (Tree.node tag ts).stretches false = stretchesOf false ts) :
    referencesFound [.node tag ts] = referencesFound ts := by
  rw [referencesFound, Walk.trees_cons, h, Walk.trees_nil, List.append_nil]
  rfl

theorem referencesFound_cells (refs : References) (row : List (List Char)) :
    referencesFound (row.map (cellTree refs)) =
      (row.flatMap fun cell => occurrencesInLine { refs with inTable := true } cell
        (tokens cell)).map Occurrence.span := by
  induction row with
  | nil => rfl
  | cons cell row ih =>
    rw [List.map_cons, ← List.singleton_append, referencesFound_append, ih, cellTree,
      referencesFound_node .tableCell rfl, inlineTrees,
      referencesFound_line _ cell, List.flatMap_cons, List.map_append]

mutual

/-- The trees of a block have the references of the block. -/
theorem referencesFound_trees (refs : References) : (n : Node) →
    referencesFound (n.trees refs) = (n.occurrences refs).map Occurrence.span
  | .paragraph tight task content => by
    have hmarks :
        referencesFound (task.toList.map fun ticked => .leaf (.taskMark ticked)) = [] := by
      cases task <;> rfl
    have hline : referencesFound ((task.toList.map fun ticked => .leaf (.taskMark ticked)) ++
        inlineTrees refs content) =
          ((Node.paragraph tight task content).occurrences refs).map Occurrence.span := by
      rw [referencesFound_append, hmarks, inlineTrees, referencesFound_line refs content]
      rfl
    rw [Node.trees]
    split
    · exact hline
    · exact (referencesFound_node .paragraph rfl).trans hline
  | .heading level signs content =>
    (referencesFound_node (.heading _) rfl).trans (referencesFound_line refs content _)
  | .rule | .taskMark _ | .code _ _ | .html _ => rfl
  | .quote children =>
    (referencesFound_node .quote rfl).trans (referencesFound_nodeTrees refs children)
  | .list _ items =>
    (referencesFound_node (.list _) rfl).trans (referencesFound_nodeTrees refs items)
  | .item children =>
    (referencesFound_node .item rfl).trans (referencesFound_nodeTrees refs children)
  | .table alignments rows => by
    have hbody (rows : List (List (List Char))) :
        referencesFound (rows.map fun row => .node .tableRow (row.map (cellTree refs))) =
          (rows.flatten.flatMap fun cell => occurrencesInLine { refs with inTable := true } cell
            (tokens cell)).map Occurrence.span := by
      induction rows with
      | nil => rfl
      | cons row rows ih =>
        rw [List.map_cons, ← List.singleton_append, referencesFound_append, ih,
          referencesFound_node .tableRow rfl, referencesFound_cells, List.flatten_cons,
          List.flatMap_append, List.map_append]
    rw [Node.trees, referencesFound_node (.table _) rfl, ← List.singleton_append,
      referencesFound_append, referencesFound_node .tableHead rfl, referencesFound_cells, hbody,
      Node.occurrences]
    cases rows <;> simp
  | .footnote label children => by
    -- Nothing is collected inside a footnote, and so its blocks may have any references.
    have hnone : outsideNotes (stretchesOf true (nodeTrees refs children)) = [] :=
      List.filter_eq_nil_iff.2 fun s hs => by simp [inNote_of_mem_stretchesOf _ hs]
    rw [Node.trees, referencesFound, Walk.trees_cons, Tree.stretches, Walk.stretches, hnone]
    rfl

/-- The trees of a sequence of blocks have the references of the blocks. -/
theorem referencesFound_nodeTrees (refs : References) : (ns : List Node) →
    referencesFound (nodeTrees refs ns) = (nodeOccurrences refs ns).map Occurrence.span
  | [] => rfl
  | n :: ns => by
    rw [nodeTrees, referencesFound_append, referencesFound_trees refs n,
      referencesFound_nodeTrees refs ns, nodeOccurrences, List.map_append]

end

end Markdown

section

variable {links : LinkTable} {o : Occurrence}

/-- A reference that the table does not have is written as the source text that is kept of it. -/
theorem writeSpan_of_get?_eq_none (h : links.get? o.label = none) :
    Html.writeSpan links o.span = Html.escape o.written := by
  unfold Occurrence.span Occurrence.written referenceSpan
  cases o.image <;> simp [Html.writeSpan, h]

/-- A reference is written as its source just if the table does not have it and the text that is
kept of it is its source. -/
theorem writeSpan_eq_escape_source_iff :
    Html.writeSpan links o.span = Html.escape o.source ↔
      links.get? o.label = none ∧ o.written = o.source := by
  cases hget : links.get? o.label with
  | none => simp [writeSpan_of_get?_eq_none hget, Html.escape_inj]
  | some target =>
    -- A label in the table is written as an element, and no escape has its angle bracket.
    refine iff_of_false (fun heq => ?_) (by simp)
    unfold Occurrence.span referenceSpan at heq
    cases himage : o.image with
    | true =>
      simp only [himage, if_true, Html.writeSpan, hget] at heq
      exact Html.image_ne_escape _ _ _ heq
    | false =>
      simp only [himage, Bool.false_eq_true, if_false, Html.writeSpan, hget] at heq
      exact Html.element_ne_escape _ _ _ _ heq

end

/-- The table of a text has no label without a definition, if all labels are squeezed. -/
theorem get?_linksOf_of_undefined {cs : List Char} {label : String} (order : DefinitionOrder)
    (hdefinitions : ∀ d ∈ (Outline.ofText cs).definitions, SqueezedLabel d.label)
    (hlabel : SqueezedLabel label.toList)
    (h : ∀ d ∈ (Outline.ofText cs).definitions, Label.matches d.label label.toList = false) :
    (linksOf (order.arrange (Outline.ofText cs).definitions)).get? label = none := by
  refine (get?_linksOf_arrange_eq_none_iff order).2 fun d hd hkey => ?_
  have hmatches := (agreeOn_of_squeezed hdefinitions hlabel d hd).1
    (by rw [String.ofList_toList]; exact hkey.symm)
  rw [h d hd] at hmatches
  cases hmatches

/-- The links and images by label in the blocks of a text are those that stand in the text, outside
descriptions and footnotes and in the order of the text. A label without a definition is not in the
table if all labels are squeezed. A reference by a label that is not in the table is written as the
text that is kept of it, and so it is its source that is written just if the kept text is the source
and the label is not in the table. -/
theorem undefined_keeps_source_iff (text : String) (order : DefinitionOrder) :
    let outline := Outline.ofText text.toList
    let links := (parseMarkdown text order).2
    (spansOf (parseMarkdown text).1).filter Span.isReference =
        outline.occurrences.map Occurrence.span ∧
      ∀ o ∈ outline.occurrences,
        (o.form = .undefined ↔
          ∀ d ∈ outline.definitions, Label.matches d.label o.label.toList = false) ∧
        (links.get? o.label = none → Html.writeSpan links o.span = Html.escape o.written) ∧
        (Html.writeSpan links o.span = Html.escape o.source ↔
          links.get? o.label = none ∧ o.written = o.source) ∧
        ((∀ d ∈ outline.definitions, SqueezedLabel d.label) → SqueezedLabel o.label.toList →
          o.form = .undefined → links.get? o.label = none) := by
  intro outline links
  refine ⟨?_, fun o ho => ?_⟩
  · rw [← blocks_referenceWalk, Walk.blocks_parseMarkdown follows_referenceWalk]
    exact referencesFound_nodeTrees _ _
  · have htells := tellsDefined_of_mem_nodes _ ho
    exact ⟨htells, writeSpan_of_get?_eq_none, writeSpan_eq_escape_source_iff,
      fun hdefinitions hlabel hform =>
        get?_linksOf_of_undefined order hdefinitions hlabel (htells.1 hform)⟩

/-- A text without definitions has an empty table. -/
theorem get?_parseMarkdown_of_isEmpty {text : String}
    (h : (Outline.ofText text.toList).definitions.isEmpty = true) (label : String) :
    (parseMarkdown text).2.get? label = none := by
  rw [parseMarkdown, List.isEmpty_iff.1 h]
  rfl

/-- Undefined references without markup in their brackets, in emphasis, a quote and a table. -/
def plainReferences : String := "*[a b][c]* ![d][e]\n\n> [f\n> g][h]\n\n|[i][j]|\n|-|\n"

/-- All of them are written as their source. -/
theorem undefined_keeps_source_plainReferences :
    (Outline.ofText plainReferences.toList).occurrences.map Occurrence.source =
        ["[a b][c]", "![d][e]", "[f\ng][h]", "[i][j]"] ∧
      ∀ o ∈ (Outline.ofText plainReferences.toList).occurrences,
        Html.writeSpan (parseMarkdown plainReferences).2 o.span = Html.escape o.source := by
  have hwritten : ∀ o ∈ (Outline.ofText plainReferences.toList).occurrences,
      o.written = o.source := by decide +kernel
  have hnone := @get?_parseMarkdown_of_isEmpty plainReferences (by decide +kernel)
  obtain ⟨-, h⟩ := undefined_keeps_source_iff plainReferences .ofText
  exact ⟨by decide +kernel, fun o ho => (h o ho).2.2.1.2 ⟨hnone _, hwritten o ho⟩⟩

def markedReference : String := "[*a* \x60b\x60][x]"

/-- The marks of emphasis and code are lost. -/
theorem source_of_undefined_lost :
    ∃ o ∈ (Outline.ofText markedReference.toList).occurrences,
      o.form = .undefined ∧ o.source = markedReference ∧
        Html.escape markedReference = markedReference ∧
        Html.writeSpan (parseMarkdown markedReference).2 o.span = "[a b][x]" := by
  have hfound : (Outline.ofText markedReference.toList).occurrences.map
      (fun o => (o.form, o.source, o.written)) =
        [(.undefined, markedReference, "[a b][x]")] := by decide +kernel
  obtain ⟨o, hoccurrences, ho⟩ := List.map_eq_singleton_iff.1 hfound
  obtain ⟨hform, hsource, hwritten⟩ : o.form = .undefined ∧ o.source = markedReference ∧
      o.written = "[a b][x]" := by simpa using ho
  have hnone := @get?_parseMarkdown_of_isEmpty markedReference (by decide +kernel) o.label
  refine ⟨o, by rw [hoccurrences]; exact List.mem_singleton_self o, hform, hsource, by decide, ?_⟩
  rw [writeSpan_of_get?_eq_none hnone, hwritten]
  decide

end LiterateJournal
