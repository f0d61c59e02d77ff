import LiterateJournal.Proofs.Document.Walk
import LiterateJournal.Proofs.Markdown.Placement

/-!
# The source of a document in stretches

The source of a document is a sequence of stretches: trees of lines of text, code and markup. A walk
that gets from the spans of a tree what the tree calls for goes through the stretches of the source
one by one, and passes over the definitions of footnotes.

## Main definitions

* `Stretch`, `stretchesOf` — the source of a document without its block structure.
* `Walk.Follows` — a walk gets from the spans of a tree what the tree calls for.

## Main statements

* `Walk.follows_of_containers` — a walk that follows leaves and containers follows all trees.
* `Walk.blocks_parseMarkdown` — a walk through a document goes through its source.
-/

namespace LiterateJournal

open Markdown

namespace Markdown

/-! ### Stretches of the source -/

/-- What a stretch of the source holds. -/
inductive StretchKind where
  /-- A tree of a line of text. -/
  | line (t : Tree)
  | code (source : String)
  | markup (source : String)

/-- A stretch of the source of a document. -/
structure Stretch where
  /-- Whether it stands in the definition of a footnote. -/
  inNote : Bool
  kind : StretchKind

mutual

/-- The stretches of a tree, which may stand in the definition of a footnote. -/
def Tree.stretches (inNote : Bool) : Tree → List Stretch
  | .leaf l => [⟨inNote, .line (.leaf l)⟩]
  | .node (.codeBlock _) ts => [⟨inNote, .code (verbatim ts)⟩]
  | .node .htmlBlock ts => [⟨inNote, .markup (verbatim ts)⟩]
  | .node (.footnote _) ts => stretchesOf true ts
  | .node tag ts =>
    if tag.isInline then [⟨inNote, .line (.node tag ts)⟩] else stretchesOf inNote ts

def stretchesOf (inNote : Bool) : List Tree → List Stretch
  | [] => []
  | t :: ts => t.stretches inNote ++ stretchesOf inNote ts

end

def outsideNotes (ss : List Stretch) : List Stretch := ss.filter fun s => !s.inNote

@[simp] theorem outsideNotes_append (ss us : List Stretch) :
    outsideNotes (ss ++ us) = outsideNotes ss ++ outsideNotes us :=
  List.filter_append ..

/-- A tree of a line of text is one stretch. -/
theorem stretches_of_isInline {t : Tree} (h : t.IsInline) (inNote : Bool) :
    t.stretches inNote = [⟨inNote, .line t⟩] := by
  cases h with
  | leaf l => rfl
  | @node tag ts htag hts => cases tag <;> first | rfl | cases htag

mutual

theorem inNote_of_mem_stretches {s : Stretch} :
    (t : Tree) → s ∈ t.stretches true → s.inNote = true
  | .leaf l, hs => by
    rw [List.mem_singleton.1 hs]
  | .node tag ts, hs => by
    cases tag with
    | codeBlock | htmlBlock | emphasis | strong | strikethrough | link | image =>
      rw [List.mem_singleton.1 hs]
    | _ => exact inNote_of_mem_stretchesOf ts hs

theorem inNote_of_mem_stretchesOf {s : Stretch} :
    (ts : List Tree) → s ∈ stretchesOf true ts → s.inNote = true
  | [], hs => nomatch hs
  | t :: ts, hs =>
    (List.mem_append.1 hs).elim (inNote_of_mem_stretches t) (inNote_of_mem_stretchesOf ts)

end

end Markdown

namespace Walk

variable {α : Type} {w : Walk α} {line : Tree → List α}

/-- A walk gets from the spans of a tree what the tree calls for, whatever spans stand before. -/
def Follows (w : Walk α) (line : Tree → List α) : Prop :=
  ∀ t : Tree, t.IsInline → ∀ spans,
    w.spans (t.addTo spans).reverse = w.spans spans.reverse ++ line t

def stretch (w : Walk α) (line : Tree → List α) (s : Stretch) : List α :=
  match s.kind with
  | .line t => line t
  | .code source => w.code (codeSource source)
  | .markup source => w.raw source

/-- What is to be collected from some stretches of the source, of which those in the definitions of
footnotes are passed over. -/
def stretches (w : Walk α) (line : Tree → List α) (ss : List Stretch) : List α :=
  (outsideNotes ss).flatMap (w.stretch line)

def trees (w : Walk α) (line : Tree → List α) (ts : List Tree) : List α :=
  w.stretches line (stretchesOf false ts)

@[simp] theorem blocks_looseBlocks (w : Walk α) (spans : List Span) :
    w.blocks (looseBlocks spans) = w.spans spans := by
  cases spans <;> simp [looseBlocks, blocks, block]

theorem blocks_paragraph? (w : Walk α) (spans : List Span) :
    w.blocks (paragraph? spans).toList = w.spans spans := by
  unfold paragraph?
  split <;> simp [blocks, block]

section

variable {ts : List Tree}

@[simp] theorem trees_nil : w.trees line [] = [] := rfl

@[simp] theorem trees_cons (t : Tree) (ts : List Tree) :
    w.trees line (t :: ts) = w.stretches line (t.stretches false) ++ w.trees line ts := by
  simp [trees, stretchesOf, stretches]

theorem stretch_of_isInline {t : Tree} (h : t.IsInline) :
    w.stretches line (t.stretches false) = line t := by
  simp [stretches_of_isInline h, stretches, outsideNotes, stretch]

theorem trees_of_isInline (hts : ∀ t ∈ ts, t.IsInline) : w.trees line ts = ts.flatMap line := by
  induction ts with
  | nil => rfl
  | cons t ts ih =>
    obtain ⟨ht, hts⟩ := List.forall_mem_cons.1 hts
    rw [trees_cons, stretch_of_isInline ht, ih hts, List.flatMap_cons]

/-- What a walk gets from one tree after another it gets from all of them. -/
theorem spans_addTrees
    (h : ∀ t ∈ ts, ∀ spans, w.spans (t.addTo spans).reverse = w.spans spans.reverse ++ line t)
    (spans : List Span) :
    w.spans (addTrees ts spans).reverse = w.spans spans.reverse ++ ts.flatMap line := by
  induction ts generalizing spans with
  | nil => simp [addTrees]
  | cons t ts ih =>
    obtain ⟨ht, hts⟩ := List.forall_mem_cons.1 h
    rw [addTrees, ih hts, ht, List.flatMap_cons, List.append_assoc]

/-- A walk follows the trees if it follows a leaf, and a container whose content it follows. -/
theorem follows_of_containers
    (hleaf : ∀ l spans,
      w.spans (addLeaf spans l).reverse = w.spans spans.reverse ++ line (.leaf l))
    (hnode : ∀ tag ts, tag.isInline = true → ∀ body before, w.spans body = ts.flatMap line →
      w.spans (addContainer tag body before).reverse =
        w.spans before.reverse ++ line (.node tag ts)) :
    w.Follows line := by
  intro t ht
  induction ht with
  | leaf l => exact hleaf l
  | node htag hts ih => exact fun spans => hnode _ _ htag _ spans (spans_addTrees ih [])

theorem spans_spansOfTrees (hw : w.Follows line) (hts : ∀ t ∈ ts, t.IsInline) :
    w.spans (spansOfTrees ts) = w.trees line ts := by
  rw [spansOfTrees, spans_addTrees fun t ht => hw t (hts t ht), trees_of_isInline hts]
  rfl

end

/-! ### Cells, items and blocks -/

theorem cells_map (hw : w.Follows line) (cells : List (List Tree))
    (h : ∀ cell ∈ cells, ∀ t ∈ cell, t.IsInline) :
    w.cells (cells.map fun cell => looseBlocks (spansOfTrees cell)) =
      w.trees line (cells.map (.node .tableCell)) := by
  induction cells with
  | nil => rfl
  | cons cell cells ih =>
    obtain ⟨hcell, hcells⟩ := List.forall_mem_cons.1 h
    rw [List.map_cons, List.map_cons, trees_cons, ← ih hcells, Walk.cells, blocks_looseBlocks,
      spans_spansOfTrees hw hcell]
    rfl

theorem cells_cellsOfTree (hw : w.Follows line) (tag : Tag) (cells : List (List Tree))
    (h : ∀ cell ∈ cells, ∀ t ∈ cell, t.IsInline) :
    w.cells (cellsOfTree (rowTree tag cells)) = w.trees line (cells.map (.node .tableCell)) := by
  rw [← cells_map hw cells h, cellsOfTree, rowTree, Tree.children, List.map_map]
  rfl

theorem rows_map (hw : w.Follows line) (rows : List (List (List Tree)))
    (h : ∀ row ∈ rows, ∀ cell ∈ row, ∀ t ∈ cell, t.IsInline) :
    w.rows ((rows.map (rowTree .tableRow)).map cellsOfTree) =
      w.trees line (rows.map (rowTree .tableRow)) := by
  induction rows with
  | nil => rfl
  | cons row rows ih =>
    obtain ⟨hrow, hrows⟩ := List.forall_mem_cons.1 h
    rw [List.map_cons, List.map_cons, trees_cons, ← ih hrows, Walk.rows,
      cells_cellsOfTree hw _ row hrow]
    rfl

/-- The block of a tree gives what is to be collected from the tree. -/
def Gathers (w : Walk α) (line : Tree → List α) (t : Tree) : Prop :=
  t.isLoose = false → w.blocks t.block?.toList = w.stretches line (t.stretches false)

theorem blocks_blocksFrom (hw : w.Follows line) {ts : List Tree} (hts : ∀ t ∈ ts, t.IsBlock)
    (hgathers : ∀ t ∈ ts, w.Gathers line t) (spans : List Span) :
    w.blocks (blocksFrom spans ts) = w.spans spans.reverse ++ w.trees line ts := by
  induction ts generalizing spans with
  | nil => simp [blocksFrom]
  | cons t ts ih =>
    obtain ⟨ht, hts⟩ := List.forall_mem_cons.1 hts
    obtain ⟨htgathers, hgathers⟩ := List.forall_mem_cons.1 hgathers
    rw [blocksFrom, trees_cons]
    cases hloose : t.isLoose with
    | true =>
      have hinline := ht.isInline hloose
      rw [if_pos rfl, ih hts hgathers, hw t hinline, stretch_of_isInline hinline, List.append_assoc]
    | false =>
      rw [if_neg Bool.false_ne_true, blocks_append, blocks_append, htgathers hloose,
        ih hts hgathers]
      simp

theorem cells_itemsOfTrees (hw : w.Follows line) (items : List (List Tree))
    (hitems : ∀ item ∈ items, ∀ t ∈ item, t.IsBlock)
    (hgathers : ∀ item ∈ items, ∀ t ∈ item, w.Gathers line t) :
    w.cells (itemsOfTrees (items.map (.node .item))) = w.trees line (items.map (.node .item)) := by
  induction items with
  | nil => rfl
  | cons item items ih =>
    obtain ⟨hitem, hitems⟩ := List.forall_mem_cons.1 hitems
    obtain ⟨hitemgathers, hgathers⟩ := List.forall_mem_cons.1 hgathers
    rw [List.map_cons, itemsOfTrees, trees_cons, ← ih hitems hgathers, Walk.cells,
      blocks_blocksFrom hw hitem hitemgathers]
    rfl

theorem gathers_of_isBlock (hw : w.Follows line) {t : Tree} (h : t.IsBlock) :
    w.Gathers line t := by
  induction h with
  | loose h =>
    intro hloose
    cases h with
    | leaf l =>
      have hrule : l = .rule := by simpa [Tree.isLoose] using hloose
      subst hrule
      have hline : line (.leaf .rule) = [] := by
        simpa [Tree.addTo, addLeaf] using (hw _ (.leaf .rule) []).symm
      rw [stretch_of_isInline (.leaf .rule), hline]
      rfl
    | node htag => exact absurd (htag.symm.trans hloose) (by decide)
  | paragraph hts => exact fun _ => (w.blocks_paragraph? _).trans (spans_spansOfTrees hw hts)
  | heading level hts => exact fun _ => (w.blocks_singleton _).trans (spans_spansOfTrees hw hts)
  | quote hts ih => exact fun _ => (w.blocks_singleton _).trans (blocks_blocksFrom hw hts ih [])
  | code info sources => exact fun _ => rfl
  | html markups => exact fun _ => rfl
  | list start hitems ih =>
    exact fun _ => (w.blocks_singleton _).trans (cells_itemsOfTrees hw _ hitems ih)
  | @table alignments head rows hhead hrows =>
    intro _
    have hparts := congrArg₂ (· ++ ·) (cells_cellsOfTree hw .tableHead head hhead)
      (rows_map hw rows hrows)
    have hsource : w.trees line (rowTree .tableHead head :: rows.map (rowTree .tableRow)) =
        w.trees line (head.map (.node .tableCell)) ++ w.trees line (rows.map (rowTree .tableRow)) :=
      trees_cons _ _
    exact (w.blocks_singleton _).trans (hparts.trans hsource.symm)
  | @footnote label ts hts ih =>
    intro _
    have hnone : outsideNotes (stretchesOf true ts) = [] :=
      List.filter_eq_nil_iff.2 fun s hs => by simp [inNote_of_mem_stretchesOf ts hs]
    rw [Tree.stretches, stretches, hnone]
    rfl

/-- A walk through the blocks of a text goes through its source. -/
theorem blocks_parseMarkdown (hw : w.Follows line) (text : String) :
    w.blocks (parseMarkdown text).1 = w.trees line (Outline.ofText text.toList).forest := by
  have htrees : ∀ t ∈ (Outline.ofText text.toList).forest, t.IsBlock :=
    fun t ht => Outline.isBlock_of_mem_forest ht
  have hblocks := blocks_blocksFrom hw htrees (fun t ht => gathers_of_isBlock hw (htrees t ht)) []
  rw [parseMarkdown, blocksOfEvents_ofText]
  exact hblocks

end Walk

end LiterateJournal
