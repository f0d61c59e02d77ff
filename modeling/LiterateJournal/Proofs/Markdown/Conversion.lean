import LiterateJournal.Markdown.Reader
import Mathlib.Data.List.TakeWhile

/-!
# Reading the events of a forest

The readers of spans and blocks go through events one after another, with some fuel. On the events
of a forest whose containers hold what they may, they give what the trees stand for, and the fuel is
always enough.

## Main definitions

* `Tag.MayHold`, `Tree.IsMarkdown` — what a container may hold, and trees whose containers hold it.
* `Tree.IsInline`, `Tree.IsBlock` — trees that may stand in a line of text, or among blocks.
* `spansOfTrees`, `blocksOfTrees` — the spans and the blocks that some trees stand for.

## Main statements

* `readSpans_forestEvents` — a line of text is read tree by tree.
* `blocksOfEvents_forestEvents` — so is a sequence of blocks.
-/

namespace LiterateJournal.Markdown

/-! ### Where trees may stand -/

def Tree.children : Tree → List Tree
  | .leaf _ => []
  | .node _ ts => ts

def Tree.tag? : Tree → Option Tag
  | .leaf _ => none
  | .node tag _ => some tag

/-- What a container may hold: code and markup hold leaves, lists items, rows cells, and a table its
header and then its rows. Any other container may hold anything. -/
def Tag.MayHold : Tag → List Tree → Prop
  | .codeBlock _, ts | .htmlBlock, ts => ∀ t ∈ ts, t.tag? = none
  | .list _, ts => ∀ t ∈ ts, t.tag? = some .item
  | .table _, ts => ∃ head rows, ts = head :: rows ∧ head.tag? = some .tableHead ∧
    ∀ row ∈ rows, row.tag? = some .tableRow
  | .tableHead, ts | .tableRow, ts => ∀ t ∈ ts, t.tag? = some .tableCell
  | _, _ => True

/-- A tree in which every container holds what it may. -/
inductive Tree.IsMarkdown : Tree → Prop where
  | leaf (l : Leaf) : IsMarkdown (.leaf l)
  | node {tag : Tag} {ts : List Tree} (htag : tag.MayHold ts) (hts : ∀ t ∈ ts, t.IsMarkdown) :
    IsMarkdown (.node tag ts)

inductive Tree.IsInline : Tree → Prop where
  | leaf (l : Leaf) : IsInline (.leaf l)
  | node {tag : Tag} {ts : List Tree} (htag : tag.isInline = true) (hts : ∀ t ∈ ts, t.IsInline) :
    IsInline (.node tag ts)

def rowTree (tag : Tag) (cells : List (List Tree)) : Tree :=
  .node tag (cells.map (.node .tableCell))

inductive Tree.IsBlock : Tree → Prop where
  | loose {t : Tree} (h : t.IsInline) : t.IsBlock
  | paragraph {ts : List Tree} (hts : ∀ t ∈ ts, t.IsInline) : IsBlock (.node .paragraph ts)
  | heading (level : UInt8) {ts : List Tree} (hts : ∀ t ∈ ts, t.IsInline) :
    IsBlock (.node (.heading level) ts)
  | quote {ts : List Tree} (hts : ∀ t ∈ ts, t.IsBlock) : IsBlock (.node .quote ts)
  | code (info : Option String) (sources : List String) :
    IsBlock (.node (.codeBlock info) (sources.map fun s => .leaf (.text s)))
  | html (markups : List String) :
    IsBlock (.node .htmlBlock (markups.map fun s => .leaf (.html s)))
  | list (start : Option UInt64) {items : List (List Tree)}
    (hitems : ∀ item ∈ items, ∀ t ∈ item, t.IsBlock) :
    IsBlock (.node (.list start) (items.map (.node .item)))
  | table (alignments : List Alignment) {head : List (List Tree)}
    {rows : List (List (List Tree))} (hhead : ∀ cell ∈ head, ∀ t ∈ cell, t.IsInline)
    (hrows : ∀ row ∈ rows, ∀ cell ∈ row, ∀ t ∈ cell, t.IsInline) :
    IsBlock (.node (.table alignments) (rowTree .tableHead head :: rows.map (rowTree .tableRow)))
  | footnote (label : String) {ts : List Tree} (hts : ∀ t ∈ ts, t.IsBlock) :
    IsBlock (.node (.footnote label) ts)

theorem Tag.mayHold_of_isInline {tag : Tag} (h : tag.isInline = true) (ts : List Tree) :
    tag.MayHold ts := by
  cases tag with
  | emphasis | strong | strikethrough | link | image => trivial
  | _ => cases h

theorem Tree.IsInline.isMarkdown {t : Tree} (h : t.IsInline) : t.IsMarkdown := by
  induction h with
  | leaf l => exact .leaf l
  | node htag _ ih => exact .node (Tag.mayHold_of_isInline htag _) ih

theorem isMarkdown_rowTree {tag : Tag} (htag : tag = .tableHead ∨ tag = .tableRow)
    {cells : List (List Tree)} (hcells : ∀ cell ∈ cells, ∀ t ∈ cell, t.IsInline) :
    (rowTree tag cells).IsMarkdown := by
  have hcell : ∀ t ∈ cells.map (Tree.node .tableCell), t.tag? = some .tableCell :=
    List.forall_mem_map.2 fun _ _ => rfl
  refine .node ?_ (List.forall_mem_map.2 fun cell hc => .node trivial fun t ht =>
    (hcells cell hc t ht).isMarkdown)
  obtain rfl | rfl := htag <;> exact hcell

theorem Tree.IsBlock.isMarkdown {t : Tree} (h : t.IsBlock) : t.IsMarkdown := by
  induction h with
  | loose h => exact h.isMarkdown
  | paragraph hts | heading _ hts => exact .node trivial fun t ht => (hts t ht).isMarkdown
  | quote _ ih | footnote _ _ ih => exact .node trivial ih
  | code | html =>
    exact .node (List.forall_mem_map.2 fun _ _ => rfl) (List.forall_mem_map.2 fun _ _ => .leaf _)
  | list _ _ ih =>
    exact .node (List.forall_mem_map.2 fun _ _ => rfl)
      (List.forall_mem_map.2 fun item hitem => .node trivial (ih item hitem))
  | table _ hhead hrows =>
    refine .node ⟨_, _, rfl, rfl, List.forall_mem_map.2 fun _ _ => rfl⟩
      (List.forall_mem_cons.2 ⟨isMarkdown_rowTree (.inl rfl) hhead, ?_⟩)
    exact List.forall_mem_map.2 fun row hrow => isMarkdown_rowTree (.inr rfl) (hrows row hrow)

/-- Whether a tree belongs to a line of text that stands among blocks by itself. -/
def Tree.isLoose : Tree → Bool
  | .leaf l => l ≠ .rule
  | .node tag _ => tag.isInline

theorem Tree.IsBlock.isInline {t : Tree} (h : t.IsBlock) (hloose : t.isLoose = true) :
    t.IsInline := by
  cases h with
  | loose h => exact h
  | _ => cases hloose

/-! ### What trees stand for -/

mutual

/-- Adds the spans of a tree to those before it, of which the last comes first. -/
def Tree.addTo : Tree → List Span → List Span
  | .leaf l, spans => addLeaf spans l
  | .node tag ts, spans => addContainer tag (addTrees ts []).reverse spans

/-- Adds the spans of some trees to those before them, of which the last comes first. -/
def addTrees : List Tree → List Span → List Span
  | [], spans => spans
  | t :: ts, spans => addTrees ts (t.addTo spans)

end

def spansOfTrees (ts : List Tree) : List Span := (addTrees ts []).reverse

/-- Spans that stand by themselves, among blocks or in a cell, are a paragraph if there are any. -/
def looseBlocks (spans : List Span) : List Block :=
  if spans.isEmpty then [] else [.paragraph spans]

def verbatim : List Tree → String
  | [] => ""
  | .leaf (.text s) :: ts | .leaf (.html s) :: ts => s ++ verbatim ts
  | _ :: ts => verbatim ts

def cellsOfTree (row : Tree) : List Cell :=
  row.children.map fun cell => looseBlocks (spansOfTrees cell.children)

/-- How a list is marked whose first number is given, if it has one. -/
def listKind : Option UInt64 → ListKind
  | some n => .numbered n
  | none => .bulleted

mutual

def Tree.block? : Tree → Option Block
  | .leaf l => if l = .rule then some .rule else none
  | .node .paragraph ts => paragraph? (spansOfTrees ts)
  | .node (.heading level) ts => some (.heading level (spansOfTrees ts))
  | .node .quote ts => some (.quote (blocksFrom [] ts))
  | .node (.codeBlock info) ts => some (.code (codeSource (verbatim ts)) (language? info))
  | .node .htmlBlock ts => some (.raw (verbatim ts))
  | .node (.list start) ts => some (.list (listKind start) (itemsOfTrees ts))
  | .node (.table alignments) ts =>
    some (.table alignments ((ts.head?.map cellsOfTree).getD []) (ts.tail.map cellsOfTree))
  | _ => none

/-- The blocks of some trees, after loose spans of which the last comes first. -/
def blocksFrom : List Span → List Tree → List Block
  | spans, [] => looseBlocks spans.reverse
  | spans, t :: ts =>
    if t.isLoose then blocksFrom (t.addTo spans) ts
    else looseBlocks spans.reverse ++ (t.block?.toList ++ blocksFrom [] ts)

def itemsOfTrees : List Tree → List (List Block)
  | [] => []
  | .leaf _ :: ts => itemsOfTrees ts
  | .node _ item :: ts => blocksFrom [] item :: itemsOfTrees ts

end

def blocksOfTrees (ts : List Tree) : List Block := blocksFrom [] ts

/-! ### Reading lines of text -/

section

variable {ts : List Tree} {spans : List Span} {es tail : List Event} {fuel : Nat}

@[simp] theorem forestEvents_nil : Tree.forestEvents [] = [] := rfl

@[simp] theorem forestEvents_cons (t : Tree) (ts : List Tree) :
    Tree.forestEvents (t :: ts) = t.events ++ Tree.forestEvents ts := rfl

@[simp] theorem events_leaf (l : Leaf) : (Tree.leaf l).events = [.leaf l] := rfl

@[simp] theorem events_node (tag : Tag) (ts : List Tree) :
    (Tree.node tag ts).events = .enter tag :: (Tree.forestEvents ts ++ [.leave]) := rfl

mutual

theorem skipContainer_events (depth : Nat) : (t : Tree) → (es : List Event) →
    skipContainer depth (t.events ++ es) = skipContainer depth es
  | .leaf l, es => by cases depth <;> rfl
  | .node tag ts, es => by
    have hskip := skipContainer_forestEvents (depth + 1) ts (.leave :: es)
    simpa [skipContainer] using hskip

theorem skipContainer_forestEvents (depth : Nat) : (ts : List Tree) → (es : List Event) →
    skipContainer depth (Tree.forestEvents ts ++ es) = skipContainer depth es
  | [], es => rfl
  | t :: ts, es => by
    rw [forestEvents_cons, List.append_assoc, skipContainer_events depth t,
      skipContainer_forestEvents depth ts]

end

@[simp] theorem readSpan_leaf (l : Leaf) :
    readSpan fuel spans (.leaf l) es = (addLeaf spans l, es) := by
  cases fuel <;> rfl

theorem addContainer_of_not_isInline {tag : Tag} (h : tag.isInline = false) (body : List Span) :
    addContainer tag body spans = spans := by
  cases tag <;> simp_all [Tag.isInline, addContainer]

mutual

/-- A container in a line of text is read as its tree. -/
theorem readSpan_node (tag : Tag) : (ts : List Tree) → {spans : List Span} → {es : List Event} →
    {fuel : Nat} → 2 * (Tree.forestEvents ts).length + 1 < fuel →
    readSpan fuel spans (.enter tag) (Tree.forestEvents ts ++ .leave :: es) =
      ((Tree.node tag ts).addTo spans, es)
  | ts, spans, es, fuel + 1, hfuel => by
    rw [readSpan, Tree.addTo]
    split
    · rw [readSpans_forestEvents ts (by omega)]
    · rename_i htag
      rw [addContainer_of_not_isInline (by simpa using htag), skipContainer_forestEvents 0 ts]
      rfl

/-- A line of text is read tree by tree. -/
theorem readSpans_forestEvents : (ts : List Tree) → {spans : List Span} → {es : List Event} →
    {fuel : Nat} → 2 * (Tree.forestEvents ts).length < fuel →
    readSpans fuel spans (Tree.forestEvents ts ++ .leave :: es) =
      ((addTrees ts spans).reverse, es)
  | [], spans, es, fuel + 1, _ => rfl
  | .leaf l :: ts, spans, es, fuel + 1, hfuel => by
    simp only [forestEvents_cons, events_leaf, List.length_append, List.length_singleton] at hfuel
    simp [readSpans, readSpans_forestEvents ts (by omega : _ < fuel), addTrees, Tree.addTo]
  | .node tag children :: ts, spans, es, fuel + 1, hfuel => by
    simp only [forestEvents_cons, events_node, List.length_append, List.length_cons] at hfuel
    simp [readSpans, readSpan_node tag children (by omega : _ < fuel),
      readSpans_forestEvents ts (by omega : _ < fuel), addTrees]

end

/-- Trees that stand by themselves are read up to the first one that does not. -/
theorem readLoose_forestEvents (htail : ∀ e ∈ tail.head?, e.isLoose = false)
    (hfuel : 2 * (Tree.forestEvents ts).length < fuel) :
    readLoose fuel spans (Tree.forestEvents ts ++ tail) =
      ((addTrees (ts.takeWhile Tree.isLoose) spans).reverse,
        Tree.forestEvents (ts.dropWhile Tree.isLoose) ++ tail) := by
  induction ts generalizing fuel spans with
  | nil =>
    obtain ⟨fuel, rfl⟩ := Nat.exists_eq_add_one_of_ne_zero (Nat.ne_zero_of_lt hfuel)
    cases tail with
    | nil => rfl
    | cons e tail =>
      have he : e.isLoose = false := htail e rfl
      simp [readLoose, he, addTrees]
  | cons t ts ih =>
    obtain ⟨fuel, rfl⟩ := Nat.exists_eq_add_one_of_ne_zero (Nat.ne_zero_of_lt hfuel)
    cases t with
    | leaf l =>
      simp only [forestEvents_cons, events_leaf, List.length_append, List.length_singleton] at hfuel
      by_cases hl : l = .rule
      · simp [readLoose, Event.isLoose, Tree.isLoose, hl, addTrees]
      · simp [readLoose, Event.isLoose, Tree.isLoose, hl, addTrees, Tree.addTo,
          ih (by omega : _ < fuel)]
    | node tag children =>
      simp only [forestEvents_cons, events_node, List.length_append, List.length_cons] at hfuel
      cases htag : tag.isInline
      · simp [readLoose, Event.isLoose, Tree.isLoose, htag, addTrees]
      · simp [readLoose, Event.isLoose, Tree.isLoose, htag, addTrees,
          readSpan_node tag children (by omega : _ < fuel), ih (by omega : _ < fuel)]

theorem blocksFrom_eq (spans : List Span) (ts : List Tree) :
    blocksFrom spans ts =
      looseBlocks (addTrees (ts.takeWhile Tree.isLoose) spans).reverse ++
        blocksFrom [] (ts.dropWhile Tree.isLoose) := by
  induction ts generalizing spans with
  | nil => simp [blocksFrom, addTrees, looseBlocks]
  | cons t ts ih =>
    cases ht : t.isLoose
    · simp [blocksFrom, addTrees, ht, looseBlocks]
    · simp [blocksFrom, addTrees, ht, ih (t.addTo spans)]

/-! ### Reading blocks -/

theorem readText_forestEvents (h : ∀ t ∈ ts, t.tag? = none) (es : List Event) :
    readText (Tree.forestEvents ts ++ .leave :: es) = (verbatim ts, es) := by
  induction ts with
  | nil => rfl
  | cons t ts ih =>
    obtain ⟨ht, hts⟩ := List.forall_mem_cons.1 h
    cases t with
    | leaf l => cases l <;> simp [readText, verbatim, ih hts]
    | node => cases ht

theorem readCells_forestEvents (cells : List (List Tree))
    (hfuel : 2 * (Tree.forestEvents (cells.map (.node .tableCell))).length < fuel) :
    readCells fuel (Tree.forestEvents (cells.map (.node .tableCell)) ++ .leave :: es) =
      (cells.map fun cell => looseBlocks (spansOfTrees cell), es) := by
  induction cells generalizing fuel with
  | nil =>
    obtain ⟨fuel, rfl⟩ := Nat.exists_eq_add_one_of_ne_zero (Nat.ne_zero_of_lt hfuel)
    rfl
  | cons cell cells ih =>
    obtain ⟨fuel, rfl⟩ := Nat.exists_eq_add_one_of_ne_zero (Nat.ne_zero_of_lt hfuel)
    simp only [List.map_cons, forestEvents_cons, events_node, List.length_append,
      List.length_cons] at hfuel
    simp [readCells, readSpans_forestEvents cell (by omega : _ < fuel),
      ih (by omega : _ < fuel), looseBlocks, spansOfTrees]

theorem readRows_forestEvents (rows : List (List (List Tree)))
    (hfuel : 2 * (Tree.forestEvents (rows.map (rowTree .tableRow))).length < fuel) :
    readRows fuel (Tree.forestEvents (rows.map (rowTree .tableRow)) ++ .leave :: es) =
      (none, (rows.map (rowTree .tableRow)).map cellsOfTree, es) := by
  induction rows generalizing fuel with
  | nil =>
    obtain ⟨fuel, rfl⟩ := Nat.exists_eq_add_one_of_ne_zero (Nat.ne_zero_of_lt hfuel)
    rfl
  | cons row rows ih =>
    obtain ⟨fuel, rfl⟩ := Nat.exists_eq_add_one_of_ne_zero (Nat.ne_zero_of_lt hfuel)
    simp only [List.map_cons, forestEvents_cons, rowTree, events_node, List.length_append,
      List.length_cons] at hfuel
    simp [readRows, rowTree, readCells_forestEvents row (by omega : _ < fuel),
      ih (by omega : _ < fuel), cellsOfTree, Tree.children]

theorem readRows_table {head : List (List Tree)} {rows : List (List (List Tree))}
    (hfuel : 2 * (Tree.forestEvents
      (rowTree .tableHead head :: rows.map (rowTree .tableRow))).length < fuel) :
    readRows fuel (Tree.forestEvents (rowTree .tableHead head :: rows.map (rowTree .tableRow)) ++
        .leave :: es) =
      (some (cellsOfTree (rowTree .tableHead head)), (rows.map (rowTree .tableRow)).map cellsOfTree,
        es) := by
  obtain ⟨fuel, rfl⟩ := Nat.exists_eq_add_one_of_ne_zero (Nat.ne_zero_of_lt hfuel)
  simp only [forestEvents_cons, rowTree, events_node, List.length_append, List.length_cons] at hfuel
  have hrows := @readRows_forestEvents es fuel rows (by omega)
  simp [readRows, rowTree, readCells_forestEvents head (by omega : _ < fuel), hrows,
    cellsOfTree, Tree.children]

def Tree.IsRead (t : Tree) : Prop :=
  ∀ tag ts, t = .node tag ts → tag.isInline = false → ∀ fuel es,
    2 * (forestEvents ts).length < fuel →
    readBlock (fuel + 1) tag (forestEvents ts ++ .leave :: es) = (t.block?, es)

theorem readBlocks_of_isLoose {e : Event} (he : e.isLoose = true) :
    readBlocks (fuel + 1) (e :: es) =
      (looseBlocks (readLoose (fuel + 1) [] (e :: es)).1 ++
          (readBlocks fuel (readLoose (fuel + 1) [] (e :: es)).2).1,
        (readBlocks fuel (readLoose (fuel + 1) [] (e :: es)).2).2) := by
  have hloose (spans : List Span) (blocks : List Block) :
      (if spans = [] then blocks else .paragraph spans :: blocks) =
        looseBlocks spans ++ blocks := by
    cases spans <;> rfl
  cases e with
  | leave => cases he
  | leaf l =>
    cases l with
    | rule => cases he
    | _ => simp [readBlocks, he, hloose]
  | enter tag => simp [readBlocks, he, hloose]

/-- The first event of a tree belongs to a line of text just if the tree does. -/
theorem exists_events_eq_cons (t : Tree) : ∃ e es, t.events = e :: es ∧ e.isLoose = t.isLoose := by
  cases t with
  | leaf l => exact ⟨_, _, rfl, rfl⟩
  | node tag ts => exact ⟨_, _, rfl, rfl⟩

theorem length_forestEvents_dropWhile (p : Tree → Bool) (ts : List Tree) :
    (Tree.forestEvents (ts.dropWhile p)).length ≤ (Tree.forestEvents ts).length := by
  induction ts with
  | nil => rfl
  | cons t ts ih =>
    rw [List.dropWhile_cons]
    split
    · rw [forestEvents_cons, List.length_append]
      omega
    · rfl

/-- A sequence of blocks is read tree by tree, if every container in it is. -/
theorem readBlocks_forestEvents (hts : ∀ t ∈ ts, t.IsRead)
    (htail : tail = [] ∨ ∃ es, tail = .leave :: es)
    (hfuel : 2 * (Tree.forestEvents ts).length < fuel) :
    readBlocks fuel (Tree.forestEvents ts ++ tail) = (blocksFrom [] ts, tail.tail) := by
  induction fuel generalizing ts with
  | zero => omega
  | succ fuel ih =>
    cases ts with
    | nil => obtain rfl | ⟨es, rfl⟩ := htail <;> rfl
    | cons t ts =>
      obtain ⟨ht, hrest⟩ := List.forall_mem_cons.1 hts
      cases hloose : t.isLoose with
      | true =>
        -- a line of text is read as a whole
        obtain ⟨e, es, hevents, he⟩ := exists_events_eq_cons t
        have hlength := length_forestEvents_dropWhile Tree.isLoose ts
        have hclosed : ∀ e ∈ tail.head?, e.isLoose = false := by
          obtain rfl | ⟨es, rfl⟩ := htail <;> simp [Event.isLoose]
        have hline := @readLoose_forestEvents (t :: ts) [] tail (fuel + 1) hclosed hfuel
        have hless : 2 * (Tree.forestEvents (ts.dropWhile Tree.isLoose)).length < fuel := by
          simp only [forestEvents_cons, hevents, List.length_append, List.length_cons] at hfuel
          omega
        have hblocks :=
          ih (fun t ht => hrest t ((List.dropWhile_suffix Tree.isLoose).subset ht)) hless
        rw [blocksFrom_eq]
        simp only [forestEvents_cons, hevents, List.cons_append, List.append_assoc] at hline ⊢
        rw [readBlocks_of_isLoose (he.trans hloose), hline, List.dropWhile_cons_of_pos hloose,
          hblocks]
      | false =>
        have hblocks (h : 2 * (Tree.forestEvents ts).length < fuel) := ih hrest h
        cases t with
        | leaf l =>
          have hrule : l = .rule := by simpa [Tree.isLoose] using hloose
          simp only [forestEvents_cons, events_leaf, List.length_append,
            List.length_singleton] at hfuel
          simp [hrule, readBlocks, hblocks (by omega), blocksFrom, Tree.isLoose, Tree.block?,
            looseBlocks]
        | node tag children =>
          simp only [forestEvents_cons, events_node, List.length_append, List.length_cons] at hfuel
          obtain ⟨fuel, rfl⟩ := Nat.exists_eq_add_one_of_ne_zero (by omega : fuel ≠ 0)
          have hblock := ht tag children rfl hloose fuel (Tree.forestEvents ts ++ tail) (by omega)
          have htag : (Event.enter tag).isLoose = false := hloose
          simp [readBlocks, htag, hblock, hblocks (by omega), blocksFrom, hloose, looseBlocks]

theorem readItems_forestEvents (items : List (List Tree))
    (hitems : ∀ item ∈ items, ∀ t ∈ item, t.IsRead)
    (hfuel : 2 * (Tree.forestEvents (items.map (.node .item))).length < fuel) :
    readItems fuel (Tree.forestEvents (items.map (.node .item)) ++ .leave :: es) =
      (itemsOfTrees (items.map (.node .item)), es) := by
  induction items generalizing fuel with
  | nil =>
    obtain ⟨fuel, rfl⟩ := Nat.exists_eq_add_one_of_ne_zero (Nat.ne_zero_of_lt hfuel)
    rfl
  | cons item items ih =>
    obtain ⟨fuel, rfl⟩ := Nat.exists_eq_add_one_of_ne_zero (Nat.ne_zero_of_lt hfuel)
    obtain ⟨hitem, hrest⟩ := List.forall_mem_cons.1 hitems
    simp only [List.map_cons, forestEvents_cons, events_node, List.length_append,
      List.length_cons] at hfuel
    have hblocks := readBlocks_forestEvents hitem
      (.inr ⟨Tree.forestEvents (items.map (.node .item)) ++ .leave :: es, rfl⟩)
      (by omega : _ < fuel)
    simp [readItems, hblocks, ih hrest (by omega : _ < fuel), itemsOfTrees]

/-- Containers of one kind, by what they hold. -/
theorem eq_map_node {tag : Tag} (h : ∀ t ∈ ts, t.tag? = some tag) :
    ts = (ts.map Tree.children).map (.node tag) := by
  induction ts with
  | nil => rfl
  | cons t ts ih =>
    obtain ⟨ht, hts⟩ := List.forall_mem_cons.1 h
    cases t with
    | leaf l => cases ht
    | node tag' children =>
      obtain rfl : tag' = tag := Option.some.inj ht
      exact congrArg _ (ih hts)

theorem Tree.IsMarkdown.eq_rowTree {tag : Tag} {row : Tree} (h : row.IsMarkdown)
    (hrow : row.tag? = some tag) (htag : tag = .tableHead ∨ tag = .tableRow) :
    row = rowTree tag (row.children.map Tree.children) := by
  cases h with
  | leaf l => cases hrow
  | @node tag' cells hcells =>
    obtain rfl : tag' = tag := Option.some.inj hrow
    refine congrArg _ (eq_map_node ?_)
    obtain rfl | rfl := htag <;> exact hcells

theorem eq_map_rowTree {rows : List Tree} (h : ∀ row ∈ rows, row.IsMarkdown)
    (hrows : ∀ row ∈ rows, row.tag? = some .tableRow) :
    rows = (rows.map fun row => row.children.map Tree.children).map (rowTree .tableRow) := by
  rw [List.map_map]
  refine (List.map_id rows).symm.trans (List.map_congr_left fun row hrow => ?_)
  exact (h row hrow).eq_rowTree (hrows row hrow) (.inr rfl)

/-- A container that holds what it may is read as what it stands for, and so are the containers in
it, which are its parts if it is a list. -/
theorem Tree.IsMarkdown.isRead_and_children {t : Tree} (h : t.IsMarkdown) :
    t.IsRead ∧ ∀ c ∈ t.children, c.IsRead := by
  induction h with
  | leaf l => exact ⟨fun _ _ h => (by cases h), fun _ hc => absurd hc List.not_mem_nil⟩
  | @node tag ts htag hts ih =>
    refine ⟨?_, fun c hc => (ih c hc).1⟩
    rintro _ _ ⟨⟩ hinline fuel es hfuel
    cases tag with
    | paragraph | heading =>
      rw [readBlock, readSpans_forestEvents _ hfuel]
      rfl
    | quote =>
      rw [readBlock, readBlocks_forestEvents (fun c hc => (ih c hc).1) (.inr ⟨es, rfl⟩) hfuel]
      rfl
    | codeBlock | htmlBlock =>
      simp only [readBlock, readText_forestEvents htag]
      rfl
    | list start =>
      have hitems : ∀ item ∈ ts.map Tree.children, ∀ c ∈ item, c.IsRead :=
        List.forall_mem_map.2 fun item hitem => (ih item hitem).2
      rw [eq_map_node htag] at hfuel ⊢
      cases start <;>
      · rw [readBlock, readItems_forestEvents _ hitems hfuel]
        rfl
    | table alignments =>
      obtain ⟨head, rows, rfl, hhead, hrows⟩ := htag
      obtain ⟨hmhead, hmrows⟩ := List.forall_mem_cons.1 hts
      rw [hmhead.eq_rowTree hhead (.inl rfl), eq_map_rowTree hmrows hrows] at hfuel ⊢
      rw [readBlock, readRows_table hfuel]
      rfl
    | item | footnote | tableHead | tableRow | tableCell =>
      rw [readBlock, skipContainer_forestEvents 0]
      · rfl
      all_goals simp
    | emphasis | strong | strikethrough | link | image => cases hinline

/-- The blocks of the events of a forest are those that its trees stand for. -/
theorem blocksOfEvents_forestEvents (hts : ∀ t ∈ ts, t.IsMarkdown) :
    blocksOfEvents (Tree.forestEvents ts) = blocksOfTrees ts := by
  have hread := readBlocks_forestEvents (fun t ht => (hts t ht).isRead_and_children.1) (.inl rfl)
    (Nat.lt_succ_self (2 * (Tree.forestEvents ts).length))
  rw [List.append_nil] at hread
  rw [blocksOfEvents, hread]
  rfl

end

end LiterateJournal.Markdown
