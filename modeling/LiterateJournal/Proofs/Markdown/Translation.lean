import LiterateJournal.Proofs.Markdown.Placement
import Mathlib.Data.List.DropRight

/-!
# Reading events is translating trees

The readers of events stop at the end of any container, whichever it closes. They are right because
each of them consumes exactly the events of its own tree: what stands after a tree is read as if the
tree were not there, and two sequences of blocks are read one by one. Only a line of loose text that
is cut in two is put together again.

## Main definitions

* `Tree.text?` — the text of a leaf that joins the text before it.

## Main statements

* `blocksOfTrees_append_cons` — the trees before and after a block are translated by themselves.
* `blocksOfTrees_append_iff` — sequences of blocks are translated one by one unless the seam cuts a
  line.
* `readBlocks_translates_forest` — reading the events of a forest is translating its trees.
-/

namespace LiterateJournal.Markdown

/-! ### Lines of text -/

def Tree.text? : Tree → Option String
  | .leaf (.text s) => some s
  | .leaf .softBreak => some "\n"
  | .leaf (.footnoteReference label) => some ("[^" ++ label ++ "]")
  | .leaf (.taskMark ticked) => some (if ticked then "[x] " else "[ ] ")
  | _ => none

section

variable {t : Tree} {ts us : List Tree}

theorem addTrees_append (ts us : List Tree) (spans : List Span) :
    addTrees (ts ++ us) spans = addTrees us (addTrees ts spans) := by
  induction ts generalizing spans with
  | nil => rfl
  | cons t ts ih => exact ih (t.addTo spans)

theorem addTo_of_text? {s : String} (h : t.text? = some s) (spans : List Span) :
    t.addTo spans = addText s spans := by
  cases t with
  | node => cases h
  | leaf l =>
    cases l with
    | text | softBreak | footnoteReference | taskMark =>
      obtain rfl := Option.some.inj h
      rfl
    | _ => cases h

/-- What joins no text adds the same to every line. -/
theorem addTo_of_text?_eq_none (h : t.text? = none) (spans : List Span) :
    t.addTo spans = t.addTo [] ++ spans := by
  cases t with
  | leaf l =>
    cases l with
    | text | softBreak | footnoteReference | taskMark => cases h
    | _ => rfl
  | node tag ts =>
    simp only [Tree.addTo, addContainer]
    split <;> grind

theorem addText_ne_nil (s : String) (spans : List Span) : addText s spans ≠ [] := by
  unfold addText
  split <;> exact List.cons_ne_nil _ _

/-- A tree that adds nothing to an empty line adds nothing to any line. -/
theorem addTo_of_addTo_nil (h : t.addTo [] = []) (spans : List Span) : t.addTo spans = spans := by
  cases htext : t.text? with
  | none => rw [addTo_of_text?_eq_none htext, h, List.nil_append]
  | some s => exact absurd (addTo_of_text? htext [] ▸ h) (addText_ne_nil s [])

theorem addTo_ne_nil (t : Tree) {spans : List Span} (h : spans ≠ []) : t.addTo spans ≠ [] := by
  cases htext : t.text? with
  | none =>
    rw [addTo_of_text?_eq_none htext]
    exact List.append_ne_nil_of_right_ne_nil _ h
  | some s =>
    rw [addTo_of_text? htext]
    exact addText_ne_nil s spans

theorem addTrees_ne_nil (ts : List Tree) {spans : List Span} (h : spans ≠ []) :
    addTrees ts spans ≠ [] := by
  induction ts generalizing spans with
  | nil => exact h
  | cons t ts ih => exact ih (addTo_ne_nil t h)

theorem addTrees_of_addTrees_nil (h : addTrees ts [] = []) (spans : List Span) :
    addTrees ts spans = spans := by
  induction ts with
  | nil => rfl
  | cons t ts ih =>
    have ht : t.addTo [] = [] := by
      by_contra hne
      exact addTrees_ne_nil ts hne h
    rw [addTrees, ht] at h
    rw [addTrees, addTo_of_addTo_nil ht]
    exact ih h

/-- A tree that joins no text stands in a line as it would alone. -/
theorem spansOfTrees_concat (h : t.text? = none) (ts : List Tree) :
    spansOfTrees (ts ++ [t]) = spansOfTrees ts ++ spansOfTrees [t] := by
  simp [spansOfTrees, addTrees_append, addTrees, addTo_of_text?_eq_none h (addTrees ts [])]

theorem spansOfTrees_concat_text {s : String} (h : t.text? = some s) (ts : List Tree) :
    spansOfTrees (ts ++ [t]) = (addText s (spansOfTrees ts).reverse).reverse := by
  simp [spansOfTrees, addTrees_append, addTrees, addTo_of_text? h]

/-! ### Lists and tables -/

theorem itemsOfTrees_eq (h : ∀ t ∈ ts, t.tag? = some .item) :
    itemsOfTrees ts = ts.map fun item => blocksOfTrees item.children := by
  induction ts with
  | nil => rfl
  | cons t ts ih =>
    obtain ⟨ht, hts⟩ := List.forall_mem_cons.1 h
    cases t with
    | leaf => cases ht
    | node => exact congrArg _ (ih hts)

/-- A list is made of what its items hold. -/
theorem Tree.IsMarkdown.block?_list (h : t.IsMarkdown) {start : Option UInt64}
    (hlist : t.tag? = some (.list start)) :
    t.block? = some (.list (listKind start) (t.children.map fun item =>
      blocksOfTrees item.children)) := by
  cases h with
  | leaf => cases hlist
  | node hitems =>
    obtain rfl := Option.some.inj hlist
    rw [block?, itemsOfTrees_eq hitems]
    rfl

/-- A table is made of the cells of its header and of its rows. -/
theorem Tree.IsMarkdown.block?_table (h : t.IsMarkdown) {alignments : List Alignment}
    (htable : t.tag? = some (.table alignments)) :
    ∃ head rows, t.children = head :: rows ∧
      t.block? = some (.table alignments (cellsOfTree head) (rows.map cellsOfTree)) := by
  cases h with
  | leaf => cases htable
  | node hrows =>
    obtain rfl := Option.some.inj htable
    obtain ⟨head, rows, rfl, -, -⟩ := hrows
    exact ⟨head, rows, rfl, rfl⟩

/-! ### Sequences of blocks -/

/-- The trees before and after a block are translated by themselves, also if the block is none. -/
theorem blocksFrom_append_cons (h : t.isLoose = false) (spans : List Span) (ts us : List Tree) :
    blocksFrom spans (ts ++ t :: us) =
      blocksFrom spans ts ++ (t.block?.toList ++ blocksOfTrees us) := by
  induction ts generalizing spans with
  | nil => simp [blocksFrom, h, blocksOfTrees]
  | cons u ts ih =>
    cases hu : u.isLoose with
    | true => simp [blocksFrom, hu, ih]
    | false => simp [blocksFrom, hu, ih]

theorem blocksOfTrees_append_cons (h : t.isLoose = false) (ts us : List Tree) :
    blocksOfTrees (ts ++ t :: us) =
      blocksOfTrees ts ++ (t.block?.toList ++ blocksOfTrees us) :=
  blocksFrom_append_cons h [] ts us

theorem blocksOfTrees_append_of_last (h : ∀ t ∈ ts.getLast?, t.isLoose = false)
    (us : List Tree) : blocksOfTrees (ts ++ us) = blocksOfTrees ts ++ blocksOfTrees us := by
  obtain rfl | ⟨init, t, rfl⟩ := ts.eq_nil_or_concat'
  · rfl
  · have ht : t.isLoose = false := h t (by simp)
    rw [List.append_assoc, List.singleton_append, blocksOfTrees_append_cons ht,
      blocksOfTrees_append_cons ht]
    simp [blocksOfTrees, blocksFrom, looseBlocks]

theorem blocksFrom_append_of_isLoose (h : ∀ t ∈ ts, t.isLoose = true) (spans : List Span)
    (us : List Tree) : blocksFrom spans (ts ++ us) = blocksFrom (addTrees ts spans) us := by
  induction ts generalizing spans with
  | nil => rfl
  | cons t ts ih =>
    obtain ⟨ht, hts⟩ := List.forall_mem_cons.1 h
    rw [List.cons_append, blocksFrom, if_pos ht]
    exact ih hts (t.addTo spans)

/-- Loose text that goes on is one paragraph, not two, unless one part of it is empty. -/
theorem looseBlocks_addTrees_iff (ts us : List Tree) :
    looseBlocks (addTrees us (addTrees ts [])).reverse =
        looseBlocks (spansOfTrees ts) ++ looseBlocks (spansOfTrees us) ↔
      spansOfTrees ts = [] ∨ spansOfTrees us = [] := by
  by_cases hts : addTrees ts [] = []
  · simp [spansOfTrees, hts, looseBlocks]
  by_cases hus : addTrees us [] = []
  · simp [spansOfTrees, hus, addTrees_of_addTrees_nil hus, looseBlocks]
  · have hboth := addTrees_ne_nil us hts
    simp [spansOfTrees, hts, hus, hboth, looseBlocks]

/-- The loose text at the end of some trees. -/
theorem exists_loose_end (ts : List Tree) : ∃ body line, ts = body ++ line ∧
    line = ts.rtakeWhile Tree.isLoose ∧ (∀ t ∈ body.getLast?, t.isLoose = false) ∧
    ∀ t ∈ line, t.isLoose = true := by
  refine ⟨ts.rdropWhile Tree.isLoose, _, List.rdropWhile_append_rtakeWhile.symm, rfl, ?_,
    fun t => List.mem_rtakeWhile_imp⟩
  intro t ht
  obtain ⟨hne, rfl⟩ := List.mem_getLast?_eq_getLast ht
  simpa using List.rdropWhile_last_not Tree.isLoose ts hne

theorem forestEvents_append (ts us : List Tree) :
    Tree.forestEvents (ts ++ us) = Tree.forestEvents ts ++ Tree.forestEvents us := by
  induction ts with
  | nil => rfl
  | cons t ts ih => simp [ih]

/-- Sequences of blocks are translated one by one, unless one ends and the other begins with loose
text, which makes one paragraph. -/
theorem blocksOfTrees_append_iff (ts us : List Tree) :
    blocksOfTrees (ts ++ us) = blocksOfTrees ts ++ blocksOfTrees us ↔
      spansOfTrees (ts.rtakeWhile Tree.isLoose) = [] ∨
        spansOfTrees (us.takeWhile Tree.isLoose) = [] := by
  -- the first sequence is some blocks and then a line, the second one a line and then some blocks
  obtain ⟨body, line, rfl, hline, hlast, hloose⟩ := exists_loose_end ts
  rw [← hline, List.append_assoc, blocksOfTrees_append_of_last hlast,
    blocksOfTrees_append_of_last hlast, List.append_assoc, List.append_cancel_left_eq]
  have hthis : blocksOfTrees line = looseBlocks (spansOfTrees line) := by
    have hend := blocksFrom_append_of_isLoose hloose [] []
    rwa [List.append_nil, blocksFrom] at hend
  have hnext : blocksOfTrees us = looseBlocks (spansOfTrees (us.takeWhile Tree.isLoose)) ++
      blocksFrom [] (us.dropWhile Tree.isLoose) := blocksFrom_eq [] us
  have hboth : blocksOfTrees (line ++ us) =
      looseBlocks (addTrees (us.takeWhile Tree.isLoose) (addTrees line [])).reverse ++
        blocksFrom [] (us.dropWhile Tree.isLoose) :=
    (blocksFrom_append_of_isLoose hloose [] us).trans (blocksFrom_eq _ us)
  rw [hthis, hnext, hboth, ← List.append_assoc, List.append_cancel_right_eq]
  exact looseBlocks_addTrees_iff line (us.takeWhile Tree.isLoose)

/-- Reading the events of a forest is translating its trees. Reading them uses up just these events,
whatever follows the end of the container; what stands before and after a block is read by itself;
lists and tables are made of what their own parts hold; a tree stands in a line as it would alone,
unless it is text after text; and two forests are read one by one, unless the seam cuts a line. -/
theorem readBlocks_translates_forest {ts : List Tree} (hts : ∀ t ∈ ts, t.IsMarkdown) :
    (∀ fuel, 2 * (Tree.forestEvents ts).length < fuel →
      readBlocks fuel (Tree.forestEvents ts) = (blocksOfTrees ts, []) ∧
      ∀ es, readBlocks fuel (Tree.forestEvents ts ++ .leave :: es) = (blocksOfTrees ts, es)) ∧
    blocksOfEvents (Tree.forestEvents ts) = blocksOfTrees ts ∧
    (∀ before t after, ts = before ++ t :: after → t.isLoose = false →
      blocksOfTrees ts = blocksOfTrees before ++ (t.block?.toList ++ blocksOfTrees after)) ∧
    (∀ t ∈ ts,
      (∀ start, t.tag? = some (.list start) → t.block? =
        some (.list (listKind start) (t.children.map fun item => blocksOfTrees item.children))) ∧
      ∀ alignments, t.tag? = some (.table alignments) → ∃ head rows, t.children = head :: rows ∧
        t.block? = some (.table alignments (cellsOfTree head) (rows.map cellsOfTree))) ∧
    (∀ line t,
      (t.text? = none → spansOfTrees (line ++ [t]) = spansOfTrees line ++ spansOfTrees [t]) ∧
      ∀ s, t.text? = some s →
        spansOfTrees (line ++ [t]) = (addText s (spansOfTrees line).reverse).reverse) ∧
    ∀ us, (∀ u ∈ us, u.IsMarkdown) →
      (blocksOfEvents (Tree.forestEvents ts ++ Tree.forestEvents us) =
          blocksOfEvents (Tree.forestEvents ts) ++ blocksOfEvents (Tree.forestEvents us) ↔
        spansOfTrees (ts.rtakeWhile Tree.isLoose) = [] ∨
          spansOfTrees (us.takeWhile Tree.isLoose) = []) := by
  have hread : ∀ t ∈ ts, t.IsRead := fun t ht => (hts t ht).isRead_and_children.1
  refine ⟨fun fuel hfuel => ⟨?_, fun es => ?_⟩, blocksOfEvents_forestEvents hts, ?_, ?_, ?_, ?_⟩
  · have hall := readBlocks_forestEvents hread (.inl rfl) hfuel
    rwa [List.append_nil] at hall
  · exact readBlocks_forestEvents hread (.inr ⟨es, rfl⟩) hfuel
  · rintro before t after rfl hloose
    exact blocksOfTrees_append_cons hloose before after
  · intro t ht
    exact ⟨fun start => (hts t ht).block?_list, fun alignments => (hts t ht).block?_table⟩
  · intro line t
    exact ⟨fun h => spansOfTrees_concat h line, fun s h => spansOfTrees_concat_text h line⟩
  · intro us hus
    have hboth : ∀ t ∈ ts ++ us, t.IsMarkdown := List.forall_mem_append.2 ⟨hts, hus⟩
    rw [← forestEvents_append, blocksOfEvents_forestEvents hboth, blocksOfEvents_forestEvents hts,
      blocksOfEvents_forestEvents hus]
    exact blocksOfTrees_append_iff ts us

/-- A list that held a paragraph would be closed by it, and the text by the list. -/
example : blocksOfEvents (Tree.forestEvents
    [.node (.list none) [.node .paragraph []], .node .paragraph [.leaf (.text "lost")]]) =
      [.list .bulleted []] := by
  rfl

/-- A list with loose text and a paragraph, a footnote, which is skipped, and a paragraph. -/
def notedList : List Tree :=
  [.node (.list none) [.node .item [.leaf (.text "a"), .node .paragraph [.leaf (.text "b")]]],
    .node (.footnote "n") [.node .quote [.leaf .rule]],
    .node .paragraph [.leaf (.text "c"), .leaf .softBreak]]

theorem isMarkdown_notedList : ∀ t ∈ notedList, t.IsMarkdown := by
  have hline (s : String) : ∀ t ∈ [Tree.leaf (.text s)], t.IsMarkdown :=
    List.forall_mem_singleton.2 (.leaf _)
  have hitem : ∀ t ∈ [Tree.leaf (.text "a"), .node .paragraph [.leaf (.text "b")]],
      t.IsMarkdown :=
    List.forall_mem_cons.2 ⟨.leaf _, List.forall_mem_singleton.2 (.node trivial (hline "b"))⟩
  have hend : ∀ t ∈ [Tree.leaf (.text "c"), .leaf .softBreak], t.IsMarkdown :=
    List.forall_mem_cons.2 ⟨.leaf _, List.forall_mem_singleton.2 (.leaf _)⟩
  refine List.forall_mem_cons.2 ⟨.node ?_ ?_, List.forall_mem_cons.2 ⟨.node trivial ?_, ?_⟩⟩
  · exact List.forall_mem_singleton.2 rfl
  · exact List.forall_mem_singleton.2 (.node trivial hitem)
  · exact List.forall_mem_singleton.2 (.node trivial (List.forall_mem_singleton.2 (.leaf _)))
  · exact List.forall_mem_singleton.2 (.node trivial hend)

theorem readBlocks_translates_notedList :
    (∀ t ∈ notedList, t.IsMarkdown) ∧
      blocksOfEvents (Tree.forestEvents notedList) =
        [.list .bulleted [[.paragraph [.text "a"], .paragraph [.text "b"]]],
          .paragraph [.text "c\n"]] :=
  ⟨isMarkdown_notedList, (readBlocks_translates_forest isMarkdown_notedList).2.1.trans (by rfl)⟩

end

end LiterateJournal.Markdown
