import LiterateJournal.Proofs.Markdown.Conversion
import LiterateJournal.Proofs.Markdown.References

/-!
# Where the trees of a text stand

Reading a text opens an item only on a list, and adds nothing but items to a list. The trees of a
text therefore stand where the readers of its events look for them.

## Main definitions

* `Node.Placed` — a block of the outline stands where it may, and so do the blocks inside it.
* `Progress.Sound` — so do all blocks that have been read, and all open ones.

## Main statements

* `Progress.Sound.readBlock`, `Progress.Sound.readBlocks` — what one block and a whole text keep.
* `Outline.isBlock_of_mem_forest` — the trees of a text may stand among blocks.
* `blocksOfEvents_ofText` — the blocks of a text are those that its trees stand for.
-/

namespace LiterateJournal.Markdown

/-! ### Lines of text -/

section

variable (refs : References)

theorem keptByLinks_isInline (definitions : List Definition) :
    KeptByLinks definitions Tree.IsInline where
  leaf := .leaf
  node htag hts := .node (by obtain rfl | rfl | rfl := htag <;> rfl) hts
  link _ hts := .node rfl hts
  image _ hts := .node rfl hts

theorem isInline_treesOfTokens (ts : List Token) : ∀ t ∈ treesOfTokens refs ts, t.IsInline :=
  forall_treesOfTokens (keptByLinks_isInline _) ts

theorem isInline_inlineTrees (content : List Char) : ∀ t ∈ inlineTrees refs content, t.IsInline :=
  isInline_treesOfTokens refs _

end

/-! ### Blocks of the outline -/

/-- A block of the outline stands where it may, in a list or elsewhere, and so do the blocks inside
it: lists hold items, and items stand in lists only. -/
inductive Node.Placed : Bool → Node → Prop where
  | paragraph (tight : Bool) (task : Option Bool) (content : List Char) :
    Placed false (.paragraph tight task content)
  | heading (level : Nat) (signs : Bool) (content : List Char) :
    Placed false (.heading level signs content)
  | rule : Placed false .rule
  | code (info : Option (List Char)) (source : List Char) : Placed false (.code info source)
  | html (markup : List Char) : Placed false (.html markup)
  | quote {children : List Node} (h : ∀ n ∈ children, Placed false n) :
    Placed false (.quote children)
  | list (start : Option Nat) {items : List Node} (h : ∀ n ∈ items, Placed true n) :
    Placed false (.list start items)
  | item {children : List Node} (h : ∀ n ∈ children, Placed false n) : Placed true (.item children)
  | taskMark (ticked : Bool) : Placed false (.taskMark ticked)
  | table (alignments : List Alignment) (rows : List (List (List Char))) :
    Placed false (.table alignments rows)
  | footnote (label : List Char) {children : List Node} (h : ∀ n ∈ children, Placed false n) :
    Placed false (.footnote label children)

theorem mem_nodeTrees {refs : References} {ns : List Node} {t : Tree} :
    t ∈ nodeTrees refs ns ↔ ∃ n ∈ ns, t ∈ n.trees refs := by
  induction ns with
  | nil => simp [nodeTrees]
  | cons n ns ih => simp [nodeTrees, ih]

theorem isBlock_nodeTrees {refs : References} {ns : List Node}
    (h : ∀ n ∈ ns, ∀ t ∈ n.trees refs, t.IsBlock) : ∀ t ∈ nodeTrees refs ns, t.IsBlock := by
  intro t ht
  obtain ⟨n, hn, ht⟩ := mem_nodeTrees.1 ht
  exact h n hn t ht

/-- Items one by one make up the trees of a list. -/
theorem exists_nodeTrees_eq_map {refs : References} {items : List Node}
    (h : ∀ n ∈ items, ∃ ts, n.trees refs = [.node .item ts] ∧ ∀ t ∈ ts, t.IsBlock) :
    ∃ contents : List (List Tree), nodeTrees refs items = contents.map (.node .item) ∧
      ∀ content ∈ contents, ∀ t ∈ content, t.IsBlock := by
  induction items with
  | nil => exact ⟨[], rfl, by simp⟩
  | cons n items ih =>
    obtain ⟨⟨ts, htrees, hts⟩, hitems⟩ := List.forall_mem_cons.1 h
    obtain ⟨contents, hcontents, hblocks⟩ := ih hitems
    refine ⟨ts :: contents, ?_, List.forall_mem_cons.2 ⟨hts, hblocks⟩⟩
    rw [nodeTrees, htrees, hcontents]
    rfl

theorem rowTree_map (refs : References) (tag : Tag) (row : List (List Char)) :
    rowTree tag (row.map (inlineTrees { refs with inTable := true })) =
      .node tag (row.map (cellTree refs)) := by
  rw [rowTree, List.map_map]
  rfl

/-- The trees of a block may stand among blocks; an item is one tree, whose parts may. -/
theorem Node.Placed.trees {inList : Bool} {n : Node} (h : n.Placed inList) (refs : References) :
    match inList with
    | true => ∃ ts, n.trees refs = [.node .item ts] ∧ ∀ t ∈ ts, t.IsBlock
    | false => ∀ t ∈ n.trees refs, t.IsBlock := by
  induction h with
  | paragraph tight task content =>
    have hline : ∀ t ∈ (task.toList.map fun ticked => Tree.leaf (.taskMark ticked)) ++
        inlineTrees refs content, t.IsInline := by
      refine List.forall_mem_append.2 ⟨?_, isInline_inlineTrees refs content⟩
      exact List.forall_mem_map.2 fun _ _ => .leaf _
    simp only [Node.trees]
    split
    · exact fun t ht => .loose (hline t ht)
    · exact List.forall_mem_singleton.2 (.paragraph hline)
  | heading level signs content =>
    exact List.forall_mem_singleton.2 (.heading _ (isInline_treesOfTokens refs _))
  | rule | taskMark ticked => exact List.forall_mem_singleton.2 (.loose (.leaf _))
  | code info source => exact List.forall_mem_singleton.2 (.code _ [String.ofList source])
  | html markup => exact List.forall_mem_singleton.2 (.html [String.ofList markup])
  | quote h ih => exact List.forall_mem_singleton.2 (.quote (isBlock_nodeTrees ih))
  | list start h ih =>
    obtain ⟨contents, hcontents, hblocks⟩ := exists_nodeTrees_eq_map ih
    refine List.forall_mem_singleton.2 ?_
    rw [hcontents]
    exact .list _ hblocks
  | item h ih => exact ⟨_, rfl, isBlock_nodeTrees ih⟩
  | table alignments rows =>
    have hrow (row : List (List Char)) :
        ∀ cell ∈ row.map (inlineTrees { refs with inTable := true }), ∀ t ∈ cell, t.IsInline :=
      List.forall_mem_map.2 fun content _ => isInline_inlineTrees _ content
    have htable := Tree.IsBlock.table alignments (hrow (rows.head?.getD []))
      (List.forall_mem_map.2 fun row (_ : row ∈ rows.tail) => hrow row)
    rw [rowTree_map, List.map_map,
      show rowTree .tableRow ∘ List.map (inlineTrees _) = _ from
        funext (rowTree_map refs .tableRow)] at htable
    exact List.forall_mem_singleton.2 htable
  | footnote label h ih => exact List.forall_mem_singleton.2 (.footnote _ (isBlock_nodeTrees ih))

theorem Node.Placed.tighten {inList : Bool} {n : Node} (h : n.Placed inList) :
    n.tighten.Placed inList := by
  cases h with
  | item h =>
    refine .item (List.forall_mem_map.2 fun n hn => ?_)
    cases h n hn <;> constructor <;> assumption
  | list start h => exact .list start h
  | _ => constructor <;> assumption

/-! ### Open blocks -/

def Frame.isList (f : Frame) : Bool :=
  match f.container with
  | .list .. => true
  | _ => false

def Frame.isItem (f : Frame) : Bool :=
  match f.container with
  | .item _ => true
  | _ => false

def inList : List Frame → Bool
  | [] => false
  | f :: _ => f.isList

/-- The open blocks stand where they may, and so do their finished children. -/
inductive Nested : List Frame → Prop where
  | nil : Nested []
  | cons {f : Frame} {outer : List Frame} (hplace : f.isItem = inList outer)
    (hchildren : ∀ n ∈ f.children, n.Placed f.isList) (houter : Nested outer) : Nested (f :: outer)

/-- A finished block stands where the open block may. -/
theorem placed_close {f : Frame} (h : ∀ n ∈ f.children, n.Placed f.isList) :
    f.close.Placed f.isItem := by
  have hreverse : ∀ n ∈ f.children.reverse, n.Placed f.isList :=
    fun n hn => h n (List.mem_reverse.1 hn)
  obtain ⟨container, children⟩ := f
  cases container with
  | quote => exact .quote hreverse
  | item indent => exact .item hreverse
  | footnote label => exact .footnote label hreverse
  | list tight mark =>
    refine .list _ fun n hn => ?_
    split at hn
    · obtain ⟨m, hm, rfl⟩ := List.mem_map.1 hn
      exact (hreverse m hm).tighten
    · exact hreverse n hn

namespace Progress

/-- All blocks that have been read stand where they may, and so do the open ones. -/
structure Sound (p : Progress) : Prop where
  spine : Nested p.spine
  done : ∀ n ∈ p.done, n.Placed false

namespace Sound

variable {p : Progress}

theorem congr {q : Progress} (h : p.Sound) (hspine : q.spine = p.spine) (hdone : q.done = p.done) :
    q.Sound :=
  ⟨hspine ▸ h.spine, hdone ▸ h.done⟩

theorem add (h : p.Sound) {n : Node} (hn : n.Placed (inList p.spine)) : (p.add n).Sound := by
  unfold Progress.add
  split
  · rename_i hspine
    rw [hspine] at hn
    exact ⟨h.spine, List.forall_mem_cons.2 ⟨hn, h.done⟩⟩
  · rename_i f outer hspine
    obtain ⟨hspine', hdone⟩ := h
    rw [hspine] at hspine' hn
    cases hspine' with
    | cons hplace hchildren houter =>
      exact ⟨.cons hplace (List.forall_mem_cons.2 ⟨hn, hchildren⟩) houter, hdone⟩

theorem push (h : p.Sound) {k : Container} (hk : Frame.isItem ⟨k, []⟩ = inList p.spine) :
    (p.push k).Sound :=
  ⟨.cons hk (List.forall_mem_nil _) h.spine, h.done⟩

theorem pop (h : p.Sound) : p.pop.Sound := by
  unfold Progress.pop
  split
  · exact h
  · rename_i f outer hspine
    obtain ⟨hspine', hdone⟩ := h
    rw [hspine] at hspine'
    cases hspine' with
    | cons hplace hchildren houter =>
      have houter' : Sound { p with spine := outer } := ⟨houter, hdone⟩
      have hclosed := houter'.add (hplace ▸ placed_close hchildren)
      dsimp only
      split
      · exact ⟨hclosed.spine, hclosed.done⟩
      · exact hclosed

theorem popMany (h : p.Sound) (n : Nat) : (p.popMany n).Sound := by
  induction n generalizing p with
  | zero => exact h
  | succ n ih => exact ih h.pop

theorem closeEmptyItem (h : p.Sound) : p.closeEmptyItem.Sound := by
  unfold Progress.closeEmptyItem
  split
  · split
    · exact ⟨h.pop.spine, h.pop.done⟩
    · exact ⟨h.spine, h.done⟩
  · exact ⟨h.spine, h.done⟩

/-- What may be added next does not depend on the blocks that have been added. -/
theorem inList_add (n : Node) : inList (p.add n).spine = inList p.spine := by
  unfold Progress.add
  split
  · rfl
  · rename_i hspine
    rw [hspine]
    rfl

/-- An open block that is closed and is no item stands in no list. -/
theorem inList_pop (h : p.Sound) {f : Frame} {outer : List Frame} (hspine : p.spine = f :: outer)
    (hf : f.isItem = false) : inList p.pop.spine = false := by
  have houter : inList outer = false := by
    have hnested := hspine ▸ h.spine
    cases hnested with
    | cons hplace => exact hplace ▸ hf
  have hclosed : inList (Progress.add { p with spine := outer } f.close).spine = false :=
    (inList_add _).trans houter
  rw [Progress.pop, hspine]
  dsimp only
  split <;> exact hclosed

theorem loosen (h : p.Sound) : p.loosen.Sound := by
  unfold Progress.loosen
  split
  · rename_i item tight mark items outer heq
    obtain ⟨hspine, hdone⟩ := h
    rw [heq] at hspine
    cases hspine with
    | cons hplace hchildren houter =>
      cases houter with
      | cons hplace' hchildren' houter' =>
        exact ⟨.cons hplace hchildren (.cons hplace' hchildren' houter'), hdone⟩
  · exact h

theorem inList_loosen : inList p.loosen.spine = inList p.spine := by
  unfold Progress.loosen
  split
  · rename_i heq
    rw [heq]
    rfl
  · rfl

/-- After a list has been closed there is room for any block but an item. -/
theorem closeList (h : p.Sound) : p.closeList.Sound ∧ inList p.closeList.spine = false := by
  unfold Progress.closeList
  extract_lets q closed
  have hq : q.Sound := h.closeEmptyItem
  have hclosed : closed.Sound ∧ inList closed.spine = false := by
    dsimp only [closed]
    split
    · rename_i heq
      exact ⟨hq.pop, hq.inList_pop heq rfl⟩
    · rename_i hnone
      refine ⟨hq, ?_⟩
      cases hspine : q.spine with
      | nil => rfl
      | cons f outer =>
        obtain ⟨container, children⟩ := f
        cases container with
        | list tight mark => exact absurd hspine (hnone _ _ _ _)
        | _ => rfl
  obtain ⟨hsound, hroom⟩ := hclosed
  split
  · exact ⟨⟨hsound.loosen.spine, hsound.loosen.done⟩, inList_loosen.trans hroom⟩
  · exact ⟨hsound, hroom⟩

/-- After a list has been entered there is room for an item. -/
theorem enterList (h : p.Sound) (mark : ListMark) :
    (p.enterList mark).Sound ∧ inList (p.enterList mark).spine = true := by
  have hempty := h.closeEmptyItem
  have hfresh : ∀ q : Progress, q.Sound →
      Sound { (q.closeList.push (.list true mark)) with blankBefore := false } := by
    intro q hq
    have hpushed := hq.closeList.1.push (k := .list true mark) hq.closeList.2.symm
    exact ⟨hpushed.spine, hpushed.done⟩
  unfold Progress.enterList
  dsimp only
  split
  · rename_i heq
    split
    · have hspine := hempty.spine
      rw [heq] at hspine
      split
      · cases hspine with
        | cons hplace hchildren houter =>
          exact ⟨⟨.cons hplace hchildren houter, hempty.done⟩, rfl⟩
      · exact ⟨⟨hspine, hempty.done⟩, rfl⟩
    · exact ⟨hfresh _ hempty, rfl⟩
  · exact ⟨hfresh _ hempty, rfl⟩

theorem blankLine (h : p.Sound) : p.blankLine.Sound := by
  unfold Progress.blankLine
  split
  · exact h
  · rename_i heq
    obtain ⟨hspine, hdone⟩ := h
    rw [heq] at hspine
    cases hspine with
    | cons hplace hchildren houter => exact ⟨.cons hplace hchildren houter, hdone⟩
  · exact ⟨h.spine, h.done⟩

theorem define (h : p.Sound) (d : Definition) : (p.define d).Sound := by
  unfold Progress.define
  split
  · exact h
  · exact h.congr rfl rfl

theorem paragraph (h : p.Sound) (hroom : inList p.spine = false) (cs : List Char) :
    (p.paragraph cs).1.Sound := by
  have hadd {n : Node} (hn : n.Placed false) : (p.add n).Sound := h.add (hroom.symm ▸ hn)
  unfold Progress.paragraph
  dsimp only
  split
  · exact (hadd (.heading _ _ _)).congr rfl rfl
  · exact (hadd (.paragraph _ _ _)).congr rfl rfl

/-! ### Reading on -/

theorem openBlocks (h : p.Sound) (fuel : Nat) (c : Cursor) : (openBlocks fuel p c).1.Sound := by
  fun_induction Progress.openBlocks fuel p c with
  | case1 => exact h
  | case2 fuel p c label rest hnote closed outside noted ih =>
    obtain ⟨hclosed, hroom⟩ := h.closeList
    have houtside : outside.Sound ∧ inList outside.spine = false := by
      dsimp only [outside]
      split
      · rename_i heq
        exact ⟨hclosed.pop, hclosed.inList_pop heq rfl⟩
      · exact ⟨hclosed, hroom⟩
    have hnoted : noted.Sound := houtside.1.congr rfl rfl
    exact ih (hnoted.push houtside.2.symm)
  | case3 _ p _ _ mark indent _ _ item =>
    have hitem : item.Sound := (h.enterList mark).1.push (h.enterList mark).2.symm
    exact hitem.congr rfl rfl
  | case4 _ p _ _ mark indent _ _ item _ ticked =>
    have hitem : item.Sound := (h.enterList mark).1.push (h.enterList mark).2.symm
    exact (hitem.add (.taskMark ticked)).congr rfl rfl
  | case5 _ p _ _ mark indent _ _ item _ _ _ _ _ ih =>
    have hitem : item.Sound := (h.enterList mark).1.push (h.enterList mark).2.symm
    exact ih (hitem.congr rfl rfl)
  | case6 _ p _ _ mark indent _ _ item _ _ ih =>
    exact ih ((h.enterList mark).1.push (h.enterList mark).2.symm)
  | case7 _ p _ _ _ _ _ ih => exact ih (h.closeList.1.push h.closeList.2.symm)
  | case8 => exact h

/-- A block without children may be added anywhere but to a list. -/
theorem leaf (h : p.Sound) (hroom : inList p.spine = false) (indent : Nat) (cs : List Char) :
    (p.leaf indent cs).1.Sound := by
  have hadd {n : Node} (hn : n.Placed false) : (p.add n).Sound := h.add (hroom ▸ hn)
  unfold Progress.leaf
  extract_lets paragraphOr
  have hor (next? : Option (Progress × List Char)) (hnext : ∀ next ∈ next?, next.1.Sound) :
      (paragraphOr next?).1.Sound := by
    cases next? with
    | some next => exact hnext next rfl
    | none =>
      simp only [paragraphOr, Option.getD_none]
      split
      · exact hadd .rule
      split
      · exact hadd (.heading _ _ _)
      split
      · exact hadd (.code _ _)
      split
      · exact h.define _
      · split
        · exact (hadd (.table _ _)).congr rfl rfl
        · exact h.paragraph hroom cs
  refine hor _ fun next hnext => ?_
  split at hnext
  · split at hnext
    · obtain rfl := Option.mem_some_iff.1 hnext
      exact hadd (.html _)
    · split at hnext
      · obtain rfl := Option.mem_some_iff.1 hnext
        exact hadd (.html _)
      · cases hnext
  · cases hnext

/-- What reading one block keeps. -/
theorem readBlock (h : p.Sound) (cs : List Char) : (p.readBlock cs).1.Sound := by
  unfold Progress.readBlock
  dsimp only
  have hopen (n fuel : Nat) (c : Cursor) := (h.popMany n).openBlocks fuel c
  split
  · exact hopen _ _ _
  · split
    · exact (hopen _ _ _).blankLine
    · obtain ⟨hclosed, hroom⟩ := (hopen _ _ _).closeList
      split
      · exact (hclosed.add (hroom ▸ .code _ _)).congr rfl rfl
      · exact hclosed.leaf hroom _ _

/-- What reading a whole text keeps. -/
theorem readBlocks (h : p.Sound) (fuel : Nat) (cs : List Char) : (readBlocks fuel p cs).Sound := by
  induction fuel generalizing p cs with
  | zero => exact h
  | succ fuel ih =>
    cases cs with
    | nil => exact h
    | cons c cs => exact ih (h.readBlock (c :: cs)) _

end Sound

theorem sound_start : start.Sound := ⟨.nil, List.forall_mem_nil _⟩

end Progress

/-- The blocks of a text stand where they may. -/
theorem Outline.placed_ofText (cs : List Char) :
    ∀ n ∈ (Outline.ofText cs).nodes, n.Placed false := by
  have hread := (Progress.sound_start.readBlocks (cs.length + 1) cs).popMany
  intro n hn
  exact (hread _).done n (List.mem_reverse.1 hn)

/-- The trees of a text may stand among blocks. -/
theorem Outline.isBlock_of_mem_forest {cs : List Char} {t : Tree}
    (h : t ∈ (Outline.ofText cs).forest) : t.IsBlock :=
  isBlock_nodeTrees (fun n hn => (Outline.placed_ofText cs n hn).trees _) t h

/-- The blocks of a text are those that its trees stand for. -/
theorem blocksOfEvents_ofText (cs : List Char) :
    blocksOfEvents (Outline.ofText cs).events = blocksOfTrees (Outline.ofText cs).forest :=
  blocksOfEvents_forestEvents fun _ ht => (Outline.isBlock_of_mem_forest ht).isMarkdown

end LiterateJournal.Markdown
