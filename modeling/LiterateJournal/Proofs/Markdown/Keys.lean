import LiterateJournal.Document.Spans
import LiterateJournal.Markdown.Reader
import Mathlib.Data.List.Basic

/-!
# The keys of references

The readers of blocks and spans only go forward in the events of a text. The links and images by
label that they give are the ones that stand there.

## Main definitions

* `Span.key?` — the label of a link or image by label.
* `Refers`, `Mentioned` — some events hold a link or image by a label.

## Main statements

* `mentioned_of_mem_blocksOfEvents` — every label in the blocks of some events stands in the events.
-/

namespace LiterateJournal

def Span.key? : Span → Option String
  | .linkReference _ _ key | .imageReference _ _ key => some key
  | _ => none

section

variable {s : Span}

theorem mem_innerSpans {spans : List Span} :
    s ∈ innerSpans spans ↔ ∃ t ∈ spans, s ∈ t.withInner := by
  induction spans with
  | nil => simp [innerSpans]
  | cons t spans ih => simp [innerSpans, ih]

theorem mem_spansOf {blocks : List Block} : s ∈ spansOf blocks ↔ ∃ b ∈ blocks, s ∈ b.spans := by
  induction blocks with
  | nil => simp [spansOf]
  | cons b blocks ih => simp [spansOf, ih]

theorem mem_spansInCells {cells : List Cell} :
    s ∈ spansInCells cells ↔ ∃ c ∈ cells, s ∈ spansOf c := by
  induction cells with
  | nil => simp [spansInCells]
  | cons c cells ih => simp [spansInCells, ih]

theorem mem_spansInRows {rows : List (List Cell)} :
    s ∈ spansInRows rows ↔ ∃ r ∈ rows, s ∈ spansInCells r := by
  induction rows with
  | nil => simp [spansInRows]
  | cons r rows ih => simp [spansInRows, ih]

end

namespace Markdown

/-- A link or an image by a label stands in some events, with this destination and title. -/
def Refers (es : List Event) (form : LinkForm) (destination title key : String) : Prop :=
  form.isReference = true ∧
    (Event.enter (.link form destination title key) ∈ es ∨
      Event.enter (.image form destination title key) ∈ es)

def Mentioned (es : List Event) (key : String) : Prop :=
  ∃ form destination title, Refers es form destination title key

def SpanFrom (es : List Event) (s : Span) : Prop :=
  ∀ inner ∈ s.withInner, ∀ key, inner.key? = some key → Mentioned es key

def BlockFrom (es : List Event) (b : Block) : Prop :=
  ∀ s ∈ b.spans, ∀ key, s.key? = some key → Mentioned es key

/-- The labels in a list item or a cell stand in some events. -/
def CellFrom (es : List Event) (c : Cell) : Prop := ∀ b ∈ c, BlockFrom es b

/-- What a reader gives has a property, and the events that it leaves are some of `all`. -/
structure Gives {α : Type} (P : α → Prop) (all : List Event) (out : List α × List Event) :
    Prop where
  given : ∀ a ∈ out.1, P a
  rest : out.2 ⊆ all

section

variable {all es : List Event} {spans body : List Span}

/-! ### Spans -/

theorem spanFrom_of_key?_eq_none {s : Span} (hinner : s.withInner = [s]) (hkey : s.key? = none) :
    SpanFrom all s := by
  intro inner hmem key h
  rw [hinner, List.mem_singleton] at hmem
  rw [hmem, hkey] at h
  cases h

theorem forall_addText (text : String) (h : ∀ s ∈ spans, SpanFrom all s) :
    ∀ s ∈ addText text spans, SpanFrom all s := by
  unfold addText
  split
  · obtain ⟨-, hrest⟩ := List.forall_mem_cons.1 h
    exact List.forall_mem_cons.2 ⟨spanFrom_of_key?_eq_none rfl rfl, hrest⟩
  · exact List.forall_mem_cons.2 ⟨spanFrom_of_key?_eq_none rfl rfl, h⟩

theorem forall_addLeaf (l : Leaf) (h : ∀ s ∈ spans, SpanFrom all s) :
    ∀ s ∈ addLeaf spans l, SpanFrom all s := by
  cases l with
  | text s => exact forall_addText _ h
  | softBreak => exact forall_addText _ h
  | footnoteReference label => exact forall_addText _ h
  | taskMark ticked => exact forall_addText _ h
  | rule => exact h
  | _ => exact List.forall_mem_cons.2 ⟨spanFrom_of_key?_eq_none rfl rfl, h⟩

theorem forall_addContainer {tag : Tag} (htag : Event.enter tag ∈ all)
    (hbody : ∀ s ∈ body, SpanFrom all s) (h : ∀ s ∈ spans, SpanFrom all s) :
    ∀ s ∈ addContainer tag body spans, SpanFrom all s := by
  have hinner : ∀ s ∈ innerSpans body, ∀ key, s.key? = some key → Mentioned all key := by
    intro s hs
    obtain ⟨t, ht, hs⟩ := mem_innerSpans.1 hs
    exact hbody t ht s hs
  have hwrapped {s : Span} (hwith : s.withInner = innerSpans body ++ [s])
      (hkey : ∀ key, s.key? = some key → Mentioned all key) :
      ∀ s' ∈ s :: spans, SpanFrom all s' := by
    refine List.forall_mem_cons.2 ⟨fun inner hmem => ?_, h⟩
    rw [hwith] at hmem
    obtain hmem | hmem := List.mem_append.1 hmem
    · exact hinner inner hmem
    · rw [List.mem_singleton.1 hmem]
      exact hkey
  unfold addContainer
  split
  · exact hwrapped rfl (by simp [Span.key?])
  · exact hwrapped rfl (by simp [Span.key?])
  · exact List.forall_mem_append.2 ⟨fun s hs => hbody s (List.mem_reverse.1 hs), h⟩
  · split
    · rename_i form destination title label hform
      refine hwrapped rfl fun key hkey => ?_
      cases hkey
      exact ⟨form, destination, title, hform, .inl htag⟩
    · exact hwrapped rfl (by simp [Span.key?])
  · rename_i form destination title label
    dsimp only
    split
    · rename_i hform
      refine List.forall_mem_cons.2 ⟨fun inner hmem key hkey => ?_, h⟩
      cases List.mem_singleton.1 hmem
      cases hkey
      exact ⟨form, destination, title, hform, .inr htag⟩
    · exact List.forall_mem_cons.2 ⟨spanFrom_of_key?_eq_none rfl rfl, h⟩
  · exact h

theorem skipContainer_subset (depth : Nat) (es : List Event) : skipContainer depth es ⊆ es := by
  fun_induction skipContainer depth es <;> grind

theorem readText_subset (es : List Event) : (readText es).2 ⊆ es := by
  fun_induction readText es <;> grind

mutual

theorem gives_readSpan (fuel : Nat) {spans : List Span} {e : Event} {es : List Event}
    (h : ∀ s ∈ spans, SpanFrom all s) (hsub : e :: es ⊆ all) :
    Gives (SpanFrom all) all (readSpan fuel spans e es) := by
  obtain ⟨he, hes⟩ := List.cons_subset.1 hsub
  cases e with
  | leaf l =>
    cases fuel <;> exact ⟨forall_addLeaf l h, hes⟩
  | leave => cases fuel <;> exact ⟨h, hes⟩
  | enter tag =>
    cases fuel with
    | zero => exact ⟨h, hes⟩
    | succ fuel =>
      simp only [readSpan]
      split
      · have hbody := gives_readSpans fuel (List.forall_mem_nil _) hes
        exact ⟨forall_addContainer he hbody.given h, hbody.rest⟩
      · exact ⟨h, List.Subset.trans (skipContainer_subset 0 es) hes⟩

theorem gives_readSpans (fuel : Nat) {spans : List Span} {es : List Event}
    (h : ∀ s ∈ spans, SpanFrom all s) (hsub : es ⊆ all) :
    Gives (SpanFrom all) all (readSpans fuel spans es) := by
  have hreverse : ∀ s ∈ spans.reverse, SpanFrom all s := fun s hs => h s (List.mem_reverse.1 hs)
  cases fuel with
  | zero => exact ⟨hreverse, hsub⟩
  | succ fuel =>
    cases es with
    | nil => exact ⟨hreverse, hsub⟩
    | cons e es =>
      have hspan := gives_readSpan fuel h hsub
      cases e with
      | leave => exact ⟨hreverse, (List.cons_subset.1 hsub).2⟩
      | _ => exact gives_readSpans fuel hspan.given hspan.rest

end

theorem gives_readLoose (fuel : Nat) (h : ∀ s ∈ spans, SpanFrom all s) (hsub : es ⊆ all) :
    Gives (SpanFrom all) all (readLoose fuel spans es) := by
  have hreverse {spans : List Span} (h : ∀ s ∈ spans, SpanFrom all s) :
      ∀ s ∈ spans.reverse, SpanFrom all s := fun s hs => h s (List.mem_reverse.1 hs)
  induction fuel generalizing spans es with
  | zero => exact ⟨hreverse h, hsub⟩
  | succ fuel ih =>
    cases es with
    | nil => exact ⟨hreverse h, hsub⟩
    | cons e es =>
      simp only [readLoose]
      split
      · have hspan := gives_readSpan fuel h hsub
        exact ih hspan.given hspan.rest
      · exact ⟨hreverse h, hsub⟩

/-! ### Blocks -/

theorem blockFrom_of_spans {b : Block} (hb : b.spans = innerSpans spans)
    (h : ∀ s ∈ spans, SpanFrom all s) : BlockFrom all b := by
  intro s hs
  rw [hb] at hs
  obtain ⟨t, ht, hs⟩ := mem_innerSpans.1 hs
  exact h t ht s hs

theorem blockFrom_of_spans_eq_nil {b : Block} (hb : b.spans = []) : BlockFrom all b := by
  intro s hs
  rw [hb] at hs
  cases hs

theorem blockFrom_of_mem_paragraph? (h : ∀ s ∈ spans, SpanFrom all s) :
    ∀ b ∈ paragraph? spans, BlockFrom all b := by
  unfold paragraph?
  split
  · simp
  · simpa using blockFrom_of_spans_eq_nil rfl
  · simpa using blockFrom_of_spans rfl h

theorem blockFrom_of_blocks {b : Block} {blocks : List Block} (hb : b.spans = spansOf blocks)
    (h : ∀ b ∈ blocks, BlockFrom all b) : BlockFrom all b := by
  intro s hs
  rw [hb] at hs
  obtain ⟨inner, hinner, hs⟩ := mem_spansOf.1 hs
  exact h inner hinner s hs

theorem mentioned_of_mem_spansInCells {cells : List Cell} (h : ∀ c ∈ cells, CellFrom all c)
    {s : Span} (hs : s ∈ spansInCells cells) {key : String} (hkey : s.key? = some key) :
    Mentioned all key := by
  obtain ⟨c, hc, hs⟩ := mem_spansInCells.1 hs
  obtain ⟨b, hb, hs⟩ := mem_spansOf.1 hs
  exact h c hc b hb s hs key hkey

theorem gives_readCells (fuel : Nat) (hsub : es ⊆ all) :
    Gives (CellFrom all) all (readCells fuel es) := by
  fun_induction readCells fuel es with
  | case1 => exact ⟨List.forall_mem_nil _, hsub⟩
  | case2 => exact ⟨List.forall_mem_nil _, hsub⟩
  | case3 => exact ⟨List.forall_mem_nil _, (List.cons_subset.1 hsub).2⟩
  | case4 fuel es spans rest hread cells rest' hcells ih =>
    have hspans := gives_readSpans fuel (List.forall_mem_nil _) (List.cons_subset.1 hsub).2
    rw [hread] at hspans
    have hrest := ih hspans.rest
    rw [hcells] at hrest
    refine ⟨List.forall_mem_cons.2 ⟨?_, hrest.given⟩, hrest.rest⟩
    split
    · exact List.forall_mem_nil _
    · exact List.forall_mem_singleton.2 (blockFrom_of_spans rfl hspans.given)
  | case5 fuel e es _ _ ih => exact ih (List.cons_subset.1 hsub).2

theorem gives_readRows (fuel : Nat) (hsub : es ⊆ all) :
    (∀ c ∈ (readRows fuel es).1.getD [], CellFrom all c) ∧
      Gives (∀ c ∈ ·, CellFrom all c) all (readRows fuel es).2 := by
  fun_induction readRows fuel es with
  | case1 => exact ⟨List.forall_mem_nil _, List.forall_mem_nil _, hsub⟩
  | case2 => exact ⟨List.forall_mem_nil _, List.forall_mem_nil _, hsub⟩
  | case3 =>
    exact ⟨List.forall_mem_nil _, List.forall_mem_nil _, (List.cons_subset.1 hsub).2⟩
  | case4 fuel es cells rest hread header rows rest' hrows ih =>
    have hcells := gives_readCells fuel (List.cons_subset.1 hsub).2
    rw [hread] at hcells
    obtain ⟨hheader, hrest⟩ := ih hcells.rest
    rw [hrows] at hheader hrest
    refine ⟨?_, hrest⟩
    cases header with
    | none => exact hcells.given
    | some header => exact hheader
  | case5 fuel es cells rest hread header rows rest' hrows ih =>
    have hcells := gives_readCells fuel (List.cons_subset.1 hsub).2
    rw [hread] at hcells
    obtain ⟨hheader, hrest⟩ := ih hcells.rest
    rw [hrows] at hheader hrest
    exact ⟨hheader, List.forall_mem_cons.2 ⟨hcells.given, hrest.given⟩, hrest.rest⟩
  | case6 fuel e es _ _ _ ih => exact ih (List.cons_subset.1 hsub).2

mutual

theorem gives_readBlocks (fuel : Nat) {es : List Event} (hsub : es ⊆ all) :
    Gives (BlockFrom all) all (readBlocks fuel es) := by
  unfold readBlocks
  split
  · exact ⟨List.forall_mem_nil _, hsub⟩
  · exact ⟨List.forall_mem_nil _, hsub⟩
  · exact ⟨List.forall_mem_nil _, (List.cons_subset.1 hsub).2⟩
  · rename_i fuel es
    have hblocks := gives_readBlocks fuel (List.cons_subset.1 hsub).2
    exact ⟨List.forall_mem_cons.2 ⟨blockFrom_of_spans_eq_nil rfl, hblocks.given⟩, hblocks.rest⟩
  · rename_i fuel e es _ _
    split
    · have hspans := gives_readLoose (fuel + 1) (List.forall_mem_nil _) hsub
      have hblocks := gives_readBlocks fuel hspans.rest
      refine ⟨?_, hblocks.rest⟩
      dsimp only
      split
      · exact hblocks.given
      · exact List.forall_mem_cons.2 ⟨blockFrom_of_spans rfl hspans.given, hblocks.given⟩
    · split
      · rename_i tag _ _ _
        obtain ⟨hblock, hrest⟩ := gives_readBlock fuel tag (List.cons_subset.1 hsub).2
        have hblocks := gives_readBlocks fuel hrest
        refine ⟨List.forall_mem_append.2 ⟨fun b hb => ?_, hblocks.given⟩, hblocks.rest⟩
        exact hblock b (Option.mem_toList.1 hb)
      · exact gives_readBlocks fuel (List.cons_subset.1 hsub).2

theorem gives_readBlock (fuel : Nat) (tag : Tag) {es : List Event} (hsub : es ⊆ all) :
    (∀ b ∈ (readBlock fuel tag es).1, BlockFrom all b) ∧ (readBlock fuel tag es).2 ⊆ all := by
  unfold readBlock
  split
  · exact ⟨by simp, hsub⟩
  · rename_i fuel
    have hspans := gives_readSpans fuel (List.forall_mem_nil _) hsub
    exact ⟨blockFrom_of_mem_paragraph? hspans.given, hspans.rest⟩
  · rename_i fuel level
    have hspans := gives_readSpans fuel (List.forall_mem_nil _) hsub
    exact ⟨by simpa using blockFrom_of_spans rfl hspans.given, hspans.rest⟩
  · rename_i fuel
    have hblocks := gives_readBlocks fuel hsub
    exact ⟨by simpa using blockFrom_of_blocks rfl hblocks.given, hblocks.rest⟩
  · exact ⟨by simpa using blockFrom_of_spans_eq_nil rfl, List.Subset.trans (readText_subset _) hsub⟩
  · exact ⟨by simpa using blockFrom_of_spans_eq_nil rfl, List.Subset.trans (readText_subset _) hsub⟩
  · rename_i fuel start
    have hitems := gives_readItems fuel hsub
    refine ⟨fun b hb s hs key hkey => ?_, hitems.rest⟩
    cases hb
    exact mentioned_of_mem_spansInCells hitems.given hs hkey
  · rename_i fuel alignments
    obtain ⟨hheader, hrows⟩ := gives_readRows fuel hsub
    refine ⟨fun b hb s hs key hkey => ?_, hrows.rest⟩
    cases hb
    obtain hs | hs := List.mem_append.1 hs
    · exact mentioned_of_mem_spansInCells hheader hs hkey
    · obtain ⟨row, hrow, hs⟩ := mem_spansInRows.1 hs
      exact mentioned_of_mem_spansInCells (hrows.given row hrow) hs hkey
  · exact ⟨by simp, List.Subset.trans (skipContainer_subset 0 _) hsub⟩

theorem gives_readItems (fuel : Nat) {es : List Event} (hsub : es ⊆ all) :
    Gives (CellFrom all) all (readItems fuel es) := by
  unfold readItems
  split
  · exact ⟨List.forall_mem_nil _, hsub⟩
  · exact ⟨List.forall_mem_nil _, hsub⟩
  · exact ⟨List.forall_mem_nil _, (List.cons_subset.1 hsub).2⟩
  · rename_i fuel es
    have hitem := gives_readBlocks fuel (List.cons_subset.1 hsub).2
    have hitems := gives_readItems fuel hitem.rest
    exact ⟨List.forall_mem_cons.2 ⟨hitem.given, hitems.given⟩, hitems.rest⟩
  · exact gives_readItems _ (List.cons_subset.1 hsub).2

end

/-- Every label in the blocks of some events stands in the events. -/
theorem mentioned_of_mem_blocksOfEvents {s : Span} (hs : s ∈ spansOf (blocksOfEvents es))
    {key : String} (hkey : s.key? = some key) : Mentioned es key := by
  obtain ⟨b, hb, hs⟩ := mem_spansOf.1 hs
  exact (gives_readBlocks _ (List.Subset.refl es)).given b hb s hs key hkey

end

end Markdown

end LiterateJournal
