import LiterateJournal.Output.Format
import LiterateJournal.Proofs.Document.Relocated

/-!
# The body of a page whose images have moved

Images that have moved nowhere are written as before: an image by label and the image with the
address and the title of its definition are the same on a page.

## Main statements

* `writeBody_relocated` — a document whose images have not moved has the same body.
-/

namespace LiterateJournal

variable {links : LinkTable} {R : String → String → Prop}

/-- Every image stays where it is. -/
def StaysPut (R : String → String → Prop) : Prop := ∀ ⦃url path⦄, R url path → path = url

namespace Html

mutual

theorem writeSpan_relocated (hput : StaysPut R) : (s : Span) → {s' : Span} →
    s.Relocated links R s' → writeSpan links s' = writeSpan links s
  | .strong body, _, h => by
    cases h with
    | strong hbody => rw [writeSpan, writeSpan, writeSpans_relocated hput body hbody]
  | .emphasis body, _, h => by
    cases h with
    | emphasis hbody => rw [writeSpan, writeSpan, writeSpans_relocated hput body hbody]
  | .link body url title, _, h => by
    cases h with
    | link _ _ hbody => rw [writeSpan, writeSpan, writeSpans_relocated hput body hbody]
  | .linkReference body written key, _, h => by
    cases h with
    | linkReference _ _ hbody => rw [writeSpan, writeSpan, writeSpans_relocated hput body hbody]
  | .image alt url title, _, h => by
    cases h with
    | image _ _ hpath => rw [hput hpath]
  | .imageReference alt written key, _, h => by
    cases h with
    | imageReference _ _ htarget hpath => simp only [writeSpan, htarget, hput hpath]
    | undefinedReference => rfl
  | .text _, _, h | .code _, _, h | .math .., _, h | .raw _, _, h | .lineBreak, _, h => by
    cases h
    rfl

theorem writeSpans_relocated (hput : StaysPut R) : (spans : List Span) → {spans' : List Span} →
    List.Forall₂ (Span.Relocated links R) spans spans' →
    writeSpans links spans' = writeSpans links spans
  | [], _, .nil => rfl
  | s :: rest, _, .cons hs hrest => by
    rw [writeSpans, writeSpans, writeSpan_relocated hput s hs,
      writeSpans_relocated hput rest hrest]

end

/-- An item or a cell is written as before if its blocks are; a paragraph alone stands without its
element. -/
theorem writeItem_relocated (hput : StaysPut R) {item item' : List Block}
    (h : List.Forall₂ (Block.Relocated links R) item item')
    (hblocks : writeBlocks links item' = writeBlocks links item) :
    writeItem links item' = writeItem links item := by
  cases h with
  | nil => rfl
  | cons hb hbs =>
    cases hbs with
    | cons hb' hbs' => simp only [writeItem, hblocks]
    | nil =>
      cases hb with
      | paragraph hbody => simp only [writeItem, writeSpans_relocated hput _ hbody]
      | _ => simp only [writeItem, hblocks]

mutual

theorem writeBlock_relocated (hput : StaysPut R) : (b : Block) → {b' : Block} →
    b.Relocated links R b' → writeBlock links b' = writeBlock links b
  | .heading level body, _, h => by
    cases h with
    | heading _ hbody => rw [writeBlock, writeBlock, writeSpans_relocated hput body hbody]
  | .paragraph body, _, h => by
    cases h with
    | paragraph hbody => rw [writeBlock, writeBlock, writeSpans_relocated hput body hbody]
  | .list kind items, _, h => by
    cases h with
    | list _ hitems => rw [writeBlock, writeBlock, writeItems_relocated hput items hitems]
  | .quote body, _, h => by
    cases h with
    | quote hbody => rw [writeBlock, writeBlock, writeBlocks_relocated hput body hbody]
  | .table alignments header rows, _, h => by
    cases h with
    | table _ hheader hrows =>
      rw [writeBlock, writeBlock, writeCells_relocated hput _ _ header hheader,
        writeRows_relocated hput _ rows hrows]
      cases hheader <;> rfl
  | .code .., _, h | .raw _, _, h | .math _, _, h | .rule, _, h => by
    cases h
    rfl

theorem writeBlocks_relocated (hput : StaysPut R) : (blocks : List Block) →
    {blocks' : List Block} → List.Forall₂ (Block.Relocated links R) blocks blocks' →
    writeBlocks links blocks' = writeBlocks links blocks
  | [], _, .nil => rfl
  | b :: bs, _, .cons hb hbs => by
    rw [writeBlocks, writeBlocks, writeBlock_relocated hput b hb,
      writeBlocks_relocated hput bs hbs]

theorem writeItems_relocated (hput : StaysPut R) : (items : List (List Block)) →
    {items' : List (List Block)} →
    List.Forall₂ (List.Forall₂ (Block.Relocated links R)) items items' →
    writeItems links items' = writeItems links items
  | [], _, .nil => rfl
  | item :: items, _, .cons hitem hitems => by
    have hblocks := writeBlocks_relocated hput item hitem
    rw [writeItems, writeItems, writeItem_relocated hput hitem hblocks,
      writeItems_relocated hput items hitems]

theorem writeCells_relocated (hput : StaysPut R) (name : String) :
    (alignments : List Alignment) → (cells : List (List Block)) → {cells' : List (List Block)} →
    List.Forall₂ (List.Forall₂ (Block.Relocated links R)) cells cells' →
    writeCells links name alignments cells' = writeCells links name alignments cells
  | _, [], _, .nil => rfl
  | alignments, cell :: cells, _, .cons hcell hcells => by
    have hblocks := writeBlocks_relocated hput cell hcell
    rw [writeCells, writeCells, writeItem_relocated hput hcell hblocks,
      writeCells_relocated hput name _ cells hcells]

theorem writeRows_relocated (hput : StaysPut R) (alignments : List Alignment) :
    (rows : List (List (List Block))) → {rows' : List (List (List Block))} →
    List.Forall₂ (List.Forall₂ (List.Forall₂ (Block.Relocated links R))) rows rows' →
    writeRows links alignments rows' = writeRows links alignments rows
  | [], _, .nil => rfl
  | row :: rows, _, .cons hrow hrows => by
    rw [writeRows, writeRows, writeCells_relocated hput _ _ row hrow,
      writeRows_relocated hput alignments rows hrows]

end

end Html

namespace Latex

mutual

theorem writeSpan_relocated (hput : StaysPut R) : (s : Span) → {s' : Span} →
    s.Relocated links R s' → writeSpan links s' = writeSpan links s
  | .strong body, _, h => by
    cases h with
    | strong hbody => rw [writeSpan, writeSpan, writeSpans_relocated hput body hbody]
  | .emphasis body, _, h => by
    cases h with
    | emphasis hbody => rw [writeSpan, writeSpan, writeSpans_relocated hput body hbody]
  | .link body url title, _, h => by
    cases h with
    | link _ _ hbody => rw [writeSpan, writeSpan, writeSpans_relocated hput body hbody]
  | .linkReference body written key, _, h => by
    cases h with
    | linkReference _ _ hbody => rw [writeSpan, writeSpan, writeSpans_relocated hput body hbody]
  | .image alt url title, _, h => by
    cases h with
    | image _ _ hpath => rw [hput hpath]
  | .imageReference alt written key, _, h => by
    cases h with
    | imageReference _ _ htarget hpath => simp only [writeSpan, htarget, hput hpath]
    | undefinedReference => rfl
  | .text _, _, h | .code _, _, h | .math .., _, h | .raw _, _, h | .lineBreak, _, h => by
    cases h
    rfl

theorem writeSpans_relocated (hput : StaysPut R) : (spans : List Span) → {spans' : List Span} →
    List.Forall₂ (Span.Relocated links R) spans spans' →
    writeSpans links spans' = writeSpans links spans
  | [], _, .nil => rfl
  | s :: rest, _, .cons hs hrest => by
    rw [writeSpans, writeSpans, writeSpan_relocated hput s hs,
      writeSpans_relocated hput rest hrest]

end

/-- A table keeps its columns. -/
theorem columnCount_relocated {header header' : List Cell} {rows rows' : List (List Cell)}
    (hheader : List.Forall₂ (List.Forall₂ (Block.Relocated links R)) header header')
    (hrows : List.Forall₂ (List.Forall₂ (List.Forall₂ (Block.Relocated links R))) rows rows') :
    columnCount header' rows' = columnCount header rows := by
  have hfold : ∀ n, rows'.foldl (fun n row => max n row.length) n =
      rows.foldl (fun n row => max n row.length) n := by
    induction hrows with
    | nil => exact fun _ => rfl
    | cons hrow _ ih =>
      intro n
      rw [List.foldl_cons, List.foldl_cons, hrow.length_eq, ih]
  rw [columnCount, columnCount, hheader.length_eq, hfold]

mutual

theorem writeBlock_relocated (hput : StaysPut R) : (b : Block) → {b' : Block} →
    b.Relocated links R b' → writeBlock links b' = writeBlock links b
  | .heading level body, _, h => by
    cases h with
    | heading _ hbody => rw [writeBlock, writeBlock, writeSpans_relocated hput body hbody]
  | .paragraph body, _, h => by
    cases h with
    | paragraph hbody => rw [writeBlock, writeBlock, writeSpans_relocated hput body hbody]
  | .list kind items, _, h => by
    cases h with
    | list _ hitems => rw [writeBlock, writeBlock, writeItems_relocated hput items hitems]
  | .quote body, _, h => by
    cases h with
    | quote hbody => rw [writeBlock, writeBlock, writeBlocks_relocated hput body hbody]
  | .table alignments header rows, _, h => by
    cases h with
    | table _ hheader hrows =>
      rw [writeBlock, writeBlock, writeCells_relocated hput header hheader,
        writeRows_relocated hput rows hrows, columnCount_relocated hheader hrows]
      cases hheader <;> rfl
  | .code .., _, h | .raw _, _, h | .math _, _, h | .rule, _, h => by
    cases h
    rfl

theorem writeBlocks_relocated (hput : StaysPut R) : (blocks : List Block) →
    {blocks' : List Block} → List.Forall₂ (Block.Relocated links R) blocks blocks' →
    writeBlocks links blocks' = writeBlocks links blocks
  | [], _, .nil => rfl
  | b :: bs, _, .cons hb hbs => by
    rw [writeBlocks, writeBlocks, writeBlock_relocated hput b hb,
      writeBlocks_relocated hput bs hbs]

theorem writeItems_relocated (hput : StaysPut R) : (items : List (List Block)) →
    {items' : List (List Block)} →
    List.Forall₂ (List.Forall₂ (Block.Relocated links R)) items items' →
    writeItems links items' = writeItems links items
  | [], _, .nil => rfl
  | item :: items, _, .cons hitem hitems => by
    rw [writeItems, writeItems, writeBlocks_relocated hput item hitem,
      writeItems_relocated hput items hitems]

theorem writeCells_relocated (hput : StaysPut R) : (cells : List (List Block)) →
    {cells' : List (List Block)} →
    List.Forall₂ (List.Forall₂ (Block.Relocated links R)) cells cells' →
    writeCells links cells' = writeCells links cells
  | [], _, .nil => rfl
  | cell :: cells, _, .cons hcell hcells => by
    rw [writeCells, writeCells, writeBlocks_relocated hput cell hcell,
      writeCells_relocated hput cells hcells]

theorem writeRows_relocated (hput : StaysPut R) : (rows : List (List (List Block))) →
    {rows' : List (List (List Block))} →
    List.Forall₂ (List.Forall₂ (List.Forall₂ (Block.Relocated links R))) rows rows' →
    writeRows links rows' = writeRows links rows
  | [], _, .nil => rfl
  | row :: rows, _, .cons hrow hrows => by
    rw [writeRows, writeRows, writeCells_relocated hput row hrow,
      writeRows_relocated hput rows hrows]

end

end Latex

/-- If no image has moved, the page is the same. -/
theorem writeBody_relocated (hput : StaysPut R) {blocks blocks' : List Block}
    (h : List.Forall₂ (Block.Relocated links R) blocks blocks') (format : OutputFormat) :
    format.writeBody links blocks' = format.writeBody links blocks := by
  cases format with
  | html => exact Html.writeBlocks_relocated hput blocks h
  | latex => exact Latex.writeBlocks_relocated hput blocks h

end LiterateJournal
