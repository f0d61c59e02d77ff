import LiterateJournal.Encoding.Document
import LiterateJournal.Proofs.Encoding.Shapes
import LiterateJournal.Proofs.Text.SortedTable

/-!
# Documents are read back from JSON

Spans, blocks, link tables and documents can be printed as JSON texts, and are what is read from
their encodings. Spans and blocks nest in one another, and so do their encodings; a span or block is
read if what it is read from nests no deeper than the reader follows.

## Main statements

* `Span.ofJson?_toJson`, `Block.ofJson?_toJson` — spans and blocks, however they nest.
* `LinkTable.ofJson?_toJson`, `Document.ofJson?_toJson` — link tables and documents.
* `Span.isPlain_toJson`, `Block.isPlain_toJson`, `LinkTable.isPlain_toJson`,
  `Document.isPlain_toJson` — their encodings can be printed.
-/

namespace LiterateJournal

open Json

/-! ### Spans -/

mutual

theorem Span.isPlain_toJson : ∀ s : Span, s.toJson.IsPlain
  | .text _ | .code _ | .raw _ => by simp [Span.toJson]
  | .strong body | .emphasis body => by
    simpa [Span.toJson] using Span.isPlain_listToJson body
  | .math _ _ => by simp [Span.toJson]
  | .link body _ _ | .linkReference body _ _ => by
    simpa [Span.toJson] using Span.isPlain_listToJson body
  | .image .. | .imageReference .. => by simp [Span.toJson]
  | .lineBreak => by simp [Span.toJson]

theorem Span.isPlain_listToJson : ∀ spans : List Span, ∀ j ∈ Span.listToJson spans, j.IsPlain
  | [] => by simp [Span.listToJson]
  | s :: spans => by
    rw [Span.listToJson]
    exact List.forall_mem_cons.2 ⟨Span.isPlain_toJson s, Span.isPlain_listToJson spans⟩

end

/-- A case with content is read by its name. -/
theorem Span.ofJsonFrom?_ofCase {name : String} (h : name ≠ "HardLineBreak") (depth : Nat)
    (j : Json) : Span.ofJsonFrom? (depth + 1) (ofCase name j) =
      Span.ofCase? (Span.ofJsonFrom? depth) name j := by
  rw [Span.ofJsonFrom?, if_neg (caseName?_ofCase_ne j h), case?_ofCase, Option.bind_some]

mutual

theorem Span.ofJsonFrom?_toJson : ∀ (s : Span) (depth : Nat), s.toJson.depth < depth →
    Span.ofJsonFrom? depth s.toJson = some s
  | .text _, depth + 1, _ | .code _, depth + 1, _ | .raw _, depth + 1, _ => by
    rw [Span.toJson, Span.ofJsonFrom?_ofCase (by decide)]
    rfl
  | .math _ _, depth + 1, _ => by
    rw [Span.toJson, Span.ofJsonFrom?_ofCase (by decide)]
    rfl
  | .strong body, depth + 1, h | .emphasis body, depth + 1, h => by
    have hdepth : depthOfItems (Span.listToJson body) < depth := by
      simp only [Span.toJson, depth_ofCase, Json.depth] at h
      omega
    rw [Span.toJson, Span.ofJsonFrom?_ofCase (by decide)]
    simp [Span.ofCase?, Span.list?_listToJson body depth hdepth]
  | .link body url title, depth + 1, h => by
    have hdepth : depthOfItems (Span.listToJson body) < depth := by
      simp [Span.toJson, Json.depth, Json.depthOfFields] at h
      omega
    rw [Span.toJson, Span.ofJsonFrom?_ofCase (by decide)]
    simp [Span.ofCase?, required?, optional?, Span.list?_listToJson body depth hdepth]
  | .linkReference body written key, depth + 1, h => by
    have hdepth : depthOfItems (Span.listToJson body) < depth := by
      simp [Span.toJson, Json.depth, Json.depthOfFields] at h
      omega
    rw [Span.toJson, Span.ofJsonFrom?_ofCase (by decide)]
    simp [Span.ofCase?, required?, Span.list?_listToJson body depth hdepth]
  | .image _ _ _, depth + 1, _ => by
    rw [Span.toJson, Span.ofJsonFrom?_ofCase (by decide)]
    simp [Span.ofCase?, required?, optional?]
  | .imageReference _ _ _, depth + 1, _ => by
    rw [Span.toJson, Span.ofJsonFrom?_ofCase (by decide)]
    rfl
  | .lineBreak, depth + 1, _ => rfl

theorem Span.list?_listToJson : ∀ (spans : List Span) (depth : Nat),
    depthOfItems (Span.listToJson spans) < depth →
      Json.list? (Span.ofJsonFrom? depth) (.list (Span.listToJson spans)) = some spans
  | [], _, _ => rfl
  | s :: spans, depth, h => by
    rw [Span.listToJson, depthOfItems] at h
    have hfirst := Span.ofJsonFrom?_toJson s depth (by omega)
    have hrest := Span.list?_listToJson spans depth (by omega)
    rw [Span.listToJson, list?_cons, hfirst, hrest]
    rfl

end

/-- A span is read back, however deep it nests. -/
theorem Span.ofJson?_toJson (s : Span) : Span.ofJson? s.toJson = some s :=
  Span.ofJsonFrom?_toJson s _ (Nat.lt_succ_self _)

theorem Span.listToJson_eq_map (spans : List Span) :
    Span.listToJson spans = spans.map Span.toJson := by
  induction spans with
  | nil => rfl
  | cons s spans ih => rw [Span.listToJson, ih, List.map_cons]

@[simp] theorem isPlain_spansToJson (spans : List Span) : (spansToJson spans).IsPlain :=
  isPlain_list_iff.2 (Span.isPlain_listToJson spans)

@[simp] theorem spansOfJson?_spansToJson (spans : List Span) :
    spansOfJson? (spansToJson spans) = some spans := by
  rw [spansOfJson?, spansToJson, Span.listToJson_eq_map]
  exact list?_map fun s _ => Span.ofJson?_toJson s

/-! ### Blocks -/

@[simp] theorem ListKind.isPlain_toJson (kind : ListKind) : kind.toJson.IsPlain := by
  cases kind <;> simp [ListKind.toJson]

@[simp] theorem ListKind.ofJson?_toJson (kind : ListKind) :
    ListKind.ofJson? kind.toJson = some kind := by
  cases kind with
  | bulleted => rfl
  | numbered start =>
    rw [ListKind.toJson, ListKind.ofJson?, if_neg (caseName?_ofCase_ne _ (by decide)), case?_ofCase]
    simp [required?, number?_of_lt start.toNat_lt_size]

theorem Alignment.isPlain_toJson (a : Alignment) : a.toJson.IsPlain := by
  cases a <;> simp [Alignment.toJson]

theorem Alignment.ofJson?_toJson (a : Alignment) : Alignment.ofJson? a.toJson = some a := by
  cases a <;> rfl

@[simp] theorem list?_alignments (alignments : List Alignment) :
    Json.list? Alignment.ofJson? (.list (alignments.map Alignment.toJson)) = some alignments :=
  list?_map fun a _ => a.ofJson?_toJson

mutual

theorem Block.isPlain_toJson : ∀ b : Block, b.toJson.IsPlain
  | .heading .. | .paragraph _ => by simp [Block.toJson]
  | .code .. | .raw _ | .math _ | .rule => by simp [Block.toJson]
  | .list kind items => by
    simpa [Block.toJson] using Block.isPlain_cellsToJson items
  | .quote body => by
    simpa [Block.toJson] using Block.isPlain_listToJson body
  | .table alignments header rows => by
    simpa [Block.toJson, Alignment.isPlain_toJson] using
      ⟨Block.isPlain_cellsToJson header, Block.isPlain_rowsToJson rows⟩

theorem Block.isPlain_listToJson : ∀ blocks : List Block, ∀ j ∈ Block.listToJson blocks, j.IsPlain
  | [] => by simp [Block.listToJson]
  | b :: blocks => by
    rw [Block.listToJson]
    exact List.forall_mem_cons.2 ⟨Block.isPlain_toJson b, Block.isPlain_listToJson blocks⟩

theorem Block.isPlain_cellsToJson : ∀ cells : List (List Block),
    ∀ j ∈ Block.cellsToJson cells, j.IsPlain
  | [] => by simp [Block.cellsToJson]
  | c :: cells => by
    rw [Block.cellsToJson]
    exact List.forall_mem_cons.2
      ⟨isPlain_list_iff.2 (Block.isPlain_listToJson c), Block.isPlain_cellsToJson cells⟩

theorem Block.isPlain_rowsToJson : ∀ rows : List (List (List Block)),
    ∀ j ∈ Block.rowsToJson rows, j.IsPlain
  | [] => by simp [Block.rowsToJson]
  | r :: rows => by
    rw [Block.rowsToJson]
    exact List.forall_mem_cons.2
      ⟨isPlain_list_iff.2 (Block.isPlain_cellsToJson r), Block.isPlain_rowsToJson rows⟩

end

/-- A case with content is read by its name. -/
theorem Block.ofJsonFrom?_ofCase {name : String} (h : name ≠ "HorizontalRule") (depth : Nat)
    (j : Json) : Block.ofJsonFrom? (depth + 1) (ofCase name j) =
      Block.ofCase? (Block.ofJsonFrom? depth) name j := by
  rw [Block.ofJsonFrom?, if_neg (caseName?_ofCase_ne j h), case?_ofCase, Option.bind_some]

mutual

theorem Block.ofJsonFrom?_toJson : ∀ (b : Block) (depth : Nat), b.toJson.depth < depth →
    Block.ofJsonFrom? depth b.toJson = some b
  | .heading level body, depth + 1, _ => by
    have hlevel := number?_of_lt level.toNat_lt_size
    rw [Block.toJson, Block.ofJsonFrom?_ofCase (by decide)]
    simp [Block.ofCase?, required?, hlevel]
  | .paragraph body, depth + 1, _ => by
    rw [Block.toJson, Block.ofJsonFrom?_ofCase (by decide)]
    simp [Block.ofCase?]
  | .code source language, depth + 1, _ => by
    rw [Block.toJson, Block.ofJsonFrom?_ofCase (by decide)]
    simp [Block.ofCase?, required?, optional?]
  | .raw _, depth + 1, _ | .math _, depth + 1, _ => by
    rw [Block.toJson, Block.ofJsonFrom?_ofCase (by decide)]
    rfl
  | .rule, depth + 1, _ => rfl
  | .list kind items, depth + 1, h => by
    have hdepth : depthOfItems (Block.cellsToJson items) < depth := by
      simp [Block.toJson, Json.depth, Json.depthOfFields] at h
      omega
    rw [Block.toJson, Block.ofJsonFrom?_ofCase (by decide)]
    simp [Block.ofCase?, required?, Block.list?_cellsToJson items depth hdepth]
  | .quote body, depth + 1, h => by
    have hdepth : depthOfItems (Block.listToJson body) < depth := by
      simp [Block.toJson, Json.depth] at h
      omega
    rw [Block.toJson, Block.ofJsonFrom?_ofCase (by decide)]
    simp [Block.ofCase?, Block.list?_listToJson body depth hdepth]
  | .table alignments header rows, depth + 1, h => by
    obtain ⟨hheader, hrows⟩ : depthOfItems (Block.cellsToJson header) < depth ∧
        depthOfItems (Block.rowsToJson rows) < depth := by
      simp [Block.toJson, Json.depth, Json.depthOfFields] at h
      omega
    rw [Block.toJson, Block.ofJsonFrom?_ofCase (by decide)]
    simp [Block.ofCase?, required?, Block.list?_cellsToJson header depth hheader,
      Block.list?_rowsToJson rows depth hrows]

theorem Block.list?_listToJson : ∀ (blocks : List Block) (depth : Nat),
    depthOfItems (Block.listToJson blocks) < depth →
      Json.list? (Block.ofJsonFrom? depth) (.list (Block.listToJson blocks)) = some blocks
  | [], _, _ => rfl
  | b :: blocks, depth, h => by
    rw [Block.listToJson, depthOfItems] at h
    have hfirst := Block.ofJsonFrom?_toJson b depth (by omega)
    have hrest := Block.list?_listToJson blocks depth (by omega)
    rw [Block.listToJson, list?_cons, hfirst, hrest]
    rfl

theorem Block.list?_cellsToJson : ∀ (cells : List (List Block)) (depth : Nat),
    depthOfItems (Block.cellsToJson cells) < depth →
      Json.list? (Json.list? (Block.ofJsonFrom? depth)) (.list (Block.cellsToJson cells)) =
        some cells
  | [], _, _ => rfl
  | c :: cells, depth, h => by
    rw [Block.cellsToJson, depthOfItems, Json.depth] at h
    have hfirst := Block.list?_listToJson c depth (by omega)
    have hrest := Block.list?_cellsToJson cells depth (by omega)
    rw [Block.cellsToJson, list?_cons, hfirst, hrest]
    rfl

theorem Block.list?_rowsToJson : ∀ (rows : List (List (List Block))) (depth : Nat),
    depthOfItems (Block.rowsToJson rows) < depth →
      Json.list? (Json.list? (Json.list? (Block.ofJsonFrom? depth)))
        (.list (Block.rowsToJson rows)) = some rows
  | [], _, _ => rfl
  | r :: rows, depth, h => by
    rw [Block.rowsToJson, depthOfItems, Json.depth] at h
    have hfirst := Block.list?_cellsToJson r depth (by omega)
    have hrest := Block.list?_rowsToJson rows depth (by omega)
    rw [Block.rowsToJson, list?_cons, hfirst, hrest]
    rfl

end

/-- A block is read back, however deep it nests. -/
theorem Block.ofJson?_toJson (b : Block) : Block.ofJson? b.toJson = some b :=
  Block.ofJsonFrom?_toJson b _ (Nat.lt_succ_self _)

theorem Block.listToJson_eq_map (blocks : List Block) :
    Block.listToJson blocks = blocks.map Block.toJson := by
  induction blocks with
  | nil => rfl
  | cons b blocks ih => rw [Block.listToJson, ih, List.map_cons]

@[simp] theorem isPlain_blocksToJson (blocks : List Block) : (blocksToJson blocks).IsPlain :=
  isPlain_list_iff.2 (Block.isPlain_listToJson blocks)

@[simp] theorem blocksOfJson?_blocksToJson (blocks : List Block) :
    blocksOfJson? (blocksToJson blocks) = some blocks := by
  rw [blocksOfJson?, blocksToJson, Block.listToJson_eq_map]
  exact list?_map fun b _ => Block.ofJson?_toJson b

/-! ### Link tables -/

@[simp] theorem LinkTarget.isPlain_toJson (t : LinkTarget) : t.toJson.IsPlain := by
  simp [LinkTarget.toJson]

theorem LinkTarget.ofJson?_toJson (t : LinkTarget) : LinkTarget.ofJson? t.toJson = some t := by
  simp [LinkTarget.toJson, LinkTarget.ofJson?, withFields, required?, optional?]

theorem LinkTable.isPlain_toJson (t : LinkTable) : t.toJson.IsPlain := by
  have hnames : (t.entries.entries.map fun e => (e.1, LinkTarget.toJson e.2)).map Prod.fst =
      t.entries.entries.map Prod.fst := by
    rw [List.map_map]
    rfl
  have hentries : IsPlain
      (.object (t.entries.entries.map fun e => (e.1, LinkTarget.toJson e.2))) := by
    refine .object (hnames ▸ t.entries.nodup_names) fun f hf => ?_
    obtain ⟨e, -, rfl⟩ := List.mem_map.1 hf
    exact e.2.isPlain_toJson
  rw [LinkTable.toJson, isPlain_object_iff]
  exact ⟨List.nodup_singleton _, by simpa using isPlain_object_iff.1 hentries⟩

theorem mapM_entryOfJson? (entries : List (String × LinkTarget)) :
    (entries.map fun e => (e.1, LinkTarget.toJson e.2)).mapM LinkTable.entryOfJson? =
      some entries := by
  induction entries with
  | nil => rfl
  | cons e entries ih =>
    rw [List.map_cons, List.mapM_cons, ih, LinkTable.entryOfJson?, LinkTarget.ofJson?_toJson]
    rfl

theorem LinkTable.ofJson?_toJson (t : LinkTable) : LinkTable.ofJson? t.toJson = some t := by
  have hfield : (t.toJson.withFields ["entries"]).field? "entries" =
      some (.object (t.entries.entries.map fun e => (e.1, LinkTarget.toJson e.2))) := rfl
  rw [LinkTable.ofJson?, hfield]
  dsimp only
  rw [mapM_entryOfJson?, Option.map_some, SortedTable.ofList_entries]

/-! ### Documents -/

@[simp] theorem SourceKind.isPlain_toJson (kind : SourceKind) : kind.toJson.IsPlain := by
  cases kind <;> simp [SourceKind.toJson]

@[simp] theorem SourceKind.ofJson?_toJson (kind : SourceKind) :
    SourceKind.ofJson? kind.toJson = some kind := by
  cases kind <;> rfl

theorem Document.isPlain_toJson (d : Document) : d.toJson.IsPlain := by
  simp [Document.toJson, LinkTable.isPlain_toJson]

theorem Document.ofJson?_toJson (d : Document) : Document.ofJson? d.toJson = some d := by
  simp [Document.toJson, Document.ofJson?, withFields, required?,
    LinkTable.ofJson?_toJson]

end LiterateJournal
