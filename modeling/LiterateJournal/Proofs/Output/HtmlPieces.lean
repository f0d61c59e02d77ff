import LiterateJournal.Proofs.Output.HtmlReader
import LiterateJournal.Proofs.Output.Parts

/-!
# The pieces of an HTML page

What a document is written as: elements, in which the strings of the document stand.

## Main definitions

* `Html.piecesOfBlocks` — the pieces that a document is written as.

## Main statements

* `Html.written_blocks` — a document without raw markup is written in its pieces.
-/

namespace LiterateJournal.Html

/-! ### The pieces of a document -/

def titleAttributes (title : Option String) : List Attribute :=
  title.toList.map fun t => ⟨"title", "", some t⟩

def linkAttributes (target : LinkTarget) : List Attribute :=
  ⟨"href", "", some target.url⟩ :: titleAttributes target.title

def imageAttributes (alt : String) (target : LinkTarget) : List Attribute :=
  ⟨"src", "", some target.url⟩ :: ⟨"alt", "", some alt⟩ :: titleAttributes target.title

def languageAttributes (language : Option String) : List Attribute :=
  language.toList.map fun l => ⟨"class", "language-", some l⟩

def startAttributes : ListKind → List Attribute
  | .numbered start => if start = 1 then [] else [⟨"start", toString start.toNat, none⟩]
  | .bulleted => []

def alignmentAttributes : Option Alignment → List Attribute
  | some .left => [⟨"style", "text-align: left", none⟩]
  | some .center => [⟨"style", "text-align: center", none⟩]
  | some .right => [⟨"style", "text-align: right", none⟩]
  | _ => []

def mathPieces (source : String) (display : Bool) : List Piece :=
  if display then [.own "\\[", .text source, .own "\\]"]
  else [.own "\\(", .text source, .own "\\)"]

section

variable (links : LinkTable)

mutual

def piecesOfSpan : Span → List Piece
  | .text s => [.text s]
  | .code s => elementPieces "code" [] [.text s]
  | .strong body => elementPieces "strong" [] (piecesOfSpans body)
  | .emphasis body => elementPieces "em" [] (piecesOfSpans body)
  | .math source display => mathPieces source display
  | .raw _ => []
  | .link body url title => elementPieces "a" (linkAttributes ⟨url, title⟩) (piecesOfSpans body)
  | .linkReference body written key =>
    match links.get? key with
    | some target => elementPieces "a" (linkAttributes target) (piecesOfSpans body)
    | none => [.text written]
  | .image alt url title => [.opening "img" (imageAttributes alt ⟨url, title⟩)]
  | .imageReference alt written key =>
    match links.get? key with
    | some target => [.opening "img" (imageAttributes alt target)]
    | none => [.text written]
  | .lineBreak => [.opening "br" [], .own "\n"]

def piecesOfSpans : List Span → List Piece
  | [] => []
  | s :: rest => piecesOfSpan s ++ piecesOfSpans rest

end

/-- The pieces of an item or a cell, of whose blocks the pieces are given. -/
def piecesOfItem (item : List Block) (pieces : List Piece) : List Piece :=
  match item with
  | [.paragraph body] => piecesOfSpans links body
  | _ => .own "\n" :: pieces

mutual

def piecesOfBlock : Block → List Piece
  | .heading level body =>
    elementPieces (headingElement level) [] (piecesOfSpans links body) ++ [.own "\n"]
  | .paragraph body => elementPieces "p" [] (piecesOfSpans links body) ++ [.own "\n"]
  | .code source language =>
    elementPieces "pre" [] (elementPieces "code" (languageAttributes language) [.text source]) ++
      [.own "\n"]
  | .raw _ => []
  | .math source =>
    elementPieces "p" [⟨"class", "math", none⟩] (mathPieces source true) ++ [.own "\n"]
  | .rule => [.opening "hr" [], .own "\n"]
  | .list kind items =>
    elementPieces (listElement kind) (startAttributes kind) (.own "\n" :: piecesOfItems items) ++
      [.own "\n"]
  | .quote body => elementPieces "blockquote" [] (.own "\n" :: piecesOfBlocks body) ++ [.own "\n"]
  | .table alignments header rows =>
    let head := if header.isEmpty then [] else
      elementPieces "thead" [] (elementPieces "tr" [] (piecesOfCells "th" alignments header)) ++
        [.own "\n"]
    let body := elementPieces "tbody" [] (.own "\n" :: piecesOfRows alignments rows) ++ [.own "\n"]
    elementPieces "table" [] (.own "\n" :: (head ++ body)) ++ [.own "\n"]

def piecesOfBlocks : List Block → List Piece
  | [] => []
  | b :: bs => piecesOfBlock b ++ piecesOfBlocks bs

def piecesOfItems : List (List Block) → List Piece
  | [] => []
  | item :: items =>
    elementPieces "li" [] (piecesOfItem links item (piecesOfBlocks item)) ++
      .own "\n" :: piecesOfItems items

def piecesOfCells (name : String) (alignments : List Alignment) : List (List Block) → List Piece
  | [] => []
  | cell :: cells =>
    elementPieces name (alignmentAttributes alignments.head?)
        (piecesOfItem links cell (piecesOfBlocks cell)) ++
      piecesOfCells name alignments.tail cells

def piecesOfRows (alignments : List Alignment) : List (List (List Block)) → List Piece
  | [] => []
  | row :: rows =>
    elementPieces "tr" [] (piecesOfCells "td" alignments row) ++
      .own "\n" :: piecesOfRows alignments rows

end

end

/-! ### A document is written in its pieces -/

theorem proper_shown {name : String} (h : IsName name) (s : String) :
    Attribute.Proper ⟨name, "", some s⟩ :=
  ⟨h, .inl rfl⟩

theorem proper_titleAttributes (title : Option String) : ∀ a ∈ titleAttributes title, a.Proper := by
  cases title with
  | none => simp [titleAttributes]
  | some t => simpa [titleAttributes] using proper_shown (by decide) t

theorem proper_linkAttributes (target : LinkTarget) : ∀ a ∈ linkAttributes target, a.Proper :=
  List.forall_mem_cons.2
    ⟨proper_shown (by decide) target.url, proper_titleAttributes target.title⟩

theorem proper_imageAttributes (alt : String) (target : LinkTarget) :
    ∀ a ∈ imageAttributes alt target, a.Proper :=
  List.forall_mem_cons.2 ⟨proper_shown (by decide) target.url,
    List.forall_mem_cons.2 ⟨proper_shown (by decide) alt, proper_titleAttributes target.title⟩⟩

theorem proper_languageAttributes (language : Option String) :
    ∀ a ∈ languageAttributes language, a.Proper := by
  cases language with
  | none => simp [languageAttributes]
  | some l =>
    have hname : IsName "class" := by decide
    simpa [languageAttributes] using ⟨hname, .inr (.inl ⟨rfl, rfl⟩)⟩

theorem proper_startAttributes (kind : ListKind) : ∀ a ∈ startAttributes kind, a.Proper := by
  cases kind with
  | bulleted => simp [startAttributes]
  | numbered start =>
    rw [startAttributes]
    split
    · simp
    · have hname : IsName "start" := by decide
      simpa using ⟨hname, .inr (.inr ⟨rfl, .inr ⟨rfl, start.toNat, rfl⟩⟩)⟩

theorem proper_alignmentAttributes (alignment : Option Alignment) :
    ∀ a ∈ alignmentAttributes alignment, a.Proper := by
  unfold alignmentAttributes
  split <;> simp
  all_goals exact ⟨by decide, .inr (.inr ⟨rfl, .inl (by decide)⟩)⟩

theorem writeAttributes_title (title : Option String) :
    writeAttributes (titleAttributes title) = titleAttribute title := by
  cases title <;> simp [titleAttributes, writeAttributes, titleAttribute, Attribute.value]

theorem writeAttributes_link (target : LinkTarget) :
    writeAttributes (linkAttributes target) =
      attr "href" target.url ++ titleAttribute target.title := by
  rw [linkAttributes, writeAttributes_cons, writeAttributes_title]
  simp [Attribute.value]

theorem writeAttributes_image (alt : String) (target : LinkTarget) :
    writeAttributes (imageAttributes alt target) =
      attr "src" target.url ++ (attr "alt" alt ++ titleAttribute target.title) := by
  rw [imageAttributes, writeAttributes_cons, writeAttributes_cons, writeAttributes_title]
  simp [Attribute.value]

theorem writeAttributes_language (language : Option String) :
    writeAttributes (languageAttributes language) =
      match language with
      | some l => attr "class" ("language-" ++ l)
      | none => "" := by
  cases language <;> simp [languageAttributes, writeAttributes, Attribute.value]

theorem writeAttributes_start (kind : ListKind) :
    writeAttributes (startAttributes kind) = startAttribute kind := by
  cases kind with
  | bulleted => rfl
  | numbered start =>
    rw [startAttributes, startAttribute]
    split
    · rfl
    · simp [writeAttributes, Attribute.value]

theorem writeAttributes_alignment (alignment : Option Alignment) :
    writeAttributes (alignmentAttributes alignment) = alignmentAttribute alignment := by
  unfold alignmentAttributes alignmentAttribute
  split <;> simp [writeAttributes, Attribute.value]

theorem headingElement_mem (level : UInt8) :
    headingElement level ∈ ["h1", "h2", "h3", "h4", "h5", "h6"] := by
  have hall : ∀ n ∈ [1, 2, 3, 4, 5, 6],
      "h" ++ toString n ∈ ["h1", "h2", "h3", "h4", "h5", "h6"] := by decide
  refine hall (max 1 (min 6 level.toNat)) ?_
  simp only [List.mem_cons, List.not_mem_nil, or_false]
  omega

theorem isName_headingElement (level : UInt8) :
    IsName (headingElement level) ∧ headingElement level ∉ voidElements := by
  have hall : ∀ name ∈ ["h1", "h2", "h3", "h4", "h5", "h6"],
      IsName name ∧ name ∉ voidElements := by decide
  exact hall _ (headingElement_mem level)

theorem isName_listElement (kind : ListKind) :
    IsName (listElement kind) ∧ listElement kind ∉ voidElements := by
  cases kind with
  | bulleted =>
    have h : IsName "ul" ∧ "ul" ∉ voidElements := by decide
    exact h
  | numbered start =>
    have h : IsName "ol" ∧ "ol" ∉ voidElements := by decide
    exact h

namespace Written

theorem line {w : String} {ps : List Piece} (h : Written w ps) :
    Written (w ++ "\n") (ps ++ [.own "\n"]) :=
  h.append (.own (by decide))

theorem afterLine {w : String} {ps : List Piece} (h : Written w ps) :
    Written ("\n" ++ w) (.own "\n" :: ps) :=
  .append (.own (by decide)) h

/-- An element without attributes. -/
theorem plain {name w : String} {ps : List Piece} (hname : IsName name)
    (hvoid : name ∉ voidElements) (h : Written w ps) :
    Written (Html.element name "" w) (elementPieces name [] ps) :=
  @element name w [] ps hname hvoid (by simp) h

theorem link {w : String} {ps : List Piece} (h : Written w ps) (target : LinkTarget) :
    Written (Html.link w target) (elementPieces "a" (linkAttributes target) ps) := by
  rw [Html.link, ← writeAttributes_link]
  exact .element (by decide) (by decide) (proper_linkAttributes target) h

theorem image (alt : String) (target : LinkTarget) :
    Written (Html.image alt target) [.opening "img" (imageAttributes alt target)] := by
  have h := @void "img" _ (by decide) (by decide) (proper_imageAttributes alt target)
  rw [writeAttributes_image] at h
  simpa [Html.image, String.append_assoc] using h

theorem math (source : String) (display : Bool) :
    Written (if display then "\\[" ++ escape source ++ "\\]" else "\\(" ++ escape source ++ "\\)")
      (mathPieces source display) := by
  cases display
  · exact .append (.append (.own (by decide)) (.text source)) (.own (by decide))
  · exact .append (.append (.own (by decide)) (.text source)) (.own (by decide))

end Written

section

variable (links : LinkTable)

mutual

theorem written_span : (s : Span) → (∀ t ∈ s.withInner, (Part.span t).isRaw = false) →
    Written (writeSpan links s) (piecesOfSpan links s)
  | .text s, _ => .text s
  | .code s, _ => .plain (by decide) (by decide) (.text s)
  | .strong body, h | .emphasis body, h =>
    .plain (by decide) (by decide) (written_spans body fun t ht => h t (List.mem_append_left _ ht))
  | .math source display, _ => .math source display
  | .raw s, h => by simpa [Part.isRaw] using h (.raw s) List.mem_cons_self
  | .link body url title, h =>
    .link (written_spans body fun t ht => h t (List.mem_append_left _ ht)) ⟨url, title⟩
  | .linkReference body written key, h => by
    rw [writeSpan, piecesOfSpan]
    cases links.get? key with
    | some target =>
      exact .link (written_spans body fun t ht => h t (List.mem_append_left _ ht)) target
    | none => exact .text written
  | .image alt url title, _ => .image alt ⟨url, title⟩
  | .imageReference alt written key, _ => by
    rw [writeSpan, piecesOfSpan]
    cases links.get? key with
    | some target => exact .image alt target
    | none => exact .text written
  | .lineBreak, _ =>
    .line (@Written.void "br" [] (by decide) (by decide) (by simp))

theorem written_spans : (spans : List Span) →
    (∀ t ∈ innerSpans spans, (Part.span t).isRaw = false) →
    Written (writeSpans links spans) (piecesOfSpans links spans)
  | [], _ => .empty
  | s :: rest, h =>
    .append (written_span s fun t ht => h t (List.mem_append_left _ ht))
      (written_spans rest fun t ht => h t (List.mem_append_right _ ht))

end

/-- A paragraph alone is written without an element. -/
theorem writeItem_cases (item : List Block) (pieces : List Piece) :
    (∃ body, item = [.paragraph body]) ∨
      writeItem links item = "\n" ++ writeBlocks links item ∧
        piecesOfItem links item pieces = .own "\n" :: pieces := by
  by_cases h : ∃ body, item = [.paragraph body]
  · exact .inl h
  · refine .inr ⟨?_, ?_⟩
    · rw [writeItem]
      exact fun body hbody => h ⟨body, hbody⟩
    · unfold piecesOfItem
      split
      · exact absurd ⟨_, rfl⟩ h
      · rfl

theorem written_item {item : List Block} (h : ∀ p ∈ partsOf item, p.isRaw = false)
    (hblocks : Written (writeBlocks links item) (piecesOfBlocks links item)) :
    Written (writeItem links item) (piecesOfItem links item (piecesOfBlocks links item)) := by
  obtain ⟨body, rfl⟩ | ⟨hwrite, hpieces⟩ :=
    writeItem_cases links item (piecesOfBlocks links item)
  · rw [writeItem]
    exact written_spans links body fun t ht => h (.span t) (by simp [partsOf, Block.parts, ht])
  · rw [hwrite, hpieces]
    exact hblocks.afterLine

mutual

theorem written_block : (b : Block) → (∀ p ∈ b.parts, p.isRaw = false) →
    Written (writeBlock links b) (piecesOfBlock links b)
  | .heading level body, h => by
    have hbody := written_spans links body fun t ht =>
      h (.span t) (List.mem_cons_of_mem _ (List.mem_map_of_mem ht))
    obtain ⟨hname, hvoid⟩ := isName_headingElement level
    rw [writeBlock, piecesOfBlock]
    exact .line (.plain hname hvoid hbody)
  | .paragraph body, h => by
    have hbody := written_spans links body fun t ht =>
      h (.span t) (List.mem_cons_of_mem _ (List.mem_map_of_mem ht))
    rw [writeBlock, piecesOfBlock]
    exact .line (.plain (by decide) (by decide) hbody)
  | .code source language, _ => by
    have hcode := Written.element (by decide : IsName "code") (by decide)
      (proper_languageAttributes language) (.text source)
    rw [writeAttributes_language] at hcode
    rw [writeBlock.eq_def, piecesOfBlock]
    exact .line (.plain (by decide) (by decide) hcode)
  | .raw markup, h => by simpa [Part.isRaw] using h (.block (.raw markup)) (by simp [Block.parts])
  | .math source, _ => by
    have hproper : Attribute.Proper ⟨"class", "math", none⟩ :=
      ⟨by decide, .inr (.inr ⟨rfl, .inl (by decide)⟩)⟩
    have hmath := Written.element (by decide : IsName "p") (by decide)
      (List.forall_mem_singleton.2 hproper) (.math source true)
    rw [writeBlock, piecesOfBlock]
    simpa [writeAttributes, Attribute.value] using hmath.line
  | .rule, _ => by
    rw [writeBlock, piecesOfBlock]
    exact .line (@Written.void "hr" [] (by decide) (by decide) (by simp))
  | .list kind items, h => by
    have hitems := written_items items fun p hp => h p (List.mem_cons_of_mem _ hp)
    obtain ⟨hname, hvoid⟩ := isName_listElement kind
    rw [writeBlock, piecesOfBlock, ← writeAttributes_start]
    exact .line (.element hname hvoid (proper_startAttributes kind) hitems.afterLine)
  | .quote body, h => by
    have hbody := written_blocks body fun p hp => h p (List.mem_cons_of_mem _ hp)
    rw [writeBlock, piecesOfBlock]
    exact .line (.plain (by decide) (by decide) hbody.afterLine)
  | .table alignments header rows, h => by
    have hheader := written_cells (by decide : IsName "th") (by decide) alignments header
      fun p hp => h p (List.mem_cons_of_mem _ (List.mem_append_left _ hp))
    have hrows := written_rows alignments rows
      fun p hp => h p (List.mem_cons_of_mem _ (List.mem_append_right _ hp))
    have hbody := (Written.plain (by decide : IsName "tbody") (by decide) hrows.afterLine).line
    rw [writeBlock, piecesOfBlock]
    refine .line (.plain (by decide) (by decide) ?_)
    cases header with
    | nil => simpa using hbody.afterLine
    | cons cell cells =>
      have hhead := (Written.plain (by decide : IsName "thead") (by decide)
        (.plain (by decide : IsName "tr") (by decide) hheader)).line
      simpa [String.append_assoc] using (hhead.append hbody).afterLine

/-- A document is written in its pieces. -/
theorem written_blocks : (blocks : List Block) → (∀ p ∈ partsOf blocks, p.isRaw = false) →
    Written (writeBlocks links blocks) (piecesOfBlocks links blocks)
  | [], _ => by
    rw [writeBlocks, piecesOfBlocks]
    exact .empty
  | b :: bs, h => by
    rw [writeBlocks, piecesOfBlocks]
    exact .append (written_block b fun p hp => h p (List.mem_append_left _ hp))
      (written_blocks bs fun p hp => h p (List.mem_append_right _ hp))

theorem written_items : (items : List (List Block)) →
    (∀ p ∈ partsInCells items, p.isRaw = false) →
    Written (writeItems links items) (piecesOfItems links items)
  | [], _ => by
    rw [writeItems, piecesOfItems]
    exact .empty
  | item :: items, h => by
    have hparts : ∀ p ∈ partsOf item, p.isRaw = false :=
      fun p hp => h p (List.mem_append_left _ hp)
    have hitem := written_item links hparts (written_blocks item hparts)
    have hitems := written_items items fun p hp => h p (List.mem_append_right _ hp)
    rw [writeItems, piecesOfItems, String.append_assoc]
    exact .append (.plain (by decide) (by decide) hitem) hitems.afterLine

theorem written_cells {name : String} (hname : IsName name) (hvoid : name ∉ voidElements)
    (alignments : List Alignment) : (cells : List (List Block)) →
    (∀ p ∈ partsInCells cells, p.isRaw = false) →
    Written (writeCells links name alignments cells) (piecesOfCells links name alignments cells)
  | [], _ => by
    rw [writeCells, piecesOfCells]
    exact .empty
  | cell :: cells, h => by
    have hparts : ∀ p ∈ partsOf cell, p.isRaw = false :=
      fun p hp => h p (List.mem_append_left _ hp)
    have hcell := written_item links hparts (written_blocks cell hparts)
    have hcells := written_cells hname hvoid alignments.tail cells
      fun p hp => h p (List.mem_append_right _ hp)
    rw [writeCells, piecesOfCells, ← writeAttributes_alignment]
    exact .append (.element hname hvoid (proper_alignmentAttributes _) hcell) hcells

theorem written_rows (alignments : List Alignment) : (rows : List (List (List Block))) →
    (∀ p ∈ partsInRows rows, p.isRaw = false) →
    Written (writeRows links alignments rows) (piecesOfRows links alignments rows)
  | [], _ => by
    rw [writeRows, piecesOfRows]
    exact .empty
  | row :: rows, h => by
    have hrow := written_cells (by decide : IsName "td") (by decide) alignments row
      fun p hp => h p (List.mem_append_left _ hp)
    have hrows := written_rows alignments rows fun p hp => h p (List.mem_append_right _ hp)
    rw [writeRows, piecesOfRows, String.append_assoc]
    exact .append (.plain (by decide) (by decide) hrow) hrows.afterLine

end

end

end LiterateJournal.Html
