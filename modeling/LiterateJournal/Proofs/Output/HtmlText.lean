import LiterateJournal.Proofs.Output.HtmlPieces

/-!
# Text in HTML

The text of a document never turns into markup. A fragment consists of the tags that the shape of
the document calls for, and of the strings of the document with little added to them.

## Main definitions

* `shownIn` — the strings that a document shows, in the order of the text.
* `outline` — the shape of a document: the document without its strings.

## Main statements

* `Html.text_is_no_markup` — tags follow the shape of the document, and text its strings.
-/

namespace LiterateJournal

section

variable (links : LinkTable)

/-! ### What a document shows -/

def LinkTarget.shown (target : LinkTarget) : List String := target.url :: target.title.toList

mutual

def Span.shown : Span → List String
  | .text s | .code s | .math s _ => [s]
  | .strong body | .emphasis body => shownInSpans body
  | .link body url title => LinkTarget.shown ⟨url, title⟩ ++ shownInSpans body
  | .linkReference body written key =>
    match links.get? key with
    | some target => target.shown ++ shownInSpans body
    | none => [written]
  | .image alt url title => url :: alt :: title.toList
  | .imageReference alt written key =>
    match links.get? key with
    | some target => target.url :: alt :: target.title.toList
    | none => [written]
  | .raw _ | .lineBreak => []

def shownInSpans : List Span → List String
  | [] => []
  | s :: rest => s.shown ++ shownInSpans rest

end

mutual

def Block.shown : Block → List String
  | .heading _ body | .paragraph body => shownInSpans links body
  | .code source language => language.toList ++ [source]
  | .math source => [source]
  | .list _ items => shownInCells items
  | .quote body => shownIn body
  | .table _ header rows => shownInCells header ++ shownInRows rows
  | .raw _ | .rule => []

def shownIn : List Block → List String
  | [] => []
  | b :: bs => b.shown ++ shownIn bs

def shownInCells : List (List Block) → List String
  | [] => []
  | c :: cs => shownIn c ++ shownInCells cs

def shownInRows : List (List (List Block)) → List String
  | [] => []
  | r :: rs => shownInCells r ++ shownInRows rs

end

/-! ### The shape of a document -/

/-- Whether there is a title, or a language. -/
def blanked (s : Option String) : Option String := s.map fun _ => ""

mutual

/-- A span without its strings; labels are followed, and unknown ones are text. -/
def Span.outline : Span → Span
  | .text _ => .text ""
  | .code _ => .code ""
  | .strong body => .strong (outlineSpans body)
  | .emphasis body => .emphasis (outlineSpans body)
  | .math _ _ => .math "" false
  | .raw _ => .raw ""
  | .link body _ title => .link (outlineSpans body) "" (blanked title)
  | .linkReference body _ key =>
    match links.get? key with
    | some target => .link (outlineSpans body) "" (blanked target.title)
    | none => .text ""
  | .image _ _ title => .image "" "" (blanked title)
  | .imageReference _ _ key =>
    match links.get? key with
    | some target => .image "" "" (blanked target.title)
    | none => .text ""
  | .lineBreak => .lineBreak

def outlineSpans : List Span → List Span
  | [] => []
  | s :: rest => s.outline :: outlineSpans rest

end

mutual

def Block.outline : Block → Block
  | .heading level body => .heading level (outlineSpans links body)
  | .paragraph body => .paragraph (outlineSpans links body)
  | .code _ language => .code "" (blanked language)
  | .raw _ => .raw ""
  | .math _ => .math ""
  | .rule => .rule
  | .list kind items => .list kind (outlineCells items)
  | .quote body => .quote (outline body)
  | .table alignments header rows => .table alignments (outlineCells header) (outlineRows rows)

/-- A document without its strings: the variants of its blocks and spans, their numbers, levels,
list starts and alignments, and where there are titles and languages. -/
def outline : List Block → List Block
  | [] => []
  | b :: bs => b.outline :: outline bs

def outlineCells : List (List Block) → List (List Block)
  | [] => []
  | c :: cs => outline c :: outlineCells cs

def outlineRows : List (List (List Block)) → List (List (List Block))
  | [] => []
  | r :: rs => outlineCells r :: outlineRows rs

end

end

namespace Html

/-! ### The strings of a document are shown -/

def shownByPieces (pieces : List Piece) : List String := pieces.flatMap Piece.shown

@[simp] theorem shownByPieces_nil : shownByPieces [] = [] := rfl

@[simp] theorem shownByPieces_append (ps qs : List Piece) :
    shownByPieces (ps ++ qs) = shownByPieces ps ++ shownByPieces qs :=
  List.flatMap_append

@[simp] theorem shownByPieces_cons (p : Piece) (ps : List Piece) :
    shownByPieces (p :: ps) = p.shown ++ shownByPieces ps :=
  List.flatMap_cons

@[simp] theorem shownByPieces_element (name : String) (attributes : List Attribute)
    (ps : List Piece) :
    shownByPieces (elementPieces name attributes ps) =
      attributes.filterMap Attribute.shown ++ shownByPieces ps := by
  simp [elementPieces, Piece.shown]

@[simp] theorem shownByPieces_math (source : String) (display : Bool) :
    shownByPieces (mathPieces source display) = [source] := by
  cases display <;> simp [mathPieces, Piece.shown]

theorem shown_titleAttributes (title : Option String) :
    (titleAttributes title).filterMap Attribute.shown = title.toList := by
  cases title <;> simp [titleAttributes]

theorem shown_linkAttributes (target : LinkTarget) :
    (linkAttributes target).filterMap Attribute.shown = target.shown := by
  simp [linkAttributes, shown_titleAttributes, LinkTarget.shown]

theorem shown_imageAttributes (alt : String) (target : LinkTarget) :
    (imageAttributes alt target).filterMap Attribute.shown =
      target.url :: alt :: target.title.toList := by
  simp [imageAttributes, shown_titleAttributes]

theorem shown_languageAttributes (language : Option String) :
    (languageAttributes language).filterMap Attribute.shown = language.toList := by
  cases language <;> simp [languageAttributes]

theorem shown_startAttributes (kind : ListKind) :
    (startAttributes kind).filterMap Attribute.shown = [] := by
  unfold startAttributes
  split
  · split <;> rfl
  · rfl

theorem shown_alignmentAttributes (alignment : Option Alignment) :
    (alignmentAttributes alignment).filterMap Attribute.shown = [] := by
  unfold alignmentAttributes
  split <;> rfl

section

variable (links : LinkTable)

mutual

theorem shown_piecesOfSpan : (s : Span) → shownByPieces (piecesOfSpan links s) = s.shown links
  | .text s | .code s | .raw s | .lineBreak => by simp [piecesOfSpan, Span.shown, Piece.shown]
  | .math source display => by simp [piecesOfSpan, Span.shown]
  | .strong body | .emphasis body => by
    simp [piecesOfSpan, Span.shown, shown_piecesOfSpans body]
  | .link body url title => by
    simp [piecesOfSpan, Span.shown, shown_linkAttributes, shown_piecesOfSpans body]
  | .linkReference body written key => by
    rw [piecesOfSpan, Span.shown]
    cases links.get? key with
    | some target => simp [shown_linkAttributes, shown_piecesOfSpans body]
    | none => simp [Piece.shown]
  | .image alt url title => by simp [piecesOfSpan, Span.shown, Piece.shown, shown_imageAttributes]
  | .imageReference alt written key => by
    rw [piecesOfSpan, Span.shown]
    cases links.get? key with
    | some target => simp [Piece.shown, shown_imageAttributes]
    | none => simp [Piece.shown]

theorem shown_piecesOfSpans : (spans : List Span) →
    shownByPieces (piecesOfSpans links spans) = shownInSpans links spans
  | [] => rfl
  | s :: rest => by
    simp [piecesOfSpans, shownInSpans, shown_piecesOfSpan s, shown_piecesOfSpans rest]

end

theorem shown_piecesOfItem {item : List Block}
    (h : shownByPieces (piecesOfBlocks links item) = shownIn links item) :
    shownByPieces (piecesOfItem links item (piecesOfBlocks links item)) = shownIn links item := by
  unfold piecesOfItem
  split
  · simp [shown_piecesOfSpans, shownIn, Block.shown]
  · simpa [Piece.shown] using h

mutual

theorem shown_piecesOfBlock : (b : Block) → shownByPieces (piecesOfBlock links b) = b.shown links
  | .heading _ body | .paragraph body => by
    simp [piecesOfBlock, Block.shown, Piece.shown, shown_piecesOfSpans]
  | .code source language => by
    simp [piecesOfBlock, Block.shown, Piece.shown, shown_languageAttributes]
  | .math _ | .raw _ | .rule => by simp [piecesOfBlock, Block.shown, Piece.shown]
  | .list kind items => by
    simp [piecesOfBlock, Block.shown, Piece.shown, shown_startAttributes, shown_piecesOfItems items]
  | .quote body => by simp [piecesOfBlock, Block.shown, Piece.shown, shown_piecesOfBlocks body]
  | .table alignments header rows => by
    have hheader := shown_piecesOfCells "th" alignments header
    have hrows := shown_piecesOfRows alignments rows
    cases header with
    | nil => simp [piecesOfBlock, Block.shown, Piece.shown, hrows, shownInCells]
    | cons cell cells => simp [piecesOfBlock, Block.shown, Piece.shown, hrows, hheader]

/-- The pieces show the strings of the document. -/
theorem shown_piecesOfBlocks : (blocks : List Block) →
    shownByPieces (piecesOfBlocks links blocks) = shownIn links blocks
  | [] => rfl
  | b :: bs => by
    simp [piecesOfBlocks, shownIn, shown_piecesOfBlock b, shown_piecesOfBlocks bs]

theorem shown_piecesOfItems : (items : List (List Block)) →
    shownByPieces (piecesOfItems links items) = shownInCells links items
  | [] => rfl
  | item :: items => by
    have hitem := shown_piecesOfItem links (shown_piecesOfBlocks item)
    simp [piecesOfItems, shownInCells, Piece.shown, hitem, shown_piecesOfItems items]

theorem shown_piecesOfCells (name : String) (alignments : List Alignment) :
    (cells : List (List Block)) →
    shownByPieces (piecesOfCells links name alignments cells) = shownInCells links cells
  | [] => rfl
  | cell :: cells => by
    have hcell := shown_piecesOfItem links (shown_piecesOfBlocks cell)
    have hcells := shown_piecesOfCells name alignments.tail cells
    simp [piecesOfCells, shownInCells, shown_alignmentAttributes, hcell, hcells]

theorem shown_piecesOfRows (alignments : List Alignment) : (rows : List (List (List Block))) →
    shownByPieces (piecesOfRows links alignments rows) = shownInRows links rows
  | [] => rfl
  | row :: rows => by
    simp [piecesOfRows, shownInRows, Piece.shown, shown_piecesOfCells "td" alignments row,
      shown_piecesOfRows alignments rows]

end

end

/-! ### The tags follow the shape of the document -/

/-- A tag with the names of its attributes. -/
inductive Tag where
  | opening (name : String) (attributes : List String)
  | closing (name : String)
deriving Repr, DecidableEq

def Token.tag? : Token → Option Tag
  | .char _ => none
  | .opening name attributes => some (.opening name (attributes.map Prod.fst))
  | .closing name => some (.closing name)

def tagsOf (pieces : List Piece) : List Tag :=
  (pieces.flatMap Piece.tokens).filterMap Token.tag?

@[simp] theorem tagsOf_nil : tagsOf [] = [] := rfl

@[simp] theorem tagsOf_append (ps qs : List Piece) :
    tagsOf (ps ++ qs) = tagsOf ps ++ tagsOf qs := by
  simp [tagsOf]

@[simp] theorem tagsOf_text (s : String) (ps : List Piece) :
    tagsOf (.text s :: ps) = tagsOf ps := by
  simp [tagsOf, Piece.tokens, Token.tag?]

@[simp] theorem tagsOf_own (s : String) (ps : List Piece) : tagsOf (.own s :: ps) = tagsOf ps := by
  simp [tagsOf, Piece.tokens, Token.tag?]

@[simp] theorem tagsOf_opening (name : String) (attributes : List Attribute) (ps : List Piece) :
    tagsOf (.opening name attributes :: ps) =
      .opening name (attributes.map Attribute.name) :: tagsOf ps := by
  simp [tagsOf, Piece.tokens, Token.tag?, Function.comp_def]

@[simp] theorem tagsOf_element (name : String) (attributes : List Attribute) (ps : List Piece) :
    tagsOf (elementPieces name attributes ps) =
      .opening name (attributes.map Attribute.name) :: tagsOf ps ++ [.closing name] := by
  have hclosing : tagsOf [.closing name] = [.closing name] := rfl
  simp [elementPieces, hclosing]

@[simp] theorem tagsOf_math (source : String) (display : Bool) :
    tagsOf (mathPieces source display) = [] := by
  cases display <;> simp [mathPieces]

@[simp] theorem name_titleAttributes (title : Option String) :
    (titleAttributes (blanked title)).map Attribute.name =
      (titleAttributes title).map Attribute.name := by
  cases title <;> rfl

@[simp] theorem name_languageAttributes (language : Option String) :
    (languageAttributes (blanked language)).map Attribute.name =
      (languageAttributes language).map Attribute.name := by
  cases language <;> rfl

section

variable (links : LinkTable)

mutual

theorem tagsOf_outlineSpan : (s : Span) →
    tagsOf (piecesOfSpan ∅ (s.outline links)) = tagsOf (piecesOfSpan links s)
  | .text _ | .code _ | .raw _ | .lineBreak | .math _ _ => by simp [piecesOfSpan, Span.outline]
  | .strong body | .emphasis body => by
    simp [piecesOfSpan, Span.outline, tagsOf_outlineSpans body]
  | .link body url title => by
    simp [piecesOfSpan, Span.outline, linkAttributes, tagsOf_outlineSpans body]
  | .linkReference body written key => by
    rw [piecesOfSpan, Span.outline]
    cases links.get? key with
    | some target => simp [piecesOfSpan, linkAttributes, tagsOf_outlineSpans body]
    | none => simp [piecesOfSpan]
  | .image alt url title => by simp [piecesOfSpan, Span.outline, imageAttributes]
  | .imageReference alt written key => by
    rw [piecesOfSpan, Span.outline]
    cases links.get? key with
    | some target => simp [piecesOfSpan, imageAttributes]
    | none => simp [piecesOfSpan]

theorem tagsOf_outlineSpans : (spans : List Span) →
    tagsOf (piecesOfSpans ∅ (outlineSpans links spans)) = tagsOf (piecesOfSpans links spans)
  | [] => rfl
  | s :: rest => by
    simp [piecesOfSpans, outlineSpans, tagsOf_outlineSpan s, tagsOf_outlineSpans rest]

end

/-- A block is a paragraph just if its outline is one. -/
theorem exists_outline_eq_paragraph {b : Block} {body : List Span}
    (h : b.outline links = .paragraph body) : ∃ spans, b = .paragraph spans := by
  cases b with
  | paragraph spans => exact ⟨spans, rfl⟩
  | _ => simp [Block.outline] at h

theorem tagsOf_outlineItem {item : List Block}
    (h : tagsOf (piecesOfBlocks ∅ (outline links item)) = tagsOf (piecesOfBlocks links item)) :
    tagsOf (piecesOfItem ∅ (outline links item) (piecesOfBlocks ∅ (outline links item))) =
      tagsOf (piecesOfItem links item (piecesOfBlocks links item)) := by
  obtain ⟨body, rfl⟩ | ⟨-, hpieces⟩ := writeItem_cases links item (piecesOfBlocks links item)
  · exact tagsOf_outlineSpans links body
  · obtain ⟨body, hbody⟩ | ⟨-, houtline⟩ :=
      writeItem_cases ∅ (outline links item) (piecesOfBlocks ∅ (outline links item))
    · match item with
      | [] => cases hbody
      | [b] =>
        simp only [outline, List.cons.injEq, and_true] at hbody
        obtain ⟨spans, rfl⟩ := exists_outline_eq_paragraph links hbody
        exact tagsOf_outlineSpans links spans
      | _ :: _ :: _ => simp [outline] at hbody
    · rw [hpieces, houtline, tagsOf_own, tagsOf_own, h]

mutual

theorem tagsOf_outlineBlock : (b : Block) →
    tagsOf (piecesOfBlock ∅ (b.outline links)) = tagsOf (piecesOfBlock links b)
  | .heading _ body | .paragraph body => by
    simp [piecesOfBlock, Block.outline, tagsOf_outlineSpans]
  | .code _ _ | .math _ | .raw _ | .rule => by simp [piecesOfBlock, Block.outline]
  | .list kind items => by simp [piecesOfBlock, Block.outline, tagsOf_outlineItems items]
  | .quote body => by simp [piecesOfBlock, Block.outline, tagsOf_outlineBlocks body]
  | .table alignments header rows => by
    have hheader := tagsOf_outlineCells "th" alignments header
    have hrows := tagsOf_outlineRows alignments rows
    cases header with
    | nil => simp [piecesOfBlock, Block.outline, outlineCells, hrows]
    | cons cell cells =>
      rw [outlineCells] at hheader
      simp [piecesOfBlock, Block.outline, outlineCells, hrows, hheader]

/-- The tags of a document are those of its outline. -/
theorem tagsOf_outlineBlocks : (blocks : List Block) →
    tagsOf (piecesOfBlocks ∅ (outline links blocks)) = tagsOf (piecesOfBlocks links blocks)
  | [] => rfl
  | b :: bs => by
    simp [piecesOfBlocks, outline, tagsOf_outlineBlock b, tagsOf_outlineBlocks bs]

theorem tagsOf_outlineItems : (items : List (List Block)) →
    tagsOf (piecesOfItems ∅ (outlineCells links items)) = tagsOf (piecesOfItems links items)
  | [] => rfl
  | item :: items => by
    have hitem := tagsOf_outlineItem links (tagsOf_outlineBlocks item)
    simp [piecesOfItems, outlineCells, hitem, tagsOf_outlineItems items]

theorem tagsOf_outlineCells (name : String) (alignments : List Alignment) :
    (cells : List (List Block)) →
    tagsOf (piecesOfCells ∅ name alignments (outlineCells links cells)) =
      tagsOf (piecesOfCells links name alignments cells)
  | [] => rfl
  | cell :: cells => by
    have hcell := tagsOf_outlineItem links (tagsOf_outlineBlocks cell)
    have hcells := tagsOf_outlineCells name alignments.tail cells
    simp [piecesOfCells, outlineCells, hcell, hcells]

theorem tagsOf_outlineRows (alignments : List Alignment) : (rows : List (List (List Block))) →
    tagsOf (piecesOfRows ∅ alignments (outlineRows links rows)) =
      tagsOf (piecesOfRows links alignments rows)
  | [] => rfl
  | row :: rows => by
    simp [piecesOfRows, outlineRows, tagsOf_outlineCells "td" alignments row,
      tagsOf_outlineRows alignments rows]

end

end

/-! ### Text and tags -/

/-- A document is read as tags and text. Elements are closed in the order in which they were opened,
the tags and the names of the attributes are those that the outline of the document calls for, and
the text and the values are the strings that the document shows, to which the writer adds nothing
but line feeds, the marks around mathematics and its own settings in attributes. -/
theorem text_is_no_markup (links : LinkTable) (blocks : List Block)
    (h : ∀ p ∈ partsOf blocks, p.isRaw = false) :
    ∃ pieces : List Piece,
      read (writeBlocks links blocks) = some (pieces.flatMap Piece.tokens) ∧
        Balanced ((pieces.flatMap Piece.tokens).filterMap Token.bracket?) ∧
        (∀ links' blocks', (∀ p ∈ partsOf blocks', p.isRaw = false) →
          outline links' blocks' = outline links blocks →
          (read (writeBlocks links' blocks')).map (·.filterMap Token.tag?) =
            some ((pieces.flatMap Piece.tokens).filterMap Token.tag?)) ∧
        shownByPieces pieces = shownIn links blocks ∧
        ∀ p ∈ pieces, p.AddsOwn := by
  have hwritten := written_blocks links blocks h
  refine ⟨piecesOfBlocks links blocks, hwritten.read_eq, hwritten.balanced, ?_,
    shown_piecesOfBlocks links blocks, hwritten.addsOwn⟩
  intro links' blocks' h' houtline
  rw [(written_blocks links' blocks' h').read_eq, Option.map_some]
  change some (tagsOf _) = some (tagsOf _)
  rw [← tagsOf_outlineBlocks links', houtline, tagsOf_outlineBlocks]

/-- A label, and a document in which markup stands in every place for text. -/
def hostileLinks : LinkTable := LinkTable.empty.insert "home" ⟨"\"><script>", some "\" onload=\""⟩

/-- Text with markup in it, at every place where a document has text. -/
def hostileBlocks : List Block := [
  .heading 9 [.text "</h6><script>", .code "a && b"],
  .paragraph [.strong [.linkReference [.text "&lt;"] "[<][home]" "HOME"],
    .linkReference [.text "x"] "[<x>][nowhere]" "nowhere", .lineBreak,
    .image "\"" "a.png?x=1&y='2'" none, .math "x < y" false],
  .code "if (a < b) \x7b\x7d" (some "c\"c"),
  .list (.numbered 4) [[.paragraph [.text "<li>"]], [.math "\\]", .rule]],
  .quote [.table [.center] [[.paragraph [.text "</th>"]]] [[[], [.paragraph []]]]]]

theorem text_of_hostileBlocks :
    (∀ p ∈ partsOf hostileBlocks, p.isRaw = false) ∧
      ∃ pieces : List Piece,
        read (writeBlocks hostileLinks hostileBlocks) = some (pieces.flatMap Piece.tokens) ∧
          Balanced ((pieces.flatMap Piece.tokens).filterMap Token.bracket?) ∧
          (∀ links' blocks', (∀ p ∈ partsOf blocks', p.isRaw = false) →
            outline links' blocks' = outline hostileLinks hostileBlocks →
            (read (writeBlocks links' blocks')).map (·.filterMap Token.tag?) =
              some ((pieces.flatMap Piece.tokens).filterMap Token.tag?)) ∧
          shownByPieces pieces = shownIn hostileLinks hostileBlocks ∧
          ∀ p ∈ pieces, p.AddsOwn := by
  have h : ∀ p ∈ partsOf hostileBlocks, p.isRaw = false := by decide
  exact ⟨h, text_is_no_markup hostileLinks hostileBlocks h⟩

/-- The writer adds line feeds and the marks around mathematics, and sets nothing in attributes. -/
def Piece.AddsMarks : Piece → Prop
  | .own s => s ∈ additions
  | .opening _ attributes => ∀ a ∈ attributes, a.own = ""
  | .text _ | .closing _ => True

/-- Code in a language, displayed mathematics, a list from four on and a centred cell. -/
def settingBlocks : List Block := [
  .code "x" (some "l"),
  .math "m",
  .list (.numbered 4) [[.paragraph [.text "i"]]],
  .table [.center] [] [[[.paragraph [.text "c"]]]]]

/-- The values of attributes hold more than the strings of the document. -/
theorem attributes_hold_settings : ¬ ∀ links blocks,
    (∀ p ∈ partsOf blocks, p.isRaw = false) → ∃ pieces : List Piece,
      read (writeBlocks links blocks) = some (pieces.flatMap Piece.tokens) ∧
        shownByPieces pieces = shownIn links blocks ∧ ∀ p ∈ pieces, p.AddsMarks := by
  intro h
  obtain ⟨pieces, hread, hshown, hmarks⟩ := h ∅ settingBlocks (by decide)
  -- the language is read with its prefix, and so would have to be a string of the document
  have htoken : Token.opening "code" [("class", "language-l")] ∈ pieces.flatMap Piece.tokens := by
    have hmem : ∃ tokens, read (writeBlocks ∅ settingBlocks) = some tokens ∧
        Token.opening "code" [("class", "language-l")] ∈ tokens :=
      ⟨_, (written_blocks ∅ settingBlocks (by decide)).read_eq, by decide +kernel⟩
    obtain ⟨tokens, htokens, hmem⟩ := hmem
    rw [hread] at htokens
    exact Option.some.inj htokens ▸ hmem
  obtain ⟨p, hp, hp'⟩ := List.mem_flatMap.1 htoken
  have hstring : "language-l" ∈ p.shown := by
    cases p with
    | opening name attributes =>
      simp only [Piece.tokens, List.mem_singleton, Token.opening.injEq] at hp'
      obtain ⟨a, ha, hvalue⟩ := List.map_eq_singleton_iff.1 hp'.2.symm
      have hown : a.own = "" := hmarks _ hp a (by simp [ha])
      have hval : a.own ++ a.shown.getD "" = "language-l" := congrArg Prod.snd hvalue
      rw [hown, String.empty_append] at hval
      cases hsome : a.shown with
      | none => rw [hsome] at hval; exact absurd hval (by decide)
      | some s =>
        rw [hsome, Option.getD_some] at hval
        exact List.mem_filterMap.2 ⟨a, by simp [ha], by rw [hsome, hval]⟩
    | text s | own s | closing s => simp [Piece.tokens] at hp'
  have hall : "language-l" ∈ shownIn ∅ settingBlocks :=
    hshown ▸ List.mem_flatMap.2 ⟨p, hp, hstring⟩
  exact absurd hall (by decide +kernel)

end Html

end LiterateJournal
