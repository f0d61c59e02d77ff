import LiterateJournal.Proofs.Output.HtmlPieces

/-!
# The numbers of list items

The items of a numbered list count from the number of the first one, whatever stands in them. On an
HTML page they are counted by the browser, which keeps the next number of every open list.

## Main definitions

* `numbersOf` — the numbers of a document's list items.
* `Html.numbers` — the numbers that a browser shows.

## Main statements

* `Html.numbers_eq` — the browser shows the numbers of the document.
-/

namespace LiterateJournal

/-! ### The numbers of a document -/

def ListKind.first? : ListKind → Option Nat
  | .numbered start => some start.toNat
  | .bulleted => none

mutual

/-- The numbers of the list items in a block, in the order of the text. An item of a bulleted list
has none. -/
def Block.numbers : Block → List (Option Nat)
  | .list kind items => numbersInItems kind.first? items
  | .quote body => numbersOf body
  | .table _ header rows => numbersInCells header ++ numbersInRows rows
  | .heading _ _ | .paragraph _ | .code _ _ | .raw _ | .math _ | .rule => []

def numbersOf : List Block → List (Option Nat)
  | [] => []
  | b :: bs => b.numbers ++ numbersOf bs

/-- The numbers of a list's items, of which the first one is given, and of the items in them. -/
def numbersInItems (number : Option Nat) : List (List Block) → List (Option Nat)
  | [] => []
  | item :: items => number :: numbersOf item ++ numbersInItems (number.map (· + 1)) items

def numbersInCells : List (List Block) → List (Option Nat)
  | [] => []
  | cell :: cells => numbersOf cell ++ numbersInCells cells

def numbersInRows : List (List (List Block)) → List (Option Nat)
  | [] => []
  | row :: rows => numbersInCells row ++ numbersInRows rows

end

def decimal? (cs : List Char) : Option Nat :=
  if cs ≠ [] ∧ cs.all Char.isDigit then some (Nat.ofDigitChars 10 cs 0) else none

theorem decimal?_toDigits (n : Nat) : decimal? (Nat.toDigits 10 n) = some n := by
  have hall : (Nat.toDigits 10 n).all Char.isDigit = true :=
    List.all_eq_true.2 fun c hc => Nat.isDigit_of_mem_toDigits (by decide) (by decide) hc
  rw [decimal?, if_pos ⟨Nat.toDigits_ne_nil, hall⟩, Nat.ofDigitChars_ten_toDigits]

namespace Html

open Scanner

/-! ### Counting items -/

def startNumber (attributes : List (String × String)) : Nat :=
  ((attributes.lookup "start").bind fun value => decimal? value.toList).getD 1

/-- What a token does to the open lists, innermost first, each with the number of its next item. -/
def count : Scanner (List (Option Nat)) Token (Option Nat)
  | lists, .char _ => some ([], lists)
  | lists, .opening name attributes =>
    if name = "ol" then some ([], some (startNumber attributes) :: lists)
    else if name = "ul" then some ([], none :: lists)
    else if name = "li" then
      match lists with
      | number :: outer => some ([number], number.map (· + 1) :: outer)
      | [] => none
    else some ([], lists)
  | lists, .closing name =>
    if name = "ol" ∨ name = "ul" then
      match lists with
      | _ :: outer => some ([], outer)
      | [] => none
    else some ([], lists)

def numbers (page : String) : Option (List (Option Nat)) :=
  (read page).bind fun tokens => (Scanner.run count [] tokens).map Prod.fst

/-- Some pieces show some numbers, wherever they stand. -/
def Counts (ps : List Piece) (ns : List (Option Nat)) : Prop :=
  ∀ lists, Leads count lists (ps.flatMap Piece.tokens) ns lists

def listElements : List String := ["ol", "ul", "li"]

namespace Counts

variable {ps qs : List Piece} {ms ns : List (Option Nat)} {name : String}

theorem empty : Counts [] [] := fun lists => Leads.refl count lists

theorem append (hp : Counts ps ms) (hq : Counts qs ns) : Counts (ps ++ qs) (ms ++ ns) := by
  intro lists
  rw [List.flatMap_append]
  exact (hp lists).append (hq lists)

theorem chars (s : String) : ∀ lists, Leads count lists (s.toList.map Token.char) [] lists := by
  intro lists
  induction s.toList with
  | nil => exact Leads.refl count lists
  | cons c cs ih =>
    have hc : count lists (.char c) = some ([], lists) := rfl
    exact Leads.cons hc ih

theorem text (s : String) : Counts [.text s] [] := fun lists => by
  simpa [Piece.tokens] using chars s lists

theorem own (s : String) : Counts [.own s] [] := fun lists => by
  simpa [Piece.tokens] using chars s lists

/-- Text of the writer between other pieces. -/
theorem line (s : String) (hp : Counts ps ns) : Counts (ps ++ [.own s]) ns := by
  simpa using hp.append (own s)

theorem afterLine (s : String) (hp : Counts ps ns) : Counts (.own s :: ps) ns :=
  (own s).append hp

theorem opening (hname : name ∉ listElements) (attributes : List Attribute) :
    Counts [.opening name attributes] [] := by
  intro lists
  simp only [listElements, List.mem_cons, List.not_mem_nil, or_false, not_or] at hname
  exact Leads.single (by simp [count, hname])

theorem closing (hname : name ∉ listElements) : Counts [.closing name] [] := by
  intro lists
  simp only [listElements, List.mem_cons, List.not_mem_nil, or_false, not_or] at hname
  exact Leads.single (by simp [count, hname])

/-- An element that is not part of a list. -/
theorem element (hname : name ∉ listElements) (attributes : List Attribute) (hp : Counts ps ns) :
    Counts (elementPieces name attributes ps) ns := by
  simpa [elementPieces] using ((opening hname attributes).append hp).append (closing hname)

theorem math (source : String) (display : Bool) : Counts (mathPieces source display) [] := by
  cases display
  · exact ((own _).append (text source)).append (own _)
  · exact ((own _).append (text source)).append (own _)

end Counts

theorem headingElement_notMem (level : UInt8) : headingElement level ∉ listElements := by
  have hall : ∀ n ∈ [1, 2, 3, 4, 5, 6], "h" ++ toString n ∉ listElements := by decide
  refine hall (max 1 (min 6 level.toNat)) ?_
  simp only [List.mem_cons, List.not_mem_nil, or_false]
  omega

theorem startNumber_startAttributes (start : UInt64) :
    startNumber ((startAttributes (.numbered start)).map fun a => (a.name, a.value)) =
      start.toNat := by
  rw [startAttributes]
  split
  · rename_i h
    subst h
    rfl
  · simp [startNumber, Attribute.value, decimal?_toDigits]

/-- The pieces of a list's items show numbers that depend on the number of the first one. -/
def CountsItems (ps : List Piece) (ns : Option Nat → List (Option Nat)) : Prop :=
  ∀ number lists, ∃ next,
    Leads count (number :: lists) (ps.flatMap Piece.tokens) (ns number) (next :: lists)

/-- An item before others takes a number and leaves the next one to them. -/
theorem CountsItems.cons {ps qs : List Piece} {ms : List (Option Nat)}
    {ns : Option Nat → List (Option Nat)} (hqs : CountsItems qs ns) (hps : Counts ps ms) :
    CountsItems (elementPieces "li" [] ps ++ .own "\n" :: qs)
      fun number => number :: ms ++ ns (number.map (· + 1)) := by
  intro number lists
  obtain ⟨next, hnext⟩ := hqs (number.map (· + 1)) lists
  have hopening : Leads count (number :: lists) [.opening "li" []] [number]
      (number.map (· + 1) :: lists) := rfl
  have hclosing : Leads count (number.map (· + 1) :: lists) [.closing "li"] []
      (number.map (· + 1) :: lists) := rfl
  have hline := Counts.own "\n" (number.map (· + 1) :: lists)
  refine ⟨next, ?_⟩
  simpa [elementPieces, Piece.tokens] using
    (((hopening.append (hps _)).append hclosing).append hline).append hnext

/-- A list shows its items from its first number on. -/
theorem counts_list (kind : ListKind) {ps : List Piece} {ns : Option Nat → List (Option Nat)}
    (h : CountsItems ps ns) :
    Counts (elementPieces (listElement kind) (startAttributes kind) (.own "\n" :: ps))
      (ns kind.first?) := by
  intro lists
  have hopening : Leads count lists
      [.opening (listElement kind) ((startAttributes kind).map fun a => (a.name, a.value))] []
      (kind.first? :: lists) := by
    refine Leads.single ?_
    cases kind with
    | bulleted => rfl
    | numbered start =>
      have hstart := startNumber_startAttributes start
      simp only [listElement, count, if_true, hstart]
      rfl
  obtain ⟨next, hitems⟩ := h kind.first? lists
  have hclosing : Leads count (next :: lists) [.closing (listElement kind)] [] lists := by
    cases kind <;> rfl
  have hline := Counts.own "\n" (kind.first? :: lists)
  simpa [elementPieces, Piece.tokens] using
    ((hopening.append hline).append hitems).append hclosing

section

variable (links : LinkTable)

mutual

theorem counts_span : (s : Span) → Counts (piecesOfSpan links s) []
  | .text s => .text s
  | .code s => .element (by decide) [] (.text s)
  | .strong body | .emphasis body => .element (by decide) [] (counts_spans body)
  | .math source display => .math source display
  | .raw _ => .empty
  | .link body url title => .element (by decide) _ (counts_spans body)
  | .linkReference body written key => by
    rw [piecesOfSpan]
    split
    · exact .element (by decide) _ (counts_spans body)
    · exact .text written
  | .image alt url title => .opening (by decide) _
  | .imageReference alt written key => by
    rw [piecesOfSpan]
    split
    · exact .opening (by decide) _
    · exact .text written
  | .lineBreak => .line _ (.opening (by decide) [])

theorem counts_spans : (spans : List Span) → Counts (piecesOfSpans links spans) []
  | [] => .empty
  | s :: rest => .append (counts_span s) (counts_spans rest)

end

/-- The blocks of an item show their numbers; a paragraph alone has none. -/
theorem counts_item {item : List Block} (h : Counts (piecesOfBlocks links item) (numbersOf item)) :
    Counts (piecesOfItem links item (piecesOfBlocks links item)) (numbersOf item) := by
  unfold piecesOfItem
  split
  · exact counts_spans links _
  · exact .afterLine _ h

mutual

theorem counts_block : (b : Block) → Counts (piecesOfBlock links b) b.numbers
  | .heading level body => by
    rw [piecesOfBlock, Block.numbers]
    exact .line _ (.element (headingElement_notMem level) [] (counts_spans links body))
  | .paragraph body => by
    rw [piecesOfBlock, Block.numbers]
    exact .line _ (.element (by decide) [] (counts_spans links body))
  | .code source language => by
    rw [piecesOfBlock, Block.numbers]
    exact .line _ (.element (by decide) [] (.element (by decide) _ (.text source)))
  | .raw markup => by
    rw [piecesOfBlock, Block.numbers]
    exact .empty
  | .math source => by
    rw [piecesOfBlock, Block.numbers]
    exact .line _ (.element (by decide) _ (.math source true))
  | .rule => by
    rw [piecesOfBlock, Block.numbers]
    exact .line _ (.opening (by decide) [])
  | .list kind items => by
    rw [piecesOfBlock, Block.numbers]
    exact .line _ (counts_list kind (counts_items items))
  | .quote body => by
    rw [piecesOfBlock, Block.numbers]
    exact .line _ (.element (by decide) [] (.afterLine _ (counts_blocks body)))
  | .table alignments header rows => by
    have hheader := counts_cells (by decide : "th" ∉ listElements) alignments header
    have hrows := counts_rows alignments rows
    have hbody := (hrows.afterLine "\n").element (by decide : "tbody" ∉ listElements) []
    rw [piecesOfBlock, Block.numbers]
    refine .line _ (.element (by decide) [] (.afterLine _ (.append ?_ (hbody.line _))))
    cases header with
    | nil => exact .empty
    | cons cell cells => exact .line _ (.element (by decide) [] (.element (by decide) [] hheader))

theorem counts_blocks : (blocks : List Block) →
    Counts (piecesOfBlocks links blocks) (numbersOf blocks)
  | [] => by
    rw [piecesOfBlocks, numbersOf]
    exact .empty
  | b :: bs => by
    rw [piecesOfBlocks, numbersOf]
    exact .append (counts_block b) (counts_blocks bs)

theorem counts_items : (items : List (List Block)) →
    CountsItems (piecesOfItems links items) fun number => numbersInItems number items
  | [] => by
    intro number lists
    exact ⟨number, Leads.refl count _⟩
  | item :: items => by
    have hitem := counts_item links (counts_blocks item)
    have hitems := counts_items items
    simp only [piecesOfItems, numbersInItems]
    exact hitems.cons hitem

theorem counts_cells {name : String} (hname : name ∉ listElements)
    (alignments : List Alignment) : (cells : List (List Block)) →
    Counts (piecesOfCells links name alignments cells) (numbersInCells cells)
  | [] => by
    rw [piecesOfCells, numbersInCells]
    exact .empty
  | cell :: cells => by
    rw [piecesOfCells, numbersInCells]
    exact .append (.element hname _ (counts_item links (counts_blocks cell)))
      (counts_cells hname alignments.tail cells)

theorem counts_rows (alignments : List Alignment) : (rows : List (List (List Block))) →
    Counts (piecesOfRows links alignments rows) (numbersInRows rows)
  | [] => by
    rw [piecesOfRows, numbersInRows]
    exact .empty
  | row :: rows => by
    rw [piecesOfRows, numbersInRows]
    exact .append (.element (by decide) [] (counts_cells (by decide) alignments row))
      (.afterLine _ (counts_rows alignments rows))

end

end

/-- The browser shows the numbers of the document. -/
theorem numbers_eq (links : LinkTable) {blocks : List Block}
    (h : ∀ p ∈ partsOf blocks, p.isRaw = false) :
    numbers (writeBlocks links blocks) = some (numbersOf blocks) := by
  rw [numbers, (written_blocks links blocks h).read_eq, Option.bind_some,
    counts_blocks links blocks [], Option.map_some]

end Html

end LiterateJournal
