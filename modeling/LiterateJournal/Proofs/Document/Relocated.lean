import Mathlib.Data.List.Forall2
import LiterateJournal.Document.Title
import LiterateJournal.Proofs.Images.Fetching
import LiterateJournal.Proofs.Output.Parts

/-!
# Documents whose images have moved

A document whose images have moved is the same document but for the addresses of its images, and
but for images by label, which are given an address where their label is defined. The text that it
shows is the same.

## Main definitions

* `Span.Relocated`, `Block.Relocated` — a span and a block whose images have moved.
* `bodiesIn` — the sequences of spans in a document.

## Main statements

* `title?_relocated`, `plainText_bodiesIn_relocated` — the title and the text of every line stay.
* `eq_of_relocated_twice` — images that have moved and then stay.
-/

namespace LiterateJournal

/-! ### Spans and blocks -/

section

variable (links : LinkTable) (R : String → String → Prop)

/-- A span and what has become of it. `R url path` says that the image at `url` may move to
`path`. -/
inductive Span.Relocated : Span → Span → Prop
  | text (s : String) : Relocated (.text s) (.text s)
  | code (s : String) : Relocated (.code s) (.code s)
  | strong {body body' : List Span} : List.Forall₂ Relocated body body' →
    Relocated (.strong body) (.strong body')
  | emphasis {body body' : List Span} : List.Forall₂ Relocated body body' →
    Relocated (.emphasis body) (.emphasis body')
  | math (source : String) (display : Bool) :
    Relocated (.math source display) (.math source display)
  | raw (s : String) : Relocated (.raw s) (.raw s)
  | link {body body' : List Span} (url : String) (title : Option String) :
    List.Forall₂ Relocated body body' → Relocated (.link body url title) (.link body' url title)
  | linkReference {body body' : List Span} (written key : String) :
    List.Forall₂ Relocated body body' →
    Relocated (.linkReference body written key) (.linkReference body' written key)
  | image (alt : String) {url path : String} (title : Option String) :
    R url path → Relocated (.image alt url title) (.image alt path title)
  /-- An image by label has the title of the definition. -/
  | imageReference (alt written : String) {key path : String} {target : LinkTarget} :
    links.get? key = some target → R target.url path →
    Relocated (.imageReference alt written key) (.image alt path target.title)
  | undefinedReference (alt written : String) {key : String} : links.get? key = none →
    Relocated (.imageReference alt written key) (.imageReference alt written key)
  | lineBreak : Relocated .lineBreak .lineBreak

inductive Block.Relocated : Block → Block → Prop
  | heading (level : UInt8) {body body' : List Span} :
    List.Forall₂ (Span.Relocated links R) body body' →
    Relocated (.heading level body) (.heading level body')
  | paragraph {body body' : List Span} : List.Forall₂ (Span.Relocated links R) body body' →
    Relocated (.paragraph body) (.paragraph body')
  | code (source : String) (language : Option String) :
    Relocated (.code source language) (.code source language)
  | raw (markup : String) : Relocated (.raw markup) (.raw markup)
  | math (source : String) : Relocated (.math source) (.math source)
  | rule : Relocated .rule .rule
  | list (kind : ListKind) {items items' : List (List Block)} :
    List.Forall₂ (List.Forall₂ Relocated) items items' →
    Relocated (.list kind items) (.list kind items')
  | quote {body body' : List Block} : List.Forall₂ Relocated body body' →
    Relocated (.quote body) (.quote body')
  | table (alignments : List Alignment) {header header' : List (List Block)}
      {rows rows' : List (List (List Block))} :
    List.Forall₂ (List.Forall₂ Relocated) header header' →
    List.Forall₂ (List.Forall₂ (List.Forall₂ Relocated)) rows rows' →
    Relocated (.table alignments header rows) (.table alignments header' rows')

end

section

variable {links : LinkTable} {R : String → String → Prop}

/-! ### Text -/

mutual

theorem plainText_relocatedSpan : (s : Span) → {s' : Span} → s.Relocated links R s' →
    s'.plainText = s.plainText
  | .strong body, _, h => by
    cases h with
    | strong hbody => exact plainTexts_relocated body hbody
  | .emphasis body, _, h => by
    cases h with
    | emphasis hbody => exact plainTexts_relocated body hbody
  | .link body url title, _, h => by
    cases h with
    | link _ _ hbody => exact plainTexts_relocated body hbody
  | .linkReference body written key, _, h => by
    cases h with
    | linkReference _ _ hbody => exact plainTexts_relocated body hbody
  | .image .., _, h | .imageReference .., _, h | .text _, _, h | .code _, _, h | .math .., _, h
  | .raw _, _, h | .lineBreak, _, h => by
    cases h <;> rfl

theorem plainTexts_relocated : (spans : List Span) → {spans' : List Span} →
    List.Forall₂ (Span.Relocated links R) spans spans' →
    Span.plainTexts spans' = Span.plainTexts spans
  | [], _, .nil => rfl
  | s :: rest, _, .cons hs hrest => by
    rw [Span.plainTexts, Span.plainTexts, plainText_relocatedSpan s hs,
      plainTexts_relocated rest hrest]

end

theorem plainText_relocated {spans spans' : List Span}
    (h : List.Forall₂ (Span.Relocated links R) spans spans') :
    plainText spans' = plainText spans :=
  plainTexts_relocated spans h

mutual

theorem title?_relocatedBlock : (b : Block) → {b' : Block} → b.Relocated links R b' →
    b'.title? = b.title?
  | .heading level body, _, h => by
    cases h with
    | heading _ hbody => rw [Block.title?, Block.title?, plainText_relocated hbody]
  | .list kind items, _, h => by
    cases h with
    | list _ hitems => exact titleInCells?_relocated items hitems
  | .quote body, _, h => by
    cases h with
    | quote hbody => exact title?_relocated body hbody
  | .table alignments header rows, _, h => by
    cases h with
    | table _ hheader hrows =>
      rw [Block.title?, Block.title?, titleInCells?_relocated header hheader,
        titleInRows?_relocated rows hrows]
  | .paragraph _, _, h | .code .., _, h | .raw _, _, h | .math _, _, h | .rule, _, h => by
    cases h
    rfl

/-- A document keeps its title. -/
theorem title?_relocated : (blocks : List Block) → {blocks' : List Block} →
    List.Forall₂ (Block.Relocated links R) blocks blocks' → title? blocks' = title? blocks
  | [], _, .nil => rfl
  | b :: bs, _, .cons hb hbs => by
    rw [title?, title?, title?_relocatedBlock b hb, title?_relocated bs hbs]

theorem titleInCells?_relocated : (cells : List (List Block)) → {cells' : List (List Block)} →
    List.Forall₂ (List.Forall₂ (Block.Relocated links R)) cells cells' →
    titleInCells? cells' = titleInCells? cells
  | [], _, .nil => rfl
  | c :: cs, _, .cons hc hcs => by
    rw [titleInCells?, titleInCells?, title?_relocated c hc, titleInCells?_relocated cs hcs]

theorem titleInRows?_relocated : (rows : List (List (List Block))) →
    {rows' : List (List (List Block))} →
    List.Forall₂ (List.Forall₂ (List.Forall₂ (Block.Relocated links R))) rows rows' →
    titleInRows? rows' = titleInRows? rows
  | [], _, .nil => rfl
  | r :: rs, _, .cons hr hrs => by
    rw [titleInRows?, titleInRows?, titleInCells?_relocated r hr, titleInRows?_relocated rs hrs]

end

/-! ### Parts -/

/-- A part of a document and what has become of it. -/
inductive Part.Relocated (links : LinkTable) (R : String → String → Prop) : Part → Part → Prop
  | block {b b' : Block} : b.Relocated links R b' → Relocated links R (.block b) (.block b')
  | span {s s' : Span} : s.Relocated links R s' → Relocated links R (.span s) (.span s')

mutual

theorem relocated_withInner : (s : Span) → {s' : Span} → s.Relocated links R s' →
    List.Forall₂ (Span.Relocated links R) s.withInner s'.withInner
  | .strong body, _, h => by
    cases h with
    | strong hbody =>
      exact List.rel_append (relocated_innerSpans body hbody) (.cons (.strong hbody) .nil)
  | .emphasis body, _, h => by
    cases h with
    | emphasis hbody =>
      exact List.rel_append (relocated_innerSpans body hbody) (.cons (.emphasis hbody) .nil)
  | .link body url title, _, h => by
    cases h with
    | link _ _ hbody =>
      exact List.rel_append (relocated_innerSpans body hbody) (.cons (.link _ _ hbody) .nil)
  | .linkReference body written key, _, h => by
    cases h with
    | linkReference _ _ hbody =>
      exact List.rel_append (relocated_innerSpans body hbody)
        (.cons (.linkReference _ _ hbody) .nil)
  | .image .., _, h | .imageReference .., _, h | .text _, _, h | .code _, _, h | .math .., _, h
  | .raw _, _, h | .lineBreak, _, h => by
    have hself := h
    cases h <;> exact .cons hself .nil

theorem relocated_innerSpans : (spans : List Span) → {spans' : List Span} →
    List.Forall₂ (Span.Relocated links R) spans spans' →
    List.Forall₂ (Span.Relocated links R) (innerSpans spans) (innerSpans spans')
  | [], _, .nil => .nil
  | s :: rest, _, .cons hs hrest =>
    List.rel_append (relocated_withInner s hs) (relocated_innerSpans rest hrest)

end

theorem relocated_spanParts {spans spans' : List Span}
    (h : List.Forall₂ (Span.Relocated links R) spans spans') :
    List.Forall₂ (Part.Relocated links R) ((innerSpans spans).map .span)
      ((innerSpans spans').map .span) :=
  List.rel_map (R := Span.Relocated links R) (fun _ _ hs => .span hs)
    (relocated_innerSpans spans h)

mutual

theorem relocated_parts : (b : Block) → {b' : Block} → b.Relocated links R b' →
    List.Forall₂ (Part.Relocated links R) b.parts b'.parts
  | .heading level body, _, h => by
    cases h with
    | heading _ hbody => exact .cons (.block (.heading _ hbody)) (relocated_spanParts hbody)
  | .paragraph body, _, h => by
    cases h with
    | paragraph hbody => exact .cons (.block (.paragraph hbody)) (relocated_spanParts hbody)
  | .list kind items, _, h => by
    cases h with
    | list _ hitems =>
      exact .cons (.block (.list _ hitems)) (relocated_partsInCells items hitems)
  | .quote body, _, h => by
    cases h with
    | quote hbody => exact .cons (.block (.quote hbody)) (relocated_partsOf body hbody)
  | .table alignments header rows, _, h => by
    cases h with
    | table _ hheader hrows =>
      exact .cons (.block (.table _ hheader hrows))
        (List.rel_append (relocated_partsInCells header hheader)
          (relocated_partsInRows rows hrows))
  | .code .., _, h | .raw _, _, h | .math _, _, h | .rule, _, h => by
    cases h
    exact .cons (.block (by constructor)) .nil

/-- The parts of a document, each with what has become of it. -/
theorem relocated_partsOf : (blocks : List Block) → {blocks' : List Block} →
    List.Forall₂ (Block.Relocated links R) blocks blocks' →
    List.Forall₂ (Part.Relocated links R) (partsOf blocks) (partsOf blocks')
  | [], _, .nil => .nil
  | b :: bs, _, .cons hb hbs => List.rel_append (relocated_parts b hb) (relocated_partsOf bs hbs)

theorem relocated_partsInCells : (cells : List (List Block)) → {cells' : List (List Block)} →
    List.Forall₂ (List.Forall₂ (Block.Relocated links R)) cells cells' →
    List.Forall₂ (Part.Relocated links R) (partsInCells cells) (partsInCells cells')
  | [], _, .nil => .nil
  | c :: cs, _, .cons hc hcs =>
    List.rel_append (relocated_partsOf c hc) (relocated_partsInCells cs hcs)

theorem relocated_partsInRows : (rows : List (List (List Block))) →
    {rows' : List (List (List Block))} →
    List.Forall₂ (List.Forall₂ (List.Forall₂ (Block.Relocated links R))) rows rows' →
    List.Forall₂ (Part.Relocated links R) (partsInRows rows) (partsInRows rows')
  | [], _, .nil => .nil
  | r :: rs, _, .cons hr hrs =>
    List.rel_append (relocated_partsInCells r hr) (relocated_partsInRows rs hrs)

end

/-! ### Lines -/

def Part.body? : Part → Option (List Span)
  | .block (.heading _ body) | .block (.paragraph body) => some body
  | .span (.strong body) | .span (.emphasis body) => some body
  | .span (.link body _ _) | .span (.linkReference body _ _) => some body
  | _ => none

def bodiesIn (blocks : List Block) : List (List Span) := (partsOf blocks).filterMap Part.body?

theorem rel_body? {p p' : Part} (h : p.Relocated links R p') :
    Option.Rel (List.Forall₂ (Span.Relocated links R)) p.body? p'.body? := by
  cases h with
  | block h => cases h <;> constructor <;> assumption
  | span h => cases h <;> constructor <;> assumption

/-- Every sequence of spans keeps its text. -/
theorem plainText_bodiesIn_relocated {blocks blocks' : List Block}
    (h : List.Forall₂ (Block.Relocated links R) blocks blocks') :
    (bodiesIn blocks').map plainText = (bodiesIn blocks).map plainText := by
  have hbodies : List.Forall₂ (List.Forall₂ (Span.Relocated links R)) (bodiesIn blocks)
      (bodiesIn blocks') :=
    List.rel_filterMap (R := Part.Relocated links R) (fun _ _ hp => rel_body? hp)
      (relocated_partsOf blocks h)
  have htexts : List.Forall₂ Eq ((bodiesIn blocks).map plainText)
      ((bodiesIn blocks').map plainText) :=
    List.rel_map (R := List.Forall₂ (Span.Relocated links R))
      (fun _ _ hbody => (plainText_relocated hbody).symm) hbodies
  rw [List.forall₂_eq_eq_eq] at htexts
  exact htexts.symm

end

/-! ### Moving twice -/

section

variable {links : LinkTable} {R S : String → String → Prop}

/-- Where images move to by `R`, they stay by `S`. -/
def Stay (R S : String → String → Prop) : Prop :=
  ∀ ⦃url path path'⦄, R url path → S path path' → path' = path

mutual

theorem eq_of_relocatedSpan_twice (hstay : Stay R S) : (s : Span) → {s' s'' : Span} →
    s.Relocated links R s' → s'.Relocated links S s'' → s'' = s'
  | .strong body, _, _, h, h' => by
    cases h with
    | strong hbody =>
      cases h' with
      | strong hbody' => rw [eq_of_relocatedSpans_twice hstay body hbody hbody']
  | .emphasis body, _, _, h, h' => by
    cases h with
    | emphasis hbody =>
      cases h' with
      | emphasis hbody' => rw [eq_of_relocatedSpans_twice hstay body hbody hbody']
  | .link body url title, _, _, h, h' => by
    cases h with
    | link _ _ hbody =>
      cases h' with
      | link _ _ hbody' => rw [eq_of_relocatedSpans_twice hstay body hbody hbody']
  | .linkReference body written key, _, _, h, h' => by
    cases h with
    | linkReference _ _ hbody =>
      cases h' with
      | linkReference _ _ hbody' => rw [eq_of_relocatedSpans_twice hstay body hbody hbody']
  | .image alt url title, _, _, h, h' => by
    cases h with
    | image _ _ hpath =>
      cases h' with
      | image _ _ hpath' => rw [hstay hpath hpath']
  | .imageReference alt written key, _, _, h, h' => by
    cases h with
    | imageReference _ _ _ hpath =>
      cases h' with
      | image _ _ hpath' => rw [hstay hpath hpath']
    | undefinedReference _ _ hnone =>
      cases h' with
      | imageReference _ _ hsome =>
        rw [hnone] at hsome
        cases hsome
      | undefinedReference => rfl
  | .text _, _, _, h, h' | .code _, _, _, h, h' | .math .., _, _, h, h' | .raw _, _, _, h, h'
  | .lineBreak, _, _, h, h' => by
    cases h
    cases h'
    rfl

theorem eq_of_relocatedSpans_twice (hstay : Stay R S) : (spans : List Span) →
    {spans' spans'' : List Span} → List.Forall₂ (Span.Relocated links R) spans spans' →
    List.Forall₂ (Span.Relocated links S) spans' spans'' → spans'' = spans'
  | [], _, _, .nil, .nil => rfl
  | s :: rest, _, _, .cons hs hrest, .cons hs' hrest' => by
    rw [eq_of_relocatedSpan_twice hstay s hs hs',
      eq_of_relocatedSpans_twice hstay rest hrest hrest']

end

mutual

theorem eq_of_relocatedBlock_twice (hstay : Stay R S) : (b : Block) → {b' b'' : Block} →
    b.Relocated links R b' → b'.Relocated links S b'' → b'' = b'
  | .heading level body, _, _, h, h' => by
    cases h with
    | heading _ hbody =>
      cases h' with
      | heading _ hbody' => rw [eq_of_relocatedSpans_twice hstay body hbody hbody']
  | .paragraph body, _, _, h, h' => by
    cases h with
    | paragraph hbody =>
      cases h' with
      | paragraph hbody' => rw [eq_of_relocatedSpans_twice hstay body hbody hbody']
  | .list kind items, _, _, h, h' => by
    cases h with
    | list _ hitems =>
      cases h' with
      | list _ hitems' => rw [eq_of_relocatedCells_twice hstay items hitems hitems']
  | .quote body, _, _, h, h' => by
    cases h with
    | quote hbody =>
      cases h' with
      | quote hbody' => rw [eq_of_relocated_twice hstay body hbody hbody']
  | .table alignments header rows, _, _, h, h' => by
    cases h with
    | table _ hheader hrows =>
      cases h' with
      | table _ hheader' hrows' =>
        rw [eq_of_relocatedCells_twice hstay header hheader hheader',
          eq_of_relocatedRows_twice hstay rows hrows hrows']
  | .code .., _, _, h, h' | .raw _, _, _, h, h' | .math _, _, _, h, h' | .rule, _, _, h, h' => by
    cases h
    cases h'
    rfl

/-- Images that have moved and stay where they are leave the document as it is. -/
theorem eq_of_relocated_twice (hstay : Stay R S) : (blocks : List Block) →
    {blocks' blocks'' : List Block} → List.Forall₂ (Block.Relocated links R) blocks blocks' →
    List.Forall₂ (Block.Relocated links S) blocks' blocks'' → blocks'' = blocks'
  | [], _, _, .nil, .nil => rfl
  | b :: bs, _, _, .cons hb hbs, .cons hb' hbs' => by
    rw [eq_of_relocatedBlock_twice hstay b hb hb', eq_of_relocated_twice hstay bs hbs hbs']

theorem eq_of_relocatedCells_twice (hstay : Stay R S) : (cells : List (List Block)) →
    {cells' cells'' : List (List Block)} →
    List.Forall₂ (List.Forall₂ (Block.Relocated links R)) cells cells' →
    List.Forall₂ (List.Forall₂ (Block.Relocated links S)) cells' cells'' → cells'' = cells'
  | [], _, _, .nil, .nil => rfl
  | c :: cs, _, _, .cons hc hcs, .cons hc' hcs' => by
    rw [eq_of_relocated_twice hstay c hc hc', eq_of_relocatedCells_twice hstay cs hcs hcs']

theorem eq_of_relocatedRows_twice (hstay : Stay R S) : (rows : List (List (List Block))) →
    {rows' rows'' : List (List (List Block))} →
    List.Forall₂ (List.Forall₂ (List.Forall₂ (Block.Relocated links R))) rows rows' →
    List.Forall₂ (List.Forall₂ (List.Forall₂ (Block.Relocated links S))) rows' rows'' →
    rows'' = rows'
  | [], _, _, .nil, .nil => rfl
  | r :: rs, _, _, .cons hr hrs, .cons hr' hrs' => by
    rw [eq_of_relocatedCells_twice hstay r hr hr', eq_of_relocatedRows_twice hstay rs hrs hrs']

end

end

end LiterateJournal
