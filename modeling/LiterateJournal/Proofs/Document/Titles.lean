import LiterateJournal.Document.Title
import LiterateJournal.Proofs.Output.Parts
import Mathlib.Logic.Relation

/-!
# Titles and their removal

A document's title is the first of its headings of level one, in the order of the text. Removing
the titles leaves out these headings and nothing else: they can be lost one by one, wherever they
stand, until there is none.

## Main definitions

* `titlesIn` — the headings of level one, at any depth and in the order of the text.
* `LosesTitle` — a document without one of them, and otherwise as it was.

## Main statements

* `title?_eq` — the title is the text of the first heading of level one.
* `losesTitles_dropTitles` — removing the titles loses them one by one.
* `dropTitles_complements_title?` — what removing the titles leaves, and when it changes nothing.
-/

namespace LiterateJournal

open Relation (ReflTransGen)

def Part.titleBody? : Part → Option (List Span)
  | .block (.heading level body) => if level = 1 then some body else none
  | _ => none

def titlesAmong (parts : List Part) : List (List Span) := parts.filterMap Part.titleBody?

/-- The headings of level one in a document, at any depth and in the order of the text. -/
def titlesIn (blocks : List Block) : List (List Span) := titlesAmong (partsOf blocks)

/-- A document loses one heading of level one, somewhere; all around it stays in its place. -/
inductive LosesTitle : List Block → List Block → Prop
  | here (before : List Block) (body : List Span) (after : List Block) :
    LosesTitle (before ++ .heading 1 body :: after) (before ++ after)
  | quote (before : List Block) {body body' : List Block} (after : List Block)
    (h : LosesTitle body body') :
    LosesTitle (before ++ .quote body :: after) (before ++ .quote body' :: after)
  | item (before : List Block) (kind : ListKind) (above : List (List Block))
    {item item' : List Block} (below : List (List Block)) (after : List Block)
    (h : LosesTitle item item') :
    LosesTitle (before ++ .list kind (above ++ item :: below) :: after)
      (before ++ .list kind (above ++ item' :: below) :: after)
  | headerCell (before : List Block) (alignments : List Alignment) (left : List Cell)
    {cell cell' : Cell} (right : List Cell) (rows : List (List Cell)) (after : List Block)
    (h : LosesTitle cell cell') :
    LosesTitle (before ++ .table alignments (left ++ cell :: right) rows :: after)
      (before ++ .table alignments (left ++ cell' :: right) rows :: after)
  | rowCell (before : List Block) (alignments : List Alignment) (header : List Cell)
    (above : List (List Cell)) (left : List Cell) {cell cell' : Cell} (right : List Cell)
    (below : List (List Cell)) (after : List Block) (h : LosesTitle cell cell') :
    LosesTitle
      (before ++ .table alignments header (above ++ (left ++ cell :: right) :: below) :: after)
      (before ++ .table alignments header (above ++ (left ++ cell' :: right) :: below) :: after)

/-! ### Sequences -/

@[simp] theorem partsOf_append (a b : List Block) : partsOf (a ++ b) = partsOf a ++ partsOf b := by
  induction a with
  | nil => rfl
  | cons block a ih => simp [partsOf, ih]

@[simp] theorem partsInCells_append (a b : List (List Block)) :
    partsInCells (a ++ b) = partsInCells a ++ partsInCells b := by
  induction a with
  | nil => rfl
  | cons cell a ih => simp [partsInCells, ih]

@[simp] theorem partsInRows_append (a b : List (List (List Block))) :
    partsInRows (a ++ b) = partsInRows a ++ partsInRows b := by
  induction a with
  | nil => rfl
  | cons row a ih => simp [partsInRows, ih]

@[simp] theorem dropTitles_append (a b : List Block) :
    dropTitles (a ++ b) = dropTitles a ++ dropTitles b := by
  induction a with
  | nil => rfl
  | cons block a ih =>
    rw [List.cons_append, dropTitles, dropTitles, ih]
    split <;> rfl

@[simp] theorem dropTitlesInCells_append (a b : List (List Block)) :
    dropTitlesInCells (a ++ b) = dropTitlesInCells a ++ dropTitlesInCells b := by
  induction a with
  | nil => rfl
  | cons cell a ih => simp [dropTitlesInCells, ih]

@[simp] theorem dropTitlesInRows_append (a b : List (List (List Block))) :
    dropTitlesInRows (a ++ b) = dropTitlesInRows a ++ dropTitlesInRows b := by
  induction a with
  | nil => rfl
  | cons row a ih => simp [dropTitlesInRows, ih]

/-! ### The first title -/

@[simp] theorem titlesAmong_append (a b : List Part) :
    titlesAmong (a ++ b) = titlesAmong a ++ titlesAmong b := List.filterMap_append

/-- No title is among the spans of a line. -/
@[simp] theorem titlesAmong_spans (spans : List Span) : titlesAmong (spans.map .span) = [] := by
  rw [titlesAmong, List.filterMap_map, List.filterMap_eq_nil_iff]
  exact fun _ _ => rfl

theorem titlesAmong_title (body : List Span) (parts : List Part) :
    titlesAmong (.block (.heading 1 body) :: parts) = body :: titlesAmong parts := rfl

/-- A block that is no title itself has the titles inside it. -/
theorem titlesAmong_block {b : Block} (h : b.isTitle = false) (parts : List Part) :
    titlesAmong (.block b :: parts) = titlesAmong parts := by
  refine List.filterMap_cons_none ?_
  cases b with
  | heading level body => simpa [Block.isTitle, Part.titleBody?] using h
  | _ => rfl

@[simp] theorem titlesAmong_list (kind : ListKind) (items : List (List Block)) :
    titlesAmong (Block.list kind items).parts = titlesAmong (partsInCells items) :=
  titlesAmong_block rfl _

@[simp] theorem titlesAmong_quote (body : List Block) :
    titlesAmong (Block.quote body).parts = titlesAmong (partsOf body) := titlesAmong_block rfl _

@[simp] theorem titlesAmong_table (alignments : List Alignment) (header : List (List Block))
    (rows : List (List (List Block))) :
    titlesAmong (Block.table alignments header rows).parts =
      titlesAmong (partsInCells header) ++ titlesAmong (partsInRows rows) :=
  (titlesAmong_block rfl _).trans (titlesAmong_append _ _)

def firstTitle? (parts : List Part) : Option String := (titlesAmong parts).head?.map plainText

theorem firstTitle?_append (a b : List Part) :
    firstTitle? (a ++ b) = (firstTitle? a).or (firstTitle? b) := by
  rw [firstTitle?, titlesAmong_append, List.head?_append, Option.map_or]
  rfl

theorem firstTitle?_block {b : Block} (h : b.isTitle = false) (parts : List Part) :
    firstTitle? (.block b :: parts) = firstTitle? parts := by
  rw [firstTitle?, titlesAmong_block h]
  rfl

mutual

theorem title?_eq_block : (b : Block) → b.title? = firstTitle? b.parts
  | .heading level body => by
    rw [Block.title?, Block.parts]
    split
    · rename_i h
      rw [h, firstTitle?, titlesAmong_title]
      rfl
    · rename_i h
      rw [firstTitle?_block (by simpa [Block.isTitle] using h), firstTitle?, titlesAmong_spans]
      rfl
  | .paragraph body => by
    rw [Block.parts, firstTitle?_block rfl, firstTitle?, titlesAmong_spans]
    rfl
  | .list kind items => by
    rw [Block.title?, Block.parts, firstTitle?_block rfl, title?_eq_cells items]
  | .quote body => by rw [Block.title?, Block.parts, firstTitle?_block rfl, title?_eq body]
  | .table alignments header rows => by
    rw [Block.title?, Block.parts, firstTitle?_block rfl, firstTitle?_append,
      title?_eq_cells header, title?_eq_rows rows]
  | .code .. | .raw _ | .math _ | .rule => rfl

/-- The title is the text of the first heading of level one. -/
theorem title?_eq : (blocks : List Block) → title? blocks = firstTitle? (partsOf blocks)
  | [] => rfl
  | b :: bs => by rw [title?, partsOf, firstTitle?_append, title?_eq_block b, title?_eq bs]

theorem title?_eq_cells : (cells : List (List Block)) →
    titleInCells? cells = firstTitle? (partsInCells cells)
  | [] => rfl
  | c :: cs => by
    rw [titleInCells?, partsInCells, firstTitle?_append, title?_eq c, title?_eq_cells cs]

theorem title?_eq_rows : (rows : List (List (List Block))) →
    titleInRows? rows = firstTitle? (partsInRows rows)
  | [] => rfl
  | r :: rs => by
    rw [titleInRows?, partsInRows, firstTitle?_append, title?_eq_cells r, title?_eq_rows rs]

end

theorem title?_eq_none_iff {blocks : List Block} : title? blocks = none ↔ titlesIn blocks = [] := by
  rw [title?_eq, firstTitle?, Option.map_eq_none_iff, List.head?_eq_none_iff, titlesIn]

theorem titlesIn_eq_nil_iff {blocks : List Block} :
    titlesIn blocks = [] ↔ ∀ body, .block (.heading 1 body) ∉ partsOf blocks := by
  rw [titlesIn, titlesAmong, List.filterMap_eq_nil_iff]
  constructor
  · intro h body hmem
    simpa [Part.titleBody?] using h _ hmem
  · intro h p hp
    cases p with
    | span s => rfl
    | block b =>
      cases b with
      | heading level body =>
        by_cases hlevel : level = 1
        · exact absurd (hlevel ▸ hp) (h body)
        · exact if_neg hlevel
      | _ => rfl

/-! ### Losing titles -/

theorem LosesTitle.cons {blocks blocks' : List Block} (h : LosesTitle blocks blocks') (b : Block) :
    LosesTitle (b :: blocks) (b :: blocks') := by
  cases h with
  | here before => exact .here (b :: before) _ _
  | quote before _ h => exact .quote (b :: before) _ h
  | item before _ _ _ _ h => exact .item (b :: before) _ _ _ _ h
  | headerCell before _ _ _ _ _ h => exact .headerCell (b :: before) _ _ _ _ _ h
  | rowCell before _ _ _ _ _ _ _ h => exact .rowCell (b :: before) _ _ _ _ _ _ _ h

mutual

theorem losesTitles_block : (b : Block) → (bs : List Block) →
    ReflTransGen LosesTitle (b :: bs) (b.dropTitles :: bs)
  | .list kind items, bs =>
    losesTitles_cells (fun items => .list kind items :: bs) (.item [] kind · · bs) items []
  | .quote body, bs =>
    (losesTitles_dropTitles body).lift (fun body => .quote body :: bs) fun _ _ => .quote [] bs
  | .table alignments header rows, bs => by
    have hheader := losesTitles_cells (fun header => .table alignments header rows :: bs)
      (.headerCell [] alignments · · rows bs) header []
    have hrows := losesTitles_rows
      (fun rows => .table alignments (dropTitlesInCells header) rows :: bs)
      (.rowCell [] alignments (dropTitlesInCells header) · · · · bs) rows []
    exact hheader.trans hrows
  | .heading .., _ | .paragraph _, _ | .code .., _ | .raw _, _ | .math _, _ | .rule, _ => .refl

/-- Removing the titles of a document loses them one by one. -/
theorem losesTitles_dropTitles : (blocks : List Block) →
    ReflTransGen LosesTitle blocks (dropTitles blocks)
  | [] => .refl
  | b :: bs => by
    have hrest : ReflTransGen LosesTitle (b :: bs) (b :: dropTitles bs) :=
      (losesTitles_dropTitles bs).lift (b :: ·) fun _ _ h => h.cons b
    rw [dropTitles]
    split
    · rename_i htitle
      cases b with
      | heading level body =>
        obtain rfl : level = 1 := by simpa [Block.isTitle] using htitle
        exact hrest.tail (.here [] body _)
      | _ => cases htitle
    · exact hrest.trans (losesTitles_block b _)

/-- The same in list items or table cells, of which the first ones have been through. -/
theorem losesTitles_cells (around : List (List Block) → List Block)
    (haround : ∀ left right {cell cell'}, LosesTitle cell cell' →
      LosesTitle (around (left ++ cell :: right)) (around (left ++ cell' :: right))) :
    (cells first : List (List Block)) →
    ReflTransGen LosesTitle (around (first ++ cells)) (around (first ++ dropTitlesInCells cells))
  | [], _ => .refl
  | c :: cs, first => by
    have hcell := (losesTitles_dropTitles c).lift (fun c => around (first ++ c :: cs))
      fun _ _ => haround first cs
    have hcells := losesTitles_cells around haround cs (first ++ [dropTitles c])
    rw [List.append_assoc, List.append_assoc] at hcells
    exact hcell.trans hcells

/-- The same in table rows, of which the first ones have been through. -/
theorem losesTitles_rows (around : List (List (List Block)) → List Block)
    (haround : ∀ above left right below {cell cell'}, LosesTitle cell cell' →
      LosesTitle (around (above ++ (left ++ cell :: right) :: below))
        (around (above ++ (left ++ cell' :: right) :: below))) :
    (rows first : List (List (List Block))) →
    ReflTransGen LosesTitle (around (first ++ rows)) (around (first ++ dropTitlesInRows rows))
  | [], _ => .refl
  | r :: rs, first => by
    have hrow := losesTitles_cells (fun r => around (first ++ r :: rs))
      (haround first · · rs) r []
    have hrows := losesTitles_rows around haround rs (first ++ [dropTitlesInCells r])
    rw [List.append_assoc, List.append_assoc] at hrows
    exact hrow.trans hrows

end

/-- A title that is lost makes no difference to what is left without titles. -/
theorem LosesTitle.dropTitles_eq {blocks blocks' : List Block} (h : LosesTitle blocks blocks') :
    dropTitles blocks = dropTitles blocks' := by
  induction h with
  | here => simp [dropTitles, Block.isTitle]
  | quote _ _ _ ih => simp [dropTitles, Block.isTitle, Block.dropTitles, ih]
  | item _ _ _ _ _ _ ih | headerCell _ _ _ _ _ _ _ ih =>
    simp [dropTitles, Block.isTitle, Block.dropTitles, dropTitlesInCells, ih]
  | rowCell _ _ _ _ _ _ _ _ _ ih =>
    simp [dropTitles, Block.isTitle, Block.dropTitles, dropTitlesInRows, dropTitlesInCells, ih]

theorem dropTitles_eq_of_losesTitles {blocks blocks' : List Block}
    (h : ReflTransGen LosesTitle blocks blocks') : dropTitles blocks = dropTitles blocks' := by
  induction h with
  | refl => rfl
  | tail _ hstep ih => exact ih.trans hstep.dropTitles_eq

/-- Each time one title is lost. -/
theorem LosesTitle.length_titlesIn {blocks blocks' : List Block} (h : LosesTitle blocks blocks') :
    (titlesIn blocks).length = (titlesIn blocks').length + 1 := by
  simp only [titlesIn]
  induction h with
  | here => simp [partsOf, Block.parts, titlesAmong_title]; omega
  | quote _ _ _ ih => simp [partsOf, ih]; omega
  | item _ _ _ _ _ _ ih | headerCell _ _ _ _ _ _ _ ih => simp [partsOf, partsInCells, ih]; omega
  | rowCell _ _ _ _ _ _ _ _ _ ih => simp [partsOf, partsInCells, partsInRows, ih]; omega

/-! ### Without titles -/

mutual

theorem titlesAmong_dropTitlesBlock : (b : Block) → b.isTitle = false →
    titlesAmong b.dropTitles.parts = []
  | .heading level body, h => (titlesAmong_block h _).trans (titlesAmong_spans _)
  | .paragraph body, h => (titlesAmong_block h _).trans (titlesAmong_spans _)
  | .list kind items, _ => (titlesAmong_list _ _).trans (titlesAmong_dropTitlesInCells items)
  | .quote body, _ => (titlesAmong_quote _).trans (titlesAmong_dropTitles body)
  | .table alignments header rows, _ => by
    simp [Block.dropTitles, titlesAmong_dropTitlesInCells header,
      titlesAmong_dropTitlesInRows rows]
  | .code .., _ | .raw _, _ | .math _, _ | .rule, _ => rfl

theorem titlesAmong_dropTitles : (blocks : List Block) →
    titlesAmong (partsOf (dropTitles blocks)) = []
  | [] => rfl
  | b :: bs => by
    rw [dropTitles]
    split
    · exact titlesAmong_dropTitles bs
    · rename_i h
      simp [partsOf, titlesAmong_dropTitlesBlock b (by simpa using h), titlesAmong_dropTitles bs]

theorem titlesAmong_dropTitlesInCells : (cells : List (List Block)) →
    titlesAmong (partsInCells (dropTitlesInCells cells)) = []
  | [] => rfl
  | c :: cs => by
    simp [dropTitlesInCells, partsInCells, titlesAmong_dropTitles c,
      titlesAmong_dropTitlesInCells cs]

theorem titlesAmong_dropTitlesInRows : (rows : List (List (List Block))) →
    titlesAmong (partsInRows (dropTitlesInRows rows)) = []
  | [] => rfl
  | r :: rs => by
    simp [dropTitlesInRows, partsInRows, titlesAmong_dropTitlesInCells r,
      titlesAmong_dropTitlesInRows rs]

end

theorem title?_dropTitles (blocks : List Block) : title? (dropTitles blocks) = none :=
  title?_eq_none_iff.2 (titlesAmong_dropTitles blocks)

/-- A document without titles stays as it is, since nothing can be lost. -/
theorem dropTitles_eq_self {blocks : List Block} (h : titlesIn blocks = []) :
    dropTitles blocks = blocks := by
  rcases (losesTitles_dropTitles blocks).cases_head with heq | ⟨_, hstep, -⟩
  · exact heq.symm
  · have hlength := hstep.length_titlesIn
    simp [h] at hlength

/-- The title is the text of the first heading of level one in the order of the text, and there is
none just if there is no such heading at any depth. Without its titles a document is what is left
when they are lost one by one, and all else stays in its place: it has no title then, and it is the
same document just if it had none. -/
theorem dropTitles_complements_title? (blocks : List Block) :
    title? blocks = (titlesIn blocks).head?.map plainText ∧
      (title? blocks = none ↔ ∀ body, .block (.heading 1 body) ∉ partsOf blocks) ∧
      (∀ blocks', blocks' = dropTitles blocks ↔
        ReflTransGen LosesTitle blocks blocks' ∧
          ∀ body, .block (.heading 1 body) ∉ partsOf blocks') ∧
      title? (dropTitles blocks) = none ∧
      (dropTitles blocks = blocks ↔ title? blocks = none) := by
  have hnone := title?_dropTitles blocks
  refine ⟨title?_eq blocks, title?_eq_none_iff.trans titlesIn_eq_nil_iff, fun blocks' => ?_, hnone,
    fun h => h ▸ hnone, fun h => dropTitles_eq_self (title?_eq_none_iff.1 h)⟩
  rw [← titlesIn_eq_nil_iff]
  constructor
  · rintro rfl
    exact ⟨losesTitles_dropTitles blocks, title?_eq_none_iff.1 hnone⟩
  · rintro ⟨hloses, htitles⟩
    rw [dropTitles_eq_of_losesTitles hloses, dropTitles_eq_self htitles]

/-- A list item stays when there is nothing left in it. -/
example : dropTitles [.list .bulleted [[.heading 1 [.text "a"]], [.heading 2 [.text "b"]]]] =
    [.list .bulleted [[], [.heading 2 [.text "b"]]]] := rfl

end LiterateJournal
