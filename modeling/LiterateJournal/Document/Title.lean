import LiterateJournal.Document.Basic

/-!
# Titles

A document's title is its first heading of level one, wherever it stands. Pages whose template shows
the title leave such headings out of the body.

## Main definitions

* `title?` — the text of the first heading of level one, in the order of the text.
* `dropTitles` — the blocks without their headings of level one, at any depth.
-/

namespace LiterateJournal

mutual

def Block.title? : Block → Option String
  | .heading level body => if level = 1 then some (plainText body) else none
  | .list _ items => titleInCells? items
  | .quote body => title? body
  | .table _ header rows => (titleInCells? header).or (titleInRows? rows)
  | _ => none

def title? : List Block → Option String
  | [] => none
  | b :: bs => b.title?.or (title? bs)

def titleInCells? : List (List Block) → Option String
  | [] => none
  | c :: cs => (title? c).or (titleInCells? cs)

def titleInRows? : List (List (List Block)) → Option String
  | [] => none
  | r :: rs => (titleInCells? r).or (titleInRows? rs)

end

def Block.isTitle : Block → Bool
  | .heading level _ => level = 1
  | _ => false

mutual

def Block.dropTitles : Block → Block
  | .list kind items => .list kind (dropTitlesInCells items)
  | .quote body => .quote (dropTitles body)
  | .table alignments header rows =>
    .table alignments (dropTitlesInCells header) (dropTitlesInRows rows)
  | block => block

def dropTitles : List Block → List Block
  | [] => []
  | b :: bs => if b.isTitle then dropTitles bs else b.dropTitles :: dropTitles bs

def dropTitlesInCells : List (List Block) → List (List Block)
  | [] => []
  | c :: cs => dropTitles c :: dropTitlesInCells cs

def dropTitlesInRows : List (List (List Block)) → List (List (List Block))
  | [] => []
  | r :: rs => dropTitlesInCells r :: dropTitlesInRows rs

end

end LiterateJournal
