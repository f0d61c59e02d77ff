import LiterateJournal.Markdown.Cursor
import LiterateJournal.Text.Blank
import LiterateJournal.Text.Fold

/-!
# Link labels

The text between square brackets that names a link definition or a footnote. Labels match when they
are equal after white space has been collapsed and case has been folded.

## Main definitions

* `label?` — the label that stands after an opening bracket.
* `Label.matches` — whether two labels name the same thing.
-/

namespace LiterateJournal.Markdown

/-- Reads a label up to its closing bracket, as the characters before it (last one first), whether
one of them is more than white space, and the rest of the text. At most `fuel` characters are left
to the label.

`nextLine?` tells where the text goes on after a line end, if the label may go on there.
`blank` holds, inside a run of white space, whether a line has ended in it. -/
def labelFrom? (nextLine? : List Char → Option (List Char)) (inTable : Bool) :
    Nat → Option Bool → Bool → List Char → List Char → Option (List Char × Bool × List Char)
  | 0, _, _, _, _ => none
  | _, _, _, _, [] => none
  | fuel + 1, blank, solid, read, c :: cs =>
    if isWhite c then
      let read := if blank.isSome then read else ' ' :: read
      match lineEnd? (c :: cs) with
      | some rest =>
        if blank = some true then none
        else (nextLine? rest).bind fun rest =>
          labelFrom? nextLine? inTable fuel (some true) solid read rest
      | none => labelFrom? nextLine? inTable fuel (some (blank.getD false)) solid read cs
    else if c = '[' then none
    else if c = ']' then some (read, solid, cs)
    else if c = '\\' then
      match cs with
      | [] => none
      | d :: rest =>
        let read := if inTable && d = '|' then '|' :: read else d :: c :: read
        labelFrom? nextLine? inTable fuel none true read rest
    else if inTable && c = '|' && read.head? = some '\\' then
      labelFrom? nextLine? inTable fuel none true ('|' :: read.tail) cs
    else labelFrom? nextLine? inTable fuel none true (c :: read) cs

def maxLabel : Nat := 1000

/-- The label that stands here, after its opening bracket: its text with white space collapsed and
trimmed, and the rest after the closing bracket. A label of white space alone is none. -/
def label? (nextLine? : List Char → Option (List Char)) (inTable : Bool) (cs : List Char) :
    Option (List Char × List Char) :=
  match labelFrom? nextLine? inTable maxLabel none false [] cs with
  | some (read, true, rest) =>
    let trimmed := (read.dropWhile isWhite).reverse.dropWhile isWhite
    some (trimmed, rest)
  | _ => none

/-- Whether two labels, collapsed and trimmed already, name the same thing. -/
def Label.matches (a b : List Char) : Bool := Text.fold a == Text.fold b

end LiterateJournal.Markdown
