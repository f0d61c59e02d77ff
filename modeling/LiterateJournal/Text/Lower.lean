import LiterateJournal.Text.LowerTable

/-!
# Lower case

A text is lower-cased character by character, with two particulars of the Unicode standard: the
dotted capital I becomes two characters, and a capital sigma that ends a word becomes the final
sigma.

## Main definitions

* `lowerChar` — the lower-case form of a character on its own.
* `lower` — the lower-case form of a text.
-/

namespace LiterateJournal.Text

/-- Cased characters have an upper-, lower- or title-case form. -/
def isCased (c : Char) : Bool := inRanges casedRanges c.toNat

/-- Characters that do not separate a letter from the next cased one. -/
def isCaseIgnorable (c : Char) : Bool := inRanges caseIgnorableRanges c.toNat

def lowerChar (c : Char) : List Char :=
  let n := c.toNat
  if n < 128 then [c.toLower]
  else if n = 0x130 then ['i', Char.ofNat 0x307]
  else [((mapRuns? lowerRuns n).map Char.ofNat).getD c]

/-- Whether the first character that is not case-ignorable is cased. -/
def casedNext : List Char → Bool
  | [] => false
  | c :: cs => if isCaseIgnorable c then casedNext cs else isCased c

/-- The lower-case form of a text that stands after `before` (whose last character comes first). -/
def lowerAfter (before : List Char) : List Char → List Char
  | [] => []
  | c :: cs =>
    let here :=
      if c = 'Σ' then if casedNext before && !casedNext cs then ['ς'] else ['σ'] else lowerChar c
    here ++ lowerAfter (c :: before) cs

def lower (cs : List Char) : List Char := lowerAfter [] cs

end LiterateJournal.Text
