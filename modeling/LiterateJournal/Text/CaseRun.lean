/-!
# Runs of characters

Two compact ways to hold Unicode data: closed ranges of code points for a character class, and runs
of code points that a case mapping shifts by one amount.

## Main definitions

* `inRanges` — membership in a class given by ranges.
* `CaseRun`, `CaseRun.map?` — one run of a case mapping and its value at a code point.
-/

namespace LiterateJournal.Text

def inRanges (ranges : List (Nat × Nat)) (n : Nat) : Bool :=
  ranges.any fun r => r.1 ≤ n && n ≤ r.2

/-- The code points `first`, `first + stride`, … up to `last`; the first of them is mapped to
`target`, and the others keep their distance from it. -/
structure CaseRun where
  first : Nat
  last : Nat
  stride : Nat
  target : Nat
deriving DecidableEq, Repr

def CaseRun.map? (r : CaseRun) (n : Nat) : Option Nat :=
  if r.first ≤ n && n ≤ r.last && (n - r.first) % r.stride == 0 then
    some (r.target + (n - r.first))
  else none

/-- The image of a code point under a mapping given by runs. -/
def mapRuns? (runs : List CaseRun) (n : Nat) : Option Nat :=
  runs.findSome? (·.map? n)

end LiterateJournal.Text
