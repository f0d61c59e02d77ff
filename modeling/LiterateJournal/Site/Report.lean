import LiterateJournal.Document.Basic

/-!
# Reports of builds

## Main definitions

* `Outcome` — what became of one document.
* `BuildReport` — what a build did.
-/

namespace LiterateJournal

structure PageEntry where
  /-- The name of the page in HTML, whatever the format is. -/
  fileName : String
  title : String
deriving Repr, BEq, DecidableEq, Inhabited

inductive Outcome where
  | generated (name output title : String)
  /-- The page is not older than the source. -/
  | skipped (name : String)
  | failed (name : String) (error : DocumentError)
deriving Repr, BEq, DecidableEq, Inhabited

namespace Outcome

def name : Outcome → String
  | .generated name _ _ | .skipped name | .failed name _ => name

def isSkipped : Outcome → Bool
  | .skipped _ => true
  | _ => false

def isFailed : Outcome → Bool
  | .failed .. => true
  | _ => false

end Outcome

structure BuildStats where
  /-- Sources whose paths end with a listed name. -/
  discovered : Nat
  /-- Sources whose names are listed. -/
  eligible : Nat
  generated : Nat
  skipped : Nat
  failed : Nat
  assetsCopied : Nat
  milliseconds : Nat
deriving Repr, BEq, DecidableEq, Inhabited

structure BuildReport where
  /-- The pages that were made, in order. -/
  entries : List PageEntry
  /-- One outcome for each eligible document, in order. -/
  outcomes : List Outcome
  /-- The page to start with. -/
  defaultFile : String
  stats : BuildStats
deriving Repr, BEq, DecidableEq, Inhabited

end LiterateJournal
