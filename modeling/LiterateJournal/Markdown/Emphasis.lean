import LiterateJournal.Markdown.Event

/-!
# Emphasis

Runs of asterisks, underscores and tildes become emphasis when an opening run finds a closing one.
Runs are resolved from left to right: a closing run takes the nearest open run that suits it, and
the open runs between the two remain text.

## Main definitions

* `Piece` — inline content whose runs are not resolved yet.
* `Opener`, `Opener.suits` — a run that may still open emphasis, and the runs that may close it.
* `resolve` — the trees that some pieces make up.
-/

namespace LiterateJournal.Markdown

/-- Inline content whose runs are not resolved yet. -/
inductive Piece where
  | tree (t : Tree)
  /-- A run of emphasis marks. -/
  | run (mark : Char) (count : Nat) (canOpen canClose : Bool)
  /-- A line break that is written as a backslash. -/
  | escapedBreak

def textLeaf (cs : List Char) : Tree := .leaf (.text (String.ofList cs))

/-- A run that may still open emphasis, with the trees after it, the last one first. -/
structure Opener where
  mark : Char
  /-- The marks that are left. -/
  count : Nat
  /-- The marks that the run had at first. -/
  length : Nat
  canClose : Bool
  /-- A run of tildes that stands before one that found no partner is no partner for later ones. -/
  hidden : Bool
  after : List Tree

def Opener.leaf (o : Opener) : Tree := textLeaf (List.replicate o.count o.mark)

/-- Whether a closing run may close this one. Tildes must be equally many. If one of the two runs
could both open and close, their lengths must not add up to a multiple of three, unless both are
multiples of three. -/
def Opener.suits (o : Opener) (mark : Char) (length : Nat) (canOpen : Bool) : Bool :=
  o.mark = mark && (mark ≠ '~' || (o.length = length && !o.hidden)) &&
    ((!canOpen && !o.canClose) || (o.length + length) % 3 ≠ 0 || length % 3 = 0)

/-- The nearest open run that suits a closing one, the runs outside it, and the trees between the
two, the last one first. -/
def partner? (mark : Char) (length : Nat) (canOpen : Bool) :
    List Opener → Option (Opener × List Opener × List Tree)
  | [] => none
  | o :: outer =>
    if o.suits mark length canOpen then some (o, outer, o.after)
    else
      (partner? mark length canOpen outer).map fun (found, rest, inside) =>
        (found, rest, o.after ++ o.leaf :: inside)

/-- Some trees inside as much emphasis as `n` marks stand for; two marks are strong emphasis, and an
odd mark is the outermost. -/
def emphasize : Nat → List Tree → List Tree
  | 0, ts => ts
  | 1, ts => [.node .emphasis ts]
  | n + 2, ts => emphasize n [.node .strong ts]

/-- Some trees between two runs of `n` marks. -/
def enclose (mark : Char) (n : Nat) (ts : List Tree) : List Tree :=
  if mark = '~' then [.node .strikethrough ts] else emphasize n ts

/-- The open runs, the innermost first, and the trees before all of them, the last one first. -/
structure Openers where
  stack : List Opener
  before : List Tree

namespace Openers

def add (s : Openers) (t : Tree) : Openers :=
  match s.stack with
  | [] => { s with before := t :: s.before }
  | o :: outer => { s with stack := { o with after := t :: o.after } :: outer }

/-- Lets a closing run of `length` marks, of which some number is left, close what it can; at most
`fuel` times. Also gives the number of marks left over. -/
def close (mark : Char) (length : Nat) (canOpen : Bool) :
    Nat → Nat → Openers → Nat × Openers
  | 0, count, s => (count, s)
  | fuel + 1, count, s =>
    match partner? mark length canOpen s.stack with
    | none =>
      if mark = '~' then (count, { s with stack := s.stack.map ({ · with hidden := true }) })
      else (count, s)
    | some (o, outer, inside) =>
      let n := min count o.count
      let enclosed := enclose mark n inside.reverse
      let rest : Openers :=
        if n < o.count then
          { s with stack := { o with count := o.count - n, after := enclosed } :: outer }
        else enclosed.foldl add { s with stack := outer }
      if n < count then close mark length canOpen fuel (count - n) rest else (0, rest)

def addRun (s : Openers) (mark : Char) (length : Nat) (canOpen canClose : Bool) : Openers :=
  let (count, s) := if canClose then close mark length canOpen length length s else (length, s)
  if count = 0 then s
  else if canOpen then { s with stack := ⟨mark, count, length, canClose, false, []⟩ :: s.stack }
  else s.add (textLeaf (List.replicate count mark))

def addPiece (s : Openers) : Piece → Openers
  | .tree t => s.add t
  | .run mark count canOpen canClose => s.addRun mark count canOpen canClose
  | .escapedBreak => s.add (.leaf .hardBreak)

/-- All trees; the runs that are still open are text. -/
def finish (s : Openers) : List Tree :=
  (s.stack.foldr (fun o trees => o.after ++ o.leaf :: trees) s.before).reverse

end Openers

def Piece.isRun : Piece → Bool
  | .run .. => true
  | _ => false

/-- A break by backslash at the end of content with runs is a backslash. -/
def settleBreak (pieces : List Piece) : List Piece :=
  match pieces.reverse with
  | .escapedBreak :: earlier =>
    if earlier.any Piece.isRun then (.tree (textLeaf ['\\']) :: earlier).reverse else pieces
  | _ => pieces

def resolve (pieces : List Piece) : List Tree :=
  ((settleBreak pieces).foldl Openers.addPiece ⟨[], []⟩).finish

end LiterateJournal.Markdown
