/-!
# Places in a Markdown line

Block structure is read from the start of each line, where spaces and tabs count in columns. A
cursor stands in a line and knows how far it is from the last tab stop; a tab that was only partly
consumed leaves columns over.

A line ends with a line feed, a carriage return or both, or with the text itself.

## Main definitions

* `isSpace`, `isWhite` — white space within a line, and ASCII white space at large.
* `lineEnd?`, `blankLine?` — the rest of a text after a line end or a blank line.
* `Cursor`, `Cursor.take` — a place in a line, and its advance over columns of white space.
-/

namespace LiterateJournal.Markdown

/-- White space that does not end a line. -/
def isSpace (c : Char) : Bool := c = ' ' || c = '\t' || c = '\x0b' || c = '\x0c'

/-- ASCII white space, line ends included. -/
def isWhite (c : Char) : Bool := isSpace c || c = '\n' || c = '\r'

def lineEnd? : List Char → Option (List Char)
  | [] => some []
  | '\n' :: cs => some cs
  | '\r' :: '\n' :: cs => some cs
  | '\r' :: cs => some cs
  | _ => none

def atLineEnd (cs : List Char) : Bool := (lineEnd? cs).isSome

def blankLine? (cs : List Char) : Option (List Char) := lineEnd? (cs.dropWhile isSpace)

/-- The text up to and with the next line feed, and what follows. -/
def cutLine : List Char → List Char × List Char
  | [] => ([], [])
  | '\n' :: cs => (['\n'], cs)
  | c :: cs =>
    let (line, rest) := cutLine cs
    (c :: line, rest)

/-- The text up to and with the next line end of any kind, and what follows. -/
def cutContentLine : List Char → List Char × List Char
  | [] => ([], [])
  | '\n' :: cs => (['\n'], cs)
  | '\r' :: '\n' :: cs => (['\r', '\n'], cs)
  | '\r' :: cs => (['\r'], cs)
  | c :: cs =>
    let (line, rest) := cutContentLine cs
    (c :: line, rest)

/-- A place in a line. -/
structure Cursor where
  /-- Columns since the last tab stop that matters. -/
  column : Nat
  /-- Columns of the last tab that are still to be consumed. -/
  spare : Nat
  /-- What follows. -/
  rest : List Char

namespace Cursor

def start (rest : List Char) : Cursor := ⟨0, 0, rest⟩

/-- Consumes up to `n` columns of white space from a place without spare columns; also gives the
number of columns that were missing. -/
def takeFrom (column : Nat) : List Char → Nat → Cursor × Nat
  | cs, 0 => (⟨column, 0, cs⟩, 0)
  | ' ' :: cs, n + 1 => takeFrom (column + 1) cs n
  | '\t' :: cs, n + 1 =>
    let width := 4 - column % 4
    if width ≤ n + 1 then takeFrom 0 cs (n + 1 - width) else (⟨0, width - (n + 1), cs⟩, 0)
  | cs, n + 1 => (⟨column, 0, cs⟩, n + 1)

/-- Consumes up to `n` columns of white space; also gives the number of columns missing. -/
def take (c : Cursor) (n : Nat) : Cursor × Nat :=
  if n ≤ c.spare then (⟨c.column, c.spare - n, c.rest⟩, 0)
  else takeFrom c.column c.rest (n - c.spare)

def char? (c : Cursor) (x : Char) : Option Cursor :=
  match c.rest with
  | y :: cs => if x = y then some ⟨c.column + 1, c.spare, cs⟩ else none
  | [] => none

def atEnd (c : Cursor) : Bool := atLineEnd c.rest

def skipSpace (c : Cursor) : Cursor :=
  let tail := c.rest.dropWhile fun x => x = ' ' || x = '\t'
  ⟨c.column + (c.rest.length - tail.length), 0, tail⟩

end Cursor

end LiterateJournal.Markdown
