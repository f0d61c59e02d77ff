import LiterateJournal.Document.Basic
import LiterateJournal.Markdown.Cursor
import LiterateJournal.Text.Punctuation

/-!
# Lines of a table

A table starts with a header line, whose cells are counted by their pipes, and a delimiter line,
which gives each column its alignment. Each further line is cut into cells at its pipes. A pipe
after an escaping backslash belongs to its cell.
-/

namespace LiterateJournal.Markdown

open LiterateJournal.Text (isAsciiPunctuation)

/-- A column of the delimiter line while it is read. -/
structure DelimiterColumn where
  alignment : Alignment
  /-- No mark of the column has been read. -/
  fresh : Bool
  /-- A hyphen of the column has been read. -/
  hyphen : Bool

/-- The column after a colon, which aligns it by its place. -/
def DelimiterColumn.colon (c : DelimiterColumn) : DelimiterColumn :=
  let alignment := match c.fresh, c.alignment with
    | true, .default => .left
    | false, .left => .center
    | false, .default => .right
    | _, a => a
  { c with alignment, fresh := false }

/-- Reads a delimiter line on: the columns read before (last one first), whether a pipe and a hyphen
have been seen, and the current column. -/
def delimiterFrom? (done : List Alignment) (pipe hyphen : Bool) (column : DelimiterColumn)
    (cs : List Char) : Option (List Alignment × List Char) :=
  let finish (rest : List Char) :=
    let columns := if column.fresh then done else column.alignment :: done
    if pipe && hyphen then some (columns.reverse, rest) else none
  match cs with
  | [] => finish []
  | c :: cs =>
    if c = '\n' || c = '\r' then finish ((lineEnd? (c :: cs)).getD [])
    else if c = ' ' then delimiterFrom? done pipe hyphen column cs
    else if c = ':' then delimiterFrom? done pipe hyphen column.colon cs
    else if c = '-' then
      delimiterFrom? done pipe true { column with fresh := false, hyphen := true } cs
    else if c = '|' then
      if column.hyphen then
        delimiterFrom? (column.alignment :: done) true hyphen ⟨.default, true, false⟩ cs
      else none
    else none

/-- The alignments that a delimiter line gives, and the rest of the text. -/
def delimiterLine? (cs : List Char) : Option (List Alignment × List Char) :=
  match (Cursor.start cs).take 4 with
  | (_, 0) => none
  | (c, _) =>
    match c.rest with
    | [] => none
    | '|' :: rest => delimiterFrom? [] true false ⟨.default, true, false⟩ rest
    | rest => delimiterFrom? [] false false ⟨.default, true, false⟩ rest

/-- The pipes of a line that are not escaped: their number, and the text after the last one. -/
def pipesFrom (escaped : Bool) (count : Nat) (after : List Char) :
    List Char → Nat × List Char
  | [] => (count, after)
  | c :: cs =>
    if escaped then pipesFrom false count after cs
    else if c = '\n' || c = '\r' then (count, after)
    else if c = '|' then pipesFrom false (count + 1) cs cs
    else pipesFrom (c = '\\' && cs.head?.any isAsciiPunctuation) count after cs

/-- The number of cells in a header line; none without a pipe. A pipe at either end of the line
opens no cell. -/
def headerCells? (line : List Char) : Option Nat :=
  match pipesFrom false 0 [] line with
  | (0, _) => none
  | (pipes, after) =>
    let pipes := if (line.dropWhile isSpace).head? = some '|' then pipes - 1 else pipes
    some (if (blankLine? after).isSome then pipes else pipes + 1)

/-- The text of a cell up to a pipe or the line end, and the rest from there. -/
def cutCell (escaped : Bool) : List Char → List Char × List Char
  | [] => ([], [])
  | c :: cs =>
    if !escaped && (c = '|' || c = '\n' || c = '\r') then ([], c :: cs)
    else
      let (cell, rest) := cutCell (!escaped && c = '\\' && cs.head?.any isAsciiPunctuation) cs
      (c :: cell, rest)

/-- The cells of a table line, at most `fuel`, and the text after the line. -/
def cutCells : Nat → List Char → List (List Char) × List Char
  | 0, cs => ([], cs)
  | fuel + 1, cs =>
    let content := (match cs with
      | '|' :: rest => rest
      | _ => cs).dropWhile isSpace
    match lineEnd? content with
    | some rest => ([], rest)
    | none =>
      let (cell, rest) := cutCell false content
      let (cells, after) := cutCells fuel rest
      (cell :: cells, after)

/-- A row of exactly `columns` cells, padded with empty ones or cut, and the text after its line. -/
def tableRow (columns : Nat) (cs : List Char) : List (List Char) × List Char :=
  let (cells, rest) := cutCells (cs.length + 1) cs
  ((cells ++ List.replicate (columns - cells.length) []).take columns, rest)

end LiterateJournal.Markdown
