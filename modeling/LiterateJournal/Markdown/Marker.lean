import LiterateJournal.Markdown.Cursor

/-!
# Block markers

The marks at the start of a line that open or make a block: thematic breaks, headings, code
fences, block quotes and list items. Except for those on a cursor, the readers here expect the
indentation of the line to be consumed already, and answer with the rest of the text.
-/

namespace LiterateJournal.Markdown

/-- The length of the run of `c` that starts a text, and the rest. -/
def cutRun (c : Char) : List Char → Nat × List Char
  | [] => (0, [])
  | x :: xs =>
    if x = c then
      let (n, rest) := cutRun c xs
      (n + 1, rest)
    else (0, x :: xs)

/-- The rest after a line that holds `marks` more of the mark `c`, at least three with those before
it, and spaces between them. -/
def ruleTail? (c : Char) (marks : Nat) : List Char → Option (List Char)
  | [] => if 3 ≤ marks then some [] else none
  | x :: xs =>
    if x = c then ruleTail? c (marks + 1) xs
    else if x = ' ' || x = '\t' then ruleTail? c marks xs
    else if 3 ≤ marks then lineEnd? (x :: xs)
    else none

/-- The rest after a thematic break: three or more of one of `*`, `-`, `_` alone on a line. -/
def thematicBreak? : List Char → Option (List Char)
  | [] => none
  | c :: cs => if c = '*' || c = '-' || c = '_' then ruleTail? c 1 cs else none

/-- The level of a heading that starts with number signs, and the rest after them. -/
def numberSigns? (cs : List Char) : Option (Nat × List Char) :=
  let (level, rest) := cutRun '#' cs
  if 1 ≤ level && level ≤ 6 && (rest.isEmpty || rest.head?.any isWhite) then some (level, rest)
  else none

/-- The level that an underline gives to the paragraph above it, and the rest. -/
def underline? : List Char → Option (Nat × List Char)
  | [] => none
  | c :: cs =>
    if c = '=' || c = '-' then
      (blankLine? (cutRun c cs).2).map fun rest => (if c = '=' then 1 else 2, rest)
    else none

/-- The mark and width of an opening code fence, and the rest of its line. The line of a fence of
backticks holds no further backtick. -/
def openingFence? : List Char → Option (Char × Nat × List Char)
  | [] => none
  | c :: cs =>
    if c = '\x60' || c = '~' then
      let (n, rest) := cutRun c cs
      if 3 ≤ n + 1 && !(c = '\x60' && (cutLine rest).1.contains '\x60') then some (c, n + 1, rest)
      else none
    else none

/-- The rest, from the line end on, after a closing fence at least as wide as the opening one. The
end of the text closes a fence too. -/
def closingFence? (c : Char) (width : Nat) (cs : List Char) : Option (List Char) :=
  match cs with
  | [] => some []
  | _ =>
    let (n, rest) := cutRun c cs
    let tail := rest.dropWhile (· = ' ')
    if width ≤ n && atLineEnd tail then some tail else none

/-- A list item's mark: a bullet, or the delimiter after a number. -/
structure ListMark where
  delimiter : Char
  /-- The number, or zero for a bullet. -/
  number : Nat
deriving DecidableEq, Repr

def ListMark.isOrdered (m : ListMark) : Bool := m.delimiter = '.' || m.delimiter = ')'

/-- The value and length of the run of at most `fuel` decimal digits that starts a text, counted
on from `value` and `count`, and the rest. -/
def cutNumber : Nat → Nat → Nat → List Char → Nat × Nat × List Char
  | fuel + 1, value, count, c :: cs =>
    if c.isDigit then cutNumber fuel (value * 10 + (c.toNat - 48)) (count + 1) cs
    else (value, count, c :: cs)
  | _, value, count, cs => (value, count, cs)

/-- The mark that starts a text, its width, and the rest; a number has at most nine digits. -/
def listMark? : List Char → Option (ListMark × Nat × List Char)
  | [] => none
  | c :: cs =>
    if c = '-' || c = '+' || c = '*' then some (⟨c, 0⟩, 1, cs)
    else if c.isDigit then
      let (value, count, rest) := cutNumber 9 0 0 (c :: cs)
      match rest with
      | d :: tail => if d = '.' || d = ')' then some (⟨d, value⟩, count + 1, tail) else none
      | [] => none
    else none

/-- A text that starts with a list mark, followed by white space or a line end: the mark, and the
rest after it. -/
def listItem? (cs : List Char) : Option (ListMark × List Char) := do
  let (mark, _, rest) ← listMark? cs
  if rest.head?.any (fun c => c = ' ' || c = '\t') || atLineEnd rest then return (mark, rest)
  none

/-- Whether the text after a list mark holds nothing for two lines. -/
def isEmptyItem (rest : List Char) : Bool :=
  match blankLine? rest with
  | some next => (blankLine? next).isSome
  | none => false

namespace Cursor

/-- Consumes a block quote mark with up to three columns before and one after it. -/
def quote? (c : Cursor) : Option Cursor :=
  ((c.take 3).1.char? '>').map fun c => (c.take 1).1

/-- Consumes a list mark, and tells the number of columns by which the content is indented. More
than four columns after the mark belong to the content, but for the first. -/
def listItem? (c : Cursor) : Option (ListMark × Nat × Cursor) := do
  let (c, missing) := c.take 4
  if missing = 0 then none
  if (thematicBreak? c.rest).isSome then none
  let (mark, width, rest) ← listMark? c.rest
  let indent := (4 - missing) + width + 1
  let after : Cursor := ⟨c.column + width, 0, rest⟩
  let (content, lacking) := after.take 1
  if lacking ≠ 0 && !content.atEnd then none
  if (blankLine? content.rest).isSome then return (mark, indent, content)
  match content.take 4 with
  | (inner, n + 1) => return (mark, indent + (4 - (n + 1)), inner)
  | (_, 0) => return (mark, indent, content)

/-- Consumes a task list mark, which white space must follow, and tells whether it is ticked. -/
def taskMark? (c : Cursor) : Option (Bool × Cursor) := do
  let open_ ← (c.take 3).1.char? '['
  match open_.rest with
  | x :: ']' :: y :: cs =>
    if !isSpace y then none
    let after : Cursor := ⟨open_.column + 2, open_.spare, y :: cs⟩
    if isSpace x then return (false, after)
    if x = 'x' || x = 'X' then return (true, after)
    none
  | _ => none

end Cursor

end LiterateJournal.Markdown
