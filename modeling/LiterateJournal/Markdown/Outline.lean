import LiterateJournal.Markdown.Destination
import LiterateJournal.Markdown.HtmlTag
import LiterateJournal.Markdown.Label
import LiterateJournal.Markdown.Node
import LiterateJournal.Markdown.TableLine

/-!
# Reading the block outline

A Markdown text is read line by line into nested blocks whose inline content is still plain text.
Link definitions and footnote labels are collected on the way, since the inline content anywhere in
the text may refer to them.

Each reader takes the rest of the text from the start of a line and answers with the rest from the
start of a later line, or from within a line after the marks of some blocks.

## Main definitions

* `Progress` — the open blocks and the rest of the reader's state.
* `Progress.readBlock` — reads the next block, or a blank line.
* `Outline.ofText` — the outline of a text.
-/

namespace LiterateJournal.Markdown

/-- Where the reading of the outline stands. -/
structure Progress where
  /-- The open blocks, the innermost first. -/
  spine : List Frame
  /-- The finished blocks outside all open ones, the last one first. -/
  done : List Node
  /-- The last item began with a blank line, and nothing has followed. -/
  emptyItem : Bool
  /-- The line before was blank. -/
  blankBefore : Bool
  /-- A task mark that the next paragraph begins with. -/
  pendingTask : Option Bool
  /-- The link definitions, in the order of the text. -/
  definitions : List Definition
  /-- The labels of the footnotes. -/
  footnotes : List (List Char)

namespace Progress

def start : Progress := ⟨[], [], false, false, none, [], []⟩

/-- Consumes what the open blocks demand at the start of a line; also tells how many go on. -/
def enter (p : Progress) (line : List Char) : Nat × Cursor :=
  continueContainers (p.spine.map Frame.container).reverse (Cursor.start line)

/-- Whether that many open blocks are all of them. -/
def isAll (p : Progress) (n : Nat) : Bool := n = p.spine.length

/-! ### Opening and closing blocks -/

def add (p : Progress) (node : Node) : Progress :=
  match p.spine with
  | [] => { p with done := node :: p.done }
  | f :: outer => { p with spine := { f with children := node :: f.children } :: outer }

def push (p : Progress) (k : Container) : Progress := { p with spine := ⟨k, []⟩ :: p.spine }

def pop (p : Progress) : Progress :=
  match p.spine with
  | [] => p
  | f :: outer =>
    let closed := { p with spine := outer }.add f.close
    match f.container with
    | .list true _ => { closed with emptyItem := false }
    | _ => closed

def popMany (p : Progress) : Nat → Progress
  | 0 => p
  | n + 1 => p.pop.popMany n

/-- An item that began with a blank line ends at a second one. -/
def closeEmptyItem (p : Progress) : Progress :=
  let closed :=
    if p.emptyItem && p.blankBefore then
      match p.spine with
      | ⟨.item _, _⟩ :: _ => p.pop
      | _ => p
    else p
  { closed with emptyItem := false }

/-- A blank line between the blocks of an item makes its list loose. -/
def loosen (p : Progress) : Progress :=
  match p.spine with
  | item :: ⟨.list _ mark, items⟩ :: outer =>
    { p with spine := item :: ⟨.list false mark, items⟩ :: outer }
  | _ => p

def closeList (p : Progress) : Progress :=
  let p := p.closeEmptyItem
  let p := match p.spine with
    | ⟨.list _ _, _⟩ :: _ => p.pop
    | _ => p
  if p.blankBefore then { p.loosen with blankBefore := false } else p

/-- Continues the open list with another item, or opens a list. -/
def enterList (p : Progress) (mark : ListMark) : Progress :=
  let p := p.closeEmptyItem
  let fresh := { (p.closeList.push (.list true mark)) with blankBefore := false }
  match p.spine with
  | ⟨.list tight old, items⟩ :: outer =>
    if old.delimiter = mark.delimiter then
      if p.blankBefore then
        { p with spine := ⟨.list false old, items⟩ :: outer, blankBefore := false }
      else { p with spine := ⟨.list tight old, items⟩ :: outer }
    else fresh
  | _ => fresh

/-! ### What ends a paragraph -/

/-- The label of the footnote definition that stands here, and the rest after its colon. -/
def footnote? (cs : List Char) : Option (List Char × List Char) :=
  match cs with
  | '[' :: '^' :: cs =>
    match label? (fun _ => none) false cs with
    | some (label, ':' :: rest) => some (label, rest)
    | _ => none
  | _ => none

/-- Whether a block other than a table starts here that ends the paragraph or table before it, given
whether all open blocks go on. Within them, only a bullet or the number one starts a list, and only
with content. -/
def startsBlock (all inTable : Bool) (cs : List Char) : Bool :=
  atLineEnd cs || (thematicBreak? cs).isSome || (numberSigns? cs).isSome ||
    (openingFence? cs).isSome || cs.head? = some '>' ||
    (match listItem? cs with
      | some (mark, rest) =>
        !all || inTable || ((!mark.isOrdered || mark.number = 1) && !isEmptyItem rest)
      | none => false) ||
    (match cs with
      | '<' :: rest => (blockEndMark? rest).isSome || startsBlockElement rest
      | _ => false) ||
    (footnote? cs).isSome

/-- The alignments of the table whose header line is given, if the following text starts with its
delimiter line, and the text after that line. -/
def table? (p : Progress) (header following : List Char) :
    Option (List Alignment × List Char) := do
  if !header.getLast?.any (fun c => c = '\n' || c = '\r') then none
  let cells ← headerCells? header
  let (n, c) := p.enter following
  if !p.isAll n then none
  let (alignments, rest) ← delimiterLine? c.rest
  if alignments.length = cells then some (alignments, rest) else none

/-- Whether a block starts here that ends a paragraph; a table does so when its line starts with a
pipe. -/
def endsParagraph (p : Progress) (all : Bool) (cs : List Char) : Bool :=
  startsBlock all false cs ||
    (cs.head? = some '|' &&
      (let (header, rest) := cutContentLine cs
       (p.table? header rest).isSome))

/-! ### Leaf blocks -/

def plainLine (line : List Char) : List Char :=
  match line.reverse with
  | c :: '\r' :: rest => (c :: rest).reverse
  | _ => line

/-- Reads the lines of a fenced code block, at most `fuel`: the code, and the rest. -/
def fencedFrom (p : Progress) (indent : Nat) (mark : Char) (width : Nat) :
    Nat → List Char → List Char × List Char
  | 0, cs => ([], cs)
  | fuel + 1, cs =>
    let (n, c) := p.enter cs
    if !p.isAll n then ([], cs)
    else
      let c := (c.take indent).1
      let close? := match c.take (4 - indent) with
        | (_, 0) => none
        | (inner, _) => closingFence? mark width inner.rest
      match close? with
      | some rest => ([], (blankLine? rest).getD rest)
      | none =>
        let (line, next) := cutLine c.rest
        let (code, rest) := fencedFrom p indent mark width fuel next
        (List.replicate c.spare ' ' ++ plainLine line ++ code, rest)

def fenced (p : Progress) (indent : Nat) (mark : Char) (width : Nat) (cs : List Char) :
    Progress × List Char :=
  let (line, next) := cutLine (cs.dropWhile isSpace)
  let info := unescape false (line.reverse.dropWhile isWhite).reverse
  let (code, rest) := fencedFrom p indent mark width (next.length + 1) next
  (p.add (.code (some info) code), rest)

/-- Reads the lines of an indented code block, at most `fuel`: the code up to the last line that is
not blank, the rest, and whether the last line was blank. -/
def indentedFrom (p : Progress) :
    Nat → Bool → List Char → Nat → List Char → List Char → List Char × List Char × Bool
  | 0, blank, kept, _, _, cs => (kept, cs, blank)
  | fuel + 1, blank, kept, spare, read, cs =>
    let (line, next) := cutLine cs
    let read := read ++ List.replicate spare ' ' ++ plainLine line
    let kept := if blank then kept else read
    let (n, c) := p.enter next
    match c.indented? 4 with
    | some c =>
      if !p.isAll n || c.rest.isEmpty then (kept, next, blank)
      else indentedFrom p fuel (blankLine? c.rest).isSome kept c.spare read c.rest
    | none => (kept, next, blank)

/-- Reads an indented code block, of whose first tab `spare` columns are left over. -/
def indented (p : Progress) (spare : Nat) (cs : List Char) : Progress × List Char :=
  let (code, rest, blank) := indentedFrom p (cs.length + 1) false [] spare [] cs
  ({ (p.add (.code none code)) with blankBefore := blank }, rest)

def holds (p : List Char) (cs : List Char) : Bool := (afterFirst? p cs).isSome

/-- Reads the lines of an HTML block, at most `fuel`, up to one that holds `ending`, or else up to a
blank line: the markup, and the rest. -/
def htmlFrom (p : Progress) (ending : Option (List Char)) :
    Nat → Nat → List Char → List Char × List Char
  | 0, _, cs => ([], cs)
  | fuel + 1, spare, cs =>
    let (line, next) := cutLine cs
    let markup := List.replicate spare ' ' ++ plainLine line
    let (n, c) := p.enter next
    let last := !p.isAll n || c.rest.isEmpty || match ending with
      | some mark => holds mark line
      | none => (blankLine? c.rest).isSome
    if last then (markup, next)
    else
      let (more, rest) := htmlFrom p ending fuel c.spare c.rest
      (markup ++ more, rest)

def html (p : Progress) (ending : Option (List Char)) (spare : Nat) (cs : List Char) :
    Progress × List Char :=
  let (markup, rest) := htmlFrom p ending (cs.length + 1) spare cs
  (p.add (.html markup), rest)

/-! ### Link definitions -/

/-- The content of a further line of a definition, unless a block or an underline starts there. -/
def furtherLine? (p : Progress) (cs : List Char) : Option (List Char) :=
  let (n, c) := p.enter cs
  match c.take 4 with
  | (inner, 0) => some inner.rest
  | (inner, _) =>
    if p.endsParagraph (p.isAll n) inner.rest || (p.isAll n && (underline? inner.rest).isSome) then
      none
    else some inner.rest

/-- The text after the white space within a definition, which may hold one line end, and whether it
did. -/
def definitionSpace? (p : Progress) (cs : List Char) : Option (List Char × Bool) :=
  let rest := cs.dropWhile isSpace
  match lineEnd? rest with
  | none => some (rest, false)
  | some next =>
    match p.furtherLine? next with
    | none => none
    | some line =>
      let rest := line.dropWhile isSpace
      if atLineEnd rest then none else some (rest, true)

/-- The title of a definition, if what follows it on its line is blank, and the rest. -/
def definitionTitle? (cs : List Char) : Option (List Char × List Char) :=
  match Markdown.definitionTitle? cs with
  | some (title, rest) => if (blankLine? rest).isSome then some (title, rest) else none
  | none => none

/-- The link definition that stands here, and the rest after it. What cannot be a title is left to
the next line, if it stands on one of its own. -/
def definition? (p : Progress) (cs : List Char) : Option (Definition × List Char) := do
  let '[' :: cs := cs | none
  let (label, ':' :: cs) ← label? p.furtherLine? false cs | none
  let (start, _) ← p.definitionSpace? cs
  let (destination, rest) ← destination? start
  if rest.length = start.length then none
  let plain : Definition := ⟨label, unescape false destination, []⟩
  match p.definitionSpace? rest with
  | none => some (plain, rest)
  | some (tail, broken) =>
    if tail.length = rest.length then none
    else
      match definitionTitle? tail with
      | some (title, after) => some ({ plain with title := unescape false title }, after)
      | none => if broken then some (plain, rest) else none

def define (p : Progress) (d : Definition) : Progress :=
  if p.definitions.any fun e => Label.matches e.label d.label then p
  else { p with definitions := p.definitions ++ [d] }

/-! ### Paragraphs and tables -/

/-- Reads the lines of a paragraph, at most `fuel`, of which the first is known to belong to it: the
text, the level of the heading that it is if it is underlined, and the rest. -/
def paragraphFrom (p : Progress) : Nat → List Char → List Char × Option Nat × List Char
  | 0, cs => ([], none, cs)
  | fuel + 1, cs =>
    let (line, next) := cutContentLine cs
    let (n, c) := p.enter next
    let goOn (inner : Cursor) :=
      if inner.skipSpace.atEnd then (line, none, next)
      else
        let (more, level, rest) := paragraphFrom p fuel c.rest
        (line ++ more, level, rest)
    match c.take 4 with
    | (inner, 0) => goOn inner
    | (inner, _) =>
      match if p.isAll n then underline? inner.rest else none with
      | some (level, rest) => (line, some level, rest)
      | none => if p.endsParagraph (p.isAll n) inner.rest then (line, none, next) else goOn inner

def paragraph (p : Progress) (cs : List Char) : Progress × List Char :=
  let (content, level, rest) := p.paragraphFrom (cs.length + 1) cs
  let node := match level with
    | some level => .heading level false content
    | none => .paragraph false p.pendingTask content
  ({ p.add node with pendingTask := none }, rest)

/-- Reads the rows of a table, at most `fuel`, up to a line that starts another block. -/
def rowsFrom (p : Progress) (columns : Nat) :
    Nat → List Char → List (List (List Char)) × List Char
  | 0, cs => ([], cs)
  | fuel + 1, cs =>
    let (n, c) := p.enter cs
    let c := c.skipSpace
    if !p.isAll n || startsBlock true true c.rest then ([], cs)
    else
      let (row, next) := tableRow columns c.rest
      let (rows, rest) := rowsFrom p columns fuel next
      (row :: rows, rest)

/-- Reads a table from its header line on, given what follows its delimiter line. -/
def table (p : Progress) (header : List Char) (alignments : List Alignment)
    (following : List Char) : Progress × List Char :=
  let columns := alignments.length
  let (rows, rest) := p.rowsFrom columns (following.length + 1) following
  ({ p.add (.table alignments ((tableRow columns header).1 :: rows)) with pendingTask := none },
    rest)

/-! ### Reading on -/

/-- Opens the blocks whose marks stand here, at most `fuel`. The answer says whether the line ends
with them, in which case the cursor stands at the start of the next line. -/
def openBlocks : Nat → Progress → Cursor → Progress × Cursor × Bool
  | 0, p, c => (p, c, false)
  | fuel + 1, p, c =>
    match footnote? c.rest with
    | some (label, rest) =>
      let p := p.closeList
      let p := match p.spine with
        | ⟨.footnote _, _⟩ :: _ => p.pop
        | _ => p
      let p := { p with footnotes := p.footnotes ++ [label] }
      openBlocks fuel (p.push (.footnote label)) (Cursor.start rest)
    | none =>
      match c.listItem? with
      | some (mark, indent, inner) =>
        let p := (p.enterList mark).push (.item indent)
        match blankLine? inner.rest with
        | some rest => ({ p with emptyItem := true }, Cursor.start rest, true)
        | none =>
          match inner.taskMark? with
          | some (ticked, after) =>
            match blankLine? after.rest with
            | some rest =>
              ({ p.add (.taskMark ticked) with emptyItem := true }, Cursor.start rest, true)
            | none => openBlocks fuel { p with pendingTask := some ticked } after
          | none => openBlocks fuel p inner
      | none =>
        match c.quote? with
        | some inner => openBlocks fuel (p.closeList.push .quote) inner
        | none => (p, c, false)

/-- Takes note of a blank line. A block quote's own blank lines do not loosen a list, and an item
without content yet takes no further lines. -/
def blankLine (p : Progress) : Progress :=
  match p.spine with
  | ⟨.quote, _⟩ :: _ => p
  | ⟨.item indent, children⟩ :: outer =>
    { p with spine := ⟨.item (if p.emptyItem then 0 else indent), children⟩ :: outer,
             blankBefore := true }
  | _ => { p with blankBefore := true }

/-- Reads a block without children, after `indent` columns of white space. -/
def leaf (p : Progress) (indent : Nat) (cs : List Char) : Progress × List Char :=
  let paragraphOr (next? : Option (Progress × List Char)) := next?.getD <|
    match thematicBreak? cs with
    | some rest => (p.add .rule, rest)
    | none =>
    match numberSigns? cs with
    | some (level, rest) =>
      let (content, next) := cutContentLine (rest.dropWhile isSpace)
      (p.add (.heading level true content), next)
    | none =>
    match openingFence? cs with
    | some (mark, width, rest) => p.fenced indent mark width rest
    | none =>
    match p.definition? cs with
    | some (definition, rest) => (p.define definition, (Markdown.blankLine? rest).getD rest)
    | none =>
      let (header, following) := cutContentLine cs
      match p.table? header following with
      | some (alignments, rest) => p.table header alignments rest
      | none => p.paragraph cs
  paragraphOr <|
    match cs with
    | '<' :: rest =>
      match blockEndMark? rest with
      | some ending => some (p.html (some ending) indent cs)
      | none =>
        if startsBlockElement rest || isTagLine rest then some (p.html none indent cs) else none
    | _ => none

def readBlock (p : Progress) (cs : List Char) : Progress × List Char :=
  let (n, c) := p.enter cs
  let p := p.popMany (p.spine.length - n)
  let (p, c, ended) := openBlocks (cs.length + 1) p c
  if ended then (p, c.rest)
  else
    match Markdown.blankLine? c.rest with
    | some rest => (p.blankLine, rest)
    | none =>
      let p := p.closeList
      match c.take 4 with
      | (inner, 0) => p.indented inner.spare inner.rest
      | (inner, missing) => p.leaf (max c.spare (4 - missing)) inner.rest

def readBlocks : Nat → Progress → List Char → Progress
  | 0, p, _ => p
  | _, p, [] => p
  | fuel + 1, p, cs =>
    let (p, rest) := p.readBlock cs
    readBlocks fuel p rest

end Progress

def Outline.ofText (cs : List Char) : Outline :=
  let p := Progress.readBlocks (cs.length + 1) Progress.start cs
  let p := p.popMany p.spine.length
  ⟨p.done.reverse, p.definitions, p.footnotes⟩

end LiterateJournal.Markdown
