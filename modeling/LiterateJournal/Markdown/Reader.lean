import LiterateJournal.Document.Links
import LiterateJournal.Markdown.Forest
import LiterateJournal.Markdown.Outline

/-!
# Reading blocks from Markdown events

A document's blocks are read from the stream of events by recursive descent. Each reader is called
after the event that opens its container and consumes the one that closes it.

Links and images by label keep the label. Strikethrough has no form of its own and leaves its
content; footnote references and task marks remain as text, and footnotes are skipped.

## Main definitions

* `readBlocks`, `readSpans` — the blocks and the spans of a container.
* `blocksOfEvents` — the blocks of a whole stream.
* `parseMarkdown` — the blocks and link definitions of a text.
-/

namespace LiterateJournal.Markdown

/-- Adds text to spans whose last one comes first; text next to text makes one span. -/
def addText (s : String) : List Span → List Span
  | .text t :: rest => .text (t ++ s) :: rest
  | rest => .text s :: rest

def addLeaf (spans : List Span) : Leaf → List Span
  | .text s => addText s spans
  | .softBreak => addText "\n" spans
  | .hardBreak => .lineBreak :: spans
  | .code s => .code s :: spans
  | .html s | .inlineHtml s => .raw s :: spans
  | .inlineMath s => .math s false :: spans
  | .displayMath s => .math s true :: spans
  | .footnoteReference label => addText ("[^" ++ label ++ "]") spans
  | .taskMark ticked => addText (if ticked then "[x] " else "[ ] ") spans
  | .rule => spans

/-- No title is written for an empty one. -/
def givenTitle? (title : String) : Option String := if title.isEmpty then none else some title

/-- The spans of an inline container, given those of its content and, the last one first, those
before it; a container of another kind leaves nothing. -/
def addContainer (tag : Tag) (body before : List Span) : List Span :=
  match tag with
  | .emphasis => .emphasis body :: before
  | .strong => .strong body :: before
  | .strikethrough => body.reverse ++ before
  | .link form destination title label =>
    if form.isReference then
      .linkReference body ("[" ++ plainText body ++ "][" ++ label ++ "]") label :: before
    else .link body destination (givenTitle? title) :: before
  | .image form destination title label =>
    let alt := plainText body
    if form.isReference then
      .imageReference alt ("![" ++ alt ++ "][" ++ label ++ "]") label :: before
    else .image alt destination (givenTitle? title) :: before
  | _ => before

/-- Drops events up to the one that closes the outermost of `depth + 1` containers. -/
def skipContainer : Nat → List Event → List Event
  | _, [] => []
  | depth, .enter _ :: es => skipContainer (depth + 1) es
  | 0, .leave :: es => es
  | depth + 1, .leave :: es => skipContainer depth es
  | depth, .leaf _ :: es => skipContainer depth es

def readText : List Event → String × List Event
  | [] => ("", [])
  | .leave :: es => ("", es)
  | .leaf (.text s) :: es | .leaf (.html s) :: es =>
    let (more, rest) := readText es
    (s ++ more, rest)
  | _ :: es => readText es

mutual

/-- The span that one event begins, put before `spans`, and the events after it. -/
def readSpan : Nat → List Span → Event → List Event → List Span × List Event
  | _, spans, .leaf l, es => (addLeaf spans l, es)
  | _, spans, .leave, es => (spans, es)
  | 0, spans, _, es => (spans, es)
  | fuel + 1, spans, .enter tag, es =>
    if tag.isInline then
      let (body, rest) := readSpans fuel [] es
      (addContainer tag body spans, rest)
    else (spans, skipContainer 0 es)

/-- The spans up to the end of the container, after `spans`, of which the last comes first. -/
def readSpans : Nat → List Span → List Event → List Span × List Event
  | 0, spans, es => (spans.reverse, es)
  | _, spans, [] => (spans.reverse, [])
  | _, spans, .leave :: es => (spans.reverse, es)
  | fuel + 1, spans, e :: es =>
    let (spans, rest) := readSpan fuel spans e es
    readSpans fuel spans rest

end

/-- Whether an event belongs to a line of text that stands in a block container by itself. -/
def Event.isLoose : Event → Bool
  | .enter tag => tag.isInline
  | .leave => false
  | .leaf l => l ≠ .rule

/-- The spans up to the next event that is not loose, after `spans`. -/
def readLoose : Nat → List Span → List Event → List Span × List Event
  | 0, spans, es => (spans.reverse, es)
  | _, spans, [] => (spans.reverse, [])
  | fuel + 1, spans, e :: es =>
    if e.isLoose then
      let (spans, rest) := readSpan fuel spans e es
      readLoose fuel spans rest
    else (spans.reverse, e :: es)

/-- A paragraph, unless it is empty; displayed mathematics alone is a block of its own. -/
def paragraph? : List Span → Option Block
  | [] => none
  | [.math source true] => some (.math source)
  | spans => some (.paragraph spans)

def readCells : Nat → List Event → List Cell × List Event
  | 0, es => ([], es)
  | _, [] => ([], [])
  | _, .leave :: es => ([], es)
  | fuel + 1, .enter .tableCell :: es =>
    let (spans, rest) := readSpans fuel [] es
    let (cells, rest) := readCells fuel rest
    ((if spans.isEmpty then [] else [.paragraph spans]) :: cells, rest)
  | fuel + 1, _ :: es => readCells fuel es

/-- The header and the rows of a table, and the events after it. Of several headers the last one
counts. -/
def readRows : Nat → List Event → Option (List Cell) × List (List Cell) × List Event
  | 0, es => (none, [], es)
  | _, [] => (none, [], [])
  | _, .leave :: es => (none, [], es)
  | fuel + 1, .enter .tableHead :: es =>
    let (cells, rest) := readCells fuel es
    let (header, rows, rest) := readRows fuel rest
    (some (header.getD cells), rows, rest)
  | fuel + 1, .enter .tableRow :: es =>
    let (cells, rest) := readCells fuel es
    let (header, rows, rest) := readRows fuel rest
    (header, cells :: rows, rest)
  | fuel + 1, _ :: es => readRows fuel es

/-- The source of a code block ends without line feeds. -/
def codeSource (s : String) : String := String.ofList (Text.dropEndWhile (· = '\n') s.toList)

def language? (info : Option String) : Option String :=
  info.bind fun s => (Text.firstWord? s.toList).map String.ofList

mutual

/-- The blocks up to the end of the container, and the events after it. -/
def readBlocks : Nat → List Event → List Block × List Event
  | 0, es => ([], es)
  | _, [] => ([], [])
  | _, .leave :: es => ([], es)
  | fuel + 1, .leaf .rule :: es =>
    let (blocks, rest) := readBlocks fuel es
    (.rule :: blocks, rest)
  | fuel + 1, e :: es =>
    if e.isLoose then
      let (spans, rest) := readLoose (fuel + 1) [] (e :: es)
      let (blocks, rest) := readBlocks fuel rest
      (if spans.isEmpty then blocks else .paragraph spans :: blocks, rest)
    else
      match e with
      | .enter tag =>
        let (block, rest) := readBlock fuel tag es
        let (blocks, rest) := readBlocks fuel rest
        (block.toList ++ blocks, rest)
      | _ => readBlocks fuel es

/-- The block that a container makes, if any, and the events after it. -/
def readBlock : Nat → Tag → List Event → Option Block × List Event
  | 0, _, es => (none, es)
  | fuel + 1, .paragraph, es =>
    let (spans, rest) := readSpans fuel [] es
    (paragraph? spans, rest)
  | fuel + 1, .heading level, es =>
    let (spans, rest) := readSpans fuel [] es
    (some (.heading level spans), rest)
  | fuel + 1, .quote, es =>
    let (blocks, rest) := readBlocks fuel es
    (some (.quote blocks), rest)
  | _, .codeBlock info, es =>
    let (text, rest) := readText es
    (some (.code (codeSource text) (language? info)), rest)
  | _, .htmlBlock, es =>
    let (text, rest) := readText es
    (some (.raw text), rest)
  | fuel + 1, .list start, es =>
    let (items, rest) := readItems fuel es
    let kind := match start with
      | some n => .numbered n
      | none => .bulleted
    (some (.list kind items), rest)
  | fuel + 1, .table alignments, es =>
    let (header, rows, rest) := readRows fuel es
    (some (.table alignments (header.getD []) rows), rest)
  | _, _, es => (none, skipContainer 0 es)

def readItems : Nat → List Event → List (List Block) × List Event
  | 0, es => ([], es)
  | _, [] => ([], [])
  | _, .leave :: es => ([], es)
  | fuel + 1, .enter .item :: es =>
    let (item, rest) := readBlocks fuel es
    let (items, rest) := readItems fuel rest
    (item :: items, rest)
  | fuel + 1, _ :: es => readItems fuel es

end

def blocksOfEvents (es : List Event) : List Block := (readBlocks (2 * es.length + 1) es).1

def linksOf (definitions : List Definition) : LinkTable :=
  definitions.foldl
    (fun table d =>
      table.insert (String.ofList d.label)
        ⟨String.ofList d.destination, givenTitle? (String.ofList d.title)⟩)
    ∅

end Markdown

/-- The blocks of a Markdown text and its link definitions. -/
def parseMarkdown (text : String) (order : Markdown.DefinitionOrder := .ofText) :
    List Block × LinkTable :=
  let outline := Markdown.Outline.ofText text.toList
  (Markdown.blocksOfEvents outline.events, Markdown.linksOf (order.arrange outline.definitions))

end LiterateJournal
