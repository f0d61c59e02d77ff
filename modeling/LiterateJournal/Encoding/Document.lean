import LiterateJournal.Document.Basic
import LiterateJournal.Json.Value

/-!
# Documents as JSON

A case with content is an object with one field, named for the case; a case without content is a
text. A structure is an object, and a list of all its fields in order is read as well. A title or a
language may be missing when it is read, and is null when it is written.

## Main definitions

* `Span.toJson`, `Block.toJson`, `LinkTable.toJson`, `Document.toJson` — writing.
* `Span.ofJson?`, `Block.ofJson?`, `LinkTable.ofJson?`, `Document.ofJson?` — reading.
-/

namespace LiterateJournal

/-! ### Spans -/

mutual

def Span.toJson : Span → Json
  | .text s => .ofCase "Literal" (.text s)
  | .code s => .ofCase "InlineCode" (.text s)
  | .strong body => .ofCase "Strong" (.list (Span.listToJson body))
  | .emphasis body => .ofCase "Emphasis" (.list (Span.listToJson body))
  | .math source display =>
    .ofCase "Math" (.object [("source", .text source), ("display", .bool display)])
  | .raw s => .ofCase "RawInline" (.text s)
  | .link body url title =>
    .ofCase "DirectLink" (.object
      [("body", .list (Span.listToJson body)), ("url", .text url), ("title", .ofText? title)])
  | .linkReference body written key =>
    .ofCase "IndirectLink" (.object
      [("body", .list (Span.listToJson body)), ("original", .text written), ("key", .text key)])
  | .image alt url title =>
    .ofCase "DirectImage" (.object
      [("alt", .text alt), ("url", .text url), ("title", .ofText? title)])
  | .imageReference alt written key =>
    .ofCase "IndirectImage" (.object
      [("alt", .text alt), ("original", .text written), ("key", .text key)])
  | .lineBreak => .text "HardLineBreak"

def Span.listToJson : List Span → List Json
  | [] => []
  | s :: rest => s.toJson :: Span.listToJson rest

end

def spansToJson (spans : List Span) : Json := .list (Span.listToJson spans)

/-- The span that a case with content is, given how the spans inside it are read. -/
def Span.ofCase? (inner? : Json → Option Span) (name : String) (j : Json) : Option Span :=
  match name with
  | "Literal" => j.text?.map .text
  | "InlineCode" => j.text?.map .code
  | "Strong" => (j.list? inner?).map .strong
  | "Emphasis" => (j.list? inner?).map .emphasis
  | "Math" => do
    let source ← j.required? "source" Json.text?
    let display ← j.required? "display" Json.bool?
    some (.math source display)
  | "RawInline" => j.text?.map .raw
  | "DirectLink" => do
    let body ← j.required? "body" (Json.list? inner?)
    let url ← j.required? "url" Json.text?
    let title ← j.optional? "title" Json.text?
    some (.link body url title)
  | "IndirectLink" => do
    let body ← j.required? "body" (Json.list? inner?)
    let written ← j.required? "original" Json.text?
    let key ← j.required? "key" Json.text?
    some (.linkReference body written key)
  | "DirectImage" => do
    let alt ← j.required? "alt" Json.text?
    let url ← j.required? "url" Json.text?
    let title ← j.optional? "title" Json.text?
    some (.image alt url title)
  | "IndirectImage" => do
    let alt ← j.required? "alt" Json.text?
    let written ← j.required? "original" Json.text?
    let key ← j.required? "key" Json.text?
    some (.imageReference alt written key)
  | _ => none

def Span.ofJsonFrom? : Nat → Json → Option Span
  | 0, _ => none
  | depth + 1, j =>
    if j.caseName? = some "HardLineBreak" then some .lineBreak
    else j.case?.bind fun (name, content) => Span.ofCase? (Span.ofJsonFrom? depth) name content

def Span.ofJson? (j : Json) : Option Span := Span.ofJsonFrom? (j.depth + 1) j

def spansOfJson? (j : Json) : Option (List Span) := j.list? Span.ofJson?

/-! ### Blocks -/

def ListKind.toJson : ListKind → Json
  | .bulleted => .text "Unordered"
  | .numbered start => .ofCase "Ordered" (.object [("start", .number start.toNat)])

def ListKind.ofJson? (j : Json) : Option ListKind :=
  if j.caseName? = some "Unordered" then some .bulleted
  else
    match j.case? with
    | some ("Ordered", content) =>
      (content.required? "start" (Json.number? UInt64.size)).map fun n => .numbered (UInt64.ofNat n)
    | _ => none

def Alignment.toJson : Alignment → Json
  | .default => .text "Default"
  | .left => .text "Left"
  | .center => .text "Center"
  | .right => .text "Right"

def Alignment.ofJson? (j : Json) : Option Alignment :=
  match j.caseName? with
  | some "Default" => some .default
  | some "Left" => some .left
  | some "Center" => some .center
  | some "Right" => some .right
  | _ => none

mutual

def Block.toJson : Block → Json
  | .heading level body =>
    .ofCase "Heading" (.object [("level", .number level.toNat), ("body", spansToJson body)])
  | .paragraph body => .ofCase "Span" (spansToJson body)
  | .code source language =>
    .ofCase "CodeBlock" (.object [("code", .text source), ("language", .ofText? language)])
  | .raw markup => .ofCase "Raw" (.text markup)
  | .math source => .ofCase "Math" (.text source)
  | .rule => .text "HorizontalRule"
  | .list kind items =>
    .ofCase "List" (.object [("kind", kind.toJson), ("items", .list (Block.cellsToJson items))])
  | .quote body => .ofCase "Quoted" (.list (Block.listToJson body))
  | .table alignments header rows =>
    .ofCase "Table" (.object
      [("alignments", .list (alignments.map Alignment.toJson)),
       ("header", .list (Block.cellsToJson header)),
       ("rows", .list (Block.rowsToJson rows))])

def Block.listToJson : List Block → List Json
  | [] => []
  | b :: bs => b.toJson :: Block.listToJson bs

def Block.cellsToJson : List (List Block) → List Json
  | [] => []
  | c :: cs => .list (Block.listToJson c) :: Block.cellsToJson cs

def Block.rowsToJson : List (List (List Block)) → List Json
  | [] => []
  | r :: rs => .list (Block.cellsToJson r) :: Block.rowsToJson rs

end

def blocksToJson (blocks : List Block) : Json := .list (Block.listToJson blocks)

/-- The block that a case with content is, given how the blocks inside it are read. -/
def Block.ofCase? (inner? : Json → Option Block) (name : String) (j : Json) : Option Block :=
  let cells? := Json.list? (Json.list? inner?)
  match name with
  | "Heading" => do
    let level ← j.required? "level" (Json.number? UInt8.size)
    let body ← j.required? "body" spansOfJson?
    some (.heading (UInt8.ofNat level) body)
  | "Span" => (spansOfJson? j).map .paragraph
  | "CodeBlock" => do
    let code ← j.required? "code" Json.text?
    let language ← j.optional? "language" Json.text?
    some (.code code language)
  | "Raw" => j.text?.map .raw
  | "Math" => j.text?.map .math
  | "List" => do
    let kind ← j.required? "kind" ListKind.ofJson?
    let items ← j.required? "items" cells?
    some (.list kind items)
  | "Quoted" => (j.list? inner?).map .quote
  | "Table" => do
    let alignments ← j.required? "alignments" (Json.list? Alignment.ofJson?)
    let header ← j.required? "header" cells?
    let rows ← j.required? "rows" (Json.list? cells?)
    some (.table alignments header rows)
  | _ => none

/-- Reads a block from a value that nests less than `depth` deep. -/
def Block.ofJsonFrom? : Nat → Json → Option Block
  | 0, _ => none
  | depth + 1, j =>
    if j.caseName? = some "HorizontalRule" then some .rule
    else j.case?.bind fun (name, content) => Block.ofCase? (Block.ofJsonFrom? depth) name content

def Block.ofJson? (j : Json) : Option Block := Block.ofJsonFrom? (j.depth + 1) j

def blocksOfJson? (j : Json) : Option (List Block) := j.list? Block.ofJson?

/-! ### Link tables and documents -/

def LinkTarget.toJson (t : LinkTarget) : Json :=
  .object [("url", .text t.url), ("title", .ofText? t.title)]

def LinkTarget.ofJson? (j : Json) : Option LinkTarget := do
  let j := j.withFields ["url", "title"]
  let url ← j.required? "url" Json.text?
  let title ← j.optional? "title" Json.text?
  some ⟨url, title⟩

def LinkTable.toJson (t : LinkTable) : Json :=
  .object [("entries", .object (t.entries.entries.map fun (k, target) => (k, target.toJson)))]

def LinkTable.entryOfJson? (field : String × Json) : Option (String × LinkTarget) :=
  (LinkTarget.ofJson? field.2).map fun target => (field.1, target)

/-- The link table that a value is. Its labels are taken as they are. -/
def LinkTable.ofJson? (j : Json) : Option LinkTable :=
  match (j.withFields ["entries"]).field? "entries" with
  | some (.object fields) =>
    (fields.mapM LinkTable.entryOfJson?).map fun entries => ⟨.ofList entries⟩
  | _ => none

def SourceKind.toJson : SourceKind → Json
  | .script => .text "Script"
  | .markdown => .text "Markdown"

def SourceKind.ofJson? (j : Json) : Option SourceKind :=
  match j.caseName? with
  | some "Script" => some .script
  | some "Markdown" => some .markdown
  | _ => none

def Document.toJson (d : Document) : Json :=
  .object
    [("paragraphs", blocksToJson d.blocks), ("links", d.links.toJson),
     ("tooltips", .text d.tooltips), ("source_kind", d.kind.toJson), ("source_path", .text d.path)]

def Document.ofJson? (j : Json) : Option Document := do
  let j := j.withFields ["paragraphs", "links", "tooltips", "source_kind", "source_path"]
  let blocks ← j.required? "paragraphs" blocksOfJson?
  let links ← j.required? "links" LinkTable.ofJson?
  let tooltips ← j.required? "tooltips" Json.text?
  let kind ← j.required? "source_kind" SourceKind.ofJson?
  let path ← j.required? "source_path" Json.text?
  some ⟨blocks, links, tooltips, kind, path⟩

end LiterateJournal
