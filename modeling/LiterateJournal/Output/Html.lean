import LiterateJournal.Document.Links
import LiterateJournal.Document.Basic

/-!
# HTML

Blocks are written as an HTML fragment. Text of the document is escaped, raw markup is not. A link
or an image by label that is not defined is written as it stands in the source.

## Main definitions

* `Html.escape` — text as element content or as an attribute value.
* `Html.writeBlocks` — the fragment for a sequence of blocks.
-/

namespace LiterateJournal.Html

def escapeChar : Char → List Char
  | '&' => ['&', 'a', 'm', 'p', ';']
  | '<' => ['&', 'l', 't', ';']
  | '>' => ['&', 'g', 't', ';']
  | '"' => ['&', 'q', 'u', 'o', 't', ';']
  | '\'' => ['&', '#', '3', '9', ';']
  | c => [c]

def escape (text : String) : String := String.ofList (text.toList.flatMap escapeChar)

def attr (name value : String) : String := " " ++ name ++ "=\"" ++ escape value ++ "\""

def titleAttribute (title : Option String) : String :=
  match title with
  | some t => attr "title" t
  | none => ""

def element (name attributes body : String) : String :=
  "<" ++ name ++ attributes ++ ">" ++ body ++ "</" ++ name ++ ">"

def link (body : String) (target : LinkTarget) : String :=
  element "a" (attr "href" target.url ++ titleAttribute target.title) body

def image (alt : String) (target : LinkTarget) : String :=
  "<img" ++ attr "src" target.url ++ attr "alt" alt ++ titleAttribute target.title ++
    " />"

section Write

variable (links : LinkTable)

mutual

def writeSpan : Span → String
  | .text s => escape s
  | .code s => element "code" "" (escape s)
  | .strong body => element "strong" "" (writeSpans body)
  | .emphasis body => element "em" "" (writeSpans body)
  | .math source display =>
    if display then "\\[" ++ escape source ++ "\\]" else "\\(" ++ escape source ++ "\\)"
  | .raw s => s
  | .link body url title => link (writeSpans body) ⟨url, title⟩
  | .linkReference body written key =>
    match links.get? key with
    | some target => link (writeSpans body) target
    | none => escape written
  | .image alt url title => image alt ⟨url, title⟩
  | .imageReference alt written key =>
    match links.get? key with
    | some target => image alt target
    | none => escape written
  | .lineBreak => "<br />\n"

def writeSpans : List Span → String
  | [] => ""
  | s :: rest => writeSpan s ++ writeSpans rest

end

/-- The element of a heading; HTML has six levels. -/
def headingElement (level : UInt8) : String := "h" ++ toString (max 1 (min 6 level.toNat))

/-- The attribute for the first number of a list, unless that is one. -/
def startAttribute : ListKind → String
  | .numbered start => if start = 1 then "" else attr "start" (toString start.toNat)
  | .bulleted => ""

def listElement : ListKind → String
  | .bulleted => "ul"
  | .numbered _ => "ol"

def alignmentAttribute : Option Alignment → String
  | some .left => attr "style" "text-align: left"
  | some .center => attr "style" "text-align: center"
  | some .right => attr "style" "text-align: right"
  | _ => ""

mutual

def writeBlock : Block → String
  | .heading level body => element (headingElement level) "" (writeSpans links body) ++ "\n"
  | .paragraph body => element "p" "" (writeSpans links body) ++ "\n"
  | .code source language =>
    let attributes := match language with
      | some l => attr "class" ("language-" ++ l)
      | none => ""
    element "pre" "" (element "code" attributes (escape source)) ++ "\n"
  | .raw markup => if markup.toList.getLast? = some '\n' then markup else markup ++ "\n"
  | .math source => element "p" (attr "class" "math") ("\\[" ++ escape source ++ "\\]") ++ "\n"
  | .rule => "<hr />\n"
  | .list kind items =>
    element (listElement kind) (startAttribute kind) ("\n" ++ writeItems items) ++ "\n"
  | .quote body => element "blockquote" "" ("\n" ++ writeBlocks body) ++ "\n"
  | .table alignments header rows =>
    let head := if header.isEmpty then "" else
      element "thead" "" (element "tr" "" (writeCells "th" alignments header)) ++ "\n"
    let body := element "tbody" "" ("\n" ++ writeRows alignments rows) ++ "\n"
    element "table" "" ("\n" ++ head ++ body) ++ "\n"

def writeBlocks : List Block → String
  | [] => ""
  | b :: bs => writeBlock b ++ writeBlocks bs

/-- The content of an item or a cell; a paragraph alone stands without an element. -/
def writeItem : List Block → String
  | [.paragraph body] => writeSpans links body
  | blocks => "\n" ++ writeBlocks blocks

def writeItems : List (List Block) → String
  | [] => ""
  | item :: items => element "li" "" (writeItem item) ++ "\n" ++ writeItems items

def writeCells (name : String) (alignments : List Alignment) : List (List Block) → String
  | [] => ""
  | cell :: cells =>
    element name (alignmentAttribute alignments.head?) (writeItem cell) ++
      writeCells name alignments.tail cells

def writeRows (alignments : List Alignment) : List (List (List Block)) → String
  | [] => ""
  | row :: rows =>
    element "tr" "" (writeCells "td" alignments row) ++ "\n" ++ writeRows alignments rows

end

end Write

end LiterateJournal.Html
