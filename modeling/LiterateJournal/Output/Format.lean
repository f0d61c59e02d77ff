import LiterateJournal.Output.Html
import LiterateJournal.Output.Latex

/-!
# Output formats

Pages are written in HTML or in LaTeX. A page is made from a template, a text with marks for the
tooltips, the body and the title. Each mark is replaced wherever it stands, the tooltips first and
the title last, also in what has been put in before.

## Main definitions

* `OutputFormat`, `OutputFormat.writeBody` — the formats, and the body of a page.
* `fillTemplate` — a template with its marks replaced.
-/

namespace LiterateJournal

inductive OutputFormat where
  | html
  | latex
deriving Repr, BEq, DecidableEq, Inhabited

namespace OutputFormat

def writeBody (format : OutputFormat) (links : LinkTable) (blocks : List Block) : String :=
  match format with
  | .html => Html.writeBlocks links blocks
  | .latex => Latex.writeBlocks links blocks

def escape (format : OutputFormat) (text : String) : String :=
  match format with
  | .html => Html.escape text
  | .latex => Latex.escape text

def bodyMark : OutputFormat → String
  | .html => "\x7bdocument\x7d"
  | .latex => "\x7bcontents\x7d"

def fileExtension : OutputFormat → String
  | .html => "html"
  | .latex => "tex"

end OutputFormat

/-! ### Templates -/

/-- A text with a mark replaced by a value, after passing over `skip` characters. -/
def replaceFrom (mark value : List Char) : Nat → List Char → List Char
  | _, [] => []
  | n + 1, _ :: cs => replaceFrom mark value n cs
  | 0, c :: cs =>
    if mark.isPrefixOf (c :: cs) then value ++ replaceFrom mark value (mark.length - 1) cs
    else c :: replaceFrom mark value 0 cs

def replaceMark (mark : String) (value : String) (text : List Char) : List Char :=
  replaceFrom mark.toList value.toList 0 text

def tooltipsMark : String := "\x7btooltips\x7d"

def titleMark : String := "\x7bpage-title\x7d"

/-- A template with its marks replaced. The title is plain text, the others are markup. -/
def fillTemplate (template : String) (format : OutputFormat) (body tooltips title : String) :
    String :=
  let text := replaceMark tooltipsMark tooltips template.toList
  let text := replaceMark format.bodyMark body text
  String.ofList (replaceMark titleMark (format.escape title) text)

end LiterateJournal
