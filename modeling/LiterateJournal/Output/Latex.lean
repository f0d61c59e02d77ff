import LiterateJournal.Document.Links
import LiterateJournal.Document.Basic
import LiterateJournal.Text.Blank

/-!
# LaTeX

Blocks are written as a LaTeX fragment. Text of the document is escaped; raw markup, mathematics,
targets and code blocks are not. A link or an image by label that is not defined is written as it
stands in the source.

## Main definitions

* `Latex.escape` — text as running text.
* `Latex.writeBlocks` — the fragment for a sequence of blocks.
-/

namespace LiterateJournal.Latex

def escapeChar : Char → List Char
  | '\\' => "\\textbackslash\x7b\x7d".toList
  | '\x7b' => ['\\', '\x7b']
  | '\x7d' => ['\\', '\x7d']
  | '$' => ['\\', '$']
  | '&' => ['\\', '&']
  | '#' => ['\\', '#']
  | '%' => ['\\', '%']
  | '_' => ['\\', '_']
  | '^' => "\\textasciicircum\x7b\x7d".toList
  | '~' => "\\textasciitilde\x7b\x7d".toList
  | c => [c]

def escape (text : String) : String := String.ofList (text.toList.flatMap escapeChar)

def group (s : String) : String := "\x7b" ++ s ++ "\x7d"

def command (name argument : String) : String := "\\" ++ name ++ group argument

/-- An environment, whose content ends its last line itself. -/
def environment (name options body : String) : String :=
  command "begin" name ++ options ++ "\n" ++ body ++ command "end" name ++ "\n\n"

def trimEnd (s : String) : String := String.ofList (Text.trimEnd s.toList)

def trim (s : String) : String := String.ofList (Text.trim s.toList)

def joinCells : List String → String
  | [] => ""
  | [c] => c
  | c :: cs => c ++ " & " ++ joinCells cs

def link (url body : String) : String := command "href" url ++ group body

section Write

variable (links : LinkTable)

mutual

def writeSpan : Span → String
  | .text s => escape s
  | .code s => command "texttt" (escape s)
  | .strong body => command "textbf" (writeSpans body)
  | .emphasis body => command "emph" (writeSpans body)
  | .math source display =>
    if display then "\\[" ++ source ++ "\\]" else "$" ++ source ++ "$"
  | .raw s => s
  | .link body url _ => link url (writeSpans body)
  | .linkReference body written key =>
    match links.get? key with
    | some target => link target.url (writeSpans body)
    | none => escape written
  | .image _ url _ => command "includegraphics" url
  | .imageReference _ written key =>
    match links.get? key with
    | some target => command "includegraphics" target.url
    | none => escape written
  | .lineBreak => "\\\\\n"

def writeSpans : List Span → String
  | [] => ""
  | s :: rest => writeSpan s ++ writeSpans rest

end

def sectioning (level : UInt8) : String :=
  match level.toNat with
  | 0 | 1 => "section*"
  | 2 => "subsection*"
  | 3 => "subsubsection*"
  | 4 => "paragraph"
  | _ => "subparagraph"

def listEnvironment : ListKind → String
  | .bulleted => "itemize"
  | .numbered _ => "enumerate"

/-- The line that sets the number before the first one, unless the list starts with one. -/
def counterLine : ListKind → String
  | .numbered start =>
    if start = 1 then ""
    else "\\setcounter" ++ group "enumi" ++ group (toString (start.toNat - 1)) ++ "\n"
  | .bulleted => ""

def columnCount (header : List Cell) (rows : List (List Cell)) : Nat :=
  rows.foldl (fun n row => max n row.length) header.length

def columnLetters (n : Nat) (alignments : List Alignment) : String :=
  String.ofList ((List.range n).map fun i =>
    match alignments[i]? with
    | some .center => 'c'
    | some .right => 'r'
    | _ => 'l')

mutual

def writeBlock : Block → String
  | .heading level body => command (sectioning level) (writeSpans links body) ++ "\n\n"
  | .paragraph body => writeSpans links body ++ "\n\n"
  | .code source _ => environment "verbatim" "" (source ++ "\n")
  | .raw markup => trimEnd markup ++ "\n\n"
  | .math source => "\\[" ++ source ++ "\\]\n\n"
  | .rule => "\\noindent" ++ command "rule" "\\linewidth" ++ group "0.4pt" ++ "\n\n"
  | .list kind items => environment (listEnvironment kind) "" (counterLine kind ++ writeItems items)
  | .quote body => environment "quote" "" (trimEnd (writeBlocks body) ++ "\n")
  | .table alignments header rows =>
    let head := if header.isEmpty then "" else joinCells (writeCells header) ++ " \\\\ \\hline\n"
    environment "tabular" (group (columnLetters (columnCount header rows) alignments))
      (head ++ writeRows rows)

def writeBlocks : List Block → String
  | [] => ""
  | b :: bs => writeBlock b ++ writeBlocks bs

def writeItems : List (List Block) → String
  | [] => ""
  | item :: items => "\\item " ++ trimEnd (writeBlocks item) ++ "\n" ++ writeItems items

def writeCells : List (List Block) → List String
  | [] => []
  | cell :: cells => trim (writeBlocks cell) :: writeCells cells

def writeRows : List (List (List Block)) → String
  | [] => ""
  | row :: rows => joinCells (writeCells row) ++ " \\\\\n" ++ writeRows rows

end

end Write

end LiterateJournal.Latex
