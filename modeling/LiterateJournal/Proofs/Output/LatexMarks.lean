import LiterateJournal.Output.Latex
import LiterateJournal.Proofs.Text.Trim

/-!
# Where the characters of a LaTeX page come from

A page is written once more, with a mark on each character that says whether it is text of the
document or was put there by the writer. Of what the writer puts there, the commands that take an
optional argument behind them are marked on their own.

## Main definitions

* `Latex.Marked` — text with marks.
* `Latex.markBlocks` — the marked fragment for a sequence of blocks.

## Main statements

* `Latex.erase_markBlocks` — without its marks, it is the fragment.
-/

namespace LiterateJournal.Latex

/-! ### Marked text -/

/-- Where a character of a page comes from. -/
inductive Origin where
  | writer
  /-- A command of the writer that looks for an optional argument. -/
  | opener
  | document
deriving Repr, DecidableEq

/-- Text with the origin of each character. -/
abbrev Marked := List (Char × Origin)

namespace Marked

def ofString (origin : Origin) (s : String) : Marked := s.toList.map (·, origin)

def erase (m : Marked) : List Char := m.map Prod.fst

def trimEnd (m : Marked) : Marked := m.take (Text.trimEnd m.erase).length

def trim (m : Marked) : Marked := trimEnd (m.dropWhile (Text.isBlank ·.1))

@[simp] theorem erase_nil : erase [] = [] := rfl

@[simp] theorem erase_append (m n : Marked) : erase (m ++ n) = m.erase ++ n.erase :=
  List.map_append

@[simp] theorem erase_ofString (origin : Origin) (s : String) :
    (ofString origin s).erase = s.toList := by
  rw [erase, ofString, List.map_map]
  exact List.map_id _

@[simp] theorem erase_trimEnd (m : Marked) : m.trimEnd.erase = Text.trimEnd m.erase := by
  obtain ⟨blanks, hblanks, -⟩ := Text.exists_trimEnd_append m.erase
  have htake : m.erase.take (Text.trimEnd m.erase).length = Text.trimEnd m.erase :=
    (congrArg (List.take _) hblanks).trans List.take_left
  rw [← htake, erase, trimEnd, List.map_take]
  rfl

@[simp] theorem erase_trim (m : Marked) : m.trim.erase = Text.trim m.erase := by
  rw [trim, erase_trimEnd, Text.trim, Text.trimStart, erase, erase, List.dropWhile_map]
  rfl

end Marked

open Marked

/-! ### The marked writer -/

def markGroup (m : Marked) : Marked := ofString .writer "\x7b" ++ m ++ ofString .writer "\x7d"

def markCommand (name : String) (argument : Marked) : Marked :=
  ofString .writer ("\\" ++ name) ++ markGroup argument

def markEnvironment (name options : String) (body : Marked) : Marked :=
  ofString .writer (command "begin" name ++ options ++ "\n") ++ body ++
    ofString .writer (command "end" name ++ "\n\n")

def markRow : List Marked → Marked
  | [] => []
  | [c] => c
  | c :: cs => c ++ ofString .writer " & " ++ markRow cs

def markLink (url : String) (body : Marked) : Marked :=
  markCommand "href" (ofString .document url) ++ markGroup body

section Mark

variable (links : LinkTable)

mutual

def markSpan : Span → Marked
  | .text s => ofString .document (escape s)
  | .code s => markCommand "texttt" (ofString .document (escape s))
  | .strong body => markCommand "textbf" (markSpans body)
  | .emphasis body => markCommand "emph" (markSpans body)
  | .math source display =>
    if display then ofString .writer "\\[" ++ ofString .document source ++ ofString .writer "\\]"
    else ofString .writer "$" ++ ofString .document source ++ ofString .writer "$"
  | .raw s => ofString .document s
  | .link body url _ => markLink url (markSpans body)
  | .linkReference body written key =>
    match links.get? key with
    | some target => markLink target.url (markSpans body)
    | none => ofString .document (escape written)
  | .image _ url _ => markCommand "includegraphics" (ofString .document url)
  | .imageReference _ written key =>
    match links.get? key with
    | some target => markCommand "includegraphics" (ofString .document target.url)
    | none => ofString .document (escape written)
  | .lineBreak => ofString .opener "\\\\" ++ ofString .writer "\n"

def markSpans : List Span → Marked
  | [] => []
  | s :: rest => markSpan s ++ markSpans rest

end

mutual

def markBlock : Block → Marked
  | .heading level body =>
    markCommand (sectioning level) (markSpans links body) ++ ofString .writer "\n\n"
  | .paragraph body => markSpans links body ++ ofString .writer "\n\n"
  | .code source _ =>
    markEnvironment "verbatim" "" (ofString .document source ++ ofString .writer "\n")
  | .raw markup => (ofString .document markup).trimEnd ++ ofString .writer "\n\n"
  | .math source =>
    ofString .writer "\\[" ++ ofString .document source ++ ofString .writer "\\]\n\n"
  | .rule =>
    ofString .writer ("\\noindent" ++ command "rule" "\\linewidth" ++ group "0.4pt" ++ "\n\n")
  | .list kind items =>
    markEnvironment (listEnvironment kind) ""
      (ofString .writer (counterLine kind) ++ markItems items)
  | .quote body =>
    markEnvironment "quote" "" ((markBlocks body).trimEnd ++ ofString .writer "\n")
  | .table alignments header rows =>
    let head := if header.isEmpty then [] else
      markRow (markCells header) ++ ofString .writer " " ++ ofString .opener "\\\\" ++
        ofString .writer " \\hline\n"
    markEnvironment "tabular" (group (columnLetters (columnCount header rows) alignments))
      (head ++ markRows rows)

def markBlocks : List Block → Marked
  | [] => []
  | b :: bs => markBlock b ++ markBlocks bs

def markItems : List (List Block) → Marked
  | [] => []
  | item :: items =>
    ofString .opener "\\item" ++ ofString .writer " " ++ (markBlocks item).trimEnd ++
      ofString .writer "\n" ++ markItems items

def markCells : List (List Block) → List Marked
  | [] => []
  | cell :: cells => (markBlocks cell).trim :: markCells cells

def markRows : List (List (List Block)) → Marked
  | [] => []
  | row :: rows =>
    markRow (markCells row) ++ ofString .writer " " ++ ofString .opener "\\\\" ++
      ofString .writer "\n" ++ markRows rows

end

end Mark

/-! ### The page without its marks -/

section Erase

variable (links : LinkTable)

@[simp] theorem erase_markGroup (m : Marked) :
    (markGroup m).erase = (group (String.ofList m.erase)).toList := by
  simp [markGroup, group]

@[simp] theorem erase_markCommand (name : String) (m : Marked) :
    (markCommand name m).erase = (command name (String.ofList m.erase)).toList := by
  simp [markCommand, command]

@[simp] theorem erase_markEnvironment (name options : String) (m : Marked) :
    (markEnvironment name options m).erase =
      (environment name options (String.ofList m.erase)).toList := by
  simp [markEnvironment, environment]

@[simp] theorem erase_markLink (url : String) (m : Marked) :
    (markLink url m).erase = (link url (String.ofList m.erase)).toList := by
  simp [markLink, link]

theorem erase_markRow (cells : List Marked) :
    (markRow cells).erase = (joinCells (cells.map (String.ofList ·.erase))).toList := by
  induction cells using markRow.induct with
  | case1 => rfl
  | case2 c => simp [markRow, joinCells]
  | case3 c cs hcs ih =>
    cases cs with
    | nil => exact absurd rfl hcs
    | cons d ds => simp [markRow, joinCells, ih]

mutual

theorem erase_markSpan : (s : Span) → (markSpan links s).erase = (writeSpan links s).toList
  | .text s | .raw s => by simp [markSpan, writeSpan]
  | .code s => by simp [markSpan, writeSpan]
  | .strong body | .emphasis body => by simp [markSpan, writeSpan, erase_markSpans body]
  | .math source display => by cases display <;> simp [markSpan, writeSpan]
  | .link body url _ => by simp [markSpan, writeSpan, erase_markSpans body]
  | .linkReference body written key => by
    rw [markSpan, writeSpan]
    cases links.get? key with
    | some target => simp [erase_markSpans body]
    | none => simp
  | .image _ url _ => by simp [markSpan, writeSpan]
  | .imageReference _ written key => by
    rw [markSpan, writeSpan]
    cases links.get? key <;> simp
  | .lineBreak => by simp [markSpan, writeSpan]

theorem erase_markSpans : (spans : List Span) →
    (markSpans links spans).erase = (writeSpans links spans).toList
  | [] => rfl
  | s :: rest => by
    rw [markSpans, writeSpans, erase_append, erase_markSpan s, erase_markSpans rest,
      String.toList_append]

end

theorem erase_head (header : List (List Block))
    (hcells : (markCells links header).map (String.ofList ·.erase) = writeCells links header) :
    (if header.isEmpty then [] else
        markRow (markCells links header) ++ ofString .writer " " ++ ofString .opener "\\\\" ++
          ofString .writer " \\hline\n" : Marked).erase =
      (if header.isEmpty then "" else
        joinCells (writeCells links header) ++ " \\\\ \\hline\n").toList := by
  cases header with
  | nil => rfl
  | cons cell cells => simp [erase_markRow, hcells]

mutual

theorem erase_markBlock : (b : Block) → (markBlock links b).erase = (writeBlock links b).toList
  | .heading level body => by simp [markBlock, writeBlock, erase_markSpans links body]
  | .paragraph body => by simp [markBlock, writeBlock, erase_markSpans links body]
  | .code source _ => by simp [markBlock, writeBlock]
  | .raw markup => by simp [markBlock, writeBlock, Latex.trimEnd]
  | .math source => by simp [markBlock, writeBlock]
  | .rule => by simp [markBlock, writeBlock]
  | .list kind items => by simp [markBlock, writeBlock, erase_markItems items]
  | .quote body => by simp [markBlock, writeBlock, Latex.trimEnd, erase_markBlocks body]
  | .table alignments header rows => by
    simp only [markBlock, writeBlock, erase_markEnvironment, erase_append, erase_markRows rows,
      erase_head links header (erase_markCells header), ← String.toList_append,
      String.ofList_toList]

/-- Without its marks, the page is as it is written. -/
theorem erase_markBlocks : (blocks : List Block) →
    (markBlocks links blocks).erase = (writeBlocks links blocks).toList
  | [] => rfl
  | b :: bs => by
    rw [markBlocks, writeBlocks, erase_append, erase_markBlock b, erase_markBlocks bs,
      String.toList_append]

theorem erase_markItems : (items : List (List Block)) →
    (markItems links items).erase = (writeItems links items).toList
  | [] => rfl
  | item :: items => by
    simp [markItems, writeItems, Latex.trimEnd, erase_markBlocks item, erase_markItems items]

theorem erase_markCells : (cells : List (List Block)) →
    (markCells links cells).map (String.ofList ·.erase) = writeCells links cells
  | [] => rfl
  | cell :: cells => by
    simp [markCells, writeCells, Latex.trim, erase_markBlocks cell, erase_markCells cells]

theorem erase_markRows : (rows : List (List (List Block))) →
    (markRows links rows).erase = (writeRows links rows).toList
  | [] => rfl
  | row :: rows => by
    simp [markRows, writeRows, erase_markRow, erase_markCells row, erase_markRows rows]

end

end Erase

end LiterateJournal.Latex
