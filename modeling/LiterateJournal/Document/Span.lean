/-!
# Spans

Inline content of a document: text, code, emphasis, mathematics, links and images. Links and images
written with a label keep the label, so that a later pass can still change the definition.

## Main definitions

* `Span` — a piece of inline content.
* `plainText` — the text that a sequence of spans shows, without any markup.
-/

namespace LiterateJournal

inductive Span where
  | text (s : String)
  | code (s : String)
  | strong (body : List Span)
  | emphasis (body : List Span)
  /-- Mathematics in TeX notation, within a line or displayed on its own. -/
  | math (source : String) (display : Bool)
  /-- Markup of the output language, passed through as it is. -/
  | raw (s : String)
  | link (body : List Span) (url : String) (title : Option String)
  /-- A link by label, with its source text. -/
  | linkReference (body : List Span) (written key : String)
  | image (alt url : String) (title : Option String)
  /-- An image by label, with its source text. -/
  | imageReference (alt written key : String)
  | lineBreak
deriving Repr, BEq, Inhabited

mutual

def Span.plainText : Span → String
  | .text s | .code s | .raw s => s
  | .math source _ => source
  | .strong body | .emphasis body | .link body _ _ | .linkReference body _ _ => Span.plainTexts body
  | .image alt _ _ | .imageReference alt _ _ => alt
  | .lineBreak => " "

def Span.plainTexts : List Span → String
  | [] => ""
  | s :: rest => s.plainText ++ Span.plainTexts rest

end

/-- The text that a sequence of spans shows: a line break counts as a space, an image as its
description. -/
def plainText (spans : List Span) : String := Span.plainTexts spans

end LiterateJournal
