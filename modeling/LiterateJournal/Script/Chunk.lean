import LiterateJournal.Text.Blank

/-!
# Chunks of a script

A script is code in which some comments hold Markdown. A comment that opens with two stars holds
Markdown and ends where the comments nested in it are closed; one that opens with more stars is a
directive and ends at three stars and a parenthesis. A comment of stars alone is code.

The text is first cut into segments, which together are the whole text, and then chunks are made of
them: blank ones are dropped, and a directive to hide applies to the next code.

## Main definitions

* `Segment`, `segments` — the pieces of a script.
* `Chunk`, `chunks` — the Markdown and the code of a script.
* `dedent` — Markdown without the indentation that all its lines share.
-/

namespace LiterateJournal.Script

/-- What a script may lack. -/
inductive Unterminated where
  | directive
  | comment
deriving Repr, BEq, DecidableEq

def Unterminated.message : Unterminated → String
  | .directive => "unterminated (*** command"
  | .comment => "unterminated (** comment block"

/-- A piece of a script as it is written; of comments what stands between their marks. -/
inductive Segment where
  | code (text : List Char)
  | markdown (body : List Char)
  | directive (body : List Char)
deriving Repr, BEq, DecidableEq

/-- The text before the end of a comment, inside which `depth` other comments are open, and the text
after it. -/
def cutComment? (depth : Nat) : List Char → Option (List Char × List Char)
  | '(' :: '*' :: cs =>
    (cutComment? (depth + 1) cs).map fun (body, rest) => ('(' :: '*' :: body, rest)
  | '*' :: ')' :: cs =>
    match depth with
    | 0 => some ([], cs)
    | d + 1 => (cutComment? d cs).map fun (body, rest) => ('*' :: ')' :: body, rest)
  | c :: cs => (cutComment? depth cs).map fun (body, rest) => (c :: body, rest)
  | [] => none

/-- The text before the end of a directive, and the text after it. -/
def cutDirective? : List Char → Option (List Char × List Char)
  | '*' :: '*' :: '*' :: ')' :: cs => some ([], cs)
  | c :: cs => (cutDirective? cs).map fun (body, rest) => (c :: body, rest)
  | [] => none

/-- The segments of a text, of which `code` has been read already, the last character first. Each
step reads a character at least, and there are at most `fuel` steps. -/
def segmentsFrom : Nat → List Char → List Char → Except Unterminated (List Segment)
  | 0, code, cs => .ok [.code (code.reverse ++ cs)]
  | _, code, [] => .ok [.code code.reverse]
  | fuel + 1, code, '(' :: '*' :: '*' :: cs =>
    let more := cs.takeWhile (· = '*')
    match cs.drop more.length with
    | ')' :: rest => segmentsFrom fuel (')' :: more ++ '*' :: '*' :: '(' :: code) rest
    | _ =>
      if more.isEmpty then
        match cutComment? 0 cs with
        | some (body, rest) => do
          pure (.code code.reverse :: .markdown body :: (← segmentsFrom fuel [] rest))
        | none => .error .comment
      else
        match cutDirective? cs.tail with
        | some (body, rest) => do
          pure (.code code.reverse :: .directive body :: (← segmentsFrom fuel [] rest))
        | none => .error .directive
  | fuel + 1, code, c :: cs => segmentsFrom fuel (c :: code) cs

def segments (cs : List Char) : Except Unterminated (List Segment) := segmentsFrom cs.length [] cs

/-- A piece of a document. -/
inductive Chunk where
  | markdown (text : String)
  | code (text : String) (hidden : Bool)
deriving Repr, BEq, DecidableEq

def isBlankText (cs : List Char) : Bool := cs.all Text.isBlank

/-- Code without the blank lines at its start and the white space at its end. -/
def trimCode (cs : List Char) : List Char :=
  Text.trimEnd (Text.joinWith ['\n'] ((Text.lines cs).dropWhile isBlankText))

def byteLength : List Char → Nat
  | [] => 0
  | c :: cs => c.utf8Size + byteLength cs

/-- A line without its first `n` bytes, if they are whole characters. -/
def dropBytes? : Nat → List Char → Option (List Char)
  | 0, cs => some cs
  | _ + 1, [] => none
  | n + 1, c :: cs => if c.utf8Size ≤ n + 1 then dropBytes? (n + 1 - c.utf8Size) cs else none

/-- The number of bytes of the white space that a line starts with. -/
def indentation (line : List Char) : Nat := byteLength (line.takeWhile Text.isBlank)

def sharedIndentation (lines : List (List Char)) : Nat :=
  ((lines.filter (!isBlankText ·)).map indentation).min?.getD 0

/-- A text without the indentation that its lines share, and without the white space at its ends. A
line that has no such indentation loses the white space that it has. -/
def dedent (cs : List Char) : List Char :=
  let lines := Text.lines cs
  let n := sharedIndentation lines
  Text.trim
    (Text.joinWith ['\n'] (lines.map fun line => (dropBytes? n line).getD (Text.trimStart line)))

def isHide (body : List Char) : Bool :=
  (Text.trim body).map Char.toLower = ['h', 'i', 'd', 'e']

/-- The chunks of some segments; `hide` tells whether the next code is hidden. -/
def chunksOf (hide : Bool) : List Segment → List Chunk
  | [] => []
  | .code text :: rest =>
    if isBlankText text then chunksOf hide rest
    else .code (String.ofList (trimCode text)) hide :: chunksOf false rest
  | .markdown body :: rest =>
    if isBlankText body then chunksOf hide rest
    else .markdown (String.ofList (dedent body)) :: chunksOf hide rest
  | .directive body :: rest => chunksOf (hide || isHide body) rest

/-- Each carriage return before a line feed is dropped. -/
def plainLineEnds : List Char → List Char
  | '\r' :: '\n' :: cs => '\n' :: plainLineEnds cs
  | c :: cs => c :: plainLineEnds cs
  | [] => []

def chunks (text : String) : Except Unterminated (List Chunk) := do
  pure (chunksOf false (← segments (plainLineEnds text.toList)))

end LiterateJournal.Script
