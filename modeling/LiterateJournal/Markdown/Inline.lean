import LiterateJournal.Markdown.Autolink
import LiterateJournal.Markdown.Destination
import LiterateJournal.Markdown.Emphasis
import LiterateJournal.Markdown.Label
import LiterateJournal.Markdown.Node
import LiterateJournal.Markdown.Token

/-!
# Inline content

The tokens of inline content are read from left to right. Code, mathematics and raw HTML take what
is between their marks as it is; a closing bracket decides whether there is a link or an image
since its opening bracket. What remains are pieces, whose emphasis is resolved last.

## Main definitions

* `References` — what brackets may refer to.
* `closeBracket` — what a closing bracket makes of the content since the opening one.
* `inlineTrees` — the trees of inline content.
-/

namespace LiterateJournal.Markdown

/-- What brackets may refer to, and whether they stand in a table cell. -/
structure References where
  definitions : List Definition
  footnotes : List (List Char)
  inTable : Bool

def References.definition? (r : References) (label : List Char) : Option Definition :=
  r.definitions.find? fun d => Label.matches d.label label

def References.hasFootnote (r : References) (label : List Char) : Bool :=
  r.footnotes.any fun f => Label.matches f label

/-- What an opening bracket may open. -/
inductive BracketKind where
  | link
  | image
  /-- A link that would contain another one. -/
  | disabled
deriving BEq, DecidableEq

/-- An opening bracket, with the pieces before it, the last one first. -/
structure Bracket where
  kind : BracketKind
  token : Token
  before : List Piece

/-- The open brackets, the innermost first, and the pieces after the innermost, the last one
first. -/
structure Reading where
  brackets : List Bracket
  pieces : List Piece

namespace Reading

def start : Reading := ⟨[], []⟩

def add (r : Reading) (p : Piece) : Reading := { r with pieces := p :: r.pieces }

def addLeaf (r : Reading) (l : Leaf) : Reading := r.add (.tree (.leaf l))

def addText (r : Reading) (cs : List Char) : Reading := r.add (.tree (textLeaf cs))

def push (r : Reading) (kind : BracketKind) (t : Token) : Reading :=
  ⟨⟨kind, t, r.pieces⟩ :: r.brackets, []⟩

/-- The innermost bracket is text. -/
def abandon (b : Bracket) (r : Reading) : Reading :=
  { r with pieces := r.pieces ++ .tree (textLeaf b.token.text) :: b.before }

def abandonAll (r : Reading) : Reading :=
  ⟨[], (r.brackets.foldl (fun r b => abandon b r) r).pieces⟩

/-- No link may contain another link, which has just been read. -/
def disableLinks (r : Reading) : Reading :=
  { r with brackets := r.brackets.map fun b =>
      match b.kind with
      | .link => { b with kind := .disabled }
      | _ => b }

end Reading

/-- The tokens from a place on; of the first one perhaps only its end. -/
def tokensFromPlace (place : Nat) : List Token → List Token
  | [] => []
  | t :: ts =>
    if t.stop ≤ place then tokensFromPlace place ts
    else if t.start < place then
      { t with start := place, source := t.source.drop (place - t.start) } :: ts
    else t :: ts

/-- The place of a rest of the content, given a token before it. -/
def Token.placeOf (t : Token) (rest : List Char) : Nat := t.start + (t.source.length - rest.length)

def between (a b : Token) : List Char := a.after.take (b.start - a.stop)

/-! ### Code and mathematics -/

/-- In a table cell, a backslash before a pipe is dropped. -/
def unescapePipes : List Char → List Char
  | '\\' :: '|' :: cs => '|' :: unescapePipes cs
  | c :: cs => c :: unescapePipes cs
  | [] => []

def joinLines : List Char → List Char
  | '\r' :: '\n' :: cs => ' ' :: joinLines cs
  | c :: cs => (if c = '\n' || c = '\r' then ' ' else c) :: joinLines cs
  | [] => []

/-- The content of a code span: without one space at each end, unless it is all spaces. -/
def codeText (inTable : Bool) (cs : List Char) : List Char :=
  let text := joinLines (if inTable then unescapePipes cs else cs)
  if text.head? = some ' ' && text.getLast? = some ' ' && text.any (· ≠ ' ') then
    (text.drop 1).dropLast
  else text

/-- The run of as many backticks that closes a code span, and the tokens after it. -/
def closingTicks? (count : Nat) : List Token → Option (Token × List Token)
  | [] => none
  | t :: ts =>
    match t.kind with
    | .ticks n _ => if n = count then some (t, ts) else closingTicks? count ts
    | _ => closingTicks? count ts

def startsWithDollar : List Token → Bool
  | ⟨_, _, _, .dollar ..⟩ :: _ => true
  | _ => false

/-- The dollar sign that closes mathematics, and the tokens after it. The next one inside the same
pair of braces must do. -/
def closingDollar? (display : Bool) (braces : Nat) : List Token → Option (Token × List Token)
  | [] => none
  | t :: ts =>
    match t.kind with
    | .dollar _ canClose pair =>
      if pair = braces then
        if (if display then startsWithDollar ts else canClose) then some (t, ts) else none
      else closingDollar? display braces ts
    | _ => closingDollar? display braces ts

/-! ### Links and images -/

/-- The text after white space with at most one line end in it. -/
def linkSpace (cs : List Char) : List Char :=
  let rest := cs.dropWhile isSpace
  ((lineEnd? rest).getD rest).dropWhile isSpace

/-- The destination and title in parentheses that follow a bracket, and the rest. -/
def inlineTarget? (inTable : Bool) (cs : List Char) :
    Option (List Char × List Char × List Char) := do
  let '(' :: cs := cs | none
  let (destination, rest) ← destination? (linkSpace cs)
  let rest := linkSpace rest
  let (title, rest) := match inlineTitle? inTable rest with
    | some (title, rest) => (title, linkSpace rest)
    | none => ([], rest)
  let ')' :: rest := rest | none
  some (unescape inTable destination, title, rest)

/-- A label in brackets: of a footnote or of a definition, and the rest. -/
inductive Mention where
  | footnote (label rest : List Char)
  | definition (label rest : List Char)

/-- The label in brackets that stands here. A footnote's label stands on one line. -/
def mention? (inTable : Bool) (cs : List Char) : Option Mention :=
  match cs with
  | '[' :: cs =>
    let definition := (label? some inTable cs).map fun (label, rest) => .definition label rest
    match cs with
    | '^' :: c :: tail =>
      if c = ']' then definition
      else
        match label? (fun _ => none) inTable (c :: tail) with
        | some (label, rest) => some (.footnote label rest)
        | none => definition
    | _ => definition
  | _ => none

def linkTree (kind : BracketKind) (form : LinkForm) (destination title label : List Char)
    (pieces : List Piece) : Tree :=
  let children := resolve pieces.reverse
  let d := String.ofList destination
  let t := String.ofList title
  let l := String.ofList label
  .node (if kind = .image then .image form d t l else .link form d t l) children

/-- Completes the link or image that an opening bracket began. -/
def Reading.link (r : Reading) (b : Bracket) (form : LinkForm)
    (destination title label : List Char) : Reading :=
  let tree := linkTree b.kind form destination title label r.pieces
  let r : Reading := { r with pieces := .tree tree :: b.before }
  if b.kind = .image then r else r.disableLinks

/-- What a closing bracket makes of the content since the opening bracket `b`, and the tokens to go
on with. `r` stands outside the two brackets but for its pieces, which are those between them. -/
def closeBracket (refs : References) (r : Reading) (b : Bracket) (t : Token) (ts : List Token) :
    Reading × List Token :=
  let asText := ((Reading.abandon b r).addText [']'], ts)
  /- a label is the only thing between the brackets, or else it follows them -/
  let byOwnLabel (form : LinkForm) (rest : List Token) : Reading × List Token :=
    let opening := b.token.source.drop (b.token.stop - b.token.start - 1)
    match mention? refs.inTable (opening.take (t.stop - (b.token.stop - 1))) with
    | some (.footnote label []) =>
      if refs.hasFootnote label then
        let before := if b.kind = .image then .tree (textLeaf ['!']) :: b.before else b.before
        let note : Leaf := .footnoteReference (String.ofList label)
        (Reading.abandonAll { r with pieces := .tree (.leaf note) :: before }, ts)
      else asText
    | some (.definition label []) =>
      match refs.definition? label with
      | some d => (r.link b form d.destination d.title label, rest)
      | none => asText
    | _ => asText
  match inlineTarget? refs.inTable t.after with
  | some (destination, title, rest) =>
    (r.link b .inline destination title [], tokensFromPlace (t.placeOf rest) ts)
  | none =>
    match ts with
    | [] => byOwnLabel .shortcut ts
    | next :: _ =>
      if Text.startsWith ['[', ']'] next.source then byOwnLabel .collapsed (ts.drop 2)
      else
        match mention? refs.inTable next.source with
        | some (.definition label rest) =>
          let others := tokensFromPlace (next.placeOf rest) ts
          match refs.definition? label with
          | some d => (r.link b .full d.destination d.title label, others)
          | none => (r.link b .undefined label [] label, others)
        | _ => byOwnLabel .shortcut ts

/-! ### All tokens -/

/-- What a left angle bracket begins, and the tokens to go on with. -/
def readAngle (r : Reading) (t : Token) (ts : List Token) : Reading × List Token :=
  match ts with
  | [] => (r.addText t.text, ts)
  | next :: _ =>
    match autolink? next.source with
    | some (form, address, rest) =>
      let tree : Tree :=
        .node (.link form (String.ofList address) "" "") [textLeaf address]
      (r.add (.tree tree), tokensFromPlace (next.placeOf rest) ts)
    | none =>
      match inlineHtml? next.source with
      | some rest =>
        let markup := t.source.take (t.source.length - rest.length)
        (r.addLeaf (.inlineHtml (String.ofList markup)), tokensFromPlace (next.placeOf rest) ts)
      | none => (r.addText t.text, ts)

/-- What a run of backticks begins, and the tokens to go on with. -/
def readTicks (inTable : Bool) (count : Nat) (escaped : Bool) (r : Reading) (t : Token)
    (ts : List Token) : Reading × List Token :=
  let wanted := if escaped then count - 1 else count
  match if wanted = 0 then none else closingTicks? wanted ts with
  | some (close, rest) =>
    let r := if escaped then r.addText ['\x60'] else r
    (r.addLeaf (.code (String.ofList (codeText inTable (between t close)))), rest)
  | none => (r.addText t.text, ts)

/-- What a dollar sign begins, and the tokens to go on with. -/
def readDollar (inTable canOpen : Bool) (braces : Nat) (r : Reading) (t : Token)
    (ts : List Token) : Reading × List Token :=
  let source (a b : Token) : String :=
    let text := between a b
    String.ofList (if inTable then unescapePipes text else text)
  let asText := (r.addText t.text, ts)
  if !canOpen then asText
  else
    match ts with
    | second :: more =>
      if startsWithDollar ts then
        match closingDollar? true braces more with
        | some (close, rest) => (r.addLeaf (.displayMath (source second close)), rest.drop 1)
        | none => asText
      else
        match closingDollar? false braces ts with
        | some (close, rest) => (r.addLeaf (.inlineMath (source t close)), rest)
        | none => asText
    | [] => asText

/-- Reads one token, with those after it, and gives the tokens to go on with. -/
def readToken (refs : References) (r : Reading) (t : Token) (ts : List Token) :
    Reading × List Token :=
  match t.kind with
  | .text => (r.addText t.text, ts)
  | .reference value => (r.addText value, ts)
  | .run mark count canOpen canClose => (r.add (.run mark count canOpen canClose), ts)
  | .dollar canOpen _ braces => readDollar refs.inTable canOpen braces r t ts
  | .ticks count escaped => readTicks refs.inTable count escaped r t ts
  | .linkOpen => (r.push .link t, ts)
  | .imageOpen => (r.push .image t, ts)
  | .bracketClose =>
    match r.brackets with
    | [] => (r.addText t.text, ts)
    | b :: outer =>
      let inside : Reading := { r with brackets := outer }
      if b.kind = .disabled then ((Reading.abandon b inside).addText t.text, ts)
      else closeBracket refs inside b t ts
  | .angle => readAngle r t ts
  | .softBreak => (r.addLeaf .softBreak, ts)
  | .hardBreak true => (r.add .escapedBreak, ts)
  | .hardBreak false => (r.addLeaf .hardBreak, ts)

def readTokens (refs : References) : Nat → Reading → List Token → Reading
  | 0, r, _ => r
  | _, r, [] => r
  | fuel + 1, r, t :: ts =>
    let (r, rest) := readToken refs r t ts
    readTokens refs fuel r rest

def treesOfTokens (refs : References) (ts : List Token) : List Tree :=
  resolve (readTokens refs ts.length .start ts).abandonAll.pieces.reverse

def inlineTrees (refs : References) (content : List Char) : List Tree :=
  treesOfTokens refs (tokens content)

end LiterateJournal.Markdown
