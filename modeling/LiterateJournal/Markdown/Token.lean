import LiterateJournal.Markdown.Entity
import LiterateJournal.Text.Blank
import LiterateJournal.Text.Punctuation

/-!
# Tokens of inline content

The inline content of a paragraph, a heading or a table cell is cut into tokens: text, and the marks
that may turn out to be markup. A token knows its place in the content, so that a mark can later be
matched with the text as it was written.

## Main definitions

* `Token` — a piece of the content with its place and kind.
* `flanksLeft`, `flanksRight` — whether a run of emphasis marks can open or close emphasis.
* `tokens` — the tokens of a content.
* `trimSigns` — a heading's tokens without its closing number signs.
-/

namespace LiterateJournal.Markdown

open LiterateJournal.Text (isBlank isPunctuation isAsciiPunctuation)

/-- What a token may be. -/
inductive TokenKind where
  | text
  /-- A character reference, which stands for some text. -/
  | reference (value : List Char)
  /-- A run of one of `*`, `_`, `~` that can open or close emphasis. -/
  | run (mark : Char) (count : Nat) (canOpen canClose : Bool)
  /-- A dollar sign, in the innermost pair of braces with this number. -/
  | dollar (canOpen canClose : Bool) (braces : Nat)
  /-- A run of backticks, of which the first may be escaped by a backslash. -/
  | ticks (count : Nat) (escaped : Bool)
  | linkOpen
  | imageOpen
  | bracketClose
  /-- A left angle bracket. -/
  | angle
  | softBreak
  | hardBreak (backslash : Bool)
deriving Repr, BEq, DecidableEq

/-- A piece of the content. -/
structure Token where
  /-- The place of its first character. -/
  start : Nat
  /-- The place after its last character. -/
  stop : Nat
  /-- The content from its first character on. -/
  source : List Char
  kind : TokenKind

def Token.text (t : Token) : List Char := t.source.take (t.stop - t.start)

def Token.after (t : Token) : List Char := t.source.drop (t.stop - t.start)

/-- Whether a run can open emphasis, given the characters around it. An underscore or a single tilde
needs white space or punctuation before it. -/
def flanksLeft (mark : Char) (count : Nat) (before? after? : Option Char) : Bool :=
  match after? with
  | none => false
  | some after =>
    if isBlank after then false
    else
      match before? with
      | none => true
      | some before =>
        (mark = '*' && !isPunctuation after) || (mark = '~' && 1 < count) ||
          (mark = '~' && before = '~' && !isPunctuation after) ||
          isBlank before || isPunctuation before

/-- Whether a run can close emphasis, given the characters around it. -/
def flanksRight (mark : Char) (count : Nat) (before? after? : Option Char) : Bool :=
  match before? with
  | none => false
  | some before =>
    if isBlank before then false
    else
      match after? with
      | none => true
      | some after =>
        ((mark = '*' || (mark = '~' && 1 < count)) && !isPunctuation before) ||
          (mark = '~' && before = '~') ||
          isBlank after || isPunctuation after

/-- The pairs of braces around a place in the content, each with its own number. -/
structure Braces where
  /-- The open pairs, the innermost first; the last stands for the text outside all braces. -/
  around : List Nat
  next : Nat

/-- Outside all braces. -/
def Braces.none : Braces := ⟨[], 0⟩

/-- After an opening brace. -/
def Braces.open_ (b : Braces) : Braces := ⟨b.next :: b.around, b.next + 1⟩

/-- After a closing brace; one that closes nothing starts a part of its own. -/
def Braces.close (b : Braces) : Braces :=
  match b.around with
  | [_] => ⟨[b.next], b.next + 1⟩
  | _ :: outer => ⟨outer, b.next⟩
  | [] => b

/-- The number of the innermost pair, and the state in which the pair is known. -/
def Braces.inner (b : Braces) : Nat × Braces :=
  match b.around with
  | n :: _ => (n, b)
  | [] => (b.next, ⟨[b.next], b.next + 1⟩)

structure Place where
  pos : Nat
  /-- The start of the line, after its white space. -/
  lineStart : Nat
  /-- The characters before, the last one first. -/
  before : List Char
  /-- The start of the text that has not been made a token. -/
  textStart : Nat
  /-- The content from there on. -/
  textSource : List Char
  braces : Braces

/-- The text token that ends at a place, if it is not empty. -/
def Place.textTo (p : Place) (stop : Nat) : List Token :=
  if p.textStart < stop then [⟨p.textStart, stop, p.textSource, .text⟩] else []

def Place.step (p : Place) (c : Char) : Place :=
  { p with pos := p.pos + 1, before := c :: p.before }

/-- Lets the pending text start `offset` characters further on. -/
def Place.restart (p : Place) (offset : Nat) (source : List Char) : Place :=
  { p with textStart := p.pos + offset, textSource := source.drop offset }

/-- Cuts content into tokens, after passing over `skip` characters, and at the start of a line over
its white space. -/
def tokensFrom : Nat → Bool → Place → List Char → List Token
  | _, _, p, [] =>
    let trailing := (p.before.take (p.pos - p.textStart)).takeWhile isSpace
    p.textTo (p.pos - trailing.length)
  | n + 1, _, p, c :: cs => tokensFrom n false (p.step c) cs
  | 0, leading, p, c :: cs =>
    let here := c :: cs
    let next := p.step c
    let emit (length : Nat) (kind : TokenKind) (p : Place) :=
      p.textTo p.pos ++
        ⟨p.pos, p.pos + length, here, kind⟩ ::
          tokensFrom (length - 1) false ((p.restart length here).step c) cs
    if leading && (c = ' ' || c = '\t') then
      tokensFrom 0 true
        { next with lineStart := next.pos, textStart := next.pos, textSource := cs } cs
    else if c = '\n' || c = '\r' then
      let rest := (lineEnd? here).getD []
      let length := here.length - rest.length
      let trailing := (p.before.takeWhile isSpace).length
      let escapes := (p.before.takeWhile (· = '\\')).length
      if rest.isEmpty then
        p.textTo (p.pos - trailing)
      else
        let line : Place :=
          { p with pos := p.pos + 1, before := c :: p.before, lineStart := p.pos + length,
                   textStart := p.pos + length, textSource := rest }
        let (textEnd, brk) : Nat × Token :=
          if escapes % 2 = 1 then
            (p.pos - 1, ⟨p.pos - 1, p.pos + length, here, .hardBreak true⟩)
          else if 2 ≤ trailing then
            (p.pos - trailing, ⟨p.pos - trailing, p.pos + length, here, .hardBreak false⟩)
          else (p.pos - trailing, ⟨p.pos, p.pos + length, here, .softBreak⟩)
        p.textTo textEnd ++
          brk :: (if length = 1 then tokensFrom 0 true line cs else tokensFrom 1 true line cs)
    else if c = '\\' then
      match cs with
      | '\x60' :: _ =>
        let count := (cs.takeWhile (· = '\x60')).length
        p.textTo p.pos ++
          ⟨p.pos + 1, p.pos + 1 + count, cs, .ticks count true⟩ ::
            tokensFrom count false ((p.restart (count + 1) here).step c) cs
      | d :: _ =>
        if isAsciiPunctuation d then
          p.textTo p.pos ++ tokensFrom 1 false ((p.restart 1 here).step c) cs
        else tokensFrom 0 false next cs
      | [] => tokensFrom 0 false next cs
    else if c = '*' || c = '_' || c = '~' then
      let count := 1 + (cs.takeWhile (· = c)).length
      let before? := if p.pos = p.lineStart then none else p.before.head?
      let after? := (here.drop count).head?
      let canOpen := flanksLeft c count before? after?
      let canClose := flanksRight c count before? after?
      if (canOpen || canClose) && (c ≠ '~' || count ≤ 2) then
        emit count (.run c count canOpen canClose) p
      else tokensFrom (count - 1) false next cs
    else if c = '$' then
      let canOpen := !(cs.head?.all isWhite)
      let canClose := p.pos ≠ p.lineStart && !(p.before.head?.all isWhite)
      let (pair, braces) := p.braces.inner
      emit 1 (.dollar canOpen canClose pair) { p with braces }
    else if c = '\x7b' then tokensFrom 0 false { next with braces := p.braces.open_ } cs
    else if c = '\x7d' then tokensFrom 0 false { next with braces := p.braces.close } cs
    else if c = '\x60' then
      let count := 1 + (cs.takeWhile (· = '\x60')).length
      emit count (.ticks count false) p
    else if c = '<' && cs.head? ≠ some '\\' then emit 1 .angle p
    else if c = '!' && cs.head? = some '[' then emit 2 .imageOpen p
    else if c = '[' then emit 1 .linkOpen p
    else if c = ']' then emit 1 .bracketClose p
    else if c = '&' then
      match reference? cs with
      | some (value, n) => emit (n + 1) (.reference value) p
      | none => tokensFrom 0 false next cs
    else tokensFrom 0 false next cs

def tokens (content : List Char) : List Token :=
  tokensFrom 0 true ⟨0, 0, [], 0, content, .none⟩ content

/-- Where the text of a heading ends whose line is given: before the closing number signs and the
spaces around them. Number signs close a heading only after a space or when they are all of it. -/
def signsLimit (line : List Char) : Nat :=
  let isEnd (c : Char) : Bool := c = '\n' || c = '\r' || c = ' '
  let text := Text.dropEndWhile isEnd line
  let closed := Text.dropEndWhile (· = '#') text
  if closed.isEmpty then 0
  else
    let bare := Text.dropEndWhile (· = ' ') closed
    if bare.length < closed.length then bare.length else text.length

/-- The tokens of a heading without its closing number signs, which its last token holds. -/
def trimSigns (limit : Nat) : List Token → List Token
  | [] => []
  | [t] => [{ t with stop := limit }]
  | t :: ts => t :: trimSigns limit ts

end LiterateJournal.Markdown
