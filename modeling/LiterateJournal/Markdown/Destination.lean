import LiterateJournal.Markdown.Entity
import LiterateJournal.Text.Punctuation

/-!
# Link destinations and titles

What may stand between the parentheses of a link, or after the colon of a link definition.

## Main definitions

* `unescape` — backslash escapes and character references resolved.
* `destination?` — a destination, pointed or bare.
* `inlineTitle?`, `definitionTitle?` — a title in a link and in a definition.
-/

namespace LiterateJournal.Markdown

open LiterateJournal.Text (isAsciiPunctuation)

/-- Resolves backslash escapes and character references after passing over `skip` characters. In a
table cell, two backslashes before a pipe belong to the pipe. -/
def unescapeFrom (inTable : Bool) : Nat → List Char → List Char
  | _, [] => []
  | n + 1, _ :: cs => unescapeFrom inTable n cs
  | 0, c :: cs =>
    if c = '\\' then
      match cs with
      | '\\' :: '|' :: _ =>
        if inTable then '|' :: unescapeFrom inTable 2 cs else '\\' :: unescapeFrom inTable 1 cs
      | d :: _ =>
        if isAsciiPunctuation d then d :: unescapeFrom inTable 1 cs
        else c :: unescapeFrom inTable 0 cs
      | [] => [c]
    else if c = '&' then
      match reference? cs with
      | some (text, n) => text ++ unescapeFrom inTable n cs
      | none => c :: unescapeFrom inTable 0 cs
    else if c = '\r' then unescapeFrom inTable 0 cs
    else c :: unescapeFrom inTable 0 cs

/-- A text with its backslash escapes and character references resolved. -/
def unescape (inTable : Bool) (cs : List Char) : List Char := unescapeFrom inTable 0 cs

/-- A destination between angle brackets, after the first; `escaped` says that the character before
was an escaping backslash. -/
def pointed? (escaped : Bool) : List Char → Option (List Char × List Char)
  | [] => none
  | c :: cs =>
    if escaped then (pointed? false cs).map fun (d, rest) => (c :: d, rest)
    else if c = '\n' || c = '\r' || c = '<' then none
    else if c = '>' then some ([], cs)
    else
      let escapes := c = '\\' && cs.head?.any isAsciiPunctuation
      (pointed? escapes cs).map fun (d, rest) => (c :: d, rest)

/-- Parentheses in a bare destination may nest this deep, and once more. -/
def maxNesting : Nat := 5

/-- A destination without angle brackets, inside `depth` open parentheses. -/
def bare? (escaped : Bool) (depth : Nat) : List Char → Option (List Char × List Char)
  | [] => if depth = 0 then some ([], []) else none
  | c :: cs =>
    let more (escaped : Bool) (depth : Nat) :=
      (bare? escaped depth cs).map fun (d, rest) => (c :: d, rest)
    if escaped then more false depth
    else if c.toNat ≤ 32 then if depth = 0 then some ([], c :: cs) else none
    else if c = '(' then if maxNesting < depth then none else more false (depth + 1)
    else if c = ')' then
      match depth with
      | 0 => some ([], c :: cs)
      | d + 1 => more false d
    else more (c = '\\' && cs.head?.any isAsciiPunctuation) depth

def destination? : List Char → Option (List Char × List Char)
  | '<' :: cs => pointed? false cs
  | cs => bare? false 0 cs

/-- Reads a title up to its closing mark, after passing over `skip` characters. White space at the
start of a further line is dropped. -/
def titleFrom? (inTable : Bool) (opening closing : Char) :
    Nat → Bool → List Char → Option (List Char × List Char)
  | _, _, [] => none
  | n + 1, _, _ :: cs => titleFrom? inTable opening closing n false cs
  | 0, lineStart, c :: cs =>
    let with_ (text : List Char) := Option.map fun (r : List Char × List Char) => (text ++ r.1, r.2)
    if lineStart && (c = ' ' || c = '\t') then titleFrom? inTable opening closing 0 true cs
    else if c = closing then some ([], cs)
    else if c = opening then none
    else if c = '\n' || (c = '\r' && cs.head? ≠ some '\n') then
      with_ ['\n'] (titleFrom? inTable opening closing 0 true cs)
    else if c = '&' then
      match reference? cs with
      | some (text, n) => with_ text (titleFrom? inTable opening closing n false cs)
      | none => with_ [c] (titleFrom? inTable opening closing 0 false cs)
    else if c = '\\' then
      match cs with
      | '\\' :: '|' :: _ =>
        if inTable then with_ ['|'] (titleFrom? inTable opening closing 2 false cs)
        else with_ ['\\'] (titleFrom? inTable opening closing 1 false cs)
      | d :: _ =>
        if isAsciiPunctuation d then with_ [d] (titleFrom? inTable opening closing 1 false cs)
        else with_ [c] (titleFrom? inTable opening closing 0 false cs)
      | [] => none
    else with_ [c] (titleFrom? inTable opening closing 0 false cs)

/-- The title that stands here in a link, with its escapes resolved, and the rest. -/
def inlineTitle? (inTable : Bool) : List Char → Option (List Char × List Char)
  | '"' :: cs => titleFrom? inTable '"' '"' 0 false cs
  | '\'' :: cs => titleFrom? inTable '\'' '\'' 0 false cs
  | '(' :: cs => titleFrom? inTable '(' ')' 0 false cs
  | _ => none

/-- Reads the title of a definition up to its closing mark; `escaped` says that the character
before was a backslash. No blank line may stand in it. -/
def definitionTitleFrom? (closing : Char) (escaped : Bool) :
    List Char → Option (List Char × List Char)
  | [] => none
  | c :: cs =>
    let more (escaped : Bool) :=
      (definitionTitleFrom? closing escaped cs).map fun (t, rest) => (c :: t, rest)
    if escaped then more false
    else if c = closing then some ([], cs)
    else if c = '\n' then
      match cs.dropWhile isSpace with
      | [] => none
      | d :: _ => if d = '\n' then none else more false
    else more (c = '\\')

/-- The title that stands here in a definition, as written, and the rest. -/
def definitionTitle? : List Char → Option (List Char × List Char)
  | '"' :: cs => definitionTitleFrom? '"' false cs
  | '\'' :: cs => definitionTitleFrom? '\'' false cs
  | '(' :: cs => definitionTitleFrom? ')' false cs
  | _ => none

end LiterateJournal.Markdown
