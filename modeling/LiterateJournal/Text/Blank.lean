/-!
# White space

White space here is the Unicode property `White_Space`, which has twenty-five members. The zero
width space and the byte order mark are not among them.

## Main definitions

* `isBlank` — the property.
* `trimStart`, `trimEnd`, `trim` — white space removed from the ends of a text.
* `collapseBlanks` — each run of white space written as one space.
* `words`, `lines` — a text cut at white space, and at line feeds.
-/

namespace LiterateJournal.Text

def isBlank (c : Char) : Bool :=
  let n := c.toNat
  (9 ≤ n && n ≤ 13) || n == 32 || n == 0x85 || n == 0xA0 || n == 0x1680 ||
    (0x2000 ≤ n && n ≤ 0x200A) || n == 0x2028 || n == 0x2029 || n == 0x202F || n == 0x205F ||
    n == 0x3000

def trimStart (cs : List Char) : List Char := cs.dropWhile isBlank

/-- A text without its longest ending whose characters all satisfy `p`. -/
def dropEndWhile (p : Char → Bool) : List Char → List Char
  | [] => []
  | c :: cs =>
    match dropEndWhile p cs with
    | [] => if p c then [] else [c]
    | rest => c :: rest

def trimEnd (cs : List Char) : List Char := dropEndWhile isBlank cs

def trim (cs : List Char) : List Char := trimEnd (trimStart cs)

/-- Each run of white space becomes one space; `inRun` says that the character before was white
space that has been written already. -/
def collapseFrom (inRun : Bool) : List Char → List Char
  | [] => []
  | c :: cs =>
    if isBlank c then
      if inRun then collapseFrom true cs else ' ' :: collapseFrom true cs
    else c :: collapseFrom false cs

def collapseBlanks (cs : List Char) : List Char := collapseFrom false cs

/-- The first word of a text: the characters up to white space, after any white space before. -/
def firstWord? (cs : List Char) : Option (List Char) :=
  match (trimStart cs).takeWhile (!isBlank ·) with
  | [] => none
  | w => some w

/-- A text cut at each occurrence of a character: always one piece more than occurrences. -/
def cutAt (sep : Char) : List Char → List (List Char)
  | [] => [[]]
  | c :: cs =>
    if c = sep then [] :: cutAt sep cs
    else
      match cutAt sep cs with
      | [] => [[c]]
      | piece :: pieces => (c :: piece) :: pieces

/-- A carriage return at the end of a line belongs to its line end. -/
def dropReturn (cs : List Char) : List Char :=
  match cs.getLast? with
  | some '\r' => cs.dropLast
  | _ => cs

/-- The lines of a text without their ends, which are a line feed or a carriage return and a line
feed. A line feed at the very end opens no further line. -/
def lines (cs : List Char) : List (List Char) :=
  let pieces := cutAt '\n' cs
  let last := pieces.getLast?.getD []
  let closed := pieces.dropLast.map dropReturn
  if last.isEmpty then closed else closed ++ [last]

def startsWith (p cs : List Char) : Bool := p.isPrefixOf cs

def joinWith (sep : List Char) : List (List Char) → List Char
  | [] => []
  | [p] => p
  | p :: ps => p ++ sep ++ joinWith sep ps

end LiterateJournal.Text
