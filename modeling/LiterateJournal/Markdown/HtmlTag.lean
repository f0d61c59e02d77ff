import LiterateJournal.Markdown.Cursor

/-!
# Raw HTML

Where raw HTML starts and ends in Markdown: the kinds of line that open an HTML block, and the
tags, comments, declarations and instructions that may stand inside a paragraph. All readers start
after the opening angle bracket and answer with the text after what they read.
-/

namespace LiterateJournal.Markdown

def afterFirst? (p : List Char) : List Char → Option (List Char)
  | [] => none
  | c :: cs =>
    if p.isPrefixOf (c :: cs) then some ((c :: cs).drop p.length) else afterFirst? p cs

def isLetter (c : Char) : Bool := c.isAlpha

def isLetterOrDigit (c : Char) : Bool := c.isAlphanum

def blockElements : List String := [
  "address", "article", "aside", "base", "basefont", "blockquote", "body", "caption", "center",
  "col", "colgroup", "dd", "details", "dialog", "dir", "div", "dl", "dt", "fieldset",
  "figcaption", "figure", "footer", "form", "frame", "frameset", "h1", "h2", "h3", "h4", "h5",
  "h6", "head", "header", "hr", "html", "iframe", "legend", "li", "link", "main", "menu",
  "menuitem", "nav", "noframes", "ol", "optgroup", "option", "p", "param", "search", "section",
  "summary", "table", "tbody", "td", "tfoot", "th", "thead", "title", "tr", "track", "ul"]

/-- The elements whose content is not Markdown up to the end tag, with that tag. -/
def rawElements : List (String × String) :=
  [("pre", "</pre>"), ("style", "</style>"), ("script", "</script>"), ("textarea", "</textarea>")]

/-- Comments, instructions and character data, with what ends them. -/
def rawMarks : List (String × String) := [("!--", "-->"), ("?", "?>"), ("![CDATA[", "]]>")]

def sameIgnoringCase (a b : List Char) : Bool := a.map Char.toLower == b.map Char.toLower

/-- What ends the HTML block that starts here, when the block runs to a mark of its own. -/
def blockEndMark? (cs : List Char) : Option (List Char) :=
  let element := rawElements.find? fun e =>
    let name := e.1.toList
    let rest := cs.drop name.length
    sameIgnoringCase (cs.take name.length) name &&
      (rest.isEmpty || rest.head?.any fun c => isWhite c || c = '>')
  let mark := rawMarks.find? fun m => m.1.toList.isPrefixOf cs
  match element, mark, cs with
  | some e, _, _ => some e.2.toList
  | none, some m, _ => some m.2.toList
  | none, none, '!' :: c :: _ => if isLetter c then some ['>'] else none
  | none, none, _ => none

def startsBlockElement (cs : List Char) : Bool :=
  let cs := match cs with
    | '/' :: rest => rest
    | _ => cs
  let name := cs.takeWhile isLetterOrDigit
  let rest := cs.dropWhile isLetterOrDigit
  blockElements.any (sameIgnoringCase name ·.toList) &&
    match rest with
    | [] => true
    | '/' :: '>' :: _ => true
    | c :: _ => isWhite c || c = '>'

/-- White space before an attribute or the end of a tag; none if the text ends there, or the line
where the tag must stay on one. -/
def tagSpace? (multiline : Bool) (cs : List Char) : Option (List Char) :=
  match cs.dropWhile (if multiline then isWhite else isSpace) with
  | [] => none
  | c :: rest => if c = '\n' || c = '\r' then none else some (c :: rest)

def valueSpace? (multiline : Bool) (cs : List Char) : Option (List Char) :=
  let rest := cs.dropWhile (if multiline then isWhite else isSpace)
  if rest.head?.any (fun c => c = '\n' || c = '\r') then none else some rest

def quotedValue? (multiline : Bool) (quote : Char) : List Char → Option (List Char)
  | [] => none
  | c :: cs =>
    if c = quote then some cs
    else if !multiline && (c = '\n' || c = '\r') then none
    else quotedValue? multiline quote cs

def isBareValueChar (c : Char) : Bool :=
  ['\'', '"', ' ', '=', '>', '<', '\x60', '\n', '\r'].all (· ≠ c)

def attributeValue? (multiline : Bool) : List Char → Option (List Char)
  | [] => none
  | c :: cs =>
    if c = '"' || c = '\'' then quotedValue? multiline c cs
    else if isBareValueChar c then some ((c :: cs).dropWhile isBareValueChar)
    else none

/-- The text after an attribute. Without a value, the white space after the name is left. -/
def attribute? (multiline : Bool) : List Char → Option (List Char)
  | [] => none
  | c :: cs =>
    if isLetter c || c = '_' || c = ':' then do
      let rest := cs.dropWhile fun c =>
        isLetterOrDigit c || c = '_' || c = '.' || c = ':' || c = '-'
      match ← valueSpace? multiline rest with
      | '=' :: tail => attributeValue? multiline (← valueSpace? multiline tail)
      | _ => some rest
    else none

/-- The text from the end of an open tag on: after its attributes, each with white space before
it. There are at most `fuel` of them. -/
def attributes? (multiline : Bool) : Nat → List Char → Option (List Char)
  | 0, _ => none
  | fuel + 1, cs => do
    let rest ← tagSpace? multiline cs
    match rest with
    | '/' :: _ => some rest
    | '>' :: _ => some rest
    | _ =>
      if rest.length = cs.length then none
      attributes? multiline fuel (← attribute? multiline rest)

def tag? (multiline : Bool) (cs : List Char) : Option (List Char) := do
  let (closing, body) := match cs with
    | '/' :: rest => (true, rest)
    | _ => (false, cs)
  if !body.head?.any isLetter then none
  let rest := body.dropWhile fun c => isLetterOrDigit c || c = '-'
  let tail ← if closing then some rest else attributes? multiline (rest.length + 1) rest
  let tail := tail.dropWhile isSpace
  match closing, tail with
  | false, '/' :: '>' :: after => some after
  | _, '>' :: after => some after
  | _, _ => none

/-- Whether a line holds nothing but one complete tag, which opens an HTML block too. -/
def isTagLine (cs : List Char) : Bool :=
  match tag? false cs with
  | some rest => (blankLine? rest).isSome
  | none => false

/-- The text after the comment, declaration or character data that starts here, after the
exclamation mark. -/
def declaration? : List Char → Option (List Char)
  | '-' :: '-' :: '>' :: rest => some rest
  | '-' :: '-' :: '-' :: '>' :: rest => some rest
  | '-' :: '-' :: rest => afterFirst? ['-', '-', '>'] rest
  | '[' :: rest =>
    if "CDATA[".toList.isPrefixOf rest then
      match (rest.drop 6).dropWhile (· ≠ ']') with
      | ']' :: tail =>
        match tail.dropWhile (· = ']') with
        | '>' :: after => some after
        | _ => none
      | _ => none
    else none
  | c :: rest => if isLetter c then afterFirst? ['>'] rest else none
  | [] => none

/-- The text after the raw HTML that starts here within a paragraph. -/
def inlineHtml? : List Char → Option (List Char)
  | '!' :: rest => declaration? rest
  | '?' :: rest => afterFirst? ['?', '>'] rest
  | cs => tag? true cs

end LiterateJournal.Markdown
