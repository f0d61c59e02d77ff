import LiterateJournal.Document.Basic

/-!
# Markdown events

A Markdown text is known to the rest of the program as a stream of events: containers are opened and
closed, and leaves stand in them. The stream is well nested, as it is the serialisation of a forest.

## Main definitions

* `Tag`, `Leaf` — the containers and leaves.
* `Event`, `Tree` — an event, and the tree whose serialisation events make up.
* `Tree.events` — the serialisation.
-/

namespace LiterateJournal.Markdown

/-- How a link or an image was written. -/
inductive LinkForm where
  /-- `[text](target)` -/
  | inline
  /-- `[text][label]` -/
  | full
  /-- `[text][label]` whose label is not defined in the text -/
  | undefined
  /-- `[label][]` -/
  | collapsed
  /-- `[label]` -/
  | shortcut
  /-- `<scheme:target>` -/
  | address
  /-- `<user@host>` -/
  | mail
deriving Repr, BEq, DecidableEq

def LinkForm.isReference : LinkForm → Bool
  | .full | .undefined | .collapsed | .shortcut => true
  | .inline | .address | .mail => false

/-- A container. -/
inductive Tag where
  | paragraph
  | heading (level : UInt8)
  | quote
  /-- A code block, with its info string if it is fenced. -/
  | codeBlock (info : Option String)
  | htmlBlock
  /-- A list, with its first number if it is numbered. -/
  | list (start : Option UInt64)
  | item
  | footnote (label : String)
  | table (alignments : List Alignment)
  | tableHead
  | tableRow
  | tableCell
  | emphasis
  | strong
  | strikethrough
  | link (form : LinkForm) (destination title label : String)
  | image (form : LinkForm) (destination title label : String)
deriving Repr, BEq, DecidableEq

def Tag.isInline : Tag → Bool
  | .emphasis | .strong | .strikethrough | .link .. | .image .. => true
  | _ => false

/-- What stands in a container without containing anything. -/
inductive Leaf where
  | text (s : String)
  | code (s : String)
  | inlineMath (s : String)
  | displayMath (s : String)
  | html (s : String)
  | inlineHtml (s : String)
  | softBreak
  | hardBreak
  | rule
  | taskMark (ticked : Bool)
  | footnoteReference (label : String)
deriving Repr, BEq, DecidableEq

/-- A step in the reading of a Markdown text. -/
inductive Event where
  | enter (tag : Tag)
  | leave
  | leaf (l : Leaf)
deriving Repr, BEq, DecidableEq

/-- A leaf, or a container with what it contains. -/
inductive Tree where
  | leaf (l : Leaf)
  | node (tag : Tag) (children : List Tree)
deriving Repr, BEq

namespace Tree

mutual

def events : Tree → List Event
  | .leaf l => [.leaf l]
  | .node tag children => .enter tag :: (forestEvents children ++ [.leave])

def forestEvents : List Tree → List Event
  | [] => []
  | t :: ts => t.events ++ forestEvents ts

end

end Tree

end LiterateJournal.Markdown
