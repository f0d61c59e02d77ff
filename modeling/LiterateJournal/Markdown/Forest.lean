import LiterateJournal.Markdown.Inline

/-!
# The forest of a Markdown text

The outline of a text becomes a forest once its inline content has been read, which needs the link
definitions and footnotes of the whole text.

## Main definitions

* `Node.trees` — the trees of a block; a paragraph of a tight list stands without a wrapper.
* `Outline.forest` — the trees of a text.
* `Outline.events` — the events of a text.
-/

namespace LiterateJournal.Markdown

def cellTree (refs : References) (content : List Char) : Tree :=
  .node .tableCell (inlineTrees { refs with inTable := true } content)

mutual

def Node.trees (refs : References) : Node → List Tree
  | .paragraph tight task content =>
    let marks := task.toList.map fun ticked => Tree.leaf (.taskMark ticked)
    let children := marks ++ inlineTrees refs content
    if tight then children else [.node .paragraph children]
  | .heading level signs content =>
    let ts := tokens content
    let ts := if signs then trimSigns (signsLimit content) ts else ts
    [.node (.heading (UInt8.ofNat level)) (treesOfTokens refs ts)]
  | .rule => [.leaf .rule]
  | .code info source => [.node (.codeBlock (info.map String.ofList)) [textLeaf source]]
  | .html markup => [.node .htmlBlock [.leaf (.html (String.ofList markup))]]
  | .quote children => [.node .quote (nodeTrees refs children)]
  | .list start items => [.node (.list (start.map UInt64.ofNat)) (nodeTrees refs items)]
  | .item children => [.node .item (nodeTrees refs children)]
  | .taskMark ticked => [.leaf (.taskMark ticked)]
  | .table alignments rows =>
    let head := Tree.node .tableHead ((rows.head?.getD []).map (cellTree refs))
    let body := rows.tail.map fun row => Tree.node .tableRow (row.map (cellTree refs))
    [.node (.table alignments) (head :: body)]
  | .footnote label children =>
    [.node (.footnote (String.ofList label)) (nodeTrees refs children)]

def nodeTrees (refs : References) : List Node → List Tree
  | [] => []
  | n :: ns => n.trees refs ++ nodeTrees refs ns

end

def Outline.forest (o : Outline) : List Tree :=
  nodeTrees ⟨o.definitions, o.footnotes, false⟩ o.nodes

def Outline.events (o : Outline) : List Event := Tree.forestEvents o.forest

end LiterateJournal.Markdown
