import LiterateJournal.Document.Basic
import LiterateJournal.Evaluation.Evaluator
import LiterateJournal.Markdown.Reader
import LiterateJournal.Script.Chunk

/-!
# Documents from source text

The text of a source file is read and its code evaluated, snippet by snippet, until one fails. What
evaluates the code may have effects.

## Main definitions

* `SourceReader` — what the reading of a source file needs.
* `evaluateBlocksM` — the code blocks of a Markdown text replaced by their evaluations.
* `evaluateChunksM` — the content of a script's chunks.
* `Document.ofMarkdownM`, `Document.ofScriptM` — the document that a text makes.
* `Document.ofSource` — the same with an evaluator, which has no effects.
-/

namespace LiterateJournal

/-- What the reading of a source file needs. -/
structure SourceReader (m : Type → Type) where
  path : String
  /-- Whether code blocks that name a language, or none, are evaluated. -/
  accepts : Option String → Bool
  /-- What stands in place of a snippet, or why there is nothing. -/
  evaluate : Snippet → m (Except String Evaluation)
  /-- How the link definitions of the file come. -/
  order : Markdown.DefinitionOrder

structure ScriptContent where
  blocks : List Block
  links : LinkTable
  tooltips : String

section

variable {m : Type → Type} [Monad m] (reader : SourceReader m)

def SourceReader.run (index : Nat) (code : String) (language : Option String) (hidden : Bool) :
    ExceptT DocumentError m Evaluation := do
  match ← reader.evaluate ⟨reader.path, index, code, language, hidden⟩ with
  | .ok e => pure e
  | .error message => throw (.evaluation reader.path index message)

/-- Replaces the code blocks whose language is accepted, counting from `index`; also gives the
tooltips. Code blocks inside other blocks stay as they are. -/
def evaluateBlocksM (index : Nat) : List Block → ExceptT DocumentError m (List Block × String)
  | [] => pure ([], "")
  | b :: bs =>
    match b with
    | .code source language =>
      if reader.accepts language then do
        let e ← reader.run index source language false
        let (rest, tooltips) ← evaluateBlocksM (index + 1) bs
        pure (e.blocks ++ rest, e.tooltips ++ tooltips)
      else do
        let (rest, tooltips) ← evaluateBlocksM index bs
        pure (b :: rest, tooltips)
    | _ => do
      let (rest, tooltips) ← evaluateBlocksM index bs
      pure (b :: rest, tooltips)

/-- The content of some chunks, after link definitions and `index` snippets before them. -/
def evaluateChunksM (index : Nat) (links : LinkTable) :
    List Script.Chunk → ExceptT DocumentError m ScriptContent
  | [] => pure ⟨[], links, ""⟩
  | .markdown text :: rest => do
    let (blocks, defined) := parseMarkdown text reader.order
    let content ← evaluateChunksM index (links.merge defined) rest
    pure { content with blocks := blocks ++ content.blocks }
  | .code text hidden :: rest => do
    let e ← reader.run index text none hidden
    let content ← evaluateChunksM (index + 1) links rest
    pure { content with
      blocks := e.blocks ++ content.blocks, tooltips := e.tooltips ++ content.tooltips }

def Document.ofMarkdownM (text : String) : ExceptT DocumentError m Document := do
  let (blocks, links) := parseMarkdown text reader.order
  let (blocks, tooltips) ← evaluateBlocksM reader 0 blocks
  pure ⟨blocks, links, tooltips, .markdown, reader.path⟩

def Document.ofScriptM (text : String) : ExceptT DocumentError m Document :=
  match Script.chunks text with
  | .error e => throw (.parse reader.path e.message)
  | .ok chunks => do
    let content ← evaluateChunksM reader 0 ∅ chunks
    pure ⟨content.blocks, content.links, content.tooltips, .script, reader.path⟩

end

/-! ### Evaluators without effects -/

/-- A source file and what evaluates its code. -/
structure SourceContext where
  path : String
  evaluator : Evaluator
  options : EvaluationOptions

section

variable (ctx : SourceContext)

def SourceContext.reader (order : Markdown.DefinitionOrder := .ofText) : SourceReader Id where
  path := ctx.path
  accepts := ctx.evaluator.accepts
  evaluate snippet := pure (ctx.evaluator.evaluate ctx.options snippet)
  order

def Document.ofMarkdown (text : String) (order : Markdown.DefinitionOrder := .ofText) :
    Except DocumentError Document :=
  Id.run (Document.ofMarkdownM (ctx.reader order) text).run

def Document.ofScript (text : String) (order : Markdown.DefinitionOrder := .ofText) :
    Except DocumentError Document :=
  Id.run (Document.ofScriptM (ctx.reader order) text).run

/-- The document that a text makes. -/
def Document.ofSource (kind : SourceKind) (text : String)
    (order : Markdown.DefinitionOrder := .ofText) : Except DocumentError Document :=
  match kind with
  | .script => Document.ofScript ctx text order
  | .markdown => Document.ofMarkdown ctx text order

end

end LiterateJournal
