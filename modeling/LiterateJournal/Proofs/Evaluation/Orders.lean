import LiterateJournal.Proofs.Evaluation.Fences
import LiterateJournal.Proofs.Evaluation.Scripts

/-!
# Documents and the order of definitions

Of a source file's document only the link table depends on the order in which link definitions
come. It does not either if no Markdown text in the file loses a definition.

## Main definitions

* `SourceKind.markdownTexts` — the Markdown texts in a source file.
* `KeepsDefinitions` — none of them loses a definition.

## Main statements

* `Document.ofSource_order` — the document is the same in all orders.
-/

namespace LiterateJournal

open Markdown (AllKept DefinitionOrder Outline parseMarkdown_order)

/-- The Markdown texts in a source file: a script has one in each chunk that is not code. -/
def SourceKind.markdownTexts (text : String) : SourceKind → List String
  | .markdown => [text]
  | .script =>
    match Script.chunks text with
    | .ok chunks => chunks.filterMap fun
      | .markdown text => some text
      | .code .. => none
    | .error _ => []

/-- No Markdown text in a source file loses a definition. -/
def KeepsDefinitions (kind : SourceKind) (text : String) : Prop :=
  ∀ t ∈ kind.markdownTexts text, AllKept (Outline.ofText t.toList).definitions

instance (kind : SourceKind) (text : String) : Decidable (KeepsDefinitions kind text) :=
  inferInstanceAs (Decidable (∀ t ∈ kind.markdownTexts text, _))

section

variable {text : String}

theorem Document.ofMarkdown_order (h : KeepsDefinitions .markdown text) (ctx : SourceContext)
    (order : DefinitionOrder) : ofMarkdown ctx text order = ofMarkdown ctx text := by
  have htext := parseMarkdown_order (h text (List.mem_singleton_self text)) order
  have hlinks : (parseMarkdown text (ctx.reader order).order).2 =
      (parseMarkdown text ctx.reader.order).2 := congrArg Prod.snd htext
  rw [ofMarkdown, ofMarkdown, Markdown.run_ofMarkdownM, Markdown.run_ofMarkdownM, hlinks]
  rfl

theorem Script.linksOfChunks_order {chunks : List Script.Chunk}
    (h : ∀ t, .markdown t ∈ chunks → AllKept (Outline.ofText t.toList).definitions)
    (order : DefinitionOrder) (links : LinkTable) :
    linksOfChunks order links chunks = linksOfChunks .ofText links chunks := by
  refine List.foldl_ext _ _ links fun table c hc => ?_
  cases c with
  | markdown t =>
    exact congrArg (fun parsed => table.merge parsed.2) (parseMarkdown_order (h t hc) order)
  | code => rfl

theorem Document.ofScript_order (h : KeepsDefinitions .script text) (ctx : SourceContext)
    (order : DefinitionOrder) : ofScript ctx text order = ofScript ctx text := by
  cases hchunks : Script.chunks text with
  | error e =>
    rw [ofScript, ofScript, Script.run_ofScriptM_of_error _ hchunks,
      Script.run_ofScriptM_of_error _ hchunks]
    rfl
  | ok chunks =>
    have hkept (t : String) (ht : Script.Chunk.markdown t ∈ chunks) :
        AllKept (Outline.ofText t.toList).definitions := by
      refine h t ?_
      rw [SourceKind.markdownTexts, hchunks]
      exact List.mem_filterMap.2 ⟨_, ht, rfl⟩
    have hdocument : Script.document ctx.path order chunks =
        Script.document ctx.path .ofText chunks := by
      funext es
      rw [Script.document, Script.document, Script.linksOfChunks_order hkept]
    rw [ofScript, ofScript, Script.run_ofScriptM _ hchunks, Script.run_ofScriptM _ hchunks]
    exact congrArg (fun make => Evaluated.outcome ctx.path 0 make _) hdocument

/-- A source file that loses no definition makes the same document in all orders. -/
theorem Document.ofSource_order {kind : SourceKind} (h : KeepsDefinitions kind text)
    (ctx : SourceContext) (order : DefinitionOrder) :
    ofSource ctx kind text order = ofSource ctx kind text := by
  cases kind with
  | script => exact ofScript_order h ctx order
  | markdown => exact ofMarkdown_order h ctx order

end

end LiterateJournal
