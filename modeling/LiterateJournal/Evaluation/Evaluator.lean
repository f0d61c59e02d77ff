import LiterateJournal.Document.Basic
import LiterateJournal.Output.Format

/-!
# Evaluators

The code in a document is cut into snippets, and an evaluator says what stands in the document in
place of each.

## Main definitions

* `Snippet`, `Evaluation` — what an evaluator is given, and what it answers.
* `Evaluator` — which languages it takes, and what it does.
* `Evaluator.echo` — shows the code and runs nothing.
-/

namespace LiterateJournal

/-- A piece of code from a source file. -/
structure Snippet where
  path : String
  /-- The number of snippets before it in the document. -/
  index : Nat
  code : String
  /-- The language that a code block names; code of a script names none. -/
  language : Option String
  /-- The code itself is not to be shown. -/
  hidden : Bool
deriving Repr, BEq, DecidableEq

/-- How results are to be written. -/
structure EvaluationOptions where
  format : OutputFormat
  /-- The format of numbers with a fraction. -/
  floatFormat : String
deriving Repr, BEq, DecidableEq

/-- What stands in place of a snippet. -/
structure Evaluation where
  blocks : List Block
  tooltips : String

/-- What evaluates the code of documents. -/
structure Evaluator where
  /-- Whether code blocks that name a language, or none, are evaluated. -/
  accepts : Option String → Bool
  /-- What stands in place of a snippet, or why there is nothing. -/
  evaluate : EvaluationOptions → Snippet → Except String Evaluation

namespace Evaluator

/-- Code blocks are taken for F# unless they name another language. -/
def acceptsDefault (language : Option String) : Bool :=
  language = none || language = some "fsharp"

/-- Shows the code, unless it is hidden, and runs nothing. -/
def echo : Evaluator where
  accepts := acceptsDefault
  evaluate _ snippet := .ok
    { blocks :=
        if snippet.hidden then []
        else [.code snippet.code (some (snippet.language.getD "fsharp"))]
      tooltips := "" }

end Evaluator

end LiterateJournal
