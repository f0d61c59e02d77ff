import LiterateJournal.Evaluation.Source
import LiterateJournal.Site.Assets
import LiterateJournal.Site.Landing

/-!
# Builds

A build copies the assets, makes the page of every document that has changed, one after another, and
chooses the entry of the site.

## Main definitions

* `readSource` — reads and evaluates a source file.
* `buildDocument`, `buildDocuments` — make the pages of documents.
* `build` — the whole build.
-/

namespace LiterateJournal

def readSource (files : FileTree) (kind : SourceKind) (ctx : SourceContext)
    (order : Markdown.DefinitionOrder := .ofText) : Except DocumentError Document :=
  match files.readText ctx.path with
  | .error e => .error (.readFailed ctx.path e.message)
  | .ok text => Document.ofSource ctx kind text order

def untitled : String := "Untitled"

/-- Makes the page of a document, unless it is new enough. A source that cannot be read leaves the
page as it is; all other errors end the build. -/
def buildDocument (s : Settings) (path : String) : Run Outcome := do
  let name := sourceName path
  let requested := Path.join s.output (pageName path)
  if !isStale (← Run.files) path (pagePath s.format requested) s.overwrite then
    Run.report (.skipped name)
    return .skipped name
  Run.report (.started name)
  match SourceKind.ofPath? path with
  | none => throw (.internal ("not a source document: " ++ path))
  | some kind =>
    let ctx : SourceContext := ⟨path, s.evaluator, s.evaluationOptions⟩
    match readSource (← Run.files) kind ctx (s.definitionOrder path) with
    | .error e =>
      Run.report (.failed name e.message)
      return .failed name e
    | .ok document =>
      let title := (title? document.blocks).getD untitled
      let output ← renderDocument s document title requested
      Run.report (.completed name title)
      return .generated name output title

def buildDocuments (s : Settings) : List String → Run (List Outcome)
  | [] => pure []
  | path :: paths => do
    let outcome ← buildDocument s path
    match outcome, s.errorPolicy with
    | .failed name e, .abort => throw (.documentFailed name e)
    | _, _ =>
      let rest ← buildDocuments s paths
      pure (outcome :: rest)

/-- Makes the output directories and copies the assets; gives the number of copied files. -/
def prepareOutput (s : Settings) : Run Nat := do
  ensureDirectory s.output
  ensureDirectory s.stylesDirectory
  match s.templates with
  | some source => copyAssets source s.stylesDirectory
  | none => pure 0

def Outcome.entry? : Outcome → Option PageEntry
  | .generated name _ title => some ⟨pageName name, title⟩
  | _ => none

def build (s : Settings) : Run BuildReport := do
  let assetsCopied ← prepareOutput s
  let discovered ← discover s
  if discovered.isEmpty then throw (.noDocuments s.root)
  let documents := eligible s discovered
  Run.report (.buildStarted documents.length)
  let outcomes ← buildDocuments s documents
  let entries := outcomes.filterMap Outcome.entry?
  let defaultFile ← landingPage s discovered documents entries
  Run.report (.buildCompleted documents.length entries.length)
  pure
    { entries, outcomes, defaultFile
      stats :=
        { discovered := discovered.length
          eligible := documents.length
          generated := entries.length
          skipped := (outcomes.filter Outcome.isSkipped).length
          failed := (outcomes.filter Outcome.isFailed).length
          assetsCopied
          milliseconds := 0 } }

end LiterateJournal
