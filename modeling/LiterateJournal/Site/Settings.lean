import LiterateJournal.Evaluation.Evaluator
import LiterateJournal.Files.Path
import LiterateJournal.Markdown.Node
import LiterateJournal.Site.Error
import LiterateJournal.Text.SortedTable

/-!
# Settings of a build

## Main definitions

* `Settings` — all that determines a build but the files.
* `Settings.check` — the settings, if a build can use them.
* `Settings.isListed`, `Settings.endsListed` — whether a name is on the list of documents.
-/

namespace LiterateJournal

/-- What a document's failure means for the others. -/
inductive ErrorPolicy where
  /-- The failure is reported and the build goes on. -/
  | ignore
  /-- The build ends. -/
  | abort
deriving Repr, BEq, DecidableEq, Inhabited

abbrev NameSet := SortedTable Unit

namespace NameSet

def ofNames (names : List String) : NameSet := SortedTable.ofList (names.map fun n => (n, ()))

def names (s : NameSet) : List String := s.entries.map Prod.fst

def contains (s : NameSet) (name : String) : Bool := (s.get? name).isSome

end NameSet

/-- All that determines a build but the files. -/
structure Settings where
  /-- The directory of the sources. -/
  root : String
  /-- The directory of the pages. -/
  output : String
  format : OutputFormat := .html
  /-- How the evaluator is to write numbers with a fraction. -/
  floatFormat : String := "G4"
  /-- The directory of the templates and other assets, if they are to be copied. -/
  templates : Option String := none
  /-- The only documents to build. -/
  whitelist : Option NameSet := none
  errorPolicy : ErrorPolicy := .ignore
  /-- Pages are made even when they are newer than their sources. -/
  overwrite : Bool := false
  /-- The heading of a page that lists the others. -/
  landingTitle : String := "FsLab Journals"
  /-- How many seconds an image may take. -/
  downloadTimeout : Nat := 120
  evaluator : Evaluator := .echo
  /-- How the link definitions in the file at a path come. No two builds need have the same. -/
  definitionOrder : String → Markdown.DefinitionOrder := fun _ => .ofText

namespace Settings

def check (s : Settings) : Except BuildError Settings :=
  if s.floatFormat.toList.all Text.isBlank then
    .error (.invalidSettings "Float format must not be empty")
  else if s.downloadTimeout = 0 then
    .error (.invalidSettings "Download timeout must be ≥ 1 second")
  else if s.root.isEmpty || s.output.isEmpty then
    .error (.invalidSettings "Source and output directories are required")
  else .ok s

def stylesDirectory (s : Settings) : String := Path.join s.output "styles"

def evaluationOptions (s : Settings) : EvaluationOptions := ⟨s.format, s.floatFormat⟩

def isListed (s : Settings) (name : String) : Bool :=
  match s.whitelist with
  | some names => names.contains name
  | none => true

def endsListed (s : Settings) (path : String) : Bool :=
  match s.whitelist with
  | some names => names.names.any fun n => n.toList.isSuffixOf path.toList
  | none => true

end Settings

end LiterateJournal
