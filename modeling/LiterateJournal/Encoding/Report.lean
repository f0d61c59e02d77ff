import LiterateJournal.Json.Value
import LiterateJournal.Site.Report
import LiterateJournal.Site.Settings

/-!
# Reports as JSON

Cases and structures are written as those of documents are, but for outcomes, whose case is the
field `status` beside the others. An outcome may be a list that its case begins, and the fields of
the error in it may be in a list too, as those of an error on its own may not.

## Main definitions

* `DocumentError.toJson`, `PageEntry.toJson`, `Outcome.toJson`, `BuildReport.toJson`,
  `OutputFormat.toJson`, `ErrorPolicy.toJson` — writing.
* `DocumentError.ofJson?`, `PageEntry.ofJson?`, `Outcome.ofJson?`, `BuildReport.ofJson?`,
  `OutputFormat.ofJson?`, `ErrorPolicy.ofJson?` — reading.
-/

namespace LiterateJournal

def OutputFormat.toJson : OutputFormat → Json
  | .html => .text "Html"
  | .latex => .text "Latex"

def OutputFormat.ofJson? (j : Json) : Option OutputFormat :=
  match j.caseName? with
  | some "Html" => some .html
  | some "Latex" => some .latex
  | _ => none

def ErrorPolicy.toJson : ErrorPolicy → Json
  | .ignore => .text "Ignore"
  | .abort => .text "Abort"

def ErrorPolicy.ofJson? (j : Json) : Option ErrorPolicy :=
  match j.caseName? with
  | some "Ignore" => some .ignore
  | some "Abort" => some .abort
  | _ => none

/-- The numbers in reports are less than this. -/
def countBound : Nat := UInt64.size

def DocumentError.toJson : DocumentError → Json
  | .readFailed path detail =>
    .ofCase "ReadFailed" (.object [("path", .text path), ("detail", .text detail)])
  | .evaluation path snippet message =>
    .ofCase "Evaluation"
      (.object [("path", .text path), ("snippet", .number snippet), ("message", .text message)])
  | .parse path detail =>
    .ofCase "Parse" (.object [("path", .text path), ("detail", .text detail)])

def DocumentError.ofCase? (name : String) (content : Json) : Option DocumentError := do
  let path ← content.required? "path" Json.text?
  match name with
  | "ReadFailed" => (content.required? "detail" Json.text?).map (.readFailed path)
  | "Evaluation" =>
    let snippet ← content.required? "snippet" (Json.number? countBound)
    (content.required? "message" Json.text?).map (.evaluation path snippet)
  | "Parse" => (content.required? "detail" Json.text?).map (.parse path)
  | _ => none

def DocumentError.ofJson? (j : Json) : Option DocumentError :=
  j.case?.bind fun (name, content) => DocumentError.ofCase? name content

def DocumentError.fieldsOfCase (name : String) : List String :=
  if name = "Evaluation" then ["path", "snippet", "message"] else ["path", "detail"]

/-- The error of a document that a field of an outcome is. Its own fields may be in a list. -/
def DocumentError.ofField? (j : Json) : Option DocumentError :=
  j.case?.bind fun (name, content) =>
    DocumentError.ofCase? name (content.withFields (DocumentError.fieldsOfCase name))

def PageEntry.toJson (e : PageEntry) : Json :=
  .object [("file_name", .text e.fileName), ("title", .text e.title)]

def PageEntry.ofJson? (j : Json) : Option PageEntry := do
  let j := j.withFields ["file_name", "title"]
  let fileName ← j.required? "file_name" Json.text?
  let title ← j.required? "title" Json.text?
  some ⟨fileName, title⟩

def Outcome.toJson : Outcome → Json
  | .generated name output title =>
    .object
      [("status", .text "generated"), ("name", .text name), ("output", .text output),
       ("title", .text title)]
  | .skipped name => .object [("status", .text "skipped"), ("name", .text name)]
  | .failed name error =>
    .object [("status", .text "failed"), ("name", .text name), ("error", error.toJson)]

/-- The case of an outcome and what has its fields. In a list the case comes first. -/
def Outcome.statusOfJson? : Json → Option (String × Json)
  | .list (.text status :: items) => some (status, .list items)
  | .list _ => none
  | j => (j.required? "status" Json.text?).map fun status => (status, j)

def Outcome.ofJson? (j : Json) : Option Outcome := do
  let (status, content) ← Outcome.statusOfJson? j
  match status with
  | "generated" =>
    let j := content.withFields ["name", "output", "title"]
    let name ← j.required? "name" Json.text?
    let output ← j.required? "output" Json.text?
    let title ← j.required? "title" Json.text?
    some (.generated name output title)
  | "skipped" => ((content.withFields ["name"]).required? "name" Json.text?).map .skipped
  | "failed" =>
    let j := content.withFields ["name", "error"]
    let name ← j.required? "name" Json.text?
    let error ← j.required? "error" DocumentError.ofField?
    some (.failed name error)
  | _ => none

def BuildStats.toJson (s : BuildStats) : Json :=
  .object
    [("discovered", .number s.discovered), ("eligible", .number s.eligible),
     ("generated", .number s.generated), ("skipped", .number s.skipped),
     ("failed", .number s.failed), ("assets_copied", .number s.assetsCopied),
     ("total_duration_ms", .number s.milliseconds)]

def BuildStats.ofJson? (j : Json) : Option BuildStats := do
  let j := j.withFields
    ["discovered", "eligible", "generated", "skipped", "failed", "assets_copied",
     "total_duration_ms"]
  let count (name : String) := j.required? name (Json.number? countBound)
  let discovered ← count "discovered"
  let eligible ← count "eligible"
  let generated ← count "generated"
  let skipped ← count "skipped"
  let failed ← count "failed"
  let assetsCopied ← count "assets_copied"
  let milliseconds ← count "total_duration_ms"
  some { discovered, eligible, generated, skipped, failed, assetsCopied, milliseconds }

def BuildReport.toJson (r : BuildReport) : Json :=
  .object
    [("entries", .list (r.entries.map PageEntry.toJson)),
     ("outcomes", .list (r.outcomes.map Outcome.toJson)),
     ("default_file", .text r.defaultFile), ("stats", r.stats.toJson)]

def BuildReport.ofJson? (j : Json) : Option BuildReport := do
  let j := j.withFields ["entries", "outcomes", "default_file", "stats"]
  let entries ← j.required? "entries" (Json.list? PageEntry.ofJson?)
  let outcomes ← j.required? "outcomes" (Json.list? Outcome.ofJson?)
  let defaultFile ← j.required? "default_file" Json.text?
  let stats ← j.required? "stats" BuildStats.ofJson?
  some { entries, outcomes, defaultFile, stats }

end LiterateJournal
