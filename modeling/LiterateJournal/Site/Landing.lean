import LiterateJournal.Site.Report
import LiterateJournal.Site.Sources
import LiterateJournal.Site.Template

/-!
# Landing pages

A site is entered by one of its pages, or by a page that lists them.

## Main definitions

* `defaultSource?` — the source that is the entry by its name.
* `indexDocument` — a page that lists others.
* `landingPage` — the entry of a site, which is written if it must be.
-/

namespace LiterateJournal

def indexName : String := "index.html"

/-- The first source that is the entry by its name. -/
def defaultSource? (sources : List String) : Option String :=
  sources.find? fun path =>
    match (Path.stem? path).map asciiLower with
    | some stem => stem = "default" || stem = "index"
    | none => false

def indexDocument (entries : List PageEntry) (heading : String) : Document :=
  let item (e : PageEntry) : List Block := [.paragraph [.link [.text e.title] e.fileName none]]
  .ofBlocks [.heading 1 [.text heading], .list .bulleted (entries.map item)]

/-- The entry of a site, given its sources and the pages that have been made: the only page made, or
if none was made the only one there is; the one that is the entry by its name; or else a list of the
pages made. That list is kept as it is when no page was made. -/
def landingPage (s : Settings) (discovered eligible : List String) (entries : List PageEntry) :
    Run String := do
  if discovered.isEmpty then throw (.noDocuments s.root)
  match entries, eligible with
  | [only], _ => return only.fileName
  | [], [only] => return pageName only
  | _, _ =>
    match defaultSource? discovered with
    | some source => return pageName source
    | none =>
      let index := Path.join s.output indexName
      let isThere := (← Run.files).exists? (pagePath s.format index)
      if entries.isEmpty && !s.overwrite && isThere then return indexName
      let _ ← renderDocument s (indexDocument entries s.landingTitle) s.landingTitle index
      return indexName

end LiterateJournal
