import LiterateJournal.Document.Basic
import LiterateJournal.Document.Title
import LiterateJournal.Images.Store
import LiterateJournal.Site.Settings

/-!
# Pages from templates

A page is made from the template for its format. It is written under another name first.

## Main definitions

* `templatePath`, `pagePath` — where templates and pages are.
* `writePage` — writes a file so that it is never seen half written.
* `renderDocument` — writes the page of a document.
-/

namespace LiterateJournal

def templatePath (styles : String) (format : OutputFormat) : String :=
  Path.join styles ("template." ++ format.fileExtension)

/-- Where a page is written that is asked for under its name in HTML. -/
def pagePath (format : OutputFormat) (requested : String) : String :=
  match format with
  | .html => requested
  | .latex => Path.withExtension requested format.fileExtension

def loadTemplate (styles : String) (format : OutputFormat) : Run String := do
  let path := templatePath styles format
  match (← Run.files).readText path with
  | .ok text => pure text
  | .error .notFound => throw (.templateNotFound path)
  | .error e => throw (.templateReadFailed path e)

/-- Writes a file under another name next to it and then renames it. -/
def writePage (path text : String) : Run Unit := do
  let failed := BuildError.outputWriteFailed path
  if let some parent := Path.parent? path then
    Run.makeDirectories failed parent
  let draft := path ++ ".tmp"
  Run.change failed fun files now => files.write now draft (.text text)
  Run.change failed fun files _ => files.rename draft path

/-- The blocks of a page's body. In LaTeX, images are local and the template shows the title. -/
def pageBlocks (s : Settings) (document : Document) (title : String) : Run (List Block) :=
  match s.format with
  | .html => pure document.blocks
  | .latex => do
    let name := (Path.fileName? document.path).getD title
    return dropTitles (← ImageStore.localizeAlone s.output name document.links document.blocks)

def renderDocument (s : Settings) (document : Document) (title requested : String) :
    Run String := do
  let template ← loadTemplate s.stylesDirectory s.format
  let blocks ← pageBlocks s document title
  let body := s.format.writeBody document.links blocks
  let path := pagePath s.format requested
  writePage path (fillTemplate template s.format body document.tooltips title)
  pure path

end LiterateJournal
