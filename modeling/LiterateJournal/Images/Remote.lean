import LiterateJournal.Document.Links
import LiterateJournal.Document.Spans
import LiterateJournal.Text.Blank

/-!
# Images of a document

Images are given by an address of their own or by a label. LaTeX reads images from files only, so
that every image is given the address of a local copy first.

## Main definitions

* `isRemote` — whether an image must be fetched.
* `remoteImages` — the addresses of the images that must be fetched.
* `relocateImages` — the blocks with every address of an image replaced.
-/

namespace LiterateJournal

/-- Whether an image must be fetched. -/
def isRemote (url : String) : Bool := Text.startsWith "http".toList url.toList

def Span.imageUrl? (links : LinkTable) : Span → Option String
  | .image _ url _ => some url
  | .imageReference _ _ key => (links.get? key).map LinkTarget.url
  | _ => none

/-- The members of a list that differ from all of `seen` and from those before them. -/
def firstOccurrences (seen : List String) : List String → List String
  | [] => []
  | x :: xs =>
    if seen.contains x then firstOccurrences seen xs else x :: firstOccurrences (x :: seen) xs

/-- The addresses of the images that must be fetched, each once, in the order of the text. -/
def remoteImages (links : LinkTable) (blocks : List Block) : List String :=
  firstOccurrences [] (((spansOf blocks).filterMap (Span.imageUrl? links)).filter isRemote)

section Relocate

variable {m : Type → Type} [Monad m]

/-- An image with its address replaced; one by label becomes one by address, if the label is
defined. -/
def Span.relocate (links : LinkTable) (save : String → m String) : Span → m Span
  | .image alt url title => do
    let url ← save url
    pure (.image alt url title)
  | .imageReference alt written key =>
    match links.get? key with
    | some target => do
      let url ← save target.url
      pure (.image alt url target.title)
    | none => pure (.imageReference alt written key)
  | span => pure span

def relocateImages (links : LinkTable) (save : String → m String) (blocks : List Block) :
    m (List Block) :=
  mapSpansM (Span.relocate links save) blocks

end Relocate

end LiterateJournal
