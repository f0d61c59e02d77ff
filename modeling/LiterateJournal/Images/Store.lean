import LiterateJournal.Images.Remote
import LiterateJournal.Site.World

/-!
# Local copies of images

An image store fetches images and keeps them in a directory of its own under numbered names. The
number of a name goes up before the image is fetched, so that one that fails leaves a gap.

## Main definitions

* `ImageStore` — where the copies are.
* `ImageStore.localize` — fetches the images of a document and points it at their copies.
-/

namespace LiterateJournal

/-! ### Status codes of replies -/

def statusPhrases : List (Nat × String) :=
  [(100, "Continue"), (101, "Switching Protocols"), (102, "Processing"), (200, "OK"),
   (201, "Created"), (202, "Accepted"), (203, "Non Authoritative Information"),
   (204, "No Content"), (205, "Reset Content"), (206, "Partial Content"), (207, "Multi-Status"),
   (208, "Already Reported"), (226, "IM Used"), (300, "Multiple Choices"),
   (301, "Moved Permanently"), (302, "Found"), (303, "See Other"), (304, "Not Modified"),
   (305, "Use Proxy"), (307, "Temporary Redirect"), (308, "Permanent Redirect"),
   (400, "Bad Request"), (401, "Unauthorized"), (402, "Payment Required"), (403, "Forbidden"),
   (404, "Not Found"), (405, "Method Not Allowed"), (406, "Not Acceptable"),
   (407, "Proxy Authentication Required"), (408, "Request Timeout"), (409, "Conflict"),
   (410, "Gone"), (411, "Length Required"), (412, "Precondition Failed"),
   (413, "Payload Too Large"), (414, "URI Too Long"), (415, "Unsupported Media Type"),
   (416, "Range Not Satisfiable"), (417, "Expectation Failed"), (418, "I'm a teapot"),
   (421, "Misdirected Request"), (422, "Unprocessable Entity"), (423, "Locked"),
   (424, "Failed Dependency"), (425, "Too Early"), (426, "Upgrade Required"),
   (428, "Precondition Required"), (429, "Too Many Requests"),
   (431, "Request Header Fields Too Large"), (451, "Unavailable For Legal Reasons"),
   (500, "Internal Server Error"), (501, "Not Implemented"), (502, "Bad Gateway"),
   (503, "Service Unavailable"), (504, "Gateway Timeout"), (505, "HTTP Version Not Supported"),
   (506, "Variant Also Negotiates"), (507, "Insufficient Storage"), (508, "Loop Detected"),
   (510, "Not Extended"), (511, "Network Authentication Required")]

def statusText (code : Nat) : String :=
  toString code ++ " " ++ (statusPhrases.lookup code).getD "<unknown status code>"

def isSuccess (code : Nat) : Bool := 200 ≤ code && code < 300

/-! ### Stores -/

def savedDirectory : String := "savedimages"

/-- Copies of images. -/
structure ImageStore where
  /-- Their directory. -/
  directory : String
  /-- The number of the last copy. -/
  counter : Nat
  /-- Where the copy of an image is, as seen from the pages. -/
  saved : List (String × String)
deriving Repr, BEq, DecidableEq

/-- A step that may add copies to a store, and keeps those it has when it fails. -/
abbrev StoreRun := ExceptT BuildError (StateT ImageStore (StateM World))

namespace ImageStore

def new (output : String) : ImageStore := ⟨Path.join output savedDirectory, 0, []⟩

/-- The address to use for an image: that of its copy, if it is not local. -/
def lookup (s : ImageStore) (url : String) : Except BuildError String :=
  if !isRemote url then .ok url
  else
    match s.saved.lookup url with
    | some path => .ok path
    | none => .error (.internal ("image '" ++ url ++ "' was not fetched"))

def copyName (number : Nat) (url : Url) : String :=
  "saved" ++ toString number ++ url.fileExtension

def lift {α : Type} (step : Run α) : StoreRun α := fun s => do
  let result ← step.run
  pure (result, s)

def download (document text : String) (url : Url) (path : String) : Run Unit := do
  let failed (reason : String) : BuildError := .imageDownloadFailed document text reason
  let url := url.withoutUserInfo
  let address := " for url (" ++ url.toText ++ ")"
  let isHttp := url.scheme = "http".toList || url.scheme = "https".toList
  if !isHttp || !url.hasHost then throw (failed ("builder error" ++ address))
  match ← Run.request { url with fragment := none } with
  | .dropped => throw (failed ("error sending request" ++ address))
  | .reply status body =>
    if !isSuccess status then throw (failed ("HTTP " ++ statusText status))
    Run.change (.outputWriteFailed path) fun files now => files.write now path body

/-- Fetches an image, unless there is a copy. -/
def fetch (document text : String) : StoreRun Unit := do
  let s ← getThe ImageStore
  if (s.saved.lookup text).isSome then return
  match Url.parse text with
  | .error e => throw (.invalidImageUrl text e.message)
  | .ok url =>
    let s := { s with counter := s.counter + 1 }
    set s
    let name := copyName s.counter url
    lift (download document text url (Path.join s.directory name))
    set { s with saved := (text, savedDirectory ++ "/" ++ name) :: s.saved }

def fetchAll (document : String) : List String → StoreRun Unit
  | [] => pure ()
  | url :: urls => do
    fetch document url
    fetchAll document urls

/-- Fetches the images of a document and points it at their copies. -/
def localize (document : String) (links : LinkTable) (blocks : List Block) :
    StoreRun (List Block) := do
  let urls := remoteImages links blocks
  if !urls.isEmpty then
    let s ← getThe ImageStore
    lift (Run.makeDirectories (.directoryCreateFailed s.directory) s.directory)
    fetchAll document urls
  let s ← getThe ImageStore
  match relocateImages links s.lookup blocks with
  | .ok blocks => pure blocks
  | .error e => throw e

/-- Points a document at copies of its images, in a store of its own. -/
def localizeAlone (output document : String) (links : LinkTable) (blocks : List Block) :
    Run (List Block) := do
  let (result, _) ← ((localize document links blocks).run.run (new output) : StateM World _)
  match result with
  | .ok blocks => pure blocks
  | .error e => throw e

end ImageStore

end LiterateJournal
