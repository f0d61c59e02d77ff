import LiterateJournal.Files.Tree
import LiterateJournal.Site.Error
import LiterateJournal.Url.Address

/-!
# The world of a build

A build reads and writes files, fetches images and reports its progress. All of it is a function of
the world before, and an error leaves the world as it was when it happened.

## Main definitions

* `World` — the files, the clock, the network, the requests made and the progress reported.
* `Run` — a step of a build.
-/

namespace LiterateJournal

/-- What the network answers to a request. -/
inductive WebReply where
  /-- There is no reply. -/
  | dropped
  | reply (status : Nat) (body : Content)
deriving Repr, BEq, DecidableEq

/-- What is reported while a build goes on. -/
inductive Progress where
  | buildStarted (documents : Nat)
  | skipped (name : String)
  | started (name : String)
  | completed (name title : String)
  | failed (name message : String)
  | buildCompleted (documents generated : Nat)
deriving Repr, BEq, DecidableEq

/-- What a build can see and change. -/
structure World where
  files : FileTree
  /-- The time of the next change to a file. -/
  clock : Nat
  web : Url → WebReply
  /-- The URLs requested so far, the last one first. -/
  requests : List Url
  /-- The progress reported so far, the last report first. -/
  progress : List Progress

/-- A step of a build: it may fail, and changes the world in any case. -/
abbrev Run := ExceptT BuildError (StateM World)

namespace Run

def files : Run FileTree := do return (← get).files

def report (p : Progress) : Run Unit := modify fun w => { w with progress := p :: w.progress }

/-- Changes a file; time goes on. -/
def change (cause : FileError → BuildError)
    (op : FileTree → Nat → Except FileError FileTree) : Run Unit := do
  let w ← get
  match op w.files w.clock with
  | .ok files => set { w with files, clock := w.clock + 1 }
  | .error e => throw (cause e)

def makeDirectories (cause : FileError → BuildError) (path : String) : Run Unit := do
  let w ← get
  let (result, files) := w.files.makeDirectories w.clock path
  set { w with files, clock := w.clock + 1 }
  match result with
  | .ok () => pure ()
  | .error e => throw (cause e)

def request (url : Url) : Run WebReply := do
  modify fun w => { w with requests := url :: w.requests }
  return (← get).web url

end Run

end LiterateJournal
