import LiterateJournal.CommandLine.Options
import LiterateJournal.Encoding.Report
import LiterateJournal.Json.Printer
import LiterateJournal.Site.Build

/-!
# What the command line answers

A run of the program ends in a result, and the result is told on the standard output, on the
standard error and by the exit code.

## Main definitions

* `Result`, `run` — what a run of the program comes to.
* `Answer`, `Result.answer` — how it is told.
-/

namespace LiterateJournal.CommandLine

def versionText : String := "journal 0.3.0"

def usageText : String := "Usage: journal [OPTIONS] --output <OUTPUT> <ROOT>"

/-- What a run of the program comes to. -/
inductive Result where
  | version
  | help
  | misuse (e : Misuse)
  /-- The settings cannot be used. -/
  | refused (e : BuildError)
  | failed (e : BuildError)
  | built (options : Options) (report : BuildReport)

def run (env : String → Option String) (arguments : List String) : StateM World Result := do
  match Options.ofArguments env arguments with
  | .error .version => pure .version
  | .error .help => pure .help
  | .error (.misuse e) => pure (.misuse e)
  | .ok options =>
    match options.settings.check with
    | .error e => pure (.refused e)
    | .ok settings =>
      match ← (build settings).run with
      | .error e => pure (.failed e)
      | .ok report => pure (.built options report)

structure Answer where
  code : Nat
  output : String
  errors : String
deriving Repr, BEq, DecidableEq

/-! ### Styles -/

def styled (style text : String) : String := "\x1b[" ++ style ++ "m" ++ text ++ "\x1b[0m"

def bold : String → String := styled "1"

def dim : String → String := styled "2"

def red : String → String := styled "31"

def green : String → String := styled "32"

def cyan : String → String := styled "36"

/-! ### Errors -/

/-- A text of many lines after a mark, its further lines indented. -/
def hanging (mark indent text : String) : String :=
  mark ++ String.ofList
    (text.toList.flatMap fun c => if c = '\n' then '\n' :: indent.toList else [c])

/-- An error with its causes, which are numbered if there are two. -/
def errorText (what : String) (e : BuildError) : String :=
  let causes := match e.cause? with
    | none => hanging "    " "    " e.message
    | some cause =>
      hanging "    0: " "       " e.message ++ "\n" ++ hanging "    1: " "       " cause
  "Error: " ++ what ++ "\n\nCaused by:\n" ++ causes ++ "\n"

/-! ### Reports -/

def signOf (failed : Nat) : String := if failed = 0 then green "✔" else cyan "⚠"

def progressLine (s : BuildStats) : String :=
  let rest :=
    if s.failed = 0 then " of " ++ toString s.eligible ++ " document(s) regenerated"
    else " regenerated, " ++ red (toString s.failed) ++ " failed"
  signOf s.failed ++ " " ++ bold (toString s.generated) ++ rest ++ "\n"

def summaryText (output : String) (r : BuildReport) : String :=
  let s := r.stats
  let line := signOf s.failed ++ "  " ++ toString s.generated ++ " generated  "
    ++ toString s.skipped ++ " up to date  " ++ toString s.failed ++ " failed  "
    ++ toString s.milliseconds ++ "ms  →  " ++ bold (Path.join output r.defaultFile) ++ "\n"
  let copied :=
    if s.assetsCopied = 0 then ""
    else "   " ++ dim (toString s.assetsCopied ++ " style file(s) copied") ++ "\n"
  line ++ copied

def reportAnswer (options : Options) (r : BuildReport) : Answer :=
  let summary := summaryText options.settings.output r
  match options.reporting with
  | .json => ⟨0, r.toJson.renderLines ++ "\n", ""⟩
  | .nothing => ⟨0, "", ""⟩
  | .summary => ⟨0, "", summary⟩
  | .progress => ⟨0, "", progressLine r.stats ++ summary⟩

def Result.answer (milliseconds : Nat) : Result → Answer
  | .version => ⟨0, versionText ++ "\n", ""⟩
  | .help => ⟨0, usageText ++ "\n", ""⟩
  | .misuse e => ⟨2, "", "error: " ++ e.message ++ "\n\n" ++ usageText ++ "\n"⟩
  | .refused e => ⟨1, "", errorText "Invalid configuration" e⟩
  | .failed e => ⟨1, "", errorText "Build failed" e⟩
  | .built options r => reportAnswer options { r with stats := { r.stats with milliseconds } }

end LiterateJournal.CommandLine
