import LiterateJournal.Site.Settings

/-!
# Options of the command line

The program is given the directory of the sources and options. A flag is on or off; a setting has a
value, which stands in the same argument or in the next one. Most options can be given by the
environment as well, and the command line wins.

Arguments are first cut into items, since letters of several options may share an argument, and the
items are then read from left to right.

## Main definitions

* `Flag`, `Setting` — the options.
* `Item`, `itemsOf` — what the arguments say.
* `Given`, `Given.read`, `Given.addEnvironment` — what has been said.
* `Options`, `Options.ofArguments` — what is to be done.
-/

namespace LiterateJournal.CommandLine

inductive Flag where
  | latex
  | overwrite
  | abortOnError
  | json
  | noProgress
  /-- More is to be logged. There is no log, so this changes nothing. -/
  | verbose
  | quiet
deriving Repr, BEq, DecidableEq

namespace Flag

def all : List Flag := [latex, overwrite, abortOnError, json, noProgress, verbose, quiet]

def name : Flag → String
  | latex => "latex"
  | overwrite => "overwrite"
  | abortOnError => "abort-on-error"
  | json => "json"
  | noProgress => "no-progress"
  | verbose => "verbose"
  | quiet => "quiet"

def letter? : Flag → Option Char
  | verbose => some 'v'
  | quiet => some 'q'
  | _ => none

end Flag

inductive Setting where
  | output
  | floatFormat
  | templates
  | only
  | landingTitle
  | downloadTimeout
deriving Repr, BEq, DecidableEq

namespace Setting

def all : List Setting := [output, floatFormat, templates, only, landingTitle, downloadTimeout]

def name : Setting → String
  | output => "output"
  | floatFormat => "float-format"
  | templates => "templates"
  | only => "only"
  | landingTitle => "landing-title"
  | downloadTimeout => "download-timeout"

def letter? : Setting → Option Char
  | output => some 'o'
  | _ => none

def isRepeatable (s : Setting) : Bool := s = only

end Setting

/-- The natural number that decimal digits write, if it fits into 64 bits; there may be a plus sign
before them. -/
def number? (text : String) : Option Nat :=
  let digits := match text.toList with
    | '+' :: ds => ds
    | ds => ds
  if digits.isEmpty || !digits.all Char.isDigit then none
  else
    let n := digits.foldl (fun n c => n * 10 + (c.toNat - 48)) 0
    if n < UInt64.size then some n else none

def Setting.admits (s : Setting) (value : String) : Bool :=
  match s with
  | .output | .templates => !value.isEmpty
  | .downloadTimeout => (number? value).isSome
  | .floatFormat | .only | .landingTitle => true

def variableOf (name : String) : String :=
  "JOURNAL_" ++ String.ofList (name.toList.map fun c => if c = '-' then '_' else c.toUpper)

inductive Misuse where
  | unknownOption (text : String)
  | unexpectedValue (option : String)
  | missingValue (option : String)
  | invalidValue (option value : String)
  | repeated (option : String)
  | unexpectedOperand (text : String)
  | missing (what : String)
deriving Repr, BEq, DecidableEq

def Misuse.message : Misuse → String
  | .unknownOption text => "unknown option '" ++ text ++ "'"
  | .unexpectedValue option => "option '" ++ option ++ "' takes no value"
  | .missingValue option => "option '" ++ option ++ "' needs a value"
  | .invalidValue option value => "invalid value '" ++ value ++ "' for '" ++ option ++ "'"
  | .repeated option => "option '" ++ option ++ "' is given more than once"
  | .unexpectedOperand text => "unexpected argument '" ++ text ++ "'"
  | .missing what => "'" ++ what ++ "' is missing"

/-! ### Items -/

/-- One thing that the arguments say. -/
inductive Item where
  | flag (f : Flag)
  | version
  | help
  /-- A setting whose value is in the next argument. -/
  | awaiting (s : Setting)
  | setting (s : Setting) (value : String)
  | operand (text : String)
  /-- There are no options after this. -/
  | endOfOptions
  | wrong (e : Misuse)
deriving Repr, BEq, DecidableEq

/-- What an option says whose name and value, if it has one, stand in one argument. -/
def itemOfName (name : String) (value : Option String) : Item :=
  let alone (item : Item) : Item := if value.isSome then .wrong (.unexpectedValue name) else item
  if name = "version" then alone .version
  else if name = "help" then alone .help
  else
    match Flag.all.find? (·.name = name), Setting.all.find? (·.name = name) with
    | some f, _ => alone (.flag f)
    | none, some s => value.elim (.awaiting s) (.setting s)
    | none, none => .wrong (.unknownOption name)

/-- What letters say that share an argument. What follows the letter of a setting is its value, and
may have an equals sign before it. -/
def itemsOfLetters : List Char → List Item
  | [] => []
  | 'V' :: cs => .version :: itemsOfLetters cs
  | 'h' :: cs => .help :: itemsOfLetters cs
  | c :: cs =>
    match Flag.all.find? (·.letter? = some c), Setting.all.find? (·.letter? = some c) with
    | some f, _ => .flag f :: itemsOfLetters cs
    | none, some s =>
      match cs with
      | [] => [.awaiting s]
      | '=' :: cs => [.setting s (String.ofList cs)]
      | cs => [.setting s (String.ofList cs)]
    | none, none => [.wrong (.unknownOption (String.singleton c))]

def itemsOfArgument (argument : String) : List Item :=
  match argument.toList with
  | '-' :: '-' :: cs =>
    let value := match cs.dropWhile (· ≠ '=') with
      | [] => none
      | _ :: value => some (String.ofList value)
    [itemOfName (String.ofList (cs.takeWhile (· ≠ '='))) value]
  | '-' :: c :: cs => itemsOfLetters (c :: cs)
  | _ => [.operand argument]

def itemsOf : List String → List Item
  | [] => []
  | argument :: rest =>
    if argument = "--" then .endOfOptions :: rest.map .operand
    else itemsOfArgument argument ++ itemsOf rest

/-! ### Reading -/

/-- Why the arguments are not read to their end. -/
inductive Stop where
  /-- The version of the program is asked for. -/
  | version
  /-- Help is asked for. -/
  | help
  | misuse (e : Misuse)
deriving Repr, BEq, DecidableEq

/-- What has been said. -/
structure Given where
  root : Option String
  flags : List Flag
  settings : List (Setting × String)
deriving Repr, BEq, DecidableEq

namespace Given

def empty : Given := ⟨none, [], []⟩

def addFlag (g : Given) (f : Flag) : Except Misuse Given :=
  if g.flags.contains f then .error (.repeated f.name)
  else .ok { g with flags := f :: g.flags }

def values (g : Given) (s : Setting) : List String :=
  (g.settings.filter (·.1 = s)).map Prod.snd

def addSetting (g : Given) (s : Setting) (value : String) : Except Misuse Given :=
  if !s.isRepeatable && !(g.values s).isEmpty then .error (.repeated s.name)
  else if s.admits value then .ok { g with settings := g.settings ++ [(s, value)] }
  else .error (.invalidValue s.name value)

def addOperand (g : Given) (text : String) : Except Misuse Given :=
  if g.root.isSome then .error (.unexpectedOperand text)
  else if text.isEmpty then .error (.invalidValue "root" text)
  else .ok { g with root := some text }

def read (g : Given) : List Item → Except Stop Given
  | [] => .ok g
  | .awaiting s :: .operand value :: rest =>
    match g.addSetting s value with
    | .ok g => g.read rest
    | .error e => .error (.misuse e)
  | item :: rest =>
    let next : Except Stop Given := match item with
      | .flag f => (g.addFlag f).mapError .misuse
      | .version => .error .version
      | .help => .error .help
      | .awaiting s => .error (.misuse (.missingValue s.name))
      | .setting s value => (g.addSetting s value).mapError .misuse
      | .operand text => (g.addOperand text).mapError .misuse
      | .endOfOptions => .ok g
      | .wrong e => .error (.misuse e)
    match next with
    | .ok g => g.read rest
    | .error stop => .error stop

/-- Adds a flag that the environment gives, unless it has been given. -/
def addFlagOf (env : String → Option String) (g : Given) (f : Flag) : Except Misuse Given :=
  if g.flags.contains f then .ok g
  else
    match env (variableOf f.name) with
    | none | some "false" => .ok g
    | some "true" => g.addFlag f
    | some value => .error (.invalidValue f.name value)

/-- Adds a setting that the environment gives, unless it has been given. Settings that may be given
more than once are not taken from the environment. -/
def addSettingOf (env : String → Option String) (g : Given) (s : Setting) : Except Misuse Given :=
  if s.isRepeatable || !(g.values s).isEmpty then .ok g
  else
    match env (variableOf s.name) with
    | none => .ok g
    | some value => g.addSetting s value

def addEnvironment (env : String → Option String) (g : Given) : Except Misuse Given := do
  let g ← Flag.all.foldlM (addFlagOf env) g
  Setting.all.foldlM (addSettingOf env) g

end Given

/-! ### Options -/

/-- What is told of a build that succeeds. -/
inductive Reporting where
  /-- The report as JSON. -/
  | json
  | nothing
  | summary
  /-- The end of the build, and then a summary. -/
  | progress
deriving Repr, BEq, DecidableEq

structure Options where
  settings : Settings
  reporting : Reporting

namespace Options

def reportingOf (isOn : Flag → Bool) : Reporting :=
  if isOn .json then .json
  else if isOn .quiet then .nothing
  else if isOn .noProgress then .summary
  else .progress

def ofGiven (g : Given) : Except Misuse Options :=
  match g.root, (g.values .output).head? with
  | none, _ => .error (.missing "root")
  | _, none => .error (.missing Setting.output.name)
  | some root, some output =>
    let isOn (f : Flag) : Bool := g.flags.contains f
    let value? (s : Setting) : Option String := (g.values s).head?
    let base : Settings := { root, output }
    .ok
      { reporting := reportingOf isOn
        settings :=
          { base with
            format := if isOn .latex then .latex else .html
            floatFormat := (value? .floatFormat).getD base.floatFormat
            templates := value? .templates
            whitelist :=
              match g.values .only with
              | [] => none
              | names => some (NameSet.ofNames names)
            errorPolicy := if isOn .abortOnError then .abort else .ignore
            overwrite := isOn .overwrite
            landingTitle := (value? .landingTitle).getD base.landingTitle
            downloadTimeout :=
              ((value? .downloadTimeout).bind number?).getD base.downloadTimeout } }

def ofArguments (env : String → Option String) (arguments : List String) :
    Except Stop Options := do
  let g ← Given.empty.read (itemsOf arguments)
  ((g.addEnvironment env).bind ofGiven).mapError .misuse

end Options

end LiterateJournal.CommandLine
