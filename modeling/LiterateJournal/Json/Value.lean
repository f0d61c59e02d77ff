/-!
# JSON values

## Main definitions

* `Json` — a value; an object is a list of fields.
* `Json.field?`, `Json.text?`, `Json.number?`, `Json.list?` — access to values of a known shape.
* `Json.depth` — how deep a value nests.
-/

namespace LiterateJournal

/-- A JSON value. Natural numbers have a value of their own; any other number is kept as it is
written. -/
inductive Json where
  | null
  | bool (b : Bool)
  | number (n : Nat)
  | otherNumber (digits : String)
  | text (s : String)
  | list (items : List Json)
  | object (fields : List (String × Json))
deriving Repr, BEq, Inhabited

namespace Json

mutual

def depth : Json → Nat
  | .list items => depthOfItems items + 1
  | .object fields => depthOfFields fields + 1
  | _ => 0

def depthOfItems : List Json → Nat
  | [] => 0
  | j :: js => max j.depth (depthOfItems js)

def depthOfFields : List (String × Json) → Nat
  | [] => 0
  | (_, j) :: fields => max j.depth (depthOfFields fields)

end

def field? (j : Json) (name : String) : Option Json :=
  match j with
  | .object fields => fields.lookup name
  | _ => none

/-- The fields without those that have a later one of their name. -/
def lastFields : List (String × Json) → List (String × Json)
  | [] => []
  | f :: fields =>
    if fields.any (·.1 = f.1) then lastFields fields else f :: lastFields fields

/-- A value that is to have these fields. A list of as many values stands for an object that has
them in order. -/
def withFields (j : Json) (names : List String) : Json :=
  match j with
  | .list items => if items.length = names.length then .object (names.zip items) else .null
  | j => j

def text? : Json → Option String
  | .text s => some s
  | _ => none

def bool? : Json → Option Bool
  | .bool b => some b
  | _ => none

/-- The natural number that a value is, if it is less than `bound`. -/
def number? (bound : Nat) : Json → Option Nat
  | .number n => if n < bound then some n else none
  | _ => none

def list? {α : Type} (item? : Json → Option α) : Json → Option (List α)
  | .list items => items.mapM item?
  | _ => none

/-- Null for nothing, or else a value. -/
def nullable? {α : Type} (value? : Json → Option α) : Json → Option (Option α)
  | .null => some none
  | j => (value? j).map some

def required? {α : Type} (j : Json) (name : String) (value? : Json → Option α) : Option α :=
  (j.field? name).bind value?

def optional? {α : Type} (j : Json) (name : String) (value? : Json → Option α) :
    Option (Option α) :=
  nullable? value? ((j.field? name).getD .null)

/-- The name of a case without content: a text, or the only field of an object, with null. -/
def caseName? : Json → Option String
  | .text s => some s
  | .object [(name, .null)] => some name
  | _ => none

/-- The name and content of a case with content: the only field of an object. -/
def case? : Json → Option (String × Json)
  | .object [(name, j)] => some (name, j)
  | _ => none

def ofCase (name : String) (j : Json) : Json := .object [(name, j)]

def ofText? : Option String → Json
  | some s => .text s
  | none => .null

end Json

end LiterateJournal
