import LiterateJournal.Text.Blank
import LiterateJournal.Text.Lower
import LiterateJournal.Text.SortedTable

/-!
# Link definitions

Links and images written with a label find their target in a table of definitions. Labels are
compared in a normal form, so that a label broken across two lines, or written in another case,
names the same definition.

## Main definitions

* `normalizeLabel` — the normal form of a label.
* `LinkTable` — definitions by the normal forms of their labels; a later definition wins.
-/

namespace LiterateJournal

/-- The normal form of a label: trimmed, each run of white space one space, in lower case. -/
def normalizeLabel (label : String) : String :=
  String.ofList (Text.lower (Text.collapseBlanks (Text.trim label.toList)))

/-- Where a label leads. -/
structure LinkTarget where
  url : String
  title : Option String
deriving Repr, BEq, DecidableEq, Inhabited

/-- The link definitions of a document, under the normal forms of their labels. -/
structure LinkTable where
  entries : SortedTable LinkTarget
deriving Inhabited, BEq

namespace LinkTable

def empty : LinkTable := ⟨∅⟩

instance : EmptyCollection LinkTable := ⟨empty⟩

/-- Adds a definition, in place of one whose label has the same normal form. -/
def insert (t : LinkTable) (label : String) (target : LinkTarget) : LinkTable :=
  ⟨t.entries.insert (normalizeLabel label) target⟩

def get? (t : LinkTable) (label : String) : Option LinkTarget :=
  t.entries.get? (normalizeLabel label)

/-- Adds the definitions of another table, which win over those there. -/
def merge (t other : LinkTable) : LinkTable := ⟨t.entries.merge other.entries⟩

def size (t : LinkTable) : Nat := t.entries.size

def isEmpty (t : LinkTable) : Bool := t.entries.isEmpty

end LinkTable

end LiterateJournal
