import LiterateJournal.Output.Html
import LiterateJournal.Proofs.Output.Scanner

/-!
# Reading HTML

A fragment is taken apart into its tags and its text. Entities are resolved on the way, so that what
is read are the characters that a browser shows. Nothing is forgiven: an ampersand that starts none
of the five entities, or a tag that is not written in full, is not read at all.

## Main definitions

* `Html.Token`, `Html.read` — the characters and tags of a fragment.
* `Html.Piece` — a part of a fragment that knows which of its strings come from the document.
* `Html.Written` — fragments, with their pieces.

## Main statements

* `Html.Written.read_eq` — the pieces are read as they were written.
* `Html.Written.balanced` — every element is closed.
-/

namespace LiterateJournal.Html

/-! ### The reader -/

/-- A character of the text, or a tag. -/
inductive Token where
  | char (c : Char)
  | opening (name : String) (attributes : List (String × String))
  | closing (name : String)
deriving Repr, DecidableEq

/-- An opening tag of which a part has been read. -/
structure OpenTag where
  name : List Char
  attributes : List (String × String)
deriving Repr, DecidableEq

def OpenTag.token (t : OpenTag) : Token := .opening (String.ofList t.name) t.attributes

def OpenTag.add (t : OpenTag) (name value : List Char) : OpenTag :=
  ⟨t.name, t.attributes ++ [(String.ofList name, String.ofList value)]⟩

/-- What the reader is in the middle of. -/
inductive Place where
  | text
  | entity (name : List Char)
  /-- Behind the bracket that starts a tag. -/
  | tag
  | closing (name : List Char)
  | name (name : List Char)
  /-- Behind a blank in a tag. -/
  | gap (t : OpenTag)
  | attribute (t : OpenTag) (name : List Char)
  /-- Behind the sign between an attribute and its value. -/
  | equals (t : OpenTag) (name : List Char)
  | value (t : OpenTag) (name value : List Char)
  | valueEntity (t : OpenTag) (name value entity : List Char)
  /-- Behind a value. -/
  | after (t : OpenTag)
  /-- Behind the slash that a void element may have. -/
  | slash (t : OpenTag)
deriving Repr, DecidableEq

def entity? : List Char → Option Char
  | ['a', 'm', 'p'] => some '&'
  | ['l', 't'] => some '<'
  | ['g', 't'] => some '>'
  | ['q', 'u', 'o', 't'] => some '"'
  | ['#', '3', '9'] => some '\''
  | _ => none

/-- Reads a character inside a tag, behind its name or an attribute. -/
def stepInTag (t : OpenTag) (c : Char) : Option (List Token × Place) :=
  if c = ' ' then some ([], .gap t)
  else if c = '>' then some ([t.token], .text)
  else none

def step : Scanner Place Char Token
  | .text, c =>
    if c = '<' then some ([], .tag)
    else if c = '&' then some ([], .entity [])
    else some ([.char c], .text)
  | .entity name, c =>
    if c = ';' then (entity? name).map fun e => ([.char e], .text)
    else some ([], .entity (name ++ [c]))
  | .tag, c =>
    if c = '/' then some ([], .closing [])
    else if c.isAlphanum then some ([], .name [c])
    else none
  | .closing name, c =>
    if c = '>' then some ([.closing (String.ofList name)], .text)
    else if c.isAlphanum then some ([], .closing (name ++ [c]))
    else none
  | .name name, c =>
    if c.isAlphanum then some ([], .name (name ++ [c])) else stepInTag ⟨name, []⟩ c
  | .gap t, c =>
    if c = '/' then some ([], .slash t)
    else if c.isAlphanum then some ([], .attribute t [c])
    else none
  | .attribute t name, c =>
    if c = '=' then some ([], .equals t name)
    else if c.isAlphanum then some ([], .attribute t (name ++ [c]))
    else none
  | .equals t name, c => if c = '"' then some ([], .value t name []) else none
  | .value t name value, c =>
    if c = '"' then some ([], .after (t.add name value))
    else if c = '&' then some ([], .valueEntity t name value [])
    else some ([], .value t name (value ++ [c]))
  | .valueEntity t name value entity, c =>
    if c = ';' then (entity? entity).map fun e => ([], .value t name (value ++ [e]))
    else some ([], .valueEntity t name value (entity ++ [c]))
  | .after t, c => stepInTag t c
  | .slash t, c => if c = '>' then some ([t.token], .text) else none

def read (fragment : String) : Option (List Token) :=
  match Scanner.run step .text fragment.toList with
  | some (tokens, .text) => some tokens
  | _ => none

def voidElements : List String := ["br", "hr", "img"]

/-- An opening or a closing tag as a bracket; a void element is none. -/
def Token.bracket? : Token → Option (Bracket String)
  | .char _ => none
  | .opening name _ => if name ∈ voidElements then none else some (.opening name)
  | .closing name => some (.closing name)

/-! ### Pieces -/

/-- An attribute. Its value ends with a string of the document, if there is one. -/
structure Attribute where
  name : String
  /-- What the writer puts into the value. -/
  own : String := ""
  shown : Option String := none
deriving Repr, DecidableEq

def Attribute.value (a : Attribute) : String := a.own ++ a.shown.getD ""

/-- A part of a fragment. -/
inductive Piece where
  /-- Text of the document. -/
  | text (s : String)
  /-- Text of the writer. -/
  | own (s : String)
  | opening (name : String) (attributes : List Attribute)
  | closing (name : String)
deriving Repr, DecidableEq

def Piece.tokens : Piece → List Token
  | .text s | .own s => s.toList.map .char
  | .opening name attributes => [.opening name (attributes.map fun a => (a.name, a.value))]
  | .closing name => [.closing name]

/-- The strings of the document in a piece. -/
def Piece.shown : Piece → List String
  | .text s => [s]
  | .own _ => []
  | .opening _ attributes => attributes.filterMap Attribute.shown
  | .closing _ => []

def elementPieces (name : String) (attributes : List Attribute) (body : List Piece) : List Piece :=
  .opening name attributes :: body ++ [.closing name]

def writeAttributes (attributes : List Attribute) : String :=
  attributes.foldr (fun a rest => attr a.name a.value ++ rest) ""

def IsName (name : String) : Prop := name ≠ "" ∧ ∀ c ∈ name.toList, c.isAlphanum = true

instance (name : String) : Decidable (IsName name) :=
  decidable_of_iff (name ≠ "" ∧ name.toList.all Char.isAlphanum = true) (by simp [IsName])

/-- What the writer adds to the text: line feeds, and the marks around mathematics. -/
def additions : List String := ["\n", "\\[", "\\]", "\\(", "\\)"]

/-- What the writer sets in an attribute: nothing but the prefix of a language, the class of
displayed mathematics, the style of a cell and the first number of a list. -/
def Attribute.SetsOwn (a : Attribute) : Prop :=
  a.own = "" ∨ a.name = "class" ∧ a.own = "language-" ∨
    a.shown = none ∧
      ((a.name, a.own) ∈ [("class", "math"), ("style", "text-align: left"),
          ("style", "text-align: center"), ("style", "text-align: right")] ∨
        a.name = "start" ∧ ∃ n : Nat, a.own = toString n)

/-- An attribute that the writer writes. -/
structure Attribute.Proper (a : Attribute) : Prop where
  isName : IsName a.name
  setsOwn : a.SetsOwn

/-- What the writer itself puts into a piece. -/
def Piece.AddsOwn : Piece → Prop
  | .own s => s ∈ additions
  | .opening _ attributes => ∀ a ∈ attributes, a.SetsOwn
  | .text _ | .closing _ => True

/-! ### Reading escaped text -/

open Scanner

theorem leads_text_escapeChar (c : Char) : Leads step .text (escapeChar c) [.char c] .text := by
  unfold escapeChar
  split
  case h_6 hamp hlt _ _ _ => exact Leads.single (by rw [step, if_neg hlt, if_neg hamp])
  all_goals rfl

/-- Escaped text is read as the text that it was. -/
theorem leads_text_escape (s : String) :
    Leads step .text (escape s).toList (s.toList.map .char) .text := by
  rw [escape, String.toList_ofList]
  induction s.toList with
  | nil => exact Leads.refl step .text
  | cons c cs ih => exact (leads_text_escapeChar c).append ih

theorem leads_value_escapeChar (t : OpenTag) (name value : List Char) (c : Char) :
    Leads step (.value t name value) (escapeChar c) [] (.value t name (value ++ [c])) := by
  unfold escapeChar
  split
  case h_6 hamp _ _ hquote _ => exact Leads.single (by rw [step, if_neg hquote, if_neg hamp])
  all_goals rfl

/-- An escaped value is read as the value that it was. -/
theorem leads_value_escape (t : OpenTag) (name value : List Char) (s : String) :
    Leads step (.value t name value) (escape s).toList [] (.value t name (value ++ s.toList)) := by
  rw [escape, String.toList_ofList]
  induction s.toList generalizing value with
  | nil => simpa using Leads.refl step (.value t name value)
  | cons c cs ih => simpa using (leads_value_escapeChar t name value c).append (ih (value ++ [c]))

/-! ### Reading tags -/

theorem ne_of_isAlphanum {c d : Char} (hc : c.isAlphanum = true) (hd : d.isAlphanum = false) :
    c ≠ d := by
  rintro rfl
  rw [hd] at hc
  cases hc

theorem leads_name (name : List Char) {w : List Char} (h : ∀ c ∈ w, c.isAlphanum = true) :
    Leads step (.name name) w [] (.name (name ++ w)) :=
  leads_collect (fun v c hc => by rw [step, if_pos hc]) name h

theorem leads_closing (name : List Char) {w : List Char} (h : ∀ c ∈ w, c.isAlphanum = true) :
    Leads step (.closing name) w [] (.closing (name ++ w)) :=
  leads_collect (fun v c hc => by
    rw [step, if_neg (ne_of_isAlphanum hc (by decide)), if_pos hc]) name h

theorem leads_attribute (t : OpenTag) (name : List Char) {w : List Char}
    (h : ∀ c ∈ w, c.isAlphanum = true) :
    Leads step (.attribute t name) w [] (.attribute t (name ++ w)) :=
  leads_collect (fun v c hc => by
    rw [step, if_neg (ne_of_isAlphanum hc (by decide)), if_pos hc]) name h

/-- A name begins with a letter or a digit. -/
theorem IsName.exists_cons {name : String} (h : IsName name) :
    ∃ c cs, name.toList = c :: cs ∧ c.isAlphanum = true ∧ ∀ d ∈ cs, d.isAlphanum = true := by
  obtain ⟨hne, hall⟩ := h
  cases hname : name.toList with
  | nil => exact absurd (String.toList_eq_nil_iff.1 hname) hne
  | cons c cs =>
    rw [hname] at hall
    exact ⟨c, cs, rfl, hall c List.mem_cons_self, fun d hd => hall d (List.mem_cons_of_mem _ hd)⟩

theorem leads_attr (t : OpenTag) {name : String} (h : IsName name) (value : String) :
    Leads step (.after t) (attr name value).toList []
      (.after (t.add name.toList value.toList)) := by
  obtain ⟨c, cs, hname, hc, hcs⟩ := h.exists_cons
  have hstart : step (.gap t) c = some ([], .attribute t [c]) := by
    rw [step, if_neg (ne_of_isAlphanum hc (by decide)), if_pos hc]
  have hrest : Leads step (.gap t) name.toList [] (.attribute t name.toList) := by
    rw [hname]
    exact Leads.cons hstart (leads_attribute t [c] hcs)
  have hvalue : Leads step (.value t name.toList []) ((escape value).toList ++ ['"']) []
      (.after (t.add name.toList value.toList)) :=
    (leads_value_escape t name.toList [] value).append (Leads.single (by simp [step]))
  have hequals : Leads step (.attribute t name.toList) ['=', '"'] []
      (.value t name.toList []) := rfl
  have hgap : Leads step (.after t) [' '] [] (.gap t) := rfl
  simpa [attr] using hgap.append (hrest.append (hequals.append hvalue))

def openTag (name : String) (attributes : List Attribute) : OpenTag :=
  ⟨name.toList, attributes.map fun a => (a.name, a.value)⟩

theorem leads_writeAttributes (name : String) (read : List Attribute) {attributes : List Attribute}
    (h : ∀ a ∈ attributes, a.Proper) :
    Leads step (.after (openTag name read)) (writeAttributes attributes).toList []
      (.after (openTag name (read ++ attributes))) := by
  induction attributes generalizing read with
  | nil => simpa [writeAttributes] using Leads.refl step (.after (openTag name read))
  | cons a as ih =>
    have ha := leads_attr (openTag name read) (h a List.mem_cons_self).isName a.value
    have hadd : (openTag name read).add a.name.toList a.value.toList =
        openTag name (read ++ [a]) := by simp [openTag, OpenTag.add]
    rw [hadd] at ha
    have hrest := ih (read ++ [a]) fun b hb => h b (List.mem_cons_of_mem _ hb)
    simpa [writeAttributes] using ha.append hrest

/-- Behind the name of a tag the reader goes on as behind an attribute. -/
theorem leads_name_cons {name : List Char} {c : Char} {w : List Char} {ts : List Token} {q : Place}
    (hc : c.isAlphanum = false) :
    Leads step (.name name) (c :: w) ts q ↔ Leads step (.after ⟨name, []⟩) (c :: w) ts q := by
  simp [leads_cons, step, hc]

/-- The text from the name of a tag to its end. -/
theorem leads_openTag {name : String} (hname : IsName name) {attributes : List Attribute}
    (h : ∀ a ∈ attributes, a.Proper) {last : List Char} {w : List Char} {c : Char}
    (hw : (writeAttributes attributes).toList ++ last = c :: w) (hc : c.isAlphanum = false)
    (hlast : Leads step (.after (openTag name attributes)) last
      [(openTag name attributes).token] .text) :
    Leads step .text ('<' :: name.toList ++ (writeAttributes attributes).toList ++ last)
      [(openTag name attributes).token] .text := by
  obtain ⟨d, ds, hd, hdalnum, hds⟩ := hname.exists_cons
  have hread : Leads step .text ('<' :: name.toList) [] (.name name.toList) := by
    have htag : step .tag d = some ([], .name [d]) := by
      rw [step, if_neg (ne_of_isAlphanum hdalnum (by decide)), if_pos hdalnum]
    have hopen : step .text '<' = some ([], .tag) := rfl
    rw [hd]
    exact Leads.cons hopen (Leads.cons htag (leads_name [d] hds))
  have hattributes := (leads_writeAttributes name [] h).append hlast
  rw [hw] at hattributes
  have hrest := (leads_name_cons hc).2 hattributes
  rw [← hw] at hrest
  simpa using hread.append hrest

theorem writeAttributes_cons (a : Attribute) (as : List Attribute) :
    writeAttributes (a :: as) = attr a.name a.value ++ writeAttributes as := rfl

/-- Behind the name stands a blank, or what follows the attributes. -/
theorem exists_writeAttributes_append (attributes : List Attribute) {c : Char}
    (hc : c.isAlphanum = false) (w : List Char) :
    ∃ d v, (writeAttributes attributes).toList ++ c :: w = d :: v ∧ d.isAlphanum = false := by
  cases attributes with
  | nil => exact ⟨c, w, rfl, hc⟩
  | cons a as =>
    simp only [writeAttributes_cons, attr, String.toList_append, List.append_assoc]
    exact ⟨' ', _, rfl, rfl⟩

theorem leads_opening {name : String} {attributes : List Attribute} (hname : IsName name)
    (h : ∀ a ∈ attributes, a.Proper) :
    Leads step .text ("<" ++ name ++ writeAttributes attributes ++ ">").toList
      (Piece.opening name attributes).tokens .text := by
  obtain ⟨c, v, hv, hc⟩ := exists_writeAttributes_append attributes (c := '>') (by decide) []
  simpa [Piece.tokens, OpenTag.token, openTag] using leads_openTag hname h hv hc rfl

theorem leads_void {name : String} {attributes : List Attribute} (hname : IsName name)
    (h : ∀ a ∈ attributes, a.Proper) :
    Leads step .text ("<" ++ name ++ writeAttributes attributes ++ " />").toList
      (Piece.opening name attributes).tokens .text := by
  obtain ⟨c, v, hv, hc⟩ :=
    exists_writeAttributes_append attributes (c := ' ') (by decide) ['/', '>']
  simpa [Piece.tokens, OpenTag.token, openTag] using leads_openTag hname h hv hc rfl

theorem leads_closingTag {name : String} (h : IsName name) :
    Leads step .text ("</" ++ name ++ ">").toList [.closing name] .text := by
  have hopen : Leads step .text ['<', '/'] [] (.closing []) := rfl
  have hend : Leads step (.closing name.toList) ['>'] [.closing name] .text :=
    Leads.single (by simp [step])
  simpa using hopen.append ((leads_closing [] h.2).append hend)

/-! ### Fragments as they are written -/

/-- The fragment made of some pieces. -/
inductive Written : String → List Piece → Prop where
  | empty : Written "" []
  | append {v w : String} {ps qs : List Piece} :
    Written v ps → Written w qs → Written (v ++ w) (ps ++ qs)
  | text (s : String) : Written (escape s) [.text s]
  | own {s : String} : s ∈ additions → Written s [.own s]
  | element {name body : String} {attributes : List Attribute} {ps : List Piece} :
    IsName name → name ∉ voidElements → (∀ a ∈ attributes, a.Proper) → Written body ps →
    Written (element name (writeAttributes attributes) body) (elementPieces name attributes ps)
  | void {name : String} {attributes : List Attribute} :
    IsName name → name ∈ voidElements → (∀ a ∈ attributes, a.Proper) →
    Written ("<" ++ name ++ writeAttributes attributes ++ " />") [.opening name attributes]

namespace Written

variable {w : String} {ps : List Piece}

/-- The pieces of a fragment are read as they were written. -/
theorem leads (h : Written w ps) : Leads step .text w.toList (ps.flatMap Piece.tokens) .text := by
  induction h with
  | empty => exact Leads.refl step .text
  | append _ _ ihv ihw => simpa using ihv.append ihw
  | text s => simpa [Piece.tokens] using leads_text_escape s
  | own hs =>
    simp only [additions, List.mem_cons, List.not_mem_nil, or_false] at hs
    obtain rfl | rfl | rfl | rfl | rfl := hs <;> rfl
  | @element name body attributes ps hname _ hattributes _ ih =>
    simpa [Html.element, elementPieces, Piece.tokens] using
      (leads_opening hname hattributes).append (ih.append (leads_closingTag hname))
  | void hname _ hattributes => simpa using leads_void hname hattributes

theorem read_eq (h : Written w ps) : read w = some (ps.flatMap Piece.tokens) := by
  unfold read
  rw [h.leads]

/-- Every element is closed by its own tag, the last one opened first. -/
theorem balanced (h : Written w ps) :
    Balanced ((ps.flatMap Piece.tokens).filterMap Token.bracket?) := by
  have hchars (s : String) : (s.toList.map Token.char).filterMap Token.bracket? = [] :=
    List.filterMap_eq_nil_iff.2 (by simp [Token.bracket?])
  induction h with
  | empty => exact balanced_nil
  | append _ _ ihv ihw => simpa using ihv.append ihw
  | text s => simpa [Piece.tokens, hchars] using balanced_nil
  | own _ => simpa [Piece.tokens, hchars] using balanced_nil
  | @element name body attributes ps _ hvoid _ _ ih =>
    simpa [elementPieces, Piece.tokens, Token.bracket?, hvoid] using ih.enclose name
  | void _ hvoid _ => simpa [Piece.tokens, Token.bracket?, hvoid] using balanced_nil

theorem addsOwn (h : Written w ps) : ∀ p ∈ ps, p.AddsOwn := by
  induction h with
  | empty => simp
  | append _ _ ihv ihw =>
    intro p hp
    exact (List.mem_append.1 hp).elim (ihv p) (ihw p)
  | text s => simp [Piece.AddsOwn]
  | own hs => simpa [Piece.AddsOwn] using hs
  | element _ _ hattributes _ ih =>
    simp only [elementPieces, List.cons_append, List.forall_mem_cons, List.forall_mem_append,
      List.not_mem_nil, false_implies, implies_true, and_true]
    exact ⟨fun a ha => (hattributes a ha).setsOwn, ih, trivial⟩
  | void _ _ hattributes => simpa [Piece.AddsOwn] using fun a ha => (hattributes a ha).setsOwn

end Written

end LiterateJournal.Html
