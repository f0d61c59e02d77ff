import LiterateJournal.Markdown.Inline
import LiterateJournal.Markdown.Reader
import LiterateJournal.Proofs.Text.SortedTable
import Mathlib.Data.List.Induction
import Mathlib.Data.List.Pairwise

/-!
# The link table of a text

The definitions of a text are put in its link table one after another, and of several with the same
normal form the last one stays. The order counts for nothing just if no definition is lost in this
way, and then the table answers as a search through the definitions does.

## Main definitions

* `Definition.target` — where a definition leads.
* `AllKept` — each definition is found under its own label.
* `Distinct` — no two definitions are of labels that match.
* `AgreeOn` — normal forms tell the same of some definitions and a label as matching does.

## Main statements

* `linksOf_perm_iff`, `parseMarkdown_order` — when the order of the definitions is of no account.
* `get?_linksOf_eq_find?`, `linksOf_perm` — the table where normal forms and matching agree.
-/

namespace LiterateJournal.Markdown

/-- Where a definition leads. -/
def Definition.target (d : Definition) : LinkTarget :=
  ⟨String.ofList d.destination, givenTitle? (String.ofList d.title)⟩

def Definition.key (d : Definition) : String := normalizeLabel (String.ofList d.label)

/-- Each definition is found under its own label, so that none is lost. -/
def AllKept (definitions : List Definition) : Prop :=
  ∀ d ∈ definitions, (linksOf definitions).get? (String.ofList d.label) = some d.target

instance (definitions : List Definition) : Decidable (AllKept definitions) :=
  inferInstanceAs (Decidable (∀ d ∈ definitions, _ = _))

section

variable {definitions ds : List Definition}

theorem get?_linksOf_concat (ds : List Definition) (d : Definition) (label : String) :
    (linksOf (ds ++ [d])).get? label =
      if normalizeLabel label = d.key then some d.target else (linksOf ds).get? label := by
  simp only [linksOf, List.foldl_concat, LinkTable.get?, LinkTable.insert, SortedTable.get?_insert]
  rfl

theorem get?_linksOf_eq_none_iff {label : String} :
    (linksOf ds).get? label = none ↔ ∀ d ∈ ds, normalizeLabel label ≠ d.key := by
  induction ds using List.reverseRecOn with
  | nil => exact iff_of_true rfl (by simp)
  | append_singleton ds d ih =>
    rw [get?_linksOf_concat]
    grind

theorem get?_linksOf_arrange_eq_none_iff (order : DefinitionOrder) {label : String} :
    (linksOf (order.arrange ds)).get? label = none ↔ ∀ d ∈ ds, normalizeLabel label ≠ d.key := by
  simp only [get?_linksOf_eq_none_iff, (order.perm ds).mem_iff]

theorem exists_of_get?_linksOf {label : String} {target : LinkTarget}
    (h : (linksOf ds).get? label = some target) :
    ∃ d ∈ ds, normalizeLabel label = d.key ∧ d.target = target := by
  induction ds using List.reverseRecOn with
  | nil => cases h
  | append_singleton ds d ih =>
    rw [get?_linksOf_concat] at h
    grind

/-- Lookups tell labels apart by their normal forms only. -/
theorem get?_linksOf_congr {a b : String} (h : normalizeLabel a = normalizeLabel b) :
    (linksOf ds).get? a = (linksOf ds).get? b := by
  simp only [LinkTable.get?, h]

/-- The order of some definitions is of no account just if none is lost. -/
theorem linksOf_perm_iff :
    (∀ ds, ds.Perm definitions → linksOf ds = linksOf definitions) ↔ AllKept definitions := by
  constructor
  · intro h d hd
    -- the definition may come last, and then no other one replaces it
    obtain ⟨before, after, rfl⟩ := List.append_of_mem hd
    have hlast : (before ++ after ++ [d]).Perm (before ++ d :: after) := by
      rw [List.append_assoc]
      exact (List.perm_append_singleton d after).append_left before
    rw [← h _ hlast, get?_linksOf_concat]
    exact if_pos rfl
  · intro h ds hperm
    refine hperm.foldl_eq' (fun d hd e he table => ?_) ∅
    have hsame (hkey : d.key = e.key) : d.target = e.target := by
      have hd := h d (hperm.subset hd)
      rw [get?_linksOf_congr hkey, h e (hperm.subset he)] at hd
      exact (Option.some.inj hd).symm
    exact congrArg LinkTable.mk (SortedTable.insert_comm table.entries hsame)

/-- In a text that loses no definition the order of the definitions is of no account. -/
theorem parseMarkdown_order {text : String}
    (h : AllKept (Outline.ofText text.toList).definitions) (order : DefinitionOrder) :
    parseMarkdown text order = parseMarkdown text := by
  rw [parseMarkdown, parseMarkdown, linksOf_perm_iff.2 h _ (order.perm _)]
  rfl

/-! ### Lookups as a search -/

/-- No two definitions are of labels that match. -/
def Distinct (definitions : List Definition) : Prop :=
  definitions.Pairwise fun d e => Label.matches d.label e.label = false

/-- Labels of some definitions have the normal form of a label just if they match it. -/
def AgreeOn (definitions : List Definition) (label : List Char) : Prop :=
  ∀ d ∈ definitions,
    d.key = normalizeLabel (String.ofList label) ↔ Label.matches d.label label = true

theorem Label.matches_self (a : List Char) : Label.matches a a = true := by
  simp [Label.matches]

theorem Label.matches_comm (a b : List Char) : Label.matches a b = Label.matches b a := by
  rw [Label.matches, Label.matches, Bool.beq_comm]

theorem Distinct.eq_of_matches (h : Distinct definitions) {d e : Definition}
    (hd : d ∈ definitions) (he : e ∈ definitions) (hm : Label.matches d.label e.label = true) :
    d = e := by
  by_contra hne
  have : Std.Symm fun d e : Definition => Label.matches d.label e.label = false :=
    ⟨fun d e hde => (Label.matches_comm e.label d.label).trans hde⟩
  rw [h.forall hd he hne] at hm
  cases hm

theorem mem_of_find?_matches {label : List Char} {d : Definition}
    (h : (definitions.find? fun d => Label.matches d.label label) = some d) :
    d ∈ definitions ∧ Label.matches d.label label = true :=
  ⟨List.mem_of_find?_eq_some h, by simpa using List.find?_some h⟩

/-- Where normal forms agree with matching, a lookup finds what a search finds. -/
theorem get?_linksOf_eq_find? (h : Distinct definitions)
    (hdefs : ∀ d ∈ definitions, AgreeOn definitions d.label) {label : List Char}
    (hlabel : AgreeOn definitions label) :
    (linksOf definitions).get? (String.ofList label) =
      (definitions.find? fun d => Label.matches d.label label).map Definition.target := by
  cases hfind : definitions.find? fun d => Label.matches d.label label with
  | none =>
    rw [List.find?_eq_none] at hfind
    refine get?_linksOf_eq_none_iff.2 fun d hd hkey => hfind d hd ((hlabel d hd).1 hkey.symm)
  | some d =>
    obtain ⟨hd, hmatches⟩ := mem_of_find?_matches hfind
    have hkey := (hlabel d hd).2 hmatches
    cases hget : (linksOf definitions).get? (String.ofList label) with
    | none => exact absurd hkey.symm (get?_linksOf_eq_none_iff.1 hget d hd)
    | some target =>
      obtain ⟨e, he, hekey, rfl⟩ := exists_of_get?_linksOf hget
      rw [h.eq_of_matches he hd ((hdefs d hd e he).1 (hekey.symm.trans hkey.symm))]
      rfl

/-- Where normal forms agree with matching, the order of the definitions is of no account. -/
theorem linksOf_perm (h : Distinct definitions)
    (hdefs : ∀ d ∈ definitions, AgreeOn definitions d.label) (hperm : ds.Perm definitions) :
    linksOf ds = linksOf definitions := by
  refine linksOf_perm_iff.2 (fun d hd => ?_) ds hperm
  rw [get?_linksOf_eq_find? h hdefs (hdefs d hd)]
  cases hfind : definitions.find? fun e => Label.matches e.label d.label with
  | none => exact absurd (Label.matches_self d.label) (List.find?_eq_none.1 hfind d hd)
  | some e =>
    obtain ⟨he, hmatches⟩ := mem_of_find?_matches hfind
    rw [h.eq_of_matches he hd hmatches]
    rfl

end

end LiterateJournal.Markdown
