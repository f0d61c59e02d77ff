import LiterateJournal.Proofs.Document.Labels
import LiterateJournal.Proofs.Markdown.Definitions
import LiterateJournal.Proofs.Markdown.Keys
import LiterateJournal.Proofs.Markdown.References

/-!
# References find their definitions

The reader of a text decides by matching which labels are defined, and keeps the labels. The link
table finds the definitions again by the normal forms of their labels. Where all labels are plain
the table answers what the reader has found, in whatever order it is filled.

## Main definitions

* `SqueezedLabel` — a plain label whose gaps are squeezed already.

## Main statements

* `agreeOn_of_squeezed` — squeezed labels are told apart alike by normal forms and by matching.
* `links_agree_on_plain_labels` — labels, references and the order of definitions in one.
-/

namespace LiterateJournal

open Markdown

/-- A plain label as the reader of a text leaves it, with its gaps squeezed. Only a gap after a
backslash is left as it is. -/
structure SqueezedLabel (label : List Char) : Prop where
  plain : PlainLabel (String.ofList label)
  squeezed : Text.squeezeBy isGap label = label

section

variable {definitions : List Definition}

theorem squeezedLabel_of_isPlainAscii {label : List Char} (h : label.all isPlainAscii = true)
    (hsqueezed : Text.squeezeBy isGap label = label) : SqueezedLabel label :=
  ⟨plainLabel_of_isPlainAscii (by rwa [String.toList_ofList]), hsqueezed⟩

theorem normalizeLabel_eq_iff_matches {a b : List Char} (ha : SqueezedLabel a)
    (hb : SqueezedLabel b) :
    normalizeLabel (String.ofList a) = normalizeLabel (String.ofList b) ↔
      Label.matches a b = true := by
  rw [normalizeLabel_eq_iff ha.plain hb.plain, LabelsMatch, String.toList_ofList,
    String.toList_ofList, ha.squeezed, hb.squeezed]

/-- Normal forms and matching agree on squeezed labels. -/
theorem agreeOn_of_squeezed (h : ∀ d ∈ definitions, SqueezedLabel d.label) {label : List Char}
    (hlabel : SqueezedLabel label) : AgreeOn definitions label :=
  fun d hd => normalizeLabel_eq_iff_matches (h d hd) hlabel

/-- The order of definitions of squeezed labels is of no account. -/
theorem linksOf_perm_of_squeezed {cs : List Char}
    (h : ∀ d ∈ (Outline.ofText cs).definitions, SqueezedLabel d.label) {ds : List Definition}
    (hperm : ds.Perm (Outline.ofText cs).definitions) :
    linksOf ds = linksOf (Outline.ofText cs).definitions :=
  linksOf_perm (Outline.distinct_ofText cs) (fun d hd => agreeOn_of_squeezed h (h d hd)) hperm

/-- What the reader of a text has found for a reference is what the table answers. -/
theorem get?_linksOf_of_refers {cs : List Char}
    (h : ∀ d ∈ (Outline.ofText cs).definitions, SqueezedLabel d.label) {form : LinkForm}
    {destination title key : String} (hkey : SqueezedLabel key.toList)
    (hrefers : Refers (Outline.ofText cs).events form destination title key) :
    (linksOf (Outline.ofText cs).definitions).get? key =
      if form = .undefined then none else some ⟨destination, givenTitle? title⟩ := by
  have hget := get?_linksOf_eq_find? (Outline.distinct_ofText cs)
    (fun d hd => agreeOn_of_squeezed h (h d hd)) (agreeOn_of_squeezed h hkey)
  rw [String.ofList_toList] at hget
  rw [hget]
  obtain ⟨hform, hevent⟩ := hrefers
  have hfollows : form.Follows (Outline.ofText cs).definitions destination title key := by
    obtain hevent | hevent := hevent <;> exact Outline.follows_of_mem_events hevent
  cases form with
  | full | collapsed | shortcut =>
    obtain ⟨d, hd, rfl, rfl⟩ := hfollows
    rw [hd]
    rfl
  | undefined =>
    rw [show List.find? _ _ = none from hfollows]
    rfl
  | inline | address | mail => cases hform

end

/-- Plain labels have the same normal form just if they match, and no other labels can be compared
either way. In a text whose definitions have plain labels their order is of no account, and each
link and image by a plain label finds the target that the reader has found, if it has found one. -/
theorem links_agree_on_plain_labels (a b text : String) :
    (PlainLabel a → PlainLabel b → (normalizeLabel a = normalizeLabel b ↔ LabelsMatch a b)) ∧
    (PlainLabel a ↔
      (∀ c, HasGapsOnly c → normalizeLabel a = normalizeLabel c → LabelsMatch a c) ∧
        ∀ c, PlainLabel c → LabelsMatch a c → normalizeLabel a = normalizeLabel c) ∧
    ((∀ d ∈ (Outline.ofText text.toList).definitions, SqueezedLabel d.label) →
      (∀ ds, ds.Perm (Outline.ofText text.toList).definitions →
        linksOf ds = (parseMarkdown text).2) ∧
      ∀ s ∈ spansOf (parseMarkdown text).1, ∀ key, s.key? = some key → SqueezedLabel key.toList →
        ∃ form destination title,
          Refers (Outline.ofText text.toList).events form destination title key ∧
          (parseMarkdown text).2.get? key =
            if form = .undefined then none else some ⟨destination, givenTitle? title⟩) := by
  refine ⟨normalizeLabel_eq_iff, plainLabel_iff a, fun h =>
    ⟨fun ds hperm => linksOf_perm_of_squeezed h hperm, fun s hs key hkey hsqueezed => ?_⟩⟩
  obtain ⟨form, destination, title, hrefers⟩ := mentioned_of_mem_blocksOfEvents hs hkey
  exact ⟨form, destination, title, hrefers, get?_linksOf_of_refers h hsqueezed hrefers⟩

/-- Two definitions, and a reference in capitals that is broken across lines. -/
def brokenReference : String := "[Foo bar]: /u\n[b]: /v\n\n[x][FOO\nBAR]\n"

theorem squeezedLabel_brokenReference :
    ∀ d ∈ (Outline.ofText brokenReference.toList).definitions, SqueezedLabel d.label := by
  have hlabels : (Outline.ofText brokenReference.toList).definitions.map Definition.label =
      ["Foo bar".toList, "b".toList] := by decide +kernel
  rw [← List.forall_mem_map, hlabels]
  refine List.forall_mem_cons.2 ⟨?_, List.forall_mem_singleton.2 ?_⟩ <;>
    exact squeezedLabel_of_isPlainAscii (by decide) (by decide)

theorem links_agree_on_brokenReference :
    linksOf (Outline.ofText brokenReference.toList).definitions.reverse =
        (parseMarkdown brokenReference).2 ∧
      (normalizeLabel "Foo bar" = normalizeLabel "foo\t Bar" ↔ LabelsMatch "Foo bar" "foo\t Bar") ∧
      ∃ form destination title,
        Refers (Outline.ofText brokenReference.toList).events form destination title "FOO BAR" ∧
        (parseMarkdown brokenReference).2.get? "FOO BAR" =
          if form = .undefined then none else some ⟨destination, givenTitle? title⟩ := by
  obtain ⟨hlabels, -, htext⟩ :=
    links_agree_on_plain_labels "Foo bar" "foo\t Bar" brokenReference
  obtain ⟨horder, hfound⟩ := htext squeezedLabel_brokenReference
  refine ⟨horder _ (List.reverse_perm _), hlabels ?_ ?_, ?_⟩
  · exact plainLabel_of_isPlainAscii (by decide)
  · exact plainLabel_of_isPlainAscii (by decide)
  · have hkeys : "FOO BAR" ∈ (spansOf (parseMarkdown brokenReference).1).filterMap Span.key? := by
      decide +kernel
    obtain ⟨s, hs, hkey⟩ := List.mem_filterMap.1 hkeys
    exact hfound s hs _ hkey (squeezedLabel_of_isPlainAscii (by decide) (by decide))

/-- Neither way holds of all labels: folding turns a sharp s into two letters, which lower case does
not, and a no-break space is white space to the table alone. A text may so define what its table
does not find. -/
theorem not_links_agree_on_sharp_s :
    (LabelsMatch "ß" "SS" ∧ normalizeLabel "ß" ≠ normalizeLabel "SS") ∧
    (¬ LabelsMatch "a\u00a0b" "a b" ∧ normalizeLabel "a\u00a0b" = normalizeLabel "a b") ∧
    Refers (Outline.ofText "[x][SS]\n\n[ß]: /u\n".toList).events .full "/u" "" "SS" ∧
      (parseMarkdown "[x][SS]\n\n[ß]: /u\n").2.get? "SS" = none := by
  unfold LabelsMatch
  refine ⟨⟨?_, ?_⟩, ⟨?_, ?_⟩, ⟨rfl, .inl (List.mem_of_getElem? (i := 1) ?_)⟩, ?_⟩ <;>
    decide +kernel

end LiterateJournal
