import LiterateJournal.Document.Links
import LiterateJournal.Markdown.Label
import LiterateJournal.Proofs.Text.Case
import LiterateJournal.Proofs.Text.Squeeze

/-!
# Labels that name the same definition

A table of definitions compares the normal forms of labels, and the reader of a Markdown text
compares labels by their case folding, after their white space has been squeezed. The two agree on
labels whose white space is such as separates words in a text, and whose normal form is not changed
by case folding.

## Main definitions

* `LabelsMatch` — two labels match as link labels.
* `PlainLabel` — a label on which the two agree.

## Main statements

* `normalizeLabel_eq_iff` — plain labels have the same normal form just if they match.
* `plainLabel_of_isPlainAscii` — labels of ASCII characters are plain.
* `plainLabel_iff` — no other labels can be compared either way.
-/

namespace LiterateJournal

open Text

def isGap (c : Char) : Bool := c = ' ' || c = '\t' || c = '\n' || c = '\r'

/-- Two labels match as link labels: without the gaps at their ends, with each run of gaps as one
space, and with their case folded, they are equal. -/
def LabelsMatch (a b : String) : Prop :=
  Markdown.Label.matches (squeezeBy isGap a.toList) (squeezeBy isGap b.toList) = true

/-- All white space of a label is gaps. -/
def HasGapsOnly (a : String) : Prop := ∀ c ∈ a.toList, isBlank c = true → isGap c = true

/-- Case folding does not change the normal form of a label. -/
def IsCaseStable (a : String) : Prop :=
  normalizeLabel (String.ofList (fold a.toList)) = normalizeLabel a

/-- An ASCII character that is no white space other than a gap. -/
def isPlainAscii (c : Char) : Bool := c.toNat < 128 && (!isBlank c || isGap c)

/-- A label whose white space is gaps and whose normal form is not changed by case folding. -/
structure PlainLabel (a : String) : Prop where
  gaps : HasGapsOnly a
  case : IsCaseStable a

section

variable {a b : String}

theorem isBlank_of_isGap {c : Char} (h : isGap c = true) : isBlank c = true := by
  simp only [isGap, Bool.or_eq_true, decide_eq_true_eq] at h
  obtain ((rfl | rfl) | rfl) | rfl := h <;> rfl

theorem labelsMatch_iff :
    LabelsMatch a b ↔ fold (squeezeBy isGap a.toList) = fold (squeezeBy isGap b.toList) := by
  simp [LabelsMatch, Markdown.Label.matches]

theorem normalizeLabel_eq_lower (h : HasGapsOnly a) :
    normalizeLabel a = String.ofList (lower (squeezeBy isGap a.toList)) := by
  have hsame : ∀ c ∈ a.toList, isBlank c = isGap c := by
    intro c hc
    rw [Bool.eq_iff_iff]
    exact ⟨h c hc, isBlank_of_isGap⟩
  rw [normalizeLabel, collapseBlanks_trim, squeezeBy_congr hsame]

/-- Folding keeps the gaps of a text apart from its other characters. -/
theorem keepsGaps_foldChar (cs : List Char) : KeepsGaps foldChar isGap isGap cs where
  gap c _ hc := ⟨c, foldChar_of_isBlank (isBlank_of_isGap hc), hc⟩
  solid c _ hc := by
    refine ⟨foldChar_ne_nil c, fun d hd => ?_⟩
    rw [Bool.eq_false_iff]
    intro hgap
    rw [isBlank_of_mem_foldChar hd (isBlank_of_isGap hgap), hc] at hgap
    cases hgap

/-- Folding the case of a text before or after it is squeezed comes to the same. -/
theorem squeezeBy_fold (cs : List Char) :
    squeezeBy isGap (fold cs) = fold (squeezeBy isGap cs) :=
  squeezeBy_flatMap (keepsGaps_foldChar cs) (by decide)

theorem hasGapsOnly_fold (h : HasGapsOnly a) : HasGapsOnly (String.ofList (fold a.toList)) := by
  intro d hd hblank
  rw [String.toList_ofList] at hd
  obtain ⟨c, hc, hdc⟩ := List.mem_flatMap.1 hd
  obtain rfl := isBlank_of_mem_foldChar hdc hblank
  exact h _ hc hblank

/-- Labels of the same normal form match. -/
theorem labelsMatch_of_normalizeLabel_eq (ha : HasGapsOnly a) (hb : HasGapsOnly b)
    (h : normalizeLabel a = normalizeLabel b) : LabelsMatch a b := by
  rw [normalizeLabel_eq_lower ha, normalizeLabel_eq_lower hb, String.ofList_inj] at h
  rw [labelsMatch_iff, ← fold_lower, h, fold_lower]

/-- Plain labels that match have the same normal form. -/
theorem normalizeLabel_eq_of_labelsMatch (ha : PlainLabel a) (hb : PlainLabel b)
    (h : LabelsMatch a b) : normalizeLabel a = normalizeLabel b := by
  have hfolded {c : String} (hc : PlainLabel c) :
      normalizeLabel c = String.ofList (lower (fold (squeezeBy isGap c.toList))) := by
    rw [← hc.case, normalizeLabel_eq_lower (hasGapsOnly_fold hc.gaps), String.toList_ofList,
      squeezeBy_fold]
  rw [hfolded ha, hfolded hb, labelsMatch_iff.1 h]

/-- Plain labels have the same normal form just if they match. -/
theorem normalizeLabel_eq_iff (ha : PlainLabel a) (hb : PlainLabel b) :
    normalizeLabel a = normalizeLabel b ↔ LabelsMatch a b :=
  ⟨labelsMatch_of_normalizeLabel_eq ha.gaps hb.gaps, normalizeLabel_eq_of_labelsMatch ha hb⟩

/-- Labels of ASCII characters are plain, if their white space is gaps. -/
theorem plainLabel_of_isPlainAscii (h : a.toList.all isPlainAscii = true) : PlainLabel a := by
  simp only [List.all_eq_true, isPlainAscii, Bool.and_eq_true, decide_eq_true_eq, Bool.or_eq_true,
    Bool.not_eq_true'] at h
  have hgaps : HasGapsOnly a := by
    intro c hc hblank
    obtain ⟨-, hsolid | hgap⟩ := h c hc
    · exact absurd hblank (by simp [hsolid])
    · exact hgap
  have hascii : ∀ c ∈ squeezeBy isGap a.toList, c.toNat < 128 := by
    intro c hc
    obtain rfl | ⟨hc, -⟩ := mem_squeezeBy hc
    · decide
    · exact (h c hc).1
  refine ⟨hgaps, ?_⟩
  rw [IsCaseStable, normalizeLabel_eq_lower (hasGapsOnly_fold hgaps), normalizeLabel_eq_lower hgaps,
    String.toList_ofList, squeezeBy_fold, lower_eq_fold_of_ascii (ascii_fold hascii), fold_fold,
    lower_eq_fold_of_ascii hascii]

/-! ### Labels that are not plain -/

theorem plainLabel_fold (h : HasGapsOnly a) : PlainLabel (String.ofList (fold a.toList)) where
  gaps := hasGapsOnly_fold h
  case := by rw [IsCaseStable, String.toList_ofList, fold_fold]

theorem labelsMatch_fold (a : String) : LabelsMatch a (String.ofList (fold a.toList)) := by
  rw [labelsMatch_iff, String.toList_ofList, squeezeBy_fold, fold_fold]

def withSpaces (a : String) : String :=
  String.ofList (a.toList.flatMap fun c => [if isBlank c then ' ' else c])

theorem hasGapsOnly_withSpaces (a : String) : HasGapsOnly (withSpaces a) := by
  intro d hd hblank
  rw [withSpaces, String.toList_ofList] at hd
  obtain ⟨c, -, hdc⟩ := List.mem_flatMap.1 hd
  rw [List.mem_singleton] at hdc
  split at hdc
  · rw [hdc]
    rfl
  · rename_i hc
    exact absurd (hdc ▸ hblank) hc

theorem normalizeLabel_withSpaces (a : String) :
    normalizeLabel (withSpaces a) = normalizeLabel a := by
  have hkeeps : KeepsGaps (fun c => [if isBlank c then ' ' else c]) isBlank isBlank a.toList :=
    ⟨fun c _ hc => ⟨' ', by simp [hc], rfl⟩, fun c _ hc => by simp [hc]⟩
  have hsame : (squeezeBy isBlank a.toList).flatMap (fun c => [if isBlank c then ' ' else c]) =
      squeezeBy isBlank a.toList := by
    conv_rhs => rw [← List.flatMap_singleton' (squeezeBy isBlank a.toList)]
    refine List.flatMap_congr fun c hc => ?_
    obtain rfl | ⟨-, hc⟩ := mem_squeezeBy hc
    · rfl
    · simp [hc]
  rw [normalizeLabel, normalizeLabel, collapseBlanks_trim, collapseBlanks_trim, withSpaces,
    String.toList_ofList, squeezeBy_flatMap hkeeps rfl, hsame]

/-- White space that is no gap keeps a label from matching one of gaps only. -/
theorem not_labelsMatch (ha : ¬ HasGapsOnly a) (hb : HasGapsOnly b) : ¬ LabelsMatch a b := by
  simp only [HasGapsOnly, not_forall] at ha
  obtain ⟨c, hc, hblank, hgap⟩ := ha
  rw [Bool.not_eq_true] at hgap
  rw [labelsMatch_iff]
  intro h
  have hmem : c ∈ fold (squeezeBy isGap b.toList) := by
    rw [← h]
    refine List.mem_flatMap.2 ⟨c, mem_squeezeBy_of_solid hc hgap, ?_⟩
    rw [foldChar_of_isBlank hblank]
    exact List.mem_singleton_self c
  obtain ⟨d, hd, hcd⟩ := List.mem_flatMap.1 hmem
  obtain rfl := isBlank_of_mem_foldChar hcd hblank
  obtain rfl | ⟨hd, -⟩ := mem_squeezeBy hd
  · cases hgap
  · rw [hb c hd hblank] at hgap
    cases hgap

/-- A label is plain just if it matches all labels of its normal form whose white space is gaps, and
has the normal form of all plain labels that it matches. -/
theorem plainLabel_iff (a : String) : PlainLabel a ↔
    (∀ b, HasGapsOnly b → normalizeLabel a = normalizeLabel b → LabelsMatch a b) ∧
      ∀ b, PlainLabel b → LabelsMatch a b → normalizeLabel a = normalizeLabel b := by
  constructor
  · intro ha
    exact ⟨fun b hb => labelsMatch_of_normalizeLabel_eq ha.gaps hb,
      fun b => normalizeLabel_eq_of_labelsMatch ha⟩
  · rintro ⟨hmatch, hsame⟩
    have hgaps : HasGapsOnly a := by
      by_contra hgaps
      exact not_labelsMatch hgaps (hasGapsOnly_withSpaces a)
        (hmatch _ (hasGapsOnly_withSpaces a) (normalizeLabel_withSpaces a).symm)
    exact ⟨hgaps, (hsame _ (plainLabel_fold hgaps) (labelsMatch_fold a)).symm⟩

end

end LiterateJournal
