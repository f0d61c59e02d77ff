import LiterateJournal.Proofs.Text.Trim

/-!
# Squeezed text

A text is squeezed when the white space at its ends is dropped and each run of white space in it
becomes one space. What counts as white space is a parameter.

## Main definitions

* `squeezeBy` — a squeezed text.
* `KeepsGaps` — a way to rewrite characters that keeps white space apart from the rest.

## Main statements

* `collapseBlanks_trim` — what trimming and collapsing comes to.
* `squeezeBy_flatMap` — rewriting characters before and after a text is squeezed.
-/

namespace LiterateJournal.Text

/-- Each run of characters that `p` holds of becomes one space; `inRun` says that the character
before was one and that the space has been written. -/
def collapseBy (p : Char → Bool) (inRun : Bool) : List Char → List Char
  | [] => []
  | c :: cs =>
    if p c then
      if inRun then collapseBy p true cs else ' ' :: collapseBy p true cs
    else c :: collapseBy p false cs

/-- A text without the characters at its ends that `p` holds of, and with each run of them as one
space. -/
def squeezeBy (p : Char → Bool) (cs : List Char) : List Char :=
  collapseBy p false (dropEndWhile p (cs.dropWhile p))

theorem collapseBlanks_trim (cs : List Char) :
    collapseBlanks (trim cs) = squeezeBy isBlank cs := by
  have hcollapse (inRun : Bool) (ds : List Char) :
      collapseFrom inRun ds = collapseBy isBlank inRun ds := by
    induction ds generalizing inRun with
    | nil => rfl
    | cons d ds ih => simp only [collapseFrom, collapseBy, ih]
  exact hcollapse false _

/-- `g` turns a character that `p` holds of into one that `q` holds of, and the others into
characters that `q` does not hold of. -/
structure KeepsGaps (g : Char → List Char) (p q : Char → Bool) (cs : List Char) : Prop where
  gap : ∀ c ∈ cs, p c = true → ∃ d, g c = [d] ∧ q d = true
  solid : ∀ c ∈ cs, p c = false → g c ≠ [] ∧ ∀ d ∈ g c, q d = false

section

variable {g : Char → List Char} {p q : Char → Bool} {cs ds : List Char}

theorem KeepsGaps.mono (h : KeepsGaps g p q cs) (hsub : ds ⊆ cs) : KeepsGaps g p q ds :=
  ⟨fun c hc => h.gap c (hsub hc), fun c hc => h.solid c (hsub hc)⟩

theorem KeepsGaps.tail {c : Char} (h : KeepsGaps g p q (c :: cs)) : KeepsGaps g p q cs :=
  h.mono (List.subset_cons_self _ _)

theorem KeepsGaps.dropWhile (h : KeepsGaps g p q cs) :
    (cs.flatMap g).dropWhile q = (cs.dropWhile p).flatMap g := by
  induction cs with
  | nil => rfl
  | cons c cs ih =>
    rw [List.flatMap_cons]
    cases hc : p c with
    | true =>
      obtain ⟨d, hd, hq⟩ := h.gap c List.mem_cons_self hc
      rw [hd, List.dropWhile_cons_of_pos hc, List.cons_append, List.nil_append,
        List.dropWhile_cons_of_pos hq, ih h.tail]
    | false =>
      obtain ⟨hne, hq⟩ := h.solid c List.mem_cons_self hc
      obtain ⟨d, ds, hd⟩ := List.exists_cons_of_ne_nil hne
      have hfirst : ¬ q d = true := by simp [hq d (by rw [hd]; exact List.mem_cons_self)]
      rw [List.dropWhile_cons_of_neg (by simp [hc]), List.flatMap_cons, hd, List.cons_append,
        List.dropWhile_cons_of_neg hfirst]

theorem KeepsGaps.ne_nil (h : KeepsGaps g p q cs) {c : Char} (hc : c ∈ cs) : g c ≠ [] := by
  cases hp : p c with
  | true =>
    obtain ⟨d, hd, -⟩ := h.gap c hc hp
    simp [hd]
  | false => exact (h.solid c hc hp).1

theorem dropEndWhile_append_solid (hq : ∀ d ∈ ds, q d = false) :
    dropEndWhile q (ds ++ cs) = ds ++ dropEndWhile q cs := by
  induction ds with
  | nil => rfl
  | cons d ds ih =>
    obtain ⟨hd, hds⟩ := List.forall_mem_cons.1 hq
    rw [List.cons_append, List.cons_append, dropEndWhile, ih hds, hd]
    cases ds ++ dropEndWhile q cs <;> rfl

theorem dropEndWhile_subset (p : Char → Bool) (cs : List Char) : dropEndWhile p cs ⊆ cs := by
  obtain ⟨s, hs, -⟩ := exists_dropEndWhile_append p cs
  intro c hc
  rw [hs]
  exact List.mem_append_left _ hc

theorem KeepsGaps.dropEndWhile (h : KeepsGaps g p q cs) :
    Text.dropEndWhile q (cs.flatMap g) = (Text.dropEndWhile p cs).flatMap g := by
  induction cs with
  | nil => rfl
  | cons c cs ih =>
    rw [List.flatMap_cons, Text.dropEndWhile]
    cases hc : p c with
    | true =>
      obtain ⟨d, hd, hq⟩ := h.gap c List.mem_cons_self hc
      rw [hd, List.cons_append, List.nil_append, Text.dropEndWhile, ih h.tail]
      cases hrest : Text.dropEndWhile p cs with
      | nil => simp [hq]
      | cons e es =>
        have he : e ∈ cs := dropEndWhile_subset p cs (by rw [hrest]; exact List.mem_cons_self)
        obtain ⟨x, xs, hx⟩ := List.exists_cons_of_ne_nil (h.tail.ne_nil he)
        simp [hd, hx]
    | false =>
      rw [dropEndWhile_append_solid (h.solid c List.mem_cons_self hc).2, ih h.tail]
      cases Text.dropEndWhile p cs <;> simp

theorem collapseBy_append_solid {inRun : Bool} (hne : ds ≠ []) (hq : ∀ d ∈ ds, q d = false) :
    collapseBy q inRun (ds ++ cs) = ds ++ collapseBy q false cs := by
  induction ds generalizing inRun with
  | nil => exact absurd rfl hne
  | cons d ds ih =>
    obtain ⟨hd, hds⟩ := List.forall_mem_cons.1 hq
    simp only [List.cons_append, collapseBy, hd, Bool.false_eq_true, if_false]
    cases ds with
    | nil => rfl
    | cons e es => rw [ih (List.cons_ne_nil _ _) hds]

theorem KeepsGaps.collapseBy (h : KeepsGaps g p q cs) (hspace : g ' ' = [' ']) (inRun : Bool) :
    Text.collapseBy q inRun (cs.flatMap g) = (Text.collapseBy p inRun cs).flatMap g := by
  induction cs generalizing inRun with
  | nil => rfl
  | cons c cs ih =>
    rw [List.flatMap_cons]
    cases hc : p c with
    | true =>
      obtain ⟨d, hd, hq⟩ := h.gap c List.mem_cons_self hc
      cases inRun <;> simp [Text.collapseBy, hc, hd, hq, hspace, ih h.tail]
    | false =>
      obtain ⟨hne, hq⟩ := h.solid c List.mem_cons_self hc
      rw [collapseBy_append_solid hne hq, ih h.tail]
      simp [Text.collapseBy, hc]

theorem dropWhile_subset (p : Char → Bool) (cs : List Char) : cs.dropWhile p ⊆ cs :=
  (List.dropWhile_sublist p).subset

/-- Rewriting the characters of a text before or after it is squeezed comes to the same. -/
theorem squeezeBy_flatMap (h : KeepsGaps g p q cs) (hspace : g ' ' = [' ']) :
    squeezeBy q (cs.flatMap g) = (squeezeBy p cs).flatMap g := by
  have hstart := h.mono (dropWhile_subset p cs)
  rw [squeezeBy, squeezeBy, h.dropWhile, hstart.dropEndWhile,
    (hstart.mono (dropEndWhile_subset p _)).collapseBy hspace]

/-- Only the characters of a text matter to how it is squeezed. -/
theorem squeezeBy_congr (h : ∀ c ∈ cs, p c = q c) : squeezeBy p cs = squeezeBy q cs := by
  have hkeeps : KeepsGaps (fun c => [c]) p q cs :=
    ⟨fun c hc hp => ⟨c, rfl, h c hc ▸ hp⟩, fun c hc hp => ⟨by simp, by simp [← h c hc, hp]⟩⟩
  simpa using (squeezeBy_flatMap hkeeps rfl).symm

/-- A squeezed text is made of spaces and of the text's other characters. -/
theorem mem_squeezeBy {c : Char} (h : c ∈ squeezeBy p cs) : c = ' ' ∨ c ∈ cs ∧ p c = false := by
  have hcollapse : ∀ (inRun : Bool) (ds : List Char), c ∈ collapseBy p inRun ds →
      c = ' ' ∨ c ∈ ds ∧ p c = false := by
    intro inRun ds hc
    induction ds generalizing inRun with
    | nil => cases hc
    | cons d ds ih =>
      simp only [collapseBy] at hc
      grind
  exact (hcollapse _ _ h).imp_right fun ⟨hc, hp⟩ =>
    ⟨dropWhile_subset p cs (dropEndWhile_subset p _ hc), hp⟩

/-- No other character is lost. -/
theorem mem_squeezeBy_of_solid {c : Char} (hc : c ∈ cs) (hp : p c = false) :
    c ∈ squeezeBy p cs := by
  have hstart : c ∈ cs.dropWhile p := by
    induction cs with
    | nil => cases hc
    | cons d cs ih =>
      rw [List.dropWhile_cons]
      grind
  have hend : ∀ ds, c ∈ ds → c ∈ dropEndWhile p ds := by
    intro ds hds
    induction ds with
    | nil => cases hds
    | cons d ds ih =>
      rw [dropEndWhile]
      grind
  have hcollapse : ∀ (inRun : Bool) (ds : List Char), c ∈ ds → c ∈ collapseBy p inRun ds := by
    intro inRun ds hds
    induction ds generalizing inRun with
    | nil => cases hds
    | cons d ds ih =>
      rw [collapseBy]
      grind
  exact hcollapse _ _ (hend _ hstart)

end

end LiterateJournal.Text
