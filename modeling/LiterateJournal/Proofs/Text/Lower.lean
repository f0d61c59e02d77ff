import LiterateJournal.Proofs.Text.Case
import LiterateJournal.Proofs.Text.Words

/-!
# Text in lower case

Lower-casing changes no character that it has written. White space stays as it is, and nothing is
carried across it: whether a capital sigma ends a word is seen in the word, so that a text is
lower-cased word by word. The case of ASCII letters is of no account.

## Main definitions

* `lowerSources`, `lowerTargets` — the characters that lower-casing changes, and those it changes
  them to.
* `LowerRunData` — what is used of the Unicode data.

## Main statements

* `lower_lower` — lower-casing twice.
* `lower_joinWith` — a text is lower-cased word by word.
* `lower_map_toLower` — ASCII letters in any case.
-/

namespace LiterateJournal.Text

def lowerSources : List Nat := 0x130 :: lowerRuns.flatMap CaseRun.sources

def lowerTargets : List Nat := 105 :: 0x307 :: 0x3C2 :: lowerRuns.flatMap CaseRun.targets

def asciiCased : List (Nat × Nat) := [(65, 90), (97, 122)]

/-- The ASCII characters that are ignored where the case of the next letter counts. -/
def asciiIgnorable : List (Nat × Nat) := [(39, 39), (46, 46), (58, 58), (94, 94), (96, 96)]

/-- What is used of the Unicode data for lower-casing on its own. -/
structure LowerRunData : Prop where
  isValidChar : ∀ n ∈ lowerTargets, n.isValidChar
  targets_sources : bitSet lowerTargets &&& bitSet lowerSources = 0
  blank_sources : bitSet blankCodes &&& bitSet lowerSources = 0
  blank_targets : bitSet blankCodes &&& bitSet lowerTargets = 0
  sigma : 0x3A3 ∈ lowerSources ∧ 0x3C3 ∈ lowerTargets
  ascii : ∀ n < 128, (Char.ofNat n).toLower = Char.ofNat n ∨
    n ∈ lowerSources ∧ (Char.ofNat n).toLower.toNat ∈ lowerTargets
  cased : casedRanges.filter (fun r => r.1 < 128) = asciiCased
  ignorable : caseIgnorableRanges.filter (fun r => r.1 < 128) = asciiIgnorable
  blankCase : ∀ n ∈ blankCodes, inRanges casedRanges n = false ∧
    inRanges caseIgnorableRanges n = false

theorem lowerRunData : LowerRunData where
  isValidChar := by decide +kernel
  targets_sources := by decide +kernel
  blank_sources := by decide +kernel
  blank_targets := by decide +kernel
  sigma := by decide +kernel
  ascii := by decide +kernel
  cased := by decide +kernel
  ignorable := by decide +kernel
  blankCase := by decide +kernel

/-! ### Characters -/

/-- A character is left as it is, or becomes characters that lower-casing does not change. -/
theorem lowerChar_cases (c : Char) : lowerChar c = [c] ∨
    c.toNat ∈ lowerSources ∧ lowerChar c ≠ [] ∧ ∀ d ∈ lowerChar c, d.toNat ∈ lowerTargets := by
  unfold lowerChar
  dsimp only
  split
  · rename_i hascii
    have hc := lowerRunData.ascii c.toNat hascii
    rw [Char.ofNat_toNat] at hc
    exact hc.imp (congrArg fun d => [d]) fun ⟨hsource, htarget⟩ =>
      ⟨hsource, by simp, by simpa using htarget⟩
  split
  · rename_i hdotted
    refine .inr ⟨by simp [lowerSources, hdotted], by simp, fun d hd => ?_⟩
    obtain rfl | rfl : d = 'i' ∨ d = Char.ofNat 0x307 := by simpa using hd
    · exact List.mem_cons_self
    · exact List.mem_cons_of_mem _ List.mem_cons_self
  cases hrun : mapRuns? lowerRuns c.toNat with
  | none => exact .inl rfl
  | some m =>
    obtain ⟨r, hr, hm⟩ := List.exists_of_findSome?_eq_some hrun
    have htarget : m ∈ lowerTargets := by
      refine List.mem_cons_of_mem _ (List.mem_cons_of_mem _ (List.mem_cons_of_mem _ ?_))
      exact List.mem_flatMap.2 ⟨r, hr, CaseRun.mem_targets hm⟩
    refine .inr ⟨List.mem_cons_of_mem _ (List.mem_flatMap.2 ⟨r, hr, CaseRun.mem_sources hm⟩),
      by simp, ?_⟩
    simpa [toNat_ofNat (lowerRunData.isValidChar m htarget)] using htarget

/-- A character that lower-casing does not change, wherever it stands. -/
def IsLowered (c : Char) : Prop := c ≠ 'Σ' ∧ lowerChar c = [c]

theorem isLowered_of_notMem {c : Char} (h : c.toNat ∉ lowerSources) : IsLowered c := by
  refine ⟨?_, (lowerChar_cases c).resolve_right fun hc => h hc.1⟩
  rintro rfl
  exact h lowerRunData.sigma.1

theorem isLowered_of_mem_lowerTargets {c : Char} (h : c.toNat ∈ lowerTargets) : IsLowered c :=
  isLowered_of_notMem (notMem_of_bitSet lowerRunData.targets_sources h)

theorem isLowered_of_isBlank {c : Char} (h : isBlank c = true) : IsLowered c :=
  isLowered_of_notMem (notMem_of_bitSet lowerRunData.blank_sources (isBlank_iff.1 h))

theorem isBlank_eq_false_of_mem_lowerTargets {c : Char} (h : c.toNat ∈ lowerTargets) :
    isBlank c = false := by
  rw [Bool.eq_false_iff, Ne, isBlank_iff]
  exact fun hblank => notMem_of_bitSet lowerRunData.blank_targets hblank h

/-- The lower-case form of a character that stands after `before` and before `after`. -/
def lowerAt (before : List Char) (c : Char) (after : List Char) : List Char :=
  if c = 'Σ' then if casedNext before && !casedNext after then ['ς'] else ['σ'] else lowerChar c

theorem lowerAfter_cons (before : List Char) (c : Char) (cs : List Char) :
    lowerAfter before (c :: cs) = lowerAt before c cs ++ lowerAfter (c :: before) cs := rfl

/-- Wherever it stands, a character is left as it is or becomes others. -/
theorem lowerAt_cases (before : List Char) (c : Char) (after : List Char) :
    lowerAt before c after = [c] ∧ IsLowered c ∨ c.toNat ∈ lowerSources ∧
      lowerAt before c after ≠ [] ∧ ∀ d ∈ lowerAt before c after, d.toNat ∈ lowerTargets := by
  have hfinal : 'ς'.toNat ∈ lowerTargets :=
    List.mem_cons_of_mem _ (List.mem_cons_of_mem _ List.mem_cons_self)
  unfold lowerAt
  split
  · rename_i hsigma
    refine .inr ⟨hsigma ▸ lowerRunData.sigma.1, ?_⟩
    split
    · exact ⟨by simp, by simpa using hfinal⟩
    · exact ⟨by simp, by simpa using lowerRunData.sigma.2⟩
  · rename_i hsigma
    exact (lowerChar_cases c).imp_left fun hc => ⟨hc, hsigma, hc⟩

variable {cs ds : List Char}

theorem forall_isLowered_lower (cs : List Char) : ∀ d ∈ lower cs, IsLowered d := by
  suffices h : ∀ before, ∀ d ∈ lowerAfter before cs, IsLowered d from h []
  induction cs with
  | nil => simp [lowerAfter]
  | cons c cs ih =>
    intro before d hd
    rw [lowerAfter_cons] at hd
    obtain hd | hd := List.mem_append.1 hd
    · obtain ⟨hsame, hc⟩ | ⟨-, -, htargets⟩ := lowerAt_cases before c cs
      · rw [hsame, List.mem_singleton] at hd
        exact hd ▸ hc
      · exact isLowered_of_mem_lowerTargets (htargets d hd)
    · exact ih _ d hd

theorem lower_of_forall (h : ∀ c ∈ cs, IsLowered c) : lower cs = cs := by
  suffices hafter : ∀ before, lowerAfter before cs = cs from hafter []
  induction cs with
  | nil => exact fun _ => rfl
  | cons c cs ih =>
    intro before
    obtain ⟨⟨hsigma, hc⟩, hcs⟩ := List.forall_mem_cons.1 h
    rw [lowerAfter_cons, lowerAt, if_neg hsigma, hc, ih hcs, List.singleton_append]

/-- Lower-casing twice is lower-casing once. -/
theorem lower_lower (cs : List Char) : lower (lower cs) = lower cs :=
  lower_of_forall (forall_isLowered_lower cs)

/-! ### Words -/

/-- A word in lower case is a word. -/
theorem IsWord.lower (h : IsWord isBlank cs) : IsWord isBlank (lower cs) := by
  obtain ⟨hne, hsolid⟩ := h
  constructor
  · obtain ⟨c, cs, rfl⟩ := List.exists_cons_of_ne_nil hne
    rw [Text.lower, lowerAfter_cons]
    obtain ⟨hsame, -⟩ | ⟨-, hne, -⟩ := lowerAt_cases [] c cs
    · simp [hsame]
    · simp [hne]
  · suffices hafter : ∀ before, ∀ d ∈ lowerAfter before cs, isBlank d = false from hafter []
    clear hne
    induction cs with
    | nil => simp [lowerAfter]
    | cons c cs ih =>
      intro before d hd
      obtain ⟨hc, hcs⟩ := List.forall_mem_cons.1 hsolid
      rw [lowerAfter_cons] at hd
      obtain hd | hd := List.mem_append.1 hd
      · obtain ⟨hsame, -⟩ | ⟨-, -, htargets⟩ := lowerAt_cases before c cs
        · rw [hsame, List.mem_singleton] at hd
          exact hd ▸ hc
        · exact isBlank_eq_false_of_mem_lowerTargets (htargets d hd)
      · exact ih hcs _ d hd

/-- White space ends the search for the next cased character. -/
theorem casedNext_append_cons {c : Char} (h : isBlank c = true) (cs ds : List Char) :
    casedNext (cs ++ c :: ds) = casedNext cs := by
  obtain ⟨hcased, hignorable⟩ := lowerRunData.blankCase c.toNat (isBlank_iff.1 h)
  induction cs with
  | nil => simp [casedNext, isCased, isCaseIgnorable, hcased, hignorable]
  | cons d cs ih => simp only [List.cons_append, casedNext, ih]

/-- What stands before white space is of no account after it. -/
theorem lowerAfter_append_cons {c : Char} (h : isBlank c = true) (before more : List Char) :
    lowerAfter (before ++ c :: more) cs = lowerAfter before cs := by
  induction cs generalizing before with
  | nil => rfl
  | cons d cs ih =>
    rw [lowerAfter_cons, lowerAfter_cons, ← List.cons_append, ih, lowerAt, lowerAt,
      casedNext_append_cons h]

/-- A text is lower-cased piece by piece, where white space cuts it. -/
theorem lower_append_cons {c : Char} (h : isBlank c = true) (cs ds : List Char) :
    lower (cs ++ c :: ds) = lower cs ++ c :: lower ds := by
  suffices hafter : ∀ before, lowerAfter before (cs ++ c :: ds) =
      lowerAfter before cs ++ c :: lower ds from hafter []
  induction cs with
  | nil =>
    intro before
    obtain ⟨hsigma, hc⟩ := isLowered_of_isBlank h
    rw [List.nil_append, lowerAfter_cons, lowerAt, if_neg hsigma, hc,
      ← List.nil_append (c :: before), lowerAfter_append_cons h]
    rfl
  | cons d cs ih =>
    intro before
    rw [List.cons_append, lowerAfter_cons, lowerAfter_cons, ih, lowerAt, lowerAt,
      casedNext_append_cons h, List.append_assoc]

/-- A text is lower-cased word by word. -/
theorem lower_joinWith (ws : List (List Char)) :
    lower (joinWith [' '] ws) = joinWith [' '] (ws.map lower) := by
  induction ws with
  | nil => rfl
  | cons w ws ih =>
    by_cases hne : ws = []
    · simp [hne, joinWith]
    · rw [joinWith_cons_of_ne_nil _ _ hne, List.append_assoc, List.singleton_append,
        lower_append_cons (by decide), ih, List.map_cons,
        joinWith_cons_of_ne_nil _ _ (by simpa using hne), List.append_assoc, List.singleton_append]

/-! ### ASCII letters -/

theorem toLower_of_le {c : Char} (h : 128 ≤ c.toNat) : c.toLower = c := by
  refine dif_neg fun hupper => ?_
  have hle : c.toNat ≤ 'Z'.toNat := hupper.2
  exact absurd (h.trans hle) (by decide)

/-- What lower-casing looks at is the same in a character and in another. -/
structure SameCase (c d : Char) : Prop where
  cased : isCased c = isCased d
  ignorable : isCaseIgnorable c = isCaseIgnorable d
  lower : lowerChar c = lowerChar d
  blank : isBlank c = isBlank d
  sigma : c = 'Σ' ↔ d = 'Σ'

/-- Of some ranges only those that begin among the ASCII characters count for one of these. -/
theorem inRanges_filter {ranges : List (Nat × Nat)} {n : Nat} (h : n < 128) :
    inRanges (ranges.filter fun r => r.1 < 128) n = inRanges ranges n := by
  rw [inRanges, inRanges, List.any_filter]
  congr 1
  ext r
  by_cases hr : r.1 ≤ n
  · simp [show r.1 < 128 by omega]
  · simp [hr]

theorem isCased_of_lt {c : Char} (h : c.toNat < 128) : isCased c = inRanges asciiCased c.toNat := by
  rw [isCased, ← inRanges_filter h, lowerRunData.cased]

theorem isCaseIgnorable_of_lt {c : Char} (h : c.toNat < 128) :
    isCaseIgnorable c = inRanges asciiIgnorable c.toNat := by
  rw [isCaseIgnorable, ← inRanges_filter h, lowerRunData.ignorable]

/-- An ASCII letter keeps all that counts when it is put in lower case. -/
theorem asciiCase : ∀ n < 128, let c := Char.ofNat n
    c.toLower.toNat < 128 ∧ inRanges asciiCased c.toLower.toNat = inRanges asciiCased n ∧
      inRanges asciiIgnorable c.toLower.toNat = inRanges asciiIgnorable n ∧
      c.toLower.toLower = c.toLower ∧ isBlank c.toLower = isBlank c ∧ c.toLower ≠ 'Σ' := by
  decide +kernel

theorem sameCase_toLower (c : Char) : SameCase c.toLower c := by
  by_cases hc : c.toNat < 128
  · have hcase := asciiCase c.toNat hc
    rw [Char.ofNat_toNat] at hcase
    obtain ⟨hlt, hcased, hignorable, hlower, hblank, hsigma⟩ := hcase
    rw [← isCased_of_lt hlt, ← isCased_of_lt hc] at hcased
    rw [← isCaseIgnorable_of_lt hlt, ← isCaseIgnorable_of_lt hc] at hignorable
    refine ⟨hcased, hignorable, by simp [lowerChar, hlt, hc, hlower], hblank,
      iff_of_false hsigma ?_⟩
    rintro rfl
    exact absurd hc (by decide)
  · rw [toLower_of_le (by omega)]
    exact ⟨rfl, rfl, rfl, rfl, Iff.rfl⟩

theorem casedNext_map_toLower (cs : List Char) :
    casedNext (cs.map Char.toLower) = casedNext cs := by
  induction cs with
  | nil => rfl
  | cons c cs ih =>
    have hc := sameCase_toLower c
    rw [List.map_cons, casedNext, casedNext, hc.ignorable, hc.cased, ih]

/-- The case of ASCII letters is of no account. -/
theorem lower_map_toLower (cs : List Char) : lower (cs.map Char.toLower) = lower cs := by
  suffices h : ∀ before, lowerAfter (before.map Char.toLower) (cs.map Char.toLower) =
      lowerAfter before cs from h []
  induction cs with
  | nil => exact fun _ => rfl
  | cons c cs ih =>
    intro before
    have hc := sameCase_toLower c
    have hrest := ih (c :: before)
    rw [List.map_cons] at hrest
    simp only [List.map_cons, lowerAfter_cons, hrest, lowerAt, casedNext_map_toLower, hc.sigma,
      hc.lower]

end LiterateJournal.Text
