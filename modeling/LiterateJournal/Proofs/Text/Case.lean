import LiterateJournal.Text.Blank
import LiterateJournal.Text.Fold
import LiterateJournal.Text.Lower
import Mathlib.Data.List.Chain
import Mathlib.Data.Nat.Bitwise

/-!
# Case folding and lower case

What case folding makes of a character is not changed by folding it again, and is white space only
if the character is. A text and its lower-case form are folded to the same.

The Unicode data are checked with sets of code points that are held as the bits of one number, as
that takes one operation for two sets and not one for any two of their members.

## Main definitions

* `bitSet` — a set of numbers as the bits of one number.
* `foldSources`, `foldTargets` — the characters that folding changes, and those it changes them to.
* `FoldData`, `LowerData` — what is used of the Unicode data.

## Main statements

* `fold_fold` — folding twice.
* `fold_lower` — folding after lower-casing.
* `foldChar_of_isBlank`, `isBlank_of_mem_foldChar` — folding and white space.
* `lower_eq_fold_of_ascii` — ASCII text.
-/

namespace LiterateJournal.Text

/-! ### Sets of code points -/

def bitSet (ns : List Nat) : Nat := ns.foldr (fun n s => 1 <<< n ||| s) 0

theorem testBit_bitSet {ns : List Nat} {n : Nat} (h : n ∈ ns) : (bitSet ns).testBit n = true := by
  induction ns with
  | nil => cases h
  | cons m ns ih =>
    rw [bitSet, List.foldr_cons, Nat.testBit_or]
    obtain rfl | h := List.mem_cons.1 h
    · simp
    · have htail : (List.foldr (fun n s => 1 <<< n ||| s) 0 ns).testBit n = true := ih h
      rw [htail, Bool.or_true]

theorem notMem_of_bitSet {ns ms : List Nat} {n : Nat} (h : bitSet ns &&& bitSet ms = 0)
    (hn : n ∈ ns) : n ∉ ms := by
  intro hm
  have hbit := Nat.testBit_and (bitSet ns) (bitSet ms) n
  rw [h, testBit_bitSet hn, testBit_bitSet hm] at hbit
  simp at hbit

namespace CaseRun

/-- The distances of the members of a run from its first one. -/
def offsets (r : CaseRun) : List Nat :=
  (List.range ((r.last - r.first) / r.stride + 1)).map (· * r.stride)

def sources (r : CaseRun) : List Nat := r.offsets.map (r.first + ·)

def targets (r : CaseRun) : List Nat := r.offsets.map (r.target + ·)

variable {r : CaseRun} {n m : Nat}

theorem map?_eq_some_iff : r.map? n = some m ↔
    r.first ≤ n ∧ n ≤ r.last ∧ (n - r.first) % r.stride = 0 ∧ m = r.target + (n - r.first) := by
  unfold map?
  simp only [Option.ite_none_right_eq_some, Bool.and_eq_true, decide_eq_true_eq, beq_iff_eq,
    and_assoc, Option.some.injEq, eq_comm (a := m)]

theorem exists_offset (h : r.map? n = some m) :
    ∃ k ∈ r.offsets, n = r.first + k ∧ m = r.target + k := by
  obtain ⟨hfirst, hlast, hstride, hm⟩ := map?_eq_some_iff.1 h
  refine ⟨n - r.first, ?_, by omega, hm⟩
  have hle := Nat.div_le_div_right (c := r.stride) (Nat.sub_le_sub_right hlast r.first)
  exact List.mem_map.2 ⟨(n - r.first) / r.stride, List.mem_range.2 (by omega),
    Nat.div_mul_cancel (Nat.dvd_of_mod_eq_zero hstride)⟩

theorem mem_sources (h : r.map? n = some m) : n ∈ r.sources := by
  obtain ⟨k, hk, rfl, -⟩ := exists_offset h
  exact List.mem_map_of_mem hk

theorem mem_targets (h : r.map? n = some m) : m ∈ r.targets := by
  obtain ⟨k, hk, -, rfl⟩ := exists_offset h
  exact List.mem_map_of_mem hk

end CaseRun

/-! ### Folding -/

def foldSources : List Nat := foldRuns.flatMap CaseRun.sources ++ foldSequences.map Prod.fst

def foldTargets : List Nat := foldRuns.flatMap CaseRun.targets ++ foldSequences.flatMap Prod.snd

def blankCodes : List Nat :=
  List.range' 9 5 ++ [32, 0x85, 0xA0, 0x1680] ++ List.range' 0x2000 11 ++
    [0x2028, 0x2029, 0x202F, 0x205F, 0x3000]

/-- What is used of the Unicode data for folding. -/
structure FoldData : Prop where
  isValidChar : ∀ n ∈ foldTargets, n.isValidChar
  targets_sources : bitSet foldTargets &&& bitSet foldSources = 0
  blank_sources : bitSet blankCodes &&& bitSet foldSources = 0
  blank_targets : bitSet blankCodes &&& bitSet foldTargets = 0
  sequences : ∀ e ∈ foldSequences, e.2 ≠ []

theorem foldData : FoldData where
  isValidChar := by decide +kernel
  targets_sources := by decide +kernel
  blank_sources := by decide +kernel
  blank_targets := by decide +kernel
  sequences := by decide +kernel

theorem isBlank_iff {c : Char} : isBlank c = true ↔ c.toNat ∈ blankCodes := by
  simp only [isBlank, blankCodes, Bool.or_eq_true, Bool.and_eq_true, decide_eq_true_eq, beq_iff_eq,
    List.mem_append, List.mem_range'_1, List.mem_cons, List.not_mem_nil, or_false]
  omega

theorem mem_foldSources_of_map? {r : CaseRun} {n m : Nat} (hr : r ∈ foldRuns)
    (h : r.map? n = some m) : n ∈ foldSources ∧ m ∈ foldTargets :=
  ⟨List.mem_append_left _ (List.mem_flatMap.2 ⟨r, hr, CaseRun.mem_sources h⟩),
    List.mem_append_left _ (List.mem_flatMap.2 ⟨r, hr, CaseRun.mem_targets h⟩)⟩

theorem toLower_ascii : ∀ n < 128, (Char.ofNat n).toLower = Char.ofNat n ∨
    (CaseRun.map? ⟨65, 90, 1, 97⟩ n).map Char.ofNat = some (Char.ofNat n).toLower := by
  decide

/-- A character is folded to itself, or to characters that folding does not change. -/
theorem foldChar_cases (c : Char) : foldChar c = [c] ∨
    c.toNat ∈ foldSources ∧ ∃ ns, ns ≠ [] ∧ (∀ n ∈ ns, n ∈ foldTargets) ∧
      foldChar c = ns.map Char.ofNat := by
  unfold foldChar
  dsimp only
  split
  · rename_i hascii
    have hc := toLower_ascii c.toNat hascii
    rw [Char.ofNat_toNat] at hc
    obtain hc | hc := hc
    · exact .inl (by rw [hc])
    · obtain ⟨m, hm, hlower⟩ := Option.map_eq_some_iff.1 hc
      obtain ⟨hsource, htarget⟩ := mem_foldSources_of_map? List.mem_cons_self hm
      exact .inr ⟨hsource, [m], by simp, by simpa using htarget, by simp [hlower]⟩
  · split
    · rename_i ns hns
      obtain ⟨before, after, hsplit, -⟩ := List.lookup_eq_some_iff.1 hns
      have hmem : (c.toNat, ns) ∈ foldSequences := by simp [hsplit]
      refine .inr ⟨List.mem_append_right _ (List.mem_map.2 ⟨_, hmem, rfl⟩), ns,
        foldData.sequences _ hmem, fun n hn => ?_, rfl⟩
      exact List.mem_append_right _ (List.mem_flatMap.2 ⟨_, hmem, hn⟩)
    · cases hrun : mapRuns? foldRuns c.toNat with
      | none => exact .inl rfl
      | some m =>
        obtain ⟨r, hr, hm⟩ := List.exists_of_findSome?_eq_some hrun
        obtain ⟨hsource, htarget⟩ := mem_foldSources_of_map? hr hm
        exact .inr ⟨hsource, [m], by simp, by simpa using htarget, rfl⟩

theorem foldChar_of_notMem {c : Char} (h : c.toNat ∉ foldSources) : foldChar c = [c] :=
  (foldChar_cases c).resolve_right fun hc => h hc.1

theorem toNat_ofNat {n : Nat} (h : n.isValidChar) : (Char.ofNat n).toNat = n := by
  rw [Char.ofNat, dif_pos h]
  rfl

theorem toNat_ofNat_of_mem {n : Nat} (h : n ∈ foldTargets) : (Char.ofNat n).toNat = n :=
  toNat_ofNat (foldData.isValidChar n h)

/-- What a character is folded to is not changed by folding. -/
theorem foldChar_of_mem_foldChar {c d : Char} (h : d ∈ foldChar c) : foldChar d = [d] := by
  obtain hc | ⟨-, ns, -, hns, hc⟩ := foldChar_cases c
  · rw [hc, List.mem_singleton] at h
    rw [h, hc]
  · rw [hc] at h
    obtain ⟨n, hn, rfl⟩ := List.mem_map.1 h
    refine foldChar_of_notMem ?_
    rw [toNat_ofNat_of_mem (hns n hn)]
    exact notMem_of_bitSet foldData.targets_sources (hns n hn)

theorem foldChar_ne_nil (c : Char) : foldChar c ≠ [] := by
  obtain hc | ⟨-, ns, hne, -, hc⟩ := foldChar_cases c
  · simp [hc]
  · simpa [hc] using hne

/-- White space is not changed by folding. -/
theorem foldChar_of_isBlank {c : Char} (h : isBlank c = true) : foldChar c = [c] :=
  foldChar_of_notMem (notMem_of_bitSet foldData.blank_sources (isBlank_iff.1 h))

/-- Only white space is folded to white space. -/
theorem isBlank_of_mem_foldChar {c d : Char} (h : d ∈ foldChar c) (hd : isBlank d = true) :
    d = c := by
  obtain hc | ⟨-, ns, -, hns, hc⟩ := foldChar_cases c
  · simpa [hc] using h
  · rw [hc] at h
    obtain ⟨n, hn, rfl⟩ := List.mem_map.1 h
    rw [isBlank_iff, toNat_ofNat_of_mem (hns n hn)] at hd
    exact absurd (hns n hn) (notMem_of_bitSet foldData.blank_targets hd)

theorem fold_append (cs ds : List Char) : fold (cs ++ ds) = fold cs ++ fold ds :=
  List.flatMap_append

theorem fold_of_forall {cs : List Char} (h : ∀ c ∈ cs, foldChar c = [c]) : fold cs = cs := by
  induction cs with
  | nil => rfl
  | cons c cs ih =>
    obtain ⟨hc, hcs⟩ := List.forall_mem_cons.1 h
    rw [fold, List.flatMap_cons, hc]
    exact congrArg (c :: ·) (ih hcs)

/-- Folding twice is folding once. -/
theorem fold_fold (cs : List Char) : fold (fold cs) = fold cs := by
  refine fold_of_forall fun d hd => ?_
  obtain ⟨c, -, hc⟩ := List.mem_flatMap.1 hd
  exact foldChar_of_mem_foldChar hc

/-! ### Lower case -/

/-- The runs that folding has the other way round: it turns Cherokee letters into capitals. -/
def reversedRuns : List CaseRun := [⟨5024, 5103, 1, 43888⟩, ⟨5104, 5109, 1, 5112⟩]

/-- The runs of characters that are folded to several, as are their lower-case forms. -/
def sequenceRuns : List CaseRun :=
  [⟨7838, 7838, 1, 223⟩, ⟨8072, 8079, 1, 8064⟩, ⟨8088, 8095, 1, 8080⟩, ⟨8104, 8111, 1, 8096⟩,
    ⟨8124, 8124, 1, 8115⟩, ⟨8140, 8140, 1, 8131⟩, ⟨8188, 8188, 1, 8179⟩]

/-- What is used of the Unicode data for lower case, beside those for folding. -/
structure LowerData : Prop where
  sublist : (lowerRuns.filter fun r =>
    !(reversedRuns.contains r || sequenceRuns.contains r)).Sublist foldRuns
  isChain : foldRuns.IsChain fun r s => r.last < s.first ∧ s.first ≤ s.last
  runs_sequences :
    bitSet (foldRuns.flatMap CaseRun.sources) &&& bitSet (foldSequences.map Prod.fst) = 0
  reversed : ∀ r ∈ reversedRuns,
    ⟨r.target, r.target + (r.last - r.first), r.stride, r.first⟩ ∈ foldRuns
  sequences : ∀ r ∈ sequenceRuns, ∀ k ∈ r.offsets,
    (foldSequences.lookup (r.first + k)).isSome = true ∧
      foldSequences.lookup (r.first + k) = foldSequences.lookup (r.target + k)
  bounds : ∀ r ∈ reversedRuns ++ sequenceRuns,
    128 ≤ r.first ∧ 128 ≤ r.target ∧ r.target + (r.last - r.first) < 0xD800
  dottedI : fold ['i', Char.ofNat 0x307] = foldChar (Char.ofNat 0x130)
  sigma : fold ['ς'] = foldChar 'Σ' ∧ fold ['σ'] = foldChar 'Σ'

theorem lowerData : LowerData where
  sublist := by decide +kernel
  isChain := by decide +kernel
  runs_sequences := by decide +kernel
  reversed := by decide +kernel
  sequences := by decide +kernel
  bounds := by decide +kernel
  dottedI := by decide +kernel
  sigma := by decide +kernel

theorem pairwise_foldRuns : foldRuns.Pairwise fun r s => r.last < s.first := by
  have : IsTrans CaseRun fun r s => r.last < s.first ∧ s.first ≤ s.last :=
    ⟨fun r s t hrs hst => by omega⟩
  exact (List.isChain_iff_pairwise.1 lowerData.isChain).imp And.left

/-- Each run decides where its members are mapped, if the runs have no member in common. -/
theorem mapRuns?_of_mem {runs : List CaseRun} (hruns : runs.Pairwise fun r s => r.last < s.first)
    {r : CaseRun} {n m : Nat} (hr : r ∈ runs) (h : r.map? n = some m) :
    mapRuns? runs n = some m := by
  unfold mapRuns?
  induction runs with
  | nil => cases hr
  | cons s runs ih =>
    obtain ⟨hs, hruns⟩ := List.pairwise_cons.1 hruns
    rw [List.findSome?_cons]
    obtain rfl | hr := List.mem_cons.1 hr
    · rw [h]
    · have hnone : s.map? n = none := by
        cases hmap : s.map? n with
        | none => rfl
        | some k =>
          have hn := CaseRun.map?_eq_some_iff.1 h
          have hn' := CaseRun.map?_eq_some_iff.1 hmap
          have hlt := hs r hr
          omega
      rw [hnone]
      exact ih hruns hr

/-- A character of a run is folded as the run tells. -/
theorem foldChar_of_mem_run {r : CaseRun} {c : Char} {m : Nat} (hr : r ∈ foldRuns)
    (h : r.map? c.toNat = some m) (hc : 128 ≤ c.toNat) : foldChar c = [Char.ofNat m] := by
  have hsource := List.mem_flatMap.2 ⟨r, hr, CaseRun.mem_sources h⟩
  have hlookup : foldSequences.lookup c.toNat = none := by
    rw [List.lookup_eq_none_iff]
    intro e he
    rw [bne_iff_ne]
    intro heq
    exact notMem_of_bitSet lowerData.runs_sequences hsource (List.mem_map.2 ⟨e, he, heq.symm⟩)
  unfold foldChar
  rw [if_neg (by omega), hlookup, mapRuns?_of_mem pairwise_foldRuns hr h]
  rfl

theorem foldChar_of_lookup {c : Char} {ns : List Nat} (h : foldSequences.lookup c.toNat = some ns)
    (hc : 128 ≤ c.toNat) : foldChar c = ns.map Char.ofNat := by
  unfold foldChar
  rw [if_neg (by omega), h]

/-- A character and its lower-case form are folded to the same. -/
theorem fold_lowerChar (c : Char) : fold (lowerChar c) = foldChar c := by
  have hself : fold [c] = foldChar c := by simp [fold]
  unfold lowerChar
  dsimp only
  split
  · rename_i hascii
    have hfold : foldChar c = [c.toLower] := if_pos hascii
    rw [← hfold, ← hself, fold_fold]
  rename_i hascii
  split
  · rename_i hdotted
    obtain rfl : c = Char.ofNat 0x130 := by rw [← hdotted, Char.ofNat_toNat]
    exact lowerData.dottedI
  cases hrun : mapRuns? lowerRuns c.toNat with
  | none => exact hself
  | some m =>
    obtain ⟨r, hr, hm⟩ := List.exists_of_findSome?_eq_some hrun
    change fold [Char.ofNat m] = foldChar c
    have hlower : fold [Char.ofNat m] = foldChar (Char.ofNat m) := by simp [fold]
    rw [hlower]
    by_cases hspecial : r ∈ reversedRuns ++ sequenceRuns
    · obtain ⟨hfirst, htarget, hbound⟩ := lowerData.bounds r hspecial
      obtain ⟨hle, hle', hstride, hdistance⟩ := CaseRun.map?_eq_some_iff.1 hm
      have hnat : (Char.ofNat m).toNat = m := toNat_ofNat (.inl (by omega))
      obtain hreversed | hsequence := List.mem_append.1 hspecial
      · -- the lower-case form is folded back, so that the character is left alone
        have hback : foldChar (Char.ofNat m) = [c] := by
          rw [foldChar_of_mem_run (m := c.toNat) (lowerData.reversed r hreversed) ?_ (by omega),
            Char.ofNat_toNat]
          rw [CaseRun.map?_eq_some_iff, hnat]
          dsimp only
          rw [hdistance, Nat.add_sub_cancel_left]
          exact ⟨by omega, by omega, hstride, by omega⟩
        have hc : c ∈ foldChar (Char.ofNat m) := by rw [hback]; exact List.mem_singleton_self c
        rw [hback, foldChar_of_mem_foldChar hc]
      · obtain ⟨k, hk, hn, rfl⟩ := CaseRun.exists_offset hm
        obtain ⟨hsome, heq⟩ := lowerData.sequences r hsequence k hk
        obtain ⟨ns, hns⟩ := Option.isSome_iff_exists.1 hsome
        rw [foldChar_of_lookup (hnat.symm ▸ heq ▸ hns) (by omega),
          foldChar_of_lookup (hn.symm ▸ hns) (by omega)]
    · have hr' : r ∈ foldRuns := by
        refine lowerData.sublist.subset (List.mem_filter.2 ⟨hr, ?_⟩)
        simpa using hspecial
      have hc := foldChar_of_mem_run hr' hm (by omega)
      have hmem : Char.ofNat m ∈ foldChar c := by rw [hc]; exact List.mem_singleton_self _
      rw [hc, foldChar_of_mem_foldChar hmem]

/-- A text and its lower-case form are folded to the same. -/
theorem fold_lower (cs : List Char) : fold (lower cs) = fold cs := by
  suffices h : ∀ before, fold (lowerAfter before cs) = fold cs from h []
  induction cs with
  | nil => exact fun _ => rfl
  | cons c cs ih =>
    intro before
    have hhere : fold (if c = 'Σ' then
        if casedNext before && !casedNext cs then ['ς'] else ['σ'] else lowerChar c) =
        foldChar c := by
      split
      · rename_i hc
        subst hc
        split
        · exact lowerData.sigma.1
        · exact lowerData.sigma.2
      · exact fold_lowerChar c
    rw [lowerAfter, fold_append, ih, hhere]
    rfl

/-! ### ASCII text -/

/-- Lower case and folding are the same for ASCII text. -/
theorem lower_eq_fold_of_ascii {cs : List Char} (h : ∀ c ∈ cs, c.toNat < 128) :
    lower cs = fold cs := by
  suffices hafter : ∀ before, lowerAfter before cs = fold cs from hafter []
  induction cs with
  | nil => exact fun _ => rfl
  | cons c cs ih =>
    intro before
    obtain ⟨hc, hcs⟩ := List.forall_mem_cons.1 h
    have hne : c ≠ 'Σ' := by
      rintro rfl
      exact absurd hc (by decide)
    rw [lowerAfter, if_neg hne, ih hcs]
    simp [lowerChar, fold, foldChar, hc]

theorem ascii_fold {cs : List Char} (h : ∀ c ∈ cs, c.toNat < 128) :
    ∀ d ∈ fold cs, d.toNat < 128 := by
  have hlower : ∀ n < 128, (Char.ofNat n).toLower.toNat < 128 := by decide
  intro d hd
  obtain ⟨c, hc, hdc⟩ := List.mem_flatMap.1 hd
  have hascii := hlower c.toNat (h c hc)
  rw [Char.ofNat_toNat] at hascii
  rw [foldChar, if_pos (h c hc), List.mem_singleton] at hdc
  rwa [hdc]

end LiterateJournal.Text
