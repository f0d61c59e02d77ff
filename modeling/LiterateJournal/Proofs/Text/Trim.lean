import LiterateJournal.Text.Blank

/-!
# Trimmed text

What is trimmed from a text is white space. White space that is put at one of its ends is trimmed
away again, and the two ends may be trimmed in any order.

## Main statements

* `Text.exists_trimEnd_append`, `Text.exists_append_trimStart` — what is trimmed.
* `Text.trim_eq_trimStart_trimEnd` — the order does not matter.
* `Text.head?_trimEnd`, `Text.trimStart_eq_self_iff` — the start of a text that has been trimmed.
-/

namespace LiterateJournal.Text

theorem exists_dropEndWhile_append (p : Char → Bool) (cs : List Char) :
    ∃ s, cs = dropEndWhile p cs ++ s ∧ ∀ c ∈ s, p c = true := by
  induction cs with
  | nil => exact ⟨[], rfl, by simp⟩
  | cons c cs ih =>
    obtain ⟨s, hs, hp⟩ := ih
    rw [dropEndWhile]
    split
    · rename_i hnil
      rw [hnil, List.nil_append] at hs
      split
      · rename_i hc
        exact ⟨c :: cs, rfl, by simpa [hc, ← hs] using hp⟩
      · exact ⟨s, by simp [← hs], hp⟩
    · exact ⟨s, by rw [List.cons_append, ← hs], hp⟩

/-- A text is what trimming leaves of its end, and white space. -/
theorem exists_trimEnd_append (cs : List Char) :
    ∃ s, cs = trimEnd cs ++ s ∧ ∀ c ∈ s, isBlank c = true :=
  exists_dropEndWhile_append isBlank cs

/-- A text is white space, and what trimming leaves of its start. -/
theorem exists_append_trimStart (cs : List Char) :
    ∃ s, cs = s ++ trimStart cs ∧ ∀ c ∈ s, isBlank c = true :=
  ⟨cs.takeWhile isBlank, List.takeWhile_append_dropWhile.symm,
    List.all_eq_true.1 List.all_takeWhile⟩

theorem sublist_trimEnd (cs : List Char) : (trimEnd cs).Sublist cs := by
  obtain ⟨s, hs, -⟩ := exists_trimEnd_append cs
  have hsub := List.sublist_append_left (trimEnd cs) s
  rwa [← hs] at hsub

theorem sublist_trim (cs : List Char) : (trim cs).Sublist cs :=
  (sublist_trimEnd _).trans (List.dropWhile_suffix _).sublist

theorem trimEnd_cons (c : Char) (cs : List Char) :
    trimEnd (c :: cs) = if isBlank c && (trimEnd cs).isEmpty then [] else c :: trimEnd cs := by
  rw [trimEnd, dropEndWhile, trimEnd]
  cases dropEndWhile isBlank cs <;> simp

/-! ### White space at the ends -/

theorem trimEnd_eq_nil {cs : List Char} (h : ∀ c ∈ cs, isBlank c = true) : trimEnd cs = [] := by
  induction cs with
  | nil => rfl
  | cons c cs ih =>
    obtain ⟨hc, hcs⟩ := List.forall_mem_cons.1 h
    simp [trimEnd_cons, hc, ih hcs]

theorem trimEnd_append_of_blank (cs : List Char) {ds : List Char}
    (h : ∀ d ∈ ds, isBlank d = true) : trimEnd (cs ++ ds) = trimEnd cs := by
  induction cs with
  | nil => exact trimEnd_eq_nil h
  | cons c cs ih => rw [List.cons_append, trimEnd_cons, trimEnd_cons, ih]

theorem trimStart_append_of_blank {cs : List Char} (h : ∀ c ∈ cs, isBlank c = true)
    (ds : List Char) : trimStart (cs ++ ds) = trimStart ds :=
  List.dropWhile_append_of_pos h

/-- The two ends may be trimmed in any order. -/
theorem trim_eq_trimStart_trimEnd (cs : List Char) : trim cs = trimStart (trimEnd cs) := by
  induction cs with
  | nil => rfl
  | cons c cs ih =>
    rw [trim] at ih ⊢
    cases hc : isBlank c with
    | true =>
      rw [trimStart, List.dropWhile_cons_of_pos hc, ← trimStart, ih, trimEnd_cons]
      cases trimEnd cs <;> simp [hc, trimStart]
    | false => simp [trimStart, hc, trimEnd_cons]

/-! ### The start of trimmed text -/

/-- Text that is not blank begins as before when its end has been trimmed. -/
theorem head?_trimEnd {cs : List Char} (h : ∃ c ∈ cs, isBlank c = false) :
    (trimEnd cs).head? = cs.head? := by
  obtain ⟨c, hc, hsolid⟩ := h
  obtain ⟨s, hs, hblank⟩ := exists_trimEnd_append cs
  cases htrim : trimEnd cs with
  | nil =>
    rw [htrim, List.nil_append] at hs
    rw [hs] at hc
    rw [hblank c hc] at hsolid
    cases hsolid
  | cons d rest =>
    rw [hs, htrim]
    rfl

theorem trimStart_eq_self_iff {cs : List Char} :
    trimStart cs = cs ↔ ∀ c ∈ cs.head?, isBlank c = false := by
  cases cs with
  | nil => simp [trimStart]
  | cons c cs =>
    cases hc : isBlank c with
    | true =>
      have hle := (List.dropWhile_suffix (l := cs) isBlank).length_le
      simp only [trimStart, List.dropWhile_cons_of_pos hc, List.head?_cons, Option.mem_def,
        Option.some.injEq, forall_eq', hc, Bool.true_eq_false, iff_false]
      intro heq
      rw [heq, List.length_cons] at hle
      omega
    | false => simp [trimStart, hc]

end LiterateJournal.Text
