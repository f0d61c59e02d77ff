import LiterateJournal.Json.Parser
import LiterateJournal.Json.Printer
import Mathlib.Data.Nat.Digits.Defs

/-!
# Tokens of JSON

What is written for a string or a natural number is read back, whatever follows a string, and as
long as no more of a number follows a number.

## Main definitions

* `Json.IsGap` — white space between tokens.
* `Json.EndsNumber` — what can follow a number.

## Main statements

* `Json.string?_quoted` — a string.
* `Json.number?_toDigits` — a natural number.
-/

namespace LiterateJournal.Json

open Json.Parser

/-! ### White space -/

/-- White space between tokens. -/
def IsGap (gap : List Char) : Prop := ∀ c ∈ gap, isGap c = true

theorem isGap_nil : IsGap [] := by simp [IsGap]

theorem skipGap_append {gap cs : List Char} (h : IsGap gap) : skipGap (gap ++ cs) = skipGap cs :=
  List.dropWhile_append_of_pos h

theorem skipGap_cons {c : Char} {cs : List Char} (h : isGap c = false) :
    skipGap (c :: cs) = c :: cs :=
  List.dropWhile_cons_of_neg (by simp [h])

/-! ### Strings -/

theorem hexValue?_hexDigit : ∀ n < 16, hexValue? (hexDigit n) = some n := by decide

/-- A control character is read back from its escape. -/
theorem escape?_control {c : Char} (h : c.toNat < 32) (cs : List Char) :
    escape? ('u' :: '0' :: '0' :: hexDigit (c.toNat / 16) :: hexDigit (c.toNat % 16) :: cs) =
      some (c, cs) := by
  have hzero : hexValue? '0' = some 0 := by decide
  have hhigh := hexValue?_hexDigit (c.toNat / 16) (by omega)
  have hlow := hexValue?_hexDigit (c.toNat % 16) (by omega)
  have hvalue : ((0 * 16 + 0) * 16 + c.toNat / 16) * 16 + c.toNat % 16 = c.toNat := by omega
  have hunit : unit? ('0' :: '0' :: hexDigit (c.toNat / 16) :: hexDigit (c.toNat % 16) :: cs) =
      some (c.toNat, cs) := by
    rw [unit?, hzero, hhigh, hlow]
    simp only [Option.bind_eq_bind, Option.bind_some, hvalue]
  rw [escape?, unicodeEscape?, hunit]
  simp only [Option.bind_eq_bind, Option.bind_some, Char.ofNat_toNat]
  rw [if_neg (by simp; omega), if_neg (by simp; omega)]

/-- A character stands for itself inside a string, or has an escape. -/
theorem escapeChar_cases (c : Char) :
    (escapeChar c = [c] ∧ c ≠ '"' ∧ c ≠ '\\' ∧ ¬ c.toNat < 32) ∨
      ∃ e es, escapeChar c = '\\' :: e :: es ∧ ∀ cs, escape? (e :: es ++ cs) = some (c, cs) := by
  unfold escapeChar
  split_ifs
  iterate 7
    rename_i hc
    exact .inr ⟨_, _, rfl, fun _ => by rw [hc]; rfl⟩
  · rename_i hcontrol
    exact .inr ⟨_, _, rfl, escape?_control hcontrol⟩
  · rename_i hquote hbackslash _ _ _ _ _ hcontrol
    exact .inl ⟨rfl, hquote, hbackslash, hcontrol⟩

theorem escapeChar_ne_nil (c : Char) : escapeChar c ≠ [] := by
  obtain ⟨hc, -⟩ | ⟨e, es, hc, -⟩ := escapeChar_cases c <;> simp [hc]

/-- A character inside a string is read back. -/
theorem string?_escapeChar (fuel : Nat) (c : Char) (cs : List Char) :
    string? (fuel + 1) (escapeChar c ++ cs) =
      (string? fuel cs).map fun (s, rest) => (c :: s, rest) := by
  have hmap (x : Option (List Char × List Char)) :
      (x.bind fun (s, rest) => some (c :: s, rest)) = x.map fun (s, rest) => (c :: s, rest) := by
    cases x <;> rfl
  obtain ⟨hc, hquote, hbackslash, hcontrol⟩ | ⟨e, es, hc, hescape⟩ := escapeChar_cases c
  · rw [hc, List.singleton_append, string?, if_neg hquote, if_neg hcontrol, if_neg hbackslash]
    exact hmap _
  · rw [hc, List.cons_append, string?, if_neg (by decide), if_neg (by decide), if_pos rfl,
      hescape]
    exact hmap _

/-- A string is read back, after its opening quotation mark. -/
theorem string?_quoted {fuel : Nat} {s : String} (h : (quoted s).length ≤ fuel + 1)
    (rest : List Char) :
    string? fuel (s.toList.flatMap escapeChar ++ '"' :: rest) = some (s.toList, rest) := by
  suffices hread : ∀ (cs : List Char) (fuel : Nat), (cs.flatMap escapeChar).length < fuel →
      string? fuel (cs.flatMap escapeChar ++ '"' :: rest) = some (cs, rest) by
    refine hread _ _ ?_
    rw [quoted, List.length_cons, List.length_append, List.length_singleton] at h
    omega
  intro cs
  induction cs with
  | nil =>
    intro fuel hfuel
    obtain ⟨fuel, rfl⟩ := Nat.exists_eq_succ_of_ne_zero (Nat.ne_of_gt hfuel)
    rfl
  | cons c cs ih =>
    intro fuel hfuel
    obtain ⟨fuel, rfl⟩ := Nat.exists_eq_succ_of_ne_zero (Nat.ne_of_gt (Nat.zero_lt_of_lt hfuel))
    have hc := List.length_pos_iff.2 (escapeChar_ne_nil c)
    rw [List.flatMap_cons, List.length_append] at hfuel
    rw [List.flatMap_cons, List.append_assoc, string?_escapeChar, ih fuel (by omega)]
    rfl

/-! ### Numbers -/

/-- Nothing that would go on a number. -/
def EndsNumber (rest : List Char) : Prop :=
  ∀ c ∈ rest.head?, c.isDigit = false ∧ c ≠ '.' ∧ c ≠ 'e' ∧ c ≠ 'E'

theorem endsNumber_nil : EndsNumber [] := by simp [EndsNumber]

theorem endsNumber_cons {c : Char} {cs : List Char}
    (h : isGap c = true ∨ c ∈ [',', ']', '\x7d']) : EndsNumber (c :: cs) := by
  have hends : ∀ c ∈ [' ', '\n', '\t', '\r', ',', ']', '\x7d'],
      c.isDigit = false ∧ c ≠ '.' ∧ c ≠ 'e' ∧ c ≠ 'E' := by simp
  intro d hd
  obtain rfl : c = d := by simpa using hd
  refine hends c ?_
  obtain h | h := h
  · simp only [isGap, Bool.or_eq_true, decide_eq_true_eq] at h
    obtain ((rfl | rfl) | rfl) | rfl := h <;> simp
  · exact List.mem_append_right [' ', '\n', '\t', '\r'] h

/-- The tokens after a value follow white space, if there is some. -/
theorem endsNumber_gap_append {gap cs : List Char} (h : IsGap gap) (hcs : EndsNumber cs) :
    EndsNumber (gap ++ cs) := by
  cases gap with
  | nil => exact hcs
  | cons c gap => exact endsNumber_cons (.inl (h c List.mem_cons_self))

theorem digits?_append {ds rest : List Char} (hne : ds ≠ []) (hds : ∀ c ∈ ds, c.isDigit = true)
    (hrest : EndsNumber rest) : digits? (ds ++ rest) = some (ds, rest) := by
  have htake : (ds ++ rest).takeWhile Char.isDigit = ds := by
    rw [List.takeWhile_append_of_pos hds]
    cases rest with
    | nil => simp
    | cons c rest =>
      have hc : ¬ c.isDigit = true := by simp [(hrest c rfl).1]
      rw [List.takeWhile_cons_of_neg hc, List.append_nil]
  unfold digits?
  rw [htake]
  cases ds with
  | nil => exact absurd rfl hne
  | cons d ds => simp

theorem fraction?_of_endsNumber {rest : List Char} (h : EndsNumber rest) :
    fraction? rest = some ([], rest) := by
  unfold fraction?
  split
  · exact absurd rfl (h '.' rfl).2.1
  · rfl

theorem exponent?_of_endsNumber {rest : List Char} (h : EndsNumber rest) :
    exponent? rest = some ([], rest) := by
  have hmark {e : Char} (he : rest.head? = some e) : ¬ (e = 'e' || e = 'E') = true := by
    obtain ⟨-, -, hlower, hupper⟩ := h e he
    simp [hlower, hupper]
  unfold exponent?
  split
  · rw [if_neg (hmark rfl)]
  · rw [if_neg (hmark rfl)]
  · rfl

/-- Only zero is written with a zero in front. -/
theorem eq_zero_of_head?_toDigits {n : Nat} (h : (Nat.toDigits 10 n).head? = some '0') :
    n = 0 := by
  induction n using Nat.strong_induction_on with
  | _ n ih =>
    by_cases hn : n < 10
    · rw [Nat.toDigits_of_lt_base hn] at h
      have hdigit : ∀ m < 10, [Nat.digitChar m].head? = some '0' → m = 0 := by decide
      exact hdigit n hn h
    · obtain ⟨d, ds, hds⟩ := List.exists_cons_of_ne_nil
        (Nat.toDigits_ne_nil : Nat.toDigits 10 (n / 10) ≠ [])
      rw [Nat.toDigits_of_base_le (by decide) (by omega), hds, List.cons_append, List.head?_cons,
        ← List.head?_cons (l := ds), ← hds] at h
      have hzero := ih (n / 10) (by omega) h
      omega

/-- A natural number is read back. -/
theorem number?_toDigits (n : Nat) {rest : List Char} (h : EndsNumber rest) :
    Parser.number? (Nat.toDigits 10 n ++ rest) = some (.number n, rest) := by
  have hdigit : ∀ c ∈ Nat.toDigits 10 n, c.isDigit = true := fun c hc =>
    Nat.isDigit_of_mem_toDigits (by decide) (by decide) hc
  have hvalue : valueOf (Nat.toDigits 10 n) = n := by
    have hchars := Nat.ofDigitChars_toDigits (b := 10) (n := n) (by decide) (by decide)
    simp only [Nat.ofDigitChars, Nat.mul_comm 10] at hchars
    exact hchars
  have hwhole :
      ¬ ((Nat.toDigits 10 n).head? = some '0' && (Nat.toDigits 10 n).length ≠ 1) = true := by
    intro hzero
    simp only [Bool.and_eq_true, decide_eq_true_eq] at hzero
    obtain ⟨hhead, hlength⟩ := hzero
    rw [eq_zero_of_head?_toDigits hhead] at hlength
    exact hlength rfl
  have hdigits := digits?_append Nat.toDigits_ne_nil hdigit h
  obtain ⟨d, ds, hds⟩ := List.exists_cons_of_ne_nil (Nat.toDigits_ne_nil (n := n) (b := 10))
  have hsign : d ≠ '-' := by
    rintro rfl
    exact absurd (hdigit '-' (by rw [hds]; exact List.mem_cons_self)) (by decide)
  unfold Parser.number?
  rw [hds, List.cons_append]
  split
  rename_i sign cs hsplit
  split at hsplit
  · rename_i hminus
    exact absurd (List.head_eq_of_cons_eq hminus) hsign
  · obtain ⟨rfl, rfl⟩ := Prod.mk.inj hsplit
    rw [← List.cons_append, ← hds, hdigits]
    simp only [Option.bind_eq_bind, Option.bind_some]
    rw [if_neg hwhole, fraction?_of_endsNumber h]
    simp only [Option.bind_some]
    rw [exponent?_of_endsNumber h]
    simp [hvalue]

end LiterateJournal.Json
