import Mathlib.Data.List.Forall2
import LiterateJournal.Text.Blank

/-!
# Pieces of a text

To cut a text at a character and to join the pieces again undo each other.

## Main statements

* `Text.joinWith_cutAt` — pieces that are joined are the text that was cut.
* `Text.cutAt_joinWith` — a text that is cut is the pieces that were joined.
* `Text.eq_of_joinWith_eq` — pieces are known by their joins with two characters.
-/

namespace LiterateJournal.Text

theorem cutAt_of_not_mem {sep : Char} {cs : List Char} (h : sep ∉ cs) : cutAt sep cs = [cs] := by
  induction cs with
  | nil => rfl
  | cons c cs ih =>
    have hne : c ≠ sep := fun hc => h (hc ▸ List.mem_cons_self)
    rw [cutAt, if_neg hne, ih fun hc => h (List.mem_cons_of_mem _ hc)]

theorem cutAt_ne_nil (sep : Char) (cs : List Char) : cutAt sep cs ≠ [] := by
  fun_induction cutAt sep cs <;> simp

theorem cutAt_append_cons (sep : Char) (cs ds : List Char) :
    cutAt sep (cs ++ sep :: ds) = cutAt sep cs ++ cutAt sep ds := by
  induction cs with
  | nil => simp [cutAt]
  | cons c cs ih =>
    by_cases hc : c = sep
    · simp [cutAt, hc, ih]
    · obtain ⟨p, ps, hcut⟩ := List.exists_cons_of_ne_nil (cutAt_ne_nil sep cs)
      simp [cutAt, hc, ih, hcut]

theorem not_mem_of_mem_cutAt {sep : Char} {cs p : List Char} (h : p ∈ cutAt sep cs) : sep ∉ p := by
  induction cs generalizing p with
  | nil => simp_all [cutAt]
  | cons c cs ih =>
    obtain ⟨q, qs, hcut⟩ := List.exists_cons_of_ne_nil (cutAt_ne_nil sep cs)
    rw [hcut] at ih
    by_cases hc : c = sep
    · simp only [cutAt, hc, if_true, hcut, List.mem_cons] at h ih
      obtain rfl | h := h
      · simp
      · exact ih h
    · simp only [cutAt, hc, if_false, hcut, List.mem_cons] at h ih
      obtain rfl | h := h
      · simpa [Ne.symm hc] using ih (.inl rfl)
      · exact ih (.inr h)

theorem joinWith_cons_of_ne_nil (sep p : List Char) {ps : List (List Char)} (h : ps ≠ []) :
    joinWith sep (p :: ps) = p ++ sep ++ joinWith sep ps := by
  cases ps with
  | nil => exact absurd rfl h
  | cons => rfl

theorem joinWith_append (sep : List Char) {ps qs : List (List Char)} (hp : ps ≠ [])
    (hq : qs ≠ []) : joinWith sep (ps ++ qs) = joinWith sep ps ++ sep ++ joinWith sep qs := by
  induction ps with
  | nil => exact absurd rfl hp
  | cons p ps ih =>
    rw [List.cons_append, joinWith_cons_of_ne_nil sep p (by simp [hq])]
    by_cases h : ps = []
    · subst h
      rfl
    · rw [ih h, joinWith_cons_of_ne_nil sep p h]
      simp only [List.append_assoc]

theorem joinWith_cutAt (sep : Char) (cs : List Char) : joinWith [sep] (cutAt sep cs) = cs := by
  induction cs with
  | nil => rfl
  | cons c cs ih =>
    obtain ⟨p, ps, hcut⟩ := List.exists_cons_of_ne_nil (cutAt_ne_nil sep cs)
    by_cases hc : c = sep
    · rw [cutAt, if_pos hc, joinWith_cons_of_ne_nil _ _ (cutAt_ne_nil sep cs), ih, hc]
      rfl
    · rw [hcut] at ih
      rw [cutAt, if_neg hc, hcut]
      cases ps <;> simpa [joinWith] using ih

theorem cutAt_joinWith {sep : Char} {ps : List (List Char)} (hne : ps ≠ [])
    (h : ∀ p ∈ ps, sep ∉ p) : cutAt sep (joinWith [sep] ps) = ps := by
  induction ps with
  | nil => exact absurd rfl hne
  | cons p ps ih =>
    by_cases hps : ps = []
    · subst hps
      exact cutAt_of_not_mem (h p List.mem_cons_self)
    · rw [joinWith_cons_of_ne_nil _ _ hps, List.append_assoc, List.singleton_append,
        cutAt_append_cons, cutAt_of_not_mem (h p List.mem_cons_self),
        ih hps fun q hq => h q (List.mem_cons_of_mem _ hq)]
      rfl

theorem cons_joinWith (sep : List Char) (c : Char) (p : List Char) (ps : List (List Char)) :
    joinWith sep ((c :: p) :: ps) = c :: joinWith sep (p :: ps) := by
  cases ps <;> rfl

theorem append_joinWith (sep cs p : List Char) (ps : List (List Char)) :
    joinWith sep ((cs ++ p) :: ps) = cs ++ joinWith sep (p :: ps) := by
  cases ps <;> simp [joinWith]

theorem length_joinWith (sep p : List Char) (ps : List (List Char)) :
    (joinWith sep (p :: ps)).length = (p :: ps).flatten.length + ps.length * sep.length := by
  induction ps generalizing p with
  | nil => simp [joinWith]
  | cons q ps ih =>
    simp only [joinWith_cons_of_ne_nil sep p (List.cons_ne_nil q ps), List.length_append, ih,
      List.flatten_cons, List.length_cons, Nat.add_mul]
    omega

/-- Parts of pieces make a part of the text. -/
theorem sublist_joinWith (sep : List Char) {ps qs : List (List Char)}
    (h : List.Forall₂ List.Sublist ps qs) : (joinWith sep ps).Sublist (joinWith sep qs) := by
  induction h with
  | nil => exact List.Sublist.refl []
  | @cons p q ps qs hp hrest ih =>
    cases hrest with
    | nil => exact hp
    | cons _ _ => exact (hp.append (List.Sublist.refl sep)).append ih

/-- Pieces are known by their joins with two different characters. -/
theorem eq_of_joinWith_eq {x y : Char} (hne : x ≠ y) {p q : List Char} {ps qs : List (List Char)}
    (hx : joinWith [x] (p :: ps) = joinWith [x] (q :: qs))
    (hy : joinWith [y] (p :: ps) = joinWith [y] (q :: qs)) : p = q ∧ ps = qs := by
  -- a character at which one piece goes on and the other ends would be both `x` and `y`
  induction ps generalizing p q qs with
  | nil =>
    induction p generalizing q with
    | nil => cases q <;> cases qs <;> simp_all [joinWith]
    | cons c p ih =>
      cases q with
      | nil => cases qs <;> simp_all [joinWith]
      | cons d q =>
        simp only [cons_joinWith, List.cons.injEq] at hx hy
        obtain ⟨rfl, rfl⟩ := ih hx.2 hy.2
        exact ⟨by rw [hx.1], rfl⟩
  | cons p' ps ihs =>
    induction p generalizing q with
    | nil =>
      cases q with
      | nil =>
        cases qs with
        | nil => simp [joinWith] at hx
        | cons q' qs =>
          obtain ⟨rfl, rfl⟩ := ihs (by simpa [joinWith] using hx) (by simpa [joinWith] using hy)
          exact ⟨rfl, rfl⟩
      | cons d q =>
        simp only [cons_joinWith, joinWith, List.nil_append, List.cons_append,
          List.cons.injEq] at hx hy
        exact absurd (hx.1.trans hy.1.symm) hne
    | cons c p ih =>
      cases q with
      | nil =>
        cases qs with
        | nil => simp [joinWith] at hx
        | cons q' qs =>
          simp only [joinWith, List.nil_append, List.cons_append, List.cons.injEq] at hx hy
          exact absurd (hx.1.symm.trans hy.1) hne
      | cons d q =>
        simp only [cons_joinWith, List.cons.injEq] at hx hy
        obtain ⟨rfl, rfl⟩ := ih hx.2 hy.2
        exact ⟨by rw [hx.1], rfl⟩

end LiterateJournal.Text
