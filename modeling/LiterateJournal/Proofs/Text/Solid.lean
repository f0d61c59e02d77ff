import LiterateJournal.Proofs.Text.Pieces
import LiterateJournal.Proofs.Text.Trim

/-!
# What white space leaves

Trimming a text, and taking it apart into lines and putting them together again, changes nothing but
white space.

## Main definitions

* `Text.solid` — the characters of a text that are not white space.

## Main statements

* `Text.solid_trim`, `Text.flatMap_solid_lines`, `Text.solid_joinWith` — they stay as they are.
* `Text.sublist_joinWith_lines` — lines that are joined again are part of the text.
* `Text.trimStart_joinWith_append`, `Text.trimEnd_joinWith_append` — blank pieces at the ends do not
  count once a text is trimmed.
-/

namespace LiterateJournal.Text

def solid (cs : List Char) : List Char := cs.filter fun c => !isBlank c

@[simp] theorem solid_nil : solid [] = [] := rfl

@[simp] theorem solid_append (cs ds : List Char) : solid (cs ++ ds) = solid cs ++ solid ds :=
  List.filter_append cs ds

theorem solid_eq_nil_iff {cs : List Char} : solid cs = [] ↔ ∀ c ∈ cs, isBlank c = true := by
  simp [solid]

theorem solid_trimEnd (cs : List Char) : solid (trimEnd cs) = solid cs := by
  obtain ⟨s, hs, hblank⟩ := exists_trimEnd_append cs
  have hsolid := congrArg solid hs
  rwa [solid_append, solid_eq_nil_iff.2 hblank, List.append_nil, eq_comm] at hsolid

theorem solid_trimStart (cs : List Char) : solid (trimStart cs) = solid cs := by
  obtain ⟨s, hs, hblank⟩ := exists_append_trimStart cs
  have hsolid := congrArg solid hs
  rwa [solid_append, solid_eq_nil_iff.2 hblank, List.nil_append, eq_comm] at hsolid

theorem solid_trim (cs : List Char) : solid (trim cs) = solid cs := by
  rw [trim, solid_trimEnd, solid_trimStart]

theorem solid_dropReturn (cs : List Char) : solid (dropReturn cs) = solid cs := by
  unfold dropReturn
  split
  · rename_i hlast
    obtain ⟨init, rfl⟩ := List.getLast?_eq_some_iff.1 hlast
    rw [List.dropLast_concat, solid_append]
    have hreturn : solid ['\r'] = [] := by decide
    rw [hreturn, List.append_nil]
  · rfl

/-- White space between pieces does not count. -/
theorem solid_joinWith {sep : List Char} (h : solid sep = []) (ps : List (List Char)) :
    solid (joinWith sep ps) = ps.flatMap solid := by
  induction ps with
  | nil => rfl
  | cons p ps ih =>
    cases ps with
    | nil => simp [joinWith]
    | cons q ps => simp [joinWith, h, ← ih]

/-- Blank pieces make a blank text. -/
theorem solid_joinWith_eq_nil {sep : List Char} {bs : List (List Char)} (hsep : solid sep = [])
    (h : ∀ b ∈ bs, solid b = []) : solid (joinWith sep bs) = [] := by
  rw [solid_joinWith hsep, List.flatMap_eq_nil_iff]
  exact h

/-! ### Lines -/

/-- The lines of a text are its pieces between line feeds, without carriage returns at their ends
and without a last one that is empty. -/
theorem exists_lines_eq (cs : List Char) :
    ∃ init last, cutAt '\n' cs = init ++ [last] ∧
      lines cs = init.map dropReturn ++ if last.isEmpty then [] else [last] := by
  obtain hnil | ⟨init, last, hcut⟩ := List.eq_nil_or_concat (cutAt '\n' cs)
  · exact absurd hnil (cutAt_ne_nil '\n' cs)
  · rw [List.concat_eq_append] at hcut
    refine ⟨init, last, hcut, ?_⟩
    rw [lines, hcut]
    cases last <;> simp

/-- The lines of a text have all its characters that are not white space. -/
theorem flatMap_solid_lines (cs : List Char) : (lines cs).flatMap solid = solid cs := by
  have hpieces : (cutAt '\n' cs).flatMap solid = solid cs := by
    rw [← solid_joinWith (by decide : solid ['\n'] = []), joinWith_cutAt]
  obtain ⟨init, last, hcut, hlines⟩ := exists_lines_eq cs
  have hclosed : (init.map dropReturn).flatMap solid = init.flatMap solid := by
    rw [List.flatMap_map]
    simp only [solid_dropReturn]
  rw [← hpieces, hlines, hcut, List.flatMap_append, List.flatMap_append, hclosed]
  cases last <;> simp

theorem sublist_dropReturn (cs : List Char) : (dropReturn cs).Sublist cs := by
  unfold dropReturn
  split
  · exact List.dropLast_sublist cs
  · exact List.Sublist.refl cs

/-- The lines of a text, with line feeds between them, are part of the text. -/
theorem sublist_joinWith_lines (cs : List Char) : (joinWith ['\n'] (lines cs)).Sublist cs := by
  obtain ⟨init, last, hcut, hlines⟩ := exists_lines_eq cs
  have hclosed : List.Forall₂ List.Sublist (init.map dropReturn) init := by
    rw [List.forall₂_map_left_iff, List.forall₂_same]
    exact fun line _ => sublist_dropReturn line
  have hwhole := joinWith_cutAt '\n' cs
  rw [hcut] at hwhole
  rw [hlines, ← hwhole]
  cases last with
  | cons c last =>
    exact sublist_joinWith _ (List.rel_append hclosed (.cons (List.Sublist.refl _) .nil))
  | nil =>
    -- a line feed at the very end belongs to no line
    rw [List.isEmpty_nil, if_pos rfl, List.append_nil]
    refine (sublist_joinWith _ hclosed).trans ?_
    cases init with
    | nil => exact List.nil_sublist _
    | cons p ps =>
      rw [joinWith_append _ (by simp) (by simp), List.append_assoc]
      exact List.sublist_append_left _ _

/-! ### Blank pieces at the ends -/

section

variable {sep : List Char} {bs : List (List Char)}

theorem trimStart_joinWith_append (hsep : solid sep = []) (h : ∀ b ∈ bs, solid b = [])
    (ps : List (List Char)) :
    trimStart (joinWith sep (bs ++ ps)) = trimStart (joinWith sep ps) := by
  have hjoin := solid_joinWith_eq_nil hsep h
  by_cases hbs : bs = []
  · rw [hbs, List.nil_append]
  by_cases hps : ps = []
  · have hempty := trimStart_append_of_blank (solid_eq_nil_iff.1 hjoin) []
    rw [List.append_nil] at hempty
    rw [hps, List.append_nil, hempty]
    rfl
  · rw [joinWith_append sep hbs hps]
    exact trimStart_append_of_blank (solid_eq_nil_iff.1 (by simp [hjoin, hsep])) _

theorem trimEnd_joinWith_append (hsep : solid sep = []) (h : ∀ b ∈ bs, solid b = [])
    (ps : List (List Char)) :
    trimEnd (joinWith sep (ps ++ bs)) = trimEnd (joinWith sep ps) := by
  have hjoin := solid_joinWith_eq_nil hsep h
  by_cases hbs : bs = []
  · rw [hbs, List.append_nil]
  by_cases hps : ps = []
  · rw [hps, List.nil_append]
    exact trimEnd_eq_nil (solid_eq_nil_iff.1 hjoin)
  · rw [joinWith_append sep hps hbs, List.append_assoc]
    exact trimEnd_append_of_blank _ (solid_eq_nil_iff.1 (by simp [hjoin, hsep]))

end

end LiterateJournal.Text
