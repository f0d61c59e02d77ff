/-!
# Replacing marks in a text

A text is read from left to right, and where one of several marks stands, a value takes its place.
What has been put in is not read again.

## Main definitions

* `fillAll` — a text with several marks replaced at once.

## Main statements

* `fillAll_of_find?_eq_some`, `fillAll_of_find?_eq_none` — what happens at the start of a text.
-/

namespace LiterateJournal

/-- A text with the marks of a table replaced by their values, after passing over `skip`
characters. -/
def fillFrom (table : List (List Char × List Char)) : Nat → List Char → List Char
  | _, [] => []
  | n + 1, _ :: cs => fillFrom table n cs
  | 0, c :: cs =>
    match table.find? fun e => e.1.isPrefixOf (c :: cs) with
    | some (mark, value) => value ++ fillFrom table (mark.length - 1) cs
    | none => c :: fillFrom table 0 cs

/-- A text with the marks of a table replaced by their values, all at once. -/
def fillAll (table : List (List Char × List Char)) (text : List Char) : List Char :=
  fillFrom table 0 text

section

variable {table : List (List Char × List Char)} {mark value : List Char}

theorem fillFrom_eq (table : List (List Char × List Char)) (n : Nat) (cs : List Char) :
    fillFrom table n cs = fillAll table (cs.drop n) := by
  induction n generalizing cs with
  | zero => rfl
  | succ n ih =>
    cases cs with
    | nil => rfl
    | cons c cs => rw [fillFrom, ih, List.drop_succ_cons]

theorem fillAll_of_find?_eq_none {c : Char} {cs : List Char}
    (h : table.find? (fun e => e.1.isPrefixOf (c :: cs)) = none) :
    fillAll table (c :: cs) = c :: fillAll table cs := by
  rw [fillAll, fillFrom, h]
  rfl

theorem fillAll_of_find?_eq_some {rest : List Char} (hne : mark ≠ [])
    (h : table.find? (fun e => e.1.isPrefixOf (mark ++ rest)) = some (mark, value)) :
    fillAll table (mark ++ rest) = value ++ fillAll table rest := by
  obtain ⟨c, tail, rfl⟩ := List.exists_cons_of_ne_nil hne
  rw [List.cons_append] at h ⊢
  rw [fillAll, fillFrom, h]
  simp [fillFrom_eq]

theorem fillAll_nil_table (text : List Char) : fillAll [] text = text := by
  induction text with
  | nil => rfl
  | cons c cs ih => rw [fillAll_of_find?_eq_none rfl, ih]

theorem exists_append_of_find? {text : List Char}
    (h : table.find? (fun e => e.1.isPrefixOf text) = some (mark, value)) :
    (mark, value) ∈ table ∧ ∃ rest, mark ++ rest = text := by
  have hp := List.find?_some h
  exact ⟨List.mem_of_find?_eq_some h, List.isPrefixOf_iff_prefix.1 hp⟩

end

end LiterateJournal
