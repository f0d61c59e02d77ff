import LiterateJournal.Text.SortedTable
import Mathlib.Data.List.Sort

/-!
# Sorted tables as maps

A sorted table is determined by its lookups, since its names increase. Entries under different names
can thus be put in it in any order.

## Main statements

* `SortedTable.isSome_get?_iff` — what can be looked up.
* `SortedTable.ext_get?` — tables with the same lookups are equal.
* `SortedTable.insert_comm` — two insertions that do not overwrite each other.
* `SortedTable.get?_merge` — a lookup after a merge.
-/

namespace LiterateJournal

namespace SortedTable

universe u

variable {α : Type u}

theorem lookup_eq_some_iff_of_increasing {entries : List (String × α)}
    (h : Increasing entries) {x : String} {a : α} :
    entries.lookup x = some a ↔ (x, a) ∈ entries := by
  induction entries with
  | nil => simp
  | cons c entries ih =>
    obtain ⟨y, b⟩ := c
    obtain ⟨hfirst, hrest⟩ := List.pairwise_cons.1 h
    by_cases hx : x = y
    · subst hx
      have hnot : (x, a) ∉ entries := fun hmem => String.lt_irrefl x (hfirst (x, a) hmem)
      simp [hnot, eq_comm]
    · simp [List.lookup_cons, beq_eq_false_iff_ne.2 hx, ih hrest, hx]

/-- What can be looked up are the names of the table. -/
theorem isSome_get?_iff (t : SortedTable α) {key : String} :
    (t.get? key).isSome = true ↔ key ∈ t.entries.map Prod.fst := by
  simp only [get?, Option.isSome_iff_exists, lookup_eq_some_iff_of_increasing t.increasing,
    List.mem_map, Prod.exists, exists_and_right, exists_eq_right]

theorem nodup_names (t : SortedTable α) : (t.entries.map Prod.fst).Nodup :=
  List.pairwise_map.2 (t.increasing.imp fun hlt => String.ne_of_lt hlt)

/-- Tables with the same lookups are equal. -/
theorem ext_get? {s t : SortedTable α} (h : ∀ key, s.get? key = t.get? key) : s = t := by
  have : Std.Irrefl fun a b : String × α => a.1 < b.1 := ⟨fun a => String.lt_irrefl a.1⟩
  have : Std.Antisymm fun a b : String × α => a.1 < b.1 :=
    ⟨fun a b hab hba => absurd (String.lt_trans hab hba) (String.lt_irrefl a.1)⟩
  refine SortedTable.ext (s.increasing.eq_of_mem_iff t.increasing fun (key, a) => ?_)
  rw [← lookup_eq_some_iff_of_increasing s.increasing,
    ← lookup_eq_some_iff_of_increasing t.increasing]
  exact iff_of_eq (congrArg (· = some a) (h key))

/-- Two insertions commute if they are under different names or set the same value. -/
theorem insert_comm (t : SortedTable α) {x y : String} {a b : α} (h : x = y → a = b) :
    (t.insert x a).insert y b = (t.insert y b).insert x a := by
  refine ext_get? fun key => ?_
  simp only [get?_insert]
  by_cases hx : key = x <;> by_cases hy : key = y <;> grind

theorem get?_foldl_insert {entries : List (String × α)} (h : Increasing entries)
    (t : SortedTable α) (key : String) :
    (entries.foldl (fun t e => t.insert e.1 e.2) t).get? key =
      (entries.lookup key).or (t.get? key) := by
  induction entries generalizing t with
  | nil => rfl
  | cons c entries ih =>
    obtain ⟨x, a⟩ := c
    obtain ⟨hfirst, hrest⟩ := List.pairwise_cons.1 h
    rw [List.foldl_cons, ih hrest, get?_insert, List.lookup_cons]
    by_cases hkey : key = x
    · subst hkey
      have hnone : entries.lookup key = none := by
        rw [List.lookup_eq_none_iff]
        intro e he
        exact bne_iff_ne.2 (String.ne_of_lt (hfirst e he))
      simp [hnone]
    · simp [hkey, beq_eq_false_iff_ne.2 hkey]

/-- A table is made again from its entries. -/
theorem ofList_entries (t : SortedTable α) : ofList t.entries = t := by
  refine ext_get? fun key => ?_
  rw [ofList, get?_foldl_insert t.increasing, get?_empty, Option.or_none, get?]

/-- The entries of the table that is put in win. -/
theorem get?_merge (t other : SortedTable α) (key : String) :
    (t.merge other).get? key = (other.get? key).or (t.get? key) :=
  get?_foldl_insert other.increasing t key

end SortedTable

end LiterateJournal
