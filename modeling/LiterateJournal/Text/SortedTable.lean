/-!
# Tables sorted by name

An association list in strictly increasing order of its names. Names are compared character by
character.

## Main definitions

* `SortedTable` — the table, with its order as a proof field.
* `SortedTable.insert`, `SortedTable.get?`, `SortedTable.merge` — its operations.

## Main statements

* `SortedTable.get?_insert` — a lookup after an insertion.
-/

namespace LiterateJournal

universe u

namespace SortedTable

def Increasing {α : Type u} (entries : List (String × α)) : Prop :=
  entries.Pairwise fun a b => a.1 < b.1

def insertEntry {α : Type u} (key : String) (value : α) : List (String × α) → List (String × α)
  | [] => [(key, value)]
  | (k, v) :: rest =>
    if key < k then (key, value) :: (k, v) :: rest
    else if key = k then (key, value) :: rest
    else (k, v) :: insertEntry key value rest

theorem mem_insertEntry {α : Type u} {key : String} {value : α} {entries : List (String × α)}
    {e : String × α} (h : e ∈ insertEntry key value entries) :
    e = (key, value) ∨ e ∈ entries := by
  induction entries with
  | nil => simpa [insertEntry] using h
  | cons x rest ih =>
    obtain ⟨k, v⟩ := x
    simp only [insertEntry] at h
    split at h
    · simpa using h
    · split at h
      · rcases List.mem_cons.1 h with h | h
        · exact .inl h
        · exact .inr (List.mem_cons_of_mem _ h)
      · rcases List.mem_cons.1 h with h | h
        · exact .inr (h ▸ List.mem_cons_self)
        · exact (ih h).imp_right (List.mem_cons_of_mem _)

theorem lt_of_not_le {a b : String} (h : ¬ a < b) (hne : a ≠ b) : b < a :=
  Decidable.byContradiction fun hba => hne (String.le_antisymm hba h)

theorem increasing_insertEntry {α : Type u} {key : String} {value : α}
    {entries : List (String × α)} (h : Increasing entries) :
    Increasing (insertEntry key value entries) := by
  induction entries with
  | nil => simp [insertEntry, Increasing]
  | cons x rest ih =>
    obtain ⟨k, v⟩ := x
    have hrest := List.pairwise_cons.1 h
    simp only [insertEntry]
    split
    · rename_i hlt
      refine List.pairwise_cons.2 ⟨fun e he => ?_, h⟩
      rcases List.mem_cons.1 he with rfl | he
      · exact hlt
      · exact String.lt_trans hlt (hrest.1 e he)
    · split
      · rename_i heq
        subst heq
        exact List.pairwise_cons.2 ⟨hrest.1, hrest.2⟩
      · rename_i hnlt hne
        refine List.pairwise_cons.2 ⟨fun e he => ?_, ih hrest.2⟩
        rcases mem_insertEntry he with rfl | he
        · exact lt_of_not_le hnlt hne
        · exact hrest.1 e he

end SortedTable

/-- A finite map from names to values, in increasing order of the names. -/
structure SortedTable (α : Type u) where
  entries : List (String × α)
  increasing : SortedTable.Increasing entries

namespace SortedTable

variable {α : Type u}

def empty : SortedTable α := ⟨[], List.Pairwise.nil⟩

instance : EmptyCollection (SortedTable α) := ⟨empty⟩
instance : Inhabited (SortedTable α) := ⟨empty⟩
instance [BEq α] : BEq (SortedTable α) := ⟨fun a b => a.entries == b.entries⟩

@[ext] theorem ext {a b : SortedTable α} (h : a.entries = b.entries) : a = b := by
  cases a; cases b; cases h; rfl

def size (t : SortedTable α) : Nat := t.entries.length

def isEmpty (t : SortedTable α) : Bool := t.entries.isEmpty

def get? (t : SortedTable α) (key : String) : Option α := t.entries.lookup key

def insert (t : SortedTable α) (key : String) (value : α) : SortedTable α :=
  ⟨insertEntry key value t.entries, increasing_insertEntry t.increasing⟩

def merge (t other : SortedTable α) : SortedTable α :=
  other.entries.foldl (fun t e => t.insert e.1 e.2) t

/-- The table that holds some entries, the later of two under one name. -/
def ofList (entries : List (String × α)) : SortedTable α :=
  entries.foldl (fun t e => t.insert e.1 e.2) empty

theorem lookup_insertEntry (key k : String) (value : α) (entries : List (String × α)) :
    (insertEntry key value entries).lookup k =
      if k = key then some value else entries.lookup k := by
  induction entries with
  | nil => by_cases hk : k = key <;> simp [insertEntry, List.lookup_cons, hk, beq_eq_false_iff_ne.2]
  | cons x rest ih =>
    obtain ⟨k', v⟩ := x
    simp only [insertEntry]
    split
    · by_cases hk : k = key <;> simp [List.lookup_cons, hk, beq_eq_false_iff_ne.2]
    · split
      · rename_i heq
        subst heq
        by_cases hk : k = key <;> simp [List.lookup_cons, hk, beq_eq_false_iff_ne.2]
      · rename_i hne
        rw [List.lookup_cons, List.lookup_cons, ih]
        by_cases hk : k = key
        · subst hk
          have : (k == k') = false := by simpa using hne
          simp [this]
        · simp [hk]

@[simp] theorem get?_empty (key : String) : (empty : SortedTable α).get? key = none := rfl

theorem get?_insert (t : SortedTable α) (key k : String) (value : α) :
    (t.insert key value).get? k = if k = key then some value else t.get? k :=
  lookup_insertEntry key k value t.entries

end SortedTable

end LiterateJournal
