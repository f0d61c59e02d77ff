import LiterateJournal.Proofs.Json.Printing

/-!
# The shapes of encoded values

Cases, structures and lists as JSON: how deep they nest, that they can be printed, and what is found
in them.

## Main statements

* `Json.isPlain_object_iff`, `Json.isPlain_list_iff`, `Json.isPlain_ofCase_iff` — plain values by
  their parts.
* `Json.list?_map` — the items of a list are read one by one.
-/

namespace LiterateJournal.Json

/-! ### Plain values -/

@[simp] theorem isPlain_null : IsPlain .null := .null

@[simp] theorem isPlain_bool (b : Bool) : IsPlain (.bool b) := .bool b

@[simp] theorem isPlain_number (n : Nat) : IsPlain (.number n) := .number n

@[simp] theorem isPlain_text (s : String) : IsPlain (.text s) := .text s

@[simp] theorem isPlain_list_iff {items : List Json} :
    IsPlain (.list items) ↔ ∀ j ∈ items, IsPlain j :=
  ⟨fun h => by cases h; assumption, .list⟩

@[simp] theorem isPlain_object_iff {fields : List (String × Json)} : IsPlain (.object fields) ↔
    (fields.map Prod.fst).Nodup ∧ ∀ f ∈ fields, IsPlain f.2 :=
  ⟨fun h => by cases h; exact ⟨‹_›, ‹_›⟩, fun h => .object h.1 h.2⟩

@[simp] theorem isPlain_ofCase_iff {name : String} {j : Json} :
    IsPlain (ofCase name j) ↔ IsPlain j := by
  simp [ofCase]

@[simp] theorem isPlain_ofText? (s : Option String) : IsPlain (ofText? s) := by
  cases s <;> simp [ofText?]

/-! ### Depths -/

@[simp] theorem depth_ofCase (name : String) (j : Json) : (ofCase name j).depth = j.depth + 1 := by
  simp [ofCase, depth, depthOfFields]

@[simp] theorem depth_ofText? (s : Option String) : (ofText? s).depth = 0 := by
  cases s <;> simp [ofText?, depth]

/-! ### Access -/

@[simp] theorem text?_text (s : String) : (Json.text s).text? = some s := rfl

@[simp] theorem bool?_bool (b : Bool) : (Json.bool b).bool? = some b := rfl

@[simp] theorem case?_ofCase (name : String) (j : Json) : (ofCase name j).case? = some (name, j) :=
  rfl

@[simp] theorem nullable?_ofText? (s : Option String) : nullable? text? (ofText? s) = some s := by
  cases s <;> rfl

@[simp] theorem field?_object_cons (name key : String) (j : Json) (fields : List (String × Json)) :
    (Json.object ((name, j) :: fields)).field? key =
      if key = name then some j else (Json.object fields).field? key := by
  by_cases hkey : key = name <;> simp [field?, List.lookup_cons, hkey, beq_eq_false_iff_ne.2]

/-- A case with content is no case of another name without content. -/
theorem caseName?_ofCase_ne {name other : String} (j : Json) (h : name ≠ other) :
    (ofCase name j).caseName? ≠ some other := by
  cases j <;> simp [ofCase, caseName?, h]

theorem number?_of_lt {bound n : Nat} (h : n < bound) : (Json.number n).number? bound = some n :=
  if_pos h

section

variable {α : Type} {toJson : α → Json} {item? : Json → Option α}

theorem list?_cons (j : Json) (js : List Json) : Json.list? item? (.list (j :: js)) =
    (item? j).bind fun a => (Json.list? item? (.list js)).map (a :: ·) := by
  rw [list?, List.mapM_cons]
  cases item? j with
  | none => rfl
  | some a =>
    rw [list?]
    cases js.mapM item? <;> rfl

/-- A list is read item by item. -/
theorem list?_map {as : List α} (h : ∀ a ∈ as, item? (toJson a) = some a) :
    Json.list? item? (.list (as.map toJson)) = some as := by
  induction as with
  | nil => rfl
  | cons a as ih =>
    obtain ⟨ha, has⟩ := List.forall_mem_cons.1 h
    rw [List.map_cons, list?_cons, ha, ih has]
    rfl

/-- What is read from a list is read from one of its items. -/
theorem exists_of_mem_list? {j : Json} {as : List α} (h : Json.list? item? j = some as) {a : α}
    (ha : a ∈ as) : ∃ k, item? k = some a := by
  cases j with
  | list js =>
    induction js generalizing as with
    | nil =>
      obtain rfl : [] = as := Option.some.inj h
      cases ha
    | cons k js ih =>
      rw [list?_cons, Option.bind_eq_some_iff] at h
      obtain ⟨b, hb, h⟩ := h
      obtain ⟨bs, hbs, rfl⟩ := Option.map_eq_some_iff.1 h
      obtain rfl | ha := List.mem_cons.1 ha
      · exact ⟨k, hb⟩
      · exact ih ha hbs
  | _ => cases h

end

end LiterateJournal.Json
