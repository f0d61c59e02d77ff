import LiterateJournal.Proofs.Json.Grammar

/-!
# Printed JSON

What is printed for a value, on one line or on many, is a text of it. So both are read back as the
value, if it does not nest too deep.

## Main definitions

* `Json.IsPlain` — a value without other numbers than natural ones and without two fields of one
  name in an object.

## Main statements

* `Json.IsPlain.exists_written`, `Json.IsPlain.written_writeLines` — what is printed is a text.
* `Json.parse?_render`, `Json.parse?_renderLines` — it is read back.
-/

namespace LiterateJournal.Json

/-- A value without other numbers than natural ones and without two fields of one name in an
object. -/
inductive IsPlain : Json → Prop
  | null : IsPlain .null
  | bool (b : Bool) : IsPlain (.bool b)
  | number (n : Nat) : IsPlain (.number n)
  | text (s : String) : IsPlain (.text s)
  | list {items : List Json} (plain : ∀ j ∈ items, IsPlain j) : IsPlain (.list items)
  | object {fields : List (String × Json)} (distinct : (fields.map Prod.fst).Nodup)
    (plain : ∀ f ∈ fields, IsPlain f.2) : IsPlain (.object fields)

section

variable {j : Json}

/-! ### One line -/

theorem exists_writtenItems {js : List Json}
    (h : ∀ j ∈ js, ∀ rest, ∃ cs, Written j cs ∧ j.write rest = cs ++ rest) (rest : List Char) :
    ∃ cs, WrittenItems js cs ∧ writeItems js rest = cs ++ rest := by
  induction js with
  | nil => exact ⟨_, .nil isGap_nil, rfl⟩
  | cons j js ih =>
    obtain ⟨hj, hjs⟩ := List.forall_mem_cons.1 h
    obtain ⟨ds, hds, hmore⟩ := ih hjs
    obtain ⟨cs, hcs, hfirst⟩ := hj (ds ++ rest)
    refine ⟨_, .cons isGap_nil isGap_nil hcs hds, ?_⟩
    rw [writeItems, hmore, hfirst]
    simp

theorem exists_writtenFields {fs : List (String × Json)}
    (h : ∀ f ∈ fs, ∀ rest, ∃ cs, Written f.2 cs ∧ f.2.write rest = cs ++ rest)
    (rest : List Char) : ∃ cs, WrittenFields fs cs ∧ writeFields fs rest = cs ++ rest := by
  induction fs with
  | nil => exact ⟨_, .nil isGap_nil, rfl⟩
  | cons f fs ih =>
    obtain ⟨hf, hfs⟩ := List.forall_mem_cons.1 h
    obtain ⟨ds, hds, hmore⟩ := ih hfs
    obtain ⟨cs, hcs, hfirst⟩ := hf (ds ++ rest)
    refine ⟨_, .cons isGap_nil isGap_nil (.mk isGap_nil isGap_nil hcs) hds, ?_⟩
    rw [writeFields, hmore, hfirst]
    simp

/-- What is printed on one line is a text of the value, before what follows. -/
theorem IsPlain.exists_written (h : j.IsPlain) (rest : List Char) :
    ∃ cs, Written j cs ∧ j.write rest = cs ++ rest := by
  induction h generalizing rest with
  | null => exact ⟨_, .null, rfl⟩
  | bool b => cases b with
    | false => exact ⟨_, .falseValue, rfl⟩
    | true => exact ⟨_, .trueValue, rfl⟩
  | number n => exact ⟨_, .number n, rfl⟩
  | text s => exact ⟨_, .text s, rfl⟩
  | @list items _ ih => cases items with
    | nil => exact ⟨_, .emptyList isGap_nil, rfl⟩
    | cons j js =>
      obtain ⟨hj, hjs⟩ := List.forall_mem_cons.1 ih
      obtain ⟨ds, hds, hmore⟩ := exists_writtenItems hjs rest
      obtain ⟨cs, hcs, hfirst⟩ := hj (ds ++ rest)
      refine ⟨_, .list isGap_nil hcs hds, ?_⟩
      rw [write, hmore, hfirst]
      simp
  | @object fields distinct _ ih => cases fields with
    | nil => exact ⟨_, .emptyObject isGap_nil, rfl⟩
    | cons f fs =>
      obtain ⟨hf, hfs⟩ := List.forall_mem_cons.1 ih
      obtain ⟨ds, hds, hmore⟩ := exists_writtenFields hfs rest
      obtain ⟨cs, hcs, hfirst⟩ := hf (ds ++ rest)
      refine ⟨_, .object isGap_nil (.mk isGap_nil isGap_nil hcs) hds distinct, ?_⟩
      rw [write, hmore, hfirst]
      simp

/-! ### Many lines -/

theorem isGap_newLine (level : Nat) : IsGap (newLine level) := by
  intro c hc
  obtain rfl | hc := List.mem_cons.1 hc
  · rfl
  · rw [List.eq_of_mem_replicate hc]
    rfl

theorem writtenItems_lines {js : List Json} (level : Nat)
    (h : ∀ j ∈ js, ∀ level, Written j (j.writeLines level)) :
    WrittenItems js (writeItemLines level js) := by
  induction js with
  | nil => exact .nil (isGap_newLine level)
  | cons j js ih =>
    obtain ⟨hj, hjs⟩ := List.forall_mem_cons.1 h
    have hitems := WrittenItems.cons isGap_nil (isGap_newLine (level + 1)) (hj (level + 1)) (ih hjs)
    simpa [writeItemLines] using hitems

theorem writtenFields_lines {fs : List (String × Json)} (level : Nat)
    (h : ∀ f ∈ fs, ∀ level, Written f.2 (f.2.writeLines level)) :
    WrittenFields fs (writeFieldLines level fs) := by
  have hspace : IsGap [' '] := by simp [IsGap, Parser.isGap]
  induction fs with
  | nil => exact .nil (isGap_newLine level)
  | cons f fs ih =>
    obtain ⟨hf, hfs⟩ := List.forall_mem_cons.1 h
    have hfield : WrittenField (f.1, f.2) _ := .mk isGap_nil hspace (hf (level + 1))
    have hfields := WrittenFields.cons isGap_nil (isGap_newLine (level + 1)) hfield (ih hfs)
    simpa [writeFieldLines] using hfields

/-- What is printed on many lines is a text of the value. -/
theorem IsPlain.written_writeLines (h : j.IsPlain) (level : Nat) :
    Written j (j.writeLines level) := by
  have hspace : IsGap [' '] := by simp [IsGap, Parser.isGap]
  induction h generalizing level with
  | null => exact .null
  | bool b => cases b with
    | false => exact .falseValue
    | true => exact .trueValue
  | number n => simpa [writeLines, write] using Written.number n
  | text s => simpa [writeLines, write] using Written.text s
  | @list items _ ih => cases items with
    | nil => exact .emptyList isGap_nil
    | cons j js =>
      obtain ⟨hj, hjs⟩ := List.forall_mem_cons.1 ih
      have hlist := Written.list (isGap_newLine (level + 1)) (hj (level + 1))
        (writtenItems_lines level hjs)
      simpa [writeLines] using hlist
  | @object fields distinct _ ih => cases fields with
    | nil => exact .emptyObject isGap_nil
    | cons f fs =>
      obtain ⟨hf, hfs⟩ := List.forall_mem_cons.1 ih
      have hfield : WrittenField (f.1, f.2) _ := .mk isGap_nil hspace (hf (level + 1))
      have hobject := Written.object (isGap_newLine (level + 1)) hfield
        (writtenFields_lines level hfs) distinct
      simpa [writeLines] using hobject

/-! ### Reading back -/

/-- A value that is printed on one line is read back, unless it nests too deep. -/
theorem parse?_render (h : j.IsPlain) :
    parse? j.render = if j.depth ≤ maxDepth then some j else none := by
  obtain ⟨cs, hcs, hwrite⟩ := h.exists_written []
  rw [render, hwrite, List.append_nil, parse?_of_written hcs]

/-- A value that is printed on many lines is read back, unless it nests too deep. -/
theorem parse?_renderLines (h : j.IsPlain) :
    parse? j.renderLines = if j.depth ≤ maxDepth then some j else none :=
  parse?_of_written (h.written_writeLines 0)

end

end LiterateJournal.Json
