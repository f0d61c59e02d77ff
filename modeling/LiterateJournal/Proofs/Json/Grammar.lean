import LiterateJournal.Proofs.Json.Tokens

/-!
# JSON texts

A value can be written in many ways, with any white space between its tokens. All of them are read
back as the value, unless it nests too deep. The names of an object's fields are distinct; of fields
with one name only the last would be read.

## Main definitions

* `Json.Written` — a text of a value, from its first token to its last.
* `Json.Reads` — texts are read back, whatever follows them.

## Main statements

* `Json.reads` — texts are read back, if there is fuel for all their characters.
* `Json.parse?_of_written` — a text of a value, and nothing else.
-/

namespace LiterateJournal.Json

open Json.Parser

mutual

/-- A text of a value. -/
inductive Written : Json → List Char → Prop
  | null : Written .null ['n', 'u', 'l', 'l']
  | trueValue : Written (.bool true) ['t', 'r', 'u', 'e']
  | falseValue : Written (.bool false) ['f', 'a', 'l', 's', 'e']
  | number (n : Nat) : Written (.number n) (Nat.toDigits 10 n)
  | text (s : String) : Written (.text s) (quoted s)
  | emptyList {gap : List Char} (hgap : IsGap gap) : Written (.list []) ('[' :: gap ++ [']'])
  | list {gap cs ds : List Char} {j : Json} {js : List Json} (hgap : IsGap gap)
    (first : Written j cs) (more : WrittenItems js ds) :
    Written (.list (j :: js)) ('[' :: gap ++ cs ++ ds)
  | emptyObject {gap : List Char} (hgap : IsGap gap) :
    Written (.object []) ('\x7b' :: gap ++ ['\x7d'])
  | object {gap cs ds : List Char} {f : String × Json} {fs : List (String × Json)}
    (hgap : IsGap gap) (first : WrittenField f cs) (more : WrittenFields fs ds)
    (distinct : ((f :: fs).map Prod.fst).Nodup) :
    Written (.object (f :: fs)) ('\x7b' :: gap ++ cs ++ ds)

/-- A text of the further items of a list, with its closing bracket. -/
inductive WrittenItems : List Json → List Char → Prop
  | nil {gap : List Char} (hgap : IsGap gap) : WrittenItems [] (gap ++ [']'])
  | cons {gap gap' cs ds : List Char} {j : Json} {js : List Json} (hgap : IsGap gap)
    (hgap' : IsGap gap') (first : Written j cs) (more : WrittenItems js ds) :
    WrittenItems (j :: js) (gap ++ ',' :: gap' ++ cs ++ ds)

inductive WrittenField : String × Json → List Char → Prop
  | mk {gap gap' cs : List Char} {name : String} {j : Json} (hgap : IsGap gap)
    (hgap' : IsGap gap') (value : Written j cs) :
    WrittenField (name, j) (quoted name ++ gap ++ ':' :: gap' ++ cs)

/-- A text of the further fields of an object, with its closing brace. -/
inductive WrittenFields : List (String × Json) → List Char → Prop
  | nil {gap : List Char} (hgap : IsGap gap) : WrittenFields [] (gap ++ ['\x7d'])
  | cons {gap gap' cs ds : List Char} {f : String × Json} {fs : List (String × Json)}
    (hgap : IsGap gap) (hgap' : IsGap gap') (first : WrittenField f cs)
    (more : WrittenFields fs ds) : WrittenFields (f :: fs) (gap ++ ',' :: gap' ++ cs ++ ds)

end

section

variable {fuel : Nat} {gap cs ds rest : List Char} {j : Json} {js : List Json}
  {f : String × Json} {fs : List (String × Json)}

/-! ### What a text starts with -/

theorem ne_of_isDigit {c : Char} (hc : c.isDigit = true) {others : List Char}
    (h : ∀ d ∈ others, d.isDigit = false) : ∀ d ∈ others, c ≠ d := by
  rintro d hd rfl
  rw [h c hd] at hc
  cases hc

/-- A value starts with a token that closes nothing. -/
theorem Written.exists_cons (h : Written j cs) :
    ∃ c ds, cs = c :: ds ∧ isGap c = false ∧ c ≠ ']' := by
  have hdigit : ∀ c : Char, c.isDigit = true → isGap c = false ∧ c ≠ ']' := by
    intro c hc
    have hne : ∀ d ∈ [' ', '\n', '\t', '\r', ']'], c ≠ d := ne_of_isDigit hc (by simp)
    simpa [isGap, and_assoc] using hne
  cases h with
  | number n =>
    obtain ⟨d, ds, hds⟩ := List.exists_cons_of_ne_nil (Nat.toDigits_ne_nil (n := n) (b := 10))
    have hd := Nat.isDigit_of_mem_toDigits (b := 10) (n := n) (by decide) (by decide)
      (hds ▸ List.mem_cons_self)
    exact ⟨d, ds, hds, hdigit d hd⟩
  | _ => exact ⟨_, _, rfl, by decide, by decide⟩

theorem WrittenItems.endsNumber (h : WrittenItems js cs) (rest : List Char) :
    EndsNumber (cs ++ rest) := by
  cases h with
  | nil hgap =>
    rw [List.append_assoc]
    exact endsNumber_gap_append hgap (endsNumber_cons (by decide))
  | cons hgap =>
    simp only [List.append_assoc, List.cons_append]
    exact endsNumber_gap_append hgap (endsNumber_cons (by decide))

theorem WrittenFields.endsNumber (h : WrittenFields fs cs) (rest : List Char) :
    EndsNumber (cs ++ rest) := by
  cases h with
  | nil hgap =>
    rw [List.append_assoc]
    exact endsNumber_gap_append hgap (endsNumber_cons (by decide))
  | cons hgap =>
    simp only [List.append_assoc, List.cons_append]
    exact endsNumber_gap_append hgap (endsNumber_cons (by decide))

/-! ### Reading -/

theorem value?_gap_append (hgap : IsGap gap) : value? fuel (gap ++ cs) = value? fuel cs := by
  cases fuel with
  | zero => simp only [value?]
  | succ fuel => simp only [value?, skipGap_append hgap]

theorem field?_gap_append (hgap : IsGap gap) :
    Parser.field? fuel (gap ++ cs) = Parser.field? fuel cs := by
  cases fuel with
  | zero => simp only [Parser.field?]
  | succ fuel => simp only [Parser.field?, skipGap_append hgap]

theorem lastFields_of_nodup (h : (fs.map Prod.fst).Nodup) : lastFields fs = fs := by
  induction fs with
  | nil => rfl
  | cons f fs ih =>
    obtain ⟨hf, hfs⟩ := List.nodup_cons.1 h
    rw [lastFields, if_neg, ih hfs]
    intro hany
    obtain ⟨e, he, heq⟩ := List.any_eq_true.1 hany
    exact hf (List.mem_map.2 ⟨e, he, by simpa using heq⟩)

theorem value?_toDigits (n : Nat) (h : EndsNumber rest) :
    value? (fuel + 1) (Nat.toDigits 10 n ++ rest) = some (.number n, rest) := by
  obtain ⟨c, ds, hds, hgap, hclose⟩ := (Written.number n).exists_cons
  have hdigit : c.isDigit = true := Nat.isDigit_of_mem_toDigits (b := 10) (n := n) (by decide)
    (by decide) (hds ▸ List.mem_cons_self)
  have hnot : ∀ d ∈ ['n', 't', 'f', '"', '[', '\x7b'], c ≠ d := ne_of_isDigit hdigit (by simp)
  rw [← number?_toDigits n h, hds, List.cons_append, value?, skipGap_cons hgap]
  simp only [List.mem_cons, List.not_mem_nil, or_false, forall_eq_or_imp, forall_eq] at hnot
  split <;> simp_all

theorem value?_quoted {s : String} (h : (quoted s).length ≤ fuel + 1) :
    value? (fuel + 1) (quoted s ++ rest) = some (.text s, rest) := by
  have hopen (cs : List Char) : value? (fuel + 1) ('"' :: cs) =
      (string? fuel cs).map fun read => (.text (String.ofList read.1), read.2) := rfl
  rw [quoted, List.cons_append, List.append_assoc, List.singleton_append, hopen, string?_quoted h]
  simp

/-- What follows the bracket that opens a list. -/
theorem value?_bracket (cs : List Char) : value? (fuel + 1) ('[' :: cs) =
    match skipGap cs with
    | ']' :: cs => some (.list [], cs)
    | cs => (value? fuel cs).bind fun (j, rest) =>
      (items? fuel rest).bind fun (js, rest) => some (.list (j :: js), rest) := rfl

/-- What follows the brace that opens an object. -/
theorem value?_brace (cs : List Char) : value? (fuel + 1) ('\x7b' :: cs) =
    match skipGap cs with
    | '\x7d' :: cs => some (.object [], cs)
    | cs => (Parser.field? fuel cs).bind fun (f, rest) =>
      (fields? fuel rest).bind fun (fs, rest) => some (.object (lastFields (f :: fs)), rest) := rfl

theorem value?_emptyList (hgap : IsGap gap) :
    value? (fuel + 1) ('[' :: (gap ++ ']' :: cs)) = some (.list [], cs) := by
  rw [value?_bracket, skipGap_append hgap]
  rfl

/-- A list with items is read item by item. -/
theorem value?_list (hgap : IsGap gap) (hstart : ∃ c es, cs = c :: es ∧ isGap c = false ∧ c ≠ ']')
    (hfirst : value? fuel cs = some (j, ds)) (hmore : items? fuel ds = some (js, rest)) :
    value? (fuel + 1) ('[' :: (gap ++ cs)) = some (.list (j :: js), rest) := by
  obtain ⟨c, es, rfl, hc, hclose⟩ := hstart
  rw [value?_bracket, skipGap_append hgap, skipGap_cons hc]
  split
  · rename_i heq
    exact absurd (List.head_eq_of_cons_eq heq) hclose
  · simp only [hfirst, Option.bind_some, hmore]

theorem value?_emptyObject (hgap : IsGap gap) :
    value? (fuel + 1) ('\x7b' :: (gap ++ '\x7d' :: cs)) = some (.object [], cs) := by
  rw [value?_brace, skipGap_append hgap]
  rfl

/-- An object with fields is read field by field. -/
theorem value?_object (hgap : IsGap gap) (hfirst : Parser.field? fuel ('"' :: cs) = some (f, ds))
    (hmore : fields? fuel ds = some (fs, rest)) :
    value? (fuel + 1) ('\x7b' :: (gap ++ '"' :: cs)) =
      some (.object (lastFields (f :: fs)), rest) := by
  rw [value?_brace, skipGap_append hgap, skipGap_cons (by decide)]
  split
  · rename_i heq
    exact absurd (List.head_eq_of_cons_eq heq) (by decide)
  · simp only [hfirst, Option.bind_some, hmore]

theorem items?_nil (hgap : IsGap gap) : items? (fuel + 1) (gap ++ ']' :: cs) = some ([], cs) := by
  simp only [items?, skipGap_append hgap]
  rfl

theorem items?_cons (hgap : IsGap gap) (hfirst : value? fuel cs = some (j, ds))
    (hmore : items? fuel ds = some (js, rest)) :
    items? (fuel + 1) (gap ++ ',' :: cs) = some (j :: js, rest) := by
  simp only [items?, skipGap_append hgap]
  change (do
    let (j, rest) ← value? fuel cs
    let (js, rest) ← items? fuel rest
    some (j :: js, rest)) = _
  simp only [hfirst, Option.bind_eq_bind, Option.bind_some, hmore]

theorem fields?_nil (hgap : IsGap gap) :
    fields? (fuel + 1) (gap ++ '\x7d' :: cs) = some ([], cs) := by
  simp only [fields?, skipGap_append hgap]
  rfl

theorem fields?_cons (hgap : IsGap gap) (hfirst : Parser.field? fuel cs = some (f, ds))
    (hmore : fields? fuel ds = some (fs, rest)) :
    fields? (fuel + 1) (gap ++ ',' :: cs) = some (f :: fs, rest) := by
  simp only [fields?, skipGap_append hgap]
  change (do
    let (f, rest) ← Parser.field? fuel cs
    let (fs, rest) ← fields? fuel rest
    some (f :: fs, rest)) = _
  simp only [hfirst, Option.bind_eq_bind, Option.bind_some, hmore]

theorem field?_quoted {name : String} (hname : (quoted name).length ≤ fuel + 1) (hgap : IsGap gap)
    (hvalue : value? fuel cs = some (j, rest)) :
    Parser.field? (fuel + 1) (quoted name ++ (gap ++ ':' :: cs)) = some ((name, j), rest) := by
  -- what is done with the name, which the parser does not name
  obtain ⟨more, hopen, hcolon⟩ : ∃ more : List Char × List Char → Option (_ × List Char),
      (∀ cs, Parser.field? (fuel + 1) ('"' :: cs) = (string? fuel cs).bind more) ∧
      ∀ name, more (name, gap ++ ':' :: cs) =
        (value? fuel cs).bind fun read => some ((String.ofList name, read.1), read.2) := by
    refine ⟨_, fun _ => rfl, fun name => ?_⟩
    dsimp only
    rw [skipGap_append hgap]
    rfl
  rw [quoted, List.cons_append, List.append_assoc, List.singleton_append, hopen,
    string?_quoted hname, Option.bind_some, hcolon, hvalue, Option.bind_some, String.ofList_toList]

/-- Texts of fewer characters than there is fuel for are read back, whatever follows them. -/
structure Reads (fuel : Nat) : Prop where
  value {j : Json} {cs rest : List Char} : Written j cs → cs.length < fuel → EndsNumber rest →
    value? fuel (cs ++ rest) = some (j, rest)
  items {js : List Json} {cs : List Char} (rest : List Char) : WrittenItems js cs →
    cs.length < fuel → items? fuel (cs ++ rest) = some (js, rest)
  field {f : String × Json} {cs rest : List Char} : WrittenField f cs → cs.length < fuel →
    EndsNumber rest → Parser.field? fuel (cs ++ rest) = some (f, rest)
  fields {fs : List (String × Json)} {cs : List Char} (rest : List Char) : WrittenFields fs cs →
    cs.length < fuel → fields? fuel (cs ++ rest) = some (fs, rest)

/-! Every part of a text is shorter than the text, by the token before it. -/

theorem Reads.value_succ (ih : Reads fuel) (h : Written j cs) (hfuel : cs.length < fuel + 1)
    (hrest : EndsNumber rest) : value? (fuel + 1) (cs ++ rest) = some (j, rest) := by
  cases h with
  | null => rfl
  | trueValue => rfl
  | falseValue => rfl
  | number n => exact value?_toDigits n hrest
  | text s => exact value?_quoted (Nat.le_of_lt hfuel)
  | emptyList hgap => simpa using value?_emptyList hgap
  | @list gap cs ds j js hgap first more =>
    simp only [List.cons_append, List.append_assoc, List.length_cons, List.length_append]
      at hfuel ⊢
    have hstart : ∃ c es, cs ++ (ds ++ rest) = c :: es ∧ isGap c = false ∧ c ≠ ']' := by
      obtain ⟨c, es, rfl, hc⟩ := first.exists_cons
      exact ⟨c, _, rfl, hc⟩
    exact value?_list hgap hstart (ih.value first (by omega) (more.endsNumber rest))
      (ih.items rest more (by omega))
  | emptyObject hgap => simpa using value?_emptyObject hgap
  | @object gap cs ds f fs hgap first more distinct =>
    simp only [List.cons_append, List.append_assoc, List.length_cons, List.length_append]
      at hfuel ⊢
    obtain ⟨es, hes⟩ : ∃ es, cs = '"' :: es := by
      cases first
      exact ⟨_, rfl⟩
    have hfirst := ih.field first (by omega) (more.endsNumber rest)
    rw [hes, List.cons_append] at hfirst ⊢
    rw [value?_object hgap hfirst (ih.fields rest more (by omega)), lastFields_of_nodup distinct]

theorem Reads.items_succ (ih : Reads fuel) (h : WrittenItems js cs) (hfuel : cs.length < fuel + 1)
    (rest : List Char) : items? (fuel + 1) (cs ++ rest) = some (js, rest) := by
  cases h with
  | nil hgap => simpa using items?_nil hgap
  | @cons gap gap' cs ds j js hgap hgap' first more =>
    simp only [List.cons_append, List.append_assoc, List.length_cons, List.length_append]
      at hfuel ⊢
    refine items?_cons hgap ?_ (ih.items rest more (by omega))
    rw [value?_gap_append hgap']
    exact ih.value first (by omega) (more.endsNumber rest)

theorem Reads.field_succ (ih : Reads fuel) (h : WrittenField f cs) (hfuel : cs.length < fuel + 1)
    (hrest : EndsNumber rest) : Parser.field? (fuel + 1) (cs ++ rest) = some (f, rest) := by
  cases h with
  | @mk gap gap' cs name j hgap hgap' value =>
    simp only [List.cons_append, List.append_assoc, List.length_cons, List.length_append]
      at hfuel ⊢
    refine field?_quoted (by omega) hgap ?_
    rw [value?_gap_append hgap']
    exact ih.value value (by omega) hrest

theorem Reads.fields_succ (ih : Reads fuel) (h : WrittenFields fs cs)
    (hfuel : cs.length < fuel + 1) (rest : List Char) :
    fields? (fuel + 1) (cs ++ rest) = some (fs, rest) := by
  cases h with
  | nil hgap => simpa using fields?_nil hgap
  | @cons gap gap' cs ds f fs hgap hgap' first more =>
    simp only [List.cons_append, List.append_assoc, List.length_cons, List.length_append]
      at hfuel ⊢
    refine fields?_cons hgap ?_ (ih.fields rest more (by omega))
    rw [field?_gap_append hgap']
    exact ih.field first (by omega) (more.endsNumber rest)

/-- Texts are read back, if there is fuel for all their characters. -/
theorem reads (fuel : Nat) : Reads fuel := by
  induction fuel with
  | zero =>
    exact ⟨fun _ h => absurd h (Nat.not_lt_zero _), fun _ _ h => absurd h (Nat.not_lt_zero _),
      fun _ h => absurd h (Nat.not_lt_zero _), fun _ _ h => absurd h (Nat.not_lt_zero _)⟩
  | succ fuel ih =>
    exact ⟨ih.value_succ, fun rest h hfuel => ih.items_succ h hfuel rest, ih.field_succ,
      fun rest h hfuel => ih.fields_succ h hfuel rest⟩

/-- A text of a value is read as the value, unless it nests too deep. -/
theorem parse?_of_written (h : Written j cs) :
    parse? (String.ofList cs) = if j.depth ≤ maxDepth then some j else none := by
  have hread := (reads (cs.length + 1)).value h (Nat.lt_succ_self _) endsNumber_nil
  rw [List.append_nil] at hread
  rw [parse?, String.toList_ofList]
  simp only [hread, Option.bind_eq_bind, Option.bind_some]
  simp [skipGap]

end

end LiterateJournal.Json
