/-!
# Scanners and brackets

How a text is taken apart: symbol by symbol, with a state, and how what was read is seen to be
nested.

## Main definitions

* `Scanner` — what a state makes of a symbol; `Scanner.run` takes one symbol after another.
* `Scanner.Leads` — symbols lead from one state to another.
* `openAfter`, `Balanced` — brackets with names, closed in the opposite order.
-/

namespace LiterateJournal

/-- What is read at a symbol in a state, and the state after it; nothing where it may not stand. -/
abbrev Scanner (σ α τ : Type) := σ → α → Option (List τ × σ)

namespace Scanner

variable {σ α τ : Type} {step : Scanner σ α τ} {s t u : σ} {v w : List α} {ts us : List τ}

def run (step : Scanner σ α τ) (s : σ) : List α → Option (List τ × σ)
  | [] => some ([], s)
  | x :: xs =>
    match step s x with
    | some (ts, t) => (run step t xs).map fun r => (ts ++ r.1, r.2)
    | none => none

/-- Symbols lead from a state to another one, and tokens are read. -/
def Leads (step : Scanner σ α τ) (s : σ) (w : List α) (ts : List τ) (t : σ) : Prop :=
  run step s w = some (ts, t)

theorem leads_nil : Leads step s [] ts t ↔ ts = [] ∧ t = s := by
  simp [Leads, run, eq_comm]

theorem Leads.refl (step : Scanner σ α τ) (s : σ) : Leads step s [] [] s := leads_nil.2 ⟨rfl, rfl⟩

theorem run_append (s : σ) (v w : List α) :
    run step s (v ++ w) =
      (run step s v).bind fun r => (run step r.2 w).map fun q => (r.1 ++ q.1, q.2) := by
  induction v generalizing s with
  | nil => cases h : run step s w <;> simp [run, h]
  | cons x xs ih =>
    rw [List.cons_append, run, run]
    cases step s x with
    | none => rfl
    | some r =>
      simp only [ih]
      cases run step r.2 xs with
      | none => rfl
      | some q => cases h : run step q.2 w <;> simp [h]

theorem leads_append :
    Leads step s (v ++ w) ts t ↔
      ∃ ts₁ r ts₂, Leads step s v ts₁ r ∧ Leads step r w ts₂ t ∧ ts = ts₁ ++ ts₂ := by
  unfold Leads
  rw [run_append]
  constructor
  · intro h
    obtain ⟨⟨ts₁, r⟩, hv, h⟩ := Option.bind_eq_some_iff.1 h
    obtain ⟨⟨ts₂, q⟩, hw, h⟩ := Option.map_eq_some_iff.1 h
    cases h
    exact ⟨ts₁, r, ts₂, hv, hw, rfl⟩
  · rintro ⟨ts₁, r, ts₂, hv, hw, rfl⟩
    simp [hv, hw]

theorem Leads.append (hv : Leads step s v ts t) (hw : Leads step t w us u) :
    Leads step s (v ++ w) (ts ++ us) u :=
  leads_append.2 ⟨ts, t, us, hv, hw, rfl⟩

/-- What comes behind symbols that have been read is read from where they led. -/
theorem Leads.of_append (hv : Leads step s v ts t) (h : Leads step s (v ++ w) us u) :
    ∃ us', Leads step t w us' u ∧ us = ts ++ us' := by
  obtain ⟨ts₁, r, us', hv', hw, rfl⟩ := leads_append.1 h
  unfold Leads at hv hv'
  rw [hv] at hv'
  cases hv'
  exact ⟨us', hw, rfl⟩

/-- A scanner has no choice. -/
theorem Leads.unique (h : Leads step s w ts t) (h' : Leads step s w us u) : ts = us ∧ t = u := by
  unfold Leads at h h'
  rw [h] at h'
  cases h'
  exact ⟨rfl, rfl⟩

theorem leads_cons {x : α} :
    Leads step s (x :: w) ts t ↔
      ∃ ts₁ r ts₂, step s x = some (ts₁, r) ∧ Leads step r w ts₂ t ∧ ts = ts₁ ++ ts₂ := by
  unfold Leads
  rw [run]
  constructor
  · intro h
    split at h
    · rename_i ts₁ r hx
      obtain ⟨⟨ts₂, q⟩, hw, h⟩ := Option.map_eq_some_iff.1 h
      cases h
      exact ⟨ts₁, r, ts₂, hx, hw, rfl⟩
    · cases h
  · rintro ⟨ts₁, r, ts₂, hx, hw, rfl⟩
    simp [hx, hw]

theorem Leads.cons {x : α} (hx : step s x = some (ts, t)) (hw : Leads step t w us u) :
    Leads step s (x :: w) (ts ++ us) u :=
  leads_cons.2 ⟨ts, t, us, hx, hw, rfl⟩

theorem Leads.single {x : α} (hx : step s x = some (ts, t)) : Leads step s [x] ts t := by
  simpa using Leads.cons hx (Leads.refl step t)

/-- Symbols of which a state only collects what they stand for. -/
theorem leads_collect_map {β : Type} {f : List β → σ} {g : β → α} {p : β → Prop}
    (hf : ∀ v x, p x → step (f v) (g x) = some ([], f (v ++ [x]))) (v : List β) {w : List β}
    (hw : ∀ x ∈ w, p x) : Leads step (f v) (w.map g) [] (f (v ++ w)) := by
  induction w generalizing v with
  | nil => simpa using Leads.refl step (f v)
  | cons x xs ih =>
    simpa using Leads.cons (hf v x (hw x List.mem_cons_self))
      (ih (v ++ [x]) fun y hy => hw y (List.mem_cons_of_mem _ hy))

/-- Symbols that a state only collects. -/
theorem leads_collect {f : List α → σ} {p : α → Prop}
    (hf : ∀ v x, p x → step (f v) x = some ([], f (v ++ [x]))) (v : List α)
    (hw : ∀ x ∈ w, p x) : Leads step (f v) w [] (f (v ++ w)) := by
  simpa using leads_collect_map (g := id) hf v hw

end Scanner

/-! ### Brackets -/

/-- An opening or a closing bracket with a name. -/
inductive Bracket (ι : Type) where
  | opening (i : ι)
  | closing (i : ι)
deriving Repr, DecidableEq

section Brackets

variable {ι : Type} [DecidableEq ι] {bs cs : List (Bracket ι)} {st st' : List ι}

/-- The brackets that are open after some others, innermost first; `stack` are those open before.
A closing bracket must close the innermost open one. -/
def openAfter (stack : List ι) : List (Bracket ι) → Option (List ι)
  | [] => some stack
  | .opening i :: bs => openAfter (i :: stack) bs
  | .closing i :: bs =>
    match stack with
    | [] => none
    | j :: rest => if i = j then openAfter rest bs else none

/-- Every bracket is closed by one of its name, the last one opened first. -/
def Balanced (bs : List (Bracket ι)) : Prop := openAfter [] bs = some []

instance : Decidable (Balanced bs) := inferInstanceAs (Decidable (_ = _))

theorem openAfter_append (st : List ι) (bs cs : List (Bracket ι)) :
    openAfter st (bs ++ cs) = (openAfter st bs).bind (openAfter · cs) := by
  induction bs generalizing st with
  | nil => rfl
  | cons b bs ih =>
    cases b with
    | opening i => exact ih _
    | closing i =>
      cases st with
      | nil => rfl
      | cons j rest =>
        simp only [List.cons_append, openAfter]
        split
        · exact ih _
        · rfl

/-- Brackets opened before stay below. -/
theorem openAfter_below (base : List ι) (h : openAfter st bs = some st') :
    openAfter (st ++ base) bs = some (st' ++ base) := by
  induction bs generalizing st with
  | nil => simpa [openAfter] using h
  | cons b bs ih =>
    cases b with
    | opening i =>
      have hrest : openAfter (i :: st) bs = some st' := h
      exact ih hrest
    | closing i =>
      cases st with
      | nil => cases h
      | cons j rest =>
        simp only [openAfter, List.cons_append] at h ⊢
        split at h
        · rename_i hij
          rw [if_pos hij]
          exact ih h
        · cases h

theorem Balanced.openAfter_eq (h : Balanced bs) (st : List ι) : openAfter st bs = some st := by
  simpa using openAfter_below st h

theorem balanced_nil : Balanced ([] : List (Bracket ι)) := rfl

theorem Balanced.append (hb : Balanced bs) (hc : Balanced cs) : Balanced (bs ++ cs) := by
  rw [Balanced, openAfter_append, hb.openAfter_eq]
  exact hc

theorem Balanced.enclose (i : ι) (h : Balanced bs) :
    Balanced (.opening i :: bs ++ [.closing i]) := by
  rw [Balanced, openAfter_append]
  have hopen : openAfter [] (.opening i :: bs) = some [i] := h.openAfter_eq [i]
  rw [hopen]
  simp [openAfter]

end Brackets

end LiterateJournal
