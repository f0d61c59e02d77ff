import LiterateJournal.Proofs.Files.DirectoryAt
import LiterateJournal.Site.World

/-!
# Runs that return and runs that fail

A step of a build returns a result and leaves a world, or fails and leaves one too. Which of the two
it is can be read off the parts of the step one after another.

## Main definitions

* `Run.result` — what a step gives, and the world after it.
* `Run.Returns` — a step returns from one world with a result and another world.
* `Run.Fails` — a step fails from one world with an error and another world.
* `Run.Leaves` — whether it returns or fails, a step leaves a world with a property.

## Main statements

* `Run.returns_bind`, `Run.fails_bind`, `Run.leaves_bind` — a step after another one.
* `Run.returns_change`, `Run.returns_makeDirectories`, `Run.returns_request` — the single steps.
-/

namespace LiterateJournal

def World.report (w : World) (p : Progress) : World := { w with progress := p :: w.progress }

@[simp] theorem World.files_report (w : World) (p : Progress) : (w.report p).files = w.files := rfl

namespace Run

variable {α β : Type}

def result (x : Run α) (w : World) : Except BuildError α × World := Id.run (x.run.run w)

/-- A step returns `a` from `w`, and leaves `w'`. -/
def Returns (x : Run α) (w : World) (a : α) (w' : World) : Prop := result x w = (.ok a, w')

theorem Returns.unique {x : Run α} {w w₁ w₂ : World} {a b : α} (h₁ : Returns x w a w₁)
    (h₂ : Returns x w b w₂) : a = b ∧ w₁ = w₂ := by
  have h := h₁.symm.trans h₂
  injection h with hresult hworld
  exact ⟨Except.ok.inj hresult, hworld⟩

/-- A step that has been evaluated without an error returns. -/
theorem exists_returns {x : Run α} {w : World} {f : α → β} {b : β}
    (h : (result x w).1.toOption.map f = some b) :
    ∃ a, Returns x w a (result x w).2 ∧ f a = b := by
  obtain ⟨a, ha, hb⟩ := Option.map_eq_some_iff.1 h
  exact ⟨a, Prod.ext (eq_ok_of_toOption ha) rfl, hb⟩

theorem Returns.toOption_eq {x : Run α} {w w' : World} {a : α} (h : Returns x w a w') :
    (result x w).1.toOption = some a := by
  rw [show result x w = (.ok a, w') from h]
  rfl

theorem Returns.snd_eq {x : Run α} {w w' : World} {a : α} (h : Returns x w a w') :
    (result x w).2 = w' := by
  rw [show result x w = (.ok a, w') from h]

@[simp] theorem returns_pure {w w' : World} {a b : α} :
    Returns (pure b) w a w' ↔ a = b ∧ w' = w := by
  constructor
  · intro h
    cases h
    exact ⟨rfl, rfl⟩
  · rintro ⟨rfl, rfl⟩
    rfl

@[simp] theorem returns_bind {x : Run α} {f : α → Run β} {w w' : World} {b : β} :
    Returns (x >>= f) w b w' ↔ ∃ a v, Returns x w a v ∧ Returns (f a) v b w' := by
  unfold Returns result
  rw [ExceptT.run_bind, StateT.run_bind]
  generalize x.run.run w = out
  obtain ⟨result, v⟩ := out
  constructor
  · intro h
    cases result with
    | ok a => exact ⟨a, v, rfl, h⟩
    | error e => cases h
  · rintro ⟨a, v', hout, h⟩
    cases hout
    exact h

@[simp] theorem returns_throw {w w' : World} {a : α} {e : BuildError} :
    Returns (throw e : Run α) w a w' ↔ False := by
  simp only [iff_false]
  intro h
  cases h

@[simp] theorem returns_files {w w' : World} {t : FileTree} :
    Returns files w t w' ↔ t = w.files ∧ w' = w := by
  constructor
  · intro h
    cases h
    exact ⟨rfl, rfl⟩
  · rintro ⟨rfl, rfl⟩
    rfl

@[simp] theorem returns_report {w w' : World} {p : Progress} {u : Unit} :
    Returns (report p) w u w' ↔ w' = w.report p := by
  constructor
  · intro h
    cases h
    rfl
  · rintro rfl
    rfl

theorem result_change (cause : FileError → BuildError)
    (op : FileTree → Nat → Except FileError FileTree) (w : World) :
    result (change cause op) w = match op w.files w.clock with
      | .ok files => (.ok (), { w with files, clock := w.clock + 1 })
      | .error e => (.error (cause e), w) := by
  change Id.run ((ExceptT.run (match op w.files w.clock with
    | .ok files => set { w with files, clock := w.clock + 1 }
    | .error e => throw (cause e) : Run Unit)).run w) = _
  split <;> rfl

@[simp] theorem returns_change {w w' : World} {cause : FileError → BuildError}
    {op : FileTree → Nat → Except FileError FileTree} {u : Unit} :
    Returns (change cause op) w u w' ↔
      ∃ files, op w.files w.clock = .ok files ∧ w' = { w with files, clock := w.clock + 1 } := by
  unfold Returns
  rw [result_change]
  cases op w.files w.clock with
  | error e => simp
  | ok files => simp [eq_comm]

theorem result_makeDirectories (cause : FileError → BuildError) (path : String) (w : World) :
    result (makeDirectories cause path) w =
      (match (w.files.makeDirectories w.clock path).1 with
        | .ok () => .ok ()
        | .error e => .error (cause e),
        { w with files := (w.files.makeDirectories w.clock path).2, clock := w.clock + 1 }) := by
  change Id.run ((ExceptT.run (match (w.files.makeDirectories w.clock path).1 with
    | .ok () => pure ()
    | .error e => throw (cause e) : Run Unit)).run _) = _
  split <;> rfl

@[simp] theorem returns_makeDirectories {w w' : World} {cause : FileError → BuildError}
    {path : String} {u : Unit} :
    Returns (makeDirectories cause path) w u w' ↔
      (w.files.makeDirectories w.clock path).1 = .ok () ∧
        w' = { w with
          files := (w.files.makeDirectories w.clock path).2
          clock := w.clock + 1 } := by
  unfold Returns
  rw [result_makeDirectories]
  cases (w.files.makeDirectories w.clock path).1 <;> simp [eq_comm]

@[simp] theorem returns_request {w w' : World} {url : Url} {reply : WebReply} :
    Returns (request url) w reply w' ↔
      reply = w.web url ∧ w' = { w with requests := url :: w.requests } := by
  constructor
  · intro h
    cases h
    exact ⟨rfl, rfl⟩
  · rintro ⟨rfl, rfl⟩
    rfl

/-! ### Runs that fail -/

/-- A step fails with `e` from `w`, and leaves `w'`. -/
def Fails (x : Run α) (w : World) (e : BuildError) (w' : World) : Prop :=
  result x w = (.error e, w')

theorem returns_or_fails (x : Run α) (w : World) :
    (∃ a, Returns x w a (result x w).2) ∨ ∃ e, Fails x w e (result x w).2 := by
  cases h : (result x w).1 with
  | ok a => exact .inl ⟨a, Prod.ext h rfl⟩
  | error e => exact .inr ⟨e, Prod.ext h rfl⟩

@[simp] theorem fails_pure {w w' : World} {a : α} {e : BuildError} :
    Fails (pure a : Run α) w e w' ↔ False := by
  simp only [iff_false]
  intro h
  cases h

@[simp] theorem fails_bind {x : Run α} {f : α → Run β} {w w' : World} {e : BuildError} :
    Fails (x >>= f) w e w' ↔
      Fails x w e w' ∨ ∃ a v, Returns x w a v ∧ Fails (f a) v e w' := by
  unfold Fails Returns result
  rw [ExceptT.run_bind, StateT.run_bind]
  generalize x.run.run w = out
  obtain ⟨result, v⟩ := out
  constructor
  · intro h
    cases result with
    | ok a => exact .inr ⟨a, v, rfl, h⟩
    | error d =>
      cases h
      exact .inl rfl
  · rintro (hout | ⟨a, v', hout, h⟩)
    · cases hout
      rfl
    · cases hout
      exact h

@[simp] theorem fails_throw {w w' : World} {d e : BuildError} :
    Fails (throw d : Run α) w e w' ↔ e = d ∧ w' = w := by
  constructor
  · intro h
    cases h
    exact ⟨rfl, rfl⟩
  · rintro ⟨rfl, rfl⟩
    rfl

@[simp] theorem fails_files {w w' : World} {e : BuildError} : Fails files w e w' ↔ False := by
  simp only [iff_false]
  intro h
  cases h

@[simp] theorem fails_report {w w' : World} {p : Progress} {e : BuildError} :
    Fails (report p) w e w' ↔ False := by
  simp only [iff_false]
  intro h
  cases h

@[simp] theorem fails_change {w w' : World} {cause : FileError → BuildError}
    {op : FileTree → Nat → Except FileError FileTree} {e : BuildError} :
    Fails (change cause op) w e w' ↔
      ∃ c, op w.files w.clock = .error c ∧ e = cause c ∧ w' = w := by
  unfold Fails
  rw [result_change]
  cases op w.files w.clock <;> simp [eq_comm]

@[simp] theorem fails_makeDirectories {w w' : World} {cause : FileError → BuildError}
    {path : String} {e : BuildError} :
    Fails (makeDirectories cause path) w e w' ↔
      ∃ c, (w.files.makeDirectories w.clock path).1 = .error c ∧ e = cause c ∧
        w' = { w with
          files := (w.files.makeDirectories w.clock path).2
          clock := w.clock + 1 } := by
  unfold Fails
  rw [result_makeDirectories]
  cases (w.files.makeDirectories w.clock path).1 <;> simp [eq_comm]

@[simp] theorem fails_request {w w' : World} {url : Url} {e : BuildError} :
    Fails (request url) w e w' ↔ False := by
  simp only [iff_false]
  intro h
  cases h

/-! ### Runs that return or fail -/

/-- Whether a step returns or fails, it leaves a world with a property. -/
def Leaves (x : Run α) (w : World) (P : World → Prop) : Prop := P (result x w).2

variable {x : Run α} {w : World} {P Q : World → Prop}

theorem leaves_iff : Leaves x w P ↔
    (∀ a v, Returns x w a v → P v) ∧ ∀ e v, Fails x w e v → P v := by
  constructor
  · intro h
    refine ⟨fun a v hx => ?_, fun e v hx => ?_⟩
    · rwa [Leaves, show result x w = (.ok a, v) from hx] at h
    · rwa [Leaves, show result x w = (.error e, v) from hx] at h
  · rintro ⟨hreturns, hfails⟩
    obtain ⟨a, hx⟩ | ⟨e, hx⟩ := returns_or_fails x w
    · exact hreturns a _ hx
    · exact hfails e _ hx

theorem Leaves.mono (h : Leaves x w P) (hp : ∀ v, P v → Q v) : Leaves x w Q := hp _ h

theorem Leaves.of_returns {a : α} {v : World} (h : Leaves x w P) (hx : Returns x w a v) : P v :=
  (leaves_iff.1 h).1 a v hx

theorem leaves_bind {f : α → Run β} : Leaves (x >>= f) w P ↔
    (∀ e v, Fails x w e v → P v) ∧ ∀ a v, Returns x w a v → Leaves (f a) v P := by
  simp only [leaves_iff, returns_bind, fails_bind]
  constructor
  · rintro ⟨hreturns, hfails⟩
    exact ⟨fun e v hx => hfails e v (.inl hx), fun a v hx =>
      ⟨fun b u hf => hreturns b u ⟨a, v, hx, hf⟩, fun e u hf => hfails e u (.inr ⟨a, v, hx, hf⟩)⟩⟩
  · rintro ⟨hx, hf⟩
    refine ⟨?_, ?_⟩
    · rintro b u ⟨a, v, ha, hb⟩
      exact (hf a v ha).1 b u hb
    · rintro e u (he | ⟨a, v, ha, hb⟩)
      · exact hx e u he
      · exact (hf a v ha).2 e u hb

/-- What the first step leaves is enough if it fails, and the second step goes on from there. -/
theorem Leaves.andThen {f : α → Run β} (hx : Leaves x w Q) (hfails : ∀ v, Q v → P v)
    (hf : ∀ a v, Returns x w a v → Q v → Leaves (f a) v P) : Leaves (x >>= f) w P :=
  leaves_bind.2 ⟨fun e v he => hfails v ((leaves_iff.1 hx).2 e v he), fun a v ha =>
    hf a v ha (hx.of_returns ha)⟩

theorem leaves_bind_files {f : FileTree → Run β} :
    Leaves (files >>= f) w P ↔ Leaves (f w.files) w P := by
  simp [leaves_bind]

theorem leaves_bind_report {p : Progress} {f : Unit → Run β} :
    Leaves (report p >>= f) w P ↔ Leaves (f ()) (w.report p) P := by
  simp only [leaves_bind, fails_report, returns_report, false_imp_iff, implies_true, true_and,
    forall_eq]
  exact ⟨fun h => h (), fun h _ => h⟩

/-- A step after another one leaves what a transitive relation tells of both. -/
theorem Leaves.bind {R : World → World → Prop} {f : α → Run β}
    (htrans : ∀ {w v u}, R w v → R v u → R w u) (hx : Leaves x w (R w))
    (hf : ∀ a v, Returns x w a v → R w v → Leaves (f a) v (R v)) : Leaves (x >>= f) w (R w) :=
  hx.andThen (fun _ hv => hv) fun a v ha hv => (hf a v ha hv).mono fun _ => htrans hv

@[simp] theorem leaves_pure {a : α} : Leaves (pure a : Run α) w P ↔ P w := by simp [leaves_iff]

@[simp] theorem leaves_throw {e : BuildError} : Leaves (throw e : Run α) w P ↔ P w := by
  simp [leaves_iff]

@[simp] theorem leaves_makeDirectories {cause : FileError → BuildError} {path : String} :
    Leaves (makeDirectories cause path) w P ↔ P { w with
      files := (w.files.makeDirectories w.clock path).2
      clock := w.clock + 1 } := by
  rw [Leaves, result_makeDirectories]

end Run

end LiterateJournal
