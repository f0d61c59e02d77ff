import LiterateJournal.Document.Spans
import LiterateJournal.Document.Title
import Mathlib.Data.List.Forall2

/-!
# Visits to the spans of a document

Replacing the spans of a document is a dialogue: span after span is handed over, and the replacement
that comes back goes into the spans around it. Whatever function gives the answers, with whatever
effects, it takes part in this one dialogue, which follows the list of all spans as long as they
come back unchanged, and which ends with the first failure.

## Main definitions

* `Dialogue`, `Dialogue.answeredBy` — a dialogue about spans, and the answers of a function in it.
* `callsTo` — the calls that are made to a function.
* `Block.SameForm` — two blocks that differ in their spans only.

## Main statements

* `answeredBy_mapSpansM` — replacing spans is a dialogue.
* `echo_mapSpansM` — unchanged spans are handed over in the order of the list of all spans.
* `Dialogue.calls_of_fails` — the first call that fails is the last one.
* `mapSpansM_follows_spansOf` — the calls to a function, and the form that stays.
-/

namespace LiterateJournal

/-! ### Dialogues -/

/-- A computation that hands over one span after another and goes on with what comes back. -/
inductive Dialogue (α : Type) where
  | done (a : α)
  | ask (s : Span) (next : Span → Dialogue α)

namespace Dialogue

variable {α β : Type}

def bind : Dialogue α → (α → Dialogue β) → Dialogue β
  | .done a, k => k a
  | .ask s next, k => .ask s fun answer => (next answer).bind k

instance : Monad Dialogue where
  pure := .done
  bind := bind

def handOver (s : Span) : Dialogue Span := .ask s .done

@[simp] theorem pure_eq (a : α) : (pure a : Dialogue α) = .done a := rfl

@[simp] theorem done_bind (a : α) (k : α → Dialogue β) : (Dialogue.done a >>= k) = k a := rfl

@[simp] theorem ask_bind (s : Span) (next : Span → Dialogue α) (k : α → Dialogue β) :
    (Dialogue.ask s next >>= k) = .ask s fun answer => next answer >>= k := rfl

section Answered

variable {m : Type → Type} [Monad m] (f : Span → m Span)

def answeredBy : Dialogue α → m α
  | .done a => pure a
  | .ask s next => do (next (← f s)).answeredBy

variable [LawfulMonad m]

theorem answeredBy_bind (x : Dialogue α) (k : α → Dialogue β) :
    (x >>= k).answeredBy f = x.answeredBy f >>= fun a => (k a).answeredBy f := by
  induction x with
  | done a => simp [answeredBy]
  | ask s next ih => simp [answeredBy, ih]

theorem answeredBy_handOver (s : Span) : (handOver s).answeredBy f = f s := by
  simp [handOver, answeredBy]

end Answered

/-! ### Unchanged spans -/

/-- The spans that are handed over if all come back unchanged, and the end of the dialogue. -/
def echo : Dialogue α → List Span × α
  | .done a => ([], a)
  | .ask s next => (s :: (next s).echo.1, (next s).echo.2)

@[simp] theorem echo_done (a : α) : (Dialogue.done a).echo = ([], a) := rfl

@[simp] theorem echo_handOver (s : Span) : (handOver s).echo = ([s], s) := rfl

@[simp] theorem echo_bind (x : Dialogue α) (k : α → Dialogue β) :
    (x >>= k).echo = (x.echo.1 ++ (k x.echo.2).echo.1, (k x.echo.2).echo.2) := by
  induction x with
  | done a => rfl
  | ask s next ih => simp [echo, ih]

end Dialogue

section Transform

variable {m : Type → Type} [Monad m] [LawfulMonad m] (f : Span → m Span)

open Dialogue

mutual

theorem answeredBy_transformM : (s : Span) → (s.transformM handOver).answeredBy f = s.transformM f
  | .strong body | .emphasis body | .link body .. | .linkReference body .. => by
    simp only [Span.transformM, answeredBy_bind, answeredBy_handOver,
      answeredBy_transformSpansM body]
  | .text _ | .code _ | .math .. | .raw _ | .image .. | .imageReference .. | .lineBreak =>
    answeredBy_handOver f _

theorem answeredBy_transformSpansM : (spans : List Span) →
    (transformSpansM handOver spans).answeredBy f = transformSpansM f spans
  | [] => rfl
  | s :: rest => by
    simp only [transformSpansM, answeredBy_bind, answeredBy_transformM s,
      answeredBy_transformSpansM rest]
    rfl

end

mutual

theorem answeredBy_mapSpansM_block : (b : Block) →
    (b.mapSpansM handOver).answeredBy f = b.mapSpansM f
  | .heading _ body | .paragraph body => by
    simp only [Block.mapSpansM, answeredBy_bind, answeredBy_transformSpansM f body]
    rfl
  | .list _ items => by
    simp only [Block.mapSpansM, answeredBy_bind, answeredBy_mapSpansInCellsM items]
    rfl
  | .quote body => by
    simp only [Block.mapSpansM, answeredBy_bind, answeredBy_mapSpansM body]
    rfl
  | .table _ header rows => by
    simp only [Block.mapSpansM, answeredBy_bind, answeredBy_mapSpansInCellsM header,
      answeredBy_mapSpansInRowsM rows]
    rfl
  | .code .. | .raw _ | .math _ | .rule => rfl

/-- Replacing spans is a dialogue with the function that gives the replacements. -/
theorem answeredBy_mapSpansM : (blocks : List Block) →
    (mapSpansM handOver blocks).answeredBy f = mapSpansM f blocks
  | [] => rfl
  | b :: bs => by
    simp only [mapSpansM, answeredBy_bind, answeredBy_mapSpansM_block b, answeredBy_mapSpansM bs]
    rfl

theorem answeredBy_mapSpansInCellsM : (cells : List (List Block)) →
    (mapSpansInCellsM handOver cells).answeredBy f = mapSpansInCellsM f cells
  | [] => rfl
  | c :: cs => by
    simp only [mapSpansInCellsM, answeredBy_bind, answeredBy_mapSpansM c,
      answeredBy_mapSpansInCellsM cs]
    rfl

theorem answeredBy_mapSpansInRowsM : (rows : List (List (List Block))) →
    (mapSpansInRowsM handOver rows).answeredBy f = mapSpansInRowsM f rows
  | [] => rfl
  | r :: rs => by
    simp only [mapSpansInRowsM, answeredBy_bind, answeredBy_mapSpansInCellsM r,
      answeredBy_mapSpansInRowsM rs]
    rfl

end

end Transform

open Dialogue

mutual

theorem echo_transformM : (s : Span) → (s.transformM handOver).echo = (s.withInner, s)
  | .strong body | .emphasis body | .link body .. | .linkReference body .. => by
    simp [Span.transformM, Span.withInner, echo_transformSpansM body]
  | .text _ | .code _ | .math .. | .raw _ | .image .. | .imageReference .. | .lineBreak => rfl

theorem echo_transformSpansM : (spans : List Span) →
    (transformSpansM handOver spans).echo = (innerSpans spans, spans)
  | [] => rfl
  | s :: rest => by
    simp [transformSpansM, innerSpans, echo_transformM s, echo_transformSpansM rest]

end

mutual

theorem echo_mapSpansM_block : (b : Block) → (b.mapSpansM handOver).echo = (b.spans, b)
  | .heading _ body | .paragraph body => by
    simp [Block.mapSpansM, Block.spans, echo_transformSpansM body]
  | .list _ items => by simp [Block.mapSpansM, Block.spans, echo_mapSpansInCellsM items]
  | .quote body => by simp [Block.mapSpansM, Block.spans, echo_mapSpansM body]
  | .table _ header rows => by
    simp [Block.mapSpansM, Block.spans, echo_mapSpansInCellsM header, echo_mapSpansInRowsM rows]
  | .code .. | .raw _ | .math _ | .rule => rfl

/-- Unchanged spans are handed over in the order of the list of all spans, and leave the document
as it is. -/
theorem echo_mapSpansM : (blocks : List Block) →
    (mapSpansM handOver blocks).echo = (spansOf blocks, blocks)
  | [] => rfl
  | b :: bs => by simp [mapSpansM, spansOf, echo_mapSpansM_block b, echo_mapSpansM bs]

theorem echo_mapSpansInCellsM : (cells : List (List Block)) →
    (mapSpansInCellsM handOver cells).echo = (spansInCells cells, cells)
  | [] => rfl
  | c :: cs => by
    simp [mapSpansInCellsM, spansInCells, echo_mapSpansM c, echo_mapSpansInCellsM cs]

theorem echo_mapSpansInRowsM : (rows : List (List (List Block))) →
    (mapSpansInRowsM handOver rows).echo = (spansInRows rows, rows)
  | [] => rfl
  | r :: rs => by
    simp [mapSpansInRowsM, spansInRows, echo_mapSpansInCellsM r, echo_mapSpansInRowsM rs]

end

/-! ### Calls -/

section

variable {σ ε α β : Type}

/-- What a computation gives that may fail, and the state after it. -/
def resultOf (x : ExceptT ε (StateM σ) α) (state : σ) : Except ε α × σ := Id.run (x.run.run state)

theorem resultOf_bind (x : ExceptT ε (StateM σ) α) (k : α → ExceptT ε (StateM σ) β) (state : σ) :
    resultOf (x >>= k) state = match resultOf x state with
      | (.ok a, next) => resultOf (k a) next
      | (.error e, next) => (.error e, next) := by
  unfold resultOf
  rw [ExceptT.run_bind, StateT.run_bind]
  generalize x.run.run state = out
  obtain ⟨result, next⟩ := out
  cases result <;> rfl

/-- A function that also notes each call made to it, with the state before the call. -/
def logged (f : Span → ExceptT ε (StateM σ) Span) (s : Span) :
    ExceptT ε (StateM (List (Span × σ) × σ)) Span :=
  ExceptT.mk fun (log, state) =>
    ((resultOf (f s) state).1, log ++ [(s, state)], (resultOf (f s) state).2)

theorem resultOf_logged (f : Span → ExceptT ε (StateM σ) Span) (s : Span)
    (log : List (Span × σ)) (state : σ) :
    resultOf (logged f s) (log, state) =
      ((resultOf (f s) state).1, log ++ [(s, state)], (resultOf (f s) state).2) := rfl

/-- The calls that are made to a function when it replaces the spans of a document, each with the
state before it. -/
def callsTo (f : Span → ExceptT ε (StateM σ) Span) (blocks : List Block) (state : σ) :
    List (Span × σ) := (resultOf (mapSpansM (logged f) blocks) ([], state)).2.1

def Succeeds (f : Span → ExceptT ε (StateM σ) Span) (call : Span × σ) : Prop :=
  ∃ answer next, resultOf (f call.1) call.2 = (.ok answer, next)

/-- A function does what another one does wherever that one does not fail. -/
def GoesOn (f g : Span → ExceptT ε (StateM σ) Span) : Prop :=
  ∀ s state answer next, resultOf (f s) state = (.ok answer, next) →
    resultOf (g s) state = (.ok answer, next)

namespace Dialogue

variable {f g : Span → ExceptT ε (StateM σ) Span}

/-- The calls that a dialogue makes to a function. One that fails is the last one. -/
def calls (f : Span → ExceptT ε (StateM σ) Span) : Dialogue α → σ → List (Span × σ)
  | .done _, _ => []
  | .ask s next, state =>
    (s, state) :: match resultOf (f s) state with
      | (.ok answer, state) => (next answer).calls f state
      | (.error _, _) => []

theorem resultOf_ask (f : Span → ExceptT ε (StateM σ) Span) (s : Span) (next : Span → Dialogue α)
    (state : σ) :
    resultOf ((Dialogue.ask s next).answeredBy f) state = match resultOf (f s) state with
      | (.ok answer, state) => resultOf ((next answer).answeredBy f) state
      | (.error e, state) => (.error e, state) := by
  rw [answeredBy, resultOf_bind]
  rcases resultOf (f s) state with ⟨_ | _, _⟩ <;> rfl

/-- A log shows the calls, and changes nothing else. -/
theorem resultOf_answeredBy_logged (f : Span → ExceptT ε (StateM σ) Span) (x : Dialogue α)
    (log : List (Span × σ)) (state : σ) :
    resultOf (x.answeredBy (logged f)) (log, state) =
      ((resultOf (x.answeredBy f) state).1, log ++ x.calls f state,
        (resultOf (x.answeredBy f) state).2) := by
  induction x generalizing log state with
  | done a =>
    rw [calls, List.append_nil]
    rfl
  | ask s next ih =>
    rw [resultOf_ask, resultOf_ask, resultOf_logged, calls]
    rcases resultOf (f s) state with ⟨answer | e, state'⟩ <;> simp [ih]

/-- A function that gives back what it is given is called on the spans in their order. -/
theorem calls_of_unchanged (hf : ∀ s state, ∃ next, resultOf (f s) state = (.ok s, next))
    (x : Dialogue α) (state : σ) :
    (x.calls f state).map Prod.fst = x.echo.1 ∧
      (resultOf (x.answeredBy f) state).1 = .ok x.echo.2 := by
  induction x generalizing state with
  | done a => exact ⟨rfl, rfl⟩
  | ask s next ih =>
    obtain ⟨state', hs⟩ := hf s state
    simp [calls, resultOf_ask, hs, echo, ih s state']

/-- The first call that fails is the last one, and its failure is that of the dialogue. -/
theorem calls_of_fails (hfg : GoesOn f g) (x : Dialogue α) {before after : List (Span × σ)}
    {s : Span} {state state₀ next : σ} {e : ε}
    (hcalls : x.calls g state = before ++ (s, state₀) :: after)
    (hbefore : ∀ call ∈ before, Succeeds f call)
    (hfails : resultOf (f s) state₀ = (.error e, next)) :
    x.calls f state = before ++ [(s, state₀)] ∧
      resultOf (x.answeredBy f) state = (.error e, next) := by
  induction x generalizing state before with
  | done a => simp [calls] at hcalls
  | ask t rest ih =>
    cases before with
    | nil =>
      obtain ⟨⟨rfl, rfl⟩, -⟩ : (t = s ∧ state = state₀) ∧ _ := by simpa [calls] using hcalls
      simp [calls, resultOf_ask, hfails]
    | cons call before =>
      obtain ⟨⟨answer, state', ht⟩, hbefore'⟩ := List.forall_mem_cons.1 hbefore
      rw [calls, List.cons_append, List.cons.injEq] at hcalls
      obtain ⟨rfl, hrest⟩ := hcalls
      -- both functions give the same answer here, and the dialogue goes on with it
      rw [hfg _ _ _ _ ht] at hrest
      obtain ⟨hcalls, hresult⟩ := ih answer hrest hbefore'
      simp [calls, resultOf_ask, ht, hcalls, hresult]

/-- As long as no call fails, nothing is different. -/
theorem calls_of_succeeds (hfg : GoesOn f g) (x : Dialogue α) {state : σ}
    (hcalls : ∀ call ∈ x.calls g state, Succeeds f call) :
    x.calls f state = x.calls g state ∧
      resultOf (x.answeredBy f) state = resultOf (x.answeredBy g) state := by
  induction x generalizing state with
  | done a => exact ⟨rfl, rfl⟩
  | ask t rest ih =>
    rw [calls] at hcalls
    obtain ⟨⟨answer, state', ht⟩, hrest⟩ := List.forall_mem_cons.1 hcalls
    rw [hfg _ _ _ _ ht] at hrest
    obtain ⟨hcalls, hresult⟩ := ih answer hrest
    simp [calls, resultOf_ask, ht, hfg _ _ _ _ ht, hcalls, hresult]

end Dialogue

theorem resultOf_mapSpansM (f : Span → ExceptT ε (StateM σ) Span) (blocks : List Block)
    (state : σ) :
    resultOf (mapSpansM f blocks) state =
      resultOf ((mapSpansM handOver blocks).answeredBy f) state := by
  rw [answeredBy_mapSpansM]

theorem callsTo_eq (f : Span → ExceptT ε (StateM σ) Span) (blocks : List Block) (state : σ) :
    callsTo f blocks state = (mapSpansM handOver blocks).calls f state := by
  rw [callsTo, resultOf_mapSpansM, resultOf_answeredBy_logged]
  rfl

end

/-! ### Form -/

/-- Two blocks that differ in their spans only, of which there are as many in the same places. -/
inductive Block.SameForm : Block → Block → Prop
  | heading (level : UInt8) {body body' : List Span} (h : body.length = body'.length) :
    SameForm (.heading level body) (.heading level body')
  | paragraph {body body' : List Span} (h : body.length = body'.length) :
    SameForm (.paragraph body) (.paragraph body')
  | code (source : String) (language : Option String) :
    SameForm (.code source language) (.code source language)
  | raw (markup : String) : SameForm (.raw markup) (.raw markup)
  | math (source : String) : SameForm (.math source) (.math source)
  | rule : SameForm .rule .rule
  | list (kind : ListKind) {items items' : List (List Block)}
    (h : List.Forall₂ (List.Forall₂ SameForm) items items') :
    SameForm (.list kind items) (.list kind items')
  | quote {body body' : List Block} (h : List.Forall₂ SameForm body body') :
    SameForm (.quote body) (.quote body')
  | table (alignments : List Alignment) {header header' : List Cell} {rows rows' : List (List Cell)}
    (hheader : List.Forall₂ (List.Forall₂ SameForm) header header')
    (hrows : List.Forall₂ (List.Forall₂ (List.Forall₂ SameForm)) rows rows') :
    SameForm (.table alignments header rows) (.table alignments header' rows')

section

variable (f : Span → Span)

def mapInSpans (spans : List Span) : List Span :=
  Id.run (transformSpansM (fun s => pure (f s)) spans)

def Block.mapSpans (b : Block) : Block := Id.run (b.mapSpansM fun s => pure (f s))

/-- List items or table cells with their spans replaced by a function without effects. -/
def mapSpansInCells (cells : List (List Block)) : List (List Block) :=
  Id.run (mapSpansInCellsM (fun s => pure (f s)) cells)

def mapSpansInRows (rows : List (List (List Block))) : List (List (List Block)) :=
  Id.run (mapSpansInRowsM (fun s => pure (f s)) rows)

theorem length_mapInSpans (spans : List Span) :
    (mapInSpans f spans).length = spans.length := by
  induction spans with
  | nil => rfl
  | cons s spans ih => exact congrArg Nat.succ ih

theorem isTitle_mapSpans (b : Block) : (b.mapSpans f).isTitle = b.isTitle := by
  cases b <;> rfl

mutual

theorem mapSpans_dropTitlesBlock : (b : Block) → b.dropTitles.mapSpans f = (b.mapSpans f).dropTitles
  | .list kind items => congrArg (Block.list kind) (mapSpans_dropTitlesInCells items)
  | .quote body => congrArg Block.quote (mapSpans_dropTitles body)
  | .table alignments header rows =>
    congrArg₂ (Block.table alignments) (mapSpans_dropTitlesInCells header)
      (mapSpans_dropTitlesInRows rows)
  | .heading .. | .paragraph _ | .code .. | .raw _ | .math _ | .rule => rfl

theorem mapSpans_dropTitles : (blocks : List Block) →
    mapSpans f (dropTitles blocks) = dropTitles (mapSpans f blocks)
  | [] => rfl
  | b :: bs => by
    have hcons : mapSpans f (b :: bs) = b.mapSpans f :: mapSpans f bs := rfl
    rw [hcons, dropTitles, dropTitles, isTitle_mapSpans, ← mapSpans_dropTitles bs,
      ← mapSpans_dropTitlesBlock b]
    split <;> rfl

theorem mapSpans_dropTitlesInCells : (cells : List (List Block)) →
    mapSpansInCells f (dropTitlesInCells cells) = dropTitlesInCells (mapSpansInCells f cells)
  | [] => rfl
  | c :: cs => congrArg₂ List.cons (mapSpans_dropTitles c) (mapSpans_dropTitlesInCells cs)

theorem mapSpans_dropTitlesInRows : (rows : List (List (List Block))) →
    mapSpansInRows f (dropTitlesInRows rows) = dropTitlesInRows (mapSpansInRows f rows)
  | [] => rfl
  | r :: rs => congrArg₂ List.cons (mapSpans_dropTitlesInCells r) (mapSpans_dropTitlesInRows rs)

end

mutual

theorem sameForm_mapSpans_block : (b : Block) → b.SameForm (b.mapSpans f)
  | .heading level body => .heading level (length_mapInSpans f body).symm
  | .paragraph body => .paragraph (length_mapInSpans f body).symm
  | .list kind items => .list kind (sameForm_mapSpansInCells items)
  | .quote body => .quote (sameForm_mapSpans body)
  | .table alignments header rows =>
    .table alignments (sameForm_mapSpansInCells header) (sameForm_mapSpansInRows rows)
  | .code source language => .code source language
  | .raw markup => .raw markup
  | .math source => .math source
  | .rule => .rule

theorem sameForm_mapSpans : (blocks : List Block) →
    List.Forall₂ Block.SameForm blocks (mapSpans f blocks)
  | [] => .nil
  | b :: bs => .cons (sameForm_mapSpans_block b) (sameForm_mapSpans bs)

theorem sameForm_mapSpansInCells : (cells : List (List Block)) →
    List.Forall₂ (List.Forall₂ Block.SameForm) cells (mapSpansInCells f cells)
  | [] => .nil
  | c :: cs => .cons (sameForm_mapSpans c) (sameForm_mapSpansInCells cs)

theorem sameForm_mapSpansInRows : (rows : List (List (List Block))) →
    List.Forall₂ (List.Forall₂ (List.Forall₂ Block.SameForm)) rows (mapSpansInRows f rows)
  | [] => .nil
  | r :: rs => .cons (sameForm_mapSpansInCells r) (sameForm_mapSpansInRows rs)

end

end

/-- A function that replaces the spans of a document and gives each back as it is is called on all
spans in their order, and leaves the document as it is. If a function fails, the call that fails is
the last one: up to it the calls are those of any function that goes on there, and the failure is
that of the whole; and as long as no call fails, nothing is different. A function without effects
replaces spans before or after the titles are removed, and only spans. -/
theorem mapSpansM_follows_spansOf (blocks : List Block) :
    (∀ {σ ε : Type} (f : Span → ExceptT ε (StateM σ) Span) (state : σ),
      (∀ s state, ∃ next, resultOf (f s) state = (.ok s, next)) →
      (callsTo f blocks state).map Prod.fst = spansOf blocks ∧
        (resultOf (mapSpansM f blocks) state).1 = .ok blocks) ∧
    (∀ {σ ε : Type} (f g : Span → ExceptT ε (StateM σ) Span) (state : σ), GoesOn f g →
      (∀ before s state₀ after e next, callsTo g blocks state = before ++ (s, state₀) :: after →
        (∀ call ∈ before, Succeeds f call) → resultOf (f s) state₀ = (.error e, next) →
        callsTo f blocks state = before ++ [(s, state₀)] ∧
          resultOf (mapSpansM f blocks) state = (.error e, next)) ∧
      ((∀ call ∈ callsTo g blocks state, Succeeds f call) →
        callsTo f blocks state = callsTo g blocks state ∧
          resultOf (mapSpansM f blocks) state = resultOf (mapSpansM g blocks) state)) ∧
    ∀ f : Span → Span, mapSpans f (dropTitles blocks) = dropTitles (mapSpans f blocks) ∧
      List.Forall₂ Block.SameForm blocks (mapSpans f blocks) := by
  refine ⟨fun f state hf => ?_, fun f g state hfg => ⟨?_, ?_⟩,
    fun f => ⟨mapSpans_dropTitles f blocks, sameForm_mapSpans f blocks⟩⟩
  · have hunchanged := calls_of_unchanged hf (mapSpansM handOver blocks) state
    rwa [echo_mapSpansM, ← callsTo_eq, ← resultOf_mapSpansM] at hunchanged
  · intro before s state₀ after e next hcalls hbefore hfails
    rw [callsTo_eq] at hcalls ⊢
    rw [resultOf_mapSpansM]
    exact calls_of_fails hfg _ hcalls hbefore hfails
  · intro hcalls
    rw [callsTo_eq, callsTo_eq, resultOf_mapSpansM, resultOf_mapSpansM]
    rw [callsTo_eq] at hcalls
    exact calls_of_succeeds hfg _ hcalls

def headedTable : List Block :=
  [.table [.left] [[.paragraph [.strong [.text "a"], .text "b"]]] [[[.paragraph [.text "c"]]]]]

def counting (s : Span) : ExceptT String (StateM Nat) Span := ExceptT.mk fun n => (.ok s, n + 1)

/-- Counts the spans it is given, and fails when there have been so many. -/
def countingUpTo (limit : Nat) (s : Span) : ExceptT String (StateM Nat) Span :=
  ExceptT.mk fun n => if n = limit then (.error "enough", n) else (.ok s, n + 1)

theorem goesOn_countingUpTo (limit : Nat) : GoesOn (countingUpTo limit) counting := by
  intro s n answer next h
  have hresult : resultOf (countingUpTo limit s) n =
      if n = limit then (.error "enough", n) else (.ok s, n + 1) := rfl
  rw [hresult] at h
  split at h
  · cases h
  · exact h

theorem mapSpansM_headedTable_follows_spansOf :
    (callsTo counting headedTable 0).map Prod.fst = spansOf headedTable ∧
      callsTo (countingUpTo 2) headedTable 0 =
        [(.text "a", 0), (.strong [.text "a"], 1), (.text "b", 2)] ∧
      resultOf (mapSpansM (countingUpTo 2) headedTable) 0 = (.error "enough", 2) := by
  obtain ⟨hunchanged, hfails, -⟩ := mapSpansM_follows_spansOf headedTable
  refine ⟨(hunchanged counting 0 fun s n => ⟨n + 1, rfl⟩).1, ?_⟩
  refine (hfails (countingUpTo 2) counting 0 (goesOn_countingUpTo 2)).1
    [(.text "a", 0), (.strong [.text "a"], 1)] (.text "b") 2 [(.text "c", 3)] "enough" 2 rfl ?_ rfl
  intro call hcall
  obtain rfl | rfl : call = (.text "a", 0) ∨ call = (.strong [.text "a"], 1) := by
    simpa using hcall
  · exact ⟨_, 1, rfl⟩
  · exact ⟨_, 2, rfl⟩

end LiterateJournal
