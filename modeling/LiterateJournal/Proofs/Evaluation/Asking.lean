import Mathlib.Data.List.Basic
import LiterateJournal.Evaluation.Source

/-!
# Asking an evaluator

Source files are cut into blocks that are ready and code that is to be evaluated. The code is handed
to the evaluator piece by piece, numbered from zero, up to the first failure, whatever effects the
evaluation has; and the evaluations are put where the code was.

## Main definitions

* `evaluateAll` — snippets are evaluated one after another, up to the first failure.
* `SourcePiece`, `snippetsFrom`, `fill` — the pieces of a source file, their snippets, and the
  blocks when these have been evaluated.
* `SourceReader.noting` — a reader that notes which snippets the evaluator is handed.

## Main statements

* `run_evaluatePieces` — evaluating the pieces is evaluating their snippets.
* `run_evaluateAll_noting` — all snippets are handed over, or those up to the first failure.
-/

namespace LiterateJournal

/-! ### Snippets one after another -/

/-- The evaluations of some snippets, or the number of those before the first failure, and why it
failed. -/
abbrev Evaluated := Except (Nat × String) (List Evaluation)

namespace Evaluated

/-- One snippet more has been evaluated before the others. -/
def cons (e : Evaluation) : Evaluated → Evaluated
  | .ok es => .ok (e :: es)
  | .error (n, message) => .error (n + 1, message)

/-- What a source file makes, whose first snippet has the number `index`. -/
def outcome {α : Type} (path : String) (index : Nat) (make : List Evaluation → α) :
    Evaluated → Except DocumentError α
  | .ok es => .ok (make es)
  | .error (n, message) => .error (.evaluation path (index + n) message)

/-- The snippets that have been handed over: all of them, or those up to the first failure. -/
def handed (snippets : List Snippet) : Evaluated → List Snippet
  | .ok _ => snippets
  | .error (n, _) => snippets.take (n + 1)

theorem handed_cons (s : Snippet) (snippets : List Snippet) (e : Evaluation) (r : Evaluated) :
    handed (s :: snippets) (r.cons e) = s :: handed snippets r := by
  cases r <;> rfl

end Evaluated

section

variable {m : Type → Type} [Monad m]

/-- Evaluates snippets one after another, up to the first failure. -/
def evaluateAll (evaluate : Snippet → m (Except String Evaluation)) : List Snippet → m Evaluated
  | [] => pure (.ok [])
  | s :: rest => do
    match ← evaluate s with
    | .ok e => pure ((← evaluateAll evaluate rest).cons e)
    | .error message => pure (.error (0, message))

def SourceReader.noting (reader : SourceReader m) : SourceReader (StateT (List Snippet) m) where
  path := reader.path
  accepts := reader.accepts
  evaluate s := do
    modify (· ++ [s])
    reader.evaluate s
  order := reader.order

/-- The evaluator is handed all snippets in order, or those up to the first failure. -/
theorem run_evaluateAll_noting [LawfulMonad m] (reader : SourceReader m) (snippets : List Snippet)
    (noted : List Snippet) :
    (evaluateAll reader.noting.evaluate snippets).run noted =
      (fun r => (r, noted ++ Evaluated.handed snippets r)) <$>
        evaluateAll reader.evaluate snippets := by
  induction snippets generalizing noted with
  | nil => simp [evaluateAll, Evaluated.handed]
  | cons s rest ih =>
    have hs : (reader.noting.evaluate s).run noted =
        (fun result => (result, noted ++ [s])) <$> reader.evaluate s := by
      simp [SourceReader.noting]
    rw [evaluateAll, evaluateAll, StateT.run_bind, hs, map_bind, bind_map_left]
    refine bind_congr fun result => ?_
    cases result with
    | error message => simp [Evaluated.handed]
    | ok e =>
      simp [ih, Evaluated.handed_cons]

/-- What a source file makes does not depend on what is noted. -/
theorem run_outcome_noting [LawfulMonad m] {α : Type} (reader : SourceReader m) (path : String)
    (index : Nat) (make : List Evaluation → α) (snippets : List Snippet) :
    (Evaluated.outcome path index make <$> evaluateAll reader.noting.evaluate snippets).run [] =
      (fun r => (Evaluated.outcome path index make r, Evaluated.handed snippets r)) <$>
        evaluateAll reader.evaluate snippets := by
  rw [StateT.run_map, run_evaluateAll_noting]
  simp

/-! ### Pieces -/

inductive SourcePiece where
  | ready (blocks : List Block)
  | code (source : String) (language : Option String) (hidden : Bool)

def SourcePiece.snippet? (path : String) : SourcePiece → Option (Nat → Snippet)
  | .ready _ => none
  | .code source language hidden => some fun i => ⟨path, i, source, language, hidden⟩

def snippetsFrom (path : String) (index : Nat) (pieces : List SourcePiece) : List Snippet :=
  (pieces.filterMap (SourcePiece.snippet? path)).mapIdx fun i snippet => snippet (index + i)

/-- The blocks of some pieces, with evaluations in the place of the code. -/
def fill : List SourcePiece → List Evaluation → List Block
  | .ready blocks :: rest, es => blocks ++ fill rest es
  | .code .. :: rest, e :: es => e.blocks ++ fill rest es
  | .code .. :: rest, [] => fill rest []
  | [], _ => []

def tooltipsOf (es : List Evaluation) : String := String.join (es.map Evaluation.tooltips)

def evaluatePieces (reader : SourceReader m) (index : Nat) :
    List SourcePiece → ExceptT DocumentError m (List Block × String)
  | [] => pure ([], "")
  | .ready blocks :: rest => do
    let (more, tooltips) ← evaluatePieces reader index rest
    pure (blocks ++ more, tooltips)
  | .code source language hidden :: rest => do
    let e ← reader.run index source language hidden
    let (more, tooltips) ← evaluatePieces reader (index + 1) rest
    pure (e.blocks ++ more, e.tooltips ++ tooltips)

theorem snippetsFrom_ready (path : String) (index : Nat) (blocks : List Block)
    (rest : List SourcePiece) : snippetsFrom path index (.ready blocks :: rest) =
      snippetsFrom path index rest := rfl

theorem snippetsFrom_code (path : String) (index : Nat) (source : String)
    (language : Option String) (hidden : Bool) (rest : List SourcePiece) :
    snippetsFrom path index (.code source language hidden :: rest) =
      ⟨path, index, source, language, hidden⟩ :: snippetsFrom path (index + 1) rest := by
  simp only [snippetsFrom, SourcePiece.snippet?, List.filterMap_cons, List.mapIdx_cons,
    Nat.add_zero, Nat.add_assoc, Nat.add_comm 1]

/-- Things that are made into pieces are numbered as those of them are that hold code. -/
theorem snippetsFrom_map {α γ : Type} {path : String} {piece : α → SourcePiece}
    {code? : α → Option γ} {number : γ → Nat → Snippet}
    (h : ∀ a, (piece a).snippet? path = (code? a).map number) (l : List α) :
    snippetsFrom path 0 (l.map piece) = (l.filterMap code?).mapIdx fun i c => number c i := by
  have hpieces : (l.map piece).filterMap (SourcePiece.snippet? path) =
      (l.filterMap code?).map number := by
    rw [List.filterMap_map, List.map_filterMap]
    exact List.filterMap_congr fun a _ => h a
  rw [snippetsFrom, hpieces]
  refine List.ext_getElem? fun i => ?_
  simp [Function.comp_def]

theorem tooltipsOf_cons (e : Evaluation) (es : List Evaluation) :
    tooltipsOf (e :: es) = e.tooltips ++ tooltipsOf es := by
  rw [tooltipsOf, List.map_cons, String.join_cons, tooltipsOf]

theorem SourceReader.run_run [LawfulMonad m] (reader : SourceReader m) (index : Nat)
    (source : String) (language : Option String) (hidden : Bool) :
    (reader.run index source language hidden).run =
      Except.mapError (DocumentError.evaluation reader.path index) <$>
        reader.evaluate ⟨reader.path, index, source, language, hidden⟩ := by
  rw [map_eq_pure_bind]
  refine (ExceptT.run_bind_lift (reader.evaluate _) _).trans (bind_congr fun result => ?_)
  cases result <;> rfl

/-- Evaluating pieces is evaluating their snippets, and putting the evaluations where the code
was. -/
theorem run_evaluatePieces [LawfulMonad m] (reader : SourceReader m) (index : Nat)
    (pieces : List SourcePiece) :
    (evaluatePieces reader index pieces).run =
      Evaluated.outcome reader.path index (fun es => (fill pieces es, tooltipsOf es)) <$>
        evaluateAll reader.evaluate (snippetsFrom reader.path index pieces) := by
  induction pieces generalizing index with
  | nil => simp [evaluatePieces, evaluateAll, snippetsFrom, Evaluated.outcome, fill, tooltipsOf]
  | cons piece rest ih =>
    cases piece with
    | ready blocks =>
      rw [evaluatePieces, snippetsFrom_ready, ExceptT.run_bind, ih, bind_map_left,
        map_eq_pure_bind]
      refine bind_congr fun r => ?_
      cases r <;> rfl
    | code source language hidden =>
      rw [evaluatePieces, snippetsFrom_code, evaluateAll, ExceptT.run_bind, reader.run_run,
        bind_map_left, map_bind]
      refine bind_congr fun result => ?_
      cases result with
      | error message => simp [Except.mapError, Evaluated.outcome]
      | ok e =>
        simp only [ExceptT.run_bind, ih, map_eq_pure_bind, bind_assoc, pure_bind]
        refine bind_congr fun r => ?_
        cases r with
        | ok es => simp [Evaluated.outcome, Evaluated.cons, fill, tooltipsOf_cons]
        | error failure =>
          simp [Evaluated.outcome, Evaluated.cons, Nat.add_assoc, Nat.add_comm 1]

end

end LiterateJournal
