import LiterateJournal.Proofs.Evaluation.Asking
import LiterateJournal.Proofs.Markdown.LinkTables

/-!
# Scripts

A script is a sequence of chunks, from which the blocks, the link definitions and the tooltips of a
document are gathered. Its code is handed to the evaluator in the order of the chunks.

## Main definitions

* `Script.snippets` — the snippets of a script.
* `Script.Chunk.Defines` — a chunk defines a label.
* `Script.document` — the document of a script whose snippets have been evaluated.

## Main statements

* `Script.get?_linksOfChunks` — the last chunk that defines a label counts.
* `Document.ofScript_evaluates_chunks` — what a script makes, and what the evaluator is handed.
-/

namespace LiterateJournal

namespace Script

/-! ### Link definitions -/

section

variable (order : Markdown.DefinitionOrder)

def Chunk.links : Chunk → LinkTable
  | .markdown text => (parseMarkdown text order).2
  | .code .. => ∅

/-- A chunk of Markdown defines a label with the same normal form as `label`. -/
def Chunk.Defines (c : Chunk) (label : String) : Prop :=
  ∃ text, c = .markdown text ∧
    ∃ d ∈ (Markdown.Outline.ofText text.toList).definitions, d.key = normalizeLabel label

/-- The link definitions of some chunks, put in one table after another. -/
def linksOfChunks (links : LinkTable) (chunks : List Chunk) : LinkTable :=
  chunks.foldl (fun links c => links.merge (c.links order)) links

variable {order}

theorem isSome_links_iff {c : Chunk} {label : String} :
    ((c.links order).get? label).isSome ↔ c.Defines label := by
  cases c with
  | code text hidden =>
    refine iff_of_false Bool.false_ne_true ?_
    rintro ⟨_, h, -⟩
    cases h
  | markdown text =>
    rw [Option.isSome_iff_ne_none, ne_eq, Chunk.links, parseMarkdown,
      Markdown.get?_linksOf_arrange_eq_none_iff]
    constructor
    · intro h
      push Not at h
      obtain ⟨d, hd, hkey⟩ := h
      exact ⟨text, rfl, d, hd, hkey.symm⟩
    · rintro ⟨_, h, d, hd, hkey⟩ hnone
      cases h
      exact hnone d hd hkey.symm

theorem get?_merge (links defined : LinkTable) (label : String) :
    (links.merge defined).get? label = (defined.get? label).or (links.get? label) :=
  SortedTable.get?_merge links.entries defined.entries _

/-- A label leads where the last chunk that defines it says. -/
theorem get?_linksOfChunks (links : LinkTable) (chunks : List Chunk) (label : String) :
    (linksOfChunks order links chunks).get? label =
      (chunks.reverse.findSome? fun c => (c.links order).get? label).or (links.get? label) := by
  induction chunks generalizing links with
  | nil => rfl
  | cons c chunks ih =>
    rw [linksOfChunks, List.foldl_cons, ← linksOfChunks, ih, get?_merge, List.reverse_cons,
      List.findSome?_append, Option.or_assoc]
    simp

end

/-! ### Snippets and documents -/

def Chunk.code? : Chunk → Option (String × Bool)
  | .markdown _ => none
  | .code text hidden => some (text, hidden)

def snippets (path : String) (chunks : List Chunk) : List Snippet :=
  (chunks.filterMap Chunk.code?).mapIdx fun i (text, hidden) => ⟨path, i, text, none, hidden⟩

def Chunk.piece : Chunk → SourcePiece
  | .markdown text => .ready (parseMarkdown text).1
  | .code text hidden => .code text none hidden

/-- The document that some chunks make, with the evaluations of their snippets. -/
def document (path : String) (order : Markdown.DefinitionOrder) (chunks : List Chunk)
    (es : List Evaluation) : Document :=
  ⟨fill (chunks.map Chunk.piece) es, linksOfChunks order ∅ chunks, tooltipsOf es, .script, path⟩

theorem snippetsFrom_pieces (path : String) (chunks : List Chunk) :
    snippetsFrom path 0 (chunks.map Chunk.piece) = snippets path chunks := by
  have hcode (c : Chunk) : c.piece.snippet? path =
      c.code?.map fun (text, hidden) i => ⟨path, i, text, none, hidden⟩ := by
    cases c <;> rfl
  exact snippetsFrom_map hcode chunks

section

variable {m : Type → Type} [Monad m] [LawfulMonad m] (reader : SourceReader m)

theorem evaluateChunksM_eq (index : Nat) (links : LinkTable) (chunks : List Chunk) :
    evaluateChunksM reader index links chunks =
      (fun (blocks, tooltips) => ⟨blocks, linksOfChunks reader.order links chunks, tooltips⟩) <$>
        evaluatePieces reader index (chunks.map Chunk.piece) := by
  induction chunks generalizing index links with
  | nil => simp [evaluateChunksM, evaluatePieces, linksOfChunks]
  | cons c chunks ih =>
    cases c with
    | markdown text =>
      have hlinks : linksOfChunks reader.order links (.markdown text :: chunks) =
          linksOfChunks reader.order (links.merge (parseMarkdown text reader.order).2) chunks := rfl
      have hblocks : (parseMarkdown text reader.order).1 = (parseMarkdown text).1 := rfl
      simp [evaluateChunksM, evaluatePieces, Chunk.piece, ih, hlinks, hblocks]
    | code text hidden =>
      have hlinks : linksOfChunks reader.order links (.code text hidden :: chunks) =
          linksOfChunks reader.order links chunks := rfl
      simp [evaluateChunksM, evaluatePieces, Chunk.piece, ih, hlinks]

theorem run_ofScriptM {text : String} {chunks : List Chunk} (h : Script.chunks text = .ok chunks) :
    (Document.ofScriptM reader text).run =
      Evaluated.outcome reader.path 0 (document reader.path reader.order chunks) <$>
        evaluateAll reader.evaluate (snippets reader.path chunks) := by
  rw [Document.ofScriptM, h]
  simp only [evaluateChunksM_eq, ExceptT.run_bind, run_evaluatePieces,
    snippetsFrom_pieces, map_eq_pure_bind, bind_assoc, pure_bind]
  refine bind_congr fun r => ?_
  cases r <;> rfl

omit [LawfulMonad m] in
theorem run_ofScriptM_of_error {text : String} {e : Unterminated}
    (h : Script.chunks text = .error e) :
    (Document.ofScriptM reader text).run = pure (.error (.parse reader.path e.message)) := by
  rw [Document.ofScriptM, h]
  rfl

end

end Script

open Script in
/-- A script whose chunks cannot be told is no document, and nothing of it is evaluated. Otherwise
its code, numbered from zero, is evaluated chunk by chunk up to the first failure, whose number and
message are told; nothing else is handed to the evaluator, whatever effects it has. The document
has the blocks of the Markdown and of the evaluations in the order of the chunks and the tooltips
of the evaluations, and a label leads where the last chunk says that defines one with its normal
form. -/
theorem Document.ofScript_evaluates_chunks {m : Type → Type} [Monad m] [LawfulMonad m]
    (reader : SourceReader m) (text : String) :
    (∀ e, Script.chunks text = .error e →
      (ofScriptM reader text).run = pure (.error (.parse reader.path e.message)) ∧
      (ofScriptM reader.noting text).run.run [] =
        pure (.error (.parse reader.path e.message), [])) ∧
    ∀ chunks, Script.chunks text = .ok chunks →
      let document := Script.document reader.path reader.order chunks
      (ofScriptM reader text).run = Evaluated.outcome reader.path 0 document <$>
          evaluateAll reader.evaluate (Script.snippets reader.path chunks) ∧
      (ofScriptM reader.noting text).run.run [] =
        (fun r => (Evaluated.outcome reader.path 0 document r,
          Evaluated.handed (Script.snippets reader.path chunks) r)) <$>
          evaluateAll reader.evaluate (Script.snippets reader.path chunks) ∧
      (∀ es label, (document es).links.get? label =
        chunks.reverse.findSome? fun c => (c.links reader.order).get? label) ∧
      ∀ c ∈ chunks, ∀ label, ((c.links reader.order).get? label).isSome ↔ c.Defines label := by
  refine ⟨fun e he => ⟨run_ofScriptM_of_error reader he, ?_⟩, fun chunks hchunks =>
    ⟨run_ofScriptM reader hchunks, ?_, fun es label => ?_, fun c _ label => isSome_links_iff⟩⟩
  · rw [run_ofScriptM_of_error reader.noting he]
    rfl
  · rw [run_ofScriptM reader.noting hchunks]
    exact run_outcome_noting reader _ _ _ _
  · have hempty : (∅ : LinkTable).get? label = none := rfl
    have hlinks : (linksOfChunks reader.order ∅ chunks).get? label = _ :=
      get?_linksOfChunks ∅ chunks label
    rwa [hempty, Option.or_none] at hlinks

open Script in
/-- Of three snippets the second one, which is hidden, fails. -/
theorem Document.ofScript_failing_snippet :
    let text := "a (** # T *) (*** hide ***) b (** [k]: /u *) c"
    let reader : SourceReader Id :=
      ⟨"s.fsx", fun _ => true, fun s => pure (if s.hidden then .error "no" else .ok ⟨[], "t"⟩),
        .ofText⟩
    Script.chunks text =
      .ok [.code "a" false, .markdown "# T", .code " b" true, .markdown "[k]: /u",
        .code " c" false] ∧
    (ofScriptM reader.noting text).run.run [] =
      pure (.error (.evaluation "s.fsx" 1 "no"),
        [⟨"s.fsx", 0, "a", none, false⟩, ⟨"s.fsx", 1, " b", none, true⟩]) := by
  intro text reader
  have hchunks : Script.chunks text = .ok [.code "a" false, .markdown "# T", .code " b" true,
      .markdown "[k]: /u", .code " c" false] := by decide +kernel
  obtain ⟨-, hnoting, -⟩ := (ofScript_evaluates_chunks reader text).2 _ hchunks
  exact ⟨hchunks, hnoting⟩

end LiterateJournal
