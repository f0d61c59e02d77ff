import LiterateJournal.Proofs.Evaluation.Asking
import LiterateJournal.Proofs.Output.Parts

/-!
# Code in Markdown

The code blocks of a Markdown text that the evaluator accepts are handed to it, but only those that
stand in no other block. Those in a list, a quote or a table stay as they are.

## Main definitions

* `fencesAmong`, `fencesIn` — the accepted code blocks among some blocks, and at any depth.
* `Markdown.snippets` — code blocks as snippets.
* `Markdown.document` — the document of a text whose snippets have been evaluated.

## Main statements

* `fencesAmong_eq_iff` — when the accepted code blocks among some blocks are all there are.
* `Document.ofMarkdown_evaluates_fences` — what a text makes, and what the evaluator is handed.
-/

namespace LiterateJournal

/-! ### Accepted code blocks -/

section

variable (accepts : Option String → Bool)

def Block.fence? : Block → Option (String × Option String)
  | .code source language => if accepts language then some (source, language) else none
  | _ => none

def Part.fence? : Part → Option (String × Option String)
  | .block b => b.fence? accepts
  | .span _ => none

def fencesAmong (blocks : List Block) : List (String × Option String) :=
  blocks.filterMap (Block.fence? accepts)

/-- The accepted code blocks of a document, at any depth, in the order of the text. -/
def fencesIn (blocks : List Block) : List (String × Option String) :=
  (partsOf blocks).filterMap (Part.fence? accepts)

def Block.innerFences (b : Block) : List (String × Option String) :=
  b.parts.tail.filterMap (Part.fence? accepts)

end

section

variable {accepts : Option String → Bool}

theorem fencesAmong_cons (b : Block) (bs : List Block) :
    fencesAmong accepts (b :: bs) = (b.fence? accepts).toList ++ fencesAmong accepts bs := by
  rw [fencesAmong, fencesAmong, List.filterMap_cons]
  cases b.fence? accepts <;> rfl

theorem fencesIn_cons (b : Block) (bs : List Block) :
    fencesIn accepts (b :: bs) =
      (b.fence? accepts).toList ++ b.innerFences accepts ++ fencesIn accepts bs := by
  have hparts : b.parts = .block b :: b.parts.tail := by cases b <;> rfl
  rw [fencesIn, partsOf, List.filterMap_append, hparts, List.filterMap_cons, Part.fence?,
    ← Block.innerFences, ← fencesIn]
  cases b.fence? accepts <;> rfl

theorem fencesAmong_sublist (blocks : List Block) :
    (fencesAmong accepts blocks).Sublist (fencesIn accepts blocks) := by
  induction blocks with
  | nil => exact .refl _
  | cons b bs ih =>
    rw [fencesAmong_cons, fencesIn_cons, List.append_assoc]
    exact .append (.refl _) (ih.trans (List.sublist_append_right _ _))

/-- The accepted code blocks among some blocks are all there are just if no block has one inside. -/
theorem fencesAmong_eq_iff (blocks : List Block) :
    fencesAmong accepts blocks = fencesIn accepts blocks ↔
      ∀ b ∈ blocks, b.innerFences accepts = [] := by
  induction blocks with
  | nil => exact iff_of_true rfl (List.forall_mem_nil _)
  | cons b bs ih =>
    rw [fencesAmong_cons, fencesIn_cons, List.append_assoc, List.append_cancel_left_eq,
      List.forall_mem_cons, ← ih]
    constructor
    · intro h
      -- the accepted blocks among the rest are too few for another one
      have hinner : b.innerFences accepts = [] := by
        have hlength := congrArg List.length h
        have hle : (fencesAmong accepts bs).length ≤ (fencesIn accepts bs).length :=
          (fencesAmong_sublist bs).length_le
        rw [List.length_append] at hlength
        exact List.length_eq_zero_iff.1 (by omega)
      exact ⟨hinner, by simpa [hinner] using h⟩
    · rintro ⟨hinner, h⟩
      rw [hinner, List.nil_append, h]

end

/-! ### Snippets and documents -/

namespace Markdown

def snippets (path : String) (fences : List (String × Option String)) : List Snippet :=
  fences.mapIdx fun i (source, language) => ⟨path, i, source, language, false⟩

def piece (accepts : Option String → Bool) (b : Block) : SourcePiece :=
  match b.fence? accepts with
  | some (source, language) => .code source language false
  | none => .ready [b]

/-- The document that some blocks make, with the evaluations of the code among them. -/
def document (path : String) (accepts : Option String → Bool) (links : LinkTable)
    (blocks : List Block) (es : List Evaluation) : Document :=
  ⟨fill (blocks.map (piece accepts)) es, links, tooltipsOf es, .markdown, path⟩

theorem snippetsFrom_pieces (path : String) (accepts : Option String → Bool)
    (blocks : List Block) :
    snippetsFrom path 0 (blocks.map (piece accepts)) =
      snippets path (fencesAmong accepts blocks) := by
  have hcode (b : Block) : (piece accepts b).snippet? path =
      (b.fence? accepts).map fun (source, language) i => ⟨path, i, source, language, false⟩ := by
    rw [piece]
    cases b.fence? accepts <;> rfl
  exact snippetsFrom_map hcode blocks

variable {m : Type → Type} [Monad m] [LawfulMonad m] (reader : SourceReader m)

theorem evaluateBlocksM_eq (index : Nat) (blocks : List Block) :
    evaluateBlocksM reader index blocks =
      evaluatePieces reader index (blocks.map (piece reader.accepts)) := by
  induction blocks generalizing index with
  | nil => rfl
  | cons b bs ih =>
    cases b with
    | code source language =>
      rw [evaluateBlocksM, List.map_cons, piece, Block.fence?]
      cases reader.accepts language <;> simp [evaluatePieces, ih]
    | _ =>
      simp only [evaluateBlocksM, ih]
      rfl

theorem run_ofMarkdownM (text : String) :
    (Document.ofMarkdownM reader text).run =
      Evaluated.outcome reader.path 0
        (document reader.path reader.accepts (parseMarkdown text reader.order).2
          (parseMarkdown text).1) <$>
        evaluateAll reader.evaluate
          (snippets reader.path (fencesAmong reader.accepts (parseMarkdown text).1)) := by
  rw [Document.ofMarkdownM]
  simp only [evaluateBlocksM_eq, ExceptT.run_bind, run_evaluatePieces, snippetsFrom_pieces,
    map_eq_pure_bind, bind_assoc, pure_bind]
  refine bind_congr fun r => ?_
  cases r <;> rfl

theorem snippets_eq_iff (path : String) (accepts : Option String → Bool) (blocks : List Block) :
    snippets path (fencesAmong accepts blocks) = snippets path (fencesIn accepts blocks) ↔
      ∀ b ∈ blocks, b.innerFences accepts = [] := by
  rw [← fencesAmong_eq_iff]
  refine ⟨fun h => ?_, congrArg _⟩
  refine (fencesAmong_sublist blocks).eq_of_length ?_
  simpa [snippets] using congrArg List.length h

end Markdown

/-- The accepted code blocks of a text that stand in no other block, numbered from zero, are
evaluated up to the first failure, whose number and message are told; nothing else is handed to the
evaluator, whatever effects it has. Each of them is replaced by the blocks of its evaluation, and
all other blocks stay. These are all accepted code blocks of the text just if there is none in a
list, a quote or a table. -/
theorem Document.ofMarkdown_evaluates_fences {m : Type → Type} [Monad m] [LawfulMonad m]
    (reader : SourceReader m) (text : String) :
    let blocks := (parseMarkdown text).1
    let snippets := Markdown.snippets reader.path (fencesAmong reader.accepts blocks)
    let links := (parseMarkdown text reader.order).2
    let document := Markdown.document reader.path reader.accepts links blocks
    (ofMarkdownM reader text).run =
      Evaluated.outcome reader.path 0 document <$> evaluateAll reader.evaluate snippets ∧
    (ofMarkdownM reader.noting text).run.run [] =
      (fun r => (Evaluated.outcome reader.path 0 document r, Evaluated.handed snippets r)) <$>
        evaluateAll reader.evaluate snippets ∧
    (snippets = Markdown.snippets reader.path (fencesIn reader.accepts blocks) ↔
      ∀ b ∈ blocks, b.innerFences reader.accepts = []) := by
  refine ⟨Markdown.run_ofMarkdownM reader text, ?_, Markdown.snippets_eq_iff _ _ _⟩
  rw [Markdown.run_ofMarkdownM reader.noting text]
  exact run_outcome_noting reader _ _ _ _

/-- A text with two code blocks, of which one is not accepted. -/
theorem Document.ofMarkdown_accepted_fence :
    let text := "```\nx\n```\n\n> a\n\n```c\ny\n```\n"
    let reader : SourceReader Id :=
      ⟨"d.md", Evaluator.acceptsDefault, fun _ => pure (.error "no"), .ofText⟩
    (ofMarkdownM reader.noting text).run.run [] =
        pure (.error (.evaluation "d.md" 0 "no"), [⟨"d.md", 0, "x", none, false⟩]) ∧
      ∀ b ∈ (parseMarkdown text).1, b.innerFences reader.accepts = [] := by
  intro text reader
  have hamong : fencesAmong reader.accepts (parseMarkdown text).1 = [("x", none)] := by
    decide +kernel
  have hin : fencesIn reader.accepts (parseMarkdown text).1 = [("x", none)] := by decide +kernel
  obtain ⟨-, hnoting, hiff⟩ := ofMarkdown_evaluates_fences reader text
  rw [hamong] at hnoting hiff
  exact ⟨hnoting, hiff.1 (congrArg _ hin.symm)⟩

/-- A code block in a list is accepted, and not evaluated. -/
theorem Document.ofMarkdown_skips_fence :
    ¬ ∀ (reader : SourceReader Id) (text : String),
      let snippets := Markdown.snippets reader.path
        (fencesIn reader.accepts (parseMarkdown text).1)
      (Id.run ((ofMarkdownM reader.noting text).run.run [])).2 =
        Evaluated.handed snippets (Id.run (evaluateAll reader.evaluate snippets)) := by
  intro h
  have hlist := h ⟨"d.md", Evaluator.acceptsDefault, fun _ => pure (.ok ⟨[], ""⟩), .ofText⟩
    "- a\n\n  ```fsharp\n  let x = 1\n  ```\n"
  exact absurd hlist (by decide +kernel)

end LiterateJournal
