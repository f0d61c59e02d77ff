import Mathlib.Data.List.Forall2
import LiterateJournal.Evaluation.Source
import LiterateJournal.Proofs.Script.Grammar
import LiterateJournal.Proofs.Script.Indentation

/-!
# The chunks of a script

The chunks of a script are its Markdown and its code, as far as they are not blank, in the order of
the text. Of these segments nothing but white space is lost. A directive to hide stays in force up
to the next code.

## Main definitions

* `Segment.Shows` — a chunk with the text of a segment.
* `inContext` — segments, each with those before it.

## Main statements

* `chunks_follow_grammar` — when a script has chunks, and which.
-/

namespace LiterateJournal.Script

open Text

/-! ### Code keeps what is solid -/

/-- Code loses blank lines only. -/
theorem solid_trimCode (cs : List Char) : solid (trimCode cs) = solid cs := by
  have hdropped : ((lines cs).takeWhile isBlankText).flatMap solid = [] := by
    rw [List.flatMap_eq_nil_iff]
    exact fun line hline =>
      solid_eq_nil_of_isBlankText (List.all_eq_true.1 List.all_takeWhile line hline)
  calc solid (trimCode cs)
    _ = ((lines cs).dropWhile isBlankText).flatMap solid := by
      rw [trimCode, solid_trimEnd, solid_joinWith (by decide)]
    _ = (lines cs).flatMap solid := by
      have hlines := congrArg (List.flatMap solid) (List.takeWhile_append_dropWhile
        (p := isBlankText) (l := lines cs))
      rwa [List.flatMap_append, hdropped, List.nil_append] at hlines
    _ = solid cs := flatMap_solid_lines cs

/-! ### Chunks for segments -/

def Segment.isCode : Segment → Bool
  | .code text => !isBlankText text
  | .markdown _ | .directive _ => false

def Segment.isHide : Segment → Bool
  | .directive body => Script.isHide body
  | .code _ | .markdown _ => false

def Segment.isShown : Segment → Bool
  | .code text => !isBlankText text
  | .markdown body => !isBlankText body
  | .directive _ => false

/-- Whether a directive to hide stands behind the last code that is not blank. -/
def hidesNext (before : List Segment) : Bool :=
  (before.reverse.takeWhile fun s => !s.isCode).any Segment.isHide

/-- A chunk has the text of a segment up to white space, and hides it when the segments before it
say so. -/
inductive Segment.Shows (before : List Segment) : Segment → Chunk → Prop where
  | code {text : List Char} {s : String} :
    solid s.toList = solid text → Shows before (.code text) (.code s (hidesNext before))
  | markdown {body : List Char} {s : String} :
    solid s.toList = solid body → Shows before (.markdown body) (.markdown s)

/-- Segments, each with the segments before it; `before` are those before all of them. -/
def inContext (before : List Segment) : List Segment → List (List Segment × Segment)
  | [] => []
  | s :: rest => (before, s) :: inContext (before ++ [s]) rest

def ShowsAll (segs : List Segment) (cks : List Chunk) : Prop :=
  List.Forall₂ (fun s c => s.2.Shows s.1 c) ((inContext [] segs).filter fun s => s.2.isShown) cks

theorem hidesNext_append (before : List Segment) (s : Segment) :
    hidesNext (before ++ [s]) = (!s.isCode && (s.isHide || hidesNext before)) := by
  cases h : s.isCode <;> simp [hidesNext, h]

/-- The chunks that are made of segments are the chunks for them. -/
theorem forall₂_chunksOf (before segs : List Segment) :
    List.Forall₂ (fun s c => s.2.Shows s.1 c)
      ((inContext before segs).filter fun s => s.2.isShown)
      (chunksOf (hidesNext before) segs) := by
  induction segs generalizing before with
  | nil => exact .nil
  | cons s segs ih =>
    have hrest := ih (before ++ [s])
    rw [hidesNext_append] at hrest
    rw [inContext, List.filter_cons]
    cases s with
    | code text =>
      cases hblank : isBlankText text with
      | true =>
        simpa [chunksOf, Segment.isShown, Segment.isCode, Segment.isHide, hblank] using hrest
      | false =>
        have hshows : (Segment.code text).Shows before
            (.code (String.ofList (trimCode text)) (hidesNext before)) :=
          .code (by rw [String.toList_ofList, solid_trimCode])
        have hfalse : (!(Segment.code text).isCode && ((Segment.code text).isHide ||
            hidesNext before)) = false := by simp [Segment.isCode, hblank]
        rw [hfalse] at hrest
        simpa [chunksOf, Segment.isShown, hblank] using And.intro hshows hrest
    | markdown body =>
      have hkept : (!(Segment.markdown body).isCode && ((Segment.markdown body).isHide ||
          hidesNext before)) = hidesNext before := by simp [Segment.isCode, Segment.isHide]
      rw [hkept] at hrest
      cases hblank : isBlankText body with
      | true => simpa [chunksOf, Segment.isShown, hblank] using hrest
      | false =>
        have hshows : (Segment.markdown body).Shows before
            (.markdown (String.ofList (dedent body))) :=
          .markdown (by rw [String.toList_ofList, solid_dedent])
        simpa [chunksOf, Segment.isShown, hblank] using And.intro hshows hrest
    | directive body =>
      have hor : (!(Segment.directive body).isCode && ((Segment.directive body).isHide ||
          hidesNext before)) = (hidesNext before || isHide body) := by
        simp [Segment.isCode, Segment.isHide, Bool.or_comm]
      rw [hor] at hrest
      simpa [chunksOf, Segment.isShown] using hrest

/-! ### The chunks of a script -/

theorem chunks_eq_ok_iff {text : String} {cks : List Chunk} :
    chunks text = .ok cks ↔
      ∃ segs, Splits (plainLineEnds text.toList) segs ∧ cks = chunksOf false segs := by
  simp only [← segments_eq_ok_iff]
  unfold chunks
  cases segments (plainLineEnds text.toList) with
  | ok segs =>
    constructor
    · intro h
      cases h
      exact ⟨segs, rfl, rfl⟩
    · rintro ⟨segs', hsegs, rfl⟩
      cases hsegs
      rfl
  | error e =>
    constructor
    · intro h
      cases h
    · rintro ⟨segs', hsegs, -⟩
      cases hsegs

/-- A script in which a comment does not end is no document. -/
theorem ofScript_eq_error {text : String} {n : Nat} {tail : List Char}
    (hmeets : Meets (plainLineEnds text.toList) n tail)
    (hnot : ∀ body rest, ¬ Ends n tail body rest) (ctx : SourceContext)
    (order : Markdown.DefinitionOrder) : Document.ofScript ctx text order =
      .error (.parse ctx.path (Unterminated.ofStars n).message) := by
  have hread := segments_eq_error_iff.2 ⟨n, tail, hmeets, hnot, rfl⟩
  have hchunks : chunks text = .error (.ofStars n) := by
    rw [chunks, hread]
    rfl
  rw [Document.ofScript, Document.ofScriptM, hchunks]
  rfl

/-- A script has chunks just when every comment that is met in it ends; otherwise it is no document,
and the error tells which comment does not. The chunks are those for the segments into which the
grammar cuts the text. -/
theorem chunks_follow_grammar (text : String) :
    ((∃ cks, chunks text = .ok cks) ↔
      ∀ n tail, Meets (plainLineEnds text.toList) n tail → ∃ body rest, Ends n tail body rest) ∧
    (∀ n tail, Meets (plainLineEnds text.toList) n tail → (∀ body rest, ¬ Ends n tail body rest) →
      ∀ (ctx : SourceContext) (order : Markdown.DefinitionOrder), Document.ofScript ctx text order =
        .error (.parse ctx.path (Unterminated.ofStars n).message)) ∧
    ∀ cks, chunks text = .ok cks → ∃ segs,
      (∀ segs', Splits (plainLineEnds text.toList) segs' ↔ segs' = segs) ∧
      segs.flatMap Segment.written = plainLineEnds text.toList ∧ ShowsAll segs cks := by
  refine ⟨?_, fun n tail hmeets hnot => ofScript_eq_error hmeets hnot, fun cks hcks => ?_⟩
  · rw [← exists_splits_iff]
    constructor
    · rintro ⟨cks, hcks⟩
      obtain ⟨segs, hsplits, -⟩ := chunks_eq_ok_iff.1 hcks
      exact ⟨segs, hsplits⟩
    · rintro ⟨segs, hsplits⟩
      exact ⟨chunksOf false segs, chunks_eq_ok_iff.2 ⟨segs, hsplits, rfl⟩⟩
  · obtain ⟨segs, hsplits, rfl⟩ := chunks_eq_ok_iff.1 hcks
    exact ⟨segs, fun segs' => ⟨fun h => h.unique hsplits, fun h => h ▸ hsplits⟩,
      hsplits.flatMap_written, forall₂_chunksOf [] segs⟩

end LiterateJournal.Script
