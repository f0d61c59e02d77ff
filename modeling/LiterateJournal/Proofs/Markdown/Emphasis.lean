import LiterateJournal.Markdown.Emphasis
import Mathlib.Data.List.Basic

/-!
# What emphasis keeps

Runs of marks put trees into emphasis and add text, and change nothing else. A property of trees
that leaves have and that emphasis keeps therefore goes over from the pieces of a line to its
trees.

## Main definitions

* `KeptByMarks` — a property that leaves have and that emphasis keeps.

## Main statements

* `forall_resolve` — such a property goes over from pieces to trees.
-/

namespace LiterateJournal.Markdown

/-- A property that leaves have, and that a tree of emphasis has if its parts do. -/
structure KeptByMarks (Q : Tree → Prop) : Prop where
  leaf (l : Leaf) : Q (.leaf l)
  node {tag : Tag} {ts : List Tree}
    (htag : tag = .emphasis ∨ tag = .strong ∨ tag = .strikethrough) (hts : ∀ t ∈ ts, Q t) :
    Q (.node tag ts)

def Piece.Has (Q : Tree → Prop) : Piece → Prop
  | .tree t => Q t
  | _ => True

/-- All trees between runs have a property. -/
structure Openers.Have (Q : Tree → Prop) (s : Openers) : Prop where
  stack : ∀ o ∈ s.stack, ∀ t ∈ o.after, Q t
  before : ∀ t ∈ s.before, Q t

section

variable {Q : Tree → Prop} {s : Openers} {mark : Char} {ts : List Tree}

theorem forall_emphasize (hQ : KeptByMarks Q) (n : Nat) (h : ∀ t ∈ ts, Q t) :
    ∀ t ∈ emphasize n ts, Q t := by
  fun_induction emphasize n ts with
  | case1 => exact h
  | case2 => exact List.forall_mem_singleton.2 (hQ.node (.inl rfl) h)
  | case3 ts n ih => exact ih (List.forall_mem_singleton.2 (hQ.node (.inr (.inl rfl)) h))

theorem forall_enclose (hQ : KeptByMarks Q) (n : Nat) (h : ∀ t ∈ ts, Q t) :
    ∀ t ∈ enclose mark n ts, Q t := by
  unfold enclose
  split
  · exact List.forall_mem_singleton.2 (hQ.node (.inr (.inr rfl)) h)
  · exact forall_emphasize hQ n h

/-- The runs outside a partner and the trees up to it are those of the stack, but for text. -/
theorem forall_of_partner? (hQ : KeptByMarks Q) {length : Nat} {canOpen : Bool}
    {stack outer : List Opener} {o : Opener} {inside : List Tree}
    (h : ∀ o ∈ stack, ∀ t ∈ o.after, Q t)
    (hpartner : partner? mark length canOpen stack = some (o, outer, inside)) :
    (∀ o ∈ outer, ∀ t ∈ o.after, Q t) ∧ ∀ t ∈ inside, Q t := by
  induction stack generalizing inside with
  | nil => cases hpartner
  | cons first stack ih =>
    obtain ⟨hfirst, hstack⟩ := List.forall_mem_cons.1 h
    simp only [partner?] at hpartner
    split at hpartner
    · cases hpartner
      exact ⟨hstack, hfirst⟩
    · obtain ⟨⟨o', outer', inside'⟩, hfound, heq⟩ := Option.map_eq_some_iff.1 hpartner
      cases heq
      obtain ⟨houter, hinside⟩ := ih hstack hfound
      refine ⟨houter, List.forall_mem_append.2 ⟨hfirst, List.forall_mem_cons.2 ⟨?_, hinside⟩⟩⟩
      exact hQ.leaf _

namespace Openers

theorem Have.add (h : s.Have Q) {t : Tree} (ht : Q t) : (s.add t).Have Q := by
  unfold Openers.add
  split
  · exact ⟨h.stack, List.forall_mem_cons.2 ⟨ht, h.before⟩⟩
  · rename_i o outer hstack
    obtain ⟨ho, houter⟩ := List.forall_mem_cons.1 (hstack ▸ h.stack)
    exact ⟨List.forall_mem_cons.2 ⟨List.forall_mem_cons.2 ⟨ht, ho⟩, houter⟩, h.before⟩

theorem Have.foldl_add (h : s.Have Q) (hts : ∀ t ∈ ts, Q t) : (ts.foldl Openers.add s).Have Q := by
  induction ts generalizing s with
  | nil => exact h
  | cons t ts ih =>
    obtain ⟨ht, hts⟩ := List.forall_mem_cons.1 hts
    exact ih (h.add ht) hts

theorem Have.close (hQ : KeptByMarks Q) (h : s.Have Q) (mark : Char) (length : Nat)
    (canOpen : Bool) (fuel count : Nat) :
    (Openers.close mark length canOpen fuel count s).2.Have Q := by
  induction fuel generalizing count s with
  | zero => exact h
  | succ fuel ih =>
    rw [Openers.close]
    split
    · split
      · exact ⟨List.forall_mem_map.2 h.stack, h.before⟩
      · exact h
    · rename_i o outer inside hpartner
      extract_lets n enclosed rest
      obtain ⟨houter, hinside⟩ := forall_of_partner? hQ h.stack hpartner
      have henclosed : ∀ t ∈ enclosed, Q t :=
        forall_enclose hQ n fun t ht => hinside t (List.mem_reverse.1 ht)
      have hrest : rest.Have Q := by
        dsimp only [rest]
        split
        · exact ⟨List.forall_mem_cons.2 ⟨henclosed, houter⟩, h.before⟩
        · exact Have.foldl_add ⟨houter, h.before⟩ henclosed
      split
      · exact ih hrest _
      · exact hrest

theorem Have.addRun (hQ : KeptByMarks Q) (h : s.Have Q) (length : Nat) (canOpen canClose : Bool) :
    (s.addRun mark length canOpen canClose).Have Q := by
  unfold Openers.addRun
  split
  rename_i count closed heq
  have hclosed : closed.Have Q := by
    split at heq
    · have hclose := h.close hQ mark length canOpen length length
      rwa [heq] at hclose
    · cases heq
      exact h
  split
  · exact hclosed
  split
  · exact ⟨List.forall_mem_cons.2 ⟨by simp, hclosed.stack⟩, hclosed.before⟩
  · exact hclosed.add (hQ.leaf _)

theorem Have.addPiece (hQ : KeptByMarks Q) (h : s.Have Q) {p : Piece} (hp : p.Has Q) :
    (s.addPiece p).Have Q := by
  cases p with
  | tree t => exact h.add hp
  | run mark count canOpen canClose => exact h.addRun hQ count canOpen canClose
  | escapedBreak => exact h.add (hQ.leaf _)

theorem Have.finish (hQ : KeptByMarks Q) (h : s.Have Q) : ∀ t ∈ s.finish, Q t := by
  have htrees (stack : List Opener) (hstack : ∀ o ∈ stack, ∀ t ∈ o.after, Q t) :
      ∀ t ∈ stack.foldr (fun o trees => o.after ++ o.leaf :: trees) s.before, Q t := by
    induction stack with
    | nil => exact h.before
    | cons o stack ih =>
      obtain ⟨ho, hstack⟩ := List.forall_mem_cons.1 hstack
      exact List.forall_mem_append.2 ⟨ho, List.forall_mem_cons.2 ⟨hQ.leaf _, ih hstack⟩⟩
  exact fun t ht => htrees s.stack h.stack t (List.mem_reverse.1 ht)

end Openers

/-- What leaves have and emphasis keeps goes over from pieces to the trees that they make up. -/
theorem forall_resolve (hQ : KeptByMarks Q) {pieces : List Piece} (h : ∀ p ∈ pieces, p.Has Q) :
    ∀ t ∈ resolve pieces, Q t := by
  have hsettled : ∀ p ∈ settleBreak pieces, p.Has Q := by
    unfold settleBreak
    split
    · rename_i earlier hreverse
      have hearlier (p : Piece) (hp : p ∈ earlier) : p.Has Q :=
        h p (List.mem_reverse.1 (hreverse ▸ List.mem_cons_of_mem _ hp))
      split
      · intro p hp
        obtain rfl | hp := List.mem_cons.1 (List.mem_reverse.1 hp)
        · exact hQ.leaf _
        · exact hearlier p hp
      · exact h
    · exact h
  have hadded (pieces : List Piece) (s : Openers) (hs : s.Have Q) (hp : ∀ p ∈ pieces, p.Has Q) :
      (pieces.foldl Openers.addPiece s).Have Q := by
    induction pieces generalizing s with
    | nil => exact hs
    | cons p pieces ih =>
      obtain ⟨hp, hpieces⟩ := List.forall_mem_cons.1 hp
      exact ih _ (hs.addPiece hQ hp) hpieces
  exact (hadded _ ⟨[], []⟩ ⟨by simp, by simp⟩ hsettled).finish hQ

end

end LiterateJournal.Markdown
