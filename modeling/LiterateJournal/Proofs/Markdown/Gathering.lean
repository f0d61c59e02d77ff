import LiterateJournal.Markdown.Emphasis
import Mathlib.Data.List.Basic
import Mathlib.Data.List.Flatten

/-!
# What is gathered through emphasis

Runs of marks put trees into emphasis and add text. What is gathered from trees in the order of the
line, nothing from leaves and from emphasis what it holds, is therefore gathered from the pieces of
the line in the same order.

## Main definitions

* `GathersMarks` — a way to gather that leaves have nothing for and that sees through emphasis.
* `Openers.gather` — what is gathered while runs are still open.

## Main statements

* `flatMap_resolve` — what is gathered from the trees of some pieces.
-/

namespace LiterateJournal.Markdown

variable {α : Type}

/-- Nothing is gathered from leaves, and from emphasis what it holds. -/
structure GathersMarks (f : Tree → List α) : Prop where
  leaf (l : Leaf) : f (.leaf l) = []
  node {tag : Tag} {ts : List Tree}
    (htag : tag = .emphasis ∨ tag = .strong ∨ tag = .strikethrough) :
    f (.node tag ts) = ts.flatMap f

def Piece.gather (f : Tree → List α) : Piece → List α
  | .tree t => f t
  | _ => []

def Opener.gather (f : Tree → List α) (o : Opener) : List α := o.after.reverse.flatMap f

namespace Openers

def gather (f : Tree → List α) (s : Openers) : List α :=
  s.before.reverse.flatMap f ++ s.stack.reverse.flatMap (Opener.gather f)

/-- Every open run has some mark left. -/
structure Lasting (s : Openers) : Prop where
  pos : ∀ o ∈ s.stack, 0 < o.count

end Openers

section

variable {f : Tree → List α} {s : Openers} {mark : Char}

theorem GathersMarks.textLeaf (hf : GathersMarks f) (cs : List Char) : f (textLeaf cs) = [] :=
  hf.leaf _

theorem flatMap_emphasize (hf : GathersMarks f) (n : Nat) (ts : List Tree) :
    (emphasize n ts).flatMap f = ts.flatMap f := by
  fun_induction emphasize n ts with
  | case1 => rfl
  | case2 ts => simp [hf.node (.inl rfl)]
  | case3 ts n ih => simp [ih, hf.node (.inr (.inl rfl))]

theorem flatMap_enclose (hf : GathersMarks f) (n : Nat) (ts : List Tree) :
    (enclose mark n ts).flatMap f = ts.flatMap f := by
  unfold enclose
  split
  · simp [hf.node (.inr (.inr rfl))]
  · exact flatMap_emphasize hf n ts

theorem length_emphasize {n : Nat} (hn : 0 < n) (ts : List Tree) :
    (emphasize n ts).length = 1 := by
  fun_induction emphasize n ts with
  | case1 => omega
  | case2 => rfl
  | case3 n ts ih =>
    by_cases hzero : n = 0
    · simp [hzero, emphasize]
    · exact ih (by omega)

/-- Runs of some marks enclose trees in one tree. -/
theorem length_enclose {n : Nat} (hn : 0 < n) (ts : List Tree) :
    (enclose mark n ts).length = 1 := by
  unfold enclose
  split
  · rfl
  · exact length_emphasize hn ts

/-- The trees up to a partner come after those outside it, and there are no others. -/
theorem gather_of_partner? (hf : GathersMarks f) {length : Nat} {canOpen : Bool}
    {stack outer : List Opener} {o : Opener} {inside : List Tree}
    (h : partner? mark length canOpen stack = some (o, outer, inside)) :
    outer.reverse.flatMap (Opener.gather f) ++ inside.reverse.flatMap f =
      stack.reverse.flatMap (Opener.gather f) := by
  induction stack generalizing inside with
  | nil => cases h
  | cons first stack ih =>
    rw [partner?] at h
    split at h
    · cases h
      simp [Opener.gather]
    · obtain ⟨⟨o', outer', inside'⟩, hfound, heq⟩ := Option.map_eq_some_iff.1 h
      cases heq
      simp [← ih hfound, Opener.gather, Opener.leaf, hf.textLeaf]

theorem mem_of_partner? {length : Nat} {canOpen : Bool} {stack outer : List Opener} {o : Opener}
    {inside : List Tree} (h : partner? mark length canOpen stack = some (o, outer, inside)) :
    o ∈ stack ∧ ∀ p ∈ outer, p ∈ stack := by
  induction stack generalizing inside with
  | nil => cases h
  | cons first stack ih =>
    rw [partner?] at h
    split at h
    · cases h
      exact ⟨List.mem_cons_self, fun p hp => List.mem_cons_of_mem _ hp⟩
    · obtain ⟨⟨o', outer', inside'⟩, hfound, heq⟩ := Option.map_eq_some_iff.1 h
      cases heq
      obtain ⟨ho, houter⟩ := ih hfound
      exact ⟨List.mem_cons_of_mem _ ho, fun p hp => List.mem_cons_of_mem _ (houter p hp)⟩

namespace Openers

theorem gather_add (s : Openers) (t : Tree) : (s.add t).gather f = s.gather f ++ f t := by
  unfold Openers.add
  split <;> simp_all [gather, Opener.gather]

theorem gather_foldl_add (ts : List Tree) :
    (ts.foldl Openers.add s).gather f = s.gather f ++ ts.flatMap f := by
  induction ts generalizing s with
  | nil => simp
  | cons t ts ih => rw [List.foldl_cons, ih, gather_add, List.flatMap_cons, List.append_assoc]

theorem Lasting.add (h : s.Lasting) (t : Tree) : (s.add t).Lasting := by
  unfold Openers.add
  split
  · exact ⟨h.pos⟩
  · rename_i hstack
    obtain ⟨ho, houter⟩ := List.forall_mem_cons.1 (hstack ▸ h.pos)
    exact ⟨List.forall_mem_cons.2 ⟨ho, houter⟩⟩

theorem Lasting.foldl_add (h : s.Lasting) (ts : List Tree) :
    (ts.foldl Openers.add s).Lasting := by
  induction ts generalizing s with
  | nil => exact h
  | cons t ts ih => exact ih (h.add t)

/-- A closing run encloses trees where they stand. -/
theorem gather_close (hf : GathersMarks f) (h : s.Lasting) (mark : Char) (length : Nat)
    (canOpen : Bool) (fuel : Nat) {count : Nat} (hcount : 0 < count) :
    (close mark length canOpen fuel count s).2.Lasting ∧
      (close mark length canOpen fuel count s).2.gather f = s.gather f := by
  -- On the fuel, since each step loses nothing; that it is enough does not matter.
  induction fuel generalizing count s with
  | zero => exact ⟨h, rfl⟩
  | succ fuel ih =>
    rw [Openers.close]
    split
    · split
      · refine ⟨⟨List.forall_mem_map.2 h.pos⟩, ?_⟩
        simp [gather, ← List.map_reverse, List.flatMap_map]
        rfl
      · exact ⟨h, rfl⟩
    · rename_i o outer inside hpartner
      extract_lets n enclosed rest
      obtain ⟨ho, houter⟩ := mem_of_partner? hpartner
      have hpositive : 0 < n := Nat.lt_min.2 ⟨hcount, h.pos o ho⟩
      have houterLasting : ∀ p ∈ outer, 0 < p.count := fun p hp => h.pos p (houter p hp)
      have henclosed : enclosed.flatMap f = inside.reverse.flatMap f := flatMap_enclose hf n _
      have hstack := gather_of_partner? hf hpartner
      have hrest : rest.Lasting ∧ rest.gather f = s.gather f := by
        dsimp only [rest]
        split
        · rename_i hlt
          obtain ⟨t, ht⟩ := List.length_eq_one_iff.1 (length_enclose hpositive inside.reverse)
          refine ⟨⟨List.forall_mem_cons.2 ⟨Nat.sub_pos_of_lt hlt, houterLasting⟩⟩, ?_⟩
          -- Trees after an open run stand last first, but those enclosed have become one.
          have hone : enclosed.reverse.flatMap f = inside.reverse.flatMap f := by
            rw [← henclosed, show enclosed = [t] from ht, List.reverse_singleton]
          simp [gather, Opener.gather, hone, ← hstack]
        · refine ⟨Lasting.foldl_add ⟨houterLasting⟩ _, ?_⟩
          rw [gather_foldl_add, henclosed, gather, gather, ← hstack, List.append_assoc]
      split
      · rename_i hlt
        obtain ⟨hlasting, hgather⟩ := ih hrest.1 (Nat.sub_pos_of_lt hlt)
        exact ⟨hlasting, hgather.trans hrest.2⟩
      · exact hrest

theorem gather_addRun (hf : GathersMarks f) (h : s.Lasting) (mark : Char) (length : Nat)
    (canOpen canClose : Bool) :
    (s.addRun mark length canOpen canClose).Lasting ∧
      (s.addRun mark length canOpen canClose).gather f = s.gather f := by
  unfold Openers.addRun
  split
  rename_i count closed heq
  have hclosed : closed.Lasting ∧ closed.gather f = s.gather f := by
    split at heq
    · obtain rfl | hpositive := Nat.eq_zero_or_pos length
      · cases heq
        exact ⟨h, rfl⟩
      · have hclose := gather_close hf h mark length canOpen length hpositive
        rwa [heq] at hclose
    · cases heq
      exact ⟨h, rfl⟩
  split
  · exact hclosed
  split
  · rename_i hcount _
    refine ⟨⟨List.forall_mem_cons.2 ⟨Nat.pos_of_ne_zero hcount, hclosed.1.pos⟩⟩, ?_⟩
    simpa [gather, Opener.gather] using hclosed.2
  · refine ⟨hclosed.1.add _, ?_⟩
    rw [gather_add, hf.textLeaf, List.append_nil, hclosed.2]

theorem gather_addPiece (hf : GathersMarks f) (h : s.Lasting) (p : Piece) :
    (s.addPiece p).Lasting ∧ (s.addPiece p).gather f = s.gather f ++ p.gather f := by
  cases p with
  | tree t => exact ⟨h.add t, gather_add s t⟩
  | run mark count canOpen canClose =>
    have hrun := gather_addRun hf h mark count canOpen canClose
    exact ⟨hrun.1, hrun.2.trans (List.append_nil _).symm⟩
  | escapedBreak =>
    refine ⟨h.add _, (gather_add s _).trans ?_⟩
    rw [hf.leaf]
    rfl

theorem flatMap_finish (hf : GathersMarks f) (s : Openers) : s.finish.flatMap f = s.gather f := by
  obtain ⟨stack, before⟩ := s
  unfold finish gather
  dsimp only
  induction stack with
  | nil => simp
  | cons o stack ih =>
    rw [List.foldr_cons, List.reverse_append, List.reverse_cons, List.flatMap_append,
      List.flatMap_append, ih]
    simp [Opener.gather, Opener.leaf, hf.textLeaf]

end Openers

theorem flatMap_settleBreak (hf : GathersMarks f) (pieces : List Piece) :
    (settleBreak pieces).flatMap (Piece.gather f) = pieces.flatMap (Piece.gather f) := by
  unfold settleBreak
  split
  · rename_i earlier hreverse
    split
    · rw [← List.reverse_reverse pieces, hreverse]
      simp [Piece.gather, hf.textLeaf]
    · rfl
  · rfl

/-- What is gathered from the trees that some pieces make up. -/
theorem flatMap_resolve (hf : GathersMarks f) (pieces : List Piece) :
    (resolve pieces).flatMap f = pieces.flatMap (Piece.gather f) := by
  have hadded (pieces : List Piece) (s : Openers) (hs : s.Lasting) :
      (pieces.foldl Openers.addPiece s).gather f =
        s.gather f ++ pieces.flatMap (Piece.gather f) := by
    induction pieces generalizing s with
    | nil => simp
    | cons p pieces ih =>
      obtain ⟨hlasting, hgather⟩ := Openers.gather_addPiece hf hs p
      rw [List.foldl_cons, ih _ hlasting, hgather, List.flatMap_cons, List.append_assoc]
  rw [resolve, Openers.flatMap_finish hf, hadded _ _ ⟨List.forall_mem_nil _⟩,
    flatMap_settleBreak hf]
  rfl

end

end LiterateJournal.Markdown
