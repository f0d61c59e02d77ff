import LiterateJournal.Proofs.Markdown.LinkTables

/-!
# The definitions of a text

Reading on opens and closes blocks, and only a definition changes the list of definitions. It is
left out if its label matches one in the list, so that no two labels in the list match.

## Main statements

* `Progress.distinct_readBlock` — what reading one block keeps.
* `Outline.distinct_ofText` — no two definitions of a text are of labels that match.
-/

namespace LiterateJournal.Markdown

namespace Progress

section

variable (p : Progress)

@[simp, grind =] theorem definitions_add (node : Node) :
    (p.add node).definitions = p.definitions := by
  unfold add
  split <;> rfl

@[simp, grind =] theorem definitions_push (k : Container) :
    (p.push k).definitions = p.definitions := rfl

@[simp] theorem definitions_pop : p.pop.definitions = p.definitions := by
  unfold pop
  split
  · rfl
  · dsimp only
    split <;> simp

@[simp] theorem definitions_popMany (n : Nat) : (p.popMany n).definitions = p.definitions := by
  induction n generalizing p with
  | zero => rfl
  | succ n ih => rw [popMany, ih, definitions_pop]

@[simp] theorem definitions_closeEmptyItem : p.closeEmptyItem.definitions = p.definitions := by
  unfold closeEmptyItem
  dsimp only
  split
  · split <;> simp
  · rfl

@[simp] theorem definitions_loosen : p.loosen.definitions = p.definitions := by
  unfold loosen
  split <;> rfl

@[simp, grind =] theorem definitions_closeList : p.closeList.definitions = p.definitions := by
  unfold closeList
  dsimp only
  split <;> split <;> simp

@[simp, grind =] theorem definitions_enterList (mark : ListMark) :
    (p.enterList mark).definitions = p.definitions := by
  unfold enterList
  dsimp only
  split
  · split
    · split <;> simp
    · simp
  · simp

@[simp] theorem definitions_blankLine : p.blankLine.definitions = p.definitions := by
  unfold blankLine
  split <;> rfl

@[simp] theorem definitions_fenced (indent : Nat) (mark : Char) (width : Nat) (cs : List Char) :
    (p.fenced indent mark width cs).1.definitions = p.definitions := definitions_add p _

@[simp] theorem definitions_indented (spare : Nat) (cs : List Char) :
    (p.indented spare cs).1.definitions = p.definitions := definitions_add p _

@[simp] theorem definitions_html (ending : Option (List Char)) (spare : Nat) (cs : List Char) :
    (p.html ending spare cs).1.definitions = p.definitions := definitions_add p _

@[simp] theorem definitions_paragraph (cs : List Char) :
    (p.paragraph cs).1.definitions = p.definitions := definitions_add p _

@[simp] theorem definitions_table (header : List Char) (alignments : List Alignment)
    (following : List Char) :
    (p.table header alignments following).1.definitions = p.definitions := definitions_add p _

@[simp] theorem definitions_openBlocks (fuel : Nat) (c : Cursor) :
    (openBlocks fuel p c).1.definitions = p.definitions := by
  fun_induction openBlocks fuel p c with
  | case2 fuel p c label rest hnote closed outside noted ih =>
    have hclosed : outside.definitions = p.definitions := by
      dsimp only [outside]
      split <;> simp [closed]
    exact ih.trans hclosed
  | _ => grind

end

theorem distinct_define {p : Progress} (h : Distinct p.definitions) (d : Definition) :
    Distinct (p.define d).definitions := by
  unfold define
  split
  · exact h
  · rename_i hnew
    simp only [List.any_eq_true, not_exists, not_and, Bool.not_eq_true] at hnew
    exact List.pairwise_append.2 ⟨h, List.pairwise_singleton _ _, by simpa using hnew⟩

/-- A block without children changes the definitions only if it is one. -/
theorem distinct_leaf {p : Progress} (h : Distinct p.definitions) (indent : Nat) (cs : List Char) :
    Distinct (p.leaf indent cs).1.definitions := by
  unfold leaf
  extract_lets paragraphOr
  have hor (next? : Option (Progress × List Char))
      (hnext : ∀ next ∈ next?, next.1.definitions = p.definitions) :
      Distinct (paragraphOr next?).1.definitions := by
    cases next? with
    | some next => exact (hnext next rfl).symm ▸ h
    | none =>
      simp only [paragraphOr, Option.getD_none]
      split
      · simpa using h
      split
      · simpa using h
      split
      · simpa using h
      split
      · exact distinct_define h _
      · split <;> simpa using h
  refine hor _ fun next hnext => ?_
  split at hnext
  · split at hnext
    · obtain rfl := Option.mem_some_iff.1 hnext
      simp
    · split at hnext
      · obtain rfl := Option.mem_some_iff.1 hnext
        simp
      · cases hnext
  · cases hnext

/-- What reading one block keeps. -/
theorem distinct_readBlock {p : Progress} (h : Distinct p.definitions) (cs : List Char) :
    Distinct (p.readBlock cs).1.definitions := by
  unfold readBlock
  dsimp only
  split
  · simpa using h
  · split
    · simpa using h
    · split
      · simpa using h
      · exact distinct_leaf (by simpa using h) _ _

theorem distinct_readBlocks {p : Progress} (h : Distinct p.definitions) (fuel : Nat)
    (cs : List Char) : Distinct (readBlocks fuel p cs).definitions := by
  induction fuel generalizing p cs with
  | zero => exact h
  | succ fuel ih =>
    cases cs with
    | nil => exact h
    | cons c cs => exact ih (distinct_readBlock h (c :: cs)) _

end Progress

/-- No two definitions of a text are of labels that match. -/
theorem Outline.distinct_ofText (cs : List Char) : Distinct (Outline.ofText cs).definitions := by
  simp only [Outline.ofText, Progress.definitions_popMany]
  exact Progress.distinct_readBlocks (p := .start) List.Pairwise.nil _ cs

end LiterateJournal.Markdown
