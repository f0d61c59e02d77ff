import LiterateJournal.Proofs.Text.Pieces
import LiterateJournal.Proofs.Text.Squeeze

/-!
# Words

The words of a text are its longest stretches without white space. A squeezed text is its words with
a space between each two, so how the white space between them is written, and whether there is some
at the ends, is of no account to it. What counts as white space is a parameter.

## Main definitions

* `words` — the words of a text.
* `IsWord` — a text that is one word.
* `Squeezes` — what the end of a text comes to when it is squeezed.

## Main statements

* `squeezeBy_eq_joinWith_words` — a squeezed text.
* `words_append_gap` — white space cuts a text in two.
* `words_joinWith` — words that are joined by spaces.
-/

namespace LiterateJournal.Text

def lastWord (w : List Char) : List (List Char) := if w = [] then [] else [w]

/-- The words of a text that goes on with the word `w`. -/
def wordsAfter (p : Char → Bool) (w : List Char) : List Char → List (List Char)
  | [] => lastWord w
  | c :: cs => if p c then lastWord w ++ wordsAfter p [] cs else wordsAfter p (w ++ [c]) cs

def words (p : Char → Bool) (cs : List Char) : List (List Char) := wordsAfter p [] cs

/-- A word has a character, and no white space. -/
structure IsWord (p : Char → Bool) (w : List Char) : Prop where
  ne_nil : w ≠ []
  solid : ∀ c ∈ w, p c = false

section

variable {p : Char → Bool} {w cs ds gap : List Char}

@[simp] theorem words_nil : words p [] = [] := rfl

@[simp] theorem lastWord_nil : lastWord [] = [] := rfl

theorem lastWord_of_ne_nil (h : w ≠ []) : lastWord w = [w] := if_neg h

theorem words_cons_of_pos {c : Char} (h : p c = true) : words p (c :: cs) = words p cs := by
  simp [words, wordsAfter, h]

theorem wordsAfter_append_solid (h : ∀ d ∈ ds, p d = false) :
    wordsAfter p w (ds ++ cs) = wordsAfter p (w ++ ds) cs := by
  induction ds generalizing w with
  | nil => simp
  | cons d ds ih =>
    obtain ⟨hd, hds⟩ := List.forall_mem_cons.1 h
    simp [wordsAfter, hd, ih hds]

theorem wordsAfter_append_cons {c : Char} (h : p c = true) :
    wordsAfter p w (cs ++ c :: ds) = wordsAfter p w cs ++ words p ds := by
  induction cs generalizing w with
  | nil => simp [wordsAfter, words, h]
  | cons d cs ih =>
    by_cases hd : p d = true <;> simp [wordsAfter, hd, ih]

theorem words_gap_append (h : ∀ c ∈ gap, p c = true) : words p (gap ++ cs) = words p cs := by
  induction gap with
  | nil => rfl
  | cons c gap ih =>
    obtain ⟨hc, hgap⟩ := List.forall_mem_cons.1 h
    rw [List.cons_append, words_cons_of_pos hc, ih hgap]

/-- White space cuts a text in two. -/
theorem words_append_gap (hne : gap ≠ []) (h : ∀ c ∈ gap, p c = true) :
    words p (cs ++ gap ++ ds) = words p cs ++ words p ds := by
  obtain ⟨c, gap, rfl⟩ := List.exists_cons_of_ne_nil hne
  obtain ⟨hc, hgap⟩ := List.forall_mem_cons.1 h
  rw [List.append_assoc, List.cons_append, words, wordsAfter_append_cons hc, words_gap_append hgap]
  rfl

/-- White space at the end of a text is not part of its words. -/
theorem words_append_of_gap (h : ∀ c ∈ gap, p c = true) : words p (cs ++ gap) = words p cs := by
  by_cases hne : gap = []
  · simp [hne]
  · have hcut : words p (cs ++ gap ++ []) = words p cs ++ words p [] := words_append_gap hne h
    simpa using hcut

theorem words_of_isWord (h : IsWord p w) : words p w = [w] := by
  have hword : wordsAfter p [] (w ++ []) = wordsAfter p ([] ++ w) [] :=
    wordsAfter_append_solid h.solid
  rw [List.append_nil, List.nil_append] at hword
  rw [words, hword, wordsAfter, lastWord_of_ne_nil h.ne_nil]

theorem isWord_of_mem_words {v : List Char} (hv : v ∈ words p cs) : IsWord p v := by
  suffices h : ∀ w, (∀ c ∈ w, p c = false) → v ∈ wordsAfter p w cs → IsWord p v from
    h [] (by simp) hv
  have hlast {w : List Char} (hw : ∀ c ∈ w, p c = false) (hv : v ∈ lastWord w) : IsWord p v := by
    unfold lastWord at hv
    split at hv
    · cases hv
    · obtain rfl := List.mem_singleton.1 hv
      exact ⟨‹_›, hw⟩
  clear hv
  induction cs with
  | nil => exact fun w hw hv => hlast hw hv
  | cons c cs ih =>
    intro w hw hv
    rw [wordsAfter] at hv
    split at hv
    · obtain hv | hv := List.mem_append.1 hv
      · exact hlast hw hv
      · exact ih [] (by simp) hv
    · exact ih (w ++ [c]) (by grind) hv

/-- Words that are joined by spaces are the words of what is joined. -/
theorem words_joinWith (hspace : p ' ' = true) {ws : List (List Char)}
    (h : ∀ w ∈ ws, IsWord p w) : words p (joinWith [' '] ws) = ws := by
  induction ws with
  | nil => rfl
  | cons w ws ih =>
    obtain ⟨hw, hws⟩ := List.forall_mem_cons.1 h
    by_cases hne : ws = []
    · rw [hne, joinWith, words_of_isWord hw]
    · rw [joinWith_cons_of_ne_nil _ _ hne, words_append_gap (by simp) (by simpa using hspace),
        words_of_isWord hw, ih hws, List.singleton_append]

/-- A change of characters that keeps white space apart from the rest keeps the words apart. -/
theorem words_map {f : Char → Char} (h : ∀ c, p (f c) = p c) :
    words p (cs.map f) = (words p cs).map (List.map f) := by
  suffices hafter : ∀ w, wordsAfter p (w.map f) (cs.map f) =
      (wordsAfter p w cs).map (List.map f) from hafter []
  have hlast (w : List Char) : lastWord (w.map f) = (lastWord w).map (List.map f) := by
    by_cases hw : w = [] <;> simp [lastWord, hw]
  induction cs with
  | nil => exact hlast
  | cons c cs ih =>
    intro w
    have hrest := ih []
    have hmore := ih (w ++ [c])
    by_cases hc : p c = true <;> simp_all [wordsAfter]

/-! ### Squeezed text -/

theorem wordsAfter_ne_nil (h : w ≠ []) : wordsAfter p w cs ≠ [] := by
  induction cs generalizing w with
  | nil => simp [wordsAfter, lastWord, h]
  | cons c cs ih =>
    rw [wordsAfter]
    split
    · simp [lastWord, h]
    · exact ih (by simp)

theorem words_eq_nil_iff : words p cs = [] ↔ dropEndWhile p cs = [] := by
  induction cs with
  | nil => exact iff_of_true rfl rfl
  | cons c cs ih =>
    rw [dropEndWhile]
    by_cases hc : p c = true
    · rw [words_cons_of_pos hc, ih]
      split <;> simp_all
    · have hword : words p (c :: cs) ≠ [] := by
        rw [words, wordsAfter, if_neg hc]
        exact wordsAfter_ne_nil (by simp)
      split <;> simp_all

theorem collapseBy_of_isWord (h : IsWord p w) : collapseBy p false w = w := by
  have hword : collapseBy p false (w ++ []) = w ++ collapseBy p false [] :=
    collapseBy_append_solid h.ne_nil h.solid
  simpa [collapseBy] using hword

/-- What the end of a text comes to, after a word that is not complete and after white space. -/
structure Squeezes (p : Char → Bool) (cs : List Char) : Prop where
  afterWord (w : List Char) : IsWord p w →
    collapseBy p false (w ++ dropEndWhile p cs) = joinWith [' '] (wordsAfter p w cs)
  afterGap : collapseBy p true (dropEndWhile p cs) = joinWith [' '] (words p cs)

theorem squeezes_nil : Squeezes p [] where
  afterWord w hw := by
    rw [dropEndWhile, List.append_nil, collapseBy_of_isWord hw, wordsAfter,
      lastWord_of_ne_nil hw.ne_nil, joinWith]
  afterGap := rfl

/-- White space ends a word, and is dropped where no word comes after it. -/
theorem Squeezes.cons_blank {c : Char} (h : Squeezes p cs) (hc : p c = true) :
    Squeezes p (c :: cs) := by
  have hafter {w : List Char} (hw : IsWord p w) : wordsAfter p w (c :: cs) = w :: words p cs := by
    rw [wordsAfter, if_pos hc, lastWord_of_ne_nil hw.ne_nil, words, List.singleton_append]
  by_cases hrest : dropEndWhile p cs = []
  · have hwords : words p cs = [] := words_eq_nil_iff.2 hrest
    have hdropped : dropEndWhile p (c :: cs) = [] := by simp [dropEndWhile, hrest, hc]
    refine ⟨fun w hw => ?_, ?_⟩
    · rw [hdropped, List.append_nil, collapseBy_of_isWord hw, hafter hw, hwords, joinWith]
    · rw [hdropped, words_cons_of_pos hc, hwords, collapseBy, joinWith]
  · have hwords : words p cs ≠ [] := fun hnil => hrest (words_eq_nil_iff.1 hnil)
    obtain ⟨d, ds, hcons⟩ := List.exists_cons_of_ne_nil hrest
    have hkept : dropEndWhile p (c :: cs) = c :: dropEndWhile p cs := by
      rw [dropEndWhile, hcons]
    refine ⟨fun w hw => ?_, ?_⟩
    · rw [hafter hw, joinWith_cons_of_ne_nil _ _ hwords, hkept,
        collapseBy_append_solid hw.ne_nil hw.solid, ← h.afterGap]
      simp [collapseBy, hc]
    · rw [hkept, words_cons_of_pos hc, ← h.afterGap]
      simp [collapseBy, hc]

/-- Any other character makes a word longer, or begins one. -/
theorem Squeezes.cons_solid {c : Char} (h : Squeezes p cs) (hc : ¬ p c = true) :
    Squeezes p (c :: cs) := by
  have hsolid : ∀ d ∈ [c], p d = false := by simpa using hc
  have hkept : dropEndWhile p (c :: cs) = [c] ++ dropEndWhile p cs :=
    dropEndWhile_append_solid hsolid
  refine ⟨fun w hw => ?_, ?_⟩
  · have hlonger : IsWord p (w ++ [c]) :=
      ⟨by simp, List.forall_mem_append.2 ⟨hw.solid, hsolid⟩⟩
    rw [hkept, ← List.append_assoc, h.afterWord _ hlonger, wordsAfter, if_neg hc]
  · have hin (inRun : Bool) : collapseBy p inRun ([c] ++ dropEndWhile p cs) =
        [c] ++ collapseBy p false (dropEndWhile p cs) :=
      collapseBy_append_solid (by simp) hsolid
    rw [hkept, hin, ← hin false, h.afterWord [c] ⟨by simp, hsolid⟩, words, wordsAfter, if_neg hc,
      List.nil_append]

theorem squeezes (p : Char → Bool) (cs : List Char) : Squeezes p cs := by
  induction cs with
  | nil => exact squeezes_nil
  | cons c cs ih =>
    by_cases hc : p c = true
    · exact ih.cons_blank hc
    · exact ih.cons_solid hc

/-- A squeezed text is its words with a space between each two. -/
theorem squeezeBy_eq_joinWith_words (p : Char → Bool) (cs : List Char) :
    squeezeBy p cs = joinWith [' '] (words p cs) := by
  rw [squeezeBy]
  induction cs with
  | nil => rfl
  | cons c cs ih =>
    by_cases hc : p c = true
    · rw [List.dropWhile_cons_of_pos hc, ih, words_cons_of_pos hc]
    · have hsolid : ∀ d ∈ [c], p d = false := by simpa using hc
      rw [List.dropWhile_cons_of_neg hc, ← List.singleton_append, dropEndWhile_append_solid hsolid,
        (squeezes p cs).afterWord [c] ⟨by simp, hsolid⟩, List.singleton_append, words,
        wordsAfter, if_neg hc, List.nil_append]

end

end LiterateJournal.Text
