import Mathlib.Data.List.DropRight
import Mathlib.Data.List.Forall2
import LiterateJournal.Proofs.Text.Solid
import LiterateJournal.Script.Chunk

/-!
# The indentation of Markdown in a comment

The lines of a comment lose the indentation that all of them share, which is counted in bytes, and
the text that they make is trimmed. No line loses anything but white space, and none is cut inside
a character. The lines keep their indentation relative to each other, all but the first one that is
not blank: trimming takes what it is indented further than another line.

## Main definitions

* `Cut` — how a line may be cut.
* `innerLines` — the lines from the first to the last one that is not blank.
* `IsDedent` — the text of a comment whose lines have lost what they share, and nothing else.

## Main statements

* `exists_cut`, `sublist_dedent`, `solid_dedent` — what Markdown loses.
* `dedent_keeps_indentation_iff` — which Markdown keeps its indentation.
-/

namespace LiterateJournal.Script

open Text

theorem solid_eq_nil_of_isBlankText {cs : List Char} (h : isBlankText cs = true) : solid cs = [] :=
  solid_eq_nil_iff.2 (List.all_eq_true.1 h)

/-! ### Bytes -/

theorem byteLength_eq_utf8ByteSize (cs : List Char) :
    byteLength cs = (String.ofList cs).utf8ByteSize := by
  induction cs with
  | nil => rfl
  | cons c cs ih =>
    have hcons : String.ofList (c :: cs) = String.singleton c ++ String.ofList cs := by
      rw [← String.toList_inj]
      simp
    rw [byteLength, ih, hcons, String.utf8ByteSize_append, String.utf8ByteSize_singleton]

theorem byteLength_append (cs ds : List Char) :
    byteLength (cs ++ ds) = byteLength cs + byteLength ds := by
  induction cs with
  | nil => simp [byteLength]
  | cons c cs ih => simp [byteLength, ih, Nat.add_assoc]

theorem byteLength_pos {cs : List Char} (h : cs ≠ []) : 0 < byteLength cs := by
  cases cs with
  | nil => exact absurd rfl h
  | cons c cs =>
    have hsize := c.utf8Size_pos
    rw [byteLength]
    omega

theorem dropBytes?_append (p rest : List Char) :
    dropBytes? (byteLength p) (p ++ rest) = some rest := by
  induction p with
  | nil => cases rest <;> rfl
  | cons c p ih =>
    have hsize := c.utf8Size_pos
    obtain ⟨n, hn⟩ : ∃ n, byteLength (c :: p) = n + 1 :=
      Nat.exists_eq_add_one_of_ne_zero (byteLength_pos (List.cons_ne_nil c p)).ne'
    rw [hn, List.cons_append, dropBytes?]
    rw [byteLength] at hn
    have hrest : n + 1 - c.utf8Size = byteLength p := by omega
    rw [if_pos (by omega), hrest, ih]

theorem dropBytes?_eq_some_iff {n : Nat} {cs rest : List Char} :
    dropBytes? n cs = some rest ↔ ∃ p, cs = p ++ rest ∧ byteLength p = n := by
  constructor
  · intro h
    fun_induction dropBytes? n cs with
    | case1 cs =>
      cases h
      exact ⟨[], rfl, rfl⟩
    | case2 => cases h
    | case3 n c cs hle ih =>
      obtain ⟨p, rfl, hp⟩ := ih h
      exact ⟨c :: p, rfl, by rw [byteLength, hp]; omega⟩
    | case4 => cases h
  · rintro ⟨p, rfl, rfl⟩
    exact dropBytes?_append p rest

/-- What stands in no more bytes than the indentation of a line is part of it. -/
theorem isBlank_of_byteLength_le {p rest : List Char}
    (h : byteLength p ≤ indentation (p ++ rest)) : ∀ c ∈ p, isBlank c = true := by
  have hsplit : (p ++ rest).takeWhile isBlank ++ (p ++ rest).dropWhile isBlank = p ++ rest :=
    List.takeWhile_append_dropWhile
  obtain ⟨s, hs, -⟩ | ⟨s, hs, -⟩ := List.append_eq_append_iff.1 hsplit
  · -- the indentation ends in `p`, and so at its end
    have hlength := byteLength_append ((p ++ rest).takeWhile isBlank) s
    rw [← hs] at hlength
    rw [indentation] at h
    obtain rfl : s = [] := by
      by_contra hne
      have hpos := byteLength_pos hne
      omega
    rw [List.append_nil] at hs
    rw [hs]
    exact List.all_eq_true.1 List.all_takeWhile
  · intro c hc
    refine List.all_eq_true.1 (List.all_takeWhile (l := p ++ rest)) c ?_
    rw [hs]
    exact List.mem_append_left s hc

/-! ### What a line loses -/

/-- A line loses white space of `n` bytes, or all that it starts with where no character ends behind
so many bytes. -/
inductive Cut (n : Nat) (line : List Char) : List Char → Prop where
  | bytes {p rest : List Char} : line = p ++ rest → (∀ c ∈ p, isBlank c = true) →
    (String.ofList p).utf8ByteSize = n → Cut n line rest
  | all : (∀ p, p <+: line → (String.ofList p).utf8ByteSize ≠ n) → Cut n line (trimStart line)

namespace Cut

variable {n : Nat} {line out : List Char}

theorem suffix (h : Cut n line out) : out <:+ line := by
  cases h with
  | bytes hline _ _ => exact ⟨_, hline.symm⟩
  | all _ => exact List.dropWhile_suffix _

theorem solid_eq (h : Cut n line out) : solid out = solid line := by
  cases h with
  | bytes hline hblank _ => rw [hline, solid_append, solid_eq_nil_iff.2 hblank, List.nil_append]
  | all _ => exact solid_trimStart line

end Cut

/-- A line of a text whose lines share an indentation of `n` bytes. -/
def cutLine (n : Nat) (line : List Char) : List Char := (dropBytes? n line).getD (trimStart line)

theorem cut_cutLine {n : Nat} {line : List Char}
    (h : isBlankText line = true ∨ n ≤ indentation line) : Cut n line (cutLine n line) := by
  unfold cutLine
  cases hdrop : dropBytes? n line with
  | none =>
    refine .all ?_
    rintro p ⟨rest, rfl⟩ hsize
    rw [← hsize, ← byteLength_eq_utf8ByteSize, dropBytes?_append] at hdrop
    cases hdrop
  | some rest =>
    obtain ⟨p, rfl, rfl⟩ := dropBytes?_eq_some_iff.1 hdrop
    refine .bytes rfl ?_ (byteLength_eq_utf8ByteSize p).symm
    obtain h | h := h
    · intro c hc
      exact List.all_eq_true.1 h c (List.mem_append_left rest hc)
    · exact isBlank_of_byteLength_le h

/-- No line that is not blank has less than the shared indentation. -/
theorem sharedIndentation_le {ls : List (List Char)} {line : List Char} (h : line ∈ ls) :
    isBlankText line = true ∨ sharedIndentation ls ≤ indentation line := by
  cases hblank : isBlankText line with
  | true => exact .inl rfl
  | false =>
    refine .inr (List.min?_getD_le_of_mem (List.mem_map_of_mem (List.mem_filter.2 ⟨h, ?_⟩)))
    rw [hblank]
    rfl

/-! ### What Markdown loses -/

theorem dedent_eq (cs : List Char) :
    dedent cs = trim (joinWith ['\n'] ((lines cs).map (cutLine (sharedIndentation (lines cs))))) :=
  rfl

/-- Markdown is made of lines that have been cut. -/
theorem exists_cut (cs : List Char) :
    ∃ outs, List.Forall₂ (Cut (sharedIndentation (lines cs))) (lines cs) outs ∧
      dedent cs = trim (joinWith ['\n'] outs) := by
  refine ⟨_, ?_, dedent_eq cs⟩
  rw [List.forall₂_map_right_iff, List.forall₂_same]
  intro line hline
  exact cut_cutLine (sharedIndentation_le hline)

theorem sublist_dedent (cs : List Char) : (dedent cs).Sublist cs := by
  obtain ⟨outs, hcut, hdedent⟩ := exists_cut cs
  have houts : List.Forall₂ List.Sublist outs (lines cs) :=
    (hcut.imp fun _ _ h => h.suffix.sublist).flip
  rw [hdedent]
  exact (sublist_trim _).trans ((sublist_joinWith _ houts).trans (sublist_joinWith_lines cs))

/-- Markdown loses the indentation of its lines only. -/
theorem solid_dedent (cs : List Char) : solid (dedent cs) = solid cs := by
  have hline : ∀ line ∈ lines cs,
      solid (cutLine (sharedIndentation (lines cs)) line) = solid line := by
    intro line hline
    exact (cut_cutLine (sharedIndentation_le hline)).solid_eq
  rw [dedent_eq, solid_trim, solid_joinWith (by decide), List.flatMap_map, List.flatMap_def,
    List.map_congr_left hline, ← List.flatMap_def, flatMap_solid_lines]

/-! ### Indentation in spaces -/

def leadingSpaces (line : List Char) : Nat := (line.takeWhile (· = ' ')).length

/-- The smallest number of spaces at the start of a line that is not blank. -/
def leastSpaces (ls : List (List Char)) : Nat :=
  ((ls.filter (!isBlankText ·)).map leadingSpaces).min?.getD 0

/-- The lines that are not blank are indented with spaces only. -/
def IndentedBySpaces (ls : List (List Char)) : Prop :=
  ∀ line ∈ ls, isBlankText line = false → ∀ c ∈ line.takeWhile isBlank, c = ' '

instance (ls : List (List Char)) : Decidable (IndentedBySpaces ls) :=
  decidable_of_iff
    ((ls.all fun line => isBlankText line || (line.takeWhile isBlank).all (· = ' ')) = true)
    (by simp only [List.all_eq_true, Bool.or_eq_true, decide_eq_true_eq, IndentedBySpaces,
      or_iff_not_imp_left, Bool.not_eq_true])

/-- The lines from the first to the last one that is not blank. -/
def innerLines (ls : List (List Char)) : List (List Char) :=
  (ls.dropWhile isBlankText).rdropWhile isBlankText

/-- A line without `n` spaces at its start; of a blank line, some end of it. -/
inductive Unindents (n : Nat) (line out : List Char) : Prop where
  | text : isBlankText line = false → line = List.replicate n ' ' ++ out → Unindents n line out
  | blank : isBlankText line = true → out <:+ line → Unindents n line out

/-- Text with the lines of a body, from the first to the last one that is not blank, each without
the smallest indentation, and without the white space at the very end. -/
def IsDedent (body text : List Char) : Prop :=
  ∃ outs, List.Forall₂ (Unindents (leastSpaces (lines body))) (innerLines (lines body)) outs ∧
    text = trimEnd (joinWith ['\n'] outs)

section Spaces

variable {n : Nat} {line out : List Char} {ls : List (List Char)}

theorem byteLength_replicate (n : Nat) : byteLength (List.replicate n ' ') = n := by
  induction n with
  | zero => rfl
  | succ n ih =>
    have hsize : ' '.utf8Size = 1 := rfl
    rw [List.replicate_succ, byteLength, ih, hsize, Nat.add_comm]

theorem takeWhile_isBlank (h : ∀ c ∈ line.takeWhile isBlank, c = ' ') :
    line.takeWhile isBlank = List.replicate (leadingSpaces line) ' ' := by
  induction line with
  | nil => rfl
  | cons c cs ih =>
    cases hc : isBlank c with
    | true =>
      rw [List.takeWhile_cons_of_pos hc] at h ⊢
      obtain ⟨rfl, hcs⟩ := List.forall_mem_cons.1 h
      rw [ih hcs]
      simp [leadingSpaces, List.replicate_succ]
    | false =>
      have hne : c ≠ ' ' := by
        rintro rfl
        cases hc
      simp [leadingSpaces, hc, hne]

/-- Spaces are one byte each. -/
theorem sharedIndentation_eq_leastSpaces (h : IndentedBySpaces ls) :
    sharedIndentation ls = leastSpaces ls := by
  have hline : ∀ line ∈ ls.filter (!isBlankText ·), indentation line = leadingSpaces line := by
    intro line hline
    obtain ⟨hmem, hblank⟩ := List.mem_filter.1 hline
    rw [indentation, takeWhile_isBlank (h line hmem (by simpa using hblank)), byteLength_replicate]
  rw [sharedIndentation, leastSpaces, List.map_congr_left hline]

theorem leastSpaces_le (hmem : line ∈ ls) (hblank : isBlankText line = false) :
    leastSpaces ls ≤ leadingSpaces line :=
  List.min?_getD_le_of_mem
    (List.mem_map_of_mem (List.mem_filter.2 ⟨hmem, by simpa using hblank⟩))

theorem exists_replicate_append (h : n ≤ leadingSpaces line) :
    ∃ out, line = List.replicate n ' ' ++ out := by
  have hspaces : line.takeWhile (· = ' ') = List.replicate (leadingSpaces line) ' ' :=
    List.eq_replicate_iff.2 ⟨rfl, fun c hc => by simpa using List.mem_takeWhile_imp hc⟩
  obtain ⟨k, hk⟩ := Nat.exists_eq_add_of_le h
  rw [hk, List.replicate_add] at hspaces
  refine ⟨List.replicate k ' ' ++ line.dropWhile (· = ' '), ?_⟩
  rw [← List.append_assoc, ← hspaces, List.takeWhile_append_dropWhile]

theorem cutLine_append (n : Nat) (out : List Char) :
    cutLine n (List.replicate n ' ' ++ out) = out := by
  have hdrop := dropBytes?_append (List.replicate n ' ') out
  rw [byteLength_replicate] at hdrop
  rw [cutLine, hdrop]
  rfl

theorem unindents_cutLine (h : isBlankText line = false → n ≤ leadingSpaces line) :
    Unindents n line (cutLine n line) := by
  cases hblank : isBlankText line with
  | true => exact .blank hblank (cut_cutLine (.inl hblank)).suffix
  | false =>
    obtain ⟨out, hout⟩ := exists_replicate_append (h hblank)
    refine .text hblank ?_
    rw [hout, cutLine_append]

/-- A line has no more spaces than those it starts with when something else stands behind them. -/
theorem leadingSpaces_append_eq_iff
    (h : ∀ c ∈ (List.replicate n ' ' ++ out).takeWhile isBlank, c = ' ') :
    leadingSpaces (List.replicate n ' ' ++ out) = n ↔ ∀ c ∈ out.head?, isBlank c = false := by
  have hspaces : ∀ c ∈ List.replicate n ' ', isBlank c = true := by
    intro c hc
    rw [List.eq_of_mem_replicate hc]
    rfl
  have hsum : leadingSpaces (List.replicate n ' ' ++ out) = n + leadingSpaces out := by
    simp [leadingSpaces, List.takeWhile_append_of_pos]
  rw [List.takeWhile_append_of_pos hspaces] at h
  rw [hsum, Nat.add_eq_left]
  cases out with
  | nil => simp [leadingSpaces]
  | cons c cs =>
    cases hc : isBlank c with
    | true =>
      rw [List.takeWhile_cons_of_pos hc] at h
      obtain rfl := h c (by simp)
      simp [leadingSpaces, hc]
    | false =>
      have hne : c ≠ ' ' := by
        rintro rfl
        cases hc
      simp [leadingSpaces, hc, hne]

end Spaces

/-! ### Blank lines at the ends -/

theorem innerLines_subset (ls : List (List Char)) : innerLines ls ⊆ ls := by
  intro line hline
  exact (List.dropWhile_suffix _).subset ((List.rdropWhile_prefix _ _).subset hline)

theorem isBlankText_of_innerLines {ls rest : List (List Char)} {first : List Char}
    (h : innerLines ls = first :: rest) : isBlankText first = false := by
  obtain ⟨after, hafter⟩ := List.rdropWhile_prefix isBlankText (ls.dropWhile isBlankText)
  have hfirst := List.head?_dropWhile_not isBlankText ls
  rw [← hafter, ← innerLines, h] at hfirst
  exact hfirst

/-- Blank lines at the ends do not count. -/
theorem trim_joinWith_map {g : List Char → List Char}
    (hg : ∀ line, isBlankText line = true → solid (g line) = []) (ls : List (List Char)) :
    trim (joinWith ['\n'] (ls.map g)) =
      trimStart (trimEnd (joinWith ['\n'] ((innerLines ls).map g))) := by
  have hsep : solid ['\n'] = [] := by decide
  have hbefore : ∀ b ∈ (ls.takeWhile isBlankText).map g, solid b = [] := by
    rw [List.forall_mem_map]
    intro line hline
    exact hg line (List.mem_takeWhile_imp hline)
  have hafter : ∀ b ∈ ((ls.dropWhile isBlankText).rtakeWhile isBlankText).map g,
      solid b = [] := by
    rw [List.forall_mem_map]
    intro line hline
    exact hg line (List.mem_rtakeWhile_imp hline)
  have hsplit : ls.map g = (ls.takeWhile isBlankText).map g ++ ((innerLines ls).map g ++
      ((ls.dropWhile isBlankText).rtakeWhile isBlankText).map g) := by
    rw [← List.map_append, ← List.map_append, innerLines, List.rdropWhile_append_rtakeWhile,
      List.takeWhile_append_dropWhile]
  rw [hsplit, trim, trimStart_joinWith_append hsep hbefore, ← trim, trim_eq_trimStart_trimEnd,
    trimEnd_joinWith_append hsep hafter]

/-! ### Which Markdown keeps its indentation -/

section Dedent

variable {body text : List Char}

/-- But for the white space at its start, Markdown keeps its indentation. -/
theorem exists_isDedent (h : IndentedBySpaces (lines body)) :
    ∃ text, IsDedent body text ∧ dedent body = trimStart text := by
  refine ⟨_, ⟨(innerLines (lines body)).map (cutLine (leastSpaces (lines body))), ?_, rfl⟩, ?_⟩
  · rw [List.forall₂_map_right_iff, List.forall₂_same]
    intro line hline
    exact unindents_cutLine (leastSpaces_le (innerLines_subset _ hline))
  · rw [dedent_eq, sharedIndentation_eq_leastSpaces h]
    refine trim_joinWith_map ?_ _
    intro line hblank
    rw [(cut_cutLine (.inl hblank)).solid_eq]
    exact solid_eq_nil_of_isBlankText hblank

/-- Text begins as its first line. -/
theorem head?_trimEnd_joinWith {out : List Char} (h : isBlankText out = false) (sep : List Char)
    (outs : List (List Char)) :
    (trimEnd (joinWith sep (out :: outs))).head? = out.head? := by
  obtain ⟨c, hc, hsolid⟩ := List.all_eq_false.1 h
  obtain ⟨w, hw⟩ : ∃ w, joinWith sep (out :: outs) = out ++ w := by
    cases outs with
    | nil => exact ⟨[], (List.append_nil out).symm⟩
    | cons p ps => exact ⟨_, List.append_assoc _ _ _⟩
  rw [hw, head?_trimEnd ⟨c, List.mem_append_left w hc, by simpa using hsolid⟩,
    List.head?_append_of_ne_nil out (List.ne_nil_of_mem hc)]

/-- There is no white space at the start when the first line has the smallest indentation. -/
theorem IsDedent.trimStart_eq_self_iff (hspaces : IndentedBySpaces (lines body))
    (h : IsDedent body text) :
    trimStart text = text ↔
      ∀ first ∈ (innerLines (lines body)).head?,
        leadingSpaces first = leastSpaces (lines body) := by
  obtain ⟨outs, houts, rfl⟩ := h
  rw [Text.trimStart_eq_self_iff]
  cases hinner : innerLines (lines body) with
  | nil =>
    rw [hinner] at houts
    cases houts
    simp [joinWith, trimEnd, dropEndWhile]
  | cons first rest =>
    have hsolid := isBlankText_of_innerLines hinner
    have hmem : first ∈ lines body := innerLines_subset _ (hinner ▸ List.mem_cons_self)
    have hfirst := hspaces first hmem hsolid
    rw [hinner] at houts
    obtain ⟨out, outs, hout, -, rfl⟩ := List.forall₂_cons_left_iff.1 houts
    cases hout with
    | blank hblank _ =>
      rw [hsolid] at hblank
      cases hblank
    | text _ hline =>
      rw [hline] at hsolid hfirst
      have houtSolid : isBlankText out = false := by
        simpa [isBlankText, List.all_append, show isBlank ' ' = true from rfl] using hsolid
      rw [head?_trimEnd_joinWith houtSolid, ← leadingSpaces_append_eq_iff hfirst, ← hline]
      simp

theorem isDedent_dedent_iff (h : IndentedBySpaces (lines body)) :
    IsDedent body (dedent body) ↔
      ∀ first ∈ (innerLines (lines body)).head?,
        leadingSpaces first = leastSpaces (lines body) := by
  obtain ⟨text, htext, hdedent⟩ := exists_isDedent h
  constructor
  · intro hkept
    refine (hkept.trimStart_eq_self_iff h).1 ?_
    rw [hdedent]
    exact List.dropWhile_idempotent _ _
  · intro hfirst
    rw [hdedent, (htext.trimStart_eq_self_iff h).2 hfirst]
    exact htext

end Dedent

/-- Markdown loses white space only, and of each line so many bytes as all lines share, if they are
whole characters. Where lines are indented with spaces, it is the body without the smallest
indentation of its lines, but for the white space at its start: nothing else is lost just when the
first line that is not blank has the smallest indentation. -/
theorem dedent_keeps_indentation_iff (body : List Char) :
    (dedent body).Sublist body ∧ solid (dedent body) = solid body ∧
    (∃ outs, List.Forall₂ (Cut (sharedIndentation (lines body))) (lines body) outs ∧
      dedent body = trim (joinWith ['\n'] outs)) ∧
    (IndentedBySpaces (lines body) →
      (∃ text, IsDedent body text ∧ dedent body = trimStart text) ∧
      (IsDedent body (dedent body) ↔ ∀ first ∈ (innerLines (lines body)).head?,
        leadingSpaces first = leastSpaces (lines body))) := by
  refine ⟨sublist_dedent body, solid_dedent body, exists_cut body, ?_⟩
  intro h
  exact ⟨exists_isDedent h, isDedent_dedent_iff h⟩

/-- A comment in which code, indented further, stands behind text. -/
def textFirst : List Char := "\n  The sum:\n  \n      let x = 1\n  \n  It is one.  \n".toList

theorem dedent_textFirst_keeps_indentation :
    IndentedBySpaces (lines textFirst) ∧ IsDedent textFirst (dedent textFirst) ∧
      dedent textFirst = "The sum:\n\n    let x = 1\n\nIt is one.".toList := by
  have hspaces : IndentedBySpaces (lines textFirst) := by decide
  refine ⟨hspaces, ?_, by decide⟩
  exact ((dedent_keeps_indentation_iff textFirst).2.2.2 hspaces).2.2 (by decide)

/-- A comment that starts with code, indented further than the text behind it. -/
def codeFirst : List Char := "\n    let x = 1\n\nThe code above.\n".toList

/-- The code at the start is no code any more. -/
theorem first_indentation_lost :
    IndentedBySpaces (lines codeFirst) ∧ ¬ IsDedent codeFirst (dedent codeFirst) ∧
      dedent codeFirst = "let x = 1\n\nThe code above.".toList := by
  have hspaces : IndentedBySpaces (lines codeFirst) := by decide
  refine ⟨hspaces, ?_, by decide⟩
  rw [isDedent_dedent_iff hspaces]
  decide

end LiterateJournal.Script
