import Mathlib.Data.List.Basic
import LiterateJournal.Proofs.Output.LatexMarks
import LiterateJournal.Proofs.Output.Parts
import LiterateJournal.Proofs.Text.Solid

/-!
# Optional arguments of a LaTeX page

An item of a list and the end of a line may have an optional argument, for which TeX looks behind
them, past white space. Nothing keeps text of the document from being read as one.

## Main definitions

* `Latex.ReadsOption` — text of the document stands where an optional argument is looked for.
* `Latex.behindBlocks` — what stands behind the commands that look for one.

## Main statements

* `Latex.readsOption_iff` — which documents have text that is read as an optional argument.
* `Latex.readsOption_taskList` — an item with an open task is one of them.
-/

namespace LiterateJournal.Latex

open Marked

/-! ### Text without its white space -/

def Marked.ink (m : Marked) : Marked := m.filter (!Text.isBlank ·.1)

@[simp] theorem ink_append (m n : Marked) : (m ++ n).ink = m.ink ++ n.ink :=
  List.filter_append _ _

theorem ink_ofString (origin : Origin) (s : String) :
    (ofString origin s).ink = (Text.solid s.toList).map (·, origin) := by
  rw [Marked.ink, ofString, List.filter_map]
  rfl

theorem ink_eq_nil {m : Marked} (h : ∀ x ∈ m, Text.isBlank x.1 = true) : m.ink = [] := by
  rw [Marked.ink, List.filter_eq_nil_iff]
  intro x hx
  simp [h x hx]

@[simp] theorem ink_trimEnd (m : Marked) : m.trimEnd.ink = m.ink := by
  obtain ⟨blanks, hm, hblanks⟩ := Text.exists_trimEnd_append m.erase
  have hdrop : Marked.erase (m.drop (Text.trimEnd m.erase).length) = blanks := by
    rw [erase, List.map_drop]
    exact (congrArg (List.drop _) hm).trans List.drop_left
  have hnil : Marked.ink (m.drop (Text.trimEnd m.erase).length) = [] := by
    refine ink_eq_nil fun x hx => hblanks x.1 ?_
    rw [← hdrop]
    exact List.mem_map_of_mem hx
  have hall := congrArg Marked.ink (List.take_append_drop (Text.trimEnd m.erase).length m)
  rw [ink_append, hnil, List.append_nil] at hall
  exact hall

@[simp] theorem ink_trim (m : Marked) : m.trim.ink = m.ink := by
  have hnil : Marked.ink (m.takeWhile (Text.isBlank ·.1)) = [] :=
    ink_eq_nil (List.all_eq_true.1 List.all_takeWhile)
  have hall := congrArg Marked.ink
    (List.takeWhile_append_dropWhile : m.takeWhile (Text.isBlank ·.1) ++ m.dropWhile _ = m)
  rw [ink_append, hnil, List.nil_append] at hall
  rw [Marked.trim, ink_trimEnd, hall]

/-! ### Optional arguments -/

/-- An opening bracket of the document is the first character of a text. -/
def Marked.Bracketed (l : Marked) : Prop := l.head? = some ('[', .document)

/-- Behind a command that looks for an optional argument stands, after white space, an opening
bracket of the document. -/
def ReadsOption (m : Marked) : Prop :=
  ∃ before c gap rest, m = before ++ (c, .opener) :: (gap ++ ('[', .document) :: rest) ∧
    Text.isBlank c = false ∧ ∀ g ∈ gap, Text.isBlank g.1 = true

/-- Without white space, the bracket is directly behind the command. -/
def OptionIn (l : Marked) : Prop := ∃ c, [(c, .opener), ('[', .document)] <:+: l

theorem optionIn_cons {x : Char × Origin} {l : Marked} :
    OptionIn (x :: l) ↔ x.2 = .opener ∧ Bracketed l ∨ OptionIn l := by
  simp only [OptionIn, List.infix_cons_iff, exists_or]
  refine or_congr_left ⟨?_, ?_⟩
  · rintro ⟨c, hprefix⟩
    obtain ⟨rfl, rest, rfl⟩ := List.cons_prefix_cons.1 hprefix
    exact ⟨rfl, rfl⟩
  · rintro ⟨hopener, hhead⟩
    obtain ⟨rest, rfl⟩ := List.head?_eq_some_iff.1 hhead
    exact ⟨x.1, rest, by rw [← hopener]; rfl⟩

theorem optionIn_append {m l : Marked} (h : ∀ x ∈ m, x.2 ≠ .opener) :
    OptionIn (m ++ l) ↔ OptionIn l := by
  induction m with
  | nil => rfl
  | cons x m ih =>
    obtain ⟨hx, hm⟩ := List.forall_mem_cons.1 h
    rw [List.cons_append, optionIn_cons, ih hm]
    simp [hx]

theorem readsOption_iff_optionIn (m : Marked) : ReadsOption m ↔ OptionIn m.ink := by
  constructor
  · rintro ⟨before, c, gap, rest, rfl, hc, hgap⟩
    have hnil : Marked.ink gap = [] := ink_eq_nil hgap
    have hbehind : Marked.ink ((c, .opener) :: (gap ++ ('[', .document) :: rest)) =
        (c, .opener) :: ('[', .document) :: Marked.ink rest := by
      rw [← List.singleton_append, ink_append, ink_append, hnil]
      simp [Marked.ink, hc, (by decide : Text.isBlank '[' = false)]
    refine ⟨c, Marked.ink before, Marked.ink rest, ?_⟩
    rw [ink_append, hbehind]
    simp
  · rintro ⟨c, x, y, hink⟩
    rw [List.append_assoc] at hink
    obtain ⟨before, behind, rfl, -, hbehind⟩ := List.filter_eq_append_iff.1 hink.symm
    obtain ⟨before', behind', rfl, -, hc, hbehind⟩ := List.filter_eq_cons_iff.1 hbehind
    obtain ⟨gap, rest, rfl, hgap, -, -⟩ := List.filter_eq_cons_iff.1 hbehind
    refine ⟨before ++ before', c, gap, rest, (List.append_assoc ..).symm, by simpa using hc, ?_⟩
    intro g hg
    simpa using hgap g hg

/-! ### What a text starts with -/

/-- The first character of a text, past white space, is an opening bracket. -/
def BracketFirst (s : String) : Prop := (Text.solid s.toList).head? = some '['

instance (s : String) : Decidable (BracketFirst s) := inferInstanceAs (Decidable (_ = _))

/-- The marked text `l` starts with a bracket of the document if `after` starts with one. -/
def Meets (l : Marked) (after : String) : Prop := Bracketed l ↔ BracketFirst after

def StartsAs (m : Marked) (w : String) : Prop :=
  ∀ ⦃l after⦄, Meets l after → Meets (m.ink ++ l) (w ++ after)

theorem bracketed_append {l k : Marked} :
    Bracketed (l ++ k) ↔ Bracketed l ∨ l = [] ∧ Bracketed k := by
  cases l <;> simp [Bracketed]

theorem bracketFirst_append {s t : String} :
    BracketFirst (s ++ t) ↔ BracketFirst s ∨ Text.solid s.toList = [] ∧ BracketFirst t := by
  rw [BracketFirst, String.toList_append, Text.solid_append]
  cases h : Text.solid s.toList <;> simp [BracketFirst, h]

theorem not_bracketFirst_empty : ¬ BracketFirst "" := by decide

namespace StartsAs

theorem nil : StartsAs [] "" := by
  intro l after h
  rwa [String.empty_append]

theorem append {m n : Marked} {w v : String} (hm : StartsAs m w) (hn : StartsAs n v) :
    StartsAs (m ++ n) (w ++ v) := by
  intro l after h
  have hboth := hm (hn h)
  rwa [← List.append_assoc, ← ink_append, ← String.append_assoc] at hboth

theorem document (s : String) : StartsAs (ofString .document s) s := by
  intro l after h
  have hafter : Bracketed l ↔ BracketFirst after := h
  rw [Meets, bracketed_append, bracketFirst_append, ← hafter, ink_ofString, List.map_eq_nil_iff]
  refine or_congr_left ?_
  simp [Bracketed, BracketFirst]

/-- Other text does not start with a bracket. -/
theorem other {origin : Origin} {s : String} (hs : ¬ BracketFirst s) :
    StartsAs (ofString origin s) s := by
  intro l after h
  have hmark : ¬ Bracketed (ofString origin s).ink := by
    intro hbracket
    refine hs ?_
    rw [Bracketed, ink_ofString, List.head?_map, Option.map_eq_some_iff] at hbracket
    obtain ⟨c, hc, hpair⟩ := hbracket
    cases hpair
    exact hc
  have hafter : Bracketed l ↔ BracketFirst after := h
  rw [Meets, bracketed_append, bracketFirst_append, ← hafter]
  rw [ink_ofString] at hmark ⊢
  simp only [hmark, hs, List.map_eq_nil_iff]

theorem trimEnd {m : Marked} {w : String} (h : StartsAs m w) :
    StartsAs m.trimEnd (Latex.trimEnd w) := by
  intro l after hl
  have hw := h hl
  rw [Meets, bracketFirst_append] at hw ⊢
  rw [ink_trimEnd, BracketFirst, Latex.trimEnd, String.toList_ofList, Text.solid_trimEnd]
  exact hw

theorem trim {m : Marked} {w : String} (h : StartsAs m w) : StartsAs m.trim (Latex.trim w) := by
  intro l after hl
  have hw := h hl
  rw [Meets, bracketFirst_append] at hw ⊢
  rw [ink_trim, BracketFirst, Latex.trim, String.toList_ofList, Text.solid_trim]
  exact hw

end StartsAs

/-- A text starts with another character than a bracket. -/
def Guards (s : String) : Prop := ∃ c ∈ (Text.solid s.toList).head?, c ≠ '['

theorem Guards.append {s : String} (h : Guards s) (t : String) : Guards (s ++ t) := by
  obtain ⟨c, hc, hne⟩ := h
  refine ⟨c, ?_, hne⟩
  rw [Option.mem_def] at hc
  simp [hc]

theorem Guards.not_bracketFirst {s : String} (h : Guards s) : ¬ BracketFirst s := by
  obtain ⟨c, hc, hne⟩ := h
  rw [BracketFirst, Option.mem_def.1 hc]
  simpa using hne

theorem guards_backslash (s : String) : Guards ("\\" ++ s) :=
  Guards.append ⟨'\\', rfl, by decide⟩ s

theorem guards_command (name argument : String) : Guards (command name argument) :=
  (guards_backslash name).append _

theorem not_bracketed_of_guards {origin : Origin} {s : String} (h : Guards s) (l : Marked) :
    ¬ Bracketed ((ofString origin s).ink ++ l) := by
  obtain ⟨c, hc, hne⟩ := h
  rw [Option.mem_def] at hc
  simp [Bracketed, ink_ofString, hc, hne]

theorem meets_empty {l : Marked} (h : ¬ Bracketed l) : Meets l "" :=
  iff_of_false h not_bracketFirst_empty

/-- What is around a text decides what it starts with. -/
theorem StartsAs.around {origin : Origin} {s : String} (hs : Guards s) (m : Marked) (w : String) :
    StartsAs (ofString origin s ++ m) (s ++ w) := by
  intro l after _
  rw [ink_append, List.append_assoc, String.append_assoc]
  exact iff_of_false (not_bracketed_of_guards hs _) (hs.append _).not_bracketFirst

/-! ### Behind the commands -/

/-- `m` is `w` with marks, and in front of `after` the texts `behind after` are those behind its
commands that look for an optional argument. -/
structure Fits (m : Marked) (w : String) (behind : String → List String) : Prop where
  starts : StartsAs m w
  behind : ∀ ⦃l after⦄, Meets l after →
    (OptionIn (m.ink ++ l) ↔ (∃ v ∈ behind after, BracketFirst v) ∨ OptionIn l)

/-- In front of anything but a bracket, the texts `behind` are those behind the commands of `m`. -/
def Encloses (m : Marked) (behind : List String) : Prop :=
  ∀ ⦃l⦄, ¬ Bracketed l → (OptionIn (m.ink ++ l) ↔ (∃ v ∈ behind, BracketFirst v) ∨ OptionIn l)

theorem Fits.encloses {m : Marked} {w : String} {behind : String → List String}
    (h : Fits m w behind) : Encloses m (behind "") :=
  fun _ hl => h.behind (meets_empty hl)

theorem optionIn_ofString {origin : Origin} (h : origin ≠ .opener) (s : String) (l : Marked) :
    OptionIn ((ofString origin s).ink ++ l) ↔ OptionIn l := by
  refine optionIn_append fun x hx => ?_
  rw [ink_ofString, List.mem_map] at hx
  obtain ⟨_, _, rfl⟩ := hx
  exact h

theorem optionIn_lineEnd (l : Marked) :
    OptionIn ((ofString .opener "\\\\").ink ++ l) ↔ Bracketed l ∨ OptionIn l := by
  have hink : (ofString .opener "\\\\").ink = [('\\', .opener), ('\\', .opener)] := rfl
  have hbackslash : ¬ Bracketed (('\\', .opener) :: l) := by simp [Bracketed]
  rw [hink, List.cons_append, List.cons_append, List.nil_append, optionIn_cons, optionIn_cons]
  simp [hbackslash]

theorem optionIn_item (l : Marked) :
    OptionIn ((ofString .opener "\\item").ink ++ l) ↔ Bracketed l ∨ OptionIn l := by
  have hink : (ofString .opener "\\item").ink = [('\\', .opener), ('i', .opener), ('t', .opener),
    ('e', .opener), ('m', .opener)] := rfl
  rw [hink]
  simp [optionIn_cons, Bracketed]

namespace Encloses

variable {m n : Marked} {behind behind' : List String}

theorem nil : Encloses [] [] := fun l _ => by simp [Marked.ink]

/-- Text that does not start with a bracket may follow. -/
theorem append_writer (h : Encloses m behind) {s : String} (hs : ¬ BracketFirst s) :
    Encloses (m ++ ofString .writer s) behind := by
  intro l hl
  have hstart : ¬ Bracketed ((ofString .writer s).ink ++ l) := by
    intro hbracket
    have hs' : BracketFirst (s ++ "") := (StartsAs.other hs (meets_empty hl)).1 hbracket
    rw [String.append_empty] at hs'
    exact hs hs'
  rw [ink_append, List.append_assoc, h hstart, optionIn_ofString (by decide)]

theorem writer_append (h : Encloses m behind) (s : String) :
    Encloses (ofString .writer s ++ m) behind := by
  intro l hl
  rw [ink_append, List.append_assoc, optionIn_ofString (by decide), h hl]

theorem trimEnd (h : Encloses m behind) : Encloses m.trimEnd behind := by
  intro l hl
  rw [ink_trimEnd, h hl]

theorem trim (h : Encloses m behind) : Encloses m.trim behind := by
  intro l hl
  rw [ink_trim, h hl]

/-- Cells with something between them. -/
theorem append (hm : Encloses m behind) {s : String} (hs : Guards s) (hn : Encloses n behind') :
    Encloses (m ++ ofString .writer s ++ n) (behind ++ behind') := by
  intro l hl
  rw [ink_append, ink_append, List.append_assoc, List.append_assoc,
    hm (not_bracketed_of_guards hs _), optionIn_ofString (by decide), hn hl]
  simp only [List.mem_append, or_and_right, exists_or, or_assoc]

/-- What the writer puts around a text decides nothing. -/
theorem between (h : Encloses m behind) (s : String) {t : String} (ht : Guards t) (l : Marked) :
    OptionIn ((ofString .writer s ++ m ++ ofString .writer t).ink ++ l) ↔
      (∃ v ∈ behind, BracketFirst v) ∨ OptionIn l := by
  rw [List.append_assoc, ink_append, List.append_assoc, optionIn_ofString (by decide), ink_append,
    List.append_assoc, h (not_bracketed_of_guards ht l), optionIn_ofString (by decide)]

/-- What is in braces. -/
theorem group (h : Encloses m behind) (w : String) :
    Fits (markGroup m) (Latex.group w) fun _ => behind where
  starts := by
    rw [markGroup, Latex.group, List.append_assoc, String.append_assoc]
    exact .around ⟨'\x7b', rfl, by decide⟩ _ _
  behind l _ _ := h.between _ ⟨'\x7d', rfl, by decide⟩ l

/-- The argument of a command. -/
theorem command (h : Encloses m behind) (name w : String) :
    Fits (markCommand name m) (Latex.command name w) fun _ => behind where
  starts := .around (guards_backslash name) _ _
  behind := by
    intro l after hl
    rw [markCommand, ink_append, List.append_assoc, optionIn_ofString (by decide)]
    exact (h.group w).behind hl

/-- The content of an environment. -/
theorem environment (h : Encloses m behind) (name options w : String) :
    Fits (markEnvironment name options m) (Latex.environment name options w) fun _ => behind where
  starts := by
    have hbegin : Guards (Latex.command "begin" name ++ options ++ "\n") :=
      ((guards_command _ _).append _).append _
    have hparts : Latex.environment name options w =
        (Latex.command "begin" name ++ options ++ "\n") ++
          (w ++ (Latex.command "end" name ++ "\n\n")) := by
      rw [Latex.environment, String.append_assoc, String.append_assoc]
    rw [markEnvironment, hparts, List.append_assoc]
    exact .around hbegin _ _
  behind l _ _ := h.between _ ((guards_command _ _).append _) l

end Encloses

namespace Fits

variable {m n : Marked} {w v : String} {behind behind' : String → List String}

theorem nil : Fits [] "" fun _ => [] where
  starts := .nil
  behind l after _ := by simp [Marked.ink]

theorem append (hm : Fits m w behind) (hn : Fits n v behind') :
    Fits (m ++ n) (w ++ v) fun after => behind (v ++ after) ++ behind' after where
  starts := hm.starts.append hn.starts
  behind := by
    intro l after h
    rw [ink_append, List.append_assoc, hm.behind (hn.starts h), hn.behind h]
    simp only [List.mem_append, or_and_right, exists_or, or_assoc]

/-- Text that does not start with a bracket may follow. -/
theorem append_writer (h : Fits m w behind) {s : String} (hs : ¬ BracketFirst s) :
    Fits (m ++ ofString .writer s) (w ++ s) fun after => behind (s ++ after) where
  starts := h.starts.append (.other hs)
  behind := by
    intro l after hl
    rw [ink_append, List.append_assoc, h.behind (StartsAs.other hs hl),
      optionIn_ofString (by decide)]

theorem document (s : String) : Fits (ofString .document s) s fun _ => [] where
  starts := .document s
  behind l after _ := by simp [optionIn_ofString]

theorem writer {s : String} (hs : ¬ BracketFirst s) :
    Fits (ofString .writer s) s fun _ => [] where
  starts := .other hs
  behind l after _ := by simp [optionIn_ofString]

theorem trimEnd (h : Fits m w behind) : Fits m.trimEnd (Latex.trimEnd w) behind where
  starts := h.starts.trimEnd
  behind := by
    intro l after hl
    rw [ink_trimEnd, h.behind hl]

/-- The end of a line. -/
theorem lineEnd : Fits (ofString .opener "\\\\") "\\\\" fun after => [after] where
  starts := .other (by decide)
  behind := by
    intro l after h
    have hafter : Bracketed l ↔ BracketFirst after := h
    rw [optionIn_lineEnd, hafter]
    simp

end Fits

/-! ### Behind the commands of a document -/

section

variable (links : LinkTable)

mutual

/-- What stands behind the line ends in a span, up to the end of the braces around them, or else in
front of `after` and with it. -/
def behindSpan (after : String) : Span → List String
  | .strong body | .emphasis body | .link body _ _ => behindSpans "" body
  | .linkReference body _ key => if (links.get? key).isSome then behindSpans "" body else []
  | .lineBreak => ["\n" ++ after]
  | _ => []

def behindSpans (after : String) : List Span → List String
  | [] => []
  | s :: rest => behindSpan (writeSpans links rest ++ after) s ++ behindSpans after rest

end

mutual

/-- What stands behind the items and the line ends in a block, up to the end of what they stand in.
The line below the head of a table has a rule behind it. -/
def behindBlock (after : String) : Block → List String
  | .heading _ body => behindSpans links "" body
  | .paragraph body => behindSpans links ("\n\n" ++ after) body
  | .list _ items => behindItems items
  | .quote body => behindBlocks "" body
  | .table _ header rows => behindCells header ++ behindRows rows
  | _ => []

/-- What stands behind the items and the line ends in a sequence of blocks. -/
def behindBlocks (after : String) : List Block → List String
  | [] => []
  | b :: bs => behindBlock (writeBlocks links bs ++ after) b ++ behindBlocks after bs

def behindItems : List (List Block) → List String
  | [] => []
  | item :: items => writeBlocks links item :: behindBlocks "" item ++ behindItems items

/-- What stands behind the items and the line ends in the cells of a row. -/
def behindCells : List (List Block) → List String
  | [] => []
  | cell :: cells => behindBlocks "" cell ++ behindCells cells

def behindRows : List (List (List Block)) → List String
  | [] => []
  | row :: rows => behindCells row ++ writeRows links rows :: behindRows rows

end

mutual

theorem fits_span : (s : Span) →
    Fits (markSpan links s) (writeSpan links s) (behindSpan links · s)
  | .text s => .document _
  | .raw s => .document _
  | .code s => (Fits.document _).encloses.command _ _
  | .strong body => (fits_spans body).encloses.command _ _
  | .emphasis body => (fits_spans body).encloses.command _ _
  | .math source display => by
    rw [markSpan, writeSpan]
    cases display with
    | true =>
      exact ((Fits.writer (by decide)).append (.document source)).append_writer (by decide)
    | false =>
      exact ((Fits.writer (by decide)).append (.document source)).append_writer (by decide)
  | .link body url _ =>
    ((Fits.document _).encloses.command _ _).append ((fits_spans body).encloses.group _)
  | .linkReference body written key => by
    cases hkey : links.get? key with
    | some target =>
      simp only [markSpan, writeSpan, behindSpan, hkey]
      exact ((Fits.document _).encloses.command _ _).append
        ((fits_spans body).encloses.group _)
    | none =>
      simp only [markSpan, writeSpan, behindSpan, hkey]
      exact .document _
  | .image _ url _ => (Fits.document _).encloses.command _ _
  | .imageReference _ written key => by
    rw [markSpan, writeSpan]
    cases links.get? key with
    | some target => exact (Fits.document _).encloses.command _ _
    | none => exact .document _
  | .lineBreak => Fits.lineEnd.append_writer (by decide)

theorem fits_spans : (spans : List Span) →
    Fits (markSpans links spans) (writeSpans links spans) (behindSpans links · spans)
  | [] => .nil
  | s :: rest => (fits_span s).append (fits_spans rest)

end

/-- An item, and the items below. -/
theorem encloses_item {m n : Marked} {w : String} {behind : String → List String}
    {behind' : List String} (hm : Fits m w behind) (hn : Encloses n behind')
    (hstart : ∀ l, ¬ Bracketed l → ¬ Bracketed (n.ink ++ l)) :
    Encloses (ofString .opener "\\item" ++ ofString .writer " " ++ m.trimEnd ++
      ofString .writer "\n" ++ n) (w :: behind "" ++ behind') := by
  intro l hl
  have hspace : (ofString .writer " ").ink = [] := rfl
  have hline : (ofString .writer "\n").ink = [] := rfl
  have hfollows : ¬ Bracketed (n.ink ++ l) := hstart l hl
  have hfirst : Bracketed (m.ink ++ (n.ink ++ l)) ↔ BracketFirst (w ++ "") :=
    hm.starts (meets_empty hfollows)
  rw [String.append_empty] at hfirst
  simp only [ink_append, hspace, hline, ink_trimEnd, List.nil_append, List.append_assoc]
  rw [optionIn_item, hfirst, hm.encloses hfollows, hn hl]
  simp only [List.cons_append, List.mem_cons, List.mem_append, or_and_right, exists_or,
    exists_eq_left, or_assoc]

/-- A row, and the rows below. -/
theorem encloses_row {m n : Marked} {w : String} {behind behind' : List String}
    (hm : Encloses m behind) (hstarts : StartsAs n w) (hn : Encloses n behind') :
    Encloses (m ++ ofString .writer " " ++ ofString .opener "\\\\" ++ ofString .writer "\n" ++ n)
      (behind ++ w :: behind') := by
  intro l hl
  have hspace : (ofString .writer " ").ink = [] := rfl
  have hline : (ofString .writer "\n").ink = [] := rfl
  have hend : Guards "\\\\" := ⟨'\\', rfl, by decide⟩
  have hfirst : Bracketed (n.ink ++ l) ↔ BracketFirst (w ++ "") := hstarts (meets_empty hl)
  rw [String.append_empty] at hfirst
  simp only [ink_append, hspace, hline, List.nil_append, List.append_assoc]
  rw [hm (not_bracketed_of_guards hend _), optionIn_lineEnd, hfirst, hn hl]
  simp only [List.mem_cons, List.mem_append, or_and_right, exists_or, exists_eq_left, or_assoc]

/-- The head of a table, and the rows below. -/
theorem encloses_head {m n : Marked} {behind behind' : List String}
    (hm : Encloses m behind) (hn : Encloses n behind') :
    Encloses (m ++ ofString .writer " " ++ ofString .opener "\\\\" ++
      ofString .writer " \\hline\n" ++ n) (behind ++ behind') := by
  intro l hl
  have hspace : (ofString .writer " ").ink = [] := rfl
  have hend : Guards "\\\\" := ⟨'\\', rfl, by decide⟩
  have hrule : Guards " \\hline\n" := ⟨'\\', rfl, by decide⟩
  simp only [ink_append, hspace, List.nil_append, List.append_assoc]
  rw [hm (not_bracketed_of_guards hend _), optionIn_lineEnd,
    optionIn_ofString (by decide), hn hl]
  simp only [not_bracketed_of_guards hrule, false_or, List.mem_append, or_and_right, exists_or,
    or_assoc]

theorem not_bracketed_items (items : List (List Block)) {l : Marked} (hl : ¬ Bracketed l) :
    ¬ Bracketed ((markItems links items).ink ++ l) := by
  cases items with
  | nil => exact hl
  | cons item items =>
    have hitem : Guards "\\item" := ⟨'\\', rfl, by decide⟩
    simp only [markItems, ink_append, List.append_assoc]
    exact not_bracketed_of_guards hitem _

mutual

theorem fits_block : (b : Block) →
    Fits (markBlock links b) (writeBlock links b) (behindBlock links · b)
  | .heading level body =>
    ((fits_spans links body).encloses.command _ _).append_writer (by decide)
  | .paragraph body => (fits_spans links body).append_writer (by decide)
  | .code source _ =>
    ((Fits.document source).encloses.append_writer (by decide)).environment _ _ _
  | .raw markup => (Fits.document markup).trimEnd.append_writer (by decide)
  | .math source =>
    ((Fits.writer (by decide)).append (.document source)).append_writer (by decide)
  | .rule => .writer (by decide)
  | .list kind items =>
    ((fits_items items).writer_append _).environment _ _ _
  | .quote body =>
    ((fits_blocks body).encloses.trimEnd.append_writer (by decide)).environment _ _ _
  | .table alignments header rows => by
    rw [markBlock, writeBlock]
    refine Encloses.environment ?_ _ _ _
    cases header with
    | nil => exact (fits_rows rows).2
    | cons cell cells => exact encloses_head (fits_cells (cell :: cells)).2 (fits_rows rows).2

theorem fits_blocks : (blocks : List Block) →
    Fits (markBlocks links blocks) (writeBlocks links blocks) (behindBlocks links · blocks)
  | [] => .nil
  | b :: bs => (fits_block b).append (fits_blocks bs)

theorem fits_items : (items : List (List Block)) →
    Encloses (markItems links items) (behindItems links items)
  | [] => .nil
  | item :: items =>
    encloses_item (fits_blocks item) (fits_items items) fun _ => not_bracketed_items links items

theorem fits_cells : (cells : List (List Block)) →
    StartsAs (markRow (markCells links cells)) (joinCells (writeCells links cells)) ∧
      Encloses (markRow (markCells links cells)) (behindCells links cells)
  | [] => ⟨.nil, .nil⟩
  | [cell] => by
    refine ⟨(fits_blocks cell).starts.trim, ?_⟩
    rw [behindCells, behindCells, List.append_nil]
    exact (fits_blocks cell).encloses.trim
  | cell :: cell' :: cells => by
    obtain ⟨hstarts, hencloses⟩ := fits_cells (cell' :: cells)
    have hcell := fits_blocks cell
    exact ⟨(hcell.starts.trim.append (.other (by decide))).append hstarts,
      hcell.encloses.trim.append ⟨'&', rfl, by decide⟩ hencloses⟩

theorem fits_rows : (rows : List (List (List Block))) →
    StartsAs (markRows links rows) (writeRows links rows) ∧
      Encloses (markRows links rows) (behindRows links rows)
  | [] => ⟨.nil, .nil⟩
  | row :: rows => by
    obtain ⟨hstarts, hencloses⟩ := fits_rows rows
    obtain ⟨hstarts', hencloses'⟩ := fits_cells row
    have hline : " \\\\\n" = " " ++ "\\\\" ++ "\n" := rfl
    have hend : StartsAs (ofString .opener "\\\\") "\\\\" := .other (by decide)
    refine ⟨?_, encloses_row hencloses' hstarts hencloses⟩
    rw [markRows, writeRows, hline, ← String.append_assoc, ← String.append_assoc]
    exact (((hstarts'.append (.other (by decide))).append hend).append (.other (by decide))).append
      hstarts

end

end

/-- Text of the document is read as an optional argument just when an item, the rows below another
row, or what follows a hard line break starts with an opening bracket, past white space. -/
theorem readsOption_iff (links : LinkTable) (blocks : List Block) :
    (markBlocks links blocks).erase = (writeBlocks links blocks).toList ∧
    (ReadsOption (markBlocks links blocks) ↔
      ∃ behind ∈ behindBlocks links "" blocks, BracketFirst behind) := by
  refine ⟨erase_markBlocks links blocks, ?_⟩
  have hnone : ¬ OptionIn [] := by simp [OptionIn]
  have hblocks := (fits_blocks links blocks).behind (meets_empty (l := []) (by simp [Bracketed]))
  rw [List.append_nil] at hblocks
  rw [readsOption_iff_optionIn, hblocks, or_iff_left hnone]

/-- The mark of an open task is read as an optional argument of its item. -/
theorem readsOption_taskList :
    ¬ ∀ links blocks, (∀ p ∈ partsOf blocks, p.isRaw = false) →
      ¬ ReadsOption (markBlocks links blocks) := by
  intro h
  refine h .empty [.list .bulleted [[.paragraph [.text "[ ] todo"]]]] (by decide) ?_
  refine ⟨ofString .writer "\\begin\x7bitemize\x7d\n" ++ ofString .opener "\\ite", 'm',
    [(' ', .writer)], ofString .document " ] todo" ++ ofString .writer "\n\\end\x7bitemize\x7d\n\n",
    by decide +kernel, by decide, by decide⟩

end LiterateJournal.Latex
