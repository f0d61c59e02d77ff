import LiterateJournal.Output.Latex
import LiterateJournal.Proofs.Output.Scanner
import LiterateJournal.Proofs.Text.Trim

/-!
# Reading LaTeX

A fragment is taken apart as TeX does it: a backslash starts a command, a percent sign that follows
none starts a comment, and what stands in a verbatim environment is not read at all, up to the first
text that ends one. White space is skipped.

## Main definitions

* `Latex.Token`, `Latex.read` — the characters, commands, braces and environments of a fragment.
* `Latex.Token.bracket?` — braces and environments as brackets.
-/

namespace LiterateJournal.Latex

/-! ### The reader -/

/-- A part of a fragment. -/
inductive Token where
  | char (c : Char)
  /-- A control word, or a control symbol. -/
  | command (name : String)
  | leftBrace
  | rightBrace
  | beginning (name : String)
  | ending (name : String)
  /-- A verbatim environment, with the text between its marks. -/
  | verbatim (text : String)
deriving Repr, DecidableEq

/-- What the reader is in the middle of. -/
inductive Place where
  | text
  | backslash
  | word (name : List Char)
  /-- The name behind a command that begins or ends an environment. -/
  | environment (begins : Bool) (name : List Char)
  | comment
  | verbatim (text : List Char)
deriving Repr, DecidableEq

def endMark : List Char := "\\end\x7bverbatim\x7d".toList

def stepText (c : Char) : List Token × Place :=
  if c = '\\' then ([], .backslash)
  else if c = '\x7b' then ([.leftBrace], .text)
  else if c = '\x7d' then ([.rightBrace], .text)
  else if c = '%' then ([], .comment)
  else if Text.isBlank c then ([], .text)
  else ([.char c], .text)

def stepEnvironment (begins : Bool) (name : List Char) : List Token × Place :=
  if begins then
    if name = "verbatim".toList then ([], .verbatim [])
    else ([.beginning (String.ofList name)], .text)
  else ([.ending (String.ofList name)], .text)

def step : Scanner Place Char Token
  | .text, c => some (stepText c)
  | .backslash, c =>
    if c.isAlpha then some ([], .word [c]) else some ([.command (String.ofList [c])], .text)
  | .word name, c =>
    if c.isAlpha then some ([], .word (name ++ [c]))
    else if c = '\x7b' ∧ name = "begin".toList then some ([], .environment true [])
    else if c = '\x7b' ∧ name = "end".toList then some ([], .environment false [])
    else some (.command (String.ofList name) :: (stepText c).1, (stepText c).2)
  | .environment begins name, c =>
    if c = '\x7d' then some (stepEnvironment begins name)
    else if c = '\\' ∨ c = '\x7b' ∨ c = '%' then none
    else some ([], .environment begins (name ++ [c]))
  | .comment, c => if c = '\n' then some ([], .text) else some ([], .comment)
  | .verbatim text, c =>
    if endMark <:+ text ++ [c] then
      some ([.verbatim (String.ofList ((text ++ [c]).take (text.length + 1 - endMark.length)))],
        .text)
    else some ([], .verbatim (text ++ [c]))

/-- The tokens of a fragment, which may end in the middle of a control word or of a comment. -/
def read (fragment : String) : Option (List Token) :=
  match Scanner.run step .text fragment.toList with
  | some (tokens, .text) | some (tokens, .comment) => some tokens
  | some (tokens, .word name) => some (tokens ++ [.command (String.ofList name)])
  | _ => none

/-- What is opened and closed. -/
inductive Group where
  | braces
  | environment (name : String)
deriving Repr, DecidableEq

/-- A brace, or the beginning or the end of an environment, as a bracket. -/
def Token.bracket? : Token → Option (Bracket Group)
  | .leftBrace => some (.opening .braces)
  | .rightBrace => some (.closing .braces)
  | .beginning name => some (.opening (.environment name))
  | .ending name => some (.closing (.environment name))
  | .char _ | .command _ | .verbatim _ => none

def Token.verbatim? : Token → Option String
  | .verbatim text => some text
  | _ => none

def brackets (tokens : List Token) : List (Bracket Group) := tokens.filterMap Token.bracket?

def verbatims (tokens : List Token) : List String := tokens.filterMap Token.verbatim?

@[simp] theorem brackets_append (ts us : List Token) :
    brackets (ts ++ us) = brackets ts ++ brackets us :=
  List.filterMap_append

@[simp] theorem verbatims_append (ts us : List Token) :
    verbatims (ts ++ us) = verbatims ts ++ verbatims us :=
  List.filterMap_append

/-! ### Settled text -/

open Scanner

/-- White space is skipped. -/
theorem stepText_of_isBlank {c : Char} (h : Text.isBlank c = true) : stepText c = ([], .text) := by
  have hne {d : Char} (hd : Text.isBlank d = false) : c ≠ d := by
    rintro rfl
    rw [hd] at h
    cases h
  rw [stepText, if_neg (hne (by decide)), if_neg (hne (by decide)), if_neg (hne (by decide)),
    if_neg (hne (by decide)), if_pos h]

def IsSpace (w : List Char) : Prop := ∀ c ∈ w, Text.isBlank c = true

instance (w : List Char) : Decidable (IsSpace w) :=
  decidable_of_iff (w.all Text.isBlank = true) List.all_eq_true

@[simp] theorem isSpace_nil : IsSpace [] := List.forall_mem_nil _

theorem leads_blanks {w : List Char} (h : IsSpace w) :
    Leads step .text w [] .text := by
  induction w with
  | nil => exact Leads.refl step .text
  | cons c cs ih =>
    have hc : step .text c = some ([], .text) := by
      rw [step, stepText_of_isBlank (h c List.mem_cons_self)]
    exact Leads.cons hc (ih fun d hd => h d (List.mem_cons_of_mem _ hd))

theorem leads_blank {b : Char} (h : Text.isBlank b = true) : Leads step .text [b] [] .text :=
  leads_blanks (List.forall_mem_singleton.2 h)

/-- Text is read completely, and so is what is left of it when white space at its end is trimmed,
provided that some white space follows. -/
structure Settles (w : List Char) (ts : List Token) : Prop where
  leads : Leads step .text w ts .text
  cut : ∀ {p s b}, w = p ++ s → IsSpace s → Text.isBlank b = true →
    Leads step .text (p ++ [b]) ts .text

namespace Settles

variable {v w : List Char} {ts us : List Token}

theorem blanks (h : IsSpace w) : Settles w [] where
  leads := leads_blanks h
  cut := by
    rintro p s b rfl - hb
    refine leads_blanks fun c hc => ?_
    obtain hc | hc := List.mem_append.1 hc
    · exact h c (List.mem_append_left _ hc)
    · rwa [List.mem_singleton.1 hc]

theorem append (hv : Settles v ts) (hw : Settles w us) : Settles (v ++ w) (ts ++ us) where
  leads := hv.leads.append hw.leads
  cut := by
    intro p s b hps hs hb
    obtain ⟨p', rfl, hw'⟩ | ⟨s', rfl, rfl⟩ := List.append_eq_append_iff.1 hps
    · have hcut := hv.leads.append (hw.cut hw' hs hb)
      rwa [← List.append_assoc] at hcut
    · -- the second text is white space only
      obtain ⟨rfl, -⟩ := hw.leads.unique
        (leads_blanks fun c hc => hs c (List.mem_append_right _ hc))
      rw [List.append_nil]
      exact hv.cut rfl (fun c hc => hs c (List.mem_append_left _ hc)) hb

/-- Text that does not end with white space is settled when it is read. -/
theorem of_leads {c : Char} (h : Leads step .text (w ++ [c]) ts .text)
    (hc : Text.isBlank c = false) : Settles (w ++ [c]) ts where
  leads := h
  cut := by
    intro p s b hps hs hb
    obtain rfl | ⟨s', d, rfl⟩ := List.eq_nil_or_concat s
    · rw [List.append_nil] at hps
      rw [← hps]
      simpa using h.append (leads_blank hb)
    · rw [List.concat_eq_append] at hps hs
      rw [← List.append_assoc] at hps
      obtain ⟨-, hd⟩ := List.append_inj' hps rfl
      cases hd
      rw [hs c (by simp)] at hc
      cases hc

theorem trimStart (h : Settles w ts) : Settles (Text.trimStart w) ts := by
  obtain ⟨r, hr, hblank⟩ := Text.exists_append_trimStart w
  have hskip {v : List Char} {us : List Token} (hv : Leads step .text (r ++ v) us .text) :
      Leads step .text v us .text := by
    obtain ⟨us', hv', rfl⟩ := (leads_blanks hblank).of_append hv
    exact hv'
  constructor
  · exact hskip (hr ▸ h.leads)
  · intro p s b hps hs hb
    refine hskip ?_
    rw [← List.append_assoc]
    exact h.cut (by rw [List.append_assoc, ← hps, ← hr]) hs hb

/-- Trimmed text is settled once white space follows. -/
theorem trimEnd (h : Settles w ts) {b : Char} (hb : Text.isBlank b = true) :
    Settles (Text.trimEnd w ++ [b]) ts := by
  obtain ⟨r, hr, hblank⟩ := Text.exists_trimEnd_append w
  constructor
  · exact h.cut hr hblank hb
  · intro p s d hps hs hd
    obtain rfl | ⟨s', e, rfl⟩ := List.eq_nil_or_concat s
    · rw [List.append_nil] at hps
      rw [← hps]
      simpa using (h.cut hr hblank hb).append (leads_blank hd)
    · rw [List.concat_eq_append] at hps hs
      rw [← List.append_assoc] at hps
      obtain ⟨hp, -⟩ := List.append_inj' hps rfl
      refine h.cut (s := s' ++ r) (by rw [← List.append_assoc, ← hp, ← hr]) ?_ hd
      intro c hc
      obtain hc | hc := List.mem_append.1 hc
      · exact hs c (List.mem_append_left _ hc)
      · exact hblank c hc

end Settles

/-! ### Commands -/

/-- The name of a control word, other than those of the two that read an environment's name. -/
structure IsWord (name : String) : Prop where
  ne_empty : name ≠ ""
  alpha : ∀ c ∈ name.toList, c.isAlpha = true
  ne_begin : name ≠ "begin"
  ne_end : name ≠ "end"

theorem leads_word {name : List Char} {w : List Char} (h : ∀ c ∈ w, c.isAlpha = true) :
    Leads step (.word name) w [] (.word (name ++ w)) :=
  leads_collect (fun v c hc => by rw [step, if_pos hc]) name h

theorem leads_backslash {name : String} (hne : name ≠ "")
    (h : ∀ c ∈ name.toList, c.isAlpha = true) :
    Leads step .text ('\\' :: name.toList) [] (.word name.toList) := by
  cases hname : name.toList with
  | nil => exact absurd (String.toList_eq_nil_iff.1 hname) hne
  | cons c cs =>
    rw [hname] at h
    have hslash : step .text '\\' = some ([], .backslash) := rfl
    have hc : step .backslash c = some ([], .word [c]) := by
      rw [step, if_pos (h c List.mem_cons_self)]
    exact Leads.cons hslash (Leads.cons hc (leads_word fun d hd => h d (List.mem_cons_of_mem _ hd)))

/-- Behind a control word the reader goes on as in the text. -/
theorem IsWord.leads {name : String} (h : IsWord name) {c : Char} {w : List Char}
    {ts : List Token} {q : Place} (hc : c.isAlpha = false) (hw : Leads step .text (c :: w) ts q) :
    Leads step .text ('\\' :: name.toList ++ c :: w) (.command name :: ts) q := by
  obtain ⟨ts₁, r, ts₂, hstep, hrest, rfl⟩ := leads_cons.1 hw
  have hword : step (.word name.toList) c = some (.command name :: ts₁, r) := by
    have hbegin : name.toList ≠ "begin".toList := fun heq => h.ne_begin (String.toList_inj.1 heq)
    have hend : name.toList ≠ "end".toList := fun heq => h.ne_end (String.toList_inj.1 heq)
    have htext : stepText c = (ts₁, r) := Option.some.inj hstep
    simp only [step, hc, Bool.false_eq_true, if_false, hbegin, hend, and_false, htext,
      String.ofList_toList]
  exact (leads_backslash h.ne_empty h.alpha).append (Leads.cons hword hrest)

/-- White space is no letter and no digit. -/
theorem isAlphanum_of_isBlank {b : Char} (h : Text.isBlank b = true) : b.isAlphanum = false := by
  cases hb : b.isAlphanum with
  | false => rfl
  | true =>
    have hranges : ((decide ('A'.val ≤ b.val ∧ b.val ≤ 'Z'.val) ||
        (decide ('a'.val ≤ b.val) && decide (b.val ≤ 'z'.val))) ||
        (decide ('0'.val ≤ b.val) && decide (b.val ≤ '9'.val))) = true := hb
    simp only [Text.isBlank, Char.toNat, Bool.or_eq_true, Bool.and_eq_true, decide_eq_true_eq,
      beq_iff_eq, UInt32.le_iff_toNat_le] at h hranges
    have hbounds : ('A'.val.toNat = 65 ∧ 'Z'.val.toNat = 90) ∧
        ('a'.val.toNat = 97 ∧ 'z'.val.toNat = 122) ∧ '0'.val.toNat = 48 ∧ '9'.val.toNat = 57 := by
      decide
    omega

theorem isAlpha_of_isBlank {b : Char} (h : Text.isBlank b = true) : b.isAlpha = false := by
  have halphanum := isAlphanum_of_isBlank h
  rw [Char.isAlphanum, Bool.or_eq_false_iff] at halphanum
  exact halphanum.1

theorem Settles.word {name : String} (h : IsWord name) {c : Char} {w : List Char}
    {ts : List Token} (hc : c.isAlpha = false) (hw : Settles (c :: w) ts) :
    Settles ('\\' :: name.toList ++ c :: w) (.command name :: ts) where
  leads := h.leads hc hw.leads
  cut := by
    intro p s b hps hs hb
    -- the cut is behind the name: no character of a command is white space
    obtain ⟨p', rfl, hp'⟩ : ∃ p', p = '\\' :: name.toList ++ p' ∧ c :: w = p' ++ s := by
      obtain ⟨p', rfl, hp'⟩ | ⟨s', hs', rfl⟩ := List.append_eq_append_iff.1 hps
      · exact ⟨p', rfl, hp'⟩
      · cases s' with
        | nil => exact ⟨[], by simpa using hs'.symm, rfl⟩
        | cons d ds =>
          have hblank : Text.isBlank d = true := hs d List.mem_cons_self
          have hmem : d ∈ '\\' :: name.toList := hs' ▸ List.mem_append_right _ List.mem_cons_self
          obtain rfl | hd := List.mem_cons.1 hmem
          · exact absurd hblank (by decide)
          · have halpha := h.alpha d hd
            rw [isAlpha_of_isBlank hblank] at halpha
            cases halpha
    rw [List.append_assoc]
    have hcut := hw.cut hp' hs hb
    cases p' with
    | nil => exact h.leads (isAlpha_of_isBlank hb) hcut
    | cons d ds =>
      cases hp'
      exact h.leads hc hcut

end LiterateJournal.Latex
