import LiterateJournal.Proofs.Output.LatexReader

/-!
# Fragments of LaTeX

What the parts of a fragment are read as: escaped text, commands, groups, environments, verbatim
text and addresses, which the writer does not escape.

## Main definitions

* `Latex.ClearOfMark` — text that does not end a verbatim environment before its time.
* `Latex.Closed` — an address that keeps to its braces.
* `Latex.Written` — fragments, with their tokens.

## Main statements

* `Latex.Written.settles` — the tokens are read as they were written.
* `Latex.Written.balanced` — braces and environments are closed in the order of their opening.
-/

namespace LiterateJournal.Latex

open Scanner

/-! ### Verbatim text -/

/-- A backslash starts the mark, and no other one is in it. -/
theorem endMark_eq : ∃ m, endMark = '\\' :: m ∧ '\\' ∉ m :=
  ⟨"end\x7bverbatim\x7d".toList, rfl, by decide⟩

theorem endMark_ne_nil : endMark ≠ [] := by decide

/-- The mark that ends a verbatim environment occurs behind the text, and not earlier. -/
def ClearOfMark (text : List Char) : Prop :=
  ∀ z, z <+: text ++ endMark → endMark <:+ z → z = text ++ endMark

theorem leads_verbatim_of_append {text read rest : List Char} (h : ClearOfMark text)
    (hread : read ++ rest = text ++ endMark) (hne : rest ≠ []) :
    Leads step (.verbatim read) rest [.verbatim (String.ofList text)] .text := by
  induction rest generalizing read with
  | nil => exact absurd rfl hne
  | cons c cs ih =>
    rw [← List.singleton_append, ← List.append_assoc] at hread
    cases cs with
    | nil =>
      rw [List.append_nil] at hread
      have hlength : read.length + 1 = text.length + endMark.length := by
        simpa using congrArg List.length hread
      refine Leads.single ?_
      rw [step, if_pos (hread ▸ List.suffix_append text endMark), hread, hlength,
        Nat.add_sub_cancel, List.take_left]
    | cons d ds =>
      have hearly : ¬ endMark <:+ read ++ [c] := by
        intro hsuffix
        have hall := h (read ++ [c]) (hread ▸ List.prefix_append _ _) hsuffix
        rw [← hread] at hall
        simp at hall
      have hc : step (.verbatim read) c = some ([], .verbatim (read ++ [c])) := by
        rw [step, if_neg hearly]
      exact Leads.cons hc (ih hread (by simp))

/-- Verbatim text is read up to the mark behind it. -/
theorem leads_verbatim {text : List Char} (h : ClearOfMark text) :
    Leads step (.verbatim []) (text ++ endMark) [.verbatim (String.ofList text)] .text :=
  leads_verbatim_of_append h (List.nil_append _) (by simp [endMark_ne_nil])

/-- Two marks never overlap, so that text without a mark leaves the mark behind it alone. -/
theorem clearOfMark_of_not_infix {text : List Char} (h : ¬ endMark <:+: text) :
    ClearOfMark text := by
  rintro z ⟨r, hr⟩ ⟨q, rfl⟩
  obtain ⟨m, hmark, hm⟩ := endMark_eq
  rw [List.append_assoc] at hr
  obtain ⟨v, rfl, hv⟩ | ⟨v, rfl, hv⟩ := List.append_eq_append_iff.1 hr
  · cases v with
    | nil => simp
    | cons d v =>
      exfalso
      obtain ⟨u, hu, -⟩ | ⟨u, hu, hmark'⟩ := List.append_eq_append_iff.1 hv
      · -- the mark is in the text
        exact h (hu ▸ ⟨q, u, by simp⟩)
      · -- the mark behind the text starts inside another one
        cases u with
        | nil => exact h ⟨q, [], by simp [hu]⟩
        | cons c u =>
          rw [hmark, List.cons_append, List.cons.injEq] at hmark' hu
          obtain ⟨rfl, -⟩ := hmark'
          exact hm (hu.2 ▸ by simp)
  · have hlength := congrArg List.length hv
    simp only [List.length_append] at hlength
    obtain rfl : v = [] := List.length_eq_zero_iff.1 (by omega)
    rw [List.append_nil]

/-- A text with a mark in it can be cut at the first one. -/
theorem exists_clearOfMark {text : List Char} (h : endMark <:+: text) :
    ∃ x y, text = x ++ endMark ++ y ∧ ClearOfMark x := by
  obtain ⟨x, y, hxy⟩ := h
  induction hn : x.length using Nat.strongRecOn generalizing x y with
  | ind n ih =>
    by_cases hclear : ClearOfMark x
    · exact ⟨x, y, hxy.symm, hclear⟩
    · simp only [ClearOfMark, Classical.not_forall] at hclear
      obtain ⟨z, ⟨r, hr⟩, ⟨q, rfl⟩, hne⟩ := hclear
      have hlength : (q ++ endMark ++ r).length = (x ++ endMark).length := congrArg _ hr
      have hr' : r ≠ [] := by
        rintro rfl
        exact hne (by simpa using hr)
      have hpos := List.length_pos_iff.2 hr'
      simp only [List.length_append] at hlength
      exact ih q.length (by omega) q (r ++ y) (by rw [← List.append_assoc, hr, hxy]) rfl

/-- Line feeds around a text hide no mark. -/
theorem infix_lines_iff {text : List Char} :
    endMark <:+: '\n' :: text ++ ['\n'] ↔ endMark <:+: text := by
  have hnot : '\n' ∉ endMark := by decide
  constructor
  · intro h
    rw [List.infix_concat_iff] at h
    obtain h | h := h
    · obtain ⟨q, hq⟩ := h
      obtain ⟨m, c, hm⟩ := List.eq_nil_or_concat endMark |>.resolve_left endMark_ne_nil
      rw [hm, List.concat_eq_append, ← List.append_assoc] at hq
      obtain ⟨-, hc⟩ := List.append_inj' hq rfl
      cases hc
      exact absurd (by simp [hm]) hnot
    · rw [List.infix_cons_iff] at h
      obtain ⟨q, hq⟩ | h := h
      · obtain ⟨m, hm, -⟩ := endMark_eq
        rw [hm] at hq
        cases hq
      · exact h
  · exact fun h => h.trans ⟨['\n'], ['\n'], rfl⟩

/-! ### Escaped text -/

def emptyCommand (name : String) : List Token := [.command name, .leftBrace, .rightBrace]

def escapeTokens : Char → List Token
  | '\\' => emptyCommand "textbackslash"
  | '^' => emptyCommand "textasciicircum"
  | '~' => emptyCommand "textasciitilde"
  | '\x7b' => [.command "\x7b"]
  | '\x7d' => [.command "\x7d"]
  | '$' => [.command "$"]
  | '&' => [.command "&"]
  | '#' => [.command "#"]
  | '%' => [.command "%"]
  | '_' => [.command "_"]
  | c => if Text.isBlank c then [] else [.char c]

def textTokens (s : String) : List Token := s.toList.flatMap escapeTokens

/-- Letters and digits need no escape. -/
theorem textTokens_eq_map {s : String} (h : s.toList.all Char.isAlphanum = true) :
    textTokens s = s.toList.map .char := by
  have hchar : ∀ c ∈ s.toList, escapeTokens c = [.char c] := by
    intro c hc
    have halphanum := List.all_eq_true.1 h c hc
    unfold escapeTokens
    split
    case h_11 =>
      refine if_neg fun hblank => ?_
      rw [isAlphanum_of_isBlank hblank] at halphanum
      cases halphanum
    all_goals exact absurd halphanum (by decide)
  rw [textTokens, List.flatMap_def, List.map_congr_left hchar, ← List.flatMap_def,
    List.map_eq_flatMap]

def characterCommands : List String :=
  ["textbackslash", "textasciicircum", "textasciitilde", "\x7b", "\x7d", "$", "&", "#", "%", "_"]

/-- Escaped text leaves characters, braces and commands for characters. -/
theorem cases_of_mem_textTokens {s : String} {t : Token} (h : t ∈ textTokens s) :
    (∃ c, t = .char c) ∨ t = .leftBrace ∨ t = .rightBrace ∨
      ∃ name ∈ characterCommands, t = .command name := by
  obtain ⟨c, -, ht⟩ := List.mem_flatMap.1 h
  have hcommand {name : String} (hname : name ∈ characterCommands) (ht : t ∈ emptyCommand name) :
      t = .leftBrace ∨ t = .rightBrace ∨ ∃ name ∈ characterCommands, t = .command name := by
    simp only [emptyCommand, List.mem_cons, List.not_mem_nil, or_false] at ht
    obtain rfl | rfl | rfl := ht
    · exact .inr (.inr ⟨name, hname, rfl⟩)
    · exact .inl rfl
    · exact .inr (.inl rfl)
  unfold escapeTokens at ht
  split at ht
  case h_1 | h_2 | h_3 => exact .inr (hcommand (by decide) ht)
  case h_11 =>
    split at ht
    · cases ht
    · exact .inl ⟨c, List.mem_singleton.1 ht⟩
  all_goals exact .inr (.inr (.inr ⟨_, by decide, List.mem_singleton.1 ht⟩))

theorem settles_char {c : Char} (h : stepText c = ([.char c], .text)) :
    Settles [c] [.char c] := by
  have hblank : Text.isBlank c = false := by
    cases hc : Text.isBlank c with
    | false => rfl
    | true => rw [stepText_of_isBlank hc] at h; cases h
  exact .of_leads (w := []) (Leads.single (congrArg some h)) hblank

theorem settles_escapeChar (c : Char) : Settles (escapeChar c) (escapeTokens c) := by
  unfold escapeChar
  split
  case h_11 h1 h2 h3 _ _ _ h7 _ h9 h10 =>
    have htokens : escapeTokens c = if Text.isBlank c then [] else [.char c] := by
      unfold escapeTokens
      split
      all_goals first | contradiction | rfl
    rw [htokens]
    split
    · rename_i hc
      exact .blanks (List.forall_mem_singleton.2 hc)
    · rename_i hc
      refine settles_char ?_
      rw [stepText, if_neg h1, if_neg h2, if_neg h3, if_neg h7, if_neg hc]
  case h_1 => exact .of_leads (w := "\\textbackslash\x7b".toList) rfl (by decide)
  case h_9 => exact .of_leads (w := "\\textasciicircum\x7b".toList) rfl (by decide)
  case h_10 => exact .of_leads (w := "\\textasciitilde\x7b".toList) rfl (by decide)
  all_goals exact .of_leads (w := ['\\']) rfl (by decide)

theorem settles_escape (s : String) : Settles (escape s).toList (textTokens s) := by
  rw [escape, String.toList_ofList, textTokens]
  induction s.toList with
  | nil => exact .blanks (by simp)
  | cons c cs ih => exact (settles_escapeChar c).append ih

/-! ### Groups and environments -/

theorem leads_group {w : List Char} {ts : List Token} (h : Leads step .text w ts .text) :
    Leads step .text ('\x7b' :: w ++ ['\x7d']) (.leftBrace :: ts ++ [.rightBrace]) .text := by
  have hleft : Leads step .text ['\x7b'] [.leftBrace] .text := rfl
  have hright : Leads step .text ['\x7d'] [.rightBrace] .text := rfl
  exact (hleft.append h).append hright

/-- The name of an environment. -/
theorem leads_environment (begins : Bool) {name : String}
    (h : ∀ c ∈ name.toList, c.isAlpha = true) :
    Leads step (.environment begins []) (name.toList ++ ['\x7d'])
      (stepEnvironment begins name.toList).1 (stepEnvironment begins name.toList).2 := by
  have hname : Leads step (.environment begins []) name.toList []
      (.environment begins name.toList) :=
    leads_collect (f := Place.environment begins) (fun v c hc => by
      have hne {d : Char} (hd : d.isAlpha = false) : c ≠ d := by
        rintro rfl
        rw [hd] at hc
        cases hc
      rw [step, if_neg (hne (by decide)),
        if_neg (by simp [hne (show '\\'.isAlpha = false by decide),
          hne (show '\x7b'.isAlpha = false by decide), hne (show '%'.isAlpha = false by decide)])])
      [] h
  have hend : Leads step (.environment begins name.toList) ['\x7d']
      (stepEnvironment begins name.toList).1 (stepEnvironment begins name.toList).2 :=
    Leads.single (by simp [step])
  exact hname.append hend

/-- A command that begins or ends an environment. -/
theorem leads_mark (begins : Bool) {name : String} (h : ∀ c ∈ name.toList, c.isAlpha = true) :
    Leads step .text (command (if begins then "begin" else "end") name).toList
      (stepEnvironment begins name.toList).1 (stepEnvironment begins name.toList).2 := by
  have hcommand : Leads step .text ('\\' :: (if begins then "begin" else "end").toList ++ ['\x7b'])
      [] (.environment begins []) := by
    cases begins <;> rfl
  have h' := hcommand.append (leads_environment begins h)
  simpa [command, group] using h'

/-! ### Addresses -/

def addressTokens (url : String) : List Token :=
  ((Scanner.run step .text (group url).toList).map Prod.fst).getD []

/-- An address keeps to its braces: what is read with them is closed, and nothing goes on behind
them. -/
structure Closed (url : String) : Prop where
  leads : Leads step .text (group url).toList (addressTokens url) .text
  balanced : Balanced (brackets (addressTokens url))
  verbatims_eq_nil : verbatims (addressTokens url) = []

theorem addressTokens_of_leads {url : String} {ts : List Token} {q : Place}
    (h : Leads step .text (group url).toList ts q) : addressTokens url = ts := by
  rw [addressTokens, h]
  rfl

/-- An address without characters that mean something to TeX. -/
def IsPlainAddress (url : String) : Prop :=
  ∀ c ∈ url.toList, c ∉ ['\\', '\x7b', '\x7d', '%']

instance (url : String) : Decidable (IsPlainAddress url) :=
  decidable_of_iff (url.toList.all fun c => c ∉ ['\\', '\x7b', '\x7d', '%'])
    (by simp [IsPlainAddress])

theorem leads_plain {w : List Char} (h : ∀ c ∈ w, c ∉ ['\\', '\x7b', '\x7d', '%']) :
    Leads step .text w ((w.filter fun c => !Text.isBlank c).map .char) .text := by
  induction w with
  | nil => exact Leads.refl step .text
  | cons c w ih =>
    have hrest := ih fun d hd => h d (List.mem_cons_of_mem _ hd)
    have hc := h c List.mem_cons_self
    simp only [List.mem_cons, List.not_mem_nil, or_false, not_or] at hc
    have hstep : step .text c = some (if Text.isBlank c then [] else [.char c], .text) := by
      simp only [step, stepText, hc, if_false]
      split <;> rfl
    have hall := Leads.cons hstep hrest
    cases hblank : Text.isBlank c <;> simpa [hblank] using hall

/-- A plain address is read as its characters. -/
theorem leads_plainAddress {url : String} (h : IsPlainAddress url) :
    Leads step .text (group url).toList
      (.leftBrace :: (url.toList.filter fun c => !Text.isBlank c).map .char ++ [.rightBrace])
      .text := by
  simpa [group] using leads_group (leads_plain h)

/-- A plain address keeps to its braces. -/
theorem closed_of_isPlainAddress {url : String} (h : IsPlainAddress url) : Closed url := by
  have hleads := leads_plainAddress h
  have htokens := addressTokens_of_leads hleads
  refine ⟨htokens ▸ hleads, ?_, ?_⟩
  · have hnone : brackets ((url.toList.filter fun c => !Text.isBlank c).map .char) = [] := by
      simp [brackets, List.filterMap_map, Function.comp_def, Token.bracket?]
    rw [htokens, List.cons_append, ← List.singleton_append, brackets_append, brackets_append,
      hnone]
    rfl
  · have hnone : verbatims ((url.toList.filter fun c => !Text.isBlank c).map .char) = [] := by
      simp [verbatims, List.filterMap_map, Function.comp_def, Token.verbatim?]
    rw [htokens, List.cons_append, ← List.singleton_append, verbatims_append, verbatims_append,
      hnone]
    rfl

/-! ### Fragments as they are written -/

/-- The name of an environment that is not verbatim. -/
structure IsEnvironment (name : String) : Prop where
  alpha : ∀ c ∈ name.toList, c.isAlpha = true
  ne_verbatim : name ≠ "verbatim"

def groupTokens (ts : List Token) : List Token := .leftBrace :: ts ++ [.rightBrace]

def environmentTokens (name : String) (ts : List Token) : List Token :=
  .beginning name :: ts ++ [.ending name]

/-- The fragment that is read as some tokens. -/
inductive Written : List Char → List Token → Prop where
  | blanks {w : List Char} : IsSpace w → Written w []
  | append {v w : List Char} {ts us : List Token} :
    Written v ts → Written w us → Written (v ++ w) (ts ++ us)
  | text (s : String) : Written (escape s).toList (textTokens s)
  | char {c : Char} : stepText c = ([.char c], .text) → Written [c] [.char c]
  | lineBreak : Written ['\\', '\\'] [.command "\\"]
  | word {name : String} {c : Char} {w : List Char} {ts : List Token} :
    IsWord name → c.isAlpha = false → Written (c :: w) ts →
    Written ('\\' :: name.toList ++ c :: w) (.command name :: ts)
  | group {w : List Char} {ts : List Token} :
    Written w ts → Written ('\x7b' :: w ++ ['\x7d']) (groupTokens ts)
  | environment {name : String} {w : List Char} {ts : List Token} :
    IsEnvironment name → Written w ts →
    Written ((command "begin" name).toList ++ w ++ (command "end" name).toList)
      (environmentTokens name ts)
  | verbatim {text : List Char} : ClearOfMark text →
    Written ((command "begin" "verbatim").toList ++ text ++ endMark)
      [.verbatim (String.ofList text)]
  | address {url : String} : Closed url → Written (Latex.group url).toList (addressTokens url)
  | trimStart {w : List Char} {ts : List Token} : Written w ts → Written (Text.trimStart w) ts
  | trimEnd {w : List Char} {ts : List Token} {b : Char} :
    Written w ts → Text.isBlank b = true → Written (Text.trimEnd w ++ [b]) ts

namespace Written

variable {w : List Char} {ts : List Token}

/-- The tokens of a fragment are read as they were written. -/
theorem settles (h : Written w ts) : Settles w ts := by
  induction h with
  | blanks h => exact .blanks h
  | append _ _ ihv ihw => exact ihv.append ihw
  | text s => exact settles_escape s
  | char h => exact settles_char h
  | lineBreak => exact .of_leads (w := ['\\']) rfl (by decide)
  | word hname hc _ ih => exact .word hname hc ih
  | group _ ih => exact .of_leads (leads_group ih.leads) (by decide)
  | @environment name w ts hname _ ih =>
    have hne : name.toList ≠ "verbatim".toList :=
      fun heq => hname.ne_verbatim (String.toList_inj.1 heq)
    have hbegin := leads_mark true hname.alpha
    have hend := leads_mark false hname.alpha
    simp only [stepEnvironment, if_true, if_neg hne, String.ofList_toList, Bool.false_eq_true,
      if_false] at hbegin hend
    have hall := (hbegin.append ih.leads).append hend
    have hlast : (command "end" name).toList =
        ('\\' :: "end".toList ++ '\x7b' :: name.toList) ++ ['\x7d'] := by
      simp [command, Latex.group]
    rw [hlast, ← List.append_assoc] at hall ⊢
    exact .of_leads hall (by decide)
  | verbatim h =>
    have hbegin : Leads step .text (command "begin" "verbatim").toList [] (.verbatim []) := rfl
    have hall := hbegin.append (leads_verbatim h)
    have hlast : endMark = "\\end\x7bverbatim".toList ++ ['\x7d'] := rfl
    rw [← List.append_assoc, hlast, ← List.append_assoc] at hall
    rw [hlast, ← List.append_assoc]
    exact .of_leads hall (by decide)
  | @address url h =>
    have hall := h.leads
    have hlast : (Latex.group url).toList = ('\x7b' :: url.toList) ++ ['\x7d'] := by
      simp [Latex.group]
    rw [hlast] at hall ⊢
    exact .of_leads hall (by decide)
  | trimStart _ ih => exact ih.trimStart
  | trimEnd _ hb ih => exact ih.trimEnd hb

/-- Braces and environments are closed, the last one opened first. -/
theorem balanced (h : Written w ts) : Balanced (brackets ts) := by
  induction h with
  | blanks _ => exact balanced_nil
  | append _ _ ihv ihw => rw [brackets_append]; exact ihv.append ihw
  | text s =>
    rw [textTokens]
    induction s.toList with
    | nil => exact balanced_nil
    | cons c cs ih =>
      rw [List.flatMap_cons, brackets_append]
      refine Balanced.append ?_ ih
      unfold escapeTokens
      split
      case h_11 => split <;> exact balanced_nil
      all_goals rfl
  | char _ => exact balanced_nil
  | lineBreak => exact balanced_nil
  | word _ _ _ ih => exact ih
  | group _ ih => simpa [groupTokens, brackets, Token.bracket?] using ih.enclose .braces
  | @environment name _ _ _ _ ih =>
    simpa [environmentTokens, brackets, Token.bracket?] using ih.enclose (.environment name)
  | verbatim _ => exact balanced_nil
  | address h => exact h.balanced
  | trimStart _ ih => exact ih
  | trimEnd _ _ ih => exact ih

end Written

end LiterateJournal.Latex
