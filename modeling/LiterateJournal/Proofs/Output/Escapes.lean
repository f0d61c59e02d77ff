import LiterateJournal.Output.Html
import LiterateJournal.Output.Latex
import LiterateJournal.Proofs.Output.Scanner
import LiterateJournal.Proofs.Text.Replacement

/-!
# Escaped text as a code

In both output languages text is escaped character by character. A special character becomes a
sequence that starts with a mark; the mark is special itself, and no sequence is the start of
another one. So what is written can be read from left to right, and it is read as the text that it
was.

## Main definitions

* `EscapeCode` — special characters and their sequences; `EscapeCode.write`, `EscapeCode.read`.
* `EscapeCode.Encodes` — a writer of text that keeps to a code.
* `Html.entities`, `Latex.sequences` — the codes of the two languages.
* `Latex.bareBraces` — the braces that are not escaped.

## Main statements

* `EscapeCode.read_write` — what is written is read as it was.
* `EscapeCode.encodes` — a writer that writes as the code does keeps to it.
* `escapes_are_faithful` — escaped text in both languages.
-/

namespace LiterateJournal

/-- Characters that are not written as they are, and what is written for them. -/
structure EscapeCode where
  /-- The character that every sequence starts with. -/
  mark : Char
  /-- The special characters, each with its sequence. -/
  table : List (Char × List Char)
  starts : ∀ e ∈ table, e.2.head? = some mark
  mark_mem : mark ∈ table.map Prod.fst
  prefixFree : ∀ e ∈ table, ∀ f ∈ table, e.2 <+: f.2 → e = f

namespace EscapeCode

def specials (code : EscapeCode) : List Char := code.table.map Prod.fst

def writeChar (code : EscapeCode) (c : Char) : List Char := (code.table.lookup c).getD [c]

def write (code : EscapeCode) (cs : List Char) : List Char := cs.flatMap code.writeChar

/-- A text in which each sequence has been replaced by its character, from left to right. -/
def read (code : EscapeCode) (cs : List Char) : List Char :=
  fillAll (code.table.map fun e => (e.2, [e.1])) cs

/-- A writer of text keeps to a code: its text can be read again, it is written piece by piece, and
a special character occurs in it only inside the sequence for a character of the text. -/
structure Encodes (code : EscapeCode) (escape : String → String) : Prop where
  read_escape : ∀ s, code.read (escape s).toList = s.toList
  injective : Function.Injective escape
  escape_append : ∀ s t, escape (s ++ t) = escape s ++ escape t
  in_sequence : ∀ s before c after, (escape s).toList = before ++ c :: after →
    c ∈ code.specials → ∃ cs k ds a b, s.toList = cs ++ k :: ds ∧ (k, a ++ c :: b) ∈ code.table ∧
      before = (escape (String.ofList cs)).toList ++ a ∧
      after = b ++ (escape (String.ofList ds)).toList

/-! ### Writing -/

section

variable {code : EscapeCode} {c : Char} {w : List Char}

theorem writeChar_of_notMem (h : c ∉ code.specials) : code.writeChar c = [c] := by
  have hlookup : code.table.lookup c = none := by
    apply List.lookup_eq_none_iff.2
    intro e he
    have hne : c ≠ e.1 := by
      rintro rfl
      exact h (List.mem_map_of_mem he)
    simpa using hne
  rw [writeChar, hlookup]
  rfl

theorem mem_table (h : c ∈ code.specials) : (c, code.writeChar c) ∈ code.table := by
  cases hlookup : code.table.lookup c with
  | some w =>
    obtain ⟨before, after, htable, -⟩ := List.lookup_eq_some_iff.1 hlookup
    rw [writeChar, hlookup, htable]
    simp
  | none =>
    obtain ⟨e, he, rfl⟩ := List.mem_map.1 h
    simpa using List.lookup_eq_none_iff.1 hlookup e he

/-- A special character is part of a sequence. -/
theorem mem_table_of_writeChar_eq {k : Char} {a b : List Char} (hc : c ∈ code.specials)
    (h : code.writeChar k = a ++ c :: b) : (k, a ++ c :: b) ∈ code.table := by
  by_cases hk : k ∈ code.specials
  · rw [← h]
    exact mem_table hk
  · -- what is not special is written as it is
    have hmem : c ∈ [k] := by
      rw [← writeChar_of_notMem hk, h]
      simp
    rw [List.mem_singleton.1 hmem] at hc
    exact absurd hc hk

/-- Each character that is written is written for a character of the text. -/
theorem exists_of_write_eq (code : EscapeCode) {cs before after : List Char}
    (h : code.write cs = before ++ c :: after) :
    ∃ ds k es a b, cs = ds ++ k :: es ∧ code.writeChar k = a ++ c :: b ∧
      before = code.write ds ++ a ∧ after = b ++ code.write es := by
  induction cs generalizing before with
  | nil => simp [write] at h
  | cons d cs ih =>
    rw [write, List.flatMap_cons] at h
    obtain ⟨before', rfl, hrest⟩ | ⟨w, hw, hafter⟩ := List.append_eq_append_iff.1 h
    · obtain ⟨ds, k, es, a, b, rfl, hk, rfl, rfl⟩ := ih hrest
      exact ⟨d :: ds, k, es, a, b, rfl, hk, by simp [write], rfl⟩
    · cases w with
      | cons x b =>
        cases hafter
        exact ⟨[], d, cs, before, b, rfl, hw, rfl, rfl⟩
      | nil =>
        -- the character is the first one behind what is written for `d`
        rw [List.append_nil] at hw
        have hrest : code.write cs = [] ++ c :: after := hafter.symm
        obtain ⟨ds, k, es, a, b, rfl, hk, hbefore, rfl⟩ := ih hrest
        refine ⟨d :: ds, k, es, a, b, rfl, hk, ?_, rfl⟩
        rw [write, List.flatMap_cons, ← write, List.append_assoc, ← hbefore, List.append_nil, hw]

/-! ### Reading -/

theorem ne_nil_of_mem (h : (c, w) ∈ code.table) : w ≠ [] := by
  rintro rfl
  cases code.starts _ h

/-- A sequence is read as its character. -/
theorem read_append (h : (c, w) ∈ code.table) (rest : List Char) :
    code.read (w ++ rest) = c :: code.read rest := by
  rw [← List.singleton_append]
  apply fillAll_of_find?_eq_some (ne_nil_of_mem h)
  cases hfind : (code.table.map fun e => (e.2, [e.1])).find?
      (fun e => e.1.isPrefixOf (w ++ rest)) with
  | none =>
    have hnot := List.find?_eq_none.1 hfind (w, [c])
      (List.mem_map_of_mem (f := fun e : Char × List Char => (e.2, [e.1])) h)
    simp at hnot
  | some e =>
    obtain ⟨v, value⟩ := e
    obtain ⟨hmem, hstart⟩ := exists_append_of_find? hfind
    obtain ⟨⟨d, v'⟩, hd, heq⟩ := List.mem_map.1 hmem
    cases heq
    -- both sequences start the text, and so one of them starts the other
    obtain hp | hp := List.prefix_or_prefix_of_prefix hstart (List.prefix_append w rest)
    · cases code.prefixFree _ hd _ h hp
      rfl
    · cases code.prefixFree _ h _ hd hp
      rfl

/-- Where no sequence starts, a character is read as itself. -/
theorem read_cons (h : c ≠ code.mark) (rest : List Char) :
    code.read (c :: rest) = c :: code.read rest := by
  apply fillAll_of_find?_eq_none
  apply List.find?_eq_none.2
  intro e he hp
  obtain ⟨f, hf, rfl⟩ := List.mem_map.1 he
  obtain ⟨tail, htail⟩ := List.isPrefixOf_iff_prefix.1 hp
  have hhead : (f.2 ++ tail).head? = some c := congrArg List.head? htail
  rw [List.head?_append, code.starts f hf] at hhead
  exact h (Option.some.inj hhead).symm

/-- What is written is read as it was. -/
theorem read_write (code : EscapeCode) (cs : List Char) : code.read (code.write cs) = cs := by
  induction cs with
  | nil => rfl
  | cons c cs ih =>
    rw [write, List.flatMap_cons, ← write]
    by_cases hc : c ∈ code.specials
    · rw [read_append (mem_table hc), ih]
    · have hne : c ≠ code.mark := by
        rintro rfl
        exact hc code.mark_mem
      rw [writeChar_of_notMem hc, List.singleton_append, read_cons hne, ih]

/-- A writer that writes what the code does keeps to the code. -/
theorem encodes {escape : String → String}
    (h : ∀ s, (escape s).toList = code.write s.toList) : code.Encodes escape where
  read_escape s := by rw [h, read_write]
  injective s t heq := by
    have hwrite : code.write s.toList = code.write t.toList := by rw [← h, ← h, heq]
    have hread := congrArg code.read hwrite
    rw [read_write, read_write] at hread
    exact String.toList_inj.1 hread
  escape_append s t := by
    rw [← String.toList_inj, String.toList_append, h, h, h, String.toList_append, write,
      List.flatMap_append, ← write, ← write]
  in_sequence s before c after heq hc := by
    rw [h] at heq
    obtain ⟨cs, k, ds, a, b, hs, hk, rfl, rfl⟩ := code.exists_of_write_eq heq
    exact ⟨cs, k, ds, a, b, hs, mem_table_of_writeChar_eq hc hk, by simp [h], by simp [h]⟩

end

end EscapeCode

open EscapeCode

/-! ### HTML -/

namespace Html

def entities : EscapeCode where
  mark := '&'
  table := [('&', "&amp;".toList), ('<', "&lt;".toList), ('>', "&gt;".toList),
    ('"', "&quot;".toList), ('\'', "&#39;".toList)]
  starts := by decide
  mark_mem := by decide
  prefixFree := by decide

theorem escapeChar_eq_writeChar (c : Char) : escapeChar c = entities.writeChar c := by
  unfold escapeChar
  split
  case h_6 => exact (writeChar_of_notMem (by simp_all [specials, entities])).symm
  all_goals rfl

theorem encodes_escape : entities.Encodes escape := by
  apply encodes
  intro s
  rw [escape, String.toList_ofList, write, funext escapeChar_eq_writeChar]

/-- The only special character of an entity is the ampersand at its start. -/
theorem eq_of_mem_entities {k c : Char} {a b : List Char}
    (h : (k, a ++ c :: b) ∈ entities.table) (hc : c ∈ entities.specials) : a = [] ∧ c = '&' := by
  cases a with
  | nil =>
    have hstart : some c = some '&' := entities.starts _ h
    exact ⟨rfl, Option.some.inj hstart⟩
  | cons d a =>
    have htails : entities.table.all
        (fun e => e.2.tail.all fun x => !entities.specials.contains x) = true := by decide
    have hnot := List.all_eq_true.1 (List.all_eq_true.1 htails _ h) c (by simp)
    simp [hc] at hnot

/-- Of the special characters, only the ampersand occurs in escaped text. -/
theorem eq_of_mem_escape {s : String} {c : Char} (hc : c ∈ entities.specials)
    (h : c ∈ (escape s).toList) : c = '&' := by
  obtain ⟨before, after, heq⟩ := List.append_of_mem h
  obtain ⟨-, k, -, a, b, -, hmem, -⟩ := encodes_escape.in_sequence s before c after heq hc
  exact (eq_of_mem_entities hmem hc).2

/-- An ampersand in escaped text starts an entity. -/
theorem exists_entity_prefix {s : String} {before after : List Char}
    (h : (escape s).toList = before ++ '&' :: after) :
    ∃ e ∈ entities.table, e.2 <+: '&' :: after := by
  have hamp : '&' ∈ entities.specials := by decide
  obtain ⟨-, k, ds, a, b, -, hmem, -, rfl⟩ := encodes_escape.in_sequence s before '&' after h hamp
  obtain ⟨rfl, -⟩ := eq_of_mem_entities hmem hamp
  exact ⟨_, hmem, _, List.append_assoc ['&'] b _⟩

end Html

/-! ### LaTeX -/

namespace Latex

def sequences : EscapeCode where
  mark := '\\'
  table := [('\\', "\\textbackslash\x7b\x7d".toList), ('\x7b', "\\\x7b".toList),
    ('\x7d', "\\\x7d".toList), ('$', "\\$".toList), ('&', "\\&".toList), ('#', "\\#".toList),
    ('%', "\\%".toList), ('_', "\\_".toList), ('^', "\\textasciicircum\x7b\x7d".toList),
    ('~', "\\textasciitilde\x7b\x7d".toList)]
  starts := by decide
  mark_mem := by decide
  prefixFree := by decide

theorem escapeChar_eq_writeChar (c : Char) : escapeChar c = sequences.writeChar c := by
  unfold escapeChar
  split
  case h_11 => exact (writeChar_of_notMem (by simp_all [specials, sequences])).symm
  all_goals rfl

theorem encodes_escape : sequences.Encodes escape := by
  apply encodes
  intro s
  rw [escape, String.toList_ofList, write, funext escapeChar_eq_writeChar]

/-- The braces of a text as brackets, but for those behind a backslash, which escapes the character
behind it. -/
def bareBraces : List Char → List (Bracket Unit)
  | '\\' :: _ :: cs => bareBraces cs
  | '\x7b' :: cs => .opening () :: bareBraces cs
  | '\x7d' :: cs => .closing () :: bareBraces cs
  | _ :: cs => bareBraces cs
  | [] => []

/-- The braces of a sequence are balanced, and none of them is escaped by what stands before. -/
theorem exists_bareBraces_escapeChar (c : Char) :
    ∃ bs, Balanced bs ∧ ∀ rest, bareBraces (escapeChar c ++ rest) = bs ++ bareBraces rest := by
  unfold escapeChar
  split
  case h_1 | h_9 | h_10 => exact ⟨[.opening (), .closing ()], rfl, fun _ => rfl⟩
  case h_11 =>
    refine ⟨[], rfl, ?_⟩
    intro rest
    rw [List.singleton_append, bareBraces.eq_def]
    split <;> simp_all
  all_goals exact ⟨[], rfl, fun _ => rfl⟩

theorem balanced_bareBraces_escape (s : String) : Balanced (bareBraces (escape s).toList) := by
  rw [escape, String.toList_ofList]
  induction s.toList with
  | nil => rfl
  | cons c cs ih =>
    obtain ⟨bs, hbs, heq⟩ := exists_bareBraces_escapeChar c
    rw [List.flatMap_cons, heq]
    exact hbs.append ih

end Latex

/-- Escaped text is read as the text that it was, in HTML by the five entities and in LaTeX by the
ten sequences. It is written piece by piece, and it has special characters in sequences only: in
HTML none but the ampersands that start entities. Braces that LaTeX does not see as escaped are
balanced. -/
theorem escapes_are_faithful :
    Html.entities.Encodes Html.escape ∧ Latex.sequences.Encodes Latex.escape ∧
    (∀ s : String, ∀ c ∈ ['<', '>', '"', '\''], c ∉ (Html.escape s).toList) ∧
    (∀ (s : String) (before after : List Char), (Html.escape s).toList = before ++ '&' :: after →
      ∃ e ∈ Html.entities.table, e.2 <+: '&' :: after) ∧
    ∀ s : String, Balanced (Latex.bareBraces (Latex.escape s).toList) := by
  refine ⟨Html.encodes_escape, Latex.encodes_escape, ?_, ?_, Latex.balanced_bareBraces_escape⟩
  · intro s c hc hmem
    simp only [List.mem_cons, List.not_mem_nil, or_false] at hc
    obtain rfl | rfl | rfl | rfl := hc
    all_goals exact absurd (Html.eq_of_mem_escape (by decide) hmem) (by decide)
  · intro s before after h
    exact Html.exists_entity_prefix h

/-- A brace that LaTeX reads in the sequence for a backslash, and an entity. -/
theorem escapes_of_backslash_are_faithful :
    ((Latex.escape "\\\x7b").toList = "\\textbackslash".toList ++ '\x7b' :: "\x7d\\\x7b".toList ∧
      '\x7b' ∈ Latex.sequences.specials ∧
      ∃ cs k ds a b, "\\\x7b".toList = cs ++ k :: ds ∧
        (k, a ++ '\x7b' :: b) ∈ Latex.sequences.table ∧
        "\\textbackslash".toList = (Latex.escape (String.ofList cs)).toList ++ a ∧
        "\x7d\\\x7b".toList = b ++ (Latex.escape (String.ofList ds)).toList) ∧
    '<' ∉ (Html.escape "<&").toList ∧
    (Html.escape "<&").toList = "&lt;".toList ++ '&' :: "amp;".toList ∧
      ∃ e ∈ Html.entities.table, e.2 <+: '&' :: "amp;".toList := by
  obtain ⟨-, hlatex, hhtml, hentity, -⟩ := escapes_are_faithful
  have hbrace : (Latex.escape "\\\x7b").toList =
      "\\textbackslash".toList ++ '\x7b' :: "\x7d\\\x7b".toList := by decide
  have hamp : (Html.escape "<&").toList = "&lt;".toList ++ '&' :: "amp;".toList := by decide
  exact ⟨⟨hbrace, by decide, hlatex.in_sequence _ _ _ _ hbrace (by decide)⟩,
    hhtml _ '<' (by decide), hamp, hentity _ _ _ hamp⟩

end LiterateJournal
