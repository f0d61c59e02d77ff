import LiterateJournal.Proofs.Output.LatexFragment
import LiterateJournal.Proofs.Output.Parts

/-!
# The tokens of a LaTeX page

What a document is read as once it has been written: commands, groups and environments, in which the
text of the document stands.

## Main definitions

* `Part.Contained` — a block or a span that keeps to its place.
* `Latex.tokensOfBlocks` — what a document is read as.

## Main statements

* `Latex.written_blocks`, `Latex.read_writeBlocks` — a document whose parts are contained is read as
  its tokens.
-/

namespace LiterateJournal

/-! ### Parts that are not escaped -/

/-- Mathematics, which the writer passes through. -/
def Part.isMath : Part → Bool
  | .block (.math _) | .span (.math _ _) => true
  | _ => false

/-- The address in a link or an image, if it leads anywhere. -/
def Part.address? (links : LinkTable) : Part → Option String
  | .span (.link _ url _) | .span (.image _ url _) => some url
  | .span (.linkReference _ _ key) | .span (.imageReference _ _ key) =>
    (links.get? key).map LinkTarget.url
  | _ => none

def Part.code? : Part → Option String
  | .block (.code source _) => some source
  | _ => none

def addressesIn (links : LinkTable) (blocks : List Block) : List String :=
  (partsOf blocks).filterMap (Part.address? links)

def codesIn (blocks : List Block) : List String := (partsOf blocks).filterMap Part.code?

/-- A part without markup and mathematics, whose address keeps to its braces and whose code does not
end the environment in which it stands. -/
structure Part.Contained (links : LinkTable) (p : Part) : Prop where
  isRaw : p.isRaw = false
  isMath : p.isMath = false
  closed : ∀ url ∈ p.address? links, Latex.Closed url
  clear : ∀ code ∈ p.code?, ¬ Latex.endMark <:+: code.toList

namespace Latex

/-! ### The tokens of a document -/

def commandTokens (name : String) (ts : List Token) : List Token :=
  .command name :: groupTokens ts

section

variable (links : LinkTable)

mutual

def tokensOfSpan : Span → List Token
  | .text s => textTokens s
  | .code s => commandTokens "texttt" (textTokens s)
  | .strong body => commandTokens "textbf" (tokensOfSpans body)
  | .emphasis body => commandTokens "emph" (tokensOfSpans body)
  | .math _ _ | .raw _ => []
  | .link body url _ => .command "href" :: addressTokens url ++ groupTokens (tokensOfSpans body)
  | .linkReference body written key =>
    match links.get? key with
    | some target =>
      .command "href" :: addressTokens target.url ++ groupTokens (tokensOfSpans body)
    | none => textTokens written
  | .image _ url _ => .command "includegraphics" :: addressTokens url
  | .imageReference _ written key =>
    match links.get? key with
    | some target => .command "includegraphics" :: addressTokens target.url
    | none => textTokens written
  | .lineBreak => [.command "\\"]

def tokensOfSpans : List Span → List Token
  | [] => []
  | s :: rest => tokensOfSpan s ++ tokensOfSpans rest

end

def sectionTokens (level : UInt8) : List Token :=
  match level.toNat with
  | 0 | 1 => [.command "section", .char '*']
  | 2 => [.command "subsection", .char '*']
  | 3 => [.command "subsubsection", .char '*']
  | 4 => [.command "paragraph"]
  | _ => [.command "subparagraph"]

def ruleTokens : List Token :=
  .command "noindent" :: .command "rule" :: addressTokens "\\linewidth" ++
    groupTokens (textTokens "0.4pt")

/-- The tokens of the line that sets the number before the first one. -/
def counterTokens : ListKind → List Token
  | .numbered start =>
    if start = 1 then []
    else commandTokens "setcounter" (textTokens "enumi") ++
      groupTokens (textTokens (toString (start.toNat - 1)))
  | .bulleted => []

mutual

def tokensOfBlock : Block → List Token
  | .heading level body => sectionTokens level ++ groupTokens (tokensOfSpans links body)
  | .paragraph body => tokensOfSpans links body
  | .code source _ => [.verbatim ("\n" ++ source ++ "\n")]
  | .raw _ | .math _ => []
  | .rule => ruleTokens
  | .list kind items =>
    environmentTokens (listEnvironment kind) (counterTokens kind ++ tokensOfItems items)
  | .quote body => environmentTokens "quote" (tokensOfBlocks body)
  | .table alignments header rows =>
    let head := if header.isEmpty then [] else
      tokensOfCells header ++ [.command "\\", .command "hline"]
    environmentTokens "tabular"
      (groupTokens (textTokens (columnLetters (columnCount header rows) alignments)) ++
        (head ++ tokensOfRows rows))

def tokensOfBlocks : List Block → List Token
  | [] => []
  | b :: bs => tokensOfBlock b ++ tokensOfBlocks bs

def tokensOfItems : List (List Block) → List Token
  | [] => []
  | item :: items => .command "item" :: tokensOfBlocks item ++ tokensOfItems items

/-- The tokens of the cells of a row, with ampersands between them. -/
def tokensOfCells : List (List Block) → List Token
  | [] => []
  | [cell] => tokensOfBlocks cell
  | cell :: next :: rest => tokensOfBlocks cell ++ .char '&' :: tokensOfCells (next :: rest)

def tokensOfRows : List (List (List Block)) → List Token
  | [] => []
  | row :: rows => tokensOfCells row ++ .command "\\" :: tokensOfRows rows

end

end

/-! ### The tokens of spans -/

def inlineCommands : List String :=
  ["texttt", "textbf", "emph", "href", "includegraphics", "\\"] ++ characterCommands

/-- A property of the tokens that spans are written with. -/
structure HoldsInline (P : Token → Prop) : Prop where
  char : ∀ c, P (.char c)
  leftBrace : P .leftBrace
  rightBrace : P .rightBrace
  command : ∀ name ∈ inlineCommands, P (.command name)

namespace HoldsInline

variable {P : Token → Prop} {ts us : List Token} {links : LinkTable}

theorem text (hP : HoldsInline P) (s : String) : ∀ t ∈ textTokens s, P t := by
  intro t ht
  obtain ⟨c, rfl⟩ | rfl | rfl | ⟨name, hname, rfl⟩ := cases_of_mem_textTokens ht
  · exact hP.char c
  · exact hP.leftBrace
  · exact hP.rightBrace
  · exact hP.command name (List.mem_append_right _ hname)

theorem group (hP : HoldsInline P) (h : ∀ t ∈ ts, P t) : ∀ t ∈ groupTokens ts, P t := by
  rw [groupTokens, List.forall_mem_append, List.forall_mem_cons, List.forall_mem_singleton]
  exact ⟨⟨hP.leftBrace, h⟩, hP.rightBrace⟩

theorem cons (hP : HoldsInline P) {name : String} (hname : name ∈ inlineCommands)
    (h : ∀ t ∈ ts, P t) : ∀ t ∈ .command name :: ts, P t :=
  List.forall_mem_cons.2 ⟨hP.command name hname, h⟩

theorem link (hP : HoldsInline P) (h : ∀ t ∈ ts, P t) (hu : ∀ t ∈ us, P t) :
    ∀ t ∈ .command "href" :: ts ++ groupTokens us, P t :=
  hP.cons (by decide) (List.forall_mem_append.2 ⟨h, hP.group hu⟩)

mutual

theorem span (hP : HoldsInline P) : (s : Span) →
    (∀ t ∈ s.withInner, ∀ url ∈ (Part.span t).address? links, ∀ u ∈ addressTokens url, P u) →
    ∀ t ∈ tokensOfSpan links s, P t
  | .text s, _ => hP.text s
  | .code s, _ => hP.cons (by decide) (hP.group (hP.text s))
  | .strong body, h | .emphasis body, h =>
    hP.cons (by decide) (hP.group (spans hP body fun t ht => h t (List.mem_append_left _ ht)))
  | .math _ _, _ | .raw _, _ => List.forall_mem_nil _
  | .link body url title, h =>
    hP.link (h (.link body url title) (List.mem_append_right _ List.mem_cons_self) url rfl)
      (spans hP body fun t ht => h t (List.mem_append_left _ ht))
  | .linkReference body written key, h => by
    have hurl := h (.linkReference body written key) (List.mem_append_right _ List.mem_cons_self)
    rw [Part.address?] at hurl
    rw [tokensOfSpan]
    cases hkey : links.get? key with
    | some target =>
      exact hP.link (hurl target.url (by rw [hkey]; rfl))
        (spans hP body fun t ht => h t (List.mem_append_left _ ht))
    | none => exact hP.text written
  | .image alt url title, h =>
    hP.cons (by decide) (h (.image alt url title) List.mem_cons_self url rfl)
  | .imageReference alt written key, h => by
    have hurl := h (.imageReference alt written key) List.mem_cons_self
    rw [Part.address?] at hurl
    rw [tokensOfSpan]
    cases hkey : links.get? key with
    | some target => exact hP.cons (by decide) (hurl target.url (by rw [hkey]; rfl))
    | none => exact hP.text written
  | .lineBreak, _ => hP.cons (by decide) (List.forall_mem_nil _)

theorem spans (hP : HoldsInline P) : (spans : List Span) →
    (∀ t ∈ innerSpans spans, ∀ url ∈ (Part.span t).address? links,
      ∀ u ∈ addressTokens url, P u) →
    ∀ t ∈ tokensOfSpans links spans, P t
  | [], _ => List.forall_mem_nil _
  | s :: rest, h =>
    List.forall_mem_append.2 ⟨span hP s fun t ht => h t (List.mem_append_left _ ht),
      HoldsInline.spans hP rest fun t ht => h t (List.mem_append_right _ ht)⟩

end

end HoldsInline

/-! ### A document is read as its tokens -/

instance (name : String) : Decidable (IsWord name) :=
  decidable_of_iff
    (name ≠ "" ∧ name.toList.all Char.isAlpha = true ∧ name ≠ "begin" ∧ name ≠ "end")
    ⟨fun ⟨hne, halpha, hbegin, hend⟩ => ⟨hne, List.all_eq_true.1 halpha, hbegin, hend⟩,
      fun ⟨hne, halpha, hbegin, hend⟩ => ⟨hne, List.all_eq_true.2 halpha, hbegin, hend⟩⟩

instance (name : String) : Decidable (IsEnvironment name) :=
  decidable_of_iff (name.toList.all Char.isAlpha = true ∧ name ≠ "verbatim")
    ⟨fun ⟨halpha, hne⟩ => ⟨List.all_eq_true.1 halpha, hne⟩,
      fun ⟨halpha, hne⟩ => ⟨List.all_eq_true.2 halpha, hne⟩⟩

theorem closed_linewidth : Closed "\\linewidth" := ⟨rfl, by decide, rfl⟩

theorem escape_eq_self {s : String} (h : ∀ c ∈ s.toList, escapeChar c = [c]) : escape s = s := by
  rw [escape, ← String.toList_inj, String.toList_ofList, List.flatMap_def,
    List.map_congr_left h, ← List.flatMap_def, List.flatMap_singleton']

theorem toList_command (name argument : String) :
    (command name argument).toList =
      '\\' :: name.toList ++ ('\x7b' :: argument.toList ++ ['\x7d']) := by
  simp [command, Latex.group]

namespace Written

variable {s : String} {w : List Char} {ts : List Token}

/-- Text that needs no escape. -/
theorem plain (h : escape s = s) : Written s.toList (textTokens s) := by
  have htext := Written.text s
  rwa [h] at htext

/-- White space behind a fragment. -/
theorem space (h : Written w ts) {v : List Char} (hv : IsSpace v) :
    Written (w ++ v) ts := by
  simpa using h.append (.blanks hv)

/-- White space before a fragment. -/
theorem afterSpace (h : Written w ts) {v : List Char} (hv : IsSpace v) :
    Written (v ++ w) ts :=
  .append (.blanks hv) h

theorem braces (h : Written s.toList ts) : Written (Latex.group s).toList (groupTokens ts) := by
  simpa [Latex.group] using h.group

theorem command {name : String} (hname : IsWord name) (h : Written s.toList ts) :
    Written (Latex.command name s).toList (commandTokens name ts) := by
  rw [toList_command]
  exact .word hname (by decide) h.group

/-- A command whose argument is an address. -/
theorem addressed {name url : String} (hname : IsWord name) (hurl : Closed url) :
    Written (Latex.command name url).toList (.command name :: addressTokens url) := by
  have haddress := Written.address hurl
  have hgroup : (Latex.group url).toList = '\x7b' :: (url.toList ++ ['\x7d']) := by
    simp [Latex.group]
  rw [hgroup] at haddress
  rw [toList_command]
  exact .word hname (by decide) haddress

theorem link {url : String} (hurl : Closed url) (h : Written s.toList ts) :
    Written (Latex.link url s).toList (.command "href" :: addressTokens url ++ groupTokens ts) := by
  rw [Latex.link, String.toList_append]
  exact .append (.addressed (by decide) hurl) h.braces

/-- Text without the white space at its end, at the end of a line. -/
theorem trimLine (h : Written s.toList ts) : Written (Latex.trimEnd s ++ "\n").toList ts := by
  rw [Latex.trimEnd, String.toList_append, String.toList_ofList]
  exact h.trimEnd (by decide)

theorem trimSpace (h : Written s.toList ts) : Written ((Latex.trim s).toList ++ [' ']) ts := by
  rw [Latex.trim, String.toList_ofList]
  exact h.trimStart.trimEnd (by decide)

theorem environmentBlock {name options body : String} (hname : IsEnvironment name)
    (h : Written (options ++ "\n" ++ body).toList ts) :
    Written (Latex.environment name options body).toList (environmentTokens name ts) := by
  have henv := (environment hname h).space (v := "\n\n".toList) (by decide)
  simpa [Latex.environment] using henv

/-- Text between line feeds, in a verbatim environment. -/
theorem verbatimBlock {code : String} (h : ¬ endMark <:+: code.toList) :
    Written (Latex.environment "verbatim" "" (code ++ "\n")).toList
      [.verbatim ("\n" ++ code ++ "\n")] := by
  have hclear : ClearOfMark ("\n" ++ code ++ "\n").toList := by
    refine clearOfMark_of_not_infix ?_
    rw [String.toList_append, String.toList_append]
    exact fun hmark => h (infix_lines_iff.1 hmark)
  have hverbatim := (verbatim hclear).space (v := "\n\n".toList) (by decide)
  rw [String.ofList_toList] at hverbatim
  have hend : (Latex.command "end" "verbatim").toList = endMark := by decide
  simpa [Latex.environment, hend] using hverbatim

end Written

section

variable {links : LinkTable}

mutual

theorem written_span : (s : Span) → (∀ t ∈ s.withInner, (Part.span t).Contained links) →
    Written (writeSpan links s).toList (tokensOfSpan links s)
  | .text s, _ => .text s
  | .code s, _ => .command (by decide) (.text s)
  | .strong body, h =>
    .command (by decide) (written_spans body fun t ht => h t (List.mem_append_left _ ht))
  | .emphasis body, h =>
    .command (by decide) (written_spans body fun t ht => h t (List.mem_append_left _ ht))
  | .math source display, h => by
    simpa [Part.isMath] using (h (.math source display) List.mem_cons_self).isMath
  | .raw s, h => by simpa [Part.isRaw] using (h (.raw s) List.mem_cons_self).isRaw
  | .link body url title, h =>
    .link ((h (.link body url title) (List.mem_append_right _ List.mem_cons_self)).closed url rfl)
      (written_spans body fun t ht => h t (List.mem_append_left _ ht))
  | .linkReference body written key, h => by
    have hclosed := (h (.linkReference body written key)
      (List.mem_append_right _ List.mem_cons_self)).closed
    rw [writeSpan, tokensOfSpan]
    rw [Part.address?] at hclosed
    cases hkey : links.get? key with
    | some target =>
      exact .link (hclosed target.url (by rw [hkey]; rfl))
        (written_spans body fun t ht => h t (List.mem_append_left _ ht))
    | none => exact .text written
  | .image alt url title, h =>
    .addressed (by decide) ((h (.image alt url title) List.mem_cons_self).closed url rfl)
  | .imageReference alt written key, h => by
    have hclosed := (h (.imageReference alt written key) List.mem_cons_self).closed
    rw [writeSpan, tokensOfSpan]
    rw [Part.address?] at hclosed
    cases hkey : links.get? key with
    | some target => exact .addressed (by decide) (hclosed target.url (by rw [hkey]; rfl))
    | none => exact .text written
  | .lineBreak, _ => by
    have hline := Written.lineBreak.space (v := ['\n']) (by decide)
    rwa [writeSpan, tokensOfSpan]

theorem written_spans : (spans : List Span) →
    (∀ t ∈ innerSpans spans, (Part.span t).Contained links) →
    Written (writeSpans links spans).toList (tokensOfSpans links spans)
  | [], _ => .blanks (by simp [writeSpans])
  | s :: rest, h => by
    rw [writeSpans, tokensOfSpans, String.toList_append]
    exact .append (written_span s fun t ht => h t (List.mem_append_left _ ht))
      (written_spans rest fun t ht => h t (List.mem_append_right _ ht))

end

theorem written_sectioning (level : UInt8) {s : String} {ts : List Token}
    (h : Written s.toList ts) :
    Written (command (sectioning level) s).toList (sectionTokens level ++ groupTokens ts) := by
  have hstar {name starred : String} (hname : IsWord name)
      (hstarred : starred.toList = name.toList ++ ['*']) :
      Written (command starred s).toList ([.command name, .char '*'] ++ groupTokens ts) := by
    have hchar : Written ['*'] [.char '*'] := .char rfl
    rw [toList_command, hstarred, List.cons_append, List.append_assoc,
      ← List.cons_append]
    exact .word hname (by decide) (.append hchar h.group)
  rw [sectioning, sectionTokens]
  match level.toNat with
  | 0 | 1 | 2 | 3 => exact hstar (by decide) (by decide)
  | 4 => exact .command (by decide) h
  | n + 5 => exact .command (by decide : IsWord "subparagraph") h

theorem written_rule : Written (writeBlock links .rule).toList ruleTokens := by
  have hrule : Written (command "rule" "\\linewidth").toList
      (.command "rule" :: addressTokens "\\linewidth") := .addressed (by decide) closed_linewidth
  have hheight : Written (Latex.group "0.4pt").toList (groupTokens (textTokens "0.4pt")) :=
    (Written.plain (by decide)).braces
  have hlast := (hrule.append hheight).space (v := "\n\n".toList) (by decide)
  rw [toList_command, List.cons_append, List.cons_append, List.cons_append,
    List.cons_append] at hlast
  have hall := Written.word (by decide : IsWord "noindent") (by decide) hlast
  have hname : "\\noindent".toList = '\\' :: "noindent".toList := by decide
  rw [writeBlock, String.toList_append, String.toList_append, String.toList_append,
    toList_command, hname, ruleTokens]
  simpa only [List.cons_append, List.append_assoc] using hall

theorem isDigit_of_mem_toString {n : Nat} {c : Char} (h : c ∈ (toString n).toList) :
    c.isDigit = true := by
  rw [Nat.toString_eq_repr, Nat.toList_repr] at h
  exact Nat.isDigit_of_mem_toDigits (by decide) (by decide) h

/-- A digit needs no escape. -/
theorem escapeChar_of_isDigit {c : Char} (h : c.isDigit = true) : escapeChar c = [c] := by
  unfold escapeChar
  split
  case h_11 => rfl
  all_goals exact absurd h (by decide)

theorem written_counterLine (kind : ListKind) :
    Written (counterLine kind).toList (counterTokens kind) := by
  cases kind with
  | bulleted => exact .blanks (by simp [counterLine])
  | numbered start =>
    rw [counterLine, counterTokens]
    split
    · exact .blanks (by simp)
    · have hname : Written (command "setcounter" "enumi").toList
          (commandTokens "setcounter" (textTokens "enumi")) :=
        .command (by decide) (.plain (by decide))
      have hnumber : Written (Latex.group (toString (start.toNat - 1))).toList
          (groupTokens (textTokens (toString (start.toNat - 1)))) :=
        (Written.plain (escape_eq_self fun c hc =>
          escapeChar_of_isDigit (isDigit_of_mem_toString hc))).braces
      have hall := (hname.append hnumber).space (v := ['\n']) (by decide)
      simpa [command] using hall

theorem isEnvironment_listEnvironment (kind : ListKind) :
    IsEnvironment (listEnvironment kind) := by
  cases kind with
  | bulleted => exact (by decide : IsEnvironment "itemize")
  | numbered start => exact (by decide : IsEnvironment "enumerate")

theorem written_columns (n : Nat) (alignments : List Alignment) :
    Written (Latex.group (columnLetters n alignments)).toList
      (groupTokens (textTokens (columnLetters n alignments))) := by
  refine (Written.plain (escape_eq_self fun c hc => ?_)).braces
  rw [columnLetters, String.toList_ofList] at hc
  obtain ⟨i, -, rfl⟩ := List.mem_map.1 hc
  split <;> rfl

theorem written_head {s : String} {ts : List Token} (h : Written (s.toList ++ [' ']) ts) :
    Written (s ++ " \\\\ \\hline\n").toList (ts ++ [.command "\\", .command "hline"]) := by
  have hline : Written ('\\' :: "hline".toList ++ ['\n']) [.command "hline"] :=
    .word (by decide) (by decide) (.blanks (by decide))
  have hall := (h.append .lineBreak).append (hline.afterSpace (v := [' ']) (by decide))
  simpa using hall

theorem written_line {s : String} {ts : List Token} (h : Written (s.toList ++ [' ']) ts) :
    Written (s ++ " \\\\\n").toList (ts ++ [.command "\\"]) := by
  have hall := (h.append .lineBreak).space (v := ['\n']) (by decide)
  simpa using hall

mutual

theorem written_block : (b : Block) → (∀ p ∈ b.parts, p.Contained links) →
    Written (writeBlock links b).toList (tokensOfBlock links b)
  | .heading level body, h => by
    have hbody := written_spans body fun t ht =>
      h (.span t) (List.mem_cons_of_mem _ (List.mem_map_of_mem ht))
    rw [writeBlock, tokensOfBlock, String.toList_append]
    exact (written_sectioning level hbody).space (by decide)
  | .paragraph body, h => by
    have hbody := written_spans body fun t ht =>
      h (.span t) (List.mem_cons_of_mem _ (List.mem_map_of_mem ht))
    rw [writeBlock, tokensOfBlock, String.toList_append]
    exact hbody.space (by decide)
  | .code source language, h => by
    have hclear := (h (.block (.code source language)) (by simp [Block.parts])).clear source rfl
    rw [writeBlock, tokensOfBlock]
    exact .verbatimBlock hclear
  | .raw markup, h => by
    simpa [Part.isRaw] using (h (.block (.raw markup)) (by simp [Block.parts])).isRaw
  | .math source, h => by
    simpa [Part.isMath] using (h (.block (.math source)) (by simp [Block.parts])).isMath
  | .rule, _ => by
    rw [tokensOfBlock]
    exact written_rule
  | .list kind items, h => by
    have hitems := written_items items fun p hp => h p (List.mem_cons_of_mem _ hp)
    have hbody := ((written_counterLine kind).append hitems).afterSpace (v := ['\n']) (by decide)
    rw [writeBlock, tokensOfBlock]
    exact .environmentBlock (isEnvironment_listEnvironment kind) (by simpa using hbody)
  | .quote body, h => by
    have hbody := written_blocks body fun p hp => h p (List.mem_cons_of_mem _ hp)
    rw [writeBlock, tokensOfBlock]
    refine .environmentBlock (by decide) ?_
    simpa using hbody.trimLine.afterSpace (v := ['\n']) (by decide)
  | .table alignments header rows, h => by
    have hheader := written_cells header
      fun p hp => h p (List.mem_cons_of_mem _ (List.mem_append_left _ hp))
    have hrows := written_rows rows
      fun p hp => h p (List.mem_cons_of_mem _ (List.mem_append_right _ hp))
    have hcolumns := written_columns (columnCount header rows) alignments
    have hhead : Written (if header.isEmpty then "" else
        joinCells (writeCells links header) ++ " \\\\ \\hline\n").toList
        (if header.isEmpty then [] else
          tokensOfCells links header ++ [.command "\\", .command "hline"]) := by
      split
      · exact .blanks (by simp)
      · exact written_head hheader
    rw [writeBlock, tokensOfBlock]
    refine .environmentBlock (by decide) ?_
    simpa using hcolumns.append ((hhead.append hrows).afterSpace (v := ['\n']) (by decide))

/-- A document whose parts are contained is read as its tokens. -/
theorem written_blocks : (blocks : List Block) → (∀ p ∈ partsOf blocks, p.Contained links) →
    Written (writeBlocks links blocks).toList (tokensOfBlocks links blocks)
  | [], _ => by
    rw [writeBlocks, tokensOfBlocks]
    exact .blanks (by simp)
  | b :: bs, h => by
    rw [writeBlocks, tokensOfBlocks, String.toList_append]
    exact .append (written_block b fun p hp => h p (List.mem_append_left _ hp))
      (written_blocks bs fun p hp => h p (List.mem_append_right _ hp))

theorem written_items : (items : List (List Block)) →
    (∀ p ∈ partsInCells items, p.Contained links) →
    Written (writeItems links items).toList (tokensOfItems links items)
  | [], _ => by
    rw [writeItems, tokensOfItems]
    exact .blanks (by simp)
  | item :: items, h => by
    have hitem := written_blocks item fun p hp => h p (List.mem_append_left _ hp)
    have hitems := written_items items fun p hp => h p (List.mem_append_right _ hp)
    have hline := Written.word (by decide : IsWord "item") (by decide)
      (hitem.trimLine.afterSpace (v := [' ']) (by decide))
    rw [writeItems, tokensOfItems]
    simpa using hline.append hitems

theorem written_cells : (cells : List (List Block)) →
    (∀ p ∈ partsInCells cells, p.Contained links) →
    Written ((joinCells (writeCells links cells)).toList ++ [' ']) (tokensOfCells links cells)
  | [], _ => by
    rw [writeCells, tokensOfCells]
    exact .blanks (by decide)
  | [cell], h => by
    have hcell := written_blocks cell fun p hp => h p (List.mem_append_left _ hp)
    rw [writeCells, writeCells, tokensOfCells]
    exact hcell.trimSpace
  | cell :: next :: rest, h => by
    have hcell := written_blocks cell fun p hp => h p (List.mem_append_left _ hp)
    have hcells := written_cells (next :: rest) fun p hp => h p (List.mem_append_right _ hp)
    have hmark : Written ['&', ' '] [.char '&'] :=
      .space (.char rfl) (v := [' ']) (by decide)
    have hjoin : joinCells (writeCells links (cell :: next :: rest)) =
        trim (writeBlocks links cell) ++ " & " ++ joinCells (writeCells links (next :: rest)) := by
      rw [writeCells, writeCells]
      rfl
    rw [hjoin, tokensOfCells]
    simpa using (hcell.trimSpace.append hmark).append hcells

theorem written_rows : (rows : List (List (List Block))) →
    (∀ p ∈ partsInRows rows, p.Contained links) →
    Written (writeRows links rows).toList (tokensOfRows links rows)
  | [], _ => by
    rw [writeRows, tokensOfRows]
    exact .blanks (by simp)
  | row :: rows, h => by
    have hrow := written_cells row fun p hp => h p (List.mem_append_left _ hp)
    have hrows := written_rows rows fun p hp => h p (List.mem_append_right _ hp)
    rw [writeRows, tokensOfRows]
    simpa using (written_line hrow).append hrows

end

theorem read_writeBlocks {blocks : List Block} (h : ∀ p ∈ partsOf blocks, p.Contained links) :
    read (writeBlocks links blocks) = some (tokensOfBlocks links blocks) := by
  rw [read, (written_blocks blocks h).settles.leads]

end

end Latex

end LiterateJournal
