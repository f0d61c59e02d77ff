import LiterateJournal.Proofs.Output.LatexTokens

/-!
# Nesting in LaTeX

A document without markup and mathematics is written so that braces and environments are closed in
the order of their opening and every verbatim environment holds the code of one block. What the
writer does not escape must see to that itself: an address has to keep to its braces, and code must
not hold the text that ends a verbatim environment.

## Main definitions

* `Latex.WellNested` — a document that is written so.

## Main statements

* `Latex.wellNested_iff` — the addresses and code blocks with which every document is.
-/

namespace LiterateJournal.Latex

open Scanner

/-! ### Verbatim environments -/

def codeLines (code : String) : String := "\n" ++ code ++ "\n"

theorem holdsInline_verbatim : HoldsInline fun t => t.verbatim? = none :=
  ⟨fun _ => rfl, rfl, rfl, fun _ _ => rfl⟩

theorem verbatims_eq_nil_iff {ts : List Token} :
    verbatims ts = [] ↔ ∀ t ∈ ts, t.verbatim? = none :=
  List.filterMap_eq_nil_iff

@[simp] theorem verbatims_textTokens (s : String) : verbatims (textTokens s) = [] :=
  verbatims_eq_nil_iff.2 (holdsInline_verbatim.text s)

@[simp] theorem verbatims_nil : verbatims [] = [] := rfl

@[simp] theorem verbatims_cons (t : Token) (ts : List Token) :
    verbatims (t :: ts) = t.verbatim?.toList ++ verbatims ts := by
  cases h : t.verbatim? <;> simp [verbatims, h]

@[simp] theorem verbatims_groupTokens (ts : List Token) :
    verbatims (groupTokens ts) = verbatims ts := by
  simp [groupTokens, Token.verbatim?]

@[simp] theorem verbatims_environmentTokens (name : String) (ts : List Token) :
    verbatims (environmentTokens name ts) = verbatims ts := by
  simp [environmentTokens, Token.verbatim?]

theorem verbatims_sectionTokens (level : UInt8) : verbatims (sectionTokens level) = [] := by
  rw [sectionTokens]
  split <;> rfl

theorem verbatims_counterTokens (kind : ListKind) : verbatims (counterTokens kind) = [] := by
  cases kind with
  | bulleted => rfl
  | numbered start =>
    rw [counterTokens]
    split
    · rfl
    · simp [commandTokens, Token.verbatim?]

section

variable {links : LinkTable}

/-- No span is verbatim text. -/
theorem verbatims_tokensOfSpans (spans : List Span)
    (h : ∀ t ∈ innerSpans spans, (Part.span t).Contained links) :
    verbatims (tokensOfSpans links spans) = [] := by
  refine verbatims_eq_nil_iff.2 (holdsInline_verbatim.spans spans fun t ht url hurl => ?_)
  exact verbatims_eq_nil_iff.1 ((h t ht).closed url hurl).verbatims_eq_nil

def codeLinesOf (parts : List Part) : List String := (parts.filterMap Part.code?).map codeLines

@[simp] theorem codeLinesOf_append (ps qs : List Part) :
    codeLinesOf (ps ++ qs) = codeLinesOf ps ++ codeLinesOf qs := by
  simp [codeLinesOf]

theorem codeLinesOf_spans (spans : List Span) : codeLinesOf (spans.map .span) = [] := by
  simp [codeLinesOf, List.filterMap_map, Function.comp_def, Part.code?]

theorem codeLinesOf_cons {p : Part} (h : p.code? = none) (ps : List Part) :
    codeLinesOf (p :: ps) = codeLinesOf ps := by
  simp [codeLinesOf, h]

mutual

theorem verbatims_tokensOfBlock : (b : Block) → (∀ p ∈ b.parts, p.Contained links) →
    verbatims (tokensOfBlock links b) = codeLinesOf b.parts
  | .heading level body, h => by
    have hbody := verbatims_tokensOfSpans body fun t ht =>
      h (.span t) (List.mem_cons_of_mem _ (List.mem_map_of_mem ht))
    rw [tokensOfBlock, Block.parts, codeLinesOf_cons rfl, codeLinesOf_spans]
    simp [verbatims_sectionTokens, hbody]
  | .paragraph body, h => by
    have hbody := verbatims_tokensOfSpans body fun t ht =>
      h (.span t) (List.mem_cons_of_mem _ (List.mem_map_of_mem ht))
    rw [tokensOfBlock, Block.parts, codeLinesOf_cons rfl, codeLinesOf_spans, hbody]
  | .code source _, _ => rfl
  | .raw _, _ | .math _, _ => rfl
  | .rule, _ => rfl
  | .list kind items, h => by
    have hitems := verbatims_tokensOfItems items fun p hp => h p (List.mem_cons_of_mem _ hp)
    rw [tokensOfBlock, Block.parts, codeLinesOf_cons rfl]
    simp [verbatims_counterTokens, hitems]
  | .quote body, h => by
    have hbody := verbatims_tokensOfBlocks body fun p hp => h p (List.mem_cons_of_mem _ hp)
    rw [tokensOfBlock, Block.parts, codeLinesOf_cons rfl]
    simp [hbody]
  | .table alignments header rows, h => by
    have hheader := verbatims_tokensOfCells header
      fun p hp => h p (List.mem_cons_of_mem _ (List.mem_append_left _ hp))
    have hrows := verbatims_tokensOfRows rows
      fun p hp => h p (List.mem_cons_of_mem _ (List.mem_append_right _ hp))
    rw [tokensOfBlock, Block.parts, codeLinesOf_cons rfl, codeLinesOf_append, ← hheader]
    cases header with
    | nil => simp [hrows, tokensOfCells]
    | cons cell cells => simp [hrows, Token.verbatim?]

/-- The verbatim environments of a document hold its code blocks. -/
theorem verbatims_tokensOfBlocks : (blocks : List Block) →
    (∀ p ∈ partsOf blocks, p.Contained links) →
    verbatims (tokensOfBlocks links blocks) = codeLinesOf (partsOf blocks)
  | [], _ => rfl
  | b :: bs, h => by
    have hb := verbatims_tokensOfBlock b fun p hp => h p (List.mem_append_left _ hp)
    have hbs := verbatims_tokensOfBlocks bs fun p hp => h p (List.mem_append_right _ hp)
    simp [tokensOfBlocks, partsOf, hb, hbs]

theorem verbatims_tokensOfItems : (items : List (List Block)) →
    (∀ p ∈ partsInCells items, p.Contained links) →
    verbatims (tokensOfItems links items) = codeLinesOf (partsInCells items)
  | [], _ => rfl
  | item :: items, h => by
    have hitem := verbatims_tokensOfBlocks item fun p hp => h p (List.mem_append_left _ hp)
    have hitems := verbatims_tokensOfItems items fun p hp => h p (List.mem_append_right _ hp)
    simp [tokensOfItems, partsInCells, Token.verbatim?, hitem, hitems]

theorem verbatims_tokensOfCells : (cells : List (List Block)) →
    (∀ p ∈ partsInCells cells, p.Contained links) →
    verbatims (tokensOfCells links cells) = codeLinesOf (partsInCells cells)
  | [], _ => rfl
  | [cell], h => by
    have hcell := verbatims_tokensOfBlocks cell fun p hp => h p (List.mem_append_left _ hp)
    simp [tokensOfCells, partsInCells, hcell]
  | cell :: next :: rest, h => by
    have hcell := verbatims_tokensOfBlocks cell fun p hp => h p (List.mem_append_left _ hp)
    have hcells := verbatims_tokensOfCells (next :: rest)
      fun p hp => h p (List.mem_append_right _ hp)
    rw [tokensOfCells, partsInCells, verbatims_append, verbatims_cons, hcell, hcells]
    simp [Token.verbatim?]

theorem verbatims_tokensOfRows : (rows : List (List (List Block))) →
    (∀ p ∈ partsInRows rows, p.Contained links) →
    verbatims (tokensOfRows links rows) = codeLinesOf (partsInRows rows)
  | [], _ => rfl
  | row :: rows, h => by
    have hrow := verbatims_tokensOfCells row fun p hp => h p (List.mem_append_left _ hp)
    have hrows := verbatims_tokensOfRows rows fun p hp => h p (List.mem_append_right _ hp)
    simp [tokensOfRows, partsInRows, Token.verbatim?, hrow, hrows]

end

end

/-! ### What the reader is in the middle of behind a brace -/

/-- Behind a closing brace the reader is in the text, in a comment or in a verbatim environment. -/
theorem Leads.place_of_rightBrace {w : List Char} {ts : List Token} {q : Place}
    (h : Leads step .text (w ++ ['\x7d']) ts q) :
    q = .text ∨ q = .comment ∨ ∃ v, q = .verbatim v := by
  obtain ⟨ts₁, p, ts₂, -, hlast, -⟩ := leads_append.1 h
  obtain ⟨us, r, us', hstep, hnil, -⟩ := leads_cons.1 hlast
  obtain ⟨-, rfl⟩ := leads_nil.1 hnil
  cases p with
  | text | backslash | word name =>
    cases hstep
    exact .inl rfl
  | environment begins name =>
    simp only [step, if_true, Option.some.injEq] at hstep
    rw [stepEnvironment] at hstep
    split at hstep
    · split at hstep
      · cases hstep
        exact .inr (.inr ⟨_, rfl⟩)
      · cases hstep
        exact .inl rfl
    · cases hstep
      exact .inl rfl
  | comment =>
    cases hstep
    exact .inr (.inl rfl)
  | verbatim v =>
    simp only [step] at hstep
    split at hstep
    · cases hstep
      exact .inl rfl
    · cases hstep
      exact .inr (.inr ⟨_, rfl⟩)

/-- No line feed ends a verbatim environment. -/
theorem leads_verbatim_lineFeed (v : List Char) :
    Leads step (.verbatim v) ['\n'] [] (.verbatim (v ++ ['\n'])) := by
  refine Leads.single ?_
  rw [step, if_neg]
  intro h
  obtain ⟨r, hr⟩ := h
  have hlast : endMark = "\\end\x7bverbatim".toList ++ ['\x7d'] := rfl
  rw [hlast, ← List.append_assoc] at hr
  obtain ⟨-, hc⟩ := List.append_inj' hr rfl
  cases hc

/-- A fragment that ends with a line feed is read without a rest. -/
theorem leads_of_read {fragment : String} {tokens : List Token} {w : List Char}
    (hw : fragment.toList = w ++ ['\n']) (h : read fragment = some tokens) :
    Leads step .text fragment.toList tokens .text := by
  unfold read at h
  cases hrun : Scanner.run step .text fragment.toList with
  | none => rw [hrun] at h; cases h
  | some r =>
    obtain ⟨ts, q⟩ := r
    have hleads : Leads step .text (w ++ ['\n']) ts q := hw ▸ hrun
    obtain ⟨ts₁, p, ts₂, -, hlast, -⟩ := leads_append.1 hleads
    obtain ⟨us, r, us', hstep, hnil, -⟩ := leads_cons.1 hlast
    obtain ⟨-, rfl⟩ := leads_nil.1 hnil
    rw [hrun] at h
    -- no word and no comment goes on behind a line feed, and nothing else may be left open
    cases p with
    | text | backslash | word name =>
      cases hstep
      cases h
      exact hrun
    | environment begins name =>
      cases hstep
      cases h
    | comment =>
      cases hstep
      cases h
      exact hrun
    | verbatim v =>
      rw [(leads_verbatim_lineFeed v).unique (Leads.single hstep) |>.2.symm] at h
      cases h

/-! ### Well-nested documents -/

/-- Braces and environments are closed in the order of their opening, and the verbatim environments
hold the code blocks. -/
def WellNested (links : LinkTable) (blocks : List Block) : Prop :=
  ∃ tokens, read (writeBlocks links blocks) = some tokens ∧ Balanced (brackets tokens) ∧
    verbatims tokens = (codesIn blocks).map codeLines

/-- Contained parts are well nested. -/
theorem wellNested_of_contained {links : LinkTable} {blocks : List Block}
    (h : ∀ p ∈ partsOf blocks, p.Contained links) : WellNested links blocks :=
  ⟨tokensOfBlocks links blocks, read_writeBlocks h, (written_blocks blocks h).balanced,
    verbatims_tokensOfBlocks blocks h⟩

/-! ### Addresses that escape -/

def imageBlocks (url : String) : List Block := [.paragraph [.image "" url none]]

/-- An image in a heading, where it stands in two pairs of braces. -/
def imageHeading (url : String) : List Block := [.heading 1 [.image "" url none]]

theorem toList_writeBlocks_imageBlocks (links : LinkTable) (url : String) :
    (writeBlocks links (imageBlocks url)).toList =
      "\\includegraphics\x7b".toList ++ ((url.toList ++ ['\x7d']) ++ ['\n', '\n']) := by
  simp [imageBlocks, writeBlocks, writeBlock, writeSpans, writeSpan, command, Latex.group]

theorem toList_writeBlocks_imageHeading (links : LinkTable) (url : String) :
    (writeBlocks links (imageHeading url)).toList =
      "\\section*\x7b\\includegraphics\x7b".toList ++
        ((url.toList ++ ['\x7d']) ++ ['\x7d', '\n', '\n']) := by
  simp [imageHeading, writeBlocks, writeBlock, writeSpans, writeSpan, command, Latex.group,
    sectioning]

theorem codesIn_imageBlocks (url : String) : codesIn (imageBlocks url) = [] := rfl

/-- An address in a heading does not start a comment, which would hide the brace that closes the
heading. -/
theorem not_comment_of_wellNested {links : LinkTable} {url : String} {us : List Token}
    (hheading : WellNested links (imageHeading url))
    (hopen : openAfter [.braces] (brackets us) = some []) :
    ¬ Leads step .text (url.toList ++ ['\x7d']) us .comment := by
  intro hurl
  obtain ⟨tokens, hread, hbalanced, -⟩ := hheading
  have hall := leads_of_read (w := "\\section*\x7b\\includegraphics\x7b".toList ++
    ((url.toList ++ ['\x7d']) ++ ['\x7d', '\n']))
    (by rw [toList_writeBlocks_imageHeading]; simp) hread
  rw [toList_writeBlocks_imageHeading] at hall
  have hcommands : Leads step .text "\\section*\x7b\\includegraphics\x7b".toList
      [.command "section", .char '*', .leftBrace, .command "includegraphics", .leftBrace]
      .text := rfl
  obtain ⟨us', hrest, rfl⟩ := hcommands.of_append hall
  obtain ⟨vs, hlines, rfl⟩ := hurl.of_append hrest
  have hhidden : Leads step .comment ['\x7d', '\n', '\n'] [] .text := rfl
  obtain ⟨rfl, -⟩ := hlines.unique hhidden
  rw [← List.append_nil us] at hopen
  have hnone : openAfter [.braces, .braces] (brackets (us ++ [])) = some [] := hbalanced
  have hone : openAfter [.braces, .braces] (brackets (us ++ [])) = some [.braces] :=
    openAfter_below [Group.braces] hopen
  rw [hnone] at hone
  cases hone

/-- An address keeps to its braces when the two documents with it are well nested. -/
theorem closed_of_wellNested {links : LinkTable} {url : String}
    (himage : WellNested links (imageBlocks url))
    (hheading : WellNested links (imageHeading url)) : Closed url := by
  obtain ⟨tokens, hread, hbalanced, hverbatims⟩ := himage
  rw [codesIn_imageBlocks] at hverbatims
  have hall := leads_of_read (w := "\\includegraphics\x7b".toList ++ ((url.toList ++ ['\x7d']) ++
    ['\n'])) (by rw [toList_writeBlocks_imageBlocks]; simp) hread
  rw [toList_writeBlocks_imageBlocks] at hall
  have hcommand : Leads step .text "\\includegraphics\x7b".toList
      [.command "includegraphics", .leftBrace] .text := rfl
  obtain ⟨us, hrest, rfl⟩ := hcommand.of_append hall
  obtain ⟨us, q, vs, hurl, hlines, rfl⟩ := leads_append.1 hrest
  have hopen : openAfter [.braces] (brackets (us ++ vs)) = some [] := hbalanced
  obtain rfl | rfl | ⟨v, rfl⟩ := Leads.place_of_rightBrace hurl
  · obtain ⟨rfl, -⟩ := hlines.unique (leads_blanks (by decide))
    rw [List.append_nil] at hopen
    have hgroup : Leads step .text (Latex.group url).toList (.leftBrace :: us) .text := by
      have hleft : step .text '\x7b' = some ([.leftBrace], .text) := rfl
      simpa [Latex.group] using Leads.cons hleft hurl
    have htokens := addressTokens_of_leads hgroup
    refine ⟨htokens ▸ hgroup, ?_, ?_⟩
    · rw [htokens]
      exact hopen
    · rw [htokens]
      simpa [Token.verbatim?] using hverbatims
  · have hskipped : Leads step .comment ['\n', '\n'] [] .text := rfl
    obtain ⟨rfl, -⟩ := hlines.unique hskipped
    rw [List.append_nil] at hopen
    exact absurd hurl (not_comment_of_wellNested hheading hopen)
  · have hlines' := (leads_verbatim_lineFeed v).append (leads_verbatim_lineFeed _)
    obtain ⟨-, hplace⟩ := hlines.unique hlines'
    cases hplace

/-! ### Code that ends its environment -/

def codeBlocks (code : String) : List Block := [.code code none]

theorem toList_writeBlocks_codeBlocks (links : LinkTable) (code : String) :
    (writeBlocks links (codeBlocks code)).toList =
      "\\begin\x7bverbatim\x7d".toList ++
        ((codeLines code).toList ++ (endMark ++ ['\n', '\n'])) := by
  have hend : (command "end" "verbatim").toList = endMark := by decide
  simp [codeBlocks, writeBlocks, writeBlock, environment, codeLines, hend]
  simp [command, Latex.group]

/-- Code does not hold the mark when the document with it is well nested. -/
theorem not_infix_of_wellNested {links : LinkTable} {code : String}
    (h : WellNested links (codeBlocks code)) : ¬ endMark <:+: code.toList := by
  intro hinfix
  obtain ⟨tokens, hread, -, hverbatims⟩ := h
  have hlines : endMark <:+: (codeLines code).toList := by
    simpa [codeLines] using infix_lines_iff.2 hinfix
  obtain ⟨x, y, hxy, hclear⟩ := exists_clearOfMark hlines
  have hall := leads_of_read (w := "\\begin\x7bverbatim\x7d".toList ++ ((codeLines code).toList ++
    (endMark ++ ['\n']))) (by rw [toList_writeBlocks_codeBlocks]; simp) hread
  rw [toList_writeBlocks_codeBlocks, hxy, List.append_assoc _ y, ← List.append_assoc] at hall
  have hbegin : Leads step .text "\\begin\x7bverbatim\x7d".toList [] (.verbatim []) := rfl
  obtain ⟨us, -, rfl⟩ := (hbegin.append (leads_verbatim hclear)).of_append (by simpa using hall)
  -- the first verbatim environment is over too early
  have hfirst : String.ofList x = codeLines code := by
    have hcodes : codesIn (codeBlocks code) = [code] := rfl
    rw [hcodes] at hverbatims
    simpa [Token.verbatim?] using congrArg List.head? hverbatims
  have hlength := congrArg List.length hxy
  have hpos := List.length_pos_iff.2 endMark_ne_nil
  rw [← hfirst, String.toList_ofList] at hlength
  simp only [List.length_append] at hlength
  omega

/-! ### The addresses and code blocks that keep to their place -/

/-- A document without markup of the output language and without mathematics. -/
def Plain (blocks : List Block) : Prop :=
  ∀ p ∈ partsOf blocks, p.isRaw = false ∧ p.isMath = false

theorem plain_imageBlocks (url : String) : Plain (imageBlocks url) :=
  List.forall_mem_cons.2 ⟨⟨rfl, rfl⟩, List.forall_mem_singleton.2 ⟨rfl, rfl⟩⟩

theorem plain_imageHeading (url : String) : Plain (imageHeading url) :=
  List.forall_mem_cons.2 ⟨⟨rfl, rfl⟩, List.forall_mem_singleton.2 ⟨rfl, rfl⟩⟩

theorem plain_codeBlocks (code : String) : Plain (codeBlocks code) :=
  List.forall_mem_singleton.2 ⟨rfl, rfl⟩

/-- Every document without markup and mathematics in which only certain addresses and certain code
occur is well nested just when these addresses keep to their braces and this code does not hold the
mark that ends a verbatim environment. -/
theorem wellNested_iff (IsAddress IsCode : String → Prop) :
    (∀ links blocks, Plain blocks → (∀ url ∈ addressesIn links blocks, IsAddress url) →
      (∀ code ∈ codesIn blocks, IsCode code) → WellNested links blocks) ↔
    (∀ url, IsAddress url → Closed url) ∧
      ∀ code, IsCode code → ¬ endMark <:+: code.toList := by
  constructor
  · intro h
    refine ⟨fun url hurl => ?_, fun code hcode => ?_⟩
    · have himage := h .empty (imageBlocks url) (plain_imageBlocks url)
        (List.forall_mem_singleton.2 hurl) (List.forall_mem_nil _)
      have hheading := h .empty (imageHeading url) (plain_imageHeading url)
        (List.forall_mem_singleton.2 hurl) (List.forall_mem_nil _)
      exact closed_of_wellNested himage hheading
    · exact not_infix_of_wellNested (h .empty (codeBlocks code) (plain_codeBlocks code)
        (List.forall_mem_nil _) (List.forall_mem_singleton.2 hcode))
  · rintro ⟨hclosed, hclear⟩ links blocks hplain haddresses hcodes
    refine wellNested_of_contained fun p hp => ?_
    refine ⟨(hplain p hp).1, (hplain p hp).2, fun url hurl => ?_, fun code hcode => ?_⟩
    · exact hclosed url (haddresses url (List.mem_filterMap.2 ⟨p, hp, hurl⟩))
    · exact hclear code (hcodes code (List.mem_filterMap.2 ⟨p, hp, hcode⟩))

/-- A percent sign in the address of a link hides the braces behind it. -/
theorem not_wellNested_of_percent :
    ¬ ∀ links blocks, Plain blocks → WellNested links blocks := by
  intro h
  have hplain : Plain [.paragraph [.strong [.link [.text "x"] "http://h/a%20b" none]]] := by
    simp [Plain, partsOf, Block.parts, innerSpans, Span.withInner, Part.isRaw, Part.isMath]
  obtain ⟨tokens, hread, hbalanced, -⟩ := h .empty _ hplain
  have hsome : (read (writeBlocks .empty
      [.paragraph [.strong [.link [.text "x"] "http://h/a%20b" none]]])).any
      (fun tokens => decide (Balanced (brackets tokens))) = true := by
    rw [hread]
    simpa using hbalanced
  exact absurd hsome (by decide +kernel)

end LiterateJournal.Latex
