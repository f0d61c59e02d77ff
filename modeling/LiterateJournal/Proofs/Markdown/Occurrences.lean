import LiterateJournal.Markdown.Forest
import LiterateJournal.Proofs.Markdown.Conversion
import LiterateJournal.Proofs.Markdown.Gathering

/-!
# Links and images by label where they stand

The closing bracket of a link or an image by label tells where it ends, and its opening bracket
where it starts. While a line is read, these places are noted beside the trees. A line has the
references that were noted in it, in the same order; those in the description of an image are
dropped with it.

## Main definitions

* `Closing`, `closing` — what a closing bracket makes of the content since the opening one.
* `Occurrence` — a link or an image by label with its place in the line.
* `noteToken`, `noteTokens` — what is noted of the references while tokens are read.
* `Outline.occurrences` — the references of a text, outside descriptions and footnotes.

## Main statements

* `closeBracket_eq` — a closing bracket does what `closing` tells.
* `references_readToken`, `references_readTokens` — what has been read has what has been noted.
* `references_treesOfTokens` — the trees of a line have the references that are noted in it.
-/

namespace LiterateJournal.Markdown

/-! ### Closing brackets -/

/-- What a closing bracket makes of the content since the opening one. -/
inductive Closing where
  /-- Both brackets are text. -/
  | text
  | footnote (label : List Char)
  /-- A link or an image that ends at the place `stop`, and the tokens after it. -/
  | link (form : LinkForm) (destination title label : List Char) (stop : Nat) (rest : List Token)

section

variable (refs : References) (b : Bracket) (t : Token)

/-- What a closing bracket comes to if the label is between the brackets. -/
def ownLabel (form : LinkForm) (stop : Nat) (rest : List Token) : Closing :=
  let opening := b.token.source.drop (b.token.stop - b.token.start - 1)
  match mention? refs.inTable (opening.take (t.stop - (b.token.stop - 1))) with
  | some (.footnote label []) => if refs.hasFootnote label then .footnote label else .text
  | some (.definition label []) =>
    match refs.definition? label with
    | some d => .link form d.destination d.title label stop rest
    | none => .text
  | _ => .text

/-- What a closing bracket comes to, given the opening bracket and the tokens that follow. -/
def closing (ts : List Token) : Closing :=
  match inlineTarget? refs.inTable t.after with
  | some (destination, title, rest) =>
    .link .inline destination title [] (t.placeOf rest) (tokensFromPlace (t.placeOf rest) ts)
  | none =>
    match ts with
    | [] => ownLabel refs b t .shortcut t.stop ts
    | next :: _ =>
      if Text.startsWith ['[', ']'] next.source then
        ownLabel refs b t .collapsed (next.start + 2) (ts.drop 2)
      else
        match mention? refs.inTable next.source with
        | some (.definition label rest) =>
          let stop := next.placeOf rest
          match refs.definition? label with
          | some d => .link .full d.destination d.title label stop (tokensFromPlace stop ts)
          | none => .link .undefined label [] label stop (tokensFromPlace stop ts)
        | _ => ownLabel refs b t .shortcut t.stop ts

/-- What has been read after a closing bracket, and the tokens to go on with. -/
def Closing.apply (r : Reading) (ts : List Token) : Closing → Reading × List Token
  | .text => ((Reading.abandon b r).addText [']'], ts)
  | .footnote label =>
    let before := if b.kind = .image then .tree (textLeaf ['!']) :: b.before else b.before
    let note : Leaf := .footnoteReference (String.ofList label)
    (Reading.abandonAll { r with pieces := .tree (.leaf note) :: before }, ts)
  | .link form destination title label _ rest => (r.link b form destination title label, rest)

/-- A closing bracket does what `closing` tells. -/
theorem closeBracket_eq (r : Reading) (ts : List Token) :
    closeBracket refs r b t ts = (closing refs b t ts).apply b r ts := by
  unfold closeBracket
  extract_lets asText opening before byOwnLabel
  -- Three branches below fall back on the label between the brackets.
  have hown (form : LinkForm) (stop : Nat) (rest : List Token) :
      byOwnLabel form rest = (ownLabel refs b t form stop rest).apply b r ts := by
    dsimp only [byOwnLabel, ownLabel, opening]
    generalize mention? _ _ = mention
    match mention with
    | some (.footnote label []) =>
      dsimp only
      split <;> rfl
    | some (.definition label []) =>
      dsimp only
      cases refs.definition? label <;> rfl
    | none | some (.footnote _ (_ :: _)) | some (.definition _ (_ :: _)) => rfl
  unfold closing
  cases inlineTarget? refs.inTable t.after with
  | some target => rfl
  | none =>
    cases ts with
    | nil => exact hown _ _ _
    | cons next ts =>
      dsimp only
      split
      · exact hown _ _ _
      · generalize mention? _ next.source = mention
        match mention with
        | some (.definition label rest) =>
          dsimp only
          cases refs.definition? label <;> rfl
        | none | some (.footnote _ _) => exact hown _ _ _

end

/-- A link or an image by label is undefined just if no definition is of its label. -/
theorem undefined_iff_of_closing {refs : References} {b : Bracket} {t : Token}
    {ts rest : List Token} {form : LinkForm} {destination title label : List Char} {stop : Nat}
    (hclosing : closing refs b t ts = .link form destination title label stop rest)
    (hform : form.isReference = true) :
    form = .undefined ↔ refs.definition? label = none := by
  have hown {form' : LinkForm} {stop' : Nat} {rest' : List Token} (hne : form' ≠ .undefined)
      (h : ownLabel refs b t form' stop' rest' =
        .link form destination title label stop rest) :
      form = .undefined ↔ refs.definition? label = none := by
    unfold ownLabel at h
    dsimp only at h
    grind
  unfold closing at hclosing
  grind [LinkForm.isReference]

/-! ### References in trees -/

/-- The source text that is kept of a link or an image by label, given what is in its brackets. -/
def writtenReference (image : Bool) (body : List Span) (label : String) : String :=
  (if image then "![" else "[") ++ plainText body ++ "][" ++ label ++ "]"

def referenceSpan (image : Bool) (body : List Span) (label : String) : Span :=
  if image then .imageReference (plainText body) (writtenReference true body label) label
  else .linkReference body (writtenReference false body label) label

/-- The references of a container in a line, given its spans and the references inside it. The
description of an image has none. -/
def Tag.references (tag : Tag) (body inner : List Span) : List Span :=
  match tag with
  | .link form _ _ label =>
    inner ++ if form.isReference then [referenceSpan false body label] else []
  | .image form _ _ label => if form.isReference then [referenceSpan true body label] else []
  | _ => inner

mutual

/-- The links and images by label in a tree of a line, each after those inside it. -/
def Tree.references : Tree → List Span
  | .leaf _ => []
  | .node tag ts => tag.references (spansOfTrees ts) (referencesOf ts)

def referencesOf : List Tree → List Span
  | [] => []
  | t :: ts => t.references ++ referencesOf ts

end

theorem referencesOf_eq_flatMap (ts : List Tree) :
    referencesOf ts = ts.flatMap Tree.references := by
  induction ts with
  | nil => rfl
  | cons t ts ih => rw [referencesOf, ih, List.flatMap_cons]

theorem references_node (tag : Tag) (ts : List Tree) :
    (Tree.node tag ts).references =
      tag.references (spansOfTrees ts) (ts.flatMap Tree.references) := by
  rw [Tree.references, referencesOf_eq_flatMap]

theorem gathersMarks_references : GathersMarks Tree.references where
  leaf _ := rfl
  node htag := by
    rw [references_node]
    obtain rfl | rfl | rfl := htag <;> rfl

/-- The references in some pieces, of which the last one comes first. -/
def referencesIn (pieces : List Piece) : List Span :=
  pieces.reverse.flatMap (Piece.gather Tree.references)

@[simp] theorem referencesIn_nil : referencesIn [] = [] := rfl

@[simp] theorem referencesIn_cons (p : Piece) (ps : List Piece) :
    referencesIn (p :: ps) = referencesIn ps ++ p.gather Tree.references := by
  simp [referencesIn]

@[simp] theorem referencesIn_append (ps qs : List Piece) :
    referencesIn (ps ++ qs) = referencesIn qs ++ referencesIn ps := by
  simp [referencesIn]

theorem flatMap_references_resolve (pieces : List Piece) :
    (resolve pieces.reverse).flatMap Tree.references = referencesIn pieces :=
  flatMap_resolve gathersMarks_references _

/-! ### Noting where references stand -/

/-- A link or an image by label, with its place in the line. -/
structure Occurrence where
  line : List Char
  start : Nat
  stop : Nat
  form : LinkForm
  image : Bool
  /-- What is in the brackets before the label. -/
  content : List Tree
  label : String

namespace Occurrence

def source (o : Occurrence) : String :=
  String.ofList ((o.line.drop o.start).take (o.stop - o.start))

/-- The source text that is kept of the reference. -/
def written (o : Occurrence) : String := writtenReference o.image (spansOfTrees o.content) o.label

def span (o : Occurrence) : Span := referenceSpan o.image (spansOfTrees o.content) o.label

end Occurrence

/-- The reference that a completed link or image is, if it has a label. -/
def completed (line : List Char) (r : Reading) (b : Bracket) (form : LinkForm) (label : List Char)
    (stop : Nat) : List Occurrence :=
  if form.isReference then
    [⟨line, b.token.start, stop, form, b.kind = .image, resolve r.pieces.reverse,
      String.ofList label⟩]
  else []

/-- What is kept of what stands between the brackets of a link or an image, which is not kept in the
description of an image, and of the link or image itself. -/
def BracketKind.kept {α : Type} (kind : BracketKind) (inner own : List α) : List α :=
  if kind = .image then own else inner ++ own

theorem BracketKind.map_kept {α β : Type} (f : α → β) (kind : BracketKind) (inner own : List α) :
    (kind.kept inner own).map f = kind.kept (inner.map f) (own.map f) := by
  unfold kept
  split <;> simp

/-- What has been noted after a token, given what had been noted since each open bracket, the
innermost one first, and outside all of them. -/
def noteToken (refs : References) (line : List Char) (r : Reading) (t : Token) (ts : List Token)
    (noted : List (List Occurrence)) : List (List Occurrence) :=
  match t.kind, r.brackets, noted with
  | .linkOpen, _, _ | .imageOpen, _, _ => [] :: noted
  | .bracketClose, b :: _, inner :: before :: outer =>
    match if b.kind = .disabled then .text else closing refs b t ts with
    | .text => (before ++ inner) :: outer
    | .footnote _ => [(before :: outer).reverse.flatten]
    | .link form _ _ label stop _ =>
      (before ++ b.kind.kept inner (completed line r b form label stop)) :: outer
  | _, _, _ => noted

/-- What has been noted after some tokens, beside what has been read. -/
def noteTokens (refs : References) (line : List Char) :
    Nat → Reading → List (List Occurrence) → List Token → List (List Occurrence)
  | 0, _, noted, _ => noted
  | _, _, noted, [] => noted
  | fuel + 1, r, noted, t :: ts =>
    let (next, rest) := readToken refs r t ts
    noteTokens refs line fuel next (noteToken refs line r t ts noted) rest

/-- The references of a line outside descriptions, each after those inside it. -/
def occurrencesInLine (refs : References) (line : List Char) (ts : List Token) : List Occurrence :=
  (noteTokens refs line ts.length .start [[]] ts).reverse.flatten

def Reading.references (r : Reading) : List (List Span) :=
  referencesIn r.pieces :: r.brackets.map fun b => referencesIn b.before

namespace Reading

section

variable (r : Reading)

@[simp] theorem references_addLeaf (l : Leaf) : (r.addLeaf l).references = r.references := by
  simp [references, addLeaf, add, Piece.gather, Tree.references]

@[simp] theorem references_addText (cs : List Char) : (r.addText cs).references = r.references :=
  references_addLeaf r _

@[simp] theorem references_disableLinks : r.disableLinks.references = r.references := by
  simp only [references, disableLinks, List.map_map, List.cons.injEq, true_and]
  refine List.map_congr_left fun b _ => ?_
  dsimp only [Function.comp_apply]
  split <;> rfl

theorem references_abandon (b : Bracket) : (abandon b r).references =
    (referencesIn b.before ++ referencesIn r.pieces) :: r.references.tail := by
  simp [references, abandon, Piece.gather, textLeaf, Tree.references]

/-- When all brackets are text the references stand one after another. -/
theorem references_abandonAll : r.abandonAll.references = [r.references.reverse.flatten] := by
  have hfold (brackets : List Bracket) (r : Reading) :
      referencesIn (brackets.foldl (fun r b => abandon b r) r).pieces =
        (referencesIn r.pieces :: brackets.map fun b => referencesIn b.before).reverse.flatten := by
    induction brackets generalizing r with
    | nil => simp
    | cons b brackets ih =>
      rw [List.foldl_cons, ih]
      simp [abandon, Piece.gather, textLeaf, Tree.references]
  simp [references, abandonAll, hfold]

theorem references_linkTree (b : Bracket) (form : LinkForm)
    (destination title label line : List Char) (stop : Nat) :
    (linkTree b.kind form destination title label r.pieces).references =
      b.kind.kept (referencesIn r.pieces)
        ((completed line r b form label stop).map Occurrence.span) := by
  unfold linkTree completed BracketKind.kept
  dsimp only
  rw [references_node, flatMap_references_resolve]
  split <;> cases hform : form.isReference <;> simp [Tag.references, Occurrence.span, *]

theorem references_link (b : Bracket) (form : LinkForm) (destination title label line : List Char)
    (stop : Nat) :
    (r.link b form destination title label).references =
      (referencesIn b.before ++ b.kind.kept (referencesIn r.pieces)
        ((completed line r b form label stop).map Occurrence.span)) :: r.references.tail := by
  rw [← references_linkTree r b form destination title label line stop]
  unfold link
  dsimp only
  split
  · simp [references, Piece.gather]
  · rw [references_disableLinks]
    simp [references, Piece.gather]

end

/-! ### What has been read has what has been noted -/

section

variable {refs : References} {line : List Char} {r : Reading} {noted : List (List Occurrence)}

theorem references_readAngle (r : Reading) (t : Token) (ts : List Token) :
    (readAngle r t ts).1.references = r.references := by
  unfold readAngle
  split
  · exact references_addText r _
  · split
    · rename_i form address rest hlink
      have hform : form.isReference = false := by
        unfold autolink? at hlink
        split at hlink
        · cases hlink
          rfl
        · obtain ⟨_, _, heq⟩ := Option.map_eq_some_iff.1 hlink
          cases heq
          rfl
      simp [references, add, Piece.gather, Tree.references, Tag.references, hform, textLeaf,
        referencesOf]
    · split
      · exact references_addLeaf r _
      · exact references_addText r _

theorem references_readTicks (inTable : Bool) (count : Nat) (escaped : Bool) (r : Reading)
    (t : Token) (ts : List Token) :
    (readTicks inTable count escaped r t ts).1.references = r.references := by
  unfold readTicks
  extract_lets wanted read
  split
  · rw [references_addLeaf]
    dsimp only [read]
    split
    · exact references_addText r _
    · rfl
  · exact references_addText r _

theorem references_readDollar (inTable canOpen : Bool) (braces : Nat) (r : Reading) (t : Token)
    (ts : List Token) : (readDollar inTable canOpen braces r t ts).1.references = r.references := by
  unfold readDollar
  extract_lets source asText
  have htext : asText.1.references = r.references := references_addText r _
  split
  · exact htext
  · split
    · split
      · split
        · exact references_addLeaf r _
        · exact htext
      · split
        · exact references_addLeaf r _
        · exact htext
    · exact htext

/-- A closing bracket leaves what is noted at it. -/
theorem references_apply (line : List Char) (c : Closing) (b : Bracket) (ts : List Token)
    (r : Reading) {inner before : List Occurrence} {outer : List (List Occurrence)}
    (hinner : referencesIn r.pieces = inner.map Occurrence.span)
    (hbefore : referencesIn b.before = before.map Occurrence.span)
    (houter : (r.brackets.map fun b => referencesIn b.before) =
      outer.map (List.map Occurrence.span)) :
    (c.apply b r ts).1.references =
      (match c with
      | .text => (before ++ inner) :: outer
      | .footnote _ => [(before :: outer).reverse.flatten]
      | .link form _ _ label stop _ =>
        (before ++ b.kind.kept inner (completed line r b form label stop)) :: outer).map
        (List.map Occurrence.span) := by
  have htail : r.references.tail = outer.map (List.map Occurrence.span) := houter
  cases c with
  | text => simp [Closing.apply, references_abandon, htail, hinner, hbefore]
  | footnote label =>
    rw [Closing.apply, references_abandonAll, references, houter, List.map_cons, List.map_nil,
      List.map_flatten, List.map_reverse, List.map_cons, ← hbefore]
    dsimp only
    split <;> simp [Piece.gather, textLeaf, Tree.references]
  | link form destination title label stop rest =>
    rw [Closing.apply, references_link r b form destination title label line stop, htail, hinner,
      hbefore, ← BracketKind.map_kept]
    simp

/-- What a token leaves is what is noted at it. -/
theorem references_readToken (h : r.references = noted.map (List.map Occurrence.span)) (t : Token)
    (ts : List Token) :
    (readToken refs r t ts).1.references =
      (noteToken refs line r t ts noted).map (List.map Occurrence.span) := by
  unfold readToken noteToken
  -- Only brackets change what is noted: leaves and runs have no references.
  cases t.kind with
  | text | reference value => exact (references_addText r _).trans h
  | run mark count canOpen canClose =>
    rw [← h]
    simp [references, add, Piece.gather]
  | dollar canOpen canClose braces => exact (references_readDollar _ _ _ r t ts).trans h
  | ticks count escaped => exact (references_readTicks _ _ _ r t ts).trans h
  | linkOpen | imageOpen => rw [List.map_cons, ← h]; rfl
  | angle => exact (references_readAngle r t ts).trans h
  | softBreak => exact (references_addLeaf r _).trans h
  | hardBreak backslash =>
    cases backslash with
    | true =>
      rw [← h]
      simp [references, add, Piece.gather]
    | false => exact (references_addLeaf r _).trans h
  | bracketClose =>
    dsimp only
    cases hbrackets : r.brackets with
    | nil => exact (references_addText r _).trans h
    | cons b brackets =>
      rw [references, hbrackets] at h
      obtain ⟨inner, noted, rfl, hinner, h⟩ := List.map_eq_cons_iff.1 h.symm
      obtain ⟨before, outer, rfl, hbefore, houter⟩ := List.map_eq_cons_iff.1 h
      dsimp only
      have happly (c : Closing) := references_apply line c b ts { r with brackets }
        hinner.symm hbefore.symm houter.symm
      split
      · simpa [Closing.apply] using happly .text
      · rw [closeBracket_eq, happly]
        rfl

/-- What is read is what is noted beside it. -/
theorem references_readTokens (h : r.references = noted.map (List.map Occurrence.span))
    (fuel : Nat) (ts : List Token) :
    (readTokens refs fuel r ts).references =
      (noteTokens refs line fuel r noted ts).map (List.map Occurrence.span) := by
  induction fuel generalizing r noted ts with
  | zero => exact h
  | succ fuel ih =>
    cases ts with
    | nil => exact h
    | cons t ts => exact ih (references_readToken h t ts) _

end

end Reading

/-- The trees of a line have the references that are noted in it. -/
theorem references_treesOfTokens (refs : References) (line : List Char) (ts : List Token) :
    (treesOfTokens refs ts).flatMap Tree.references =
      (occurrencesInLine refs line ts).map Occurrence.span := by
  have hstart : Reading.start.references = [[]].map (List.map Occurrence.span) := rfl
  have hread := Reading.references_abandonAll (readTokens refs ts.length .start ts)
  rw [Reading.references_readTokens hstart, ← List.map_reverse, ← List.map_flatten] at hread
  rw [treesOfTokens, flatMap_references_resolve]
  exact (List.cons.inj hread).1

/-! ### What holds of every reference -/

def HeldByCompleted (refs : References) (line : List Char) (P : Occurrence → Prop) : Prop :=
  ∀ (r : Reading) (b : Bracket) (t : Token) (ts : List Token) {form : LinkForm}
    {destination title label : List Char} {stop : Nat} {rest : List Token},
    closing refs b t ts = .link form destination title label stop rest →
      ∀ o ∈ completed line r b form label stop, P o

section

variable {refs : References} {line : List Char} {P : Occurrence → Prop} {r : Reading}
  {noted : List (List Occurrence)}

/-- A token adds no other references than a closing bracket completes. -/
theorem forall_noteToken (hP : HeldByCompleted refs line P) (h : ∀ os ∈ noted, ∀ o ∈ os, P o)
    (t : Token) (ts : List Token) : ∀ os ∈ noteToken refs line r t ts noted, ∀ o ∈ os, P o := by
  unfold noteToken
  split
  · exact List.forall_mem_cons.2 ⟨List.forall_mem_nil _, h⟩
  · exact List.forall_mem_cons.2 ⟨List.forall_mem_nil _, h⟩
  · rename_i b _ inner before outer _ _
    obtain ⟨hinner, h⟩ := List.forall_mem_cons.1 h
    obtain ⟨hbefore, houter⟩ := List.forall_mem_cons.1 h
    split
    · exact List.forall_mem_cons.2 ⟨List.forall_mem_append.2 ⟨hbefore, hinner⟩, houter⟩
    · refine List.forall_mem_singleton.2 fun o ho => ?_
      obtain ⟨os, hos, ho⟩ := List.mem_flatten.1 ho
      exact h os (List.mem_reverse.1 hos) o ho
    · rename_i form destination title label stop rest hclosing
      split at hclosing
      · cases hclosing
      · have hown := hP r b t ts hclosing
        refine List.forall_mem_cons.2 ⟨List.forall_mem_append.2 ⟨hbefore, ?_⟩, houter⟩
        unfold BracketKind.kept
        split
        · exact hown
        · exact List.forall_mem_append.2 ⟨hinner, hown⟩
  · exact h

theorem forall_noteTokens (hP : HeldByCompleted refs line P) (h : ∀ os ∈ noted, ∀ o ∈ os, P o)
    (fuel : Nat) (ts : List Token) :
    ∀ os ∈ noteTokens refs line fuel r noted ts, ∀ o ∈ os, P o := by
  induction fuel generalizing r noted ts with
  | zero => exact h
  | succ fuel ih =>
    cases ts with
    | nil => exact h
    | cons t ts => exact ih (forall_noteToken hP h t ts) _

theorem forall_occurrencesInLine (hP : HeldByCompleted refs line P) (ts : List Token) :
    ∀ o ∈ occurrencesInLine refs line ts, P o := by
  intro o ho
  obtain ⟨os, hos, ho⟩ := List.mem_flatten.1 ho
  exact forall_noteTokens hP (by simp) _ ts os (List.mem_reverse.1 hos) o ho

end

/-- A reference is undefined just if no definition is of its label. -/
def Occurrence.TellsDefined (definitions : List Definition) (o : Occurrence) : Prop :=
  o.form = .undefined ↔ ∀ d ∈ definitions, Label.matches d.label o.label.toList = false

theorem heldByCompleted_tellsDefined (refs : References) (line : List Char) :
    HeldByCompleted refs line (Occurrence.TellsDefined refs.definitions) := by
  intro r b t ts form destination title label stop rest hclosing o ho
  unfold completed at ho
  split at ho
  · rename_i hform
    obtain rfl := List.mem_singleton.1 ho
    simpa [Occurrence.TellsDefined, References.definition?] using
      undefined_iff_of_closing hclosing hform
  · cases ho

theorem tellsDefined_of_mem_line (refs : References) {line : List Char} {ts : List Token}
    {o : Occurrence} (h : o ∈ occurrencesInLine refs line ts) : o.TellsDefined refs.definitions :=
  forall_occurrencesInLine (heldByCompleted_tellsDefined refs line) ts o h

/-! ### The references of a text -/

mutual

def Node.occurrences (refs : References) : Node → List Occurrence
  | .paragraph _ _ content => occurrencesInLine refs content (tokens content)
  | .heading _ signs content =>
    let ts := tokens content
    occurrencesInLine refs content (if signs then trimSigns (signsLimit content) ts else ts)
  | .quote children | .list _ children | .item children => nodeOccurrences refs children
  | .table _ rows =>
    rows.flatten.flatMap fun cell =>
      occurrencesInLine { refs with inTable := true } cell (tokens cell)
  | .rule | .code _ _ | .html _ | .taskMark _ | .footnote _ _ => []

def nodeOccurrences (refs : References) : List Node → List Occurrence
  | [] => []
  | n :: ns => n.occurrences refs ++ nodeOccurrences refs ns

end

/-- The references of a text outside descriptions and footnotes, each after those inside it. -/
def Outline.occurrences (o : Outline) : List Occurrence :=
  nodeOccurrences ⟨o.definitions, o.footnotes, false⟩ o.nodes

mutual

theorem tellsDefined_of_mem_node {refs : References} {o : Occurrence} :
    (n : Node) → o ∈ n.occurrences refs → o.TellsDefined refs.definitions
  | .paragraph _ _ _, h | .heading _ _ _, h => tellsDefined_of_mem_line refs h
  | .quote children, h | .list _ children, h | .item children, h =>
    tellsDefined_of_mem_nodes children h
  | .table _ _, h => by
    obtain ⟨cell, -, ho⟩ := List.mem_flatMap.1 h
    exact tellsDefined_of_mem_line { refs with inTable := true } ho
  | .rule, h | .code _ _, h | .html _, h | .taskMark _, h | .footnote _ _, h => nomatch h

theorem tellsDefined_of_mem_nodes {refs : References} {o : Occurrence} :
    (ns : List Node) → o ∈ nodeOccurrences refs ns → o.TellsDefined refs.definitions
  | [], h => nomatch h
  | n :: ns, h =>
    (List.mem_append.1 h).elim (tellsDefined_of_mem_node n) (tellsDefined_of_mem_nodes ns)

end

end LiterateJournal.Markdown
