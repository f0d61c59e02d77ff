import LiterateJournal.Markdown.Forest
import LiterateJournal.Proofs.Markdown.Emphasis

/-!
# References follow definitions

A link or an image by label is made at a closing bracket, and takes its destination and title from
the definition of the label. All other steps in the reading of inline content leave the tags of
links and images as they are.

## Main definitions

* `Tag.Follows` — a reference leads where the definition of its label does.
* `KeptByLinks` — a property that emphasis keeps, and so do links that follow the definitions.

## Main statements

* `Reading.Have.readToken`, `Reading.Have.readTokens` — what one token and what a whole line keeps.
* `forall_treesOfTokens` — a property kept by links and emphasis holds of a line's trees.
* `Outline.follows_of_mem_events` — the references of a text follow its definitions.
-/

namespace LiterateJournal.Markdown

/-- A link or image by label has the destination and title that the definition of its label gives;
one of the form `undefined` has a label without a definition. -/
def LinkForm.Follows (definitions : List Definition) (form : LinkForm)
    (destination title label : String) : Prop :=
  match form with
  | .full | .collapsed | .shortcut =>
    ∃ d, (definitions.find? fun d => Label.matches d.label label.toList) = some d ∧
      destination = String.ofList d.destination ∧ title = String.ofList d.title
  | .undefined => (definitions.find? fun d => Label.matches d.label label.toList) = none
  | .inline | .address | .mail => True

/-- A reference leads where the definition of its label does. -/
def Tag.Follows (definitions : List Definition) : Tag → Prop
  | .link form destination title label | .image form destination title label =>
    form.Follows definitions destination title label
  | _ => True

/-- All references in a tree lead where the definitions of their labels do. -/
def Tree.Follows (definitions : List Definition) (t : Tree) : Prop :=
  ∀ tag, Event.enter tag ∈ t.events → tag.Follows definitions

section

variable {definitions : List Definition}

theorem Tree.mem_forestEvents {e : Event} {ts : List Tree} :
    e ∈ forestEvents ts ↔ ∃ t ∈ ts, e ∈ t.events := by
  induction ts with
  | nil => simp [forestEvents]
  | cons t ts ih => simp [forestEvents, ih]

theorem Tree.follows_leaf (l : Leaf) : (Tree.leaf l).Follows definitions := by
  intro tag h
  simp [Tree.events] at h

theorem Tree.follows_node {tag : Tag} {ts : List Tree} (htag : tag.Follows definitions)
    (hts : ∀ t ∈ ts, t.Follows definitions) : (Tree.node tag ts).Follows definitions := by
  intro tag' h
  simp only [Tree.events, List.mem_cons, List.mem_append, Event.enter.injEq,
    Tree.mem_forestEvents] at h
  obtain rfl | ⟨t, ht, hmem⟩ | h := h
  · exact htag
  · exact hts t ht tag' hmem
  · simp at h

end

/-- A property that leaves have, that emphasis keeps, and that a link or an image has if its parts
do and it leads where the definitions say. -/
structure KeptByLinks (definitions : List Definition) (Q : Tree → Prop) : Prop
    extends KeptByMarks Q where
  link {form : LinkForm} {destination title label : String} {ts : List Tree}
    (hform : form.Follows definitions destination title label) (hts : ∀ t ∈ ts, Q t) :
    Q (.node (.link form destination title label) ts)
  image {form : LinkForm} {destination title label : String} {ts : List Tree}
    (hform : form.Follows definitions destination title label) (hts : ∀ t ∈ ts, Q t) :
    Q (.node (.image form destination title label) ts)

theorem keptByLinks_follows (definitions : List Definition) :
    KeptByLinks definitions (Tree.Follows definitions) where
  leaf := Tree.follows_leaf
  node htag hts := by
    obtain rfl | rfl | rfl := htag <;> exact Tree.follows_node trivial hts
  link hform hts := Tree.follows_node hform hts
  image hform hts := Tree.follows_node hform hts

/-! ### One closing bracket -/

namespace Reading

/-- All trees that have been read have a property. -/
structure Have (Q : Tree → Prop) (r : Reading) : Prop where
  brackets : ∀ b ∈ r.brackets, ∀ p ∈ b.before, p.Has Q
  pieces : ∀ p ∈ r.pieces, p.Has Q

section

variable {Q : Tree → Prop} {r : Reading} {b : Bracket}

theorem Have.add (h : r.Have Q) {p : Piece} (hp : p.Has Q) : (r.add p).Have Q :=
  ⟨h.brackets, List.forall_mem_cons.2 ⟨hp, h.pieces⟩⟩

theorem Have.push (h : r.Have Q) (kind : BracketKind) (t : Token) : (r.push kind t).Have Q :=
  ⟨List.forall_mem_cons.2 ⟨h.pieces, h.brackets⟩, by simp [Reading.push]⟩

theorem Have.disableLinks (h : r.Have Q) : r.disableLinks.Have Q where
  brackets := by
    refine List.forall_mem_map.2 fun b hb => ?_
    split <;> exact h.brackets b hb
  pieces := h.pieces

variable (hQ : KeptByMarks Q)

include hQ

theorem Have.addLeaf (h : r.Have Q) (l : Leaf) : (r.addLeaf l).Have Q := h.add (hQ.leaf l)

theorem Have.addText (h : r.Have Q) (cs : List Char) : (r.addText cs).Have Q := h.add (hQ.leaf _)

theorem Have.abandon (h : r.Have Q) (hb : ∀ p ∈ b.before, p.Has Q) : (abandon b r).Have Q :=
  ⟨h.brackets, List.forall_mem_append.2 ⟨h.pieces, List.forall_mem_cons.2 ⟨hQ.leaf _, hb⟩⟩⟩

theorem Have.abandonAll (h : r.Have Q) : r.abandonAll.Have Q := by
  have hfold (brackets : List Bracket) (r : Reading) (hr : r.Have Q)
      (hb : ∀ b ∈ brackets, ∀ p ∈ b.before, p.Has Q) :
      (brackets.foldl (fun r b => Reading.abandon b r) r).Have Q := by
    induction brackets generalizing r with
    | nil => exact hr
    | cons b brackets ih =>
      obtain ⟨hb, hbrackets⟩ := List.forall_mem_cons.1 hb
      exact ih _ (hr.abandon hQ hb) hbrackets
  exact ⟨by simp [Reading.abandonAll], (hfold _ r h h.brackets).pieces⟩

end

section

variable {Q : Tree → Prop} {refs : References} {r : Reading} {b : Bracket}
  (hQ : KeptByLinks refs.definitions Q)

include hQ

/-- A completed link or image has a property that links keep if it leads where it has to. -/
theorem Have.link (h : r.Have Q) (hb : ∀ p ∈ b.before, p.Has Q) {form : LinkForm}
    {destination title label : List Char}
    (hform : form.Follows refs.definitions (String.ofList destination) (String.ofList title)
      (String.ofList label)) :
    (r.link b form destination title label).Have Q := by
  have hchildren : ∀ t ∈ resolve r.pieces.reverse, Q t :=
    forall_resolve hQ.toKeptByMarks fun p hp => h.pieces p (List.mem_reverse.1 hp)
  have htree : Q (linkTree b.kind form destination title label r.pieces) := by
    unfold linkTree
    dsimp only
    split
    · exact hQ.image hform hchildren
    · exact hQ.link hform hchildren
  have hread : Reading.Have Q { r with
      pieces := .tree (linkTree b.kind form destination title label r.pieces) :: b.before } :=
    ⟨h.brackets, List.forall_mem_cons.2 ⟨htree, hb⟩⟩
  unfold Reading.link
  dsimp only
  split
  · exact hread
  · exact hread.disableLinks

theorem Have.closeBracket (h : r.Have Q) (hb : ∀ p ∈ b.before, p.Has Q) (t : Token)
    (ts : List Token) : (closeBracket refs r b t ts).1.Have Q := by
  unfold Markdown.closeBracket
  extract_lets asText opening before byOwnLabel
  have htext : asText.1.Have Q :=
    (h.abandon hQ.toKeptByMarks hb).addText hQ.toKeptByMarks _
  have hown (form : LinkForm) (hform : form = .collapsed ∨ form = .shortcut) (rest : List Token) :
      (byOwnLabel form rest).1.Have Q := by
    dsimp only [byOwnLabel]
    split
    · split
      · refine Have.abandonAll hQ.toKeptByMarks ⟨h.brackets, List.forall_mem_cons.2 ⟨hQ.leaf _, ?_⟩⟩
        dsimp only [before]
        split
        · exact List.forall_mem_cons.2 ⟨hQ.leaf _, hb⟩
        · exact hb
      · exact htext
    · split
      · rename_i label _ d hd
        refine h.link hQ hb ?_
        obtain rfl | rfl := hform <;> exact ⟨d, by rwa [String.toList_ofList], rfl, rfl⟩
      · exact htext
    · exact htext
  split
  · exact h.link hQ hb trivial
  · split
    · exact hown _ (.inr rfl) _
    · split
      · exact hown _ (.inl rfl) _
      · split
        · split
          · rename_i label _ _ _ d hd
            exact h.link hQ hb ⟨d, by rwa [String.toList_ofList], rfl, rfl⟩
          · rename_i hd
            exact h.link hQ hb (by simpa [LinkForm.Follows, References.definition?] using hd)
        · exact hown _ (.inr rfl) _

end

/-! ### Whole lines -/

section

variable {Q : Tree → Prop} {refs : References} {r : Reading}

theorem follows_of_autolink? {definitions : List Definition} {cs address rest : List Char}
    {form : LinkForm} (h : autolink? cs = some (form, address, rest)) (d t l : String) :
    form.Follows definitions d t l := by
  unfold autolink? at h
  split at h
  · cases h
    trivial
  · obtain ⟨_, _, heq⟩ := Option.map_eq_some_iff.1 h
    cases heq
    trivial

theorem Have.readAngle (hQ : KeptByLinks refs.definitions Q) (h : r.Have Q) (t : Token)
    (ts : List Token) : (readAngle r t ts).1.Have Q := by
  unfold Markdown.readAngle
  split
  · exact h.addText hQ.toKeptByMarks _
  · split
    · rename_i hlink
      refine h.add (hQ.link (follows_of_autolink? hlink _ _ _) ?_)
      exact List.forall_mem_singleton.2 (hQ.leaf _)
    · split
      · exact h.addLeaf hQ.toKeptByMarks _
      · exact h.addText hQ.toKeptByMarks _

theorem Have.readTicks (hQ : KeptByMarks Q) (h : r.Have Q) (inTable : Bool)
    (count : Nat) (escaped : Bool) (t : Token) (ts : List Token) :
    (readTicks inTable count escaped r t ts).1.Have Q := by
  unfold Markdown.readTicks
  extract_lets wanted read
  split
  · refine Have.addLeaf hQ ?_ _
    dsimp only [read]
    split
    · exact h.addText hQ _
    · exact h
  · exact h.addText hQ _

theorem Have.readDollar (hQ : KeptByMarks Q) (h : r.Have Q)
    (inTable canOpen : Bool) (braces : Nat) (t : Token) (ts : List Token) :
    (readDollar inTable canOpen braces r t ts).1.Have Q := by
  unfold Markdown.readDollar
  extract_lets source asText
  have htext : asText.1.Have Q := h.addText hQ _
  split
  · exact htext
  · split
    · split
      · split
        · exact h.addLeaf hQ _
        · exact htext
      · split
        · exact h.addLeaf hQ _
        · exact htext
    · exact htext

/-- What one token keeps. -/
theorem Have.readToken (hQ : KeptByLinks refs.definitions Q) (h : r.Have Q) (t : Token)
    (ts : List Token) : (readToken refs r t ts).1.Have Q := by
  have hmarks := hQ.toKeptByMarks
  unfold Markdown.readToken
  split
  · exact h.addText hmarks _
  · exact h.addText hmarks _
  · exact h.add trivial
  · exact h.readDollar hmarks _ _ _ t ts
  · exact h.readTicks hmarks _ _ _ t ts
  · exact h.push _ t
  · exact h.push _ t
  · split
    · exact h.addText hmarks _
    · rename_i b outer hbrackets
      obtain ⟨hb, houter⟩ := List.forall_mem_cons.1 (hbrackets ▸ h.brackets)
      have hinside : Reading.Have Q { r with brackets := outer } := ⟨houter, h.pieces⟩
      dsimp only
      split
      · exact (hinside.abandon hmarks hb).addText hmarks _
      · exact hinside.closeBracket hQ hb t ts
  · exact h.readAngle hQ t ts
  · exact h.addLeaf hmarks _
  · exact h.add trivial
  · exact h.addLeaf hmarks _

/-- What a line keeps. -/
theorem Have.readTokens (hQ : KeptByLinks refs.definitions Q) (h : r.Have Q) (fuel : Nat)
    (ts : List Token) : (readTokens refs fuel r ts).Have Q := by
  induction fuel generalizing r ts with
  | zero => exact h
  | succ fuel ih =>
    cases ts with
    | nil => exact h
    | cons t ts => exact ih (h.readToken hQ t ts) _

end

end Reading

/-! ### The forest -/

/-- What leaves have, and emphasis and links keep, holds of the trees that a line makes up. -/
theorem forall_treesOfTokens {Q : Tree → Prop} {refs : References}
    (hQ : KeptByLinks refs.definitions Q) (ts : List Token) : ∀ t ∈ treesOfTokens refs ts, Q t := by
  have hstart : Reading.start.Have Q := ⟨List.forall_mem_nil _, List.forall_mem_nil _⟩
  have hread := (hstart.readTokens hQ ts.length ts).abandonAll hQ.toKeptByMarks
  exact forall_resolve hQ.toKeptByMarks fun p hp => hread.pieces p (List.mem_reverse.1 hp)

section

variable (refs : References)

theorem follows_treesOfTokens (ts : List Token) :
    ∀ t ∈ treesOfTokens refs ts, t.Follows refs.definitions :=
  forall_treesOfTokens (keptByLinks_follows _) ts

theorem follows_cellTree (content : List Char) : (cellTree refs content).Follows refs.definitions :=
  Tree.follows_node trivial (follows_treesOfTokens { refs with inTable := true } _)

mutual

theorem follows_trees (n : Node) : ∀ t ∈ n.trees refs, t.Follows refs.definitions := by
  cases n with
  | paragraph tight task content =>
    have hline : ∀ t ∈ (task.toList.map fun ticked => Tree.leaf (.taskMark ticked)) ++
        inlineTrees refs content, t.Follows refs.definitions := by
      refine List.forall_mem_append.2 ⟨?_, follows_treesOfTokens refs _⟩
      exact List.forall_mem_map.2 fun _ _ => Tree.follows_leaf _
    simp only [Node.trees]
    split
    · exact hline
    · exact List.forall_mem_singleton.2 (Tree.follows_node trivial hline)
  | heading level signs content =>
    exact List.forall_mem_singleton.2 (Tree.follows_node trivial (follows_treesOfTokens refs _))
  | rule => exact List.forall_mem_singleton.2 (Tree.follows_leaf _)
  | code info source =>
    exact List.forall_mem_singleton.2
      (Tree.follows_node trivial (List.forall_mem_singleton.2 (Tree.follows_leaf _)))
  | html markup =>
    exact List.forall_mem_singleton.2
      (Tree.follows_node trivial (List.forall_mem_singleton.2 (Tree.follows_leaf _)))
  | quote children =>
    exact List.forall_mem_singleton.2 (Tree.follows_node trivial (follows_nodeTrees children))
  | list start items =>
    exact List.forall_mem_singleton.2 (Tree.follows_node trivial (follows_nodeTrees items))
  | item children =>
    exact List.forall_mem_singleton.2 (Tree.follows_node trivial (follows_nodeTrees children))
  | taskMark ticked => exact List.forall_mem_singleton.2 (Tree.follows_leaf _)
  | table alignments rows =>
    have hcells (row : List (List Char)) :
        ∀ t ∈ row.map (cellTree refs), t.Follows refs.definitions :=
      List.forall_mem_map.2 fun content _ => follows_cellTree refs content
    refine List.forall_mem_singleton.2 (Tree.follows_node trivial (List.forall_mem_cons.2 ⟨?_, ?_⟩))
    · exact Tree.follows_node trivial (hcells _)
    · exact List.forall_mem_map.2 fun row _ => Tree.follows_node trivial (hcells row)
  | footnote label children =>
    exact List.forall_mem_singleton.2 (Tree.follows_node trivial (follows_nodeTrees children))

theorem follows_nodeTrees (ns : List Node) :
    ∀ t ∈ nodeTrees refs ns, t.Follows refs.definitions := by
  cases ns with
  | nil => simp [nodeTrees]
  | cons n ns => exact List.forall_mem_append.2 ⟨follows_trees n, follows_nodeTrees ns⟩

end

end

/-- All links and images by label in a text lead where its definitions say. -/
theorem Outline.follows_of_mem_events {o : Outline} {tag : Tag} (h : Event.enter tag ∈ o.events) :
    tag.Follows o.definitions := by
  obtain ⟨t, ht, hmem⟩ := Tree.mem_forestEvents.1 h
  exact follows_nodeTrees _ o.nodes t ht tag hmem

end LiterateJournal.Markdown
