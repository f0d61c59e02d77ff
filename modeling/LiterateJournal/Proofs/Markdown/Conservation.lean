import LiterateJournal.Proofs.Markdown.Stretches
import LiterateJournal.Proofs.Text.Trim

/-!
# The text of a document

The blocks of a Markdown text hold the content of all its events, each of them once and in the order
of the text, but for the definitions of footnotes, which are left out. Code ends without line feeds,
and in place of a line break, a task mark or a reference to a footnote there is a mark.

## Main definitions

* `textOfBlocks` — the text found in a document.
* `contentOfEvents` — the text that the events of a document hold.
* `Stretch.content`, `Stretch.shown` — the text of a stretch of the source, and what is found.

## Main statements

* `follows_textWalk` — a line of text shows the contents and the marks of its leaves.
* `contentOfEvents_ofText` — the stretches of the source hold the text of its events.
* `text_kept_iff` — the text of a document, and when it is the whole of its source.
-/

namespace LiterateJournal

open Markdown

/-! ### The text found in a document -/

/-- A walk that collects the text of spans, code and markup; the text of an image is its
description. -/
def textWalk : Walk Char := ⟨fun s => s.plainText.toList, String.toList, String.toList⟩

def textOfBlocks (blocks : List Block) : String := String.ofList (textWalk.blocks blocks)

@[simp] theorem plainTexts_eq (spans : List Span) : Span.plainTexts spans = plainText spans := rfl

@[simp] theorem plainText_nil : plainText [] = "" := rfl

@[simp] theorem plainText_cons (s : Span) (spans : List Span) :
    plainText (s :: spans) = s.plainText ++ plainText spans := rfl

@[simp] theorem plainText_append (a b : List Span) :
    plainText (a ++ b) = plainText a ++ plainText b := by
  induction a with
  | nil => simp
  | cons s a ih => simp [ih, String.append_assoc]

theorem textWalk_spans (spans : List Span) : textWalk.spans spans = (plainText spans).toList := by
  induction spans with
  | nil => rfl
  | cons s spans ih =>
    rw [Walk.spans_cons, ih, plainText_cons, String.toList_append]
    rfl

namespace Markdown

/-! ### The text that the source holds -/

def Leaf.content : Leaf → String
  | .text s | .code s | .inlineMath s | .displayMath s | .html s | .inlineHtml s => s
  | .softBreak | .hardBreak | .rule | .taskMark _ | .footnoteReference _ => ""

/-- What is found for a leaf: its content or else a mark in place of it, which is a line break, a
task mark or the label of a footnote. -/
def Leaf.shown : Leaf → String
  | .softBreak => "\n"
  | .hardBreak => " "
  | .taskMark ticked => if ticked then "[x] " else "[ ] "
  | .footnoteReference label => "[^" ++ label ++ "]"
  | l => l.content

section

variable (f : Leaf → String)

mutual

/-- The text of a tree of a line, given that of leaves. -/
def Tree.textBy : Tree → String
  | .leaf l => f l
  | .node _ ts => textsBy ts

def textsBy : List Tree → String
  | [] => ""
  | t :: ts => t.textBy ++ textsBy ts

end

end

/-- The text of some stretches of the source, given that of each. -/
def textOfStretches (g : Stretch → String) (ss : List Stretch) : String := String.join (ss.map g)

def Stretch.content (s : Stretch) : String :=
  match s.kind with
  | .line t => t.textBy Leaf.content
  | .code source | .markup source => source

/-- What is found for a stretch of the source, given what is found for leaves. Code ends without
line feeds. -/
def Stretch.shownBy (f : Leaf → String) (s : Stretch) : String :=
  match s.kind with
  | .line t => t.textBy f
  | .code source => codeSource source
  | .markup source => source

def Stretch.shown : Stretch → String := Stretch.shownBy Leaf.shown

def Event.content : Event → String
  | .leaf l => l.content
  | .enter _ | .leave => ""

def contentOfEvents (es : List Event) : String := String.join (es.map Event.content)

/-! ### Lines of text -/

theorem plainText_addText (s : String) (spans : List Span) :
    plainText (addText s spans).reverse = plainText spans.reverse ++ s := by
  unfold addText
  split <;> simp [Span.plainText, String.append_assoc]

theorem plainText_addLeaf (spans : List Span) (l : Leaf) :
    plainText (addLeaf spans l).reverse = plainText spans.reverse ++ l.shown := by
  cases l <;> simp [addLeaf, plainText_addText, Span.plainText, Leaf.shown, Leaf.content]

theorem plainText_addContainer {tag : Tag} (h : tag.isInline = true) (body before : List Span) :
    plainText (addContainer tag body before).reverse =
      plainText before.reverse ++ plainText body := by
  cases tag with
  | emphasis | strong | strikethrough => simp [addContainer, Span.plainText]
  | link form | image form =>
    cases hform : form.isReference <;> simp [addContainer, hform, Span.plainText]
  | _ => cases h

theorem toList_textsBy (f : Leaf → String) (ts : List Tree) :
    (textsBy f ts).toList = ts.flatMap fun t => (t.textBy f).toList := by
  induction ts with
  | nil => rfl
  | cons t ts ih => rw [textsBy, String.toList_append, ih, List.flatMap_cons]

/-- A line of text shows the contents and the marks of its leaves. -/
theorem follows_textWalk : textWalk.Follows fun t => (t.textBy Leaf.shown).toList := by
  refine Walk.follows_of_containers (fun l spans => ?_) fun tag ts htag body before hbody => ?_
  · rw [textWalk_spans, textWalk_spans, plainText_addLeaf, String.toList_append]
    rfl
  · rw [textWalk_spans] at hbody
    rw [textWalk_spans, textWalk_spans, plainText_addContainer htag, String.toList_append, hbody,
      Tree.textBy, toList_textsBy]

theorem trees_textWalk (ts : List Tree) :
    textWalk.trees (fun t => (t.textBy Leaf.shown).toList) ts =
      (textOfStretches Stretch.shown (outsideNotes (stretchesOf false ts))).toList := by
  rw [Walk.trees, Walk.stretches]
  induction outsideNotes (stretchesOf false ts) with
  | nil => rfl
  | cons s ss ih =>
    obtain ⟨inNote, kind⟩ := s
    rw [List.flatMap_cons, ih]
    cases kind <;>
      simp [textOfStretches, Stretch.shown, Stretch.shownBy, Walk.stretch, textWalk]

/-- But for marks, a stretch is found as it is, up to the line feeds at the end of code. -/
theorem exists_shownBy_append (s : Stretch) :
    ∃ feeds, s.content = s.shownBy Leaf.content ++ feeds ∧ ∀ c ∈ feeds.toList, c = '\n' := by
  obtain ⟨inNote, kind⟩ := s
  cases kind with
  | line t => exact ⟨"", by simp [Stretch.content, Stretch.shownBy]⟩
  | markup source => exact ⟨"", by simp [Stretch.content, Stretch.shownBy]⟩
  | code source =>
    obtain ⟨feeds, hsource, hfeeds⟩ := Text.exists_dropEndWhile_append (· = '\n') source.toList
    refine ⟨String.ofList feeds, ?_, by simpa using hfeeds⟩
    calc
      source = String.ofList source.toList := String.ofList_toList.symm
      _ = codeSource source ++ String.ofList feeds :=
        (congrArg String.ofList hsource).trans String.ofList_append

/-! ### The text of the events -/

section

variable {ts : List Tree}

@[simp] theorem contentOfEvents_append (es fs : List Event) :
    contentOfEvents (es ++ fs) = contentOfEvents es ++ contentOfEvents fs := by
  induction es with
  | nil => simp [contentOfEvents]
  | cons e es ih => simp_all [contentOfEvents, String.append_assoc]

theorem contentOfEvents_node (tag : Tag) (ts : List Tree) :
    contentOfEvents (Tree.node tag ts).events = contentOfEvents (Tree.forestEvents ts) := by
  have hnode : (Tree.node tag ts).events =
      [.enter tag] ++ (Tree.forestEvents ts ++ [.leave]) := events_node tag ts
  rw [hnode, contentOfEvents_append, contentOfEvents_append]
  simp [contentOfEvents, Event.content]

@[simp] theorem textOfStretches_append (g : Stretch → String) (ss us : List Stretch) :
    textOfStretches g (ss ++ us) = textOfStretches g ss ++ textOfStretches g us := by
  induction ss with
  | nil => simp [textOfStretches]
  | cons s ss ih => simp_all [textOfStretches, String.append_assoc]

mutual

theorem textBy_content : (t : Tree) → t.textBy Leaf.content = contentOfEvents t.events
  | .leaf l => by simp [Tree.textBy, contentOfEvents, Event.content]
  | .node tag ts => by rw [Tree.textBy, textsBy_content ts, contentOfEvents_node]

theorem textsBy_content : (ts : List Tree) →
    textsBy Leaf.content ts = contentOfEvents (Tree.forestEvents ts)
  | [] => rfl
  | t :: ts => by
    rw [textsBy, textBy_content t, textsBy_content ts, forestEvents_cons, contentOfEvents_append]

end

/-- The stretches of a tree hold the text of its events. -/
def Tree.HoldsText (t : Tree) : Prop :=
  ∀ inNote, contentOfEvents t.events = textOfStretches Stretch.content (t.stretches inNote)

theorem contentOfEvents_of_holdsText (h : ∀ t ∈ ts, t.HoldsText) (inNote : Bool) :
    contentOfEvents (Tree.forestEvents ts) =
      textOfStretches Stretch.content (stretchesOf inNote ts) := by
  induction ts with
  | nil => rfl
  | cons t ts ih =>
    obtain ⟨ht, hts⟩ := List.forall_mem_cons.1 h
    rw [forestEvents_cons, contentOfEvents_append, ht inNote, ih hts, stretchesOf,
      textOfStretches_append]

theorem holdsText_of_isInline {t : Tree} (h : t.IsInline) : t.HoldsText := by
  intro inNote
  rw [stretches_of_isInline h, ← textBy_content]
  simp [textOfStretches, Stretch.content]

/-- A container that is no stretch by itself holds the text that the trees inside it hold. -/
theorem holdsText_node {tag : Tag} (h : ∀ t ∈ ts, t.HoldsText)
    (hstretches : ∀ inNote, ∃ inner, (Tree.node tag ts).stretches inNote = stretchesOf inner ts) :
    (Tree.node tag ts).HoldsText := by
  intro inNote
  obtain ⟨inner, hinner⟩ := hstretches inNote
  rw [contentOfEvents_node, hinner, contentOfEvents_of_holdsText h inner]

theorem holdsText_row {tag : Tag} {cells : List (List Tree)}
    (htag : tag = .tableHead ∨ tag = .tableRow) (h : ∀ cell ∈ cells, ∀ t ∈ cell, t.IsInline) :
    (rowTree tag cells).HoldsText := by
  refine holdsText_node (List.forall_mem_map.2 fun cell hcell => ?_) fun inNote => ⟨inNote, ?_⟩
  · exact holdsText_node (fun t ht => holdsText_of_isInline (h cell hcell t ht))
      fun inNote => ⟨inNote, rfl⟩
  · obtain rfl | rfl := htag <;> rfl

/-- Leaves of text or of markup hold what is read of them. -/
theorem contentOfEvents_leaves {l : String → Leaf}
    (h : ∀ s, (l s).content = s ∧ ∀ ts, verbatim (.leaf (l s) :: ts) = s ++ verbatim ts)
    (sources : List String) :
    contentOfEvents (Tree.forestEvents (sources.map fun s => .leaf (l s))) =
      verbatim (sources.map fun s => .leaf (l s)) := by
  induction sources with
  | nil => rfl
  | cons s sources ih =>
    have hleaf : contentOfEvents (Tree.leaf (l s)).events = s := by
      simp [contentOfEvents, Event.content, (h s).1]
    rw [List.map_cons, forestEvents_cons, contentOfEvents_append, ih, hleaf, (h s).2]

theorem holdsText_of_isBlock {t : Tree} (h : t.IsBlock) : t.HoldsText := by
  induction h with
  | loose h => exact holdsText_of_isInline h
  | paragraph hts | heading level hts =>
    exact holdsText_node (fun t ht => holdsText_of_isInline (hts t ht)) fun inNote => ⟨inNote, rfl⟩
  | quote hts ih => exact holdsText_node ih fun inNote => ⟨inNote, rfl⟩
  | footnote label hts ih => exact holdsText_node ih fun inNote => ⟨true, rfl⟩
  | list start hitems ih =>
    refine holdsText_node (List.forall_mem_map.2 fun item hitem => ?_) fun inNote => ⟨inNote, rfl⟩
    exact holdsText_node (ih item hitem) fun inNote => ⟨inNote, rfl⟩
  | table alignments hhead hrows =>
    refine holdsText_node (List.forall_mem_cons.2 ⟨?_, List.forall_mem_map.2 fun row hrow => ?_⟩)
      fun inNote => ⟨inNote, rfl⟩
    · exact holdsText_row (.inl rfl) hhead
    · exact holdsText_row (.inr rfl) (hrows row hrow)
  | code info sources =>
    intro inNote
    rw [contentOfEvents_node, contentOfEvents_leaves fun _ => ⟨rfl, fun _ => rfl⟩]
    simp [Tree.stretches, textOfStretches, Stretch.content]
  | html markups =>
    intro inNote
    rw [contentOfEvents_node, contentOfEvents_leaves fun _ => ⟨rfl, fun _ => rfl⟩]
    simp [Tree.stretches, textOfStretches, Stretch.content]

/-- The stretches of the source of a text hold the text of its events. -/
theorem contentOfEvents_ofText (cs : List Char) :
    contentOfEvents (Outline.ofText cs).events =
      textOfStretches Stretch.content (stretchesOf false (Outline.ofText cs).forest) :=
  contentOfEvents_of_holdsText
    (fun _ ht => holdsText_of_isBlock (Outline.isBlock_of_mem_forest ht)) false

end

/-! ### What is left out -/

section

variable (g : Stretch → String)

theorem length_textOfStretches_outsideNotes_le (ss : List Stretch) :
    (textOfStretches g (outsideNotes ss)).length ≤ (textOfStretches g ss).length := by
  induction ss with
  | nil => rfl
  | cons s ss ih => cases hs : s.inNote <;> simp_all [textOfStretches, outsideNotes]; omega

/-- Nothing is lost with the definitions of footnotes just if they hold nothing. -/
theorem textOfStretches_outsideNotes_eq_iff (ss : List Stretch) :
    textOfStretches g (outsideNotes ss) = textOfStretches g ss ↔
      ∀ s ∈ ss, s.inNote = true → g s = "" := by
  induction ss with
  | nil => simp [outsideNotes]
  | cons s ss ih =>
    have hcons : textOfStretches g (s :: ss) = g s ++ textOfStretches g ss := by
      simp [textOfStretches]
    rw [List.forall_mem_cons, ← ih, hcons]
    cases hs : s.inNote with
    | false =>
      have houtside : outsideNotes (s :: ss) = s :: outsideNotes ss := by simp [outsideNotes, hs]
      simp [houtside, textOfStretches]
    | true =>
      have houtside : outsideNotes (s :: ss) = outsideNotes ss := by simp [outsideNotes, hs]
      have hle := length_textOfStretches_outsideNotes_le g ss
      rw [houtside]
      constructor
      · intro heq
        have hempty : g s = "" := by
          have hlength := congrArg String.length heq
          rw [String.length_append] at hlength
          exact String.length_eq_zero_iff.1 (by omega)
        exact ⟨fun _ => hempty, by simpa [hempty] using heq⟩
      · rintro ⟨hempty, heq⟩
        rw [hempty rfl, heq, String.empty_append]

end

end Markdown

/-- The blocks of a text hold what is found for the stretches of its source outside the definitions
of footnotes, all of them in order, and nothing else. All stretches together hold what the events
hold, and each is found as it is, but for marks and for the line feeds at the end of code. So no
content is lost just if there is none in the definitions of footnotes. -/
theorem text_kept_iff (text : String) :
    let events := (Outline.ofText text.toList).events
    let source := stretchesOf false (Outline.ofText text.toList).forest
    textOfBlocks (parseMarkdown text).1 = textOfStretches Stretch.shown (outsideNotes source) ∧
      contentOfEvents events = textOfStretches Stretch.content source ∧
      (∀ s ∈ source, ∃ feeds, s.content = s.shownBy Leaf.content ++ feeds ∧
        ∀ c ∈ feeds.toList, c = '\n') ∧
      (textOfStretches Stretch.content (outsideNotes source) = contentOfEvents events ↔
        ∀ s ∈ source, s.inNote = true → s.content = "") := by
  intro events source
  have hevents : contentOfEvents events = textOfStretches Stretch.content source :=
    contentOfEvents_ofText text.toList
  refine ⟨?_, hevents, fun s _ => exists_shownBy_append s, ?_⟩
  · rw [textOfBlocks, Walk.blocks_parseMarkdown follows_textWalk, trees_textWalk,
      String.ofList_toList]
  · rw [hevents]
    exact textOfStretches_outsideNotes_eq_iff Stretch.content source

def noteText : String := "[^1]\n\n[^1]: note\n"

/-- The text of a footnote is lost. -/
theorem note_lost :
    textOfBlocks (parseMarkdown noteText).1 = "[^1]" ∧
      contentOfEvents (Outline.ofText noteText.toList).events = "note" := by
  decide +kernel

end LiterateJournal
