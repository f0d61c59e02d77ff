import LiterateJournal.Output.Format
import LiterateJournal.Proofs.Markdown.Links
import LiterateJournal.Proofs.Markdown.Stretches
import LiterateJournal.Proofs.Output.HtmlTargets

/-!
# Link targets

Links and images stand in the fragment of a text in the order of the text. A link by label leads
where the link table has it, any other link leads to its destination as it is written. A mail
address is a destination without a scheme, and what is in the brackets before an undefined label is
not written, so the targets there are not those of the text.

## Main definitions

* `Tree.targets` — the targets of the links and images in a line of text.
* `Tree.landmarks` — what a line of text leaves in the fragment.
* `Tree.keepsTargets` — no link to a mail address, and no target before an undefined label.
* `LinkTable.Answers` — a table has what the reader of a text has found for its references.

## Main statements

* `follows_landmarkWalk` — the spans of a line have the landmarks of its trees.
* `targets_kept_iff` — the targets in the fragment of a text, and when they are those of the text.
-/

namespace LiterateJournal

open Markdown

/-- A link table has the target that the reader of a text has found for each link and image by a
label, and nothing for those whose label is not defined. -/
def LinkTable.Answers (links : LinkTable) (es : List Event) : Prop :=
  ∀ form destination title label, Refers es form destination title label →
    (links.get? label).map LinkTarget.url =
      if form = .undefined then none else some destination

/-- The table of a text answers for it, in whatever order it is made, if all labels in the text are
squeezed. -/
theorem answers_linksOf {cs : List Char} (order : DefinitionOrder)
    (hdefinitions : ∀ d ∈ (Outline.ofText cs).definitions, SqueezedLabel d.label)
    (hlabels : ∀ label, Mentioned (Outline.ofText cs).events label →
      SqueezedLabel label.toList) :
    (linksOf (order.arrange (Outline.ofText cs).definitions)).Answers
      (Outline.ofText cs).events := by
  intro form destination title label hrefers
  have hlabel := hlabels label ⟨form, destination, title, hrefers⟩
  rw [linksOf_perm_of_squeezed hdefinitions (order.perm _),
    get?_linksOf_of_refers hdefinitions hlabel hrefers]
  split <;> rfl

namespace Markdown

/-! ### The targets of a text -/

def LinkForm.target? (destination : String) : LinkForm → Option String
  | .undefined => none
  | .mail => some ("mailto:" ++ destination)
  | .inline | .full | .collapsed | .shortcut | .address => some destination

/-- The targets of a container in a line of text, given those of its content. The description of an
image has none, unless the image is undefined and its description is text. -/
def Tag.targets (tag : Tag) (inner : List String) : List String :=
  match tag with
  | .link form destination _ _ => (form.target? destination).toList ++ inner
  | .image form destination _ _ =>
    match form.target? destination with
    | some target => [target]
    | none => inner
  | _ => inner

mutual

def Tree.targets : Tree → List String
  | .leaf _ => []
  | .node tag ts => tag.targets (targetsOf ts)

def targetsOf : List Tree → List String
  | [] => []
  | t :: ts => t.targets ++ targetsOf ts

end

/-- The targets of the links and images in a stretch of the source. -/
def Stretch.targets (s : Stretch) : List String :=
  match s.kind with
  | .line t => t.targets
  | .code _ | .markup _ => []

/-- Whether all targets of a container are kept, given the targets of its content and whether they
are kept. -/
def Tag.keepsTargets (tag : Tag) (inner : List String) (kept : Bool) : Bool :=
  match tag with
  | .link .mail _ _ _ | .image .mail _ _ _ => false
  | .link .undefined _ _ _ | .image .undefined _ _ _ => inner.isEmpty
  | .image _ _ _ _ => true
  | _ => kept

mutual

/-- Whether a tree of a line has no mail address and no target before an undefined label. -/
def Tree.keepsTargets : Tree → Bool
  | .leaf _ => true
  | .node tag ts => tag.keepsTargets (targetsOf ts) (keepTargets ts)

/-- Whether some trees of a line have no mail address and no target before an undefined label. -/
def keepTargets : List Tree → Bool
  | [] => true
  | t :: ts => t.keepsTargets && keepTargets ts

end

/-- Whether a stretch of the source has no mail address and no target before an undefined label. -/
def Stretch.keepsTargets (s : Stretch) : Bool :=
  match s.kind with
  | .line t => t.keepsTargets
  | .code _ | .markup _ => true

/-! ### The landmarks of a line -/

section

variable (links : LinkTable)

/-- Where a link or an image leads in the fragment, if anywhere. -/
def reached? (form : LinkForm) (destination label : String) : Option String :=
  if form.isReference then (links.get? label).map LinkTarget.url else some destination

/-- The landmarks that a container of a line leaves in the fragment, given those of its content. -/
def Tag.landmarks (tag : Tag) (inner : List Landmark) : List Landmark :=
  match tag with
  | .link form destination _ label =>
    match reached? links form destination label with
    | some url => .target url :: inner
    | none => []
  | .image form destination _ label =>
    (reached? links form destination label).toList.map .target
  | _ => inner

mutual

/-- The landmarks that a tree of a line leaves in the fragment. -/
def Tree.landmarks : Tree → List Landmark
  | .leaf (.html s) | .leaf (.inlineHtml s) => [.raw s]
  | .leaf _ => []
  | .node tag ts => tag.landmarks links (landmarksOf ts)

/-- The landmarks that some trees of a line leave in the fragment. -/
def landmarksOf : List Tree → List Landmark
  | [] => []
  | t :: ts => t.landmarks ++ landmarksOf ts

end

theorem landmarks_addText (s : String) (spans : List Span) :
    (landmarkWalk links).spans (addText s spans).reverse =
      (landmarkWalk links).spans spans.reverse := by
  unfold addText
  split <;> simp [Span.landmarks]

theorem landmarks_addLeaf (spans : List Span) (l : Leaf) :
    (landmarkWalk links).spans (addLeaf spans l).reverse =
      (landmarkWalk links).spans spans.reverse ++ (Tree.leaf l).landmarks links := by
  cases l <;> simp [addLeaf, landmarks_addText, Tree.landmarks]
  all_goals rfl

theorem landmarks_addContainer {tag : Tag} (h : tag.isInline = true) (body before : List Span) :
    (landmarkWalk links).spans (addContainer tag body before).reverse =
      (landmarkWalk links).spans before.reverse ++
        tag.landmarks links ((landmarkWalk links).spans body) := by
  cases tag with
  | emphasis | strong | strikethrough =>
    simp [addContainer, landmarksInSpans_eq, Tag.landmarks, Span.landmarks]
  | link form destination title label | image form destination title label =>
    cases hform : form.isReference with
    | false =>
      simp [addContainer, hform, reached?, landmarksInSpans_eq, Tag.landmarks, Span.landmarks]
    | true =>
      cases hget : links.get? label <;>
        simp [addContainer, hform, hget, reached?, landmarksInSpans_eq, Tag.landmarks,
          Span.landmarks]
  | _ => cases h

theorem landmarksOf_eq_flatMap (ts : List Tree) :
    landmarksOf links ts = ts.flatMap (Tree.landmarks links) := by
  induction ts with
  | nil => rfl
  | cons t ts ih => rw [landmarksOf, ih, List.flatMap_cons]

/-- The spans of a line have the landmarks of its trees. -/
theorem follows_landmarkWalk : (landmarkWalk links).Follows (Tree.landmarks links) := by
  refine Walk.follows_of_containers (fun l spans => landmarks_addLeaf links spans l) ?_
  intro tag ts htag body before hbody
  rw [landmarks_addContainer links htag, hbody, Tree.landmarks, landmarksOf_eq_flatMap]

end

/-! ### Landmarks and targets -/

/-- Of some targets no more are found than there are, and just those if a condition holds. -/
structure Kept (found targets : List String) (condition : Bool) : Prop where
  length_le : found.length ≤ targets.length
  eq_iff : found = targets ↔ condition = true

namespace Kept

variable {found targets more rest : List String} {p q : Bool}

theorem refl (targets : List String) : Kept targets targets true := ⟨le_rfl, by simp⟩

theorem append (h : Kept found targets p) (hmore : Kept more rest q) :
    Kept (found ++ more) (targets ++ rest) (p && q) := by
  have hle := h.length_le
  have hmorele := hmore.length_le
  constructor
  · simp only [List.length_append]
    omega
  · rw [Bool.and_eq_true, ← h.eq_iff, ← hmore.eq_iff]
    refine ⟨fun heq => List.append_inj heq ?_, fun ⟨hfound, hrest⟩ => hfound ▸ hrest ▸ rfl⟩
    have hlength := congrArg List.length heq
    simp only [List.length_append] at hlength
    omega

/-- A target that is found is one of the text, if it is the next one there. -/
theorem cons (h : Kept found targets p) (url : String) : Kept (url :: found) (url :: targets) p :=
  ⟨Nat.succ_le_succ h.length_le, by simpa using h.eq_iff⟩

theorem nil_left (targets : List String) : Kept [] targets targets.isEmpty :=
  ⟨Nat.zero_le _, by rw [List.isEmpty_iff, eq_comm]⟩

/-- The target of a link to a mail address is never found. -/
theorem mail (hle : found.length ≤ targets.length) (address : String) :
    Kept (address :: found) (("mailto:" ++ address) :: targets) false := by
  refine ⟨Nat.succ_le_succ hle, iff_of_false (fun heq => ?_) Bool.false_ne_true⟩
  have hlength := congrArg String.length (List.cons.inj heq).1
  rw [String.length_append] at hlength
  have hscheme : "mailto:".length = 7 := by decide
  omega

end Kept

section

variable {links : LinkTable} {es : List Event}

theorem reached?_eq {form : LinkForm} {destination title label : String}
    (h : links.Answers es)
    (hevent : Event.enter (.link form destination title label) ∈ es ∨
      Event.enter (.image form destination title label) ∈ es) :
    reached? links form destination label =
      if form = .undefined then none else some destination := by
  cases hform : form.isReference with
  | true => rw [reached?, if_pos hform, h form destination title label ⟨hform, hevent⟩]
  | false =>
    have hdefined : form ≠ .undefined := by
      rintro rfl
      cases hform
    simp [reached?, hform, hdefined]

theorem kept_container {tag : Tag} {inner : List Landmark} {targets : List String} {kept : Bool}
    (h : links.Answers es) (htag : Event.enter tag ∈ es)
    (hinner : Kept (inner.filterMap Landmark.url?) targets kept) :
    Kept ((tag.landmarks links inner).filterMap Landmark.url?) (tag.targets targets)
      (tag.keepsTargets targets kept) := by
  cases tag with
  | link form destination title label =>
    have hreached := reached?_eq h (.inl htag)
    rw [Tag.landmarks, hreached]
    cases form with
    | undefined => exact .nil_left targets
    | mail => exact .mail hinner.length_le destination
    | inline | full | collapsed | shortcut | address => exact hinner.cons destination
  | image form destination title label =>
    have hreached := reached?_eq h (.inr htag)
    rw [Tag.landmarks, hreached]
    cases form with
    | undefined => exact .nil_left targets
    | mail => exact @Kept.mail [] [] le_rfl destination
    | inline | full | collapsed | shortcut | address => exact .refl [destination]
  | _ => exact hinner

mutual

theorem kept_tree (h : links.Answers es) : (t : Tree) → (∀ e ∈ t.events, e ∈ es) →
    Kept ((t.landmarks links).filterMap Landmark.url?) t.targets t.keepsTargets
  | .leaf l, _ => by cases l <;> exact .refl []
  | .node tag ts, hevents => by
    rw [events_node, List.forall_mem_cons, List.forall_mem_append] at hevents
    exact kept_container h hevents.1 (kept_trees h ts hevents.2.1)

theorem kept_trees (h : links.Answers es) : (ts : List Tree) →
    (∀ e ∈ Tree.forestEvents ts, e ∈ es) →
    Kept ((landmarksOf links ts).filterMap Landmark.url?) (targetsOf ts) (keepTargets ts)
  | [], _ => .refl []
  | t :: ts, hevents => by
    rw [forestEvents_cons, List.forall_mem_append] at hevents
    rw [landmarksOf, List.filterMap_append]
    exact (kept_tree h t hevents.1).append (kept_trees h ts hevents.2)

end

def Event.label? : Event → Option String
  | .enter (.link form _ _ label) | .enter (.image form _ _ label) =>
    if form.isReference then some label else none
  | _ => none

theorem mem_filterMap_label? {label : String} (h : Mentioned es label) :
    label ∈ es.filterMap Event.label? := by
  obtain ⟨form, destination, title, hform, hevent⟩ := h
  obtain hevent | hevent := hevent <;>
    exact List.mem_filterMap.2 ⟨_, hevent, by simp [Event.label?, hform]⟩

/-- The events of a line of the source are among those of the source. -/
def Stretch.Within (es : List Event) (s : Stretch) : Prop :=
  ∀ t, s.kind = .line t → ∀ e ∈ t.events, e ∈ es

mutual

theorem within_stretches (inNote : Bool) : (t : Tree) →
    ∀ s ∈ t.stretches inNote, s.Within t.events
  | .leaf l, s, hs => by
    obtain rfl := List.mem_singleton.1 hs
    rintro _ ⟨⟩ e he
    exact he
  | .node tag ts, s, hs => by
    intro line hline e he
    cases tag with
    | codeBlock | htmlBlock =>
      obtain rfl := List.mem_singleton.1 hs
      cases hline
    | emphasis | strong | strikethrough | link | image =>
      obtain rfl := List.mem_singleton.1 hs
      cases hline
      exact he
    | _ =>
      have hinner := within_stretchesOf _ ts s hs line hline e he
      rw [events_node]
      exact List.mem_cons_of_mem _ (List.mem_append_left _ hinner)

theorem within_stretchesOf (inNote : Bool) : (ts : List Tree) →
    ∀ s ∈ stretchesOf inNote ts, s.Within (Tree.forestEvents ts)
  | [], _, hs => nomatch hs
  | t :: ts, s, hs => by
    intro line hline e he
    rw [forestEvents_cons]
    exact (List.mem_append.1 hs).elim
      (fun hs => List.mem_append_left _ (within_stretches inNote t s hs line hline e he))
      (fun hs => List.mem_append_right _ (within_stretchesOf inNote ts s hs line hline e he))

end

theorem kept_stretches (h : links.Answers es) {ss : List Stretch} (hss : ∀ s ∈ ss, s.Within es) :
    Kept ((ss.flatMap ((landmarkWalk links).stretch (Tree.landmarks links))).filterMap
        Landmark.url?) (ss.flatMap Stretch.targets) (ss.all Stretch.keepsTargets) := by
  induction ss with
  | nil => exact .refl []
  | cons s ss ih =>
    obtain ⟨hs, hss⟩ := List.forall_mem_cons.1 hss
    rw [List.all_cons, List.flatMap_cons, List.flatMap_cons, List.filterMap_append]
    refine .append ?_ (ih hss)
    obtain ⟨inNote, kind⟩ := s
    cases kind with
    | line t => exact kept_tree h t (hs t rfl)
    | code source | markup source => exact .refl []

end

end Markdown

def fragmentOf (text : String) (order : DefinitionOrder := .ofText) : String :=
  OutputFormat.html.writeBody (parseMarkdown text order).2 (parseMarkdown text order).1

/-- The fragment of a text holds the landmarks of its lines and the raw markup among its blocks. -/
theorem shows_parseMarkdown (text : String) (order : DefinitionOrder) :
    let links := (parseMarkdown text order).2
    Html.Shows (fragmentOf text order)
      ((landmarkWalk links).stretches (Tree.landmarks links)
        (stretchesOf false (Outline.ofText text.toList).forest)) := by
  intro links
  have hblocks := Html.shows_blocks links (parseMarkdown text).1
  rwa [Walk.blocks_parseMarkdown (follows_landmarkWalk _)] at hblocks

/-- Around its raw markup the fragment of a text holds the targets of the links and images in the
text, where those by a label lead where the table has it. If the table answers for the text, as it
does if all labels are squeezed, all targets of the text are kept just if no link leads to a mail
address and no target stands before an undefined label. -/
theorem targets_kept_iff (text : String) (order : DefinitionOrder) :
    let events := (Outline.ofText text.toList).events
    let source := stretchesOf false (Outline.ofText text.toList).forest
    let links := (parseMarkdown text order).2
    (∃ passages, Html.ReadsAs (fragmentOf text order) passages ∧
      passages.filterMap Html.Passage.landmark? =
        (landmarkWalk links).stretches (Tree.landmarks links) source ∧
      (links.Answers events →
        (passages.filterMap Html.Passage.target? = (outsideNotes source).flatMap Stretch.targets ↔
          (outsideNotes source).all Stretch.keepsTargets = true))) ∧
    ((∀ d ∈ (Outline.ofText text.toList).definitions, SqueezedLabel d.label) →
      (∀ label, Mentioned events label → SqueezedLabel label.toList) → links.Answers events) := by
  intro events source links
  obtain ⟨passages, hreads, hlandmarks⟩ := shows_parseMarkdown text order
  refine ⟨⟨passages, hreads, hlandmarks, fun hanswers => ?_⟩, answers_linksOf order⟩
  have hwithin : ∀ s ∈ outsideNotes source, s.Within events := fun s hs =>
    within_stretchesOf false _ s (List.mem_of_mem_filter hs)
  rw [Html.filterMap_target?, hlandmarks]
  exact (kept_stretches hanswers hwithin).eq_iff

/-- Links and images of all kinds but mail addresses, in a heading, in a list in a quote and in a
paragraph. -/
def linkText : String := "# [a](/u)\n\n> - *[b][L]* ![c][] [l]\n\n<xy:z>\n\n[l]: /v\n[c]: /w\n"

theorem read_linkText :
    let o := Outline.ofText linkText.toList
    let links := (parseMarkdown linkText).2
    o.definitions.map Definition.label = ["l".toList, "c".toList] ∧
      o.events.filterMap Event.label? = ["L", "c", "l"] ∧
      (outsideNotes (stretchesOf false o.forest)).all Stretch.keepsTargets = true ∧
      (landmarkWalk links).stretches (Tree.landmarks links) (stretchesOf false o.forest) =
        ["/u", "/v", "/w", "/v", "xy:z"].map .target := by
  decide +kernel

/-- The targets of the text are read from its fragment. -/
theorem targets_kept_linkText :
    ∃ tokens, Html.read (fragmentOf linkText) = some tokens ∧
      tokens.filterMap Html.Token.target? = ["/u", "/v", "/w", "/v", "xy:z"] ∧
      (outsideNotes (stretchesOf false (Outline.ofText linkText.toList).forest)).flatMap
        Stretch.targets = ["/u", "/v", "/w", "/v", "xy:z"] := by
  obtain ⟨hdefinitions, hlabels, hkept, hlandmarks⟩ := read_linkText
  obtain ⟨⟨passages, hreads, hfound, htargets⟩, hanswers⟩ := targets_kept_iff linkText .ofText
  have hsqueezed : ∀ d ∈ (Outline.ofText linkText.toList).definitions, SqueezedLabel d.label := by
    rw [← List.forall_mem_map, hdefinitions]
    refine List.forall_mem_cons.2 ⟨?_, List.forall_mem_singleton.2 ?_⟩ <;>
      exact squeezedLabel_of_isPlainAscii (by decide) (by decide)
  have hmentioned : ∀ label, Mentioned (Outline.ofText linkText.toList).events label →
      SqueezedLabel label.toList := by
    intro label hlabel
    have hmem := mem_filterMap_label? hlabel
    rw [hlabels] at hmem
    have hplain : ∀ l ∈ ["L", "c", "l"],
        l.toList.all isPlainAscii = true ∧ Text.squeezeBy isGap l.toList = l.toList := by decide
    exact squeezedLabel_of_isPlainAscii (hplain label hmem).1 (hplain label hmem).2
  have hurls := hfound.trans hlandmarks
  obtain ⟨tokens, hread, htokens⟩ := Html.exists_read_of_landmarks hreads hurls
  refine ⟨tokens, hread, htokens, ?_⟩
  rw [← (htargets (hanswers hsqueezed hmentioned)).2 hkept, Html.filterMap_target?, hurls]
  rfl

def mailText : String := "<a@b.c>"

/-- The link lacks the scheme of its target. -/
theorem mail_scheme_lost :
    (∃ tokens, Html.read (fragmentOf mailText) = some tokens ∧
        tokens.filterMap Html.Token.target? = ["a@b.c"]) ∧
      (outsideNotes (stretchesOf false (Outline.ofText mailText.toList).forest)).flatMap
        Stretch.targets = ["mailto:a@b.c"] := by
  have hmail : (landmarkWalk (parseMarkdown mailText).2).stretches
        (Tree.landmarks (parseMarkdown mailText).2)
        (stretchesOf false (Outline.ofText mailText.toList).forest) = ["a@b.c"].map .target ∧
      (outsideNotes (stretchesOf false (Outline.ofText mailText.toList).forest)).flatMap
        Stretch.targets = ["mailto:a@b.c"] := by decide +kernel
  obtain ⟨passages, hreads, hlandmarks⟩ := shows_parseMarkdown mailText .ofText
  exact ⟨Html.exists_read_of_landmarks hreads (hlandmarks.trans hmail.1), hmail.2⟩

end LiterateJournal
