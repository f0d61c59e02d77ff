import LiterateJournal.Proofs.Document.Walk
import LiterateJournal.Proofs.Output.HtmlPieces

/-!
# Link targets in HTML

Raw markup stands in a fragment as the document has it, and what a browser makes of it is not known.
Around its raw markup a fragment is read all the same, and the targets of links and images are found
there in the order of the document, with their characters as they were.

## Main definitions

* `Landmark`, `landmarkWalk` — the targets and the raw markup of a document.
* `Html.ReadsAs` — what a fragment is read as around its raw markup.

## Main statements

* `Html.shows_blocks` — the targets and the raw markup of a document stand in its fragment.
-/

namespace LiterateJournal

/-- The target of a link or an image, or raw markup. -/
inductive Landmark where
  | target (url : String)
  | raw (markup : String)
deriving Repr, DecidableEq

def Landmark.url? : Landmark → Option String
  | .target url => some url
  | .raw _ => none

section

variable (links : LinkTable)

mutual

def Span.landmarks : Span → List Landmark
  | .strong body | .emphasis body => landmarksInSpans body
  | .raw s => [.raw s]
  | .link body url _ => .target url :: landmarksInSpans body
  | .linkReference body _ key =>
    match links.get? key with
    | some target => .target target.url :: landmarksInSpans body
    | none => []
  | .image _ url _ => [.target url]
  | .imageReference _ _ key =>
    match links.get? key with
    | some target => [.target target.url]
    | none => []
  | .text _ | .code _ | .math _ _ | .lineBreak => []

def landmarksInSpans : List Span → List Landmark
  | [] => []
  | s :: rest => s.landmarks ++ landmarksInSpans rest

end

/-- A walk that collects the targets of links and images and the raw markup. -/
def landmarkWalk : Walk Landmark := ⟨Span.landmarks links, fun _ => [], fun markup => [.raw markup]⟩

@[simp] theorem landmarkWalk_span (s : Span) :
    (landmarkWalk links).span s = s.landmarks links := rfl

theorem landmarksInSpans_eq (spans : List Span) :
    landmarksInSpans links spans = (landmarkWalk links).spans spans := by
  induction spans with
  | nil => rfl
  | cons s spans ih => rw [Walk.spans_cons, ← ih, landmarkWalk_span, landmarksInSpans]

end

namespace Html

/-! ### Reading around raw markup -/

theorem read_eq_some_iff {w : String} {ts : List Token} :
    read w = some ts ↔ Scanner.Leads step .text w.toList ts .text := by
  rw [read, Scanner.Leads]
  split
  · rename_i tokens hrun
    simp [hrun]
  · rename_i hrun
    refine ⟨fun hnone => ?_, fun h => absurd h (hrun ts)⟩
    cases hnone

theorem read_append {v w : String} {ts us : List Token} (hv : read v = some ts)
    (hw : read w = some us) : read (v ++ w) = some (ts ++ us) := by
  rw [read_eq_some_iff] at hv hw ⊢
  rw [String.toList_append]
  exact hv.append hw

/-- A token of a fragment, or raw markup. -/
inductive Passage where
  | token (t : Token)
  | raw (markup : String)
deriving Repr, DecidableEq

/-- What a fragment is read as around its raw markup. -/
inductive ReadsAs : String → List Passage → Prop where
  | read {w : String} {ts : List Token} (h : read w = some ts) : ReadsAs w (ts.map .token)
  | raw (markup : String) : ReadsAs markup [.raw markup]
  | append {v w : String} {ps qs : List Passage} (hv : ReadsAs v ps) (hw : ReadsAs w qs) :
    ReadsAs (v ++ w) (ps ++ qs)

/-- The attribute that holds the target, in the tags of links and images. -/
def targetAttribute? (name : String) : Option String :=
  if name = "a" then some "href" else if name = "img" then some "src" else none

def Token.target? : Token → Option String
  | .opening name attributes => (targetAttribute? name).bind fun a => List.lookup a attributes
  | .char _ | .closing _ => none

def Token.landmark? (t : Token) : Option Landmark := t.target?.map .target

def Passage.landmark? : Passage → Option Landmark
  | .token t => t.landmark?
  | .raw markup => some (.raw markup)

/-- The target in a passage that is the tag of a link or an image. -/
def Passage.target? : Passage → Option String
  | .token t => t.target?
  | .raw _ => none

theorem filterMap_target? (passages : List Passage) :
    passages.filterMap Passage.target? =
      (passages.filterMap Passage.landmark?).filterMap Landmark.url? := by
  have hpassage : Passage.target? = fun p : Passage => p.landmark?.bind Landmark.url? := by
    funext p
    cases p with
    | raw markup => rfl
    | token t => cases ht : t.target? <;>
        simp [Passage.target?, Passage.landmark?, Token.landmark?, Landmark.url?, ht]
  rw [List.filterMap_filterMap, hpassage]

/-- Where no raw markup stands, the fragment is read throughout. -/
theorem exists_read_of_readsAs {w : String} {ps : List Passage} (h : ReadsAs w ps)
    (hraw : ∀ markup, .raw markup ∉ ps) : ∃ ts, read w = some ts ∧ ps = ts.map .token := by
  induction h with
  | @read w ts hread => exact ⟨ts, hread, rfl⟩
  | raw markup => simp at hraw
  | @append v w ps qs hv hw ihv ihw =>
    obtain ⟨ts, hts, rfl⟩ := ihv fun markup hm => hraw markup (List.mem_append_left _ hm)
    obtain ⟨us, hus, rfl⟩ := ihw fun markup hm => hraw markup (List.mem_append_right _ hm)
    exact ⟨ts ++ us, read_append hts hus, List.map_append.symm⟩

/-- Where all landmarks are targets, these are the targets in the tags of the fragment. -/
theorem exists_read_of_landmarks {w : String} {ps : List Passage} {urls : List String}
    (h : ReadsAs w ps) (hurls : ps.filterMap Passage.landmark? = urls.map .target) :
    ∃ ts, read w = some ts ∧ ts.filterMap Token.target? = urls := by
  have hraw (markup : String) : .raw markup ∉ ps := by
    intro hp
    have hlandmark : Landmark.raw markup ∈ urls.map .target :=
      hurls ▸ List.mem_filterMap.2 ⟨_, hp, rfl⟩
    simp at hlandmark
  obtain ⟨ts, hread, rfl⟩ := exists_read_of_readsAs h hraw
  refine ⟨ts, hread, ?_⟩
  have htargets := filterMap_target? (ts.map .token)
  rw [hurls, List.filterMap_map, List.filterMap_map] at htargets
  simpa [Function.comp_def, Passage.target?, Landmark.url?] using htargets

/-- A fragment can be read so that these are its landmarks. -/
def Shows (w : String) (landmarks : List Landmark) : Prop :=
  ∃ ps, ReadsAs w ps ∧ ps.filterMap Passage.landmark? = landmarks

/-- The name of an element that has no target. -/
structure IsPlain (name : String) : Prop where
  isName : IsName name
  no_target : targetAttribute? name = none

instance (name : String) : Decidable (IsPlain name) :=
  decidable_of_iff (IsName name ∧ targetAttribute? name = none)
    ⟨fun ⟨hname, htarget⟩ => ⟨hname, htarget⟩, fun ⟨hname, htarget⟩ => ⟨hname, htarget⟩⟩

theorem filterMap_char (cs : List Char) :
    (cs.map Token.char).filterMap Token.landmark? = [] :=
  List.filterMap_eq_nil_iff.2 (by simp [Token.landmark?, Token.target?])

namespace Shows

variable {v w : String} {ms ns : List Landmark}

theorem of_leads {ts : List Token} (h : Scanner.Leads step .text w.toList ts .text) :
    Shows w (ts.filterMap Token.landmark?) := by
  refine ⟨_, .read (read_eq_some_iff.2 h), ?_⟩
  rw [List.filterMap_map]
  rfl

theorem append (hv : Shows v ms) (hw : Shows w ns) : Shows (v ++ w) (ms ++ ns) := by
  obtain ⟨ps, hps, rfl⟩ := hv
  obtain ⟨qs, hqs, rfl⟩ := hw
  exact ⟨ps ++ qs, hps.append hqs, List.filterMap_append⟩

theorem raw (markup : String) : Shows markup [.raw markup] := ⟨_, .raw markup, rfl⟩

theorem empty : Shows "" [] := of_leads Written.empty.leads

theorem text (s : String) : Shows (escape s) [] :=
  filterMap_char s.toList ▸ of_leads (leads_text_escape s)

theorem own {s : String} (hs : s ∈ additions) : Shows s [] := by
  have hread := of_leads (Written.own hs).leads
  rwa [List.flatMap_singleton, Piece.tokens, filterMap_char] at hread

theorem line (h : Shows w ms) : Shows (w ++ "\n") ms := by
  simpa using h.append (own (s := "\n") (by decide))

theorem afterLine (h : Shows w ms) : Shows ("\n" ++ w) ms :=
  (own (s := "\n") (by decide)).append h

/-- An element shows the target in its tag, and what its content shows. -/
theorem element {name : String} {attributes : List Attribute} (hname : IsName name)
    (hattributes : ∀ a ∈ attributes, a.Proper) (h : Shows w ms) :
    Shows (Html.element name (writeAttributes attributes) w)
      ((Piece.opening name attributes).tokens.filterMap Token.landmark? ++ ms) := by
  have hopening := of_leads (leads_opening hname hattributes)
  have hclosing : Shows ("</" ++ name ++ ">") [] := of_leads (leads_closingTag hname)
  simpa [Html.element, String.append_assoc] using (hopening.append h).append hclosing

theorem plain {name : String} {attributes : List Attribute} (hname : IsPlain name)
    (hattributes : ∀ a ∈ attributes, a.Proper) (h : Shows w ms) :
    Shows (Html.element name (writeAttributes attributes) w) ms := by
  simpa [Piece.tokens, Token.landmark?, Token.target?, hname.no_target] using
    element hname.isName hattributes h

/-- An element without attributes. -/
theorem bare {name : String} (hname : IsPlain name) (h : Shows w ms) :
    Shows (Html.element name "" w) ms :=
  @plain w ms name [] hname (by simp) h

theorem void {name : String} (hname : IsPlain name) : Shows ("<" ++ name ++ " />") [] := by
  have hvoid := of_leads (@leads_void name [] hname.isName (by simp))
  simpa [Piece.tokens, Token.landmark?, Token.target?, hname.no_target, writeAttributes] using hvoid

theorem link (h : Shows w ms) (target : LinkTarget) :
    Shows (Html.link w target) (.target target.url :: ms) := by
  rw [Html.link, ← writeAttributes_link]
  have hlink := element (by decide : IsName "a") (proper_linkAttributes target) h
  simpa [Piece.tokens, Token.landmark?, Token.target?, targetAttribute?, linkAttributes,
    List.lookup_cons, Attribute.value] using hlink

theorem image (alt : String) (target : LinkTarget) :
    Shows (Html.image alt target) [.target target.url] := by
  have himage := of_leads (Written.image alt target).leads
  simpa [Piece.tokens, Token.landmark?, Token.target?, targetAttribute?, imageAttributes,
    List.lookup_cons, Attribute.value] using himage

theorem math (source : String) (display : Bool) :
    Shows (if display then "\\[" ++ escape source ++ "\\]" else "\\(" ++ escape source ++ "\\)")
      [] := by
  cases display
  · exact ((own (by decide)).append (text source)).append (own (by decide))
  · exact ((own (by decide)).append (text source)).append (own (by decide))

end Shows

section

variable (links : LinkTable)

mutual

theorem shows_span : (s : Span) → Shows (writeSpan links s) (s.landmarks links)
  | .text s => .text s
  | .code s => .bare (by decide) (.text s)
  | .strong body | .emphasis body => .bare (by decide) (shows_spans body)
  | .math source display => .math source display
  | .raw s => .raw s
  | .link body url title => .link (shows_spans body) ⟨url, title⟩
  | .linkReference body written key => by
    rw [writeSpan, Span.landmarks]
    cases links.get? key with
    | some target => exact .link (shows_spans body) target
    | none => exact .text written
  | .image alt url title => .image alt ⟨url, title⟩
  | .imageReference alt written key => by
    rw [writeSpan, Span.landmarks]
    cases links.get? key with
    | some target => exact .image alt target
    | none => exact .text written
  | .lineBreak => .line (.void (by decide : IsPlain "br"))

theorem shows_spans : (spans : List Span) →
    Shows (writeSpans links spans) (landmarksInSpans links spans)
  | [] => .empty
  | s :: rest => (shows_span s).append (shows_spans rest)

end

theorem shows_body (body : List Span) :
    Shows (writeSpans links body) ((landmarkWalk links).spans body) :=
  landmarksInSpans_eq links body ▸ shows_spans links body

theorem shows_item {item : List Block}
    (h : Shows (writeBlocks links item) ((landmarkWalk links).blocks item)) :
    Shows (writeItem links item) ((landmarkWalk links).blocks item) := by
  obtain ⟨body, rfl⟩ | ⟨hwrite, -⟩ := writeItem_cases links item []
  · rw [writeItem, Walk.blocks_singleton]
    exact shows_body links body
  · rw [hwrite]
    exact h.afterLine

theorem isPlain_headingElement (level : UInt8) : IsPlain (headingElement level) := by
  have hall : ∀ name ∈ ["h1", "h2", "h3", "h4", "h5", "h6"], IsPlain name := by decide
  exact hall _ (headingElement_mem level)

theorem isPlain_listElement : (kind : ListKind) → IsPlain (listElement kind)
  | .bulleted => (by decide : IsPlain "ul")
  | .numbered _ => (by decide : IsPlain "ol")

mutual

theorem shows_block : (b : Block) → Shows (writeBlock links b) ((landmarkWalk links).block b)
  | .heading level body => by
    rw [writeBlock, Walk.block]
    exact .line (.bare (isPlain_headingElement level) (shows_body links body))
  | .paragraph body => by
    rw [writeBlock, Walk.block]
    exact .line (.bare (by decide) (shows_body links body))
  | .code source language => by
    have hcode := Shows.plain (by decide : IsPlain "code") (proper_languageAttributes language)
      (.text source)
    rw [writeAttributes_language] at hcode
    rw [writeBlock.eq_def, Walk.block]
    exact .line (.bare (by decide) hcode)
  | .raw markup => by
    rw [writeBlock, Walk.block]
    split
    · exact .raw markup
    · exact .line (.raw markup)
  | .math source => by
    have hproper : Attribute.Proper ⟨"class", "math", none⟩ :=
      ⟨by decide, .inr (.inr ⟨rfl, .inl (by decide)⟩)⟩
    have hmath := Shows.plain (by decide : IsPlain "p") (List.forall_mem_singleton.2 hproper)
      (.math source true)
    rw [writeBlock, Walk.block]
    simpa [writeAttributes, Attribute.value, Span.landmarks] using hmath.line
  | .rule => by
    rw [writeBlock, Walk.block]
    exact .line (.void (by decide : IsPlain "hr"))
  | .list kind items => by
    rw [writeBlock, Walk.block, ← writeAttributes_start]
    exact .line (.plain (isPlain_listElement kind) (proper_startAttributes kind)
      (shows_items items).afterLine)
  | .quote body => by
    rw [writeBlock, Walk.block]
    exact .line (.bare (by decide) (shows_blocks body).afterLine)
  | .table alignments header rows => by
    have hheader := shows_cells (by decide : IsPlain "th") alignments header
    have hbody :=
      (Shows.bare (by decide : IsPlain "tbody") (shows_rows alignments rows).afterLine).line
    rw [writeBlock, Walk.block]
    refine .line (.bare (by decide) ?_)
    cases header with
    | nil => simpa [Walk.cells] using hbody.afterLine
    | cons cell cells =>
      have hhead := (Shows.bare (by decide : IsPlain "thead")
        (.bare (by decide : IsPlain "tr") hheader)).line
      simpa [String.append_assoc] using (hhead.append hbody).afterLine

/-- The targets and the raw markup of a document stand in its fragment. -/
theorem shows_blocks : (blocks : List Block) →
    Shows (writeBlocks links blocks) ((landmarkWalk links).blocks blocks)
  | [] => by
    rw [writeBlocks, Walk.blocks]
    exact .empty
  | b :: bs => by
    rw [writeBlocks, Walk.blocks]
    exact (shows_block b).append (shows_blocks bs)

theorem shows_items : (items : List (List Block)) →
    Shows (writeItems links items) ((landmarkWalk links).cells items)
  | [] => by
    rw [writeItems, Walk.cells]
    exact .empty
  | item :: items => by
    rw [writeItems, Walk.cells, String.append_assoc]
    exact .append (.bare (by decide) (shows_item links (shows_blocks item)))
      (shows_items items).afterLine

theorem shows_cells {name : String} (hname : IsPlain name) (alignments : List Alignment) :
    (cells : List (List Block)) →
    Shows (writeCells links name alignments cells) ((landmarkWalk links).cells cells)
  | [] => by
    rw [writeCells, Walk.cells]
    exact .empty
  | cell :: cells => by
    rw [writeCells, Walk.cells, ← writeAttributes_alignment]
    exact .append (.plain hname (proper_alignmentAttributes _)
      (shows_item links (shows_blocks cell))) (shows_cells hname alignments.tail cells)

theorem shows_rows (alignments : List Alignment) : (rows : List (List (List Block))) →
    Shows (writeRows links alignments rows) ((landmarkWalk links).rows rows)
  | [] => by
    rw [writeRows, Walk.rows]
    exact .empty
  | row :: rows => by
    rw [writeRows, Walk.rows, String.append_assoc]
    exact .append (.bare (by decide) (shows_cells (by decide : IsPlain "td") alignments row))
      (shows_rows alignments rows).afterLine

end

end

end Html

end LiterateJournal
