import LiterateJournal.Proofs.Site.Sources

/-!
# The entry of a site

The entry of a site follows from the names of its sources and from the pages that have been made. It
may be a list of these pages, which needs no images and is kept when no page has been made.

## Main definitions

* `entryChoice?`, `Settings.ListsPages` — the entry of a site, unless a list of the pages must be
  written.
* `Settings.indexText` — the list of the pages as a page.

## Main statements

* `returns_landingPage` — how the entry of a site is chosen.
* `plan?_indexDocument` — the list of the pages needs no images.
-/

namespace LiterateJournal

/-- The page that a site is entered by, unless a list of the pages must be written. -/
def entryChoice? (s : Settings) (sources documents : List String) (entries : List PageEntry)
    (hasIndex : Bool) : Option String :=
  match entries, documents with
  | [only], _ => some only.fileName
  | [], [only] => some (pageName only)
  | _, _ =>
    match defaultSource? sources with
    | some source => some (pageName source)
    | none => if entries.isEmpty && !s.overwrite && hasIndex then some indexName else none

def Settings.hasIndex (s : Settings) (files : FileTree) : Bool :=
  files.exists? (pagePath s.format (Path.join s.output indexName))

/-- How the entry of a site is chosen. -/
theorem returns_landingPage {s : Settings} {sources documents : List String}
    {entries : List PageEntry} {w w' : World} {file : String} (hsources : sources ≠ []) :
    Run.Returns (landingPage s sources documents entries) w file w' ↔
      (entryChoice? s sources documents entries (s.hasIndex w.files) = some file ∧ w' = w) ∨
        (entryChoice? s sources documents entries (s.hasIndex w.files) = none ∧ file = indexName ∧
          ∃ out, Run.Returns (renderDocument s (indexDocument entries s.landingTitle)
            s.landingTitle (Path.join s.output indexName)) w out w') := by
  have hempty : sources.isEmpty = false := by simpa using hsources
  -- what happens unless there is only one page
  have hrest {choice : Option String} (hchoice : choice =
      match defaultSource? sources with
      | some source => some (pageName source)
      | none =>
        if entries.isEmpty && !s.overwrite && s.hasIndex w.files then some indexName else none) :
      Run.Returns (do
        match defaultSource? sources with
        | some source => return pageName source
        | none =>
          let index := Path.join s.output indexName
          let isThere := (← Run.files).exists? (pagePath s.format index)
          if entries.isEmpty && !s.overwrite && isThere then return indexName
          let _ ← renderDocument s (indexDocument entries s.landingTitle) s.landingTitle index
          return indexName) w file w' ↔
      (choice = some file ∧ w' = w) ∨ (choice = none ∧ file = indexName ∧
        ∃ out, Run.Returns (renderDocument s (indexDocument entries s.landingTitle)
          s.landingTitle (Path.join s.output indexName)) w out w') := by
    subst hchoice
    cases defaultSource? sources with
    | some source => simp [eq_comm]
    | none =>
      have hindex : w.files.exists? (pagePath s.format (Path.join s.output indexName)) =
          s.hasIndex w.files := rfl
      simp only [Run.returns_bind, Run.returns_files, and_assoc, exists_and_left, exists_eq_left,
        hindex]
      by_cases hkeep : (entries.isEmpty && !s.overwrite && s.hasIndex w.files) = true
      · simp [hkeep, eq_comm]
      · simp only [hkeep, if_false, Run.returns_bind, Run.returns_pure, reduceCtorEq,
          false_and, false_or, true_and, Bool.false_eq_true]
        constructor
        · rintro ⟨out, _, h, rfl, rfl⟩
          exact ⟨rfl, out, h⟩
        · rintro ⟨rfl, out, h⟩
          exact ⟨out, w', h, rfl, rfl⟩
  unfold landingPage entryChoice?
  simp only [hempty, Bool.false_eq_true, if_false]
  rcases entries with _ | ⟨e, _ | ⟨e', es⟩⟩
  · rcases documents with _ | ⟨p, _ | ⟨p', ps⟩⟩
    · exact hrest rfl
    · simp [eq_comm]
    · exact hrest rfl
  · simp [eq_comm]
  · exact hrest rfl

/-- A list of the pages is written: there is not one page only, no source is the entry by its name,
and the list is not kept from an earlier build. -/
structure Settings.ListsPages (s : Settings) (files : FileTree) (entries : List PageEntry) :
    Prop where
  not_only : entries.length ≠ 1
  not_only_document : entries = [] → (s.documents files).length ≠ 1
  no_default : defaultSource? (s.sources files) = none
  not_kept : entries = [] → s.overwrite = false → s.hasIndex files = false

theorem entryChoice?_eq_none_iff {s : Settings} {files : FileTree} {entries : List PageEntry} :
    entryChoice? s (s.sources files) (s.documents files) entries (s.hasIndex files) = none ↔
      s.ListsPages files entries := by
  have hrest : (match defaultSource? (s.sources files) with
      | some source => some (pageName source)
      | none => if entries.isEmpty && !s.overwrite && s.hasIndex files then some indexName
        else none) = none ↔
      defaultSource? (s.sources files) = none ∧
        (entries = [] → s.overwrite = false → s.hasIndex files = false) := by
    cases defaultSource? (s.sources files) <;> simp
  unfold entryChoice?
  split
  · simpa using fun h : s.ListsPages files _ => h.not_only rfl
  · rename_i only hdocuments
    simpa using fun h : s.ListsPages files _ => h.not_only_document rfl (by rw [hdocuments]; rfl)
  · rename_i hentries hdocuments
    refine hrest.trans ⟨?_, fun h => ⟨h.no_default, h.not_kept⟩⟩
    · rintro ⟨hdefault, hkept⟩
      refine ⟨fun hone => ?_, fun hnil hone => ?_, hdefault, hkept⟩
      · obtain ⟨only, rfl⟩ := List.length_eq_one_iff.1 hone
        exact hentries only rfl
      · obtain ⟨only, honly⟩ := List.length_eq_one_iff.1 hone
        exact hdocuments only hnil honly

/-- A source whose page is the list of the pages is the entry by its name. -/
theorem defaultSource?_ne_none {sources : List String} {path : String} (hpath : path ∈ sources)
    (hsource : isSource path = true) (hindex : pageName path = indexName) :
    defaultSource? sources ≠ none := by
  intro hnone
  have hstem := pageName_eq_indexName_iff.1 hindex
  have hne := (isPageStem_of_isSource hsource).ne_nil
  rw [pageStem] at hstem hne
  cases hpathStem : Path.stem? path with
  | none =>
    rw [hpathStem] at hne
    exact hne rfl
  | some stem =>
    obtain rfl : stem = "index" := by simpa [hpathStem] using hstem
    have hfind := List.find?_eq_none.1 hnone path hpath
    rw [hpathStem] at hfind
    exact hfind (by decide)

/-- Whether the list of the pages is there matters only if no page has been made. -/
theorem entryChoice?_congr {s : Settings} {sources documents : List String}
    {entries : List PageEntry} {b b' : Bool} (h : entries = [] → b = b') :
    entryChoice? s sources documents entries b = entryChoice? s sources documents entries b' := by
  cases entries with
  | nil => rw [h rfl]
  | cons e es => simp [entryChoice?]

theorem entryChoice?_nil_of_length {s : Settings} {sources documents : List String} {b : Bool}
    (h : documents.length ≠ 1) :
    entryChoice? s sources documents [] b =
      match defaultSource? sources with
      | some source => some (pageName source)
      | none => if !s.overwrite && b then some indexName else none := by
  unfold entryChoice?
  split
  · rename_i heq
    cases heq
  · exact absurd rfl h
  · rfl

theorem entryChoice?_cons_cons {s : Settings} {sources documents : List String}
    {e e' : PageEntry} {es : List PageEntry} {b : Bool} :
    entryChoice? s sources documents (e :: e' :: es) b =
      (defaultSource? sources).map pageName := by
  cases hdefault : defaultSource? sources <;> simp [entryChoice?, hdefault]

/-! ### The list of the pages -/

theorem isPageStem_index : IsPageStem "index" := ⟨by decide, by decide⟩

def Settings.indexBlocks (s : Settings) (entries : List PageEntry) : List Block :=
  let blocks := (indexDocument entries s.landingTitle).blocks
  match s.format with
  | .html => blocks
  | .latex => dropTitles blocks

def Settings.indexText (s : Settings) (template : String) (entries : List PageEntry) : String :=
  s.pageText (indexDocument entries s.landingTitle) (s.indexBlocks entries) template s.landingTitle

theorem mapSpansInCellsM_items (links : LinkTable) (save : String → Except BuildError String)
    (entries : List PageEntry) :
    mapSpansInCellsM (Span.relocate links save)
        (entries.map fun e => [.paragraph [.link [.text e.title] e.fileName none]]) =
      .ok (entries.map fun e => [.paragraph [.link [.text e.title] e.fileName none]]) := by
  induction entries with
  | nil => rfl
  | cons e es ih =>
    rw [List.map_cons, mapSpansInCellsM, ih]
    rfl

theorem spansInCells_items (entries : List PageEntry) :
    spansInCells (entries.map fun e => [.paragraph [.link [.text e.title] e.fileName none]]) =
      entries.flatMap fun e => [.text e.title, .link [.text e.title] e.fileName none] := by
  induction entries with
  | nil => rfl
  | cons e es ih =>
    rw [List.map_cons, spansInCells, ih]
    rfl

theorem remoteImages_indexDocument (entries : List PageEntry) (heading : String) :
    remoteImages (indexDocument entries heading).links (indexDocument entries heading).blocks =
      [] := by
  have hspans : spansOf (indexDocument entries heading).blocks =
      .text heading :: entries.flatMap fun e =>
        [.text e.title, .link [.text e.title] e.fileName none] := by
    simp only [indexDocument, Document.ofBlocks, spansOf, Block.spans, innerSpans, Span.withInner,
      spansInCells_items, List.append_nil, List.singleton_append]
  have hnone : (spansOf (indexDocument entries heading).blocks).filterMap (Span.imageUrl? ∅) =
      [] := by
    rw [hspans, List.filterMap_eq_nil_iff]
    simp only [List.mem_cons, List.mem_flatMap, List.not_mem_nil, or_false]
    rintro span (rfl | ⟨e, -, rfl | rfl⟩) <;> rfl
  rw [remoteImages, show (indexDocument entries heading).links = ∅ from rfl, hnone]
  rfl

theorem relocateImages_indexDocument (entries : List PageEntry) (heading : String)
    (save : String → Except BuildError String) :
    relocateImages (indexDocument entries heading).links save
      (indexDocument entries heading).blocks = .ok (indexDocument entries heading).blocks := by
  have hitems := mapSpansInCellsM_items ∅ save entries
  simp only [indexDocument, Document.ofBlocks, relocateImages, mapSpansM, Block.mapSpansM, hitems]
  rfl

/-- The page that lists the others needs no images. -/
theorem plan?_indexDocument (s : Settings) (entries : List PageEntry) :
    s.plan? (indexDocument entries s.landingTitle) = some ([], s.indexBlocks entries) := by
  unfold Settings.plan? Settings.indexBlocks
  cases s.format with
  | html => rfl
  | latex =>
    simp [Document.imageCopies?, remoteImages_indexDocument, imageCopies?,
      relocateImages_indexDocument]

section

variable {s : Settings} {w : World} {l : Location}

/-- The list of the pages is written without copies of images. -/
theorem CanRender.of_indexDocument {entries : List PageEntry} {stem template : String}
    {copies : List ImageCopy} {blocks : List Block}
    (can : CanRender s (indexDocument entries s.landingTitle) stem w l template copies blocks) :
    copies = [] ∧ blocks = s.indexBlocks entries := by
  have hplan := can.plan
  rw [plan?_indexDocument] at hplan
  cases hplan
  exact ⟨rfl, rfl⟩

/-- What the list of the pages holds once it has been written. -/
theorem content?_render_indexDocument {entries : List PageEntry} {template : String}
    {copies : List ImageCopy} {blocks : List Block} (hl : w.files.DirectoryAt s.output l)
    (can : CanRender s (indexDocument entries s.landingTitle) "index" w l template copies blocks) :
    (w.render s (indexDocument entries s.landingTitle) s.landingTitle "index" l template copies
      blocks).files.content? (l.child (s.format.pageFile "index")) =
        some (.text (s.indexText template entries)) := by
  obtain ⟨rfl, rfl⟩ := can.of_indexDocument
  rw [FileTree.content?, get?_render s.landingTitle hl can]
  rfl

/-- The list of the pages is there once it has been written. -/
theorem hasIndex_render {d : Document} {template : String} {copies : List ImageCopy}
    {blocks : List Block} (hl : w.files.DirectoryAt s.output l)
    (can : CanRender s d "index" w l template copies blocks) {title : String} :
    s.hasIndex (w.render s d title "index" l template copies blocks).files = true := by
  have hget := get?_render title hl can
  have hpath : pagePath s.format (Path.join s.output indexName) =
      Path.join s.output (s.format.pageFile "index") :=
    pagePath_join isPageStem_index s.output can.dot
  rw [Settings.hasIndex, hpath]
  refine (exists?_iff ((evolves_render title hl can).directoryAt hl)
    (plain_pageFile isPageStem_index _)).2 ⟨can.publish.fits, ?_⟩
  rw [hget]
  rfl

end

end LiterateJournal
