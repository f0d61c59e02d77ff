import LiterateJournal.Proofs.Site.Alike
import LiterateJournal.Proofs.Site.Entry
import LiterateJournal.Proofs.Site.Rebuild
import LiterateJournal.Proofs.Site.Upkeep

/-!
# Builds of all pages

A build that makes all pages again enters the site by the page of its only document, by the one that
is the entry by its name, or by a list of all pages. A build that makes only the old pages again
knows of these alone, so that it may choose another entry or write a shorter list.

## Main definitions

* `Settings.overwriting` — the settings of a build that makes all pages again.
* `Settings.allEntries` — the list of all pages.
* `EntryAgrees` — two builds enter the site by the same page.

## Main statements

* `BuildStages.entries_eq_allEntries` — a build of all pages lists every document.
* `entry_agrees_iff` — when the entry of a site does not depend on the pages made again.
-/

namespace LiterateJournal

def Settings.overwriting (s : Settings) : Settings := { s with overwrite := true }

def Settings.entryOf (s : Settings) (files : FileTree) (path : String) : PageEntry :=
  ⟨pageName path, ((s.read files path).toOption.map Document.pageTitle).getD untitled⟩

def Settings.allEntries (s : Settings) (files : FileTree) : List PageEntry :=
  (s.documents files).map (s.entryOf files)

/-! ### All pages -/

section

variable {s : Settings} {l : Location} {start : World} {docs : List String}

theorem Processed.entry?_of_overwrite {path : String} {w w' : World} {o : Outcome} {d : Document}
    (h : Processed s l path w o w') (hoverwrite : s.overwrite = true)
    (hsource : isSource path = true) (hread : s.read w.files path = .ok d) :
    o.entry? = some (s.entryOf w.files path) := by
  have hstale : s.needsPage w.files path = true := needsPage_eq_true_iff.2 (.inl hoverwrite)
  cases h with
  | skipped fresh =>
    rw [fresh] at hstale
    cases hstale
  | failed stale e read =>
    rw [hread] at read
    cases read
  | generated stale d' read =>
    obtain rfl : d = d' := Except.ok.inj (hread.symm.trans read)
    simp [Outcome.entry?, Settings.entryOf, pageName_sourceName hsource, hread, Except.toOption]

/-- All documents that can be read get a page, in their order. -/
theorem entries_of_overwrite {paths : List String} {w w' : World} {outcomes : List Outcome}
    (hst : DocumentsStage s l start docs) (hoverwrite : s.overwrite = true)
    (hread : ∀ p ∈ docs, ∃ d, s.read start.files p = .ok d) (hpaths : ∀ p ∈ paths, p ∈ docs)
    (hw : World.Evolves (fun k => ∃ stem, PageChanges s l stem k) start w)
    (h : Run.Returns (buildDocuments s paths) w outcomes w') :
    outcomes.filterMap Outcome.entry? = paths.map (s.entryOf start.files) := by
  induction paths generalizing w outcomes with
  | nil =>
    obtain ⟨rfl, -⟩ := returns_buildDocuments_nil.1 h
    rfl
  | cons path paths ih =>
    obtain ⟨o, v, rest, ho, -, hrest, rfl⟩ := returns_buildDocuments_cons.1 h
    have hpath := hpaths path List.mem_cons_self
    have hl := hw.directoryAt hst.output
    have hprocessed := (returns_buildDocument hl (hst.isSource hpath)).1 ho
    -- the sources are those of the start
    obtain ⟨m, x, hat⟩ := hst.sourceAt path hpath
    have hsame : s.read w.files path = s.read start.files path := read_eq_of_stat_eq
      (hat.stat_eq hw (fun _ hk => hk) fun hlatex => hst.apart hlatex m hat.root)
    obtain ⟨d, hd⟩ := hread path hpath
    have hentry := hprocessed.entry?_of_overwrite hoverwrite (hst.isSource hpath)
      (hsame.trans hd)
    rw [Settings.entryOf, hsame] at hentry
    rw [List.filterMap_cons, hentry, List.map_cons,
      ih (fun p hp => hpaths p (List.mem_cons_of_mem _ hp))
        (hw.trans ((hprocessed.evolves hl).weaken fun _ hk => ⟨_, hk.2⟩)) hrest]
    rfl

end

section

variable {s : Settings} {w start built w' : World} {r : BuildReport} {l : Location}

/-- A build of all pages lists every document. -/
theorem BuildStages.entries_eq_allEntries (h : BuildStages s w start built r w')
    (hst : DocumentsStage s l start (s.documents start.files)) (hoverwrite : s.overwrite = true)
    (hread : ∀ p ∈ s.documents start.files, ∃ d, s.read start.files p = .ok d) :
    r.entries = s.allEntries start.files := by
  rw [h.entries]
  exact entries_of_overwrite hst hoverwrite hread (fun _ => id) (World.evolves_report _ _ _)
    h.documents

/-! ### The choice of the entry -/

theorem entryChoice?_of_length (s : Settings) (sources : List String) {documents : List String}
    {entries : List PageEntry} (b : Bool) (hone : entries.length ≠ 1)
    (hdocuments : documents.length ≠ 1) :
    entryChoice? s sources documents entries b =
      match defaultSource? sources with
      | some source => some (pageName source)
      | none => if entries.isEmpty && !s.overwrite && b then some indexName else none := by
  match entries with
  | [] => exact entryChoice?_nil_of_length hdocuments
  | [_] => exact absurd rfl hone
  | _ :: _ :: _ =>
    rw [entryChoice?_cons_cons]
    cases defaultSource? sources <;> rfl

/-- The only document has the page that the site is entered by. -/
theorem BuildStages.defaultFile_of_only_document (h : BuildStages s w start built r w')
    (hl : Prepared s w start l) {path : String} (hpath : s.documents start.files = [path]) :
    r.defaultFile = pageName path := by
  have hlength := h.length_entries_le
  rw [hpath, List.length_singleton] at hlength
  match hentries : r.entries with
  | [] => exact h.defaultFile_of_choice hl (by rw [hentries, hpath]; rfl)
  | [only] =>
    obtain ⟨path', hpath', hname⟩ := h.exists_document (hentries ▸ List.mem_cons_self)
    rw [hpath, List.mem_singleton] at hpath'
    rw [h.defaultFile_of_only hl hentries, hname, hpath']
  | _ :: _ :: _ =>
    rw [hentries] at hlength
    simp at hlength

/-- The source that is the entry by its name has the page that the site is entered by. -/
theorem BuildStages.defaultFile_of_default (h : BuildStages s w start built r w')
    (hl : Prepared s w start l) (hone : r.entries.length ≠ 1)
    (hdocuments : (s.documents start.files).length ≠ 1) {source : String}
    (hsource : defaultSource? (s.sources start.files) = some source) :
    r.defaultFile = pageName source := by
  have hchoice := entryChoice?_of_length s (s.sources start.files) (s.hasIndex start.files) hone
    hdocuments
  rw [hsource] at hchoice
  exact h.defaultFile_of_choice hl hchoice

/-- What the page holds that lists the others. -/
def Settings.indexContent? (s : Settings) (files : FileTree) : Option Content :=
  files.contentAt? (pagePath s.format (Path.join s.output indexName))

theorem indexContent?_eq {files : FileTree} (hl : files.DirectoryAt s.output l) :
    s.indexContent? files =
      if Path.Fits s.output (s.format.pageFile "index") then
        files.content? (l.child (s.format.pageFile "index"))
      else none := by
  have hpage := contentAt?_page hl isPageStem_index
  rwa [if_neg fun h => absurd h.2 (by decide)] at hpage

theorem indexContent?_render {entries : List PageEntry} {template : String}
    {copies : List ImageCopy} {blocks : List Block} (hl : w.files.DirectoryAt s.output l)
    (can : CanRender s (indexDocument entries s.landingTitle) "index" w l template copies blocks) :
    s.indexContent? (w.render s (indexDocument entries s.landingTitle) s.landingTitle "index" l
      template copies blocks).files = some (.text (s.indexText template entries)) := by
  rw [indexContent?_eq ((evolves_render s.landingTitle hl can).directoryAt hl),
    if_pos can.publish.fits, content?_render_indexDocument hl can]

/-- Without an entry by its name the site is entered by a list of the pages. That list is kept if no
page was made, and written otherwise. -/
theorem BuildStages.index_of_no_default (h : BuildStages s w start built r w')
    (hl : Prepared s w start l) (hone : r.entries.length ≠ 1)
    (hdocuments : (s.documents start.files).length ≠ 1)
    (hnone : defaultSource? (s.sources start.files) = none) :
    r.defaultFile = indexName ∧
      if r.entries = [] ∧ s.overwrite = false ∧ s.hasIndex start.files = true then
        s.indexContent? w'.files = s.indexContent? start.files
      else ∃ template,
        start.files.readText (templatePath s.stylesDirectory s.format) = .ok template ∧
          s.indexContent? w'.files = some (.text (s.indexText template r.entries)) := by
  have hchoice := entryChoice?_of_length s (s.sources start.files) (s.hasIndex start.files) hone
    hdocuments
  rw [hnone] at hchoice
  obtain ⟨hchosen, hfiles⟩ | ⟨hchosen, hfile, template, copies, blocks, can, htemplate, hfiles⟩ :=
    h.landing_cases hl
  · obtain ⟨hkept, hindex⟩ := Option.ite_none_right_eq_some.1 (hchoice.symm.trans hchosen)
    simp only [Bool.and_eq_true, List.isEmpty_iff, Bool.not_eq_true', and_assoc] at hkept
    refine ⟨(Option.some.inj hindex).symm, ?_⟩
    rw [if_pos hkept, hfiles, indexContent?_eq ((h.evolves hl).directoryAt hl.output),
      indexContent?_eq hl.output,
      FileTree.content?_eq_of_get?_eq (h.get?_of_entries_eq_nil hl hkept.1 _)]
  · have hkept := hchoice.symm.trans hchosen
    simp only [ite_eq_right_iff, Bool.and_eq_true,
      List.isEmpty_iff, Bool.not_eq_true', and_assoc, reduceCtorEq, imp_false] at hkept
    refine ⟨hfile, ?_⟩
    rw [if_neg hkept, hfiles]
    exact ⟨template, htemplate,
      indexContent?_render ((h.evolves hl).directoryAt hl.output) can⟩

end

/-! ### Two builds of one state -/

/-- A build of the old pages and one of all pages enter the site by the same page, and where that is
a list of the pages, both leave the list of all documents. -/
structure EntryAgrees (s : Settings) (files : FileTree) (r₁ r₂ : BuildReport) (w₁ w₂ : World) :
    Prop where
  defaultFile : r₁.defaultFile = r₂.defaultFile
  list : s.overwriting.ListsPages files r₂.entries → ∃ template,
    files.readText (templatePath s.stylesDirectory s.format) = .ok template ∧
      s.indexContent? w₁.files = some (.text (s.indexText template (s.allEntries files))) ∧
      s.indexContent? w₂.files = some (.text (s.indexText template (s.allEntries files)))

/-- Where the entry of a site is a list of the pages, a build that has made the pages in `entries`
leaves the list of all documents. -/
def Settings.ListComplete (s : Settings) (files : FileTree) (entries : List PageEntry) : Prop :=
  (s.documents files).length ≠ 1 → defaultSource? (s.sources files) = none → ∃ template,
    files.readText (templatePath s.stylesDirectory s.format) = .ok template ∧
      if entries = [] ∧ s.hasIndex files = true then
        s.indexContent? files = some (.text (s.indexText template (s.allEntries files)))
      else s.indexText template entries = s.indexText template (s.allEntries files)

section

variable {s : Settings} {w start built w' : World} {r : BuildReport} {l : Location}

/-- A page made alone is the entry anyway just if the entry is the one by its name. -/
theorem BuildStages.entryStays_iff (h : BuildStages s w start built r w')
    (hl : Prepared s w start l) (hdocuments : (s.documents start.files).length ≠ 1)
    {source : String} (hsource : defaultSource? (s.sources start.files) = some source) :
    s.EntryStays start.files r.entries ↔ r.defaultFile = pageName source := by
  by_cases hone : r.entries.length = 1
  · obtain ⟨only, honly⟩ := List.length_eq_one_iff.1 hone
    rw [h.defaultFile_of_only hl honly]
    simp [Settings.EntryStays, honly, hdocuments, hsource, eq_comm]
  · rw [h.defaultFile_of_default hl hone hdocuments hsource]
    refine iff_of_true (fun only honly => ?_) rfl
    exact absurd (congrArg List.length honly) hone

/-- A page made alone is not the list of the pages. -/
theorem BuildStages.defaultFile_ne_indexName (h : BuildStages s w start built r w')
    (hl : Prepared s w start l) {only : PageEntry} (honly : r.entries = [only])
    (hnone : defaultSource? (s.sources start.files) = none) : r.defaultFile ≠ indexName := by
  intro hfile
  obtain ⟨path, hpath, hname⟩ := h.exists_document (honly ▸ List.mem_cons_self)
  rw [h.defaultFile_of_only hl honly, hname] at hfile
  exact defaultSource?_ne_none (mem_sources_of_mem_documents hpath)
    (isSource_of_mem_documents hpath) hfile hnone

/-- A build of the old pages leaves the list of all documents. -/
theorem BuildStages.listComplete_iff (h : BuildStages s w start built r w')
    (hl : Prepared s w start l) (hoverwrite : s.overwrite = false) (hone : r.entries.length ≠ 1)
    (hdocuments : (s.documents start.files).length ≠ 1)
    (hnone : defaultSource? (s.sources start.files) = none) {template : String}
    (htemplate : start.files.readText (templatePath s.stylesDirectory s.format) = .ok template) :
    s.ListComplete start.files r.entries ↔ s.indexContent? w'.files =
      some (.text (s.indexText template (s.allEntries start.files))) := by
  obtain ⟨-, hindex⟩ := h.index_of_no_default hl hone hdocuments hnone
  have hlist : s.ListComplete start.files r.entries ↔
      if r.entries = [] ∧ s.hasIndex start.files = true then
        s.indexContent? start.files =
          some (.text (s.indexText template (s.allEntries start.files)))
      else s.indexText template r.entries =
        s.indexText template (s.allEntries start.files) := by
    simp [Settings.ListComplete, hdocuments, hnone, htemplate]
  rw [hlist]
  by_cases hkept : r.entries = [] ∧ s.hasIndex start.files = true
  · rw [if_pos ⟨hkept.1, hoverwrite, hkept.2⟩] at hindex
    rw [if_pos hkept, hindex]
  · rw [if_neg fun h => hkept ⟨h.1, h.2.2⟩, htemplate] at hindex
    obtain ⟨template', htemplate', hcontent⟩ := hindex
    cases htemplate'
    rw [if_neg hkept, hcontent]
    simp

end

section

variable {s : Settings} {w start built₁ built₂ w₁ w₂ : World} {r₁ r₂ : BuildReport} {l : Location}

theorem Prepared.overwriting (h : Prepared s w start l) : Prepared s.overwriting w start l :=
  ⟨h.output, h.styles, h.fills⟩

/-- The only document has the page that both builds enter the site by. -/
theorem entryAgrees_of_only_document (h₁ : BuildStages s w start built₁ r₁ w₁)
    (h₂ : BuildStages s.overwriting w start built₂ r₂ w₂) (hl : Prepared s w start l)
    (hlength : r₂.entries.length = (s.documents start.files).length)
    (hone : (s.documents start.files).length = 1) : EntryAgrees s start.files r₁ r₂ w₁ w₂ := by
  obtain ⟨path, hpath⟩ := List.length_eq_one_iff.1 hone
  refine ⟨?_, fun hlists => absurd (hlength.trans hone) hlists.not_only⟩
  rw [h₁.defaultFile_of_only_document hl hpath,
    h₂.defaultFile_of_only_document hl.overwriting hpath]

/-- Where a source is the entry by its name, the page of that source is the entry in a build of all
pages. -/
theorem entryAgrees_iff_of_default (h₁ : BuildStages s w start built₁ r₁ w₁)
    (h₂ : BuildStages s.overwriting w start built₂ r₂ w₂) (hl : Prepared s w start l)
    (hlength : r₂.entries.length = (s.documents start.files).length)
    (hone : (s.documents start.files).length ≠ 1) {source : String}
    (hsource : defaultSource? (s.sources start.files) = some source) :
    EntryAgrees s start.files r₁ r₂ w₁ w₂ ↔ s.EntryStays start.files r₁.entries := by
  have hfile₂ : r₂.defaultFile = pageName source :=
    h₂.defaultFile_of_default hl.overwriting (hlength ▸ hone) hone hsource
  rw [h₁.entryStays_iff hl hone hsource, ← hfile₂]
  refine ⟨EntryAgrees.defaultFile, fun hfile => ⟨hfile, fun hlists => ?_⟩⟩
  cases hsource.symm.trans hlists.no_default

/-- Where no source is the entry by its name, the list of all documents is the entry in a build of
all pages. -/
theorem entryAgrees_iff_of_no_default (h₁ : BuildStages s w start built₁ r₁ w₁)
    (h₂ : BuildStages s.overwriting w start built₂ r₂ w₂) (hl : Prepared s w start l)
    (hoverwrite : s.overwrite = false) (hall : r₂.entries = s.allEntries start.files)
    (hlength : r₂.entries.length = (s.documents start.files).length)
    (hone : (s.documents start.files).length ≠ 1)
    (hnone : defaultSource? (s.sources start.files) = none) :
    EntryAgrees s start.files r₁ r₂ w₁ w₂ ↔
      s.EntryStays start.files r₁.entries ∧ s.ListComplete start.files r₁.entries := by
  have hone₂ : r₂.entries.length ≠ 1 := hlength ▸ hone
  have hlists : s.overwriting.ListsPages start.files r₂.entries :=
    ⟨hone₂, fun _ => hone, hnone, fun _ h => by cases h⟩
  obtain ⟨hfile₂, hindex₂⟩ := h₂.index_of_no_default hl.overwriting hone₂ hone hnone
  rw [if_neg fun hkept => Bool.noConfusion hkept.2.1, hall] at hindex₂
  obtain ⟨template, htemplate, hcontent₂⟩ := hindex₂
  by_cases hone₁ : r₁.entries.length = 1
  · obtain ⟨only, honly⟩ := List.length_eq_one_iff.1 hone₁
    refine iff_of_false (fun hagrees => ?_) fun ⟨hstays, _⟩ => ?_
    · exact h₁.defaultFile_ne_indexName hl honly hnone (hagrees.defaultFile.trans hfile₂)
    · obtain hstays | ⟨source, hsource, -⟩ := hstays only honly
      · exact hone hstays
      · cases hnone.symm.trans hsource
  · obtain ⟨hfile₁, -⟩ := h₁.index_of_no_default hl hone₁ hone hnone
    have hcomplete := h₁.listComplete_iff hl hoverwrite hone₁ hone hnone htemplate
    constructor
    · rintro ⟨-, hlist⟩
      obtain ⟨template', htemplate', hsame, -⟩ := hlist hlists
      cases htemplate.symm.trans htemplate'
      exact ⟨fun only honly => absurd (congrArg List.length honly) hone₁, hcomplete.2 hsame⟩
    · rintro ⟨-, hlist⟩
      exact ⟨hfile₁.trans hfile₂.symm, fun _ =>
        ⟨template, htemplate, hcomplete.1 hlist, hcontent₂⟩⟩

end

/-- The entry of a site does not depend on which pages were old just if a page made alone is the
entry anyway, and the list of the pages made, or the one kept, names all documents. -/
theorem entry_agrees_iff {s : Settings} {w w₁ w₂ : World} {r₁ r₂ : BuildReport}
    (hb₁ : Run.Returns (build s) w r₁ w₁) (hb₂ : Run.Returns (build s.overwriting) w r₂ w₂)
    (hw : w.files.WellFormed) (hoverwrite : s.overwrite = false)
    (hread : ∀ p ∈ s.documents (w.prepared s).files, ∃ d, s.read (w.prepared s).files p = .ok d)
    (hapart : s.format = .latex → ∀ m, (w.prepared s).files.DirectoryAt s.root m →
      ¬ (w.prepared s).files.DirectoryAt (Path.join s.output savedDirectory) m) :
    EntryAgrees s (w.prepared s).files r₁ r₂ w₁ w₂ ↔
      s.EntryStays (w.prepared s).files r₁.entries ∧
        s.ListComplete (w.prepared s).files r₁.entries := by
  obtain ⟨start, built₁, h₁⟩ := returns_build.1 hb₁
  obtain ⟨start₂, built₂, h₂⟩ := returns_build.1 hb₂
  obtain ⟨-, rfl⟩ := Run.Returns.unique h₁.prepared h₂.prepared
  obtain rfl := prepared_eq h₁.prepared
  obtain ⟨l, hl⟩ := prepared_of_returns hw h₁.prepared
  have hall : r₂.entries = s.allEntries (w.prepared s).files :=
    h₂.entries_eq_allEntries (hl.overwriting.documentsStage hw hapart) rfl hread
  have hlength : r₂.entries.length = (s.documents (w.prepared s).files).length := by
    rw [hall, Settings.allEntries, List.length_map]
  by_cases hone : (s.documents (w.prepared s).files).length = 1
  · exact iff_of_true (entryAgrees_of_only_document h₁ h₂ hl hlength hone)
      ⟨fun _ _ => .inl hone, fun hne => absurd hone hne⟩
  cases hdefault : defaultSource? (s.sources (w.prepared s).files) with
  | some source =>
    have hcomplete : s.ListComplete (w.prepared s).files r₁.entries := by
      intro _ hnone
      cases hdefault.symm.trans hnone
    rw [entryAgrees_iff_of_default h₁ h₂ hl hlength hone hdefault]
    exact (and_iff_left hcomplete).symm
  | none => exact entryAgrees_iff_of_no_default h₁ h₂ hl hoverwrite hall hlength hone hdefault

/-- A site of two documents without pages. -/
def freshSite : World where
  files := .ofEntries [
    (⟨false, ["out"]⟩, .directory 1),
    (⟨false, ["out", "styles"]⟩, .directory 1),
    (⟨false, ["out", "styles", "template.html"]⟩, .file (.text "\x7bdocument\x7d") 1),
    (⟨false, ["src"]⟩, .directory 1),
    (⟨false, ["src", "a.md"]⟩, .file (.text "# A") 1),
    (⟨false, ["src", "b.md"]⟩, .file (.text "# B") 1)]
  clock := 10
  web := fun _ => .dropped
  requests := []
  progress := []

theorem wellFormed_freshSite : freshSite.files.WellFormed :=
  FileTree.wellFormed_ofEntries (by decide)

def TwoReadable (files : FileTree) : Prop :=
  everyDocument.documents files = ["src/a.md", "src/b.md"] ∧
    ∀ p ∈ ["src/a.md", "src/b.md"], (everyDocument.read files p).isOk = true

instance (files : FileTree) : Decidable (TwoReadable files) := inferInstanceAs (Decidable (_ ∧ _))

theorem TwoReadable.exists_read {files : FileTree} (h : TwoReadable files) :
    ∀ p ∈ everyDocument.documents files, ∃ d, everyDocument.read files p = .ok d := by
  intro p hp
  have hok := h.2 p (h.1 ▸ hp)
  cases hread : everyDocument.read files p with
  | ok d => exact ⟨d, rfl⟩
  | error e =>
    rw [hread] at hok
    cases hok

theorem directoryAt_root_freshSite :
    freshSite.files.DirectoryAt everyDocument.root ⟨false, ["src"]⟩ :=
  FileTree.directoryAt_of_toOption (by decide +kernel) ⟨1, by decide +kernel⟩

theorem directoryAt_output_freshSite :
    freshSite.files.DirectoryAt everyDocument.output ⟨false, ["out"]⟩ :=
  FileTree.directoryAt_of_toOption (by decide +kernel) ⟨1, by decide +kernel⟩

theorem noPages_freshSite : everyDocument.NoPages freshSite.files := by
  intro l hl stem _
  obtain rfl := hl.unique directoryAt_output_freshSite
  have hchildren : freshSite.files.childrenAt ⟨false, ["out"]⟩ = [("styles", .directory 1)] := by
    decide +kernel
  refine Option.eq_none_iff_forall_ne_some.2 fun e he => ?_
  have hmem := wellFormed_freshSite.mem_childrenAt_iff.2 he
  rw [hchildren, List.mem_singleton, Prod.mk.injEq] at hmem
  exact pageFile_ne (by decide) hmem.1

theorem ready_freshSite : everyDocument.Ready freshSite :=
  ⟨by decide +kernel, .inl ⟨_, directoryAt_output_freshSite⟩⟩

def World.edited (w : World) (path text : String) : World :=
  match w.files.write w.clock path (.text text) with
  | .ok files => { w with files, clock := w.clock + 1 }
  | .error _ => w

theorem wellFormed_edited {w : World} (h : w.files.WellFormed) (path text : String) :
    (w.edited path text).files.WellFormed := by
  unfold World.edited
  split
  · rename_i files hwrite
    obtain ⟨k, hk, -, -, rfl⟩ := FileTree.write_eq_ok_iff.1 hwrite
    exact h.set _ (FileTree.plain_of_resolve hk)
  · exact h

/-- A site of two documents with pages, of which one has been written again since. -/
def editedSite : World :=
  (Run.result (build everyDocument) freshSite).2.edited "src/b.md" "# C"

theorem wellFormed_editedSite : editedSite.files.WellFormed := by
  have hfresh : UpToDate everyDocument Set.univ _ freshSite :=
    upToDate_of_noPages wellFormed_freshSite directoryAt_root_freshSite noPages_freshSite
  have hbuilt := upToDate_build rfl rfl (Set.mem_univ _) hfresh ready_freshSite
  exact wellFormed_edited hbuilt.wellFormed _ _

/-- The page of the document that has been written again is the only one that is made. -/
theorem result_editedSite :
    TwoReadable (editedSite.prepared everyDocument).files ∧
      (Run.result (build everyDocument) editedSite).1.toOption.map
        (fun r => (r.outcomes, r.defaultFile)) =
          some ([.skipped "a.md", .generated "b.md" "out/b.html" "C"], "b.html") ∧
      (Run.result (build everyDocument.overwriting) editedSite).1.toOption.map
        BuildReport.defaultFile = some "index.html" := by decide +kernel

theorem entry_agrees_editedSite_iff : ∃ r₁ r₂ w₁ w₂,
    Run.Returns (build everyDocument) editedSite r₁ w₁ ∧
      Run.Returns (build everyDocument.overwriting) editedSite r₂ w₂ ∧
      r₁.outcomes = [.skipped "a.md", .generated "b.md" "out/b.html" "C"] ∧
      (EntryAgrees everyDocument (editedSite.prepared everyDocument).files r₁ r₂ w₁ w₂ ↔
        everyDocument.EntryStays (editedSite.prepared everyDocument).files r₁.entries ∧
          everyDocument.ListComplete (editedSite.prepared everyDocument).files r₁.entries) := by
  obtain ⟨hread, hfirst, hsecond⟩ := result_editedSite
  obtain ⟨r₁, hb₁, hr₁⟩ := Run.exists_returns hfirst
  obtain ⟨r₂, hb₂, -⟩ := Run.exists_returns hsecond
  exact ⟨r₁, r₂, _, _, hb₁, hb₂, congrArg Prod.fst hr₁, entry_agrees_iff hb₁ hb₂
    wellFormed_editedSite rfl hread.exists_read fun hlatex => by cases hlatex⟩

/-- The entry of a site depends on which pages were old, even where a build has left the pages and
a document has been written since. -/
theorem entry_depends_on_age : ¬ ∀ (s : Settings) (w v w₁ w₂ : World) (r r₁ r₂ : BuildReport)
    (path text : String), w.files.WellFormed → s.overwrite = false →
    Run.Returns (build s) w r v → path ∈ s.documents v.files →
    Run.Returns (build s) (v.edited path text) r₁ w₁ →
    Run.Returns (build s.overwriting) (v.edited path text) r₂ w₂ →
    (∀ p ∈ s.documents ((v.edited path text).prepared s).files,
      ∃ d, s.read ((v.edited path text).prepared s).files p = .ok d) →
    EntryAgrees s ((v.edited path text).prepared s).files r₁ r₂ w₁ w₂ := by
  intro h
  obtain ⟨hread, hfirst, hsecond⟩ := result_editedSite
  have hresult : (Run.result (build everyDocument) freshSite).1.toOption.map
      BuildReport.defaultFile = some "index.html" := by decide +kernel
  obtain ⟨r, hb, -⟩ := Run.exists_returns hresult
  obtain ⟨r₁, hb₁, hr₁⟩ := Run.exists_returns hfirst
  obtain ⟨r₂, hb₂, hfile₂⟩ := Run.exists_returns hsecond
  have hagrees := h everyDocument freshSite _ _ _ r r₁ r₂ "src/b.md" "# C" wellFormed_freshSite rfl
    hb (by decide +kernel) hb₁ hb₂ hread.exists_read
  have hfile₁ : r₁.defaultFile = "b.html" := congrArg Prod.snd hr₁
  rw [hagrees.defaultFile, hfile₂] at hfile₁
  exact absurd hfile₁ (by decide)

end LiterateJournal
