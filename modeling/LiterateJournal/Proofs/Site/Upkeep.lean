import LiterateJournal.Proofs.Site.Freshness
import Mathlib.Data.List.Nodup

/-!
# Builds keep pages up to date

Whether a build returns, fails or is broken off between two documents, it leaves all pages up to
date: a page is written whole or not at all, and only for the source that has it. For this no two
sources may share a page.

## Main definitions

* `Settings.OwnPages` — no two sources share a page.
* `Settings.NoPages` — the output directory holds no pages.
* `Settings.Ready` — a build finds no page that it could mistake for another one.
* `Underway` — a build is under way that has started from a world.

## Main statements

* `leaves_buildDocuments`, `leaves_landingPage` — what the stages of a build leave.
* `upToDate_build` — a build leaves all pages up to date.
-/

namespace LiterateJournal

open Markdown (DefinitionOrder)

/-- No two sources share a page. -/
def Settings.OwnPages (s : Settings) (files : FileTree) : Prop :=
  ((s.sources files).map pageStem).Nodup

instance (s : Settings) (files : FileTree) : Decidable (s.OwnPages files) :=
  inferInstanceAs (Decidable (List.Nodup _))

def Settings.NoPages (s : Settings) (files : FileTree) : Prop :=
  ∀ l, files.DirectoryAt s.output l → ∀ stem, IsPageStem stem →
    files.get? (l.child (s.format.pageFile stem)) = none

/-- A build finds no two sources that share a page, and if it has made the output directory, no
pages in there. -/
structure Settings.Ready (s : Settings) (w : World) : Prop where
  ownPages : s.OwnPages (w.prepared s).files
  noPages : (∃ l, w.files.DirectoryAt s.output l) ∨ s.NoPages (w.prepared s).files

section

variable {s : Settings} {orders : Set (String → DefinitionOrder)} {m l : Location}
  {start w v : World} {stem : String}

theorem upToDate_of_noPages (hw : w.files.WellFormed) (hm : w.files.DirectoryAt s.root m)
    (h : s.NoPages w.files) : UpToDate s orders m w where
  wellFormed := hw
  root := hm
  dated l hl stem e hstem he := by
    rw [h l hl stem hstem] at he
    cases he
  current l hl x _ _ e hx _ he := by
    rw [h l hl _ hx.isPageStem] at he
    cases he

/-! ### The preparation -/

/-- The preparation makes no pages. -/
theorem advances_prepared (hw : w.files.WellFormed) (hready : s.Ready w) :
    Advances s orders m w (w.prepared s) := by
  obtain ⟨l, hl⟩ | hnone := hready.noPages
  · have hadds := adds_prepared_of_directoryAt hw hl
    refine advances_adds hw hadds fun k hk stem e _ he => ?_
    obtain rfl := (hadds.directoryAt hl).unique hk
    refine ⟨hl, ?_⟩
    cases hget : w.files.get? (l.child (s.format.pageFile stem)) with
    | some e' => rw [← hadds.fills.files.kept _ e' hget, he]
    | none =>
      -- the page would be the directory of the templates
      obtain ⟨-, -, hnames⟩ := hadds.new hget he
      have heq := hnames.eq_of_length (by simp [Location.child])
      exact absurd (by simpa [Location.child] using heq.symm)
        (pageFile_ne (x := "styles") (by decide))
  · refine advances_adds hw (adds_prepared s hw) fun l hl stem e hstem he => ?_
    rw [hnone l hl stem hstem] at he
    cases he

/-! ### A build under way -/

/-- A build is under way in an order that may occur: the directories are there, all pages are up to
date, and the sources are those with which it has started. -/
structure Underway (s : Settings) (orders : Set (String → DefinitionOrder)) (m l : Location)
    (start w : World) : Prop where
  order : s.definitionOrder ∈ orders
  upToDate : UpToDate s orders m w
  output : w.files.DirectoryAt s.output l
  styles : w.files.DirectoryAt s.stylesDirectory (l.child "styles")
  sources : ∀ x, s.NamesSource x → w.files.get? (m.child x) = start.files.get? (m.child x)

namespace Underway

theorem sourceFile_iff (h : Underway s orders m l start w) {x : String} :
    SourceFile s w.files m x ↔ SourceFile s start.files m x := by
  constructor
  · rintro ⟨hx, hfile⟩
    exact ⟨hx, h.sources x hx ▸ hfile⟩
  · rintro ⟨hx, hfile⟩
    exact ⟨hx, (h.sources x hx).symm ▸ hfile⟩

theorem of_files_eq (h : Underway s orders m l start w) (hclock : w.clock ≤ v.clock)
    (hfiles : v.files = w.files) : Underway s orders m l start v where
  order := h.order
  upToDate := h.upToDate.step (.of_files_eq m h.upToDate.wellFormed hclock hfiles)
  output := hfiles ▸ h.output
  styles := hfiles ▸ h.styles
  sources := hfiles ▸ h.sources

/-- One page has been made anew or left as it was. -/
theorem page (hformat : s.format = .html) (h : Underway s orders m l start w)
    (hv : v.files.WellFormed)
    (hevolves : World.Evolves (PageChanges s l stem) w v)
    (hpage : ∀ e, v.files.get? (l.child (s.format.pageFile stem)) = some e →
      w.files.get? (l.child (s.format.pageFile stem)) = some e ∨
        (e.modified < v.clock ∧ ∀ x, SourceFile s v.files m x →
          pageStem (Path.join s.root x) = stem →
            s.IsPageOf orders v.files (Path.join s.root x) e)) :
    Underway s orders m l start v where
  order := h.order
  upToDate := h.upToDate.step
    (advances_page hformat h.upToDate.root h.output h.styles hv hevolves hpage)
  output := hevolves.directoryAt h.output
  styles := hevolves.directoryAt h.styles
  sources x hx := by
    rw [← h.sources x hx]
    exact hevolves.kept _ ((hx.sourceAt h.upToDate.root).not_pageChanges (by simp [hformat]))

/-- A page could not be written. -/
theorem of_leavesDraft (hformat : s.format = .html) (h : Underway s orders m l start w)
    (hdraft : World.LeavesDraft l (s.format.pageFile stem) w v) :
    Underway s orders m l start v := by
  refine h.page hformat (hdraft.wellFormed h.upToDate.wellFormed)
    (hdraft.evolves.weaken fun k hk => .inr (.inl hk)) fun e he => .inl ?_
  rwa [hdraft.get?_eq] at he

/-- A page has been written that is the one of its source, if it has a source. -/
theorem render {d : Document} {title template : String} {copies : List ImageCopy}
    {blocks : List Block} (hformat : s.format = .html) (h : Underway s orders m l start w)
    (hstem : IsPageStem stem) (can : CanRender s d stem w l template copies blocks)
    (htext : ∀ x, SourceFile s w.files m x → pageStem (Path.join s.root x) = stem →
      s.freshText? w.files (Path.join s.root x) = some (s.pageText d blocks template title)) :
    Underway s orders m l start (w.render s d title stem l template copies blocks) := by
  have hevolves := evolves_render title h.output can
  have hroot := hevolves.directoryAt h.upToDate.root
  refine h.page hformat (wellFormed_render hformat h.output hstem can h.upToDate.wellFormed)
    hevolves fun e he => .inr ?_
  rw [get?_render title h.output can] at he
  cases he
  refine ⟨?_, fun x hx hpage => ?_⟩
  · rw [clock_render]
    exact Nat.add_lt_add_left (by decide) _
  · have hsame := hevolves.kept _ ((hx.names.sourceAt h.upToDate.root).not_pageChanges
      (by simp [hformat]))
    have hx' : SourceFile s w.files m x := ⟨hx.names, hsame ▸ hx.isFile⟩
    have hpageOf : s.IsPageOf orders w.files (Path.join s.root x) (.file
        (.text (s.pageText d blocks template title)) (w.clock + saveTime copies + 1)) :=
      ⟨_, h.order, _, _, htext x hx' hpage, rfl⟩
    refine hpageOf.mono hx.names h.upToDate.root hroot hsame fun text hread => ?_
    rw [readText_template_eq h.styles hevolves fun k hk => ⟨stem, hk⟩, hread]

/-- A page without a source keeps the others up to date, whether it can be written or not. -/
theorem leaves_renderDocument {d : Document} {title : String} (hformat : s.format = .html)
    (h : Underway s orders m l start w) (hstem : IsPageStem stem)
    (hnone : ∀ x, SourceFile s w.files m x → pageStem (Path.join s.root x) ≠ stem) :
    Run.Leaves (renderDocument s d title (Path.join s.output (stem ++ ".html"))) w
      (Underway s orders m l start) := by
  refine Run.leaves_iff.2 ⟨fun out v hv => ?_, fun e v hv =>
    h.of_leavesDraft hformat (fails_renderDocument hformat h.output hstem hv)⟩
  obtain ⟨template, copies, blocks, can, -, rfl⟩ := (returns_renderDocument h.output hstem).1 hv
  exact h.render hformat hstem can fun x hx hpage => absurd hpage (hnone x hx)

end Underway

/-! ### The documents -/

/-- A document leaves the pages up to date if no other source has its page. -/
theorem leaves_buildDocument {x : String} (hformat : s.format = .html)
    (hown : ∀ x y, SourceFile s start.files m x → SourceFile s start.files m y →
      pageStem (Path.join s.root x) = pageStem (Path.join s.root y) → x = y)
    (h : Underway s orders m l start w) (hx : SourceFile s start.files m x) :
    Run.Leaves (buildDocument s (Path.join s.root x)) w (Underway s orders m l start) := by
  refine Run.leaves_iff.2 ⟨fun o v hv => ?_, fun e v hv =>
    h.of_leavesDraft hformat (fails_buildDocument hformat h.output hx.names.isSource hv)⟩
  cases (returns_buildDocument h.output hx.names.isSource).1 hv with
  | skipped => exact h.of_files_eq (Nat.le_refl _) rfl
  | failed => exact h.of_files_eq (Nat.le_refl _) rfl
  | generated stale d read template copies blocks can =>
    have hstarted : Underway s orders m l start
        (w.report (.started (sourceName (Path.join s.root x)))) := h.of_files_eq (Nat.le_refl _) rfl
    refine (hstarted.render hformat hx.names.isPageStem can fun y hy hpage => ?_).of_files_eq
      (Nat.le_refl _) rfl
    obtain rfl := hown y x (hstarted.sourceFile_iff.1 hy) hx hpage
    exact freshText?_of_plan read can.template can.plan

theorem leaves_buildDocuments {paths : List String} (hformat : s.format = .html)
    (hown : ∀ x y, SourceFile s start.files m x → SourceFile s start.files m y →
      pageStem (Path.join s.root x) = pageStem (Path.join s.root y) → x = y)
    (h : Underway s orders m l start w)
    (hpaths : ∀ p ∈ paths, ∃ x, p = Path.join s.root x ∧ SourceFile s start.files m x) :
    Run.Leaves (buildDocuments s paths) w (Underway s orders m l start) := by
  induction paths generalizing w with
  | nil => exact Run.leaves_pure.2 h
  | cons path paths ih =>
    obtain ⟨x, rfl, hx⟩ := hpaths path List.mem_cons_self
    have hfirst := leaves_buildDocument hformat hown h hx
    rw [buildDocuments]
    refine hfirst.andThen (fun _ hv => hv) fun o v _ hv => ?_
    split
    · exact Run.leaves_throw.2 hv
    · have hrest := ih hv fun p hp => hpaths p (List.mem_cons_of_mem _ hp)
      exact hrest.andThen (fun _ hu => hu) fun _ u _ hu => Run.leaves_pure.2 hu

/-! ### The whole build -/

/-- The choice of the entry leaves what is there, or what the list of the pages leaves. -/
theorem leaves_landingPage {P : World → Prop} {sources documents : List String}
    {entries : List PageEntry} (hsources : sources ≠ []) (hw : P w)
    (hrender : defaultSource? sources = none →
      Run.Leaves (renderDocument s (indexDocument entries s.landingTitle) s.landingTitle
        (Path.join s.output indexName)) w P) :
    Run.Leaves (landingPage s sources documents entries) w P := by
  have hempty : sources.isEmpty = false := by simpa using hsources
  unfold landingPage
  simp only [hempty, Bool.false_eq_true, if_false]
  split
  · exact Run.leaves_pure.2 hw
  · exact Run.leaves_pure.2 hw
  · split
    · exact Run.leaves_pure.2 hw
    · rename_i hnone
      rw [Run.leaves_bind_files]
      split
      · exact Run.leaves_pure.2 hw
      · exact (hrender hnone).andThen (fun _ hu => hu) fun _ u _ hu => Run.leaves_pure.2 hu

theorem fails_discover {e : BuildError} (h : Run.Fails (discover s) w e v) : v = w := by
  unfold discover at h
  simp only [Run.fails_bind, Run.fails_files, Run.returns_files, false_or, and_assoc,
    exists_and_left, exists_eq_left] at h
  split at h
  · exact (Run.fails_throw.1 h).2
  · exact (Run.fails_pure.1 h).elim

theorem exists_sourceFile {path : String} (hlist : s.whitelist = none)
    (h : UpToDate s orders m start) {entries : List (String × Entry)}
    (hroot : start.files.children s.root = .ok entries) (hpath : path ∈ s.documents start.files) :
    ∃ x, path = Path.join s.root x ∧ SourceFile s start.files m x :=
  (mem_sources_iff hlist h.wellFormed h.root hroot).1 (mem_sources_of_mem_documents hpath)

/-- Sources with pages of their own have names of their own. -/
theorem Settings.OwnPages.eq (hown : s.OwnPages start.files) (hlist : s.whitelist = none)
    (h : UpToDate s orders m start) {entries : List (String × Entry)}
    (hroot : start.files.children s.root = .ok entries) {x y : String}
    (hx : SourceFile s start.files m x) (hy : SourceFile s start.files m y)
    (hstem : pageStem (Path.join s.root x) = pageStem (Path.join s.root y)) : x = y := by
  have hmem {z : String} (hz : SourceFile s start.files m z) :=
    (mem_sources_iff hlist h.wellFormed h.root hroot).2 ⟨z, rfl, hz⟩
  exact join_inj hx.names.plain hy.names.plain
    (List.inj_on_of_nodup_map hown (hmem hx) (hmem hy) hstem)

/-- The list of the pages takes the place of no source's page. -/
theorem Underway.leaves_landingPage (documents : List String) (pages : List PageEntry)
    {entries : List (String × Entry)} (hformat : s.format = .html) (hlist : s.whitelist = none)
    (hstart : UpToDate s orders m start) (hroot : start.files.children s.root = .ok entries)
    (hne : s.sources start.files ≠ []) (h : Underway s orders m l start w) :
    Run.Leaves (landingPage s (s.sources start.files) documents pages) w
      (Underway s orders m l start) := by
  refine LiterateJournal.leaves_landingPage hne h fun hnone => ?_
  rw [show indexName = "index" ++ ".html" from rfl]
  refine h.leaves_renderDocument hformat isPageStem_index fun x hx hindex => ?_
  have hsource := (mem_sources_iff hlist hstart.wellFormed hstart.root hroot).2
    ⟨x, rfl, h.sourceFile_iff.1 hx⟩
  exact defaultSource?_ne_none hsource hx.names.isSource (pageName_eq_indexName_iff.2 hindex) hnone

/-- Whether it returns or fails, a build leaves all pages up to date. -/
theorem upToDate_build (hformat : s.format = .html) (hlist : s.whitelist = none)
    (horder : s.definitionOrder ∈ orders) (h : UpToDate s orders m w) (hready : s.Ready w) :
    UpToDate s orders m (Run.result (build s) w).2 := by
  have hprepared : Run.Leaves (prepareOutput s) w (UpToDate s orders m) :=
    h.step (advances_prepared h.wellFormed hready)
  change Run.Leaves (build s) w (UpToDate s orders m)
  unfold build
  refine hprepared.andThen (fun _ hv => hv) fun n start hreturns hstart => ?_
  obtain ⟨l, hl⟩ := prepared_of_returns h.wellFormed hreturns
  obtain rfl := prepared_eq hreturns
  refine Run.leaves_bind.2 ⟨fun e v hv => fails_discover hv ▸ hstart, fun _ v hv => ?_⟩
  obtain ⟨⟨entries, hroot⟩, rfl, rfl⟩ := returns_discover.1 hv
  split
  · exact Run.leaves_throw.2 hstart
  rename_i hne
  rw [Run.leaves_bind_report]
  have hdocuments (progress : Progress) :
      Run.Leaves (buildDocuments s (s.documents (w.prepared s).files))
        ((w.prepared s).report progress) (Underway s orders m l (w.prepared s)) :=
    leaves_buildDocuments hformat (fun x y => hready.ownPages.eq hlist hstart hroot)
      (Underway.of_files_eq ⟨horder, hstart, hl.output, hl.styles, fun _ _ => rfl⟩
        (Nat.le_refl _) rfl)
      fun p hp => exists_sourceFile hlist hstart hroot hp
  refine (hdocuments _).andThen (fun _ hv => hv.upToDate) fun outcomes built _ hbuilt => ?_
  have hlanding := hbuilt.leaves_landingPage
    (s.documents (w.prepared s).files) (outcomes.filterMap Outcome.entry?) hformat hlist hstart
    hroot (by simpa using hne)
  refine hlanding.andThen (fun _ hv => hv.upToDate) fun file ended _ hended => ?_
  rw [Run.leaves_bind_report]
  exact Run.leaves_pure.2
    (hended.of_files_eq (v := ended.report _) (Nat.le_refl _) rfl).upToDate

end

end LiterateJournal
