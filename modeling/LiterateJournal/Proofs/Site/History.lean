import LiterateJournal.Proofs.Evaluation.Orders
import LiterateJournal.Proofs.Site.FullBuild
import LiterateJournal.Proofs.Site.Independence
import LiterateJournal.Proofs.Site.Upkeep
import Mathlib.Logic.Relation

/-!
# Sites over time

Sources are written and removed, and builds are run, some of which fail or are broken off. Whatever
has happened before, a build that returns leaves each document that has not failed with the page
that a build of all pages would make from the same sources.

Each build may put link definitions into tables in another order. A page that is kept is the one of
the order in which it was made, and that is the one of all orders if its source loses no definition.

## Main definitions

* `SiteStep` — a source is written or removed, time passes, or a build is run.
* `SameInputs` — two builds start from the same sources and templates.
* `FileTree.KeepsDefinitions` — a source file loses no definition.

## Main statements

* `upToDate_siteStep`, `upToDate_of_steps` — all pages stay up to date.
* `read_withOrder` — a source that loses no definition is read in the same way in all orders.
* `incremental_page_eq` — a build of the old pages leaves the pages of a build of all pages.
-/

namespace LiterateJournal

open Markdown (DefinitionOrder)

/-! ### What happens to a site -/

/-- A source is written or removed, time passes, or a build is run in one of some orders of
definitions, which may return or fail. -/
inductive SiteStep (s : Settings) (orders : Set (String → DefinitionOrder)) :
    World → World → Prop where
  | write {w : World} {x : String} {content : Content} {files : FileTree}
    (names : s.NamesSource x)
    (write : w.files.write w.clock (Path.join s.root x) content = .ok files) :
    SiteStep s orders w { w with files, clock := w.clock + 1 }
  | remove {w : World} {x : String} {l : Location} {content : Content} {time : Nat}
    (names : s.NamesSource x) (found : w.files.resolve (Path.join s.root x) = .ok l)
    (isFile : w.files.get? l = some (.file content time)) :
    SiteStep s orders w { w with files := w.files.erase l, clock := w.clock + 1 }
  | wait {w : World} {time : Nat} (later : w.clock ≤ time) :
    SiteStep s orders w { w with clock := time }
  | build {w : World} {order : String → DefinitionOrder} (may : order ∈ orders)
    (ready : s.Ready w) : SiteStep s orders w (Run.result (build (s.withOrder order)) w).2

section

variable {s : Settings} {orders : Set (String → DefinitionOrder)} {m : Location} {w w₀ v : World}

theorem UpToDate.withOrder (h : UpToDate s orders m w) (order : String → DefinitionOrder) :
    UpToDate (s.withOrder order) orders m w :=
  ⟨h.wellFormed, h.root, h.dated, fun l hl x content time e hx =>
    h.current l hl x content time e ⟨hx.plain, hx.isSource⟩⟩

/-- All pages stay up to date, whatever happens to a site. -/
theorem upToDate_siteStep (hformat : s.format = .html) (hlist : s.whitelist = none)
    (h : UpToDate s orders m w) (hstep : SiteStep s orders w v) : UpToDate s orders m v := by
  cases hstep with
  | @write x content files names hwrite =>
    obtain ⟨k, hk, hd, -, rfl⟩ := FileTree.write_eq_ok_iff.1 hwrite
    obtain ⟨-, rfl⟩ := (h.root.resolve_join_eq_ok_iff names.plain).1 hk
    have hp := FileTree.hasPlace_of_resolve hk
    refine h.step (advances_edit names (Nat.le_succ _)
      (h.wellFormed.set _ (FileTree.plain_of_resolve hk))
      (fun _ => FileTree.isDirectory_set_file hp hd) (fun k hne => ?_) fun e he => ?_)
    · exact (FileTree.get?_set_of_not_isDirectory hp hd k).trans (if_neg hne)
    · have hset : (w.files.set (m.child x) (.file content w.clock)).get? (m.child x) =
          some (.file content w.clock) :=
        (FileTree.get?_set_of_not_isDirectory hp hd _).trans (if_pos rfl)
      obtain rfl := Option.some.inj (hset.symm.trans he)
      exact Nat.le_refl _
  | @remove x k content time names hk isFile =>
    obtain ⟨-, rfl⟩ := (h.root.resolve_join_eq_ok_iff names.plain).1 hk
    have hp := FileTree.hasPlace_of_resolve hk
    have hd := FileTree.not_isDirectory_of_get? isFile
    refine h.step (advances_edit names (Nat.le_succ _)
      (h.wellFormed.erase (FileTree.plain_of_resolve hk))
      (fun _ => FileTree.isDirectory_erase hp hd) (fun k hne => ?_) fun e he => ?_)
    · exact (FileTree.get?_erase_of_not_isDirectory hp hd k).trans (if_neg hne)
    · have herase := (FileTree.get?_erase_of_not_isDirectory hp hd _).trans (if_pos rfl)
      cases herase.symm.trans he
  | wait later => exact h.step (.of_files_eq m h.wellFormed later rfl)
  | @build order may ready =>
    have hready : (s.withOrder order).Ready w := ⟨ready.ownPages, ready.noPages⟩
    have hbuilt : UpToDate (s.withOrder order) orders m
        (Run.result (build (s.withOrder order)) w).2 :=
      upToDate_build hformat hlist may (h.withOrder order) hready
    exact hbuilt.withOrder s.definitionOrder

theorem upToDate_of_steps (hformat : s.format = .html) (hlist : s.whitelist = none)
    (h : UpToDate s orders m w₀) (hsteps : Relation.ReflTransGen (SiteStep s orders) w₀ w) :
    UpToDate s orders m w := by
  induction hsteps with
  | refl => exact h
  | tail _ hstep ih => exact upToDate_siteStep hformat hlist ih hstep

end

/-! ### Pages that are kept -/

theorem exists_stat_of_modified_pos {t : FileTree} {path : String} (h : 0 < t.modified path) :
    ∃ e, t.stat path = .ok e ∧ t.modified path = e.modified := by
  cases hstat : t.stat path with
  | error err =>
    rw [FileTree.modified, hstat] at h
    exact absurd h (Nat.lt_irrefl 0)
  | ok e => exact ⟨e, rfl, modified_of_stat hstat⟩

section

variable {s : Settings} {orders : Set (String → DefinitionOrder)} {m l : Location} {w : World}
  {x : String}

/-- A source dated past the epoch, whose page is not made again, has the page that is made now in
one of the orders. -/
theorem UpToDate.pageContent?_of_fresh (h : UpToDate s orders m w) (hformat : s.format = .html)
    (hoverwrite : s.overwrite = false) (hl : w.files.DirectoryAt s.output l)
    (hx : SourceFile s w.files m x) (hdated : 0 < w.files.modified (Path.join s.root x))
    (hfresh : s.needsPage w.files (Path.join s.root x) = false) :
    ∃ order ∈ orders, ∃ text,
      (s.withOrder order).freshText? w.files (Path.join s.root x) = some text ∧
      s.pageContent? w.files (Path.join s.root x) = some (.text text) := by
  have hstem := hx.names.isPageStem
  have hpath : pagePath s.format (Path.join s.output (pageName (Path.join s.root x))) =
      Path.join s.output (s.format.pageFile (pageStem (Path.join s.root x))) :=
    pagePath_join hstem s.output (by simp [hformat])
  have hnewer := (needsPage_eq_false_iff hoverwrite).1 hfresh
  rw [hpath] at hnewer
  -- both the source and its page are there
  obtain ⟨e', hsource, hsourceTime⟩ := exists_stat_of_modified_pos hdated
  obtain ⟨k', hk', hget', -⟩ := FileTree.stat_eq_ok_iff.1 hsource
  obtain ⟨-, rfl⟩ := (h.root.resolve_join_eq_ok_iff hx.names.plain).1 hk'
  obtain ⟨content, time, hfile⟩ := hx.isFile
  obtain rfl := Option.some.inj (hget'.symm.trans hfile)
  obtain ⟨e, hpage, hpageTime⟩ := exists_stat_of_modified_pos (Nat.lt_of_lt_of_le hdated hnewer)
  obtain ⟨k, hk, hget, -⟩ := FileTree.stat_eq_ok_iff.1 hpage
  obtain ⟨-, rfl⟩ := (hl.resolve_join_eq_ok_iff (plain_pageFile hstem _)).1 hk
  obtain hold | ⟨order, horder, text, time', hfreshText, rfl⟩ :=
    h.current l hl x content time e hx.names hfile hget
  · rw [hsourceTime, hpageTime] at hnewer
    exact absurd hold (Nat.not_lt.2 hnewer)
  · refine ⟨order, horder, text, hfreshText, ?_⟩
    rw [Settings.pageContent?, FileTree.contentAt?, hpath, hk]
    simp [FileTree.content?, hget]

/-- A document that has not failed has, alone, the page that is made now in one of the orders. -/
theorem Processed.pageAlone?_eq {o : Outcome} {u : World}
    (hprocessed : Processed s l (Path.join s.root x) w o u) (ho : o.isFailed = false)
    (horder : s.definitionOrder ∈ orders) (h : UpToDate s orders m w)
    (hformat : s.format = .html) (hoverwrite : s.overwrite = false)
    (hl : w.files.DirectoryAt s.output l) (hx : SourceFile s w.files m x)
    (hdated : 0 < w.files.modified (Path.join s.root x)) :
    ∃ order ∈ orders, ∃ text,
      (s.withOrder order).freshText? w.files (Path.join s.root x) = some text ∧
      s.pageAlone? w.files (Path.join s.root x) = some (.text text) := by
  cases hprocessed with
  | skipped fresh =>
    have hparts : s.parts? w.files (Path.join s.root x) = none := by
      simp [Settings.parts?, fresh]
    rw [Settings.pageAlone?, hparts]
    exact h.pageContent?_of_fresh hformat hoverwrite hl hx hdated fresh
  | failed => cases ho
  | generated stale d read template copies blocks can =>
    have htext := freshText?_of_plan read can.template can.plan
    exact ⟨_, horder, _, htext, pageAlone?_of_needsPage htext stale⟩

end

/-! ### The order of definitions -/

/-- A source file loses no definition, if it can be read. -/
def FileTree.KeepsDefinitions (files : FileTree) (path : String) : Prop :=
  ∀ text ∈ (files.readText path).toOption,
    LiterateJournal.KeepsDefinitions ((SourceKind.ofPath? path).getD .markdown) text

instance (files : FileTree) (path : String) : Decidable (files.KeepsDefinitions path) :=
  inferInstanceAs (Decidable (∀ text ∈ (files.readText path).toOption, _))

section

variable {s : Settings} {files : FileTree} {path : String}

/-- A source that loses no definition is read in the same way in all orders. -/
theorem read_withOrder (h : files.KeepsDefinitions path) (order : String → DefinitionOrder) :
    (s.withOrder order).read files path = s.read files path := by
  unfold Settings.read readSource
  cases hread : files.readText path with
  | error e => rfl
  | ok text =>
    have hkeeps := h text (by rw [hread]; rfl)
    exact (Document.ofSource_order hkeeps _ _).trans (Document.ofSource_order hkeeps _ _).symm

theorem freshText?_withOrder (h : files.KeepsDefinitions path)
    (order : String → DefinitionOrder) :
    (s.withOrder order).freshText? files path = s.freshText? files path := by
  rw [Settings.freshText?, Settings.freshText?, read_withOrder h]
  rfl

end

/-! ### Old pages and all pages -/

/-- Two builds start from the same sources and templates. -/
structure SameInputs (s : Settings) (t u : FileTree) : Prop where
  sources : s.sources u = s.sources t
  text : ∀ p ∈ s.sources t, u.readText p = t.readText p
  template : u.readText (templatePath s.stylesDirectory s.format) =
    t.readText (templatePath s.stylesDirectory s.format)

section

variable {s : Settings} {w w' u u' : World} {r r' : BuildReport} {p text : String}

theorem SameInputs.withOrder {t u : FileTree} (h : SameInputs s t u)
    (order : String → DefinitionOrder) : SameInputs (s.withOrder order) t u :=
  ⟨h.sources, h.text, h.template⟩

theorem SameInputs.freshText?_eq {t t' : FileTree} (h : SameInputs s t t') (hp : p ∈ s.sources t)
    (htext : s.freshText? t p = some text) : s.freshText? t' p = some text := by
  refine freshText?_mono htext ?_ fun template htemplate => h.template.trans htemplate
  rw [Settings.read, Settings.read, readSource, readSource, h.text p hp]

theorem Prepared.documentsStage_of_html {start : World} {l : Location} (hl : Prepared s w start l)
    (hw : w.files.WellFormed) (hformat : s.format = .html) :
    DocumentsStage s l start (s.documents start.files) :=
  hl.documentsStage hw (by simp [hformat])

/-- A build of all pages makes the page of every document anew. -/
theorem pageContent?_of_overwrite (hb : Run.Returns (build s) w r w') (hw : w.files.WellFormed)
    (hformat : s.format = .html) (hlist : s.whitelist = none) (hoverwrite : s.overwrite = true)
    (hown : s.OwnPages (w.prepared s).files) (hp : p ∈ s.sources (w.prepared s).files)
    (htext : s.freshText? (w.prepared s).files p = some text) :
    s.pageContent? w'.files p = some (.text text) := by
  obtain ⟨start, built, h⟩ := returns_build.1 hb
  obtain rfl := prepared_eq h.prepared
  obtain ⟨l, hl⟩ := prepared_of_returns hw h.prepared
  have hdocuments : s.documents (w.prepared s).files = s.sources (w.prepared s).files :=
    documents_eq_sources hlist
  rw [h.pageContent?_of_ownPages hl (hl.documentsStage_of_html hw hformat) (hdocuments ▸ hown)
    (hdocuments ▸ hp)]
  exact pageAlone?_of_needsPage htext (needsPage_eq_true_iff.2 (.inl hoverwrite))

end

/-- Whatever edits and builds have gone before, a build of the old pages that returns has an outcome
for every document. It leaves each one that it has made or skipped with the page that is made from
the sources now, given the order of definitions of the build in which the page was made, and that is
the page that a build of all pages leaves from the same sources in that order. If the source loses
no definition, it is the page of all orders. -/
theorem incremental_page_eq {s : Settings} {orders : Set (String → DefinitionOrder)} {m : Location}
    {w₀ w w' : World} {r : BuildReport} (hformat : s.format = .html) (hlist : s.whitelist = none)
    (hoverwrite : s.overwrite = false) (horder : s.definitionOrder ∈ orders)
    (hw₀ : w₀.files.WellFormed) (hroot : w₀.files.DirectoryAt s.root m)
    (hnone : s.NoPages w₀.files) (hsteps : Relation.ReflTransGen (SiteStep s orders) w₀ w)
    (hready : s.Ready w) (hb : Run.Returns (build s) w r w') :
    let start := (w.prepared s).files
    r.outcomes.length = (s.documents start).length ∧
      ∀ p o, (p, o) ∈ (s.documents start).zip r.outcomes → o.isFailed = false →
        0 < start.modified p →
        ∃ made ∈ orders, ∃ text, s.pageContent? w'.files p = some (.text text) ∧
          ∀ order, order = made ∨ start.KeepsDefinitions p →
            (s.withOrder order).freshText? start p = some text ∧
            ∀ u r' u', u.files.WellFormed → SameInputs s start (u.prepared s).files →
              Run.Returns (build (s.withOrder order).overwriting) u r' u' →
              s.pageContent? u'.files p = some (.text text) := by
  have hw : UpToDate s orders m w :=
    upToDate_of_steps hformat hlist (upToDate_of_noPages hw₀ hroot hnone) hsteps
  have hstart : UpToDate s orders m (w.prepared s) :=
    hw.step (advances_prepared hw.wellFormed hready)
  obtain ⟨start, built, h⟩ := returns_build.1 hb
  obtain rfl := prepared_eq h.prepared
  obtain ⟨l, hl⟩ := prepared_of_returns hw.wellFormed h.prepared
  obtain ⟨entries, hentries⟩ := h.root
  have hst := hl.documentsStage_of_html hw.wellFormed hformat
  have hown : ((s.documents (w.prepared s).files).map pageStem).Nodup := by
    rw [documents_eq_sources hlist]
    exact hready.ownPages
  refine ⟨length_of_returns_buildDocuments h.documents, fun p o hp ho hdated => ?_⟩
  have hmem := (List.of_mem_zip hp).1
  obtain ⟨x, rfl, hx⟩ := exists_sourceFile hlist hstart hentries hmem
  obtain ⟨v, hprocessed⟩ := h.processed_of_ownPages hst hown _ o hp
  obtain ⟨made, hmade, text, htext, halone⟩ :=
    hprocessed.pageAlone?_eq ho horder hstart hformat hoverwrite hl.output hx hdated
  refine ⟨made, hmade, text, by rw [h.pageContent?_of_ownPages hl hst hown hmem, halone], ?_⟩
  intro order hsame
  have hfresh : (s.withOrder order).freshText? (w.prepared s).files (Path.join s.root x) =
      some text := by
    obtain rfl | hkeeps := hsame
    · exact htext
    · rw [freshText?_withOrder hkeeps, ← freshText?_withOrder hkeeps made, htext]
  refine ⟨hfresh, fun u r' u' hu hinputs hb' => ?_⟩
  have hsource := mem_sources_of_mem_documents hmem
  exact pageContent?_of_overwrite (s := (s.withOrder order).overwriting) hb' hu hformat hlist rfl
    (show ((s.sources (u.prepared s).files).map pageStem).Nodup from
      hinputs.sources ▸ hready.ownPages)
    (show _ ∈ s.sources (u.prepared s).files from hinputs.sources ▸ hsource)
    ((hinputs.withOrder order).freshText?_eq hsource hfresh)

/-- A source that is written again. -/
theorem siteStep_edited {s : Settings} {orders : Set (String → DefinitionOrder)} {w : World}
    {x text : String} (names : s.NamesSource x)
    (h : (w.files.write w.clock (Path.join s.root x) (.text text)).isOk = true) :
    SiteStep s orders w (w.edited (Path.join s.root x) text) := by
  unfold World.edited
  split
  · rename_i files hwrite
    exact .write names hwrite
  · rename_i e hwrite
    rw [hwrite] at h
    cases h

theorem siteSteps_editedSite :
    Relation.ReflTransGen (SiteStep everyDocument Set.univ) freshSite editedSite := by
  have hbuild : SiteStep everyDocument Set.univ freshSite
      (Run.result (build everyDocument) freshSite).2 :=
    .build (Set.mem_univ everyDocument.definitionOrder) ready_freshSite
  exact (Relation.ReflTransGen.single hbuild).tail
    (siteStep_edited (x := "b.md") ⟨by decide, by decide⟩ (by decide +kernel))

theorem ready_editedSite : everyDocument.Ready editedSite :=
  ⟨by decide +kernel, .inl ⟨⟨false, ["out"]⟩,
    FileTree.directoryAt_of_toOption (by decide +kernel) ⟨1, by decide +kernel⟩⟩⟩

/-- A build of the old pages makes the page of the document that has been written again, and skips
the other document. -/
theorem incremental_page_editedSite_eq : ∃ r w',
    let start := (editedSite.prepared everyDocument).files
    Relation.ReflTransGen (SiteStep everyDocument Set.univ) freshSite editedSite ∧
      Run.Returns (build everyDocument) editedSite r w' ∧
      everyDocument.documents start = ["src/a.md", "src/b.md"] ∧
      r.outcomes = [.skipped "a.md", .generated "b.md" "out/b.html" "C"] ∧
      r.outcomes.length = (everyDocument.documents start).length ∧
      ∀ p ∈ everyDocument.documents start,
        ∃ text, everyDocument.pageContent? w'.files p = some (.text text) ∧
          ∀ order, (everyDocument.withOrder order).freshText? start p = some text ∧
            ∀ u r' u', u.files.WellFormed →
              SameInputs everyDocument start (u.prepared everyDocument).files →
              Run.Returns (build (everyDocument.withOrder order).overwriting) u r' u' →
              everyDocument.pageContent? u'.files p = some (.text text) := by
  obtain ⟨hread, hresult, -⟩ := result_editedSite
  obtain ⟨r, hb, hr⟩ := Run.exists_returns hresult
  have houtcomes : r.outcomes = [.skipped "a.md", .generated "b.md" "out/b.html" "C"] :=
    congrArg Prod.fst hr
  obtain ⟨hlength, hpages⟩ := incremental_page_eq rfl rfl rfl (Set.mem_univ _) wellFormed_freshSite
    directoryAt_root_freshSite noPages_freshSite siteSteps_editedSite ready_editedSite hb
  have hmade : ∀ o ∈ r.outcomes, o.isFailed = false := by
    rw [houtcomes]
    decide
  have hsources : ∀ p ∈ ["src/a.md", "src/b.md"],
      0 < (editedSite.prepared everyDocument).files.modified p ∧
        (editedSite.prepared everyDocument).files.KeepsDefinitions p := by decide +kernel
  refine ⟨r, _, siteSteps_editedSite, hb, hread.1, houtcomes, hlength, fun p hp => ?_⟩
  rw [← List.map_fst_zip hlength.ge] at hp
  obtain ⟨⟨p, o⟩, hzip, rfl⟩ := List.mem_map.1 hp
  obtain ⟨hp, ho⟩ := List.of_mem_zip hzip
  obtain ⟨hdated, hkeeps⟩ := hsources p (hread.1 ▸ hp)
  obtain ⟨made, -, text, hpage, hall⟩ := hpages p o hzip (hmade o ho) hdated
  exact ⟨text, hpage, fun order => hall order (.inr hkeeps)⟩

end LiterateJournal
