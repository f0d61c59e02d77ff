import LiterateJournal.Proofs.Site.Landing

/-!
# The stages of a build

A build prepares the output directory, finds the sources, processes the documents and chooses the
entry of the site.

## Main definitions

* `World.prepared` — the world in which the first document is processed.
* `BuildStages` — a build that returns, stage by stage.

## Main statements

* `returns_build` — a build returns just when its stages do.
* `Prepared` — what a prepared output directory is like.
* `BuildStages.landing_cases` — how the entry of the site was chosen.
-/

namespace LiterateJournal

/-- The world in which the sources are looked for and the first document is processed. -/
def World.prepared (w : World) (s : Settings) : World := (Run.result (prepareOutput s) w).2

theorem prepared_eq {s : Settings} {w v : World} {n : Nat}
    (h : Run.Returns (prepareOutput s) w n v) : w.prepared s = v := h.snd_eq

/-! ### The output directory -/

/-- The output directory and the one of the templates have been made and filled. -/
structure Prepared (s : Settings) (w start : World) (l : Location) : Prop where
  output : start.files.DirectoryAt s.output l
  styles : start.files.DirectoryAt s.stylesDirectory (l.child "styles")
  fills : World.Fills (l.child "styles").Contains w start

theorem plain_styles : Path.Plain "styles" := by decide

theorem prepared_of_returns {s : Settings} {w start : World} {n : Nat} (hw : w.files.WellFormed)
    (h : Run.Returns (prepareOutput s) w n start) : ∃ l, Prepared s w start l := by
  unfold prepareOutput at h
  simp only [Run.returns_bind] at h
  obtain ⟨_, v, hmake, _, v', hmake', h⟩ := h
  obtain ⟨l, hl⟩ := exists_directoryAt_ensureDirectory hmake
  have hstyles := directoryAt_ensureDirectory_join hl plain_styles hmake'
  have hfills : World.Fills (l.child "styles").Contains w v' :=
    (fills_ensureDirectory hmake).trans (fills_ensureDirectory hmake')
  have hsecond : World.Fills (fun _ => False) v v' := fills_ensureDirectory hmake'
  have hl' := hsecond.files.directoryAt hl
  split at h
  · obtain ⟨m, hm, hcopy⟩ := fills_copyAssets (hfills.files.wellFormed hw) h
    obtain rfl := hm.unique (hcopy.files.directoryAt hstyles)
    exact ⟨l, hcopy.files.directoryAt hl', hm, hfills.trans hcopy⟩
  · obtain ⟨-, rfl⟩ := Run.returns_pure.1 h
    exact ⟨l, hl', hstyles, hfills⟩

theorem leaves_prepareOutput {inside : Location → Prop} {s : Settings} {w : World}
    (hw : w.files.WellFormed)
    (houtput : Run.Leaves (ensureDirectory s.output) w (World.Adds inside w))
    (hstyles : ∀ v, World.Adds inside w v →
      Run.Leaves (ensureDirectory s.stylesDirectory) v (World.Adds inside v))
    (hinside : ∀ (v : World) (l k : Location), World.Adds inside w v →
      v.files.DirectoryAt s.stylesDirectory l → l.Contains k → inside k) :
    Run.Leaves (prepareOutput s) w (World.Adds inside w) := by
  refine houtput.bind World.Adds.trans fun _ v _ hv => ?_
  refine (hstyles v hv).bind World.Adds.trans fun _ u _ hu => ?_
  have hadds := hv.trans hu
  split
  · exact leaves_copyAssets (hadds.fills.files.wellFormed hw) (hstyles u hadds)
      fun x l y hmake hl hy =>
        have hx := (hstyles u hadds).of_returns hmake
        hx.trans (hy.mono fun k => hinside x l k (hadds.trans hx) hl)
  · exact Run.leaves_pure.2 (.refl _ _)

/-- Whether the output directory can be prepared or not, what was there before stays. -/
theorem adds_prepared (s : Settings) {w : World} (hw : w.files.WellFormed) :
    World.Adds (fun _ => True) w (w.prepared s) :=
  leaves_prepareOutput hw (leaves_ensureDirectory w _) (fun v _ => leaves_ensureDirectory v _)
    fun _ _ _ _ _ _ => trivial

/-- In an output directory that is there, what is new is in the directory of the templates. -/
theorem adds_prepared_of_directoryAt {s : Settings} {w : World} {l : Location}
    (hw : w.files.WellFormed) (hl : w.files.DirectoryAt s.output l) :
    World.Adds (l.child "styles").Contains w (w.prepared s) := by
  refine leaves_prepareOutput hw (leaves_ensureDirectory_of_directoryAt _ hl)
    (fun v hv => leaves_ensureDirectory_join (hv.directoryAt hl) plain_styles
      (Location.contains_refl _)) ?_
  intro v m k hv hm hk
  rwa [(hv.directoryAt hl).of_join plain_styles hm] at hk

/-- The preparation of the output directory leaves the pages as they are. -/
theorem content?_prepared {s : Settings} {w start : World} {stem : String} {l k : Location}
    (hl : Prepared s w start l)
    (hk : k = l.child (s.format.pageFile stem) ∨ stem = "." ∧ k.Contains l) :
    start.files.content? k = w.files.content? k := by
  have hstyles : ¬ (l.child "styles").Contains k := by
    rintro ⟨-, hnames⟩
    obtain rfl | ⟨-, -, hk⟩ := hk
    · have heq := hnames.eq_of_length (by simp [Location.child])
      have hname : s.format.pageFile stem = "styles" := by simpa [Location.child] using heq.symm
      exact pageFile_ne (by decide) hname
    · have hlength := hnames.length_le
      have hlength' := hk.length_le
      simp [Location.child] at hlength
      omega
  cases hw : w.files.get? k with
  | some e => rw [FileTree.content?, FileTree.content?, hl.fills.files.kept k e hw, hw]
  | none =>
    cases hstart : start.files.get? k with
    | none => rw [FileTree.content?, FileTree.content?, hstart, hw]
    | some e =>
      obtain hd | hinside := (hl.fills.files.new k e hw hstart).2
      · cases e with
        | file => cases hd
        | directory => rw [FileTree.content?, FileTree.content?, hstart, hw]
      · exact absurd hinside hstyles

theorem returns_discover {s : Settings} {w w' : World} {found : List String} :
    Run.Returns (discover s) w found w' ↔
      (∃ entries, w.files.children s.root = .ok entries) ∧ found = s.sources w.files ∧ w' = w := by
  unfold discover Settings.sources
  simp only [Run.returns_bind, Run.returns_files, and_assoc, exists_and_left, exists_eq_left]
  cases w.files.children s.root <;> simp

/-! ### The whole build -/

/-- A build that returns, stage by stage. -/
structure BuildStages (s : Settings) (w start built : World) (r : BuildReport) (w' : World) :
    Prop where
  prepared : Run.Returns (prepareOutput s) w r.stats.assetsCopied start
  root : ∃ entries, start.files.children s.root = .ok entries
  sources_ne_nil : s.sources start.files ≠ []
  documents : Run.Returns (buildDocuments s (s.documents start.files))
    (start.report (.buildStarted (s.documents start.files).length)) r.outcomes built
  entries : r.entries = r.outcomes.filterMap Outcome.entry?
  landing : ∃ ended, Run.Returns
    (landingPage s (s.sources start.files) (s.documents start.files) r.entries)
      built r.defaultFile ended ∧
    w' = ended.report (.buildCompleted (s.documents start.files).length r.entries.length)
  stats : r.stats =
    { discovered := (s.sources start.files).length
      eligible := (s.documents start.files).length
      generated := r.entries.length
      skipped := (r.outcomes.filter Outcome.isSkipped).length
      failed := (r.outcomes.filter Outcome.isFailed).length
      assetsCopied := r.stats.assetsCopied
      milliseconds := 0 }

/-- A build returns just when its stages do. -/
theorem returns_build {s : Settings} {w w' : World} {r : BuildReport} :
    Run.Returns (build s) w r w' ↔ ∃ start built, BuildStages s w start built r w' := by
  unfold build
  simp only [Run.returns_bind, returns_discover]
  constructor
  · rintro ⟨n, start, hprepared, _, _, ⟨hroot, rfl, rfl⟩, h⟩
    split at h
    · exact absurd h (by simp)
    · rename_i hne
      simp only [Run.returns_bind, Run.returns_report, Run.returns_pure] at h
      obtain ⟨_, _, rfl, outcomes, built, hdocuments, file, ended, hlanding, _, _, rfl, rfl, rfl⟩ :=
        h
      exact ⟨_, built, hprepared, hroot, by simpa using hne, hdocuments, rfl,
        ⟨ended, hlanding, rfl⟩, rfl⟩
  · rintro ⟨start, built, h⟩
    obtain ⟨ended, hlanding, rfl⟩ := h.landing
    refine ⟨_, start, h.prepared, _, _, ⟨h.root, rfl, rfl⟩, ?_⟩
    rw [if_neg (by simpa using h.sources_ne_nil)]
    simp only [Run.returns_bind, Run.returns_report, Run.returns_pure]
    refine ⟨(), _, rfl, _, built, h.documents, r.defaultFile, ended, ?_, (), _, rfl, ?_, ?_⟩
    · rw [← h.entries]
      exact hlanding
    · have hentries := h.entries
      have hstats := h.stats
      obtain ⟨entries, outcomes, file, stats⟩ := r
      dsimp only at hentries hstats ⊢
      rw [hstats, hentries]
      rfl
    · rw [h.entries]
      rfl

theorem filterMap_entry?_eq_nil_iff {outcomes : List Outcome} :
    outcomes.filterMap Outcome.entry? = [] ↔
      ∀ o ∈ outcomes, o.isSkipped = true ∨ o.isFailed = true := by
  rw [List.filterMap_eq_nil_iff]
  refine forall_congr' fun o => forall_congr' fun _ => ?_
  cases o <;> simp [Outcome.entry?, Outcome.isSkipped, Outcome.isFailed]

theorem mem_of_mem_generatedOf {paths : List String} {outcomes : List Outcome} {path : String}
    (h : path ∈ generatedOf paths outcomes) : path ∈ paths := by
  obtain ⟨⟨_, o⟩, hmem, rfl⟩ := List.mem_map.1 h
  exact (List.of_mem_zip (List.mem_filter.1 hmem).1).1

theorem generatedOf_eq_nil {paths : List String} {outcomes : List Outcome}
    (h : outcomes.filterMap Outcome.entry? = []) : generatedOf paths outcomes = [] := by
  rw [generatedOf, List.map_eq_nil_iff, List.filter_eq_nil_iff]
  rintro ⟨path, o⟩ hmem
  simp [List.filterMap_eq_nil_iff.1 h o (List.of_mem_zip hmem).2]

section

variable {s : Settings} {w start built w' : World} {r : BuildReport} {l : Location}

/-- The documents change only the pages made, their drafts and the copies of images. -/
theorem BuildStages.evolves (h : BuildStages s w start built r w') (hl : Prepared s w start l) :
    World.Evolves (fun k => ∃ path ∈ generatedOf (s.documents start.files) r.outcomes,
      PageChanges s l (pageStem path) k) start built :=
  (World.evolves_report _ _ _).trans
    (evolves_buildDocuments (w := start.report _) hl.output
      (fun _ => isSource_of_mem_documents) h.documents)

/-- A build without pages changes nothing after its output directory has been prepared. -/
theorem BuildStages.get?_of_entries_eq_nil (h : BuildStages s w start built r w')
    (hl : Prepared s w start l) (hentries : r.entries = []) (k : Location) :
    built.files.get? k = start.files.get? k := by
  refine (h.evolves hl).kept k ?_
  rintro ⟨path, hpath, -⟩
  rw [generatedOf_eq_nil (h.entries ▸ hentries)] at hpath
  cases hpath

/-- Each page made is that of a document. -/
theorem BuildStages.exists_document (h : BuildStages s w start built r w') {e : PageEntry}
    (he : e ∈ r.entries) : ∃ path ∈ s.documents start.files, e.fileName = pageName path := by
  have hnames := names_of_returns_buildDocuments h.documents
  rw [h.entries] at he
  obtain ⟨o, ho, hentry⟩ := List.mem_filterMap.1 he
  obtain ⟨path, hpath, hname⟩ := List.mem_map.1 (hnames ▸ List.mem_map_of_mem ho)
  refine ⟨path, hpath, ?_⟩
  rw [← pageName_sourceName (isSource_of_mem_documents hpath), hname]
  cases o <;> cases hentry
  rfl

theorem BuildStages.length_entries_le (h : BuildStages s w start built r w') :
    r.entries.length ≤ (s.documents start.files).length := by
  rw [h.entries, ← length_of_returns_buildDocuments h.documents]
  exact List.length_filterMap_le _ _

/-- The template is the same for all pages. -/
theorem BuildStages.readText_template (h : BuildStages s w start built r w')
    (hl : Prepared s w start l) :
    built.files.readText (templatePath s.stylesDirectory s.format) =
      start.files.readText (templatePath s.stylesDirectory s.format) :=
  readText_template_eq hl.styles (h.evolves hl) fun _ ⟨path, _, hk⟩ => ⟨pageStem path, hk⟩

/-- The entry is chosen, or the list of the pages is written, as the world was in which the first
document was processed. -/
theorem BuildStages.landing_cases (h : BuildStages s w start built r w')
    (hl : Prepared s w start l) :
    (entryChoice? s (s.sources start.files) (s.documents start.files) r.entries
        (s.hasIndex start.files) = some r.defaultFile ∧ w'.files = built.files) ∨
      (entryChoice? s (s.sources start.files) (s.documents start.files) r.entries
        (s.hasIndex start.files) = none ∧ r.defaultFile = indexName ∧
        ∃ template copies blocks,
          CanRender s (indexDocument r.entries s.landingTitle) "index" built l template copies
            blocks ∧
          start.files.readText (templatePath s.stylesDirectory s.format) = .ok template ∧
          w'.files = (built.render s (indexDocument r.entries s.landingTitle) s.landingTitle
            "index" l template copies blocks).files) := by
  obtain ⟨ended, hlanding, rfl⟩ := h.landing
  rw [returns_landingPage h.sources_ne_nil] at hlanding
  have hindex : r.entries = [] → s.hasIndex built.files = s.hasIndex start.files := by
    intro hentries
    rw [Settings.hasIndex, Settings.hasIndex, FileTree.exists?, FileTree.exists?,
      FileTree.stat_eq_of_get?_eq (h.get?_of_entries_eq_nil hl hentries)]
  rw [entryChoice?_congr hindex] at hlanding
  obtain ⟨hchosen, rfl⟩ | ⟨hchosen, hfile, out, hrender⟩ := hlanding
  · exact .inl ⟨hchosen, rfl⟩
  · obtain ⟨template, copies, blocks, can, -, rfl⟩ := (returns_renderDocument
      ((h.evolves hl).directoryAt hl.output) isPageStem_index).1 hrender
    exact .inr ⟨hchosen, hfile, template, copies, blocks, can,
      (h.readText_template hl).symm.trans can.template, rfl⟩

/-- The site is entered by the page that is chosen. -/
theorem BuildStages.defaultFile_of_choice (h : BuildStages s w start built r w')
    (hl : Prepared s w start l) {file : String}
    (hchoice : entryChoice? s (s.sources start.files) (s.documents start.files) r.entries
      (s.hasIndex start.files) = some file) : r.defaultFile = file := by
  obtain ⟨hchosen, -⟩ | ⟨hchosen, -⟩ := h.landing_cases hl
  · exact Option.some.inj (hchosen.symm.trans hchoice)
  · cases hchosen.symm.trans hchoice

/-- The choice of the entry changes only the list of the pages. -/
theorem BuildStages.evolves_landing (h : BuildStages s w start built r w')
    (hl : Prepared s w start l) : World.Evolves (PageChanges s l "index") built w' := by
  obtain ⟨ended, hlanding, rfl⟩ := h.landing
  rw [returns_landingPage h.sources_ne_nil] at hlanding
  have hbuilt := (h.evolves hl).directoryAt hl.output
  obtain ⟨-, rfl⟩ | ⟨-, -, out, hrender⟩ := hlanding
  · exact World.evolves_report _ _ _
  · obtain ⟨template, copies, blocks, can, -, rfl⟩ :=
      (returns_renderDocument hbuilt isPageStem_index).1 hrender
    exact (evolves_render _ hbuilt can).trans (World.evolves_report _ _ _)

theorem BuildStages.directoryAt_output (h : BuildStages s w start built r w')
    (hl : Prepared s w start l) : w'.files.DirectoryAt s.output l :=
  (h.evolves_landing hl).directoryAt ((h.evolves hl).directoryAt hl.output)

/-- The documents leave the pages under other stems as they are. -/
theorem BuildStages.content?_page (h : BuildStages s w start built r w')
    (hl : Prepared s w start l) {path : String} {k : Location}
    (hother : ∀ other ∈ s.documents start.files, pageName other ≠ pageName path)
    (hk : k = l.child (s.format.pageFile (pageStem path)) ∨ pageStem path = "." ∧ k.Contains l) :
    built.files.content? k = w.files.content? k := by
  rw [← content?_prepared hl hk]
  refine FileTree.content?_eq_of_get?_eq ((h.evolves hl).kept k ?_)
  rintro ⟨other, hmem, hchanges⟩
  refine not_pageChanges_page hk (fun hstem => ?_) hchanges
  exact hother other (mem_of_mem_generatedOf hmem) (pageName_inj.2 hstem.symm)

end

end LiterateJournal
