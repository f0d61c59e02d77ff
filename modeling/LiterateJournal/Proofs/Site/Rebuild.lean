import LiterateJournal.Proofs.Site.Stages

/-!
# Builds one after another

A build right after another one makes no page. The assets have their copies, each page is as new as
its source, and a source that cannot be read fails again. What may differ is the entry of the site:
a page that was the only one made is its own entry, and the next build does not know of it.

## Main definitions

* `FileTree.found?` — what a path leads to, with all that is in it.
* `Settings.InputsStay` — a build leaves its sources and assets as they were.
* `Settings.Settled` — a document that will not get a page.
* `Settings.EntryStays` — the entry of the site is one that the next build chooses, too.

## Main statements

* `settled_of_returns` — documents that have been processed are settled.
* `rebuild_changes_nothing_iff` — when a second build changes nothing.
-/

namespace LiterateJournal

/-! ### Assets -/

/-- What a path leads to, with all that is in it. -/
def FileTree.found? (t : FileTree) (path : String) : Option FileNode :=
  (t.place path).toOption.bind Place.here

theorem found?_of_resolve {t : FileTree} {path : String} {l : Location}
    (h : t.resolve path = .ok l) : t.found? path = t.node? l := by
  obtain ⟨p, hp, -, hhere⟩ := FileTree.place_of_resolve h
  rw [FileTree.found?, hp, ← hhere]
  rfl

theorem resolve_of_found? {t : FileTree} {path : String} {n : FileNode}
    (h : t.found? path = some n) : ∃ l, t.resolve path = .ok l := by
  cases hp : t.place path with
  | error e =>
    rw [FileTree.found?, hp] at h
    cases h
  | ok p => exact ⟨p.location, FileTree.resolve_eq_ok_iff.2 ⟨p, hp, rfl⟩⟩

/-- What is found at a path before and after was found there in between. -/
theorem found?_between {inside : Location → Prop} {w v u : World} {path : String}
    (h : World.Fills inside w v) (h' : World.Fills inside v u)
    (hsame : u.files.found? path = w.files.found? path) :
    v.files.found? path = w.files.found? path := by
  have hvu := h'.files.mono h.clock fun _ => id
  cases hw : w.files.found? path with
  | some n =>
    obtain ⟨l, hl⟩ := resolve_of_found? hw
    have hv := FileTree.resolve_mono (fun _ => h.files.isDirectory) hl
    have hu := FileTree.resolve_mono (fun _ => h'.files.isDirectory) hv
    rw [found?_of_resolve hu, found?_of_resolve hl] at hsame
    rw [found?_of_resolve hv, ← hw, found?_of_resolve hl]
    exact h.files.node?_between hvu hsame
  | none =>
    cases hv : v.files.found? path with
    | none => rfl
    | some n =>
      obtain ⟨l, hl⟩ := resolve_of_found? hv
      have hu := FileTree.resolve_mono (fun _ => h'.files.isDirectory) hl
      rw [found?_of_resolve hl] at hv
      have hget : v.files.get? l = some n.entry := by rw [FileTree.get?, hv]; rfl
      have hkept := h'.files.kept l _ hget
      rw [hw, found?_of_resolve hu] at hsame
      rw [FileTree.get?, hsame] at hkept
      cases hkept

/-- Assets that have been copied are not copied again. -/
theorem returns_copyAssets_again {source target : String} {w w' u : World} {n : Nat}
    {l : Location} (hw : w.files.WellFormed)
    (h : Run.Returns (copyAssets source target) w n w') (hl : w'.files.DirectoryAt target l)
    (hdir : ∀ k, w'.files.IsDirectory k → u.files.IsDirectory k)
    (hcopies : ∀ k, l.Contains k → u.files.get? k = w'.files.get? k)
    (hbefore : w'.files.found? source = w.files.found? source)
    (hafter : u.files.found? source = w.files.found? source) :
    ∃ v, Run.Returns (copyAssets source target) u 0 v ∧ v.files = u.files := by
  refine returns_copyAssets_of_same hw h hl hdir hcopies fun x m hmake hfills hm => ?_
  have hx : World.Fills l.Contains w x := fills_ensureDirectory hmake
  have hm' := FileTree.resolve_mono (fun _ => hfills.files.isDirectory) hm
  have hmu := FileTree.resolve_mono hdir hm'
  -- the assets have been the same all the time
  have hfound := found?_between hx hfills hbefore
  rw [← found?_of_resolve hmu, ← found?_of_resolve hm', ← found?_of_resolve hm, hbefore, hafter]
  exact ⟨hfound.symm, hfound.symm⟩

/-- The output directory of a build is already prepared for the next one. -/
theorem returns_prepareOutput_again {s : Settings} {w start u : World} {n : Nat} {l : Location}
    (hw : w.files.WellFormed) (h : Run.Returns (prepareOutput s) w n start)
    (hl : Prepared s w start l)
    (hdir : ∀ k, start.files.IsDirectory k → u.files.IsDirectory k)
    (hstyles : ∀ k, (l.child "styles").Contains k → u.files.get? k = start.files.get? k)
    (hassets : ∀ source, s.templates = some source →
      start.files.found? source = w.files.found? source ∧
        u.files.found? source = w.files.found? source) :
    ∃ v, Run.Returns (prepareOutput s) u 0 v ∧ v.files = u.files := by
  unfold prepareOutput at h ⊢
  simp only [Run.returns_bind] at h ⊢
  obtain ⟨_, v, hmake, _, v', hmake', h⟩ := h
  have hfirst : World.Fills (l.child "styles").Contains w v' :=
    (fills_ensureDirectory hmake).trans (fills_ensureDirectory hmake')
  have hthere {path : String} (hp : path.isEmpty = true ∨ v'.files.isDirectory path = true)
      (hd : ∀ k, v'.files.IsDirectory k → start.files.IsDirectory k) :
      path.isEmpty = true ∨ u.files.isDirectory path = true :=
    hp.imp_right (isDirectory_path_mono fun k hk => hdir k (hd k hk))
  have hsecond : World.Fills (fun _ => False) v v' := fills_ensureDirectory hmake'
  have houtput := (isDirectory_ensureDirectory hmake).imp_right
    (isDirectory_path_mono fun _ => hsecond.files.isDirectory)
  have hstyled := isDirectory_ensureDirectory hmake'
  cases hsource : s.templates with
  | none =>
    rw [hsource] at h
    obtain ⟨-, rfl⟩ := Run.returns_pure.1 h
    exact ⟨_, ⟨(), _, returns_ensureDirectory_of_isDirectory (hthere houtput fun _ => id), (), _,
      returns_ensureDirectory_of_isDirectory (w := { u with clock := u.clock + 1 })
        (hthere hstyled fun _ => id), Run.returns_pure.2 ⟨rfl, rfl⟩⟩, rfl⟩
  | some source =>
    rw [hsource] at h
    have hv' := hfirst.files.wellFormed hw
    obtain ⟨k, hk, hcopy⟩ := fills_copyAssets hv' h
    obtain rfl := hk.unique hl.styles
    obtain ⟨hbefore, hafter⟩ := hassets source hsource
    have hfound := found?_between hfirst hcopy hbefore
    obtain ⟨x, hx, hfiles⟩ := returns_copyAssets_again (u := { u with clock := u.clock + 1 + 1 })
      hv' h hk hdir hstyles (hbefore.trans hfound.symm) (hafter.trans hfound.symm)
    exact ⟨x, ⟨(), _, returns_ensureDirectory_of_isDirectory
        (hthere houtput fun _ => hcopy.files.isDirectory), (), _,
      returns_ensureDirectory_of_isDirectory (w := { u with clock := u.clock + 1 })
        (hthere hstyled fun _ => hcopy.files.isDirectory), hx⟩, hfiles⟩

/-! ### Documents -/

/-- A document will not get a page: it has one that is new enough, or it cannot be read and is
passed over. -/
def Settings.Settled (s : Settings) (files : FileTree) (path : String) : Prop :=
  s.needsPage files path = false ∨ s.errorPolicy ≠ .abort ∧ ∃ e, s.read files path = .error e

theorem needsPage_eq_false_iff {s : Settings} {files : FileTree} {path : String}
    (hoverwrite : s.overwrite = false) :
    s.needsPage files path = false ↔ files.modified path ≤
      files.modified (pagePath s.format (Path.join s.output (pageName path))) := by
  simp [Settings.needsPage, isStale, hoverwrite]

section

variable {s : Settings} {w w' : World} {path : String} {l : Location}

theorem isDirectory_of_page_isDraft (hl : w.files.DirectoryAt s.output l)
    (hsource : isSource path = true) {k : Location}
    (hk : w.files.resolve (pagePath s.format (Path.join s.output (pageName path))) = .ok k)
    (hdraft : k.IsDraft) : w.files.IsDirectory k := by
  obtain rfl | ⟨-, hk⟩ := page_location hl (isPageStem_of_isSource hsource) hk
  · obtain ⟨m, x, heq⟩ := hdraft
    exact absurd (Location.child_inj.1 heq).2 (pageFile_ne_draft _ _ _)
  · exact FileTree.isDirectory_of_contains hl.isDirectory hk

/-- A settled document stays so for as long as its source does. -/
theorem Settings.Settled.mono {changed : Location → Prop} (h : s.Settled w.files path)
    (hoverwrite : s.overwrite = false) (hev : World.Evolves changed w w')
    (hl : w.files.DirectoryAt s.output l) (hsource : isSource path = true)
    (hsame : w'.files.stat path = w.files.stat path)
    (hdated : w.files.modified path ≤ w.clock) : s.Settled w'.files path := by
  obtain hfresh | ⟨hpolicy, e, he⟩ := h
  · refine .inl ((needsPage_eq_false_iff hoverwrite).2 ?_)
    rw [modified_eq_of_stat_eq hsame]
    exact le_modified hev (fun k hk hdraft => isDirectory_of_page_isDraft hl hsource hk hdraft)
      hdated ((needsPage_eq_false_iff hoverwrite).1 hfresh)
  · exact .inr ⟨hpolicy, e, by rw [read_eq_of_stat_eq hsame, he]⟩

/-- A document that has been processed is settled. -/
theorem Processed.settled {o : Outcome} (h : Processed s l path w o w')
    (hoverwrite : s.overwrite = false) (hpolicy : ¬ (s.errorPolicy = .abort ∧ o.isFailed = true))
    (hl : w.files.DirectoryAt s.output l) (hsource : isSource path = true)
    (hsame : w'.files.stat path = w.files.stat path)
    (hdated : w.files.modified path ≤ w.clock) : s.Settled w'.files path := by
  cases h with
  | skipped fresh => exact .inl fresh
  | failed stale e read => exact .inr ⟨fun habort => hpolicy ⟨habort, rfl⟩, e, read⟩
  | generated stale d read template copies blocks can =>
    refine .inl ((needsPage_eq_false_iff hoverwrite).2 ?_)
    have hget := get?_render (w := w.report (.started (sourceName path)))
      d.pageTitle hl can
    have hl' := (evolves_render (w := w.report (.started (sourceName path)))
      d.pageTitle hl can).directoryAt hl
    have hstem := isPageStem_of_isSource hsource
    have hstat := stat_join hl' (plain_pageFile hstem s.format) can.publish.fits
    rw [hget] at hstat
    rw [modified_eq_of_stat_eq hsame, pageName_eq, pagePath_join hstem _ can.dot]
    have hclock : (w.report (.started (sourceName path))).clock = w.clock := rfl
    refine Nat.le_trans (?_ : _ ≤ w.clock + saveTime copies + 1)
      (Nat.le_of_eq (modified_of_stat hstat).symm)
    omega

/-- Documents that have been processed are settled, also after the rest of the build. -/
theorem settled_of_returns {start u : World} {paths : List String} {outcomes : List Outcome}
    (h : Run.Returns (buildDocuments s paths) w outcomes w') (hoverwrite : s.overwrite = false)
    (hbefore : World.Evolves (fun _ => True) start w)
    (hafter : World.Evolves (fun _ => True) w' u) (hl : w.files.DirectoryAt s.output l)
    (hat : ∀ p ∈ paths, ∃ m x, SourceAt s start.files p m x)
    (hsame : ∀ p ∈ paths, u.files.stat p = start.files.stat p)
    (hdated : ∀ p ∈ paths, start.files.modified p ≤ start.clock) :
    ∀ p ∈ paths, s.Settled u.files p := by
  induction paths generalizing w outcomes with
  | nil => simp
  | cons path paths ih =>
    obtain ⟨o, v, rest, ho, hpolicy, hrest, rfl⟩ := returns_buildDocuments_cons.1 h
    obtain ⟨m, x, hm⟩ := hat path List.mem_cons_self
    have htail (p : String) (hp : p ∈ paths) := List.mem_cons_of_mem path hp
    have hprocessed := (returns_buildDocument hl hm.isSource).1 ho
    have hstep : World.Evolves (fun _ => True) w v :=
      (hprocessed.evolves hl).weaken fun _ _ => trivial
    have hlv := hstep.directoryAt hl
    have hlater : World.Evolves (fun _ => True) v u :=
      ((evolves_buildDocuments hlv (fun p hp => by
        obtain ⟨_, _, hp'⟩ := hat p (htail p hp)
        exact hp'.isSource) hrest).weaken fun _ _ => trivial).trans hafter
    have hpath := hsame path List.mem_cons_self
    have hold := hdated path List.mem_cons_self
    -- the source has been the same all the time
    have hw := hm.stat_between hbefore (hstep.trans hlater) hpath hold
    have hv := hm.stat_between (hbefore.trans hstep) hlater hpath hold
    have hclock := hbefore.clock
    have hsettled := hprocessed.settled hoverwrite hpolicy hl hm.isSource (hv.trans hw.symm) (by
      rw [modified_eq_of_stat_eq hw]
      omega)
    intro p hp
    obtain rfl | hp := List.mem_cons.1 hp
    · refine hsettled.mono hoverwrite hlater hlv hm.isSource (hpath.trans hv.symm) ?_
      rw [modified_eq_of_stat_eq hv]
      exact Nat.le_trans hold (hbefore.trans hstep).clock
    · exact ih hrest (hbefore.trans hstep) hlv (fun q hq => hat q (htail q hq))
        (fun q hq => hsame q (htail q hq)) (fun q hq => hdated q (htail q hq)) p hp

/-- Nothing is made for settled documents. -/
theorem returns_buildDocuments_of_settled (paths : List String)
    (hl : w.files.DirectoryAt s.output l) (hsource : ∀ p ∈ paths, isSource p = true)
    (h : ∀ p ∈ paths, s.Settled w.files p) :
    ∃ outcomes v, Run.Returns (buildDocuments s paths) w outcomes v ∧ v.files = w.files ∧
      ∀ o ∈ outcomes, o.isSkipped = true ∨ o.isFailed = true := by
  induction paths generalizing w with
  | nil => exact ⟨[], w, returns_buildDocuments_nil.2 ⟨rfl, rfl⟩, rfl, by simp⟩
  | cons path paths ih =>
    obtain ⟨o, v, ho, hpolicy, hv, hkind⟩ : ∃ o v, Run.Returns (buildDocument s path) w o v ∧
        ¬ (s.errorPolicy = .abort ∧ o.isFailed = true) ∧ v.files = w.files ∧
          (o.isSkipped = true ∨ o.isFailed = true) := by
      have hiff {o : Outcome} {v : World} :
          Run.Returns (buildDocument s path) w o v ↔ Processed s l path w o v :=
        returns_buildDocument hl (hsource path List.mem_cons_self)
      cases hneeds : s.needsPage w.files path with
      | false => exact ⟨_, _, hiff.2 (.skipped hneeds), by simp [Outcome.isFailed], rfl, .inl rfl⟩
      | true =>
        obtain hfresh | ⟨hpolicy, e, he⟩ := h path List.mem_cons_self
        · rw [hneeds] at hfresh
          cases hfresh
        · exact ⟨_, _, hiff.2 (.failed hneeds e he), fun habort => hpolicy habort.1, rfl, .inr rfl⟩
    obtain ⟨outcomes, u, hrest, hu, hkinds⟩ := ih (w := v) (by rwa [hv])
      (fun p hp => hsource p (List.mem_cons_of_mem _ hp)) (by
        rw [hv]
        exact fun p hp => h p (List.mem_cons_of_mem _ hp))
    refine ⟨o :: outcomes, u, returns_buildDocuments_cons.2
      ⟨o, v, outcomes, ho, hpolicy, hrest, rfl⟩, hu.trans hv, fun o' ho' => ?_⟩
    obtain rfl | ho' := List.mem_cons.1 ho'
    · exact hkind
    · exact hkinds o' ho'

end

/-! ### The entry of the site -/

/-- The entry of the site is one that the next build chooses, too: if only one page was made, then
there is only one document, or the page is the entry by its name. -/
def Settings.EntryStays (s : Settings) (files : FileTree) (entries : List PageEntry) : Prop :=
  ∀ only, entries = [only] → (s.documents files).length = 1 ∨
    ∃ source, defaultSource? (s.sources files) = some source ∧ pageName source = only.fileName

section

variable {s : Settings} {w start built w' : World} {r : BuildReport} {l : Location}

theorem BuildStages.defaultFile_of_only (h : BuildStages s w start built r w')
    (hl : Prepared s w start l) {only : PageEntry} (honly : r.entries = [only]) :
    r.defaultFile = only.fileName :=
  h.defaultFile_of_choice hl (by rw [honly]; rfl)

/-- A build that makes no page chooses the entry of the build before. -/
theorem BuildStages.chosen_again (h : BuildStages s w start built r w')
    (hl : Prepared s w start l) (hoverwrite : s.overwrite = false)
    (hentry : s.EntryStays start.files r.entries) :
    entryChoice? s (s.sources start.files) (s.documents start.files) []
      (s.hasIndex w'.files) = some r.defaultFile := by
  have hlength := h.length_entries_le
  obtain ⟨hchosen, hfiles⟩ | ⟨hchosen, hfile, template, copies, blocks, can, -, hfiles⟩ :=
    h.landing_cases hl
  · rcases hentries : r.entries with _ | ⟨e, _ | ⟨e', es⟩⟩
    · -- the list of the pages is there if it was
      have hindex : s.hasIndex w'.files = s.hasIndex start.files := by
        rw [hfiles, Settings.hasIndex, Settings.hasIndex, FileTree.exists?, FileTree.exists?,
          FileTree.stat_eq_of_get?_eq (h.get?_of_entries_eq_nil hl hentries)]
      rw [hindex, ← hchosen, hentries]
    · have hfile : e.fileName = r.defaultFile := (h.defaultFile_of_only hl hentries).symm
      by_cases hone : (s.documents start.files).length = 1
      · obtain ⟨only, honly⟩ := List.length_eq_one_iff.1 hone
        obtain ⟨path, hpath, hname⟩ := h.exists_document (hentries ▸ List.mem_cons_self)
        obtain rfl : path = only := by simpa [honly] using hpath
        rw [honly, ← hfile, hname]
        rfl
      · obtain ⟨source, hsource, hname⟩ := (hentry e hentries).resolve_left hone
        rw [entryChoice?_nil_of_length hone, hsource, ← hfile, ← hname]
    · rw [hentries, List.length_cons, List.length_cons] at hlength
      rw [hentries, entryChoice?_cons_cons] at hchosen
      obtain ⟨source, hsource, hname⟩ := Option.map_eq_some_iff.1 hchosen
      rw [entryChoice?_nil_of_length (by omega), hsource, ← hname]
  · have hlists := entryChoice?_eq_none_iff.1 hchosen
    have hone : (s.documents start.files).length ≠ 1 := by
      cases hentries : r.entries with
      | nil => exact hlists.not_only_document hentries
      | cons e es =>
        have hne := hlists.not_only
        rw [hentries, List.length_cons] at hlength hne
        omega
    rw [entryChoice?_nil_of_length hone, hlists.no_default, hfiles,
      hasIndex_render ((h.evolves hl).directoryAt hl.output) can, hoverwrite, hfile]
    rfl

/-- The entry of a build stays if a build of the same sources that makes no page chooses it. -/
theorem BuildStages.entryStays_of_chosen {v start' built' v' : World} {r' : BuildReport}
    (h : BuildStages s w start built r w') (hl : Prepared s w start l)
    (h' : BuildStages s v start' built' r' v')
    (hsources : s.sources start'.files = s.sources start.files) (hnone : r'.entries = [])
    (hsame : r'.defaultFile = r.defaultFile) : s.EntryStays start.files r.entries := by
  intro only honly
  by_cases hone : (s.documents start.files).length = 1
  · exact .inl hone
  have hpage : r'.defaultFile = only.fileName := hsame.trans (h.defaultFile_of_only hl honly)
  have hdocuments : s.documents start'.files = s.documents start.files :=
    congrArg (eligible s) hsources
  obtain ⟨ended, hlanding, -⟩ := h'.landing
  rw [returns_landingPage h'.sources_ne_nil, hnone, hdocuments, entryChoice?_nil_of_length hone,
    hsources] at hlanding
  cases hsource : defaultSource? (s.sources start.files) with
  | some source =>
    rw [hsource] at hlanding
    obtain ⟨hchosen, -⟩ | ⟨hchosen, -⟩ := hlanding
    · exact .inr ⟨source, rfl, (Option.some.inj hchosen).trans hpage⟩
    · cases hchosen
  | none =>
    -- the entry would be the list of the pages, and its source the entry by its name
    have hindex : r'.defaultFile = indexName := by
      rw [hsource] at hlanding
      obtain ⟨hchosen, -⟩ | ⟨-, hindex, -⟩ := hlanding
      · exact (Option.some.inj (Option.ite_none_right_eq_some.1 hchosen).2).symm
      · exact hindex
    obtain ⟨path, hpath, hname⟩ := h.exists_document (honly ▸ List.mem_cons_self)
    exact absurd hsource (defaultSource?_ne_none (mem_sources_of_mem_documents hpath)
      (isSource_of_mem_documents hpath) (by rw [← hname, ← hpage, hindex]))

end

/-! ### Two builds -/

/-- A build whose output directory is prepared, whose documents are settled and whose entry is
there makes nothing. -/
theorem returns_build_of_settled {s : Settings} {u again : World} {l : Location} {file : String}
    (hagain : Run.Returns (prepareOutput s) u 0 again) (hfiles : again.files = u.files)
    (hroot : ∃ entries, u.files.children s.root = .ok entries) (hne : s.sources u.files ≠ [])
    (hl : u.files.DirectoryAt s.output l)
    (hsettled : ∀ p ∈ s.documents u.files, s.Settled u.files p)
    (hchosen : entryChoice? s (s.sources u.files) (s.documents u.files) []
      (s.hasIndex u.files) = some file) :
    ∃ r v, Run.Returns (build s) u r v ∧
      (∀ o ∈ r.outcomes, o.isSkipped = true ∨ o.isFailed = true) ∧
      r.stats.assetsCopied = 0 ∧ r.defaultFile = file ∧ v.files = u.files := by
  rw [← hfiles] at hroot hne hl hsettled hchosen ⊢
  obtain ⟨outcomes, v, houtcomes, hv, hkinds⟩ := returns_buildDocuments_of_settled
    (w := again.report (.buildStarted (s.documents again.files).length))
    (s.documents again.files) hl (fun _ => isSource_of_mem_documents) hsettled
  have hnone : outcomes.filterMap Outcome.entry? = [] := filterMap_entry?_eq_nil_iff.2 hkinds
  have hlanding : Run.Returns
      (landingPage s (s.sources again.files) (s.documents again.files) []) v file v := by
    refine (returns_landingPage hne).2 (.inl ⟨?_, rfl⟩)
    rw [hv]
    exact hchosen
  let report : BuildReport :=
    { entries := []
      outcomes
      defaultFile := file
      stats :=
        { discovered := (s.sources again.files).length
          eligible := (s.documents again.files).length
          generated := 0
          skipped := (outcomes.filter Outcome.isSkipped).length
          failed := (outcomes.filter Outcome.isFailed).length
          assetsCopied := 0
          milliseconds := 0 } }
  exact ⟨report, _, returns_build.2 ⟨again, v,
    { prepared := hagain
      root := hroot
      sources_ne_nil := hne
      documents := houtcomes
      entries := hnone.symm
      landing := ⟨v, hlanding, rfl⟩
      stats := rfl }⟩, hkinds, rfl, rfl, hv⟩

/-- A build leaves its sources and assets as they were. -/
structure Settings.InputsStay (s : Settings) (w w' : World) : Prop where
  sources : s.sources w'.files = s.sources (w.prepared s).files
  stat : ∀ p ∈ s.sources (w.prepared s).files, w'.files.stat p = (w.prepared s).files.stat p
  assets : ∀ source, s.templates = some source →
    (w.prepared s).files.found? source = w.files.found? source ∧
      w'.files.found? source = w.files.found? source

/-- A second build changes nothing just if it chooses the same entry of the site. -/
theorem rebuild_changes_nothing_iff {s : Settings} {w w' : World} {r : BuildReport}
    (hb : Run.Returns (build s) w r w') (hw : w.files.WellFormed) (hoverwrite : s.overwrite = false)
    (hinputs : s.InputsStay w w')
    (hdated : ∀ p ∈ s.sources (w.prepared s).files,
      (w.prepared s).files.modified p ≤ (w.prepared s).clock) :
    (∃ r₂ w₂, Run.Returns (build s) w' r₂ w₂ ∧
        (∀ o ∈ r₂.outcomes, o.isSkipped = true ∨ o.isFailed = true) ∧
        r₂.stats.assetsCopied = 0 ∧ r₂.defaultFile = r.defaultFile ∧ w₂.files = w'.files) ↔
      s.EntryStays (w.prepared s).files r.entries := by
  obtain ⟨start, built, h⟩ := returns_build.1 hb
  obtain rfl := prepared_eq h.prepared
  obtain ⟨l, hl⟩ := prepared_of_returns hw h.prepared
  have hwell := hl.fills.files.wellFormed hw
  have hbuilt := h.evolves hl
  have hlanding := h.evolves_landing hl
  have hall := (hbuilt.weaken fun _ _ => trivial).trans (hlanding.weaken fun _ _ => trivial)
  have hdocuments : s.documents w'.files = s.documents (w.prepared s).files :=
    congrArg (eligible s) hinputs.sources
  obtain ⟨again, hagain, hfiles⟩ := returns_prepareOutput_again hw h.prepared hl hall.isDirectory
    (fun k hk => (hlanding.kept k (not_pageChanges_of_contains hk)).trans
      (hbuilt.kept k fun ⟨_, _, hchanges⟩ => not_pageChanges_of_contains hk hchanges))
    hinputs.assets
  constructor
  · rintro ⟨r₂, w₂, hb₂, hkinds, -, hdefault, -⟩
    obtain ⟨start₂, built₂, h₂⟩ := returns_build.1 hb₂
    obtain rfl : start₂ = again := (Run.Returns.unique h₂.prepared hagain).2
    exact h.entryStays_of_chosen hl h₂ (by rw [hfiles, hinputs.sources])
      (h₂.entries.trans (filterMap_entry?_eq_nil_iff.2 hkinds)) hdefault
  · intro hentry
    have hroot : ∃ entries, w'.files.children s.root = .ok entries := by
      obtain ⟨entries, hentries⟩ := h.root
      obtain ⟨m, hm, hd, -⟩ := children_eq_ok_iff.1 hentries
      exact ⟨_, children_eq_ok_iff.2 ⟨m, FileTree.resolve_mono hall.isDirectory hm,
        hall.isDirectory m hd, rfl⟩⟩
    have hsettled : ∀ p ∈ s.documents (w.prepared s).files, s.Settled w'.files p :=
      settled_of_returns h.documents hoverwrite (World.evolves_report _ _ _)
        (hlanding.weaken fun _ _ => trivial) hl.output
        (fun p hp => exists_sourceAt hwell (mem_sources_of_mem_documents hp))
        (fun p hp => hinputs.stat p (mem_sources_of_mem_documents hp))
        (fun p hp => hdated p (mem_sources_of_mem_documents hp))
    refine returns_build_of_settled hagain hfiles hroot ?_ (h.directoryAt_output hl) ?_ ?_
    · rw [hinputs.sources]
      exact h.sources_ne_nil
    · rwa [hdocuments]
    · rw [hinputs.sources, hdocuments]
      exact h.chosen_again hl hoverwrite hentry

def everyDocument : Settings where
  root := "src"
  output := "out"

/-- A site of two documents, of which one has a page. -/
def halfMadeSite : World where
  files := .ofEntries [
    (⟨false, ["out"]⟩, .directory 1),
    (⟨false, ["out", "a.html"]⟩, .file (.text "a") 5),
    (⟨false, ["out", "styles"]⟩, .directory 1),
    (⟨false, ["out", "styles", "template.html"]⟩, .file (.text "\x7bdocument\x7d") 1),
    (⟨false, ["src"]⟩, .directory 1),
    (⟨false, ["src", "a.md"]⟩, .file (.text "# A") 1),
    (⟨false, ["src", "b.md"]⟩, .file (.text "# B") 1)]
  clock := 10
  web := fun _ => .dropped
  requests := []
  progress := []

theorem wellFormed_halfMadeSite : halfMadeSite.files.WellFormed :=
  FileTree.wellFormed_ofEntries (by decide)

/-- Files in which the sources are as they were. -/
def HasSources (files : FileTree) : Prop :=
  everyDocument.sources files = ["src/a.md", "src/b.md"] ∧
    ∀ source ∈ [("src/a.md", "# A"), ("src/b.md", "# B")],
      (files.stat source.1).toOption = some (.file (.text source.2) 1)

instance (files : FileTree) : Decidable (HasSources files) := inferInstanceAs (Decidable (_ ∧ _))

/-- Only one document gets a page, and the next build writes a list of no pages. -/
theorem result_halfMadeSite :
    let w' := (Run.result (build everyDocument) halfMadeSite).2
    (Run.result (build everyDocument) halfMadeSite).1.toOption.map
        (fun r => r.outcomes.map Outcome.isSkipped) = some [true, false] ∧
      HasSources (halfMadeSite.prepared everyDocument).files ∧ HasSources w'.files ∧
      w'.files.exists? "out/index.html" = false ∧
      (Run.result (build everyDocument) w').2.files.exists? "out/index.html" = true := by
  decide +kernel

theorem inputsStay_halfMadeSite : everyDocument.InputsStay halfMadeSite
    (Run.result (build everyDocument) halfMadeSite).2 where
  sources := by
    obtain ⟨-, hbefore, hafter, -⟩ := result_halfMadeSite
    exact hafter.1.trans hbefore.1.symm
  stat := by
    obtain ⟨-, hbefore, hafter, -⟩ := result_halfMadeSite
    have hstat {path text : String}
        (h : (path, text) ∈ [("src/a.md", "# A"), ("src/b.md", "# B")]) :=
      (eq_ok_of_toOption (hafter.2 _ h)).trans (eq_ok_of_toOption (hbefore.2 _ h)).symm
    rw [hbefore.1, List.forall_mem_cons, List.forall_mem_singleton]
    exact ⟨hstat List.mem_cons_self, hstat (List.mem_cons_of_mem _ List.mem_cons_self)⟩
  assets := by
    intro source hsource
    cases hsource

theorem rebuild_halfMadeSite_iff : ∃ r w',
    Run.Returns (build everyDocument) halfMadeSite r w' ∧
      ((∃ r₂ w₂, Run.Returns (build everyDocument) w' r₂ w₂ ∧
          (∀ o ∈ r₂.outcomes, o.isSkipped = true ∨ o.isFailed = true) ∧
          r₂.stats.assetsCopied = 0 ∧ r₂.defaultFile = r.defaultFile ∧ w₂.files = w'.files) ↔
        everyDocument.EntryStays (halfMadeSite.prepared everyDocument).files r.entries) := by
  obtain ⟨r, hr, -⟩ := Run.exists_returns result_halfMadeSite.1
  exact ⟨r, _, hr, rebuild_changes_nothing_iff hr wellFormed_halfMadeSite rfl
    inputsStay_halfMadeSite (by decide +kernel)⟩

/-- A second build may write a list of the pages. -/
theorem rebuild_changes_site : ¬ ∀ (s : Settings) (w w' : World) (r : BuildReport),
    Run.Returns (build s) w r w' → w.files.WellFormed → s.overwrite = false → s.InputsStay w w' →
    (∀ p ∈ s.sources w.files, w.files.modified p ≤ w.clock) →
    ∃ r₂ w₂, Run.Returns (build s) w' r₂ w₂ ∧
      (∀ o ∈ r₂.outcomes, o.isSkipped = true ∨ o.isFailed = true) ∧
      r₂.stats.assetsCopied = 0 ∧ r₂.defaultFile = r.defaultFile ∧ w₂.files = w'.files := by
  intro h
  obtain ⟨r, hr, -⟩ := Run.exists_returns result_halfMadeSite.1
  obtain ⟨r₂, w₂, hb, -, -, -, hfiles⟩ := h everyDocument halfMadeSite _ r hr
    wellFormed_halfMadeSite rfl inputsStay_halfMadeSite (by decide +kernel)
  obtain rfl := hb.snd_eq
  have hindex := congrArg (FileTree.exists? · "out/index.html") hfiles
  have hlist := result_halfMadeSite.2.2.2
  exact absurd (hlist.2.symm.trans (hindex.trans hlist.1)) (by decide)

end LiterateJournal
