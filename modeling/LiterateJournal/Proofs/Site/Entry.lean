import LiterateJournal.Proofs.Site.Stages

/-!
# Whether the entry of a site is there

The entry of a site is chosen by its name, and nobody looks whether there is such a page. It is
there if it was made in the same run, as a page or as the list of the pages, or before.

## Main definitions

* `Settings.HasPage` — the file of a page is there.

## Main statements

* `BuildStages.hasPage_iff` — the pages after a build are those before it and those made.
* `entry_page_exists_iff` — when the entry of a site is there.
-/

namespace LiterateJournal

def Settings.HasPage (s : Settings) (files : FileTree) (name : String) : Prop :=
  (files.contentAt? (pagePath s.format (Path.join s.output name))).isSome = true

section

variable {s : Settings} {l : Location} {stem : String}

/-- What is read at the path of a page. -/
theorem contentAt?_page {files : FileTree} (hl : files.DirectoryAt s.output l)
    (hstem : IsPageStem stem) :
    files.contentAt? (pagePath s.format (Path.join s.output (stem ++ ".html"))) =
      if s.format = .latex ∧ stem = "." then none
      else if Path.Fits s.output (s.format.pageFile stem) then
        files.content? (l.child (s.format.pageFile stem))
      else none := by
  unfold FileTree.contentAt?
  rw [resolve_page hl hstem]
  by_cases hdot : s.format = .latex ∧ stem = "."
  · -- the path leads to a directory, which is no page
    obtain ⟨time, hup⟩ : files.IsDirectory ⟨l.isAbsolute, l.names.dropLast⟩ :=
      FileTree.isDirectory_of_contains hl.isDirectory ⟨rfl, List.dropLast_prefix _⟩
    rw [if_pos hdot, if_pos hdot]
    by_cases hsize : FileTree.maxPath < (Path.join s.output "..").utf8ByteSize
    · rw [if_pos hsize]
    · simp [hsize, FileTree.content?, hup]
  · rw [if_neg hdot, if_neg hdot]
    by_cases hfits : Path.Fits s.output (s.format.pageFile stem)
    · rw [if_pos hfits, if_pos hfits]
    · rw [if_neg hfits, if_neg hfits]

theorem hasPage_iff {files : FileTree} (hl : files.DirectoryAt s.output l)
    (hstem : IsPageStem stem) :
    s.HasPage files (stem ++ ".html") ↔
      ¬ (s.format = .latex ∧ stem = ".") ∧ Path.Fits s.output (s.format.pageFile stem) ∧
        (files.content? (l.child (s.format.pageFile stem))).isSome = true := by
  rw [Settings.HasPage, contentAt?_page hl hstem]
  split
  · simp_all
  · rename_i hdot
    split <;> simp_all

/-- A page is there after it has been written, and the others are as before. -/
theorem hasPage_render {w : World} {d : Document} {stem' template : String}
    {copies : List ImageCopy} {blocks : List Block} (title : String)
    (hl : w.files.DirectoryAt s.output l) (hstem : IsPageStem stem)
    (can : CanRender s d stem' w l template copies blocks) :
    s.HasPage (w.render s d title stem' l template copies blocks).files (stem ++ ".html") ↔
      s.HasPage w.files (stem ++ ".html") ∨ stem' = stem := by
  have hevolves := evolves_render title hl can
  rw [hasPage_iff (hevolves.directoryAt hl) hstem, hasPage_iff hl hstem]
  by_cases heq : stem' = stem
  · subst heq
    simp only [or_true, iff_true]
    exact ⟨fun hdot => can.dot hdot.1 hdot.2, can.publish.fits,
      by rw [FileTree.content?, get?_render title hl can]; rfl⟩
  · rw [FileTree.content?_eq_of_get?_eq
      (hevolves.kept _ (not_pageChanges_page (.inl rfl) (Ne.symm heq)))]
    simp [heq]

/-- The pages after a document has been processed. -/
theorem Processed.hasPage_iff {path : String} {w w' : World} {o : Outcome}
    (hl : w.files.DirectoryAt s.output l) (hsource : isSource path = true) (hstem : IsPageStem stem)
    (h : Processed s l path w o w') :
    s.HasPage w'.files (stem ++ ".html") ↔
      s.HasPage w.files (stem ++ ".html") ∨
        ∃ e ∈ o.entry?.toList, e.fileName = stem ++ ".html" := by
  cases h with
  | skipped => simp [Outcome.entry?]
  | failed => simp [Outcome.entry?]
  | generated stale d read template copies blocks can =>
    have hrender := hasPage_render (w := w.report (.started (sourceName path))) d.pageTitle hl
      hstem can
    have hname : pageName path = stem ++ ".html" ↔ pageStem path = stem := by
      rw [pageName_eq]
      constructor
      · intro h
        have hlist := congrArg String.toList h
        exact String.toList_inj.1 (by simpa using hlist)
      · rintro rfl
        rfl
    simpa [Outcome.entry?, pageName_sourceName hsource, hname] using hrender

/-- The pages after some documents have been processed. -/
theorem hasPage_buildDocuments {paths : List String} {w w' : World} {outcomes : List Outcome}
    (hl : w.files.DirectoryAt s.output l) (hsource : ∀ path ∈ paths, isSource path = true)
    (hstem : IsPageStem stem) (h : Run.Returns (buildDocuments s paths) w outcomes w') :
    s.HasPage w'.files (stem ++ ".html") ↔
      s.HasPage w.files (stem ++ ".html") ∨
        ∃ e ∈ outcomes.filterMap Outcome.entry?, e.fileName = stem ++ ".html" := by
  induction paths generalizing w outcomes with
  | nil =>
    obtain ⟨rfl, rfl⟩ := returns_buildDocuments_nil.1 h
    simp
  | cons path paths ih =>
    obtain ⟨o, v, rest, ho, -, hrest, rfl⟩ := returns_buildDocuments_cons.1 h
    have hpath := hsource path List.mem_cons_self
    have hprocessed := (returns_buildDocument hl hpath).1 ho
    rw [ih ((hprocessed.evolves hl).directoryAt hl)
        (fun p hp => hsource p (List.mem_cons_of_mem _ hp)) hrest,
      hprocessed.hasPage_iff hl hpath hstem, List.filterMap_cons]
    cases o.entry? with
    | none => simp
    | some e => simp [or_assoc]

end

section

variable {s : Settings} {w start built w' : World} {r : BuildReport} {l : Location}

/-- The pages after a build are those before it and those made. -/
theorem BuildStages.hasPage_iff (h : BuildStages s w start built r w') (hl : Prepared s w start l)
    {stem : String} (hstem : IsPageStem stem) :
    s.HasPage w'.files (stem ++ ".html") ↔
      s.HasPage start.files (stem ++ ".html") ∨
        (∃ e ∈ r.entries, e.fileName = stem ++ ".html") ∨
          s.ListsPages start.files r.entries ∧ "index" = stem := by
  have hbuilt := hasPage_buildDocuments (w := start.report _) hl.output
    (fun _ => isSource_of_mem_documents) hstem h.documents
  rw [← h.entries] at hbuilt
  rw [← entryChoice?_eq_none_iff]
  obtain ⟨hchosen, hfiles⟩ | ⟨hchosen, -, template, copies, blocks, can, -, hfiles⟩ :=
    h.landing_cases hl
  · rw [hfiles, hbuilt, hchosen]
    simp
  · rw [hfiles, hasPage_render _ ((h.evolves hl).directoryAt hl.output) hstem can, hbuilt,
      hchosen]
    simp [or_assoc]

/-- The entry of a site is named like a page. -/
theorem BuildStages.exists_defaultFile_eq (h : BuildStages s w start built r w')
    (hl : Prepared s w start l) :
    ∃ stem, IsPageStem stem ∧ r.defaultFile = stem ++ ".html" ∧
      (s.ListsPages start.files r.entries → stem = "index") := by
  have hsource {path : String} (hp : path ∈ s.sources start.files) :=
    isPageStem_of_isSource (isSource_of_mem_sources hp)
  rw [← entryChoice?_eq_none_iff]
  obtain ⟨hchosen, -⟩ | ⟨-, hfile, -⟩ := h.landing_cases hl
  · rw [hchosen]
    unfold entryChoice? at hchosen
    split at hchosen
    · rename_i only honly
      obtain ⟨path, hpath, hname⟩ := h.exists_document (e := only) (by rw [honly]; simp)
      exact ⟨pageStem path, hsource (mem_sources_of_mem_documents hpath),
        (Option.some.inj hchosen).symm.trans hname, by simp⟩
    · rename_i only _ honly
      exact ⟨pageStem only, hsource (mem_sources_of_mem_documents (by rw [honly]; simp)),
        (Option.some.inj hchosen).symm, by simp⟩
    · split at hchosen
      · rename_i source hdefault
        exact ⟨pageStem source, hsource (List.mem_of_find?_eq_some hdefault),
          (Option.some.inj hchosen).symm, by simp⟩
      · obtain ⟨-, hindex⟩ := Option.ite_none_right_eq_some.1 hchosen
        exact ⟨"index", isPageStem_index, (Option.some.inj hindex).symm, by simp⟩
  · exact ⟨"index", isPageStem_index, hfile, fun _ => rfl⟩

end

/-- The entry of a site is there just if it was there before the first document was processed, or
was made: as the page of a document, or as the list of the pages. -/
theorem entry_page_exists_iff {s : Settings} {w w' : World} {r : BuildReport}
    (hb : Run.Returns (build s) w r w') (hw : w.files.WellFormed) :
    s.HasPage w'.files r.defaultFile ↔
      s.HasPage (w.prepared s).files r.defaultFile ∨
        (∃ e ∈ r.entries, e.fileName = r.defaultFile) ∨
          s.ListsPages (w.prepared s).files r.entries := by
  obtain ⟨start, built, h⟩ := returns_build.1 hb
  obtain rfl := prepared_eq h.prepared
  obtain ⟨l, hl⟩ := prepared_of_returns hw h.prepared
  obtain ⟨stem, hstem, hfile, hindex⟩ := h.exists_defaultFile_eq hl
  rw [hfile, h.hasPage_iff hl hstem]
  refine or_congr_right (or_congr_right ⟨And.left, fun hlists => ⟨hlists, ?_⟩⟩)
  exact (hindex hlists).symm

def unreadableSite : World where
  files := .ofEntries [
    (⟨false, ["out"]⟩, .directory 1),
    (⟨false, ["out", "styles"]⟩, .directory 1),
    (⟨false, ["out", "styles", "template.html"]⟩, .file (.text "\x7bdocument\x7d") 1),
    (⟨false, ["src"]⟩, .directory 1),
    (⟨false, ["src", "a.fsx"]⟩, .file (.text "(** # A") 1)]
  clock := 10
  web := fun _ => .dropped
  requests := []
  progress := []

def scriptSettings : Settings where
  root := "src"
  output := "out"

theorem wellFormed_unreadableSite : unreadableSite.files.WellFormed :=
  FileTree.wellFormed_ofEntries (by decide)

/-- The script fails, and its page is the entry nevertheless. -/
theorem result_unreadableSite :
    (Run.result (build scriptSettings) unreadableSite).1.toOption.map
        (fun r => (r.defaultFile, r.outcomes.map Outcome.isFailed)) = some ("a.html", [true]) ∧
      ((Run.result (build scriptSettings) unreadableSite).2.files.contentAt? "out/a.html").isSome =
        false := by
  decide +kernel

theorem entry_page_unreadableSite_exists_iff : ∃ r w',
    Run.Returns (build scriptSettings) unreadableSite r w' ∧
      (scriptSettings.HasPage w'.files r.defaultFile ↔
        scriptSettings.HasPage (unreadableSite.prepared scriptSettings).files r.defaultFile ∨
          (∃ e ∈ r.entries, e.fileName = r.defaultFile) ∨
          scriptSettings.ListsPages (unreadableSite.prepared scriptSettings).files r.entries) := by
  obtain ⟨r, hr, -⟩ := Run.exists_returns result_unreadableSite.1
  exact ⟨r, _, hr, entry_page_exists_iff hr wellFormed_unreadableSite⟩

/-- A site may be entered by a page that is not there. -/
theorem entry_page_missing : ¬ ∀ (s : Settings) (w w' : World) (r : BuildReport),
    Run.Returns (build s) w r w' → w.files.WellFormed → s.HasPage w'.files r.defaultFile := by
  intro h
  obtain ⟨r, hr, hresult⟩ := Run.exists_returns result_unreadableSite.1
  have hpage := h scriptSettings unreadableSite _ r hr wellFormed_unreadableSite
  rw [(Prod.mk.inj hresult).1] at hpage
  have hmissing := result_unreadableSite.2
  exact absurd (hpage.symm.trans hmissing) (by decide)

end LiterateJournal
