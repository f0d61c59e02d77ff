import LiterateJournal.Proofs.Site.Stages

/-!
# Builds of some documents only

A build of listed documents leaves the pages of the other ones as they are, with one exception: the
entry of the site is looked for among the sources that discovery has let through, and a list of the
pages takes the place of an index page whose source is not one of them.

## Main statements

* `build_keeps_page_iff` — when the page of a document that is not built stays as it is.
-/

namespace LiterateJournal

/-- The page of a document that is not built stays as it is, unless a list of the pages takes its
place. -/
theorem build_keeps_page_iff {s : Settings} {w w' : World} {r : BuildReport} {path : String}
    {k : Location} (hb : Run.Returns (build s) w r w') (hw : w.files.WellFormed)
    (hsource : isSource path = true)
    (hother : ∀ other ∈ s.documents (w.prepared s).files, pageName other ≠ pageName path)
    (hk : w'.files.resolve (pagePath s.format (Path.join s.output (pageName path))) = .ok k) :
    w'.files.content? k = w.files.content? k ↔
      (s.ListsPages (w.prepared s).files r.entries → pageName path = indexName →
        ∃ template,
          (w.prepared s).files.readText (templatePath s.stylesDirectory s.format) = .ok template ∧
            w.files.content? k = some (.text (s.indexText template r.entries))) := by
  obtain ⟨start, built, h⟩ := returns_build.1 hb
  obtain rfl := prepared_eq h.prepared
  obtain ⟨l, hl⟩ := prepared_of_returns hw h.prepared
  have hstem := isPageStem_of_isSource hsource
  have hpage := page_location (h.directoryAt_output hl) hstem hk
  have hbuilt := h.content?_page hl hother hpage
  have houtput := (h.evolves hl).directoryAt hl.output
  obtain ⟨hchosen, hfiles⟩ | ⟨hchosen, -, template, copies, blocks, can, htemplate, hfiles⟩ :=
    h.landing_cases hl
  · have hlists : ¬ s.ListsPages (w.prepared s).files r.entries := by
      rw [← entryChoice?_eq_none_iff, hchosen]
      simp
    simp [hfiles, hbuilt, hlists]
  · have hlists := entryChoice?_eq_none_iff.1 hchosen
    by_cases hindex : pageStem path = "index"
    · have hname : pageName path = indexName := pageName_eq_indexName_iff.2 hindex
      -- the list of the pages is written over the page
      obtain rfl : k = l.child (s.format.pageFile "index") := by
        rw [hindex] at hpage
        exact hpage.resolve_right fun hdot => absurd hdot.1 (by decide)
      rw [hfiles, content?_render_indexDocument houtput can]
      constructor
      · intro hsame _ _
        exact ⟨template, htemplate, hsame.symm⟩
      · intro hsame
        obtain ⟨template', htemplate', hold⟩ := hsame hlists hname
        obtain rfl : template = template' := by simpa [htemplate] using htemplate'
        exact hold.symm
    · have hname : pageName path ≠ indexName := mt pageName_eq_indexName_iff.1 hindex
      have hkept := (evolves_render s.landingTitle houtput can).kept k
        (not_pageChanges_page hpage hindex)
      have hcontent : w'.files.content? k = built.files.content? k := by
        rw [hfiles]
        exact FileTree.content?_eq_of_get?_eq hkept
      simp [hcontent, hbuilt, hname]

def twoOfThree : Settings where
  root := "src"
  output := "out"
  whitelist := some (.ofNames ["a.md", "b.md"])

/-- A site whose index page has not been made yet. -/
def siteWithoutIndex : World where
  files := .ofEntries [
    (⟨false, ["out"]⟩, .directory 1),
    (⟨false, ["out", "styles"]⟩, .directory 1),
    (⟨false, ["out", "styles", "template.html"]⟩, .file (.text "\x7bdocument\x7d") 1),
    (⟨false, ["src"]⟩, .directory 1),
    (⟨false, ["src", "a.md"]⟩, .file (.text "# A") 1),
    (⟨false, ["src", "b.md"]⟩, .file (.text "# B") 1),
    (⟨false, ["src", "index.md"]⟩, .file (.text "# Home") 1)]
  clock := 10
  web := fun _ => .dropped
  requests := []
  progress := []

theorem wellFormed_siteWithoutIndex : siteWithoutIndex.files.WellFormed :=
  FileTree.wellFormed_ofEntries (by decide)

/-- Two documents get a page, and the index page is new. -/
theorem result_siteWithoutIndex :
    let start := siteWithoutIndex.prepared twoOfThree
    let w' := (Run.result (build twoOfThree) siteWithoutIndex).2
    (Run.result (build twoOfThree) siteWithoutIndex).1.toOption.map
        (fun r => r.outcomes.map Outcome.isSkipped) = some [false, false] ∧
      twoOfThree.documents start.files = ["src/a.md", "src/b.md"] ∧
      "src/index.md" ∈ Settings.sources { twoOfThree with whitelist := none } start.files ∧
      (w'.files.resolve (pagePath twoOfThree.format (Path.join twoOfThree.output
        (pageName "src/index.md")))).toOption = some ⟨false, ["out", "index.html"]⟩ ∧
      (w'.files.content? ⟨false, ["out", "index.html"]⟩).isSome = true := by decide +kernel

theorem build_keeps_index_page_iff : ∃ r w',
    Run.Returns (build twoOfThree) siteWithoutIndex r w' ∧
      (w'.files.content? ⟨false, ["out", "index.html"]⟩ =
          siteWithoutIndex.files.content? ⟨false, ["out", "index.html"]⟩ ↔
        (twoOfThree.ListsPages (siteWithoutIndex.prepared twoOfThree).files r.entries →
          pageName "src/index.md" = indexName →
          ∃ template, (siteWithoutIndex.prepared twoOfThree).files.readText
              (templatePath twoOfThree.stylesDirectory twoOfThree.format) = .ok template ∧
            siteWithoutIndex.files.content? ⟨false, ["out", "index.html"]⟩ =
              some (.text (twoOfThree.indexText template r.entries)))) := by
  obtain ⟨hresult, hdocuments, -, hresolve, -⟩ := result_siteWithoutIndex
  obtain ⟨r, hr, -⟩ := Run.exists_returns hresult
  refine ⟨r, _, hr, ?_⟩
  exact build_keeps_page_iff hr wellFormed_siteWithoutIndex (by decide)
    (by rw [hdocuments]; decide) (eq_ok_of_toOption hresolve)

/-- The page of a document that is not on the list may be written over. -/
theorem build_changes_page : ¬ ∀ (s : Settings) (w w' : World) (r : BuildReport) (path : String)
    (k : Location), Run.Returns (build s) w r w' → w.files.WellFormed →
    path ∈ Settings.sources { s with whitelist := none } (w.prepared s).files →
    path ∉ s.documents (w.prepared s).files →
    (∀ other ∈ s.documents (w.prepared s).files, pageName other ≠ pageName path) →
    w'.files.resolve (pagePath s.format (Path.join s.output (pageName path))) = .ok k →
    w'.files.content? k = w.files.content? k := by
  intro h
  obtain ⟨hresult, hdocuments, hsource, hresolve, hnew⟩ := result_siteWithoutIndex
  obtain ⟨r, hr, -⟩ := Run.exists_returns hresult
  have hsame := h twoOfThree siteWithoutIndex _ r "src/index.md" ⟨false, ["out", "index.html"]⟩
    hr wellFormed_siteWithoutIndex hsource (by rw [hdocuments]; decide) (by rw [hdocuments]; decide)
    (eq_ok_of_toOption hresolve)
  rw [hsame] at hnew
  exact absurd hnew (by decide +kernel)

end LiterateJournal
