import LiterateJournal.Proofs.Site.Documents

/-!
# Pages that cannot be written

A page in HTML that cannot be written is left as it was. Only its draft may have been written, so
that a build which is broken off leaves no half of a page.

## Main definitions

* `World.LeavesDraft` — all that has changed is the draft of a page.

## Main statements

* `fails_writePage`, `fails_renderDocument`, `fails_buildDocument` — what a failure leaves.
* `wellFormed_render` — what a page in HTML leaves if it can be written.
-/

namespace LiterateJournal

theorem FileTree.DirectoryAt.parent? {t : FileTree} {base x parent : String} {l : Location}
    (hl : t.DirectoryAt base l) (hx : Path.Plain x)
    (hparent : Path.parent? (Path.join base x) = some parent) : t.DirectoryAt parent l := by
  obtain ⟨⟨c, -, hc⟩, -⟩ := Path.components_parent? hparent
  rw [Path.components_join base hx] at hc
  obtain ⟨hcomponents, -⟩ := List.append_inj' hc rfl
  exact ⟨hcomponents ▸ hl.walk_eq, hl.isDirectory⟩

namespace World

/-- All that has changed is the draft of a page. -/
structure LeavesDraft (l : Location) (file : String) (w v : World) : Prop where
  evolves : Evolves (· = l.child (file ++ ".tmp")) w v
  wellFormed : w.files.WellFormed → v.files.WellFormed

variable {w v u : World} {l : Location} {file text : String}

theorem LeavesDraft.of_files_eq (l : Location) (file : String) (hweb : v.web = w.web)
    (hclock : w.clock ≤ v.clock) (hfiles : v.files = w.files) : LeavesDraft l file w v :=
  ⟨.of_files_eq _ hweb hclock hfiles, fun h => hfiles ▸ h⟩

theorem LeavesDraft.trans (h : LeavesDraft l file w v) (h' : LeavesDraft l file v u) :
    LeavesDraft l file w u :=
  ⟨h.evolves.trans h'.evolves, fun hw => h'.wellFormed (h.wellFormed hw)⟩

/-- A page that is not its own draft is the same as before. -/
theorem LeavesDraft.get?_eq (h : LeavesDraft l file w v) :
    v.files.get? (l.child file) = w.files.get? (l.child file) :=
  h.evolves.kept _ fun heq => ne_draft file (Location.child_inj.1 heq).2

end World

section

variable {s : Settings} {w v : World} {l : Location} {e : BuildError}

theorem fails_writePage {output file text : String} (hl : w.files.DirectoryAt output l)
    (hx : Path.Plain file) (hdraft : Path.Plain (file ++ ".tmp"))
    (h : Run.Fails (writePage (Path.join output file) text) w e v) :
    World.LeavesDraft l file w v := by
  obtain ⟨parent, hparent⟩ := Path.exists_parent?_join output hx.1
  have hsame : (w.files.makeDirectories w.clock parent).2 = w.files :=
    FileTree.makeDirectories_of_directoryAt w.clock (hl.parent? hx hparent)
  have htick : World.LeavesDraft l file w { w with clock := w.clock + 1 } :=
    .of_files_eq l file rfl (Nat.le_succ _) rfl
  unfold writePage at h
  simp only [hparent, Path.join_append output hx.1, Run.fails_bind, Run.fails_makeDirectories,
    Run.returns_makeDirectories, hsame] at h
  obtain ⟨_, -, -, rfl⟩ | ⟨_, x, ⟨-, rfl⟩, hwrite | ⟨_, y, hwrite, hrename⟩⟩ := h
  · exact htick
  · obtain ⟨_, -, -, rfl⟩ := Run.fails_change.1 hwrite
    exact htick
  · obtain ⟨_, -, -, rfl⟩ := Run.fails_change.1 hrename
    obtain ⟨-, hd, rfl⟩ := (Run.returns_write (w := { w with clock := w.clock + 1 }) hl hdraft).1
      hwrite
    refine htick.trans ⟨World.evolves_put (w := { w with clock := w.clock + 1 }) (.text text)
      (FileTree.hasPlace_child hl.isDirectory _) hd, fun hw => ?_⟩
    exact hw.set _ (FileTree.plain_child (FileTree.plain_of_directoryAt hl) hdraft)

theorem fails_loadTemplate {styles : String} {f : OutputFormat}
    (h : Run.Fails (loadTemplate styles f) w e v) : v = w := by
  unfold loadTemplate at h
  simp only [Run.fails_bind, Run.fails_files, Run.returns_files, false_or, and_assoc,
    exists_and_left, exists_eq_left] at h
  split at h
  · exact (Run.fails_pure.1 h).elim
  · exact (Run.fails_throw.1 h).2
  · exact (Run.fails_throw.1 h).2

theorem plan?_of_html (hformat : s.format = .html) (d : Document) :
    s.plan? d = some ([], d.blocks) := by
  rw [Settings.plan?, hformat]

theorem pageBlocks_of_html (hformat : s.format = .html) (d : Document) (title : String) :
    pageBlocks s d title = pure d.blocks := by
  rw [pageBlocks, hformat]

theorem fails_renderDocument {d : Document} {title stem : String} (hformat : s.format = .html)
    (hl : w.files.DirectoryAt s.output l) (hstem : IsPageStem stem)
    (h : Run.Fails (renderDocument s d title (Path.join s.output (stem ++ ".html"))) w e v) :
    World.LeavesDraft l (s.format.pageFile stem) w v := by
  have hpath : pagePath s.format (Path.join s.output (stem ++ ".html")) =
      Path.join s.output (s.format.pageFile stem) :=
    pagePath_join hstem s.output (by simp [hformat])
  unfold renderDocument at h
  simp only [pageBlocks_of_html hformat, hpath, Run.fails_bind, Run.fails_pure,
    returns_loadTemplate, Run.returns_pure, false_or, or_false, and_false, exists_false] at h
  obtain hload | ⟨template, _, ⟨-, rfl⟩, blocks, _, ⟨-, rfl⟩, hwrite⟩ := h
  · obtain rfl := fails_loadTemplate hload
    exact .of_files_eq l _ rfl (Nat.le_refl _) rfl
  · exact fails_writePage hl (plain_pageFile hstem _) (plain_draft hstem _) hwrite

/-- A document that breaks a build off could not be rendered. -/
theorem fails_buildDocument {path : String} (hformat : s.format = .html)
    (hl : w.files.DirectoryAt s.output l) (hsource : isSource path = true)
    (h : Run.Fails (buildDocument s path) w e v) :
    World.LeavesDraft l (s.format.pageFile (pageStem path)) w v := by
  obtain ⟨kind, hkind, hstem⟩ := exists_of_isSource hsource
  have hreport (p : Progress) : World.LeavesDraft l (s.format.pageFile (pageStem path)) w
      (w.report p) := .of_files_eq l _ rfl (Nat.le_refl _) rfl
  unfold buildDocument at h
  simp only [hkind, Run.fails_bind, Run.fails_files, Run.returns_files, false_or, and_assoc,
    exists_and_left, exists_eq_left] at h
  split at h
  · simp only [Run.fails_bind, Run.fails_report, Run.fails_pure, and_false, exists_false,
      or_false] at h
  · simp only [Run.fails_bind, Run.fails_report, Run.returns_report, Run.fails_files,
      Run.returns_files, false_or, and_assoc, exists_and_left, exists_eq_left] at h
    obtain ⟨-, h⟩ := h
    split at h
    · simp only [Run.fails_bind, Run.fails_report, Run.fails_pure, and_false, exists_false,
        or_false] at h
    · simp only [Run.fails_bind, Run.fails_report, Run.fails_pure, and_false, exists_false,
        or_false] at h
      exact (hreport _).trans (fails_renderDocument hformat (w := w.report _) hl hstem h)

/-- A page in HTML that has been written leaves the files well-formed. -/
theorem wellFormed_render {d : Document} {title stem template : String}
    {copies : List ImageCopy} {blocks : List Block} (hformat : s.format = .html)
    (hl : w.files.DirectoryAt s.output l) (hstem : IsPageStem stem)
    (can : CanRender s d stem w l template copies blocks) (hw : w.files.WellFormed) :
    (w.render s d title stem l template copies blocks).files.WellFormed := by
  have hplan := can.plan
  rw [plan?_of_html hformat] at hplan
  cases hplan
  have hplain := FileTree.plain_of_directoryAt hl
  have hdraft := FileTree.plain_child hplain (plain_draft hstem s.format)
  exact ((hw.set _ hdraft).erase hdraft).set _
    (FileTree.plain_child hplain (plain_pageFile hstem s.format))

end

end LiterateJournal
