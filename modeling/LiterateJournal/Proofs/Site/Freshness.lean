import LiterateJournal.Proofs.Site.Alike
import LiterateJournal.Proofs.Site.Failure

/-!
# Pages that are up to date

A page is up to date if it is older than its source, so that it will be made again, or else is what
its source is rendered as now. Edits of the sources and the making of pages keep it so, as what they
change is dated, and every page made is that of the only source with its name.

## Main definitions

* `Settings.freshText?` — the text of the page of a source, if it is made now.
* `UpToDate` — all pages are up to date.
* `Advances` — what a step does that keeps the pages up to date.

## Main statements

* `UpToDate.step` — pages stay up to date.
* `advances_edit`, `advances_adds`, `advances_page` — the steps that do so.
-/

namespace LiterateJournal

open Markdown (DefinitionOrder)

/-! ### The text of a page -/

/-- The text of the page of a source, if it is made now. -/
def Settings.freshText? (s : Settings) (files : FileTree) (path : String) : Option String :=
  match s.read files path, files.readText (templatePath s.stylesDirectory s.format) with
  | .ok d, .ok template =>
    (s.plan? d).map fun (_, blocks) => s.pageText d blocks template d.pageTitle
  | _, _ => none

section

variable {s : Settings} {t u : FileTree} {path text : String}

theorem freshText?_of_plan {d : Document} {template : String} {copies : List ImageCopy}
    {blocks : List Block} (hread : s.read t path = .ok d)
    (htemplate : t.readText (templatePath s.stylesDirectory s.format) = .ok template)
    (hplan : s.plan? d = some (copies, blocks)) :
    s.freshText? t path = some (s.pageText d blocks template d.pageTitle) := by
  simp [Settings.freshText?, hread, htemplate, hplan]

theorem freshText?_eq_some (h : s.freshText? t path = some text) : ∃ d template copies blocks,
    s.read t path = .ok d ∧
      t.readText (templatePath s.stylesDirectory s.format) = .ok template ∧
      s.plan? d = some (copies, blocks) ∧ text = s.pageText d blocks template d.pageTitle := by
  unfold Settings.freshText? at h
  split at h
  · rename_i d template hread htemplate
    obtain ⟨⟨copies, blocks⟩, hplan, rfl⟩ := Option.map_eq_some_iff.1 h
    exact ⟨d, template, copies, blocks, hread, htemplate, hplan, rfl⟩
  · cases h

/-- The text of a page stays as long as its source and the template do. -/
theorem freshText?_mono (h : s.freshText? t path = some text)
    (hread : s.read u path = s.read t path)
    (htemplate : ∀ template, t.readText (templatePath s.stylesDirectory s.format) = .ok template →
      u.readText (templatePath s.stylesDirectory s.format) = .ok template) :
    s.freshText? u path = some text := by
  obtain ⟨d, template, copies, blocks, hd, ht, hplan, rfl⟩ := freshText?_eq_some h
  exact freshText?_of_plan (hread.trans hd) (htemplate template ht) hplan

/-- A page that must be made is made with the text of now. -/
theorem pageAlone?_of_needsPage (h : s.freshText? t path = some text)
    (hneeds : s.needsPage t path = true) : s.pageAlone? t path = some (.text text) := by
  obtain ⟨d, template, copies, blocks, hd, ht, hplan, rfl⟩ := freshText?_eq_some h
  have hparts : s.parts? t path = some ⟨d, copies, blocks, template⟩ :=
    parts?_eq_some_iff.2 ⟨hneeds, hd, ht, hplan⟩
  rw [Settings.pageAlone?, hparts]
  rfl

/-- The same settings with another order of the definitions in each file. -/
def Settings.withOrder (s : Settings) (order : String → DefinitionOrder) : Settings :=
  { s with definitionOrder := order }

/-- What stands in the place of a page is the page as it is made now in one of some orders. -/
def Settings.IsPageOf (s : Settings) (orders : Set (String → DefinitionOrder)) (files : FileTree)
    (path : String) (e : Entry) : Prop :=
  ∃ order ∈ orders, ∃ text time,
    (s.withOrder order).freshText? files path = some text ∧ e = .file (.text text) time

end

/-! ### The sources of a site -/

/-- A file name that a source can have. -/
structure Settings.NamesSource (s : Settings) (x : String) : Prop where
  plain : Path.Plain x
  isSource : isSource (Path.join s.root x) = true

/-- A source stands under a name in the source directory. -/
structure SourceFile (s : Settings) (files : FileTree) (m : Location) (x : String) : Prop where
  names : s.NamesSource x
  isFile : ∃ content time, files.get? (m.child x) = some (.file content time)

section

variable {s : Settings} {files : FileTree} {m : Location} {x : String}

theorem Settings.NamesSource.nameEnd_eq (h : s.NamesSource x) :
    nameEnd x = ['x', 's', 'f'] ∨ nameEnd x = ['d', 'm', '.'] :=
  nameEnd_of_isSource h.isSource (Path.fileName?_join s.root h.plain)

theorem Settings.NamesSource.isPageStem (h : s.NamesSource x) :
    IsPageStem (pageStem (Path.join s.root x)) := isPageStem_of_isSource h.isSource

theorem Settings.NamesSource.sourceAt (h : s.NamesSource x) (hm : files.DirectoryAt s.root m) :
    SourceAt s files (Path.join s.root x) m x := ⟨hm, h.plain, rfl, h.isSource⟩

/-- No source is a page. -/
theorem Settings.NamesSource.ne_pageFile (h : s.NamesSource x) (f : OutputFormat)
    (stem : String) : f.pageFile stem ≠ x := by
  rintro rfl
  have hend := h.nameEnd_eq
  obtain hpage | hpage := nameEnd_pageFile f stem <;> rw [hpage] at hend <;> revert hend <;> decide

/-- No source is a template. -/
theorem Settings.NamesSource.ne_template (h : s.NamesSource x) (f : OutputFormat) :
    "template." ++ f.fileExtension ≠ x := h.ne_pageFile f "template"

theorem documents_eq_sources (hlist : s.whitelist = none) :
    s.documents files = s.sources files := by
  simp [Settings.documents, eligible, Settings.isListed, hlist]

/-- The sources of a site are all files in the source directory that are named like sources. -/
theorem mem_sources_iff {path : String} {entries : List (String × Entry)}
    (hlist : s.whitelist = none) (hw : files.WellFormed) (hm : files.DirectoryAt s.root m)
    (hroot : files.children s.root = .ok entries) :
    path ∈ s.sources files ↔ ∃ x, path = Path.join s.root x ∧ SourceFile s files m x := by
  obtain ⟨k, hk, hd, rfl⟩ := children_eq_ok_iff.1 hroot
  obtain rfl := hm.unique ⟨FileTree.walk_components_of_resolve hk, hd⟩
  simp only [Settings.sources, hroot, Settings.endsListed, hlist, Bool.and_true, List.mem_filter,
    List.mem_map, Prod.exists, hw.mem_childrenAt_iff]
  constructor
  · rintro ⟨⟨x, e, ⟨hget, hfile⟩, rfl⟩, hsource⟩
    have hplain := hw.plain_of_mem_children (hw.mem_childrenAt_iff.2 hget)
    cases e with
    | file content time => exact ⟨x, rfl, ⟨hplain, hsource⟩, content, time, hget⟩
    | directory time => cases hfile
  · rintro ⟨x, rfl, hx, content, time, hget⟩
    exact ⟨⟨x, .file content time, ⟨hget, rfl⟩, rfl⟩, hx.isSource⟩

end

/-! ### Pages that are up to date -/

/-- All pages in the output directory are up to date, given where the sources are and which orders
of definitions there may be. No page is dated later than the clock, so that a source which is
written now is newer than its page. -/
structure UpToDate (s : Settings) (orders : Set (String → DefinitionOrder)) (m : Location)
    (w : World) : Prop where
  wellFormed : w.files.WellFormed
  root : w.files.DirectoryAt s.root m
  dated : ∀ l, w.files.DirectoryAt s.output l → ∀ stem e, IsPageStem stem →
    w.files.get? (l.child (s.format.pageFile stem)) = some e → e.modified < w.clock
  current : ∀ l, w.files.DirectoryAt s.output l → ∀ x content time e, s.NamesSource x →
    w.files.get? (m.child x) = some (.file content time) →
    w.files.get? (l.child (s.format.pageFile (pageStem (Path.join s.root x)))) = some e →
    e.modified < time ∨ s.IsPageOf orders w.files (Path.join s.root x) e

/-- A step keeps the templates, dates every change of a source, and makes only pages that are those
of their sources. -/
structure Advances (s : Settings) (orders : Set (String → DefinitionOrder)) (m : Location)
    (w v : World) : Prop where
  clock : w.clock ≤ v.clock
  wellFormed : v.files.WellFormed
  isDirectory : ∀ k, w.files.IsDirectory k → v.files.IsDirectory k
  template : ∀ text, w.files.readText (templatePath s.stylesDirectory s.format) = .ok text →
    v.files.readText (templatePath s.stylesDirectory s.format) = .ok text
  source : ∀ x, s.NamesSource x → v.files.get? (m.child x) = w.files.get? (m.child x) ∨
    ∀ e, v.files.get? (m.child x) = some e → w.clock ≤ e.modified
  page : ∀ l, v.files.DirectoryAt s.output l → ∀ stem e, IsPageStem stem →
    v.files.get? (l.child (s.format.pageFile stem)) = some e →
    (w.files.DirectoryAt s.output l ∧
      w.files.get? (l.child (s.format.pageFile stem)) = some e) ∨
    (e.modified < v.clock ∧ ∀ x, SourceFile s v.files m x →
      pageStem (Path.join s.root x) = stem → s.IsPageOf orders v.files (Path.join s.root x) e)

section

variable {s : Settings} {orders : Set (String → DefinitionOrder)} {m l : Location} {w v : World}

/-- A page stays that of its source as long as the source and the template stay. -/
theorem Settings.IsPageOf.mono {x : String} {e : Entry} {t u : FileTree}
    (h : s.IsPageOf orders t (Path.join s.root x) e) (hx : s.NamesSource x)
    (ht : t.DirectoryAt s.root m) (hu : u.DirectoryAt s.root m)
    (hsame : u.get? (m.child x) = t.get? (m.child x))
    (htemplate : ∀ text, t.readText (templatePath s.stylesDirectory s.format) = .ok text →
      u.readText (templatePath s.stylesDirectory s.format) = .ok text) :
    s.IsPageOf orders u (Path.join s.root x) e := by
  obtain ⟨order, horder, text, time, hfresh, rfl⟩ := h
  exact ⟨order, horder, text, time, freshText?_mono hfresh
    (read_eq_of_stat_eq (FileTree.stat_join_eq ht hu hx.plain hsame)) htemplate, rfl⟩

/-- Pages stay up to date. -/
theorem UpToDate.step (h : UpToDate s orders m w) (hstep : Advances s orders m w v) :
    UpToDate s orders m v where
  wellFormed := hstep.wellFormed
  root := h.root.mono hstep.isDirectory
  dated l hl stem e hstem he := by
    obtain ⟨hlw, hew⟩ | ⟨hdated, -⟩ := hstep.page l hl stem e hstem he
    · exact Nat.lt_of_lt_of_le (h.dated l hlw stem e hstem hew) hstep.clock
    · exact hdated
  current l hl x content time e hx hsource hpage := by
    obtain ⟨hlw, hew⟩ | ⟨-, hmade⟩ := hstep.page l hl _ e hx.isPageStem hpage
    · obtain hsame | hlater := hstep.source x hx
      · obtain hold | hfresh := h.current l hlw x content time e hx (hsame ▸ hsource) hew
        · exact .inl hold
        · exact .inr (hfresh.mono hx h.root (h.root.mono hstep.isDirectory) hsame hstep.template)
      · -- the source is new, and no page is
        have hpageTime := h.dated l hlw _ e hx.isPageStem hew
        have hsourceTime : w.clock ≤ time := hlater _ hsource
        exact .inl (Nat.lt_of_lt_of_le hpageTime hsourceTime)
    · exact .inr (hmade x ⟨hx, content, time, hsource⟩ rfl)

/-! ### Steps -/

theorem Advances.of_files_eq (m : Location) (hw : w.files.WellFormed) (hclock : w.clock ≤ v.clock)
    (hfiles : v.files = w.files) : Advances s orders m w v where
  clock := hclock
  wellFormed := hfiles ▸ hw
  isDirectory _ h := hfiles ▸ h
  template _ h := hfiles ▸ h
  source _ _ := .inl (by rw [hfiles])
  page _ hl _ _ _ he := .inl ⟨hfiles ▸ hl, hfiles ▸ he⟩

/-- A template that can be read stays if what stands under its name does. -/
theorem readText_template_mono {t u : FileTree} {styles text : String} {f : OutputFormat}
    (hd : ∀ k, t.IsDirectory k → u.IsDirectory k)
    (hkept : ∀ k : Location, u.get? (k.child ("template." ++ f.fileExtension)) =
      t.get? (k.child ("template." ++ f.fileExtension)) ∨
        t.get? (k.child ("template." ++ f.fileExtension)) = none)
    (h : t.readText (templatePath styles f) = .ok text) :
    u.readText (templatePath styles f) = .ok text := by
  have hplain : Path.Plain ("template." ++ f.fileExtension) := by cases f <;> decide
  obtain ⟨e, hstat⟩ : ∃ e, t.stat (templatePath styles f) = .ok e := by
    unfold FileTree.readText at h
    cases hstat : t.stat (templatePath styles f) with
    | error err =>
      rw [hstat] at h
      cases h
    | ok e => exact ⟨e, rfl⟩
  obtain ⟨k, hk, hget, -⟩ := FileTree.stat_eq_ok_iff.1 hstat
  obtain ⟨l, hl⟩ := FileTree.directoryAt_of_resolve_join hplain hk
  obtain ⟨-, rfl⟩ := (hl.resolve_join_eq_ok_iff hplain).1 hk
  obtain hsame | hnone := hkept l
  · unfold FileTree.readText
    rw [templatePath, FileTree.stat_join_eq hl (hl.mono hd) hplain hsame]
    exact h
  · rw [hnone] at hget
    cases hget

/-- An edit of one source. What is written is dated, and nothing is dated that is removed. -/
theorem advances_edit {x : String} (hx : s.NamesSource x) (hclock : w.clock ≤ v.clock)
    (hv : v.files.WellFormed) (hd : ∀ k, v.files.IsDirectory k ↔ w.files.IsDirectory k)
    (hkept : ∀ k, k ≠ m.child x → v.files.get? k = w.files.get? k)
    (hdated : ∀ e, v.files.get? (m.child x) = some e → w.clock ≤ e.modified) :
    Advances s orders m w v where
  clock := hclock
  wellFormed := hv
  isDirectory k := (hd k).2
  template _ := readText_template_mono (fun k => (hd k).2) fun k =>
    .inl (hkept _ fun heq => hx.ne_template s.format (Location.child_inj.1 heq).2)
  source y _ := by
    by_cases hy : y = x
    · exact .inr (hy ▸ hdated)
    · exact .inl (hkept _ fun heq => hy (Location.child_inj.1 heq).2)
  page l hl stem e _ he := by
    refine .inl ⟨hl.mono fun k => (hd k).1, ?_⟩
    rwa [hkept _ fun heq => hx.ne_pageFile s.format stem (Location.child_inj.1 heq).2] at he

/-- New entries that are no pages. -/
theorem advances_adds {inside : Location → Prop} (hw : w.files.WellFormed)
    (h : World.Adds inside w v)
    (hpages : ∀ l, v.files.DirectoryAt s.output l → ∀ stem e, IsPageStem stem →
      v.files.get? (l.child (s.format.pageFile stem)) = some e →
      w.files.DirectoryAt s.output l ∧
        w.files.get? (l.child (s.format.pageFile stem)) = some e) : Advances s orders m w v where
  clock := h.fills.clock
  wellFormed := h.fills.files.wellFormed hw
  isDirectory _ := h.fills.files.isDirectory
  template _ := readText_template_mono (fun _ => h.fills.files.isDirectory) fun k => by
    cases hget : w.files.get? (k.child ("template." ++ s.format.fileExtension)) with
    | none => exact .inr rfl
    | some e => exact .inl (h.fills.files.kept _ e hget)
  source x _ := by
    cases hget : w.files.get? (m.child x) with
    | none => exact .inr fun e he => (h.new hget he).1
    | some e => exact .inl (h.fills.files.kept _ e hget)
  page l hl stem e hstem he := .inl (hpages l hl stem e hstem he)

/-- One page in HTML has been made anew or left as it was. -/
theorem advances_page {stem : String} (hformat : s.format = .html)
    (hm : w.files.DirectoryAt s.root m) (hl : w.files.DirectoryAt s.output l)
    (hstyles : w.files.DirectoryAt s.stylesDirectory (l.child "styles"))
    (hv : v.files.WellFormed) (h : World.Evolves (PageChanges s l stem) w v)
    (hpage : ∀ e, v.files.get? (l.child (s.format.pageFile stem)) = some e →
      w.files.get? (l.child (s.format.pageFile stem)) = some e ∨
        (e.modified < v.clock ∧ ∀ x, SourceFile s v.files m x →
          pageStem (Path.join s.root x) = stem →
            s.IsPageOf orders v.files (Path.join s.root x) e)) :
    Advances s orders m w v where
  clock := h.clock
  wellFormed := hv
  isDirectory := h.isDirectory
  template text htext := by rw [readText_template_eq hstyles h fun k hk => ⟨stem, hk⟩, htext]
  source x hx := .inl (h.kept _ ((hx.sourceAt hm).not_pageChanges (by simp [hformat])))
  page k hk stem' e _ he := by
    obtain rfl := (h.directoryAt hl).unique hk
    by_cases hsame : stem' = stem
    · subst hsame
      exact (hpage e he).imp_left fun hold => ⟨hl, hold⟩
    · rw [h.kept _ (not_pageChanges_page (.inl rfl) hsame)] at he
      exact .inl ⟨hl, he⟩

end

end LiterateJournal
