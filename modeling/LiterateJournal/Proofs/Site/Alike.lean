import LiterateJournal.Proofs.Site.Stages
import Mathlib.Algebra.GroupWithZero.Nat

/-!
# Documents in alike worlds

The making of pages leaves the network, the templates, the sources and nearly all directories as
they are. Hence whether a document gets a page, and what page it gets, is the same later on, as long
as its own page is as old as it was.

## Main definitions

* `World.Alike` — worlds in which the same pages can be written.
* `PageParts`, `Settings.parts?` — what the page of a document is made from, if it must be made.
* `PagesMade` — a world after some documents have been processed as they would have been alone.

## Main statements

* `Processed.transfer` — a document is processed the same way in an alike world.
* `PagesMade.step` — one more document is processed.
* `PagesMade.pageContent?_eq` — the page of a document after some have been processed.
-/

namespace LiterateJournal

/-! ### Alike worlds -/

/-- The same pages can be written in two worlds. The directory for copies may be in one only. -/
structure World.Alike (l : Location) (w v : World) : Prop where
  web : v.web = w.web
  isDirectory : ∀ k, k ≠ l.child savedDirectory → (v.files.IsDirectory k ↔ w.files.IsDirectory k)
  saved : v.files.get? (l.child savedDirectory) = none ∨
      v.files.IsDirectory (l.child savedDirectory) ↔
    w.files.get? (l.child savedDirectory) = none ∨ w.files.IsDirectory (l.child savedDirectory)

namespace World.Alike

variable {l : Location} {w v u : World}

theorem of_files_eq (l : Location) (hweb : v.web = w.web) (hfiles : v.files = w.files) :
    Alike l w v := by
  refine ⟨hweb, fun k _ => ?_, ?_⟩ <;> rw [hfiles]

theorem symm (h : Alike l w v) : Alike l v w :=
  ⟨h.web.symm, fun k hk => (h.isDirectory k hk).symm, h.saved.symm⟩

theorem trans (h : Alike l w v) (h' : Alike l v u) : Alike l w u :=
  ⟨h'.web.trans h.web, fun k hk => (h'.isDirectory k hk).trans (h.isDirectory k hk),
    h'.saved.trans h.saved⟩

end World.Alike

section Render

variable {s : Settings} {d : Document} {w v : World} {title stem template : String} {l : Location}
  {copies : List ImageCopy} {blocks : List Block}

theorem alike_render (title : String) (hl : w.files.DirectoryAt s.output l)
    (h : CanRender s d stem w l template copies blocks) :
    World.Alike l w (w.render s d title stem l template copies blocks) := by
  have hdir {k : Location} := isDirectory_render title (k := k) hl h
  refine ⟨(evolves_render title hl h).web, fun k hk => ?_, ?_⟩
  · rw [hdir]
    simp [hk]
  · by_cases hne : copies = []
    · subst hne
      have hkept := (evolves_publish (s.pageText d blocks template title) hl.isDirectory
        h.publish).kept (l.child savedDirectory) (by
          simp only [Location.child_inj, true_and]
          rintro (heq | heq)
          · exact pageFile_ne (by decide) heq.symm
          · have hdot := dot_mem_pageFile s.format stem
            exact absurd (heq ▸ by simp [hdot] : '.' ∈ savedDirectory.toList) (by decide))
      have hrender : w.render s d title stem l template [] blocks =
          w.publish l (s.format.pageFile stem) (s.pageText d blocks template title) := rfl
      rw [hdir, hrender, hkept]
      simp
    · have hbefore := (h.copies.directory hne).2
      exact ⟨fun _ => hbefore, fun _ => .inr (hdir.2 (.inr ⟨hne, rfl⟩))⟩

/-- What can be written in a world can be written in an alike one. -/
theorem CanRender.transfer (h : CanRender s d stem w l template copies blocks)
    (halike : World.Alike l w v)
    (htemplate : v.files.readText (templatePath s.stylesDirectory s.format) =
      w.files.readText (templatePath s.stylesDirectory s.format)) :
    CanRender s d stem v l template copies blocks := by
  have hchild {x : String} (hx : '.' ∈ x.toList) : l.child x ≠ l.child savedDirectory := by
    intro heq
    obtain ⟨-, rfl⟩ := Location.child_inj.1 heq
    exact absurd hx (by decide)
  have hdot := dot_mem_pageFile s.format stem
  have hcopy (x : String) : (l.child savedDirectory).child x ≠ l.child savedDirectory := by
    intro heq
    simpa [Location.child] using congrArg Location.names heq
  refine ⟨htemplate.trans h.template, h.plan, ⟨fun hne => ?_, fun c hc => ?_⟩, ?_, h.dot⟩
  · exact ⟨(h.copies.directory hne).1, halike.saved.2 (h.copies.directory hne).2⟩
  · obtain ⟨hsome, hfits, hd⟩ := h.copies.savable c hc
    exact ⟨halike.web ▸ hsome, hfits, mt (halike.isDirectory _ (hcopy c.name)).1 hd⟩
  · obtain ⟨hfits, hfits', hd, hd'⟩ := h.publish
    exact ⟨hfits, hfits', mt (halike.isDirectory _ (hchild hdot)).1 hd,
      mt (halike.isDirectory _ (hchild (by simp [hdot]))).1 hd'⟩

end Render

section Processed

variable {s : Settings} {l : Location} {path : String} {w v w' v' : World} {o : Outcome}

theorem Processed.alike (hl : w.files.DirectoryAt s.output l) (h : Processed s l path w o w') :
    World.Alike l w w' := by
  cases h with
  | skipped => exact .of_files_eq l rfl rfl
  | failed => exact .of_files_eq l rfl rfl
  | generated stale d read template copies blocks can =>
    have hrender := alike_render (w := w.report (.started (sourceName path)))
      d.pageTitle hl can
    exact ⟨hrender.web, hrender.isDirectory, hrender.saved⟩

/-- A document is processed the same way in an alike world, if its page is as old there. -/
theorem Processed.transfer (h : Processed s l path w o w') (halike : World.Alike l w v)
    (hneeds : s.needsPage v.files path = s.needsPage w.files path)
    (hread : s.read v.files path = s.read w.files path)
    (htemplate : v.files.readText (templatePath s.stylesDirectory s.format) =
      w.files.readText (templatePath s.stylesDirectory s.format)) :
    ∃ v', Processed s l path v o v' := by
  cases h with
  | skipped fresh => exact ⟨_, .skipped (hneeds.trans fresh)⟩
  | failed stale e read => exact ⟨_, .failed (hneeds.trans stale) e (hread.trans read)⟩
  | generated stale d read template copies blocks can =>
    have halike' : World.Alike l (w.report (.started (sourceName path)))
        (v.report (.started (sourceName path))) :=
      ⟨halike.web, halike.isDirectory, halike.saved⟩
    exact ⟨_, .generated (hneeds.trans stale) d (hread.trans read) template copies blocks
      (can.transfer halike' htemplate)⟩

/-- Whether a page must be made can be seen from the outcome. -/
theorem Processed.needsPage_eq (h : Processed s l path w o w') :
    s.needsPage w.files path = !o.isSkipped := by
  cases h with
  | skipped fresh => exact fresh
  | failed stale => exact stale
  | generated stale => exact stale

end Processed

/-! ### What pages are made from -/

/-- What a page is made from. -/
structure PageParts where
  document : Document
  copies : List ImageCopy
  blocks : List Block
  template : String

namespace PageParts

def text (s : Settings) (m : PageParts) : String :=
  s.pageText m.document m.blocks m.template m.document.pageTitle

def time (m : PageParts) : Nat := saveTime m.copies + 3

end PageParts

/-- What the page of a source is made from, if it must be made. -/
def Settings.parts? (s : Settings) (files : FileTree) (path : String) : Option PageParts :=
  if s.needsPage files path then
    match s.read files path, files.readText (templatePath s.stylesDirectory s.format) with
    | .ok d, .ok template => (s.plan? d).map fun (copies, blocks) => ⟨d, copies, blocks, template⟩
    | _, _ => none
  else none

theorem parts?_eq_some_iff {s : Settings} {files : FileTree} {path : String} {m : PageParts} :
    s.parts? files path = some m ↔
      s.needsPage files path = true ∧ s.read files path = .ok m.document ∧
        files.readText (templatePath s.stylesDirectory s.format) = .ok m.template ∧
        s.plan? m.document = some (m.copies, m.blocks) := by
  unfold Settings.parts?
  cases s.needsPage files path with
  | false => simp
  | true =>
    cases s.read files path with
    | error e => simp
    | ok d =>
      cases files.readText (templatePath s.stylesDirectory s.format) with
      | error e => simp
      | ok template =>
        obtain ⟨d', copies, blocks, template'⟩ := m
        simp only [if_true, Option.map_eq_some_iff, Prod.exists, PageParts.mk.injEq,
          Except.ok.injEq, true_and]
        constructor
        · rintro ⟨_, _, hplan, rfl, rfl, rfl, rfl⟩
          exact ⟨rfl, rfl, hplan⟩
        · rintro ⟨rfl, rfl, hplan⟩
          exact ⟨_, _, hplan, rfl, rfl, rfl, rfl⟩

def Settings.pageContent? (s : Settings) (files : FileTree) (path : String) : Option Content :=
  files.contentAt? (pagePath s.format (Path.join s.output (pageName path)))

/-- The content of the page of a source after that source alone has been processed. -/
def Settings.pageAlone? (s : Settings) (files : FileTree) (path : String) : Option Content :=
  match s.parts? files path with
  | some m => some (.text (m.text s))
  | none => s.pageContent? files path

/-! ### After some documents -/

/-- What a document is processed with, and the place of the output directory. -/
structure DocumentsStage (s : Settings) (l : Location) (start : World) (docs : List String) :
    Prop where
  output : start.files.DirectoryAt s.output l
  styles : start.files.DirectoryAt s.stylesDirectory (l.child "styles")
  sourceAt : ∀ p ∈ docs, ∃ m x, SourceAt s start.files p m x
  apart : s.format = .latex → ∀ m, start.files.DirectoryAt s.root m → m ≠ l.child savedDirectory

theorem DocumentsStage.isSource {s : Settings} {l : Location} {start : World}
    {docs : List String} {path : String} (hst : DocumentsStage s l start docs) (hp : path ∈ docs) :
    isSource path = true := by
  obtain ⟨m, x, hat⟩ := hst.sourceAt path hp
  exact hat.isSource

/-- The documents of a build, in a root that is not the directory for copies. -/
theorem Prepared.documentsStage {s : Settings} {w start : World} {l : Location}
    (hl : Prepared s w start l) (hw : w.files.WellFormed)
    (hapart : s.format = .latex → ∀ m, start.files.DirectoryAt s.root m →
      ¬ start.files.DirectoryAt (Path.join s.output savedDirectory) m) :
    DocumentsStage s l start (s.documents start.files) where
  output := hl.output
  styles := hl.styles
  sourceAt _ hp := exists_sourceAt (hl.fills.files.wellFormed hw) (mem_sources_of_mem_documents hp)
  apart := by
    rintro hlatex m hm rfl
    exact hapart hlatex _ hm (hl.output.join plain_savedDirectory (by decide) hm.isDirectory)

/-- A world after some documents have been processed, each as it would have been alone. -/
structure PagesMade (s : Settings) (l : Location) (start : World) (done : List String)
    (v : World) : Prop where
  evolves : World.Evolves (fun k => ∃ q ∈ done, (s.parts? start.files q).isSome = true ∧
    PageChanges s l (pageStem q) k) start v
  alike : World.Alike l start v
  clock : v.clock = start.clock + ((done.filterMap (s.parts? start.files)).map PageParts.time).sum
  pages : ∀ q ∈ done, (s.parts? start.files q).isSome = true →
    ∃ q' ∈ done, pageStem q' = pageStem q ∧ ∃ m time, s.parts? start.files q' = some m ∧
      Path.Fits s.output (s.format.pageFile (pageStem q)) ∧
      (s.format = .latex → pageStem q ≠ ".") ∧
      v.files.get? (l.child (s.format.pageFile (pageStem q))) =
        some (.file (.text (m.text s)) time) ∧ start.clock < time ∧ time ≤ v.clock

theorem pagesMade_nil {s : Settings} {l : Location} {start v : World} (hweb : v.web = start.web)
    (hclock : v.clock = start.clock) (hfiles : v.files = start.files) :
    PagesMade s l start [] v where
  evolves := .of_files_eq _ hweb (Nat.le_of_eq hclock.symm) hfiles
  alike := .of_files_eq l hweb hfiles
  clock := by simp [hclock]
  pages := by simp

theorem pagesMade_refl (s : Settings) (l : Location) (start : World) :
    PagesMade s l start [] start := pagesMade_nil rfl rfl rfl

namespace PagesMade

variable {s : Settings} {l : Location} {start v v' : World} {done : List String} {path : String}

/-- The sources are the same as before. -/
theorem stat_source (h : PagesMade s l start done v) {m : Location} {x : String}
    (hat : SourceAt s start.files path m x)
    (hsaved : s.format = .latex → m ≠ l.child savedDirectory) :
    v.files.stat path = start.files.stat path :=
  hat.stat_eq h.evolves (fun _ ⟨q, _, _, hk⟩ => ⟨pageStem q, hk⟩) hsaved

/-- So is the template. -/
theorem readText_template (h : PagesMade s l start done v)
    (hstyles : start.files.DirectoryAt s.stylesDirectory (l.child "styles")) :
    v.files.readText (templatePath s.stylesDirectory s.format) =
      start.files.readText (templatePath s.stylesDirectory s.format) :=
  readText_template_eq hstyles h.evolves fun _ ⟨q, _, _, hk⟩ => ⟨pageStem q, hk⟩

/-- A page that has not been made is the same as before. -/
theorem get?_page (h : PagesMade s l start done v) {stem : String} {k : Location}
    (hnot : ∀ q ∈ done, (s.parts? start.files q).isSome = true → pageStem q ≠ stem)
    (hk : k = l.child (s.format.pageFile stem) ∨ stem = "." ∧ k.Contains l) :
    v.files.get? k = start.files.get? k := by
  refine h.evolves.kept k ?_
  rintro ⟨q, hq, hmade, hchanges⟩
  exact not_pageChanges_page hk (hnot q hq hmade).symm hchanges

/-- A document without a page of its own changes nothing. -/
theorem pass (h : PagesMade s l start done v) (hnone : s.parts? start.files path = none)
    (hweb : v'.web = v.web) (hclock : v'.clock = v.clock) (hfiles : v'.files = v.files) :
    PagesMade s l start (done ++ [path]) v' where
  evolves := by
    refine (h.evolves.weaken ?_).trans (.of_files_eq _ hweb (Nat.le_of_eq hclock.symm) hfiles)
    rintro k ⟨q, hq, hk⟩
    exact ⟨q, List.mem_append_left _ hq, hk⟩
  alike := h.alike.trans (.of_files_eq l hweb hfiles)
  clock := by simp [hclock, h.clock, hnone]
  pages := by
    intro q hq hmade
    obtain hq | hq := List.mem_append.1 hq
    · obtain ⟨q', hq', hpage⟩ := h.pages q hq hmade
      rw [hclock, hfiles]
      exact ⟨q', List.mem_append_left _ hq', hpage⟩
    · obtain rfl := List.mem_singleton.1 hq
      rw [hnone] at hmade
      cases hmade

/-- One more document is processed. -/
theorem step (h : PagesMade s l start done v) {o : Outcome}
    (hl : start.files.DirectoryAt s.output l) (hprocessed : Processed s l path v o v')
    (hneeds : s.needsPage v.files path = s.needsPage start.files path)
    (hread : s.read v.files path = s.read start.files path)
    (htemplate : v.files.readText (templatePath s.stylesDirectory s.format) =
      start.files.readText (templatePath s.stylesDirectory s.format)) :
    PagesMade s l start (done ++ [path]) v' := by
  have hlv := h.evolves.directoryAt hl
  have hall := hprocessed.evolves hlv
  have halike := h.alike.trans (hprocessed.alike hlv)
  cases hprocessed with
  | skipped fresh =>
    refine h.pass ?_ rfl rfl rfl
    simp [Settings.parts?, ← hneeds, fresh]
  | failed stale e read =>
    refine h.pass ?_ rfl rfl rfl
    simp [Settings.parts?, ← hread, read]
  | generated stale d read template copies blocks can =>
    have hparts : s.parts? start.files path = some ⟨d, copies, blocks, template⟩ :=
      parts?_eq_some_iff.2 ⟨hneeds.symm.trans stale, hread.symm.trans read,
        htemplate.symm.trans can.template, can.plan⟩
    have hget := get?_render (w := v.report (.started (sourceName path)))
      d.pageTitle hlv can
    have hevolves := evolves_render (w := v.report (.started (sourceName path)))
      d.pageTitle hlv can
    have hclock : (((v.report (.started (sourceName path))).render s d d.pageTitle (pageStem path) l
        template copies blocks).report (.completed (sourceName path) d.pageTitle)).clock =
          v.clock + saveTime copies + 3 :=
      clock_render (v.report _) s d d.pageTitle (pageStem path) l template copies blocks
    have hbefore := h.evolves.clock
    have hdone := h.clock
    refine ⟨(h.evolves.weaken ?_).trans (hall.weaken ?_), halike, ?_, ?_⟩
    · rintro k ⟨q, hq, hk⟩
      exact ⟨q, List.mem_append_left _ hq, hk⟩
    · rintro k ⟨-, hk⟩
      exact ⟨path, by simp, by rw [hparts]; rfl, hk⟩
    · rw [hclock]
      simp only [List.filterMap_append, List.filterMap_cons, hparts, List.filterMap_nil,
        List.map_append, List.map_cons, List.map_nil, List.sum_append_nat, List.sum_singleton,
        PageParts.time]
      omega
    · intro q hq hmade
      by_cases hstem : pageStem q = pageStem path
      · refine ⟨path, by simp, hstem.symm, _, v.clock + saveTime copies + 1, hparts, ?_⟩
        rw [hstem, hclock]
        exact ⟨can.publish.fits, can.dot, hget, by omega, by omega⟩
      · obtain hq | hq := List.mem_append.1 hq
        · obtain ⟨q', hq', hstem', m, time, hm, hfits, hdot, hpage, hlater, hearlier⟩ :=
            h.pages q hq hmade
          refine ⟨q', List.mem_append_left _ hq', hstem', m, time, hm, hfits, hdot, ?_, hlater, ?_⟩
          · exact (hevolves.kept _ (not_pageChanges_page (.inl rfl) hstem)).trans hpage
          · exact Nat.le_trans hearlier hall.clock
        · exact absurd (by rw [List.mem_singleton.1 hq]) hstem

/-- Where the path of a page leads stays. -/
theorem resolve_page_eq (h : PagesMade s l start done v)
    (hl : start.files.DirectoryAt s.output l) (hsource : isSource path = true) :
    v.files.resolve (pagePath s.format (Path.join s.output (pageName path))) =
      start.files.resolve (pagePath s.format (Path.join s.output (pageName path))) := by
  have hstem := isPageStem_of_isSource hsource
  rw [pageName_eq, resolve_page (h.evolves.directoryAt hl) hstem, resolve_page hl hstem]

/-- The content of a page after some documents have been processed. -/
theorem pageContent?_eq (h : PagesMade s l start done v) (hl : start.files.DirectoryAt s.output l)
    (hsource : isSource path = true) (hpath : path ∈ done)
    (htwins : ∀ q ∈ done, q ≠ path → pageStem q = pageStem path →
      (s.parts? start.files q).isSome = true →
        s.pageAlone? start.files path = s.pageAlone? start.files q) :
    s.pageContent? v.files path = s.pageAlone? start.files path := by
  have hstem := isPageStem_of_isSource hsource
  by_cases hmade : ∃ q ∈ done, pageStem q = pageStem path ∧
      (s.parts? start.files q).isSome = true
  · -- the page is that of the last document with its name
    obtain ⟨q, hq, hsame, hparts⟩ := hmade
    obtain ⟨q', hq', hsame', m, time, hm, hfits, hdot, hpage, -⟩ := h.pages q hq hparts
    rw [hsame] at hsame' hfits hdot hpage
    have halone : s.pageAlone? start.files path = s.pageAlone? start.files q' := by
      by_cases heq : q' = path
      · rw [heq]
      · exact htwins q' hq' heq hsame' (by rw [hm]; rfl)
    rw [halone, Settings.pageAlone?, hm, Settings.pageContent?, FileTree.contentAt?, pageName_eq,
      resolve_page (h.evolves.directoryAt hl) hstem, if_neg (fun hup => hdot hup.1 hup.2),
      if_pos hfits]
    simp [FileTree.content?, hpage]
  · have hnone : s.parts? start.files path = none := by
      cases hparts : s.parts? start.files path with
      | none => rfl
      | some m => exact absurd ⟨path, hpath, rfl, by rw [hparts]; rfl⟩ hmade
    simp only [Settings.pageAlone?, hnone, Settings.pageContent?, FileTree.contentAt?]
    rw [h.resolve_page_eq hl hsource]
    cases hk : start.files.resolve (pagePath s.format (Path.join s.output (pageName path))) with
    | error e => rfl
    | ok k =>
      refine FileTree.content?_eq_of_get?_eq (h.get?_page (fun q hq hparts hsame => ?_)
        (page_location hl hstem hk))
      exact hmade ⟨q, hq, hsame, hparts⟩

/-- A page that has not been made is as old as before. -/
theorem modified_page_eq (h : PagesMade s l start done v)
    (hl : start.files.DirectoryAt s.output l) (hsource : isSource path = true)
    (hnot : ∀ q ∈ done, (s.parts? start.files q).isSome = true → pageStem q ≠ pageStem path) :
    v.files.modified (pagePath s.format (Path.join s.output (pageName path))) =
      start.files.modified (pagePath s.format (Path.join s.output (pageName path))) := by
  have hresolve := h.resolve_page_eq hl hsource
  refine modified_eq_of_stat_eq ?_
  cases hk : start.files.resolve (pagePath s.format (Path.join s.output (pageName path))) with
  | error e =>
    rw [FileTree.stat_of_resolve_error (hresolve.trans hk), FileTree.stat_of_resolve_error hk]
  | ok k =>
    rw [FileTree.stat_of_resolve (hresolve.trans hk), FileTree.stat_of_resolve hk,
      h.get?_page hnot (page_location hl (isPageStem_of_isSource hsource) hk)]

/-- A page that has been made is newer than all that was there before. -/
theorem exists_modified_page (h : PagesMade s l start done v)
    (hl : start.files.DirectoryAt s.output l) (hsource : isSource path = true) {q : String}
    (hq : q ∈ done) (hparts : (s.parts? start.files q).isSome = true)
    (hstem : pageStem q = pageStem path) :
    ∃ time, v.files.modified (pagePath s.format (Path.join s.output (pageName path))) = time ∧
      start.clock < time ∧ time ≤ v.clock := by
  obtain ⟨q', -, -, m, time, -, hfits, hdot, hpage, hlater, hearlier⟩ := h.pages q hq hparts
  rw [hstem] at hfits hdot hpage
  have hplain := isPageStem_of_isSource hsource
  have hstat := stat_join (h.evolves.directoryAt hl) (plain_pageFile hplain s.format) hfits
  rw [hpage] at hstat
  refine ⟨time, ?_, hlater, hearlier⟩
  rw [pageName_eq, pagePath_join hplain _ hdot, modified_of_stat hstat]
  rfl

end PagesMade

end LiterateJournal
