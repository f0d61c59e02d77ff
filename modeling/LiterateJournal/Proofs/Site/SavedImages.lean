import LiterateJournal.Proofs.Site.Alike

/-!
# Images of the pages

The pages of a site share one directory for copies of images, and each document counts its copies
from one. Thus an image belongs to the pages that include it just if the last copy saved under its
name shows the same, or there is none and the file was there before.

## Main definitions

* `Settings.savedCopies` — the copies saved with some pages.
* `Settings.ImagesHeld` — the files that the page of a document includes hold its images.
* `Settings.CopiesHeld` — the copies of a document agree with what is saved under their names.

## Main statements

* `content?_saved_of_returns` — what the making of pages leaves under the name of a copy.
* `imageAt?_eq` — what a build leaves there.
* `images_held_iff` — when the pages of a build include their own images.
-/

namespace LiterateJournal

def Settings.copiesOf (s : Settings) (files : FileTree) (path : String) : List ImageCopy :=
  match s.read files path with
  | .ok d => d.imageCopies?.getD []
  | .error _ => []

/-- The copies saved with the pages that were made, one page after another. -/
def Settings.savedCopies (s : Settings) (files : FileTree) (paths : List String)
    (outcomes : List Outcome) : List ImageCopy :=
  (generatedOf paths outcomes).flatMap (s.copiesOf files)

/-- The content of the file that a page includes under an address. -/
def Settings.imageAt? (s : Settings) (files : FileTree) (address : String) : Option Content :=
  files.contentAt? (Path.join s.output address)

/-- The files that the page of a document includes hold what the network serves for its images. -/
def Settings.ImagesHeld (s : Settings) (start w' : World) (path : String) : Prop :=
  ∀ d copies, s.read start.files path = .ok d → d.imageCopies? = some copies →
    ∀ image ∈ remoteImages d.links d.blocks, ∀ url body, Url.parse image = .ok url →
      fetched? start.web url = some body →
      ∃ address, (ImageStore.ofCopies s.output copies).lookup image = .ok address ∧
        s.imageAt? w'.files address = some body

/-- The last copy saved under the name of each copy of a document shows the same, or there is none
and the file was there before. -/
def Settings.CopiesHeld (s : Settings) (start : World) (saved : List ImageCopy) (path : String) :
    Prop :=
  ∀ c ∈ s.copiesOf start.files path, ∀ body, fetched? start.web c.url = some body →
    match lastCopy? saved c.name with
    | some c' => fetched? start.web c'.url = some body
    | none => s.imageAt? start.files c.pageAddress = some body

theorem imageCopies?_of_plan? {s : Settings} {d : Document} {copies : List ImageCopy}
    {blocks : List Block} (hlatex : s.format = .latex) (h : s.plan? d = some (copies, blocks)) :
    d.imageCopies? = some copies := by
  unfold Settings.plan? at h
  rw [hlatex] at h
  obtain ⟨copies', hcopies, h⟩ := Option.bind_eq_some_iff.1 h
  split at h
  · cases h
    exact hcopies
  · cases h

theorem copiesOf_eq {s : Settings} {files : FileTree} {path : String} {d : Document}
    {copies : List ImageCopy} (hread : s.read files path = .ok d)
    (hcopies : d.imageCopies? = some copies) : s.copiesOf files path = copies := by
  simp [Settings.copiesOf, hread, hcopies]

theorem mem_copiesOf_iff {s : Settings} {files : FileTree} {path : String} {c : ImageCopy} :
    c ∈ s.copiesOf files path ↔
      ∃ d copies, s.read files path = .ok d ∧ d.imageCopies? = some copies ∧ c ∈ copies := by
  unfold Settings.copiesOf
  cases s.read files path with
  | error e => simp
  | ok d => cases hcopies : d.imageCopies? <;> simp [hcopies]

/-- The content of a copy is what stands in the directory for copies. -/
theorem imageAt?_pageAddress {s : Settings} {files : FileTree} {l : Location} {c : ImageCopy}
    (hl : files.DirectoryAt s.output l) (hc : Path.Plain c.name) :
    s.imageAt? files c.pageAddress =
      if Path.Fits (Path.join s.output savedDirectory) c.name then
        files.content? ((l.child savedDirectory).child c.name)
      else none := by
  rw [Settings.imageAt?, ImageCopy.pageAddress, Path.join_join _ plain_savedDirectory.1 hc.1,
    FileTree.contentAt?]
  by_cases hd : files.IsDirectory (l.child savedDirectory)
  · have hsaved := hl.join plain_savedDirectory (by decide) hd
    rw [hsaved.resolve_join hc]
    by_cases hfits : Path.Fits (Path.join s.output savedDirectory) c.name <;> simp [hfits]
  · -- without the directory there is neither a path nor a file
    have hnone : files.content? ((l.child savedDirectory).child c.name) = none := by
      rw [FileTree.content?, FileTree.get?_eq_none_of_contains hd (Location.contains_child _ _)
        fun heq => by simpa [Location.child] using congrArg Location.names heq]
    cases hresolve : files.resolve (Path.join (Path.join s.output savedDirectory) c.name) with
    | error e => simp [hnone]
    | ok m =>
      obtain ⟨k, hk⟩ := FileTree.directoryAt_of_resolve_join hc hresolve
      obtain rfl := hl.of_join plain_savedDirectory hk
      exact absurd hk.isDirectory hd

section

variable {s : Settings} {l : Location} {start v v' w built w' : World} {docs paths : List String}
  {path : String} {o : Outcome} {outcomes : List Outcome} {r : BuildReport}

/-- What the making of one page leaves under the name of a copy. -/
theorem Processed.content?_saved (hlatex : s.format = .latex) (hl : v.files.DirectoryAt s.output l)
    (h : Processed s l path v o v') (name : String) :
    v'.files.content? ((l.child savedDirectory).child name) =
      match lastCopy? (if o.entry?.isSome then s.copiesOf v.files path else []) name with
      | some c => fetched? v.web c.url
      | none => v.files.content? ((l.child savedDirectory).child name) := by
  cases h with
  | skipped => rfl
  | failed => rfl
  | generated stale d read template copies blocks can =>
    simp only [Outcome.entry?, Option.isSome_some, if_true,
      copiesOf_eq read (imageCopies?_of_plan? hlatex can.plan)]
    exact content?_render_saved (w := v.report (.started (sourceName path)))
      d.pageTitle hl can name

theorem Processed.fits (hlatex : s.format = .latex) (h : Processed s l path v o v')
    (ho : o.entry?.isSome = true) : ∀ c ∈ s.copiesOf v.files path,
      Path.Fits (Path.join s.output savedDirectory) c.name := by
  cases h with
  | skipped => cases ho
  | failed => cases ho
  | generated stale d read template copies blocks can =>
    have hcopies := imageCopies?_of_plan? hlatex can.plan
    intro c hc
    rw [copiesOf_eq read hcopies] at hc
    exact (can.copies.savable c hc).fits

theorem DocumentsStage.copiesOf_eq (hst : DocumentsStage s l start docs) (hpath : path ∈ docs)
    (hv : World.Evolves (fun k => ∃ stem, PageChanges s l stem k) start v) :
    s.copiesOf v.files path = s.copiesOf start.files path := by
  obtain ⟨m, x, hat⟩ := hst.sourceAt path hpath
  have hstat := hat.stat_eq hv (fun _ => id) fun hlatex => hst.apart hlatex m hat.root
  rw [Settings.copiesOf, Settings.copiesOf, read_eq_of_stat_eq hstat]

theorem savedCopies_cons (s : Settings) (files : FileTree) (path : String) (paths : List String)
    (o : Outcome) (outcomes : List Outcome) :
    s.savedCopies files (path :: paths) (o :: outcomes) =
      (if o.entry?.isSome then s.copiesOf files path else []) ++
        s.savedCopies files paths outcomes := by
  rw [Settings.savedCopies, generatedOf_cons, List.flatMap_append]
  split <;> simp [Settings.savedCopies]

/-- What the making of pages leaves under the name of a copy. -/
theorem content?_saved_of_returns (hst : DocumentsStage s l start docs) (hlatex : s.format = .latex)
    (hpaths : ∀ p ∈ paths, p ∈ docs)
    (hv : World.Evolves (fun k => ∃ stem, PageChanges s l stem k) start v)
    (h : Run.Returns (buildDocuments s paths) v outcomes v') (name : String) :
    v'.files.content? ((l.child savedDirectory).child name) =
      match lastCopy? (s.savedCopies start.files paths outcomes) name with
      | some c => fetched? start.web c.url
      | none => v.files.content? ((l.child savedDirectory).child name) := by
  induction paths generalizing v outcomes with
  | nil =>
    obtain ⟨rfl, rfl⟩ := returns_buildDocuments_nil.1 h
    rfl
  | cons path paths ih =>
    obtain ⟨o, u, rest, ho, -, hrest, rfl⟩ := returns_buildDocuments_cons.1 h
    have hp := hpaths path List.mem_cons_self
    have hlv := hv.directoryAt hst.output
    have hprocessed := (returns_buildDocument hlv (hst.isSource hp)).1 ho
    have hu := hv.trans ((hprocessed.evolves hlv).weaken fun k hk => ⟨pageStem path, hk.2⟩)
    have hstep := hprocessed.content?_saved hlatex hlv name
    rw [hst.copiesOf_eq hp hv, hv.web] at hstep
    rw [ih (fun p hp => hpaths p (List.mem_cons_of_mem _ hp)) hu hrest, savedCopies_cons,
      lastCopy?_append, hstep]
    cases lastCopy? (s.savedCopies start.files paths rest) name <;> rfl

/-- The copies saved with pages have paths that are not too long. -/
theorem fits_of_mem_savedCopies (hst : DocumentsStage s l start docs) (hlatex : s.format = .latex)
    (hpaths : ∀ p ∈ paths, p ∈ docs)
    (hv : World.Evolves (fun k => ∃ stem, PageChanges s l stem k) start v)
    (h : Run.Returns (buildDocuments s paths) v outcomes v') :
    ∀ c ∈ s.savedCopies start.files paths outcomes,
      Path.Fits (Path.join s.output savedDirectory) c.name := by
  induction paths generalizing v outcomes with
  | nil =>
    obtain ⟨rfl, -⟩ := returns_buildDocuments_nil.1 h
    simp [Settings.savedCopies, generatedOf]
  | cons path paths ih =>
    obtain ⟨o, u, rest, ho, -, hrest, rfl⟩ := returns_buildDocuments_cons.1 h
    have hp := hpaths path List.mem_cons_self
    have hlv := hv.directoryAt hst.output
    have hprocessed := (returns_buildDocument hlv (hst.isSource hp)).1 ho
    have hu := hv.trans ((hprocessed.evolves hlv).weaken fun k hk => ⟨pageStem path, hk.2⟩)
    rw [savedCopies_cons]
    intro c hc
    obtain hc | hc := List.mem_append.1 hc
    · split at hc
      · rename_i hmade
        exact hprocessed.fits hlatex hmade c (hst.copiesOf_eq hp hv ▸ hc)
      · cases hc
    · exact ih (fun p hp => hpaths p (List.mem_cons_of_mem _ hp)) hu hrest c hc

/-- What a build leaves in the file that a copy has. -/
theorem imageAt?_eq (hb : Run.Returns (build s) w r w') (hw : w.files.WellFormed)
    (hlatex : s.format = .latex)
    (hapart : ∀ m, (w.prepared s).files.DirectoryAt s.root m →
      ¬ (w.prepared s).files.DirectoryAt (Path.join s.output savedDirectory) m)
    {c : ImageCopy} (hc : Path.Plain c.name) :
    s.imageAt? w'.files c.pageAddress =
      match lastCopy? (s.savedCopies (w.prepared s).files (s.documents (w.prepared s).files)
        r.outcomes) c.name with
      | some c' => fetched? w.web c'.url
      | none => s.imageAt? (w.prepared s).files c.pageAddress := by
  obtain ⟨start, built, h⟩ := returns_build.1 hb
  obtain rfl := prepared_eq h.prepared
  obtain ⟨l, hl⟩ := prepared_of_returns hw h.prepared
  have hst := hl.documentsStage hw fun _ => hapart
  have hreport (progress : Progress) := World.evolves_report
    (fun k => ∃ stem, PageChanges s l stem k) (w.prepared s) progress
  have hbuilt := content?_saved_of_returns hst hlatex (fun _ hp => hp) (hreport _) h.documents
    c.name
  have hfits := fits_of_mem_savedCopies hst hlatex (fun _ hp => hp) (hreport _) h.documents
  have hlanding : w'.files.content? ((l.child savedDirectory).child c.name) =
      built.files.content? ((l.child savedDirectory).child c.name) := by
    obtain ⟨-, hfiles⟩ | ⟨-, -, template, copies, blocks, can, -, hfiles⟩ := h.landing_cases hl
    · rw [hfiles]
    · -- the list of the pages has no images
      obtain ⟨rfl, -⟩ := can.of_indexDocument
      rw [hfiles, content?_render_saved _ ((h.evolves hl).directoryAt hl.output) can]
      rfl
  rw [imageAt?_pageAddress (h.directoryAt_output hl) hc, imageAt?_pageAddress hl.output hc,
    hlanding, hbuilt, hl.fills.web]
  cases hlast : lastCopy? (s.savedCopies (w.prepared s).files (s.documents (w.prepared s).files)
    r.outcomes) c.name with
  | none => rfl
  | some c' =>
    obtain ⟨hmem, hname⟩ := mem_of_lastCopy? hlast
    rw [if_pos (hname ▸ hfits c' hmem)]

/-- A document is held by the files that its page includes just if its copies are. -/
theorem imagesHeld_iff {start : World} {saved : List ImageCopy}
    (h : ∀ c : ImageCopy, Path.Plain c.name → s.imageAt? w'.files c.pageAddress =
      match lastCopy? saved c.name with
      | some c' => fetched? start.web c'.url
      | none => s.imageAt? start.files c.pageAddress) :
    s.ImagesHeld start w' path ↔ s.CopiesHeld start saved path := by
  have hcopy {c : ImageCopy} {body : Content} (hc : Path.Plain c.name) :
      s.imageAt? w'.files c.pageAddress = some body ↔
        match lastCopy? saved c.name with
        | some c' => fetched? start.web c'.url = some body
        | none => s.imageAt? start.files c.pageAddress = some body := by
    rw [h c hc]
    cases lastCopy? saved c.name <;> rfl
  constructor
  · intro hheld c hc body hbody
    obtain ⟨d, copies, hread, hcopies, hmem⟩ := mem_copiesOf_iff.1 hc
    have haddresses := ImageStore.address_of_imageCopies? hcopies
    have hremote : c.address ∈ remoteImages d.links d.blocks :=
      haddresses ▸ List.mem_map_of_mem hmem
    obtain ⟨address, hlookup, himage⟩ := hheld d copies hread hcopies c.address hremote c.url body
      (ImageStore.parse_of_mem_imageCopies? hcopies hmem) hbody
    rw [ImageStore.lookup_ofCopies (haddresses ▸ ImageStore.nodup_remoteImages _ _) hmem
      (ImageStore.isRemote_of_mem_remoteImages hremote)] at hlookup
    cases hlookup
    exact (hcopy (ImageStore.plain_of_mem_imageCopies? hcopies hmem)).1 himage
  · intro hheld d copies hread hcopies image himage url body hurl hbody
    have haddresses := ImageStore.address_of_imageCopies? hcopies
    obtain ⟨c, hmem, rfl⟩ := List.mem_map.1 (haddresses ▸ himage)
    obtain rfl : c.url = url := by
      simpa [ImageStore.parse_of_mem_imageCopies? hcopies hmem] using hurl
    refine ⟨c.pageAddress, ?_, ?_⟩
    · exact ImageStore.lookup_ofCopies (haddresses ▸ ImageStore.nodup_remoteImages _ _) hmem
        (ImageStore.isRemote_of_mem_remoteImages himage)
    · exact (hcopy (ImageStore.plain_of_mem_imageCopies? hcopies hmem)).2
        (hheld c (mem_copiesOf_iff.2 ⟨d, copies, hread, hcopies, hmem⟩) body hbody)

end

/-- The pages of a build include their own images just if their copies agree with those saved under
the same names. -/
theorem images_held_iff {s : Settings} {w w' : World} {r : BuildReport}
    (hb : Run.Returns (build s) w r w') (hw : w.files.WellFormed) (hlatex : s.format = .latex)
    (hapart : ∀ m, (w.prepared s).files.DirectoryAt s.root m →
      ¬ (w.prepared s).files.DirectoryAt (Path.join s.output savedDirectory) m) :
    (∀ p ∈ s.documents (w.prepared s).files, (s.pageContent? w'.files p).isSome = true →
      s.ImagesHeld (w.prepared s) w' p) ↔
    ∀ p ∈ s.documents (w.prepared s).files, (s.pageContent? w'.files p).isSome = true →
      s.CopiesHeld (w.prepared s) (s.savedCopies (w.prepared s).files
        (s.documents (w.prepared s).files) r.outcomes) p := by
  have hweb : (w.prepared s).web = w.web := by
    obtain ⟨start, built, h⟩ := returns_build.1 hb
    obtain rfl := prepared_eq h.prepared
    obtain ⟨l, hl⟩ := prepared_of_returns hw h.prepared
    exact hl.fills.web
  refine forall_congr' fun p => forall_congr' fun _ => forall_congr' fun _ => ?_
  exact imagesHeld_iff fun c hc => hweb ▸ imageAt?_eq hb hw hlatex hapart hc

def latexSettings : Settings where
  root := "src"
  output := "out"
  format := .latex

def imageSite : World where
  files := .ofEntries [
    (⟨false, ["out"]⟩, .directory 1),
    (⟨false, ["out", "styles"]⟩, .directory 1),
    (⟨false, ["out", "styles", "template.tex"]⟩, .file (.text "\x7bcontents\x7d") 1),
    (⟨false, ["src"]⟩, .directory 1),
    (⟨false, ["src", "a.md"]⟩, .file (.text "![](http://h/x)") 1),
    (⟨false, ["src", "b.md"]⟩, .file (.text "![](http://h/y)") 1)]
  clock := 10
  web := fun url => .reply 200 (.text (if url.path = .segments [['x']] then "X" else "Y"))
  requests := []
  progress := []

theorem wellFormed_imageSite : imageSite.files.WellFormed :=
  FileTree.wellFormed_ofEntries (by decide)

def imageX : ImageCopy :=
  ⟨"http://h/x", ⟨"http".toList, some ([], ['h'], []), .segments [['x']], none, none⟩, "saved1"⟩

/-- Both documents get a page, and the image of the second one is saved over that of the first. -/
theorem result_imageSite :
    let start := imageSite.prepared latexSettings
    let w' := (Run.result (build latexSettings) imageSite).2
    (Run.result (build latexSettings) imageSite).1.toOption.map
        (fun r => r.outcomes.map Outcome.isSkipped) = some [false, false] ∧
      latexSettings.documents start.files = ["src/a.md", "src/b.md"] ∧
      (latexSettings.read start.files "src/a.md").toOption.bind Document.imageCopies? =
        some [imageX] ∧
      fetched? start.web imageX.url = some (.text "X") ∧
      (latexSettings.pageContent? w'.files "src/a.md").isSome = true ∧
      latexSettings.imageAt? w'.files imageX.pageAddress = some (.text "Y") := by decide +kernel

theorem directories_imageSite :
    ∀ x ∈ ["src", "out"], ((imageSite.prepared latexSettings).files.resolve x).toOption =
      some ⟨false, [x]⟩ ∧
      (imageSite.prepared latexSettings).files.get? ⟨false, [x]⟩ = some (.directory 1) := by
  decide +kernel

theorem apart_imageSite (m : Location)
    (hm : (imageSite.prepared latexSettings).files.DirectoryAt "src" m) :
    ¬ (imageSite.prepared latexSettings).files.DirectoryAt (Path.join "out" savedDirectory) m := by
  have hat {x : String} (hx : x ∈ ["src", "out"]) :
      (imageSite.prepared latexSettings).files.DirectoryAt x ⟨false, [x]⟩ := by
    obtain ⟨hresolve, hget⟩ := directories_imageSite x hx
    exact FileTree.directoryAt_of_toOption hresolve ⟨1, hget⟩
  have hroot := hat List.mem_cons_self
  have houtput := hat (List.mem_cons_of_mem _ List.mem_cons_self)
  obtain rfl := hm.unique hroot
  intro hsaved
  exact absurd (houtput.of_join plain_savedDirectory hsaved) (by decide)

theorem images_imageSite_held_iff : ∃ r w', Run.Returns (build latexSettings) imageSite r w' ∧
    ((∀ p ∈ latexSettings.documents (imageSite.prepared latexSettings).files,
      (latexSettings.pageContent? w'.files p).isSome = true →
        latexSettings.ImagesHeld (imageSite.prepared latexSettings) w' p) ↔
    ∀ p ∈ latexSettings.documents (imageSite.prepared latexSettings).files,
      (latexSettings.pageContent? w'.files p).isSome = true →
        latexSettings.CopiesHeld (imageSite.prepared latexSettings)
          (latexSettings.savedCopies (imageSite.prepared latexSettings).files
            (latexSettings.documents (imageSite.prepared latexSettings).files) r.outcomes) p) := by
  obtain ⟨r, hr, -⟩ := Run.exists_returns result_imageSite.1
  exact ⟨r, _, hr, images_held_iff hr wellFormed_imageSite rfl apart_imageSite⟩

/-- A page may include the image of another document. -/
theorem images_not_held : ¬ ∀ (s : Settings) (w w' : World) (r : BuildReport),
    Run.Returns (build s) w r w' → w.files.WellFormed → s.format = .latex →
    (∀ m, (w.prepared s).files.DirectoryAt s.root m →
      ¬ (w.prepared s).files.DirectoryAt (Path.join s.output savedDirectory) m) →
    ∀ p ∈ s.documents (w.prepared s).files, (s.pageContent? w'.files p).isSome = true →
      s.ImagesHeld (w.prepared s) w' p := by
  intro h
  obtain ⟨hresult, hdocuments, hread, hfetched, hpage, hsaved⟩ := result_imageSite
  obtain ⟨r, hr, -⟩ := Run.exists_returns hresult
  have hheld := h latexSettings imageSite _ r hr wellFormed_imageSite rfl apart_imageSite "src/a.md"
    (by rw [hdocuments]; decide) hpage
  obtain ⟨d, hd, hcopies⟩ := Option.bind_eq_some_iff.1 hread
  have haddresses := ImageStore.address_of_imageCopies? hcopies
  obtain ⟨address, hlookup, himage⟩ := hheld d [imageX] (eq_ok_of_toOption hd) hcopies
    imageX.address (haddresses ▸ List.mem_singleton_self _) imageX.url (.text "X")
    (ImageStore.parse_of_mem_imageCopies? hcopies (List.mem_singleton_self _)) hfetched
  rw [ImageStore.lookup_ofCopies (by decide) (List.mem_singleton_self _) (by decide)] at hlookup
  cases hlookup
  rw [hsaved] at himage
  exact absurd himage (by decide)

end LiterateJournal
