import LiterateJournal.Proofs.Files.Filling
import LiterateJournal.Proofs.Images.Store
import LiterateJournal.Site.Sources
import LiterateJournal.Site.Template

/-!
# The making of one page

A page is written in the output directory under the stem of its source. Whether that can be done
depends on the template, on the copies of the images and on the directories; what is written depends
on the document and the template alone.

## Main definitions

* `OutputFormat.pageFile`, `IsPageStem` — the names of pages.
* `World.publish`, `Publishable` — the world after a page has been written, and when it can be.
* `Settings.plan?`, `Settings.pageText` — what a page is made from, and its text.
* `CanRender` — the page of a document can be written.

## Main statements

* `returns_writePage`, `returns_renderDocument` — when pages can be written, and what is then left.
* `evolves_publish` — a page and its draft change, and nothing else.
-/

namespace LiterateJournal

/-! ### Names of pages -/

def OutputFormat.pageFile (f : OutputFormat) (stem : String) : String :=
  stem ++ "." ++ f.fileExtension

structure IsPageStem (stem : String) : Prop where
  ne_nil : stem.toList ≠ []
  slash_notMem : '/' ∉ stem.toList

theorem IsPageStem.plain_append {stem rest : String} (h : IsPageStem stem)
    (hl : 2 ≤ rest.toList.length) (hs : '/' ∉ rest.toList) : Path.Plain (stem ++ rest) := by
  refine Path.plain_of_length ?_ (by simp [h.slash_notMem, hs])
  have := List.length_pos_iff.2 h.ne_nil
  simp only [String.toList_append, List.length_append]
  omega

theorem plain_pageFile {stem : String} (h : IsPageStem stem) (f : OutputFormat) :
    Path.Plain (f.pageFile stem) := by
  rw [OutputFormat.pageFile, String.append_assoc]
  cases f <;> exact h.plain_append (by decide) (by decide)

theorem plain_draft {stem : String} (h : IsPageStem stem) (f : OutputFormat) :
    Path.Plain (f.pageFile stem ++ ".tmp") := by
  rw [OutputFormat.pageFile, String.append_assoc, String.append_assoc]
  cases f <;> exact h.plain_append (by decide) (by decide)

theorem dot_mem_pageFile (f : OutputFormat) (stem : String) : '.' ∈ (f.pageFile stem).toList := by
  simp [OutputFormat.pageFile]

/-- A page is not the directory of the templates or of the copies. -/
theorem pageFile_ne {f : OutputFormat} {stem x : String} (hx : '.' ∉ x.toList) :
    f.pageFile stem ≠ x := by
  rintro rfl
  exact hx (dot_mem_pageFile f stem)

/-- No page is the draft of a page. -/
theorem pageFile_ne_draft (f : OutputFormat) (stem x : String) : f.pageFile stem ≠ x ++ ".tmp" := by
  intro h
  have hlast := congrArg (fun y => y.toList.getLast?) h
  cases f <;> simp [OutputFormat.pageFile, OutputFormat.fileExtension] at hlast

theorem pageFile_inj {f : OutputFormat} {stem stem' : String} :
    f.pageFile stem = f.pageFile stem' ↔ stem = stem' := by
  constructor
  · intro h
    have hlist := congrArg String.toList h
    exact String.toList_inj.1 (by simpa [OutputFormat.pageFile] using hlist)
  · rintro rfl
    rfl

/-- Where a page is written. -/
theorem pagePath_join {stem : String} (h : IsPageStem stem) {f : OutputFormat} (output : String)
    (hdot : f = .latex → stem ≠ ".") :
    pagePath f (Path.join output (stem ++ ".html")) = Path.join output (f.pageFile stem) := by
  have hhtml : stem ++ ".html" = stem ++ "." ++ "html" := by simp [String.append_assoc]
  rw [hhtml]
  cases f with
  | html => rfl
  | latex =>
    have hsilent : Path.Plain (stem ++ ".") := by
      have hne := h.ne_nil
      have hstem : stem.toList ≠ ['.'] := fun he => hdot rfl (String.toList_inj.1 he)
      refine ⟨⟨?_, by simp [h.slash_notMem]⟩, ?_⟩
      · cases hl : stem.toList <;> simp_all [Path.isSilent]
      · intro he
        have happend : stem.toList ++ ['.'] = ['.'] ++ ['.'] := by simpa using he
        exact hstem (List.append_cancel_right happend)
    exact Path.withExtension_join output (plain_pageFile h .latex) hsilent h.ne_nil (by decide)
      (plain_pageFile h .html)

/-- The page of a source whose stem is a dot would be a directory in LaTeX. -/
theorem pagePath_dot (output : String) :
    pagePath .latex (Path.join output ("." ++ ".html")) = Path.join output ".." := by
  have hup : Path.IsPiece ".." := by decide
  have hstem : Path.stem? (Path.join output "..") = none := by
    rw [Path.stem?, Path.fileName?, Path.components_join_of_isPiece output hup,
      List.getLast?_concat]
    rfl
  have htake : String.ofList ((Path.join output ("." ++ ".html")).toList.take
      ((Path.join output ("." ++ ".html")).length - "html".length)) = Path.join output ".." := by
    rw [show "." ++ ".html" = ".." ++ "html" from rfl, ← Path.join_append output hup,
      String.length_append, Nat.add_sub_cancel, String.toList_append, ← String.length_toList,
      List.take_left, String.ofList_toList]
  have hext : Path.extension? (Path.join output ("." ++ ".html")) = some "html" := by
    rw [Path.extension?_join output (by decide)]
    decide
  rw [pagePath, Path.withExtension, hext]
  dsimp only
  rw [htake, Path.addExtension, hstem]

theorem fileName?_join_up (base : String) : Path.fileName? (Path.join base "..") = none := by
  rw [Path.fileName?, Path.components_join_of_isPiece base (by decide), List.getLast?_concat]
  rfl

theorem exists_stem_of_extension? {path ext : String} (h : Path.extension? path = some ext) :
    ∃ stem, Path.stem? path = some stem ∧ IsPageStem stem ∧
      Path.fileName? path = some (stem ++ "." ++ ext) := by
  obtain ⟨name, hname, hcut⟩ := Option.bind_eq_some_iff.1 h
  have hcut' : Path.cutName name = ((Path.cutName name).1, some ext) := Prod.ext rfl hcut
  obtain ⟨heq, hne⟩ := Path.eq_of_cutName hcut'
  have hslash := (Path.plain_of_fileName? hname).1.2
  refine ⟨(Path.cutName name).1, by simp [Path.stem?, hname], ⟨hne, fun hmem => hslash ?_⟩,
    by rw [← heq, hname]⟩
  rw [heq]
  simp [hmem]

/-! ### Writing a page -/

def World.publish (w : World) (l : Location) (file text : String) : World :=
  let draft := l.child (file ++ ".tmp")
  let entry := Entry.file (.text text) (w.clock + 1)
  { w with
    files := ((w.files.set draft entry).erase draft).set (l.child file) entry
    clock := w.clock + 3 }

/-- A page can be written in a directory, as far as the names and the directories go. -/
structure Publishable (files : FileTree) (output : String) (l : Location) (file : String) :
    Prop where
  fits : Path.Fits output file
  draft_fits : Path.Fits output (file ++ ".tmp")
  not_isDirectory : ¬ files.IsDirectory (l.child file)
  draft_not_isDirectory : ¬ files.IsDirectory (l.child (file ++ ".tmp"))

theorem ne_draft (file : String) : file ≠ file ++ ".tmp" := by
  intro h
  simpa using congrArg String.toList h

theorem fits_of_fits_draft {output file : String} (hx : Path.Plain file)
    (h : Path.Fits output (file ++ ".tmp")) : Path.Fits output file := by
  obtain ⟨hpath, hname⟩ := h
  rw [← Path.join_append output hx.1, String.utf8ByteSize_append] at hpath
  rw [String.utf8ByteSize_append] at hname
  exact ⟨by omega, by omega⟩

section Publish

variable {w : World} {output : String} {l : Location} {file text : String}

theorem get?_publish (hl : w.files.IsDirectory l) (h : Publishable w.files output l file)
    (k : Location) : (w.publish l file text).files.get? k =
      if k = l.child file then some (.file (.text text) (w.clock + 1))
      else if k = l.child (file ++ ".tmp") then none else w.files.get? k := by
  have hp := FileTree.hasPlace_child hl (file ++ ".tmp")
  have hd := h.draft_not_isDirectory
  have hset {k : Location} : (w.files.set (l.child (file ++ ".tmp"))
      (.file (.text text) (w.clock + 1))).IsDirectory k ↔ w.files.IsDirectory k :=
    FileTree.isDirectory_set_file hp hd
  have hp' := FileTree.hasPlace_child (hset.2 hl) (file ++ ".tmp")
  have hd' : ¬ _ := fun h => hd (hset.1 h)
  have herase {k : Location} := FileTree.isDirectory_erase (k := k) hp' hd'
  have hp'' := FileTree.hasPlace_child (herase.2 (hset.2 hl)) file
  have hd'' : ¬ _ := fun h' => h.not_isDirectory (hset.1 (herase.1 h'))
  simp only [World.publish, FileTree.get?_set_of_not_isDirectory hp'' hd'',
    FileTree.get?_erase_of_not_isDirectory hp' hd', FileTree.get?_set_of_not_isDirectory hp hd]
  split
  · rfl
  · split <;> rfl

theorem isDirectory_publish (hl : w.files.IsDirectory l) (h : Publishable w.files output l file)
    {k : Location} : (w.publish l file text).files.IsDirectory k ↔ w.files.IsDirectory k := by
  have hd := h.not_isDirectory
  have hd' := h.draft_not_isDirectory
  unfold FileTree.IsDirectory at hd hd' ⊢
  simp only [get?_publish hl h]
  split
  · rename_i hk
    subst hk
    simpa using hd
  · split
    · rename_i hk
      subst hk
      simpa using hd'
    · rfl

/-- A page and its draft change, and nothing else. -/
theorem evolves_publish (text : String) (hl : w.files.IsDirectory l)
    (h : Publishable w.files output l file) :
    World.Evolves (fun k => k = l.child file ∨ k = l.child (file ++ ".tmp")) w
      (w.publish l file text) := by
  have hclock : (w.publish l file text).clock = w.clock + 3 := rfl
  refine ⟨rfl, by omega, fun k hk => ?_, fun k hk => (isDirectory_publish hl h).2 hk,
    fun k hdraft hk => ?_, fun k e hk => ?_, fun heq => by omega⟩
  · rw [get?_publish hl h, if_neg fun hk' => hk (.inl hk'), if_neg fun hk' => hk (.inr hk')]
  · rw [get?_publish hl h]
    split
    · rfl
    · rw [if_neg fun hk' => hdraft ⟨l, file, hk'⟩]
      exact hk
  · rw [get?_publish hl h] at hk
    split at hk
    · cases hk
      exact .inr (Nat.le_succ _)
    · split at hk
      · cases hk
      · exact .inl hk

end Publish

/-- When a file in a directory can take another name there, and what is then left. -/
theorem returns_rename {w w' : World} {output old new : String} {l : Location} {content : Content}
    {time : Nat} {cause : FileError → BuildError} {u : Unit}
    (hl : w.files.DirectoryAt output l) (hold : Path.Plain old) (hfits : Path.Fits output old)
    (hfile : w.files.get? (l.child old) = some (.file content time)) (hnew : Path.Plain new) :
    Run.Returns (Run.change cause fun files _ =>
        files.rename (Path.join output old) (Path.join output new)) w u w' ↔
      Path.Fits output new ∧ ¬ w.files.IsDirectory (l.child new) ∧
        w' = { w with
          files := (w.files.erase (l.child old)).set (l.child new) (.file content time)
          clock := w.clock + 1 } := by
  have hresolve := (hl.resolve_join_eq_ok_iff hold).2 ⟨hfits, rfl⟩
  simp only [Run.returns_change, FileTree.rename_eq_ok_iff hresolve hfile,
    hl.resolve_join_eq_ok_iff hnew, Path.fileName?_join output hnew,
    Path.endsWithDot_join output hnew.1, Path.endsWithSlash_join output hnew.1]
  constructor
  · rintro ⟨files, ⟨m, ⟨hfits', rfl⟩, -, -, -, hd, rfl⟩, rfl⟩
    exact ⟨hfits', hd, rfl⟩
  · rintro ⟨hfits', hd, rfl⟩
    exact ⟨_, ⟨_, ⟨hfits', rfl⟩, rfl, trivial, trivial, hd, rfl⟩, rfl⟩

theorem returns_writePage {w w' : World} {output file text : String} {l : Location} {u : Unit}
    (hl : w.files.DirectoryAt output l) (hx : Path.Plain file)
    (hdraft : Path.Plain (file ++ ".tmp")) :
    Run.Returns (writePage (Path.join output file) text) w u w' ↔
      Publishable w.files output l file ∧ w' = w.publish l file text := by
  obtain ⟨parent, hparent⟩ := Path.exists_parent?_join output hx.1
  have hnext (hd : ¬ w.files.IsDirectory (l.child (file ++ ".tmp"))) :
      World.Evolves (· = l.child (file ++ ".tmp")) { w with clock := w.clock + 1 }
        (World.put { w with clock := w.clock + 1 } (l.child (file ++ ".tmp")) (.text text)) :=
    World.evolves_put (.text text) (FileTree.hasPlace_child hl.isDirectory _) hd
  have hfile (hd : ¬ w.files.IsDirectory (l.child (file ++ ".tmp"))) :
      (World.put { w with clock := w.clock + 1 } (l.child (file ++ ".tmp"))
        (.text text)).files.get? (l.child (file ++ ".tmp")) =
        some (.file (.text text) (w.clock + 1)) := by
    rw [World.get?_put (w := { w with clock := w.clock + 1 }) (.text text)
      (FileTree.hasPlace_child hl.isDirectory _) hd, if_pos rfl]
  have hsame (hd : ¬ w.files.IsDirectory (l.child (file ++ ".tmp"))) {k : Location} :
      (World.put { w with clock := w.clock + 1 } (l.child (file ++ ".tmp"))
        (.text text)).files.IsDirectory k ↔ w.files.IsDirectory k :=
    FileTree.isDirectory_set_file (FileTree.hasPlace_child hl.isDirectory _) hd
  unfold writePage
  simp only [hparent, Path.join_append output hx.1, Run.returns_bind, Run.returns_makeDirectories]
  constructor
  · rintro ⟨_, v, ⟨-, rfl⟩, _, v', hwrite, hrename⟩
    -- the draft has a place, so the page has one, and its parent is there already
    have hgrown := FileTree.grown_makeDirectories w.files w.clock parent
    have hfits := ((Run.returns_write (hl.mono fun _ => hgrown.isDirectory) hdraft).1 hwrite).1
    have hparents := FileTree.makeDirectories_parent w.clock
      ((hl.resolve_join_eq_ok_iff hx).2 ⟨fits_of_fits_draft hx hfits, rfl⟩) hparent
    rw [hparents] at hwrite
    obtain ⟨-, hd, rfl⟩ := (Run.returns_write (w := { w with clock := w.clock + 1 }) hl hdraft).1
      hwrite
    obtain ⟨hfits', hd', rfl⟩ := (returns_rename ((hnext hd).directoryAt hl) hdraft hfits (hfile hd)
      hx).1 hrename
    exact ⟨⟨hfits', hfits, fun h => hd' ((hsame hd).2 h), hd⟩, rfl⟩
  · rintro ⟨h, rfl⟩
    have hparents := FileTree.makeDirectories_parent w.clock
      ((hl.resolve_join_eq_ok_iff hx).2 ⟨h.fits, rfl⟩) hparent
    have hd := h.draft_not_isDirectory
    rw [hparents]
    exact ⟨(), _, ⟨rfl, rfl⟩, (), _,
      (Run.returns_write (w := { w with clock := w.clock + 1 }) hl hdraft).2
        ⟨h.draft_fits, hd, rfl⟩,
      (returns_rename ((hnext hd).directoryAt hl) hdraft h.draft_fits (hfile hd) hx).2
        ⟨h.fits, fun h' => h.not_isDirectory ((hsame hd).1 h'), rfl⟩⟩

/-- A page without a name cannot be written. -/
theorem not_returns_writePage {w w' : World} {path text : String} {u : Unit}
    (h : Path.fileName? path = none) : ¬ Run.Returns (writePage path text) w u w' := by
  have hrename (t u : FileTree) (source : String) : t.rename source path ≠ .ok u := by
    unfold FileTree.rename
    cases t.place source with
    | error e => simp [bind, Except.bind]
    | ok p =>
      cases t.place path with
      | error e => simp [bind, Except.bind]
      | ok q => cases hp : p.here <;> simp [bind, Except.bind, hp, h]
  unfold writePage
  split
  · simp [hrename]
  · simp [hrename]

/-! ### Rendering a document -/

/-- The copies and the body that a page is made from, if the addresses of its images are URLs. -/
def Settings.plan? (s : Settings) (d : Document) : Option (List ImageCopy × List Block) :=
  match s.format with
  | .html => some ([], d.blocks)
  | .latex =>
    d.imageCopies?.bind fun copies =>
      match relocateImages d.links (ImageStore.ofCopies s.output copies).lookup d.blocks with
      | .ok blocks => some (copies, dropTitles blocks)
      | .error _ => none

def Settings.pageText (s : Settings) (d : Document) (blocks : List Block)
    (template title : String) : String :=
  fillTemplate template s.format (s.format.writeBody d.links blocks) d.tooltips title

structure CanRender (s : Settings) (d : Document) (stem : String) (w : World) (l : Location)
    (template : String) (copies : List ImageCopy) (blocks : List Block) : Prop where
  template : w.files.readText (templatePath s.stylesDirectory s.format) = .ok template
  plan : s.plan? d = some (copies, blocks)
  copies : CopiesSavable w s.output l copies
  publish : Publishable w.files s.output l (s.format.pageFile stem)
  dot : s.format = .latex → stem ≠ "."

def World.render (w : World) (s : Settings) (d : Document) (title stem : String) (l : Location)
    (template : String) (copies : List ImageCopy) (blocks : List Block) : World :=
  (w.save (l.child savedDirectory) copies).publish l (s.format.pageFile stem)
    (s.pageText d blocks template title)

theorem returns_loadTemplate {w w' : World} {styles template : String} {f : OutputFormat} :
    Run.Returns (loadTemplate styles f) w template w' ↔
      w.files.readText (templatePath styles f) = .ok template ∧ w' = w := by
  unfold loadTemplate
  simp only [Run.returns_bind, Run.returns_files, and_assoc, exists_and_left, exists_eq_left]
  split
  · rename_i h
    simp [h, eq_comm]
  · rename_i h
    simp [h]
  · rename_i h
    simp [h]

theorem returns_pageBlocks {w w' : World} {s : Settings} {d : Document} {title : String}
    {blocks : List Block} {l : Location} (hl : w.files.DirectoryAt s.output l) :
    Run.Returns (pageBlocks s d title) w blocks w' ↔
      ∃ copies, s.plan? d = some (copies, blocks) ∧ CopiesSavable w s.output l copies ∧
        w' = w.save (l.child savedDirectory) copies := by
  unfold pageBlocks Settings.plan?
  cases s.format with
  | html =>
    have hnil : CopiesSavable w s.output l [] := ⟨fun h => absurd rfl h, by simp⟩
    have hsave : w.save (l.child savedDirectory) [] = w := if_pos rfl
    simp only [Run.returns_pure, Option.some.injEq, Prod.mk.injEq]
    constructor
    · rintro ⟨rfl, rfl⟩
      exact ⟨[], ⟨rfl, rfl⟩, hnil, hsave.symm⟩
    · rintro ⟨_, ⟨rfl, rfl⟩, -, rfl⟩
      exact ⟨rfl, hsave⟩
  | latex =>
    simp only [Run.returns_bind, ImageStore.returns_localizeAlone hl, Run.returns_pure,
      Option.bind_eq_some_iff]
    constructor
    · rintro ⟨blocks', _, ⟨copies, hcopies, hsavable, hblocks, rfl⟩, rfl, rfl⟩
      exact ⟨copies, ⟨copies, hcopies, by rw [hblocks]⟩, hsavable, rfl⟩
    · rintro ⟨copies, ⟨copies', hcopies, hblocks⟩, hsavable, rfl⟩
      split at hblocks
      · rename_i blocks' hrelocate
        cases hblocks
        exact ⟨blocks', _, ⟨copies, hcopies, hsavable, hrelocate, rfl⟩, rfl, rfl⟩
      · cases hblocks

theorem isDirectory_save_child {w : World} {output : String} {l : Location}
    {copies : List ImageCopy} (hl : w.files.DirectoryAt output l)
    (h : CopiesSavable w output l copies) {x : String} (hx : x ≠ savedDirectory) :
    (w.save (l.child savedDirectory) copies).files.IsDirectory (l.child x) ↔
      w.files.IsDirectory (l.child x) := by
  rw [isDirectory_save hl h, Location.child_inj]
  simp [hx]

/-- Saving the copies of a document does not get in the way of its page. -/
theorem publishable_save {w : World} {output stem : String} {l : Location}
    {copies : List ImageCopy} {f : OutputFormat} (hl : w.files.DirectoryAt output l)
    (h : CopiesSavable w output l copies) :
    Publishable (w.save (l.child savedDirectory) copies).files output l (f.pageFile stem) ↔
      Publishable w.files output l (f.pageFile stem) := by
  have hpage : f.pageFile stem ≠ savedDirectory := pageFile_ne (by decide)
  have hdraft : f.pageFile stem ++ ".tmp" ≠ savedDirectory := by
    intro heq
    have hdot := dot_mem_pageFile f stem
    exact absurd (heq ▸ by simp [hdot] : '.' ∈ savedDirectory.toList) (by decide)
  have hsame := isDirectory_save_child hl h hpage
  have hsame' := isDirectory_save_child hl h hdraft
  constructor
  · rintro ⟨hfits, hfits', hd, hd'⟩
    exact ⟨hfits, hfits', fun h => hd (hsame.2 h), fun h => hd' (hsame'.2 h)⟩
  · rintro ⟨hfits, hfits', hd, hd'⟩
    exact ⟨hfits, hfits', fun h => hd (hsame.1 h), fun h => hd' (hsame'.1 h)⟩

/-- When the page of a document can be written, and what is then left. -/
theorem returns_renderDocument {w w' : World} {s : Settings} {d : Document}
    {title stem out : String} {l : Location} (hl : w.files.DirectoryAt s.output l)
    (hstem : IsPageStem stem) :
    Run.Returns (renderDocument s d title (Path.join s.output (stem ++ ".html"))) w out w' ↔
      ∃ template copies blocks, CanRender s d stem w l template copies blocks ∧
        out = Path.join s.output (s.format.pageFile stem) ∧
        w' = w.render s d title stem l template copies blocks := by
  unfold renderDocument
  simp only [Run.returns_bind, returns_loadTemplate, Run.returns_pure]
  constructor
  · rintro ⟨template, _, ⟨htemplate, rfl⟩, blocks, v, hblocks, _, v', hwrite, rfl, rfl⟩
    obtain ⟨copies, hplan, hsavable, rfl⟩ := (returns_pageBlocks hl).1 hblocks
    have hdot : s.format = .latex → stem ≠ "." := by
      rintro hlatex rfl
      rw [hlatex] at hwrite
      rw [pagePath_dot] at hwrite
      exact not_returns_writePage (fileName?_join_up s.output) hwrite
    rw [pagePath_join hstem s.output hdot] at hwrite ⊢
    obtain ⟨hpublish, rfl⟩ := (returns_writePage ((evolves_save hl hsavable).directoryAt hl)
      (plain_pageFile hstem _) (plain_draft hstem _)).1 hwrite
    exact ⟨template, copies, blocks,
      ⟨htemplate, hplan, hsavable, (publishable_save hl hsavable).1 hpublish, hdot⟩, rfl, rfl⟩
  · rintro ⟨template, copies, blocks, h, rfl, rfl⟩
    rw [pagePath_join hstem s.output h.dot]
    exact ⟨template, w, ⟨h.template, rfl⟩, blocks, _,
      (returns_pageBlocks hl).2 ⟨copies, h.plan, h.copies, rfl⟩, (), _,
      (returns_writePage ((evolves_save hl h.copies).directoryAt hl) (plain_pageFile hstem _)
        (plain_draft hstem _)).2 ⟨(publishable_save hl h.copies).2 h.publish, rfl⟩, rfl, rfl⟩

/-- The locations that the making of a page changes. -/
def PageChanges (s : Settings) (l : Location) (stem : String) (k : Location) : Prop :=
  k = l.child (s.format.pageFile stem) ∨ k = l.child (s.format.pageFile stem ++ ".tmp") ∨
    s.format = .latex ∧
      (k = l.child savedDirectory ∨ ∃ x, k = (l.child savedDirectory).child x)

theorem pageChanges_child_iff {s : Settings} {l : Location} {stem x : String} :
    PageChanges s l stem (l.child x) ↔
      x = s.format.pageFile stem ∨ x = s.format.pageFile stem ++ ".tmp" ∨
        s.format = .latex ∧ x = savedDirectory := by
  have hdeep (y : String) : l.child x ≠ (l.child savedDirectory).child y := by
    intro h
    simpa [Location.child] using congrArg Location.names h
  simp [PageChanges, hdeep]

/-- Only what is inside the output directory changes. -/
theorem PageChanges.contains {s : Settings} {l k : Location} {stem : String}
    (h : PageChanges s l stem k) : l.Contains k ∧ k ≠ l := by
  have hchild (x : String) : l.child x ≠ l := by
    intro heq
    simpa [Location.child] using congrArg Location.names heq
  have hdeep (x y : String) : (l.child x).child y ≠ l := by
    intro heq
    simpa [Location.child] using congrArg Location.names heq
  obtain rfl | rfl | ⟨-, rfl | ⟨x, rfl⟩⟩ := h
  · exact ⟨l.contains_child _, hchild _⟩
  · exact ⟨l.contains_child _, hchild _⟩
  · exact ⟨l.contains_child _, hchild _⟩
  · exact ⟨(l.contains_child _).trans (Location.contains_child _ _), hdeep _ _⟩

/-- The templates do not change. -/
theorem not_pageChanges_of_contains {s : Settings} {l k : Location} {stem : String}
    (hk : (l.child "styles").Contains k) : ¬ PageChanges s l stem k := by
  obtain ⟨-, rest, hrest⟩ := hk
  have hchild {x : String} (h : k = l.child x) : x = "styles" := by
    rw [h] at hrest
    have hnames := congrArg (·[l.names.length]?) hrest
    simpa [Location.child, eq_comm] using hnames
  have hdeep {x y : String} (h : k = (l.child x).child y) : x = "styles" := by
    rw [h] at hrest
    have hnames := congrArg (·[l.names.length]?) hrest
    simpa [Location.child, eq_comm] using hnames
  rintro (h | h | ⟨-, h | ⟨x, h⟩⟩)
  · exact pageFile_ne (by decide) (hchild h)
  · have hdot : '.' ∈ "styles".toList := hchild h ▸ by simp [dot_mem_pageFile]
    exact absurd hdot (by decide)
  · exact absurd (hchild h) (by decide)
  · exact absurd (hdeep h) (by decide)

/-- The making of pages leaves the template as it is. -/
theorem readText_template_eq {changed : Location → Prop} {s : Settings} {w v : World}
    {l : Location} (hl : w.files.DirectoryAt s.stylesDirectory (l.child "styles"))
    (h : World.Evolves changed w v) (hchanged : ∀ k, changed k → ∃ stem, PageChanges s l stem k) :
    v.files.readText (templatePath s.stylesDirectory s.format) =
      w.files.readText (templatePath s.stylesDirectory s.format) := by
  have hplain : Path.Plain ("template." ++ s.format.fileExtension) := by
    cases s.format <;> decide
  have hkept := h.kept ((l.child "styles").child ("template." ++ s.format.fileExtension)) (by
    intro hk
    obtain ⟨stem, hk⟩ := hchanged _ hk
    exact not_pageChanges_of_contains (Location.contains_child _ _) hk)
  unfold FileTree.readText
  rw [templatePath, FileTree.stat_join_eq hl (h.directoryAt hl) hplain hkept]

/-- A page in HTML needs no copies. -/
theorem copies_of_plan? {s : Settings} {d : Document} {copies : List ImageCopy}
    {blocks : List Block} (h : s.plan? d = some (copies, blocks)) (hne : copies ≠ []) :
    s.format = .latex := by
  unfold Settings.plan? at h
  cases hf : s.format with
  | latex => rfl
  | html =>
    rw [hf] at h
    cases h
    exact absurd rfl hne

theorem clock_render (w : World) (s : Settings) (d : Document) (title stem : String) (l : Location)
    (template : String) (copies : List ImageCopy) (blocks : List Block) :
    (w.render s d title stem l template copies blocks).clock = w.clock + saveTime copies + 3 := by
  rw [← clock_save w (l.child savedDirectory)]
  rfl

section Render

variable {w : World} {s : Settings} {d : Document} {title stem template : String} {l : Location}
  {copies : List ImageCopy} {blocks : List Block}

theorem CanRender.publishable_save (hl : w.files.DirectoryAt s.output l)
    (h : CanRender s d stem w l template copies blocks) :
    Publishable (w.save (l.child savedDirectory) copies).files s.output l
      (s.format.pageFile stem) :=
  (LiterateJournal.publishable_save hl h.copies).2 h.publish

/-- Nothing but the page, its draft and the copies of images changes. -/
theorem evolves_render (title : String) (hl : w.files.DirectoryAt s.output l)
    (h : CanRender s d stem w l template copies blocks) :
    World.Evolves (PageChanges s l stem) w (w.render s d title stem l template copies blocks) := by
  have hsave := evolves_save hl h.copies
  refine (hsave.weaken ?_).trans ((evolves_publish _ (hsave.isDirectory l hl.isDirectory)
    (h.publishable_save hl)).weaken ?_)
  · rintro k (⟨hne, rfl⟩ | ⟨c, hc, rfl⟩)
    · exact .inr (.inr ⟨copies_of_plan? h.plan hne, .inl rfl⟩)
    · exact .inr (.inr ⟨copies_of_plan? h.plan (List.ne_nil_of_mem hc), .inr ⟨c.name, rfl⟩⟩)
  · rintro k (rfl | rfl)
    · exact .inl rfl
    · exact .inr (.inl rfl)

/-- The page is there, and it is newer than all that was there before. -/
theorem get?_render (title : String) (hl : w.files.DirectoryAt s.output l)
    (h : CanRender s d stem w l template copies blocks) :
    (w.render s d title stem l template copies blocks).files.get?
        (l.child (s.format.pageFile stem)) =
      some (.file (.text (s.pageText d blocks template title))
        (w.clock + saveTime copies + 1)) := by
  have hsave := evolves_save hl h.copies
  rw [World.render, get?_publish (hsave.isDirectory l hl.isDirectory) (h.publishable_save hl),
    if_pos rfl, clock_save]

theorem isDirectory_render (title : String) (hl : w.files.DirectoryAt s.output l)
    (h : CanRender s d stem w l template copies blocks) {k : Location} :
    (w.render s d title stem l template copies blocks).files.IsDirectory k ↔
      w.files.IsDirectory k ∨ copies ≠ [] ∧ k = l.child savedDirectory := by
  have hsave := evolves_save hl h.copies
  rw [World.render, isDirectory_publish (hsave.isDirectory l hl.isDirectory)
    (h.publishable_save hl), isDirectory_save hl h.copies]

/-- Under each name stays the last copy of the document, or what was there. -/
theorem content?_render_saved (title : String) (hl : w.files.DirectoryAt s.output l)
    (h : CanRender s d stem w l template copies blocks) (name : String) :
    (w.render s d title stem l template copies blocks).files.content?
        ((l.child savedDirectory).child name) =
      match lastCopy? copies name with
      | some c => fetched? w.web c.url
      | none => w.files.content? ((l.child savedDirectory).child name) := by
  have hsave := evolves_save hl h.copies
  have hkept := (evolves_publish (s.pageText d blocks template title)
    (hsave.isDirectory l hl.isDirectory) (h.publishable_save hl)).kept
    ((l.child savedDirectory).child name)
    (by rintro (heq | heq) <;> simpa [Location.child] using congrArg Location.names heq)
  exact (FileTree.content?_eq_of_get?_eq hkept).trans (content?_save hl h.copies name)

end Render

/-! ### Where pages are -/

theorem contains_antisymm {l k : Location} (h : l.Contains k) (h' : k.Contains l) : k = l := by
  obtain ⟨ha, hnames⟩ := h
  have heq := hnames.eq_of_length_le h'.2.length_le
  cases l
  cases k
  simp_all

/-- Where the path of a page leads. -/
theorem resolve_page {files : FileTree} {s : Settings} {stem : String} {l : Location}
    (hl : files.DirectoryAt s.output l) (hstem : IsPageStem stem) :
    files.resolve (pagePath s.format (Path.join s.output (stem ++ ".html"))) =
      if s.format = .latex ∧ stem = "." then
        if FileTree.maxPath < (Path.join s.output "..").utf8ByteSize then .error .nameTooLong
        else .ok ⟨l.isAbsolute, l.names.dropLast⟩
      else if Path.Fits s.output (s.format.pageFile stem) then
        .ok (l.child (s.format.pageFile stem))
      else .error .nameTooLong := by
  by_cases hdot : s.format = .latex ∧ stem = "."
  · obtain ⟨hlatex, rfl⟩ := hdot
    rw [if_pos ⟨hlatex, rfl⟩, hlatex, pagePath_dot, hl.resolve_join_up]
  · rw [if_neg hdot, pagePath_join hstem _ fun hlatex hs => hdot ⟨hlatex, hs⟩,
      hl.resolve_join (plain_pageFile hstem _)]

/-- A page is in the output directory, but for one that would be the directory around it. -/
theorem page_location {files : FileTree} {s : Settings} {stem : String} {l k : Location}
    (hl : files.DirectoryAt s.output l) (hstem : IsPageStem stem)
    (h : files.resolve (pagePath s.format (Path.join s.output (stem ++ ".html"))) = .ok k) :
    k = l.child (s.format.pageFile stem) ∨ stem = "." ∧ k.Contains l := by
  rw [resolve_page hl hstem] at h
  split at h
  · rename_i hdot
    split at h
    · cases h
    · cases h
      exact .inr ⟨hdot.2, rfl, List.dropLast_prefix _⟩
  · split at h
    · cases h
      exact .inl rfl
    · cases h

/-- The making of a page leaves the pages under other stems as they are. -/
theorem not_pageChanges_page {s : Settings} {stem stem' : String} {l k : Location}
    (hk : k = l.child (s.format.pageFile stem) ∨ stem = "." ∧ k.Contains l) (hne : stem ≠ stem') :
    ¬ PageChanges s l stem' k := by
  obtain rfl | ⟨-, hk⟩ := hk
  · rw [pageChanges_child_iff]
    rintro (h | h | ⟨-, h⟩)
    · exact hne (pageFile_inj.1 h)
    · exact pageFile_ne_draft _ _ _ h
    · exact pageFile_ne (by decide) h
  · intro h
    obtain ⟨hl, hne⟩ := h.contains
    exact hne (contains_antisymm hl hk)

end LiterateJournal
