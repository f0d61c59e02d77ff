import LiterateJournal.Proofs.Document.Relocated
import LiterateJournal.Proofs.Output.RelocatedBody

/-!
# Pointing a document at copies

The images of a document are given to a saver one after another, and the document is pointed at what
it answers. The saver may fail, and may remember what it has saved; nothing but where the images are
depends on it.

## Main definitions

* `Saver` — what says where the copy of an image is.
* `Saver.Gives` — a step with a saver returns.
* `Saver.Moves` — a step saves some images, and what it returns fits where they are then.
* `Saver.Localizes` — a saver that leaves no image remote and no other image moved.

## Main statements

* `Saver.moves_relocateImages` — the images move to where they are saved, and nothing else changes.
* `relocateImages_moves_images_only` — what follows for the title, the text and the page, and for
  doing it twice.
-/

namespace LiterateJournal

/-- What says where the copy of an image is. -/
abbrev Saver (ε σ : Type) := String → ExceptT ε (StateM σ) String

namespace Saver

section

variable {ε σ α β : Type}

/-! ### Steps that return -/

/-- A step returns `a` from `s`, and leaves `s'`. -/
def Gives (x : ExceptT ε (StateM σ) α) (s : σ) (a : α) (s' : σ) : Prop :=
  Id.run (x.run.run s) = (.ok a, s')

@[simp] theorem gives_pure {s s' : σ} {a b : α} :
    Gives (pure b : ExceptT ε (StateM σ) α) s a s' ↔ a = b ∧ s' = s := by
  constructor
  · intro h
    cases h
    exact ⟨rfl, rfl⟩
  · rintro ⟨rfl, rfl⟩
    rfl

@[simp] theorem gives_bind {x : ExceptT ε (StateM σ) α} {f : α → ExceptT ε (StateM σ) β}
    {s s' : σ} {b : β} :
    Gives (x >>= f) s b s' ↔ ∃ a t, Gives x s a t ∧ Gives (f a) t b s' := by
  unfold Gives
  rw [ExceptT.run_bind, StateT.run_bind]
  generalize x.run.run s = out
  obtain ⟨result, t⟩ := out
  constructor
  · intro h
    cases result with
    | ok a => exact ⟨a, t, rfl, h⟩
    | error e => cases h
  · rintro ⟨a, t', hout, h⟩
    cases hout
    exact h

theorem Gives.unique {x : ExceptT ε (StateM σ) α} {s t t' : σ} {a b : α}
    (h : Gives x s a t) (h' : Gives x s b t') : b = a := by
  unfold Gives at h h'
  rw [h] at h'
  cases h'
  rfl

variable (save : Saver ε σ)

/-- In some state the image at `url` is saved to `path`. -/
def Answers (url path : String) : Prop := ∃ s s', Gives (save url) s path s'

theorem forall₂_answers {urls paths : List String} {s s' : σ}
    (h : Gives (urls.mapM save) s paths s') : List.Forall₂ (Answers save) urls paths := by
  induction urls generalizing s paths s' with
  | nil =>
    obtain ⟨rfl, -⟩ := gives_pure.1 h
    exact .nil
  | cons url urls ih =>
    simp only [List.mapM_cons, gives_bind, gives_pure] at h
    obtain ⟨path, t, hpath, rest, t', hrest, rfl, -⟩ := h
    exact .cons ⟨s, t, hpath⟩ (ih hrest)

/-! ### The images that a step moves -/

/-- A step saves the images `urls`, and what it returns fits the addresses that they then have. -/
def Moves (x : ExceptT ε (StateM σ) α) (urls : List String) (Q : α → List String → Prop) : Prop :=
  ∀ ⦃s a s'⦄, Gives x s a s' → ∃ paths, Gives (urls.mapM save) s paths s' ∧ Q a paths

variable {save}

namespace Moves

variable {x : ExceptT ε (StateM σ) α} {f : α → ExceptT ε (StateM σ) β} {urls urls' : List String}
  {Q : α → List String → Prop} {Q' : β → List String → Prop}

protected theorem pure {a : α} (h : Q a []) : Moves save (Pure.pure a) [] Q := by
  intro s b s' hb
  obtain ⟨rfl, rfl⟩ := gives_pure.1 hb
  exact ⟨[], gives_pure.2 ⟨rfl, rfl⟩, h⟩

protected theorem bind (hx : Moves save x urls Q)
    (hf : ∀ a paths, Q a paths → Moves save (f a) urls' fun b paths' => Q' b (paths ++ paths')) :
    Moves save (x >>= f) (urls ++ urls') Q' := by
  intro s b s' hb
  obtain ⟨a, t, ha, hb⟩ := gives_bind.1 hb
  obtain ⟨paths, hpaths, hQ⟩ := hx ha
  obtain ⟨paths', hpaths', hQ'⟩ := hf a paths hQ hb
  refine ⟨paths ++ paths', ?_, hQ'⟩
  simp only [List.mapM_append, gives_bind, gives_pure]
  exact ⟨paths, t, hpaths, paths', s', hpaths', rfl, rfl⟩

protected theorem map (hx : Moves save x urls Q) {g : α → β}
    (hg : ∀ a paths, Q a paths → Q' (g a) paths) :
    Moves save (do Pure.pure (g (← x))) urls Q' := by
  have h : Moves save (do Pure.pure (g (← x))) (urls ++ []) Q' :=
    hx.bind fun a paths hQ => .pure (by rw [List.append_nil]; exact hg a paths hQ)
  rwa [List.append_nil] at h

protected theorem save (url : String) :
    Moves save (save url) [url] fun path paths => paths = [path] ∧ Answers save url path := by
  intro s path s' h
  refine ⟨[path], ?_, rfl, s, s', h⟩
  simp only [List.mapM_cons, List.mapM_nil, gives_bind, gives_pure]
  exact ⟨path, s', h, [], s', ⟨rfl, rfl⟩, rfl, rfl⟩

end Moves

/-! ### Spans and blocks -/

section

variable (save) (links : LinkTable)

/-- A span in the place of another, whose images are then at `paths`. -/
def SpanFits (s s' : Span) (paths : List String) : Prop :=
  s.Relocated links (Answers save) s' ∧ imageUrls links s'.withInner = paths

def SpansFit (spans spans' : List Span) (paths : List String) : Prop :=
  List.Forall₂ (Span.Relocated links (Answers save)) spans spans' ∧
    imageUrls links (innerSpans spans') = paths

def BlockFits (b b' : Block) (paths : List String) : Prop :=
  b.Relocated links (Answers save) b' ∧ imageUrls links b'.spans = paths

def BlocksFit (blocks blocks' : List Block) (paths : List String) : Prop :=
  List.Forall₂ (Block.Relocated links (Answers save)) blocks blocks' ∧
    imageUrls links (spansOf blocks') = paths

def CellsFit (cells cells' : List (List Block)) (paths : List String) : Prop :=
  List.Forall₂ (List.Forall₂ (Block.Relocated links (Answers save))) cells cells' ∧
    imageUrls links (spansInCells cells') = paths

def RowsFit (rows rows' : List (List (List Block))) (paths : List String) : Prop :=
  List.Forall₂ (List.Forall₂ (List.Forall₂ (Block.Relocated links (Answers save)))) rows rows' ∧
    imageUrls links (spansInRows rows') = paths

end

section

variable (links : LinkTable)

/-- An image moves, or stays if its label is not defined. -/
theorem moves_image (alt url : String) (title : Option String) :
    Moves save (Span.relocate links save (.image alt url title)) [url]
      (SpanFits save links (.image alt url title)) := by
  refine (Moves.save url).map ?_
  rintro path _ ⟨rfl, hpath⟩
  exact ⟨.image alt title hpath, rfl⟩

theorem moves_imageReference (alt written key : String) :
    Moves save (Span.relocate links save (.imageReference alt written key))
      (imageUrls links [.imageReference alt written key])
      (SpanFits save links (.imageReference alt written key)) := by
  cases hkey : links.get? key with
  | none =>
    have hurls : imageUrls links [.imageReference alt written key] = [] := by
      simp [imageUrls, Span.imageUrl?, hkey]
    rw [hurls, Span.relocate, hkey]
    exact .pure ⟨.undefinedReference alt written hkey, hurls⟩
  | some target =>
    have hurls : imageUrls links [.imageReference alt written key] = [target.url] := by
      simp [imageUrls, Span.imageUrl?, hkey]
    rw [hurls, Span.relocate, hkey]
    refine (Moves.save target.url).map ?_
    rintro path _ ⟨rfl, hpath⟩
    exact ⟨.imageReference alt written hkey hpath, rfl⟩

/-- A span around others has the images of those. -/
theorem moves_around {body : List Span} (around : List Span → Span)
    (hrelocated : ∀ {body'}, List.Forall₂ (Span.Relocated links (Answers save)) body body' →
      (around body).Relocated links (Answers save) (around body'))
    (hinner : ∀ body, (around body).withInner = innerSpans body ++ [around body])
    (hurl : ∀ body, (around body).imageUrl? links = none)
    (h : Moves save (transformSpansM (Span.relocate links save) body)
      (imageUrls links (innerSpans body)) (SpansFit save links body)) :
    Moves save (do pure (around (← transformSpansM (Span.relocate links save) body)))
      (imageUrls links (around body).withInner) (SpanFits save links (around body)) := by
  have hurls (body) :
      imageUrls links (around body).withInner = imageUrls links (innerSpans body) := by
    simp [hinner, imageUrls, hurl]
  rw [hurls]
  refine h.map ?_
  rintro body' paths ⟨hbody, hpaths⟩
  exact ⟨hrelocated hbody, (hurls body').trans hpaths⟩

mutual

theorem moves_transform : (s : Span) → Moves save (s.transformM (Span.relocate links save))
    (imageUrls links s.withInner) (SpanFits save links s)
  | .strong body =>
    moves_around links .strong .strong (fun _ => rfl) (fun _ => rfl) (moves_transformSpans body)
  | .emphasis body =>
    moves_around links .emphasis .emphasis (fun _ => rfl) (fun _ => rfl)
      (moves_transformSpans body)
  | .link body url title =>
    moves_around links (.link · url title) (.link url title) (fun _ => rfl) (fun _ => rfl)
      (moves_transformSpans body)
  | .linkReference body written key =>
    moves_around links (.linkReference · written key) (.linkReference written key)
      (fun _ => rfl) (fun _ => rfl) (moves_transformSpans body)
  | .image alt url title => moves_image links alt url title
  | .imageReference alt written key => moves_imageReference links alt written key
  | .text s => .pure ⟨.text s, rfl⟩
  | .code s => .pure ⟨.code s, rfl⟩
  | .math source display => .pure ⟨.math source display, rfl⟩
  | .raw s => .pure ⟨.raw s, rfl⟩
  | .lineBreak => .pure ⟨.lineBreak, rfl⟩

theorem moves_transformSpans : (spans : List Span) →
    Moves save (transformSpansM (Span.relocate links save) spans)
      (imageUrls links (innerSpans spans)) (SpansFit save links spans)
  | [] => .pure ⟨.nil, rfl⟩
  | s :: rest => by
    rw [innerSpans, imageUrls_append]
    refine (moves_transform s).bind fun s' paths ⟨hs, hpaths⟩ =>
      (moves_transformSpans rest).map fun rest' paths' ⟨hrest, hpaths'⟩ => ⟨.cons hs hrest, ?_⟩
    rw [innerSpans, imageUrls_append, hpaths, hpaths']

end

mutual

theorem moves_block : (b : Block) → Moves save (b.mapSpansM (Span.relocate links save))
    (imageUrls links b.spans) (BlockFits save links b)
  | .heading level body =>
    (moves_transformSpans links body).map fun _ _ ⟨hbody, hpaths⟩ => ⟨.heading level hbody, hpaths⟩
  | .paragraph body =>
    (moves_transformSpans links body).map fun _ _ ⟨hbody, hpaths⟩ => ⟨.paragraph hbody, hpaths⟩
  | .list kind items =>
    (moves_cells items).map fun _ _ ⟨hitems, hpaths⟩ => ⟨.list kind hitems, hpaths⟩
  | .quote body => (moves_blocks body).map fun _ _ ⟨hbody, hpaths⟩ => ⟨.quote hbody, hpaths⟩
  | .table alignments header rows => by
    rw [Block.spans, imageUrls_append]
    refine (moves_cells header).bind fun header' paths ⟨hheader, hpaths⟩ =>
      (moves_rows rows).map fun rows' paths' ⟨hrows, hpaths'⟩ =>
        ⟨.table alignments hheader hrows, ?_⟩
    rw [Block.spans, imageUrls_append, hpaths, hpaths']
  | .code source language => .pure ⟨.code source language, rfl⟩
  | .raw markup => .pure ⟨.raw markup, rfl⟩
  | .math source => .pure ⟨.math source, rfl⟩
  | .rule => .pure ⟨.rule, rfl⟩

theorem moves_blocks : (blocks : List Block) →
    Moves save (mapSpansM (Span.relocate links save) blocks) (imageUrls links (spansOf blocks))
      (BlocksFit save links blocks)
  | [] => .pure ⟨.nil, rfl⟩
  | b :: bs => by
    rw [spansOf, imageUrls_append]
    refine (moves_block b).bind fun b' paths ⟨hb, hpaths⟩ =>
      (moves_blocks bs).map fun bs' paths' ⟨hbs, hpaths'⟩ => ⟨.cons hb hbs, ?_⟩
    rw [spansOf, imageUrls_append, hpaths, hpaths']

theorem moves_cells : (cells : List (List Block)) →
    Moves save (mapSpansInCellsM (Span.relocate links save) cells)
      (imageUrls links (spansInCells cells)) (CellsFit save links cells)
  | [] => .pure ⟨.nil, rfl⟩
  | c :: cs => by
    rw [spansInCells, imageUrls_append]
    refine (moves_blocks c).bind fun c' paths ⟨hc, hpaths⟩ =>
      (moves_cells cs).map fun cs' paths' ⟨hcs, hpaths'⟩ => ⟨.cons hc hcs, ?_⟩
    rw [spansInCells, imageUrls_append, hpaths, hpaths']

theorem moves_rows : (rows : List (List (List Block))) →
    Moves save (mapSpansInRowsM (Span.relocate links save) rows)
      (imageUrls links (spansInRows rows)) (RowsFit save links rows)
  | [] => .pure ⟨.nil, rfl⟩
  | r :: rs => by
    rw [spansInRows, imageUrls_append]
    refine (moves_cells r).bind fun r' paths ⟨hr, hpaths⟩ =>
      (moves_rows rs).map fun rs' paths' ⟨hrs, hpaths'⟩ => ⟨.cons hr hrs, ?_⟩
    rw [spansInRows, imageUrls_append, hpaths, hpaths']

end

/-- Pointing a document at copies saves its images in the order of the text, moves them to where
they are saved, and changes nothing else. -/
theorem moves_relocateImages (blocks : List Block) :
    Moves save (relocateImages links save blocks) (imageUrls links (spansOf blocks))
      (BlocksFit save links blocks) :=
  moves_blocks links blocks

end

/-! ### Savers that succeed -/

theorem visits_gives (save : Saver ε σ) :
    Visits save fun x urls => (∀ url ∈ urls, ∀ s, ∃ path s', Gives (save url) s path s') →
      ∀ s, ∃ a s', Gives x s a s' where
  pure a _ s := ⟨a, s, gives_pure.2 ⟨rfl, rfl⟩⟩
  bind := by
    intro α β x f urls urls' hx hf hsave s
    obtain ⟨a, t, ha⟩ := hx (fun url hurl => hsave url (List.mem_append_left _ hurl)) s
    obtain ⟨b, s', hb⟩ := hf a (fun url hurl => hsave url (List.mem_append_right _ hurl)) t
    exact ⟨b, s', gives_bind.2 ⟨a, t, ha, hb⟩⟩
  save url hsave := hsave url List.mem_cons_self

/-- A saver that leaves no image remote, and no other image anywhere else. -/
structure Localizes (save : Saver ε σ) : Prop where
  not_isRemote : ∀ ⦃url path s s'⦄, Gives (save url) s path s' → isRemote path = false
  stays : ∀ ⦃url⦄, isRemote url = false → ∀ s, ∃ s', Gives (save url) s url s'

theorem Localizes.stay (h : Localizes save) : Stay (Answers save) (Answers save) := by
  rintro url path path' ⟨_, _, hpath⟩ ⟨s, _, hpath'⟩
  obtain ⟨_, hstays⟩ := h.stays (h.not_isRemote hpath) s
  exact hstays.unique hpath'

theorem Localizes.forall_not_isRemote (h : Localizes save) {urls paths : List String}
    (hpaths : List.Forall₂ (Answers save) urls paths) : ∀ path ∈ paths, isRemote path = false := by
  induction hpaths with
  | nil => exact fun _ hmem => absurd hmem List.not_mem_nil
  | cons hpath _ ih =>
    obtain ⟨_, _, hgives⟩ := hpath
    exact List.forall_mem_cons.2 ⟨h.not_isRemote hgives, ih⟩

/-- A document that has been pointed at local copies is pointed at them again, in any state. -/
theorem Localizes.gives_relocateImages (h : Localizes save) {links : LinkTable}
    {blocks blocks' : List Block}
    (hmoved : List.Forall₂ (Block.Relocated links (Answers save)) blocks blocks')
    (hlocal : ∀ path ∈ imageUrls links (spansOf blocks'), isRemote path = false) (t : σ) :
    ∃ t', Gives (relocateImages links save blocks') t blocks' t' := by
  have hsave : ∀ path ∈ imageUrls links (spansOf blocks'), ∀ t, ∃ path' t',
      Gives (save path) t path' t' :=
    fun path hpath t => ⟨path, h.stays (hlocal path hpath) t⟩
  obtain ⟨blocks'', t', hgives⟩ := (visits_gives save).relocateImages links blocks' hsave t
  obtain ⟨_, -, hmoved', -⟩ := moves_relocateImages links blocks' hgives
  rw [eq_of_relocated_twice h.stay blocks hmoved hmoved'] at hgives
  exact ⟨t', hgives⟩

end

end Saver

open Saver in
/-- A document is pointed at the copies of its images if they can be saved. Each image is then where
it was saved, in the order of the text, an image by label being one by address with the title of the
definition, and nothing else has changed: not the title of the document nor the text of any line,
nor the page if no image has moved. If the copies are local, then no image is left to be fetched,
and pointing the document at its copies once more leaves it as it is. -/
theorem relocateImages_moves_images_only {ε σ : Type} (save : Saver ε σ) (links : LinkTable)
    (blocks : List Block) :
    ((∀ url ∈ imageUrls links (spansOf blocks), ∀ s, ∃ path s', Gives (save url) s path s') →
      ∀ s, ∃ blocks' s', Gives (relocateImages links save blocks) s blocks' s') ∧
    ∀ s blocks' s', Gives (relocateImages links save blocks) s blocks' s' →
      List.Forall₂ (Block.Relocated links (Answers save)) blocks blocks' ∧
      Gives ((imageUrls links (spansOf blocks)).mapM save) s (imageUrls links (spansOf blocks'))
        s' ∧
      title? blocks' = title? blocks ∧
      (bodiesIn blocks').map plainText = (bodiesIn blocks).map plainText ∧
      (StaysPut (Answers save) → ∀ format : OutputFormat,
        format.writeBody links blocks' = format.writeBody links blocks) ∧
      (Localizes save → remoteImages links blocks' = [] ∧
        ∀ t, ∃ t', Gives (relocateImages links save blocks') t blocks' t') := by
  refine ⟨(visits_gives save).relocateImages links blocks, fun s blocks' s' hgives => ?_⟩
  obtain ⟨paths, hpaths, hmoved, rfl⟩ := moves_relocateImages links blocks hgives
  refine ⟨hmoved, hpaths, title?_relocated blocks hmoved, plainText_bodiesIn_relocated hmoved,
    fun hput format => writeBody_relocated hput hmoved format, fun hlocalizes => ?_⟩
  have hlocal := hlocalizes.forall_not_isRemote (forall₂_answers save hpaths)
  refine ⟨?_, hlocalizes.gives_relocateImages hmoved hlocal⟩
  rw [List.eq_nil_iff_forall_not_mem]
  intro path hmem
  obtain ⟨hpath, hremote⟩ := mem_remoteImages.1 hmem
  rw [hlocal path hpath] at hremote
  cases hremote

open Saver in
/-- A quote with an image in a link, an image by label and a local image. -/
theorem relocateImages_quote :
    let save : Saver String Unit := fun url => pure (if isRemote url then "copy.png" else url)
    let links : LinkTable := LinkTable.empty.insert "b" ⟨"https://b", some "B"⟩
    let blocks : List Block := [.quote [.paragraph [.link [.image "a" "http://a" none] "/c" none,
      .imageReference "b" "![b]" "b", .image "d" "d.png" none]]]
    let blocks' : List Block := [.quote [.paragraph [.link [.image "a" "copy.png" none] "/c" none,
      .image "b" "copy.png" (some "B"), .image "d" "d.png" none]]]
    Gives (relocateImages links save blocks) () blocks' () ∧ title? blocks' = title? blocks ∧
      Localizes save ∧ remoteImages links blocks' = [] := by
  intro save links blocks blocks'
  have hgives : Gives (relocateImages links save blocks) () blocks' () := by rfl
  have hlocalizes : Localizes save := by
    constructor
    · intro url path s s' h
      obtain ⟨rfl, -⟩ := gives_pure.1 h
      cases hremote : isRemote url with
      | false => exact hremote
      | true => exact (by decide : isRemote "copy.png" = false)
    · intro url hremote s
      exact ⟨s, gives_pure.2 ⟨by rw [hremote]; rfl, rfl⟩⟩
  obtain ⟨-, -, htitle, -, -, htwice⟩ :=
    (relocateImages_moves_images_only save links blocks).2 () blocks' () hgives
  exact ⟨hgives, htitle, hlocalizes, (htwice hlocalizes).1⟩

end LiterateJournal
