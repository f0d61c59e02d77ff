import LiterateJournal.Proofs.Document.Visits
import LiterateJournal.Proofs.Images.Lifetime
import LiterateJournal.Proofs.Images.Relocation

/-!
# Local images

Whether an image is fetched is told by the first characters of its address: those that start with
`http` are, whatever they are, and all others are taken for files beside the pages. A document of
local images is left as it is, and makes no request; a document that is pointed at copies has a copy
for every other image.

## Main definitions

* `Saver.ofFunction` — a saver without a state.
* `Url.IsWeb` — a URL with a scheme of the web.
* `Located` — where the image at an address is after some calls of a store.

## Main statements

* `relocated_of_relocateImages` — images move to where a function says.
* `local_images_stay` — what becomes of local images and of the others.
-/

namespace LiterateJournal

/-! ### Savers without a state -/

namespace Saver

variable {ε α : Type} {f : String → Except ε String}

def ofFunction (f : String → Except ε String) : Saver ε Unit := fun url => ExceptT.mk (pure (f url))

@[simp] theorem gives_ofFunction {url path : String} {s s' : Unit} :
    Gives (ofFunction f url) s path s' ↔ f url = .ok path := by
  constructor
  · intro h
    have hresult := congrArg Prod.fst (h : (f url, s) = (.ok path, s'))
    exact hresult
  · intro h
    exact congrArg (·, s) h

theorem answers_ofFunction : Answers (ofFunction f) = fun url path => f url = .ok path := by
  funext url path
  simp [Answers]

/-- What a span becomes with a function, it becomes with its saver. -/
theorem gives_relocate {links : LinkTable} {s s' : Span}
    (h : s.relocate links f = .ok s') : Gives (s.relocate links (ofFunction f)) () s' () := by
  have hsave {g : String → Span} {url : String} (h : (do pure (g (← f url))) = Except.ok s') :
      Gives (do pure (g (← ofFunction f url))) () s' () := by
    cases hf : f url with
    | error e =>
      rw [hf] at h
      cases h
    | ok path =>
      rw [hf] at h
      cases h
      exact gives_bind.2 ⟨path, (), gives_ofFunction.2 hf, gives_pure.2 ⟨rfl, rfl⟩⟩
  cases s with
  | image alt url title => exact hsave h
  | imageReference alt written key =>
    rw [Span.relocate] at h ⊢
    cases hkey : links.get? key with
    | none =>
      rw [hkey] at h
      cases h
      exact gives_pure.2 ⟨rfl, rfl⟩
    | some target =>
      rw [hkey] at h
      exact hsave h
  | _ =>
    cases h
    exact gives_pure.2 ⟨rfl, rfl⟩

/-- A dialogue ends with a function as it does with its saver. -/
theorem gives_answeredBy {links : LinkTable} (x : Dialogue α) {a : α}
    (h : x.answeredBy (Span.relocate links f) = .ok a) :
    Gives (x.answeredBy (Span.relocate links (ofFunction f))) () a () := by
  induction x with
  | done b =>
    cases h
    exact gives_pure.2 ⟨rfl, rfl⟩
  | ask s next ih =>
    rw [Dialogue.answeredBy] at h ⊢
    cases hs : s.relocate links f with
    | error e =>
      rw [hs] at h
      cases h
    | ok s' =>
      rw [hs] at h
      exact gives_bind.2 ⟨s', (), gives_relocate hs, ih s' h⟩

end Saver

open Saver in
/-- Each image moves to where a function says, and nothing else changes. -/
theorem relocated_of_relocateImages {ε : Type} {f : String → Except ε String} {links : LinkTable}
    {blocks blocks' : List Block} (h : relocateImages links f blocks = .ok blocks') :
    List.Forall₂ (Block.Relocated links fun url path => f url = .ok path) blocks blocks' ∧
      List.Forall₂ (fun url path => f url = .ok path) (imageUrls links (spansOf blocks))
        (imageUrls links (spansOf blocks')) := by
  have hdialogue : (mapSpansM Dialogue.handOver blocks).answeredBy (Span.relocate links f) =
      .ok blocks' := by rw [answeredBy_mapSpansM]; exact h
  have hgives := gives_answeredBy _ hdialogue
  rw [answeredBy_mapSpansM] at hgives
  obtain ⟨paths, hpaths, hmoved, rfl⟩ := moves_relocateImages links blocks hgives
  rw [← answers_ofFunction]
  exact ⟨hmoved, forall₂_answers _ hpaths⟩

/-! ### Calls of a store -/

def Url.IsWeb (url : Url) : Prop := url.scheme = "http".toList ∨ url.scheme = "https".toList

/-- The URLs of the web that are written with the scheme in its normal form are remote. -/
theorem isRemote_of_isWeb {text : String} {url : Url} (h : url.IsWeb)
    (hwritten : url.scheme <+: text.toList) : isRemote text = true := by
  have hstart : "http".toList <+: url.scheme := by
    obtain h | h := h
    · exact h ▸ List.prefix_refl _
    · rw [h]
      decide
  exact List.isPrefixOf_iff_prefix.2 (hstart.trans hwritten)

/-- Where the image at an address is after some calls of a store: a local one is where it was, and
any other one is a file that holds what one of the calls was served for its address. -/
def Located (output : String) (calls : List Localization) (s : ImageStore) (w : World)
    (url path : String) : Prop :=
  (isRemote url = false → path = url) ∧
    (isRemote url = true → (url, path) ∈ s.saved ∧
      ∃ c ∈ calls, Holds output w (c.web url) (url, path))

/-- A store gives the addresses of local images as they are. -/
theorem ImageStore.eq_of_forall₂_lookup (s : ImageStore) {urls paths : List String}
    (hlocal : ∀ url ∈ urls, isRemote url = false)
    (h : List.Forall₂ (fun url path => s.lookup url = .ok path) urls paths) : paths = urls := by
  induction h with
  | nil => rfl
  | cons hpath _ ih =>
    obtain ⟨hfirst, hrest⟩ := List.forall_mem_cons.1 hlocal
    rw [lookup, hfirst] at hpath
    cases hpath
    rw [ih hrest]

namespace Localization

variable {c : Localization} {s s' : ImageStore} {w w' : World}

/-- A call without remote images only points the document at where its images are. -/
theorem returns_localize_of_local
    (h : ∀ url ∈ imageUrls c.links (spansOf c.blocks), isRemote url = false) :
    ∃ blocks', StoreRun.Returns c.localize s w blocks' s w ∧
      relocateImages c.links s.lookup c.blocks = .ok blocks' := by
  have hnone : c.addresses = [] := by
    rw [List.eq_nil_iff_forall_not_mem]
    intro url hurl
    obtain ⟨hurl, hremote⟩ := mem_remoteImages.1 hurl
    rw [h url hurl] at hremote
    cases hremote
  obtain ⟨blocks', hblocks⟩ : ∃ blocks', relocateImages c.links s.lookup c.blocks = .ok blocks' :=
    ImageStore.exists_relocateImages_lookup_eq fun url hurl => by
      rw [show remoteImages c.links c.blocks = [] from hnone] at hurl
      cases hurl
  refine ⟨blocks', ?_, hblocks⟩
  have hrelocate : StoreRun.Returns c.relocate s w blocks' s w := by
    refine StoreRun.returns_bind.2 ⟨s, s, w, StoreRun.returns_get.2 ⟨rfl, rfl, rfl⟩, ?_⟩
    rw [hblocks]
    exact StoreRun.returns_pure.2 ⟨rfl, rfl, rfl⟩
  rw [localize, hnone]
  exact hrelocate

/-- A call that returns has pointed the document at where the images are then. -/
theorem relocateImages_of_returns {blocks' : List Block}
    (h : StoreRun.Returns c.localize s w blocks' s' w') :
    relocateImages c.links s'.lookup c.blocks = .ok blocks' := by
  have hrelocate : ∃ t v, StoreRun.Returns c.relocate t v blocks' s' w' := by
    unfold localize at h
    split at h
    · obtain ⟨_, _, _, -, h⟩ := StoreRun.returns_bind.1 h
      obtain ⟨_, _, _, -, h⟩ := StoreRun.returns_bind.1 h
      obtain ⟨_, t, v, -, h⟩ := StoreRun.returns_bind.1 h
      exact ⟨t, v, h⟩
    · exact ⟨s, w, h⟩
  obtain ⟨t, v, hrelocate⟩ := hrelocate
  obtain ⟨rfl, rfl⟩ := eq_of_returns_relocate hrelocate
  obtain ⟨_, _, _, ⟨rfl, rfl, rfl⟩, hlast⟩ := StoreRun.returns_bind.1 hrelocate
  split at hlast
  · rename_i blocks hblocks
    obtain ⟨rfl, -⟩ := StoreRun.returns_pure.1 hlast
    exact hblocks
  · exact (StoreRun.returns_throw.1 hlast).elim

end Localization

/-- The address that a store gives for an image is where the image is. -/
theorem located_storeAfter (output : String) (start : World) (calls : List Localization) :
    Located output calls (storeAfter output start calls).1 (storeAfter output start calls).2 =
      fun url path => (storeAfter output start calls).1.lookup url = .ok path := by
  have hnumbered := numbered_storeAfter output start calls
  have hholds {e : String × String} := exists_call_of_mem_storeAfter output start calls (e := e)
  generalize storeAfter output start calls = p at hnumbered hholds
  funext url path
  rw [Located, ImageStore.lookup]
  cases hremote : isRemote url with
  | false => simp [eq_comm]
  | true =>
    refine propext ⟨fun h => ?_, fun h => ⟨by simp, fun _ => ?_⟩⟩
    · obtain ⟨hmem, -⟩ := h.2 rfl
      rw [hnumbered.lookup_eq hmem]
      rfl
    · cases hlookup : p.1.saved.lookup url with
      | none =>
        rw [hlookup] at h
        cases h
      | some path' =>
        rw [hlookup] at h
        cases h
        have hmem : (url, path) ∈ p.1.saved := by
          obtain ⟨before, after, hsaved, -⟩ := List.lookup_eq_some_iff.1 hlookup
          simp [hsaved]
        obtain ⟨before, c, after, rfl, -, -, hc⟩ := hholds hmem
        exact ⟨hmem, c, by simp, hc⟩

/-- What becomes of local images and of the others, whatever calls of the store there were before.
If no address of an image starts with `http`, then the call returns, makes no request and leaves
all files and the store as they are, and all images stay where they were. Whenever a call returns,
each image whose address starts with `http` is at a file that holds what was served for its address,
and the others are where they were. Among the former are the images at URLs of the web that are
written with the scheme in its normal form. While the network stays, a call is
`ImageStore.localize`. -/
theorem local_images_stay (output : String) (start : World) (calls : List Localization)
    (c : Localization) :
    let p := storeAfter output start calls
    ((∀ url ∈ imageUrls c.links (spansOf c.blocks), isRemote url = false) →
      ∃ blocks', StoreRun.Returns c.localize p.1 p.2 blocks' p.1 p.2 ∧
        imageUrls c.links (spansOf blocks') = imageUrls c.links (spansOf c.blocks)) ∧
    (∀ (blocks' : List Block) (s : ImageStore) (w : World),
      StoreRun.Returns c.localize p.1 p.2 blocks' s w →
        List.Forall₂ (Block.Relocated c.links (Located output (calls ++ [c]) s w)) c.blocks
          blocks' ∧
        List.Forall₂ (Located output (calls ++ [c]) s w) (imageUrls c.links (spansOf c.blocks))
          (imageUrls c.links (spansOf blocks'))) ∧
    (∀ (text : String) (url : Url), Url.parse text = .ok url → url.IsWeb →
      url.scheme <+: text.toList → isRemote text = true) ∧
    ((∀ address, c.web address = p.2.web) → StoreRun.result c.localize p.1 p.2 =
      StoreRun.result (ImageStore.localize c.document c.links c.blocks) p.1 p.2) := by
  intro p
  refine ⟨fun hlocal => ?_, fun blocks' s w h => ?_, fun text url _ => isRemote_of_isWeb,
    Localization.result_localize⟩
  · obtain ⟨blocks', hreturns, hblocks⟩ :=
      Localization.returns_localize_of_local (s := p.1) (w := p.2) hlocal
    refine ⟨blocks', hreturns, ?_⟩
    exact p.1.eq_of_forall₂_lookup hlocal (relocated_of_relocateImages hblocks).2
  · have hafter : storeAfter output start (calls ++ [c]) = (s, w) := by
      rw [storeAfter_concat]
      exact Localization.run_of_returns h
    have hlocated := located_storeAfter output start (calls ++ [c])
    rw [hafter] at hlocated
    rw [hlocated]
    exact relocated_of_relocateImages (Localization.relocateImages_of_returns h)

def mixedCall : Localization where
  document := "a.md"
  links := LinkTable.empty.insert "x" ⟨"http://h/x.png", none⟩
  blocks := [.paragraph [.image "" "plot.png" none, .imageReference "" "![x]" "x"]]
  web := fun _ _ => .reply 200 (.text "X")

/-- A call with local images only, one of which has the scheme of a URL in its name. -/
def localCall : Localization where
  document := "b.md"
  links := ∅
  blocks := [.quote [.paragraph [.image "" "figures/http.png" none, .image "" "plot.png" none]]]
  web := fun _ _ => .dropped

theorem local_images_stay_emptyShelf :
    let p := storeAfter "out" emptyShelf [mixedCall]
    (∃ blocks' s w, StoreRun.Returns mixedCall.localize (ImageStore.new "out") emptyShelf blocks' s
        w ∧
      List.Forall₂ (Located "out" [mixedCall] s w) ["plot.png", "http://h/x.png"]
        (imageUrls mixedCall.links (spansOf blocks'))) ∧
    ∃ blocks', StoreRun.Returns localCall.localize p.1 p.2 blocks' p.1 p.2 ∧
      imageUrls ∅ (spansOf blocks') = ["figures/http.png", "plot.png"] := by
  intro p
  constructor
  · obtain ⟨blocks', h⟩ | ⟨e, h⟩ :=
      StoreRun.returns_or_fails mixedCall.localize (ImageStore.new "out") emptyShelf
    · have hlocated := ((local_images_stay "out" emptyShelf [] mixedCall).2.1 _ _ _ h).2
      have hurls : imageUrls mixedCall.links (spansOf mixedCall.blocks) =
          ["plot.png", "http://h/x.png"] := by decide +kernel
      rw [hurls] at hlocated
      exact ⟨blocks', _, _, h, hlocated⟩
    · -- it does not fail
      have hok : (StoreRun.result mixedCall.localize (ImageStore.new "out") emptyShelf).1.1.isOk =
          true := by decide +kernel
      rw [show StoreRun.result mixedCall.localize _ _ = ((.error e, _), _) from h] at hok
      cases hok
  · have hlocal : ∀ url ∈ imageUrls localCall.links (spansOf localCall.blocks),
        isRemote url = false := by decide +kernel
    obtain ⟨blocks', h, hurls⟩ :=
      (local_images_stay "out" emptyShelf [mixedCall] localCall).1 hlocal
    exact ⟨blocks', h, hurls.trans (by decide +kernel)⟩

def picture (address : String) : List Block := [.paragraph [.image "a" address none]]

/-- A file beside the pages is fetched for the start of its name, for which a directory is made
before the call fails; and an image of the web stays where it is, for the letter case of its
scheme. -/
theorem image_kinds_mistaken :
    ((Url.parse "http-figures/plot.png").toOption = none ∧
      (StoreRun.result (ImageStore.localize "a.md" ∅ (picture "http-figures/plot.png"))
        (ImageStore.new "out") emptyShelf).1.1.isOk = false ∧
      emptyShelf.files.exists? "out/savedimages" = false ∧
      (StoreRun.result (ImageStore.localize "a.md" ∅ (picture "http-figures/plot.png"))
        (ImageStore.new "out") emptyShelf).2.files.exists? "out/savedimages" = true) ∧
    (∃ url, Url.parse "HTTP://h/x.png" = .ok url ∧ url.IsWeb) ∧
      (StoreRun.result (ImageStore.localize "a.md" ∅ (picture "HTTP://h/x.png"))
        (ImageStore.new "out") emptyShelf).1.1.toOption.map (fun b => imageUrls ∅ (spansOf b)) =
          some ["HTTP://h/x.png"] := by
  refine ⟨by decide +kernel, ?_, by decide +kernel⟩
  obtain ⟨url, hurl, hscheme⟩ := Option.map_eq_some_iff.1 (show
    (Url.parse "HTTP://h/x.png").toOption.map Url.scheme = some "http".toList by decide +kernel)
  exact ⟨url, eq_ok_of_toOption hurl, .inl hscheme⟩

end LiterateJournal
