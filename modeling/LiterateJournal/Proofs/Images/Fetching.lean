import LiterateJournal.Proofs.Images.Store

/-!
# Which images are fetched

The images of a document are listed before they are fetched, and met again while the document is
pointed at their copies. The two visits meet the same images in the same order, so that no copy is
ever missing.

## Main definitions

* `Visits` — a property of steps that follows the addresses given to them.
* `addressesGiven` — the addresses met while a document is pointed at copies.
* `StoreRun.Fails` — a step with a store fails.

## Main statements

* `Visits.relocateImages` — the addresses are given in the order of the text.
* `remoteImages_are_addressesGiven` — what is listed is what is met, and no copy is missing.
-/

namespace LiterateJournal

/-! ### The order of a visit -/

def imageUrls (links : LinkTable) (spans : List Span) : List String :=
  spans.filterMap (Span.imageUrl? links)

theorem imageUrls_append (links : LinkTable) (spans spans' : List Span) :
    imageUrls links (spans ++ spans') = imageUrls links spans ++ imageUrls links spans' :=
  List.filterMap_append

/-- `P x urls` is kept when steps are put together, and holds of a saved address. It can be read as
`x` being given the addresses `urls` one after another. -/
structure Visits {m : Type → Type} [Monad m] (save : String → m String)
    (P : {α : Type} → m α → List String → Prop) : Prop where
  pure : ∀ {α : Type} (a : α), P (pure a) []
  bind : ∀ {α β : Type} {x : m α} {f : α → m β} {urls urls' : List String},
    P x urls → (∀ a, P (f a) urls') → P (x >>= f) (urls ++ urls')
  save : ∀ url, P (save url) [url]

namespace Visits

variable {m : Type → Type} [Monad m] {save : String → m String}
  {P : {α : Type} → m α → List String → Prop} (h : Visits save P) (links : LinkTable)
include h

theorem bind_pure {α β : Type} {x : m α} {urls : List String} (hx : P x urls) (f : α → β) :
    P (do Pure.pure (f (← x))) urls := by
  simpa using h.bind hx fun a => h.pure (f a)

/-- An image gives its address, and another span gives none. -/
theorem relocate (s : Span) : P (s.relocate links save) (imageUrls links [s]) := by
  cases s with
  | image alt url title => exact h.bind_pure (h.save url) _
  | imageReference alt written key =>
    simp only [imageUrls, Span.relocate, Span.imageUrl?, List.filterMap_cons]
    cases links.get? key with
    | some target => exact h.bind_pure (h.save target.url) _
    | none => exact h.pure _
  | _ => exact h.pure _

mutual

/-- The addresses inside a span are given before its own. -/
theorem transformM : (s : Span) →
    P (s.transformM (Span.relocate links save)) (imageUrls links s.withInner)
  | .strong body | .emphasis body | .link body _ _ | .linkReference body _ _ => by
    rw [Span.withInner, imageUrls_append]
    exact h.bind (transformSpansM body) fun _ => h.relocate links _
  | .image alt url title => h.relocate links (.image alt url title)
  | .imageReference alt written key => h.relocate links (.imageReference alt written key)
  | .text _ | .code _ | .math _ _ | .raw _ | .lineBreak => h.pure _

theorem transformSpansM : (spans : List Span) →
    P (LiterateJournal.transformSpansM (Span.relocate links save) spans)
      (imageUrls links (innerSpans spans))
  | [] => h.pure []
  | s :: rest => by
    rw [innerSpans, imageUrls_append]
    exact h.bind (transformM s) fun _ => h.bind_pure (transformSpansM rest) _

end

mutual

theorem blockMapSpansM : (b : Block) →
    P (b.mapSpansM (Span.relocate links save)) (imageUrls links b.spans)
  | .heading _ body | .paragraph body => h.bind_pure (h.transformSpansM links body) _
  | .list _ items => h.bind_pure (mapSpansInCellsM items) _
  | .quote body => h.bind_pure (mapSpansM body) _
  | .table _ header rows => by
    rw [Block.spans, imageUrls_append]
    exact h.bind (mapSpansInCellsM header) fun _ => h.bind_pure (mapSpansInRowsM rows) _
  | .code .. | .raw .. | .math .. | .rule => h.pure _

theorem mapSpansM : (blocks : List Block) →
    P (LiterateJournal.mapSpansM (Span.relocate links save) blocks)
      (imageUrls links (spansOf blocks))
  | [] => h.pure []
  | b :: bs => by
    rw [spansOf, imageUrls_append]
    exact h.bind (blockMapSpansM b) fun _ => h.bind_pure (mapSpansM bs) _

theorem mapSpansInCellsM : (cells : List (List Block)) →
    P (LiterateJournal.mapSpansInCellsM (Span.relocate links save) cells)
      (imageUrls links (spansInCells cells))
  | [] => h.pure []
  | c :: cs => by
    rw [spansInCells, imageUrls_append]
    exact h.bind (mapSpansM c) fun _ => h.bind_pure (mapSpansInCellsM cs) _

theorem mapSpansInRowsM : (rows : List (List (List Block))) →
    P (LiterateJournal.mapSpansInRowsM (Span.relocate links save) rows)
      (imageUrls links (spansInRows rows))
  | [] => h.pure []
  | r :: rs => by
    rw [spansInRows, imageUrls_append]
    exact h.bind (mapSpansInCellsM r) fun _ => h.bind_pure (mapSpansInRowsM rs) _

end

/-- Pointing a document at copies gives the addresses of its images in the order of the text. -/
theorem relocateImages (blocks : List Block) :
    P (LiterateJournal.relocateImages links save blocks) (imageUrls links (spansOf blocks)) :=
  h.mapSpansM links blocks

end Visits

/-! ### The addresses given -/

section AddressesGiven

variable {σ : Type}

/-- A way to save an image that also notes the address it is given. -/
def noting (save : String → StateM σ String) (url : String) :
    StateT (List String) (StateM σ) String := do
  modify (· ++ [url])
  save url

/-- The addresses that are given to `save`, one after another, while a document is pointed at
copies. -/
def addressesGiven (save : String → StateM σ String) (start : σ) (links : LinkTable)
    (blocks : List Block) : List String :=
  (Id.run (((relocateImages links (noting save) blocks).run []).run start)).1.2

theorem visits_noting (save : String → StateM σ String) :
    Visits (noting save) fun x urls => ∀ noted state,
      (Id.run ((x.run noted).run state)).1.2 = noted ++ urls where
  pure a noted state := by simp
  bind := by
    intro α β x f urls urls' hx hf noted state
    rw [StateT.run_bind, StateT.run_bind, Id.run_bind, hf, hx, List.append_assoc]
  save url noted state := by simp [noting]

theorem addressesGiven_eq (save : String → StateM σ String) (start : σ) (links : LinkTable)
    (blocks : List Block) :
    addressesGiven save start links blocks = imageUrls links (spansOf blocks) :=
  (visits_noting save).relocateImages links blocks [] start

end AddressesGiven

theorem firstOccurrences_eq (seen urls : List String) :
    firstOccurrences seen urls = (urls.filter fun url => !seen.contains url).eraseDups := by
  induction urls generalizing seen with
  | nil => rfl
  | cons url urls ih =>
    rw [firstOccurrences]
    cases hurl : seen.contains url with
    | true => rw [if_pos rfl, ih, List.filter_cons_of_neg (by rw [hurl]; simp)]
    | false =>
      rw [if_neg Bool.false_ne_true, ih, List.filter_cons_of_pos (by rw [hurl]; rfl),
        List.eraseDups_cons, List.filter_filter]
      congr 3
      funext other
      rw [List.contains_cons, Bool.not_or]

theorem remoteImages_eq (links : LinkTable) (blocks : List Block) :
    remoteImages links blocks =
      ((imageUrls links (spansOf blocks)).filter isRemote).eraseDups := by
  rw [remoteImages, firstOccurrences_eq, imageUrls]
  simp

theorem mem_remoteImages {links : LinkTable} {blocks : List Block} {url : String} :
    url ∈ remoteImages links blocks ↔
      url ∈ imageUrls links (spansOf blocks) ∧ isRemote url = true := by
  rw [remoteImages_eq, List.mem_eraseDups, List.mem_filter]

/-! ### Pointing a document at copies -/

theorem visits_except {ε : Type} (save : String → Except ε String) :
    Visits save fun x urls => (∀ url ∈ urls, ∃ path, save url = .ok path) → ∃ a, x = .ok a where
  pure a _ := ⟨a, rfl⟩
  bind := by
    intro α β x f urls urls' hx hf hsave
    obtain ⟨a, rfl⟩ := hx fun url hurl => hsave url (List.mem_append_left _ hurl)
    exact hf a fun url hurl => hsave url (List.mem_append_right _ hurl)
  save url hsave := hsave url List.mem_cons_self

/-- A document can be pointed at copies of its images, if there are copies of all of them. -/
theorem exists_relocateImages_eq {ε : Type} {save : String → Except ε String} {links : LinkTable}
    {blocks : List Block}
    (h : ∀ url ∈ imageUrls links (spansOf blocks), ∃ path, save url = .ok path) :
    ∃ blocks', relocateImages links save blocks = .ok blocks' :=
  (visits_except save).relocateImages links blocks h

/-! ### Steps with a store that fail -/

namespace StoreRun

variable {α β : Type}

/-- A step with a store fails with `e` from `s` and `w`, and leaves `s'` and `w'`. -/
def Fails (x : StoreRun α) (s : ImageStore) (w : World) (e : BuildError) (s' : ImageStore)
    (w' : World) : Prop :=
  Id.run ((x.run.run s).run w) = ((.error e, s'), w')

@[simp] theorem fails_pure {s s' : ImageStore} {w w' : World} {a : α} {e : BuildError} :
    Fails (pure a : StoreRun α) s w e s' w' ↔ False := by
  simp only [iff_false]
  intro h
  cases h

@[simp] theorem fails_bind {x : StoreRun α} {f : α → StoreRun β} {s s' : ImageStore}
    {w w' : World} {e : BuildError} :
    Fails (x >>= f) s w e s' w' ↔
      Fails x s w e s' w' ∨ ∃ a t v, Returns x s w a t v ∧ Fails (f a) t v e s' w' := by
  unfold Fails Returns
  rw [ExceptT.run_bind, StateT.run_bind, StateT.run_bind]
  generalize (x.run.run s).run w = out
  obtain ⟨⟨result, t⟩, v⟩ := out
  constructor
  · intro h
    cases result with
    | ok a => exact .inr ⟨a, t, v, rfl, h⟩
    | error d =>
      cases h
      exact .inl rfl
  · rintro (hout | ⟨a, t', v', hout, h⟩)
    · cases hout
      rfl
    · cases hout
      exact h

@[simp] theorem fails_throw {s s' : ImageStore} {w w' : World} {d e : BuildError} :
    Fails (throw d : StoreRun α) s w e s' w' ↔ e = d ∧ s' = s ∧ w' = w := by
  constructor
  · intro h
    cases h
    exact ⟨rfl, rfl, rfl⟩
  · rintro ⟨rfl, rfl, rfl⟩
    rfl

theorem fails_get {s s' : ImageStore} {w w' : World} {e : BuildError} :
    Fails (getThe ImageStore) s w e s' w' ↔ False := by
  simp only [iff_false]
  intro h
  cases h

@[simp] theorem fails_set {s s' t : ImageStore} {w w' : World} {e : BuildError} :
    Fails (set t) s w e s' w' ↔ False := by
  simp only [iff_false]
  intro h
  cases h

@[simp] theorem fails_lift {x : Run α} {s s' : ImageStore} {w w' : World} {e : BuildError} :
    Fails (ImageStore.lift x) s w e s' w' ↔ s' = s ∧ Run.Fails x w e w' := by
  unfold Fails Run.Fails Run.result ImageStore.lift
  change Id.run (StateT.run (do let result ← x.run; pure (result, s)) w) = _ ↔ _
  rw [StateT.run_bind]
  generalize x.run.run w = out
  obtain ⟨result, v⟩ := out
  constructor
  · intro h
    cases h
    exact ⟨rfl, rfl⟩
  · rintro ⟨rfl, h⟩
    cases h
    rfl

end StoreRun

namespace ImageStore

/-! ### No copy is missing -/

/-- Images that have a copy keep it while another one is fetched, which then has one too. -/
theorem isSome_lookup_of_returns_fetch {s s' : ImageStore} {w w' : World}
    {document address : String} {u : Unit}
    (h : StoreRun.Returns (fetch document address) s w u s' w') :
    (s'.saved.lookup address).isSome ∧
      ∀ url, (s.saved.lookup url).isSome → (s'.saved.lookup url).isSome := by
  unfold fetch at h
  simp only [StoreRun.returns_bind, StoreRun.returns_get, and_assoc, exists_eq_left,
    exists_and_left] at h
  split at h
  · rename_i hsome
    obtain ⟨-, rfl, -⟩ := StoreRun.returns_pure.1 h
    exact ⟨hsome, fun _ => id⟩
  · cases hparse : Url.parse address with
    | error e => simp [hparse] at h
    | ok url =>
      simp only [hparse, StoreRun.returns_bind, StoreRun.returns_set, StoreRun.returns_lift] at h
      obtain ⟨-, -, -, ⟨rfl, rfl⟩, -, -, v, -, rfl, rfl⟩ := h
      refine ⟨by simp, fun other hother => ?_⟩
      rw [List.lookup_cons]
      split
      · rfl
      · exact hother

theorem isSome_lookup_of_returns_fetchAll {s s' : ImageStore} {w w' : World} {document : String}
    {urls : List String} {u : Unit}
    (h : StoreRun.Returns (fetchAll document urls) s w u s' w') :
    (∀ url ∈ urls, (s'.saved.lookup url).isSome) ∧
      ∀ url, (s.saved.lookup url).isSome → (s'.saved.lookup url).isSome := by
  induction urls generalizing s w with
  | nil =>
    obtain ⟨-, rfl, -⟩ := StoreRun.returns_pure.1 h
    exact ⟨by simp, fun _ => id⟩
  | cons address urls ih =>
    obtain ⟨_, t, v, hfetch, hrest⟩ := StoreRun.returns_bind.1 h
    obtain ⟨hnew, hold⟩ := isSome_lookup_of_returns_fetch hfetch
    obtain ⟨hurls, hkept⟩ := ih hrest
    exact ⟨List.forall_mem_cons.2 ⟨hkept _ hnew, hurls⟩, fun url hurl => hkept _ (hold _ hurl)⟩

theorem not_internal_of_fails_download {w w' : World} {document address path : String} {url : Url}
    {e : BuildError} (h : Run.Fails (download document address url path) w e w')
    (message : String) : e ≠ .internal message := by
  unfold download at h
  dsimp only at h
  split at h
  · simp only [Run.fails_bind, Run.fails_throw, Run.returns_throw, false_and, exists_false,
      or_false] at h
    simp [h.1]
  · simp only [Run.fails_bind, Run.fails_request, Run.returns_request, false_or, and_assoc,
      exists_and_left, exists_eq_left] at h
    split at h
    · simp [(Run.fails_throw.1 h).1]
    · split at h
      · simp only [Run.fails_bind, Run.fails_throw, Run.returns_throw, false_and, exists_false,
          or_false] at h
        simp [h.1]
      · obtain ⟨c, -, rfl, -⟩ := Run.fails_change.1 h
        simp

theorem not_internal_of_fails_fetch {s s' : ImageStore} {w w' : World}
    {document address : String} {e : BuildError}
    (h : StoreRun.Fails (fetch document address) s w e s' w') (message : String) :
    e ≠ .internal message := by
  unfold fetch at h
  simp only [StoreRun.fails_bind, StoreRun.fails_get, StoreRun.returns_get, false_or, and_assoc,
    exists_eq_left, exists_and_left] at h
  split at h
  · exact (StoreRun.fails_pure.1 h).elim
  · cases hparse : Url.parse address with
    | error d =>
      simp only [hparse, StoreRun.fails_throw] at h
      simp [h.1]
    | ok url =>
      simp only [hparse, StoreRun.fails_bind, StoreRun.fails_set, StoreRun.returns_set,
        StoreRun.fails_lift, StoreRun.returns_lift, false_or, and_false, exists_false,
        or_false] at h
      obtain ⟨_, _, _, _, _, hdownload⟩ := h
      exact not_internal_of_fails_download hdownload message

theorem not_internal_of_fails_fetchAll {s s' : ImageStore} {w w' : World} {document : String}
    {urls : List String} {e : BuildError}
    (h : StoreRun.Fails (fetchAll document urls) s w e s' w') (message : String) :
    e ≠ .internal message := by
  induction urls generalizing s w with
  | nil => exact (StoreRun.fails_pure.1 h).elim
  | cons address urls ih =>
    obtain hfetch | ⟨_, _, _, -, hrest⟩ := StoreRun.fails_bind.1 h
    · exact not_internal_of_fails_fetch hfetch message
    · exact ih hrest

theorem exists_lookup_eq_ok {s : ImageStore} {url : String}
    (h : isRemote url = true → (s.saved.lookup url).isSome) : ∃ path, s.lookup url = .ok path := by
  rw [lookup]
  cases hremote : isRemote url with
  | false => exact ⟨url, rfl⟩
  | true =>
    obtain ⟨path, hpath⟩ := Option.isSome_iff_exists.1 (h hremote)
    exact ⟨path, by simp [hpath]⟩

/-- A document whose images have been fetched is pointed at their copies. -/
theorem exists_relocateImages_lookup_eq {s : ImageStore} {links : LinkTable} {blocks : List Block}
    (h : ∀ url ∈ remoteImages links blocks, (s.saved.lookup url).isSome) :
    ∃ blocks', relocateImages links s.lookup blocks = .ok blocks' :=
  exists_relocateImages_eq fun _ hurl =>
    exists_lookup_eq_ok fun hremote => h _ (mem_remoteImages.2 ⟨hurl, hremote⟩)

theorem not_internal_of_fails_localize {s s' : ImageStore} {w w' : World} {document : String}
    {links : LinkTable} {blocks : List Block} {e : BuildError}
    (h : StoreRun.Fails (localize document links blocks) s w e s' w') (message : String) :
    e ≠ .internal message := by
  unfold localize at h
  cases hurls : remoteImages links blocks with
  | nil =>
    simp only [hurls, List.isEmpty_nil, Bool.not_true, Bool.false_eq_true, if_false,
      StoreRun.fails_bind, StoreRun.fails_get, StoreRun.returns_get, false_or, and_assoc,
      exists_and_left, exists_eq_left] at h
    obtain ⟨blocks', hblocks⟩ : ∃ blocks', relocateImages links s.lookup blocks = .ok blocks' :=
      exists_relocateImages_lookup_eq (by simp [hurls])
    simp [hblocks] at h
  | cons url urls =>
    simp only [hurls, List.isEmpty_cons, Bool.not_false, if_true, StoreRun.fails_bind,
      StoreRun.fails_get, StoreRun.returns_get, StoreRun.fails_lift, false_or, and_assoc,
      exists_and_left, exists_eq_left] at h
    obtain ⟨-, hmake⟩ | ⟨_, _, _, _, hfetch | ⟨_, t, v, hfetched, hlast⟩⟩ := h
    · obtain ⟨c, -, rfl, -⟩ := Run.fails_makeDirectories.1 hmake
      simp
    · exact not_internal_of_fails_fetchAll hfetch message
    · have hsaved := (isSome_lookup_of_returns_fetchAll hfetched).1
      obtain ⟨blocks', hblocks⟩ : ∃ blocks', relocateImages links t.lookup blocks = .ok blocks' :=
        exists_relocateImages_lookup_eq (by simpa only [hurls] using hsaved)
      simp [hblocks] at hlast

end ImageStore

/-- The addresses that must be fetched are those met while a document is pointed at its copies, each
once and in the same order, so that localizing a document never misses a copy. -/
theorem remoteImages_are_addressesGiven (links : LinkTable) (blocks : List Block) :
    (∀ {σ : Type} (save : String → StateM σ String) (start : σ),
      ((addressesGiven save start links blocks).filter isRemote).eraseDups =
        remoteImages links blocks) ∧
    ∀ (document url : String) (s s' : ImageStore) (w w' : World),
      ¬ StoreRun.Fails (ImageStore.localize document links blocks) s w
        (.internal ("image '" ++ url ++ "' was not fetched")) s' w' := by
  constructor
  · intro σ save start
    rw [addressesGiven_eq, remoteImages_eq]
  · intro document url s s' w w' h
    exact ImageStore.not_internal_of_fails_localize h _ rfl

end LiterateJournal
