import LiterateJournal.Proofs.Images.Fetching

/-!
# Calls of an image store

A store serves one document after another, and the network may change before each request. What a
call does comes down to the images it fetches, up to the first one that fails; and what fetching an
image does is one of four things.

## Main definitions

* `Localization`, `Localization.localize` — a call, and what it runs.
* `FetchStep` — what fetching an image does to a store and the world around it.
* `Localization.Fetches` — some images are fetched one after another.

## Main statements

* `Localization.result_localize` — a network that stays makes it `ImageStore.localize`.
* `Localization.exists_fetches` — a call fetches its first images, whether it returns or fails.
-/

namespace LiterateJournal

def Run.connect (web : Url → WebReply) : Run Unit := modify fun w => { w with web }

@[simp] theorem Run.returns_connect {w w' : World} {web : Url → WebReply} {u : Unit} :
    Returns (connect web) w u w' ↔ w' = { w with web } := by
  constructor
  · intro h
    cases h
    rfl
  · rintro rfl
    rfl

@[simp] theorem Run.fails_connect {w w' : World} {web : Url → WebReply} {e : BuildError} :
    Fails (connect web) w e w' ↔ False := by
  simp only [iff_false]
  intro h
  cases h

/-- A call of an image store: a document, and what the network is while each of its images is
fetched. -/
structure Localization where
  document : String
  links : LinkTable
  blocks : List Block
  web : String → Url → WebReply

namespace Localization

def addresses (c : Localization) : List String := remoteImages c.links c.blocks

/-- Fetches images in order, each from the network as it then is. -/
def fetchAll (c : Localization) : List String → StoreRun Unit
  | [] => pure ()
  | address :: addresses => do
    ImageStore.lift (Run.connect (c.web address))
    ImageStore.fetch c.document address
    c.fetchAll addresses

def relocate (c : Localization) : StoreRun (List Block) := do
  let s ← getThe ImageStore
  match relocateImages c.links s.lookup c.blocks with
  | .ok blocks => pure blocks
  | .error e => throw e

/-- Fetches the images of the document and points it at their copies. -/
def localize (c : Localization) : StoreRun (List Block) := do
  if !c.addresses.isEmpty then
    let s ← getThe ImageStore
    ImageStore.lift (Run.makeDirectories (.directoryCreateFailed s.directory) s.directory)
    c.fetchAll c.addresses
  c.relocate

end Localization

/-! ### Fetching an image -/

/-- The request that is made for a URL, if it is one that can be requested. -/
def Url.request? (url : Url) : Option Url :=
  if (url.withoutUserInfo.scheme = "http".toList || url.withoutUserInfo.scheme = "https".toList) &&
    url.withoutUserInfo.hasHost then some url.request else none

def requestFor? (address : String) : Option Url :=
  match Url.parse address with
  | .ok url => url.request?
  | .error _ => none

theorem Url.request?_of_isSome_fetched? {web : Url → WebReply} {url : Url}
    (h : (fetched? web url).isSome = true) : url.request? = some url.request := by
  unfold fetched? at h
  unfold request?
  dsimp only at h
  split at h
  · rename_i hgood
    rw [if_pos hgood]
  · cases h

/-- What fetching the image at an address does to a store and the world around it. -/
inductive FetchStep (address : String) (s : ImageStore) (w : World) : ImageStore → World → Prop
  /-- There is a copy. -/
  | known (h : (s.saved.lookup address).isSome = true) : FetchStep address s w s w
  /-- The address is no URL. -/
  | malformed (h : s.saved.lookup address = none) (e : UrlError)
    (he : Url.parse address = .error e) :
    FetchStep address s w s w
  /-- The image cannot be had, or its copy not be written. -/
  | failed (h : s.saved.lookup address = none) (url : Url) (hurl : Url.parse address = .ok url) :
    FetchStep address s w { s with counter := s.counter + 1 }
      { w with requests := url.request?.toList ++ w.requests }
  /-- There is a copy from now on. -/
  | saved (h : s.saved.lookup address = none) (c : ImageCopy)
    (hc : imageCopy? s.counter address = some c) (l : Location)
    (hl : w.files.DirectoryAt s.directory l) (hsavable : c.Savable w s.directory l) :
    FetchStep address s w (s.add c) (w.saveCopy l c)

namespace ImageStore

/-- A download that returns has written a file in a directory that was there. -/
theorem directoryAt_of_returns_download {w w' : World} {document address directory name : String}
    {url : Url} {u : Unit} (hname : Path.Plain name)
    (h : Run.Returns (download document address url (Path.join directory name)) w u w') :
    ∃ l, w.files.DirectoryAt directory l := by
  unfold download at h
  dsimp only at h
  split at h
  · simp at h
  · simp only [Run.returns_bind, Run.returns_request, and_assoc, exists_and_left,
      exists_eq_left] at h
    split at h
    · exact (Run.returns_throw.1 h).elim
    · split at h
      · simp at h
      · obtain ⟨files, hwrite, -⟩ := Run.returns_change.1 h
        obtain ⟨l, hl, -⟩ := FileTree.write_eq_ok_iff.1 hwrite
        exact FileTree.directoryAt_of_resolve_join hname hl

/-- A download that fails has at most made its request. -/
theorem eq_of_fails_download {w w' : World} {document address path : String} {url : Url}
    {e : BuildError} (h : Run.Fails (download document address url path) w e w') :
    w' = { w with requests := url.request?.toList ++ w.requests } := by
  unfold download at h
  dsimp only at h
  split at h
  · rename_i hbad
    have hnone : url.request? = none := by
      rw [← Bool.not_and, Bool.not_eq_true'] at hbad
      exact if_neg (Bool.eq_false_iff.1 hbad)
    simp only [Run.fails_bind, Run.fails_throw, Run.returns_throw, false_and, exists_false,
      or_false] at h
    rw [h.2, hnone]
    rfl
  · rename_i hgood
    have hrequest : url.request? = some url.request := by
      rw [← Bool.not_and, Bool.not_eq_true', Bool.not_eq_false] at hgood
      exact if_pos hgood
    rw [hrequest]
    simp only [Run.fails_bind, Run.fails_request, Run.returns_request, false_or, and_assoc,
      exists_and_left, exists_eq_left] at h
    split at h
    · exact (Run.fails_throw.1 h).2
    · split at h
      · simp only [Run.fails_bind, Run.fails_throw, Run.returns_throw, false_and, exists_false,
          or_false] at h
        exact h.2
      · obtain ⟨-, -, -, hw⟩ := Run.fails_change.1 h
        exact hw

end ImageStore

theorem FetchStep.of_returns {s s' : ImageStore} {w w' : World} {document address : String}
    {u : Unit} (h : StoreRun.Returns (ImageStore.fetch document address) s w u s' w') :
    FetchStep address s w s' w' := by
  cases hlookup : s.saved.lookup address with
  | some path =>
    have hsome : (s.saved.lookup address).isSome = true := by rw [hlookup]; rfl
    simp only [ImageStore.fetch, StoreRun.returns_bind, StoreRun.returns_get, and_assoc,
      exists_eq_left, exists_and_left, hsome, if_true, StoreRun.returns_pure] at h
    obtain ⟨-, rfl, rfl⟩ := h
    exact .known hsome
  | none =>
    -- the directory is there, since a file has been written in it
    obtain ⟨l, hl⟩ : ∃ l, w.files.DirectoryAt s.directory l := by
      unfold ImageStore.fetch at h
      simp only [StoreRun.returns_bind, StoreRun.returns_get, and_assoc, exists_eq_left,
        exists_and_left, hlookup, Option.isSome_none, Bool.false_eq_true, if_false] at h
      cases hparse : Url.parse address with
      | error e => simp [hparse] at h
      | ok url =>
        simp only [hparse, StoreRun.returns_bind, StoreRun.returns_set,
          StoreRun.returns_lift] at h
        obtain ⟨_, _, _, ⟨rfl, rfl⟩, _, _, _, ⟨_, hdownload⟩, _⟩ := h
        exact ImageStore.directoryAt_of_returns_download (ImageStore.plain_copyName _ _) hdownload
    obtain ⟨c, hc, hsavable, rfl, rfl⟩ := (ImageStore.returns_fetch hlookup hl).1 h
    exact .saved hlookup c hc l hl hsavable

theorem FetchStep.of_fails {s s' : ImageStore} {w w' : World} {document address : String}
    {e : BuildError} (h : StoreRun.Fails (ImageStore.fetch document address) s w e s' w') :
    FetchStep address s w s' w' := by
  unfold ImageStore.fetch at h
  simp only [StoreRun.fails_bind, StoreRun.fails_get, StoreRun.returns_get, false_or, and_assoc,
    exists_eq_left, exists_and_left] at h
  split at h
  · exact (StoreRun.fails_pure.1 h).elim
  · rename_i hlookup
    rw [Option.not_isSome_iff_eq_none] at hlookup
    cases hparse : Url.parse address with
    | error d =>
      simp only [hparse, StoreRun.fails_throw] at h
      obtain ⟨-, rfl, rfl⟩ := h
      exact .malformed hlookup d hparse
    | ok url =>
      simp only [hparse, StoreRun.fails_bind, StoreRun.fails_set, StoreRun.returns_set,
        StoreRun.fails_lift, StoreRun.returns_lift, false_or, and_false, exists_false,
        or_false] at h
      obtain ⟨_, _, _, ⟨rfl, rfl⟩, rfl, hdownload⟩ := h
      rw [ImageStore.eq_of_fails_download hdownload]
      exact .failed hlookup url hparse

/-- Fetching leaves the network as it is. -/
theorem FetchStep.web_eq {s s' : ImageStore} {w w' : World} {address : String}
    (h : FetchStep address s w s' w') : w'.web = w.web := by
  cases h <;> rfl

/-! ### Results -/

namespace StoreRun

variable {α β : Type}

/-- What a step with a store gives, and the store and the world after it. -/
def result (x : StoreRun α) (s : ImageStore) (w : World) :
    (Except BuildError α × ImageStore) × World :=
  Id.run ((x.run.run s).run w)

theorem returns_or_fails (x : StoreRun α) (s : ImageStore) (w : World) :
    (∃ a, Returns x s w a (result x s w).1.2 (result x s w).2) ∨
      ∃ e, Fails x s w e (result x s w).1.2 (result x s w).2 := by
  cases h : (result x s w).1.1 with
  | ok a => exact .inl ⟨a, Prod.ext (Prod.ext h rfl) rfl⟩
  | error e => exact .inr ⟨e, Prod.ext (Prod.ext h rfl) rfl⟩

theorem result_bind (x : StoreRun α) (f : α → StoreRun β) (s : ImageStore) (w : World) :
    result (x >>= f) s w = match result x s w with
      | ((.ok a, t), v) => result (f a) t v
      | ((.error e, t), v) => ((.error e, t), v) := by
  unfold result
  rw [ExceptT.run_bind, StateT.run_bind, StateT.run_bind]
  generalize (x.run.run s).run w = out
  obtain ⟨⟨result, t⟩, v⟩ := out
  cases result <;> rfl

/-- Two steps that give the same go on in the same way. -/
theorem result_bind_congr {x y : StoreRun α} {f g : α → StoreRun β} {s : ImageStore} {w : World}
    (hx : result x s w = result y s w)
    (hf : ∀ a t v, Returns y s w a t v → result (f a) t v = result (g a) t v) :
    result (x >>= f) s w = result (y >>= g) s w := by
  rw [result_bind, result_bind, hx]
  cases hout : result y s w with
  | mk out v =>
    obtain ⟨result, t⟩ := out
    cases result with
    | ok a => exact hf a t v hout
    | error e => rfl

end StoreRun

namespace Localization

variable {c : Localization} {s s' : ImageStore} {w w' : World}

/-- While the network stays, images are fetched in order. -/
theorem result_fetchAll {web : Url → WebReply} (hc : ∀ address, c.web address = web)
    (hw : w.web = web) (addresses : List String) :
    StoreRun.result (c.fetchAll addresses) s w =
      StoreRun.result (ImageStore.fetchAll c.document addresses) s w := by
  induction addresses generalizing s w with
  | nil => rfl
  | cons address addresses ih =>
    have hconnect : StoreRun.result (ImageStore.lift (Run.connect (c.web address))) s w =
        ((.ok (), s), w) := by
      rw [hc, ← hw]
      rfl
    rw [fetchAll, StoreRun.result_bind, hconnect, ImageStore.fetchAll]
    refine StoreRun.result_bind_congr rfl fun _ t v hfetch =>
      ih ((FetchStep.of_returns hfetch).web_eq.trans hw)

/-- A call during which the network stays. -/
theorem result_localize (hc : ∀ address, c.web address = w.web) :
    StoreRun.result c.localize s w =
      StoreRun.result (ImageStore.localize c.document c.links c.blocks) s w := by
  unfold localize ImageStore.localize addresses
  dsimp only
  split
  · refine StoreRun.result_bind_congr rfl fun t t' v hget => ?_
    obtain ⟨rfl, rfl, rfl⟩ := StoreRun.returns_get.1 hget
    refine StoreRun.result_bind_congr rfl fun _ t v hmake => ?_
    obtain ⟨rfl, hmake⟩ := StoreRun.returns_lift.1 hmake
    obtain ⟨-, rfl⟩ := Run.returns_makeDirectories.1 hmake
    refine StoreRun.result_bind_congr (result_fetchAll hc ?_ _) fun _ _ _ _ => rfl
    rfl
  · rfl

/-- The store and the world after a call, whether it returns or fails. -/
def run (c : Localization) (p : ImageStore × World) : ImageStore × World :=
  let out := StoreRun.result c.localize p.1 p.2
  (out.1.2, out.2)

theorem run_of_returns {blocks : List Block}
    (h : StoreRun.Returns c.localize s w blocks s' w') : c.run (s, w) = (s', w') := by
  have hresult : StoreRun.result c.localize s w = ((.ok blocks, s'), w') := h
  simp only [run, hresult]

/-! ### Images fetched one after another -/

/-- The images at some addresses are fetched one after another. -/
inductive Fetches (c : Localization) : List String → ImageStore × World → ImageStore × World → Prop
  | nil (p : ImageStore × World) : Fetches c [] p p
  | cons {address : String} {addresses : List String} {s t : ImageStore} {w v : World}
    {p : ImageStore × World}
    (hstep : FetchStep address s { w with web := c.web address } t v)
    (hrest : Fetches c addresses (t, v) p) : Fetches c (address :: addresses) (s, w) p

theorem Fetches.of_returns {addresses : List String} {u : Unit}
    (h : StoreRun.Returns (c.fetchAll addresses) s w u s' w') :
    c.Fetches addresses (s, w) (s', w') := by
  induction addresses generalizing s w with
  | nil =>
    obtain ⟨-, rfl, rfl⟩ := StoreRun.returns_pure.1 h
    exact .nil _
  | cons address addresses ih =>
    simp only [fetchAll, StoreRun.returns_bind, StoreRun.returns_lift, Run.returns_connect] at h
    obtain ⟨_, _, _, ⟨rfl, rfl⟩, _, t, v, hfetch, hrest⟩ := h
    exact .cons (.of_returns hfetch) (ih hrest)

/-- If an image cannot be fetched, those after it are not. -/
theorem Fetches.of_fails {addresses : List String} {e : BuildError}
    (h : StoreRun.Fails (c.fetchAll addresses) s w e s' w') :
    ∃ tried, tried <+: addresses ∧ c.Fetches tried (s, w) (s', w') := by
  induction addresses generalizing s w with
  | nil => exact (StoreRun.fails_pure.1 h).elim
  | cons address addresses ih =>
    simp only [fetchAll, StoreRun.fails_bind, StoreRun.fails_lift, Run.fails_connect, and_false,
      StoreRun.returns_lift, Run.returns_connect, false_or] at h
    obtain ⟨_, _, _, ⟨rfl, rfl⟩, hfetch | ⟨_, t, v, hfetch, hrest⟩⟩ := h
    · exact ⟨[address], ⟨addresses, rfl⟩, .cons (.of_fails hfetch) (.nil _)⟩
    · obtain ⟨tried, htried, hfetches⟩ := ih hrest
      exact ⟨address :: tried, List.cons_prefix_cons.2 ⟨rfl, htried⟩,
        .cons (.of_returns hfetch) hfetches⟩

/-- The directory for copies is there from now on, or no more than parts of the path to it. -/
structure Prepares (w v : World) : Prop where
  requests : v.requests = w.requests
  grown : ∃ now, FileTree.Grown now w.files v.files

theorem Prepares.refl (w : World) : Prepares w w := ⟨rfl, 0, .refl 0 _⟩

theorem prepares_makeDirectories (w : World) (path : String) : Prepares w { w with
    files := (w.files.makeDirectories w.clock path).2
    clock := w.clock + 1 } :=
  ⟨rfl, w.clock, FileTree.grown_makeDirectories _ _ _⟩

/-- Pointing a document at its copies changes nothing. -/
theorem eq_of_returns_relocate {blocks : List Block}
    (h : StoreRun.Returns c.relocate s w blocks s' w') : s' = s ∧ w' = w := by
  obtain ⟨_, _, _, ⟨rfl, rfl, rfl⟩, h⟩ := StoreRun.returns_bind.1 h
  split at h
  · exact (StoreRun.returns_pure.1 h).2
  · exact (StoreRun.returns_throw.1 h).elim

theorem eq_of_fails_relocate {e : BuildError} (h : StoreRun.Fails c.relocate s w e s' w') :
    s' = s ∧ w' = w := by
  obtain h | ⟨_, _, _, ⟨rfl, rfl, rfl⟩, h⟩ := StoreRun.fails_bind.1 h
  · exact (StoreRun.fails_get.1 h).elim
  · split at h
    · exact (StoreRun.fails_pure.1 h).elim
    · exact (StoreRun.fails_throw.1 h).2

/-- A call that returns has fetched all images. -/
theorem exists_returns_fetchAll {blocks : List Block}
    (h : StoreRun.Returns c.localize s w blocks s' w') :
    ∃ v, Prepares w v ∧ StoreRun.Returns (c.fetchAll c.addresses) s v () s' w' := by
  unfold localize at h
  cases haddresses : c.addresses with
  | nil =>
    simp only [haddresses, List.isEmpty_nil, Bool.not_true, Bool.false_eq_true, if_false] at h
    obtain ⟨rfl, rfl⟩ := eq_of_returns_relocate h
    exact ⟨_, .refl _, StoreRun.returns_pure.2 ⟨rfl, rfl, rfl⟩⟩
  | cons address addresses =>
    simp only [haddresses, List.isEmpty_cons, Bool.not_false, if_true, StoreRun.returns_bind,
      StoreRun.returns_get, StoreRun.returns_lift, and_assoc, exists_and_left, exists_eq_left] at h
    obtain ⟨_, v, hmake, _, t, u, hfetch, hrest⟩ := h
    obtain ⟨rfl, rfl⟩ := eq_of_returns_relocate hrest
    obtain ⟨-, rfl⟩ := Run.returns_makeDirectories.1 hmake
    exact ⟨_, prepares_makeDirectories w _, hfetch⟩

/-- A call that fails has fetched its first images, if its directory could be made. -/
theorem exists_fetches_of_fails {e : BuildError}
    (h : StoreRun.Fails c.localize s w e s' w') :
    ∃ tried v, tried <+: c.addresses ∧ Prepares w v ∧ c.Fetches tried (s, v) (s', w') := by
  unfold localize at h
  cases haddresses : c.addresses with
  | nil =>
    simp only [haddresses, List.isEmpty_nil, Bool.not_true, Bool.false_eq_true, if_false] at h
    obtain ⟨rfl, rfl⟩ := eq_of_fails_relocate h
    exact ⟨[], w', List.nil_prefix, .refl _, .nil _⟩
  | cons address addresses =>
    simp only [haddresses, List.isEmpty_cons, Bool.not_false, if_true, StoreRun.fails_bind,
      StoreRun.fails_get, StoreRun.returns_get, StoreRun.fails_lift, StoreRun.returns_lift,
      false_or, and_assoc, exists_and_left, exists_eq_left] at h
    obtain ⟨rfl, hmake⟩ | ⟨_, v, hmake, hfetch | ⟨_, t, u, hfetch, hrest⟩⟩ := h
    · obtain ⟨-, -, -, rfl⟩ := Run.fails_makeDirectories.1 hmake
      exact ⟨[], _, List.nil_prefix, prepares_makeDirectories w _, .nil _⟩
    · obtain ⟨-, rfl⟩ := Run.returns_makeDirectories.1 hmake
      obtain ⟨tried, htried, hfetches⟩ := Fetches.of_fails hfetch
      exact ⟨tried, _, htried, prepares_makeDirectories w _, hfetches⟩
    · obtain ⟨rfl, rfl⟩ := eq_of_fails_relocate hrest
      obtain ⟨-, rfl⟩ := Run.returns_makeDirectories.1 hmake
      exact ⟨_, _, List.prefix_refl _, prepares_makeDirectories w _, .of_returns hfetch⟩

/-- Whether a call returns or fails, it has fetched its first images. -/
theorem exists_fetches (c : Localization) (s : ImageStore) (w : World) :
    ∃ tried v, tried <+: c.addresses ∧ Prepares w v ∧ c.Fetches tried (s, v) (c.run (s, w)) := by
  obtain ⟨blocks, h⟩ | ⟨e, h⟩ := StoreRun.returns_or_fails c.localize s w
  · obtain ⟨v, hv, hfetch⟩ := exists_returns_fetchAll h
    exact ⟨c.addresses, v, List.prefix_refl _, hv, .of_returns hfetch⟩
  · exact exists_fetches_of_fails h

end Localization

end LiterateJournal
