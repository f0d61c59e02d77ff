import LiterateJournal.Proofs.Files.WellFormed
import LiterateJournal.Proofs.Images.Calls
import Mathlib.Data.List.Induction

/-!
# The life of an image store

However the calls of a store end, its records are copies with different numbers, each of which holds
what was served when it was recorded. A call adds copies with new numbers and touches nothing else,
and requests no image that has a copy.

## Main definitions

* `ImageStore.Numbered` — the records are copies with different numbers.
* `Grows` — copies with new numbers have been added, and nothing else has changed.
* `storeAfter` — the store and the world after some calls.

## Main statements

* `ImageStore.copyName_inj` — the name of a copy tells its number.
* `Grows.contentAt?_copy` — what a copy holds stays.
* `store_consistent` — a store over its whole life.
-/

namespace LiterateJournal

/-! ### Numbers of copies -/

theorem Url.fileExtension_cases (url : Url) :
    url.fileExtension = "" ∨ ∃ x, url.fileExtension = "." ++ x := by
  unfold fileExtension
  split
  · exact .inl rfl
  · split
    · exact .inr ⟨_, rfl⟩
    · exact .inl rfl

theorem toDigits_injective {m n : Nat} (h : Nat.toDigits 10 m = Nat.toDigits 10 n) : m = n := by
  simpa using congrArg (fun digits => Nat.ofDigitChars 10 digits 0) h

namespace ImageStore

/-- The number of a copy is what its name has of digits after its first five characters. -/
theorem takeWhile_copyName (n : Nat) (url : Url) :
    ((copyName n url).toList.drop 5).takeWhile Char.isDigit = Nat.toDigits 10 n := by
  have hname : (copyName n url).toList.drop 5 =
      Nat.toDigits 10 n ++ url.fileExtension.toList := by
    simp [copyName]
  have hextension : url.fileExtension.toList.takeWhile Char.isDigit = [] := by
    obtain hnil | ⟨x, hx⟩ := url.fileExtension_cases
    · simp [hnil]
    · simp [hx]
  rw [hname, List.takeWhile_append_of_pos fun c hc =>
    Nat.isDigit_of_mem_toDigits (by decide) (by decide) hc, hextension, List.append_nil]

theorem copyName_inj {m n : Nat} {url url' : Url} (h : copyName m url = copyName n url') :
    m = n := by
  apply toDigits_injective
  rw [← takeWhile_copyName m url, ← takeWhile_copyName n url', h]

/-- The records of a store are copies of different images with different numbers, up to that of the
last copy. -/
structure Numbered (s : ImageStore) : Prop where
  copy : ∀ e ∈ s.saved, ∃ n url, Url.parse e.1 = .ok url ∧
    e.2 = savedDirectory ++ "/" ++ copyName n url ∧ 1 ≤ n ∧ n ≤ s.counter
  addresses : (s.saved.map Prod.fst).Nodup
  pages : (s.saved.map Prod.snd).Nodup

theorem numbered_new (output : String) : (new output).Numbered :=
  ⟨by simp [new], List.nodup_nil, List.nodup_nil⟩

theorem Numbered.mono {s : ImageStore} (h : s.Numbered) {n : Nat} (hn : s.counter ≤ n) :
    Numbered { s with counter := n } := by
  refine ⟨fun e he => ?_, h.addresses, h.pages⟩
  obtain ⟨m, url, hparse, hpage, hone, hm⟩ := h.copy e he
  exact ⟨m, url, hparse, hpage, hone, Nat.le_trans hm hn⟩

@[simp] theorem counter_add (s : ImageStore) (c : ImageCopy) :
    (s.add c).counter = s.counter + 1 := rfl

theorem Numbered.add {s : ImageStore} (h : s.Numbered) {address : String} {c : ImageCopy}
    (hnew : s.saved.lookup address = none) (hc : imageCopy? s.counter address = some c) :
    (s.add c).Numbered := by
  obtain ⟨url, hurl, rfl⟩ := imageCopy?_eq_some_iff.1 hc
  have hcopy : ∀ e ∈ s.saved, ∃ n url, Url.parse e.1 = .ok url ∧
      e.2 = savedDirectory ++ "/" ++ copyName n url ∧ 1 ≤ n ∧ n ≤ s.counter + 1 :=
    (h.mono (Nat.le_succ _)).copy
  refine ⟨List.forall_mem_cons.2 ⟨⟨_, url, hurl, rfl, by omega, Nat.le_refl _⟩, hcopy⟩,
    List.nodup_cons.2 ⟨?_, h.addresses⟩, List.nodup_cons.2 ⟨?_, h.pages⟩⟩
  · intro hmem
    obtain ⟨e, he, rfl⟩ := List.mem_map.1 hmem
    simpa using List.lookup_eq_none_iff.1 hnew e he
  · -- its number is larger than all others
    intro hmem
    obtain ⟨e, he, hpage⟩ := List.mem_map.1 hmem
    obtain ⟨n, url', -, hpage', -, hn⟩ := h.copy e he
    rw [hpage', ImageCopy.pageAddress, String.append_right_inj] at hpage
    have := copyName_inj hpage
    omega

/-- Every record is the one that is found for its image. -/
theorem Numbered.lookup_eq {s : ImageStore} (h : s.Numbered) {e : String × String}
    (he : e ∈ s.saved) : s.saved.lookup e.1 = some e.2 := by
  obtain ⟨before, after, hsaved⟩ := List.append_of_mem he
  have hnodup := h.addresses
  rw [hsaved, List.map_append, List.map_cons] at hnodup
  refine List.lookup_eq_some_iff.2 ⟨before, after, hsaved, fun d hd => ?_⟩
  rw [bne_iff_ne]
  intro heq
  exact (List.nodup_append.1 hnodup).2.2 _ (List.mem_map_of_mem hd) _ List.mem_cons_self heq.symm

end ImageStore

open ImageStore (copyName)

/-! ### What a call changes -/

/-- Copies with new numbers have been added to a store, and no other file has changed. -/
structure Grows (p q : ImageStore × World) : Prop where
  directory : q.1.directory = p.1.directory
  counter : p.1.counter ≤ q.1.counter
  saved : p.1.saved <:+ q.1.saved
  isDirectory : ∀ l, p.2.files.IsDirectory l → q.2.files.IsDirectory l
  changed : ∀ l, q.2.files.content? l ≠ p.2.files.content? l →
    ∃ k n url, q.2.files.DirectoryAt p.1.directory k ∧ p.1.counter < n ∧ n ≤ q.1.counter ∧
      l = k.child (copyName n url)

namespace Grows

variable {p q r : ImageStore × World}

theorem refl (p : ImageStore × World) : Grows p p :=
  ⟨rfl, Nat.le_refl _, List.suffix_refl _, fun _ => id, fun _ h => absurd rfl h⟩

theorem trans (h : Grows p q) (h' : Grows q r) : Grows p r where
  directory := h'.directory.trans h.directory
  counter := Nat.le_trans h.counter h'.counter
  saved := h.saved.trans h'.saved
  isDirectory l hl := h'.isDirectory l (h.isDirectory l hl)
  changed l hl := by
    have hle := h.counter
    have hle' := h'.counter
    by_cases hfirst : q.2.files.content? l = p.2.files.content? l
    · obtain ⟨k, n, url, hk, hlt, hn, rfl⟩ := h'.changed l (by rwa [hfirst])
      exact ⟨k, n, url, h.directory ▸ hk, by omega, hn, rfl⟩
    · obtain ⟨k, n, url, hk, hlt, hn, rfl⟩ := h.changed l hfirst
      exact ⟨k, n, url, hk.mono h'.isDirectory, hlt, by omega, rfl⟩

/-- No file has changed. -/
theorem of_content?_eq (hdirectory : q.1.directory = p.1.directory)
    (hcounter : p.1.counter ≤ q.1.counter) (hsaved : q.1.saved = p.1.saved)
    (hd : ∀ l, p.2.files.IsDirectory l → q.2.files.IsDirectory l)
    (hfiles : ∀ l, q.2.files.content? l = p.2.files.content? l) : Grows p q :=
  ⟨hdirectory, hcounter, hsaved ▸ List.suffix_refl _, hd, fun l h => absurd (hfiles l) h⟩

/-- What a copy holds stays. -/
theorem contentAt?_copy (h : Grows p q) {n : Nat} (hn : n ≤ p.1.counter) {url : Url}
    {body : Content}
    (hbody : p.2.files.contentAt? (Path.join p.1.directory (copyName n url)) = some body) :
    q.2.files.contentAt? (Path.join p.1.directory (copyName n url)) = some body := by
  have hplain := ImageStore.plain_copyName n url
  unfold FileTree.contentAt? at hbody ⊢
  cases hresolve : p.2.files.resolve (Path.join p.1.directory (copyName n url)) with
  | error e => simp [hresolve] at hbody
  | ok l =>
    simp only [hresolve] at hbody
    obtain ⟨k, hk⟩ := FileTree.directoryAt_of_resolve_join hplain hresolve
    obtain ⟨-, rfl⟩ := (hk.resolve_join_eq_ok_iff hplain).1 hresolve
    simp only [FileTree.resolve_mono h.isDirectory hresolve]
    -- a changed file has a larger number
    by_cases hsame : q.2.files.content? (k.child (copyName n url)) =
        p.2.files.content? (k.child (copyName n url))
    · rw [hsame, hbody]
    · obtain ⟨k', m, url', -, hlt, -, hl⟩ := h.changed _ hsame
      have hnumber := ImageStore.copyName_inj (Location.child_inj.1 hl).2
      omega

end Grows

theorem FetchStep.grows {s s' : ImageStore} {w w' : World} {address : String}
    (h : FetchStep address s w s' w') : Grows (s, w) (s', w') := by
  cases h with
  | known => exact .refl _
  | malformed => exact .refl _
  | failed =>
    exact .of_content?_eq rfl (Nat.le_succ _) rfl (fun _ => id) fun _ => rfl
  | saved hnew c hc l hl hsavable =>
    have hevolves := evolves_saveCopy hl.isDirectory hsavable
    obtain ⟨url, -, rfl⟩ := ImageStore.imageCopy?_eq_some_iff.1 hc
    refine ⟨rfl, Nat.le_succ _, List.suffix_cons _ _, hevolves.isDirectory, fun k hk => ?_⟩
    refine ⟨l, s.counter + 1, url, hevolves.directoryAt hl, Nat.lt_succ_self _, Nat.le_refl _, ?_⟩
    exact Decidable.byContradiction fun hne =>
      hk (FileTree.content?_eq_of_get?_eq (hevolves.kept k hne))

theorem FetchStep.numbered {s s' : ImageStore} {w w' : World} {address : String}
    (h : FetchStep address s w s' w') (hs : s.Numbered) : s'.Numbered := by
  cases h with
  | known => exact hs
  | malformed => exact hs
  | failed => exact hs.mono (Nat.le_succ _)
  | saved hnew c hc l hl hsavable => exact hs.add hnew hc

/-! ### What a copy holds -/

/-- A record of a store holds what the network served for its image. -/
def Holds (output : String) (w : World) (web : Url → WebReply) (e : String × String) : Prop :=
  ∃ url body, Url.parse e.1 = .ok url ∧ fetched? web url = some body ∧
    w.files.contentAt? (Path.join output e.2) = some body

theorem join_page (output : String) (n : Nat) (url : Url) :
    Path.join output (savedDirectory ++ "/" ++ copyName n url) =
      Path.join (Path.join output savedDirectory) (copyName n url) :=
  Path.join_join output plain_savedDirectory.1 (ImageStore.plain_copyName n url).1

/-- A record holds the same after more copies have been added. -/
theorem Grows.holds {output : String} {p q : ImageStore × World} {web : Url → WebReply}
    {e : String × String} (hg : Grows p q) (hs : p.1.Numbered)
    (hd : p.1.directory = Path.join output savedDirectory) (he : e ∈ p.1.saved)
    (h : Holds output p.2 web e) : Holds output q.2 web e := by
  obtain ⟨url, body, hparse, hfetched, hbody⟩ := h
  refine ⟨url, body, hparse, hfetched, ?_⟩
  obtain ⟨n, url', -, hpage, -, hn⟩ := hs.copy e he
  rw [hpage, join_page, ← hd] at hbody ⊢
  exact hg.contentAt?_copy hn hbody

theorem contentAt?_saveCopy {w : World} {directory : String} {l : Location} {c : ImageCopy}
    (hl : w.files.DirectoryAt directory l) (hc : c.Savable w directory l)
    (hname : Path.Plain c.name) :
    (w.saveCopy l c).files.contentAt? (Path.join directory c.name) = fetched? w.web c.url := by
  have hl' := (evolves_saveCopy hl.isDirectory hc).directoryAt hl
  obtain ⟨body, hbody⟩ := Option.isSome_iff_exists.1 hc.isSome
  rw [FileTree.contentAt?, (hl'.resolve_join_eq_ok_iff hname).2 ⟨hc.fits, rfl⟩]
  simp [FileTree.content?, get?_saveCopy hl.isDirectory hc, hbody]

/-- A record that is new holds what has just been served. -/
theorem FetchStep.holds {s s' : ImageStore} {w w' : World} {address output : String}
    (h : FetchStep address s w s' w') (hd : s.directory = Path.join output savedDirectory)
    {e : String × String} (he : e ∈ s'.saved) :
    e ∈ s.saved ∨ e.1 = address ∧ s.saved.lookup address = none ∧ Holds output w' w.web e := by
  cases h with
  | known => exact .inl he
  | malformed => exact .inl he
  | failed => exact .inl he
  | saved hnew c hc l hl hsavable =>
    obtain rfl | he := List.mem_cons.1 he
    · obtain ⟨url, hurl, rfl⟩ := ImageStore.imageCopy?_eq_some_iff.1 hc
      obtain ⟨body, hbody⟩ := Option.isSome_iff_exists.1 hsavable.isSome
      refine .inr ⟨rfl, hnew, url, body, hurl, hbody, ?_⟩
      rw [ImageCopy.pageAddress, join_page, ← hd, ← hbody]
      exact contentAt?_saveCopy hl hsavable (ImageStore.plain_copyName _ _)
    · exact .inl he

/-- The request of an image is made only if it has no copy. -/
theorem FetchStep.requests {s s' : ImageStore} {w w' : World} {address : String}
    (h : FetchStep address s w s' w') :
    (s.saved.lookup address).isSome = true ∧ w'.requests = w.requests ∨
      s.saved.lookup address = none ∧
        w'.requests = (requestFor? address).toList ++ w.requests := by
  cases h with
  | known hsome => exact .inl ⟨hsome, rfl⟩
  | malformed hnone e he => exact .inr ⟨hnone, by simp [requestFor?, he]⟩
  | failed hnone url hurl => exact .inr ⟨hnone, by simp [requestFor?, hurl]⟩
  | saved hnone c hc l hl hsavable =>
    obtain ⟨url, hurl, rfl⟩ := ImageStore.imageCopy?_eq_some_iff.1 hc
    refine .inr ⟨hnone, ?_⟩
    simp only [requestFor?, hurl, Url.request?_of_isSome_fetched? hsavable.isSome]
    rfl

/-! ### Calls -/

theorem lookup_eq_none_of_suffix {xs ys : List (String × String)} {address : String}
    (h : xs <:+ ys) (hys : ys.lookup address = none) : xs.lookup address = none :=
  List.lookup_eq_none_iff.2 fun e he => List.lookup_eq_none_iff.1 hys e (h.subset he)

namespace Localization

variable {c : Localization} {tried : List String} {p q : ImageStore × World} {output : String}

theorem grows_connect (s : ImageStore) (w : World) (web : Url → WebReply) :
    Grows (s, w) (s, { w with web }) :=
  .of_content?_eq rfl (Nat.le_refl _) rfl (fun _ => id) fun _ => rfl

theorem Prepares.grows {s : ImageStore} {w v : World} (h : Prepares w v) :
    Grows (s, w) (s, v) := by
  obtain ⟨now, hgrown⟩ := h.grown
  refine .of_content?_eq rfl (Nat.le_refl _) rfl (fun _ => hgrown.isDirectory) fun l => ?_
  obtain hsame | ⟨hnone, hdirectory⟩ := hgrown l
  · exact FileTree.content?_eq_of_get?_eq hsame
  · simp [FileTree.content?, hnone, hdirectory]

theorem Fetches.grows (h : c.Fetches tried p q) : Grows p q := by
  induction h with
  | nil p => exact .refl p
  | cons hstep _ ih => exact ((grows_connect _ _ _).trans hstep.grows).trans ih

theorem Fetches.numbered (h : c.Fetches tried p q) (hp : p.1.Numbered) : q.1.Numbered := by
  induction h with
  | nil p => exact hp
  | cons hstep _ ih => exact ih (hstep.numbered hp)

/-- Records that are new hold what was served when they were made. -/
theorem Fetches.holds (h : c.Fetches tried p q) (hp : p.1.Numbered)
    (hd : p.1.directory = Path.join output savedDirectory) {e : String × String}
    (he : e ∈ q.1.saved) :
    e ∈ p.1.saved ∨ p.1.saved.lookup e.1 = none ∧ Holds output q.2 (c.web e.1) e := by
  induction h with
  | nil p => exact .inl he
  | cons hstep hrest ih =>
    have hgrows := hstep.grows
    have hmiddle := hstep.numbered hp
    obtain he | ⟨hnone, hholds⟩ := ih hmiddle (hgrows.directory.trans hd) he
    · obtain hold | ⟨haddress, hnone, hholds⟩ := hstep.holds hd he
      · exact .inl hold
      · rw [haddress]
        exact .inr ⟨hnone, hrest.grows.holds hmiddle (hgrows.directory.trans hd) he hholds⟩
    · exact .inr ⟨lookup_eq_none_of_suffix hgrows.saved hnone, hholds⟩

/-- The requests of images fetched one after another are those of images without copies. -/
theorem Fetches.requests (h : c.Fetches tried p q) :
    ∃ asked : List String, asked.Sublist tried ∧
      (∀ address ∈ asked, p.1.saved.lookup address = none) ∧
      q.2.requests = (asked.filterMap requestFor?).reverse ++ p.2.requests := by
  induction h with
  | nil p => exact ⟨[], .slnil, by simp, rfl⟩
  | @cons address addresses s t w v p hstep hrest ih =>
    obtain ⟨asked, hsub, hnone, hrequests⟩ := ih
    have hkept : ∀ a ∈ asked, s.saved.lookup a = none := fun a ha =>
      lookup_eq_none_of_suffix hstep.grows.saved (hnone a ha)
    obtain ⟨-, hsame⟩ | ⟨hnew, hmore⟩ := hstep.requests
    · exact ⟨asked, hsub.cons address, hkept, by rw [hrequests, hsame]⟩
    · refine ⟨address :: asked, hsub.cons_cons address, List.forall_mem_cons.2 ⟨hnew, hkept⟩, ?_⟩
      rw [hrequests, hmore]
      cases hrequest : requestFor? address <;> simp [hrequest]

/-- An image without a copy has one when it has been fetched, under the next number. -/
theorem eq_add_of_returns_fetch {document address : String} {s s' : ImageStore} {w w' : World}
    {u : Unit} (h : StoreRun.Returns (ImageStore.fetch document address) s w u s' w')
    (hnew : s.saved.lookup address = none) :
    ∃ url, Url.parse address = .ok url ∧
      s' = s.add ⟨address, url, copyName (s.counter + 1) url⟩ := by
  have hsome := (ImageStore.isSome_lookup_of_returns_fetch h).1
  cases FetchStep.of_returns h with
  | known => simp [hnew] at hsome
  | malformed => simp [hnew] at hsome
  | failed => simp [hnew] at hsome
  | saved _ copy hcopy =>
    obtain ⟨url, hurl, rfl⟩ := ImageStore.imageCopy?_eq_some_iff.1 hcopy
    exact ⟨url, hurl, rfl⟩

/-- While images without copies are fetched, their copies get the next numbers in order. -/
theorem number_of_returns_fetchAll {addresses : List String} {s s' : ImageStore} {w w' : World}
    {u : Unit} (h : StoreRun.Returns (c.fetchAll addresses) s w u s' w') (hs : s.Numbered)
    (hnodup : addresses.Nodup) (hnew : ∀ a ∈ addresses, s.saved.lookup a = none) :
    s'.counter = s.counter + addresses.length ∧
      ∀ (k : Nat) (a : String), addresses[k]? = some a → ∃ url, Url.parse a = .ok url ∧
        s'.saved.lookup a =
          some (savedDirectory ++ "/" ++ copyName (s.counter + k + 1) url) := by
  induction addresses generalizing s w with
  | nil =>
    obtain ⟨-, rfl, rfl⟩ := StoreRun.returns_pure.1 h
    exact ⟨rfl, by simp⟩
  | cons address addresses ih =>
    obtain ⟨hnotMem, hnodup⟩ := List.nodup_cons.1 hnodup
    obtain ⟨hfirst, hrestNew⟩ := List.forall_mem_cons.1 hnew
    simp only [fetchAll, StoreRun.returns_bind, StoreRun.returns_lift, Run.returns_connect] at h
    obtain ⟨_, s, _, ⟨rfl, rfl⟩, _, t, v, hfetch, hrest⟩ := h
    have hnumbered := (FetchStep.of_returns hfetch).numbered hs
    obtain ⟨url, hurl, rfl⟩ := eq_add_of_returns_fetch hfetch hfirst
    obtain ⟨hcounter, hnumber⟩ := ih hrest hnumbered hnodup fun a ha => by
      have hne : (a == address) = false := by
        rw [beq_eq_false_iff_ne]
        rintro rfl
        exact hnotMem ha
      simpa [ImageStore.add, List.lookup_cons, hne] using hrestNew a ha
    refine ⟨by rw [hcounter, ImageStore.counter_add, List.length_cons]; omega, fun k a ha => ?_⟩
    cases k with
    | zero =>
      -- its record is still there in the end
      obtain rfl : address = a := by simpa using ha
      have hfetches := Fetches.of_returns hrest
      exact ⟨url, hurl, (hfetches.numbered hnumbered).lookup_eq
        (hfetches.grows.saved.subset List.mem_cons_self)⟩
    | succ k =>
      obtain ⟨url', hurl', hlookup⟩ := hnumber k a (by simpa using ha)
      refine ⟨url', hurl', ?_⟩
      rw [hlookup, ImageStore.counter_add, Nat.add_right_comm s.counter 1 k,
        Nat.add_assoc s.counter]

theorem run_grows (c : Localization) (p : ImageStore × World) : Grows p (c.run p) := by
  obtain ⟨s, w⟩ := p
  obtain ⟨tried, v, -, hprepares, hfetches⟩ := c.exists_fetches s w
  exact hprepares.grows.trans hfetches.grows

theorem run_numbered (c : Localization) (hp : p.1.Numbered) : (c.run p).1.Numbered := by
  obtain ⟨tried, v, -, -, hfetches⟩ := c.exists_fetches p.1 p.2
  exact hfetches.numbered hp

/-- After a call a record is one of those before it, or holds what was served during the call. -/
theorem run_holds (c : Localization) (hp : p.1.Numbered)
    (hd : p.1.directory = Path.join output savedDirectory) {e : String × String}
    (he : e ∈ (c.run p).1.saved) :
    e ∈ p.1.saved ∨
      p.1.saved.lookup e.1 = none ∧ Holds output (c.run p).2 (c.web e.1) e := by
  obtain ⟨tried, v, -, -, hfetches⟩ := c.exists_fetches p.1 p.2
  exact hfetches.holds hp hd he

/-- A call requests images without copies only, each of them once. -/
theorem run_requests (c : Localization) (p : ImageStore × World) :
    ∃ asked : List String, asked.Sublist c.addresses ∧
      (∀ address ∈ asked, p.1.saved.lookup address = none) ∧
      (c.run p).2.requests = (asked.filterMap requestFor?).reverse ++ p.2.requests := by
  obtain ⟨tried, v, htried, hprepares, hfetches⟩ := c.exists_fetches p.1 p.2
  obtain ⟨asked, hasked, hnone, hrequests⟩ := hfetches.requests
  exact ⟨asked, hasked.trans htried.sublist, hnone, hprepares.requests ▸ hrequests⟩

end Localization

/-! ### Calls one after another -/

/-- The store for the pages of a directory, and the world around it, after some calls. -/
def storeAfter (output : String) (start : World) (calls : List Localization) :
    ImageStore × World :=
  calls.foldl (fun p c => c.run p) (ImageStore.new output, start)

theorem storeAfter_concat (output : String) (start : World) (calls : List Localization)
    (c : Localization) :
    storeAfter output start (calls ++ [c]) = c.run (storeAfter output start calls) := by
  simp [storeAfter]

theorem numbered_storeAfter (output : String) (start : World) (calls : List Localization) :
    (storeAfter output start calls).1.Numbered := by
  induction calls using List.reverseRecOn with
  | nil => exact ImageStore.numbered_new output
  | append_singleton calls c ih =>
    rw [storeAfter_concat]
    exact c.run_numbered ih

theorem directory_storeAfter (output : String) (start : World) (calls : List Localization) :
    (storeAfter output start calls).1.directory = Path.join output savedDirectory := by
  induction calls using List.reverseRecOn with
  | nil => rfl
  | append_singleton calls c ih =>
    rw [storeAfter_concat, (c.run_grows _).directory, ih]

/-- Each record was made by one of the calls, and holds what was served for its image then. -/
theorem exists_call_of_mem_storeAfter (output : String) (start : World)
    (calls : List Localization) {e : String × String}
    (he : e ∈ (storeAfter output start calls).1.saved) :
    ∃ before c after, calls = before ++ c :: after ∧
      (storeAfter output start before).1.saved.lookup e.1 = none ∧
      e ∈ (storeAfter output start (before ++ [c])).1.saved ∧
      Holds output (storeAfter output start calls).2 (c.web e.1) e := by
  induction calls using List.reverseRecOn with
  | nil => cases he
  | append_singleton calls c ih =>
    have hnumbered := numbered_storeAfter output start calls
    have hdirectory := directory_storeAfter output start calls
    rw [storeAfter_concat] at he ⊢
    obtain hold | ⟨hnone, hholds⟩ := c.run_holds hnumbered hdirectory he
    · obtain ⟨before, d, after, hcalls, hnone, hmem, hholds⟩ := ih hold
      exact ⟨before, d, after ++ [c], by simp [hcalls], hnone, hmem,
        (c.run_grows _).holds hnumbered hdirectory hold hholds⟩
    · exact ⟨calls, c, [], rfl, hnone, by rwa [storeAfter_concat], hholds⟩

/-- A name of the form `savedN` or `savedN.ext`, with a number up to a last one. -/
def IsCopyName (last : Nat) (name : String) : Prop :=
  ∃ (n : Nat) (extension : String), name = "saved" ++ toString n ++ extension ∧ 1 ≤ n ∧ n ≤ last ∧
    (extension = "" ∨ ∃ x, extension = "." ++ x) ∧ '/' ∉ name.toList

theorem isCopyName_copyName {n last : Nat} (hone : 1 ≤ n) (hn : n ≤ last) (url : Url) :
    IsCopyName last (copyName n url) :=
  ⟨n, url.fileExtension, rfl, hone, hn, url.fileExtension_cases,
    (ImageStore.plain_copyName n url).1.2⟩

/-- The copies of a call that returns as the first one are numbered in the order of the text. -/
theorem number_of_returns_localize {output : String} {start w : World} {c : Localization}
    {blocks : List Block} {s : ImageStore}
    (h : StoreRun.Returns c.localize (ImageStore.new output) start blocks s w) :
    s.counter = c.addresses.length ∧
      ∀ (k : Nat) (a : String), c.addresses[k]? = some a → ∃ url, Url.parse a = .ok url ∧
        s.saved.lookup a = some (savedDirectory ++ "/" ++ copyName (k + 1) url) := by
  obtain ⟨v, -, hfetch⟩ := Localization.exists_returns_fetchAll h
  have hnumber := Localization.number_of_returns_fetchAll hfetch (ImageStore.numbered_new output)
    (ImageStore.nodup_remoteImages _ _) fun _ _ => rfl
  simpa [ImageStore.new] using hnumber

/-- A store over its whole life, however its calls end and whatever the network answers to each
request. Its records name different files of their own form, each of which holds what was served
when it was recorded. A call keeps all records and what they hold, changes only files of this form
in the directory for copies, and requests images without a record only, each once. If the first call
returns, its images are numbered in the order of the text. While the network stays, a call is
`ImageStore.localize`. -/
theorem store_consistent (output : String) (start : World) (calls : List Localization) :
    (let p := storeAfter output start calls
     (p.1.saved.map Prod.snd).Nodup ∧
      ∀ e ∈ p.1.saved,
        (∃ name, e.2 = savedDirectory ++ "/" ++ name ∧ IsCopyName p.1.counter name) ∧
        ∃ before c after, calls = before ++ c :: after ∧
          (storeAfter output start before).1.saved.lookup e.1 = none ∧
          e ∈ (storeAfter output start (before ++ [c])).1.saved ∧
          Holds output p.2 (c.web e.1) e) ∧
    (∀ c : Localization,
      let p := storeAfter output start calls
      let q := storeAfter output start (calls ++ [c])
      p.1.saved <:+ q.1.saved ∧
      (∀ e ∈ p.1.saved, q.2.files.contentAt? (Path.join output e.2) =
        p.2.files.contentAt? (Path.join output e.2)) ∧
      (∀ l, q.2.files.content? l ≠ p.2.files.content? l → ∃ k name,
        q.2.files.DirectoryAt (Path.join output savedDirectory) k ∧
          IsCopyName q.1.counter name ∧ l = k.child name) ∧
      ∃ asked : List String, asked.Sublist c.addresses ∧ asked.Nodup ∧
        (∀ address ∈ asked, p.1.saved.lookup address = none) ∧
        q.2.requests = (asked.filterMap requestFor?).reverse ++ p.2.requests) ∧
    (∀ (c : Localization) (blocks : List Block) (s : ImageStore) (w : World),
      StoreRun.Returns c.localize (ImageStore.new output) start blocks s w →
        storeAfter output start [c] = (s, w) ∧ s.counter = c.addresses.length ∧
        ∀ (k : Nat) (a : String), c.addresses[k]? = some a → ∃ url, Url.parse a = .ok url ∧
          s.saved.lookup a = some (savedDirectory ++ "/" ++ copyName (k + 1) url)) ∧
    ∀ (c : Localization) (s : ImageStore) (w : World), (∀ address, c.web address = w.web) →
      StoreRun.result c.localize s w =
        StoreRun.result (ImageStore.localize c.document c.links c.blocks) s w := by
  have hnumbered := numbered_storeAfter output start calls
  have hdirectory := directory_storeAfter output start calls
  refine ⟨⟨hnumbered.pages, fun e he => ⟨?_, exists_call_of_mem_storeAfter output start calls he⟩⟩,
    fun c => ?_, fun c blocks s w h => ?_, fun c s w hweb => Localization.result_localize hweb⟩
  · obtain ⟨n, url, -, hpage, hone, hn⟩ := hnumbered.copy e he
    exact ⟨_, hpage, isCopyName_copyName hone hn url⟩
  · rw [storeAfter_concat]
    have hgrows := c.run_grows (storeAfter output start calls)
    refine ⟨hgrows.saved, fun e he => ?_, fun l hl => ?_, ?_⟩
    · obtain ⟨_, d, _, -, -, -, hholds⟩ := exists_call_of_mem_storeAfter output start calls he
      obtain ⟨url, body, hurl, hfetched, hbody⟩ := hholds
      obtain ⟨url', body', hurl', hfetched', hbody'⟩ :=
        hgrows.holds hnumbered hdirectory he ⟨url, body, hurl, hfetched, hbody⟩
      obtain rfl : url = url' := Except.ok.inj (hurl.symm.trans hurl')
      rw [hbody, hbody', ← hfetched, ← hfetched']
    · obtain ⟨k, n, url, hk, hlt, hn, rfl⟩ := hgrows.changed l hl
      exact ⟨k, _, hdirectory ▸ hk, isCopyName_copyName (by omega) hn url, rfl⟩
    · obtain ⟨asked, hasked, hnone, hrequests⟩ := c.run_requests (storeAfter output start calls)
      exact ⟨asked, hasked, hasked.nodup (ImageStore.nodup_remoteImages _ _), hnone, hrequests⟩
  · exact ⟨Localization.run_of_returns h, number_of_returns_localize h⟩

def emptyShelf : World where
  files := .ofEntries [(⟨false, ["out"]⟩, .directory 1)]
  clock := 10
  web := fun _ => .dropped
  requests := []
  progress := []

/-- A call of which the second image cannot be had. -/
def brokenCall : Localization where
  document := "a.md"
  links := ∅
  blocks := [.paragraph [.image "" "http://h/x.png" none, .image "" "http://h/y" none]]
  web := fun address _ => if address = "http://h/x.png" then .reply 200 (.text "X") else .dropped

/-- A call with the same images, one of which has changed. -/
def wholeCall : Localization where
  document := "b.md"
  links := ∅
  blocks := [.paragraph [.image "" "http://h/y" none, .image "" "http://h/x.png" none]]
  web := fun address _ => .reply 200 (.text (if address = "http://h/y" then "Y" else "Z"))

/-- A call that fails in between leaves a gap, and the next one requests what is missing. -/
theorem store_consistent_emptyShelf :
    let p := storeAfter "out" emptyShelf [brokenCall]
    let q := storeAfter "out" emptyShelf [brokenCall, wholeCall]
    p.1.saved = [("http://h/x.png", "savedimages/saved1.png")] ∧
      q.1.saved = ("http://h/y", "savedimages/saved3") :: p.1.saved ∧
      q.2.requests.length = 3 ∧ (q.1.saved.map Prod.snd).Nodup ∧
      q.2.files.contentAt? "out/savedimages/saved1.png" =
        p.2.files.contentAt? "out/savedimages/saved1.png" ∧
      ∃ blocks s w,
        StoreRun.Returns wholeCall.localize (ImageStore.new "out") emptyShelf blocks s w ∧
        s.counter = wholeCall.addresses.length ∧
        ∃ url, Url.parse "http://h/x.png" = .ok url ∧
          s.saved.lookup "http://h/x.png" = some (savedDirectory ++ "/" ++ copyName 2 url) := by
  obtain ⟨-, hcall, hfirst, -⟩ := store_consistent "out" emptyShelf [brokenCall]
  obtain ⟨⟨hnodup, -⟩, -⟩ := store_consistent "out" emptyShelf [brokenCall, wholeCall]
  refine ⟨by decide +kernel, by decide +kernel, by decide +kernel, hnodup, ?_, ?_⟩
  · exact (hcall wholeCall).2.1 ("http://h/x.png", "savedimages/saved1.png") (by decide +kernel)
  · obtain ⟨blocks, h⟩ | ⟨e, h⟩ :=
      StoreRun.returns_or_fails wholeCall.localize (ImageStore.new "out") emptyShelf
    · obtain ⟨-, hcounter, hnumber⟩ := hfirst wholeCall blocks _ _ h
      exact ⟨blocks, _, _, h, hcounter, hnumber 1 _ (by decide +kernel)⟩
    · -- it does not fail
      have hok : (StoreRun.result wholeCall.localize (ImageStore.new "out") emptyShelf).1.1.isOk =
          true := by decide +kernel
      rw [show StoreRun.result wholeCall.localize _ _ = ((.error e, _), _) from h] at hok
      cases hok

end LiterateJournal
