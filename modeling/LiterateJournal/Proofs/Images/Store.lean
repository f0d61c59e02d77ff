import LiterateJournal.Proofs.Images.Copies

/-!
# Runs of an image store

An image store saves the copies of a document, whose names follow from the document, and then points
the document at them. It returns just when every copy can be saved.

## Main definitions

* `StoreRun.Returns` — a step with a store returns.

## Main statements

* `ImageStore.returns_localizeAlone` — when the images of a document can be saved, and what is then
  left.
-/

namespace LiterateJournal

/-! ### Steps with a store -/

namespace StoreRun

variable {α β : Type}

/-- A step with a store returns `a` from `s` and `w`, and leaves `s'` and `w'`. -/
def Returns (x : StoreRun α) (s : ImageStore) (w : World) (a : α) (s' : ImageStore) (w' : World) :
    Prop :=
  Id.run ((x.run.run s).run w) = ((.ok a, s'), w')

@[simp] theorem returns_pure {s s' : ImageStore} {w w' : World} {a b : α} :
    Returns (pure b) s w a s' w' ↔ a = b ∧ s' = s ∧ w' = w := by
  constructor
  · intro h
    cases h
    exact ⟨rfl, rfl, rfl⟩
  · rintro ⟨rfl, rfl, rfl⟩
    rfl

@[simp] theorem returns_bind {x : StoreRun α} {f : α → StoreRun β} {s s' : ImageStore}
    {w w' : World} {b : β} :
    Returns (x >>= f) s w b s' w' ↔
      ∃ a t v, Returns x s w a t v ∧ Returns (f a) t v b s' w' := by
  unfold Returns
  rw [ExceptT.run_bind, StateT.run_bind, StateT.run_bind]
  generalize (x.run.run s).run w = out
  obtain ⟨⟨result, t⟩, v⟩ := out
  constructor
  · intro h
    cases result with
    | ok a => exact ⟨a, t, v, rfl, h⟩
    | error e => cases h
  · rintro ⟨a, t', v', hout, h⟩
    cases hout
    exact h

@[simp] theorem returns_throw {s s' : ImageStore} {w w' : World} {a : α} {e : BuildError} :
    Returns (throw e : StoreRun α) s w a s' w' ↔ False := by
  simp only [iff_false]
  intro h
  cases h

theorem returns_get {s s' t : ImageStore} {w w' : World} :
    Returns (getThe ImageStore) s w t s' w' ↔ t = s ∧ s' = s ∧ w' = w := by
  constructor
  · intro h
    cases h
    exact ⟨rfl, rfl, rfl⟩
  · rintro ⟨rfl, rfl, rfl⟩
    rfl

@[simp] theorem returns_set {s s' t : ImageStore} {w w' : World} {u : PUnit} :
    Returns (set t) s w u s' w' ↔ s' = t ∧ w' = w := by
  constructor
  · intro h
    cases h
    exact ⟨rfl, rfl⟩
  · rintro ⟨rfl, rfl⟩
    rfl

@[simp] theorem returns_lift {x : Run α} {s s' : ImageStore} {w w' : World} {a : α} :
    Returns (ImageStore.lift x) s w a s' w' ↔ s' = s ∧ Run.Returns x w a w' := by
  unfold Returns Run.Returns Run.result ImageStore.lift
  change Id.run (StateT.run (do let result ← x.run; pure (result, s)) w) = _ ↔ _
  rw [StateT.run_bind]
  generalize x.run.run w = out
  obtain ⟨result, v⟩ := out
  constructor
  · intro h
    cases h
    exact ⟨rfl, rfl⟩
  · rintro ⟨rfl, h⟩
    cases h
    rfl

end StoreRun

/-! ### Fetching -/

namespace ImageStore

theorem returns_download {w w' : World} {document address directory : String} {l : Location}
    {c : ImageCopy} {u : Unit} (hl : w.files.DirectoryAt directory l) (hc : Path.Plain c.name) :
    Run.Returns (download document address c.url (Path.join directory c.name)) w u w' ↔
      c.Savable w directory l ∧ w' = w.saveCopy l c := by
  unfold download
  dsimp only
  split
  · rename_i hbad
    rw [← Bool.not_and, Bool.not_eq_true'] at hbad
    have hnone : fetched? w.web c.url = none := if_neg (Bool.eq_false_iff.1 hbad)
    have hsavable : ¬ c.Savable w directory l := fun h => by simpa [hnone] using h.isSome
    simp only [Run.returns_bind, Run.returns_throw, false_and, exists_false, hsavable]
  · rename_i hgood
    rw [← Bool.not_and, Bool.not_eq_true', Bool.not_eq_false] at hgood
    have hrequest : { c.url.withoutUserInfo with fragment := none } = c.url.request := rfl
    simp only [hrequest, Run.returns_bind, Run.returns_request]
    cases hreply : w.web c.url.request with
    | dropped =>
      have hfetched : fetched? w.web c.url = none := (if_pos hgood).trans (by rw [hreply])
      have hsavable : ¬ c.Savable w directory l := fun h => by
        simpa [hfetched] using h.isSome
      simp only [and_assoc, exists_and_left, exists_eq_left, Run.returns_throw, hsavable, false_and]
    | reply status body =>
      have hfetched : fetched? w.web c.url = if isSuccess status then some body else none :=
        (if_pos hgood).trans (by rw [hreply])
      by_cases hsuccess : isSuccess status = true
      · rw [if_pos hsuccess] at hfetched
        have hsave : w.saveCopy l c =
            World.put { w with requests := c.url.request :: w.requests } (l.child c.name) body := by
          rw [World.saveCopy, hfetched]
          rfl
        simp only [hsave, and_assoc, exists_and_left, exists_eq_left, hsuccess, Bool.not_true,
          Bool.false_eq_true, if_false,
          Run.returns_write (w := { w with requests := c.url.request :: w.requests }) hl hc]
        constructor
        · rintro ⟨hfits, hd, rfl⟩
          exact ⟨⟨by simp [hfetched], hfits, hd⟩, rfl⟩
        · rintro ⟨hsavable, rfl⟩
          exact ⟨hsavable.fits, hsavable.not_isDirectory, rfl⟩
      · have hsavable : ¬ c.Savable w directory l := fun h => by
          simpa [hfetched, hsuccess] using h.isSome
        simp only [and_assoc, exists_and_left, exists_eq_left, hsuccess, Bool.not_false, if_true,
          Run.returns_bind, Run.returns_throw, false_and, exists_false, hsavable]

theorem returns_fetch {s s' : ImageStore} {w w' : World} {document address : String}
    {l : Location} {u : Unit} (hs : s.saved.lookup address = none)
    (hl : w.files.DirectoryAt s.directory l) :
    StoreRun.Returns (fetch document address) s w u s' w' ↔
      ∃ c, imageCopy? s.counter address = some c ∧ c.Savable w s.directory l ∧
        s' = s.add c ∧ w' = w.saveCopy l c := by
  unfold fetch
  simp only [StoreRun.returns_bind, StoreRun.returns_get, and_assoc, exists_eq_left,
    exists_and_left, hs, Option.isSome_none, Bool.false_eq_true, if_false]
  cases hparse : Url.parse address with
  | error e => simp [imageCopy?, hparse]
  | ok url =>
    have hdownload {u : Unit} {v : World} :
        Run.Returns (download document address url
          (Path.join s.directory (copyName (s.counter + 1) url))) w u v ↔ _ :=
      returns_download (c := ⟨address, url, copyName (s.counter + 1) url⟩) hl (plain_copyName _ _)
    simp only [imageCopy?, hparse, Option.some.injEq, exists_eq_left', StoreRun.returns_bind,
      StoreRun.returns_set, StoreRun.returns_lift,
      and_assoc, exists_and_left, exists_eq_left]
    constructor
    · rintro ⟨_, _, v, h, rfl, rfl⟩
      obtain ⟨hsavable, rfl⟩ := hdownload.1 h
      exact ⟨hsavable, rfl, rfl⟩
    · rintro ⟨hsavable, rfl, rfl⟩
      exact ⟨(), (), _, hdownload.2 ⟨hsavable, rfl⟩, rfl, rfl⟩

theorem imageCopies?_cons {n : Nat} {address : String} {addresses : List String}
    {copies : List ImageCopy} :
    imageCopies? n (address :: addresses) = some copies ↔
      ∃ c cs, copies = c :: cs ∧ imageCopy? n address = some c ∧
        imageCopies? (n + 1) addresses = some cs := by
  simp only [imageCopies?, Option.bind_eq_some_iff, Option.map_eq_some_iff]
  constructor
  · rintro ⟨c, hc, cs, hcs, rfl⟩
    exact ⟨c, cs, rfl, hc, hcs⟩
  · rintro ⟨c, cs, rfl, hc, hcs⟩
    exact ⟨c, hc, cs, hcs, rfl⟩

theorem imageCopy?_eq_some_iff {n : Nat} {address : String} {c : ImageCopy} :
    imageCopy? n address = some c ↔
      ∃ url, Url.parse address = .ok url ∧ c = ⟨address, url, copyName (n + 1) url⟩ := by
  unfold imageCopy?
  cases Url.parse address <;> simp [eq_comm]

theorem exists_imageCopy?_of_mem {n : Nat} {addresses : List String} {copies : List ImageCopy}
    (h : imageCopies? n addresses = some copies) {c : ImageCopy} (hc : c ∈ copies) :
    ∃ k address, imageCopy? k address = some c := by
  induction addresses generalizing n copies with
  | nil =>
    cases h
    cases hc
  | cons address addresses ih =>
    obtain ⟨d, cs, rfl, hd, hcs⟩ := imageCopies?_cons.1 h
    obtain rfl | hc := List.mem_cons.1 hc
    · exact ⟨n, address, hd⟩
    · exact ih hcs hc

theorem plain_of_mem_imageCopies? {n : Nat} {addresses : List String} {copies : List ImageCopy}
    (h : imageCopies? n addresses = some copies) {c : ImageCopy} (hc : c ∈ copies) :
    Path.Plain c.name := by
  obtain ⟨k, address, hcopy⟩ := exists_imageCopy?_of_mem h hc
  obtain ⟨url, -, rfl⟩ := imageCopy?_eq_some_iff.1 hcopy
  exact plain_copyName _ _

theorem parse_of_mem_imageCopies? {n : Nat} {addresses : List String} {copies : List ImageCopy}
    (h : imageCopies? n addresses = some copies) {c : ImageCopy} (hc : c ∈ copies) :
    Url.parse c.address = .ok c.url := by
  obtain ⟨k, address, hcopy⟩ := exists_imageCopy?_of_mem h hc
  obtain ⟨url, hurl, rfl⟩ := imageCopy?_eq_some_iff.1 hcopy
  exact hurl

theorem returns_fetchAll {s s' : ImageStore} {w w' : World} {document : String}
    {addresses : List String} {l : Location} {u : Unit} (hdistinct : addresses.Nodup)
    (hs : ∀ a ∈ addresses, s.saved.lookup a = none) (hl : w.files.DirectoryAt s.directory l) :
    StoreRun.Returns (fetchAll document addresses) s w u s' w' ↔
      ∃ copies, imageCopies? s.counter addresses = some copies ∧
        (∀ c ∈ copies, c.Savable w s.directory l) ∧ s' = copies.foldl add s ∧
        w' = copies.foldl (World.saveCopy l) w := by
  induction addresses generalizing s w with
  | nil => simp [fetchAll, imageCopies?]
  | cons address addresses ih =>
    obtain ⟨hnotMem, hdistinct⟩ := List.nodup_cons.1 hdistinct
    -- the copies of the other images do not depend on this one
    have hrest (c : ImageCopy) (hc : imageCopy? s.counter address = some c)
        (hsavable : c.Savable w s.directory l) :=
      ih (s := s.add c) (w := w.saveCopy l c) hdistinct
        (fun a ha => by
          have hne : (a == c.address) = false := by
            obtain ⟨url, -, rfl⟩ := imageCopy?_eq_some_iff.1 hc
            rw [beq_eq_false_iff_ne]
            rintro rfl
            exact hnotMem ha
          simpa [add, List.lookup_cons, hne] using hs a (List.mem_cons_of_mem _ ha))
        ((evolves_saveCopy hl.isDirectory hsavable).directoryAt hl)
    simp only [fetchAll, StoreRun.returns_bind,
      returns_fetch (hs address List.mem_cons_self) hl, imageCopies?_cons]
    constructor
    · rintro ⟨_, t, v, ⟨c, hc, hsavable, rfl, rfl⟩, h⟩
      obtain ⟨cs, hcs, hall, rfl, rfl⟩ := (hrest c hc hsavable).1 h
      refine ⟨c :: cs, ⟨c, cs, rfl, hc, hcs⟩, ?_, rfl, rfl⟩
      intro d hd
      obtain rfl | hd := List.mem_cons.1 hd
      · exact hsavable
      · exact (savable_saveCopy hl.isDirectory hsavable).1 (hall d hd)
    · rintro ⟨_, ⟨c, cs, rfl, hc, hcs⟩, hall, rfl, rfl⟩
      have hsavable := hall c List.mem_cons_self
      refine ⟨(), _, _, ⟨c, hc, hsavable, rfl, rfl⟩,
        (hrest c hc hsavable).2 ⟨cs, hcs, ?_, rfl, rfl⟩⟩
      intro d hd
      exact (savable_saveCopy hl.isDirectory hsavable).2 (hall d (List.mem_cons_of_mem _ hd))

/-! ### The images of a document -/

theorem nodup_firstOccurrences (seen urls : List String) :
    (firstOccurrences seen urls).Nodup ∧ ∀ url ∈ firstOccurrences seen urls, url ∉ seen := by
  induction urls generalizing seen with
  | nil => simp [firstOccurrences]
  | cons url urls ih =>
    rw [firstOccurrences]
    split
    · exact ih seen
    · rename_i hurl
      obtain ⟨hnodup, hnew⟩ := ih (url :: seen)
      refine ⟨List.nodup_cons.2 ⟨fun h => hnew url h List.mem_cons_self, hnodup⟩, ?_⟩
      intro u hu
      obtain rfl | hu := List.mem_cons.1 hu
      · simpa using hurl
      · exact fun h => hnew u hu (List.mem_cons_of_mem _ h)

theorem nodup_remoteImages (links : LinkTable) (blocks : List Block) :
    (remoteImages links blocks).Nodup := (nodup_firstOccurrences [] _).1

theorem imageCopies?_eq_nil_iff {n : Nat} {addresses : List String} {copies : List ImageCopy}
    (h : imageCopies? n addresses = some copies) : copies = [] ↔ addresses = [] := by
  cases addresses with
  | nil =>
    cases h
    simp
  | cons address addresses =>
    obtain ⟨c, cs, rfl, -, -⟩ := imageCopies?_cons.1 h
    simp

theorem mem_of_mem_firstOccurrences {seen urls : List String} {url : String}
    (h : url ∈ firstOccurrences seen urls) : url ∈ urls := by
  induction urls generalizing seen with
  | nil => exact h
  | cons u urls ih =>
    rw [firstOccurrences] at h
    split at h
    · exact List.mem_cons_of_mem _ (ih h)
    · obtain rfl | h := List.mem_cons.1 h
      · exact List.mem_cons_self
      · exact List.mem_cons_of_mem _ (ih h)

theorem isRemote_of_mem_remoteImages {links : LinkTable} {blocks : List Block} {url : String}
    (h : url ∈ remoteImages links blocks) : isRemote url = true :=
  (List.mem_filter.1 (mem_of_mem_firstOccurrences h)).2

/-- There is a copy for each image, in order. -/
theorem address_of_imageCopies? {n : Nat} {addresses : List String} {copies : List ImageCopy}
    (h : imageCopies? n addresses = some copies) : copies.map ImageCopy.address = addresses := by
  induction addresses generalizing n copies with
  | nil =>
    cases h
    rfl
  | cons address addresses ih =>
    obtain ⟨c, cs, rfl, hc, hcs⟩ := imageCopies?_cons.1 h
    obtain ⟨url, -, rfl⟩ := imageCopy?_eq_some_iff.1 hc
    rw [List.map_cons, ih hcs]

theorem saved_foldl_add (s : ImageStore) (copies : List ImageCopy) :
    (copies.foldl add s).saved =
      (copies.map fun c => (c.address, c.pageAddress)).reverse ++ s.saved := by
  induction copies generalizing s with
  | nil => rfl
  | cons c cs ih => simp [ih, add]

/-- A document is pointed at its copies. -/
theorem lookup_ofCopies {output : String} {copies : List ImageCopy} {c : ImageCopy}
    (hdistinct : (copies.map ImageCopy.address).Nodup) (hc : c ∈ copies)
    (hremote : isRemote c.address = true) :
    (ofCopies output copies).lookup c.address = .ok c.pageAddress := by
  have hsaved : (ofCopies output copies).saved.lookup c.address = some c.pageAddress := by
    rw [ofCopies, saved_foldl_add, List.lookup_eq_some_iff]
    obtain ⟨before, after, rfl⟩ := List.append_of_mem hc
    refine ⟨(after.map fun c => (c.address, c.pageAddress)).reverse,
      (before.map fun c => (c.address, c.pageAddress)).reverse, by simp [new], ?_⟩
    intro p hp
    obtain ⟨d, hd, rfl⟩ := List.mem_map.1 (List.mem_reverse.1 hp)
    rw [List.map_append, List.map_cons] at hdistinct
    have hnotMem := (List.nodup_cons.1 (List.nodup_append.1 hdistinct).2.1).1
    rw [bne_iff_ne]
    intro heq
    exact hnotMem (heq ▸ List.mem_map_of_mem hd)
  rw [lookup, hremote, hsaved]
  rfl

theorem returns_makeSaved {w w' : World} {output : String} {l : Location}
    {cause : FileError → BuildError} {u : Unit} (hl : w.files.DirectoryAt output l) :
    Run.Returns (Run.makeDirectories cause (Path.join output savedDirectory)) w u w' ↔
      Path.Fits output savedDirectory ∧
        (w.files.get? (l.child savedDirectory) = none ∨
          w.files.IsDirectory (l.child savedDirectory)) ∧
        w' = w.makeSaved (l.child savedDirectory) := by
  have hempty := Path.isEmpty_join output plain_savedDirectory.1
  have hgrown := FileTree.grown_makeDirectories w.files w.clock (Path.join output savedDirectory)
  rw [Run.returns_makeDirectories]
  by_cases hfits : Path.Fits output savedDirectory
  · have hresolve := (hl.resolve_join_eq_ok_iff plain_savedDirectory).2 ⟨hfits, rfl⟩
    cases hget : w.files.get? (l.child savedDirectory) with
    | none =>
      rw [FileTree.makeDirectories_of_get?_eq_none w.clock hempty hresolve hget]
      simp [hfits, World.makeSaved, hget]
    | some e =>
      cases e with
      | file content time =>
        have hne := FileTree.makeDirectories_of_file w.clock hempty hresolve hget
        simp [hne, FileTree.not_isDirectory_of_get? hget]
      | directory time =>
        have hd : w.files.IsDirectory (l.child savedDirectory) := ⟨time, hget⟩
        have hdir := FileTree.isDirectory_path_iff.2 ⟨_, hresolve, hd⟩
        rw [FileTree.makeDirectories_of_isDirectory w.clock (.inr hdir)]
        simp [hfits, hd, World.makeSaved, hget]
  · simp only [hfits, false_and, iff_false]
    rintro ⟨hok, -⟩
    obtain h | h := FileTree.isDirectory_makeDirectories hok
    · rw [hempty] at h
      cases h
    · obtain ⟨m, hm, -⟩ := FileTree.isDirectory_path_iff.1 h
      have hl' := hl.mono fun _ => hgrown.isDirectory
      exact hfits ((hl'.resolve_join_eq_ok_iff plain_savedDirectory).1 hm).1

theorem returns_localizeAlone_iff {w w' : World} {output document : String} {links : LinkTable}
    {blocks blocks' : List Block} :
    Run.Returns (localizeAlone output document links blocks) w blocks' w' ↔
      ∃ s, StoreRun.Returns (localize document links blocks) (new output) w blocks' s w' := by
  have hlift (x : StateM World (Except BuildError (List Block) × ImageStore))
      (out : Except BuildError (List Block) × ImageStore) (v : World) :
      Run.Returns (liftM x : Run _) w out v ↔ Id.run (x.run w) = (out, v) := by
    unfold Run.Returns Run.result
    change Id.run (StateT.run (do let a ← x; pure (Except.ok a)) w) = _ ↔ _
    rw [StateT.run_bind]
    generalize x.run w = result
    obtain ⟨a, v'⟩ := result
    constructor
    · intro h
      cases h
      rfl
    · intro h
      cases h
      rfl
  unfold localizeAlone
  simp only [Run.returns_bind, hlift]
  constructor
  · rintro ⟨⟨result, s⟩, v, hrun, h⟩
    cases result with
    | ok b =>
      obtain ⟨rfl, rfl⟩ := Run.returns_pure.1 h
      exact ⟨s, hrun⟩
    | error e => exact (Run.returns_throw.1 h).elim
  · rintro ⟨s, hrun⟩
    exact ⟨(.ok blocks', s), w', hrun, Run.returns_pure.2 ⟨rfl, rfl⟩⟩

section

variable {w w' : World} {output document : String} {links : LinkTable}
  {blocks blocks' : List Block} {s s' : ImageStore} {l : Location}

/-- A document without remote images is pointed at what the store has. -/
theorem returns_localize_of_eq_nil (hurls : remoteImages links blocks = []) :
    StoreRun.Returns (localize document links blocks) s w blocks' s' w' ↔
      relocateImages links s.lookup blocks = .ok blocks' ∧ s' = s ∧ w' = w := by
  unfold localize
  simp only [hurls, List.isEmpty_nil, Bool.not_true, Bool.false_eq_true, if_false,
    StoreRun.returns_bind, StoreRun.returns_get, and_assoc, exists_and_left, exists_eq_left]
  cases relocateImages links s.lookup blocks <;> simp [eq_comm]

/-- A document with remote images has all of them saved before it is pointed at the copies. -/
theorem returns_localize_of_ne_nil (hl : w.files.DirectoryAt output l)
    (hurls : remoteImages links blocks ≠ []) :
    StoreRun.Returns (localize document links blocks) (new output) w blocks' s' w' ↔
      ∃ copies, imageCopies? 0 (remoteImages links blocks) = some copies ∧
        CopiesSavable w output l copies ∧
        relocateImages links (ofCopies output copies).lookup blocks = .ok blocks' ∧
        s' = ofCopies output copies ∧ w' = w.save (l.child savedDirectory) copies := by
  have hp := FileTree.hasPlace_child hl.isDirectory savedDirectory
  have hfetch {t : ImageStore} {v : World} {u : Unit}
      (hv : w.files.get? (l.child savedDirectory) = none ∨
        w.files.IsDirectory (l.child savedDirectory)) (hfits : Path.Fits output savedDirectory) :
      StoreRun.Returns (fetchAll document (remoteImages links blocks)) (new output)
        (w.makeSaved (l.child savedDirectory)) u t v ↔ _ :=
    returns_fetchAll (s := new output) (nodup_remoteImages links blocks) (fun _ _ => rfl)
      (directoryAt_makeSaved hl hfits hv)
  have hne {copies : List ImageCopy}
      (hc : imageCopies? 0 (remoteImages links blocks) = some copies) : copies ≠ [] :=
    fun h => hurls ((imageCopies?_eq_nil_iff hc).1 h)
  have hsave {copies : List ImageCopy} (hc : copies ≠ []) :
      w.save (l.child savedDirectory) copies =
        copies.foldl (World.saveCopy (l.child savedDirectory))
          (w.makeSaved (l.child savedDirectory)) := if_neg (by simpa using hc)
  have hempty : (remoteImages links blocks).isEmpty = false := by simpa using hurls
  unfold localize
  simp only [hempty, Bool.not_false, if_true, StoreRun.returns_bind, StoreRun.returns_get,
    StoreRun.returns_lift, and_assoc, exists_and_left, exists_eq_left]
  constructor
  · rintro ⟨_, v, hmake, _, t, v', hall, hlast⟩
    obtain ⟨hfits, hv, rfl⟩ := (returns_makeSaved hl).1 hmake
    obtain ⟨copies, hcopies, hsavable, rfl, rfl⟩ := (hfetch hv hfits).1 hall
    refine ⟨copies, hcopies,
      ⟨fun _ => ⟨hfits, hv⟩, fun c hc => (savable_makeSaved hp hv).1 (hsavable c hc)⟩, ?_⟩
    split at hlast
    · rename_i b hblocks
      obtain ⟨rfl, rfl, rfl⟩ := StoreRun.returns_pure.1 hlast
      exact ⟨hblocks, rfl, (hsave (hne hcopies)).symm⟩
    · exact (StoreRun.returns_throw.1 hlast).elim
  · rintro ⟨copies, hcopies, hsavable, hblocks, rfl, rfl⟩
    obtain ⟨hfits, hv⟩ := hsavable.directory (hne hcopies)
    have hall := (hfetch (t := ofCopies output copies) (u := ()) hv hfits).2 ⟨copies, hcopies,
      fun c hc => (savable_makeSaved hp hv).2 (hsavable.savable c hc), rfl, rfl⟩
    refine ⟨(), _, (returns_makeSaved hl).2 ⟨hfits, hv, rfl⟩, (), _, _, hall, ?_⟩
    rw [hblocks]
    exact StoreRun.returns_pure.2 ⟨rfl, rfl, hsave (hne hcopies)⟩

/-- When the images of a document can be saved, and what is then left. -/
theorem returns_localizeAlone (hl : w.files.DirectoryAt output l) :
    Run.Returns (localizeAlone output document links blocks) w blocks' w' ↔
      ∃ copies, imageCopies? 0 (remoteImages links blocks) = some copies ∧
        CopiesSavable w output l copies ∧
        relocateImages links (ofCopies output copies).lookup blocks = .ok blocks' ∧
        w' = w.save (l.child savedDirectory) copies := by
  rw [returns_localizeAlone_iff]
  by_cases hurls : remoteImages links blocks = []
  · have hsavable : CopiesSavable w output l [] := ⟨fun h => absurd rfl h, by simp⟩
    simp only [returns_localize_of_eq_nil hurls, hurls, imageCopies?, Option.some.injEq,
      exists_eq_left', hsavable, true_and]
    constructor
    · rintro ⟨_, hblocks, rfl, rfl⟩
      exact ⟨hblocks, rfl⟩
    · rintro ⟨hblocks, rfl⟩
      exact ⟨_, hblocks, rfl, rfl⟩
  · simp only [returns_localize_of_ne_nil hl hurls]
    constructor
    · rintro ⟨_, copies, hcopies, hsavable, hblocks, -, hw⟩
      exact ⟨copies, hcopies, hsavable, hblocks, hw⟩
    · rintro ⟨copies, hcopies, hsavable, hblocks, hw⟩
      exact ⟨_, copies, hcopies, hsavable, hblocks, rfl, hw⟩

end

end ImageStore

end LiterateJournal
