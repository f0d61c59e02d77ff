import LiterateJournal.Document.Basic
import LiterateJournal.Images.Store
import LiterateJournal.Proofs.Files.Name
import LiterateJournal.Proofs.Site.Evolution

/-!
# The copies of images

Which copies a document needs, and under which names, follows from the document alone. Copies saved
before do not matter, and those under the same name are lost.

## Main definitions

* `ImageCopy`, `Document.imageCopies?` — the copies that a document needs.
* `fetched?` — what the network serves for a URL.
* `World.save`, `CopiesSavable` — the world after copies have been saved, and when they can be.

## Main statements

* `content?_save` — the last copy under a name stays.
* `evolves_save` — nothing else changes.
-/

namespace LiterateJournal

structure ImageCopy where
  /-- The address that the document gives. -/
  address : String
  url : Url
  /-- The name of the copy. -/
  name : String
deriving DecidableEq

def ImageCopy.pageAddress (c : ImageCopy) : String := savedDirectory ++ "/" ++ c.name

/-- The copy of an image with the number after `n`, if its address is a URL. -/
def imageCopy? (n : Nat) (address : String) : Option ImageCopy :=
  match Url.parse address with
  | .ok url => some ⟨address, url, ImageStore.copyName (n + 1) url⟩
  | .error _ => none

/-- The copies of some images with the numbers after `n`, if their addresses are URLs. -/
def imageCopies? (n : Nat) : List String → Option (List ImageCopy)
  | [] => some []
  | address :: rest =>
    (imageCopy? n address).bind fun c => (imageCopies? (n + 1) rest).map (c :: ·)

/-- The copies that a document needs, if the addresses of its images are URLs. -/
def Document.imageCopies? (d : Document) : Option (List ImageCopy) :=
  LiterateJournal.imageCopies? 0 (remoteImages d.links d.blocks)

def Url.request (url : Url) : Url := { url.withoutUserInfo with fragment := none }

/-- What the network serves for a URL, if it has one that can be requested. -/
def fetched? (web : Url → WebReply) (url : Url) : Option Content :=
  let bare := url.withoutUserInfo
  if (bare.scheme = "http".toList || bare.scheme = "https".toList) && bare.hasHost then
    match web url.request with
    | .reply status body => if isSuccess status then some body else none
    | .dropped => none
  else none

/-- A copy can be saved in a directory, as far as the network and the directories go. -/
structure ImageCopy.Savable (c : ImageCopy) (w : World) (directory : String) (l : Location) :
    Prop where
  isSome : (fetched? w.web c.url).isSome = true
  fits : Path.Fits directory c.name
  not_isDirectory : ¬ w.files.IsDirectory (l.child c.name)

def World.saveCopy (l : Location) (w : World) (c : ImageCopy) : World :=
  World.put { w with requests := c.url.request :: w.requests } (l.child c.name)
    ((fetched? w.web c.url).getD (.text ""))

def ImageStore.add (s : ImageStore) (c : ImageCopy) : ImageStore :=
  ⟨s.directory, s.counter + 1, (c.address, c.pageAddress) :: s.saved⟩

def ImageStore.ofCopies (output : String) (copies : List ImageCopy) : ImageStore :=
  copies.foldl ImageStore.add (ImageStore.new output)

def World.makeSaved (w : World) (l : Location) : World :=
  { w with
    files := if (w.files.get? l).isSome then w.files else w.files.set l (.directory w.clock)
    clock := w.clock + 1 }

def World.save (w : World) (l : Location) (copies : List ImageCopy) : World :=
  if copies = [] then w else copies.foldl (World.saveCopy l) (w.makeSaved l)

def saveTime (copies : List ImageCopy) : Nat := if copies = [] then 0 else copies.length + 1

theorem clock_saveCopies (w : World) (l : Location) (copies : List ImageCopy) :
    (copies.foldl (World.saveCopy l) w).clock = w.clock + copies.length := by
  induction copies generalizing w with
  | nil => rfl
  | cons c cs ih =>
    have hstep : (w.saveCopy l c).clock = w.clock + 1 := rfl
    rw [List.foldl_cons, ih, hstep, List.length_cons]
    omega

theorem clock_save (w : World) (l : Location) (copies : List ImageCopy) :
    (w.save l copies).clock = w.clock + saveTime copies := by
  unfold World.save saveTime
  split
  · rfl
  · have hmake : (w.makeSaved l).clock = w.clock + 1 := rfl
    rw [clock_saveCopies, hmake]
    omega

/-! ### Names of copies -/

theorem slash_notMem_toDigits (n : Nat) : '/' ∉ Nat.toDigits 10 n := by
  intro h
  exact absurd (Nat.isDigit_of_mem_toDigits (by decide) (by decide) h) (by decide)

theorem Url.slash_notMem_fileExtension (url : Url) : '/' ∉ url.fileExtension.toList := by
  unfold Url.fileExtension
  split
  · simp
  · split
    · rename_i hext
      simpa using Path.slash_notMem_extension? hext
    · simp

theorem ImageStore.plain_copyName (n : Nat) (url : Url) :
    Path.Plain (ImageStore.copyName n url) := by
  refine Path.plain_of_length ?_ ?_
  · simp [ImageStore.copyName]
  · simp [ImageStore.copyName, slash_notMem_toDigits, Url.slash_notMem_fileExtension]

/-! ### Saving copies -/

section Save

variable {w : World} {directory : String} {l : Location} {c : ImageCopy} {copies : List ImageCopy}

theorem get?_saveCopy (hl : w.files.IsDirectory l) (hc : c.Savable w directory l) (k : Location) :
    (w.saveCopy l c).files.get? k =
      if k = l.child c.name then some (.file ((fetched? w.web c.url).getD (.text "")) w.clock)
      else w.files.get? k :=
  FileTree.get?_set_of_not_isDirectory (FileTree.hasPlace_child hl c.name) hc.not_isDirectory k

theorem evolves_saveCopy (hl : w.files.IsDirectory l) (hc : c.Savable w directory l) :
    World.Evolves (· = l.child c.name) w (w.saveCopy l c) :=
  World.evolves_set (FileTree.hasPlace_child hl c.name) hc.not_isDirectory
    (e := .file ((fetched? w.web c.url).getD (.text "")) w.clock) (Nat.le_refl _) rfl
    (Nat.lt_succ_self _) rfl

theorem isDirectory_saveCopy (hl : w.files.IsDirectory l) (hc : c.Savable w directory l)
    {k : Location} : (w.saveCopy l c).files.IsDirectory k ↔ w.files.IsDirectory k := by
  refine ⟨?_, (evolves_saveCopy hl hc).isDirectory k⟩
  rintro ⟨time, htime⟩
  rw [get?_saveCopy hl hc] at htime
  split at htime
  · cases htime
  · exact ⟨time, htime⟩

theorem savable_saveCopy (hl : w.files.IsDirectory l) (hc : c.Savable w directory l)
    {d : ImageCopy} : d.Savable (w.saveCopy l c) directory l ↔ d.Savable w directory l := by
  have hweb : (w.saveCopy l c).web = w.web := rfl
  constructor
  · rintro ⟨hsome, hfits, hd⟩
    exact ⟨hsome, hfits, fun h => hd ((isDirectory_saveCopy hl hc).2 h)⟩
  · rintro ⟨hsome, hfits, hd⟩
    exact ⟨hsome, hfits, fun h => hd ((isDirectory_saveCopy hl hc).1 h)⟩

theorem evolves_saveCopies (hl : w.files.IsDirectory l)
    (hc : ∀ c ∈ copies, c.Savable w directory l) :
    World.Evolves (fun k => ∃ c ∈ copies, k = l.child c.name) w
      (copies.foldl (World.saveCopy l) w) := by
  induction copies generalizing w with
  | nil => exact .refl _ w
  | cons c cs ih =>
    have hhead := hc c List.mem_cons_self
    have hstep := evolves_saveCopy hl hhead
    have htail := ih (hstep.isDirectory l hl) fun d hd =>
      (savable_saveCopy hl hhead).2 (hc d (List.mem_cons_of_mem _ hd))
    refine (hstep.weaken ?_).trans (htail.weaken ?_)
    · rintro k rfl
      exact ⟨c, List.mem_cons_self, rfl⟩
    · rintro k ⟨d, hd, rfl⟩
      exact ⟨d, List.mem_cons_of_mem _ hd, rfl⟩

theorem isDirectory_saveCopies (hl : w.files.IsDirectory l)
    (hc : ∀ c ∈ copies, c.Savable w directory l) {k : Location} :
    (copies.foldl (World.saveCopy l) w).files.IsDirectory k ↔ w.files.IsDirectory k := by
  induction copies generalizing w with
  | nil => rfl
  | cons c cs ih =>
    have hhead := hc c List.mem_cons_self
    rw [← isDirectory_saveCopy hl hhead]
    exact ih ((isDirectory_saveCopy hl hhead).2 hl) fun d hd =>
      (savable_saveCopy hl hhead).2 (hc d (List.mem_cons_of_mem _ hd))

def lastCopy? (copies : List ImageCopy) (name : String) : Option ImageCopy :=
  copies.reverse.find? (·.name = name)

theorem lastCopy?_append (copies others : List ImageCopy) (name : String) :
    lastCopy? (copies ++ others) name = (lastCopy? others name).or (lastCopy? copies name) := by
  simp [lastCopy?]

theorem mem_of_lastCopy? {copies : List ImageCopy} {name : String} {c : ImageCopy}
    (h : lastCopy? copies name = some c) : c ∈ copies ∧ c.name = name :=
  ⟨List.mem_reverse.1 (List.mem_of_find?_eq_some h), by simpa using List.find?_some h⟩

/-- Of the copies saved under a name the last one stays. -/
theorem content?_saveCopies (hl : w.files.IsDirectory l)
    (hc : ∀ c ∈ copies, c.Savable w directory l) (name : String) :
    (copies.foldl (World.saveCopy l) w).files.content? (l.child name) =
      match lastCopy? copies name with
      | some c => fetched? w.web c.url
      | none => w.files.content? (l.child name) := by
  induction copies generalizing w with
  | nil => rfl
  | cons c cs ih =>
    have hhead := hc c List.mem_cons_self
    obtain ⟨body, hbody⟩ := Option.isSome_iff_exists.1 hhead.isSome
    rw [List.foldl_cons, ih ((isDirectory_saveCopy hl hhead).2 hl) fun d hd =>
      (savable_saveCopy hl hhead).2 (hc d (List.mem_cons_of_mem _ hd)),
      show c :: cs = [c] ++ cs from rfl, lastCopy?_append]
    cases hlast : lastCopy? cs name with
    | some d => rfl
    | none =>
      simp only [FileTree.content?, get?_saveCopy hl hhead, Location.child_inj, true_and,
        Option.none_or, lastCopy?, List.reverse_singleton, List.find?_singleton]
      by_cases hname : name = c.name
      · simp [hname, hbody]
      · simp [hname, Ne.symm hname]

end Save

/-! ### The directory for copies -/

theorem plain_savedDirectory : Path.Plain savedDirectory := by decide

theorem get?_makeSaved {w : World} {l : Location} (hp : w.files.hasPlace l = true)
    (h : w.files.get? l = none ∨ w.files.IsDirectory l) (k : Location) :
    (w.makeSaved l).files.get? k =
      if k = l then some ((w.files.get? l).getD (.directory w.clock)) else w.files.get? k := by
  unfold World.makeSaved
  obtain hnone | ⟨time, hd⟩ := h
  · simp only [hnone, Option.isSome_none, Bool.false_eq_true, if_false, Option.getD_none]
    exact FileTree.get?_set_of_not_isDirectory hp (FileTree.not_isDirectory_of_get?_eq_none hnone) k
  · simp only [hd, Option.isSome_some, if_true, Option.getD_some]
    split
    · rename_i hk
      rw [hk, hd]
    · rfl

theorem isDirectory_makeSaved {w : World} {l : Location} (hp : w.files.hasPlace l = true)
    (h : w.files.get? l = none ∨ w.files.IsDirectory l) {k : Location} :
    (w.makeSaved l).files.IsDirectory k ↔ w.files.IsDirectory k ∨ k = l := by
  unfold FileTree.IsDirectory
  simp only [get?_makeSaved hp h]
  by_cases hk : k = l
  · subst hk
    obtain hnone | ⟨time, hd⟩ := h
    · simp [hnone]
    · simp [hd]
  · simp [hk]

theorem evolves_makeSaved {w : World} {l : Location} (hp : w.files.hasPlace l = true)
    (h : w.files.get? l = none ∨ w.files.IsDirectory l) :
    World.Evolves (· = l) w (w.makeSaved l) := by
  obtain hnone | ⟨time, hd⟩ := h
  · refine World.evolves_set hp (FileTree.not_isDirectory_of_get?_eq_none hnone)
      (e := .directory w.clock) (Nat.le_refl _) rfl (Nat.lt_succ_self _) ?_
    simp [World.makeSaved, hnone]
  · refine .of_files_eq _ rfl (Nat.le_succ _) ?_
    simp [World.makeSaved, hd]

theorem directoryAt_makeSaved {w : World} {output : String} {l : Location}
    (hl : w.files.DirectoryAt output l) (hfits : Path.Fits output savedDirectory)
    (h : w.files.get? (l.child savedDirectory) = none ∨
      w.files.IsDirectory (l.child savedDirectory)) :
    (w.makeSaved (l.child savedDirectory)).files.DirectoryAt (Path.join output savedDirectory)
      (l.child savedDirectory) := by
  have hp := FileTree.hasPlace_child hl.isDirectory savedDirectory
  exact ((evolves_makeSaved hp h).directoryAt hl).join plain_savedDirectory hfits.2
    ((isDirectory_makeSaved hp h).2 (.inr rfl))

theorem savable_makeSaved {w : World} {directory : String} {l : Location} {c : ImageCopy}
    (hp : w.files.hasPlace l = true) (h : w.files.get? l = none ∨ w.files.IsDirectory l) :
    c.Savable (w.makeSaved l) directory l ↔ c.Savable w directory l := by
  have hne : l.child c.name ≠ l := by
    intro h
    simpa [Location.child] using congrArg Location.names h
  constructor
  · rintro ⟨hsome, hfits, hd⟩
    exact ⟨hsome, hfits, fun hd' => hd ((isDirectory_makeSaved hp h).2 (.inl hd'))⟩
  · rintro ⟨hsome, hfits, hd⟩
    exact ⟨hsome, hfits, fun hd' => hd (((isDirectory_makeSaved hp h).1 hd').resolve_right hne)⟩

/-- Copies can be saved, in a directory that may have to be made. -/
structure CopiesSavable (w : World) (output : String) (l : Location) (copies : List ImageCopy) :
    Prop where
  directory : copies ≠ [] → Path.Fits output savedDirectory ∧
    (w.files.get? (l.child savedDirectory) = none ∨ w.files.IsDirectory (l.child savedDirectory))
  savable : ∀ c ∈ copies,
    c.Savable w (Path.join output savedDirectory) (l.child savedDirectory)

section

variable {w : World} {output : String} {l : Location} {copies : List ImageCopy}

theorem CopiesSavable.savable_makeSaved (hl : w.files.DirectoryAt output l)
    (h : CopiesSavable w output l copies) (hne : copies ≠ []) :
    ∀ c ∈ copies, c.Savable (w.makeSaved (l.child savedDirectory))
      (Path.join output savedDirectory) (l.child savedDirectory) := fun c hc =>
  (LiterateJournal.savable_makeSaved (FileTree.hasPlace_child hl.isDirectory _)
    (h.directory hne).2).2 (h.savable c hc)

theorem CopiesSavable.isDirectory_makeSaved (hl : w.files.DirectoryAt output l)
    (h : CopiesSavable w output l copies) (hne : copies ≠ []) {k : Location} :
    (w.makeSaved (l.child savedDirectory)).files.IsDirectory k ↔
      w.files.IsDirectory k ∨ k = l.child savedDirectory :=
  LiterateJournal.isDirectory_makeSaved (FileTree.hasPlace_child hl.isDirectory _)
    (h.directory hne).2

/-- Only the copies and their directory are new. -/
theorem evolves_save (hl : w.files.DirectoryAt output l) (h : CopiesSavable w output l copies) :
    World.Evolves (fun k => copies ≠ [] ∧ k = l.child savedDirectory ∨
      ∃ c ∈ copies, k = (l.child savedDirectory).child c.name) w
      (w.save (l.child savedDirectory) copies) := by
  by_cases hne : copies = []
  · rw [World.save, if_pos hne]
    exact .refl _ w
  · rw [World.save, if_neg hne]
    have hmake := evolves_makeSaved (FileTree.hasPlace_child hl.isDirectory savedDirectory)
      (h.directory hne).2
    have hall := evolves_saveCopies ((h.isDirectory_makeSaved hl hne).2 (.inr rfl))
      (h.savable_makeSaved hl hne)
    exact (hmake.weaken fun k hk => .inl ⟨hne, hk⟩).trans (hall.weaken fun k hk => .inr hk)

theorem isDirectory_save (hl : w.files.DirectoryAt output l) (h : CopiesSavable w output l copies)
    {k : Location} : (w.save (l.child savedDirectory) copies).files.IsDirectory k ↔
      w.files.IsDirectory k ∨ copies ≠ [] ∧ k = l.child savedDirectory := by
  by_cases hne : copies = []
  · simp [World.save, hne]
  · rw [World.save, if_neg hne,
      isDirectory_saveCopies ((h.isDirectory_makeSaved hl hne).2 (.inr rfl))
        (h.savable_makeSaved hl hne), h.isDirectory_makeSaved hl hne]
    simp [hne]

/-- Of the copies saved under a name the last one stays. -/
theorem content?_save (hl : w.files.DirectoryAt output l) (h : CopiesSavable w output l copies)
    (name : String) :
    (w.save (l.child savedDirectory) copies).files.content? ((l.child savedDirectory).child name) =
      match lastCopy? copies name with
      | some c => fetched? w.web c.url
      | none => w.files.content? ((l.child savedDirectory).child name) := by
  by_cases hne : copies = []
  · simp [World.save, hne, lastCopy?]
  · have hkept := (evolves_makeSaved (FileTree.hasPlace_child hl.isDirectory savedDirectory)
      (h.directory hne).2).kept ((l.child savedDirectory).child name) fun heq => by
        simpa [Location.child] using congrArg Location.names heq
    rw [World.save, if_neg hne,
      content?_saveCopies ((h.isDirectory_makeSaved hl hne).2 (.inr rfl))
        (h.savable_makeSaved hl hne)]
    simp only [FileTree.content?, hkept]
    rfl

end

end LiterateJournal
