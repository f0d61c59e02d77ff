import LiterateJournal.Proofs.Files.Filling
import LiterateJournal.Proofs.Site.Run
import LiterateJournal.Site.Assets

/-!
# The copying of assets

Copying puts entries where nothing was, at and below the target. What has been copied once is not
copied again as long as the assets and their copies stay.

## Main definitions

* `World.Fills` — the files of a world have been filled.
* `HasCopies` — all that a listing tells of has a copy.
* `Retains` — later files with the assets and their copies.

## Main statements

* `fills_copyAssets` — copying fills the target.
* `copiesStay`, `returns_copyListed_of_hasCopies`, `returns_copyAssets_of_same` — what has been
  copied is not copied again.
-/

namespace LiterateJournal

/-- The files of a world have been filled at `inside` locations. -/
structure World.Fills (inside : Location → Prop) (w w' : World) : Prop where
  web : w'.web = w.web
  clock : w.clock ≤ w'.clock
  files : w.files.Fills w.clock inside w'.files

section Fills

variable {inside inside' : Location → Prop} {w v u : World}

theorem World.Fills.trans (h : World.Fills inside w v) (h' : World.Fills inside v u) :
    World.Fills inside w u :=
  ⟨h'.web.trans h.web, Nat.le_trans h.clock h'.clock,
    h.files.trans (h'.files.mono h.clock fun _ => id)⟩

theorem World.Fills.mono (h : World.Fills inside w v) (hi : ∀ l, inside l → inside' l) :
    World.Fills inside' w v := ⟨h.web, h.clock, h.files.mono (Nat.le_refl _) hi⟩

end Fills

/-- The files of a world have been filled at `inside` locations, and directories have been made at
these only. -/
structure World.Adds (inside : Location → Prop) (w w' : World) : Prop where
  fills : World.Fills inside w w'
  made : ∀ l, w'.files.IsDirectory l → w.files.IsDirectory l ∨ inside l

namespace World.Adds

variable {inside inside' : Location → Prop} {w v u : World}

theorem of_files_eq (inside : Location → Prop) (hweb : v.web = w.web) (hclock : w.clock ≤ v.clock)
    (hfiles : v.files = w.files) : Adds inside w v where
  fills := ⟨hweb, hclock, hfiles ▸ .refl _ _ _⟩
  made _ h := .inl (hfiles ▸ h)

theorem refl (inside : Location → Prop) (w : World) : Adds inside w w :=
  of_files_eq inside rfl (Nat.le_refl _) rfl

theorem trans (h : Adds inside w v) (h' : Adds inside v u) : Adds inside w u where
  fills := h.fills.trans h'.fills
  made l hl := (h'.made l hl).elim (h.made l) .inr

theorem mono (h : Adds inside w v) (hi : ∀ l, inside l → inside' l) : Adds inside' w v where
  fills := h.fills.mono hi
  made l hl := (h.made l hl).imp_right (hi l)

/-- An entry has been put where a path leads and nothing was. -/
theorem of_set {path : String} {l : Location} {e : Entry} (hr : w.files.resolve path = .ok l)
    (hnone : w.files.get? l = none) (he : w.clock ≤ e.modified) (hinside : inside l)
    (hweb : v.web = w.web) (hclock : w.clock ≤ v.clock) (hfiles : v.files = w.files.set l e) :
    Adds inside w v where
  fills := ⟨hweb, hclock, hfiles ▸ FileTree.fills_set hr hnone he (.inr hinside)⟩
  made k := by
    rintro ⟨time, hk⟩
    rw [hfiles, FileTree.get?_set_of_not_isDirectory (FileTree.hasPlace_of_resolve hr)
      (FileTree.not_isDirectory_of_get?_eq_none hnone)] at hk
    split at hk
    · rename_i heq
      exact .inr (heq ▸ hinside)
    · exact .inl ⟨time, hk⟩

/-- What is new is not older than the clock was. -/
theorem new (h : Adds inside w v) {l : Location} {e : Entry} (hw : w.files.get? l = none)
    (hv : v.files.get? l = some e) : w.clock ≤ e.modified ∧ inside l := by
  obtain ⟨hdated, hd | hinside⟩ := h.fills.files.new l e hw hv
  · cases e with
    | file => cases hd
    | directory time =>
      obtain ⟨time', htime'⟩ | hinside := h.made l ⟨time, hv⟩
      · rw [hw] at htime'
        cases htime'
      · exact ⟨hdated, hinside⟩
  · exact ⟨hdated, hinside⟩

/-- What is not inside stays as it was. -/
theorem get?_eq (h : Adds inside w v) {l : Location} (hl : ¬ inside l) :
    v.files.get? l = w.files.get? l := by
  cases hw : w.files.get? l with
  | some e => exact h.fills.files.kept l e hw
  | none =>
    cases hv : v.files.get? l with
    | none => rfl
    | some e => exact absurd (h.new hw hv).2 hl

theorem directoryAt (h : Adds inside w v) {path : String} {l : Location}
    (hl : w.files.DirectoryAt path l) : v.files.DirectoryAt path l := h.fills.files.directoryAt hl

end World.Adds

/-- When a directory can be made, and what is then left. -/
theorem returns_ensureDirectory {w w' : World} {path : String} {u : Unit} :
    Run.Returns (ensureDirectory path) w u w' ↔
      (w.files.makeDirectories w.clock path).1 = .ok () ∧
        w' = { w with
          files := (w.files.makeDirectories w.clock path).2, clock := w.clock + 1 } :=
  Run.returns_makeDirectories

theorem fills_ensureDirectory {inside : Location → Prop} {w w' : World} {path : String} {u : Unit}
    (h : Run.Returns (ensureDirectory path) w u w') : World.Fills inside w w' := by
  obtain ⟨-, rfl⟩ := returns_ensureDirectory.1 h
  exact ⟨rfl, Nat.le_succ _, FileTree.fills_makeDirectories (Nat.le_refl _) _ _⟩

/-- Whether a directory in a directory can be made or not, nothing else is made. -/
theorem leaves_ensureDirectory_join {inside : Location → Prop} {w : World} {base x : String}
    {l : Location} (hl : w.files.DirectoryAt base l) (hx : Path.Plain x)
    (hinside : inside (l.child x)) :
    Run.Leaves (ensureDirectory (Path.join base x)) w (World.Adds inside w) := by
  refine Run.leaves_makeDirectories.2 ?_
  obtain hsame | ⟨hresolve, hnone, hset⟩ := FileTree.makeDirectories_join w.clock hl hx
  · exact .of_files_eq inside rfl (Nat.le_succ _) hsame
  · exact .of_set hresolve hnone (e := .directory w.clock) (Nat.le_refl _) hinside rfl
      (Nat.le_succ _) hset

theorem leaves_ensureDirectory_of_directoryAt (inside : Location → Prop) {w : World}
    {path : String} {l : Location} (hl : w.files.DirectoryAt path l) :
    Run.Leaves (ensureDirectory path) w (World.Adds inside w) :=
  Run.leaves_makeDirectories.2
    (.of_files_eq inside rfl (Nat.le_succ _) (FileTree.makeDirectories_of_directoryAt w.clock hl))

theorem leaves_ensureDirectory (w : World) (path : String) :
    Run.Leaves (ensureDirectory path) w (World.Adds (fun _ => True) w) :=
  Run.leaves_makeDirectories.2 ⟨⟨rfl, Nat.le_succ _,
    FileTree.fills_makeDirectories (Nat.le_refl _) _ _⟩, fun _ _ => .inr trivial⟩

theorem isDirectory_ensureDirectory {w w' : World} {path : String} {u : Unit}
    (h : Run.Returns (ensureDirectory path) w u w') :
    path.isEmpty = true ∨ w'.files.isDirectory path = true := by
  obtain ⟨hok, rfl⟩ := returns_ensureDirectory.1 h
  exact FileTree.isDirectory_makeDirectories hok

/-- A directory that is there is not made again. -/
theorem returns_ensureDirectory_of_isDirectory {w : World} {path : String}
    (h : path.isEmpty = true ∨ w.files.isDirectory path = true) :
    Run.Returns (ensureDirectory path) w () { w with clock := w.clock + 1 } := by
  rw [returns_ensureDirectory, FileTree.makeDirectories_of_isDirectory w.clock h]
  exact ⟨rfl, rfl⟩

/-! ### One file -/

theorem exists?_iff {t : FileTree} {base x : String} {l : Location} (hl : t.DirectoryAt base l)
    (hx : Path.Plain x) : t.exists? (Path.join base x) = true ↔
      Path.Fits base x ∧ (t.get? (l.child x)).isSome = true := by
  unfold FileTree.exists?
  by_cases hfits : Path.Fits base x
  · rw [FileTree.stat_of_resolve ((hl.resolve_join_eq_ok_iff hx).2 ⟨hfits, rfl⟩),
      Path.endsWithSlash_join base hx.1]
    cases t.get? (l.child x) <;> simp [hfits, Except.isOk, Except.toBool]
  · have hr : t.resolve (Path.join base x) = .error .nameTooLong := by
      rw [hl.resolve_join hx, if_neg hfits]
    rw [FileTree.stat_of_resolve_error hr]
    simp [hfits, Except.isOk, Except.toBool]

/-- A file is copied only where nothing is. -/
theorem leaves_copyAsset {w : World} {source target name : String} {l : Location}
    (hl : w.files.DirectoryAt target l) (hname : Path.Plain name) :
    Run.Leaves (copyAsset source (Path.join target name)) w (World.Adds (· = l.child name) w) := by
  rw [copyAsset, Run.leaves_bind_files]
  split
  · exact Run.leaves_pure.2 (.refl _ _)
  · rename_i hexists
    refine Run.leaves_bind.2 ⟨fun e u hfails => ?_, fun _ u hchange => Run.leaves_pure.2 ?_⟩
    · obtain ⟨_, -, -, rfl⟩ := Run.fails_change.1 hfails
      exact .refl _ _
    · obtain ⟨files, hcopy, rfl⟩ := Run.returns_change.1 hchange
      obtain ⟨content, _, -, hwrite⟩ := FileTree.copy_eq_ok_iff.1 hcopy
      obtain ⟨m, hm, -, -, rfl⟩ := FileTree.write_eq_ok_iff.1 hwrite
      obtain ⟨hfits, rfl⟩ := (hl.resolve_join_eq_ok_iff hname).1 hm
      have hnone : w.files.get? (l.child name) = none := by
        have hnot := mt (exists?_iff hl hname).2 hexists
        simpa [hfits] using hnot
      exact .of_set hm hnone (e := .file content w.clock) (Nat.le_refl _) rfl rfl
        (Nat.le_succ _) rfl

theorem exists?_copyAsset {w w' : World} {source target name : String} {n : Nat} {l : Location}
    (hl : w.files.DirectoryAt target l) (hname : Path.Plain name)
    (h : Run.Returns (copyAsset source (Path.join target name)) w n w') :
    w'.files.exists? (Path.join target name) = true := by
  have hlw' := ((leaves_copyAsset hl hname).of_returns h).directoryAt hl
  unfold copyAsset at h
  simp only [Run.returns_bind, Run.returns_files, and_assoc, exists_and_left, exists_eq_left] at h
  split at h
  · rename_i hexists
    obtain ⟨-, rfl⟩ := Run.returns_pure.1 h
    exact hexists
  · simp only [Run.returns_bind, Run.returns_change, Run.returns_pure] at h
    obtain ⟨_, v, ⟨files, hcopy, rfl⟩, -, rfl⟩ := h
    obtain ⟨content, _, -, hwrite⟩ := FileTree.copy_eq_ok_iff.1 hcopy
    obtain ⟨m, hm, hd, -, rfl⟩ := FileTree.write_eq_ok_iff.1 hwrite
    obtain ⟨hfits, rfl⟩ := (hl.resolve_join_eq_ok_iff hname).1 hm
    refine (exists?_iff hlw' hname).2 ⟨hfits, ?_⟩
    rw [FileTree.get?_set_of_not_isDirectory (FileTree.hasPlace_of_resolve hm) hd, if_pos rfl]
    rfl

/-! ### Listed entries -/

def copyEntry (root rootTarget : String) (depth : Nat) (source target : String) (copied : Nat)
    (c : String × Entry) : Run Nat := do
  match c.2 with
  | .file .. => return copied + (← copyAsset (Path.join source c.1) (Path.join target c.1))
  | .directory _ =>
    let listed := (← Run.files).children (Path.join source c.1)
    ensureDirectory (Path.join target c.1)
    match listed with
    | .ok inner =>
      return copied +
        (← copyListed root rootTarget depth (Path.join source c.1) (Path.join target c.1) inner)
    | .error e => throw (.copyFailed root rootTarget (listingMessage (Path.join source c.1) e))

theorem copyListed_succ (root rootTarget : String) (depth : Nat) (source target : String)
    (entries : List (String × Entry)) :
    copyListed root rootTarget (depth + 1) source target entries =
      entries.foldlM (copyEntry root rootTarget depth source target) 0 := by
  rw [copyListed]
  rfl

theorem returns_foldlM_cons {α : Type} {f : Nat → α → Run Nat} {x : α} {xs : List α}
    {w w' : World} {acc n : Nat} :
    Run.Returns ((x :: xs).foldlM f acc) w n w' ↔
      ∃ k v, Run.Returns (f acc x) w k v ∧ Run.Returns (xs.foldlM f k) v n w' := by
  rw [List.foldlM_cons, Run.returns_bind]

section Entry

variable {root rootTarget source target name : String} {depth copied n time : Nat} {w w' : World}

theorem returns_copyEntry_file {content : Content} :
    Run.Returns (copyEntry root rootTarget depth source target copied (name, .file content time))
        w n w' ↔
      ∃ k, Run.Returns (copyAsset (Path.join source name) (Path.join target name)) w k w' ∧
        n = copied + k := by
  unfold copyEntry
  simp only [Run.returns_bind, Run.returns_pure]
  constructor
  · rintro ⟨k, v, h, rfl, rfl⟩
    exact ⟨k, h, rfl⟩
  · rintro ⟨k, h, rfl⟩
    exact ⟨k, w', h, rfl, rfl⟩

theorem returns_copyEntry_directory :
    Run.Returns (copyEntry root rootTarget depth source target copied (name, .directory time))
        w n w' ↔
      ∃ inner v k, w.files.children (Path.join source name) = .ok inner ∧
        Run.Returns (ensureDirectory (Path.join target name)) w () v ∧
        Run.Returns (copyListed root rootTarget depth (Path.join source name)
          (Path.join target name) inner) v k w' ∧ n = copied + k := by
  unfold copyEntry
  simp only [Run.returns_bind, Run.returns_files, and_assoc, exists_and_left, exists_eq_left]
  cases w.files.children (Path.join source name) with
  | error e => simp
  | ok inner =>
    simp only [Run.returns_bind, Run.returns_pure, Except.ok.injEq, exists_eq_left']
    constructor
    · rintro ⟨_, v, hmake, k, v', h, rfl, rfl⟩
      exact ⟨v, hmake, k, h, rfl⟩
    · rintro ⟨v, hmake, k, h, rfl⟩
      exact ⟨(), v, hmake, k, w', h, rfl, rfl⟩

end Entry

theorem children_eq_ok_iff {t : FileTree} {path : String} {entries : List (String × Entry)} :
    t.children path = .ok entries ↔
      ∃ l, t.resolve path = .ok l ∧ t.IsDirectory l ∧ entries = t.childrenAt l := by
  unfold FileTree.children
  cases hr : t.resolve path with
  | error e => simp [FileTree.stat_of_resolve_error hr, bind, Except.bind]
  | ok l =>
    rw [FileTree.stat_of_resolve hr]
    cases hl : t.get? l with
    | none => simp [bind, Except.bind, FileTree.IsDirectory, hl]
    | some e =>
      cases e with
      | file content time =>
        by_cases hs : Path.endsWithSlash path = true <;>
          simp [bind, Except.bind, FileTree.IsDirectory, hl, hs, Entry.isDirectory]
      | directory time =>
        simp [bind, Except.bind, FileTree.IsDirectory, hl, Entry.isDirectory, pure, Except.pure,
          eq_comm]

/-- The directory for the copy of a directory is made before what is in it is copied. -/
theorem directoryAt_ensureDirectory_join {target name : String} {w v : World} {l : Location}
    {u : Unit} (hl : w.files.DirectoryAt target l) (hname : Path.Plain name)
    (h : Run.Returns (ensureDirectory (Path.join target name)) w u v) :
    v.files.DirectoryAt (Path.join target name) (l.child name) := by
  have hfills : World.Fills l.Contains w v := fills_ensureDirectory h
  have hlv := hfills.files.directoryAt hl
  obtain hempty | hdir := isDirectory_ensureDirectory h
  · rw [Path.isEmpty_join target hname.1] at hempty
    cases hempty
  · obtain ⟨m, hm, hd⟩ := FileTree.isDirectory_path_iff.1 hdir
    obtain ⟨hfits, rfl⟩ := (hlv.resolve_join_eq_ok_iff hname).1 hm
    exact hlv.join hname hfits.2 hd

/-- Whether a listing of directories that are `depth` directories deep can be copied or not, what is
new is in its target. -/
def CopyingAdds (root rootTarget : String) (depth : Nat) : Prop :=
  ∀ {source target : String} {entries : List (String × Entry)} {w : World} {l : Location},
    w.files.DirectoryAt target l → w.files.WellFormed → (∀ c ∈ entries, Path.Plain c.1) →
    Run.Leaves (copyListed root rootTarget depth source target entries) w (World.Adds l.Contains w)

section Leaves

variable {root rootTarget source target : String} {depth copied : Nat} {w : World} {l : Location}

theorem leaves_copyEntry {c : String × Entry} (hdepth : CopyingAdds root rootTarget depth)
    (hl : w.files.DirectoryAt target l) (hw : w.files.WellFormed) (hname : Path.Plain c.1) :
    Run.Leaves (copyEntry root rootTarget depth source target copied c) w
      (World.Adds (l.child c.1).Contains w) := by
  obtain ⟨name, e⟩ := c
  have hself (k : Location) (hk : k = l.child name) : (l.child name).Contains k :=
    hk ▸ Location.contains_refl _
  cases e with
  | file content time =>
    exact ((leaves_copyAsset hl hname).mono fun _ h => h.mono hself).bind World.Adds.trans
      fun _ _ _ _ => Run.leaves_pure.2 (.refl _ _)
  | directory time =>
    rw [copyEntry, Run.leaves_bind_files]
    refine (leaves_ensureDirectory_join hl hname (hself _ rfl)).bind World.Adds.trans
      fun _ x hmake hx => ?_
    split
    · rename_i inner hinner
      obtain ⟨m, -, -, rfl⟩ := children_eq_ok_iff.1 hinner
      have hlisted : Run.Leaves (copyListed root rootTarget depth (Path.join source name)
          (Path.join target name) (w.files.childrenAt m)) x
          (World.Adds (l.child name).Contains x) :=
        hdepth (directoryAt_ensureDirectory_join hl hname hmake) (hx.fills.files.wellFormed hw)
          fun c hc => hw.plain_of_mem_children hc
      exact hlisted.bind World.Adds.trans fun _ _ _ _ => Run.leaves_pure.2 (.refl _ _)
    · exact Run.leaves_throw.2 (.refl _ _)

theorem leaves_copyEntries {entries : List (String × Entry)}
    (hdepth : CopyingAdds root rootTarget depth) (hl : w.files.DirectoryAt target l)
    (hw : w.files.WellFormed) (hnames : ∀ c ∈ entries, Path.Plain c.1) :
    Run.Leaves (entries.foldlM (copyEntry root rootTarget depth source target) copied) w
      (World.Adds (fun k => ∃ c ∈ entries, (l.child c.1).Contains k) w) := by
  induction entries generalizing w copied with
  | nil => exact Run.leaves_pure.2 (.refl _ _)
  | cons c entries ih =>
    rw [List.foldlM_cons]
    refine (leaves_copyEntry hdepth hl hw (hnames c List.mem_cons_self)).andThen
      (fun v h => h.mono fun k hk => ⟨c, List.mem_cons_self, hk⟩) fun copied v _ hfirst => ?_
    have hrest : Run.Leaves (entries.foldlM (copyEntry root rootTarget depth source target) copied)
        v (World.Adds (fun k => ∃ d ∈ entries, (l.child d.1).Contains k) v) :=
      ih (hfirst.directoryAt hl) (hfirst.fills.files.wellFormed hw)
        fun d hd => hnames d (List.mem_cons_of_mem _ hd)
    refine hrest.mono fun u hu => ?_
    apply (hfirst.mono fun k hk => ⟨c, List.mem_cons_self, hk⟩).trans
    apply hu.mono
    rintro k ⟨d, hd, hk⟩
    exact ⟨d, List.mem_cons_of_mem _ hd, hk⟩

theorem copyingAdds (root rootTarget : String) (depth : Nat) :
    CopyingAdds root rootTarget depth := by
  induction depth with
  | zero => exact fun _ _ _ => Run.leaves_pure.2 (.refl _ _)
  | succ depth ih =>
    intro source target entries w l hl hw hnames
    rw [copyListed_succ]
    refine (leaves_copyEntries ih hl hw hnames).mono fun _ h => h.mono ?_
    rintro k ⟨c, -, hk⟩
    exact (l.contains_child c.1).trans hk

/-- What is left once the target has been made, or not, and what is in the source has been copied,
or not. -/
theorem leaves_copyAssets_of_listed {P : World → Prop}
    (hmake : Run.Leaves (ensureDirectory target) w P)
    (hcopy : ∀ v entries, Run.Returns (ensureDirectory target) w () v →
      v.files.children source = .ok entries →
      Run.Leaves (copyListed source target FileTree.maxPath source target entries) v P) :
    Run.Leaves (copyAssets source target) w P := by
  refine hmake.andThen (fun _ hv => hv) fun _ v hv hp => ?_
  rw [Run.leaves_bind_files]
  split
  · exact Run.leaves_throw.2 hp
  · exact Run.leaves_pure.2 hp
  · rw [Run.leaves_bind_files]
    split
    · exact Run.leaves_throw.2 hp
    · rename_i entries hentries
      exact hcopy v entries hv hentries

/-- Whether what is in a directory can be copied or not, what is new once the target is there is in
the target. -/
theorem leaves_copyAssets {P : World → Prop} (hw : w.files.WellFormed)
    (hmake : Run.Leaves (ensureDirectory target) w P)
    (hcopy : ∀ v l u, Run.Returns (ensureDirectory target) w () v →
      v.files.DirectoryAt target l → World.Adds l.Contains v u → P u) :
    Run.Leaves (copyAssets source target) w P := by
  refine leaves_copyAssets_of_listed hmake fun v entries hv hentries => ?_
  have hfills : World.Fills (fun _ => False) w v := fills_ensureDirectory hv
  have hwv := hfills.files.wellFormed hw
  obtain ⟨l, hl⟩ := FileTree.directoryAt_of_isDirectory (isDirectory_ensureDirectory hv)
  obtain ⟨m, -, -, rfl⟩ := children_eq_ok_iff.1 hentries
  have hadds : Run.Leaves (copyListed source target FileTree.maxPath source target
      (v.files.childrenAt m)) v (World.Adds l.Contains v) :=
    copyingAdds source target FileTree.maxPath hl hwv fun c hc => hwv.plain_of_mem_children hc
  exact hadds.mono fun u hu => hcopy v l u hv hl hu

end Leaves

theorem returns_copyAssets {source target : String} {n : Nat} {w w' : World} :
    Run.Returns (copyAssets source target) w n w' ↔
      ∃ v, Run.Returns (ensureDirectory target) w () v ∧
        ((∃ content time, v.files.stat source = .ok (.file content time) ∧ n = 0 ∧ w' = v) ∨
          ∃ entries, v.files.children source = .ok entries ∧
            Run.Returns (copyListed source target FileTree.maxPath source target entries)
              v n w') := by
  unfold copyAssets
  simp only [Run.returns_bind, Run.returns_files, and_assoc, exists_and_left, exists_eq_left]
  have hunit (P : Unit → World → Prop) : (∃ u v, P u v) ↔ ∃ v, P () v := by
    constructor
    · rintro ⟨_, v, h⟩
      exact ⟨v, h⟩
    · rintro ⟨v, h⟩
      exact ⟨(), v, h⟩
  rw [hunit]
  refine exists_congr fun v => and_congr_right fun _ => ?_
  cases hstat : v.files.stat source with
  | error e =>
    have hchildren (entries : List (String × Entry)) : v.files.children source ≠ .ok entries := by
      simp [FileTree.children, hstat, bind, Except.bind]
    simp [hchildren]
  | ok e =>
    cases e with
    | file content time =>
      have hchildren (entries : List (String × Entry)) : v.files.children source ≠ .ok entries := by
        simp [FileTree.children, hstat, bind, Except.bind]
      simp [hchildren]
    | directory time =>
      simp only [Run.returns_bind, Run.returns_files, and_assoc, exists_and_left, exists_eq_left]
      cases v.files.children source <;> simp

theorem exists_directoryAt_ensureDirectory {w w' : World} {path : String} {u : Unit}
    (h : Run.Returns (ensureDirectory path) w u w') : ∃ l, w'.files.DirectoryAt path l :=
  FileTree.directoryAt_of_isDirectory (isDirectory_ensureDirectory h)

/-- Copying fills the target. -/
theorem fills_copyAssets {source target : String} {n : Nat} {w w' : World}
    (hw : w.files.WellFormed) (h : Run.Returns (copyAssets source target) w n w') :
    ∃ l, w'.files.DirectoryAt target l ∧ World.Fills l.Contains w w' := by
  obtain ⟨v, hmake, h⟩ := returns_copyAssets.1 h
  obtain ⟨l, hl⟩ := exists_directoryAt_ensureDirectory hmake
  have hfills : World.Fills l.Contains w v := fills_ensureDirectory hmake
  have hv := hfills.files.wellFormed hw
  obtain ⟨content, time, -, -, rfl⟩ | ⟨entries, hentries, hcopy⟩ := h
  · exact ⟨l, hl, hfills⟩
  · obtain ⟨m, -, -, rfl⟩ := children_eq_ok_iff.1 hentries
    have hcopies := (copyingAdds source target FileTree.maxPath hl hv
      fun c hc => hv.plain_of_mem_children hc).of_returns hcopy
    exact ⟨l, hcopies.directoryAt hl, hfills.trans hcopies.fills⟩

/-! ### Copying again -/

/-- All that a listing tells of has a copy, and what is in its directories too, `depth` deep. -/
def HasCopies (t : FileTree) : Nat → String → String → List (String × Entry) → Prop
  | 0, _, _, _ => True
  | depth + 1, source, target, entries => ∀ c ∈ entries,
    match c.2 with
    | .file .. => t.exists? (Path.join target c.1) = true
    | .directory _ => t.isDirectory (Path.join target c.1) = true ∧
      ∃ inner, t.children (Path.join source c.1) = .ok inner ∧
        HasCopies t depth (Path.join source c.1) (Path.join target c.1) inner

/-- What has copies is not copied again. -/
theorem returns_copyListed_of_hasCopies (root rootTarget : String) {source target : String}
    {depth : Nat} {entries : List (String × Entry)} {w : World}
    (h : HasCopies w.files depth source target entries) :
    ∃ w', Run.Returns (copyListed root rootTarget depth source target entries) w 0 w' ∧
      w'.files = w.files := by
  induction depth generalizing source target entries w with
  | zero => exact ⟨w, Run.returns_pure.2 ⟨rfl, rfl⟩, rfl⟩
  | succ depth ih =>
    rw [copyListed_succ]
    induction entries generalizing w with
    | nil => exact ⟨w, Run.returns_pure.2 ⟨rfl, rfl⟩, rfl⟩
    | cons c entries ihEntries =>
      obtain ⟨v, hentry, hv⟩ : ∃ v, Run.Returns
          (copyEntry root rootTarget depth source target 0 c) w 0 v ∧ v.files = w.files := by
        have hc := h c List.mem_cons_self
        obtain ⟨name, e⟩ := c
        cases e with
        | file content time =>
          refine ⟨w, returns_copyEntry_file.2 ⟨0, ?_, rfl⟩, rfl⟩
          have hexists : w.files.exists? (Path.join target name) = true := hc
          refine Run.returns_bind.2 ⟨w.files, w, Run.returns_files.2 ⟨rfl, rfl⟩, ?_⟩
          rw [if_pos hexists]
          exact Run.returns_pure.2 ⟨rfl, rfl⟩
        | directory time =>
          obtain ⟨hdir, inner, hinner, hcopies⟩ := hc
          obtain ⟨v, hcopy, hv⟩ := ih (w := { w with clock := w.clock + 1 }) hcopies
          exact ⟨v, returns_copyEntry_directory.2 ⟨inner, _, 0, hinner,
            returns_ensureDirectory_of_isDirectory (.inr hdir), hcopy, rfl⟩, hv⟩
      obtain ⟨w', hrest, hw'⟩ := ihEntries (w := v) (by
        rw [hv]
        exact fun d hd => h d (List.mem_cons_of_mem _ hd))
      exact ⟨w', returns_foldlM_cons.2 ⟨0, v, hentry, hrest⟩, hw'.trans hv⟩

theorem childrenAt_eq_of_node?_eq {t u : FileTree} {l : Location} (h : u.node? l = t.node? l) :
    u.childrenAt l = t.childrenAt l := by
  unfold FileTree.childrenAt
  rw [h]

theorem isDirectory_path_mono {t u : FileTree} (hd : ∀ l, t.IsDirectory l → u.IsDirectory l)
    {path : String} (h : t.isDirectory path = true) : u.isDirectory path = true := by
  obtain ⟨l, hl, hdir⟩ := FileTree.isDirectory_path_iff.1 h
  exact FileTree.isDirectory_path_iff.2 ⟨l, FileTree.resolve_mono hd hl, hd l hdir⟩

/-- Later files have the assets below `a` as they were, and the copies below `b` are still there. -/
structure Retains (a b : Location) (t u : FileTree) : Prop where
  assets : u.node? a = t.node? a
  directories : ∀ k, t.IsDirectory k → u.IsDirectory k
  copies : ∀ k, b.Contains k → (t.get? k).isSome = true → (u.get? k).isSome = true

/-- The files before something was added are retained if the assets were not added to. -/
theorem Retains.of_fills {inside : Location → Prop} {a b : Location} {w v : World} {u : FileTree}
    (h : Retains a b v.files u) (hfills : World.Fills inside w v)
    (hassets : v.files.node? a = w.files.node? a) : Retains a b w.files u where
  assets := h.assets.trans hassets
  directories k hk := h.directories k (hfills.files.isDirectory hk)
  copies k hb hthere := by
    obtain ⟨e, he⟩ := Option.isSome_iff_exists.1 hthere
    exact h.copies k hb (by rw [hfills.files.kept k e he]; rfl)

/-- A listing of directories that are `depth` directories deep has copies once it has been copied,
for as long as the assets below `a` and the copies below `b` stay. -/
def CopiesStay (root rootTarget : String) (a b : Location) (u : FileTree) (depth : Nat) : Prop :=
  ∀ {source target : String} {entries : List (String × Entry)} {w w' : World} {l m : Location}
    {n : Nat}, w.files.DirectoryAt source m → a.Contains m → w.files.DirectoryAt target l →
    b.Contains l → w.files.WellFormed → (∀ c ∈ entries, Path.Plain c.1) →
    Run.Returns (copyListed root rootTarget depth source target entries) w n w' →
    w'.files.node? a = w.files.node? a → Retains a b w'.files u →
    HasCopies u depth source target entries

section CopiesStay

variable {root rootTarget source target name : String} {depth copied n : Nat} {w v w' : World}
  {u : FileTree} {l m a b : Location}

/-- A file that has been copied has a copy. -/
theorem exists?_of_returns_copyEntry_file {content : Content} {time : Nat}
    (hl : w.files.DirectoryAt target l) (hb : b.Contains l) (hname : Path.Plain name)
    (h : Run.Returns
      (copyEntry root rootTarget depth source target copied (name, .file content time)) w n v)
    (hlv : v.files.DirectoryAt target l) (hu : Retains a b v.files u) :
    u.exists? (Path.join target name) = true := by
  obtain ⟨_, hcopy, -⟩ := returns_copyEntry_file.1 h
  obtain ⟨hfits, hthere⟩ := (exists?_iff hlv hname).1 (exists?_copyAsset hl hname hcopy)
  exact (exists?_iff (hlv.mono hu.directories) hname).2
    ⟨hfits, hu.copies _ (hb.trans (l.contains_child name)) hthere⟩

/-- A directory that has been copied has a copy, and so has what is in it. -/
theorem hasCopies_of_returns_copyEntry_directory {time : Nat}
    (hdepth : CopiesStay root rootTarget a b u depth) (hm : w.files.DirectoryAt source m)
    (ha : a.Contains m) (hl : w.files.DirectoryAt target l) (hb : b.Contains l)
    (hw : w.files.WellFormed) (hname : Path.Plain name)
    (h : Run.Returns
      (copyEntry root rootTarget depth source target copied (name, .directory time)) w n v)
    (hsame : v.files.node? a = w.files.node? a) (hu : Retains a b v.files u) :
    u.isDirectory (Path.join target name) = true ∧
      ∃ inner, u.children (Path.join source name) = .ok inner ∧
        HasCopies u depth (Path.join source name) (Path.join target name) inner := by
  obtain ⟨inner, x, _, hinner, hmake, hcopy, -⟩ := returns_copyEntry_directory.1 h
  obtain ⟨m', hm', hd', rfl⟩ := children_eq_ok_iff.1 hinner
  obtain ⟨hfits, rfl⟩ := (hm.resolve_join_eq_ok_iff hname).1 hm'
  have hnames (c : String × Entry) (hc : c ∈ w.files.childrenAt (m.child name)) : Path.Plain c.1 :=
    hw.plain_of_mem_children hc
  have hx : World.Fills l.Contains w x := fills_ensureDirectory hmake
  have hwx := hx.files.wellFormed hw
  have hlx := directoryAt_ensureDirectory_join hl hname hmake
  have hinside : World.Fills l.Contains x v :=
    ((copyingAdds _ _ depth hlx hwx hnames).of_returns hcopy).fills.mono
      fun _ => (l.contains_child name).trans
  -- the assets have been the same all the time
  have hxw := hx.files.node?_between (hinside.files.mono hx.clock fun _ => id) hsame
  have hux := hu.of_fills hinside (hsame.trans hxw.symm)
  have huw := hux.of_fills hx hxw
  have ham := ha.trans (m.contains_child name)
  refine ⟨?_, w.files.childrenAt (m.child name), ?_, ?_⟩
  · have hmade := (isDirectory_ensureDirectory hmake).resolve_left
      (by rw [Path.isEmpty_join target hname.1]; exact Bool.false_ne_true)
    exact isDirectory_path_mono hux.directories hmade
  · exact children_eq_ok_iff.2 ⟨m.child name,
      ((hm.mono huw.directories).resolve_join_eq_ok_iff hname).2 ⟨hfits, rfl⟩,
      huw.directories _ hd',
      (childrenAt_eq_of_node?_eq (FileTree.node?_of_contains ham huw.assets)).symm⟩
  · exact hdepth (hx.files.directoryAt (hm.join hname hfits.2 hd')) ham hlx
      (hb.trans (l.contains_child name)) hwx hnames hcopy (hsame.trans hxw.symm) hu

theorem hasCopies_of_returns_copyEntries {entries : List (String × Entry)}
    (hdepth : CopiesStay root rootTarget a b u depth) (hm : w.files.DirectoryAt source m)
    (ha : a.Contains m) (hl : w.files.DirectoryAt target l) (hb : b.Contains l)
    (hw : w.files.WellFormed) (hnames : ∀ c ∈ entries, Path.Plain c.1)
    (h : Run.Returns (entries.foldlM (copyEntry root rootTarget depth source target) copied) w n w')
    (hsame : w'.files.node? a = w.files.node? a) (hu : Retains a b w'.files u) :
    HasCopies u (depth + 1) source target entries := by
  induction entries generalizing w copied with
  | nil => exact fun c hc => absurd hc List.not_mem_nil
  | cons c entries ih =>
    obtain ⟨k, v, hentry, hrest⟩ := returns_foldlM_cons.1 h
    have hname := hnames c List.mem_cons_self
    have hnames' (d : String × Entry) (hd : d ∈ entries) :=
      hnames d (List.mem_cons_of_mem _ hd)
    have hfirst : World.Fills l.Contains w v :=
      ((leaves_copyEntry (copyingAdds _ _ depth) hl hw hname).of_returns hentry).fills.mono
        fun _ => (l.contains_child c.1).trans
    have hwv := hfirst.files.wellFormed hw
    have hlv := hfirst.files.directoryAt hl
    have hlast : World.Fills l.Contains v w' :=
      ((leaves_copyEntries (copyingAdds _ _ depth) hlv hwv hnames').of_returns hrest).fills.mono
        fun _ ⟨d, _, hk⟩ => (l.contains_child d.1).trans hk
    have hvw := hfirst.files.node?_between (hlast.files.mono hfirst.clock fun _ => id) hsame
    have huv := hu.of_fills hlast (hsame.trans hvw.symm)
    intro d hd
    obtain rfl | hd := List.mem_cons.1 hd
    · obtain ⟨name, e⟩ := d
      cases e with
      | file content time => exact exists?_of_returns_copyEntry_file hl hb hname hentry hlv huv
      | directory time =>
        exact hasCopies_of_returns_copyEntry_directory hdepth hm ha hl hb hw hname hentry hvw huv
    · exact ih (hfirst.files.directoryAt hm) hlv hwv hnames' hrest (hsame.trans hvw.symm) d hd

/-- Once copied, everything has copies for as long as the assets and the copies stay. -/
theorem copiesStay (root rootTarget : String) (a b : Location) (u : FileTree) (depth : Nat) :
    CopiesStay root rootTarget a b u depth := by
  induction depth with
  | zero => exact fun _ _ _ _ _ _ _ _ _ => trivial
  | succ depth ih =>
    intro source target entries w w' l m n hm ha hl hb hw hnames h hsame hu
    rw [copyListed_succ] at h
    exact hasCopies_of_returns_copyEntries ih hm ha hl hb hw hnames h hsame hu

end CopiesStay

/-- Assets that have been copied are not copied again, as long as they and their copies stay. -/
theorem returns_copyAssets_of_same {source target : String} {w w' u : World} {n : Nat}
    {l : Location} (hw : w.files.WellFormed)
    (h : Run.Returns (copyAssets source target) w n w') (hl : w'.files.DirectoryAt target l)
    (hdir : ∀ k, w'.files.IsDirectory k → u.files.IsDirectory k)
    (hcopies : ∀ k, l.Contains k → u.files.get? k = w'.files.get? k)
    (hsame : ∀ x m, Run.Returns (ensureDirectory target) w () x → World.Fills l.Contains x w' →
      x.files.resolve source = .ok m →
      w'.files.node? m = x.files.node? m ∧ u.files.node? m = x.files.node? m) :
    ∃ v, Run.Returns (copyAssets source target) u 0 v ∧ v.files = u.files := by
  obtain ⟨x, hmake, hcopy⟩ := returns_copyAssets.1 h
  have hx : World.Fills l.Contains w x := fills_ensureDirectory hmake
  have hagain (hxw : ∀ k, x.files.IsDirectory k → w'.files.IsDirectory k) :
      Run.Returns (ensureDirectory target) u () { u with clock := u.clock + 1 } :=
    returns_ensureDirectory_of_isDirectory ((isDirectory_ensureDirectory hmake).imp_right
      (isDirectory_path_mono fun k hk => hdir k (hxw k hk)))
  obtain ⟨content, time, hstat, -, rfl⟩ | ⟨entries, hentries, hlisted⟩ := hcopy
  · obtain ⟨m, hm, hfile, hslash⟩ := FileTree.stat_eq_ok_iff.1 hstat
    have hnode := (hsame w' m hmake ⟨rfl, Nat.le_refl _, .refl _ _ _⟩ hm).2
    have hstat' : u.files.stat source = .ok (.file content time) :=
      FileTree.stat_eq_ok_iff.2 ⟨m, FileTree.resolve_mono hdir hm,
        by rw [← hfile, FileTree.get?, FileTree.get?, hnode], hslash⟩
    exact ⟨_, returns_copyAssets.2 ⟨_, hagain fun _ => id, .inl ⟨content, time, hstat', rfl, rfl⟩⟩,
      rfl⟩
  · obtain ⟨m, hm, hmd, rfl⟩ := children_eq_ok_iff.1 hentries
    have hnames (c : String × Entry) (hc : c ∈ x.files.childrenAt m) : Path.Plain c.1 :=
      (hx.files.wellFormed hw).plain_of_mem_children hc
    obtain ⟨k, hk⟩ := exists_directoryAt_ensureDirectory hmake
    have hfills :=
      ((copyingAdds _ _ _ hk (hx.files.wellFormed hw) hnames).of_returns hlisted).fills
    obtain rfl : k = l := FileTree.DirectoryAt.unique (hfills.files.directoryAt hk) hl
    have hxw (i : Location) (hi : x.files.IsDirectory i) := hfills.files.isDirectory hi
    have hmu := FileTree.resolve_mono hdir (FileTree.resolve_mono hxw hm)
    obtain ⟨hnode, hnode'⟩ := hsame x m hmake hfills hm
    have hretains : Retains m k w'.files u.files :=
      ⟨hnode'.trans hnode.symm, hdir, fun i hi hthere => by rwa [hcopies i hi]⟩
    have hhas := copiesStay source target m k u.files FileTree.maxPath
      ⟨FileTree.walk_components_of_resolve hm, hmd⟩ m.contains_refl hk k.contains_refl
      (hx.files.wellFormed hw) hnames hlisted hnode hretains
    obtain ⟨v, hv, hfiles⟩ := returns_copyListed_of_hasCopies source target
      (w := { u with clock := u.clock + 1 }) hhas
    refine ⟨v, returns_copyAssets.2 ⟨_, hagain hxw, .inr ⟨_, ?_, hv⟩⟩, hfiles⟩
    exact children_eq_ok_iff.2 ⟨m, hmu, hdir m (hxw m hmd),
      (childrenAt_eq_of_node?_eq hnode').symm⟩

end LiterateJournal
