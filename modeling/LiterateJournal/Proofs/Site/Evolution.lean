import LiterateJournal.Proofs.Site.Run

/-!
# What the making of pages leaves alone

The steps that make pages write files at a few locations. Elsewhere everything stays, no directory
is lost, and whatever is new is not older than the clock was.

## Main definitions

* `World.Evolves` — a world becomes another one, with changes at some locations only.
* `World.put` — a file has been written.

## Main statements

* `World.Evolves.trans` — one step after another.
* `Run.returns_write` — when a file can be written in a directory.
-/

namespace LiterateJournal

def Location.IsDraft (l : Location) : Prop := ∃ k x, l = Location.child k (x ++ ".tmp")

namespace World

/-- A world becomes another one. Only what stands at the `changed` locations may differ. -/
structure Evolves (changed : Location → Prop) (w w' : World) : Prop where
  web : w'.web = w.web
  clock : w.clock ≤ w'.clock
  kept : ∀ l, ¬ changed l → w'.files.get? l = w.files.get? l
  isDirectory : ∀ l, w.files.IsDirectory l → w'.files.IsDirectory l
  /-- Only drafts are removed. -/
  isSome : ∀ l, ¬ l.IsDraft → (w.files.get? l).isSome = true → (w'.files.get? l).isSome = true
  dated : ∀ l e, w'.files.get? l = some e → w.files.get? l = some e ∨ w.clock ≤ e.modified
  /-- Every change takes time. -/
  files_eq : w'.clock = w.clock → w'.files = w.files

variable {changed changed' : Location → Prop} {w v u : World}

/-- Nothing but the progress, the requests and the clock differs. -/
theorem Evolves.of_files_eq (changed : Location → Prop) (hweb : v.web = w.web)
    (hclock : w.clock ≤ v.clock) (hfiles : v.files = w.files) : Evolves changed w v where
  web := hweb
  clock := hclock
  kept _ _ := by rw [hfiles]
  isDirectory _ h := by rwa [hfiles]
  isSome _ _ h := by rwa [hfiles]
  dated _ _ h := .inl (by rwa [← hfiles])
  files_eq _ := hfiles

theorem Evolves.refl (changed : Location → Prop) (w : World) : Evolves changed w w :=
  .of_files_eq changed rfl (Nat.le_refl _) rfl

theorem evolves_report (changed : Location → Prop) (w : World) (p : Progress) :
    Evolves changed w (w.report p) := .of_files_eq changed rfl (Nat.le_refl _) rfl

theorem Evolves.trans (h : Evolves changed w v) (h' : Evolves changed v u) :
    Evolves changed w u where
  web := h'.web.trans h.web
  clock := Nat.le_trans h.clock h'.clock
  kept l hl := (h'.kept l hl).trans (h.kept l hl)
  isDirectory l hl := h'.isDirectory l (h.isDirectory l hl)
  isSome l hd hl := h'.isSome l hd (h.isSome l hd hl)
  dated l e hl := by
    obtain hv | hv := h'.dated l e hl
    · exact h.dated l e hv
    · exact .inr (Nat.le_trans h.clock hv)
  files_eq hclock := by
    have hle := h.clock
    have hle' := h'.clock
    exact (h'.files_eq (by omega)).trans (h.files_eq (by omega))

theorem Evolves.weaken (h : Evolves changed w v) (hc : ∀ l, changed l → changed' l) :
    Evolves changed' w v :=
  { h with kept := fun l hl => h.kept l fun hl' => hl (hc l hl') }

theorem Evolves.directoryAt (h : Evolves changed w v) {path : String} {l : Location}
    (hl : w.files.DirectoryAt path l) : v.files.DirectoryAt path l := hl.mono h.isDirectory

/-- Something has been put at a location without a directory. -/
theorem evolves_set {l : Location} {e : Entry} (hp : w.files.hasPlace l = true)
    (hd : ¬ w.files.IsDirectory l) (he : w.clock ≤ e.modified) (hweb : v.web = w.web)
    (hclock : w.clock < v.clock) (hfiles : v.files = w.files.set l e) :
    Evolves (· = l) w v := by
  have hget (k : Location) : v.files.get? k = if k = l then some e else w.files.get? k := by
    rw [hfiles, FileTree.get?_set_of_not_isDirectory hp hd]
  refine ⟨hweb, Nat.le_of_lt hclock, fun k hk => ?_, fun k hk => ?_, fun k _ hk => ?_,
    fun k e' hk => ?_, fun heq => absurd heq (Nat.ne_of_gt hclock)⟩
  · rw [hget, if_neg hk]
  · obtain ⟨time, htime⟩ := hk
    have hne : k ≠ l := by
      rintro rfl
      exact hd ⟨time, htime⟩
    exact ⟨time, by rw [hget, if_neg hne, htime]⟩
  · rw [hget]
    split
    · rfl
    · exact hk
  · rw [hget] at hk
    split at hk
    · cases hk
      exact .inr he
    · exact .inl hk

def put (w : World) (l : Location) (content : Content) : World :=
  { w with files := w.files.set l (.file content w.clock), clock := w.clock + 1 }

theorem get?_put {l : Location} (content : Content) (hp : w.files.hasPlace l = true)
    (hd : ¬ w.files.IsDirectory l) (k : Location) :
    (w.put l content).files.get? k =
      if k = l then some (.file content w.clock) else w.files.get? k :=
  FileTree.get?_set_of_not_isDirectory hp hd k

theorem evolves_put {l : Location} (content : Content) (hp : w.files.hasPlace l = true)
    (hd : ¬ w.files.IsDirectory l) : Evolves (· = l) w (w.put l content) :=
  evolves_set hp hd (e := .file content w.clock) (Nat.le_refl _) rfl (Nat.lt_succ_self _) rfl

end World

/-- When a file can be written in a directory, and what is then left. -/
theorem Run.returns_write {w w' : World} {base x : String} {l : Location} {content : Content}
    {cause : FileError → BuildError} {u : Unit} (hbase : w.files.DirectoryAt base l)
    (hx : Path.Plain x) :
    Returns (change cause fun files now => files.write now (Path.join base x) content) w u w' ↔
      Path.Fits base x ∧ ¬ w.files.IsDirectory (l.child x) ∧ w' = w.put (l.child x) content := by
  simp only [returns_change, FileTree.write_eq_ok_iff, hbase.resolve_join_eq_ok_iff hx,
    Path.endsWithSlash_join base hx.1]
  constructor
  · rintro ⟨files, ⟨m, ⟨hfits, rfl⟩, hd, -, rfl⟩, rfl⟩
    exact ⟨hfits, hd, rfl⟩
  · rintro ⟨hfits, hd, rfl⟩
    exact ⟨_, ⟨_, ⟨hfits, rfl⟩, hd, trivial, rfl⟩, rfl⟩

end LiterateJournal
