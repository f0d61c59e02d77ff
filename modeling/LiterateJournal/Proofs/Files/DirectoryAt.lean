import LiterateJournal.Proofs.Files.Change
import LiterateJournal.Proofs.Files.Join

/-!
# Directories by path

A directory has been reached by a path when the components of the path lead there. From then on
every name in it has one location, whatever else is changed, as no directory is lost.

## Main definitions

* `FileTree.DirectoryAt` — the components of a path lead to a directory.
* `Path.Fits` — the path of a name in a directory, and the name, are not too long.

## Main statements

* `FileTree.DirectoryAt.resolve_join` — where the path of a name in a directory leads.
* `FileTree.makeDirectories_parent` — making the parent of a path that leads somewhere does nothing.
-/

namespace LiterateJournal

/-- The path of a name in a directory, and the name, are not too long. -/
def Path.Fits (base x : String) : Prop :=
  (Path.join base x).utf8ByteSize ≤ FileTree.maxPath ∧ x.utf8ByteSize ≤ FileTree.maxName

instance (base x : String) : Decidable (Path.Fits base x) := inferInstanceAs (Decidable (_ ∧ _))

namespace FileTree

/-- The components of a path lead to a directory. -/
structure DirectoryAt (t : FileTree) (path : String) (l : Location) : Prop where
  walk_eq : t.walk (Path.components path) ⟨false, []⟩ = .ok l
  isDirectory : t.IsDirectory l

theorem DirectoryAt.mono {t u : FileTree} {path : String} {l : Location} (h : t.DirectoryAt path l)
    (hd : ∀ k, t.IsDirectory k → u.IsDirectory k) : u.DirectoryAt path l :=
  ⟨walk_mono hd h.walk_eq, hd l h.isDirectory⟩

theorem walk_append {t : FileTree} {cs ds : List Path.Component} {l m : Location} :
    t.walk (cs ++ ds) l = .ok m ↔ ∃ k, t.walk cs l = .ok k ∧ t.walk ds k = .ok m := by
  unfold walk
  rw [List.foldlM_append]
  cases cs.foldlM (Location.step t.get?) l <;> simp [bind, Except.bind]

theorem step_here {t : FileTree} {l : Location} (h : t.IsDirectory l) :
    Location.step t.get? l .here = .ok l := by
  obtain ⟨time, h⟩ := h
  simp [Location.step, h]

theorem step_name {t : FileTree} {l : Location} (h : t.IsDirectory l) (x : String) :
    Location.step t.get? l (.name x) =
      if maxName < x.utf8ByteSize then .error .nameTooLong else .ok (l.child x) := by
  obtain ⟨time, h⟩ := h
  simp [Location.step, h]

/-- The dot at the end of a path leads nowhere else. -/
theorem walk_components_of_resolve {t : FileTree} {path : String} {l : Location}
    (h : t.resolve path = .ok l) : t.walk (Path.components path) ⟨false, []⟩ = .ok l := by
  obtain ⟨k, hk, hrest⟩ := walk_append.1 (walk_of_resolve h)
  by_cases hdot : Path.endsWithDot path = true
  · rw [if_pos hdot] at hrest
    obtain ⟨m, hm, hnil⟩ := walk_cons_eq_ok_iff.1 hrest
    rw [step_here (isDirectory_of_step hm)] at hm
    cases hm
    cases hnil
    exact hk
  · rw [if_neg hdot] at hrest
    cases hrest
    exact hk

theorem directoryAt_of_isDirectory {t : FileTree} {path : String}
    (h : path.isEmpty = true ∨ t.isDirectory path = true) : ∃ l, t.DirectoryAt path l := by
  obtain hempty | hdir := h
  · obtain rfl := String.isEmpty_iff.1 hempty
    exact ⟨⟨false, []⟩, rfl, isDirectory_start t false⟩
  · obtain ⟨l, hl, hd⟩ := isDirectory_path_iff.1 hdir
    exact ⟨l, walk_components_of_resolve hl, hd⟩

theorem directoryAt_of_toOption {t : FileTree} {path : String} {l : Location}
    (h : (t.resolve path).toOption = some l) (hd : t.IsDirectory l) : t.DirectoryAt path l :=
  ⟨walk_components_of_resolve (eq_ok_of_toOption h), hd⟩

/-- A path of a directory that is not too long leads to it. -/
theorem DirectoryAt.isDirectory_path {t : FileTree} {path : String} {l : Location}
    (h : t.DirectoryAt path l) (hsize : path.utf8ByteSize ≤ maxPath) :
    path.isEmpty = true ∨ t.isDirectory path = true := by
  by_cases hempty : path.isEmpty = true
  · exact .inl hempty
  refine .inr (isDirectory_path_iff.2 ⟨l, ?_, h.isDirectory⟩)
  rw [resolve_eq_walk, if_neg hempty, if_neg (by omega), Path.steps]
  refine walk_append.2 ⟨l, h.walk_eq, ?_⟩
  split
  · exact walk_cons_eq_ok_iff.2 ⟨l, step_here h.isDirectory, rfl⟩
  · rfl

/-- Where the path of a name in a directory leads. -/
theorem DirectoryAt.resolve_join {t : FileTree} {base : String} {l : Location}
    (h : t.DirectoryAt base l) {x : String} (hx : Path.Plain x) :
    t.resolve (Path.join base x) =
      if Path.Fits base x then .ok (l.child x) else .error .nameTooLong := by
  rw [resolve_eq_walk, Path.isEmpty_join base hx.1, Path.steps_join base hx, walk,
    List.foldlM_append, show (Path.components base).foldlM _ _ = _ from h.walk_eq]
  simp only [Bool.false_eq_true, if_false, List.foldlM_cons, List.foldlM_nil, bind, Except.bind,
    step_name h.isDirectory]
  by_cases hpath : maxPath < (Path.join base x).utf8ByteSize
  · rw [if_pos hpath, if_neg fun hfits => by have := hfits.1; omega]
  · rw [if_neg hpath]
    by_cases hname : maxName < x.utf8ByteSize
    · rw [if_pos hname, if_neg fun hfits => by have := hfits.2; omega]
    · rw [if_neg hname, if_pos ⟨by omega, by omega⟩]
      rfl

theorem DirectoryAt.resolve_join_eq_ok_iff {t : FileTree} {base : String} {l m : Location}
    (h : t.DirectoryAt base l) {x : String} (hx : Path.Plain x) :
    t.resolve (Path.join base x) = .ok m ↔ Path.Fits base x ∧ m = l.child x := by
  rw [h.resolve_join hx]
  by_cases hfits : Path.Fits base x <;> simp [hfits, eq_comm]

/-- Where the path around a directory leads. -/
theorem DirectoryAt.resolve_join_up {t : FileTree} {base : String} {l : Location}
    (h : t.DirectoryAt base l) :
    t.resolve (Path.join base "..") =
      if maxPath < (Path.join base "..").utf8ByteSize then .error .nameTooLong
      else .ok ⟨l.isAbsolute, l.names.dropLast⟩ := by
  have hup : Path.IsPiece ".." := by decide
  obtain ⟨time, hd⟩ := h.isDirectory
  have hstep : Location.step t.get? l .up = .ok ⟨l.isAbsolute, l.names.dropLast⟩ := by
    rw [Location.step, hd]
  have hwalk : t.walk (Path.components base ++ [.up]) ⟨false, []⟩ =
      .ok ⟨l.isAbsolute, l.names.dropLast⟩ :=
    walk_append.2 ⟨l, h.walk_eq, walk_cons_eq_ok_iff.2 ⟨_, hstep, rfl⟩⟩
  rw [resolve_eq_walk, Path.isEmpty_join base hup, Path.steps, Path.endsWithDot_join base hup,
    Path.components_join_of_isPiece base hup]
  simp only [Bool.false_eq_true, if_false, List.append_nil]
  rw [show Path.Component.ofPiece "..".toList = .up from rfl, hwalk]

/-- What stands at a path in a directory is what stands at its location. -/
theorem stat_join_eq {t u : FileTree} {base x : String} {l : Location}
    (ht : t.DirectoryAt base l) (hu : u.DirectoryAt base l) (hx : Path.Plain x)
    (h : u.get? (l.child x) = t.get? (l.child x)) :
    u.stat (Path.join base x) = t.stat (Path.join base x) := by
  by_cases hfits : Path.Fits base x
  · rw [stat_of_resolve ((hu.resolve_join_eq_ok_iff hx).2 ⟨hfits, rfl⟩),
      stat_of_resolve ((ht.resolve_join_eq_ok_iff hx).2 ⟨hfits, rfl⟩), h]
  · rw [stat_of_resolve_error (by rw [hu.resolve_join hx, if_neg hfits]),
      stat_of_resolve_error (by rw [ht.resolve_join hx, if_neg hfits])]

/-- What stands at a path follows from what stands where. -/
theorem stat_eq_of_get?_eq {t u : FileTree} (h : ∀ l, u.get? l = t.get? l) (path : String) :
    u.stat path = t.stat path := by
  have hget : u.get? = t.get? := funext h
  have hresolve : u.resolve path = t.resolve path := by
    rw [resolve_eq_walk, resolve_eq_walk, walk, walk, hget]
  cases hr : t.resolve path with
  | error e => rw [stat_of_resolve_error hr, stat_of_resolve_error (hresolve.trans hr)]
  | ok l => rw [stat_of_resolve hr, stat_of_resolve (hresolve.trans hr), h]

/-- A directory in a directory. -/
theorem DirectoryAt.join {t : FileTree} {base : String} {l : Location} (h : t.DirectoryAt base l)
    {x : String} (hx : Path.Plain x) (hsize : x.utf8ByteSize ≤ maxName)
    (hd : t.IsDirectory (l.child x)) : t.DirectoryAt (Path.join base x) (l.child x) := by
  refine ⟨?_, hd⟩
  rw [Path.components_join base hx]
  refine walk_append.2 ⟨l, h.walk_eq, walk_cons_eq_ok_iff.2 ⟨l.child x, ?_, rfl⟩⟩
  rw [step_name h.isDirectory, if_neg (by omega)]

/-- A path of a name in a directory leads nowhere, unless the path before it is a directory's. -/
theorem directoryAt_of_resolve_join {t : FileTree} {base x : String} {l : Location}
    (hx : Path.Plain x) (h : t.resolve (Path.join base x) = .ok l) : ∃ k, t.DirectoryAt base k := by
  have hwalk := walk_components_of_resolve h
  rw [Path.components_join base hx] at hwalk
  obtain ⟨k, hk, hrest⟩ := walk_append.1 hwalk
  obtain ⟨m, hm, -⟩ := walk_cons_eq_ok_iff.1 hrest
  exact ⟨k, hk, isDirectory_of_step hm⟩

theorem DirectoryAt.unique {t : FileTree} {path : String} {l m : Location}
    (h : t.DirectoryAt path l) (h' : t.DirectoryAt path m) : l = m := by
  have heq := h.walk_eq.symm.trans h'.walk_eq
  simpa using heq

/-- Where a directory in a directory is. -/
theorem DirectoryAt.of_join {t : FileTree} {base x : String} {l k : Location}
    (h : t.DirectoryAt base l) (hx : Path.Plain x) (hk : t.DirectoryAt (Path.join base x) k) :
    k = l.child x := by
  have hwalk := hk.walk_eq
  rw [Path.components_join base hx] at hwalk
  obtain ⟨l', hl', hrest⟩ := walk_append.1 hwalk
  obtain rfl : l = l' := by simpa using h.walk_eq.symm.trans hl'
  obtain ⟨m, hm, hnil⟩ := walk_cons_eq_ok_iff.1 hrest
  cases hnil
  rw [step_name h.isDirectory] at hm
  split at hm
  · cases hm
  · exact (Except.ok.inj hm).symm

theorem isDirectory_parent? {t : FileTree} {path parent : String} {l : Location}
    (hl : t.resolve path = .ok l) (hp : Path.parent? path = some parent) :
    parent.isEmpty = true ∨ t.isDirectory parent = true := by
  obtain ⟨⟨c, -, hc⟩, hsize⟩ := Path.components_parent? hp
  have hwalk := walk_components_of_resolve hl
  rw [hc] at hwalk
  obtain ⟨m, hm, hlast⟩ := walk_append.1 hwalk
  obtain ⟨k, hk, -⟩ := walk_cons_eq_ok_iff.1 hlast
  exact DirectoryAt.isDirectory_path ⟨hm, isDirectory_of_step hk⟩
    (Nat.le_trans hsize (bounds_of_resolve hl).2)

/-- Only where something around it is missing can more be made than one directory. -/
theorem makeDirectories_of_error {t : FileTree} {path : String} {now : Nat} {e : FileError}
    (h : t.makeDirectory now path = .error e) (he : e ≠ .notFound) :
    (t.makeDirectories now path).2 = t := by
  unfold makeDirectories makeDirectoriesFrom
  split
  · rfl
  · rw [h]
    cases e with
    | notFound => exact absurd rfl he
    | _ => dsimp only; split <;> rfl

theorem makeDirectory_of_error {t : FileTree} {path : String} {e : FileError} (now : Nat)
    (h : t.resolve path = .error e) : t.makeDirectory now path = .error e := by
  simp [makeDirectory, place_eq_error_iff.2 h, bind, Except.bind]

/-- A directory that has been reached is not made again, even if its path is too long. -/
theorem makeDirectories_of_directoryAt {t : FileTree} {path : String} {l : Location} (now : Nat)
    (h : t.DirectoryAt path l) : (t.makeDirectories now path).2 = t := by
  by_cases hsize : path.utf8ByteSize ≤ maxPath
  · rw [makeDirectories_of_isDirectory now (h.isDirectory_path hsize)]
  · by_cases hempty : path.isEmpty = true
    · rw [makeDirectories_of_isDirectory now (.inl hempty)]
    · refine makeDirectories_of_error (makeDirectory_of_error (e := .nameTooLong) now ?_) (by simp)
      rw [resolve_eq_walk, if_neg hempty, if_pos (by omega)]

/-- Making a directory in a directory makes that one alone, or nothing. -/
theorem makeDirectories_join {t : FileTree} {base x : String} {l : Location} (now : Nat)
    (h : t.DirectoryAt base l) (hx : Path.Plain x) :
    (t.makeDirectories now (Path.join base x)).2 = t ∨
      t.resolve (Path.join base x) = .ok (l.child x) ∧ t.get? (l.child x) = none ∧
        (t.makeDirectories now (Path.join base x)).2 = t.set (l.child x) (.directory now) := by
  by_cases hfits : Path.Fits base x
  · have hresolve := (h.resolve_join_eq_ok_iff hx).2 ⟨hfits, rfl⟩
    cases hget : t.get? (l.child x) with
    | none =>
      rw [makeDirectories_of_get?_eq_none now (Path.isEmpty_join base hx.1) hresolve hget]
      exact .inr ⟨hresolve, rfl, rfl⟩
    | some e =>
      exact .inl (makeDirectories_of_error (makeDirectory_of_isSome hresolve (by rw [hget]; rfl))
        (by simp))
  · refine .inl (makeDirectories_of_error (makeDirectory_of_error (e := .nameTooLong) now ?_)
      (by simp))
    rw [h.resolve_join hx, if_neg hfits]

/-- Making the parent of a path that leads somewhere does nothing. -/
theorem makeDirectories_parent {t : FileTree} {path parent : String} {l : Location} (now : Nat)
    (hl : t.resolve path = .ok l) (hp : Path.parent? path = some parent) :
    t.makeDirectories now parent = (.ok (), t) :=
  makeDirectories_of_isDirectory now (isDirectory_parent? hl hp)

end FileTree

end LiterateJournal
