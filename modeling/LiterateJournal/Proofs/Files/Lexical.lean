import LiterateJournal.Proofs.Files.Filling

/-!
# The location that a path names

There are no links between files, so a path that leads anywhere leads to the location that its
components spell. Making a directory with those around it makes directories at the locations of
paths around its own, and nothing else.

## Main definitions

* `Location.below`, `Location.Inside` — what is in a directory, at any depth.
* `Location.Apart` — two locations of which neither is inside the other.
* `Path.location` — the location that a path names.
* `Path.IsAncestor` — a path, or one around it.

## Main statements

* `FileTree.eq_location_of_resolve` — a path leads to the location it names, if anywhere.
* `FileTree.get?_makeDirectories` — directories are made at the locations of ancestors only.
* `Path.IsAncestor.contains` — these are around the target of a path that never goes up.
-/

namespace LiterateJournal

/-! ### Below a location -/

namespace Location

def below (l : Location) (names : List String) : Location := ⟨l.isAbsolute, l.names ++ names⟩

def Inside (k l : Location) : Prop := l.Contains k ∧ k ≠ l

variable {l m k : Location}

@[simp] theorem below_nil (l : Location) : l.below [] = l := by simp [below]

theorem below_cons (l : Location) (x : String) (names : List String) :
    l.below (x :: names) = (l.child x).below names := by simp [below, child]

theorem contains_below (l : Location) (names : List String) : l.Contains (l.below names) :=
  ⟨rfl, List.prefix_append _ _⟩

theorem contains_iff_exists_below : l.Contains k ↔ ∃ names, k = l.below names := by
  constructor
  · rintro ⟨habsolute, names, hnames⟩
    refine ⟨names, ?_⟩
    obtain ⟨a, ks⟩ := k
    dsimp only at habsolute hnames
    rw [← hnames, ← habsolute]
    rfl
  · rintro ⟨names, rfl⟩
    exact contains_below l names

theorem Contains.antisymm (h : l.Contains k) (h' : k.Contains l) : l = k := by
  obtain ⟨names, rfl⟩ := contains_iff_exists_below.1 h
  have hle : (l.names ++ names).length ≤ l.names.length := h'.2.length_le
  have hnil : names = [] := by
    apply List.eq_nil_of_length_eq_zero
    rw [List.length_append] at hle
    omega
  simp [hnil]

/-- Of two locations that contain the same one, one contains the other. -/
theorem contains_or_contains (h : l.Contains k) (h' : m.Contains k) :
    l.Contains m ∨ m.Contains l := by
  obtain hp | hp := List.prefix_or_prefix_of_prefix h.2 h'.2
  · exact .inl ⟨h.1.trans h'.1.symm, hp⟩
  · exact .inr ⟨h'.1.trans h.1.symm, hp⟩

theorem child_contains_below_iff {x : String} {names : List String} :
    (l.child x).Contains (l.below names) ↔ names.head? = some x := by
  rw [contains_iff_exists_below]
  constructor
  · rintro ⟨rest, hrest⟩
    rw [← below_cons] at hrest
    obtain rfl : names = x :: rest := by simpa [below] using hrest
    rfl
  · intro h
    obtain ⟨rest, rfl⟩ := List.head?_eq_some_iff.1 h
    exact ⟨rest, below_cons l x rest⟩

theorem below_inj {xs ys : List String} (h : l.below xs = l.below ys) : xs = ys := by
  simpa [below] using h

theorem below_ne {names : List String} (h : names ≠ []) : l.below names ≠ l := fun heq =>
  h (below_inj (heq.trans l.below_nil.symm))

def Apart (m l : Location) : Prop := ¬ m.Inside l ∧ ¬ l.Inside m

instance (l k : Location) : Decidable (l.Contains k) := inferInstanceAs (Decidable (_ ∧ _))

instance (k l : Location) : Decidable (k.Inside l) := inferInstanceAs (Decidable (_ ∧ _))

instance (m l : Location) : Decidable (m.Apart l) := inferInstanceAs (Decidable (_ ∧ _))

theorem Apart.eq_of_contains (h : m.Apart l) (hm : m.Contains k) (hl : l.Contains k) : m = l := by
  by_contra hne
  obtain hc | hc := contains_or_contains hm hl
  · exact h.2 ⟨hc, Ne.symm hne⟩
  · exact h.1 ⟨hc, hne⟩

theorem Apart.child (h : m.Apart l) (x : String) : (m.child x).Apart (l.child x) := by
  have heq {k : Location} (hm : m.Contains k) (hl : l.Contains k) : m.child x = l.child x :=
    congrArg (·.child x) (h.eq_of_contains hm hl)
  constructor
  · rintro ⟨hc, hne⟩
    exact hne (heq (m.contains_child x) ((l.contains_child x).trans hc))
  · rintro ⟨hc, hne⟩
    exact hne (heq ((m.contains_child x).trans hc) (l.contains_child x)).symm

def follow (l : Location) : Path.Component → Location
  | .root => ⟨true, []⟩
  | .here => l
  | .up => ⟨l.isAbsolute, l.names.dropLast⟩
  | .name x => l.child x

theorem contains_follow (l : Location) {c : Path.Component} (hroot : c ≠ .root) (hup : c ≠ .up) :
    l.Contains (l.follow c) := by
  cases c with
  | root => exact absurd rfl hroot
  | up => exact absurd rfl hup
  | here => exact contains_refl l
  | name x => exact contains_child l x

end Location

namespace Path

def location (path : String) : Location :=
  (components path).foldl Location.follow ⟨false, []⟩

/-- The first path is the second one, or is around it. -/
inductive IsAncestor : String → String → Prop where
  | refl (path : String) : IsAncestor path path
  | parent {path parent p : String} (hparent : parent? path = some parent)
    (h : IsAncestor p parent) : IsAncestor p path

/-- A path that never goes up stays in the directories of its ancestors. -/
theorem IsAncestor.contains {p path : String} (h : IsAncestor p path)
    (hup : .up ∉ components path) : (location p).Contains (location path) := by
  induction h with
  | refl => exact Location.contains_refl _
  | @parent path parent p hparent h ih =>
    obtain ⟨⟨c, hroot, hc⟩, -⟩ := components_parent? hparent
    rw [hc, List.mem_append, List.mem_singleton] at hup
    have hlast : location path = (location parent).follow c := by
      rw [location, hc, List.foldl_append]
      rfl
    rw [hlast]
    apply (ih fun hmem => hup (.inl hmem)).trans
    exact Location.contains_follow _ hroot fun heq => hup (.inr heq.symm)

end Path

namespace FileTree

variable {t : FileTree} {l m : Location}

theorem eq_follow_of_step {c : Path.Component} (h : Location.step t.get? l c = .ok m) :
    m = l.follow c := by
  obtain ⟨time, ht⟩ := isDirectory_of_step h
  simp only [Location.step, ht] at h
  cases c with
  | name x =>
    dsimp only at h
    split at h
    · cases h
    · exact (Except.ok.inj h).symm
  | _ => exact (Except.ok.inj h).symm

theorem eq_foldl_of_walk {cs : List Path.Component} (h : t.walk cs l = .ok m) :
    m = cs.foldl Location.follow l := by
  induction cs generalizing l with
  | nil => exact (Except.ok.inj h).symm
  | cons c cs ih =>
    obtain ⟨k, hk, hrest⟩ := walk_cons_eq_ok_iff.1 h
    obtain rfl := eq_follow_of_step hk
    exact ih hrest

/-- A path leads to the location it names, if anywhere. -/
theorem eq_location_of_resolve {path : String} (h : t.resolve path = .ok l) :
    l = Path.location path :=
  eq_foldl_of_walk (walk_components_of_resolve h)

theorem DirectoryAt.eq_location {path : String} (h : t.DirectoryAt path l) :
    l = Path.location path :=
  eq_foldl_of_walk h.walk_eq

theorem get?_below_of_not_isDirectory (h : ¬ t.IsDirectory l) {names : List String}
    (hne : names ≠ []) : t.get? (l.below names) = none :=
  get?_append_of_not_isDirectory h hne

theorem get?_below_of_get?_eq_none (h : t.get? l = none) (names : List String) :
    t.get? (l.below names) = none := by
  cases names with
  | nil => rwa [Location.below_nil]
  | cons x names =>
    exact get?_below_of_not_isDirectory (not_isDirectory_of_get?_eq_none h) (List.cons_ne_nil _ _)

/-! ### Making directories -/

theorem get?_makeDirectory {u : FileTree} {now : Nat} {path : String} {k : Location}
    (h : t.makeDirectory now path = .ok u) : u.get? k = t.get? k ∨ k = Path.location path := by
  obtain ⟨l, hl, hnone, rfl⟩ := makeDirectory_eq_ok_iff.1 h
  obtain rfl := eq_location_of_resolve hl
  rw [get?_set_of_not_isDirectory (hasPlace_of_resolve hl) (not_isDirectory_of_get?_eq_none hnone)]
  split
  · rename_i heq
    exact .inr heq
  · exact .inl rfl

theorem get?_makeDirectoriesFrom (now fuel : Nat) (t : FileTree) (path : String) (k : Location) :
    (makeDirectoriesFrom now fuel t path).2.get? k = t.get? k ∨
      ∃ p, Path.IsAncestor p path ∧ k = Path.location p := by
  -- what has been made around the parent is around the path, too
  have houter {t u : FileTree} {path parent : String} (hp : Path.parent? path = some parent)
      (h : u.get? k = t.get? k ∨ ∃ p, Path.IsAncestor p parent ∧ k = Path.location p) :
      u.get? k = t.get? k ∨ ∃ p, Path.IsAncestor p path ∧ k = Path.location p := by
    apply h.imp_right
    rintro ⟨p, hp', hk⟩
    exact ⟨p, .parent hp hp', hk⟩
  have hself {t u : FileTree} {path : String} (h : t.makeDirectory now path = .ok u) :
      u.get? k = t.get? k ∨ ∃ p, Path.IsAncestor p path ∧ k = Path.location p :=
    (get?_makeDirectory h).imp_right fun hk => ⟨path, .refl path, hk⟩
  fun_induction makeDirectoriesFrom now fuel t path with
  | case1 => exact .inl rfl
  | case2 => exact .inl rfl
  | case3 _ _ _ _ _ hmake => exact hself hmake
  | case4 => exact .inl rfl
  | case5 _ _ _ _ _ _ hp _ _ h ih => rw [h] at ih; exact houter hp ih
  | case6 _ _ _ _ _ _ hp _ h _ hmake ih =>
    rw [h] at ih
    obtain hsame | hmade := hself hmake
    · rw [hsame]
      exact houter hp ih
    · exact .inr hmade
  | case7 _ _ _ _ _ _ hp _ h _ _ _ ih => rw [h] at ih; exact houter hp ih
  | case8 _ _ _ _ _ _ hp _ h _ _ _ ih => rw [h] at ih; exact houter hp ih
  | case9 => exact .inl rfl
  | case10 => exact .inl rfl

/-- Directories are made at the locations of ancestors of the path, and nothing else is. -/
theorem get?_makeDirectories (t : FileTree) (now : Nat) (path : String) (k : Location) :
    (t.makeDirectories now path).2.get? k = t.get? k ∨
      ∃ p, Path.IsAncestor p path ∧ k = Path.location p :=
  get?_makeDirectoriesFrom now _ t path k

/-- Nothing is made in the directory of a path that never goes up. -/
theorem get?_makeDirectories_of_inside (t : FileTree) (now : Nat) {path : String} {k : Location}
    (hup : .up ∉ Path.components path) (hk : k.Inside (Path.location path)) :
    (t.makeDirectories now path).2.get? k = t.get? k := by
  obtain hsame | ⟨p, hp, rfl⟩ := get?_makeDirectories t now path k
  · exact hsame
  · exact absurd ((hp.contains hup).antisymm hk.1) hk.2

end FileTree

end LiterateJournal
