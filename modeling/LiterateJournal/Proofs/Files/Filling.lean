import LiterateJournal.Proofs.Files.WellFormed

/-!
# Filling a tree

Making directories and copying assets put entries where nothing was, and change nothing else. What
is below a location where nothing new has come is the same node as before.

## Main definitions

* `Location.Contains` — a location is another one, or above it.
* `FileTree.Fills` — entries have been put where nothing was.

## Main statements

* `FileTree.Fills.trans` — one filling after another.
* `FileTree.fills_set`, `FileTree.fills_makeDirectories` — the single operations.
-/

namespace LiterateJournal

/-- A location is another one, or above it. -/
def Location.Contains (l k : Location) : Prop :=
  l.isAbsolute = k.isAbsolute ∧ l.names <+: k.names

theorem Location.contains_refl (l : Location) : l.Contains l := ⟨rfl, List.prefix_refl _⟩

theorem Location.Contains.trans {l m k : Location} (h : l.Contains m) (h' : m.Contains k) :
    l.Contains k := ⟨h.1.trans h'.1, h.2.trans h'.2⟩

theorem Location.contains_child (l : Location) (x : String) : l.Contains (l.child x) :=
  ⟨rfl, List.prefix_append _ _⟩

theorem FileNode.get?_alter_of_disjoint {f : Option FileNode → Option FileNode}
    {names k : List String} {n : Option FileNode} (h : ¬ names <+: k) (h' : ¬ k <+: names) :
    FileNode.get? k (FileNode.alter f names n) = FileNode.get? k n := by
  induction names generalizing k n with
  | nil => exact absurd List.nil_prefix h
  | cons x xs ih =>
    match n with
    | none => rfl
    | some (.file ..) => rfl
    | some (.directory time children) =>
      match k with
      | [] => exact absurd List.nil_prefix h'
      | y :: ys =>
        simp only [FileNode.alter, FileNode.get?, FileNode.lookup_alterChild]
        by_cases hy : y = x
        · subst hy
          rw [if_pos rfl]
          exact ih (fun hp => h (List.cons_prefix_cons.2 ⟨rfl, hp⟩))
            (fun hp => h' (List.cons_prefix_cons.2 ⟨rfl, hp⟩))
        · rw [if_neg hy]

namespace FileTree

theorem node?_alter_of_disjoint {t : FileTree} {l k : Location}
    {f : Option FileNode → Option FileNode} (h : ¬ l.Contains k) (h' : ¬ k.Contains l) :
    (t.alter l f).node? k = t.node? k := by
  by_cases hne : l.names = []
  · simp [alter, hne]
  · unfold node?
    rw [start_alter t l f _ hne]
    split
    · rename_i ha
      exact FileNode.get?_alter_of_disjoint (fun hp => h ⟨ha, hp⟩) (fun hp => h' ⟨ha.symm, hp⟩)
    · rfl

theorem node?_eq_none_iff {t : FileTree} {l : Location} : t.node? l = none ↔ t.get? l = none := by
  simp [get?]

theorem get?_eq_none_of_contains {t : FileTree} {l k : Location} (hd : ¬ t.IsDirectory l)
    (h : l.Contains k) (hne : k ≠ l) : t.get? k = none := by
  obtain ⟨a, names⟩ := k
  obtain ⟨ha, rest, hrest⟩ := h
  dsimp only at ha hrest
  subst ha hrest
  refine get?_append_of_not_isDirectory hd ?_
  rintro rfl
  exact hne (by simp)

/-- What contains a directory is a directory. -/
theorem isDirectory_of_contains {t : FileTree} {l k : Location} (hl : t.IsDirectory l)
    (h : k.Contains l) : t.IsDirectory k := by
  by_cases hk : t.IsDirectory k
  · exact hk
  by_cases heq : l = k
  · exact heq ▸ hl
  · obtain ⟨time, htime⟩ := hl
    rw [get?_eq_none_of_contains hk h heq] at htime
    cases htime

/-- Entries not older than `since` have been put where nothing was. All but directories have been
put at `inside` locations. -/
structure Fills (since : Nat) (inside : Location → Prop) (t u : FileTree) : Prop where
  kept : ∀ l e, t.get? l = some e → u.get? l = some e
  new : ∀ l e, t.get? l = none → u.get? l = some e →
    since ≤ e.modified ∧ (e.isDirectory = true ∨ inside l)
  node : ∀ l, (∀ k, l.Contains k → u.get? k = t.get? k) → u.node? l = t.node? l
  wellFormed : t.WellFormed → u.WellFormed

variable {since : Nat} {inside : Location → Prop} {t u v : FileTree}

theorem Fills.refl (since : Nat) (inside : Location → Prop) (t : FileTree) :
    Fills since inside t t where
  kept _ _ h := h
  new l e h h' := by
    rw [h] at h'
    cases h'
  node _ _ := rfl
  wellFormed h := h

/-- What is the same before and after was the same in between. -/
theorem Fills.get?_between (h : Fills since inside t u) (h' : Fills since inside u v)
    {l : Location} (hl : v.get? l = t.get? l) : u.get? l = t.get? l := by
  cases ht : t.get? l with
  | some e => exact h.kept l e ht
  | none =>
    cases hu : u.get? l with
    | none => rfl
    | some e =>
      have hv := (h'.kept l e hu).symm.trans hl
      rw [ht] at hv
      cases hv

theorem Fills.trans (h : Fills since inside t u) (h' : Fills since inside u v) :
    Fills since inside t v where
  kept l e hl := h'.kept l e (h.kept l e hl)
  new l e hl hv := by
    cases hu : u.get? l with
    | none => exact h'.new l e hu hv
    | some e' =>
      obtain rfl : e' = e := Option.some.inj ((h'.kept l e' hu).symm.trans hv)
      exact h.new l e' hl hu
  node l hl := by
    have hsame (k : Location) (hk : l.Contains k) := h.get?_between h' (hl k hk)
    rw [← h.node l hsame]
    exact h'.node l fun k hk => (hl k hk).trans (hsame k hk).symm
  wellFormed ht := h'.wellFormed (h.wellFormed ht)

theorem node?_of_contains {l k : Location} (hk : l.Contains k) (h : u.node? l = t.node? l) :
    u.node? k = t.node? k := by
  obtain ⟨a, names⟩ := k
  obtain ⟨ha, rest, hrest⟩ := hk
  dsimp only at ha hrest
  subst ha hrest
  unfold node? at h ⊢
  rw [FileNode.get?_append, FileNode.get?_append, h]

/-- A node that is the same before and after was the same in between. -/
theorem Fills.node?_between (h : Fills since inside t u) (h' : Fills since inside u v)
    {l : Location} (hl : v.node? l = t.node? l) : u.node? l = t.node? l :=
  h.node l fun k hk => h.get?_between h' (by rw [get?, get?, node?_of_contains hk hl])

theorem Fills.mono {since' : Nat} {inside' : Location → Prop} (h : Fills since inside t u)
    (hs : since' ≤ since) (hi : ∀ l, inside l → inside' l) : Fills since' inside' t u :=
  { h with
    new := fun l e ht hu =>
      ⟨Nat.le_trans hs (h.new l e ht hu).1, (h.new l e ht hu).2.imp_right (hi l)⟩ }

theorem Fills.isDirectory (h : Fills since inside t u) {l : Location} (hl : t.IsDirectory l) :
    u.IsDirectory l := by
  obtain ⟨time, hl⟩ := hl
  exact ⟨time, h.kept l _ hl⟩

theorem Fills.directoryAt (h : Fills since inside t u) {path : String} {l : Location}
    (hl : t.DirectoryAt path l) : u.DirectoryAt path l := hl.mono fun _ => h.isDirectory

/-- An entry has been put where a path leads and nothing was. -/
theorem fills_set {path : String} {l : Location} {e : Entry} (hr : t.resolve path = .ok l)
    (hnone : t.get? l = none) (hsince : since ≤ e.modified)
    (hinside : e.isDirectory = true ∨ inside l) : Fills since inside t (t.set l e) := by
  have hp := hasPlace_of_resolve hr
  have hd := not_isDirectory_of_get?_eq_none hnone
  have hget := get?_set_of_not_isDirectory (e := e) hp hd
  refine ⟨fun k e' hk => ?_, fun k e' hk hk' => ?_, fun k hk => ?_, fun h => h.set e ?_⟩
  · rw [hget, if_neg ?_, hk]
    rintro rfl
    rw [hnone] at hk
    cases hk
  · rw [hget] at hk'
    split at hk'
    · rename_i heq
      cases hk'
      exact ⟨hsince, heq ▸ hinside⟩
    · rw [hk] at hk'
      cases hk'
  · by_cases habove : k.Contains l
    · have hl := hk l habove
      rw [hget, if_pos rfl, hnone] at hl
      cases hl
    · by_cases hbelow : l.Contains k
      · have hkl : k ≠ l := by
          rintro rfl
          exact habove (Location.contains_refl k)
        have hk := hget k
        rw [if_neg hkl, get?_eq_none_of_contains hd hbelow hkl] at hk
        rw [node?_eq_none_iff.2 hk,
          node?_eq_none_iff.2 (get?_eq_none_of_contains hd hbelow hkl)]
      · exact node?_alter_of_disjoint hbelow habove
  · exact plain_of_resolve hr

theorem fills_makeDirectory {now : Nat} {path : String} (hs : since ≤ now)
    (h : t.makeDirectory now path = .ok u) : Fills since inside t u := by
  obtain ⟨l, hl, hnone, rfl⟩ := makeDirectory_eq_ok_iff.1 h
  exact fills_set hl hnone hs (.inl rfl)

theorem fills_makeDirectories {now : Nat} (hs : since ≤ now) (t : FileTree) (path : String) :
    Fills since inside t (t.makeDirectories now path).2 :=
  makeDirectories_induction (Fills.refl since inside) Fills.trans (fills_makeDirectory hs) t path

end FileTree

end LiterateJournal
