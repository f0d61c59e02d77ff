import LiterateJournal.Proofs.Files.DirectoryAt
import LiterateJournal.Proofs.Files.Name
import LiterateJournal.Proofs.Text.SortedTable

/-!
# Well-formed file trees

The names in every directory of a file system differ, and each can stand in a directory. Paths lead
to locations with such names, so that no operation by path can break this.

## Main definitions

* `FileTree.WellFormed` — all names in directories are in order.
* `FileTree.ofEntries` — a tree made of entries that are put in one after another.

## Main statements

* `FileTree.WellFormed.set` — an entry put where a path leads keeps a tree well-formed.
* `FileTree.WellFormed.plain_of_mem_children`, `FileTree.WellFormed.nodup_children` — the names in
  a directory.
-/

namespace LiterateJournal

/-- The names in a directory increase, and each can stand there. -/
structure NamesInOrder (children : Children) : Prop where
  increasing : SortedTable.Increasing children
  plain : ∀ c ∈ children, Path.Plain c.1

namespace FileNode

def WellFormed (n : Option FileNode) : Prop :=
  ∀ names time children, get? names n = some (.directory time children) → NamesInOrder children

theorem WellFormed.lookup {time : Nat} {children : Children}
    (h : WellFormed (some (.directory time children))) (x : String) :
    WellFormed (children.lookup x) := fun names => h (x :: names)

theorem wellFormed_none : WellFormed none := by
  intro names time children h
  rw [get?_none] at h
  cases h

theorem wellFormed_alterChild {x : String} {f : Option FileNode → Option FileNode}
    {children : Children} (hx : Path.Plain x) (h : NamesInOrder children) :
    NamesInOrder (alterChild x f children) := by
  unfold alterChild
  split
  · refine ⟨SortedTable.increasing_insertEntry h.increasing, fun c hc => ?_⟩
    obtain rfl | hc := SortedTable.mem_insertEntry hc
    · exact hx
    · exact h.plain c hc
  · exact ⟨h.increasing.sublist List.filter_sublist, fun c hc => h.plain c (List.mem_filter.1 hc).1⟩

theorem WellFormed.alter {f : Option FileNode → Option FileNode} {names : List String}
    {n : Option FileNode} (h : WellFormed n) (hf : ∀ m, WellFormed m → WellFormed (f m))
    (hnames : ∀ x ∈ names, Path.Plain x) : WellFormed (FileNode.alter f names n) := by
  induction names generalizing n with
  | nil => exact hf n h
  | cons x xs ih =>
    match n, h with
    | none, h => exact h
    | some (.file ..), h => exact h
    | some (.directory time children), h =>
      intro ys time' children' hget
      cases ys with
      | nil =>
        cases hget
        exact wellFormed_alterChild (hnames x List.mem_cons_self) (h [] _ _ rfl)
      | cons y ys =>
        simp only [FileNode.alter, get?, lookup_alterChild] at hget
        split at hget
        · exact ih (h.lookup x) (fun z hz => hnames z (List.mem_cons_of_mem _ hz)) ys _ _ hget
        · exact h.lookup y ys _ _ hget

end FileNode

namespace FileTree

def WellFormed (t : FileTree) : Prop :=
  ∀ isAbsolute, FileNode.WellFormed (some (t.start isAbsolute))

theorem wellFormed_nodeOf (e : Entry) {old : Option FileNode} (h : FileNode.WellFormed old) :
    FileNode.WellFormed (some (nodeOf e old)) := by
  unfold nodeOf
  split
  · rintro (_ | ⟨x, xs⟩) time children hget <;> cases hget
  · rintro (_ | ⟨x, xs⟩) time children hget
    · cases hget
      exact h [] _ _ rfl
    · exact h (x :: xs) _ _ hget
  · rintro (_ | ⟨x, xs⟩) time children hget
    · cases hget
      exact ⟨List.Pairwise.nil, by simp⟩
    · rw [FileNode.get?, List.lookup_nil, FileNode.get?_none] at hget
      cases hget

/-- An entry put at a location with names in order keeps a tree well-formed. -/
theorem WellFormed.set {t : FileTree} {l : Location} (h : t.WellFormed) (e : Entry)
    (hl : ∀ x ∈ l.names, Path.Plain x) : (t.set l e).WellFormed := by
  intro isAbsolute
  by_cases hne : l.names = []
  · simpa [FileTree.set, alter, hne] using h isAbsolute
  · rw [FileTree.set, start_alter t l _ isAbsolute hne]
    split
    · exact (h isAbsolute).alter (fun m hm => wellFormed_nodeOf e hm) hl
    · exact h isAbsolute

/-- A location with names in order that is left empty keeps a tree well-formed. -/
theorem WellFormed.erase {t : FileTree} {l : Location} (h : t.WellFormed)
    (hl : ∀ x ∈ l.names, Path.Plain x) : (t.erase l).WellFormed := by
  intro isAbsolute
  by_cases hne : l.names = []
  · simpa [FileTree.erase, alter, hne] using h isAbsolute
  · rw [FileTree.erase, start_alter t l _ isAbsolute hne]
    split
    · exact (h isAbsolute).alter (fun _ _ => FileNode.wellFormed_none) hl
    · exact h isAbsolute

theorem wellFormed_new (origin : Nat) : (FileTree.new origin).WellFormed := by
  intro isAbsolute names time children h
  cases names with
  | nil =>
    cases isAbsolute <;> cases h <;> exact ⟨List.Pairwise.nil, by simp [FileTree.new]⟩
  | cons x xs =>
    have hnone :
        FileNode.get? (x :: xs) (some ((FileTree.new origin).start isAbsolute)) = none := by
      cases isAbsolute <;> exact FileNode.get?_none xs
    rw [hnone] at h
    cases h

def ofEntries (entries : List (Location × Entry)) : FileTree :=
  entries.foldl (fun t e => t.set e.1 e.2) (FileTree.new 0)

theorem wellFormed_ofEntries {entries : List (Location × Entry)}
    (h : ∀ e ∈ entries, ∀ x ∈ e.1.names, Path.Plain x) : (ofEntries entries).WellFormed := by
  unfold ofEntries
  generalize hstart : FileTree.new 0 = t
  have ht : t.WellFormed := hstart ▸ wellFormed_new 0
  clear hstart
  induction entries generalizing t with
  | nil => exact ht
  | cons e es ih =>
    exact ih (fun e' he' => h e' (List.mem_cons_of_mem _ he')) _
      (ht.set e.2 (h e List.mem_cons_self))

theorem plain_of_step {t : FileTree} {l m : Location} {c : Path.Component}
    (hl : ∀ x ∈ l.names, Path.Plain x) (hc : ∀ x, c = .name x → Path.Plain x)
    (h : Location.step t.get? l c = .ok m) : ∀ x ∈ m.names, Path.Plain x := by
  obtain ⟨time, ht⟩ := isDirectory_of_step h
  simp only [Location.step, ht] at h
  cases c with
  | root => cases h; simp
  | here => cases h; exact hl
  | up => cases h; exact fun x hx => hl x (List.dropLast_subset _ hx)
  | name x =>
    dsimp only at h
    split at h
    · cases h
    · cases h
      intro y hy
      obtain hy | hy := List.mem_append.1 hy
      · exact hl y hy
      · rw [List.mem_singleton.1 hy]
        exact hc x rfl

theorem plain_of_walk {t : FileTree} {cs : List Path.Component} {l m : Location}
    (hl : ∀ x ∈ l.names, Path.Plain x) (hcs : ∀ x, .name x ∈ cs → Path.Plain x)
    (h : t.walk cs l = .ok m) : ∀ x ∈ m.names, Path.Plain x := by
  induction cs generalizing l with
  | nil => cases h; exact hl
  | cons c cs ih =>
    obtain ⟨k, hk, hrest⟩ := walk_cons_eq_ok_iff.1 h
    refine ih (plain_of_step hl (fun x hx => hcs x (hx ▸ List.mem_cons_self)) hk)
      (fun x hx => hcs x (List.mem_cons_of_mem _ hx)) hrest

/-- A path leads to a location with names in order. -/
theorem plain_of_resolve {t : FileTree} {path : String} {l : Location}
    (h : t.resolve path = .ok l) : ∀ x ∈ l.names, Path.Plain x :=
  plain_of_walk (by simp) (fun _ => Path.plain_of_mem_components) (walk_components_of_resolve h)

theorem plain_of_directoryAt {t : FileTree} {path : String} {l : Location}
    (h : t.DirectoryAt path l) : ∀ x ∈ l.names, Path.Plain x :=
  plain_of_walk (by simp) (fun _ => Path.plain_of_mem_components) h.walk_eq

theorem plain_child {l : Location} {x : String} (hl : ∀ y ∈ l.names, Path.Plain y)
    (hx : Path.Plain x) : ∀ y ∈ (l.child x).names, Path.Plain y := by
  intro y hy
  obtain hy | hy := List.mem_append.1 hy
  · exact hl y hy
  · exact List.mem_singleton.1 hy ▸ hx

theorem childrenAt_eq {t : FileTree} {l : Location} {time : Nat} {children : Children}
    (h : t.node? l = some (.directory time children)) :
    t.childrenAt l = children.map fun (x, n) => (x, n.entry) := by
  simp [childrenAt, h]

theorem WellFormed.plain_of_mem_children {t : FileTree} {l : Location} (h : t.WellFormed)
    {c : String × Entry} (hc : c ∈ t.childrenAt l) : Path.Plain c.1 := by
  unfold childrenAt at hc
  split at hc
  · rename_i hnode
    obtain ⟨d, hd, rfl⟩ := List.mem_map.1 hc
    exact (h _ _ _ _ hnode).plain d hd
  · cases hc

/-- A directory lists what stands in it. -/
theorem WellFormed.mem_childrenAt_iff {t : FileTree} {l : Location} (h : t.WellFormed)
    {x : String} {e : Entry} : (x, e) ∈ t.childrenAt l ↔ t.get? (l.child x) = some e := by
  by_cases hd : t.IsDirectory l
  · obtain ⟨time, children, hnode⟩ := isDirectory_iff_node?.1 hd
    have hincreasing := (h _ _ _ _ hnode).increasing
    simp only [childrenAt_eq hnode, get?, ← lookup_of_node? hnode, List.mem_map, Prod.exists,
      Prod.mk.injEq, Option.map_eq_some_iff,
      SortedTable.lookup_eq_some_iff_of_increasing hincreasing]
    constructor
    · rintro ⟨_, n, hmem, rfl, rfl⟩
      exact ⟨n, hmem, rfl⟩
    · rintro ⟨n, hmem, rfl⟩
      exact ⟨x, n, hmem, rfl, rfl⟩
  · have hget : t.get? (l.child x) = none :=
      get?_append_of_not_isDirectory hd (by simp)
    have hnil : t.childrenAt l = [] := by
      unfold childrenAt
      split
      · rename_i hnode
        exact absurd (isDirectory_iff_node?.2 ⟨_, _, hnode⟩) hd
      · rfl
    simp [hget, hnil]

theorem WellFormed.nodup_children {t : FileTree} (h : t.WellFormed) (l : Location) :
    ((t.childrenAt l).map Prod.fst).Nodup := by
  unfold childrenAt
  split
  · rename_i hnode
    rw [List.map_map]
    refine List.pairwise_map.2 ((h _ _ _ _ hnode).increasing.imp ?_)
    intro a b hab (heq : a.1 = b.1)
    exact String.lt_irrefl _ (heq ▸ hab)
  · exact List.Pairwise.nil

end FileTree

end LiterateJournal
