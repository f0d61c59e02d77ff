import LiterateJournal.Files.Tree

/-!
# Where paths lead

A path is walked component by component, and each step asks only what stands at the location reached
so far. Hence a path that leads somewhere leads to the same location in every tree with at least the
same directories.

## Main definitions

* `FileTree.IsDirectory` — a directory stands at a location.
* `Location.step`, `FileTree.walk` — one component, and several, from a location.
* `FileTree.content?`, `FileTree.contentAt?` — the content of the file at a location or a path.

## Main statements

* `FileTree.resolve_eq_walk` — a path leads where its components lead.
* `FileTree.resolve_mono` — more directories change no path that leads somewhere.
* `FileTree.hasPlace_of_resolve` — what a path leads to is in a directory.
-/

namespace LiterateJournal

theorem eq_ok_of_toOption {ε α : Type} {x : Except ε α} {a : α} (h : x.toOption = some a) :
    x = .ok a := by
  cases x with
  | error e => cases h
  | ok b =>
    cases h
    rfl

def Location.child (l : Location) (x : String) : Location := ⟨l.isAbsolute, l.names ++ [x]⟩

@[simp] theorem Location.child_inj {l m : Location} {x y : String} :
    l.child x = m.child y ↔ l = m ∧ x = y := by
  cases l; cases m
  simp [child, and_assoc]

def Location.step (at_ : Location → Option Entry) (l : Location) (c : Path.Component) :
    Except FileError Location :=
  match at_ l with
  | none => .error .notFound
  | some (.file ..) => .error .notDirectory
  | some (.directory _) =>
    match c with
    | .root => .ok ⟨true, []⟩
    | .here => .ok l
    | .up => .ok ⟨l.isAbsolute, l.names.dropLast⟩
    | .name x =>
      if FileTree.maxName < x.utf8ByteSize then .error .nameTooLong else .ok (l.child x)

/-- The components of a path, with a dot at its end that asks for a directory. -/
def Path.steps (path : String) : List Path.Component :=
  Path.components path ++ if Path.endsWithDot path then [.here] else []

theorem FileNode.hasPlace_of_get? {names : List String} {n : Option FileNode} {m : FileNode}
    (h : FileNode.get? names n = some m) : FileNode.hasPlace names n = true := by
  induction names generalizing n with
  | nil => rfl
  | cons x xs ih =>
    match n, h with
    | some (.directory ..), h => exact ih h

theorem FileNode.hasPlace_append {names : List String} {n : Option FileNode}
    (h : FileNode.hasPlace names n = true) (rest : List String) :
    FileNode.hasPlace (names ++ rest) n = FileNode.hasPlace rest (FileNode.get? names n) := by
  induction names generalizing n with
  | nil => rfl
  | cons x xs ih =>
    match n, h with
    | some (.directory ..), h => exact ih h

theorem FileNode.hasPlace_dropLast {names : List String} {n : Option FileNode}
    (h : FileNode.hasPlace names n = true) : FileNode.hasPlace names.dropLast n = true := by
  induction names generalizing n with
  | nil => rfl
  | cons x xs ih =>
    match xs, n, h with
    | [], some (.directory ..), _ => rfl
    | y :: ys, some (.directory ..), h => exact ih h

theorem FileNode.get?_none (names : List String) : FileNode.get? names none = none := by
  cases names <;> rfl

theorem FileNode.get?_append (names rest : List String) (n : Option FileNode) :
    FileNode.get? (names ++ rest) n = FileNode.get? rest (FileNode.get? names n) := by
  induction names generalizing n with
  | nil => rfl
  | cons x xs ih =>
    match n with
    | some (.directory ..) => exact ih _
    | some (.file ..) => exact (FileNode.get?_none rest).symm
    | none => exact (FileNode.get?_none rest).symm

namespace FileTree

def IsDirectory (t : FileTree) (l : Location) : Prop := ∃ time, t.get? l = some (.directory time)

def content? (t : FileTree) (l : Location) : Option Content :=
  match t.get? l with
  | some (.file content _) => some content
  | _ => none

def contentAt? (t : FileTree) (path : String) : Option Content :=
  match t.resolve path with
  | .ok l => t.content? l
  | .error _ => none

theorem content?_eq_of_get?_eq {t u : FileTree} {l : Location} (h : t.get? l = u.get? l) :
    t.content? l = u.content? l := by
  simp only [content?, h]

theorem content?_eq_some_iff {t : FileTree} {l : Location} {content : Content} :
    t.content? l = some content ↔ ∃ time, t.get? l = some (.file content time) := by
  unfold content?
  cases t.get? l with
  | none => simp
  | some e => cases e <;> simp

def walk (t : FileTree) (cs : List Path.Component) (l : Location) : Except FileError Location :=
  cs.foldlM (Location.step t.get?) l

/-! ### Places follow the tree -/

/-- The directories on the way to a place are those of the tree. -/
def Passed (t : FileTree) (isAbsolute : Bool) : List (String × Option FileNode) → Prop
  | [] => True
  | (_, n) :: above =>
    n = t.node? ⟨isAbsolute, (above.map Prod.fst).reverse⟩ ∧ Passed t isAbsolute above

/-- A place shows what the tree has at its location. -/
def Follows (t : FileTree) (p : Place) : Prop :=
  p.here = t.node? p.location ∧ Passed t p.isAbsolute p.above

theorem follows_ofStart (t : FileTree) (isAbsolute : Bool) :
    t.Follows (Place.ofStart t isAbsolute) := ⟨rfl, trivial⟩

theorem lookup_of_node? {t : FileTree} {l : Location} {time : Nat} {children : Children}
    (h : t.node? l = some (.directory time children)) (x : String) :
    children.lookup x = t.node? (l.child x) := by
  have happend := FileNode.get?_append l.names [x] (some (t.start l.isAbsolute))
  rw [show FileNode.get? l.names _ = _ from h] at happend
  exact happend.symm

/-- A step of a place is the step of its location, and the place goes on following the tree. -/
theorem step_of_follows {t : FileTree} {p : Place} (h : t.Follows p) (c : Path.Component) :
    (p.step t c).map Place.location = Location.step t.get? p.location c ∧
      ∀ q, p.step t c = .ok q → t.Follows q := by
  obtain ⟨hhere, hpassed⟩ := h
  obtain ⟨a, here, above⟩ := p
  simp only at hhere hpassed
  have hget : t.get? ⟨a, (above.map Prod.fst).reverse⟩ = here.map FileNode.entry := by
    rw [hhere]; rfl
  match here with
  | none => exact ⟨by simp [Place.step, Location.step, Place.location, hget, Except.map], by
      simp [Place.step]⟩
  | some (.file ..) =>
    exact ⟨by simp [Place.step, Location.step, Place.location, hget, FileNode.entry, Except.map],
      by simp [Place.step]⟩
  | some (.directory time children) =>
    simp only [Place.step, Location.step, Place.location, hget, FileNode.entry, Option.map_some]
    match c, above with
    | .root, _ => exact ⟨rfl, by rintro q ⟨⟩; exact follows_ofStart t true⟩
    | .here, _ => exact ⟨rfl, by rintro q ⟨⟩; exact ⟨hhere, hpassed⟩⟩
    | .up, [] => exact ⟨rfl, by rintro q ⟨⟩; exact ⟨hhere, hpassed⟩⟩
    | .up, (x, n) :: above =>
      refine ⟨by simp [Except.map, Place.location], ?_⟩
      rintro q ⟨⟩
      exact hpassed
    | .name x, above =>
      by_cases hx : maxName < x.utf8ByteSize
      · simp [hx, Except.map]
      · refine ⟨by simp [hx, Except.map, Place.location, Location.child], ?_⟩
        simp only [if_neg hx]
        rintro q ⟨⟩
        refine ⟨?_, hhere, hpassed⟩
        simpa [Place.location, Location.child] using lookup_of_node? hhere.symm x

theorem foldlM_step_of_follows {t : FileTree} (cs : List Path.Component) {p : Place}
    (h : t.Follows p) :
    (cs.foldlM (Place.step t) p).map Place.location = t.walk cs p.location ∧
      ∀ q, cs.foldlM (Place.step t) p = .ok q → t.Follows q := by
  induction cs generalizing p with
  | nil => exact ⟨rfl, by rintro q ⟨⟩; exact h⟩
  | cons c cs ih =>
    obtain ⟨hmap, hnext⟩ := step_of_follows h c
    simp only [walk, List.foldlM_cons]
    rw [← hmap]
    cases hs : p.step t c with
    | error e => exact ⟨rfl, by rintro q ⟨⟩⟩
    | ok q => exact ih (hnext q hs)

theorem place_eq (t : FileTree) (path : String) :
    t.place path =
      if path.isEmpty then .error .notFound
      else if maxPath < path.utf8ByteSize then .error .nameTooLong
      else (Path.steps path).foldlM (Place.step t) (Place.ofStart t false) := by
  unfold place Path.steps
  split
  · rfl
  · split
    · rfl
    · rw [List.foldlM_append]
      by_cases hd : Path.endsWithDot path = true
      · simp only [hd, if_true, List.foldlM_cons, List.foldlM_nil, bind_pure]
      · simp only [hd, if_false, List.foldlM_nil, Bool.false_eq_true]

/-- A path leads where its components lead. -/
theorem resolve_eq_walk (t : FileTree) (path : String) :
    t.resolve path =
      if path.isEmpty then .error .notFound
      else if maxPath < path.utf8ByteSize then .error .nameTooLong
      else t.walk (Path.steps path) ⟨false, []⟩ := by
  rw [resolve, place_eq]
  split
  · rfl
  · split
    · rfl
    · exact (foldlM_step_of_follows _ (follows_ofStart t false)).1

/-- Only a path that is neither empty nor too long leads anywhere. -/
theorem bounds_of_resolve {t : FileTree} {path : String} {l : Location}
    (h : t.resolve path = .ok l) : path.isEmpty = false ∧ path.utf8ByteSize ≤ maxPath := by
  rw [resolve_eq_walk] at h
  split at h
  · cases h
  · rename_i hne
    split at h
    · cases h
    · exact ⟨by simpa using hne, by omega⟩

theorem utf8ByteSize_pos_of_resolve {t : FileTree} {path : String} {l : Location}
    (h : t.resolve path = .ok l) : 0 < path.utf8ByteSize := by
  apply Nat.pos_of_ne_zero
  intro hzero
  have hempty := (bounds_of_resolve h).1
  simp [String.utf8ByteSize_eq_zero_iff.1 hzero] at hempty

theorem follows_of_place {t : FileTree} {path : String} {p : Place} (h : t.place path = .ok p) :
    t.Follows p := by
  rw [place_eq] at h
  split at h
  · cases h
  · split at h
    · cases h
    · exact (foldlM_step_of_follows _ (follows_ofStart t false)).2 p h

theorem resolve_eq_ok_iff {t : FileTree} {path : String} {l : Location} :
    t.resolve path = .ok l ↔ ∃ p, t.place path = .ok p ∧ p.location = l := by
  unfold resolve
  cases t.place path <;> simp [Except.map]

theorem place_of_resolve {t : FileTree} {path : String} {l : Location}
    (h : t.resolve path = .ok l) :
    ∃ p, t.place path = .ok p ∧ p.location = l ∧ p.here = t.node? l := by
  obtain ⟨p, hp, rfl⟩ := resolve_eq_ok_iff.1 h
  exact ⟨p, hp, rfl, (follows_of_place hp).1⟩

theorem place_eq_error_iff {t : FileTree} {path : String} {e : FileError} :
    t.place path = .error e ↔ t.resolve path = .error e := by
  unfold resolve
  cases t.place path <;> simp [Except.map]

/-- What stands at a path is what stands where it leads. -/
theorem stat_of_resolve {t : FileTree} {path : String} {l : Location}
    (h : t.resolve path = .ok l) :
    t.stat path =
      match t.get? l with
      | none => .error .notFound
      | some e =>
        if Path.endsWithSlash path && !e.isDirectory then .error .notDirectory else .ok e := by
  obtain ⟨p, hp, rfl, hhere⟩ := place_of_resolve h
  simp only [stat, hp, bind, Except.bind, get?, ← hhere]
  cases p.here <;> rfl

theorem stat_of_resolve_error {t : FileTree} {path : String} {e : FileError}
    (h : t.resolve path = .error e) : t.stat path = .error e := by
  simp [stat, place_eq_error_iff.2 h, bind, Except.bind]

theorem stat_eq_ok_iff {t : FileTree} {path : String} {e : Entry} :
    t.stat path = .ok e ↔
      ∃ l, t.resolve path = .ok l ∧ t.get? l = some e ∧
        (Path.endsWithSlash path = true → e.isDirectory = true) := by
  cases hr : t.resolve path with
  | error err => simp [stat_of_resolve_error hr]
  | ok l =>
    rw [stat_of_resolve hr]
    cases hl : t.get? l with
    | none => simp [hl]
    | some e' =>
      simp only [Except.ok.injEq, exists_eq_left', hl, Option.some.injEq]
      by_cases hs : Path.endsWithSlash path = true <;> cases hd : e'.isDirectory <;>
        simp [hs] <;> grind

/-! ### Directories decide -/

theorem isDirectory_start (t : FileTree) (isAbsolute : Bool) : t.IsDirectory ⟨isAbsolute, []⟩ :=
  ⟨t.origin, rfl⟩

theorem isDirectory_of_step {t : FileTree} {l m : Location} {c : Path.Component}
    (h : Location.step t.get? l c = .ok m) : t.IsDirectory l := by
  unfold Location.step at h
  split at h
  · cases h
  · cases h
  · rename_i time hl
    exact ⟨time, hl⟩

theorem step_mono {t u : FileTree} {l m : Location} {c : Path.Component}
    (hd : u.IsDirectory l) (h : Location.step t.get? l c = .ok m) :
    Location.step u.get? l c = .ok m := by
  obtain ⟨time, ht⟩ := isDirectory_of_step h
  obtain ⟨time', hu⟩ := hd
  simp only [Location.step, ht] at h
  simp only [Location.step, hu]
  exact h

theorem walk_cons_eq_ok_iff {t : FileTree} {c : Path.Component} {cs : List Path.Component}
    {l m : Location} :
    t.walk (c :: cs) l = .ok m ↔ ∃ k, Location.step t.get? l c = .ok k ∧ t.walk cs k = .ok m := by
  simp only [walk, List.foldlM_cons]
  cases Location.step t.get? l c <;> simp [bind, Except.bind]

theorem walk_of_resolve {t : FileTree} {path : String} {l : Location}
    (h : t.resolve path = .ok l) : t.walk (Path.steps path) ⟨false, []⟩ = .ok l := by
  rw [resolve_eq_walk] at h
  split at h
  · cases h
  · split at h
    · cases h
    · exact h

theorem walk_mono {t u : FileTree} (hd : ∀ l, t.IsDirectory l → u.IsDirectory l)
    {cs : List Path.Component} {l m : Location} (h : t.walk cs l = .ok m) :
    u.walk cs l = .ok m := by
  induction cs generalizing l with
  | nil => exact h
  | cons c cs ih =>
    obtain ⟨k, hk, hrest⟩ := walk_cons_eq_ok_iff.1 h
    exact walk_cons_eq_ok_iff.2 ⟨k, step_mono (hd l (isDirectory_of_step hk)) hk, ih hrest⟩

/-- More directories change no path that leads somewhere. -/
theorem resolve_mono {t u : FileTree} (hd : ∀ l, t.IsDirectory l → u.IsDirectory l)
    {path : String} {l : Location} (h : t.resolve path = .ok l) : u.resolve path = .ok l := by
  rw [resolve_eq_walk] at h ⊢
  split at h
  · cases h
  · rename_i hne
    split at h
    · cases h
    · rename_i hlen
      rw [if_neg hne, if_neg hlen]
      exact walk_mono hd h

/-! ### Places in directories -/

theorem hasPlace_child {t : FileTree} {l : Location} (h : t.IsDirectory l) (x : String) :
    t.hasPlace (l.child x) = true := by
  obtain ⟨time, h⟩ := h
  obtain ⟨n, hn, hentry⟩ := Option.map_eq_some_iff.1 h
  match n, hn, hentry with
  | .directory _ children, hn, _ =>
    have hplace := FileNode.hasPlace_append (FileNode.hasPlace_of_get? hn) [x]
    rw [show FileNode.get? l.names _ = _ from hn] at hplace
    exact hplace

theorem hasPlace_of_step {t : FileTree} {l m : Location} {c : Path.Component}
    (hl : t.hasPlace l = true) (h : Location.step t.get? l c = .ok m) : t.hasPlace m = true := by
  obtain ⟨time, ht⟩ := isDirectory_of_step h
  simp only [Location.step, ht] at h
  cases c with
  | root => cases h; rfl
  | here => cases h; exact hl
  | up => cases h; exact FileNode.hasPlace_dropLast hl
  | name x =>
    dsimp only at h
    split at h
    · cases h
    · cases h
      exact hasPlace_child ⟨time, ht⟩ x

theorem hasPlace_of_walk {t : FileTree} {cs : List Path.Component} {l m : Location}
    (hl : t.hasPlace l = true) (h : t.walk cs l = .ok m) : t.hasPlace m = true := by
  induction cs generalizing l with
  | nil => cases h; exact hl
  | cons c cs ih =>
    obtain ⟨k, hk, hrest⟩ := walk_cons_eq_ok_iff.1 h
    exact ih (hasPlace_of_step hl hk) hrest

/-- What a path leads to is in a directory, even if nothing is there. -/
theorem hasPlace_of_resolve {t : FileTree} {path : String} {l : Location}
    (h : t.resolve path = .ok l) : t.hasPlace l = true :=
  hasPlace_of_walk rfl (walk_of_resolve h)

end FileTree

end LiterateJournal
