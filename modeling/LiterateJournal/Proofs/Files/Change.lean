import LiterateJournal.Proofs.Files.Resolution

/-!
# What changes to a file tree do

Every operation on files but the renaming of a directory changes locations where no directory
stands, and what stands there before and after holds nothing. So it is a change of one location, or
of two, and no directory is ever lost.

## Main definitions

* `FileTree.Grown` — some directories have been made where nothing was.

## Main statements

* `FileTree.get?_set_of_not_isDirectory`, `FileTree.get?_erase_of_not_isDirectory` — one location
  changes.
* `FileTree.write_eq_ok_iff`, `FileTree.rename_eq_ok_iff` — when files can be written and renamed.
* `FileTree.grown_makeDirectories` — making directories adds directories and nothing else.
-/

namespace LiterateJournal.FileTree

/-! ### One location -/

theorem names_ne_nil_of_not_isDirectory {t : FileTree} {l : Location} (h : ¬ t.IsDirectory l) :
    l.names ≠ [] := by
  obtain ⟨a, names⟩ := l
  rintro rfl
  exact h (isDirectory_start t a)

theorem isDirectory_iff_node? {t : FileTree} {l : Location} :
    t.IsDirectory l ↔ ∃ time children, t.node? l = some (.directory time children) := by
  unfold IsDirectory get?
  cases t.node? l with
  | none => simp
  | some n => cases n <;> simp [FileNode.entry]

/-- Nothing stands below a location without a directory. -/
theorem get?_append_of_not_isDirectory {t : FileTree} {l : Location} (h : ¬ t.IsDirectory l)
    {rest : List String} (hr : rest ≠ []) : t.get? ⟨l.isAbsolute, l.names ++ rest⟩ = none := by
  obtain ⟨x, xs, rfl⟩ := List.exists_cons_of_ne_nil hr
  have hnode : FileNode.get? (x :: xs) (t.node? l) = none := by
    cases hn : t.node? l with
    | none => rfl
    | some n =>
      cases n with
      | file => rfl
      | directory time children => exact absurd (isDirectory_iff_node?.2 ⟨_, _, hn⟩) h
  simp only [get?, node?, FileNode.get?_append]
  simpa [node?] using hnode

/-- A change from one entry without content to another changes what stands at one location. -/
theorem get?_alter_of_not_isDirectory {t : FileTree} {l : Location}
    {f : Option FileNode → Option FileNode} (hp : t.hasPlace l = true) (hd : ¬ t.IsDirectory l)
    (hf : ∀ x xs, FileNode.get? (x :: xs) (f (t.node? l)) = none) (k : Location) :
    (t.alter l f).get? k = if k = l then (f (t.node? l)).map FileNode.entry else t.get? k := by
  have hne := names_ne_nil_of_not_isDirectory hd
  by_cases hbelow : l.isAbsolute = k.isAbsolute ∧ l.names <+: k.names
  · obtain ⟨ha, rest, hrest⟩ := hbelow
    obtain ⟨a, names⟩ := k
    obtain rfl : l.isAbsolute = a := ha
    obtain rfl : l.names ++ rest = names := hrest
    have hnode := node?_alter_append t l f rest hp hne
    match rest with
    | [] =>
      rw [List.append_nil] at hnode ⊢
      rw [if_pos rfl, get?, hnode]
      rfl
    | x :: xs =>
      have hk : (⟨l.isAbsolute, l.names ++ x :: xs⟩ : Location) ≠ l := by
        intro h
        simpa using congrArg Location.names h
      rw [if_neg hk, get?, hnode, hf, get?_append_of_not_isDirectory hd (by simp)]
      rfl
  · have hk : k ≠ l := by
      rintro rfl
      exact hbelow ⟨rfl, List.prefix_refl _⟩
    rw [if_neg hk, get?_alter_of_not_below t l k f hbelow]

theorem nodeOf_of_not_isDirectory {t : FileTree} {l : Location} (e : Entry)
    (hd : ¬ t.IsDirectory l) (x : String) (xs : List String) :
    FileNode.get? (x :: xs) (some (nodeOf e (t.node? l))) = none := by
  cases e with
  | file => rfl
  | directory time =>
    have hnode : nodeOf (.directory time) (t.node? l) = .directory time [] := by
      cases hn : t.node? l with
      | none => rfl
      | some n =>
        cases n with
        | file => rfl
        | directory time' children => exact absurd (isDirectory_iff_node?.2 ⟨_, _, hn⟩) hd
    rw [hnode]
    exact FileNode.get?_none xs

theorem get?_set_of_not_isDirectory {t : FileTree} {l : Location} {e : Entry}
    (hp : t.hasPlace l = true) (hd : ¬ t.IsDirectory l) (k : Location) :
    (t.set l e).get? k = if k = l then some e else t.get? k := by
  rw [set, get?_alter_of_not_isDirectory hp hd (nodeOf_of_not_isDirectory e hd)]
  unfold nodeOf
  split
  · split <;> rfl
  · rfl

theorem get?_erase_of_not_isDirectory {t : FileTree} {l : Location}
    (hp : t.hasPlace l = true) (hd : ¬ t.IsDirectory l) (k : Location) :
    (t.erase l).get? k = if k = l then none else t.get? k :=
  get?_alter_of_not_isDirectory hp hd (fun _ _ => rfl) k

theorem isDirectory_set_file {t : FileTree} {l : Location} {content : Content} {time : Nat}
    (hp : t.hasPlace l = true) (hd : ¬ t.IsDirectory l) {k : Location} :
    (t.set l (.file content time)).IsDirectory k ↔ t.IsDirectory k := by
  unfold IsDirectory
  simp only [get?_set_of_not_isDirectory hp hd]
  by_cases hk : k = l
  · subst hk
    simpa [IsDirectory] using hd
  · simp [hk]

theorem isDirectory_erase {t : FileTree} {l : Location} (hp : t.hasPlace l = true)
    (hd : ¬ t.IsDirectory l) {k : Location} : (t.erase l).IsDirectory k ↔ t.IsDirectory k := by
  unfold IsDirectory
  simp only [get?_erase_of_not_isDirectory hp hd]
  by_cases hk : k = l
  · subst hk
    simpa [IsDirectory] using hd
  · simp [hk]

/-! ### Writing and renaming -/

theorem not_isDirectory_of_get? {t : FileTree} {l : Location} {content : Content} {time : Nat}
    (h : t.get? l = some (.file content time)) : ¬ t.IsDirectory l := by
  rintro ⟨time', h'⟩
  simp [h] at h'

theorem write_eq_ok_iff {t u : FileTree} {now : Nat} {path : String} {content : Content} :
    t.write now path content = .ok u ↔
      ∃ l, t.resolve path = .ok l ∧ ¬ t.IsDirectory l ∧ Path.endsWithSlash path = false ∧
        u = t.set l (.file content now) := by
  cases hr : t.resolve path with
  | error e => simp [write, place_eq_error_iff.2 hr, bind, Except.bind]
  | ok l =>
    obtain ⟨p, hp, rfl, hhere⟩ := place_of_resolve hr
    simp only [write, hp, bind, Except.bind, Except.ok.injEq, exists_eq_left',
      isDirectory_iff_node?, ← hhere]
    cases p.here with
    | none => cases Path.endsWithSlash path <;> simp [eq_comm]
    | some n =>
      cases n with
      | file => cases Path.endsWithSlash path <;> simp [eq_comm]
      | directory => simp

theorem copy_eq_ok_iff {t u : FileTree} {now : Nat} {source target : String} :
    t.copy now source target = .ok u ↔ ∃ content time,
      t.stat source = .ok (.file content time) ∧ t.write now target content = .ok u := by
  unfold copy
  cases t.stat source with
  | error e => simp [bind, Except.bind]
  | ok e => cases e <;> simp [bind, Except.bind]

/-- A file can take another path unless a directory is there. -/
theorem rename_eq_ok_iff {t u : FileTree} {source target : String} {l : Location}
    {content : Content} {time : Nat} (hl : t.resolve source = .ok l)
    (hf : t.get? l = some (.file content time)) :
    t.rename source target = .ok u ↔
      ∃ m, t.resolve target = .ok m ∧ (Path.fileName? target).isSome = true ∧
        Path.endsWithDot target = false ∧ Path.endsWithSlash target = false ∧
        ¬ t.IsDirectory m ∧ u = (t.erase l).set m (.file content time) := by
  obtain ⟨p, hp, rfl, hhere⟩ := place_of_resolve hl
  have hnode : t.node? p.location = some (.file content time) := by
    unfold get? at hf
    cases hn : t.node? p.location with
    | none => simp [hn] at hf
    | some n => cases n <;> simp_all [FileNode.entry]
  cases hr : t.resolve target with
  | error e => simp [rename, hp, place_eq_error_iff.2 hr, bind, Except.bind]
  | ok m =>
    obtain ⟨q, hq, rfl, hthere⟩ := place_of_resolve hr
    simp only [rename, hp, hq, hhere, hnode, bind, Except.bind, Except.ok.injEq,
      exists_eq_left', isDirectory_iff_node?, ← hthere]
    by_cases hn : (Path.fileName? target).isNone = true
    · simp_all
    · by_cases hdot : Path.endsWithDot target = true
      · simp [hdot]
      · by_cases hs : Path.endsWithSlash target = true
        · simp [hdot, hs, hn]
        · have hsome : (Path.fileName? target).isSome = true := by
            cases hname : Path.fileName? target <;> simp_all
          simp only [hn, hdot, hs, hsome, Bool.or_false, true_and]
          cases q.here with
          | none => simp [set, nodeOf, eq_comm]
          | some n =>
            cases n with
            | directory => simp
            | file => simp [set, nodeOf, eq_comm]

/-! ### Making directories -/

theorem makeDirectory_eq_ok_iff {t u : FileTree} {now : Nat} {path : String} :
    t.makeDirectory now path = .ok u ↔
      ∃ l, t.resolve path = .ok l ∧ t.get? l = none ∧ u = t.set l (.directory now) := by
  cases hr : t.resolve path with
  | error e => simp [makeDirectory, place_eq_error_iff.2 hr, bind, Except.bind]
  | ok l =>
    obtain ⟨p, hp, rfl, hhere⟩ := place_of_resolve hr
    simp only [makeDirectory, hp, bind, Except.bind, Except.ok.injEq, exists_eq_left', get?,
      ← hhere]
    cases p.here <;> simp [eq_comm]

theorem not_isDirectory_of_get?_eq_none {t : FileTree} {l : Location} (h : t.get? l = none) :
    ¬ t.IsDirectory l := by
  rintro ⟨time, h'⟩
  simp [h] at h'

theorem isDirectory_path_iff {t : FileTree} {path : String} :
    t.isDirectory path = true ↔ ∃ l, t.resolve path = .ok l ∧ t.IsDirectory l := by
  unfold isDirectory
  constructor
  · intro h
    split at h
    · rename_i e he
      obtain ⟨l, hl, hget, -⟩ := stat_eq_ok_iff.1 he
      cases e with
      | file => cases h
      | directory time => exact ⟨l, hl, time, hget⟩
    · cases h
  · rintro ⟨l, hl, time, hget⟩
    rw [stat_eq_ok_iff.2 ⟨l, hl, hget, fun _ => rfl⟩]
    rfl

/-- Some directories have been made where nothing was, and nothing else has changed. -/
def Grown (now : Nat) (t u : FileTree) : Prop :=
  ∀ l, u.get? l = t.get? l ∨ t.get? l = none ∧ u.get? l = some (.directory now)

theorem Grown.refl (now : Nat) (t : FileTree) : Grown now t t := fun _ => .inl rfl

theorem Grown.trans {now : Nat} {t u v : FileTree} (htu : Grown now t u) (huv : Grown now u v) :
    Grown now t v := by
  intro l
  obtain hu | ⟨ht, hu⟩ := htu l <;> obtain hv | ⟨hu', hv⟩ := huv l
  · exact .inl (hv.trans hu)
  · exact .inr ⟨hu.symm.trans hu', hv⟩
  · exact .inr ⟨ht, hv.trans hu⟩
  · exact .inr ⟨ht, hv⟩

theorem Grown.isDirectory {now : Nat} {t u : FileTree} (h : Grown now t u) {l : Location}
    (hl : t.IsDirectory l) : u.IsDirectory l := by
  obtain ⟨time, ht⟩ := hl
  obtain hu | ⟨hnone, -⟩ := h l
  · exact ⟨time, hu.trans ht⟩
  · simp [hnone] at ht

theorem grown_makeDirectory {t u : FileTree} {now : Nat} {path : String}
    (h : t.makeDirectory now path = .ok u) : Grown now t u := by
  obtain ⟨l, hl, hnone, rfl⟩ := makeDirectory_eq_ok_iff.1 h
  intro k
  rw [get?_set_of_not_isDirectory (hasPlace_of_resolve hl) (not_isDirectory_of_get?_eq_none hnone)]
  split
  · rename_i hk
    exact .inr ⟨hk ▸ hnone, rfl⟩
  · exact .inl rfl

theorem isDirectory_makeDirectory {t u : FileTree} {now : Nat} {path : String}
    (h : t.makeDirectory now path = .ok u) : u.isDirectory path = true := by
  have hgrown := grown_makeDirectory h
  obtain ⟨l, hl, hnone, rfl⟩ := makeDirectory_eq_ok_iff.1 h
  refine isDirectory_path_iff.2 ⟨l, resolve_mono (fun _ => hgrown.isDirectory) hl, now, ?_⟩
  rw [get?_set_of_not_isDirectory (hasPlace_of_resolve hl) (not_isDirectory_of_get?_eq_none hnone),
    if_pos rfl]

/-- What holds of making one directory, and is transitive, holds of making directories. -/
theorem makeDirectories_induction {now : Nat} {P : FileTree → FileTree → Prop}
    (refl : ∀ t, P t t) (trans : ∀ {t u v}, P t u → P u v → P t v)
    (step : ∀ {t u path}, t.makeDirectory now path = .ok u → P t u) (t : FileTree)
    (path : String) : P t (t.makeDirectories now path).2 := by
  unfold makeDirectories
  generalize path.length + 1 = fuel
  fun_induction makeDirectoriesFrom now fuel t path with
  | case1 => exact refl _
  | case2 => exact refl _
  | case3 _ _ _ _ _ h => exact step h
  | case4 => exact refl _
  | case5 _ _ _ _ _ _ _ _ _ h ih => rw [h] at ih; exact ih
  | case6 _ _ _ _ _ _ _ _ h _ hmake ih => rw [h] at ih; exact trans ih (step hmake)
  | case7 _ _ _ _ _ _ _ _ h _ _ _ ih => rw [h] at ih; exact ih
  | case8 _ _ _ _ _ _ _ _ h _ _ _ ih => rw [h] at ih; exact ih
  | case9 => exact refl _
  | case10 => exact refl _

/-- Making directories adds directories and nothing else. -/
theorem grown_makeDirectories (t : FileTree) (now : Nat) (path : String) :
    Grown now t (t.makeDirectories now path).2 :=
  makeDirectories_induction (Grown.refl now) Grown.trans grown_makeDirectory t path

theorem content?_makeDirectories (t : FileTree) (now : Nat) (path : String) (l : Location) :
    (t.makeDirectories now path).2.content? l = t.content? l := by
  obtain hsame | ⟨hnone, hmade⟩ := grown_makeDirectories t now path l
  · exact content?_eq_of_get?_eq hsame
  · simp [content?, hnone, hmade]

theorem isDirectory_makeDirectoriesFrom {now fuel : Nat} {t : FileTree} {path : String}
    (h : (makeDirectoriesFrom now fuel t path).1 = .ok ()) :
    path.isEmpty = true ∨ (makeDirectoriesFrom now fuel t path).2.isDirectory path = true := by
  fun_induction makeDirectoriesFrom now fuel t path with
  | case1 => cases h
  | case2 _ _ _ hempty => exact .inl hempty
  | case3 _ _ _ _ _ hmake => exact .inr (isDirectory_makeDirectory hmake)
  | case4 => cases h
  | case5 => cases h
  | case6 _ _ _ _ _ _ _ _ _ _ hmake => exact .inr (isDirectory_makeDirectory hmake)
  | case7 _ _ _ _ _ _ _ _ _ _ _ hdir => exact .inr hdir
  | case8 => cases h
  | case9 _ _ _ _ _ _ _ hdir => exact .inr hdir
  | case10 => cases h

/-- Where directories have been made, a directory stands. -/
theorem isDirectory_makeDirectories {now : Nat} {t : FileTree} {path : String}
    (h : (t.makeDirectories now path).1 = .ok ()) :
    path.isEmpty = true ∨ (t.makeDirectories now path).2.isDirectory path = true :=
  isDirectory_makeDirectoriesFrom h

theorem makeDirectory_of_isSome {t : FileTree} {now : Nat} {path : String} {l : Location}
    (hr : t.resolve path = .ok l) (hl : (t.get? l).isSome = true) :
    t.makeDirectory now path = .error .alreadyExists := by
  obtain ⟨p, hp, rfl, hhere⟩ := place_of_resolve hr
  have hsome : p.here.isSome = true := by
    rw [hhere]
    simpa [get?] using hl
  simp [makeDirectory, hp, hsome, bind, Except.bind]

/-- A directory that is there is not made again. -/
theorem makeDirectories_of_isDirectory {t : FileTree} {path : String} (now : Nat)
    (h : path.isEmpty = true ∨ t.isDirectory path = true) :
    t.makeDirectories now path = (.ok (), t) := by
  unfold makeDirectories makeDirectoriesFrom
  by_cases hempty : path.isEmpty = true
  · rw [if_pos hempty]
  · obtain ⟨l, hl, time, hget⟩ := isDirectory_path_iff.1 (h.resolve_left hempty)
    rw [if_neg hempty, makeDirectory_of_isSome hl (by simp [hget])]
    simp [h.resolve_left hempty]

/-- A directory that misses only itself is made alone. -/
theorem makeDirectories_of_get?_eq_none {t : FileTree} {path : String} {l : Location} (now : Nat)
    (hempty : path.isEmpty = false) (hl : t.resolve path = .ok l) (hnone : t.get? l = none) :
    t.makeDirectories now path = (.ok (), t.set l (.directory now)) := by
  unfold makeDirectories makeDirectoriesFrom
  rw [hempty, makeDirectory_eq_ok_iff.2 ⟨l, hl, hnone, rfl⟩]
  rfl

/-- No directory can be made where a file stands. -/
theorem makeDirectories_of_file {t : FileTree} {path : String} {l : Location} {content : Content}
    {time : Nat} (now : Nat) (hempty : path.isEmpty = false) (hl : t.resolve path = .ok l)
    (hfile : t.get? l = some (.file content time)) :
    (t.makeDirectories now path).1 ≠ .ok () := by
  intro h
  have hgrown := grown_makeDirectories t now path
  obtain hdir | hdir := isDirectory_makeDirectories h
  · rw [hempty] at hdir
    cases hdir
  · obtain ⟨m, hm, time', hget⟩ := isDirectory_path_iff.1 hdir
    have hlm : l = m := by
      have := (resolve_mono (fun _ => hgrown.isDirectory) hl).symm.trans hm
      simpa using this
    subst hlm
    obtain hsame | ⟨hnone, -⟩ := hgrown l
    · rw [hsame, hfile] at hget
      cases hget
    · rw [hfile] at hnone
      cases hnone

end LiterateJournal.FileTree
