import LiterateJournal.Proofs.Site.AssetWalk

/-!
# Walks that meet their own copies

A walk that returns has come to everything that was there, and to every copy that was made in a
directory before that was listed. Where a copy is made ever deeper below, it does not return.

## Main definitions

* `FileTree.Due` — what a walk comes to if it returns.
* `Abreast` — a walk that has left no copy out so far.

## Main statements

* `Abreast.meetsDue` — a walk that returns has met what is due.
* `not_returns_copyListed_below` — a walk whose copies are made two or more levels below the
  directory it goes through does not return.
-/

namespace LiterateJournal

/-! ### What is due -/

namespace FileTree

/-- Something stands under these names, or a copy will be made there before the directory it is made
in is listed. -/
def Due (t : FileTree) (m l : Location) (names : List String) : Prop :=
  t.get? (m.below names) ≠ none ∨ ∃ a dir x, names = dir ++ [x] ∧ t.IsDirectory (m.below dir) ∧
    a < dir ∧ t.get? (m.below a) ≠ none ∧ l.below a = m.below names

/-- What is due below some names is in a directory there. -/
theorem Due.isDirectory {t : FileTree} {m l : Location} {q rest : List String}
    (h : t.Due m l (q ++ rest)) (hne : rest ≠ []) : t.IsDirectory (m.below q) := by
  obtain hthere | ⟨a, dir, x, heq, hdir, -⟩ := h
  · by_contra hnot
    rw [Location.below_append] at hthere
    exact hthere (get?_below_of_not_isDirectory hnot hne)
  · rw [← List.dropLast_concat_getLast hne, ← List.append_assoc] at heq
    obtain ⟨rfl, -⟩ := List.append_inj' heq rfl
    rw [Location.below_append] at hdir
    exact isDirectory_of_contains hdir (Location.contains_below _ _)

theorem Due.of_cons {t : FileTree} {m l : Location} {q rest : List String} {y : String}
    (h : t.Due m l (q ++ y :: rest)) : t.Due m l (q ++ [y]) := by
  cases rest with
  | nil => exact h
  | cons z rest =>
    rw [List.append_cons] at h
    exact .inl (h.isDirectory (List.cons_ne_nil z rest)).ne_none

end FileTree

/-! ### Walks that leave nothing out -/

/-- Some entries of the directory that `q` leads to are still to be copied. All that was there in
`t` under names in `scope` has its copy, and what comes before the entries is in `scope` unless it
is in one of them. -/
structure Abreast (t : FileTree) (m l : Location) (scope : List String → Prop) (q : List String)
    (source target : String) (entries : List (String × Entry)) (w : World) : Prop
    extends Listing (m.below q) (l.below q) source target entries w where
  kept : ∀ k e, t.get? k = some e → w.files.get? k = some e
  present : ∀ a, scope a → t.get? (m.below a) ≠ none → w.files.get? (l.below a) ≠ none
  passed : ∀ a, t.get? (m.below a) ≠ none → ∀ c ∈ entries, a < q ++ [c.1] →
    scope a ∨ ∃ d ∈ entries, q ++ [d.1] <+: a

namespace Abreast

variable {root rootTarget source target x : String} {depth copied n time : Nat} {m l : Location}
  {c : String × Entry} {entries inner : List (String × Entry)} {w v w' : World} {t : FileTree}
  {scope : List String → Prop} {q a : List String}

/-- What comes before the next entry has been passed. -/
theorem scope_of_lt (h : Abreast t m l scope q source target (c :: entries) w)
    (ha : t.get? (m.below a) ≠ none) (hlt : a < q ++ [c.1]) : scope a := by
  obtain hscope | ⟨d, hd, rest, rfl⟩ := h.passed a ha c List.mem_cons_self hlt
  · exact hscope
  · -- what is in this entry or a later one does not come before it
    rw [List.append_assoc, append_lt_append_iff, List.singleton_append,
      List.cons_lt_cons_iff] at hlt
    obtain hlt | ⟨-, hnil⟩ := hlt
    · obtain rfl | hd := List.mem_cons.1 hd
      · exact absurd hlt (String.lt_irrefl _)
      · exact absurd (String.lt_trans hlt (h.toListing.lt_of_mem hd)) (String.lt_irrefl _)
    · exact absurd hnil (List.not_lt_nil _)

/-- All that is due in a directory is in its listing. -/
theorem exists_mem_inner
    (h : Abreast t m l scope q source target ((x, .directory time) :: entries) w)
    (hinner : w.files.children (Path.join source x) = .ok inner) {y : String}
    (hdue : t.Due m l (q ++ [x] ++ [y])) : ∃ e, (y, e) ∈ inner := by
  obtain ⟨-, rfl⟩ := h.toListing.inner_eq hinner
  have hthere : w.files.get? (m.below (q ++ [x] ++ [y])) ≠ none := by
    obtain hthere | ⟨a, dir, z, heq, -, hlt, ha, hk⟩ := hdue
    · obtain ⟨e, he⟩ := Option.ne_none_iff_exists'.1 hthere
      rw [h.kept _ e he]
      exact Option.some_ne_none e
    · obtain ⟨rfl, -⟩ := List.append_inj' heq rfl
      rw [← hk]
      exact h.present a (h.scope_of_lt ha hlt) ha
  rw [← Location.child_below, ← Location.child_below] at hthere
  exact h.wellFormed.exists_mem_childrenAt hthere

/-- The walk comes to what is in a directory, of which there is a copy now. -/
theorem inside (h : Abreast t m l scope q source target ((x, .directory time) :: entries) w)
    (hinner : w.files.children (Path.join source x) = .ok inner)
    (hmake : Run.Returns (ensureDirectory (Path.join target x)) w () v) :
    Abreast t m l (fun a => scope a ∨ a = q ++ [x]) (q ++ [x]) (Path.join source x)
      (Path.join target x) inner v := by
  have hinside := h.toListing.inside hinner hmake
  have hadds := h.toListing.adds_ensureDirectory hmake
  rw [Location.child_below, Location.child_below] at hinside
  refine { hinside with
    kept := fun k e hk => hadds.fills.files.kept k e (h.kept k e hk), present := ?_, passed := ?_ }
  · rintro a (ha | rfl) hthere
    · exact hadds.fills.files.ne_none (h.present a ha hthere)
    · exact hinside.target.isDirectory.ne_none
  · intro a ha d hd hlt
    obtain hlt | rfl | ⟨y, rest, rfl, -⟩ := lt_concat_iff.1 hlt
    · exact .inl (.inl (h.scope_of_lt ha hlt))
    · exact .inl (.inr rfl)
    · have hdue : t.Due m l (q ++ [x] ++ y :: rest) := .inl ha
      obtain ⟨e, he⟩ := h.exists_mem_inner hinner hdue.of_cons
      exact .inr ⟨(y, e), he, rest, (List.append_cons _ y rest).symm⟩

/-- After an entry, of whose contents there are copies now, come the others. -/
theorem later (h : Abreast t m l scope q source target (c :: entries) w)
    (hentry : Run.Returns (copyEntry root rootTarget depth source target copied c) w n v)
    (hpresent : ∀ a, q ++ [c.1] <+: a → t.get? (m.below a) ≠ none →
      v.files.get? (l.below a) ≠ none) :
    Abreast t m l (fun a => scope a ∨ q ++ [c.1] <+: a) q source target entries v := by
  have hadds := h.toListing.adds_copyEntry hentry
  refine { h.toListing.later hentry with
    kept := fun k e hk => hadds.fills.files.kept k e (h.kept k e hk), present := ?_, passed := ?_ }
  · rintro a (ha | ha) hthere
    · exact hadds.fills.files.ne_none (h.present a ha hthere)
    · exact hpresent a ha hthere
  · intro a ha d hd hlt
    obtain hscope | ⟨d', hd', hunder⟩ := h.passed a ha d (List.mem_cons_of_mem _ hd) hlt
    · exact .inl (.inl hscope)
    · obtain rfl | hd' := List.mem_cons.1 hd'
      · exact .inl (.inr hunder)
      · exact .inr ⟨d', hd', hunder⟩

/-- A walk of this depth that returns has met what is due in its entries and has copied them. The
depth is enough if a path so deep is too long. -/
def MeetsDue (t : FileTree) (m l : Location) (root rootTarget : String) (depth : Nat) : Prop :=
  ∀ {source target : String} {entries : List (String × Entry)} {w w' : World}
    {scope : List String → Prop} {q : List String} {n : Nat},
    Abreast t m l scope q source target entries w → source.utf8ByteSize ≤ FileTree.maxPath →
    FileTree.maxPath < depth + source.utf8ByteSize →
    Run.Returns (copyListed root rootTarget depth source target entries) w n w' →
    ∀ c ∈ entries,
      (∀ rest, t.Due m l (q ++ c.1 :: rest) →
        Meets root rootTarget depth source target entries w (c.1 :: rest)) ∧
      ∀ a, q ++ [c.1] <+: a → t.get? (m.below a) ≠ none → w'.files.get? (l.below a) ≠ none

/-- Nothing is due in a file, and it has been copied. -/
theorem meetsDue_file {content : Content}
    (h : Abreast t m l scope q source target ((x, .file content time) :: entries) w)
    (hentry : Run.Returns
      (copyEntry root rootTarget depth source target copied (x, .file content time)) w n v) :
    (∀ rest, t.Due m l (q ++ x :: rest) →
      Meets root rootTarget (depth + 1) source target ((x, .file content time) :: entries) w
        (x :: rest)) ∧
    ∀ a, q ++ [x] <+: a → t.get? (m.below a) ≠ none → v.files.get? (l.below a) ≠ none := by
  obtain ⟨hplain, hthere⟩ := h.there _ List.mem_cons_self
  obtain ⟨k, hcopy, -⟩ := returns_copyEntry_file.1 hentry
  have hfile {rest : List String} (hdue : t.Due m l (q ++ [x] ++ rest)) : rest = [] := by
    by_contra hne
    obtain ⟨time', hd⟩ := hdue.isDirectory hne
    rw [Location.child_below] at hthere
    cases (h.kept _ _ hd).symm.trans hthere
  refine ⟨fun rest hdue => ?_, ?_⟩
  · rw [List.append_cons] at hdue
    obtain rfl := hfile hdue
    exact .here
  · rintro _ ⟨rest, rfl⟩ hsource
    obtain rfl := hfile (.inl hsource)
    have hlv := (h.toListing.later hentry).target
    have hexists := ((exists?_iff hlv hplain).1 (exists?_copyAsset h.target hplain hcopy)).2
    rw [List.append_nil, ← Location.child_below]
    exact Option.isSome_iff_ne_none.1 hexists

/-- What is due in a directory has been met in there, and has been copied. -/
theorem meetsDue_directory (hdepth : MeetsDue t m l root rootTarget depth)
    (h : Abreast t m l scope q source target ((x, .directory time) :: entries) w)
    (hsize : FileTree.maxPath < depth + 1 + source.utf8ByteSize)
    (hentry : Run.Returns
      (copyEntry root rootTarget depth source target copied (x, .directory time)) w n v) :
    (∀ rest, t.Due m l (q ++ x :: rest) →
      Meets root rootTarget (depth + 1) source target ((x, .directory time) :: entries) w
        (x :: rest)) ∧
    ∀ a, q ++ [x] <+: a → t.get? (m.below a) ≠ none → v.files.get? (l.below a) ≠ none := by
  obtain ⟨inner, u, k, hinner, hmake, hcopy, -⟩ := returns_copyEntry_directory.1 hentry
  have hinside := h.inside hinner hmake
  have hlonger : source.utf8ByteSize < (Path.join source x).utf8ByteSize :=
    h.toListing.utf8ByteSize_lt
  have hrec := hdepth hinside (h.toListing.inner_eq hinner).1.1 (by omega) hcopy
  refine ⟨fun rest hdue => ?_, ?_⟩
  · cases rest with
    | nil => exact .here
    | cons y rest =>
      rw [List.append_cons] at hdue
      obtain ⟨e, he⟩ := h.exists_mem_inner hinner hdue.of_cons
      exact .inside hinner hmake ((hrec _ he).1 rest hdue)
  · rintro _ ⟨rest, rfl⟩ hsource
    cases rest with
    | nil =>
      rw [List.append_nil]
      exact (hinside.toListing.adds_copyListed hcopy).fills.files.ne_none
        hinside.target.isDirectory.ne_none
    | cons y rest =>
      have hdue : t.Due m l (q ++ [x] ++ y :: rest) := .inl hsource
      obtain ⟨e, he⟩ := h.exists_mem_inner hinner hdue.of_cons
      exact (hrec _ he).2 _ ⟨rest, (List.append_cons _ y rest).symm⟩ hsource

theorem meetsDue_copyEntry (hdepth : MeetsDue t m l root rootTarget depth)
    (h : Abreast t m l scope q source target (c :: entries) w)
    (hsize : FileTree.maxPath < depth + 1 + source.utf8ByteSize)
    (hentry : Run.Returns (copyEntry root rootTarget depth source target copied c) w n v) :
    (∀ rest, t.Due m l (q ++ c.1 :: rest) →
      Meets root rootTarget (depth + 1) source target (c :: entries) w (c.1 :: rest)) ∧
    ∀ a, q ++ [c.1] <+: a → t.get? (m.below a) ≠ none → v.files.get? (l.below a) ≠ none := by
  obtain ⟨x, e⟩ := c
  cases e with
  | file content time => exact h.meetsDue_file hentry
  | directory time => exact meetsDue_directory hdepth h hsize hentry

theorem meetsDue (t : FileTree) (m l : Location) (root rootTarget : String) (depth : Nat) :
    MeetsDue t m l root rootTarget depth := by
  induction depth with
  | zero =>
    intro source target entries w w' scope q n _ hfits hsize
    omega
  | succ depth ih =>
    intro source target entries w w' scope q n h hfits hsize hreturns
    rw [copyListed_succ] at hreturns
    generalize 0 = copied at hreturns
    induction entries generalizing w copied scope with
    | nil => exact fun c hc => absurd hc List.not_mem_nil
    | cons c entries ihEntries =>
      obtain ⟨_, v, hentry, hrest⟩ := returns_foldlM_cons.1 hreturns
      obtain ⟨hmeets, hpresent⟩ := h.meetsDue_copyEntry ih hsize hentry
      have hlater := h.later hentry hpresent
      intro d hd
      obtain rfl | hd := List.mem_cons.1 hd
      · refine ⟨hmeets, fun a ha hsource => ?_⟩
        exact (hlater.toListing.adds_copyEntries hrest).fills.files.ne_none
          (hpresent a ha hsource)
      · obtain ⟨hmeets', hpresent'⟩ := ihEntries hlater _ hrest d hd
        exact ⟨fun rest hdue => .later hentry (hmeets' rest hdue), hpresent'⟩

end Abreast

/-! ### Targets far below -/

/-- A walk never returns whose copies are made two or more levels below: with each level that it
goes down, its target has gone down too, and is in a directory that is still to be listed. -/
theorem not_returns_copyListed_below (root rootTarget : String) {source target x : String}
    {depth time n : Nat} {entries : List (String × Entry)} {w w' : World} {m l : Location}
    {names : List String} (h : Listing m l source target entries w)
    (hl : l = m.below (x :: names)) (hne : names ≠ [])
    (hx : (x, .directory time) ∈ entries) (hfits : source.utf8ByteSize ≤ FileTree.maxPath)
    (hsize : FileTree.maxPath < depth + source.utf8ByteSize) :
    ¬ Run.Returns (copyListed root rootTarget depth source target entries) w n w' := by
  induction depth generalizing source target x time n entries w w' m l names with
  | zero => omega
  | succ depth ih =>
    rw [copyListed_succ]
    generalize 0 = copied
    intro hreturns
    induction entries generalizing w copied with
    | nil => cases hx
    | cons c entries ihEntries =>
      obtain ⟨_, v, hentry, hrest⟩ := returns_foldlM_cons.1 hreturns
      obtain rfl | hx := List.mem_cons.1 hx
      · obtain ⟨inner, u, k, hinner, hmake, hcopy, -⟩ := returns_copyEntry_directory.1 hentry
        have hinside := h.inside hinner hmake
        obtain ⟨hfits', rfl⟩ := h.inner_eq hinner
        have hlonger : source.utf8ByteSize < (Path.join source x).utf8ByteSize :=
          h.utf8ByteSize_lt
        obtain ⟨y, rest, rfl⟩ := List.exists_cons_of_ne_nil hne
        have hl' : l.child x = (m.child x).below (y :: (rest ++ [x])) := by
          rw [hl, Location.child_below, List.cons_append, Location.below_cons, List.cons_append]
        -- the target is in this directory, and what contains it is listed
        obtain ⟨time', hy⟩ : w.files.IsDirectory ((m.child x).child y) := by
          apply FileTree.isDirectory_of_contains h.target.isDirectory
          rw [hl, Location.below_cons, Location.below_cons]
          exact Location.contains_below _ _
        exact ih hinside hl' (by simp) (h.wellFormed.mem_childrenAt_iff.2 hy) hfits'.1 (by omega)
          hcopy
      · exact ihEntries (h.later hentry) hx _ hrest

end LiterateJournal
