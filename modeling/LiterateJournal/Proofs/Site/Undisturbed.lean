import LiterateJournal.Proofs.Site.AssetWalk

/-!
# Walks that their own copies do not disturb

A copy that is made in a directory of the source before the walk has listed it is met there, and
copied in its turn. If that happens nowhere, all that is met was there before, and every copy is a
copy of what was there.

## Main definitions

* `FileTree.ListedFirst` — no copy is made in a directory that is listed only later.
* `FileTree.AddsCopies` — what is new are copies.
* `Copying` — a walk that has not been disturbed, and what is new so far.

## Main statements

* `Copying.spreads`, `Copying.counts`, `Copying.get?_ne_none` — what such a walk leaves, counts and
  meets.
-/

namespace LiterateJournal

namespace FileTree

/-- No copy will be made in a directory of the source that the walk comes to only later. -/
def ListedFirst (t : FileTree) (m l : Location) : Prop :=
  ∀ names dir x, t.get? (m.below names) ≠ none → t.get? (l.below names) = none →
    t.IsDirectory (m.below dir) → l.below names = m.below (dir ++ [x]) → ¬ names < dir

/-- What is new at a destination, if anything, is a copy of what stood at its source. -/
def AddsCopies (t : FileTree) (m l : Location) (scope : List String → Prop) (u : FileTree) : Prop :=
  ∀ k, u.get? k = t.get? k ∨ t.get? k = none ∧
    ∃ names, scope names ∧ k = l.below names ∧ CopyOf (t.get? (m.below names)) none (u.get? k)

namespace AddsCopies

variable {scope scope' : List String → Prop} {m l : Location} {t u v : FileTree}
  {names : List String}

theorem refl (scope : List String → Prop) (m l : Location) (t : FileTree) :
    t.AddsCopies m l scope t := fun _ => .inl rfl

theorem mono (h : t.AddsCopies m l scope u) (hs : ∀ names, scope names → scope' names) :
    t.AddsCopies m l scope' u := by
  intro k
  apply (h k).imp_right
  rintro ⟨hnone, names, hn, hk, hcopy⟩
  exact ⟨hnone, names, hs names hn, hk, hcopy⟩

theorem kept (h : t.AddsCopies m l scope u) {k : Location} {e : Entry} (hk : t.get? k = some e) :
    u.get? k = some e := by
  obtain hsame | ⟨hnone, -⟩ := h k
  · exact hsame.trans hk
  · cases hnone.symm.trans hk

theorem eq_none (h : t.AddsCopies m l scope u) {k : Location} (hk : u.get? k = none) :
    t.get? k = none := by
  cases ht : t.get? k with
  | none => rfl
  | some e => cases hk.symm.trans (h.kept ht)

/-- A file that is new has the content of its source. -/
theorem exists_source (h : t.AddsCopies m l scope u) {k : Location} {content : Content}
    (hu : u.content? k = some content) (ht : t.content? k = none) :
    ∃ names, k = l.below names ∧ t.content? (m.below names) = some content := by
  obtain ⟨time, hk⟩ := content?_eq_some_iff.1 hu
  obtain hsame | ⟨-, names, -, rfl, hcopy⟩ := h k
  · rw [content?_eq_of_get?_eq hsame, ht] at hu
    cases hu
  · refine ⟨names, rfl, content?_eq_some_iff.2 ?_⟩
    cases hsource : t.get? (m.below names) with
    | none => cases hk.symm.trans (hcopy.other hsource)
    | some e =>
      cases e with
      | file content' time' =>
        obtain ⟨time'', hcopied⟩ := hcopy.file content' time' hsource rfl
        cases hk.symm.trans hcopied
        exact ⟨time', rfl⟩
      | directory time' =>
        obtain ⟨time'', hmade⟩ := hcopy.directory time' hsource
        cases hk.symm.trans hmade

/-- One more copy. -/
theorem step (h : t.AddsCopies m l scope u) (hother : ∀ k, k ≠ l.below names → v.get? k = u.get? k)
    (hself : v.get? (l.below names) = u.get? (l.below names) ∨ u.get? (l.below names) = none ∧
      CopyOf (t.get? (m.below names)) none (v.get? (l.below names))) :
    t.AddsCopies m l (fun a => scope a ∨ a = names) v := by
  have h' : t.AddsCopies m l (fun a => scope a ∨ a = names) u := h.mono fun _ => .inl
  intro k
  by_cases hk : k = l.below names
  · subst hk
    obtain hsame | ⟨hnone, hcopy⟩ := hself
    · rw [hsame]
      exact h' _
    · exact .inr ⟨h.eq_none hnone, names, .inr rfl, rfl, hcopy⟩
  · rw [hother k hk]
    exact h' k

end AddsCopies

end FileTree

/-! ### Walks that are not disturbed -/

/-- Some entries of the directory that `q` leads to are still to be copied. They were there in `t`,
and what is new since then are copies of what comes before them. -/
structure Copying (t : FileTree) (m l : Location) (scope : List String → Prop) (q : List String)
    (source target : String) (entries : List (String × Entry)) (w : World) : Prop
    extends Listing (m.below q) (l.below q) source target entries w where
  sources : ∀ c ∈ entries, t.get? (m.below (q ++ [c.1])) = some c.2
  earlier : ∀ names, scope names → ∀ c ∈ entries, names < q ++ [c.1]
  copies : t.AddsCopies m l scope w.files

section Asset

variable {w w' : World} {source target : String}

theorem files_eq_of_fails_copyAsset {e : BuildError}
    (h : Run.Fails (copyAsset source target) w e w') : w' = w := by
  simp only [copyAsset, Run.fails_bind, Run.fails_files, Run.returns_files, false_or] at h
  obtain ⟨_, _, ⟨rfl, rfl⟩, h⟩ := h
  split at h
  · exact absurd h (by simp)
  · simp only [Run.fails_bind, Run.fails_change, Run.fails_pure, and_false, exists_false,
      or_false] at h
    obtain ⟨_, -, -, rfl⟩ := h
    rfl

end Asset

namespace Copying

variable {root rootTarget source target x : String} {depth copied n time : Nat} {m l : Location}
  {c : String × Entry} {entries inner : List (String × Entry)} {w v w' : World} {t : FileTree}
  {scope : List String → Prop} {q names : List String}

/-- Making the directory for a copy, whether it succeeds or not, adds that copy at most. -/
theorem leaves_ensureDirectory
    (h : Copying t m l scope q source target ((x, .directory time) :: entries) w) :
    Run.Leaves (ensureDirectory (Path.join target x)) w
      fun v => t.AddsCopies m l (fun a => scope a ∨ a = q ++ [x]) v.files := by
  obtain ⟨hplain, -⟩ := h.there _ List.mem_cons_self
  refine Run.leaves_makeDirectories.2 ?_
  obtain hsame | ⟨hresolve, hnone, hset⟩ :=
    FileTree.makeDirectories_join w.clock h.target hplain
  · rw [hsame]
    exact h.copies.mono fun _ => .inl
  · rw [hset]
    have hget := FileTree.get?_set_of_not_isDirectory (e := .directory w.clock)
      (FileTree.hasPlace_of_resolve hresolve) (FileTree.not_isDirectory_of_get?_eq_none hnone)
    rw [Location.child_below] at hnone hget ⊢
    apply h.copies.step fun k hk => (hget k).trans (if_neg hk)
    refine .inr ⟨hnone, ?_⟩
    rw [h.sources _ List.mem_cons_self, hget, if_pos rfl]
    exact .madeDirectory (fun _ he => by cases he) rfl

/-- The walk comes to what is in a directory. It was there in `t`, as no copy has been made in
there. -/
theorem inside (h : Copying t m l scope q source target ((x, .directory time) :: entries) w)
    (ht : t.ListedFirst m l) (hinner : w.files.children (Path.join source x) = .ok inner)
    (hmake : Run.Returns (ensureDirectory (Path.join target x)) w () v) :
    Copying t m l (fun a => scope a ∨ a = q ++ [x]) (q ++ [x]) (Path.join source x)
      (Path.join target x) inner v := by
  have hinside := h.toListing.inside hinner hmake
  have hsource := h.sources _ List.mem_cons_self
  obtain ⟨-, rfl⟩ := h.toListing.inner_eq hinner
  simp only [Location.child_below] at hinside ⊢
  refine { hinside with
    sources := ?_, earlier := ?_, copies := h.leaves_ensureDirectory.of_returns hmake }
  · intro c hc
    have hthere := h.wellFormed.mem_childrenAt_iff.1 hc
    rw [Location.child_below] at hthere
    obtain hsame | ⟨hnone, a, ha, hk, hcopy⟩ := h.copies (m.below (q ++ [x] ++ [c.1]))
    · exact hsame.symm.trans hthere
    · have hsome : t.get? (m.below a) ≠ none := by
        intro hnothing
        cases hthere.symm.trans (hcopy.other hnothing)
      rw [hk] at hnone
      exact absurd (h.earlier a ha _ List.mem_cons_self)
        (ht a (q ++ [x]) c.1 hsome hnone ⟨time, hsource⟩ hk.symm)
  · rintro a (ha | rfl) c -
    · exact lt_concat_iff.2 (.inl (h.earlier a ha _ List.mem_cons_self))
    · exact lt_concat_iff.2 (.inr (.inl rfl))

theorem after (h : Copying t m l scope q source target (c :: entries) w)
    (hentry : Run.Returns (copyEntry root rootTarget depth source target copied c) w n v)
    (hcopies : t.AddsCopies m l (fun a => scope a ∨ q ++ [c.1] <+: a) v.files) :
    Copying t m l (fun a => scope a ∨ q ++ [c.1] <+: a) q source target entries v where
  toListing := h.toListing.later hentry
  sources d hd := h.sources d (List.mem_cons_of_mem _ hd)
  earlier := by
    rintro a (ha | ⟨rest, rfl⟩) d hd
    · exact h.earlier a ha d (List.mem_cons_of_mem _ hd)
    · refine lt_concat_iff.2 (.inr (.inr ⟨c.1, rest, ?_, h.toListing.lt_of_mem hd⟩))
      rw [List.append_assoc, List.singleton_append]
  copies := hcopies

theorem leaves_copyAsset {content : Content}
    (h : Copying t m l scope q source target ((x, .file content time) :: entries) w) :
    Run.Leaves (copyAsset (Path.join source x) (Path.join target x)) w
      fun v => t.AddsCopies m l (fun a => scope a ∨ a = q ++ [x]) v.files := by
  obtain ⟨hplain, hthere⟩ := h.there _ List.mem_cons_self
  have hadding : Run.Leaves (copyAsset (Path.join source x) (Path.join target x)) w
      (World.Adds (· = (l.below q).child x) w) := LiterateJournal.leaves_copyAsset h.target hplain
  refine Run.leaves_iff.2 ⟨fun k v hcopy => ?_, fun e v hfails => ?_⟩
  · have hadds := hadding.of_returns hcopy
    rw [Location.child_below] at hadds
    apply h.copies.step fun k hk => hadds.get?_eq hk
    obtain ⟨-, -, rfl⟩ | ⟨hnone, -, hnew⟩ :=
      returns_copyAsset_cases h.source h.target hplain hthere hcopy
    · exact .inl rfl
    · rw [Location.child_below] at hnone hnew
      refine .inr ⟨hnone, ?_⟩
      rw [h.sources _ List.mem_cons_self, hnew]
      exact .newFile
  · rw [files_eq_of_fails_copyAsset hfails]
    exact h.copies.mono fun _ => .inl

/-- A walk of this depth leaves only copies of the entries it is given and of what is in them. -/
def Spreads (t : FileTree) (m l : Location) (root rootTarget : String) (depth : Nat) : Prop :=
  ∀ {source target : String} {entries : List (String × Entry)} {w : World}
    {scope : List String → Prop} {q : List String},
    Copying t m l scope q source target entries w →
    Run.Leaves (copyListed root rootTarget depth source target entries) w fun v =>
      t.AddsCopies m l (fun a => scope a ∨ ∃ c ∈ entries, q ++ [c.1] <+: a) v.files

theorem leaves_copyEntry (hdepth : Spreads t m l root rootTarget depth) (ht : t.ListedFirst m l)
    (h : Copying t m l scope q source target (c :: entries) w) :
    Run.Leaves (copyEntry root rootTarget depth source target copied c) w fun v =>
      t.AddsCopies m l (fun a => scope a ∨ q ++ [c.1] <+: a) v.files := by
  obtain ⟨x, e⟩ := c
  have hself (u : World) (hu : t.AddsCopies m l (fun a => scope a ∨ a = q ++ [x]) u.files) :
      t.AddsCopies m l (fun a => scope a ∨ q ++ [x] <+: a) u.files := by
    apply hu.mono
    rintro a (ha | rfl)
    · exact .inl ha
    · exact .inr (List.prefix_refl _)
  cases e with
  | file content time =>
    exact h.leaves_copyAsset.andThen hself fun _ v _ hv => Run.leaves_pure.2 (hself v hv)
  | directory time =>
    rw [copyEntry, Run.leaves_bind_files]
    refine h.leaves_ensureDirectory.andThen hself fun _ v hmake hv => ?_
    split
    · rename_i inner hinner
      have hspread : Run.Leaves (copyListed root rootTarget depth (Path.join source x)
          (Path.join target x) inner) v fun u =>
            t.AddsCopies m l (fun a => scope a ∨ q ++ [x] <+: a) u.files := by
        refine (hdepth (h.inside ht hinner hmake)).mono fun u hu => hu.mono ?_
        rintro a ((ha | rfl) | ⟨d, -, hd⟩)
        · exact .inl ha
        · exact .inr (List.prefix_refl _)
        · exact .inr ((List.prefix_append _ _).trans hd)
      exact hspread.andThen (fun _ hu => hu) fun _ u _ hu => Run.leaves_pure.2 hu
    · exact Run.leaves_throw.2 (hself v hv)

theorem leaves_copyEntries (hdepth : Spreads t m l root rootTarget depth) (ht : t.ListedFirst m l)
    (h : Copying t m l scope q source target entries w) :
    Run.Leaves (entries.foldlM (copyEntry root rootTarget depth source target) copied) w fun v =>
      t.AddsCopies m l (fun a => scope a ∨ ∃ c ∈ entries, q ++ [c.1] <+: a) v.files := by
  induction entries generalizing w copied scope with
  | nil => exact Run.leaves_pure.2 (h.copies.mono fun _ => .inl)
  | cons c entries ih =>
    rw [List.foldlM_cons]
    refine (h.leaves_copyEntry hdepth ht).andThen (fun v hv => hv.mono ?_)
      fun copied v hentry hv => (ih (h.after hentry hv)).mono fun u hu => hu.mono ?_
    · exact fun a => Or.imp_right fun ha => ⟨c, List.mem_cons_self, ha⟩
    · rintro a ((ha | ha) | ⟨d, hd, ha⟩)
      · exact .inl ha
      · exact .inr ⟨c, List.mem_cons_self, ha⟩
      · exact .inr ⟨d, List.mem_cons_of_mem _ hd, ha⟩

theorem spreads (ht : t.ListedFirst m l) (root rootTarget : String) (depth : Nat) :
    Spreads t m l root rootTarget depth := by
  induction depth with
  | zero =>
    intro source target entries w scope q h
    exact Run.leaves_pure.2 (h.copies.mono fun _ => .inl)
  | succ depth ih =>
    intro source target entries w scope q h
    rw [copyListed_succ]
    exact h.leaves_copyEntries ih ht

/-- The walk goes on undisturbed after an entry. -/
theorem later (h : Copying t m l scope q source target (c :: entries) w) (ht : t.ListedFirst m l)
    (hentry : Run.Returns (copyEntry root rootTarget depth source target copied c) w n v) :
    Copying t m l (fun a => scope a ∨ q ++ [c.1] <+: a) q source target entries v :=
  h.after hentry ((h.leaves_copyEntry (spreads ht root rootTarget depth) ht).of_returns hentry)

/-- All that the walk meets was there. -/
theorem get?_ne_none (ht : t.ListedFirst m l)
    (h : Copying t m l scope q source target entries w)
    (hmeets : Meets root rootTarget depth source target entries w names) :
    t.get? (m.below (q ++ names)) ≠ none := by
  induction hmeets generalizing scope q with
  | here =>
    rw [h.sources _ List.mem_cons_self]
    exact Option.some_ne_none _
  | later hentry _ ih => exact ih (h.later ht hentry)
  | inside hinner hmake _ ih =>
    have hnames := ih (h.inside ht hinner hmake)
    rwa [List.append_assoc, List.singleton_append] at hnames

def HasCopied (t : FileTree) (m l : Location) (u : FileTree) (names : List String) : Prop :=
  t.Lacks m l names ∧ u.content? (l.below names) = t.content? (m.below names)

theorem HasCopied.fills {u u' : FileTree} {since : Nat} {inside : Location → Prop}
    (h : HasCopied t m l u names) (hfills : u.Fills since inside u') :
    HasCopied t m l u' names := by
  refine ⟨h.1, ?_⟩
  obtain ⟨content, hcontent⟩ := Option.isSome_iff_exists.1 h.1.1
  obtain ⟨time, hthere⟩ := FileTree.content?_eq_some_iff.1 (h.2.trans hcontent)
  rw [hcontent]
  exact FileTree.content?_eq_some_iff.2 ⟨time, hfills.kept _ _ hthere⟩

/-- What a walk of this depth has counted are files that have been copied. -/
def Counts (t : FileTree) (m l : Location) (root rootTarget : String) (depth : Nat) : Prop :=
  ∀ {source target : String} {entries : List (String × Entry)} {w w' : World}
    {scope : List String → Prop} {q : List String} {n : Nat},
    Copying t m l scope q source target entries w →
    Run.Returns (copyListed root rootTarget depth source target entries) w n w' →
    ∃ copied : List (List String), copied.Nodup ∧ copied.length = n ∧
      ∀ a ∈ copied, (∃ c ∈ entries, q ++ [c.1] <+: a) ∧ HasCopied t m l w'.files a

theorem exists_copied_of_copyEntry (hdepth : Counts t m l root rootTarget depth)
    (ht : t.ListedFirst m l) (h : Copying t m l scope q source target (c :: entries) w)
    (hentry : Run.Returns (copyEntry root rootTarget depth source target copied c) w n v) :
    ∃ names : List (List String), names.Nodup ∧ n = copied + names.length ∧
      ∀ a ∈ names, q ++ [c.1] <+: a ∧ HasCopied t m l v.files a := by
  obtain ⟨x, e⟩ := c
  cases e with
  | file content time =>
    obtain ⟨k, hcopy, rfl⟩ := returns_copyEntry_file.1 hentry
    obtain ⟨hplain, hthere⟩ := h.there _ List.mem_cons_self
    obtain ⟨-, rfl, -⟩ | ⟨hnone, rfl, hnew⟩ :=
      returns_copyAsset_cases h.source h.target hplain hthere hcopy
    · exact ⟨[], List.nodup_nil, rfl, by simp⟩
    · rw [Location.child_below] at hnone hnew
      have hcontent : t.content? (m.below (q ++ [x])) = some content :=
        FileTree.content?_eq_some_iff.2 ⟨time, h.sources _ List.mem_cons_self⟩
      have hcopied : HasCopied t m l v.files (q ++ [x]) := by
        refine ⟨⟨?_, h.copies.eq_none hnone⟩, ?_⟩
        · rw [hcontent]
          rfl
        · rw [hcontent]
          exact FileTree.content?_eq_some_iff.2 ⟨_, hnew⟩
      refine ⟨[q ++ [x]], List.nodup_singleton _, rfl, fun a ha => ?_⟩
      obtain rfl := List.mem_singleton.1 ha
      exact ⟨List.prefix_refl _, hcopied⟩
  | directory time =>
    obtain ⟨inner, v', k, hinner, hmake, hcopy, rfl⟩ := returns_copyEntry_directory.1 hentry
    obtain ⟨names, hnodup, rfl, hnames⟩ := hdepth (h.inside ht hinner hmake) hcopy
    refine ⟨names, hnodup, rfl, fun a ha => ?_⟩
    obtain ⟨⟨d, -, hd⟩, hcopied⟩ := hnames a ha
    exact ⟨(List.prefix_append _ _).trans hd, hcopied⟩

theorem exists_copied_of_copyEntries (hdepth : Counts t m l root rootTarget depth)
    (ht : t.ListedFirst m l) (h : Copying t m l scope q source target entries w)
    (hreturns : Run.Returns (entries.foldlM (copyEntry root rootTarget depth source target) copied)
      w n w') :
    ∃ names : List (List String), names.Nodup ∧ n = copied + names.length ∧
      ∀ a ∈ names, (∃ c ∈ entries, q ++ [c.1] <+: a) ∧ HasCopied t m l w'.files a := by
  induction entries generalizing w copied scope with
  | nil =>
    obtain ⟨rfl, -⟩ := Run.returns_pure.1 hreturns
    exact ⟨[], List.nodup_nil, rfl, by simp⟩
  | cons c entries ih =>
    obtain ⟨_, v, hentry, hrest⟩ := returns_foldlM_cons.1 hreturns
    have hlater := h.later ht hentry
    have hadds := hlater.toListing.adds_copyEntries hrest
    obtain ⟨xs, hxs, rfl, hmem⟩ := h.exists_copied_of_copyEntry hdepth ht hentry
    obtain ⟨ys, hys, rfl, hmem'⟩ := ih hlater hrest
    refine ⟨xs ++ ys, List.nodup_append'.2 ⟨hxs, hys, fun a hx hy => ?_⟩, ?_, fun a ha => ?_⟩
    · -- two entries have different names, so nothing is under both
      obtain ⟨r, hr⟩ := (hmem a hx).1
      obtain ⟨d, hd, s, hs⟩ := (hmem' a hy).1
      have hheads := hr.trans hs.symm
      rw [← List.append_cons, ← List.append_cons, List.append_cancel_left_eq,
        List.cons.injEq] at hheads
      exact String.lt_irrefl _ (hheads.1 ▸ h.toListing.lt_of_mem hd)
    · rw [List.length_append, Nat.add_assoc]
    · obtain ha | ha := List.mem_append.1 ha
      · exact ⟨⟨c, List.mem_cons_self, (hmem a ha).1⟩, (hmem a ha).2.fills hadds.fills.files⟩
      · obtain ⟨⟨d, hd, hunder⟩, hcopied⟩ := hmem' a ha
        exact ⟨⟨d, List.mem_cons_of_mem _ hd, hunder⟩, hcopied⟩

theorem counts (ht : t.ListedFirst m l) (root rootTarget : String) (depth : Nat) :
    Counts t m l root rootTarget depth := by
  induction depth with
  | zero =>
    intro source target entries w w' scope q n _ hreturns
    obtain ⟨rfl, -⟩ := Run.returns_pure.1 hreturns
    exact ⟨[], List.nodup_nil, rfl, by simp⟩
  | succ depth ih =>
    intro source target entries w w' scope q n h hreturns
    rw [copyListed_succ] at hreturns
    obtain ⟨names, hnodup, rfl, hnames⟩ := h.exists_copied_of_copyEntries ih ht hreturns
    exact ⟨names, hnodup, (Nat.zero_add _).symm, hnames⟩

end Copying

end LiterateJournal
