import LiterateJournal.Proofs.Files.Lexical
import LiterateJournal.Proofs.Site.Assets

/-!
# Copies mirror their source

Copying goes through the entries of a directory one after another. Each entry decides what happens
under its own name and nowhere else, so what is true of every entry is true of the whole directory.

## Main definitions

* `CopyOf` — what stands at a destination after what stood there and at its source.
* `Mirrors` — each destination among some names is as it must be, and the files copied are counted.

## Main statements

* `mirrors_copyEntry`, `mirrors_copyEntries` — one entry of a directory, and several.
* `copyingMirrors` — a directory with all that is in it.
-/

namespace LiterateJournal

/-! ### What copying leaves -/

/-- What stands at a destination after it has been copied to, given what stood at its source and
there before. Nothing is replaced, a directory becomes a directory, and a file is copied where
nothing was. -/
structure CopyOf (source before after : Option Entry) : Prop where
  kept : ∀ e, before = some e → after = some e
  directory : ∀ time, source = some (.directory time) → ∃ time', after = some (.directory time')
  file : ∀ content time, source = some (.file content time) → before = none →
    ∃ time', after = some (.file content time')
  other : source = none → after = before

namespace CopyOf

variable {content : Content} {time time' : Nat}

theorem nothing (before : Option Entry) : CopyOf none before before where
  kept _ h := h
  directory _ h := by cases h
  file _ _ h := by cases h
  other _ := rfl

theorem keptFile (e : Entry) : CopyOf (some (.file content time)) (some e) (some e) where
  kept _ h := h
  directory _ h := by cases h
  file _ _ _ h := by cases h
  other h := by cases h

theorem keptDirectory (source : Option Entry) :
    CopyOf source (some (.directory time)) (some (.directory time)) where
  kept _ h := h
  directory _ _ := ⟨time, rfl⟩
  file _ _ _ h := by cases h
  other _ := rfl

theorem newFile : CopyOf (some (.file content time)) none (some (.file content time')) where
  kept _ h := by cases h
  directory _ h := by cases h
  file _ _ h _ := by
    cases h
    exact ⟨time', rfl⟩
  other h := by cases h

theorem madeDirectory {before after : Option Entry} (hkept : ∀ e, before = some e → after = some e)
    (hmade : after = some (.directory time')) :
    CopyOf (some (.directory time)) before after where
  kept := hkept
  directory _ _ := ⟨time', hmade⟩
  file _ _ h := by cases h
  other h := by cases h

end CopyOf

/-- A file stands at the source, and nothing at the destination. -/
def FileTree.Lacks (t : FileTree) (m l : Location) (names : List String) : Prop :=
  (t.content? (m.below names)).isSome = true ∧ t.get? (l.below names) = none

/-- At all names in `scope` the destination is as it must be after copying, and `n` files have been
copied there. -/
structure Mirrors (scope : List String → Prop) (m l : Location) (t u : FileTree) (n : Nat) :
    Prop where
  copies : ∀ names, scope names →
    CopyOf (t.get? (m.below names)) (t.get? (l.below names)) (u.get? (l.below names))
  copied : ∃ copied : List (List String), copied.Nodup ∧ copied.length = n ∧
    ∀ names, names ∈ copied ↔ scope names ∧ t.Lacks m l names

namespace Mirrors

variable {scope scope' : List String → Prop} {m l : Location} {t t' u u' : FileTree} {n k : Nat}

theorem congr (h : Mirrors scope m l t u n)
    (hm : ∀ names, scope names → t'.get? (m.below names) = t.get? (m.below names))
    (hl : ∀ names, scope names → t'.get? (l.below names) = t.get? (l.below names))
    (hu : ∀ names, scope names → u'.get? (l.below names) = u.get? (l.below names)) :
    Mirrors scope m l t' u' n where
  copies names hs := by
    rw [hm names hs, hl names hs, hu names hs]
    exact h.copies names hs
  copied := by
    obtain ⟨copied, hnodup, hlength, hmem⟩ := h.copied
    refine ⟨copied, hnodup, hlength, fun names => (hmem names).trans (and_congr_right ?_)⟩
    intro hs
    rw [FileTree.Lacks, FileTree.Lacks, FileTree.content?_eq_of_get?_eq (hm names hs), hl names hs]

theorem of_scope (h : Mirrors scope m l t u n) (hs : ∀ names, scope' names ↔ scope names) :
    Mirrors scope' m l t u n := by
  obtain rfl : scope' = scope := funext fun names => propext (hs names)
  exact h

/-- What holds under some names and under others holds under all of them. -/
theorem union (h : Mirrors scope m l t u n) (h' : Mirrors scope' m l t u k)
    (hdisjoint : ∀ names, scope names → ¬ scope' names) :
    Mirrors (fun names => scope names ∨ scope' names) m l t u (n + k) where
  copies := by
    rintro names (hs | hs)
    · exact h.copies names hs
    · exact h'.copies names hs
  copied := by
    obtain ⟨xs, hxs, hlength, hmem⟩ := h.copied
    obtain ⟨ys, hys, hlength', hmem'⟩ := h'.copied
    refine ⟨xs ++ ys, ?_, by simp [hlength, hlength'], fun names => ?_⟩
    · apply List.nodup_append'.2 ⟨hxs, hys, ?_⟩
      intro names hx hy
      exact hdisjoint names ((hmem names).1 hx).1 ((hmem' names).1 hy).1
    · simp [hmem, hmem', or_and_right]

/-- Where nothing stands at the source and nothing has changed, nothing had to be done. -/
theorem of_nothing
    (h : ∀ names, scope names →
      t.get? (m.below names) = none ∧ u.get? (l.below names) = t.get? (l.below names)) :
    Mirrors scope m l t u 0 where
  copies names hs := by
    obtain ⟨hnone, hsame⟩ := h names hs
    rw [hnone, hsame]
    exact .nothing _
  copied := by
    refine ⟨[], List.nodup_nil, rfl, fun names => ?_⟩
    simp only [List.not_mem_nil, false_iff]
    rintro ⟨hs, hlacks, -⟩
    simp [FileTree.content?, (h names hs).1] at hlacks

/-- One name: the count is one if its file was lacking. -/
theorem one {x : String}
    (hcopy : CopyOf (t.get? (m.child x)) (t.get? (l.child x)) (u.get? (l.child x)))
    (hn : t.Lacks m l [x] ∧ n = 1 ∨ ¬ t.Lacks m l [x] ∧ n = 0) :
    Mirrors (· = [x]) m l t u n where
  copies := by
    rintro _ rfl
    exact hcopy
  copied := by
    obtain ⟨hlacks, rfl⟩ | ⟨hlacks, rfl⟩ := hn
    · refine ⟨[[x]], List.nodup_singleton _, rfl, fun names => ?_⟩
      grind
    · refine ⟨[], List.nodup_nil, rfl, fun names => ?_⟩
      grind

/-- What holds in a directory, seen from the directory around it. -/
theorem child {x : String} (h : Mirrors scope (m.child x) (l.child x) t u n) :
    Mirrors (fun names => ∃ rest, names = x :: rest ∧ scope rest) m l t u n where
  copies := by
    rintro _ ⟨rest, rfl, hs⟩
    rw [Location.below_cons, Location.below_cons]
    exact h.copies rest hs
  copied := by
    obtain ⟨xs, hxs, hlength, hmem⟩ := h.copied
    refine ⟨xs.map (x :: ·), hxs.map fun _ _ => List.tail_eq_of_cons_eq, by simpa, ?_⟩
    intro names
    simp only [List.mem_map, hmem, FileTree.Lacks]
    constructor
    · rintro ⟨rest, ⟨hs, hlacks⟩, rfl⟩
      rw [Location.below_cons, Location.below_cons]
      exact ⟨⟨rest, rfl, hs⟩, hlacks⟩
    · rintro ⟨⟨rest, rfl, hs⟩, hlacks⟩
      rw [Location.below_cons, Location.below_cons] at hlacks
      exact ⟨rest, ⟨hs, hlacks⟩, rfl⟩

/-- What is under a name is what it leads to and what is in that. -/
theorem of_name {x : String} (h : Mirrors (· = [x]) m l t u n)
    (hbelow : Mirrors (· ≠ []) (m.child x) (l.child x) t u k) :
    Mirrors (fun names => names.head? = some x) m l t u (n + k) := by
  apply (h.union hbelow.child ?_).of_scope
  · grind [List.head?_eq_some_iff]
  · rintro names rfl ⟨rest, heq, hne⟩
    grind

/-- What is true in a directory that stays is true of it as a whole. -/
theorem whole (h : Mirrors (· ≠ []) m l t u n) {time : Nat}
    (hd : t.get? l = some (.directory time)) (hstays : u.get? l = t.get? l) :
    Mirrors (fun _ => True) m l t u n where
  copies names _ := by
    by_cases hnil : names = []
    · rw [hnil, Location.below_nil, Location.below_nil, hstays, hd]
      exact .keptDirectory _
    · exact h.copies names hnil
  copied := by
    obtain ⟨copied, hnodup, hlength, hmem⟩ := h.copied
    refine ⟨copied, hnodup, hlength, fun names => (hmem names).trans (and_congr_left ?_)⟩
    intro hlacks
    refine iff_true_intro ?_
    rintro rfl
    rw [FileTree.Lacks, Location.below_nil, Location.below_nil, hd] at hlacks
    cases hlacks.2

/-- The source stays as it was: what is apart from the target is not copied to, and what is the
target itself has its copies already. -/
theorem source_stays (h : Mirrors scope m l t u n) (hapart : m.Apart l)
    (hother : ∀ k, (∀ names, k = l.below names → ¬ scope names) → u.get? k = t.get? k)
    (names : List String) : u.get? (m.below names) = t.get? (m.below names) := by
  by_cases hin : ∃ names', m.below names = l.below names' ∧ scope names'
  · obtain ⟨names', heq, hs⟩ := hin
    have hml : m = l := hapart.eq_of_contains (m.contains_below names)
      (heq ▸ l.contains_below names')
    subst hml
    obtain rfl := Location.below_inj heq
    have hcopy := h.copies names hs
    cases hbefore : t.get? (m.below names) with
    | none => exact (hcopy.other hbefore).trans hbefore
    | some e => exact hcopy.kept e hbefore
  · exact hother _ fun names' heq hs => hin ⟨names', heq, hs⟩

end Mirrors

/-! ### One entry -/

section Entry

variable {root rootTarget source target name : String} {depth copied n k : Nat} {w w' : World}
  {m l : Location}

/-- A file is copied unless something is there. -/
theorem returns_copyAsset_cases {content : Content} {time : Nat}
    (hm : w.files.DirectoryAt source m) (hl : w.files.DirectoryAt target l)
    (hname : Path.Plain name) (hfile : w.files.get? (m.child name) = some (.file content time))
    (h : Run.Returns (copyAsset (Path.join source name) (Path.join target name)) w k w') :
    (∃ e, w.files.get? (l.child name) = some e) ∧ k = 0 ∧ w' = w ∨
      w.files.get? (l.child name) = none ∧ k = 1 ∧
        w'.files.get? (l.child name) = some (.file content w.clock) := by
  unfold copyAsset at h
  simp only [Run.returns_bind, Run.returns_files, and_assoc, exists_and_left,
    exists_eq_left] at h
  split at h
  · rename_i hexists
    obtain ⟨rfl, rfl⟩ := Run.returns_pure.1 h
    exact .inl ⟨Option.isSome_iff_exists.1 ((exists?_iff hl hname).1 hexists).2, rfl, rfl⟩
  · rename_i hexists
    simp only [Run.returns_bind, Run.returns_change, Run.returns_pure] at h
    obtain ⟨_, v, ⟨files, hcopy, rfl⟩, rfl, rfl⟩ := h
    obtain ⟨content', time', hstat, hwrite⟩ := FileTree.copy_eq_ok_iff.1 hcopy
    obtain ⟨i, hi, hthere, -⟩ := FileTree.stat_eq_ok_iff.1 hstat
    obtain ⟨-, rfl⟩ := (hm.resolve_join_eq_ok_iff hname).1 hi
    obtain ⟨rfl, -⟩ : content = content' ∧ time = time' := by simpa [hfile] using hthere
    obtain ⟨j, hj, hd, -, rfl⟩ := FileTree.write_eq_ok_iff.1 hwrite
    obtain ⟨hfits, rfl⟩ := (hl.resolve_join_eq_ok_iff hname).1 hj
    have hnone := mt (exists?_iff hl hname).2 hexists
    refine .inr ⟨by simpa [hfits] using hnone, rfl, ?_⟩
    rw [FileTree.get?_set_of_not_isDirectory (FileTree.hasPlace_of_resolve hj) hd, if_pos rfl]

theorem mirrors_copyAsset {content : Content} {time : Nat}
    (hm : w.files.DirectoryAt source m) (hl : w.files.DirectoryAt target l)
    (hname : Path.Plain name) (hfile : w.files.get? (m.child name) = some (.file content time))
    (h : Run.Returns (copyAsset (Path.join source name) (Path.join target name)) w k w') :
    Mirrors (fun names => names.head? = some name) m l w.files w'.files k := by
  have hadds := (leaves_copyAsset hl hname).of_returns h
  have hcontent : (w.files.content? (m.below [name])).isSome = true := by
    change (w.files.content? (m.child name)).isSome = true
    simp [FileTree.content?, hfile]
  have hself : Mirrors (· = [name]) m l w.files w'.files k := by
    obtain ⟨⟨e, he⟩, rfl, rfl⟩ | ⟨hnone, rfl, hnew⟩ :=
      returns_copyAsset_cases hm hl hname hfile h
    · refine .one ?_ (.inr ⟨fun hlacks => ?_, rfl⟩)
      · rw [hfile, he]
        exact .keptFile e
      · cases he.symm.trans hlacks.2
    · refine .one ?_ (.inl ⟨⟨hcontent, hnone⟩, rfl⟩)
      rw [hfile, hnone, hnew]
      exact .newFile
  -- nothing is below a file
  have hbelow : Mirrors (· ≠ []) (m.child name) (l.child name) w.files w'.files 0 := by
    apply Mirrors.of_nothing
    intro names hne
    exact ⟨FileTree.get?_below_of_not_isDirectory (FileTree.not_isDirectory_of_get? hfile) hne,
      hadds.get?_eq (Location.below_ne hne)⟩
  exact hself.of_name hbelow

/-- A directory is made unless it is there. -/
theorem mirrors_ensureDirectory {x : World} {time : Nat} (hl : w.files.DirectoryAt target l)
    (hname : Path.Plain name) (hd : w.files.get? (m.child name) = some (.directory time))
    (hmake : Run.Returns (ensureDirectory (Path.join target name)) w () x) :
    World.Adds (· = l.child name) w x ∧ Mirrors (· = [name]) m l w.files x.files 0 := by
  have hmaking : Run.Leaves (ensureDirectory (Path.join target name)) w
      (World.Adds (· = l.child name) w) := leaves_ensureDirectory_join hl hname rfl
  have hx := hmaking.of_returns hmake
  refine ⟨hx, .one ?_ (.inr ⟨fun hlacks => ?_, rfl⟩)⟩
  · obtain ⟨time', hd'⟩ := (directoryAt_ensureDirectory_join hl hname hmake).isDirectory
    rw [hd]
    exact .madeDirectory (hx.fills.files.kept _) hd'
  · have hcontent : (w.files.content? (m.child name)).isSome = true := hlacks.1
    simp [FileTree.content?, hd] at hcontent

end Entry

/-! ### Directories -/

/-- Copying what is in a directory, down to `depth` directories deep, mirrors it. That is deep
enough if a path so deep is too long. -/
def CopyingMirrors (root rootTarget : String) (depth : Nat) : Prop :=
  ∀ {source target : String} {w w' : World} {m l : Location} {n : Nat},
    w.files.DirectoryAt source m → w.files.DirectoryAt target l → m.Apart l → w.files.WellFormed →
    source.utf8ByteSize ≤ FileTree.maxPath → FileTree.maxPath < depth + source.utf8ByteSize →
    Run.Returns (copyListed root rootTarget depth source target (w.files.childrenAt m)) w n w' →
    Mirrors (· ≠ []) m l w.files w'.files n

section Directory

variable {root rootTarget source target : String} {depth copied n : Nat} {w w' : World}
  {m l : Location}

/-- One entry of a directory. -/
theorem mirrors_copyEntry {c : String × Entry} (hdepth : CopyingMirrors root rootTarget depth)
    (hm : w.files.DirectoryAt source m) (hl : w.files.DirectoryAt target l) (hapart : m.Apart l)
    (hw : w.files.WellFormed) (hname : Path.Plain c.1)
    (hc : w.files.get? (m.child c.1) = some c.2)
    (hsize : FileTree.maxPath < depth + 1 + source.utf8ByteSize)
    (h : Run.Returns (copyEntry root rootTarget depth source target copied c) w n w') :
    ∃ k, n = copied + k ∧
      Mirrors (fun names => names.head? = some c.1) m l w.files w'.files k := by
  obtain ⟨name, e⟩ := c
  cases e with
  | file content time =>
    obtain ⟨k, hcopy, rfl⟩ := returns_copyEntry_file.1 h
    exact ⟨k, rfl, mirrors_copyAsset hm hl hname hc hcopy⟩
  | directory time =>
    obtain ⟨inner, x, k, hinner, hmake, hcopy, rfl⟩ := returns_copyEntry_directory.1 h
    obtain ⟨m', hm', hd, rfl⟩ := children_eq_ok_iff.1 hinner
    obtain ⟨hfits, rfl⟩ := (hm.resolve_join_eq_ok_iff hname).1 hm'
    obtain ⟨hx, hmade⟩ := mirrors_ensureDirectory hl hname hc hmake
    have hlx := directoryAt_ensureDirectory_join hl hname hmake
    have hwx := hx.fills.files.wellFormed hw
    -- the listing, which was made before the directory, is still right
    have hstays := hmade.source_stays hapart fun i hi => hx.get?_eq fun heq => hi [name] heq rfl
    have hstays' (names : List String) :
        x.files.get? ((m.child name).below names) = w.files.get? ((m.child name).below names) := by
      rw [← Location.below_cons]
      exact hstays (name :: names)
    have hnode : x.files.node? (m.child name) = w.files.node? (m.child name) := by
      apply hx.fills.files.node
      intro i hi
      obtain ⟨names, rfl⟩ := Location.contains_iff_exists_below.1 hi
      exact hstays' names
    rw [← childrenAt_eq_of_node?_eq hnode] at hcopy
    have hlonger : source.utf8ByteSize < (Path.join source name).utf8ByteSize :=
      Path.utf8ByteSize_lt_join source hname.1
    have hinside : Mirrors (· ≠ []) (m.child name) (l.child name) x.files w'.files k :=
      hdepth (hx.directoryAt (hm.join hname hfits.2 hd)) hlx (hapart.child name) hwx hfits.1
        (by omega) hcopy
    have hcopies := (copyingAdds root rootTarget depth hlx hwx fun c hc =>
      hwx.plain_of_mem_children hc).of_returns hcopy
    have hself : Mirrors (· = [name]) m l w.files w'.files 0 := by
      apply hmade.congr (fun _ _ => rfl) (fun _ _ => rfl)
      rintro _ rfl
      obtain ⟨time', hd'⟩ := hlx.isDirectory
      exact (hcopies.fills.files.kept _ _ hd').trans hd'.symm
    refine ⟨k, rfl, Nat.zero_add k ▸ hself.of_name (hinside.congr ?_ ?_ fun _ _ => rfl)⟩
    · exact fun names _ => (hstays' names).symm
    · exact fun names hne => (hx.get?_eq (Location.below_ne hne)).symm

/-- Some entries of a directory, each of which is copied to under its own name. -/
theorem mirrors_copyEntries {entries : List (String × Entry)}
    (hdepth : CopyingMirrors root rootTarget depth) (hm : w.files.DirectoryAt source m)
    (hl : w.files.DirectoryAt target l) (hapart : m.Apart l) (hw : w.files.WellFormed)
    (hnames : ∀ c ∈ entries, Path.Plain c.1)
    (hthere : ∀ c ∈ entries, w.files.get? (m.child c.1) = some c.2)
    (hnodup : (entries.map Prod.fst).Nodup)
    (hsize : FileTree.maxPath < depth + 1 + source.utf8ByteSize)
    (h : Run.Returns (entries.foldlM (copyEntry root rootTarget depth source target) copied)
      w n w') :
    ∃ k, n = copied + k ∧
      Mirrors (fun names => ∃ c ∈ entries, names.head? = some c.1) m l w.files w'.files k := by
  induction entries generalizing w copied with
  | nil =>
    obtain ⟨rfl, rfl⟩ := Run.returns_pure.1 h
    exact ⟨0, rfl, .of_nothing fun _ ⟨c, hc, _⟩ => absurd hc List.not_mem_nil⟩
  | cons c entries ih =>
    obtain ⟨_, v, hentry, hrest⟩ := returns_foldlM_cons.1 h
    obtain ⟨hname, hnames⟩ := List.forall_mem_cons.1 hnames
    obtain ⟨hc, hthere⟩ := List.forall_mem_cons.1 hthere
    obtain ⟨hfresh, hnodup⟩ := List.nodup_cons.1 hnodup
    obtain ⟨k, rfl, hfirst⟩ := mirrors_copyEntry hdepth hm hl hapart hw hname hc hsize hentry
    have hv := (leaves_copyEntry (copyingAdds _ _ depth) hl hw hname).of_returns hentry
    have hwv := hv.fills.files.wellFormed hw
    have hlv := hv.directoryAt hl
    have hlast := (leaves_copyEntries (copyingAdds _ _ depth) hlv hwv hnames).of_returns hrest
    have hstays := hfirst.source_stays hapart fun i hi => hv.get?_eq fun hcontains => by
      obtain ⟨names, rfl⟩ := Location.contains_iff_exists_below.1 hcontains
      exact hi (c.1 :: names) (Location.below_cons l c.1 names).symm rfl
    obtain ⟨k', rfl, hlater⟩ := ih (hv.directoryAt hm) hlv hwv hnames
      (fun d hd => (hstays [d.1]).trans (hthere d hd)) hnodup hrest
    have hne {names : List String} (hs : names.head? = some c.1) :
        ¬ ∃ d ∈ entries, names.head? = some d.1 := by
      rintro ⟨d, hd, hs'⟩
      apply hfresh
      rw [Option.some.inj (hs.symm.trans hs')]
      exact List.mem_map_of_mem hd
    refine ⟨k + k', Nat.add_assoc copied k k', Mirrors.of_scope (Mirrors.union
      (hfirst.congr (fun _ _ => rfl) (fun _ _ => rfl) ?_) (hlater.congr ?_ ?_ fun _ _ => rfl)
      fun names => hne) ?_⟩
    · intro names hs
      apply hlast.get?_eq
      rintro ⟨d, hd, hcontains⟩
      exact hne hs ⟨d, hd, Location.child_contains_below_iff.1 hcontains⟩
    · exact fun names _ => (hstays names).symm
    · intro names hs
      exact (hv.get?_eq fun hcontains =>
        hne (Location.child_contains_below_iff.1 hcontains) hs).symm
    · simp

/-- A directory with all that is in it. -/
theorem copyingMirrors (root rootTarget : String) (depth : Nat) :
    CopyingMirrors root rootTarget depth := by
  induction depth with
  | zero =>
    intro source target w w' m l n _ _ _ _ hfits hsize
    omega
  | succ depth ih =>
    intro source target w w' m l n hm hl hapart hw hfits hsize h
    have hnames (c : String × Entry) (hc : c ∈ w.files.childrenAt m) : Path.Plain c.1 :=
      hw.plain_of_mem_children hc
    rw [copyListed_succ] at h
    have hadds := (leaves_copyEntries (copyingAdds _ _ depth) hl hw hnames).of_returns h
    obtain ⟨k, rfl, hentries⟩ := mirrors_copyEntries ih hm hl hapart hw hnames
      (fun c hc => hw.mem_childrenAt_iff.1 hc) (hw.nodup_children m) hsize h
    -- what is not listed is not there, and nothing is copied to under its name
    have hothers : Mirrors
        (fun names => names ≠ [] ∧ ∀ c ∈ w.files.childrenAt m, names.head? ≠ some c.1)
        m l w.files w'.files 0 := by
      apply Mirrors.of_nothing
      rintro names ⟨hne, hunlisted⟩
      obtain ⟨x, rest, rfl⟩ := List.exists_cons_of_ne_nil hne
      constructor
      · rw [Location.below_cons]
        apply FileTree.get?_below_of_get?_eq_none
        cases hx : w.files.get? (m.child x) with
        | none => rfl
        | some e => exact absurd rfl (hunlisted _ (hw.mem_childrenAt_iff.2 hx))
      · apply hadds.get?_eq
        rintro ⟨c, hc, hcontains⟩
        exact hunlisted c hc (Location.child_contains_below_iff.1 hcontains)
    apply (hothers.union hentries ?_).of_scope
    · intro names
      constructor
      · intro hne
        by_cases hlisted : ∃ c ∈ w.files.childrenAt m, names.head? = some c.1
        · exact .inr hlisted
        · exact .inl ⟨hne, fun c hc heq => hlisted ⟨c, hc, heq⟩⟩
      · rintro (⟨hne, -⟩ | ⟨c, -, hc⟩)
        · exact hne
        · rintro rfl
          cases hc
    · rintro names ⟨-, hunlisted⟩ ⟨c, hc, heq⟩
      exact hunlisted c hc heq

end Directory

end LiterateJournal
