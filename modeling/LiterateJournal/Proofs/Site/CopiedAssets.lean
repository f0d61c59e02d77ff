import LiterateJournal.Proofs.Site.Mirroring

/-!
# What the copying of assets does to the files

Whether it succeeds or not, copying replaces nothing, and outside its target it makes missing
ancestors of the target only. When it succeeds, the target mirrors the source, the files copied are
those that were missing, and copying once more does nothing.

A path that goes up again from a directory that is missing has that directory among its ancestors.
It is made before anything is copied, and may then stand where the copy of a file would.

## Main definitions

* `FileTree.FilledIn` — what copying may change, whether it succeeds or not.

## Main statements

* `leaves_copyAssets_filledIn` — copying changes nothing else.
* `mirrors_copyAssets` — when it succeeds, the target mirrors the source.
* `copyAssets_mirrors` — all of this together.
-/

namespace LiterateJournal

/-- All that was there is still there as it was. What is new is inside the target, or is the
directory of an ancestor of it. -/
structure FileTree.FilledIn (target : String) (t u : FileTree) : Prop where
  kept : ∀ k e, t.get? k = some e → u.get? k = some e
  new : ∀ k, t.get? k = none → u.get? k ≠ none →
    k.Inside (Path.location target) ∨
      u.IsDirectory k ∧ ∃ p, Path.IsAncestor p target ∧ k = Path.location p

section

variable {source target : String} {w w' : World} {n : Nat}

theorem FileTree.filledIn_makeDirectories (t : FileTree) (now : Nat) (target : String) :
    t.FilledIn target (t.makeDirectories now target).2 where
  kept k e hk := by
    obtain hsame | ⟨hnone, -⟩ := grown_makeDirectories t now target k
    · exact hsame.trans hk
    · rw [hnone] at hk
      cases hk
  new k hk hnew := by
    obtain hsame | ⟨-, hmade⟩ := grown_makeDirectories t now target k
    · exact absurd (hsame.trans hk) hnew
    · obtain hsame | hancestor := get?_makeDirectories t now target k
      · exact absurd (hsame.trans hk) hnew
      · exact .inr ⟨⟨now, hmade⟩, hancestor⟩

/-- Whether assets can be copied or not, nothing that was there is changed, and what is new is in
the target or around it. -/
theorem leaves_copyAssets_filledIn (hw : w.files.WellFormed) (source target : String) :
    Run.Leaves (copyAssets source target) w fun w' => w.files.FilledIn target w'.files := by
  refine leaves_copyAssets hw (Run.leaves_makeDirectories.2 ?_) ?_
  · exact FileTree.filledIn_makeDirectories _ _ _
  · intro v l u hmake hl hadds
    obtain ⟨-, rfl⟩ := returns_ensureDirectory.1 hmake
    obtain rfl := hl.eq_location
    have hmade := w.files.filledIn_makeDirectories w.clock target
    refine ⟨fun k e hk => hadds.fills.files.kept k e (hmade.kept k e hk), fun k hk hnew => ?_⟩
    cases hv : (w.files.makeDirectories w.clock target).2.get? k with
    | some e =>
      have hu := hadds.fills.files.kept k e hv
      apply (hmade.new k hk (by simp [hv])).imp_right
      rintro ⟨⟨time, hd⟩, hancestor⟩
      exact ⟨⟨time, hadds.fills.files.kept k _ hd⟩, hancestor⟩
    | none =>
      obtain ⟨e, hu⟩ := Option.ne_none_iff_exists'.1 hnew
      refine .inl ⟨(hadds.new hv hu).2, ?_⟩
      rintro rfl
      obtain ⟨time, hd⟩ := hl.isDirectory
      cases hv.symm.trans hd

/-- When assets have been copied, the target mirrors the source as it was once the target was
there. -/
theorem mirrors_copyAssets (hw : w.files.WellFormed)
    (hapart : (Path.location source).Apart (Path.location target))
    (h : Run.Returns (copyAssets source target) w n w') :
    ∃ x, Run.Returns (ensureDirectory target) w () x ∧
      World.Adds (Path.location target).Contains x w' ∧
      Mirrors (fun _ => True) (Path.location source) (Path.location target) x.files w'.files n := by
  obtain ⟨x, hmake, hcopy⟩ := returns_copyAssets.1 h
  obtain ⟨l, hl⟩ := exists_directoryAt_ensureDirectory hmake
  have hfills : World.Fills (fun _ => False) w x := fills_ensureDirectory hmake
  have hwx := hfills.files.wellFormed hw
  obtain rfl := hl.eq_location
  obtain ⟨time, hd⟩ := hl.isDirectory
  obtain ⟨content, time', hstat, rfl, rfl⟩ | ⟨entries, hentries, hlisted⟩ := hcopy
  · obtain ⟨m, hm, hfile, -⟩ := FileTree.stat_eq_ok_iff.1 hstat
    obtain rfl := FileTree.eq_location_of_resolve hm
    have hbelow : Mirrors (· ≠ []) (Path.location source) (Path.location target) w'.files
        w'.files 0 := .of_nothing fun names hne =>
      ⟨FileTree.get?_below_of_not_isDirectory (FileTree.not_isDirectory_of_get? hfile) hne, rfl⟩
    exact ⟨_, hmake, .refl _ _, hbelow.whole hd rfl⟩
  · obtain ⟨m, hm, hdir, rfl⟩ := children_eq_ok_iff.1 hentries
    obtain rfl := FileTree.eq_location_of_resolve hm
    have hpos := FileTree.utf8ByteSize_pos_of_resolve hm
    have hadds := (copyingAdds _ _ _ hl hwx fun c hc => hwx.plain_of_mem_children hc).of_returns
      hlisted
    have hbelow := copyingMirrors _ _ _ ⟨FileTree.walk_components_of_resolve hm, hdir⟩ hl hapart
      hwx (FileTree.bounds_of_resolve hm).2 (by omega) hlisted
    exact ⟨x, hmake, hadds, hbelow.whole hd ((hadds.fills.files.kept _ _ hd).trans hd.symm)⟩

/-- Copying assets leaves them as they are, and so does copying them once more. -/
theorem returns_copyAssets_twice (hw : w.files.WellFormed)
    (hapart : (Path.location source).Apart (Path.location target))
    (h : Run.Returns (copyAssets source target) w n w') :
    ∃ u, Run.Returns (copyAssets source target) w' 0 u ∧ u.files = w'.files := by
  obtain ⟨x, hmake, hadds, hmirrors⟩ := mirrors_copyAssets hw hapart h
  obtain ⟨l, hl⟩ := exists_directoryAt_ensureDirectory hmake
  obtain rfl := hl.eq_location
  refine returns_copyAssets_of_same hw h (hadds.directoryAt hl) (fun _ => id) (fun _ _ => rfl) ?_
  intro y m hmake' _ hm
  obtain rfl := (hmake.unique hmake').2
  obtain rfl := FileTree.eq_location_of_resolve hm
  have hnode : w'.files.node? (Path.location source) = x.files.node? (Path.location source) := by
    apply hadds.fills.files.node
    intro k hk
    obtain ⟨names, rfl⟩ := Location.contains_iff_exists_below.1 hk
    refine hmirrors.source_stays hapart (fun i hi => hadds.get?_eq fun hin => ?_) names
    obtain ⟨rest, hrest⟩ := Location.contains_iff_exists_below.1 hin
    exact hi rest hrest trivial
  exact ⟨hnode, hnode⟩

/-- Copying assets, whether it succeeds or not, replaces nothing and adds nothing outside its target
but missing ancestors of it; these are made first, and never inside a target that does not go up.
When it succeeds, every directory of the source is in the target, every file that was missing there
has been copied, nothing else is new, and the copied files have been counted. Copying once more does
nothing. -/
theorem copyAssets_mirrors (hw : w.files.WellFormed)
    (hapart : (Path.location source).Apart (Path.location target)) :
    let m := Path.location source
    let l := Path.location target
    let made := (w.files.makeDirectories w.clock target).2
    (Run.Leaves (copyAssets source target) w fun w' => w.files.FilledIn target w'.files) ∧
    (.up ∉ Path.components target → ∀ k, k.Inside l → made.get? k = w.files.get? k) ∧
    ∀ n w', Run.Returns (copyAssets source target) w n w' →
      (∀ names, made.IsDirectory (m.below names) → w'.files.IsDirectory (l.below names)) ∧
      (∀ names content, w.files.content? (m.below names) = some content →
        made.get? (l.below names) = none → w'.files.content? (l.below names) = some content) ∧
      (∀ names, w'.files.get? (l.below names) ≠ made.get? (l.below names) →
        made.get? (l.below names) = none ∧ made.get? (m.below names) ≠ none) ∧
      (∃ copied : List (List String), copied.Nodup ∧ copied.length = n ∧ ∀ names,
        names ∈ copied ↔ (w.files.content? (m.below names)).isSome = true ∧
          made.get? (l.below names) = none) ∧
      ∃ w'', Run.Returns (copyAssets source target) w' 0 w'' ∧ w''.files = w'.files := by
  intro m l made
  refine ⟨leaves_copyAssets_filledIn hw source target,
    fun hup k hk => FileTree.get?_makeDirectories_of_inside _ _ hup hk, fun n w' h => ?_⟩
  obtain ⟨x, hmake, -, hmirrors⟩ := mirrors_copyAssets hw hapart h
  have hx : made = x.files := by
    obtain ⟨-, rfl⟩ := returns_ensureDirectory.1 hmake
    rfl
  have hcontent (k : Location) : made.content? k = w.files.content? k :=
    FileTree.content?_makeDirectories _ _ _ k
  clear_value made
  subst hx
  have hcopy (names : List String) := hmirrors.copies names trivial
  refine ⟨fun names => ?_, fun names content hfile hnone => ?_, fun names hnew => ?_, ?_,
    returns_copyAssets_twice hw hapart h⟩
  · rintro ⟨time, hsource⟩
    exact (hcopy names).directory time hsource
  · rw [← hcontent] at hfile
    obtain ⟨time, hsource⟩ := FileTree.content?_eq_some_iff.1 hfile
    exact FileTree.content?_eq_some_iff.2 ((hcopy names).file content time hsource hnone)
  · cases hbefore : x.files.get? (l.below names) with
    | some e => exact absurd (((hcopy names).kept e hbefore).trans hbefore.symm) hnew
    | none => exact ⟨rfl, fun hsource => hnew ((hcopy names).other hsource)⟩
  · obtain ⟨copied, hnodup, hlength, hmem⟩ := hmirrors.copied
    refine ⟨copied, hnodup, hlength, fun names => ?_⟩
    rw [hmem, true_and, FileTree.Lacks, hcontent]

end

def assetsSite : World where
  files := .ofEntries [
    (⟨false, ["s"]⟩, .directory 1),
    (⟨false, ["s", "a"]⟩, .file (.text "new") 1),
    (⟨false, ["s", "d"]⟩, .directory 1),
    (⟨false, ["s", "d", "b"]⟩, .file (.text "b") 1),
    (⟨false, ["t"]⟩, .directory 1),
    (⟨false, ["t", "a"]⟩, .file (.text "old") 1)]
  clock := 10
  web := fun _ => .dropped
  requests := []
  progress := []

theorem wellFormed_assetsSite : assetsSite.files.WellFormed :=
  FileTree.wellFormed_ofEntries (by decide)

theorem result_assetsSite :
    (Run.result (copyAssets "s" "t") assetsSite).1.toOption.map id = some 1 := by
  decide +kernel

theorem copyAssets_assetsSite_mirrors : ∃ w', Run.Returns (copyAssets "s" "t") assetsSite 1 w' ∧
    w'.files.content? ⟨false, ["t", "a"]⟩ = some (.text "old") ∧
    w'.files.content? ⟨false, ["t", "d", "b"]⟩ = some (.text "b") ∧
    ∃ w'', Run.Returns (copyAssets "s" "t") w' 0 w'' ∧ w''.files = w'.files := by
  obtain ⟨n, h, rfl⟩ := Run.exists_returns result_assetsSite
  have hapart : (Path.location "s").Apart (Path.location "t") := by decide +kernel
  obtain ⟨hframe, hmade, hmirrors⟩ := copyAssets_mirrors wellFormed_assetsSite hapart
  obtain ⟨-, hfiles, -, -, hagain⟩ := hmirrors 1 _ h
  refine ⟨_, h, ?_, ?_, hagain⟩
  · rw [FileTree.content?, (hframe.of_returns h).kept ⟨false, ["t", "a"]⟩ (.file (.text "old") 1)
      (by decide +kernel)]
  · exact hfiles ["d", "b"] (.text "b") (by decide +kernel) (by decide +kernel)

/-- An asset for a target that will be reached through a directory of its name. -/
def ancestorSite : World where
  files := .ofEntries [
    (⟨false, ["s"]⟩, .directory 1),
    (⟨false, ["s", "x"]⟩, .file (.text "hello") 1)]
  clock := 10
  web := fun _ => .dropped
  requests := []
  progress := []

theorem wellFormed_ancestorSite : ancestorSite.files.WellFormed :=
  FileTree.wellFormed_ofEntries (by decide)

theorem result_ancestorSite :
    (Run.result (copyAssets "s" "t/x/..") ancestorSite).1.toOption.map id = some 0 ∧
      (Run.result (copyAssets "s" "t/x/..") ancestorSite).2.files.content? ⟨false, ["t", "x"]⟩ =
        none := by
  decide +kernel

/-- A missing ancestor of the target can stand where the copy of a file would. -/
theorem not_copied_over_ancestor : ¬ ∀ (source target : String) (w w' : World) (n : Nat),
    w.files.WellFormed → (Path.location source).Apart (Path.location target) →
    Run.Returns (copyAssets source target) w n w' →
    ∀ names content, w.files.content? ((Path.location source).below names) = some content →
      w.files.get? ((Path.location target).below names) = none →
      w'.files.content? ((Path.location target).below names) = some content := by
  intro h
  obtain ⟨n, hreturns, -⟩ := Run.exists_returns result_ancestorSite.1
  have hapart : (Path.location "s").Apart (Path.location "t/x/..") := by decide +kernel
  have hcopied := h "s" "t/x/.." ancestorSite _ n wellFormed_ancestorSite hapart hreturns
    ["x"] (.text "hello") (by decide +kernel) (by decide +kernel)
  have hthere : (Path.location "t/x/..").below ["x"] = ⟨false, ["t", "x"]⟩ := by decide +kernel
  rw [hthere, result_ancestorSite.2] at hcopied
  cases hcopied

end LiterateJournal
