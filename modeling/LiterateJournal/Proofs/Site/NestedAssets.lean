import LiterateJournal.Proofs.Site.CopiedAssets
import LiterateJournal.Proofs.Site.Disturbed
import LiterateJournal.Proofs.Site.Undisturbed

/-!
# Assets that are copied into themselves

Nothing keeps the target of a copy out of its source. What is read and copied then is what was there
before exactly if no copy is made where the walk has still to look. If one is, it is copied in its
turn; and if the target is two or more levels below the source, this goes on until a path is too
long.

## Main definitions

* `Undisturbed` — no copy is made where the walk has still to look.

## Main statements

* `undisturbed_of_apart` — directories of which none is in the other one.
* `copyAssets_meets_sources_iff` — what has been read and copied.
-/

namespace LiterateJournal

/-- Making the target puts nothing into the source, and no copy is made in a directory of the source
that is listed only later. -/
structure Undisturbed (source target : String) (w : World) : Prop where
  made : ∀ names, names ≠ [] →
    (w.files.makeDirectories w.clock target).2.get? ((Path.location source).below names) =
      w.files.get? ((Path.location source).below names)
  listedFirst : (w.files.makeDirectories w.clock target).2.ListedFirst (Path.location source)
    (Path.location target)

section

variable {source target : String} {w v w' : World} {n : Nat} {m l : Location}
  {names : List String}

/-- Nothing disturbs the copying between directories of which none is in the other one. -/
theorem undisturbed_of_apart (hapart : (Path.location source).Apart (Path.location target))
    (hup : .up ∉ Path.components target) : Undisturbed source target w where
  made names hne := by
    obtain hsame | ⟨p, hp, hk⟩ := FileTree.get?_makeDirectories w.files w.clock target
      ((Path.location source).below names)
    · exact hsame
    · -- a directory around the target is in the source only if they are the same
      have haround := hp.contains hup
      rw [← hk] at haround
      have heq := hapart.eq_of_contains ((Location.contains_below _ names).trans haround)
        (Location.contains_refl _)
      rw [← heq] at haround
      exact absurd ((Location.contains_below _ names).antisymm haround).symm
        (Location.below_ne hne)
  listedFirst a dir x hthere hnone _ hk _ := by
    have heq := hapart.eq_of_contains (Location.contains_below _ (dir ++ [x]))
      (hk ▸ Location.contains_below _ a)
    rw [heq] at hthere
    exact hthere hnone

theorem Meets.ne_nil {root rootTarget : String} {depth : Nat} {entries : List (String × Entry)}
    (h : Meets root rootTarget depth source target entries w names) : names ≠ [] := by
  induction h with
  | here => exact List.cons_ne_nil _ _
  | later _ _ ih => exact ih
  | inside => exact List.cons_ne_nil _ _

/-! ### Where the walk begins -/

theorem files_of_returns_ensureDirectory {u : Unit}
    (h : Run.Returns (ensureDirectory target) w u v) :
    v.files = (w.files.makeDirectories w.clock target).2 := by
  obtain ⟨-, rfl⟩ := returns_ensureDirectory.1 h
  rfl

/-- Once the target is there, all that is in the source is still to be copied. -/
theorem listing_of_children (hw : w.files.WellFormed) {entries : List (String × Entry)}
    (hmake : Run.Returns (ensureDirectory target) w () v)
    (hentries : v.files.children source = .ok entries) :
    entries = v.files.childrenAt (Path.location source) ∧
      Listing (Path.location source) (Path.location target) source target entries v ∧
      source.utf8ByteSize ≤ FileTree.maxPath ∧
      FileTree.maxPath < FileTree.maxPath + source.utf8ByteSize := by
  obtain ⟨m, hm, hd, rfl⟩ := children_eq_ok_iff.1 hentries
  obtain rfl := FileTree.eq_location_of_resolve hm
  obtain ⟨l, hl⟩ := exists_directoryAt_ensureDirectory hmake
  obtain rfl := hl.eq_location
  have hfills : World.Fills (fun _ => False) w v := fills_ensureDirectory hmake
  exact ⟨rfl, .of_childrenAt ⟨FileTree.walk_components_of_resolve hm, hd⟩ hl
    (hfills.files.wellFormed hw), (FileTree.bounds_of_resolve hm).2,
    Nat.lt_add_of_pos_right (FileTree.utf8ByteSize_pos_of_resolve hm)⟩

theorem Listing.copying {entries : List (String × Entry)}
    (h : Listing m l source target entries v) :
    Copying v.files m l (fun _ => False) [] source target entries v where
  toListing := by rwa [Location.below_nil, Location.below_nil]
  sources c hc := by
    rw [← Location.child_below, Location.below_nil]
    exact (h.there c hc).2
  earlier _ hfalse := hfalse.elim
  copies := .refl _ _ _ _

theorem Listing.abreast (h : Listing m l source target (v.files.childrenAt m) v) :
    Abreast v.files m l (· = []) [] source target (v.files.childrenAt m) v where
  toListing := by rwa [Location.below_nil, Location.below_nil]
  kept _ _ he := he
  present a ha _ := by
    rw [ha, Location.below_nil]
    exact h.target.isDirectory.ne_none
  passed a ha c _ _ := by
    cases a with
    | nil => exact .inl rfl
    | cons y rest =>
      have hy : v.files.get? (m.child y) ≠ none := by
        intro hnone
        rw [Location.below_cons] at ha
        exact ha (FileTree.get?_below_of_get?_eq_none hnone rest)
      obtain ⟨e, he⟩ := h.wellFormed.exists_mem_childrenAt hy
      exact .inr ⟨(y, e), he, rest, rfl⟩

/-! ### Copying that is not disturbed -/

namespace Undisturbed

/-- All that is read was there before. -/
theorem get?_ne_none (h : Undisturbed source target w) (hw : w.files.WellFormed)
    (hmeets : AssetsMeet source target w names) :
    w.files.get? ((Path.location source).below names) ≠ none := by
  obtain ⟨v, entries, hmake, hentries, hmeets⟩ := hmeets
  obtain ⟨-, hlisting, -⟩ := listing_of_children hw hmake hentries
  have hfirst := h.listedFirst
  rw [← h.made names hmeets.ne_nil]
  rw [← files_of_returns_ensureDirectory hmake] at hfirst ⊢
  exact hlisting.copying.get?_ne_none hfirst hmeets

/-- Whether copying succeeds or not, a file that is new is a copy of a file of the source. -/
theorem leaves_copyAssets (h : Undisturbed source target w) (hw : w.files.WellFormed) :
    Run.Leaves (copyAssets source target) w fun w' => ∀ k content,
      w'.files.content? k = some content → w.files.content? k = none →
        ∃ names, k = (Path.location target).below names ∧
          w.files.content? ((Path.location source).below names) = some content := by
  have hcontent := w.files.content?_makeDirectories w.clock target
  refine leaves_copyAssets_of_listed (Run.leaves_makeDirectories.2 ?_)
    fun v entries hmake hentries => ?_
  · intro k content hk hnone
    rw [hcontent, hnone] at hk
    cases hk
  · obtain ⟨-, hlisting, -⟩ := listing_of_children hw hmake hentries
    have hfirst := h.listedFirst
    rw [← files_of_returns_ensureDirectory hmake] at hfirst hcontent
    refine (Copying.spreads hfirst _ _ _ hlisting.copying).mono fun w' hcopies k content hk => ?_
    rw [← hcontent]
    intro hnone
    obtain ⟨names, rfl, hsource⟩ := hcopies.exists_source hk hnone
    exact ⟨names, rfl, (hcontent _).symm.trans hsource⟩

/-- The files that have been counted were in the source before, and have been copied. -/
theorem exists_copied (h : Undisturbed source target w) (hw : w.files.WellFormed)
    (hreturns : Run.Returns (copyAssets source target) w n w') :
    ∃ copied : List (List String), copied.Nodup ∧ copied.length = n ∧ ∀ names ∈ copied,
      (w.files.content? ((Path.location source).below names)).isSome = true ∧
        w.files.get? ((Path.location target).below names) = none ∧
        w'.files.content? ((Path.location target).below names) =
          w.files.content? ((Path.location source).below names) := by
  obtain ⟨v, hmake, ⟨_, _, -, rfl, -⟩ | ⟨entries, hentries, hlisted⟩⟩ :=
    returns_copyAssets.1 hreturns
  · exact ⟨[], List.nodup_nil, rfl, by simp⟩
  · obtain ⟨-, hlisting, -⟩ := listing_of_children hw hmake hentries
    have hfirst := h.listedFirst
    have hcontent := w.files.content?_makeDirectories w.clock target
    have hgrown := w.files.grown_makeDirectories w.clock target
    rw [← files_of_returns_ensureDirectory hmake] at hfirst hcontent hgrown
    obtain ⟨copied, hnodup, hlength, hcopied⟩ :=
      Copying.counts hfirst _ _ _ hlisting.copying hlisted
    refine ⟨copied, hnodup, hlength, fun names hnames => ?_⟩
    obtain ⟨-, ⟨hsource, hnone⟩, hcopy⟩ := hcopied names hnames
    rw [hcontent] at hsource hcopy
    refine ⟨hsource, ?_, hcopy⟩
    obtain hsame | ⟨hbefore, -⟩ := hgrown ((Path.location target).below names)
    · exact hsame.symm.trans hnone
    · exact hbefore

end Undisturbed

/-! ### Copying that is disturbed -/

/-- Copying that returns has come to all that is due. -/
theorem assetsMeet_of_due (hw : w.files.WellFormed)
    (hreturns : Run.Returns (copyAssets source target) w n w') (hne : names ≠ [])
    (hdue : (w.files.makeDirectories w.clock target).2.Due (Path.location source)
      (Path.location target) names) : AssetsMeet source target w names := by
  obtain ⟨y, rest, rfl⟩ := List.exists_cons_of_ne_nil hne
  obtain ⟨v, hmake, hcopy⟩ := returns_copyAssets.1 hreturns
  rw [← files_of_returns_ensureDirectory hmake] at hdue
  have hdirectory : v.files.IsDirectory (Path.location source) := by
    have hdue' : v.files.Due (Path.location source) (Path.location target) ([] ++ y :: rest) := hdue
    have hd := hdue'.isDirectory hne
    rwa [Location.below_nil] at hd
  obtain ⟨_, _, hstat, -, -⟩ | ⟨entries, hentries, hlisted⟩ := hcopy
  · obtain ⟨i, hi, hfile, -⟩ := FileTree.stat_eq_ok_iff.1 hstat
    obtain rfl := FileTree.eq_location_of_resolve hi
    exact absurd hdirectory (FileTree.not_isDirectory_of_get? hfile)
  · obtain ⟨rfl, hlisting, hfits, hsize⟩ := listing_of_children hw hmake hentries
    have hy : v.files.get? ((Path.location source).child y) ≠ none := by
      obtain hthere | ⟨a, dir, x, heq, -, hlt, -⟩ := FileTree.Due.of_cons (q := []) hdue
      · rwa [← Location.child_below, Location.below_nil] at hthere
      · obtain ⟨rfl, -⟩ := List.append_inj' heq rfl
        exact absurd hlt (List.not_lt_nil _)
    obtain ⟨e, he⟩ := hlisting.wellFormed.exists_mem_childrenAt hy
    exact ⟨v, _, hmake, hentries, (Abreast.meetsDue _ _ _ _ _ _ hlisting.abreast hfits hsize hlisted
      _ he).1 rest hdue⟩

/-- If copying returns and all that it has come to was there before, it has not been disturbed. -/
theorem undisturbed_of_meets (hw : w.files.WellFormed)
    (hreturns : Run.Returns (copyAssets source target) w n w')
    (hmeets : ∀ names, AssetsMeet source target w names →
      w.files.get? ((Path.location source).below names) ≠ none) :
    Undisturbed source target w where
  made names hne := by
    obtain hsame | ⟨hnone, hmade⟩ := w.files.grown_makeDirectories w.clock target
      ((Path.location source).below names)
    · exact hsame
    · refine absurd hnone (hmeets names (assetsMeet_of_due hw hreturns hne (.inl ?_)))
      rw [hmade]
      exact Option.some_ne_none _
  listedFirst a dir x ha hnone hdir hk hlt := by
    have hne : dir ++ [x] ≠ [] := by simp
    apply hmeets _ (assetsMeet_of_due hw hreturns hne (.inr ⟨a, dir, x, rfl, hdir, hlt, ha, hk⟩))
    rw [← hk]
    obtain hsame | ⟨hbefore, -⟩ := w.files.grown_makeDirectories w.clock target
      ((Path.location target).below a)
    · exact hsame.symm.trans hnone
    · exact hbefore

/-- Copying never returns if the target is two or more levels below the source. -/
theorem not_returns_copyAssets_below (hw : w.files.WellFormed) {x y : String}
    (hl : Path.location target = (Path.location source).below (x :: y :: names)) :
    ¬ Run.Returns (copyAssets source target) w n w' := by
  intro hreturns
  obtain ⟨v, hmake, hcopy⟩ := returns_copyAssets.1 hreturns
  obtain ⟨l, hat⟩ := exists_directoryAt_ensureDirectory hmake
  obtain rfl := hat.eq_location
  have hx : (Path.location source).child x |>.Contains (Path.location target) := by
    rw [hl, Location.below_cons]
    exact Location.contains_below _ _
  obtain ⟨_, _, hstat, -, -⟩ | ⟨entries, hentries, hlisted⟩ := hcopy
  · obtain ⟨i, hi, hfile, -⟩ := FileTree.stat_eq_ok_iff.1 hstat
    obtain rfl := FileTree.eq_location_of_resolve hi
    exact FileTree.not_isDirectory_of_get? hfile (FileTree.isDirectory_of_contains hat.isDirectory
      ((Location.contains_child _ x).trans hx))
  · obtain ⟨rfl, hlisting, hfits, hsize⟩ := listing_of_children hw hmake hentries
    obtain ⟨time, hd⟩ := FileTree.isDirectory_of_contains hat.isDirectory hx
    exact not_returns_copyListed_below _ _ hlisting hl (List.cons_ne_nil y names)
      (hlisting.wellFormed.mem_childrenAt_iff.2 hd) hfits hsize hlisted

/-! ### All of this together -/

/-- Copying assets ends by itself: no depth would let it go further. While nothing disturbs it, it
comes only to what was in the source before, every file that is new is a copy of a file that was
there, and the count is the number of such copies. If it returns and something did disturb it, it
has come to something that was not there before. With a target two or more levels below the source
it does not return. -/
theorem copyAssets_meets_sources_iff (source target : String) (hw : w.files.WellFormed) :
    let m := Path.location source
    let l := Path.location target
    (∀ v entries depth, Run.Returns (ensureDirectory target) w () v →
      v.files.children source = .ok entries → FileTree.maxPath ≤ depth →
      Run.result (copyListed source target depth source target entries) v =
        Run.result (copyListed source target FileTree.maxPath source target entries) v) ∧
    (∀ n w', Run.Returns (copyAssets source target) w n w' →
      ((∀ names, AssetsMeet source target w names → w.files.get? (m.below names) ≠ none) ↔
        Undisturbed source target w)) ∧
    (Undisturbed source target w →
      (∀ names, AssetsMeet source target w names → w.files.get? (m.below names) ≠ none) ∧
      (Run.Leaves (copyAssets source target) w fun w' => ∀ k content,
        w'.files.content? k = some content → w.files.content? k = none →
          ∃ names, k = l.below names ∧ w.files.content? (m.below names) = some content) ∧
      ∀ n w', Run.Returns (copyAssets source target) w n w' →
        ∃ copied : List (List String), copied.Nodup ∧ copied.length = n ∧ ∀ names ∈ copied,
          (w.files.content? (m.below names)).isSome = true ∧ w.files.get? (l.below names) = none ∧
            w'.files.content? (l.below names) = w.files.content? (m.below names)) ∧
    ∀ x y names, l = m.below (x :: y :: names) →
      ∀ n w', ¬ Run.Returns (copyAssets source target) w n w' := by
  intro m l
  refine ⟨fun v entries depth hmake hentries hdepth => ?_, fun n w' hreturns => ⟨?_, ?_⟩,
    fun h => ⟨fun names => h.get?_ne_none hw, h.leaves_copyAssets hw, fun n w' =>
      h.exists_copied hw⟩, fun x y names hl n w' => not_returns_copyAssets_below hw hl⟩
  · obtain ⟨-, hlisting, hfits, hsize⟩ := listing_of_children hw hmake hentries
    exact result_copyListed_eq _ _ hlisting hfits (by omega) hsize
  · exact undisturbed_of_meets hw hreturns
  · exact fun h names => h.get?_ne_none hw

end

def nestedSite : World where
  files := .ofEntries [
    (⟨false, ["s"]⟩, .directory 1),
    (⟨false, ["s", "a"]⟩, .file (.text "hello") 1)]
  clock := 10
  web := fun _ => .dropped
  requests := []
  progress := []

theorem wellFormed_nestedSite : nestedSite.files.WellFormed :=
  FileTree.wellFormed_ofEntries (by decide)

theorem result_nestedSite :
    (Run.result (copyAssets "s" "s/t") nestedSite).1.toOption.map id = some 2 ∧
      (Run.result (copyAssets "s" "t") nestedSite).1.toOption.map id = some 1 := by
  decide +kernel

/-- The copy of the asset comes into the target before that is listed. -/
theorem not_undisturbed_nestedSite : ¬ Undisturbed "s" "s/t" nestedSite := by
  intro h
  exact h.listedFirst ["a"] ["t"] "a" (by decide +kernel) (by decide +kernel)
    ⟨10, by decide +kernel⟩ (by decide +kernel) (by decide)

theorem copyAssets_nestedSite_meets_sources_iff :
    (∃ names, AssetsMeet "s" "s/t" nestedSite names ∧
      nestedSite.files.get? ((Path.location "s").below names) = none) ∧
    (∀ n w', ¬ Run.Returns (copyAssets "s" "s/t/u") nestedSite n w') ∧
    ∃ w', Run.Returns (copyAssets "s" "t") nestedSite 1 w' ∧
      ∀ k content, w'.files.content? k = some content → nestedSite.files.content? k = none →
        ∃ names, k = (Path.location "t").below names ∧
          nestedSite.files.content? ((Path.location "s").below names) = some content := by
  obtain ⟨n, hinside, -⟩ := Run.exists_returns result_nestedSite.1
  obtain ⟨k, hbeside, rfl⟩ := Run.exists_returns result_nestedSite.2
  obtain ⟨-, hiff, -⟩ := copyAssets_meets_sources_iff "s" "s/t" wellFormed_nestedSite
  obtain ⟨-, -, -, hbelow⟩ := copyAssets_meets_sources_iff "s" "s/t/u" wellFormed_nestedSite
  obtain ⟨-, -, hcalm, -⟩ := copyAssets_meets_sources_iff "s" "t" wellFormed_nestedSite
  have hcomponents : Path.components "t" = [.name "t"] := by decide +kernel
  have hapart : Undisturbed "s" "t" nestedSite :=
    undisturbed_of_apart (by decide +kernel) (by simp [hcomponents])
  refine ⟨?_, hbelow "t" "u" [] (by decide +kernel), _, hbeside, ?_⟩
  · by_contra hnot
    refine not_undisturbed_nestedSite ((hiff n _ hinside).1 fun names hmeets hnone => ?_)
    exact hnot ⟨names, hmeets, hnone⟩
  · exact (hcalm hapart).2.1.of_returns hbeside

/-- More files can be copied than the source had. -/
theorem copies_own_copies : ¬ ∀ (source target : String) (w w' : World) (n : Nat),
    w.files.WellFormed → Run.Returns (copyAssets source target) w n w' →
    n ≤ (w.files.inside (Path.location source)).countP fun e => !e.2.isDirectory := by
  intro h
  obtain ⟨n, hreturns, hn⟩ := Run.exists_returns result_nestedSite.1
  have hle := h "s" "s/t" nestedSite _ n wellFormed_nestedSite hreturns
  have hcount : ((nestedSite.files.inside (Path.location "s")).countP fun e =>
      !e.2.isDirectory) = 1 := by
    decide +kernel
  rw [hcount] at hle
  simp only [id] at hn
  omega

end LiterateJournal
