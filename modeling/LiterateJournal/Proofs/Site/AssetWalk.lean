import LiterateJournal.Proofs.Site.Mirroring

/-!
# The walk through a directory that is copied

Copying goes through what is in a directory by name. A directory is listed when the walk has come to
it, and what is in it comes next. Thus names are reached in lexicographic order.

Each directory below has a longer path. Thus the walk ends by itself: the depth it is given is never
what stops it.

## Main definitions

* `Listing` — some entries of a directory are still to be copied to another one.
* `Meets` — what a walk comes to.

## Main statements

* `lt_concat_iff` — which names are reached before a given one.
* `Listing.later`, `Listing.inside` — the walk goes on after an entry, or to what is in it.
* `result_copyListed_eq` — the depth makes no difference.
-/

namespace LiterateJournal

/-! ### The order of names -/

theorem append_lt_append_iff {q r s : List String} : q ++ r < q ++ s ↔ r < s := by
  induction q with
  | nil => rfl
  | cons x q ih => simp [ih]

/-- What comes before an entry of a directory comes before the directory, is the directory, or comes
after an earlier entry. -/
theorem lt_concat_iff {a q : List String} {z : String} :
    a < q ++ [z] ↔ a < q ∨ a = q ∨ ∃ y rest, a = q ++ y :: rest ∧ y < z := by
  induction q generalizing a with
  | nil =>
    cases a with
    | nil => simp
    | cons y rest => simp [List.cons_lt_cons_iff]
  | cons x q ih =>
    cases a with
    | nil => simp
    | cons y a =>
      simp only [List.cons_append, List.cons_lt_cons_iff, ih, List.cons.injEq]
      grind

theorem Location.below_append (l : Location) (names rest : List String) :
    l.below (names ++ rest) = (l.below names).below rest := by
  simp [below]

theorem Location.child_below (l : Location) (names : List String) (x : String) :
    (l.below names).child x = l.below (names ++ [x]) := by
  simp [below, child]

/-! ### Two directories -/

/-- Some entries of the directory `m` are still to be copied to the directory `l`. -/
structure Listing (m l : Location) (source target : String) (entries : List (String × Entry))
    (w : World) : Prop where
  source : w.files.DirectoryAt source m
  target : w.files.DirectoryAt target l
  wellFormed : w.files.WellFormed
  there : ∀ c ∈ entries, Path.Plain c.1 ∧ w.files.get? (m.child c.1) = some c.2
  increasing : SortedTable.Increasing entries

namespace FileTree

variable {t u : FileTree} {l : Location}

theorem WellFormed.increasing_childrenAt (h : t.WellFormed) (l : Location) :
    SortedTable.Increasing (t.childrenAt l) := by
  unfold childrenAt
  split
  · rename_i hnode
    exact List.pairwise_map.2 (h _ _ _ _ hnode).increasing
  · exact List.Pairwise.nil

/-- What stands in a directory is listed. -/
theorem WellFormed.exists_mem_childrenAt (h : t.WellFormed) {x : String}
    (hx : t.get? (l.child x) ≠ none) : ∃ e, (x, e) ∈ t.childrenAt l := by
  obtain ⟨e, he⟩ := Option.ne_none_iff_exists'.1 hx
  exact ⟨e, h.mem_childrenAt_iff.2 he⟩

theorem IsDirectory.ne_none (h : t.IsDirectory l) : t.get? l ≠ none := by
  obtain ⟨time, hd⟩ := h
  rw [hd]
  exact Option.some_ne_none _

/-- Where something was, something still is. -/
theorem Fills.ne_none {since : Nat} {inside : Location → Prop} (h : Fills since inside t u)
    (hl : t.get? l ≠ none) : u.get? l ≠ none := by
  obtain ⟨e, he⟩ := Option.ne_none_iff_exists'.1 hl
  rw [h.kept l e he]
  exact Option.some_ne_none e

end FileTree

namespace Listing

variable {root rootTarget source target x : String} {depth copied n time : Nat} {m l : Location}
  {c : String × Entry} {entries inner : List (String × Entry)} {w v : World}

/-- All that is in a directory. -/
theorem of_childrenAt (hm : w.files.DirectoryAt source m) (hl : w.files.DirectoryAt target l)
    (hw : w.files.WellFormed) : Listing m l source target (w.files.childrenAt m) w where
  source := hm
  target := hl
  wellFormed := hw
  there _ hc := ⟨hw.plain_of_mem_children hc, hw.mem_childrenAt_iff.1 hc⟩
  increasing := hw.increasing_childrenAt m

theorem plain (h : Listing m l source target entries w) : ∀ c ∈ entries, Path.Plain c.1 :=
  fun c hc => (h.there c hc).1

/-- What is still to be copied stays while something is added. -/
theorem adds {inside : Location → Prop} (h : Listing m l source target entries w)
    (hadds : World.Adds inside w v) : Listing m l source target entries v where
  source := hadds.directoryAt h.source
  target := hadds.directoryAt h.target
  wellFormed := hadds.fills.files.wellFormed h.wellFormed
  there c hc := ⟨(h.there c hc).1, hadds.fills.files.kept _ _ (h.there c hc).2⟩
  increasing := h.increasing

theorem tail (h : Listing m l source target (c :: entries) w) :
    Listing m l source target entries w where
  source := h.source
  target := h.target
  wellFormed := h.wellFormed
  there d hd := h.there d (List.mem_cons_of_mem _ hd)
  increasing := (List.pairwise_cons.1 h.increasing).2

theorem lt_of_mem (h : Listing m l source target (c :: entries) w) {d : String × Entry}
    (hd : d ∈ entries) : c.1 < d.1 := (List.pairwise_cons.1 h.increasing).1 d hd

theorem adds_copyEntry (h : Listing m l source target (c :: entries) w)
    (hentry : Run.Returns (copyEntry root rootTarget depth source target copied c) w n v) :
    World.Adds (l.child c.1).Contains w v :=
  (leaves_copyEntry (copyingAdds root rootTarget depth) h.target h.wellFormed
    (h.plain c List.mem_cons_self)).of_returns hentry

theorem adds_copyEntries (h : Listing m l source target entries w)
    (hreturns : Run.Returns (entries.foldlM (copyEntry root rootTarget depth source target) copied)
      w n v) :
    World.Adds (fun k => ∃ c ∈ entries, (l.child c.1).Contains k) w v :=
  (leaves_copyEntries (copyingAdds root rootTarget depth) h.target h.wellFormed h.plain).of_returns
    hreturns

theorem adds_copyListed (h : Listing m l source target entries w)
    (hreturns : Run.Returns (copyListed root rootTarget depth source target entries) w n v) :
    World.Adds l.Contains w v :=
  (copyingAdds root rootTarget depth h.target h.wellFormed h.plain).of_returns hreturns

/-- After an entry come the others. -/
theorem later (h : Listing m l source target (c :: entries) w)
    (hentry : Run.Returns (copyEntry root rootTarget depth source target copied c) w n v) :
    Listing m l source target entries v :=
  h.tail.adds (h.adds_copyEntry hentry)

/-- What is in an entry is what was there before its copy was made. -/
theorem inner_eq (h : Listing m l source target ((x, .directory time) :: entries) w)
    (hinner : w.files.children (Path.join source x) = .ok inner) :
    Path.Fits source x ∧ inner = w.files.childrenAt (m.child x) := by
  obtain ⟨i, hi, -, rfl⟩ := children_eq_ok_iff.1 hinner
  obtain ⟨hfits, rfl⟩ := (h.source.resolve_join_eq_ok_iff (h.plain _ List.mem_cons_self)).1 hi
  exact ⟨hfits, rfl⟩

theorem adds_ensureDirectory (h : Listing m l source target ((x, .directory time) :: entries) w)
    (hmake : Run.Returns (ensureDirectory (Path.join target x)) w () v) :
    World.Adds (· = l.child x) w v := by
  have hmaking : Run.Leaves (ensureDirectory (Path.join target x)) w
      (World.Adds (· = l.child x) w) :=
    leaves_ensureDirectory_join h.target (h.plain _ List.mem_cons_self) rfl
  exact hmaking.of_returns hmake

/-- The walk goes on to what is in a directory. -/
theorem inside (h : Listing m l source target ((x, .directory time) :: entries) w)
    (hinner : w.files.children (Path.join source x) = .ok inner)
    (hmake : Run.Returns (ensureDirectory (Path.join target x)) w () v) :
    Listing (m.child x) (l.child x) (Path.join source x) (Path.join target x) inner v := by
  obtain ⟨hplain, hthere⟩ := h.there _ List.mem_cons_self
  obtain ⟨hfits, rfl⟩ := h.inner_eq hinner
  have hm := h.source.join hplain hfits.2 ⟨time, hthere⟩
  have hadds := h.adds_ensureDirectory hmake
  exact {
    source := hadds.directoryAt hm
    target := directoryAt_ensureDirectory_join h.target hplain hmake
    wellFormed := hadds.fills.files.wellFormed h.wellFormed
    there := fun c hc => ⟨h.wellFormed.plain_of_mem_children hc,
      hadds.fills.files.kept _ _ (h.wellFormed.mem_childrenAt_iff.1 hc)⟩
    increasing := h.wellFormed.increasing_childrenAt _ }

theorem utf8ByteSize_lt (h : Listing m l source target (c :: entries) w) :
    source.utf8ByteSize < (Path.join source c.1).utf8ByteSize :=
  Path.utf8ByteSize_lt_join source (h.plain c List.mem_cons_self).1

end Listing

/-! ### What a walk meets -/

/-- A walk meets the names that it has listed, once it has come to them. They lead from the
directory whose entries have been listed to what the walk meets. -/
inductive Meets (root rootTarget : String) :
    Nat → String → String → List (String × Entry) → World → List String → Prop where
  | here {depth : Nat} {source target : String} {c : String × Entry}
      {entries : List (String × Entry)} {w : World} :
      Meets root rootTarget (depth + 1) source target (c :: entries) w [c.1]
  | later {depth copied n : Nat} {source target : String} {c : String × Entry}
      {entries : List (String × Entry)} {w v : World} {names : List String}
      (hentry : Run.Returns (copyEntry root rootTarget depth source target copied c) w n v)
      (hlater : Meets root rootTarget (depth + 1) source target entries v names) :
      Meets root rootTarget (depth + 1) source target (c :: entries) w names
  | inside {depth time : Nat} {source target x : String}
      {entries inner : List (String × Entry)} {w v : World} {names : List String}
      (hinner : w.files.children (Path.join source x) = .ok inner)
      (hmake : Run.Returns (ensureDirectory (Path.join target x)) w () v)
      (hinside : Meets root rootTarget depth (Path.join source x) (Path.join target x) inner v
        names) :
      Meets root rootTarget (depth + 1) source target ((x, .directory time) :: entries) w
        (x :: names)

/-- What copying assets comes to: names that lead there from the source. -/
def AssetsMeet (source target : String) (w : World) (names : List String) : Prop :=
  ∃ v entries, Run.Returns (ensureDirectory target) w () v ∧
    v.files.children source = .ok entries ∧
    Meets source target FileTree.maxPath source target entries v names

/-! ### The depth -/

theorem Run.result_bind_congr {α β : Type} {x y : Run α} {f g : α → Run β} {w : World}
    (hx : result x w = result y w)
    (hf : ∀ a v, Returns x w a v → result (f a) v = result (g a) v) :
    result (x >>= f) w = result (y >>= g) w := by
  obtain ⟨a, ha⟩ | ⟨e, he⟩ := returns_or_fails x w
  · have ha' : Returns y w a (result x w).2 := hx.symm.trans ha
    obtain ⟨b, hb⟩ | ⟨e, he⟩ := returns_or_fails (f a) (result x w).2
    · have hb' : Returns (g a) (result x w).2 b _ := (hf a _ ha).symm.trans hb
      exact (returns_bind.2 ⟨a, _, ha, hb⟩).trans (returns_bind.2 ⟨a, _, ha', hb'⟩).symm
    · have he' : Fails (g a) (result x w).2 e _ := (hf a _ ha).symm.trans he
      exact (fails_bind.2 (.inr ⟨a, _, ha, he⟩)).trans (fails_bind.2 (.inr ⟨a, _, ha', he'⟩)).symm
  · have he' : Fails y w e _ := hx.symm.trans he
    exact (fails_bind.2 (.inl he)).trans (fails_bind.2 (.inl he')).symm

/-- Every depth is enough that is more than what is left for a path. -/
theorem result_copyListed_eq (root rootTarget : String) {source target : String}
    {depth depth' : Nat} {entries : List (String × Entry)} {w : World} {m l : Location}
    (h : Listing m l source target entries w) (hfits : source.utf8ByteSize ≤ FileTree.maxPath)
    (hdepth : FileTree.maxPath < depth + source.utf8ByteSize)
    (hdepth' : FileTree.maxPath < depth' + source.utf8ByteSize) :
    Run.result (copyListed root rootTarget depth source target entries) w =
      Run.result (copyListed root rootTarget depth' source target entries) w := by
  induction depth generalizing depth' source target entries w m l with
  | zero => omega
  | succ depth ih =>
    cases depth' with
    | zero => omega
    | succ depth' =>
      rw [copyListed_succ, copyListed_succ]
      generalize 0 = copied
      induction entries generalizing w copied with
      | nil => rfl
      | cons c entries ihEntries =>
        rw [List.foldlM_cons, List.foldlM_cons]
        refine Run.result_bind_congr ?_ fun n v hentry => ihEntries (h.later hentry) n
        obtain ⟨x, e⟩ := c
        cases e with
        | file content time => rfl
        | directory time =>
          have hlonger : source.utf8ByteSize < (Path.join source x).utf8ByteSize :=
            h.utf8ByteSize_lt
          unfold copyEntry
          refine Run.result_bind_congr rfl fun t u hfiles => ?_
          obtain ⟨rfl, rfl⟩ := Run.returns_files.1 hfiles
          refine Run.result_bind_congr rfl fun _ v hmake => ?_
          cases hinner : u.files.children (Path.join source x) with
          | error e => rfl
          | ok inner =>
            refine Run.result_bind_congr (ih (h.inside hinner hmake) ?_ ?_ ?_) fun _ _ _ => rfl
            · exact (h.inner_eq hinner).1.1
            · dsimp only; omega
            · dsimp only; omega

end LiterateJournal
