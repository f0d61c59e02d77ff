import LiterateJournal.Proofs.Site.Assets
import LiterateJournal.Proofs.Site.Documents

/-!
# Sources while a build runs

A build writes pages, drafts and copies of images, and none of them is named like a source. Thus a
source changes only together with the copies, when these are put among the sources.

## Main definitions

* `Settings.sources`, `Settings.documents` — the sources, and those that are built.
* `SourceAt` — a path in the source directory, and where it leads.

## Main statements

* `exists_sourceAt` — every source is right in the source directory.
* `SourceAt.stat_between` — a source that is the same before and after was the same in between.
* `SourceAt.not_pageChanges` — the making of pages leaves the sources alone.
-/

namespace LiterateJournal

def Settings.sources (s : Settings) (files : FileTree) : List String :=
  match files.children s.root with
  | .error _ => []
  | .ok entries =>
    ((entries.filter fun (_, e) => !e.isDirectory).map fun (name, _) =>
      Path.join s.root name).filter fun path => isSource path && s.endsListed path

def Settings.documents (s : Settings) (files : FileTree) : List String :=
  eligible s (s.sources files)

theorem isSource_of_mem_sources {s : Settings} {files : FileTree} {path : String}
    (h : path ∈ s.sources files) : isSource path = true := by
  unfold Settings.sources at h
  split at h
  · cases h
  · exact (Bool.and_eq_true_iff.1 (List.mem_filter.1 h).2).1

theorem mem_sources_of_mem_documents {s : Settings} {files : FileTree} {path : String}
    (h : path ∈ s.documents files) : path ∈ s.sources files := (List.mem_filter.1 h).1

theorem isSource_of_mem_documents {s : Settings} {files : FileTree} {path : String}
    (h : path ∈ s.documents files) : isSource path = true :=
  isSource_of_mem_sources (mem_sources_of_mem_documents h)

/-! ### Names of sources -/

/-- The end of a name in lower case, the last character first. -/
def nameEnd (name : String) : List Char := ((name.toList.map Char.toLower).reverse).take 3

theorem nameEnd_append {name ext : String} (h : 3 ≤ ext.toList.length) :
    nameEnd (name ++ ext) = nameEnd ext := by
  simp only [nameEnd, String.toList_append, List.map_append, List.reverse_append]
  exact List.take_append_of_le_length (by simpa using h)

theorem nameEnd_of_isSource {path x : String} (h : isSource path = true)
    (hx : Path.fileName? path = some x) :
    nameEnd x = ['x', 's', 'f'] ∨ nameEnd x = ['d', 'm', '.'] := by
  obtain ⟨kind, hkind, -⟩ := exists_of_isSource h
  obtain ⟨ext, hext⟩ := exists_extension?_of_ofPath? hkind
  obtain ⟨stem, -, -, hname⟩ := exists_stem_of_extension? hext
  obtain rfl : stem ++ "." ++ ext = x := by simpa [hname] using hx
  have hlower : asciiLower ext = "fsx" ∨ asciiLower ext = "md" := by
    rw [SourceKind.ofPath?, hext, Option.map_some] at hkind
    split at hkind
    · rename_i heq
      exact .inl (Option.some.inj heq)
    · rename_i heq
      exact .inr (Option.some.inj heq)
    · cases hkind
  have hlist {y : String} (hy : asciiLower ext = y) : ext.toList.map Char.toLower = y.toList := by
    rw [← hy, asciiLower, String.toList_ofList]
  simp only [nameEnd, String.toList_append, List.map_append, List.reverse_append]
  obtain hlower | hlower := hlower
  · rw [hlist hlower]
    exact .inl rfl
  · rw [hlist hlower]
    exact .inr rfl

theorem nameEnd_pageFile (f : OutputFormat) (stem : String) :
    nameEnd (f.pageFile stem) = ['l', 'm', 't'] ∨ nameEnd (f.pageFile stem) = ['x', 'e', 't'] := by
  cases f with
  | html => exact .inl (nameEnd_append (by decide))
  | latex => exact .inr (nameEnd_append (by decide))

theorem nameEnd_draft (name : String) : nameEnd (name ++ ".tmp") = ['p', 'm', 't'] :=
  nameEnd_append (by decide)

/-! ### Where sources are -/

/-- A source right in the source directory. -/
structure SourceAt (s : Settings) (files : FileTree) (path : String) (l : Location) (x : String) :
    Prop where
  root : files.DirectoryAt s.root l
  plain : Path.Plain x
  path_eq : path = Path.join s.root x
  isSource : isSource path = true

theorem exists_sourceAt {s : Settings} {files : FileTree} {path : String} (hw : files.WellFormed)
    (h : path ∈ s.sources files) : ∃ l x, SourceAt s files path l x := by
  have hsource := isSource_of_mem_sources h
  unfold Settings.sources at h
  split at h
  · cases h
  · rename_i entries hentries
    obtain ⟨l, hl, hd, rfl⟩ := children_eq_ok_iff.1 hentries
    obtain ⟨⟨x, e⟩, hmem, rfl⟩ := List.mem_map.1 (List.mem_filter.1 h).1
    exact ⟨l, x, ⟨FileTree.walk_components_of_resolve hl, hd⟩,
      hw.plain_of_mem_children (List.mem_filter.1 hmem).1, rfl, hsource⟩

theorem join_inj {base x y : String} (hx : Path.Plain x) (hy : Path.Plain y)
    (h : Path.join base x = Path.join base y) : x = y := by
  have hname := Path.fileName?_join base hx
  rw [h, Path.fileName?_join base hy] at hname
  exact (Option.some.inj hname).symm

/-- Sources are related as their names are in the root. -/
theorem pairwise_sources {s : Settings} {files : FileTree} {Q R : String → String → Prop}
    (hw : files.WellFormed)
    (hchildren : ∀ l, (files.childrenAt l).Pairwise fun a b => Q a.1 b.1)
    (h : ∀ x y, Path.Plain x → Path.Plain y → Q x y → R (Path.join s.root x) (Path.join s.root y)) :
    (s.sources files).Pairwise R := by
  unfold Settings.sources
  split
  · exact List.Pairwise.nil
  · rename_i entries hentries
    obtain ⟨l, -, -, rfl⟩ := children_eq_ok_iff.1 hentries
    refine List.Pairwise.filter _ (List.pairwise_map.2 ?_)
    refine ((hchildren l).filter _).imp_of_mem fun ha hb => h _ _ ?_ ?_
    · exact hw.plain_of_mem_children (List.mem_filter.1 ha).1
    · exact hw.plain_of_mem_children (List.mem_filter.1 hb).1

/-- No source is found twice. -/
theorem nodup_sources {s : Settings} {files : FileTree} (hw : files.WellFormed) :
    (s.sources files).Nodup :=
  pairwise_sources hw (fun l => List.pairwise_map.1 (hw.nodup_children l))
    fun _ _ hx hy hne heq => hne (join_inj hx hy heq)

namespace SourceAt

variable {s : Settings} {files : FileTree} {path x : String} {l : Location}

theorem nameEnd_eq (h : SourceAt s files path l x) :
    nameEnd x = ['x', 's', 'f'] ∨ nameEnd x = ['d', 'm', '.'] :=
  nameEnd_of_isSource h.isSource (by rw [h.path_eq, Path.fileName?_join _ h.plain])

theorem not_isDraft (h : SourceAt s files path l x) : ¬ (l.child x).IsDraft := by
  rintro ⟨k, y, heq⟩
  obtain ⟨-, rfl⟩ := Location.child_inj.1 heq
  have hend := h.nameEnd_eq
  rw [nameEnd_draft] at hend
  revert hend
  decide

/-- The making of pages leaves the sources alone, unless copies of images are put among them. -/
theorem not_pageChanges (h : SourceAt s files path l x) {o : Location} {stem : String}
    (hsaved : s.format = .latex → l ≠ o.child savedDirectory) :
    ¬ PageChanges s o stem (l.child x) := by
  have hend := h.nameEnd_eq
  rintro (heq | heq | ⟨hlatex, heq | ⟨y, heq⟩⟩)
  · obtain ⟨-, rfl⟩ := Location.child_inj.1 heq
    have hpage := nameEnd_pageFile s.format stem
    obtain hend | hend := hend <;> rw [hend] at hpage <;> revert hpage <;> decide
  · exact h.not_isDraft ⟨o, _, heq⟩
  · obtain ⟨-, rfl⟩ := Location.child_inj.1 heq
    revert hend
    decide
  · exact hsaved hlatex (Location.child_inj.1 heq).1

end SourceAt

/-! ### Times -/

/-- What stands at a path in a directory, if the path is not too long. -/
theorem stat_join {t : FileTree} {base x : String} {l : Location} (hl : t.DirectoryAt base l)
    (hx : Path.Plain x) (hfits : Path.Fits base x) :
    t.stat (Path.join base x) =
      match t.get? (l.child x) with
      | none => .error .notFound
      | some e => .ok e := by
  rw [FileTree.stat_of_resolve ((hl.resolve_join_eq_ok_iff hx).2 ⟨hfits, rfl⟩),
    Path.endsWithSlash_join base hx.1]
  cases t.get? (l.child x) <;> rfl

theorem modified_of_stat {t : FileTree} {path : String} {e : Entry} (h : t.stat path = .ok e) :
    t.modified path = e.modified := by
  rw [FileTree.modified, h]

theorem modified_eq_of_stat_eq {t u : FileTree} {path : String}
    (h : u.stat path = t.stat path) : u.modified path = t.modified path := by
  rw [FileTree.modified, FileTree.modified, h]

/-- What is the same before and after, and not newer than the clock was, was the same in between. -/
theorem get?_between {changed changed' : Location → Prop} {w v u : World} {l : Location}
    (h : World.Evolves changed w v) (h' : World.Evolves changed' v u) (hdraft : ¬ l.IsDraft)
    (hsame : u.files.get? l = w.files.get? l)
    (hdated : ∀ e, w.files.get? l = some e → e.modified ≤ w.clock) :
    v.files.get? l = w.files.get? l := by
  by_cases hclock : v.clock = w.clock
  · rw [h.files_eq hclock]
  have hlater : w.clock < v.clock := Nat.lt_of_le_of_ne h.clock (Ne.symm hclock)
  cases hv : v.files.get? l with
  | none =>
    cases hw : w.files.get? l with
    | none => rfl
    | some e =>
      have hthere := h.isSome l hdraft (by rw [hw]; rfl)
      rw [hv] at hthere
      cases hthere
  | some e =>
    have hthere := h'.isSome l hdraft (by rw [hv]; rfl)
    obtain ⟨e', he'⟩ := Option.isSome_iff_exists.1 hthere
    obtain hsame' | hnew := h'.dated l e' he'
    · rw [← hv, ← hsame, he', hsame']
    · have hold := hdated e' (by rw [← hsame, he'])
      omega

/-- The making of pages leaves the sources as they are. -/
theorem SourceAt.stat_eq {changed : Location → Prop} {s : Settings} {w v : World}
    {path x : String} {l o : Location} (hp : SourceAt s w.files path l x)
    (h : World.Evolves changed w v) (hchanged : ∀ k, changed k → ∃ stem, PageChanges s o stem k)
    (hsaved : s.format = .latex → l ≠ o.child savedDirectory) :
    v.files.stat path = w.files.stat path := by
  rw [hp.path_eq]
  refine FileTree.stat_join_eq hp.root (h.directoryAt hp.root) hp.plain (h.kept _ fun hk => ?_)
  obtain ⟨stem, hk⟩ := hchanged _ hk
  exact hp.not_pageChanges hsaved hk

/-- A source that is the same before and after was the same in between. -/
theorem SourceAt.stat_between {changed changed' : Location → Prop} {s : Settings} {w v u : World}
    {path x : String} {l : Location} (hp : SourceAt s w.files path l x)
    (h : World.Evolves changed w v) (h' : World.Evolves changed' v u)
    (hsame : u.files.stat path = w.files.stat path) (hdated : w.files.modified path ≤ w.clock) :
    v.files.stat path = w.files.stat path := by
  obtain rfl := hp.path_eq
  have hv := h.directoryAt hp.root
  by_cases hfits : Path.Fits s.root x
  · refine FileTree.stat_join_eq hp.root hv hp.plain (get?_between h h' hp.not_isDraft ?_ ?_)
    · rw [stat_join (h'.directoryAt hv) hp.plain hfits, stat_join hp.root hp.plain hfits] at hsame
      revert hsame
      cases u.files.get? (l.child x) <;> cases w.files.get? (l.child x) <;> simp
    · intro e he
      rwa [← modified_of_stat (by rw [stat_join hp.root hp.plain hfits, he])]
  · rw [FileTree.stat_of_resolve_error (by rw [hv.resolve_join hp.plain, if_neg hfits]),
      FileTree.stat_of_resolve_error (by rw [hp.root.resolve_join hp.plain, if_neg hfits])]

/-- Times do not go back, but for drafts. -/
theorem le_modified {changed : Location → Prop} {w v : World} {path : String} {time : Nat}
    (h : World.Evolves changed w v)
    (hdraft : ∀ l, w.files.resolve path = .ok l → l.IsDraft → w.files.IsDirectory l)
    (htime : time ≤ w.clock) (hle : time ≤ w.files.modified path) :
    time ≤ v.files.modified path := by
  cases hstat : w.files.stat path with
  | error e =>
    rw [FileTree.modified, hstat] at hle
    exact Nat.le_trans hle (Nat.zero_le _)
  | ok e =>
    rw [modified_of_stat hstat] at hle
    obtain ⟨l, hl, he, hslash⟩ := FileTree.stat_eq_ok_iff.1 hstat
    have hl' := FileTree.resolve_mono h.isDirectory hl
    obtain ⟨e', he', hslash'⟩ : ∃ e', v.files.get? l = some e' ∧
        (Path.endsWithSlash path = true → e'.isDirectory = true) := by
      by_cases hd : w.files.IsDirectory l
      · obtain ⟨time', htime'⟩ := h.isDirectory l hd
        exact ⟨_, htime', fun _ => rfl⟩
      · obtain ⟨e', he'⟩ := Option.isSome_iff_exists.1
          (h.isSome l (fun hdr => hd (hdraft l hl hdr)) (by rw [he]; rfl))
        refine ⟨e', he', fun hends => ?_⟩
        have hdir := hslash hends
        cases e with
        | file => cases hdir
        | directory time' => exact absurd ⟨time', he⟩ hd
    rw [modified_of_stat (FileTree.stat_eq_ok_iff.2 ⟨l, hl', he', hslash'⟩)]
    obtain hold | hnew := h.dated l e' he'
    · rw [he] at hold
      cases hold
      exact hle
    · exact Nat.le_trans htime hnew

end LiterateJournal
