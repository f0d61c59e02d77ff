import LiterateJournal.Proofs.Site.Stages

/-!
# Which documents are found

The documents of a build are the files right in the source directory that are named like scripts or
Markdown files, but for the build script, and whose names are on the list of documents if there is
one. The list is gone through twice, once with the paths and once with the names. The first pass
loses nothing that the second would keep, since a path in a directory ends with the name there. The
directory may be read in any order.

## Main definitions

* `IsDocumentName` — the name of a script or a Markdown file that is not the build script.
* `Settings.Selects` — a file in the source directory that is a document of the build.
* `Settings.sourcesIn` — the sources among the files that a directory was read as.

## Main statements

* `isSource_join_iff` — a path in a directory is a source's by its name.
* `endsListed_join` — a path ends with a listed name if its name is listed.
* `increasing_sources` — sources are in order.
* `sourcesIn_of_perm` — the order in which a directory is read is of no account.
* `discover_selects` — which documents are found.
-/

namespace LiterateJournal

/-! ### Names of documents -/

/-- The name of a script or a Markdown file that is not the build script, in whatever case of
letters its parts are written. -/
def IsDocumentName (name : String) : Prop :=
  ∃ stem ext, name = stem ++ "." ++ ext ∧ stem ≠ "" ∧ asciiLower ext ∈ ["fsx", "md"] ∧
    asciiLower stem ≠ "build"

theorem dot_notMem_of_asciiLower {ext : String} (h : asciiLower ext ∈ ["fsx", "md"]) :
    '.' ∉ ext.toList := by
  intro hdot
  have hlower : '.' ∈ (asciiLower ext).toList := by
    rw [asciiLower, String.toList_ofList]
    exact List.mem_map.2 ⟨'.', hdot, rfl⟩
  have hnames : ∀ name ∈ ["fsx", "md"], '.' ∉ name.toList := by decide
  exact hnames _ h hlower

theorem isSome_ofPath?_iff {path : String} : (SourceKind.ofPath? path).isSome = true ↔
    ∃ ext, Path.extension? path = some ext ∧ asciiLower ext ∈ ["fsx", "md"] := by
  unfold SourceKind.ofPath?
  cases Path.extension? path with
  | none => simp
  | some ext =>
    simp only [Option.map_some, Option.some.injEq, exists_eq_left', List.mem_cons,
      List.not_mem_nil, or_false]
    split <;> simp_all

/-- A path in a directory is a source's by its name. -/
theorem isSource_join_iff {base name : String} (h : Path.Plain name) :
    isSource (Path.join base name) = true ↔ IsDocumentName name := by
  rw [isSource, Bool.and_eq_true, isSome_ofPath?_iff, Path.extension?_join base h,
    Path.stem?_join base h]
  simp only [decide_eq_true_eq]
  constructor
  · rintro ⟨⟨ext, hext, hkind⟩, hbuild⟩
    have hcut : Path.cutName name = ((Path.cutName name).1, some ext) := Prod.ext rfl hext
    obtain ⟨hname, hne⟩ := Path.eq_of_cutName hcut
    exact ⟨_, ext, hname, fun hstem => hne (by rw [hstem]; rfl), hkind, hbuild⟩
  · rintro ⟨stem, ext, rfl, hstem, hkind, hbuild⟩
    have hne : stem.toList ≠ [] := fun hnil => hstem (String.toList_eq_nil_iff.1 hnil)
    rw [Path.cutName_append hne (dot_notMem_of_asciiLower hkind)]
    exact ⟨⟨ext, rfl, hkind⟩, hbuild⟩

/-! ### The list of documents -/

section

variable {s : Settings} {files : FileTree} {l : Location} {name : String}

theorem NameSet.contains_iff {names : NameSet} :
    names.contains name = true ↔ name ∈ names.names :=
  names.isSome_get?_iff

theorem isListed_iff : s.isListed name = true ↔ ∀ names ∈ s.whitelist, name ∈ names.names := by
  unfold Settings.isListed
  split
  · rename_i names hnames
    simp [hnames, NameSet.contains_iff]
  · rename_i hnone
    simp [hnone]

theorem exists_join_eq (base : String) : ∃ start, ∀ name, Path.Plain name →
    Path.join base name = start ++ name := by
  by_cases hbase : base = ""
  · exact ⟨"", fun name _ => by simp [Path.join, hbase]⟩
  have hjoin {name : String} (h : Path.Plain name) : Path.join base name =
      if base.toList.getLast? = some '/' then base ++ name else base ++ "/" ++ name := by
    have hhead : name.toList.head? ≠ some '/' := fun hslash => h.1.2 (List.mem_of_head? hslash)
    rw [Path.join, if_neg (by simp [hbase, hhead])]
  by_cases hslash : base.toList.getLast? = some '/'
  · exact ⟨base, fun name h => by rw [hjoin h, if_pos hslash]⟩
  · exact ⟨base ++ "/", fun name h => by rw [hjoin h, if_neg hslash]⟩

/-- A path ends with a listed name if its name is listed. -/
theorem endsListed_join (base : String) (hplain : Path.Plain name) (h : s.isListed name = true) :
    s.endsListed (Path.join base name) = true := by
  rw [isListed_iff] at h
  unfold Settings.endsListed
  split
  · rename_i names hnames
    obtain ⟨start, hstart⟩ := exists_join_eq base
    rw [List.any_eq_true]
    refine ⟨name, h names hnames, ?_⟩
    rw [List.isSuffixOf_iff_suffix, hstart name hplain, String.toList_append]
    exact List.suffix_append _ _
  · rfl

/-- A file in the source directory that is a document of the build. -/
structure Settings.Selects (s : Settings) (files : FileTree) (l : Location) (name : String) :
    Prop where
  isFile : ∃ content time, files.get? (l.child name) = some (.file content time)
  named : IsDocumentName name
  listed : ∀ names ∈ s.whitelist, name ∈ names.names

/-- The documents of a build are the files that it selects. -/
theorem mem_documents_iff {path : String} (hw : files.WellFormed)
    (hroot : files.resolve s.root = .ok l) (hd : files.IsDirectory l) :
    path ∈ s.documents files ↔ ∃ name, path = Path.join s.root name ∧ s.Selects files l name := by
  have hchildren := children_eq_ok_iff.2 ⟨l, hroot, hd, rfl⟩
  have hname {x : String} (hx : Path.Plain x) : sourceName (Path.join s.root x) = x := by
    rw [sourceName, Path.fileName?_join _ hx, Option.getD_some]
  simp only [Settings.documents, eligible, Settings.sources, hchildren, List.mem_filter,
    List.mem_map, Prod.exists, hw.mem_childrenAt_iff, Bool.and_eq_true]
  constructor
  · rintro ⟨⟨⟨x, e, ⟨hget, hfile⟩, rfl⟩, hsource, -⟩, hlisted⟩
    have hplain := hw.plain_of_mem_children (hw.mem_childrenAt_iff.2 hget)
    rw [hname hplain, isListed_iff] at hlisted
    cases e with
    | file content time =>
      exact ⟨x, rfl, ⟨content, time, hget⟩, (isSource_join_iff hplain).1 hsource, hlisted⟩
    | directory time => cases hfile
  · rintro ⟨x, rfl, ⟨content, time, hget⟩, hnamed, hlisted⟩
    have hplain := hw.plain_of_mem_children (hw.mem_childrenAt_iff.2 hget)
    rw [← isListed_iff] at hlisted
    refine ⟨⟨⟨x, .file content time, ⟨hget, rfl⟩, rfl⟩, ?_, ?_⟩, ?_⟩
    · exact (isSource_join_iff hplain).2 hnamed
    · exact endsListed_join s.root hplain hlisted
    · rwa [hname hplain]

/-! ### The order of the documents -/

theorem join_lt_join {base x y : String} (hx : Path.Plain x) (hy : Path.Plain y) (h : x < y) :
    Path.join base x < Path.join base y := by
  obtain ⟨start, hstart⟩ := exists_join_eq base
  rw [hstart x hx, hstart y hy, String.lt_iff, String.toList_append, String.toList_append]
  exact List.append_left_lt (String.lt_iff.1 h)

theorem increasing_childrenAt (hw : files.WellFormed) (l : Location) :
    (files.childrenAt l).Pairwise fun a b => a.1 < b.1 := by
  unfold FileTree.childrenAt
  split
  · rename_i hnode
    exact List.pairwise_map.2 (hw _ _ _ _ hnode).increasing
  · exact List.Pairwise.nil

/-- Sources are in order, by their paths and by their names. -/
theorem increasing_sources (hw : files.WellFormed) :
    (s.sources files).Pairwise fun p q => p < q ∧ sourceName p < sourceName q := by
  refine pairwise_sources hw (increasing_childrenAt hw) fun x y hx hy hlt => ?_
  refine ⟨join_lt_join hx hy hlt, ?_⟩
  simpa [sourceName, Path.fileName?_join _ hx, Path.fileName?_join _ hy] using hlt

/-- The sources among the files and directories that a directory was read as, sorted by their
paths. -/
def Settings.sourcesIn (s : Settings) (listing : List (String × Entry)) : List String :=
  (((listing.filter fun (_, e) => !e.isDirectory).map fun (name, _) =>
    Path.join s.root name).filter fun path => isSource path && s.endsListed path).mergeSort
      fun p q => decide (p ≤ q)

/-- The order in which the source directory is read is of no account. -/
theorem sourcesIn_of_perm (hw : files.WellFormed) (hroot : files.resolve s.root = .ok l)
    (hd : files.IsDirectory l) {listing : List (String × Entry)}
    (h : listing.Perm (files.childrenAt l)) : s.sourcesIn listing = s.sources files := by
  have hchildren := children_eq_ok_iff.2 ⟨l, hroot, hd, rfl⟩
  have hsorted : (s.sourcesIn listing).Pairwise (· ≤ ·) := by
    refine (List.pairwise_mergeSort ?_ ?_ _).imp fun hle => of_decide_eq_true hle
    · intro p q r hpq hqr
      exact decide_eq_true (String.le_trans (of_decide_eq_true hpq) (of_decide_eq_true hqr))
    · intro p q
      simpa using String.le_total p q
  have hinorder : (s.sources files).Pairwise (· ≤ ·) :=
    (increasing_sources hw).imp fun hlt => Std.le_of_lt hlt.1
  have hperm : (s.sourcesIn listing).Perm (s.sources files) := by
    refine (List.mergeSort_perm _ _).trans ?_
    rw [Settings.sources, hchildren]
    exact ((h.filter _).map _).filter _
  exact hperm.eq_of_pairwise (fun _ _ _ _ hle hge => String.le_antisymm hle hge) hsorted hinorder

/-! ### What is found -/

/-- The documents that are found are the files that a build selects, in order and each of them once.
No name on the list is lost when the paths are compared with it, and the order in which the
directory is read is of no account. -/
theorem discover_selects {w : World} (hw : w.files.WellFormed)
    (hroot : w.files.resolve s.root = .ok l) (hd : w.files.IsDirectory l) :
    ∃ found, Run.Returns (discover s) w found w ∧
      (∀ path, path ∈ eligible s found ↔
        ∃ name, path = Path.join s.root name ∧ s.Selects w.files l name) ∧
      (eligible s found).Pairwise (fun p q => p < q ∧ sourceName p < sourceName q) ∧
      (∀ child ∈ w.files.childrenAt l, s.isListed child.1 = true →
        s.endsListed (Path.join s.root child.1) = true) ∧
      ∀ listing, listing.Perm (w.files.childrenAt l) → s.sourcesIn listing = found := by
  have hchildren := children_eq_ok_iff.2 ⟨l, hroot, hd, rfl⟩
  refine ⟨s.sources w.files, returns_discover.2 ⟨⟨_, hchildren⟩, rfl, rfl⟩, ?_, ?_, ?_, ?_⟩
  · exact fun path => mem_documents_iff hw hroot hd
  · exact (increasing_sources hw).filter _
  · intro child hchild hlisted
    exact endsListed_join s.root (hw.plain_of_mem_children hchild) hlisted
  · exact fun listing hperm => sourcesIn_of_perm hw hroot hd hperm

end

def listedDocument : Settings where
  root := "src"
  output := "out"
  whitelist := some (.ofNames ["Plan.md", "build.fsx", "notes.txt"])

/-- A source directory in which only one file is a document of its list. -/
def discoverySite : World where
  files := .ofEntries [
    (⟨false, ["src"]⟩, .directory 1),
    (⟨false, ["src", "Build.md"]⟩, .file (.text "") 1),
    (⟨false, ["src", "Old-Plan.md"]⟩, .file (.text "") 1),
    (⟨false, ["src", "Plan.md"]⟩, .file (.text "") 1),
    (⟨false, ["src", "build.fsx"]⟩, .file (.text "") 1),
    (⟨false, ["src", "notes.txt"]⟩, .file (.text "") 1)]
  clock := 10
  web := fun _ => .dropped
  requests := []
  progress := []

/-- A path that ends with a listed name is found, and is no document. -/
theorem discover_selects_discoverySite :
    ∃ found, Run.Returns (discover listedDocument) discoverySite found discoverySite ∧
      found = ["src/Old-Plan.md", "src/Plan.md"] ∧
      eligible listedDocument found = ["src/Plan.md"] := by
  have hroot : discoverySite.files.resolve "src" = .ok ⟨false, ["src"]⟩ :=
    eq_ok_of_toOption (by decide +kernel)
  have hd : discoverySite.files.IsDirectory ⟨false, ["src"]⟩ := ⟨1, by decide +kernel⟩
  obtain ⟨found, hfound, -⟩ := discover_selects (FileTree.wellFormed_ofEntries (by decide))
    (s := listedDocument) (w := discoverySite) hroot hd
  obtain ⟨-, rfl, -⟩ := returns_discover.1 hfound
  exact ⟨_, hfound, by decide +kernel⟩

end LiterateJournal
