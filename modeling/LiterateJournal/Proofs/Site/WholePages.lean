import LiterateJournal.Proofs.Files.Lexical
import LiterateJournal.Proofs.Images.Lifetime
import LiterateJournal.Proofs.Site.Failure

/-!
# Pages written as a whole

A page is written under another name next to its own and then renamed. If that succeeds, nothing
but the page has changed; if the draft cannot be written, nothing has. But a draft that cannot be
renamed stays, and has taken the place of a file of its name.

## Main definitions

* `Path.IsNamed` — a path whose last component is the name of a file.
* `World.around` — the world after the directories around a path have been made.
* `World.Drafts`, `World.Accepts` — the draft of a page can be written, and can be renamed.
* `FileTree.Keeps` — the files are the same, and no directory is lost.

## Main statements

* `Path.exists_draft` — a page and its draft are in one directory.
* `returns_writePage_iff`, `fails_writePage_cases` — how the writing of a page ends.
* `keepsPage_of_fails_renderDocument` — a page that cannot be rendered.
* `page_written_whole_iff` — what has changed when the writing of a page has ended.
-/

namespace LiterateJournal

/-! ### Pages and drafts -/

namespace Path

/-- The last component is the name of a file, and no slash or dot after it asks for a directory. -/
structure IsNamed (path : String) : Prop where
  fileName? : (fileName? path).isSome = true
  endsWithDot : endsWithDot path = false
  endsWithSlash : endsWithSlash path = false

/-- A name after the last slash is a name in the directory before it. -/
theorem join_ofList {p : List Char} (hp : p = [] ∨ ∃ r, p = r ++ ['/']) {x : String}
    (hx : IsPiece x) : join (String.ofList p) x = String.ofList (p ++ x.toList) := by
  obtain rfl | ⟨r, rfl⟩ := hp
  · simp [join]
  · rw [join, if_neg (by simp [head?_of_isPiece hx]), if_pos (by simp), ← String.toList_inj]
    simp

/-- A path is what comes before its last slash, that slash, and what comes after it. -/
theorem exists_last_slash (path : String) : ∃ p y : List Char, path.toList = p ++ y ∧ '/' ∉ y ∧
    (p = [] ∨ ∃ r, p = r ++ ['/']) := by
  have happend := List.takeWhile_append_dropWhile (p := (· ≠ '/')) (l := path.toList.reverse)
  have hhead := List.head?_dropWhile_not (· ≠ '/') path.toList.reverse
  refine ⟨(path.toList.reverse.dropWhile (· ≠ '/')).reverse,
    (path.toList.reverse.takeWhile (· ≠ '/')).reverse, ?_, ?_, ?_⟩
  · rw [← List.reverse_append, happend, List.reverse_reverse]
  · intro hmem
    have hall := List.all_eq_true.1 (List.all_takeWhile (p := (· ≠ '/'))
      (l := path.toList.reverse)) '/' (List.mem_reverse.1 hmem)
    simp at hall
  · generalize path.toList.reverse.dropWhile (· ≠ '/') = d at hhead
    cases d with
    | nil => exact .inl rfl
    | cons c d =>
      obtain rfl : c = '/' := by simpa using hhead
      exact .inr ⟨d.reverse, by simp⟩

/-- The last piece of a path that is named is a name. -/
theorem IsNamed.plain {path : String} (h : IsNamed path) {p y : List Char}
    (hpath : path.toList = p ++ y) (hy : '/' ∉ y) (hp : p = [] ∨ ∃ r, p = r ++ ['/']) :
    Plain (String.ofList y) := by
  have hslash := h.endsWithSlash
  have hdot := h.endsWithDot
  have hname := h.fileName?
  have hsilent : isSilent y = false := by
    by_contra hsilent
    rw [Bool.not_eq_false, isSilent, Bool.or_eq_true, List.isEmpty_iff, decide_eq_true_eq]
      at hsilent
    obtain rfl | rfl := hsilent
    · obtain rfl | ⟨r, rfl⟩ := hp
      · obtain rfl : path = "" := String.toList_inj.1 hpath
        cases hname
      · simp [Path.endsWithSlash, hpath] at hslash
    · obtain rfl | ⟨r, rfl⟩ := hp
      · obtain rfl : path = "." := String.toList_inj.1 hpath
        cases hname
      · simp [Path.endsWithDot, hpath] at hdot
  have hpiece : IsPiece (String.ofList y) := by
    simpa only [IsPiece, String.toList_ofList] using And.intro hsilent hy
  refine ⟨hpiece, fun hup => ?_⟩
  have hjoin : path = join (String.ofList p) (String.ofList y) := by
    rw [join_ofList hp hpiece, String.toList_ofList, ← hpath, String.ofList_toList]
  have hdots : String.ofList y = ".." := String.toList_inj.1 hup
  rw [hjoin, hdots, fileName?_join_up] at hname
  cases hname

/-- A page and its draft are in one directory. -/
theorem exists_draft (path : String) : ∃ base y : String, Plain (y ++ ".tmp") ∧
    path ++ ".tmp" = join base (y ++ ".tmp") ∧
      (IsNamed path → Plain y ∧ path = join base y) := by
  obtain ⟨p, y, hpath, hy, hp⟩ := exists_last_slash path
  have hplain : Plain (String.ofList y ++ ".tmp") :=
    plain_of_length (by simp) (by simp [hy])
  refine ⟨String.ofList p, String.ofList y, hplain, ?_, fun hnamed => ?_⟩
  · rw [join_ofList hp hplain.1, ← String.toList_inj]
    simp [hpath]
  · have hplain := hnamed.plain hpath hy hp
    refine ⟨hplain, ?_⟩
    rw [join_ofList hp hplain.1, String.toList_ofList, ← hpath, String.ofList_toList]

theorem location_join (base : String) {x : String} (hx : Plain x) :
    location (join base x) = (location base).child x := by
  rw [location, components_join base hx, List.foldl_append]
  rfl

end Path

/-! ### Writing a page -/

/-- The world after the directories around a path have been made, and whether they could be. -/
def World.around (w : World) (path : String) : Except FileError Unit × World :=
  match Path.parent? path with
  | some parent =>
    ((w.files.makeDirectories w.clock parent).1, { w with
      files := (w.files.makeDirectories w.clock parent).2
      clock := w.clock + 1 })
  | none => (.ok (), w)

def makeAround (path : String) : Run Unit :=
  match Path.parent? path with
  | some parent => Run.makeDirectories (.outputWriteFailed path) parent
  | none => pure ()

theorem writePage_eq (path text : String) : writePage path text = (do
    makeAround path
    Run.change (BuildError.outputWriteFailed path) fun files now =>
      files.write now (path ++ ".tmp") (.text text)
    Run.change (BuildError.outputWriteFailed path) fun files _ =>
      files.rename (path ++ ".tmp") path) := by
  unfold writePage makeAround
  cases Path.parent? path <;> rfl

section

variable {w v w' : World} {path text : String} {k : Location} {e : BuildError}

theorem returns_makeAround {u : Unit} :
    Run.Returns (makeAround path) w u v ↔ (w.around path).1 = .ok () ∧ v = (w.around path).2 := by
  unfold makeAround World.around
  cases Path.parent? path <;> simp

theorem eq_of_fails_makeAround (h : Run.Fails (makeAround path) w e v) :
    (∃ c, (w.around path).1 = .error c) ∧ v = (w.around path).2 := by
  unfold makeAround at h
  unfold World.around
  cases hparent : Path.parent? path with
  | none =>
    rw [hparent] at h
    exact (Run.fails_pure.1 h).elim
  | some parent =>
    rw [hparent] at h
    obtain ⟨c, hc, -, rfl⟩ := Run.fails_makeDirectories.1 h
    exact ⟨⟨c, hc⟩, rfl⟩

/-- Making the directories around a path adds directories and nothing else. -/
theorem grown_around (w : World) (path : String) :
    FileTree.Grown w.clock w.files (w.around path).2.files := by
  unfold World.around
  cases Path.parent? path with
  | none => exact .refl _ _
  | some parent => exact FileTree.grown_makeDirectories _ _ _

def Path.MadeAround (path : String) (k : Location) : Prop :=
  ∃ parent p, Path.parent? path = some parent ∧ Path.IsAncestor p parent ∧ k = Path.location p

theorem get?_around (w : World) (path : String) (k : Location) :
    (w.around path).2.files.get? k = w.files.get? k ∨
      w.files.get? k = none ∧ (w.around path).2.files.IsDirectory k ∧ Path.MadeAround path k := by
  obtain hsame | ⟨hnone, hmade⟩ := grown_around w path k
  · exact .inl hsame
  · refine .inr ⟨hnone, ⟨_, hmade⟩, ?_⟩
    unfold World.around at hmade
    cases hparent : Path.parent? path with
    | none =>
      rw [hparent] at hmade
      simp [hnone] at hmade
    | some parent =>
      rw [hparent] at hmade
      obtain hsame | ⟨p, hp, hk⟩ := FileTree.get?_makeDirectories w.files w.clock parent k
      · simp [hsame, hnone] at hmade
      · exact ⟨parent, p, hparent, hp, hk⟩

/-- The draft of a page can be written, in a file at a location. -/
structure World.Drafts (w : World) (path : String) (k : Location) : Prop where
  made : (w.around path).1 = .ok ()
  resolve : (w.around path).2.files.resolve (path ++ ".tmp") = .ok k
  not_isDirectory : ¬ (w.around path).2.files.IsDirectory k

/-- A draft can be renamed to the page: the page has the name of a file, and no directory is
there. -/
structure World.Accepts (w : World) (path : String) : Prop where
  named : Path.IsNamed path
  not_isDirectory : ¬ (w.around path).2.files.IsDirectory (Path.location path)

theorem endsWithSlash_draft (path : String) : Path.endsWithSlash (path ++ ".tmp") = false := by
  simp [Path.endsWithSlash]

def World.drafted (w : World) (path text : String) (k : Location) : FileTree :=
  (w.around path).2.files.set k (.file (.text text) (w.around path).2.clock)

/-- The files after a draft has been renamed. -/
def World.published (w : World) (path text : String) (k : Location) : FileTree :=
  ((w.drafted path text k).erase k).set (Path.location path)
    (.file (.text text) (w.around path).2.clock)

namespace World.Drafts

theorem hasPlace (h : w.Drafts path k) : (w.around path).2.files.hasPlace k = true :=
  FileTree.hasPlace_of_resolve h.resolve

theorem eq_location (h : w.Drafts path k) : k = Path.location (path ++ ".tmp") :=
  FileTree.eq_location_of_resolve h.resolve

theorem write_eq_ok_iff {u : FileTree} (hmade : (w.around path).1 = .ok ()) :
    (w.around path).2.files.write (w.around path).2.clock (path ++ ".tmp") (.text text) = .ok u ↔
      ∃ k, w.Drafts path k ∧ u = w.drafted path text k := by
  rw [FileTree.write_eq_ok_iff]
  constructor
  · rintro ⟨k, hk, hd, -, rfl⟩
    exact ⟨k, ⟨hmade, hk, hd⟩, rfl⟩
  · rintro ⟨k, h, rfl⟩
    exact ⟨k, h.resolve, h.not_isDirectory, endsWithSlash_draft path, rfl⟩

theorem get?_drafted (h : w.Drafts path k) (text : String) (j : Location) :
    (w.drafted path text k).get? j =
      if j = k then some (.file (.text text) (w.around path).2.clock)
      else (w.around path).2.files.get? j :=
  FileTree.get?_set_of_not_isDirectory h.hasPlace h.not_isDirectory j

theorem isDirectory_drafted (h : w.Drafts path k) (text : String) {j : Location} :
    (w.drafted path text k).IsDirectory j ↔ (w.around path).2.files.IsDirectory j :=
  FileTree.isDirectory_set_file h.hasPlace h.not_isDirectory

/-- A page with a name is in the directory of its draft. -/
theorem resolve_path (h : w.Drafts path k) (hnamed : Path.IsNamed path) :
    (w.around path).2.files.resolve path = .ok (Path.location path) ∧ Path.location path ≠ k := by
  obtain ⟨base, y, hplain, hdraft, hpath⟩ := Path.exists_draft path
  obtain ⟨hy, rfl⟩ := hpath hnamed
  have hresolve := h.resolve
  rw [hdraft] at hresolve
  obtain ⟨l, hl⟩ := FileTree.directoryAt_of_resolve_join hplain hresolve
  obtain ⟨hfits, rfl⟩ := (hl.resolve_join_eq_ok_iff hplain).1 hresolve
  have hlocation := Path.location_join base hy
  rw [← hl.eq_location] at hlocation
  rw [hlocation]
  refine ⟨(hl.resolve_join_eq_ok_iff hy).2 ⟨fits_of_fits_draft hy hfits, rfl⟩, fun heq => ?_⟩
  exact ne_draft y (Location.child_inj.1 heq).2

theorem rename_eq_ok_iff {u : FileTree} (h : w.Drafts path k) :
    (w.drafted path text k).rename (path ++ ".tmp") path = .ok u ↔
      w.Accepts path ∧ u = w.published path text k := by
  have hmono {l : Location} (hl : (w.around path).2.files.IsDirectory l) :
      (w.drafted path text k).IsDirectory l := (h.isDirectory_drafted text).2 hl
  have hresolve := FileTree.resolve_mono (fun _ => hmono) h.resolve
  have hget : (w.drafted path text k).get? k =
      some (.file (.text text) (w.around path).2.clock) := by rw [h.get?_drafted, if_pos rfl]
  rw [FileTree.rename_eq_ok_iff hresolve hget]
  constructor
  · rintro ⟨m, hm, hname, hdot, hslash, hd, rfl⟩
    obtain rfl := FileTree.eq_location_of_resolve hm
    exact ⟨⟨⟨hname, hdot, hslash⟩, fun hd' => hd (hmono hd')⟩, rfl⟩
  · rintro ⟨haccepts, rfl⟩
    have hpath := FileTree.resolve_mono (fun _ => hmono) (h.resolve_path haccepts.named).1
    exact ⟨_, hpath, haccepts.named.fileName?, haccepts.named.endsWithDot,
      haccepts.named.endsWithSlash,
      fun hd => haccepts.not_isDirectory ((h.isDirectory_drafted text).1 hd), rfl⟩

/-- The page is there in the end, its draft is not, and nothing else has changed. -/
theorem get?_published (h : w.Drafts path k) (haccepts : w.Accepts path) (text : String)
    (j : Location) : (w.published path text k).get? j =
      if j = Path.location path then some (.file (.text text) (w.around path).2.clock)
      else if j = k then none else (w.around path).2.files.get? j := by
  have hdrafted {l : Location} := h.isDirectory_drafted text (j := l)
  have hmono {l : Location} (hl : (w.around path).2.files.IsDirectory l) :
      (w.drafted path text k).IsDirectory l := hdrafted.2 hl
  have hplace := FileTree.hasPlace_of_resolve (FileTree.resolve_mono (fun _ => hmono) h.resolve)
  have hd : ¬ (w.drafted path text k).IsDirectory k := fun hd =>
    h.not_isDirectory (hdrafted.1 hd)
  have herase {l : Location} := FileTree.isDirectory_erase (k := l) hplace hd
  have hplace' := FileTree.hasPlace_of_resolve
    (FileTree.resolve_mono (fun _ hl => herase.2 (hmono hl)) (h.resolve_path haccepts.named).1)
  have hd' : ¬ ((w.drafted path text k).erase k).IsDirectory (Path.location path) := fun hd' =>
    haccepts.not_isDirectory (hdrafted.1 (herase.1 hd'))
  rw [published, FileTree.get?_set_of_not_isDirectory hplace' hd',
    FileTree.get?_erase_of_not_isDirectory hplace hd, h.get?_drafted]
  split
  · rfl
  · split <;> rfl

end World.Drafts

/-- A page is written if its draft can be written and renamed. -/
theorem returns_writePage_iff {u : Unit} : Run.Returns (writePage path text) w u w' ↔
    ∃ k, w.Drafts path k ∧ w.Accepts path ∧ w' = { (w.around path).2 with
      files := w.published path text k
      clock := (w.around path).2.clock + 2 } := by
  rw [writePage_eq]
  simp only [Run.returns_bind, returns_makeAround, Run.returns_change]
  constructor
  · rintro ⟨_, v, ⟨hmade, rfl⟩, _, v', ⟨_, hwrite, rfl⟩, _, hrename, rfl⟩
    obtain ⟨k, h, rfl⟩ := (World.Drafts.write_eq_ok_iff hmade).1 hwrite
    obtain ⟨haccepts, rfl⟩ := h.rename_eq_ok_iff.1 hrename
    exact ⟨k, h, haccepts, rfl⟩
  · rintro ⟨k, h, haccepts, rfl⟩
    exact ⟨(), _, ⟨h.made, rfl⟩, (), _,
      ⟨_, (World.Drafts.write_eq_ok_iff h.made).2 ⟨k, h, rfl⟩, rfl⟩, _,
      h.rename_eq_ok_iff.2 ⟨haccepts, rfl⟩, rfl⟩

/-- A page that cannot be written leaves no more than directories around it, or a draft, too. -/
theorem fails_writePage_cases (h : Run.Fails (writePage path text) w e w') :
    (∀ k, ¬ w.Drafts path k) ∧ w'.files = (w.around path).2.files ∨
      ∃ k, w.Drafts path k ∧ ¬ w.Accepts path ∧ w'.files = w.drafted path text k := by
  rw [writePage_eq] at h
  simp only [Run.fails_bind, returns_makeAround, Run.fails_change, Run.returns_change] at h
  obtain hmake | ⟨_, v, ⟨hmade, rfl⟩, ⟨c, hwrite, -, rfl⟩ |
    ⟨_, v', ⟨_, hwrite, rfl⟩, c, hrename, -, rfl⟩⟩ := h
  · obtain ⟨⟨c, hc⟩, rfl⟩ := eq_of_fails_makeAround hmake
    refine .inl ⟨fun k hk => ?_, rfl⟩
    rw [hk.made] at hc
    cases hc
  · refine .inl ⟨fun k hk => ?_, rfl⟩
    rw [(World.Drafts.write_eq_ok_iff hmade).2 ⟨k, hk, rfl⟩] at hwrite
    cases hwrite
  · obtain ⟨k, hk, rfl⟩ := (World.Drafts.write_eq_ok_iff hmade).1 hwrite
    refine .inr ⟨k, hk, fun haccepts => ?_, rfl⟩
    rw [hk.rename_eq_ok_iff.2 ⟨haccepts, rfl⟩] at hrename
    cases hrename

/-! ### What a failure keeps -/

/-- The files are the same, with what they hold, and no directory is lost or changed. -/
structure FileTree.Keeps (t u : FileTree) : Prop where
  content : ∀ k, u.content? k = t.content? k
  directory : ∀ k time, t.get? k = some (.directory time) → u.get? k = some (.directory time)

theorem directory_around {time : Nat} (h : w.files.get? k = some (.directory time)) :
    (w.around path).2.files.get? k = some (.directory time) := by
  obtain hsame | ⟨hnone, -⟩ := get?_around w path k
  · rw [hsame, h]
  · rw [h] at hnone
    cases hnone

theorem content?_around (w : World) (path : String) (k : Location) :
    (w.around path).2.files.content? k = w.files.content? k := by
  obtain hsame | ⟨hnone, ⟨time, hmade⟩, -⟩ := get?_around w path k
  · exact FileTree.content?_eq_of_get?_eq hsame
  · simp [FileTree.content?, hnone, hmade]

theorem World.Drafts.content?_drafted (h : w.Drafts path k) (text : String) (j : Location) :
    (w.drafted path text k).content? j =
      if j = k then some (.text text) else w.files.content? j := by
  by_cases hj : j = k
  · rw [if_pos hj, FileTree.content?, h.get?_drafted, if_pos hj]
  · rw [if_neg hj, ← content?_around w path]
    exact FileTree.content?_eq_of_get?_eq (by rw [h.get?_drafted, if_neg hj])

theorem World.Drafts.directory_drafted {j : Location} {time : Nat} (h : w.Drafts path k)
    (hj : w.files.get? j = some (.directory time)) :
    (w.drafted path text k).get? j = some (.directory time) := by
  have hmade : (w.around path).2.files.get? j = some (.directory time) := directory_around hj
  rw [h.get?_drafted, if_neg, hmade]
  rintro rfl
  exact h.not_isDirectory ⟨time, hmade⟩

/-- If a page cannot be written, nothing but its draft has changed. -/
theorem content?_of_fails_writePage (h : Run.Fails (writePage path text) w e w') :
    (∀ j, j ≠ Path.location (path ++ ".tmp") → w'.files.content? j = w.files.content? j) ∧
      ∀ j time, w.files.get? j = some (.directory time) →
        w'.files.get? j = some (.directory time) := by
  obtain ⟨-, hfiles⟩ | ⟨k, hk, -, hfiles⟩ := fails_writePage_cases h <;> rw [hfiles]
  · exact ⟨fun j _ => content?_around w path j, fun j time => directory_around⟩
  · refine ⟨fun j hj => ?_, fun j time => hk.directory_drafted⟩
    rw [hk.content?_drafted, if_neg (hk.eq_location ▸ hj)]

/-- All failures keep all files if there is no draft that can be written and not be renamed, or the
draft was there and held the same. -/
theorem fails_writePage_keeps_iff :
    (∀ e w', Run.Fails (writePage path text) w e w' → w.files.Keeps w'.files) ↔
      (∀ k, w.Drafts path k → w.Accepts path) ∨
        w.files.content? (Path.location (path ++ ".tmp")) = some (.text text) := by
  constructor
  · intro hkeeps
    by_contra hnot
    obtain ⟨hsome, hdraft⟩ := not_or.1 hnot
    obtain ⟨k, hk⟩ := not_forall.1 hsome
    obtain ⟨hk, hrefused⟩ := Classical.not_imp.1 hk
    obtain ⟨_, hreturns⟩ | ⟨e, hfails⟩ := Run.returns_or_fails (writePage path text) w
    · obtain ⟨-, -, haccepts, -⟩ := returns_writePage_iff.1 hreturns
      exact hrefused haccepts
    · have hcontent := (hkeeps e _ hfails).content k
      obtain ⟨hnone, -⟩ | ⟨k', hk', -, hfiles⟩ := fails_writePage_cases hfails
      · exact hnone k hk
      · obtain rfl : k' = k := hk'.eq_location.trans hk.eq_location.symm
        rw [hfiles, hk.content?_drafted, if_pos rfl, hk.eq_location] at hcontent
        exact hdraft hcontent.symm
  · rintro h e w' hfails
    refine ⟨fun j => ?_, (content?_of_fails_writePage hfails).2⟩
    obtain ⟨-, hfiles⟩ | ⟨k, hk, hrefused, hfiles⟩ := fails_writePage_cases hfails
    · rw [hfiles, content?_around]
    · have hdraft := h.resolve_left fun haccepts => hrefused (haccepts k hk)
      rw [hfiles, hk.content?_drafted]
      split
      · rename_i hj
        rw [hj, hk.eq_location, hdraft]
      · rfl

end

/-! ### Rendering -/

namespace FileTree

variable {t u : FileTree} {path : String} {content : Content} {time : Nat} {l : Location}

/-- The last component of a path is followed from a directory. -/
theorem exists_follow_of_walk {cs : List Path.Component} {c : Path.Component} {start : Location}
    (h : t.walk (cs ++ [c]) start = .ok l) : ∃ k, t.IsDirectory k ∧ l = k.follow c := by
  obtain ⟨k, -, hlast⟩ := walk_append.1 h
  obtain ⟨m, hm, hend⟩ := walk_cons_eq_ok_iff.1 hlast
  cases hend
  exact ⟨k, isDirectory_of_step hm, eq_follow_of_step hm⟩

/-- The path of a file has a name. -/
theorem isNamed_of_stat (h : t.stat path = .ok (.file content time)) : Path.IsNamed path := by
  obtain ⟨l, hl, hget, hslash⟩ := stat_eq_ok_iff.1 h
  have hd := not_isDirectory_of_get? hget
  refine ⟨?_, ?_, by simpa [Entry.isDirectory] using hslash⟩
  · have hwalk := walk_components_of_resolve hl
    rw [Path.fileName?]
    obtain hnil | ⟨cs, c, hcs⟩ := List.eq_nil_or_concat (Path.components path)
    · rw [hnil] at hwalk
      cases hwalk
      exact absurd (isDirectory_start t false) hd
    · rw [hcs, List.concat_eq_append] at hwalk ⊢
      obtain ⟨k, hk, rfl⟩ := exists_follow_of_walk hwalk
      rw [List.getLast?_concat]
      cases c with
      | name x => rfl
      | root => exact absurd (isDirectory_start t true) hd
      | here => exact absurd hk hd
      | up =>
        refine absurd (isDirectory_of_contains hk ?_) hd
        exact ⟨rfl, List.dropLast_prefix _⟩
  · by_contra hdot
    have hwalk := walk_of_resolve hl
    rw [Bool.not_eq_false] at hdot
    rw [Path.steps, if_pos hdot] at hwalk
    obtain ⟨k, hk, rfl⟩ := exists_follow_of_walk hwalk
    exact hd hk

end FileTree

def World.KeepsPage (path : String) (w v : World) : Prop :=
  ∀ content time, w.files.stat path = .ok (.file content time) →
    ∃ time', v.files.stat path = .ok (.file content time')

section

variable {w v w' : World} {path text : String} {e : BuildError}

theorem World.KeepsPage.trans (h : World.KeepsPage path w v) (h' : World.KeepsPage path v w') :
    World.KeepsPage path w w' := by
  intro content time hstat
  obtain ⟨time', hstat'⟩ := h content time hstat
  exact h' content time' hstat'

theorem keepsPage_of_content?_eq (hd : ∀ k, w.files.IsDirectory k → v.files.IsDirectory k)
    (h : v.files.content? (Path.location path) = w.files.content? (Path.location path)) :
    World.KeepsPage path w v := by
  intro content time hstat
  obtain ⟨l, hl, hget, hslash⟩ := FileTree.stat_eq_ok_iff.1 hstat
  obtain rfl := FileTree.eq_location_of_resolve hl
  rw [FileTree.content?_eq_some_iff.2 ⟨time, hget⟩] at h
  obtain ⟨time', hget'⟩ := FileTree.content?_eq_some_iff.1 h
  exact ⟨time', FileTree.stat_eq_ok_iff.2 ⟨_, FileTree.resolve_mono hd hl, hget', hslash⟩⟩

/-- A page that cannot be written is the same as before. -/
theorem keepsPage_of_fails_writePage (h : Run.Fails (writePage path text) w e w') :
    World.KeepsPage path w w' := by
  intro content time hstat
  obtain ⟨hcontent, hdirectory⟩ := content?_of_fails_writePage h
  obtain ⟨base, y, hplain, hdraft, hpath⟩ := Path.exists_draft path
  obtain ⟨hy, hbase⟩ := hpath (FileTree.isNamed_of_stat hstat)
  have hne : Path.location path ≠ Path.location (path ++ ".tmp") := by
    rw [hdraft, Path.location_join base hplain, hbase, Path.location_join base hy]
    exact fun heq => ne_draft y (Location.child_inj.1 heq).2
  exact keepsPage_of_content?_eq (fun k ⟨time, hk⟩ => ⟨time, hdirectory k time hk⟩)
    (hcontent _ hne) content time hstat

namespace ImageStore

/-- What a store of its own leaves is what a new store leaves. -/
theorem leaves_localizeAlone (output document : String) (links : LinkTable)
    (blocks : List Block) (w : World) : Run.Leaves (localizeAlone output document links blocks) w
      (· = (StoreRun.result (localize document links blocks) (new output) w).2) := by
  have hlift {β : Type} (x : StateM World β) :
      Run.result (liftM x : Run β) w = (.ok (Id.run (x.run w)).1, (Id.run (x.run w)).2) := rfl
  unfold localizeAlone
  refine Run.leaves_bind.2 ⟨fun e v h => ?_, fun out v h => ?_⟩
  · rw [Run.Fails, hlift] at h
    cases h
  · rw [Run.Returns, hlift] at h
    cases h
    rw [StoreRun.result]
    generalize Id.run ((localize document links blocks).run.run (new output) |>.run w) = out
    obtain ⟨⟨result, s⟩, v⟩ := out
    cases result with
    | ok blocks => exact Run.leaves_pure.2 rfl
    | error e => exact Run.leaves_throw.2 rfl

/-- While a store of its own points a document at copies, nothing but copies changes. -/
theorem exists_grows_localizeAlone (output document : String) (links : LinkTable)
    (blocks : List Block) (w : World) : Run.Leaves (localizeAlone output document links blocks) w
      fun v => ∃ s, Grows (new output, w) (s, v) := by
  refine (leaves_localizeAlone output document links blocks w).mono ?_
  rintro v rfl
  have hgrows := Localization.run_grows ⟨document, links, blocks, fun _ => w.web⟩ (new output, w)
  rw [Localization.run, Localization.result_localize fun _ => rfl] at hgrows
  exact ⟨_, hgrows⟩

end ImageStore

def IsCopyPath (output path : String) : Prop :=
  ∃ n url, Path.location path =
    (Path.location (Path.join output savedDirectory)).child (ImageStore.copyName n url)

theorem keepsPage_of_grows {output : String} {s : ImageStore}
    (h : Grows (ImageStore.new output, w) (s, v)) (hpath : ¬ IsCopyPath output path) :
    World.KeepsPage path w v := by
  refine keepsPage_of_content?_eq h.isDirectory ?_
  by_contra hne
  obtain ⟨k, n, url, hk, -, -, hcopy⟩ := h.changed _ hne
  exact hpath ⟨n, url, by rw [hcopy, hk.eq_location]; rfl⟩

/-- No copy of an image is saved in the place of a page. -/
def Settings.Spares (s : Settings) (requested : String) : Prop :=
  s.format = .html ∨ ¬ IsCopyPath s.output (pagePath s.format requested)

/-- No copy is saved in the place of the page of a source. -/
theorem Settings.spares_page (s : Settings) {stem : String} (hstem : IsPageStem stem) :
    s.Spares (Path.join s.output (stem ++ ".html")) := by
  refine .inr ?_
  rintro ⟨n, url, hcopy⟩
  have hnames := congrArg (fun k => k.names.length) hcopy
  rw [Path.location_join s.output plain_savedDirectory] at hnames
  by_cases hdot : s.format = .latex ∧ stem = "."
  · obtain ⟨hlatex, rfl⟩ := hdot
    rw [hlatex, pagePath_dot, Path.location,
      Path.components_join_of_isPiece s.output (by decide), List.foldl_append] at hnames
    simp [Location.follow, Path.Component.ofPiece, Location.child, Path.location] at hnames
    omega
  · rw [pagePath_join hstem _ fun hlatex hs => hdot ⟨hlatex, hs⟩,
      Path.location_join s.output (plain_pageFile hstem _)] at hnames
    simp [Location.child] at hnames

theorem leaves_pageBlocks {s : Settings} {requested : String} (h : s.Spares requested)
    (d : Document) (title : String) : Run.Leaves (pageBlocks s d title) w
      (World.KeepsPage (pagePath s.format requested) w) := by
  unfold pageBlocks
  split
  · exact Run.leaves_pure.2 fun content time hstat => ⟨time, hstat⟩
  · rename_i hformat
    have hspared := h.resolve_left (by simp [hformat])
    refine (ImageStore.exists_grows_localizeAlone _ _ _ _ _).andThen ?_ fun blocks v _ hv =>
      Run.leaves_pure.2 ?_
    · rintro v ⟨store, hgrows⟩
      exact keepsPage_of_grows hgrows hspared
    · obtain ⟨store, hgrows⟩ := hv
      exact keepsPage_of_grows hgrows hspared

/-- A page that cannot be rendered is the same as before. -/
theorem keepsPage_of_fails_renderDocument {s : Settings} {d : Document} {title requested : String}
    (hspared : s.Spares requested)
    (h : Run.Fails (renderDocument s d title requested) w e w') :
    World.KeepsPage (pagePath s.format requested) w w' := by
  have hblocks := leaves_pageBlocks hspared d title (w := w)
  unfold renderDocument at h
  simp only [Run.fails_bind, returns_loadTemplate, Run.fails_pure, and_false, exists_false,
    or_false] at h
  obtain hload | ⟨template, _, ⟨-, rfl⟩, hfail | ⟨blocks, v, hreturns, hwrite⟩⟩ := h
  · obtain rfl := fails_loadTemplate hload
    exact fun content time hstat => ⟨time, hstat⟩
  · exact (Run.leaves_iff.1 hblocks).2 _ _ hfail
  · exact (hblocks.of_returns hreturns).trans (keepsPage_of_fails_writePage hwrite)

/-- A page that has been written holds the text, its draft is gone, and all else is as it was but
for directories made around it. -/
theorem files_of_returns_writePage {u : Unit}
    (h : Run.Returns (writePage path text) w u w') :
    w'.files.readText path = .ok text ∧ w'.files.exists? (path ++ ".tmp") = false ∧
      ∀ k, k ≠ Path.location path → k ≠ Path.location (path ++ ".tmp") →
        w'.files.get? k = w.files.get? k ∨
          w.files.get? k = none ∧ w'.files.IsDirectory k ∧ Path.MadeAround path k := by
  obtain ⟨k, hk, haccepts, rfl⟩ := returns_writePage_iff.1 h
  have hget := hk.get?_published haccepts text
  have hmono (j : Location) (hj : (w.around path).2.files.IsDirectory j) :
      (w.published path text k).IsDirectory j := by
    obtain ⟨time, htime⟩ := hj
    refine ⟨time, ?_⟩
    rw [hget, if_neg, if_neg, htime]
    · rintro rfl
      exact hk.not_isDirectory ⟨time, htime⟩
    · rintro rfl
      exact haccepts.not_isDirectory ⟨time, htime⟩
  obtain ⟨hpath, hne⟩ := hk.resolve_path haccepts.named
  refine ⟨?_, ?_, fun j hj hdraft => ?_⟩
  · rw [FileTree.readText, FileTree.stat_of_resolve (FileTree.resolve_mono hmono hpath), hget,
      if_pos rfl]
    simp [haccepts.named.endsWithSlash, bind, Except.bind]
  · rw [FileTree.exists?, FileTree.stat_of_resolve (FileTree.resolve_mono hmono hk.resolve), hget,
      if_neg hne.symm, if_pos rfl]
    rfl
  · have hsame : (w.published path text k).get? j = (w.around path).2.files.get? j := by
      rw [hget, if_neg hj, if_neg (hk.eq_location ▸ hdraft)]
    obtain hold | ⟨hnone, hmade, haround⟩ := get?_around w path j
    · exact .inl (hsame.trans hold)
    · exact .inr ⟨hnone, hmono j hmade, haround⟩

/-- If a page is written, it holds the text, its draft is gone and nothing else has changed but for
directories made around it. All failures keep every file and directory, and leave no draft, just if
a draft that can be written can also be renamed, or the draft was there and held the same; in any
case nothing but the draft has changed. A page that cannot be rendered is as it was, if no copy of
an image is saved in its place, as none is for the page of a source. -/
theorem page_written_whole_iff (w : World) (path text : String) :
    (∀ w', Run.Returns (writePage path text) w () w' →
      w'.files.readText path = .ok text ∧ w'.files.exists? (path ++ ".tmp") = false ∧
        ∀ k, k ≠ Path.location path → k ≠ Path.location (path ++ ".tmp") →
          w'.files.get? k = w.files.get? k ∨
            w.files.get? k = none ∧ w'.files.IsDirectory k ∧ Path.MadeAround path k) ∧
    ((∀ e w', Run.Fails (writePage path text) w e w' → w.files.Keeps w'.files) ↔
      (∀ k, w.Drafts path k → w.Accepts path) ∨
        w.files.content? (Path.location (path ++ ".tmp")) = some (.text text)) ∧
    (∀ e w', Run.Fails (writePage path text) w e w' →
      (∀ k, k ≠ Path.location (path ++ ".tmp") → w'.files.content? k = w.files.content? k) ∧
        ∀ k time, w.files.get? k = some (.directory time) →
          w'.files.get? k = some (.directory time)) ∧
    (∀ s d title requested e w', Run.Fails (renderDocument s d title requested) w e w' →
      s.Spares requested → World.KeepsPage (pagePath s.format requested) w w') ∧
    ∀ (s : Settings) stem, IsPageStem stem → s.Spares (Path.join s.output (stem ++ ".html")) :=
  ⟨fun _ => files_of_returns_writePage, fails_writePage_keeps_iff,
    fun _ _ => content?_of_fails_writePage,
    fun _ _ _ _ _ _ h hspared => keepsPage_of_fails_renderDocument hspared h,
    fun s _ => s.spares_page⟩

end

/-- A directory for pages with a directory in the place of one, next to a file. -/
def blockedShelf : World where
  files := .ofEntries [
    (⟨false, ["a"]⟩, .file (.text "a") 1),
    (⟨false, ["out"]⟩, .directory 1),
    (⟨false, ["out", "a.html"]⟩, .directory 1)]
  clock := 10
  web := fun _ => .dropped
  requests := []
  progress := []

/-- A page is written beside the directory, and none in a file. -/
theorem page_written_whole_blockedShelf :
    (∃ w', Run.Returns (writePage "out/b.html" "new") blockedShelf () w' ∧
      w'.files.readText "out/b.html" = .ok "new" ∧ w'.files.exists? "out/b.html.tmp" = false) ∧
    ∀ e w', Run.Fails (writePage "a/b.html" "new") blockedShelf e w' →
      blockedShelf.files.Keeps w'.files := by
  obtain ⟨hwritten, -⟩ := page_written_whole_iff blockedShelf "out/b.html" "new"
  obtain ⟨-, hkeeps, -⟩ := page_written_whole_iff blockedShelf "a/b.html" "new"
  refine ⟨?_, hkeeps.2 (.inl fun k hk => ?_)⟩
  · have hreturns : (Run.result (writePage "out/b.html" "new") blockedShelf).1.toOption.map id =
        some () := by decide +kernel
    obtain ⟨_, h, -⟩ := Run.exists_returns hreturns
    exact ⟨_, h, (hwritten _ h).1, (hwritten _ h).2.1⟩
  · have hmade : (blockedShelf.around "a/b.html").1.toOption = none := by decide +kernel
    rw [hk.made] at hmade
    cases hmade

/-- A page that cannot take the place of a directory leaves its draft behind. -/
theorem draft_left_behind :
    (Run.result (writePage "out/a.html" "new") blockedShelf).1.isOk = false ∧
      blockedShelf.files.exists? "out/a.html.tmp" = false ∧
      ((Run.result (writePage "out/a.html" "new") blockedShelf).2.files.readText
        "out/a.html.tmp").toOption = some "new" := by decide +kernel

end LiterateJournal
