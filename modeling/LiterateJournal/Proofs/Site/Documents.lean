import LiterateJournal.Proofs.Site.Page
import LiterateJournal.Site.Build

/-!
# The documents of a build, one after another

A document is skipped, fails or gets a page. Which of these it is, and what page it gets, is decided
in the world that the documents before it have left.

## Main definitions

* `Processed` — what becomes of a document, and the world after it.
* `StopsBuild` — a document at which the build stops.
* `generatedOf` — the documents that got a page.

## Main statements

* `returns_buildDocument` — a document is processed.
* `returns_buildDocument_cases` — how the processing of a document ends.
* `returns_buildDocuments_cons` — the documents are processed in order.
* `fails_buildDocuments_iff` — where the processing of documents stops.
* `evolves_buildDocuments` — only the pages made, their drafts and the copies of images change.
-/

namespace LiterateJournal

def pageStem (path : String) : String := (Path.stem? path).getD ""

def Settings.read (s : Settings) (files : FileTree) (path : String) :
    Except DocumentError Document :=
  readSource files ((SourceKind.ofPath? path).getD .markdown)
    ⟨path, s.evaluator, s.evaluationOptions⟩ (s.definitionOrder path)

def Settings.needsPage (s : Settings) (files : FileTree) (path : String) : Bool :=
  isStale files path (pagePath s.format (Path.join s.output (pageName path))) s.overwrite

def Document.pageTitle (d : Document) : String := (title? d.blocks).getD untitled

theorem read_eq_of_stat_eq {s : Settings} {t u : FileTree} {path : String}
    (h : u.stat path = t.stat path) : s.read u path = s.read t path := by
  have hread : u.readText path = t.readText path := by
    unfold FileTree.readText
    rw [h]
  unfold Settings.read readSource
  rw [hread]

theorem needsPage_eq_true_iff {s : Settings} {files : FileTree} {path : String} :
    s.needsPage files path = true ↔ s.overwrite = true ∨
      files.modified (pagePath s.format (Path.join s.output (pageName path))) <
        files.modified path := by
  simp [Settings.needsPage, isStale]

/-- A path of some kind has an extension. -/
theorem exists_extension?_of_ofPath? {path : String} {kind : SourceKind}
    (h : SourceKind.ofPath? path = some kind) : ∃ ext, Path.extension? path = some ext := by
  cases hext : Path.extension? path with
  | none => simp [SourceKind.ofPath?, hext] at h
  | some ext => exact ⟨ext, rfl⟩

theorem exists_of_isSource {path : String} (h : isSource path = true) :
    ∃ kind, SourceKind.ofPath? path = some kind ∧ IsPageStem (pageStem path) := by
  unfold isSource at h
  obtain ⟨hkind, -⟩ := Bool.and_eq_true_iff.1 h
  obtain ⟨kind, hkind⟩ := Option.isSome_iff_exists.1 hkind
  obtain ⟨ext, hext⟩ := exists_extension?_of_ofPath? hkind
  obtain ⟨stem, hstem, hpage, -⟩ := exists_stem_of_extension? hext
  exact ⟨kind, hkind, by rw [pageStem, hstem]; exact hpage⟩

theorem isPageStem_of_isSource {path : String} (h : isSource path = true) :
    IsPageStem (pageStem path) := by
  obtain ⟨-, -, hstem⟩ := exists_of_isSource h
  exact hstem

theorem pageName_sourceName {path : String} (h : isSource path = true) :
    pageName (sourceName path) = pageName path := by
  obtain ⟨kind, hkind, -⟩ := exists_of_isSource h
  cases hname : Path.fileName? path with
  | none => simp [SourceKind.ofPath?, Path.extension?, hname] at hkind
  | some x =>
    rw [sourceName, hname, pageName, pageName, Path.stem?, Path.stem?, hname, Option.getD_some,
      Path.fileName?_of_plain (Path.plain_of_fileName? hname)]

theorem pageName_eq (path : String) : pageName path = pageStem path ++ ".html" := rfl

theorem pageName_inj {path path' : String} :
    pageName path = pageName path' ↔ pageStem path = pageStem path' := by
  rw [pageName_eq, pageName_eq]
  constructor
  · intro h
    have hlist := congrArg String.toList h
    exact String.toList_inj.1 (by simpa using hlist)
  · intro h
    rw [h]

theorem pageName_eq_indexName_iff {path : String} :
    pageName path = indexName ↔ pageStem path = "index" := by
  constructor
  · intro h
    have hlist := congrArg String.toList h
    rw [pageName_eq, String.toList_append] at hlist
    have hindex : indexName.toList = "index".toList ++ ".html".toList := rfl
    exact String.toList_inj.1 (List.append_cancel_right (hlist.trans hindex))
  · intro h
    rw [pageName_eq, h]
    rfl

/-- What becomes of a document, and the world after it, in an output directory. -/
inductive Processed (s : Settings) (l : Location) (path : String) (w : World) :
    Outcome → World → Prop where
  | skipped (fresh : s.needsPage w.files path = false) :
    Processed s l path w (.skipped (sourceName path)) (w.report (.skipped (sourceName path)))
  | failed (stale : s.needsPage w.files path = true) (e : DocumentError)
    (read : s.read w.files path = .error e) :
    Processed s l path w (.failed (sourceName path) e)
      ((w.report (.started (sourceName path))).report (.failed (sourceName path) e.message))
  | generated (stale : s.needsPage w.files path = true) (d : Document)
    (read : s.read w.files path = .ok d) (template : String) (copies : List ImageCopy)
    (blocks : List Block)
    (can : CanRender s d (pageStem path) (w.report (.started (sourceName path))) l template copies
      blocks) :
    Processed s l path w
      (.generated (sourceName path)
        (Path.join s.output (s.format.pageFile (pageStem path))) d.pageTitle)
      (((w.report (.started (sourceName path))).render s d d.pageTitle (pageStem path) l template
        copies blocks).report (.completed (sourceName path) d.pageTitle))

section

variable {s : Settings} {l : Location} {path : String} {w w' : World} {o : Outcome}

/-- A document whose page is new enough is skipped. -/
theorem processed_iff_of_fresh (hneeds : s.needsPage w.files path = false) :
    Processed s l path w o w' ↔
      o = .skipped (sourceName path) ∧ w' = w.report (.skipped (sourceName path)) := by
  constructor
  · intro h
    cases h with
    | skipped => exact ⟨rfl, rfl⟩
    | failed stale => cases hneeds.symm.trans stale
    | generated stale => cases hneeds.symm.trans stale
  · rintro ⟨rfl, rfl⟩
    exact .skipped hneeds

/-- A document that cannot be read fails. -/
theorem processed_iff_of_error (hneeds : s.needsPage w.files path = true) {e : DocumentError}
    (hdoc : s.read w.files path = .error e) :
    Processed s l path w o w' ↔ o = .failed (sourceName path) e ∧
      w' = (w.report (.started (sourceName path))).report
        (.failed (sourceName path) e.message) := by
  constructor
  · intro h
    cases h with
    | skipped fresh => cases hneeds.symm.trans fresh
    | failed _ e' read =>
      cases hdoc.symm.trans read
      exact ⟨rfl, rfl⟩
    | generated _ d read => cases hdoc.symm.trans read
  · rintro ⟨rfl, rfl⟩
    exact .failed hneeds e hdoc

/-- A document that can be read gets its page, if that can be written. -/
theorem processed_iff_of_ok (hneeds : s.needsPage w.files path = true) {d : Document}
    (hdoc : s.read w.files path = .ok d) :
    Processed s l path w o w' ↔ ∃ template copies blocks,
      CanRender s d (pageStem path) (w.report (.started (sourceName path))) l template copies
        blocks ∧
      o = .generated (sourceName path)
        (Path.join s.output (s.format.pageFile (pageStem path))) d.pageTitle ∧
      w' = ((w.report (.started (sourceName path))).render s d d.pageTitle (pageStem path) l
        template copies blocks).report (.completed (sourceName path) d.pageTitle) := by
  constructor
  · intro h
    cases h with
    | skipped fresh => cases hneeds.symm.trans fresh
    | failed _ e read => cases hdoc.symm.trans read
    | generated _ d' read template copies blocks can =>
      cases hdoc.symm.trans read
      exact ⟨template, copies, blocks, can, rfl, rfl⟩
  · rintro ⟨template, copies, blocks, can, rfl, rfl⟩
    exact .generated hneeds d hdoc template copies blocks can

/-- A document is processed. -/
theorem returns_buildDocument (hl : w.files.DirectoryAt s.output l)
    (hsource : isSource path = true) :
    Run.Returns (buildDocument s path) w o w' ↔ Processed s l path w o w' := by
  obtain ⟨kind, hkind, hstem⟩ := exists_of_isSource hsource
  have hread : s.read w.files path = readSource w.files kind
      ⟨path, s.evaluator, s.evaluationOptions⟩ (s.definitionOrder path) := by
    rw [Settings.read, hkind]
    rfl
  have hstale : isStale w.files path (pagePath s.format (Path.join s.output (pageName path)))
      s.overwrite = s.needsPage w.files path := rfl
  have hstarted : (w.report (.started (sourceName path))).files = w.files := rfl
  unfold buildDocument
  simp only [hkind, Run.returns_bind, Run.returns_files, and_assoc, exists_and_left,
    exists_eq_left, hstale]
  cases hneeds : s.needsPage w.files path with
  | false =>
    rw [processed_iff_of_fresh hneeds]
    simp only [Bool.not_false, if_true, Run.returns_bind, Run.returns_report, Run.returns_pure,
      exists_const, exists_eq_left]
  | true =>
    simp only [Bool.not_true, Bool.false_eq_true, if_false, Run.returns_bind, Run.returns_report,
      Run.returns_files, and_assoc, exists_and_left, exists_eq_left, hstarted, ← hread]
    cases hdoc : s.read w.files path with
    | error e =>
      rw [processed_iff_of_error hneeds hdoc]
      simp only [Run.returns_bind, Run.returns_report, Run.returns_pure, exists_const,
        exists_eq_left]
    | ok d =>
      have hrender {v : World} {out : String} :
          Run.Returns (renderDocument s d d.pageTitle (Path.join s.output (pageName path)))
            (w.report (.started (sourceName path))) out v ↔ _ :=
        returns_renderDocument (w := w.report (.started (sourceName path))) hl hstem
      rw [processed_iff_of_ok hneeds hdoc]
      simp only [Run.returns_bind, Run.returns_report, Run.returns_pure]
      constructor
      · rintro ⟨_, out, v, h, _, v', rfl, rfl, rfl⟩
        obtain ⟨template, copies, blocks, can, rfl, rfl⟩ := hrender.1 h
        exact ⟨template, copies, blocks, can, rfl, rfl⟩
      · rintro ⟨template, copies, blocks, can, rfl, rfl⟩
        exact ⟨(), _, _, hrender.2 ⟨template, copies, blocks, can, rfl, rfl⟩, (), _, rfl, rfl, rfl⟩

end

/-- A document is skipped, fails or has its page written. -/
theorem returns_buildDocument_cases {s : Settings} {path : String} {w w' : World} {o : Outcome}
    (h : Run.Returns (buildDocument s path) w o w') :
    (o = .skipped (sourceName path) ∧ w' = w.report (.skipped (sourceName path))) ∨
      (∃ cause, o = .failed (sourceName path) cause ∧
        w' = (w.report (.started (sourceName path))).report
          (.failed (sourceName path) cause.message)) ∨
      ∃ d title output v, o = .generated (sourceName path) output title ∧
        Run.Returns (renderDocument s d title (Path.join s.output (pageName path)))
          (w.report (.started (sourceName path))) output v ∧
        w' = v.report (.completed (sourceName path) title) := by
  unfold buildDocument at h
  simp only [Run.returns_bind, Run.returns_files, and_assoc, exists_and_left, exists_eq_left] at h
  split at h
  · simp only [Run.returns_bind, Run.returns_report, Run.returns_pure] at h
    obtain ⟨-, _, rfl, rfl, rfl⟩ := h
    exact .inl ⟨rfl, rfl⟩
  simp only [Run.returns_bind, Run.returns_report] at h
  obtain ⟨-, _, rfl, h⟩ := h
  split at h
  · exact (Run.returns_throw.1 h).elim
  simp only [Run.returns_bind, Run.returns_files, and_assoc, exists_and_left,
    exists_eq_left] at h
  split at h
  · simp only [Run.returns_bind, Run.returns_report, Run.returns_pure] at h
    obtain ⟨-, _, rfl, rfl, rfl⟩ := h
    exact .inr (.inl ⟨_, rfl, rfl⟩)
  · simp only [Run.returns_bind, Run.returns_report, Run.returns_pure] at h
    obtain ⟨output, v, hrender, -, _, rfl, rfl, rfl⟩ := h
    exact .inr (.inr ⟨_, _, output, v, rfl, hrender, rfl⟩)

theorem name_of_returns_buildDocument {s : Settings} {path : String} {w w' : World} {o : Outcome}
    (h : Run.Returns (buildDocument s path) w o w') : o.name = sourceName path := by
  obtain ⟨rfl, -⟩ | ⟨_, rfl, -⟩ | ⟨_, _, _, _, rfl, -⟩ := returns_buildDocument_cases h <;> rfl

theorem returns_buildDocuments_nil {s : Settings} {w w' : World} {outcomes : List Outcome} :
    Run.Returns (buildDocuments s []) w outcomes w' ↔ outcomes = [] ∧ w' = w := by
  simp [buildDocuments]

/-- The documents are processed in order. -/
theorem returns_buildDocuments_cons {s : Settings} {path : String} {paths : List String}
    {w w' : World} {outcomes : List Outcome} :
    Run.Returns (buildDocuments s (path :: paths)) w outcomes w' ↔
      ∃ o v rest, Run.Returns (buildDocument s path) w o v ∧
        ¬ (s.errorPolicy = .abort ∧ o.isFailed = true) ∧
        Run.Returns (buildDocuments s paths) v rest w' ∧ outcomes = o :: rest := by
  rw [buildDocuments]
  simp only [Run.returns_bind]
  constructor
  · rintro ⟨o, v, ho, h⟩
    have hgoesOn : ¬ (s.errorPolicy = .abort ∧ o.isFailed = true) := by
      rintro ⟨habort, hfailed⟩
      cases o with
      | failed name e =>
        rw [habort] at h
        exact Run.returns_throw.1 h
      | skipped => cases hfailed
      | generated => cases hfailed
    split at h
    · exact (Run.returns_throw.1 h).elim
    · simp only [Run.returns_bind, Run.returns_pure] at h
      obtain ⟨rest, _, hrest, rfl, rfl⟩ := h
      exact ⟨_, v, rest, ho, hgoesOn, hrest, rfl⟩
  · rintro ⟨o, v, rest, ho, hgoesOn, hrest, rfl⟩
    refine ⟨o, v, ho, ?_⟩
    split
    · rename_i habort
      exact absurd ⟨habort, rfl⟩ hgoesOn
    · simp only [Run.returns_bind, Run.returns_pure]
      exact ⟨rest, w', hrest, rfl, rfl⟩

theorem goesOn_of_returns {s : Settings} {paths : List String} {w w' : World}
    {outcomes : List Outcome} (h : Run.Returns (buildDocuments s paths) w outcomes w') :
    ∀ o ∈ outcomes, ¬ (s.errorPolicy = .abort ∧ o.isFailed = true) := by
  induction paths generalizing w outcomes with
  | nil =>
    obtain ⟨rfl, -⟩ := returns_buildDocuments_nil.1 h
    simp
  | cons path paths ih =>
    obtain ⟨o, v, rest, -, hpolicy, hrest, rfl⟩ := returns_buildDocuments_cons.1 h
    exact List.forall_mem_cons.2 ⟨hpolicy, ih hrest⟩

def generatedOf (paths : List String) (outcomes : List Outcome) : List String :=
  ((paths.zip outcomes).filter fun (_, o) => o.entry?.isSome).map Prod.fst

theorem generatedOf_cons (path : String) (paths : List String) (o : Outcome)
    (outcomes : List Outcome) : generatedOf (path :: paths) (o :: outcomes) =
      (if o.entry?.isSome then [path] else []) ++ generatedOf paths outcomes := by
  simp only [generatedOf, List.zip_cons_cons, List.filter_cons]
  split <;> rfl

section Evolution

variable {s : Settings} {l : Location} {path : String} {w w' : World} {o : Outcome}

/-- Only the page made, its draft and the copies of its images change. -/
theorem Processed.evolves (hl : w.files.DirectoryAt s.output l) (h : Processed s l path w o w') :
    World.Evolves (fun k => o.entry?.isSome = true ∧ PageChanges s l (pageStem path) k) w w' := by
  cases h with
  | skipped => exact World.evolves_report _ _ _
  | failed => exact (World.evolves_report _ _ _).trans (World.evolves_report _ _ _)
  | generated stale d read template copies blocks can =>
    have hrender := evolves_render (w := w.report (.started (sourceName path)))
      d.pageTitle hl can
    refine (((World.evolves_report _ _ _).trans hrender).trans
      (World.evolves_report _ _ _)).weaken ?_
    exact fun k hk => ⟨rfl, hk⟩

/-- Only the pages made, their drafts and the copies of images change. -/
theorem evolves_buildDocuments {paths : List String} {outcomes : List Outcome}
    (hl : w.files.DirectoryAt s.output l) (hsource : ∀ path ∈ paths, isSource path = true)
    (h : Run.Returns (buildDocuments s paths) w outcomes w') :
    World.Evolves
      (fun k => ∃ path ∈ generatedOf paths outcomes, PageChanges s l (pageStem path) k) w w' := by
  induction paths generalizing w outcomes with
  | nil =>
    obtain ⟨rfl, rfl⟩ := returns_buildDocuments_nil.1 h
    exact .refl _ _
  | cons path paths ih =>
    obtain ⟨o, v, rest, ho, -, hrest, rfl⟩ := returns_buildDocuments_cons.1 h
    have hstep := ((returns_buildDocument hl (hsource path List.mem_cons_self)).1 ho).evolves hl
    have htail := ih (hstep.directoryAt hl)
      (fun p hp => hsource p (List.mem_cons_of_mem _ hp)) hrest
    rw [generatedOf_cons]
    refine (hstep.weaken ?_).trans (htail.weaken ?_)
    · rintro k ⟨hgenerated, hk⟩
      exact ⟨path, by simp [hgenerated], hk⟩
    · rintro k ⟨p, hp, hk⟩
      exact ⟨p, List.mem_append_right _ hp, hk⟩

end Evolution

/-- The outcomes tell of the documents in order. -/
theorem names_of_returns_buildDocuments {s : Settings} {paths : List String} {w w' : World}
    {outcomes : List Outcome} (h : Run.Returns (buildDocuments s paths) w outcomes w') :
    outcomes.map Outcome.name = paths.map sourceName := by
  induction paths generalizing w outcomes with
  | nil =>
    obtain ⟨rfl, -⟩ := returns_buildDocuments_nil.1 h
    rfl
  | cons path paths ih =>
    obtain ⟨o, v, rest, ho, -, hrest, rfl⟩ := returns_buildDocuments_cons.1 h
    rw [List.map_cons, List.map_cons, name_of_returns_buildDocument ho, ih hrest]

theorem length_of_returns_buildDocuments {s : Settings} {paths : List String} {w w' : World}
    {outcomes : List Outcome} (h : Run.Returns (buildDocuments s paths) w outcomes w') :
    outcomes.length = paths.length := by
  simpa using congrArg List.length (names_of_returns_buildDocuments h)

/-- Documents are processed up to some point and then from there on. -/
theorem buildDocuments_append (s : Settings) (paths later : List String) :
    buildDocuments s (paths ++ later) = (do
      let outcomes ← buildDocuments s paths
      let rest ← buildDocuments s later
      pure (outcomes ++ rest)) := by
  induction paths with
  | nil => simp [buildDocuments]
  | cons path paths ih =>
    rw [List.cons_append, buildDocuments, buildDocuments, ih]
    simp only [bind_assoc]
    refine bind_congr fun o => ?_
    split <;> simp

theorem returns_buildDocuments_append {s : Settings} {paths later : List String} {w w' : World}
    {outcomes : List Outcome} :
    Run.Returns (buildDocuments s (paths ++ later)) w outcomes w' ↔
      ∃ first v rest, Run.Returns (buildDocuments s paths) w first v ∧
        Run.Returns (buildDocuments s later) v rest w' ∧ outcomes = first ++ rest := by
  simp only [buildDocuments_append, Run.returns_bind, Run.returns_pure]
  constructor
  · rintro ⟨first, v, hfirst, rest, _, hrest, rfl, rfl⟩
    exact ⟨first, v, rest, hfirst, hrest, rfl⟩
  · rintro ⟨first, v, rest, hfirst, hrest, rfl⟩
    exact ⟨first, v, hfirst, rest, w', hrest, rfl, rfl⟩

/-- A document ends the build, with an error of its own or because it failed and failures are to
end the build. -/
inductive StopsBuild (s : Settings) (path : String) (w : World) : BuildError → World → Prop where
  | error {e : BuildError} {w' : World} (fails : Run.Fails (buildDocument s path) w e w') :
    StopsBuild s path w e w'
  | failed {cause : DocumentError} {w' : World} (policy : s.errorPolicy = .abort)
    (returns : Run.Returns (buildDocument s path) w (.failed (sourceName path) cause) w') :
    StopsBuild s path w (.documentFailed (sourceName path) cause) w'

theorem Outcome.exists_eq_failed {o : Outcome} (h : o.isFailed = true) :
    ∃ name cause, o = .failed name cause := by
  cases o with
  | failed name cause => exact ⟨name, cause, rfl⟩
  | skipped => cases h
  | generated => cases h

theorem fails_buildDocuments_cons {s : Settings} {path : String} {paths : List String}
    {w w' : World} {e : BuildError} :
    Run.Fails (buildDocuments s (path :: paths)) w e w' ↔
      StopsBuild s path w e w' ∨
        ∃ o v, Run.Returns (buildDocument s path) w o v ∧
          ¬ (s.errorPolicy = .abort ∧ o.isFailed = true) ∧
          Run.Fails (buildDocuments s paths) v e w' := by
  rw [buildDocuments, Run.fails_bind]
  constructor
  · rintro (h | ⟨o, v, ho, h⟩)
    · exact .inl (.error h)
    split at h
    · rename_i name cause habort
      obtain ⟨rfl, rfl⟩ := Run.fails_throw.1 h
      obtain rfl : name = sourceName path := name_of_returns_buildDocument ho
      exact .inl (.failed habort ho)
    · rename_i hnot
      simp only [Run.fails_bind, Run.fails_pure, and_false, exists_false, or_false] at h
      refine .inr ⟨_, v, ho, ?_, h⟩
      rintro ⟨habort, hfailed⟩
      obtain ⟨name, cause, hcause⟩ := Outcome.exists_eq_failed hfailed
      exact hnot name cause hcause habort
  · rintro (h | ⟨o, v, ho, hgoesOn, h⟩)
    · cases h with
      | error fails => exact .inl fails
      | failed policy returns =>
        refine .inr ⟨_, _, returns, ?_⟩
        rw [policy]
        exact Run.fails_throw.2 ⟨rfl, rfl⟩
    · refine .inr ⟨o, v, ho, ?_⟩
      split
      · rename_i habort
        exact absurd ⟨habort, rfl⟩ hgoesOn
      · exact Run.fails_bind.2 (.inl h)

/-- The processing of documents stops at the first one that ends the build. -/
theorem fails_buildDocuments_iff {s : Settings} {paths : List String} {w w' : World}
    {e : BuildError} :
    Run.Fails (buildDocuments s paths) w e w' ↔
      ∃ finished path later outcomes v, paths = finished ++ path :: later ∧
        Run.Returns (buildDocuments s finished) w outcomes v ∧ StopsBuild s path v e w' := by
  constructor
  · intro h
    induction paths generalizing w with
    | nil =>
      rw [buildDocuments] at h
      exact (Run.fails_pure.1 h).elim
    | cons path paths ih =>
      obtain hstops | ⟨o, v, ho, hgoesOn, hrest⟩ := fails_buildDocuments_cons.1 h
      · exact ⟨[], path, paths, [], w, rfl, returns_buildDocuments_nil.2 ⟨rfl, rfl⟩, hstops⟩
      · obtain ⟨finished, path', later, outcomes, u, rfl, hfinished, hstops⟩ := ih hrest
        exact ⟨path :: finished, path', later, o :: outcomes, u, rfl,
          returns_buildDocuments_cons.2 ⟨o, v, outcomes, ho, hgoesOn, hfinished, rfl⟩, hstops⟩
  · rintro ⟨finished, path, later, outcomes, v, rfl, hfinished, hstops⟩
    rw [buildDocuments_append, Run.fails_bind]
    refine .inr ⟨outcomes, v, hfinished, Run.fails_bind.2 (.inl ?_)⟩
    exact fails_buildDocuments_cons.2 (.inl hstops)

end LiterateJournal
