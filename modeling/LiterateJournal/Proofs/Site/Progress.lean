import LiterateJournal.Proofs.Site.Documents

/-!
# What is reported while documents are processed

Only the processing of a document reports progress, and what it reports is told by its outcome. All
steps it is made of are silent: whether they return or fail, they report nothing.

## Main definitions

* `World.Reports` — what has been reported between two worlds.
* `Run.Silent` — a step reports nothing, whether it returns or fails.
* `Outcome.reports` — what is reported of a document.

## Main statements

* `silent_renderDocument`, `silent_prepareOutput`, `silent_landingPage` — the silent steps.
* `reports_of_fails_buildDocument` — what is reported of a document at which the build stops.
* `reports_of_returns_buildDocuments` — the reports on documents follow from their outcomes.
-/

namespace LiterateJournal

/-- From `w` to `v` the progress `reports` has been reported, in order. -/
def World.Reports (w : World) (reports : List Progress) (v : World) : Prop :=
  v.progress = reports.reverse ++ w.progress

namespace World

variable {w v u : World} {reports later : List Progress}

theorem Reports.refl (w : World) : w.Reports [] w := rfl

theorem reports_report (w : World) (p : Progress) : w.Reports [p] (w.report p) := rfl

theorem Reports.trans (h : w.Reports reports v) (h' : v.Reports later u) :
    w.Reports (reports ++ later) u := by
  unfold Reports at h h' ⊢
  rw [h', h, List.reverse_append, List.append_assoc]

theorem Reports.report (h : w.Reports reports v) (p : Progress) :
    w.Reports (reports ++ [p]) (v.report p) := h.trans (reports_report v p)

end World

/-! ### Silent steps -/

namespace Run

variable {α β : Type}

/-- Whether it returns or fails, a step reports nothing. -/
def Silent (x : Run α) : Prop := ∀ w, Leaves x w (w.Reports [])

variable {x : Run α} {w v : World}

theorem Silent.of_returns {a : α} (hx : Silent x) (h : Returns x w a v) : w.Reports [] v :=
  (hx w).of_returns h

theorem Silent.of_fails {e : BuildError} (hx : Silent x) (h : Fails x w e v) : w.Reports [] v :=
  (leaves_iff.1 (hx w)).2 e v h

theorem silent_pure (a : α) : Silent (pure a : Run α) := fun w => leaves_pure.2 (.refl w)

theorem silent_throw (e : BuildError) : Silent (throw e : Run α) := fun w =>
  leaves_throw.2 (.refl w)

/-- Nothing comes after an error. -/
theorem silent_throw_bind (e : BuildError) (f : α → Run β) : Silent (throw e >>= f) :=
  fun w => silent_throw (α := β) e w

theorem Silent.bind {f : α → Run β} (hx : Silent x) (hf : ∀ a, Silent (f a)) :
    Silent (x >>= f) := fun w =>
  (hx w).bind (R := fun w v => w.Reports [] v) World.Reports.trans fun a v _ _ => hf a v

theorem silent_files : Silent files := fun w => World.Reports.refl w

theorem silent_change (cause : FileError → BuildError)
    (op : FileTree → Nat → Except FileError FileTree) : Silent (change cause op) := by
  intro w
  rw [Leaves, result_change]
  split <;> exact .refl w

theorem silent_makeDirectories (cause : FileError → BuildError) (path : String) :
    Silent (makeDirectories cause path) := fun w => leaves_makeDirectories.2 (.refl w)

theorem silent_request (url : Url) : Silent (request url) := fun w => World.Reports.refl w

theorem silent_foldlM {f : β → α → Run β} (hf : ∀ b a, Silent (f b a)) (b : β) (xs : List α) :
    Silent (xs.foldlM f b) := by
  induction xs generalizing b with
  | nil => exact silent_pure b
  | cons a xs ih =>
    rw [List.foldlM_cons]
    exact (hf b a).bind ih

end Run

namespace StoreRun

variable {α β : Type}

/-- Whether it returns or fails, a step with a store reports nothing. -/
def Silent (x : StoreRun α) : Prop :=
  ∀ (s : ImageStore) (w : World), w.Reports [] (Id.run ((x.run.run s).run w)).2

theorem silent_pure (a : α) : Silent (pure a : StoreRun α) := fun _ w => .refl w

theorem silent_throw (e : BuildError) : Silent (throw e : StoreRun α) := fun _ w => .refl w

theorem silent_get : Silent (getThe ImageStore) := fun _ w => .refl w

theorem silent_set (s : ImageStore) : Silent (set s : StoreRun PUnit) := fun _ w => .refl w

theorem Silent.bind {x : StoreRun α} {f : α → StoreRun β} (hx : Silent x)
    (hf : ∀ a, Silent (f a)) : Silent (x >>= f) := by
  intro s w
  have hw := hx s w
  rw [ExceptT.run_bind, StateT.run_bind, StateT.run_bind]
  revert hw
  generalize (x.run.run s).run w = out
  obtain ⟨⟨result, t⟩, v⟩ := out
  intro hw
  cases result with
  | ok a => exact hw.trans (hf a t v)
  | error e => exact hw

theorem silent_lift {x : Run α} (hx : Run.Silent x) : Silent (ImageStore.lift x) := fun _ w => hx w

end StoreRun

namespace ImageStore

open Run in
theorem silent_download (document text : String) (url : Url) (path : String) :
    Silent (download document text url path) := by
  unfold download
  dsimp only
  split
  · exact silent_throw_bind _ _
  · refine (silent_request _).bind fun reply => ?_
    split
    · exact silent_throw _
    · split
      · exact silent_throw_bind _ _
      · exact silent_change _ _

open StoreRun in
theorem silent_fetch (document text : String) : Silent (fetch document text) := by
  unfold fetch
  refine silent_get.bind fun s => ?_
  split
  · exact silent_pure _
  · split
    · exact silent_throw _
    · exact (silent_set _).bind fun _ =>
        (silent_lift (silent_download _ _ _ _)).bind fun _ => silent_set _

open StoreRun in
theorem silent_fetchAll (document : String) (urls : List String) :
    Silent (fetchAll document urls) := by
  induction urls with
  | nil => exact silent_pure _
  | cons url urls ih => exact (silent_fetch document url).bind fun _ => ih

open StoreRun in
theorem silent_localize (document : String) (links : LinkTable) (blocks : List Block) :
    Silent (localize document links blocks) := by
  unfold localize
  dsimp only
  split
  · refine silent_get.bind fun s => (silent_lift (Run.silent_makeDirectories _ _)).bind fun _ =>
      (silent_fetchAll document _).bind fun _ => silent_get.bind fun s' => ?_
    split
    · exact silent_pure _
    · exact silent_throw _
  · refine silent_get.bind fun s => ?_
    split
    · exact silent_pure _
    · exact silent_throw _

theorem silent_localizeAlone (output document : String) (links : LinkTable)
    (blocks : List Block) : Run.Silent (localizeAlone output document links blocks) := by
  unfold localizeAlone
  refine Run.Silent.bind (fun w => silent_localize document links blocks (new output) w) ?_
  rintro ⟨result, _⟩
  cases result with
  | ok blocks => exact Run.silent_pure _
  | error e => exact Run.silent_throw _

end ImageStore

section

open Run

theorem silent_loadTemplate (styles : String) (f : OutputFormat) :
    Silent (loadTemplate styles f) := by
  unfold loadTemplate
  refine silent_files.bind fun files => ?_
  split
  · exact silent_pure _
  · exact silent_throw _
  · exact silent_throw _

theorem silent_writePage (path text : String) : Silent (writePage path text) := by
  have hwrite : Silent (do
      Run.change (.outputWriteFailed path) fun files now =>
        files.write now (path ++ ".tmp") (.text text)
      Run.change (.outputWriteFailed path) fun files _ => files.rename (path ++ ".tmp") path) :=
    (silent_change _ _).bind fun _ => silent_change _ _
  unfold writePage
  dsimp only
  split
  · exact (silent_makeDirectories _ _).bind fun _ => hwrite
  · exact hwrite

theorem silent_pageBlocks (s : Settings) (d : Document) (title : String) :
    Silent (pageBlocks s d title) := by
  unfold pageBlocks
  split
  · exact silent_pure _
  · exact (ImageStore.silent_localizeAlone _ _ _ _).bind fun _ => silent_pure _

theorem silent_renderDocument (s : Settings) (d : Document) (title requested : String) :
    Silent (renderDocument s d title requested) :=
  (silent_loadTemplate _ _).bind fun _ => (silent_pageBlocks s d title).bind fun _ =>
    (silent_writePage _ _).bind fun _ => silent_pure _

theorem silent_copyAsset (source target : String) : Silent (copyAsset source target) := by
  unfold copyAsset
  refine silent_files.bind fun files => ?_
  split
  · exact silent_pure _
  · exact (silent_change _ _).bind fun _ => silent_pure _

theorem silent_copyListed (root rootTarget : String) (depth : Nat) (source target : String)
    (entries : List (String × Entry)) :
    Silent (copyListed root rootTarget depth source target entries) := by
  induction depth generalizing source target entries with
  | zero => exact silent_pure _
  | succ depth ih =>
    refine silent_foldlM (fun copied entry => ?_) 0 entries
    obtain ⟨name, _ | _⟩ := entry
    · exact (silent_copyAsset _ _).bind fun _ => silent_pure _
    · refine silent_files.bind fun files => (silent_makeDirectories _ _).bind fun _ => ?_
      split
      · exact (ih _ _ _).bind fun _ => silent_pure _
      · exact silent_throw _

theorem silent_copyAssets (source target : String) : Silent (copyAssets source target) := by
  unfold copyAssets
  refine (silent_makeDirectories _ _).bind fun _ => silent_files.bind fun files => ?_
  split
  · exact silent_throw _
  · exact silent_pure _
  · refine silent_files.bind fun files => ?_
    split
    · exact silent_throw _
    · exact silent_copyListed _ _ _ _ _ _

theorem silent_prepareOutput (s : Settings) : Silent (prepareOutput s) := by
  unfold prepareOutput
  refine (silent_makeDirectories _ _).bind fun _ => (silent_makeDirectories _ _).bind fun _ => ?_
  split
  · exact silent_copyAssets _ _
  · exact silent_pure _

theorem silent_discover (s : Settings) : Silent (discover s) := by
  unfold discover
  refine silent_files.bind fun files => ?_
  split
  · exact silent_throw _
  · exact silent_pure _

theorem silent_landingPage (s : Settings) (discovered documents : List String)
    (entries : List PageEntry) : Silent (landingPage s discovered documents entries) := by
  unfold landingPage
  cases discovered.isEmpty with
  | true => exact silent_throw_bind _ _
  | false =>
    simp only [Bool.false_eq_true, if_false]
    split
    · exact silent_pure _
    · exact silent_pure _
    · split
      · exact silent_pure _
      · refine silent_files.bind fun files => ?_
        split
        · exact silent_pure _
        · exact (silent_renderDocument _ _ _ _).bind fun _ => silent_pure _

end

/-! ### Documents -/

def Outcome.reports : Outcome → List Progress
  | .generated name _ title => [.started name, .completed name title]
  | .skipped name => [.skipped name]
  | .failed name e => [.started name, .failed name e.message]

section

variable {s : Settings} {path : String} {w w' v : World} {o : Outcome} {e : BuildError}

/-- A document that ends the build has been started, and all that came after was silent. -/
theorem reports_of_fails_buildDocument (h : Run.Fails (buildDocument s path) w e w') :
    w.Reports [.started (sourceName path)] w' := by
  unfold buildDocument at h
  simp only [Run.fails_bind, Run.fails_files, Run.returns_files, false_or, and_assoc,
    exists_and_left, exists_eq_left] at h
  split at h
  · simp only [Run.fails_bind, Run.fails_report, Run.fails_pure, and_false, exists_false,
      or_false] at h
  simp only [Run.fails_bind, Run.fails_report, Run.returns_report, false_or] at h
  obtain ⟨-, _, rfl, h⟩ := h
  refine (World.reports_report w _).trans (v := w.report _) ?_
  split at h
  · obtain ⟨-, rfl⟩ := Run.fails_throw.1 h
    exact .refl _
  simp only [Run.fails_bind, Run.fails_files, Run.returns_files, false_or, and_assoc,
    exists_and_left, exists_eq_left] at h
  split at h
  · simp only [Run.fails_bind, Run.fails_report, Run.fails_pure, and_false, exists_false,
      or_false] at h
  · simp only [Run.fails_bind, Run.fails_report, Run.fails_pure, and_false, exists_false,
      or_false] at h
    exact (silent_renderDocument _ _ _ _).of_fails h

/-- What is reported of a document follows from its outcome. -/
theorem reports_of_returns_buildDocument (h : Run.Returns (buildDocument s path) w o w') :
    w.Reports o.reports w' := by
  obtain ⟨rfl, rfl⟩ | ⟨cause, rfl, rfl⟩ | ⟨d, title, output, v, rfl, hrender, rfl⟩ :=
    returns_buildDocument_cases h
  · exact .report (.refl w) _
  · exact (World.reports_report w _).report _
  · exact ((World.reports_report w _).trans
      ((silent_renderDocument _ _ _ _).of_returns hrender)).report _

/-- What is reported of documents follows from their outcomes. -/
theorem reports_of_returns_buildDocuments {paths : List String} {outcomes : List Outcome}
    (h : Run.Returns (buildDocuments s paths) w outcomes w') :
    w.Reports (outcomes.flatMap Outcome.reports) w' := by
  induction paths generalizing w outcomes with
  | nil =>
    obtain ⟨rfl, rfl⟩ := returns_buildDocuments_nil.1 h
    exact .refl w'
  | cons path paths ih =>
    obtain ⟨o, v, rest, ho, -, hrest, rfl⟩ := returns_buildDocuments_cons.1 h
    rw [List.flatMap_cons]
    exact (reports_of_returns_buildDocument ho).trans (ih hrest)

end

end LiterateJournal
