import LiterateJournal.Proofs.Site.Entry
import LiterateJournal.Proofs.Site.Policies
import LiterateJournal.Proofs.Site.Progress
import Mathlib.Data.List.Forall2

/-!
# A build's accounts of itself

A build tells what it did by the outcomes of its documents, by the list of its pages, by numbers, by
what it reports on the way and by the files it leaves. All of them tell the same. A build that ends
with an error has reported what it did until it stopped.

## Main definitions

* `buildReports` — what a build reports, given the outcomes of its documents.
* `BuildReport.Agrees` — the accounts of a build tell the same.
* `BuildStops` — where a build stops, and what it has reported by then.

## Main statements

* `tellsOf_of_returns_buildDocuments` — the pages listed are those made.
* `fails_build`, `BuildStops.reports` — a build that ends with an error.
* `build_accounts_agree` — the accounts of a build tell the same.
-/

namespace LiterateJournal

def Outcome.isGenerated : Outcome → Bool
  | .generated .. => true
  | _ => false

def buildReports (outcomes : List Outcome) : List Progress :=
  .buildStarted outcomes.length :: (outcomes.flatMap Outcome.reports ++
    [.buildCompleted outcomes.length (outcomes.countP Outcome.isGenerated)])

/-- A page is listed with its title, and its name tells the path it was written to. -/
def PageEntry.TellsOf (s : Settings) (entry : PageEntry) (o : Outcome) : Prop :=
  ∃ name, o = .generated name (pagePath s.format (Path.join s.output entry.fileName)) entry.title

/-- The accounts of a build tell the same. -/
structure BuildReport.Agrees (s : Settings) (documents : List String) (w w' : World)
    (r : BuildReport) : Prop where
  outcomes : r.outcomes.map Outcome.name = documents.map sourceName
  entries : List.Forall₂ (PageEntry.TellsOf s) r.entries (r.outcomes.filter Outcome.isGenerated)
  pages : ∀ entry ∈ r.entries, s.HasPage w'.files entry.fileName
  eligible : r.stats.eligible = documents.length
  sum : r.stats.eligible = r.stats.generated + r.stats.skipped + r.stats.failed
  generated : r.stats.generated = r.outcomes.countP Outcome.isGenerated
  skipped : r.stats.skipped = r.outcomes.countP Outcome.isSkipped
  failed : r.stats.failed = r.outcomes.countP Outcome.isFailed
  reports : w.Reports (buildReports r.outcomes) w'

/-- What has been reported is the beginning, and not the end, of what a build of some documents
reports. -/
def Unfinished (documents : List String) (told : List Progress) : Prop :=
  ∃ outcomes : List Outcome, outcomes.map Outcome.name = documents.map sourceName ∧
    told <+: buildReports outcomes ∧ ∀ n m, .buildCompleted n m ∉ told

/-- A build stops with an error. What it has reported by then ends in the document at which it
stops, or with the last document if there is no entry to be chosen. -/
inductive BuildStops (s : Settings) (w : World) (e : BuildError) (w' : World) :
    List Progress → Prop where
  /-- The sources have not been found. -/
  | early
    (fails : Run.Fails (prepareOutput s) w e w' ∨ Run.Fails (discover s) (w.prepared s) e w' ∨
      s.sources (w.prepared s).files = [] ∧ e = .noDocuments s.root ∧ w' = w.prepared s) :
    BuildStops s w e w' []
  /-- The page of a document cannot be made. -/
  | atDocument (finished later : List String) (path : String) (outcomes : List Outcome) (v : World)
    (documents : s.documents (w.prepared s).files = finished ++ path :: later)
    (processed : Run.Returns (buildDocuments s finished)
      ((w.prepared s).report (.buildStarted (s.documents (w.prepared s).files).length)) outcomes v)
    (fails : Run.Fails (buildDocument s path) v e w') :
    BuildStops s w e w' (.buildStarted (s.documents (w.prepared s).files).length ::
      (outcomes.flatMap Outcome.reports ++ [.started (sourceName path)]))
  /-- A document fails, and failures end the build. -/
  | atFailure (finished later : List String) (path : String) (outcomes : List Outcome) (v : World)
    (cause : DocumentError)
    (documents : s.documents (w.prepared s).files = finished ++ path :: later)
    (processed : Run.Returns (buildDocuments s finished)
      ((w.prepared s).report (.buildStarted (s.documents (w.prepared s).files).length)) outcomes v)
    (policy : s.errorPolicy = .abort)
    (failed : Run.Returns (buildDocument s path) v (.failed (sourceName path) cause) w')
    (error : e = .documentFailed (sourceName path) cause) :
    BuildStops s w e w' (.buildStarted (s.documents (w.prepared s).files).length ::
      (outcomes.flatMap Outcome.reports ++
        [.started (sourceName path), .failed (sourceName path) cause.message]))
  /-- The list of the pages cannot be written. -/
  | atEntry (outcomes : List Outcome) (built : World)
    (processed : Run.Returns (buildDocuments s (s.documents (w.prepared s).files))
      ((w.prepared s).report (.buildStarted (s.documents (w.prepared s).files).length)) outcomes
      built)
    (fails : Run.Fails (landingPage s (s.sources (w.prepared s).files)
      (s.documents (w.prepared s).files) (outcomes.filterMap Outcome.entry?)) built e w') :
    BuildStops s w e w' (.buildStarted (s.documents (w.prepared s).files).length ::
      outcomes.flatMap Outcome.reports)

section

variable {s : Settings} {w w' start built : World} {r : BuildReport} {outcomes : List Outcome}
  {e : BuildError} {told : List Progress}

/-! ### A build that returns -/

/-- Each document was skipped, failed or got a page. -/
theorem length_eq_count (outcomes : List Outcome) :
    outcomes.length = outcomes.countP Outcome.isGenerated + outcomes.countP Outcome.isSkipped +
      outcomes.countP Outcome.isFailed := by
  induction outcomes with
  | nil => rfl
  | cons o outcomes ih =>
    cases o <;> simp [List.countP_cons, Outcome.isGenerated, Outcome.isSkipped,
      Outcome.isFailed, ih] <;> omega

theorem length_entries (outcomes : List Outcome) :
    (outcomes.filterMap Outcome.entry?).length = outcomes.countP Outcome.isGenerated := by
  induction outcomes with
  | nil => rfl
  | cons o outcomes ih =>
    cases o <;>
      simp [List.filterMap_cons, List.countP_cons, Outcome.isGenerated, Outcome.entry?, ih]

theorem eq_pagePath_of_returns_renderDocument {d : Document} {title requested output : String}
    (h : Run.Returns (renderDocument s d title requested) w output w') :
    output = pagePath s.format requested := by
  unfold renderDocument at h
  simp only [Run.returns_bind, Run.returns_pure] at h
  obtain ⟨_, _, -, _, _, -, _, _, -, houtput, -⟩ := h
  exact houtput

/-- The page of a document is listed under the name that it is written to. -/
theorem tellsOf_of_returns_buildDocument {path : String} {o : Outcome} {entry : PageEntry}
    (hsource : isSource path = true) (h : Run.Returns (buildDocument s path) w o w')
    (hentry : o.entry? = some entry) : entry.TellsOf s o := by
  obtain ⟨rfl, -⟩ | ⟨_, rfl, -⟩ | ⟨d, title, output, v, rfl, hrender, -⟩ :=
    returns_buildDocument_cases h
  · cases hentry
  · cases hentry
  · cases hentry
    refine ⟨sourceName path, ?_⟩
    rw [eq_pagePath_of_returns_renderDocument hrender, pageName_sourceName hsource]

/-- The pages listed are those made, in order. -/
theorem tellsOf_of_returns_buildDocuments {paths : List String}
    (hsource : ∀ path ∈ paths, isSource path = true)
    (h : Run.Returns (buildDocuments s paths) w outcomes w') :
    List.Forall₂ (PageEntry.TellsOf s) (outcomes.filterMap Outcome.entry?)
      (outcomes.filter Outcome.isGenerated) := by
  induction paths generalizing w outcomes with
  | nil =>
    obtain ⟨rfl, -⟩ := returns_buildDocuments_nil.1 h
    exact .nil
  | cons path paths ih =>
    obtain ⟨o, v, rest, ho, -, hrest, rfl⟩ := returns_buildDocuments_cons.1 h
    obtain ⟨hpath, hpaths⟩ := List.forall_mem_cons.1 hsource
    have htail := ih hpaths hrest
    have hhead {entry : PageEntry} (hentry : o.entry? = some entry) : entry.TellsOf s o :=
      tellsOf_of_returns_buildDocument hpath ho hentry
    cases o with
    | generated name output title => exact .cons (hhead rfl) htail
    | skipped name => exact htail
    | failed name cause => exact htail

theorem BuildStages.reports (h : BuildStages s w start built r w') :
    w.Reports (buildReports r.outcomes) w' := by
  obtain ⟨ended, hlanding, rfl⟩ := h.landing
  have hstart : w.Reports [] start := (silent_prepareOutput s).of_returns h.prepared
  have hbuilt := (hstart.report (.buildStarted (s.documents start.files).length)).trans
    (reports_of_returns_buildDocuments h.documents)
  have hended := (hbuilt.trans ((silent_landingPage _ _ _ _).of_returns hlanding)).report
    (.buildCompleted (s.documents start.files).length r.entries.length)
  rw [h.entries, length_entries, ← length_of_returns_buildDocuments h.documents] at hended ⊢
  simpa [buildReports] using hended

theorem BuildStages.hasPage_of_mem {l : Location} (h : BuildStages s w start built r w')
    (hl : Prepared s w start l) {entry : PageEntry} (hentry : entry ∈ r.entries) :
    s.HasPage w'.files entry.fileName := by
  obtain ⟨path, hpath, hname⟩ := h.exists_document hentry
  have hstem := isPageStem_of_isSource (isSource_of_mem_documents hpath)
  rw [hname, pageName_eq, h.hasPage_iff hl hstem]
  exact .inr (.inl ⟨entry, hentry, hname⟩)

theorem BuildStages.agrees {l : Location} (h : BuildStages s w start built r w')
    (hl : Prepared s w start l) : r.Agrees s (s.documents start.files) w w' where
  outcomes := names_of_returns_buildDocuments h.documents
  entries := by
    rw [h.entries]
    exact tellsOf_of_returns_buildDocuments (fun _ => isSource_of_mem_documents) h.documents
  pages _ := h.hasPage_of_mem hl
  eligible := by rw [h.stats]
  sum := by
    rw [h.stats, h.entries]
    simp only [length_entries, ← length_of_returns_buildDocuments h.documents,
      ← List.countP_eq_length_filter]
    exact length_eq_count r.outcomes
  generated := by rw [h.stats, h.entries, length_entries]
  skipped := by rw [h.stats, List.countP_eq_length_filter]
  failed := by rw [h.stats, List.countP_eq_length_filter]
  reports := h.reports

/-! ### A build that fails -/

/-- A build that ends with an error stops somewhere. -/
theorem fails_build (h : Run.Fails (build s) w e w') :
    ∃ reports, BuildStops s w e w' reports := by
  unfold build at h
  simp only [Run.fails_bind] at h
  obtain hprepare | ⟨n, start, hprepare, h⟩ := h
  · exact ⟨_, .early (.inl hprepare)⟩
  obtain rfl := prepared_eq hprepare
  obtain hdiscover | ⟨_, _, hdiscover, h⟩ := h
  · exact ⟨_, .early (.inr (.inl hdiscover))⟩
  obtain ⟨-, rfl, rfl⟩ := returns_discover.1 hdiscover
  split at h
  · rename_i hempty
    simp only [Run.fails_bind, Run.fails_throw, Run.returns_throw, false_and, exists_false,
      or_false] at h
    exact ⟨_, .early (.inr (.inr ⟨by simpa using hempty, h.1, h.2⟩))⟩
  simp only [Run.fails_bind, Run.fails_report, Run.returns_report, Run.fails_pure, false_or,
    and_false, exists_false, or_false] at h
  obtain ⟨-, _, rfl, hdocuments | ⟨outcomes, built, hdocuments, hlanding⟩⟩ := h
  · obtain ⟨finished, path, later, outcomes, v, hsplit, hfinished, hstops⟩ :=
      fails_buildDocuments_iff.1 hdocuments
    cases hstops with
    | error fails =>
      exact ⟨_, .atDocument finished later path outcomes v hsplit hfinished fails⟩
    | failed policy returns =>
      exact ⟨_, .atFailure finished later path outcomes v _ hsplit hfinished policy returns rfl⟩
  · exact ⟨_, .atEntry outcomes built hdocuments hlanding⟩

theorem BuildStops.reports (h : BuildStops s w e w' told) : w.Reports told w' := by
  have hprepared : w.Reports [] (w.prepared s) := silent_prepareOutput s w
  have hstarted := hprepared.report (.buildStarted (s.documents (w.prepared s).files).length)
  cases h with
  | early fails =>
    obtain hprepare | hdiscover | ⟨-, -, rfl⟩ := fails
    · exact (silent_prepareOutput s).of_fails hprepare
    · exact hprepared.trans ((silent_discover s).of_fails hdiscover)
    · exact hprepared
  | atDocument finished later path outcomes v documents processed fails =>
    exact (hstarted.trans (reports_of_returns_buildDocuments processed)).trans
      (reports_of_fails_buildDocument fails)
  | atFailure finished later path outcomes v cause documents processed policy failed =>
    exact (hstarted.trans (reports_of_returns_buildDocuments processed)).trans
      (reports_of_returns_buildDocument failed)
  | atEntry outcomes built processed fails =>
    simpa using (hstarted.trans (reports_of_returns_buildDocuments processed)).trans
      ((silent_landingPage _ _ _ _).of_fails fails)

@[simp] theorem buildCompleted_notMem_reports (o : Outcome) (n m : Nat) :
    .buildCompleted n m ∉ o.reports := by
  cases o <;> simp [Outcome.reports]

/-- After the reports on some documents, the beginning of those on another one is unfinished. -/
theorem Unfinished.of_start {documents done later : List String} {path : String}
    {finished : List Outcome} {o : Outcome} {said : List Progress}
    (hdocuments : documents = done ++ path :: later)
    (hfinished : finished.map Outcome.name = done.map sourceName)
    (hname : o.name = sourceName path) (hsaid : said <+: o.reports) :
    Unfinished documents
      (.buildStarted documents.length :: (finished.flatMap Outcome.reports ++ said)) := by
  -- the documents that have not been reached could all have been skipped
  let others := later.map fun path => Outcome.skipped (sourceName path)
  have hothers : others.map Outcome.name = later.map sourceName := by simp [others, Outcome.name]
  have hnames : (finished ++ o :: others).map Outcome.name = documents.map sourceName := by
    simp [hdocuments, hfinished, hname, hothers]
  have hlength : (finished ++ o :: others).length = documents.length := by
    simpa using congrArg List.length hnames
  refine ⟨finished ++ o :: others, hnames, ?_, fun n m => ?_⟩
  · obtain ⟨unsaid, hunsaid⟩ := hsaid
    refine ⟨unsaid ++ others.flatMap Outcome.reports ++ [.buildCompleted documents.length
      ((finished ++ o :: others).countP Outcome.isGenerated)], ?_⟩
    simp [buildReports, hlength, ← hunsaid]
  · have hopen : .buildCompleted n m ∉ said := fun h =>
      buildCompleted_notMem_reports o n m (hsaid.subset h)
    simp [hopen]

/-- A build that stops has not reported all that a whole build reports. -/
theorem BuildStops.unfinished (h : BuildStops s w e w' told) :
    Unfinished (s.documents (w.prepared s).files) told := by
  cases h with
  | early =>
    exact ⟨(s.documents (w.prepared s).files).map fun path => .skipped (sourceName path),
      by simp [Outcome.name], List.nil_prefix, by simp⟩
  | atDocument finished later path outcomes v documents processed =>
    exact .of_start (o := .generated (sourceName path) "" "") documents
      (names_of_returns_buildDocuments processed) rfl (by simp [Outcome.reports])
  | atFailure finished later path outcomes v cause documents processed =>
    exact .of_start (o := .failed (sourceName path) cause) documents
      (names_of_returns_buildDocuments processed) rfl List.prefix_rfl
  | atEntry outcomes built processed =>
    refine ⟨outcomes, names_of_returns_buildDocuments processed, ?_, by simp⟩
    rw [← length_of_returns_buildDocuments processed, buildReports, ← List.cons_append]
    exact List.prefix_append _ _

end

/-- The outcomes, the pages listed, the numbers, the reports and the files of a build tell the same.
A build that ends with an error has reported what it did until it stopped. -/
theorem build_accounts_agree (s : Settings) (w : World) (hw : w.files.WellFormed) :
    (∀ r w', Run.Returns (build s) w r w' →
      r.Agrees s (s.documents (w.prepared s).files) w w') ∧
    ∀ e w', Run.Fails (build s) w e w' → ∃ told, w.Reports told w' ∧ BuildStops s w e w' told ∧
      Unfinished (s.documents (w.prepared s).files) told := by
  constructor
  · intro r w' h
    obtain ⟨start, built, hstages⟩ := returns_build.1 h
    obtain rfl := prepared_eq hstages.prepared
    obtain ⟨l, hl⟩ := prepared_of_returns hw hstages.prepared
    exact hstages.agrees hl
  · intro e w' h
    obtain ⟨told, hstops⟩ := fails_build h
    exact ⟨told, hstops.reports, hstops, hstops.unfinished⟩

/-- One page is new enough, one script fails, and two pages are made; or the build ends with the
script that fails. -/
theorem result_mixedSite :
    (Run.result (build mixedSettings) mixedSite).1.toOption.map (fun r => r.outcomes.map
        fun o => (o.isGenerated, o.isSkipped, o.isFailed)) =
      some [(true, false, false), (false, false, true), (false, true, false),
        (true, false, false)] ∧
    (Run.result (build (mixedSettings.withPolicy .abort)) mixedSite).1.toOption.isNone := by
  decide +kernel

theorem build_mixedSite_accounts_agree :
    (∃ r w', Run.Returns (build mixedSettings) mixedSite r w' ∧
      r.Agrees mixedSettings (mixedSettings.documents (mixedSite.prepared mixedSettings).files)
        mixedSite w') ∧
    ∃ e w' told, Run.Fails (build (mixedSettings.withPolicy .abort)) mixedSite e w' ∧
      mixedSite.Reports told w' ∧
      BuildStops (mixedSettings.withPolicy .abort) mixedSite e w' told ∧
      Unfinished (mixedSettings.documents (mixedSite.prepared mixedSettings).files) told := by
  constructor
  · obtain ⟨r, hr, -⟩ := Run.exists_returns result_mixedSite.1
    exact ⟨r, _, hr, (build_accounts_agree mixedSettings mixedSite wellFormed_mixedSite).1 r _ hr⟩
  · obtain ⟨r, hr⟩ | ⟨e, he⟩ :=
      Run.returns_or_fails (build (mixedSettings.withPolicy .abort)) mixedSite
    · have hnone := result_mixedSite.2
      rw [hr.toOption_eq] at hnone
      cases hnone
    · obtain ⟨told, htold⟩ := (build_accounts_agree (mixedSettings.withPolicy .abort) mixedSite
        wellFormed_mixedSite).2 e _ he
      exact ⟨e, _, told, he, htold⟩

end LiterateJournal
