import LiterateJournal.Proofs.Files.WellFormed
import LiterateJournal.Proofs.Site.Documents

/-!
# Failures that are ignored and failures that end the build

Both policies process the same documents in the same way until the first of them fails. There the
build ends under one policy and goes on under the other. Link definitions come in the same order in
both runs, the one of the settings.

## Main definitions

* `Settings.withPolicy` — settings with another policy.
* `FailsAt` — a document that is reached when failures are ignored, and fails.

## Main statements

* `returns_abort_iff` — documents that are processed without a failure.
* `exists_failsAt_iff` — the documents that fail are those whose outcomes say so.
* `policies_agree_until_failure` — what the two policies have in common.
-/

namespace LiterateJournal

def Settings.withPolicy (s : Settings) (policy : ErrorPolicy) : Settings :=
  { s with errorPolicy := policy }

/-- When failures are ignored, the document with number `i` is reached and fails, and leaves `v`. -/
def FailsAt (s : Settings) (paths : List String) (w : World) (i : Nat) (cause : DocumentError)
    (v : World) : Prop :=
  ∃ path outcomes u, paths[i]? = some path ∧
    Run.Returns (buildDocuments (s.withPolicy .ignore) (paths.take i)) w outcomes u ∧
    Run.Returns (buildDocument s path) u (.failed (sourceName path) cause) v

section

variable {s : Settings} {paths : List String} {w w' v : World} {outcomes : List Outcome}

/-- The policy says nothing about a single document. -/
theorem buildDocument_withPolicy (s : Settings) (policy : ErrorPolicy) (path : String) :
    buildDocument (s.withPolicy policy) path = buildDocument s path := rfl

/-- A document that fails leaves the files as they were. -/
theorem files_of_returns_failed {path : String} {o : Outcome}
    (h : Run.Returns (buildDocument s path) w o v) (hfailed : o.isFailed = true) :
    v.files = w.files := by
  obtain ⟨rfl, -⟩ | ⟨cause, rfl, rfl⟩ | ⟨_, _, _, _, rfl, -⟩ := returns_buildDocument_cases h
  · cases hfailed
  · rfl
  · cases hfailed

/-- Failures end the build just if there are any. -/
theorem returns_abort_iff :
    Run.Returns (buildDocuments (s.withPolicy .abort) paths) w outcomes w' ↔
      Run.Returns (buildDocuments (s.withPolicy .ignore) paths) w outcomes w' ∧
        ∀ o ∈ outcomes, o.isFailed = false := by
  induction paths generalizing w outcomes with
  | nil =>
    simp only [returns_buildDocuments_nil]
    exact ⟨by rintro ⟨rfl, rfl⟩; simp, And.left⟩
  | cons path paths ih =>
    simp only [returns_buildDocuments_cons, buildDocument_withPolicy, ih]
    constructor
    · rintro ⟨o, v, rest, ho, hgoesOn, ⟨hrest, hall⟩, rfl⟩
      have hfailed : o.isFailed = false := by simpa [Settings.withPolicy] using hgoesOn
      exact ⟨⟨o, v, rest, ho, by simp [Settings.withPolicy], hrest, rfl⟩,
        List.forall_mem_cons.2 ⟨hfailed, hall⟩⟩
    · rintro ⟨⟨o, v, rest, ho, -, hrest, rfl⟩, hall⟩
      obtain ⟨hfailed, hall⟩ := List.forall_mem_cons.1 hall
      exact ⟨o, v, rest, ho, by simp [hfailed], ⟨hrest, hall⟩, rfl⟩

/-- The documents that fail are those whose outcomes say so. -/
theorem exists_failsAt_iff
    (h : Run.Returns (buildDocuments (s.withPolicy .ignore) paths) w outcomes w') {i : Nat} :
    (∃ cause v, FailsAt s paths w i cause v) ↔ ∃ o, outcomes[i]? = some o ∧ o.isFailed = true := by
  have hlength := length_of_returns_buildDocuments h
  by_cases hi : i < paths.length
  · -- the run up to the document with number `i`, that document, and the rest
    rw [← List.take_append_drop i paths, List.drop_eq_getElem_cons hi] at h
    obtain ⟨first, u, _, hfirst, htail, rfl⟩ := returns_buildDocuments_append.1 h
    obtain ⟨o, v, rest, ho, -, -, rfl⟩ := returns_buildDocuments_cons.1 htail
    have hnumber : first.length = i := by
      rw [length_of_returns_buildDocuments hfirst, List.length_take]
      omega
    have hget : (first ++ o :: rest)[i]? = some o := by simp [← hnumber]
    rw [buildDocument_withPolicy] at ho
    simp only [hget, Option.some.injEq, exists_eq_left']
    constructor
    · rintro ⟨cause, v', path, outcomes', u', hpath, houtcomes, hfailed⟩
      rw [List.getElem?_eq_getElem hi, Option.some.injEq] at hpath
      subst hpath
      obtain ⟨rfl, rfl⟩ := hfirst.unique houtcomes
      obtain ⟨rfl, -⟩ := ho.unique hfailed
      rfl
    · intro hfailed
      obtain ⟨name, cause, rfl⟩ := Outcome.exists_eq_failed hfailed
      obtain rfl : name = sourceName paths[i] := name_of_returns_buildDocument ho
      exact ⟨cause, v, paths[i], first, u, List.getElem?_eq_getElem hi, hfirst, ho⟩
  · constructor
    · rintro ⟨_, _, _, _, _, hpath, -⟩
      rw [List.getElem?_eq_none (by omega)] at hpath
      cases hpath
    · rintro ⟨_, houtcome, -⟩
      rw [List.getElem?_eq_none (by omega)] at houtcome
      cases houtcome

/-- What fails does not depend on the documents after it. -/
theorem FailsAt.append {finished : List String} {i : Nat} {cause : DocumentError}
    (h : FailsAt s finished w i cause v) (later : List String) :
    FailsAt s (finished ++ later) w i cause v := by
  obtain ⟨path, outcomes, u, hpath, houtcomes, hfailed⟩ := h
  obtain ⟨hi, -⟩ := List.getElem?_eq_some_iff.1 hpath
  refine ⟨path, outcomes, u, ?_, ?_, hfailed⟩
  · rw [List.getElem?_append_left hi, hpath]
  · rwa [List.take_append_of_le_length (Nat.le_of_lt hi)]

/-- Documents none of which fails are processed in the same way under both policies. -/
theorem returns_abort_of_not_failsAt {finished : List String} (later : List String)
    (h : Run.Returns (buildDocuments (s.withPolicy .ignore) finished) w outcomes v)
    (hnone : ∀ i < finished.length, ∀ cause u, ¬ FailsAt s (finished ++ later) w i cause u) :
    Run.Returns (buildDocuments (s.withPolicy .abort) finished) w outcomes v := by
  refine returns_abort_iff.2 ⟨h, fun o ho => ?_⟩
  rw [Bool.eq_false_iff]
  intro hfailed
  obtain ⟨i, hi⟩ := List.getElem?_of_mem ho
  obtain ⟨cause, u, hfails⟩ := (exists_failsAt_iff h).2 ⟨o, hi, hfailed⟩
  have hlt : i < finished.length := by
    rw [← length_of_returns_buildDocuments h]
    exact (List.getElem?_eq_some_iff.1 hi).1
  exact hnone i hlt cause u (hfails.append later)

/-- Without a failure the policy makes no difference, also if an error of another kind ends the
build. -/
theorem result_withPolicy_eq (hnone : ∀ i cause v, ¬ FailsAt s paths w i cause v) :
    Run.result (buildDocuments (s.withPolicy .abort) paths) w =
      Run.result (buildDocuments (s.withPolicy .ignore) paths) w := by
  obtain ⟨outcomes, h⟩ | ⟨e, h⟩ :=
    Run.returns_or_fails (buildDocuments (s.withPolicy .ignore) paths) w
  · generalize (Run.result _ w).2 = u at h
    have hnone' : ∀ i < paths.length, ∀ cause v, ¬ FailsAt s (paths ++ []) w i cause v := by
      simpa using fun i _ => hnone i
    have habort := returns_abort_of_not_failsAt [] h hnone'
    unfold Run.Returns at h habort
    rw [h, habort]
  · generalize (Run.result _ w).2 = u at h
    obtain ⟨finished, path, later, outcomes, v, rfl, hfinished, hstops⟩ :=
      fails_buildDocuments_iff.1 h
    have hfails : Run.Fails (buildDocument s path) v e u := by
      cases hstops with
      | error fails => exact fails
      | failed policy => cases policy
    have hfinished' := returns_abort_of_not_failsAt _ hfinished fun i _ => hnone i
    have habort : Run.Fails (buildDocuments (s.withPolicy .abort) _) w e u :=
      fails_buildDocuments_iff.2
        ⟨finished, path, later, outcomes, v, rfl, hfinished', .error hfails⟩
    unfold Run.Fails at h habort
    rw [h, habort]

/-- The first failure ends the build, whatever comes after it. -/
theorem fails_abort_of_failsAt {i : Nat} {cause : DocumentError}
    (h : FailsAt s paths w i cause v) (hfirst : ∀ j < i, ∀ c u, ¬ FailsAt s paths w j c u) :
    ∃ path outcomes, paths[i]? = some path ∧
      Run.Returns (buildDocuments (s.withPolicy .ignore) (paths.take (i + 1))) w
        (outcomes ++ [.failed (sourceName path) cause]) v ∧
      ∀ later, Run.Fails (buildDocuments (s.withPolicy .abort) (paths.take (i + 1) ++ later)) w
        (.documentFailed (sourceName path) cause) v := by
  obtain ⟨path, outcomes, u, hpath, houtcomes, hfailed⟩ := h
  have htake : paths.take (i + 1) = paths.take i ++ [path] := by
    rw [List.take_add_one, hpath, Option.toList_some]
  refine ⟨path, outcomes, hpath, ?_, fun later => ?_⟩
  · rw [htake]
    refine returns_buildDocuments_append.2 ⟨outcomes, u, _, houtcomes, ?_, rfl⟩
    exact returns_buildDocuments_cons.2 ⟨_, v, [], hfailed, by simp [Settings.withPolicy],
      returns_buildDocuments_nil.2 ⟨rfl, rfl⟩, rfl⟩
  · have habort := returns_abort_of_not_failsAt (paths.drop i) houtcomes fun j hj => by
      rw [List.take_append_drop]
      exact hfirst j (Nat.lt_of_lt_of_le hj (List.length_take_le _ _))
    rw [htake, List.append_assoc, List.singleton_append]
    exact fails_buildDocuments_iff.2
      ⟨paths.take i, path, later, outcomes, u, rfl, habort, .failed rfl hfailed⟩

end

/-- Documents are processed in the same way under both policies until the first of them fails. That
one ends the build if failures are not ignored, as if there were no documents after it. Under both
policies it leaves the files as they were. -/
theorem policies_agree_until_failure (s : Settings) (paths : List String) (w : World) :
    ((∀ i cause v, ¬ FailsAt s paths w i cause v) →
      Run.result (buildDocuments (s.withPolicy .abort) paths) w =
        Run.result (buildDocuments (s.withPolicy .ignore) paths) w) ∧
    (∀ i cause v, FailsAt s paths w i cause v →
      (∀ j < i, ∀ cause' v', ¬ FailsAt s paths w j cause' v') →
      ∃ path outcomes, paths[i]? = some path ∧
        Run.Returns (buildDocuments (s.withPolicy .ignore) (paths.take (i + 1))) w
          (outcomes ++ [.failed (sourceName path) cause]) v ∧
        ∀ later, Run.Fails (buildDocuments (s.withPolicy .abort) (paths.take (i + 1) ++ later)) w
          (.documentFailed (sourceName path) cause) v) ∧
    ∀ policy path u o v, Run.Returns (buildDocument (s.withPolicy policy) path) u o v →
      o.isFailed = true → v.files = u.files :=
  ⟨result_withPolicy_eq, fun _ _ _ => fails_abort_of_failsAt,
    fun _ _ _ _ _ => files_of_returns_failed⟩

/-- A site of a new document, one in which a comment is not closed, one whose page is new enough,
and another new one. -/
def mixedSite : World where
  files := .ofEntries [
    (⟨false, ["out"]⟩, .directory 1),
    (⟨false, ["out", "b.html"]⟩, .file (.text "old") 2),
    (⟨false, ["out", "c.html"]⟩, .file (.text "C") 5),
    (⟨false, ["out", "styles"]⟩, .directory 1),
    (⟨false, ["out", "styles", "template.html"]⟩, .file (.text "\x7bdocument\x7d") 1),
    (⟨false, ["src"]⟩, .directory 1),
    (⟨false, ["src", "a.md"]⟩, .file (.text "# A") 4),
    (⟨false, ["src", "b.fsx"]⟩, .file (.text "(** # B") 4),
    (⟨false, ["src", "c.md"]⟩, .file (.text "# C") 4),
    (⟨false, ["src", "d.md"]⟩, .file (.text "# D") 4)]
  clock := 10
  web := fun _ => .dropped
  requests := []
  progress := []

def mixedSettings : Settings where
  root := "src"
  output := "out"

def mixedDocuments : List String := ["src/a.md", "src/b.fsx", "src/c.md", "src/d.md"]

theorem wellFormed_mixedSite : mixedSite.files.WellFormed :=
  FileTree.wellFormed_ofEntries (by decide)

theorem result_mixedDocuments :
    (Run.result (buildDocuments (mixedSettings.withPolicy .ignore) mixedDocuments)
        mixedSite).1.toOption.map (List.map Outcome.isFailed) =
      some [false, true, false, false] := by
  decide +kernel

theorem policies_mixedSite_agree_until_failure : ∃ cause v,
    FailsAt mixedSettings mixedDocuments mixedSite 1 cause v ∧
      Run.Fails (buildDocuments (mixedSettings.withPolicy .abort) mixedDocuments) mixedSite
        (.documentFailed "b.fsx" cause) v := by
  obtain ⟨outcomes, houtcomes, hfailed⟩ := Run.exists_returns result_mixedDocuments
  have hat {i : Nat} {b : Bool} (h : [false, true, false, false][i]? = some b) :
      ∃ o, outcomes[i]? = some o ∧ o.isFailed = b := by
    rwa [← hfailed, List.getElem?_map, Option.map_eq_some_iff] at h
  obtain ⟨cause, v, hfails⟩ := (exists_failsAt_iff houtcomes).2 (hat (i := 1) rfl)
  have hfirst : ∀ j < 1, ∀ c u, ¬ FailsAt mixedSettings mixedDocuments mixedSite j c u := by
    intro j hj c u h
    obtain rfl : j = 0 := by omega
    obtain ⟨o, ho, ho'⟩ := (exists_failsAt_iff houtcomes).1 ⟨c, u, h⟩
    obtain ⟨o', hget, hnot⟩ := hat (i := 0) rfl
    rw [ho, Option.some.injEq] at hget
    rw [← hget, ho'] at hnot
    cases hnot
  obtain ⟨path, -, hpath, -, habort⟩ :=
    (policies_agree_until_failure mixedSettings mixedDocuments mixedSite).2.1 1 cause v hfails
        hfirst
  cases hpath
  exact ⟨cause, v, hfails, habort ["src/c.md", "src/d.md"]⟩

end LiterateJournal
