import LiterateJournal.Proofs.Site.Rebuild

/-!
# Skipped documents and their pages

A document is skipped by the times of two paths alone. A page that is missing counts as one made at
time zero, so a source dated at that time is skipped although it has no page; and a directory in the
place of a page counts as a page.

## Main definitions

* `Settings.HasCurrentPage` — the page of a source is there and is not older than it.

## Main statements

* `returns_skipped_iff` — which documents are skipped.
* `skipped_has_page_iff` — when a document that is skipped has a page.
-/

namespace LiterateJournal

namespace Settings

def pageOf (s : Settings) (path : String) : String :=
  pagePath s.format (Path.join s.output (pageName path))

/-- The page of a source is there, and it is not older than the source. -/
def HasCurrentPage (s : Settings) (files : FileTree) (path : String) : Prop :=
  ∃ content time, files.stat (s.pageOf path) = .ok (.file content time) ∧
    files.modified path ≤ time

end Settings

section

variable {s : Settings} {w w' : World} {path : String} {o : Outcome} {source : Entry}

/-- A document whose page must be made again is not skipped. -/
theorem isSkipped_eq_false_of_needsPage (hneeds : s.needsPage w.files path = true)
    (h : Run.Returns (buildDocument s path) w o w') : o.isSkipped = false := by
  have hstale : isStale w.files path (pagePath s.format (Path.join s.output (pageName path)))
      s.overwrite = true := hneeds
  unfold buildDocument at h
  simp only [Run.returns_bind, Run.returns_files, and_assoc, exists_and_left, exists_eq_left,
    hstale, Bool.not_true, Bool.false_eq_true, if_false, Run.returns_report, exists_const] at h
  split at h
  · exact (Run.returns_throw.1 h).elim
  · simp only [Run.returns_bind, Run.returns_files, and_assoc, exists_and_left,
      exists_eq_left] at h
    split at h
    · simp only [Run.returns_bind, Run.returns_report, Run.returns_pure] at h
      obtain ⟨-, _, -, rfl, -⟩ := h
      rfl
    · simp only [Run.returns_bind, Run.returns_report, Run.returns_pure] at h
      obtain ⟨_, _, -, -, _, -, rfl, -⟩ := h
      rfl

/-- The documents that are skipped are those whose pages need not be made again. Nothing changes
then but for the report of it. -/
theorem returns_skipped_iff : Run.Returns (buildDocument s path) w o w' ∧ o.isSkipped = true ↔
    s.needsPage w.files path = false ∧
      o = .skipped (sourceName path) ∧ w' = w.report (.skipped (sourceName path)) := by
  constructor
  · rintro ⟨h, ho⟩
    refine ⟨?_, ?_⟩
    · cases hneeds : s.needsPage w.files path with
      | false => rfl
      | true => exact absurd ho (by simp [isSkipped_eq_false_of_needsPage hneeds h])
    · obtain hskipped | ⟨_, rfl, -⟩ | ⟨_, _, _, _, rfl, -⟩ := returns_buildDocument_cases h
      · exact hskipped
      · cases ho
      · cases ho
  · rintro ⟨hfresh, rfl, rfl⟩
    have hstale : isStale w.files path (pagePath s.format (Path.join s.output (pageName path)))
        s.overwrite = false := hfresh
    refine ⟨?_, rfl⟩
    unfold buildDocument
    simp only [Run.returns_bind, Run.returns_files, and_assoc, exists_and_left, exists_eq_left,
      hstale, Bool.not_false, if_true, Run.returns_report, Run.returns_pure, exists_const, and_self]

/-- A document is skipped if not all pages are made again and the path of its page, where nothing
counts as made at time zero, has a time that is not before that of the source. -/
theorem exists_skipped_iff : (∃ o w', Run.Returns (buildDocument s path) w o w' ∧
    o.isSkipped = true) ↔
      s.overwrite = false ∧ w.files.modified path ≤ w.files.modified (s.pageOf path) := by
  trans s.needsPage w.files path = false
  · constructor
    · rintro ⟨o, w', h⟩
      exact (returns_skipped_iff.1 h).1
    · intro hfresh
      exact ⟨_, _, returns_skipped_iff.2 ⟨hfresh, rfl, rfl⟩⟩
  · rw [← Bool.not_eq_true, needsPage_eq_true_iff, not_or, Bool.not_eq_true, Nat.not_lt]
    rfl

/-- A document that is skipped leaves its page as it was. -/
theorem hasPage_of_skipped_iff : (∀ o w', Run.Returns (buildDocument s path) w o w' →
    o.isSkipped = true → s.HasCurrentPage w'.files path) ↔
      (s.overwrite = false ∧ w.files.modified path ≤ w.files.modified (s.pageOf path) →
        s.HasCurrentPage w.files path) := by
  rw [← exists_skipped_iff]
  constructor
  · rintro h ⟨o, w', hreturns, ho⟩
    obtain ⟨-, -, rfl⟩ := returns_skipped_iff.1 ⟨hreturns, ho⟩
    have hpage := h o _ hreturns ho
    exact hpage
  · intro h o w' hreturns ho
    obtain ⟨-, -, rfl⟩ := returns_skipped_iff.1 ⟨hreturns, ho⟩
    exact h ⟨o, _, hreturns, ho⟩

/-- Whenever a document is skipped, its page is there and not older, just if all pages are made
again or the two ways to go wrong are excluded: that there is no page and the source is dated at
time zero, and that a directory that is not older stands in the place of the page. A document
without a page is never skipped just if all pages are made again or the source is dated past time
zero. -/
theorem skipped_has_page_iff (hsource : w.files.stat path = .ok source) :
    ((∀ o w', Run.Returns (buildDocument s path) w o w' → o.isSkipped = true →
        s.HasCurrentPage w'.files path) ↔
      s.overwrite = true ∨
        (w.files.exists? (s.pageOf path) = false → 0 < source.modified) ∧
          ∀ time, w.files.stat (s.pageOf path) = .ok (.directory time) → time < source.modified) ∧
      (w.files.exists? (s.pageOf path) = false →
        ((∀ o w', Run.Returns (buildDocument s path) w o w' → o.isSkipped = false) ↔
          s.overwrite = true ∨ 0 < source.modified)) := by
  have hnever : (∀ o w', Run.Returns (buildDocument s path) w o w' → o.isSkipped = false) ↔
      ¬ (s.overwrite = false ∧ w.files.modified path ≤ w.files.modified (s.pageOf path)) := by
    rw [← exists_skipped_iff]
    simp
  rw [hasPage_of_skipped_iff, hnever, modified_of_stat hsource]
  cases s.overwrite with
  | true => simp
  | false =>
    -- what stands in the place of the page
    cases hpage : w.files.stat (s.pageOf path) with
    | error e =>
      have hno : w.files.exists? (s.pageOf path) = false := by rw [FileTree.exists?, hpage]; rfl
      have hzero : w.files.modified (s.pageOf path) = 0 := by rw [FileTree.modified, hpage]
      have hlacks : ¬ s.HasCurrentPage w.files path := by simp [Settings.HasCurrentPage, hpage]
      simp [hlacks, hno, hzero, Nat.pos_iff_ne_zero]
    | ok e =>
      have hyes : w.files.exists? (s.pageOf path) = true := by rw [FileTree.exists?, hpage]; rfl
      rw [modified_of_stat hpage]
      cases e with
      | file content time =>
        have hpage_iff : s.HasCurrentPage w.files path ↔ source.modified ≤ time := by
          simp [Settings.HasCurrentPage, hpage, modified_of_stat hsource]
        simp [hpage_iff, hyes, Entry.modified]
      | directory time =>
        have hlacks : ¬ s.HasCurrentPage w.files path := by simp [Settings.HasCurrentPage, hpage]
        simp [hlacks, hyes, Entry.modified]

/-- Of two documents, one has a page and the other has none. -/
theorem skipped_has_page_halfMadeSite :
    (∀ o w', Run.Returns (buildDocument everyDocument "src/a.md") halfMadeSite o w' →
      o.isSkipped = true → everyDocument.HasCurrentPage w'.files "src/a.md") ∧
    ∀ o w', Run.Returns (buildDocument everyDocument "src/b.md") halfMadeSite o w' →
      o.isSkipped = false := by
  obtain ⟨ha, hb, hpage, hnone⟩ :
      halfMadeSite.files.stat "src/a.md" = .ok (.file (.text "# A") 1) ∧
      halfMadeSite.files.stat "src/b.md" = .ok (.file (.text "# B") 1) ∧
      halfMadeSite.files.stat (everyDocument.pageOf "src/a.md") = .ok (.file (.text "a") 5) ∧
      halfMadeSite.files.exists? (everyDocument.pageOf "src/b.md") = false := by decide +kernel
  refine ⟨(skipped_has_page_iff ha).1.2 (.inr ⟨fun _ => Nat.one_pos, fun time h => ?_⟩),
    ((skipped_has_page_iff hb).2 hnone).2 (.inr Nat.one_pos)⟩
  rw [hpage] at h
  cases h

/-- A site of one document, dated at time zero and without a page. -/
def undatedSite : World where
  files := .ofEntries [
    (⟨false, ["out"]⟩, .directory 1),
    (⟨false, ["out", "styles"]⟩, .directory 1),
    (⟨false, ["out", "styles", "template.html"]⟩, .file (.text "{document}") 1),
    (⟨false, ["src"]⟩, .directory 1),
    (⟨false, ["src", "a.md"]⟩, .file (.text "# A") 0)]
  clock := 10
  web := fun _ => .dropped
  requests := []
  progress := []

/-- A document without a page is skipped for being dated at time zero. -/
theorem skipped_without_page :
    undatedSite.files.stat "src/a.md" = .ok (.file (.text "# A") 0) ∧
      undatedSite.files.exists? (everyDocument.pageOf "src/a.md") = false ∧
      (Run.result (buildDocument everyDocument "src/a.md") undatedSite).1.toOption =
        some (.skipped "a.md") ∧
      (Run.result (buildDocument everyDocument "src/a.md") undatedSite).2.files.exists?
        (everyDocument.pageOf "src/a.md") = false := by decide +kernel

end

end LiterateJournal
