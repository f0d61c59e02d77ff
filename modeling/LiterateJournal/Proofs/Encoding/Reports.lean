import LiterateJournal.Encoding.Report
import LiterateJournal.Proofs.Encoding.Shapes

/-!
# Reports are read back from JSON

The errors of documents, pages, outcomes and reports of builds can be printed as JSON texts, and are
what is read from their encodings, as long as their numbers are in range. All that is read is.

## Main definitions

* `DocumentError.InRange`, `Outcome.InRange`, `BuildReport.InRange` — all numbers are in range.

## Main statements

* `DocumentError.ofJson?_toJson`, `PageEntry.ofJson?_toJson`, `Outcome.ofJson?_toJson`,
  `BuildReport.ofJson?_toJson` — what is encoded is read back.
* `DocumentError.inRange_of_ofJson?`, `Outcome.inRange_of_ofJson?`,
  `BuildReport.inRange_of_ofJson?` — what is read is in range.
-/

namespace LiterateJournal

open Json

def DocumentError.InRange : DocumentError → Prop
  | .evaluation _ snippet _ => snippet < countBound
  | _ => True

def Outcome.InRange : Outcome → Prop
  | .failed _ error => error.InRange
  | _ => True

structure BuildStats.InRange (s : BuildStats) : Prop where
  discovered : s.discovered < countBound
  eligible : s.eligible < countBound
  generated : s.generated < countBound
  skipped : s.skipped < countBound
  failed : s.failed < countBound
  assetsCopied : s.assetsCopied < countBound
  milliseconds : s.milliseconds < countBound

structure BuildReport.InRange (r : BuildReport) : Prop where
  outcomes : ∀ o ∈ r.outcomes, o.InRange
  stats : r.stats.InRange

/-! ### Errors of documents -/

@[simp] theorem DocumentError.isPlain_toJson (e : DocumentError) : e.toJson.IsPlain := by
  cases e <;> simp [DocumentError.toJson]

theorem DocumentError.ofJson?_toJson {e : DocumentError} (h : e.InRange) :
    DocumentError.ofJson? e.toJson = some e := by
  cases e with
  | readFailed path detail => rfl
  | evaluation path snippet message =>
    have hsnippet := number?_of_lt h
    simp [DocumentError.toJson, DocumentError.ofJson?, DocumentError.ofCase?, required?,
      hsnippet]
  | parse path detail => rfl

/-- What is written has no fields in a list. -/
theorem DocumentError.ofField?_toJson (e : DocumentError) :
    DocumentError.ofField? e.toJson = DocumentError.ofJson? e.toJson := by cases e <;> rfl

theorem lt_of_number? {bound n : Nat} {j : Json} (h : j.number? bound = some n) : n < bound := by
  cases j with
  | number m =>
    obtain ⟨hm, hmn⟩ := Option.ite_none_right_eq_some.1 h
    exact Option.some.inj hmn ▸ hm
  | _ => cases h

theorem lt_of_required?_number? {bound n : Nat} {name : String} {j : Json}
    (h : j.required? name (Json.number? bound) = some n) : n < bound := by
  obtain ⟨k, -, hk⟩ := Option.bind_eq_some_iff.1 h
  exact lt_of_number? hk

theorem DocumentError.inRange_of_ofCase? {name : String} {content : Json} {e : DocumentError}
    (h : DocumentError.ofCase? name content = some e) : e.InRange := by
  simp only [DocumentError.ofCase?, Option.bind_eq_bind, Option.bind_eq_some_iff] at h
  obtain ⟨path, -, h⟩ := h
  split at h
  · obtain ⟨detail, -, rfl⟩ := Option.map_eq_some_iff.1 h
    trivial
  · obtain ⟨snippet, hsnippet, h⟩ := Option.bind_eq_some_iff.1 h
    obtain ⟨message, -, rfl⟩ := Option.map_eq_some_iff.1 h
    exact lt_of_required?_number? hsnippet
  · obtain ⟨detail, -, rfl⟩ := Option.map_eq_some_iff.1 h
    trivial
  · cases h

theorem DocumentError.inRange_of_ofJson? {j : Json} {e : DocumentError}
    (h : DocumentError.ofJson? j = some e) : e.InRange := by
  obtain ⟨_, -, h⟩ := Option.bind_eq_some_iff.1 h
  exact DocumentError.inRange_of_ofCase? h

theorem DocumentError.inRange_of_ofField? {j : Json} {e : DocumentError}
    (h : DocumentError.ofField? j = some e) : e.InRange := by
  obtain ⟨_, -, h⟩ := Option.bind_eq_some_iff.1 h
  exact DocumentError.inRange_of_ofCase? h

/-! ### Pages and outcomes -/

@[simp] theorem PageEntry.isPlain_toJson (e : PageEntry) : e.toJson.IsPlain := by
  simp [PageEntry.toJson]

theorem PageEntry.ofJson?_toJson (e : PageEntry) : PageEntry.ofJson? e.toJson = some e := rfl

@[simp] theorem Outcome.isPlain_toJson (o : Outcome) : o.toJson.IsPlain := by
  cases o <;> simp [Outcome.toJson]

theorem Outcome.ofJson?_toJson {o : Outcome} (h : o.InRange) :
    Outcome.ofJson? o.toJson = some o := by
  cases o with
  | generated name output title => rfl
  | skipped name => rfl
  | failed name error =>
    have herror := (DocumentError.ofField?_toJson error).trans (DocumentError.ofJson?_toJson h)
    simp [Outcome.toJson, Outcome.ofJson?, Outcome.statusOfJson?, withFields, required?,
      herror]

theorem Outcome.inRange_of_ofJson? {j : Json} {o : Outcome} (h : Outcome.ofJson? j = some o) :
    o.InRange := by
  simp only [Outcome.ofJson?, Option.bind_eq_bind, Option.bind_eq_some_iff, Prod.exists] at h
  obtain ⟨status, content, -, h⟩ := h
  split at h
  · simp only [Option.bind_eq_some_iff, Option.some.injEq] at h
    obtain ⟨name, -, output, -, title, -, rfl⟩ := h
    trivial
  · obtain ⟨name, -, rfl⟩ := Option.map_eq_some_iff.1 h
    trivial
  · simp only [Option.bind_eq_some_iff, Option.some.injEq] at h
    obtain ⟨name, -, error, herror, rfl⟩ := h
    obtain ⟨k, -, hk⟩ := Option.bind_eq_some_iff.1 herror
    exact DocumentError.inRange_of_ofField? hk
  · cases h

/-! ### Reports -/

@[simp] theorem BuildStats.isPlain_toJson (s : BuildStats) : s.toJson.IsPlain := by
  simp [BuildStats.toJson]

theorem BuildStats.ofJson?_toJson {s : BuildStats} (h : s.InRange) :
    BuildStats.ofJson? s.toJson = some s := by
  have hobject : s.toJson.withFields ["discovered", "eligible", "generated", "skipped", "failed",
      "assets_copied", "total_duration_ms"] = s.toJson := rfl
  have hcount (name : String) {n : Nat} (hn : n < countBound)
      (hfield : s.toJson.field? name = some (.number n)) :
      s.toJson.required? name (Json.number? countBound) = some n := by
    rw [required?, hfield, Option.bind_some, number?_of_lt hn]
  simp only [BuildStats.ofJson?, hobject, hcount "discovered" h.discovered rfl,
    hcount "eligible" h.eligible rfl, hcount "generated" h.generated rfl,
    hcount "skipped" h.skipped rfl, hcount "failed" h.failed rfl,
    hcount "assets_copied" h.assetsCopied rfl, hcount "total_duration_ms" h.milliseconds rfl,
    Option.bind_eq_bind, Option.bind_some]

theorem BuildStats.inRange_of_ofJson? {j : Json} {s : BuildStats}
    (h : BuildStats.ofJson? j = some s) : s.InRange := by
  simp only [BuildStats.ofJson?, Option.bind_eq_bind, Option.bind_eq_some_iff,
    Option.some.injEq] at h
  obtain ⟨a, ha, b, hb, c, hc, d, hd, e, he, f, hf, g, hg, rfl⟩ := h
  exact ⟨lt_of_required?_number? ha, lt_of_required?_number? hb, lt_of_required?_number? hc,
    lt_of_required?_number? hd, lt_of_required?_number? he, lt_of_required?_number? hf,
    lt_of_required?_number? hg⟩

theorem BuildReport.isPlain_toJson (r : BuildReport) : r.toJson.IsPlain := by
  simp [BuildReport.toJson]

theorem BuildReport.ofJson?_toJson {r : BuildReport} (h : r.InRange) :
    BuildReport.ofJson? r.toJson = some r := by
  have hentries : Json.list? PageEntry.ofJson? (.list (r.entries.map PageEntry.toJson)) =
      some r.entries := list?_map fun e _ => PageEntry.ofJson?_toJson e
  have houtcomes := list?_map fun o ho => Outcome.ofJson?_toJson (h.outcomes o ho)
  simp [BuildReport.toJson, BuildReport.ofJson?, withFields, required?,
    hentries, houtcomes, BuildStats.ofJson?_toJson h.stats]

theorem BuildReport.inRange_of_ofJson? {j : Json} {r : BuildReport}
    (h : BuildReport.ofJson? j = some r) : r.InRange := by
  simp only [BuildReport.ofJson?, Option.bind_eq_bind, Option.bind_eq_some_iff,
    Option.some.injEq] at h
  obtain ⟨entries, -, outcomes, houtcomes, defaultFile, -, stats, hstats, rfl⟩ := h
  obtain ⟨js, -, hjs⟩ := Option.bind_eq_some_iff.1 houtcomes
  obtain ⟨k, -, hk⟩ := Option.bind_eq_some_iff.1 hstats
  refine ⟨fun o ho => ?_, BuildStats.inRange_of_ofJson? hk⟩
  obtain ⟨j, hj⟩ := exists_of_mem_list? hjs ho
  exact Outcome.inRange_of_ofJson? hj

end LiterateJournal
