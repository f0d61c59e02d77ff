import LiterateJournal.Proofs.Site.Alike
import Mathlib.Data.List.Nodup

/-!
# Independent documents

The documents of a build are processed one after another. Each is processed as it would have been
alone, and in any order, just if those that share a page agree about it. The link definitions in a
document come in the same order each time, whichever order the settings have for it.

## Main definitions

* `Independent` — every document was processed as if alone, and can be so in any order.
* `Settings.PagesAgree`, `Settings.TwinsAgree` — documents that share a page agree about it.

## Main statements

* `processed_of_twinsAgree`, `returns_of_twinsAgree` — documents that agree are processed as alone.
* `BuildStages.pageContent?_of_ownPages` — the page that a document has after a build is the one
  that it has alone, if no other document has it.
* `documents_independent_iff` — when the documents of a build are independent.
-/

namespace LiterateJournal

/-- The making of the page of `q` changes nothing for `p`: it leaves `p` as stale as it is, and the
page of `p` would be the same. A page that is made is newer than all that is not dated later than
the clock. -/
structure Settings.PagesAgree (s : Settings) (start : World) (p q : String) : Prop where
  staleness : s.overwrite = true ∨
    (s.needsPage start.files p = true ↔ start.clock < start.files.modified p)
  content : s.pageAlone? start.files p = s.pageAlone? start.files q

/-- Documents with the same page agree about it, if it is made for one of them. -/
def Settings.TwinsAgree (s : Settings) (start : World) (docs : List String) : Prop :=
  ∀ p ∈ docs, ∀ q ∈ docs, p ≠ q → pageName p = pageName q →
    (s.parts? start.files q).isSome = true → s.PagesAgree start p q

def Settings.totalTime (s : Settings) (files : FileTree) (paths : List String) : Nat :=
  ((paths.filterMap (s.parts? files)).map PageParts.time).sum

theorem totalTime_append (s : Settings) (files : FileTree) (paths others : List String) :
    s.totalTime files (paths ++ others) = s.totalTime files paths + s.totalTime files others := by
  simp [Settings.totalTime]

theorem totalTime_perm {s : Settings} {files : FileTree} {paths others : List String}
    (h : paths.Perm others) : s.totalTime files paths = s.totalTime files others :=
  ((h.filterMap _).map _).sum_nat

section

variable {s : Settings} {l : Location} {start v v' : World} {docs done paths : List String}
  {path : String} {o : Outcome} {outcomes : List Outcome}

theorem PagesMade.stat_eq (h : PagesMade s l start done v) (hst : DocumentsStage s l start docs)
    (hp : path ∈ docs) : v.files.stat path = start.files.stat path := by
  obtain ⟨m, x, hat⟩ := hst.sourceAt path hp
  exact h.stat_source hat fun hlatex => hst.apart hlatex m hat.root

theorem PagesMade.returns_buildDocument (h : PagesMade s l start done v)
    (hst : DocumentsStage s l start docs) (hp : path ∈ docs) :
    Run.Returns (buildDocument s path) v o v' ↔ Processed s l path v o v' :=
  LiterateJournal.returns_buildDocument (h.evolves.directoryAt hst.output) (hst.isSource hp)

theorem DocumentsStage.returns_buildDocument (hst : DocumentsStage s l start docs)
    (hp : path ∈ docs) :
    Run.Returns (buildDocument s path) start o v ↔ Processed s l path start o v :=
  LiterateJournal.returns_buildDocument hst.output (hst.isSource hp)

/-- A document whose page is as old as before is processed as it would have been alone. -/
theorem PagesMade.alone (h : PagesMade s l start done v) (hst : DocumentsStage s l start docs)
    (hp : path ∈ docs) (hneeds : s.needsPage v.files path = s.needsPage start.files path)
    (hprocessed : Processed s l path v o v') : ∃ u, Processed s l path start o u :=
  hprocessed.transfer h.alike.symm hneeds.symm (read_eq_of_stat_eq (h.stat_eq hst hp)).symm
    (h.readText_template hst.styles).symm

theorem PagesMade.of_alone (h : PagesMade s l start done v) (hst : DocumentsStage s l start docs)
    (hp : path ∈ docs) (hneeds : s.needsPage v.files path = s.needsPage start.files path)
    {u : World} (halone : Processed s l path start o u) : ∃ v', Processed s l path v o v' :=
  halone.transfer h.alike hneeds (read_eq_of_stat_eq (h.stat_eq hst hp))
    (h.readText_template hst.styles)

theorem PagesMade.next (h : PagesMade s l start done v) (hst : DocumentsStage s l start docs)
    (hp : path ∈ docs) (hneeds : s.needsPage v.files path = s.needsPage start.files path)
    (hprocessed : Processed s l path v o v') : PagesMade s l start (done ++ [path]) v' :=
  h.step hst.output hprocessed hneeds (read_eq_of_stat_eq (h.stat_eq hst hp))
    (h.readText_template hst.styles)

/-- A document that agrees with those before it is as stale as before. -/
theorem PagesMade.needsPage_eq (h : PagesMade s l start done v)
    (hst : DocumentsStage s l start docs) (hdone : ∀ q ∈ done, q ∈ docs)
    (htwins : s.TwinsAgree start docs) (hp : path ∈ docs) (hnew : path ∉ done)
    (hdated : start.files.modified path ≤ start.clock ∨ v.clock < start.files.modified path) :
    s.needsPage v.files path = s.needsPage start.files path := by
  have hsource := hst.isSource hp
  have hmodified := modified_eq_of_stat_eq (h.stat_eq hst hp)
  by_cases hmade : ∃ q ∈ done, pageStem q = pageStem path ∧
      (s.parts? start.files q).isSome = true
  · obtain ⟨q, hq, hstem, hparts⟩ := hmade
    have hne : path ≠ q := by
      rintro rfl
      exact hnew hq
    obtain ⟨time, htime, hlater, hearlier⟩ :=
      h.exists_modified_page hst.output hsource hq hparts hstem
    have hagree := htwins path hp q (hdone q hq) hne (pageName_inj.2 hstem.symm) hparts
    rw [Bool.eq_iff_iff]
    obtain hoverwrite | hstale := hagree.staleness
    · simp [needsPage_eq_true_iff, hoverwrite]
    · rw [hstale, needsPage_eq_true_iff, htime, hmodified]
      cases hoverwrite : s.overwrite with
      | true =>
        have hneeds : s.needsPage start.files path = true :=
          needsPage_eq_true_iff.2 (.inl hoverwrite)
        simp [hstale.1 hneeds]
      | false =>
        simp only [Bool.false_eq_true, false_or]
        omega
  · have hpage := h.modified_page_eq hst.output hsource fun q hq hparts hstem =>
      hmade ⟨q, hq, hstem, hparts⟩
    rw [Bool.eq_iff_iff, needsPage_eq_true_iff, needsPage_eq_true_iff, hpage, hmodified]

/-- Documents that are all processed as if alone. -/
theorem PagesMade.of_returns (h : PagesMade s l start done v)
    (hst : DocumentsStage s l start docs) (hpaths : ∀ p ∈ paths, p ∈ docs)
    (hret : Run.Returns (buildDocuments s paths) v outcomes v')
    (halone : ∀ p o, (p, o) ∈ paths.zip outcomes → ∃ u, Processed s l p start o u) :
    PagesMade s l start (done ++ paths) v' := by
  induction paths generalizing v done outcomes with
  | nil =>
    obtain ⟨rfl, rfl⟩ := returns_buildDocuments_nil.1 hret
    rwa [List.append_nil]
  | cons path paths ih =>
    obtain ⟨o, x, rest, ho, -, hrest, rfl⟩ := returns_buildDocuments_cons.1 hret
    have hp := hpaths path List.mem_cons_self
    have hprocessed := (h.returns_buildDocument hst hp).1 ho
    obtain ⟨u, hu⟩ := halone path o List.mem_cons_self
    have hnext := h.next hst hp (by rw [hprocessed.needsPage_eq, hu.needsPage_eq]) hprocessed
    rw [List.append_cons]
    exact ih hnext (fun p hp => hpaths p (List.mem_cons_of_mem _ hp)) hrest
      fun p o hmem => halone p o (List.mem_cons_of_mem _ hmem)

/-- Documents that are as stale as before when their turn comes are processed as if alone. -/
theorem processed_of_needsPage (h : PagesMade s l start done v)
    (hst : DocumentsStage s l start docs) (hdocs : ∀ p ∈ done ++ paths, p ∈ docs)
    (hret : Run.Returns (buildDocuments s paths) v outcomes v')
    (hneeds : ∀ before p after x, done ++ paths = before ++ p :: after →
      PagesMade s l start before x → x.clock ≤ v'.clock →
      s.needsPage x.files p = s.needsPage start.files p) :
    ∀ p o, (p, o) ∈ paths.zip outcomes → ∃ u, Processed s l p start o u := by
  induction paths generalizing v done outcomes with
  | nil => simp
  | cons path paths ih =>
    have hlater := (evolves_buildDocuments (h.evolves.directoryAt hst.output)
      (fun q hq => hst.isSource (hdocs q (List.mem_append_right _ hq))) hret).clock
    obtain ⟨o, x, rest, ho, -, hrest, rfl⟩ := returns_buildDocuments_cons.1 hret
    have hp := hdocs path (by simp)
    have hprocessed := (h.returns_buildDocument hst hp).1 ho
    have hsame := hneeds done path paths v rfl h hlater
    have hrest' := ih (h.next hst hp hsame hprocessed) (by rwa [← List.append_cons]) hrest
      (by rwa [← List.append_cons])
    intro p o' hmem
    obtain heq | hmem := List.mem_cons.1 hmem
    · cases heq
      exact h.alone hst hp hsame hprocessed
    · exact hrest' p o' hmem

/-- Documents that agree with those before them are processed as if alone. -/
theorem processed_of_twinsAgree (h : PagesMade s l start done v)
    (hst : DocumentsStage s l start docs) (htwins : s.TwinsAgree start docs)
    (hdocs : ∀ p ∈ done ++ paths, p ∈ docs) (hnodup : (done ++ paths).Nodup)
    (hret : Run.Returns (buildDocuments s paths) v outcomes v')
    (hdated : ∀ p ∈ docs, start.files.modified p ≤ start.clock ∨
      v'.clock < start.files.modified p) :
    ∀ p o, (p, o) ∈ paths.zip outcomes → ∃ u, Processed s l p start o u := by
  refine processed_of_needsPage h hst hdocs hret fun before p after x hsplit hx hclock => ?_
  rw [hsplit] at hdocs hnodup
  have hp := hdocs p (by simp)
  have hnew : p ∉ before := fun hmem =>
    (List.nodup_append.1 hnodup).2.2 p hmem p List.mem_cons_self rfl
  exact hx.needsPage_eq hst (fun q hq => hdocs q (by simp [hq])) htwins hp hnew
    ((hdated p hp).imp_right fun hfuture => by omega)

/-- Documents with pages of their own are processed as if alone. -/
theorem processed_of_ownPages (h : PagesMade s l start done v)
    (hst : DocumentsStage s l start docs) (hdocs : ∀ p ∈ done ++ paths, p ∈ docs)
    (hown : ((done ++ paths).map pageStem).Nodup)
    (hret : Run.Returns (buildDocuments s paths) v outcomes v') :
    ∀ p o, (p, o) ∈ paths.zip outcomes → ∃ u, Processed s l p start o u := by
  refine processed_of_needsPage h hst hdocs hret fun before p after x hsplit hx _ => ?_
  rw [hsplit] at hdocs hown
  have hp := hdocs p (by simp)
  have hpage := hx.modified_page_eq hst.output (hst.isSource hp) fun q hq _ hstem => by
    rw [List.map_append] at hown
    exact (List.nodup_append.1 hown).2.2 _ (List.mem_map_of_mem hq) _
      (List.mem_map_of_mem List.mem_cons_self) hstem
  rw [Bool.eq_iff_iff, needsPage_eq_true_iff, needsPage_eq_true_iff, hpage,
    modified_eq_of_stat_eq (hx.stat_eq hst hp)]

/-- Documents that agree can be processed in any order. -/
theorem returns_of_twinsAgree (paths : List String) (bound : Nat) (h : PagesMade s l start done v)
    (hst : DocumentsStage s l start docs) (htwins : s.TwinsAgree start docs)
    (hdocs : ∀ p ∈ done ++ paths, p ∈ docs) (hnodup : (done ++ paths).Nodup)
    (halone : ∀ p ∈ docs, ∃ o u, Processed s l p start o u ∧
      ¬ (s.errorPolicy = .abort ∧ o.isFailed = true))
    (hbound : start.clock + s.totalTime start.files (done ++ paths) ≤ bound)
    (hdated : ∀ p ∈ docs, start.files.modified p ≤ start.clock ∨
      bound < start.files.modified p) :
    ∃ outcomes v', Run.Returns (buildDocuments s paths) v outcomes v' ∧
      ∀ p o, (p, o) ∈ paths.zip outcomes → ∃ u, Processed s l p start o u := by
  induction paths generalizing v done with
  | nil => exact ⟨[], v, returns_buildDocuments_nil.2 ⟨rfl, rfl⟩, by simp⟩
  | cons path paths ih =>
    have hp := hdocs path (by simp)
    have hnew : path ∉ done := fun hmem =>
      (List.nodup_append.1 hnodup).2.2 path hmem path List.mem_cons_self rfl
    have hneeds := h.needsPage_eq hst (fun q hq => hdocs q (by simp [hq])) htwins hp hnew
      ((hdated path hp).imp_right fun hfuture => by
        have hclock : v.clock = start.clock + s.totalTime start.files done := h.clock
        rw [totalTime_append] at hbound
        omega)
    obtain ⟨o, u, hu, hpolicy⟩ := halone path hp
    obtain ⟨x, hx⟩ := h.of_alone hst hp hneeds hu
    obtain ⟨rest, v', hrest, hzip⟩ := ih (h.next hst hp hneeds hx) (by rwa [← List.append_cons])
      (by rwa [← List.append_cons]) (by rwa [← List.append_cons])
    have ho := (h.returns_buildDocument hst hp).2 hx
    refine ⟨o :: rest, v', returns_buildDocuments_cons.2 ⟨o, x, rest, ho, hpolicy, hrest, rfl⟩, ?_⟩
    intro p o' hmem
    obtain heq | hmem := List.mem_cons.1 hmem
    · cases heq
      exact ⟨u, hu⟩
    · exact hzip p o' hmem

end

/-! ### The documents of a build -/

/-- Documents are processed as if each was alone, in the order of the build and in any other. -/
structure Independent (s : Settings) (start w' : World) (docs : List String)
    (outcomes : List Outcome) : Prop where
  alone : ∀ p o, (p, o) ∈ docs.zip outcomes → ∃ u, Run.Returns (buildDocument s p) start o u ∧
    s.pageContent? u.files p = s.pageContent? w'.files p
  anyOrder : ∀ order : List String, order.Perm docs →
    ∃ outcomes' v, Run.Returns (buildDocuments s order) start outcomes' v ∧
      ∀ p o, (p, o) ∈ order.zip outcomes' → (p, o) ∈ docs.zip outcomes ∧
        s.pageContent? v.files p = s.pageContent? w'.files p

section

variable {s : Settings} {l : Location} {start v w built w' u : World} {docs : List String}
  {p : String} {o o' : Outcome} {r : BuildReport}

theorem exists_mem_zip {outcomes : List Outcome} (h : outcomes.length = docs.length)
    (hp : p ∈ docs) : ∃ o, (p, o) ∈ docs.zip outcomes := by
  rw [← List.map_fst_zip (Nat.le_of_eq h.symm)] at hp
  obtain ⟨⟨_, o⟩, hmem, rfl⟩ := List.mem_map.1 hp
  exact ⟨o, hmem⟩

/-- The page of a document that is processed alone. -/
theorem Processed.pageContent?_eq (h : Processed s l p start o u)
    (hst : DocumentsStage s l start docs) (hp : p ∈ docs) :
    s.pageContent? u.files p = s.pageAlone? start.files p := by
  have hmade := (pagesMade_refl s l start).next hst hp rfl h
  refine hmade.pageContent?_eq hst.output (hst.isSource hp) (by simp) ?_
  intro q hq hne
  exact absurd (by simpa using hq) hne

theorem Processed.outcome_unique (h : Processed s l p start o u) {u' : World}
    (h' : Processed s l p start o' u') (hst : DocumentsStage s l start docs) (hp : p ∈ docs) :
    o = o' :=
  (Run.Returns.unique ((hst.returns_buildDocument hp).2 h) ((hst.returns_buildDocument hp).2 h')).1

/-- A document whose page has just been made for another one, and which is as stale as before, is
stale just if it is dated later than the clock. -/
theorem PagesMade.needsPage_iff_of_twin {q : String} (h : PagesMade s l start [q] v)
    (hst : DocumentsStage s l start docs) (hp : p ∈ docs) (hoverwrite : s.overwrite = false)
    (hparts : (s.parts? start.files q).isSome = true) (hname : pageName p = pageName q)
    (hneeds : s.needsPage v.files p = s.needsPage start.files p)
    (hdated : start.files.modified p ≤ start.clock ∨
      start.clock + s.totalTime start.files [q] < start.files.modified p) :
    s.needsPage start.files p = true ↔ start.clock < start.files.modified p := by
  obtain ⟨time, htime, hlater, hearlier⟩ := h.exists_modified_page hst.output
    (hst.isSource hp) (by simp) hparts (pageName_inj.1 hname.symm)
  have hclock : v.clock = start.clock + s.totalTime start.files [q] := h.clock
  rw [← hneeds, needsPage_eq_true_iff, hoverwrite, htime,
    modified_eq_of_stat_eq (h.stat_eq hst hp)]
  simp only [Bool.false_eq_true, false_or]
  omega

/-- After all documents, whatever their order, each page is the one made alone. -/
theorem PagesMade.pageContent?_of_twinsAgree {order : List String} (h : PagesMade s l start order v)
    (hst : DocumentsStage s l start docs) (htwins : s.TwinsAgree start docs)
    (horder : order.Perm docs) (hp : p ∈ docs) :
    s.pageContent? v.files p = s.pageAlone? start.files p := by
  refine h.pageContent?_eq hst.output (hst.isSource hp) (horder.mem_iff.2 hp) ?_
  intro q hq hne hstem hparts
  exact (htwins p hp q (horder.mem_iff.1 hq) (Ne.symm hne) (pageName_inj.2 hstem.symm)
    hparts).content

/-- Independent documents that share a page agree about it. -/
theorem twinsAgree_of_independent {outcomes : List Outcome} (hst : DocumentsStage s l start docs)
    (hret : Run.Returns (buildDocuments s docs) v outcomes built)
    (hnil : PagesMade s l start [] v) (hclock : built.clock ≤ w'.clock)
    (hdated : ∀ p ∈ docs, start.files.modified p ≤ start.clock ∨
      w'.clock < start.files.modified p)
    (h : Independent s start w' docs outcomes) : s.TwinsAgree start docs := by
  have hlength := length_of_returns_buildDocuments hret
  have hall := hnil.of_returns hst (fun p hp => hp) hret fun p o hmem => by
    obtain ⟨u, hu, -⟩ := h.alone p o hmem
    exact ⟨u, (hst.returns_buildDocument (List.of_mem_zip hmem).1).1 hu⟩
  have hpage {p : String} (hp : p ∈ docs) :
      s.pageContent? w'.files p = s.pageAlone? start.files p := by
    obtain ⟨o, hmem⟩ := exists_mem_zip hlength hp
    obtain ⟨u, hu, hsame⟩ := h.alone p o hmem
    rw [← hsame, ((hst.returns_buildDocument hp).1 hu).pageContent?_eq hst hp]
  intro p hp q hq hne hname hparts
  refine ⟨?_, ?_⟩
  · cases hoverwrite : s.overwrite with
    | true => exact .inl rfl
    | false =>
      right
      -- first `q` is processed, and then `p`
      have hpq : p ∈ docs.erase q := (List.mem_erase_of_ne hne).2 hp
      have horder : docs.Perm (q :: p :: (docs.erase q).erase p) :=
        (List.perm_cons_erase hq).trans ((List.perm_cons_erase hpq).cons q)
      obtain ⟨outcomes', v', hreturns, hzip⟩ := h.anyOrder _ horder.symm
      obtain ⟨oq, x, rest, hoq, -, hrest, rfl⟩ := returns_buildDocuments_cons.1 hreturns
      obtain ⟨op, y, rest, hop, -, -, rfl⟩ := returns_buildDocuments_cons.1 hrest
      have hx := (pagesMade_refl s l start).next hst hq rfl
        ((hst.returns_buildDocument hq).1 hoq)
      obtain ⟨u, hu, -⟩ := h.alone p op (hzip p op (by simp)).1
      have hneeds : s.needsPage x.files p = s.needsPage start.files p := by
        rw [((hx.returns_buildDocument hst hp).1 hop).needsPage_eq,
          ((hst.returns_buildDocument hp).1 hu).needsPage_eq]
      have hbuilt : built.clock = start.clock + s.totalTime start.files docs := hall.clock
      rw [totalTime_perm horder, ← List.singleton_append, totalTime_append] at hbuilt
      exact hx.needsPage_iff_of_twin hst hp hoverwrite hparts hname hneeds
        ((hdated p hp).imp_right fun hfuture => by omega)
  · rw [← hpage hp, ← hpage hq, Settings.pageContent?, Settings.pageContent?, hname]

/-- Documents that agree about the pages they share are independent. -/
theorem independent_of_twinsAgree {outcomes : List Outcome} (hst : DocumentsStage s l start docs)
    (hret : Run.Returns (buildDocuments s docs) v outcomes built)
    (hnil : PagesMade s l start [] v) (hclock : built.clock ≤ w'.clock) (hnodup : docs.Nodup)
    (hdated : ∀ p ∈ docs, start.files.modified p ≤ start.clock ∨
      w'.clock < start.files.modified p)
    (hsame : ∀ p ∈ docs, s.pageContent? w'.files p = s.pageContent? built.files p)
    (htwins : s.TwinsAgree start docs) : Independent s start w' docs outcomes := by
  have hlength := length_of_returns_buildDocuments hret
  have halone := processed_of_twinsAgree hnil hst htwins (fun p hp => hp) hnodup hret
    fun p hp => (hdated p hp).imp_right fun hfuture => by omega
  have hall := hnil.of_returns hst (fun p hp => hp) hret halone
  have hw' {p : String} (hp : p ∈ docs) :
      s.pageContent? w'.files p = s.pageAlone? start.files p := by
    rw [hsame p hp, hall.pageContent?_of_twinsAgree hst htwins (.refl docs) hp]
  refine ⟨fun p o hmem => ?_, fun order horder => ?_⟩
  · have hp := (List.of_mem_zip hmem).1
    obtain ⟨u, hu⟩ := halone p o hmem
    exact ⟨u, (hst.returns_buildDocument hp).2 hu, by rw [hw' hp, hu.pageContent?_eq hst hp]⟩
  · have hstart := pagesMade_refl s l start
    have hdone : ∀ p ∈ docs, ∃ o u, Processed s l p start o u ∧
        ¬ (s.errorPolicy = .abort ∧ o.isFailed = true) := by
      intro p hp
      obtain ⟨o, hmem⟩ := exists_mem_zip hlength hp
      obtain ⟨u, hu⟩ := halone p o hmem
      exact ⟨o, u, hu, goesOn_of_returns hret o (List.of_mem_zip hmem).2⟩
    have hbuilt : built.clock = start.clock + s.totalTime start.files docs := hall.clock
    obtain ⟨outcomes', x, hx, hzip⟩ := returns_of_twinsAgree order w'.clock hstart hst htwins
      (fun p hp => horder.mem_iff.1 hp) (horder.nodup_iff.2 hnodup) hdone
      (by rw [List.nil_append, totalTime_perm horder]; omega) hdated
    have hmade := hstart.of_returns hst (fun p hp => horder.mem_iff.1 hp) hx hzip
    refine ⟨outcomes', x, hx, fun p o hmem => ?_⟩
    have hp := horder.mem_iff.1 (List.of_mem_zip hmem).1
    obtain ⟨u, hu⟩ := hzip p o hmem
    obtain ⟨o', hmem'⟩ := exists_mem_zip hlength hp
    obtain ⟨u', hu'⟩ := halone p o' hmem'
    obtain rfl := hu.outcome_unique hu' hst hp
    exact ⟨hmem', by rw [hw' hp, hmade.pageContent?_of_twinsAgree hst htwins horder hp]⟩

/-- The choice of the entry leaves the pages of the documents as they are. -/
theorem BuildStages.pageContent?_eq (h : BuildStages s w start built r w')
    (hl : Prepared s w start l) (hp : p ∈ s.documents start.files) :
    s.pageContent? w'.files p = s.pageContent? built.files p := by
  have hsource := isSource_of_mem_documents hp
  have hstem := isPageStem_of_isSource hsource
  have hbuilt := (h.evolves hl).directoryAt hl.output
  obtain ⟨-, hfiles⟩ | ⟨hchosen, -⟩ := h.landing_cases hl
  · rw [hfiles]
  · have hindex : pageStem p ≠ "index" := by
      intro hindex
      exact defaultSource?_ne_none (mem_sources_of_mem_documents hp) hsource
        (pageName_eq_indexName_iff.2 hindex) (entryChoice?_eq_none_iff.1 hchosen).no_default
    unfold Settings.pageContent? FileTree.contentAt?
    rw [pageName_eq, resolve_page (h.directoryAt_output hl) hstem, ← resolve_page hbuilt hstem]
    split
    · rename_i k hk
      exact FileTree.content?_eq_of_get?_eq ((h.evolves_landing hl).kept k
        (not_pageChanges_page (page_location hbuilt hstem hk) hindex))
    · rfl

theorem BuildStages.processed_of_ownPages (h : BuildStages s w start built r w')
    (hst : DocumentsStage s l start (s.documents start.files))
    (hown : ((s.documents start.files).map pageStem).Nodup) :
    ∀ p o, (p, o) ∈ (s.documents start.files).zip r.outcomes → ∃ u, Processed s l p start o u :=
  LiterateJournal.processed_of_ownPages (v := start.report _) (pagesMade_nil rfl rfl rfl) hst
    (fun _ => id) hown h.documents

/-- Documents with pages of their own have the pages after a build that they would have alone. -/
theorem BuildStages.pageContent?_of_ownPages (h : BuildStages s w start built r w')
    (hl : Prepared s w start l) (hst : DocumentsStage s l start (s.documents start.files))
    (hown : ((s.documents start.files).map pageStem).Nodup) (hp : p ∈ s.documents start.files) :
    s.pageContent? w'.files p = s.pageAlone? start.files p := by
  have hnil (progress : Progress) : PagesMade s l start [] (start.report progress) :=
    pagesMade_nil rfl rfl rfl
  have hmade := (hnil _).of_returns hst (fun _ => id) h.documents (h.processed_of_ownPages hst hown)
  rw [h.pageContent?_eq hl hp]
  refine hmade.pageContent?_eq hst.output (hst.isSource hp) hp fun q hq hne hstem => ?_
  exact absurd (List.inj_on_of_nodup_map hown hq hp hstem) hne

end

/-- The documents of a build are independent just if those that share a page agree about it. -/
theorem documents_independent_iff {s : Settings} {w w' : World} {r : BuildReport}
    (hb : Run.Returns (build s) w r w') (hw : w.files.WellFormed)
    (hapart : s.format = .latex → ∀ m, (w.prepared s).files.DirectoryAt s.root m →
      ¬ (w.prepared s).files.DirectoryAt (Path.join s.output savedDirectory) m)
    (hdated : ∀ p ∈ s.documents (w.prepared s).files,
      (w.prepared s).files.modified p ≤ (w.prepared s).clock ∨
        w'.clock < (w.prepared s).files.modified p) :
    Independent s (w.prepared s) w' (s.documents (w.prepared s).files) r.outcomes ↔
      s.TwinsAgree (w.prepared s) (s.documents (w.prepared s).files) := by
  obtain ⟨start, built, h⟩ := returns_build.1 hb
  obtain rfl := prepared_eq h.prepared
  obtain ⟨l, hl⟩ := prepared_of_returns hw h.prepared
  have hst := hl.documentsStage hw hapart
  have hnil (progress : Progress) :
      PagesMade s l (w.prepared s) [] ((w.prepared s).report progress) := pagesMade_nil rfl rfl rfl
  have hclock := (h.evolves_landing hl).clock
  have hnodup := (nodup_sources (s := s) (hl.fills.files.wellFormed hw)).filter
    fun path => s.isListed (sourceName path)
  exact ⟨twinsAgree_of_independent hst h.documents (hnil _) hclock hdated,
    independent_of_twinsAgree hst h.documents (hnil _) hclock hnodup hdated
      fun p hp => h.pageContent?_eq hl hp⟩

def twinSettings : Settings where
  root := "src"
  output := "out"

/-- A site of a script and a text of the same name. -/
def twinSite : World where
  files := .ofEntries [
    (⟨false, ["out"]⟩, .directory 1),
    (⟨false, ["out", "styles"]⟩, .directory 1),
    (⟨false, ["out", "styles", "template.html"]⟩, .file (.text "\x7bdocument\x7d") 1),
    (⟨false, ["src"]⟩, .directory 1),
    (⟨false, ["src", "a.fsx"]⟩, .file (.text "(** # S *)") 1),
    (⟨false, ["src", "a.md"]⟩, .file (.text "# M") 1)]
  clock := 10
  web := fun _ => .dropped
  requests := []
  progress := []

theorem wellFormed_twinSite : twinSite.files.WellFormed :=
  FileTree.wellFormed_ofEntries (by decide)

/-- The script gets a page and the text is skipped, though alone it would not be. -/
theorem result_twinSite :
    let start := twinSite.prepared twinSettings
    (Run.result (build twinSettings) twinSite).1.toOption.map
        (fun r => r.outcomes.map Outcome.isSkipped) = some [false, true] ∧
      twinSettings.documents start.files = ["src/a.fsx", "src/a.md"] ∧
      (∀ p ∈ twinSettings.documents start.files, start.files.modified p ≤ start.clock) ∧
      (Run.result (buildDocument twinSettings "src/a.md") start).1.toOption.map
        Outcome.isSkipped = some false := by decide +kernel

theorem documents_twinSite_independent_iff : ∃ r w',
    Run.Returns (build twinSettings) twinSite r w' ∧
      (Independent twinSettings (twinSite.prepared twinSettings) w'
          (twinSettings.documents (twinSite.prepared twinSettings).files) r.outcomes ↔
        twinSettings.TwinsAgree (twinSite.prepared twinSettings)
          (twinSettings.documents (twinSite.prepared twinSettings).files)) := by
  obtain ⟨hresult, -, hdated, -⟩ := result_twinSite
  obtain ⟨r, hr, -⟩ := Run.exists_returns hresult
  exact ⟨r, _, hr, documents_independent_iff hr wellFormed_twinSite (fun hlatex => by cases hlatex)
    fun p hp => .inl (hdated p hp)⟩

/-- The page of one document may keep another one from being made. -/
theorem documents_dependent : ¬ ∀ (s : Settings) (w w' : World) (r : BuildReport),
    Run.Returns (build s) w r w' → w.files.WellFormed →
    Independent s (w.prepared s) w' (s.documents (w.prepared s).files) r.outcomes := by
  intro h
  obtain ⟨hresult, hdocuments, -, halone⟩ := result_twinSite
  obtain ⟨r, hr, hskipped⟩ := Run.exists_returns hresult
  have hall := h twinSettings twinSite _ r hr wellFormed_twinSite
  obtain ⟨o, rest, houtcomes, -, hrest⟩ := List.map_eq_cons_iff.1 hskipped
  obtain ⟨o', rest', rfl, ho', -⟩ := List.map_eq_cons_iff.1 hrest
  obtain ⟨u, hu, -⟩ := hall.alone "src/a.md" o' (by rw [hdocuments, houtcomes]; simp)
  simp [hu.toOption_eq, ho'] at halone

end LiterateJournal
