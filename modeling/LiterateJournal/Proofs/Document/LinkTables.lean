import LiterateJournal.Document.Links
import LiterateJournal.Proofs.Text.Lower
import LiterateJournal.Proofs.Text.SortedTable
import Mathlib.Data.Finset.Card
import Mathlib.Logic.Relation

/-!
# Link tables as maps

However a link table came about, it answers with the last definition that was given for a label of
the same normal form. Labels are brought to their normal form when a definition is added and when
one is looked up, and not when a table is merged into another; that is enough since normal forms are
their own normal forms.

## Main definitions

* `LinkTable.History` — how a table came about, with its definitions in the order they were given.
* `Respelling` — a change of a label's spelling that its normal form does not show.

## Main statements

* `normalizeLabel_eq_joinWith_words` — a normal form is the words of the label in lower case.
* `normalizeLabel_normalizeLabel`, `normalizeLabel_eq_of_respelling` — labels of one normal form.
* `LinkTable.History.get?_entries` — what stands under a normal form.
* `table_holds_last_definitions` — the whole, for every table and every label.
-/

namespace LiterateJournal

open Text

/-! ### Normal forms -/

/-- The normal form of a label is made of its words, in lower case. -/
theorem normalizeLabel_eq_joinWith_words (label : String) : normalizeLabel label =
    String.ofList (joinWith [' '] ((words isBlank label.toList).map lower)) := by
  rw [normalizeLabel, collapseBlanks_trim, squeezeBy_eq_joinWith_words, lower_joinWith]

theorem words_normalizeLabel (label : String) :
    words isBlank (normalizeLabel label).toList = (words isBlank label.toList).map lower := by
  rw [normalizeLabel_eq_joinWith_words, String.toList_ofList]
  refine words_joinWith (by decide) fun w hw => ?_
  obtain ⟨v, hv, rfl⟩ := List.mem_map.1 hw
  exact (isWord_of_mem_words hv).lower

/-- A normal form is its own normal form. -/
theorem normalizeLabel_normalizeLabel (label : String) :
    normalizeLabel (normalizeLabel label) = normalizeLabel label := by
  have hlower : lower ∘ lower = lower := funext lower_lower
  rw [normalizeLabel_eq_joinWith_words (normalizeLabel label), words_normalizeLabel, List.map_map,
    hlower, ← normalizeLabel_eq_joinWith_words]

/-- Another spelling of a label: with white space before or after it, with other white space
between its characters, or with an ASCII letter in another case (`Char.toLower` changes no other
character). -/
inductive Respelling : List Char → List Char → Prop
  | start {gap : List Char} (cs : List Char) (h : ∀ c ∈ gap, isBlank c = true) :
      Respelling cs (gap ++ cs)
  | stop {gap : List Char} (cs : List Char) (h : ∀ c ∈ gap, isBlank c = true) :
      Respelling cs (cs ++ gap)
  | between {gap gap' : List Char} (cs ds : List Char) (hne : gap ≠ []) (hne' : gap' ≠ [])
      (h : ∀ c ∈ gap, isBlank c = true) (h' : ∀ c ∈ gap', isBlank c = true) :
      Respelling (cs ++ gap ++ ds) (cs ++ gap' ++ ds)
  | letter {c d : Char} (cs ds : List Char) (h : c.toLower = d.toLower) :
      Respelling (cs ++ c :: ds) (cs ++ d :: ds)

def plainWords (cs : List Char) : List (List Char) := words isBlank (cs.map Char.toLower)

theorem plainWords_eq_map (cs : List Char) :
    plainWords cs = (words isBlank cs).map (List.map Char.toLower) :=
  words_map fun c => (sameCase_toLower c).blank

theorem Respelling.plainWords_eq {cs ds : List Char} (h : Respelling cs ds) :
    plainWords cs = plainWords ds := by
  cases h with
  | start cs h => rw [plainWords_eq_map, plainWords_eq_map, words_gap_append h]
  | stop cs h => rw [plainWords_eq_map, plainWords_eq_map, words_append_of_gap h]
  | between cs ds hne hne' h h' =>
    rw [plainWords_eq_map, plainWords_eq_map, words_append_gap hne h, words_append_gap hne' h']
  | letter cs ds h => simp [plainWords, h]

/-- The normal form shows no more of a label than its words with ASCII letters in lower case. -/
theorem normalizeLabel_eq_of_plainWords_eq {a b : String}
    (h : plainWords a.toList = plainWords b.toList) : normalizeLabel a = normalizeLabel b := by
  have hlower (label : String) : (words isBlank label.toList).map lower =
      (plainWords label.toList).map lower := by
    rw [plainWords_eq_map, List.map_map]
    exact List.map_congr_left fun w _ => (lower_map_toLower w).symm
  rw [normalizeLabel_eq_joinWith_words, normalizeLabel_eq_joinWith_words, hlower a, hlower b, h]

/-- Labels that differ in their spelling only have the same normal form. -/
theorem normalizeLabel_eq_of_respelling {a b : String}
    (h : Relation.EqvGen Respelling a.toList b.toList) : normalizeLabel a = normalizeLabel b := by
  refine normalizeLabel_eq_of_plainWords_eq ?_
  generalize a.toList = cs at h
  generalize b.toList = ds at h
  induction h with
  | rel cs ds h => exact h.plainWords_eq
  | refl cs => rfl
  | symm cs ds _ ih => exact ih.symm
  | trans cs ds es _ _ ih ih' => exact ih.trans ih'

/-! ### Histories -/

namespace LinkTable

/-- How a link table came about. -/
inductive History
  | new
  | insert (before : History) (label : String) (target : LinkTarget)
  | merge (before other : History)

namespace History

def table : History → LinkTable
  | new => ∅
  | insert before label target => before.table.insert label target
  | merge before other => before.table.merge other.table

/-- The definitions in the order they were given. A table that is merged into another is given
after what that one has, in the order it was given itself. -/
def given : History → List (String × LinkTarget)
  | new => []
  | insert before label target => before.given ++ [(label, target)]
  | merge before other => before.given ++ other.given

/-- The last definition that was given for a label of some normal form. -/
def last? (h : History) (key : String) : Option LinkTarget :=
  (h.given.reverse.find? fun e => normalizeLabel e.1 = key).map Prod.snd

def keys (h : History) : Finset String := (h.given.map fun e => normalizeLabel e.1).toFinset

/-- Under a normal form stands the last definition that was given for it. -/
theorem get?_entries (h : History) (key : String) : h.table.entries.get? key = h.last? key := by
  induction h with
  | new => rfl
  | insert before label target ih =>
    have hlast : (insert before label target).last? key =
        if normalizeLabel label = key then some target else before.last? key := by
      by_cases hkey : normalizeLabel label = key <;> simp [last?, given, hkey]
    rw [hlast, ← ih, table, LinkTable.insert, SortedTable.get?_insert]
    grind
  | merge before other ih ih' =>
    have hlast : (merge before other).last? key = (other.last? key).or (before.last? key) := by
      simp only [last?, given, List.reverse_append, List.find?_append]
      cases other.given.reverse.find? _ <;> rfl
    rw [hlast, ← ih, ← ih', table, LinkTable.merge, SortedTable.get?_merge]

/-- Nothing stands under other names than the normal forms that were given. -/
theorem mem_names_iff (h : History) (key : String) :
    key ∈ h.table.entries.entries.map Prod.fst ↔ key ∈ h.keys := by
  rw [← SortedTable.isSome_get?_iff, get?_entries]
  simp only [last?, Option.isSome_map, List.find?_isSome, keys, List.mem_reverse,
    List.mem_toFinset, List.mem_map, decide_eq_true_eq]

theorem size_table (h : History) : h.table.size = h.keys.card := by
  have hkeys : (h.table.entries.entries.map Prod.fst).toFinset = h.keys := by
    ext key
    rw [List.mem_toFinset, mem_names_iff]
  rw [← hkeys, List.toFinset_card_of_nodup h.table.entries.nodup_names, List.length_map]
  rfl

end History

end LinkTable

/-- A table holds one definition for each normal form that was given, the last one, whatever the
spelling of the labels. -/
theorem table_holds_last_definitions :
    (∀ (h : LinkTable.History) (label : String),
      h.table.get? label = h.last? (normalizeLabel label)) ∧
    (∀ h : LinkTable.History, h.table.size = h.keys.card) ∧
    (∀ label, normalizeLabel (normalizeLabel label) = normalizeLabel label) ∧
    ∀ a b : String, Relation.EqvGen Respelling a.toList b.toList →
      normalizeLabel a = normalizeLabel b :=
  ⟨fun h label => h.get?_entries (normalizeLabel label), LinkTable.History.size_table,
    normalizeLabel_normalizeLabel, fun _ _ => normalizeLabel_eq_of_respelling⟩

/-- A label that is broken across two lines names what it names on one line. -/
theorem table_holds_last_definitions_of_logo :
    let h := (LinkTable.History.new.insert "my logo" ⟨"old.png", none⟩).merge
      (.insert .new "My\r\nlogo" ⟨"new.png", none⟩)
    h.table.get? "my logo" = some ⟨"new.png", none⟩ ∧ h.table.size = 1 ∧
      normalizeLabel "My\r\nlogo" = normalizeLabel "my logo" := by
  intro h
  obtain ⟨hget, hsize, -, hsame⟩ := table_holds_last_definitions
  have hletter : Respelling "My\r\nlogo".toList "my\r\nlogo".toList :=
    .letter [] ['y', '\r', '\n', 'l', 'o', 'g', 'o'] (by decide)
  have hgap : Respelling "my\r\nlogo".toList "my logo".toList :=
    .between ['m', 'y'] ['l', 'o', 'g', 'o'] (by decide : ['\r', '\n'] ≠ [])
      (by decide : [' '] ≠ []) (by simp [isBlank]) (by simp [isBlank])
  have hlabel := hsame _ _ (.trans _ _ _ (.rel _ _ hletter) (.rel _ _ hgap))
  refine ⟨?_, ?_, hlabel⟩
  · rw [hget]
    simp [h, LinkTable.History.last?, LinkTable.History.given, hlabel]
  · rw [hsize]
    simp [h, LinkTable.History.keys, LinkTable.History.given, hlabel]

end LiterateJournal
