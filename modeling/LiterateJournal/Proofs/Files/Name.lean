import LiterateJournal.Proofs.Files.Join

/-!
# Names in paths

The components of a path that are names can stand in a directory, and so can what a name becomes
with another extension.

## Main statements

* `Path.plain_of_fileName?` — the name of a path can stand in a directory.
* `Path.eq_of_cutName` — a name is its stem, a dot and its extension.
-/

namespace LiterateJournal.Path

theorem plain_of_length {x : String} (hl : 3 ≤ x.toList.length) (hs : '/' ∉ x.toList) :
    Plain x := by
  refine ⟨⟨?_, hs⟩, ?_⟩
  · cases h : isSilent x.toList with
    | false => rfl
    | true =>
      simp only [isSilent, Bool.or_eq_true, List.isEmpty_iff, decide_eq_true_eq] at h
      obtain h | h := h <;> simp [h] at hl
  · intro h
    simp [h] at hl

theorem plain_of_mem_components {path x : String} (h : Component.name x ∈ components path) :
    Plain x := by
  rw [components_eq_ofPieces] at h
  unfold ofPieces at h
  obtain h | h := List.mem_append.1 h
  · have hstart : (cut path).start = [] ∨ (cut path).start = ['/'] ∨ (cut path).start = ['.'] :=
      splitStart_fst path.toList
    obtain hstart | hstart | hstart := hstart <;> simp [hstart] at h
  · obtain ⟨piece, hpiece, hx⟩ := List.mem_map.1 h
    obtain ⟨hmem, hsilent⟩ := List.mem_filter.1 hpiece
    have hslash := Text.not_mem_of_mem_cutAt
      ((prefix_dropSilentEnd _).subset (cut_eq path ▸ hmem))
    unfold Component.ofPiece at hx
    split at hx
    · cases hx
    · rename_i hup
      cases hx
      refine ⟨⟨?_, ?_⟩, ?_⟩ <;> rw [String.toList_ofList]
      · simpa using hsilent
      · exact hslash
      · exact hup

theorem plain_of_fileName? {path x : String} (h : fileName? path = some x) : Plain x := by
  unfold fileName? at h
  split at h
  · rename_i hlast
    cases h
    exact plain_of_mem_components (List.mem_of_getLast? hlast)
  · cases h

/-- A name with an extension is its stem, a dot and its extension. -/
theorem eq_of_cutName {name stem ext : String} (h : cutName name = (stem, some ext)) :
    name = stem ++ "." ++ ext ∧ stem.toList ≠ [] := by
  have happend := List.takeWhile_append_dropWhile (p := (· ≠ '.')) (l := name.toList.reverse)
  have hhead := List.head?_dropWhile_not (· ≠ '.') name.toList.reverse
  unfold cutName at h
  generalize htake : name.toList.reverse.takeWhile (· ≠ '.') = e at h happend
  generalize name.toList.reverse.dropWhile (· ≠ '.') = d at happend hhead
  rw [← happend] at h htake
  dsimp only at h
  rw [htake, List.drop_left] at h
  split at h
  · cases h
  · cases h
  · rename_i c stem' hne
    cases h
    obtain rfl : c = '.' := by simpa using hhead
    refine ⟨?_, ?_⟩
    · rw [← String.toList_inj, ← List.reverse_inj, ← happend]
      simp
    · simpa using hne

theorem slash_notMem_extension? {path ext : String} (h : extension? path = some ext) :
    '/' ∉ ext.toList := by
  obtain ⟨name, hname, hcut⟩ := Option.bind_eq_some_iff.1 h
  have hcut' : cutName name = ((cutName name).1, some ext) := Prod.ext rfl hcut
  obtain ⟨heq, -⟩ := eq_of_cutName hcut'
  intro hmem
  exact (plain_of_fileName? hname).1.2 (by rw [heq]; simp [hmem])

end LiterateJournal.Path
