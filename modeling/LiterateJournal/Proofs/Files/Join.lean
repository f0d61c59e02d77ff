import LiterateJournal.Proofs.Files.Resolution
import LiterateJournal.Proofs.Text.Pieces

/-!
# Paths in a directory

A name in a directory has a path whose components are those of the directory and the name, whatever
slashes and dots the directory is written with. The path without its last component leads to the
directory.

## Main definitions

* `Path.Plain` — a name that can stand in a directory.

## Main statements

* `Path.exists_cut_join`, `Path.components_join` — the path of a name in a directory.
* `Path.components_parent?` — the path without its last component.
-/

namespace LiterateJournal

namespace Path

open Text

/-- A text that is a component of its own. -/
def IsPiece (x : String) : Prop := isSilent x.toList = false ∧ '/' ∉ x.toList

instance (x : String) : Decidable (IsPiece x) := inferInstanceAs (Decidable (_ ∧ _))

/-- A name that can stand in a directory. -/
def Plain (x : String) : Prop := IsPiece x ∧ x.toList ≠ ['.', '.']

instance (x : String) : Decidable (Plain x) := inferInstanceAs (Decidable (_ ∧ _))

def splitStart : List Char → List Char × List Char
  | '/' :: cs => (['/'], cs)
  | ['.'] => (['.'], [])
  | '.' :: '/' :: cs => (['.'], '/' :: cs)
  | cs => ([], cs)

def ofPieces (start : List Char) (pieces : List (List Char)) : List Component :=
  (match start with
    | ['/'] => [.root]
    | ['.'] => [.here]
    | _ => []) ++ (pieces.filter (!isSilent ·)).map Component.ofPiece

theorem cut_eq (path : String) :
    cut path = ⟨(splitStart path.toList).1,
      dropSilentEnd (cutAt '/' (splitStart path.toList).2)⟩ := rfl

theorem components_eq_ofPieces (path : String) :
    components path = ofPieces (cut path).start (cut path).pieces := rfl

theorem filter_dropSilentEnd (ps : List (List Char)) :
    (dropSilentEnd ps).filter (!isSilent ·) = ps.filter (!isSilent ·) := by
  induction ps with
  | nil => rfl
  | cons p ps ih =>
    rw [dropSilentEnd]
    split
    · rename_i h
      rw [h] at ih
      split <;> simp_all
    · rw [List.filter_cons, List.filter_cons, ih]

theorem ofPieces_dropSilentEnd (start : List Char) (ps : List (List Char)) :
    ofPieces start (dropSilentEnd ps) = ofPieces start ps := by
  simp only [ofPieces, filter_dropSilentEnd]

theorem dropSilentEnd_append_singleton {p : List Char} (h : isSilent p = false)
    (ps : List (List Char)) : dropSilentEnd (ps ++ [p]) = ps ++ [p] := by
  induction ps with
  | nil => simp [dropSilentEnd, h]
  | cons q qs ih =>
    rw [List.cons_append, dropSilentEnd, ih]
    cases hq : qs ++ [p] with
    | nil => simp at hq
    | cons => rfl

theorem prefix_dropSilentEnd (ps : List (List Char)) : dropSilentEnd ps <+: ps := by
  induction ps with
  | nil => exact List.prefix_refl _
  | cons p ps ih =>
    rw [dropSilentEnd]
    split
    · split
      · exact List.nil_prefix
      · exact List.cons_prefix_cons.2 ⟨rfl, List.nil_prefix⟩
    · exact List.cons_prefix_cons.2 ⟨rfl, ih⟩

theorem splitStart_append (cs : List Char) : (splitStart cs).1 ++ (splitStart cs).2 = cs := by
  unfold splitStart
  split <;> rfl

theorem components_of_splitStart {path : String} {start rest : List Char}
    (h : splitStart path.toList = (start, rest)) :
    components path = ofPieces start (cutAt '/' rest) := by
  rw [components_eq_ofPieces, cut_eq, h, ofPieces_dropSilentEnd]

/-- A path that ends where a piece ends has the start of the whole path. -/
theorem splitStart_of_boundary {cs start rest tail : List Char}
    (h : splitStart cs = (start, rest ++ tail))
    (hb : rest = [] ∨ tail = [] ∨ ∃ ds, tail = '/' :: ds) :
    splitStart (start ++ rest) = (start, rest) := by
  unfold splitStart at h
  split at h
  · obtain ⟨rfl, -⟩ := Prod.mk.inj h
    rfl
  · obtain ⟨rfl, hrest⟩ := Prod.mk.inj h
    obtain ⟨rfl, -⟩ := List.append_eq_nil_iff.1 hrest.symm
    rfl
  · obtain ⟨rfl, hrest⟩ := Prod.mk.inj h
    cases rest with
    | nil => rfl
    | cons c cs =>
      obtain rfl : '/' = c := by simpa using congrArg List.head? hrest
      rfl
  · rename_i hslash hdot hdotslash
    obtain ⟨rfl, rfl⟩ := Prod.mk.inj h
    rw [List.nil_append]
    unfold splitStart
    split
    · simp at hslash
    · obtain hb | rfl | ⟨ds, rfl⟩ := hb
      · cases hb
      · simp at hdot
      · simp at hdotslash
    · simp at hdotslash
    · rfl

theorem cut_of_splitStart {q : List Char} (hq : q = [] ∨ ∃ r, q = r ++ ['/']) (start : List Char) :
    ∃ ps, ofPieces start ps = ofPieces start (cutAt '/' q) ∧
      (∀ x, joinWith ['/'] (ps ++ [x]) = q ++ x) ∧
      ∀ (path : String) (x : List Char), splitStart path.toList = (start, q ++ x) →
        isSilent x = false → '/' ∉ x → cut path = ⟨start, ps ++ [x]⟩ := by
  obtain rfl | ⟨r, rfl⟩ := hq
  · refine ⟨[], rfl, fun x => rfl, fun path x h hx hs => ?_⟩
    rw [cut_eq, h, List.nil_append, cutAt_of_not_mem hs]
    simpa using dropSilentEnd_append_singleton hx []
  · refine ⟨cutAt '/' r, ?_, fun x => ?_, fun path x h hx hs => ?_⟩
    · simp [cutAt_append_cons, ofPieces, cutAt, isSilent]
    · rw [joinWith_append _ (cutAt_ne_nil _ _) (by simp), joinWith_cutAt]
      rfl
    · rw [cut_eq, h, List.append_assoc, List.singleton_append, cutAt_append_cons,
        cutAt_of_not_mem hs, dropSilentEnd_append_singleton hx]

/-! ### Names in directories -/

theorem head?_of_isPiece {x : String} (hx : IsPiece x) : x.toList.head? ≠ some '/' := by
  intro h
  exact hx.2 (List.mem_of_head? h)

theorem splitStart_of_isPiece {x : String} (hx : IsPiece x) :
    splitStart x.toList = ([], x.toList) := by
  obtain ⟨hsilent, hslash⟩ := hx
  unfold splitStart
  split
  · rename_i h
    simp [h] at hslash
  · rename_i h
    simp [h, isSilent] at hsilent
  · rename_i h
    simp [h] at hslash
  · rfl

theorem splitStart_fst (cs : List Char) :
    (splitStart cs).1 = [] ∨ (splitStart cs).1 = ['/'] ∨ (splitStart cs).1 = ['.'] := by
  unfold splitStart
  split <;> simp

/-- A slash at the end of a path adds nothing to it. -/
theorem splitStart_slash (cs : List Char) (hne : cs ≠ []) :
    ∃ start rest, splitStart cs = (start, rest) ∧
      splitStart (cs ++ ['/']) = (start, rest ++ ['/']) := by
  obtain ⟨start, rest, hsplit⟩ : ∃ start rest, splitStart (cs ++ ['/']) = (start, rest) :=
    ⟨_, _, rfl⟩
  have happend := splitStart_append (cs ++ ['/'])
  have hfst := splitStart_fst (cs ++ ['/'])
  rw [hsplit] at happend hfst
  dsimp only at happend hfst
  obtain rfl | ⟨rest', c, rfl⟩ := List.eq_nil_or_concat rest
  · exfalso
    rw [List.append_nil] at happend
    obtain ⟨c, cs', rfl⟩ := List.exists_cons_of_ne_nil hne
    rw [happend] at hfst
    simp at hfst
  · rw [List.concat_eq_append, ← List.append_assoc] at happend
    obtain ⟨rfl, hc⟩ := List.append_inj' happend rfl
    obtain rfl : c = '/' := by simpa using hc
    rw [List.concat_eq_append] at hsplit
    exact ⟨start, rest', splitStart_of_boundary hsplit (.inr (.inr ⟨[], rfl⟩)), hsplit⟩

theorem splitStart_cons_cons {c d : Char} (cs : List Char) (hc : c ≠ '/')
    (hcd : ¬ (c = '.' ∧ d = '/')) : splitStart (c :: d :: cs) = ([], c :: d :: cs) := by
  unfold splitStart
  split
  · simp_all
  · simp_all
  · simp_all
  · rfl

theorem splitStart_slash_append (r xs : List Char) : ∃ start q,
    (q = [] ∨ ∃ r', q = r' ++ ['/']) ∧ splitStart (r ++ ['/']) = (start, q) ∧
      splitStart (r ++ ['/'] ++ xs) = (start, q ++ xs) := by
  cases r with
  | nil => exact ⟨['/'], [], .inl rfl, rfl, rfl⟩
  | cons c r =>
    obtain ⟨d, ds, hds⟩ := List.exists_cons_of_ne_nil (l := r ++ ['/']) (by simp)
    by_cases hc : c = '/'
    · subst hc
      exact ⟨['/'], r ++ ['/'], .inr ⟨r, rfl⟩, rfl, rfl⟩
    · by_cases hcd : c = '.' ∧ d = '/'
      · obtain ⟨rfl, rfl⟩ := hcd
        refine ⟨['.'], r ++ ['/'], .inr ⟨r, rfl⟩, ?_, ?_⟩ <;>
          simp only [List.cons_append, hds] <;> rfl
      · refine ⟨[], c :: r ++ ['/'], .inr ⟨c :: r, rfl⟩, ?_, ?_⟩ <;>
          simp only [List.cons_append, hds] <;> exact splitStart_cons_cons _ hc hcd

/-- The path of a name in a directory, as a text and cut into its pieces. -/
theorem splitStart_join (base : String) : ∃ start q,
    (q = [] ∨ ∃ r, q = r ++ ['/']) ∧ components base = ofPieces start (cutAt '/' q) ∧
      ∀ x, IsPiece x → (join base x).toList = start ++ q ++ x.toList ∧
        splitStart (join base x).toList = (start, q ++ x.toList) := by
  by_cases hempty : base = ""
  · subst hempty
    refine ⟨[], [], .inl rfl, rfl, fun x hx => ?_⟩
    have hjoin : join "" x = x := by simp [join]
    rw [hjoin]
    exact ⟨rfl, splitStart_of_isPiece hx⟩
  -- the text before the name ends with a slash
  obtain ⟨r, hjoin, hcomponents⟩ : ∃ r : List Char,
      (∀ x, IsPiece x → (join base x).toList = r ++ ['/'] ++ x.toList) ∧
        components base =
          ofPieces (splitStart (r ++ ['/'])).1 (cutAt '/' (splitStart (r ++ ['/'])).2) := by
    by_cases hslash : base.toList.getLast? = some '/'
    · obtain ⟨r, hr⟩ := List.getLast?_eq_some_iff.1 hslash
      refine ⟨r, fun x hx => ?_, ?_⟩
      · rw [join, if_neg (by simp [head?_of_isPiece hx, hempty]), if_pos hslash,
          String.toList_append, hr]
      · rw [← hr]
        exact components_of_splitStart rfl
    · refine ⟨base.toList, fun x hx => ?_, ?_⟩
      · rw [join, if_neg (by simp [head?_of_isPiece hx, hempty]), if_neg hslash]
        simp
      · obtain ⟨start, rest, hsplit, hsplit'⟩ := splitStart_slash base.toList (by simpa)
        rw [components_of_splitStart hsplit, hsplit', cutAt_append_cons]
        simp [ofPieces, cutAt, isSilent]
  obtain ⟨start, q, hq, hsplit, -⟩ := splitStart_slash_append r []
  refine ⟨start, q, hq, by rw [hcomponents, hsplit], fun x hx => ?_⟩
  obtain ⟨start', q', -, hsplit', happend⟩ := splitStart_slash_append r x.toList
  obtain ⟨rfl, rfl⟩ := Prod.mk.inj (hsplit.symm.trans hsplit')
  rw [hjoin x hx]
  refine ⟨?_, happend⟩
  rw [← splitStart_append (r ++ ['/']), hsplit]

/-- The pieces of the path of a name in a directory: those of the directory, and the name. -/
theorem exists_cut_join (base : String) : ∃ start ps,
    components base = ofPieces start ps ∧
      ∀ x, IsPiece x → cut (join base x) = ⟨start, ps ++ [x.toList]⟩ ∧
        (join base x).toList = start ++ joinWith ['/'] (ps ++ [x.toList]) := by
  obtain ⟨start, q, hq, hcomponents, hjoin⟩ := splitStart_join base
  obtain ⟨ps, hpieces, htext, hcut⟩ := cut_of_splitStart hq start
  refine ⟨start, ps, hcomponents.trans hpieces.symm, fun x hx => ?_⟩
  obtain ⟨hlist, hsplit⟩ := hjoin x hx
  exact ⟨hcut _ _ hsplit hx.1 hx.2, by rw [hlist, htext, List.append_assoc]⟩

theorem components_join_of_isPiece (base : String) {x : String} (hx : IsPiece x) :
    components (join base x) = components base ++ [Component.ofPiece x.toList] := by
  obtain ⟨start, ps, hcomponents, hcut⟩ := exists_cut_join base
  rw [components_eq_ofPieces, (hcut x hx).1, hcomponents]
  simp [ofPieces, hx.1]

theorem components_join (base : String) {x : String} (hx : Plain x) :
    components (join base x) = components base ++ [.name x] := by
  rw [components_join_of_isPiece base hx.1, Component.ofPiece, if_neg hx.2, String.ofList_toList]

theorem fileName?_join (base : String) {x : String} (hx : Plain x) :
    fileName? (join base x) = some x := by
  simp [fileName?, components_join base hx]

theorem fileName?_of_plain {x : String} (hx : Plain x) : fileName? x = some x := by
  have h := fileName?_join "" hx
  rwa [join, if_pos (by simp)] at h

theorem stem?_join (base : String) {x : String} (hx : Plain x) :
    stem? (join base x) = some (cutName x).1 := by
  rw [stem?, fileName?_join base hx]
  rfl

theorem extension?_join (base : String) {x : String} (hx : Plain x) :
    extension? (join base x) = (cutName x).2 := by
  rw [extension?, fileName?_join base hx]
  rfl

theorem exists_parent?_join (base : String) {x : String} (hx : IsPiece x) :
    ∃ parent, parent? (join base x) = some parent := by
  obtain ⟨start, ps, -, hcut⟩ := exists_cut_join base
  rw [parent?, (hcut x hx).1]
  dsimp only
  split
  · rename_i hnil
    simp at hnil
  · exact ⟨_, rfl⟩

theorem exists_toList_join (base : String) :
    ∃ p : List Char, ∀ x, IsPiece x → (join base x).toList = p ++ x.toList := by
  obtain ⟨start, q, -, -, hjoin⟩ := splitStart_join base
  exact ⟨start ++ q, fun x hx => (hjoin x hx).1⟩

theorem ne_nil_of_isPiece {x : String} (hx : IsPiece x) : x.toList ≠ [] := by
  intro h
  simp [IsPiece, h, isSilent] at hx

/-- The last character of a name is not a slash, and no slash is before it. -/
theorem exists_reverse_of_isPiece {x : String} (hx : IsPiece x) :
    ∃ c cs, x.toList.reverse = c :: cs ∧ c ≠ '/' ∧ (c = '.' → ∃ d ds, cs = d :: ds ∧ d ≠ '/') := by
  obtain ⟨c, cs, hcs⟩ :=
    List.exists_cons_of_ne_nil (List.reverse_ne_nil_iff.2 (ne_nil_of_isPiece hx))
  have hmem (d : Char) (hd : d ∈ c :: cs) : d ≠ '/' := by
    rintro rfl
    exact hx.2 (List.mem_reverse.1 (hcs ▸ hd))
  refine ⟨c, cs, hcs, hmem c List.mem_cons_self, ?_⟩
  rintro rfl
  cases cs with
  | nil =>
    have hdot : x.toList = ['.'] := by simpa using congrArg List.reverse hcs
    simp [IsPiece, hdot, isSilent] at hx
  | cons d ds => exact ⟨d, ds, rfl, hmem d (by simp)⟩

theorem endsWithSlash_join (base : String) {x : String} (hx : IsPiece x) :
    endsWithSlash (join base x) = false := by
  obtain ⟨p, hp⟩ := exists_toList_join base
  obtain ⟨c, cs, hcs, hc, -⟩ := exists_reverse_of_isPiece hx
  rw [endsWithSlash, hp x hx, List.getLast?_eq_head?_reverse, List.reverse_append, hcs]
  simpa using hc

theorem endsWithDot_join (base : String) {x : String} (hx : IsPiece x) :
    endsWithDot (join base x) = false := by
  obtain ⟨p, hp⟩ := exists_toList_join base
  obtain ⟨c, cs, hcs, hc, hdot⟩ := exists_reverse_of_isPiece hx
  rw [endsWithDot, hp x hx, List.reverse_append, hcs, List.cons_append,
    List.dropWhile_cons_of_neg (by simpa using hc)]
  split
  · rename_i h
    obtain ⟨rfl, htail⟩ := List.cons.inj h
    obtain ⟨d, ds, rfl, hd⟩ := hdot rfl
    exact absurd (List.cons.inj htail).1 hd
  · rfl

theorem isEmpty_join (base : String) {x : String} (hx : IsPiece x) :
    (join base x).isEmpty = false := by
  obtain ⟨p, hp⟩ := exists_toList_join base
  have hne : (join base x).toList ≠ [] := by simp [hp x hx, ne_nil_of_isPiece hx]
  cases h : (join base x).isEmpty with
  | false => rfl
  | true => simp [String.isEmpty_iff.1 h] at hne

theorem steps_join (base : String) {x : String} (hx : Plain x) :
    steps (join base x) = components base ++ [.name x] := by
  rw [steps, endsWithDot_join base hx.1, components_join base hx]
  simp

/-- A path in a directory is longer than the directory's. -/
theorem utf8ByteSize_lt_join (base : String) {x : String} (hx : IsPiece x) :
    base.utf8ByteSize < (join base x).utf8ByteSize := by
  have hpos : 0 < x.utf8ByteSize := by
    apply Nat.pos_of_ne_zero
    intro hzero
    have hempty := String.utf8ByteSize_eq_zero_iff.1 hzero
    exact ne_nil_of_isPiece hx (by simp [hempty])
  unfold join
  split
  · rename_i hroot
    have hbase : base = "" := by simpa [head?_of_isPiece hx] using hroot
    simpa [hbase] using hpos
  · split <;> simp [String.utf8ByteSize_append] <;> omega

/-- A path in a directory goes on as its name does. -/
theorem join_append (base : String) {x : String} (hx : IsPiece x) (y : String) :
    join base x ++ y = join base (x ++ y) := by
  obtain ⟨c, cs, hcs⟩ := List.exists_cons_of_ne_nil (ne_nil_of_isPiece hx)
  have hc := head?_of_isPiece hx
  simp only [join, String.toList_append, hcs, List.cons_append, List.head?_cons] at hc ⊢
  split
  · rfl
  · split <;> simp only [String.append_assoc]

/-- A path that goes on after a slash. -/
theorem join_join (base : String) {x y : String} (hx : IsPiece x) (hy : IsPiece y) :
    join base (x ++ "/" ++ y) = join (join base x) y := by
  have hne : join base x ≠ "" := by
    intro h
    have hempty := isEmpty_join base hx
    rw [h] at hempty
    cases hempty
  have hslash : (join base x).toList.getLast? ≠ some '/' := by
    simpa [endsWithSlash] using endsWithSlash_join base hx
  rw [String.append_assoc, ← join_append base hx, join.eq_1 (join base x),
    if_neg (by simp [head?_of_isPiece hy, hne]), if_neg hslash, String.append_assoc]

theorem cutName_append {stem ext : String} (hstem : stem.toList ≠ []) (hext : '.' ∉ ext.toList) :
    cutName (stem ++ "." ++ ext) = (stem, some ext) := by
  have hreverse : (stem ++ "." ++ ext).toList.reverse =
      ext.toList.reverse ++ '.' :: stem.toList.reverse := by simp
  have htake : (ext.toList.reverse ++ '.' :: stem.toList.reverse).takeWhile (· ≠ '.') =
      ext.toList.reverse := by
    rw [List.takeWhile_append_of_pos, List.takeWhile_cons_of_neg (by simp), List.append_nil]
    intro c hc
    have hne : c ≠ '.' := by
      rintro rfl
      exact hext (List.mem_reverse.1 hc)
    simpa using hne
  obtain ⟨c, cs, hcs⟩ := List.exists_cons_of_ne_nil (List.reverse_ne_nil_iff.2 hstem)
  have hback : String.ofList (cs.reverse ++ [c]) = stem := by
    rw [← List.reverse_cons, ← hcs, List.reverse_reverse, String.ofList_toList]
  unfold cutName
  rw [hreverse]
  dsimp only
  rw [htake, List.drop_left, hcs]
  simp [hback]

/-- Another extension for a name in a directory. -/
theorem withExtension_join (base : String) {stem old new : String}
    (hnew : Plain (stem ++ "." ++ new)) (hdot : Plain (stem ++ ".")) (hstem : stem.toList ≠ [])
    (hext : '.' ∉ old.toList) (hold : Plain (stem ++ "." ++ old)) :
    withExtension (join base (stem ++ "." ++ old)) new = join base (stem ++ "." ++ new) := by
  have htake : String.ofList ((join base (stem ++ "." ++ old)).toList.take
      ((join base (stem ++ "." ++ old)).length - old.length)) = join base (stem ++ ".") := by
    rw [← join_append base hdot.1, String.length_append, Nat.add_sub_cancel, String.toList_append,
      ← String.length_toList, List.take_left, String.ofList_toList]
  have hstem? : stem? (join base (stem ++ ".")) = some stem := by
    have hcut : cutName (stem ++ "." ++ "") = (stem, some "") := cutName_append hstem (by simp)
    rw [String.append_empty] at hcut
    rw [stem?_join base hdot, hcut]
  obtain ⟨start, ps, -, hcut⟩ := exists_cut_join base
  have hpieces : stem.toList ++ '.' :: new.toList = (stem ++ "." ++ new).toList := by simp
  unfold withExtension
  rw [extension?_join base hold, cutName_append hstem hext]
  dsimp only
  rw [htake, addExtension, hstem?, (hcut _ hdot.1).1]
  dsimp only
  rw [List.dropLast_concat, hpieces, Pieces.toText, ← (hcut _ hnew.1).2, String.ofList_toList]

/-! ### Parents -/

theorem utf8ByteSize_le_of_prefix {p q : String} (h : p.toList <+: q.toList) :
    p.utf8ByteSize ≤ q.utf8ByteSize := by
  obtain ⟨r, hr⟩ := h
  have hq : q = p ++ String.ofList r := by
    rw [← String.toList_inj, String.toList_append, String.toList_ofList, hr]
  rw [hq, String.utf8ByteSize_append]
  omega

theorem isSilent_of_dropSilentEnd_eq {ps qs : List (List Char)} {p : List Char}
    (h : dropSilentEnd ps = qs ++ [p]) : isSilent p = false := by
  induction ps generalizing qs with
  | nil => simp [dropSilentEnd] at h
  | cons r rs ih =>
    rw [dropSilentEnd] at h
    split at h
    · split at h
      · simp at h
      · rename_i hr
        cases qs with
        | nil =>
          obtain rfl : r = p := by simpa using h
          simpa using hr
        | cons => simp at h
    · cases qs with
      | nil =>
        rename_i hne
        exact absurd (List.cons.inj h).2 hne
      | cons => exact ih (List.cons.inj h).2

theorem ofPieces_append_singleton (start : List Char) (ps : List (List Char)) {p : List Char}
    (hp : isSilent p = false) :
    ofPieces start (ps ++ [p]) = ofPieces start ps ++ [Component.ofPiece p] := by
  simp [ofPieces, hp]

/-- Some first pieces of a path are themselves a path. -/
theorem splitStart_of_prefix {cs start rest : List Char} {ps : List (List Char)}
    (h : splitStart cs = (start, rest)) (hps : ps <+: cutAt '/' rest) :
    splitStart (start ++ joinWith ['/'] ps) = (start, joinWith ['/'] ps) ∧
      start ++ joinWith ['/'] ps <+: cs := by
  obtain ⟨qs, hqs⟩ := hps
  obtain ⟨tail, hrest, hb⟩ : ∃ tail, rest = joinWith ['/'] ps ++ tail ∧
      (joinWith ['/'] ps = [] ∨ tail = [] ∨ ∃ ds, tail = '/' :: ds) := by
    have hjoin := joinWith_cutAt '/' rest
    rw [← hqs] at hjoin
    by_cases hp : ps = []
    · subst hp
      exact ⟨rest, rfl, .inl rfl⟩
    · by_cases hq : qs = []
      · subst hq
        rw [List.append_nil] at hjoin
        exact ⟨[], by rw [hjoin, List.append_nil], .inr (.inl rfl)⟩
      · rw [joinWith_append _ hp hq] at hjoin
        refine ⟨'/' :: joinWith ['/'] qs, ?_, .inr (.inr ⟨_, rfl⟩)⟩
        rw [← hjoin, List.append_assoc]
        rfl
  subst hrest
  refine ⟨splitStart_of_boundary h hb, tail, ?_⟩
  rw [List.append_assoc]
  simpa [h] using splitStart_append cs

theorem Component.ofPiece_ne_root (piece : List Char) : Component.ofPiece piece ≠ .root := by
  unfold ofPiece
  split <;> exact Component.noConfusion

/-- The path without its last component, which is no root, has the other components, and is not
longer. -/
theorem components_parent? {path parent : String} (h : parent? path = some parent) :
    (∃ c, c ≠ .root ∧ components path = components parent ++ [c]) ∧
      parent.utf8ByteSize ≤ path.utf8ByteSize := by
  obtain ⟨start, rest, hsplit⟩ : ∃ start rest, splitStart path.toList = (start, rest) :=
    ⟨_, _, rfl⟩
  have hcut : cut path = ⟨start, dropSilentEnd (cutAt '/' rest)⟩ := by rw [cut_eq, hsplit]
  obtain hnil | ⟨ps, p, hps⟩ := List.eq_nil_or_concat (dropSilentEnd (cutAt '/' rest))
  · -- only a dot has a parent without a name before it
    rw [hnil] at hcut
    simp only [parent?, hcut, Option.ite_none_right_eq_some, Option.some.injEq] at h
    obtain ⟨rfl, rfl⟩ := h
    refine ⟨⟨.here, Component.noConfusion, ?_⟩, Nat.zero_le _⟩
    rw [components_eq_ofPieces, hcut]
    rfl
  · rw [List.concat_eq_append] at hps
    have hp := isSilent_of_dropSilentEnd_eq hps
    have hparent : parent.toList = start ++ joinWith ['/'] (dropSilentEnd ps) := by
      rw [parent?, hcut, hps] at h
      dsimp only at h
      split at h
      · rename_i hnil
        simp at hnil
      · cases h
        rw [List.dropLast_concat, Pieces.toText, String.toList_ofList]
    have hshorter : dropSilentEnd ps <+: cutAt '/' rest :=
      ((prefix_dropSilentEnd ps).trans ⟨[p], hps.symm⟩).trans (prefix_dropSilentEnd _)
    obtain ⟨hsplit', hshort⟩ := splitStart_of_prefix hsplit hshorter
    rw [← hparent] at hsplit' hshort
    refine ⟨⟨Component.ofPiece p, Component.ofPiece_ne_root p, ?_⟩,
      utf8ByteSize_le_of_prefix hshort⟩
    rw [components_eq_ofPieces, hcut, hps, ofPieces_append_singleton start ps hp,
      components_of_splitStart hsplit', ← ofPieces_dropSilentEnd start ps]
    by_cases hnil : dropSilentEnd ps = []
    · rw [hnil]
      simp [joinWith, cutAt, ofPieces, isSilent]
    · rw [cutAt_joinWith hnil fun q hq => not_mem_of_mem_cutAt (hshorter.subset hq)]

end Path

end LiterateJournal
