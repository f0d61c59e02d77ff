import LiterateJournal.Proofs.Text.Pieces
import LiterateJournal.Proofs.Text.Replacement
import LiterateJournal.Site.Template

/-!
# What is put into a template

The marks of a template are replaced one kind after another, and each kind also in what has been put
in for those before. That comes to the same as replacing all marks of the template at once, unless
putting something in makes a mark that the template does not have.

## Main definitions

* `marksIn` — how often a mark occurs in a text.
* `fillAtOnce` — a template with its marks replaced at once.

## Main statements

* `exists_pieces` — what is between the marks of a text stays, whatever they are replaced by.
* `fillTemplate_eq_fillAtOnce_iff` — when a document is inserted as it is.
-/

namespace LiterateJournal

open Text

def marksIn (mark : List Char) : List Char → Nat
  | [] => 0
  | c :: cs => marksIn mark cs + if mark.isPrefixOf (c :: cs) then 1 else 0

/-- A template with its marks replaced, all at once. The title is plain text, the others are
markup. -/
def fillAtOnce (template : String) (format : OutputFormat) (body tooltips title : String) :
    String :=
  String.ofList (fillAll
    [(tooltipsMark.toList, tooltips.toList), (format.bodyMark.toList, body.toList),
      (titleMark.toList, (format.escape title).toList)]
    template.toList)

/-- A mark stands between braces and holds none. -/
def IsMark (mark : List Char) : Prop :=
  ∃ name, mark = '\x7b' :: (name ++ ['\x7d']) ∧ '\x7b' ∉ name ∧ '\x7d' ∉ name

/-! ### Marks in a text -/

theorem IsMark.exists_cons {mark : List Char} (h : IsMark mark) :
    ∃ tail, mark = '\x7b' :: tail ∧ '\x7b' ∉ tail := by
  obtain ⟨name, rfl, hopen, -⟩ := h
  exact ⟨_, rfl, by simp [hopen]⟩

theorem IsMark.ne_nil {mark : List Char} (h : IsMark mark) : mark ≠ [] := by
  obtain ⟨tail, rfl, -⟩ := h.exists_cons
  exact List.cons_ne_nil _ _

theorem IsMark.length_lt {mark : List Char} (h : IsMark mark) (rest : List Char) :
    rest.length < (mark ++ rest).length := by
  obtain ⟨tail, rfl, -⟩ := h.exists_cons
  simp only [List.length_append, List.length_cons]
  omega

/-- No mark is the start of another one. -/
theorem IsMark.eq_of_start {mark mark' rest : List Char} (h : IsMark mark) (h' : IsMark mark')
    (hp : mark <+: mark' ++ rest) : mark = mark' := by
  obtain ⟨name, rfl, -, hclose⟩ := h
  obtain ⟨name', rfl, -, hclose'⟩ := h'
  obtain ⟨tail, htail⟩ := hp
  have hnames : name ++ '\x7d' :: tail = name' ++ '\x7d' :: rest := by simpa using htail
  have hcut := congrArg (List.takeWhile (· ≠ '\x7d')) hnames
  have hname {x : List Char} (hx : '\x7d' ∉ x) : ∀ c ∈ x, decide (c ≠ '\x7d') = true := by
    intro c hc
    have hne : c ≠ '\x7d' := fun heq => hx (heq ▸ hc)
    simp [hne]
  simp only [List.takeWhile_append_of_pos (hname hclose),
    List.takeWhile_append_of_pos (hname hclose'), List.takeWhile_cons, ne_eq, not_true_eq_false,
    decide_false, Bool.false_eq_true, if_false, List.append_nil] at hcut
  rw [hcut]

theorem marksIn_cons (mark : List Char) (c : Char) (cs : List Char) :
    marksIn mark (c :: cs) = marksIn mark cs + if mark <+: c :: cs then 1 else 0 := by
  simp [marksIn]

/-- Where no brace is opened, no mark begins. -/
theorem marksIn_append_of_notMem {mark cs : List Char} (h : IsMark mark) (hc : '\x7b' ∉ cs)
    (rest : List Char) : marksIn mark (cs ++ rest) = marksIn mark rest := by
  obtain ⟨tail, rfl, -⟩ := h.exists_cons
  induction cs with
  | nil => rfl
  | cons c cs ih =>
    have hne : ¬ '\x7b' = c := fun heq => hc (heq ▸ List.mem_cons_self)
    rw [List.cons_append, marksIn_cons, ih fun hmem => hc (List.mem_cons_of_mem _ hmem),
      if_neg (by simp [hne]), Nat.add_zero]

theorem marksIn_mark_append {mark mark' : List Char} (h : IsMark mark) (h' : IsMark mark')
    (rest : List Char) :
    marksIn mark (mark' ++ rest) = marksIn mark rest + if mark = mark' then 1 else 0 := by
  have hstart : mark <+: mark' ++ rest ↔ mark = mark' :=
    ⟨h.eq_of_start h', fun heq => heq ▸ List.prefix_append _ _⟩
  obtain ⟨tail, rfl, htail⟩ := h'.exists_cons
  rw [List.cons_append] at hstart ⊢
  simp only [marksIn_cons, marksIn_append_of_notMem h htail, hstart]

theorem marksIn_le_append (mark cs rest : List Char) :
    marksIn mark rest ≤ marksIn mark (cs ++ rest) := by
  induction cs with
  | nil => exact Nat.le_refl _
  | cons c cs ih =>
    rw [List.cons_append, marksIn_cons]
    omega

/-! ### Replacing marks -/

section

variable {table : List (List Char × List Char)} {mark value : List Char}

theorem fillAll_single_append (hm : IsMark mark) (value rest : List Char) :
    fillAll [(mark, value)] (mark ++ rest) = value ++ fillAll [(mark, value)] rest :=
  fillAll_of_find?_eq_some hm.ne_nil (by simp)

/-- The marks of one kind are replaced like those of a table of one mark. -/
theorem replaceFrom_eq (mark value : List Char) (n : Nat) (cs : List Char) :
    replaceFrom mark value n cs = fillFrom [(mark, value)] n cs := by
  fun_induction replaceFrom mark value n cs with
  | case1 => simp [fillFrom]
  | case2 n c cs ih => rw [fillFrom, ih]
  | case3 c cs hp ih => simp [fillFrom, List.find?, hp, ih]
  | case4 c cs hp ih => simp [fillFrom, List.find?, hp, ih]

theorem find?_of_notMem (hm : IsMark mark) (hmarks : ∀ e ∈ table, IsMark e.1)
    (hnot : ∀ e ∈ table, e.1 ≠ mark) (rest : List Char) :
    table.find? (fun e => e.1.isPrefixOf (mark ++ rest)) = none := by
  refine List.find?_eq_none.2 fun e he hp => hnot e he ?_
  exact (hmarks e he).eq_of_start hm (List.isPrefixOf_iff_prefix.1 hp)

/-- Where no brace is opened, nothing is replaced. -/
theorem fillAll_append_of_notMem (hmarks : ∀ e ∈ table, IsMark e.1) {cs : List Char}
    (hc : '\x7b' ∉ cs) (rest : List Char) :
    fillAll table (cs ++ rest) = cs ++ fillAll table rest := by
  induction cs with
  | nil => rfl
  | cons c cs ih =>
    rw [List.cons_append, fillAll_of_find?_eq_none,
      ih fun hmem => hc (List.mem_cons_of_mem _ hmem), List.cons_append]
    refine List.find?_eq_none.2 fun e he hp => hc ?_
    obtain ⟨tail, htail, -⟩ := (hmarks e he).exists_cons
    have hcons := List.isPrefixOf_iff_prefix.1 hp
    rw [htail, List.cons_prefix_cons] at hcons
    exact hcons.1 ▸ List.mem_cons_self

/-- Other marks stay as they are. -/
theorem fillAll_mark_append (hm : IsMark mark) (hmarks : ∀ e ∈ table, IsMark e.1)
    (hnot : ∀ e ∈ table, e.1 ≠ mark) (rest : List Char) :
    fillAll table (mark ++ rest) = mark ++ fillAll table rest := by
  have hfind := find?_of_notMem hm hmarks hnot rest
  obtain ⟨tail, rfl, htail⟩ := hm.exists_cons
  rw [List.cons_append] at hfind ⊢
  rw [fillAll_of_find?_eq_none hfind, fillAll_append_of_notMem hmarks htail, List.cons_append]

/-- What is between the occurrences of a mark stays, whatever they are replaced by. -/
theorem exists_pieces (table : List (List Char × List Char)) (hm : IsMark mark)
    (hmarks : ∀ e ∈ table, IsMark e.1) (hnot : ∀ e ∈ table, e.1 ≠ mark) (text : List Char) :
    ∃ p ps, ps.length = marksIn mark text ∧ fillAll table text = joinWith mark (p :: ps) ∧
      ∀ value, fillAll (table ++ [(mark, value)]) text = joinWith value (p :: ps) := by
  induction hn : text.length using Nat.strongRecOn generalizing text with
  | _ n ih =>
    cases text with
    | nil => exact ⟨[], [], rfl, rfl, fun _ => rfl⟩
    | cons c cs =>
      cases hfind : table.find? fun e => e.1.isPrefixOf (c :: cs) with
      | some e =>
        obtain ⟨other, inserted⟩ := e
        obtain ⟨hmem, rest, hrest⟩ := exists_append_of_find? hfind
        have hother := hmarks _ hmem
        rw [← hrest] at hn hfind ⊢
        obtain ⟨p, ps, hlength, htable, hall⟩ :=
          ih rest.length (hn ▸ hother.length_lt rest) rest rfl
        refine ⟨inserted ++ p, ps, ?_, ?_, fun value => ?_⟩
        · rw [marksIn_mark_append hm hother, if_neg (hnot _ hmem).symm, hlength, Nat.add_zero]
        · rw [fillAll_of_find?_eq_some hother.ne_nil hfind, append_joinWith, htable]
        · rw [fillAll_of_find?_eq_some hother.ne_nil (by rw [List.find?_append, hfind]; rfl),
            append_joinWith, hall]
      | none =>
        by_cases hp : mark <+: c :: cs
        · obtain ⟨rest, hrest⟩ := hp
          rw [← hrest] at hn hfind ⊢
          obtain ⟨p, ps, hlength, htable, hall⟩ :=
            ih rest.length (hn ▸ hm.length_lt rest) rest rfl
          refine ⟨[], p :: ps, ?_, ?_, fun value => ?_⟩
          · rw [marksIn_mark_append hm hm, if_pos rfl, List.length_cons, hlength]
          · rw [fillAll_mark_append hm hmarks hnot, htable]
            rfl
          · have hvalue : (table ++ [(mark, value)]).find?
                (fun e => e.1.isPrefixOf (mark ++ rest)) = some (mark, value) := by
              rw [List.find?_append, hfind]
              simp
            rw [fillAll_of_find?_eq_some hm.ne_nil hvalue, hall]
            rfl
        · obtain ⟨p, ps, hlength, htable, hall⟩ := ih cs.length (hn ▸ Nat.lt_succ_self _) cs rfl
          refine ⟨c :: p, ps, ?_, ?_, fun value => ?_⟩
          · rw [marksIn_cons, if_neg hp, hlength, Nat.add_zero]
          · rw [fillAll_of_find?_eq_none hfind, cons_joinWith, htable]
          · rw [fillAll_of_find?_eq_none, cons_joinWith, hall]
            rw [List.find?_append, hfind]
            simpa using hp

/-- A text in which no mark begins stays as it is. -/
theorem fillAll_append_of_marksIn_eq (value : List Char) {cs rest : List Char}
    (h : marksIn mark (cs ++ rest) = marksIn mark rest) :
    fillAll [(mark, value)] (cs ++ rest) = cs ++ fillAll [(mark, value)] rest := by
  induction cs with
  | nil => rfl
  | cons c cs ih =>
    have hle := marksIn_le_append mark cs rest
    rw [List.cons_append, marksIn_cons] at h
    have hp : ¬ mark <+: c :: (cs ++ rest) := by
      intro hp
      rw [if_pos hp] at h
      omega
    rw [if_neg hp, Nat.add_zero] at h
    rw [List.cons_append, fillAll_of_find?_eq_none (by simpa using hp), ih h, List.cons_append]

theorem length_le_marksIn_joinWith (hm : IsMark mark) (p : List Char) (ps : List (List Char)) :
    ps.length ≤ marksIn mark (joinWith mark (p :: ps)) := by
  induction ps generalizing p with
  | nil => exact Nat.zero_le _
  | cons q ps ih =>
    have hq := ih q
    have hle := marksIn_le_append mark p (mark ++ joinWith mark (q :: ps))
    rw [marksIn_mark_append hm hm, if_pos rfl] at hle
    rw [joinWith_cons_of_ne_nil _ _ (List.cons_ne_nil q ps), List.append_assoc, List.length_cons]
    omega

theorem fillAll_joinWith (hm : IsMark mark) {p : List Char} {ps : List (List Char)}
    (h : marksIn mark (joinWith mark (p :: ps)) = ps.length) :
    fillAll [(mark, value)] (joinWith mark (p :: ps)) = joinWith value (p :: ps) := by
  induction ps generalizing p with
  | nil =>
    have hnone : marksIn mark (p ++ []) = marksIn mark [] := by simpa [joinWith, marksIn] using h
    simpa [joinWith, fillAll, fillFrom] using fillAll_append_of_marksIn_eq value hnone
  | cons q ps ih =>
    have hne := List.cons_ne_nil q ps
    have hq := length_le_marksIn_joinWith hm q ps
    have hle := marksIn_le_append mark p (mark ++ joinWith mark (q :: ps))
    rw [joinWith_cons_of_ne_nil _ _ hne, List.append_assoc, List.length_cons] at h
    rw [marksIn_mark_append hm hm, if_pos rfl] at hle
    rw [joinWith_cons_of_ne_nil _ _ hne, joinWith_cons_of_ne_nil _ _ hne, List.append_assoc,
      fillAll_append_of_marksIn_eq value (by rw [marksIn_mark_append hm hm, if_pos rfl]; omega),
      fillAll_single_append hm, ih (by omega), List.append_assoc]

/-- If a value as long as the mark is put in where pieces are joined and nowhere else, no mark
begins in the first piece. -/
theorem marksIn_append_of_fillAll (hm : IsMark mark) (hlength : value.length = mark.length)
    (hne : value ≠ mark) {cs rest other : List Char} (hrest : ∀ c ∈ rest.head?, c = '\x7b')
    (h : fillAll [(mark, value)] (cs ++ rest) = cs ++ other) :
    marksIn mark (cs ++ rest) = marksIn mark rest ∧ fillAll [(mark, value)] rest = other := by
  induction cs generalizing other with
  | nil => exact ⟨rfl, h⟩
  | cons c cs ih =>
    by_cases hp : mark <+: c :: (cs ++ rest)
    · -- the mark would have to end before `rest`, and there the value stands in its place
      exfalso
      obtain ⟨tail, rfl, htail⟩ := hm.exists_cons
      obtain ⟨rfl, hstart⟩ := List.cons_prefix_cons.1 hp
      have hinside : tail <+: cs := by
        obtain hcs | ⟨before, rfl⟩ :=
          List.prefix_or_prefix_of_prefix hstart (List.prefix_append cs rest)
        · exact hcs
        · obtain ⟨after, rfl⟩ := (List.prefix_append_right_inj cs).1 hstart
          cases before with
          | nil => simp
          | cons d before =>
            obtain rfl := hrest d rfl
            simp at htail
      obtain ⟨cs', rfl⟩ := hinside
      have hfill := fillAll_single_append hm value (cs' ++ rest)
      have hvalue : value ++ fillAll [('\x7b' :: tail, value)] (cs' ++ rest) =
          ('\x7b' :: tail) ++ (cs' ++ other) := by
        rw [← hfill]
        simpa using h
      exact hne (List.append_inj_left hvalue hlength)
    · rw [List.cons_append, fillAll_of_find?_eq_none (by simpa using hp), List.cons_append,
        List.cons.injEq] at h
      obtain ⟨hcount, hfill⟩ := ih h.2
      rw [List.cons_append, marksIn_cons, if_neg hp, Nat.add_zero]
      exact ⟨hcount, hfill⟩

theorem marksIn_joinWith_of_fillAll (hm : IsMark mark) (hlength : value.length = mark.length)
    (hne : value ≠ mark) {p : List Char} {ps : List (List Char)}
    (h : fillAll [(mark, value)] (joinWith mark (p :: ps)) = joinWith value (p :: ps)) :
    marksIn mark (joinWith mark (p :: ps)) = ps.length := by
  induction ps generalizing p with
  | nil =>
    have hnone : marksIn mark (p ++ []) = marksIn mark [] ∧ fillAll [(mark, value)] [] = [] :=
      marksIn_append_of_fillAll hm hlength hne (by simp) (by simpa [joinWith] using h)
    simpa [joinWith, marksIn] using hnone.1
  | cons q ps ih =>
    have hcons := List.cons_ne_nil q ps
    rw [joinWith_cons_of_ne_nil _ _ hcons, joinWith_cons_of_ne_nil _ _ hcons, List.append_assoc,
      List.append_assoc] at h
    have hrest : ∀ c ∈ (mark ++ joinWith mark (q :: ps)).head?, c = '\x7b' := by
      obtain ⟨tail, rfl, -⟩ := hm.exists_cons
      simp
    obtain ⟨hcount, hfill⟩ := marksIn_append_of_fillAll hm hlength hne hrest h
    rw [fillAll_single_append hm] at hfill
    rw [joinWith_cons_of_ne_nil _ _ hcons, List.append_assoc, hcount, marksIn_mark_append hm hm,
      if_pos rfl, ih (List.append_cancel_left hfill), List.length_cons]

/-- Replacing a mark in a text that was joined with it replaces it just where the pieces meet,
unless there are more marks than that; the value may also be the mark itself. -/
theorem fillAll_joinWith_iff (hm : IsMark mark) (p : List Char) (ps : List (List Char)) :
    fillAll [(mark, value)] (joinWith mark (p :: ps)) = joinWith value (p :: ps) ↔
      marksIn mark (joinWith mark (p :: ps)) = ps.length ∨ value = mark := by
  obtain ⟨q, qs, hcount, htext, hfill⟩ := exists_pieces [] hm (by simp) (by simp)
    (joinWith mark (p :: ps))
  rw [fillAll_nil_table] at htext
  rw [← hcount]
  simp only [List.nil_append] at hfill
  constructor
  · intro h
    by_cases hne : value = mark
    · exact .inr hne
    refine .inl ?_
    have hle := length_le_marksIn_joinWith hm p ps
    obtain ⟨more, hmore⟩ := Nat.exists_eq_add_of_le (hcount ▸ hle)
    -- were the lengths of the value and the mark different, further marks would change the length
    have hmarks := congrArg List.length htext
    have hvalues := congrArg List.length ((hfill value).symm.trans h)
    simp only [length_joinWith, hmore, Nat.add_mul] at hmarks hvalues
    obtain hnone | hpos := Nat.eq_zero_or_pos more
    · omega
    · have hlength : value.length = mark.length :=
        Nat.eq_of_mul_eq_mul_left hpos (by omega)
      exact hcount.trans (marksIn_joinWith_of_fillAll hm hlength hne h)
  · rintro (h | rfl)
    · exact fillAll_joinWith hm (hcount.symm.trans h)
    · rw [hfill, ← htext]

end

/-! ### Templates -/

theorem isMark_tooltipsMark : IsMark tooltipsMark.toList :=
  ⟨"tooltips".toList, by decide, by decide, by decide⟩

theorem isMark_titleMark : IsMark titleMark.toList :=
  ⟨"page-title".toList, by decide, by decide, by decide⟩

theorem isMark_bodyMark (format : OutputFormat) : IsMark format.bodyMark.toList := by
  cases format
  · exact ⟨"document".toList, by decide, by decide, by decide⟩
  · exact ⟨"contents".toList, by decide, by decide, by decide⟩

theorem replaceMark_eq (mark value : String) (text : List Char) :
    replaceMark mark value text = fillAll [(mark.toList, value.toList)] text :=
  replaceFrom_eq _ _ _ _

/-- A document is inserted as it is, under whatever title, just if the tooltips make no mark for the
body and the body makes no mark for the title, neither in themselves nor with the text around them.
Only a body that is nothing but its own mark makes no difference. -/
theorem fillTemplate_eq_fillAtOnce_iff (template : String) (format : OutputFormat)
    (body tooltips : String) :
    (∀ title, fillTemplate template format body tooltips title =
        fillAtOnce template format body tooltips title) ↔
      (marksIn format.bodyMark.toList (replaceMark tooltipsMark tooltips template.toList) =
          marksIn format.bodyMark.toList template.toList ∨ body = format.bodyMark) ∧
        marksIn titleMark.toList
            (replaceMark format.bodyMark body
              (replaceMark tooltipsMark tooltips template.toList)) =
          marksIn titleMark.toList template.toList := by
  have htooltips := isMark_tooltipsMark
  have hbody := isMark_bodyMark format
  have htitle := isMark_titleMark
  -- the pieces of the template between the marks for the body, and between those for the title
  obtain ⟨p, ps, hcount, hinserted, hbodies⟩ :=
    exists_pieces [(tooltipsMark.toList, tooltips.toList)] hbody
      (by simpa using htooltips) (by cases format <;> simp <;> decide) template.toList
  obtain ⟨q, qs, hcount', hinserted', htitles⟩ :=
    exists_pieces
      [(tooltipsMark.toList, tooltips.toList), (format.bodyMark.toList, body.toList)]
      htitle (by simpa using ⟨htooltips, hbody⟩) (by cases format <;> simp <;> decide)
      template.toList
  simp only [List.cons_append, List.nil_append] at hbodies htitles
  have honce (title : String) : fillAtOnce template format body tooltips title =
      String.ofList (joinWith (format.escape title).toList (q :: qs)) := by
    rw [fillAtOnce, htitles]
  simp only [fillTemplate, replaceMark_eq, honce, String.ofList_inj, hinserted]
  -- the second replacement inserts the body as it is just if the text is that of the pieces
  have hsecond : fillAll [(format.bodyMark.toList, body.toList)]
      (joinWith format.bodyMark.toList (p :: ps)) = joinWith titleMark.toList (q :: qs) ↔
      marksIn format.bodyMark.toList (joinWith format.bodyMark.toList (p :: ps)) =
        marksIn format.bodyMark.toList template.toList ∨ body = format.bodyMark := by
    rw [← hinserted', hbodies, fillAll_joinWith_iff hbody, hcount, String.toList_inj]
  rw [← hsecond]
  constructor
  · intro h
    obtain ⟨r, rs, hcount'', htext, hfill⟩ := exists_pieces [] htitle (by simp) (by simp)
      (fillAll [(format.bodyMark.toList, body.toList)]
        (joinWith format.bodyMark.toList (p :: ps)))
    have hx := h "x"
    have hy := h "y"
    have hletter : (format.escape "x").toList = ['x'] ∧ (format.escape "y").toList = ['y'] := by
      cases format <;> decide
    rw [hletter.1, ← List.nil_append [_], hfill] at hx
    rw [hletter.2, ← List.nil_append [_], hfill] at hy
    obtain ⟨rfl, rfl⟩ := eq_of_joinWith_eq (by decide) hx hy
    rw [fillAll_nil_table] at htext
    exact ⟨htext, hcount''.symm.trans hcount'⟩
  · rintro ⟨htext, hmarks⟩ title
    rw [htext] at hmarks ⊢
    exact fillAll_joinWith htitle (hmarks.trans hcount'.symm)

/-- A document that quotes the mark for the title is not inserted as it is. -/
theorem fillTemplate_changes_body : ¬ ∀ (template : String) (format : OutputFormat)
    (body tooltips title : String), fillTemplate template format body tooltips title =
      fillAtOnce template format body tooltips title := by
  intro h
  exact absurd (h "\x7bdocument\x7d" .html "\x7bpage-title\x7d" "" "T") (by decide)

end LiterateJournal
