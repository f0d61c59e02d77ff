import LiterateJournal.Script.Chunk

/-!
# The grammar of scripts

A script is cut at its comments from left to right. Which text opens a comment, where the comment
ends and what is code in between is said here without a reader, and the reader is shown to agree.

## Main definitions

* `Opens`, `Ends` — where a comment opens and where it ends.
* `Splits` — a text as segments.
* `Meets` — the comments that open in a text.

## Main statements

* `Splits.unique`, `exists_splits_iff` — a text is cut in one way, and can be cut just when every
  comment that is met ends.
* `segments_eq_ok_iff`, `segments_eq_error_iff` — the segments that are read are those of the text,
  and what is missing otherwise is the end of a comment.
-/

namespace LiterateJournal.Script

/-! ### The end of a comment -/

/-- What the text of a comment is read as. -/
inductive Mark where
  | opening
  | closing
  | char (c : Char)
deriving Repr, DecidableEq

def marks : List Char → List Mark
  | '(' :: '*' :: cs => .opening :: marks cs
  | '*' :: ')' :: cs => .closing :: marks cs
  | c :: cs => .char c :: marks cs
  | [] => []

def Mark.text : Mark → List Char
  | .opening => ['(', '*']
  | .closing => ['*', ')']
  | .char c => [c]

def textOf (ms : List Mark) : List Char := ms.flatMap Mark.text

/-- Of the marks `all` behind `depth` open comments, `ms` stand before the first closing mark at
which these and all comments opened in between are closed but for one, and `ns` behind it. -/
structure Closes (depth : Nat) (all ms ns : List Mark) : Prop where
  split : all = ms ++ .closing :: ns
  balanced : depth + ms.count .opening = ms.count .closing
  first : ∀ ms' ns', all = ms' ++ .closing :: ns' →
    depth + ms'.count .opening = ms'.count .closing → ms.length ≤ ms'.length

/-- The text `tail` behind the opening of a comment is the body of the comment, the first closing
mark before which as many comments are closed as opened, and the rest. -/
def EndsComment (tail body rest : List Char) : Prop :=
  ∃ ms ns, Closes 0 (marks tail) ms ns ∧ textOf ms = body ∧ textOf ns = rest

def directiveMark : List Char := ['*', '*', '*', ')']

/-- The text `tail` behind the first three stars of a directive is its body, the first mark that
ends one, and the rest. -/
def EndsDirective (tail body rest : List Char) : Prop :=
  tail = body ++ directiveMark ++ rest ∧
    ∀ p s, tail = p ++ directiveMark ++ s → body.length ≤ p.length

/-- What stands between an opening with `n` stars and its end, and behind the end; `tail` is the
text behind the stars. -/
def Ends (n : Nat) (tail body rest : List Char) : Prop :=
  if n = 2 then EndsComment tail body rest
  else EndsDirective (List.replicate (n - 3) '*' ++ tail) body rest

/-! ### Segments -/

/-- At the start of a text a comment opens: a parenthesis with at least two stars, and behind all of
its stars no parenthesis that closes it again. -/
structure Opens (cs : List Char) (n : Nat) (tail : List Char) : Prop where
  eq : cs = '(' :: (List.replicate n '*' ++ tail)
  two_le : 2 ≤ n
  ne_star : tail.head? ≠ some '*'
  ne_paren : tail.head? ≠ some ')'

/-- No comment opens in a text, when `rest` follows. -/
def IsCode (code rest : List Char) : Prop :=
  ∀ s, s <:+ code → s ≠ [] → ∀ n tail, ¬ Opens (s ++ rest) n tail

/-- A comment with two stars holds Markdown, one with more is a directive. -/
def Segment.ofStars (n : Nat) (body : List Char) : Segment :=
  if n = 2 then .markdown body else .directive body

def Segment.written : Segment → List Char
  | .code text => text
  | .markdown body => ['(', '*', '*'] ++ body ++ ['*', ')']
  | .directive body => ['(', '*', '*', '*'] ++ body ++ directiveMark

def Unterminated.ofStars (n : Nat) : Unterminated := if n = 2 then .comment else .directive

/-- A text is cut into code and comments, each of which opens where the first one can. -/
inductive Splits : List Char → List Segment → Prop where
  | code {cs : List Char} : IsCode cs [] → Splits cs [.code cs]
  | comment {code cs tail body rest : List Char} {n : Nat} {segs : List Segment} :
    IsCode code cs → Opens cs n tail → Ends n tail body rest → Splits rest segs →
    Splits (code ++ cs) (.code code :: .ofStars n body :: segs)

/-- A comment with `n` stars is met when a text is cut, and `tail` is behind its stars. -/
inductive Meets : List Char → Nat → List Char → Prop where
  | first {code cs tail : List Char} {n : Nat} :
    IsCode code cs → Opens cs n tail → Meets (code ++ cs) n tail
  | later {code cs tail body rest tail' : List Char} {n n' : Nat} :
    IsCode code cs → Opens cs n tail → Ends n tail body rest → Meets rest n' tail' →
    Meets (code ++ cs) n' tail'

/-! ### Reading to the end of a comment -/

/-- A mark that closes none of the open comments but the innermost ones comes before the end. -/
theorem closes_cons {m : Mark} {depth depth' : Nat} {all ms ns : List Mark}
    (hfirst : m = .closing → depth ≠ 0)
    (hshift : ∀ ms : List Mark, depth + (m :: ms).count .opening = (m :: ms).count .closing ↔
      depth' + ms.count .opening = ms.count .closing) :
    Closes depth (m :: all) ms ns ↔ ∃ ms', ms = m :: ms' ∧ Closes depth' all ms' ns := by
  constructor
  · intro h
    cases ms with
    | nil =>
      obtain ⟨rfl, rfl⟩ := List.cons.inj h.split
      exact absurd (by simpa using h.balanced) (hfirst rfl)
    | cons m' ms =>
      obtain ⟨rfl, hall⟩ := List.cons.inj h.split
      refine ⟨ms, rfl, hall, (hshift ms).1 h.balanced, fun ms' ns' hms' hbalanced => ?_⟩
      simpa using h.first (m :: ms') ns' (by simp [hms']) ((hshift ms').2 hbalanced)
  · rintro ⟨ms, rfl, h⟩
    refine ⟨by simp [h.split], (hshift ms).2 h.balanced, fun ms' ns' hms' hbalanced => ?_⟩
    cases ms' with
    | nil =>
      obtain ⟨rfl, -⟩ := List.cons.inj hms'
      exact absurd (by simpa using hbalanced) (hfirst rfl)
    | cons m' ms' =>
      obtain ⟨rfl, hall⟩ := List.cons.inj hms'
      simpa using h.first ms' ns' hall ((hshift ms').1 hbalanced)

theorem closes_closing_zero {all ms ns : List Mark} :
    Closes 0 (.closing :: all) ms ns ↔ ms = [] ∧ ns = all := by
  constructor
  · intro h
    have hlength := h.first [] all rfl rfl
    obtain rfl := List.length_eq_zero_iff.1 (Nat.le_zero.1 hlength)
    exact ⟨rfl, (List.cons.inj h.split).2.symm⟩
  · rintro ⟨rfl, rfl⟩
    exact ⟨rfl, rfl, fun _ _ _ _ => Nat.zero_le _⟩

theorem textOf_marks (cs : List Char) : textOf (marks cs) = cs := by
  induction cs using marks.induct with
  | case1 cs ih => simpa [marks, textOf, Mark.text] using ih
  | case2 cs ih => simpa [marks, textOf, Mark.text] using ih
  | case3 c cs h₁ h₂ ih =>
    rw [marks]
    · simpa [textOf, Mark.text] using ih
    all_goals assumption
  | case4 => rfl

/-- A mark that has been read goes on with what is cut behind it. -/
theorem map_eq_some_iff_of_mark {m : Mark} {depth' : Nat} {all : List Mark}
    {cut : Option (List Char × List Char)} {body rest : List Char}
    (ih : ∀ {body rest}, cut = some (body, rest) ↔
      ∃ ms ns, Closes depth' all ms ns ∧ textOf ms = body ∧ textOf ns = rest) :
    cut.map (fun r => (m.text ++ r.1, r.2)) = some (body, rest) ↔
      ∃ ms ns, (∃ ms', ms = m :: ms' ∧ Closes depth' all ms' ns) ∧ textOf ms = body ∧
        textOf ns = rest := by
  rw [Option.map_eq_some_iff]
  constructor
  · rintro ⟨⟨body', rest'⟩, hcut, heq⟩
    cases heq
    obtain ⟨ms, ns, hcloses, rfl, rfl⟩ := ih.1 hcut
    exact ⟨m :: ms, ns, ⟨ms, rfl, hcloses⟩, by simp [textOf], rfl⟩
  · rintro ⟨-, ns, ⟨ms, rfl, hcloses⟩, rfl, rfl⟩
    exact ⟨(textOf ms, textOf ns), ih.2 ⟨ms, ns, hcloses, rfl, rfl⟩, by simp [textOf]⟩

/-- A comment is cut where its closing mark stands. -/
theorem cutComment?_eq_some_iff {depth : Nat} {tail body rest : List Char} :
    cutComment? depth tail = some (body, rest) ↔
      ∃ ms ns, Closes depth (marks tail) ms ns ∧ textOf ms = body ∧ textOf ns = rest := by
  induction depth, tail using cutComment?.induct generalizing body rest with
  | case1 depth cs ih =>
    have hshift (ms : List Mark) : depth + (Mark.opening :: ms).count .opening =
        (Mark.opening :: ms).count .closing ↔
        depth + 1 + ms.count .opening = ms.count .closing := by
      simp
      omega
    simp only [cutComment?, marks, closes_cons (by simp) hshift]
    exact map_eq_some_iff_of_mark (m := .opening) ih
  | case2 cs =>
    simp only [cutComment?, marks, closes_closing_zero]
    constructor
    · intro h
      cases h
      exact ⟨[], marks cs, ⟨rfl, rfl⟩, rfl, textOf_marks cs⟩
    · rintro ⟨-, -, ⟨rfl, rfl⟩, rfl, rfl⟩
      rw [textOf_marks]
      rfl
  | case3 cs depth ih =>
    have hshift (ms : List Mark) : depth + 1 + (Mark.closing :: ms).count .opening =
        (Mark.closing :: ms).count .closing ↔
        depth + ms.count .opening = ms.count .closing := by
      simp
      omega
    simp only [cutComment?, marks, closes_cons (fun _ => Nat.succ_ne_zero depth) hshift]
    exact map_eq_some_iff_of_mark (m := .closing) ih
  | case4 depth c cs h₁ h₂ ih =>
    have hshift (ms : List Mark) : depth + (Mark.char c :: ms).count .opening =
        (Mark.char c :: ms).count .closing ↔
        depth + ms.count .opening = ms.count .closing := by
      simp
    rw [cutComment?, marks]
    · simp only [closes_cons (by simp) hshift]
      exact map_eq_some_iff_of_mark (m := .char c) ih
    all_goals assumption
  | case5 depth =>
    simp only [cutComment?, marks]
    constructor
    · intro h
      cases h
    · rintro ⟨ms, ns, hcloses, -⟩
      simpa using hcloses.split

/-- A directive is cut at the first mark that ends one. -/
theorem cutDirective?_eq_some_iff {tail body rest : List Char} :
    cutDirective? tail = some (body, rest) ↔ EndsDirective tail body rest := by
  induction tail using cutDirective?.induct generalizing body rest with
  | case1 cs =>
    rw [cutDirective?]
    constructor
    · intro h
      cases h
      exact ⟨rfl, fun _ _ _ => Nat.zero_le _⟩
    · rintro ⟨htail, hfirst⟩
      have hlength := hfirst [] cs rfl
      obtain rfl := List.length_eq_zero_iff.1 (Nat.le_zero.1 hlength)
      simpa [directiveMark] using htail
  | case2 c cs hnot ih =>
    -- no mark stands at the start
    have hcons {p s : List Char} (h : c :: cs = p ++ directiveMark ++ s) :
        ∃ p', p = c :: p' ∧ cs = p' ++ directiveMark ++ s := by
      cases p with
      | nil =>
        obtain ⟨rfl, hcs⟩ := List.cons.inj h
        exact absurd hcs (hnot s rfl)
      | cons d p =>
        obtain ⟨rfl, hcs⟩ := List.cons.inj h
        exact ⟨p, rfl, hcs⟩
    rw [cutDirective?, Option.map_eq_some_iff]
    · constructor
      · rintro ⟨⟨body', rest'⟩, hcut, heq⟩
        cases heq
        obtain ⟨htail, hfirst⟩ := ih.1 hcut
        refine ⟨by simp [htail], fun p s hp => ?_⟩
        obtain ⟨p, rfl, hcs⟩ := hcons hp
        simpa using hfirst p s hcs
      · rintro ⟨htail, hfirst⟩
        obtain ⟨body, rfl, hcs⟩ := hcons htail
        refine ⟨(body, rest), ih.2 ⟨hcs, fun p s hp => ?_⟩, rfl⟩
        simpa using hfirst (c :: p) s (by simp [hp])
    · exact hnot
  | case3 =>
    constructor
    · intro h
      cases h
    · rintro ⟨htail, -⟩
      simp [directiveMark] at htail

/-- The text up to the end of a comment with `n` stars, and the text behind it. -/
def cut? (n : Nat) (tail : List Char) : Option (List Char × List Char) :=
  if n = 2 then cutComment? 0 tail else cutDirective? (List.replicate (n - 3) '*' ++ tail)

theorem cut?_eq_some_iff {n : Nat} {tail body rest : List Char} :
    cut? n tail = some (body, rest) ↔ Ends n tail body rest := by
  rw [cut?, Ends]
  split
  · exact cutComment?_eq_some_iff
  · exact cutDirective?_eq_some_iff

theorem Ends.unique {n : Nat} {tail body rest body' rest' : List Char}
    (h : Ends n tail body rest) (h' : Ends n tail body' rest') : body = body' ∧ rest = rest' := by
  rw [← cut?_eq_some_iff] at h h'
  rw [h] at h'
  cases h'
  exact ⟨rfl, rfl⟩

/-! ### Openings -/

theorem replicate_append_inj {n n' : Nat} {tail tail' : List Char}
    (h : List.replicate n '*' ++ tail = List.replicate n' '*' ++ tail')
    (hne : tail.head? ≠ some '*') (hne' : tail'.head? ≠ some '*') : n = n' ∧ tail = tail' := by
  induction n generalizing n' with
  | zero =>
    cases n' with
    | zero => exact ⟨rfl, h⟩
    | succ n' =>
      rw [List.replicate_zero, List.nil_append, List.replicate_succ, List.cons_append] at h
      exact absurd (by simp [h]) hne
  | succ n ih =>
    cases n' with
    | zero =>
      rw [List.replicate_zero, List.nil_append, List.replicate_succ, List.cons_append] at h
      exact absurd (by simp [← h]) hne'
    | succ n' =>
      rw [List.replicate_succ, List.replicate_succ, List.cons_append, List.cons_append] at h
      obtain ⟨rfl, rfl⟩ := ih (List.cons.inj h).2
      exact ⟨rfl, rfl⟩

theorem Opens.unique {cs tail tail' : List Char} {n n' : Nat} (h : Opens cs n tail)
    (h' : Opens cs n' tail') : n = n' ∧ tail = tail' :=
  replicate_append_inj (List.cons.inj (h.eq.symm.trans h'.eq)).2 h.ne_star h'.ne_star

/-- A comment opens with a parenthesis and two stars. -/
theorem Opens.exists_eq {cs tail : List Char} {n : Nat} (h : Opens cs n tail) :
    ∃ rest, cs = '(' :: '*' :: '*' :: rest := by
  obtain ⟨k, rfl⟩ := Nat.exists_eq_add_of_le' h.two_le
  exact ⟨List.replicate k '*' ++ tail, by simp [h.eq, List.replicate_succ]⟩

theorem isCode_nil (rest : List Char) : IsCode [] rest := by
  intro s hs hne
  exact absurd (List.suffix_nil.1 hs) hne

theorem isCode_cons {c : Char} {code rest : List Char} :
    IsCode (c :: code) rest ↔
      (∀ n tail, ¬ Opens (c :: code ++ rest) n tail) ∧ IsCode code rest := by
  constructor
  · intro h
    exact ⟨h _ (List.suffix_refl _) (by simp), fun s hs => h s (hs.trans (List.suffix_cons c code))⟩
  · rintro ⟨hfirst, hrest⟩ s hs hne
    obtain rfl | hs := List.suffix_cons_iff.1 hs
    · exact hfirst
    · exact hrest s hs hne

theorem isCode_append {code code' rest : List Char} :
    IsCode (code ++ code') rest ↔ IsCode code (code' ++ rest) ∧ IsCode code' rest := by
  induction code with
  | nil => simp [isCode_nil]
  | cons c code ih => simp [isCode_cons, ih, and_assoc]

/-- Only a parenthesis opens a comment. -/
theorem isCode_of_notMem {code : List Char} (h : '(' ∉ code) (rest : List Char) :
    IsCode code rest := by
  intro s hs hne n tail hopens
  cases s with
  | nil => exact hne rfl
  | cons c s =>
    obtain ⟨_, heq⟩ := hopens.exists_eq
    obtain ⟨rfl, -⟩ := List.cons.inj heq
    exact h (hs.mem List.mem_cons_self)

/-- A comment of stars alone is code. -/
theorem isCode_banner (n : Nat) (rest : List Char) :
    IsCode ('(' :: (List.replicate n '*' ++ [')'])) rest := by
  refine isCode_cons.2 ⟨fun n' tail hopens => ?_, isCode_of_notMem (by simp) rest⟩
  have heq : List.replicate n '*' ++ (')' :: rest) = List.replicate n' '*' ++ tail := by
    simpa using (List.cons.inj hopens.eq).2
  obtain ⟨-, rfl⟩ := replicate_append_inj heq (by simp) hopens.ne_star
  exact hopens.ne_paren rfl

/-- The first place where a comment opens is one place. -/
theorem eq_of_isCode {code code' cs cs' tail tail' : List Char} {n n' : Nat}
    (h : code ++ cs = code' ++ cs') (hcode : IsCode code cs) (hopens : Opens cs n tail)
    (hcode' : IsCode code' cs') (hopens' : Opens cs' n' tail') : code = code' ∧ cs = cs' := by
  obtain ⟨s, rfl, rfl⟩ | ⟨s, rfl, rfl⟩ := List.append_eq_append_iff.1 h
  · by_cases hs : s = []
    · simp [hs]
    · exact absurd hopens (hcode' s (List.suffix_append _ _) hs _ _)
  · by_cases hs : s = []
    · simp [hs]
    · exact absurd hopens' (hcode s (List.suffix_append _ _) hs _ _)

/-! ### Reading segments -/

theorem takeWhile_stars {n : Nat} {tail : List Char} (h : tail.head? ≠ some '*') :
    (List.replicate n '*' ++ tail).takeWhile (· = '*') = List.replicate n '*' := by
  rw [List.takeWhile_append_of_pos (by simp)]
  cases tail with
  | nil => simp
  | cons c tail =>
    have hc : c ≠ '*' := by simpa using h
    simp [hc]

/-- Behind a parenthesis and two stars, a comment of stars alone ends or another comment opens. -/
theorem exists_stars (cs : List Char) :
    (∃ n rest, 2 ≤ n ∧ '(' :: '*' :: '*' :: cs = '(' :: (List.replicate n '*' ++ ')' :: rest)) ∨
      ∃ n tail, Opens ('(' :: '*' :: '*' :: cs) n tail := by
  have hstars : cs.takeWhile (· = '*') = List.replicate (cs.takeWhile (· = '*')).length '*' :=
    List.eq_replicate_of_mem fun c hc => by
      simpa using List.all_eq_true.1 List.all_takeWhile c hc
  have hcs : '(' :: '*' :: '*' :: cs = '(' :: (List.replicate
      ((cs.takeWhile (· = '*')).length + 2) '*' ++ cs.dropWhile (· = '*')) := by
    rw [List.replicate_succ, List.replicate_succ, ← hstars]
    simp [List.takeWhile_append_dropWhile]
  have hhead : (cs.dropWhile (· = '*')).head? ≠ some '*' := by
    intro h
    have hnot := List.head?_dropWhile_not (fun c => decide (c = '*')) cs
    simp [h] at hnot
  by_cases hparen : (cs.dropWhile (· = '*')).head? = some ')'
  · obtain ⟨rest, hrest⟩ := List.head?_eq_some_iff.1 hparen
    exact .inl ⟨_, rest, by omega, hrest ▸ hcs⟩
  · exact .inr ⟨_, _, hcs, by omega, hhead, hparen⟩

/-- A comment of stars alone is read as code. -/
theorem segmentsFrom_banner (fuel : Nat) (code rest : List Char) {n : Nat} (hn : 2 ≤ n) :
    segmentsFrom (fuel + 1) code ('(' :: (List.replicate n '*' ++ ')' :: rest)) =
      segmentsFrom fuel (')' :: (List.replicate n '*' ++ '(' :: code)) rest := by
  obtain ⟨k, rfl⟩ := Nat.exists_eq_add_of_le' hn
  have hmore : (List.replicate k '*' ++ ')' :: rest).takeWhile (· = '*') = List.replicate k '*' :=
    takeWhile_stars (by simp)
  have hread : List.replicate (k + 2) '*' ++ '(' :: code =
      List.replicate k '*' ++ '*' :: '*' :: '(' :: code := by
    rw [List.replicate_succ', List.replicate_succ', List.append_assoc, List.append_assoc]
    rfl
  rw [hread, List.replicate_succ, List.replicate_succ]
  simp [segmentsFrom, hmore]

/-- A comment is read to its end, and what stands before it is code. -/
theorem segmentsFrom_of_opens (fuel : Nat) (code : List Char) {cs tail : List Char} {n : Nat}
    (h : Opens cs n tail) :
    segmentsFrom (fuel + 1) code cs =
      match cut? n tail with
      | some (body, rest) =>
        (segmentsFrom fuel [] rest).map fun segs => .code code.reverse :: .ofStars n body :: segs
      | none => .error (.ofStars n) := by
  obtain ⟨k, rfl⟩ := Nat.exists_eq_add_of_le' h.two_le
  have hmore : (List.replicate k '*' ++ tail).takeWhile (· = '*') = List.replicate k '*' :=
    takeWhile_stars h.ne_star
  have hparen : ∀ rest, tail ≠ ')' :: rest := by
    rintro rest rfl
    exact h.ne_paren rfl
  rw [h.eq, List.replicate_succ, List.replicate_succ, List.cons_append, List.cons_append,
    segmentsFrom]
  simp only [hmore, List.length_replicate, List.drop_left']
  have hmap (body rest : List Char) (s : Segment) : (do
      let segs ← segmentsFrom fuel [] rest
      pure (.code code.reverse :: s :: segs)) =
      (segmentsFrom fuel [] rest).map fun segs => Segment.code code.reverse :: s :: segs := by
    cases segmentsFrom fuel [] rest <;> rfl
  cases k with
  | zero =>
    simp only [List.replicate_zero, List.nil_append, List.isEmpty_nil, if_true, cut?,
      Segment.ofStars, Unterminated.ofStars]
    cases cutComment? 0 tail with
    | none => rfl
    | some r => exact hmap r.1 r.2 _
  | succ k =>
    have hne : k + 1 + 2 ≠ 2 := by omega
    simp only [List.replicate_succ, List.isEmpty_cons, Bool.false_eq_true, if_false,
      List.cons_append, List.tail_cons, cut?, Segment.ofStars, Unterminated.ofStars, hne]
    have hstars : k + 1 + 2 - 3 = k := by omega
    rw [hstars]
    cases cutDirective? (List.replicate k '*' ++ tail) with
    | none => rfl
    | some r => exact hmap r.1 r.2 _

/-- A comment that ends is its opening, its body and its end. -/
theorem Ends.eq_written {cs tail body rest : List Char} {n : Nat} (h : Ends n tail body rest)
    (hopens : Opens cs n tail) : cs = (Segment.ofStars n body).written ++ rest := by
  obtain ⟨k, rfl⟩ := Nat.exists_eq_add_of_le' hopens.two_le
  rw [hopens.eq]
  rw [Ends] at h
  cases k with
  | zero =>
    obtain ⟨ms, ns, hcloses, rfl, rfl⟩ := h
    have htail := textOf_marks tail
    rw [hcloses.split] at htail
    simp [Segment.ofStars, Segment.written, textOf, Mark.text, ← htail, List.replicate_succ]
  | succ k =>
    have hne : k + 1 + 2 ≠ 2 := by omega
    have hstars : k + 1 + 2 - 3 = k := by omega
    rw [if_neg hne, hstars] at h
    simp [Segment.ofStars, Segment.written, List.replicate_succ, h.1]

theorem Ends.length_lt {cs tail body rest : List Char} {n : Nat} (h : Ends n tail body rest)
    (hopens : Opens cs n tail) : rest.length < cs.length := by
  rw [h.eq_written hopens, Segment.ofStars]
  split <;> simp [Segment.written] <;> omega

/-- What the reader makes of a text is what the text is: its segments, or a comment without an
end. -/
def Outcome (cs : List Char) : Except Unterminated (List Segment) → Prop
  | .ok segs => Splits cs segs
  | .error e =>
    ∃ n tail, Meets cs n tail ∧ (∀ body rest, ¬ Ends n tail body rest) ∧ e = .ofStars n

/-- Behind code in which no comment opens, the outcome is that at the first comment. -/
theorem outcome_of_opens {code cs tail : List Char} {n : Nat} (hcode : IsCode code cs)
    (hopens : Opens cs n tail) {read : List Char → Except Unterminated (List Segment)}
    (hread : ∀ body rest, Ends n tail body rest → Outcome rest (read rest)) :
    Outcome (code ++ cs) (match cut? n tail with
      | some (body, rest) => (read rest).map fun segs => .code code :: .ofStars n body :: segs
      | none => .error (.ofStars n)) := by
  cases hcut : cut? n tail with
  | none =>
    refine ⟨n, tail, .first hcode hopens, fun body rest hends => ?_, rfl⟩
    rw [cut?_eq_some_iff.2 hends] at hcut
    cases hcut
  | some r =>
    obtain ⟨body, rest⟩ := r
    have hends := cut?_eq_some_iff.1 hcut
    have houtcome := hread body rest hends
    cases hrest : read rest with
    | ok segs =>
      rw [hrest] at houtcome
      simp only [hrest, Except.map]
      exact Splits.comment hcode hopens hends houtcome
    | error e =>
      rw [hrest] at houtcome
      simp only [hrest, Except.map]
      obtain ⟨n', tail', hmeets, hnot, rfl⟩ := houtcome
      exact ⟨n', tail', .later hcode hopens hends hmeets, hnot, rfl⟩

theorem outcome_segmentsFrom {fuel : Nat} (code cs : List Char) (hfuel : cs.length ≤ fuel)
    (hcode : IsCode code.reverse cs) :
    Outcome (code.reverse ++ cs) (segmentsFrom fuel code cs) := by
  induction fuel generalizing code cs with
  | zero =>
    obtain rfl := List.length_eq_zero_iff.1 (Nat.le_zero.1 hfuel)
    simpa [segmentsFrom, Outcome] using Splits.code hcode
  | succ fuel ih =>
    by_cases hstart : ∃ r, cs = '(' :: '*' :: '*' :: r
    · obtain ⟨r, rfl⟩ := hstart
      obtain ⟨n, rest, hn, heq⟩ | ⟨n, tail, hopens⟩ := exists_stars r
      · -- a comment of stars alone goes to the code before it
        rw [heq] at hfuel hcode ⊢
        have hread : (')' :: (List.replicate n '*' ++ '(' :: code)).reverse =
            code.reverse ++ '(' :: (List.replicate n '*' ++ [')']) := by simp
        have hrest : IsCode (')' :: (List.replicate n '*' ++ '(' :: code)).reverse rest := by
          rw [hread]
          exact isCode_append.2 ⟨by simpa using hcode, isCode_banner n rest⟩
        have houtcome := ih _ _ (by simp at hfuel; omega) hrest
        rw [segmentsFrom_banner fuel code rest hn]
        simpa [hread] using houtcome
      · rw [segmentsFrom_of_opens fuel code hopens]
        refine outcome_of_opens hcode hopens fun body rest hends => ?_
        have hlength := hends.length_lt hopens
        exact ih [] rest (by omega) (isCode_nil rest)
    · cases cs with
      | nil => simpa [segmentsFrom, Outcome] using Splits.code hcode
      | cons c cs =>
        have hnot : ∀ r, c = '(' → cs ≠ '*' :: '*' :: r := by
          rintro r rfl rfl
          exact hstart ⟨r, rfl⟩
        have hone : IsCode [c] cs := by
          refine isCode_cons.2 ⟨fun n tail hopens => ?_, isCode_nil cs⟩
          obtain ⟨r, hr⟩ := hopens.exists_eq
          exact hstart ⟨r, hr⟩
        have houtcome := ih (c :: code) cs (Nat.le_of_succ_le_succ hfuel)
          (by rw [List.reverse_cons]; exact isCode_append.2 ⟨hcode, hone⟩)
        rw [segmentsFrom]
        · simpa using houtcome
        · exact hnot

/-- The outcome of the reader is that of the text. -/
theorem outcome_segments (cs : List Char) : Outcome cs (segments cs) :=
  outcome_segmentsFrom [] cs (Nat.le_refl _) (isCode_nil cs)

/-! ### The grammar -/

/-- A comment that opens is no code. -/
theorem not_isCode_of_opens {code cs tail : List Char} {n : Nat} (h : Opens cs n tail) :
    ¬ IsCode (code ++ cs) [] := by
  intro hcode
  obtain ⟨r, rfl⟩ := h.exists_eq
  refine hcode _ (List.suffix_append code _) (by simp) n tail ?_
  rwa [List.append_nil]

/-- A text is cut in one way. -/
theorem Splits.unique {cs : List Char} {segs segs' : List Segment} (h : Splits cs segs)
    (h' : Splits cs segs') : segs = segs' := by
  induction h generalizing segs' with
  | code hcode =>
    cases h' with
    | code => rfl
    | comment _ hopens' => exact absurd hcode (not_isCode_of_opens hopens')
  | @comment code cs tail body rest n segs hcode hopens hends _ ih =>
    generalize htext : code ++ cs = text at h'
    cases h' with
    | code hcode' => exact absurd (htext ▸ hcode') (not_isCode_of_opens hopens)
    | comment hcode' hopens' hends' hrest' =>
      obtain ⟨rfl, rfl⟩ := eq_of_isCode htext hcode hopens hcode' hopens'
      obtain ⟨rfl, rfl⟩ := hopens.unique hopens'
      obtain ⟨rfl, rfl⟩ := hends.unique hends'
      rw [ih hrest']

/-- In a text that can be cut every comment ends. -/
theorem Splits.exists_ends {cs tail : List Char} {n : Nat} {segs : List Segment}
    (h : Splits cs segs) (hmeets : Meets cs n tail) : ∃ body rest, Ends n tail body rest := by
  induction h with
  | code hcode =>
    cases hmeets with
    | first _ hopens => exact absurd hcode (not_isCode_of_opens hopens)
    | later _ hopens => exact absurd hcode (not_isCode_of_opens hopens)
  | @comment code cs _ body rest _ _ hcode hopens hends _ ih =>
    generalize htext : code ++ cs = text at hmeets
    cases hmeets with
    | first hcode' hopens' =>
      obtain ⟨rfl, rfl⟩ := eq_of_isCode htext hcode hopens hcode' hopens'
      obtain ⟨rfl, rfl⟩ := hopens.unique hopens'
      exact ⟨body, rest, hends⟩
    | later hcode' hopens' hends' hrest' =>
      obtain ⟨rfl, rfl⟩ := eq_of_isCode htext hcode hopens hcode' hopens'
      obtain ⟨rfl, rfl⟩ := hopens.unique hopens'
      obtain ⟨rfl, rfl⟩ := hends.unique hends'
      exact ih hrest'

/-- Behind a comment that does not end no comment is met. -/
theorem Meets.unique_of_not_ends {cs tail tail' : List Char} {n n' : Nat} (h : Meets cs n tail)
    (hnot : ∀ body rest, ¬ Ends n tail body rest) (h' : Meets cs n' tail')
    (hnot' : ∀ body rest, ¬ Ends n' tail' body rest) : n = n' := by
  induction h with
  | @first code cs tail n hcode hopens =>
    generalize htext : code ++ cs = text at h'
    cases h' with
    | first hcode' hopens' =>
      obtain ⟨rfl, rfl⟩ := eq_of_isCode htext hcode hopens hcode' hopens'
      exact (hopens.unique hopens').1
    | later hcode' hopens' hends' =>
      obtain ⟨rfl, rfl⟩ := eq_of_isCode htext hcode hopens hcode' hopens'
      obtain ⟨rfl, rfl⟩ := hopens.unique hopens'
      exact absurd hends' (hnot _ _)
  | @later code cs _ _ _ _ _ _ hcode hopens hends _ ih =>
    generalize htext : code ++ cs = text at h'
    cases h' with
    | first hcode' hopens' =>
      obtain ⟨rfl, rfl⟩ := eq_of_isCode htext hcode hopens hcode' hopens'
      obtain ⟨rfl, rfl⟩ := hopens.unique hopens'
      exact absurd hends (hnot' _ _)
    | later hcode' hopens' hends' hrest' =>
      obtain ⟨rfl, rfl⟩ := eq_of_isCode htext hcode hopens hcode' hopens'
      obtain ⟨rfl, rfl⟩ := hopens.unique hopens'
      obtain ⟨rfl, rfl⟩ := hends.unique hends'
      exact ih hnot hrest'

/-- The segments with their marks are the text. -/
theorem Splits.flatMap_written {cs : List Char} {segs : List Segment} (h : Splits cs segs) :
    segs.flatMap Segment.written = cs := by
  induction h with
  | code _ => simp [Segment.written]
  | comment _ hopens hends _ ih =>
    rw [List.flatMap_cons, List.flatMap_cons, ih, ← hends.eq_written hopens]
    rfl

/-- The segments that are read are those of the text. -/
theorem segments_eq_ok_iff {cs : List Char} {segs : List Segment} :
    segments cs = .ok segs ↔ Splits cs segs := by
  have houtcome := outcome_segments cs
  constructor
  · intro h
    rw [h] at houtcome
    exact houtcome
  · intro h
    cases hread : segments cs with
    | ok segs' =>
      rw [hread] at houtcome
      rw [Splits.unique houtcome h]
    | error e =>
      rw [hread] at houtcome
      obtain ⟨n, tail, hmeets, hnot, -⟩ := houtcome
      obtain ⟨body, rest, hends⟩ := h.exists_ends hmeets
      exact absurd hends (hnot body rest)

/-- What is missing when nothing is read is the end of a comment that is met. -/
theorem segments_eq_error_iff {cs : List Char} {e : Unterminated} :
    segments cs = .error e ↔
      ∃ n tail, Meets cs n tail ∧ (∀ body rest, ¬ Ends n tail body rest) ∧ e = .ofStars n := by
  have houtcome := outcome_segments cs
  constructor
  · intro h
    rw [h] at houtcome
    exact houtcome
  · rintro ⟨n, tail, hmeets, hnot, rfl⟩
    cases hread : segments cs with
    | ok segs =>
      obtain ⟨body, rest, hends⟩ := (segments_eq_ok_iff.1 hread).exists_ends hmeets
      exact absurd hends (hnot body rest)
    | error e =>
      rw [hread] at houtcome
      obtain ⟨n', tail', hmeets', hnot', rfl⟩ := houtcome
      rw [hmeets.unique_of_not_ends hnot hmeets' hnot']

/-- Segments are read just when every comment that is met ends. -/
theorem exists_splits_iff {cs : List Char} :
    (∃ segs, Splits cs segs) ↔ ∀ n tail, Meets cs n tail → ∃ body rest, Ends n tail body rest := by
  constructor
  · rintro ⟨segs, h⟩ n tail
    exact h.exists_ends
  · intro h
    cases hread : segments cs with
    | ok segs => exact ⟨segs, segments_eq_ok_iff.1 hread⟩
    | error e =>
      obtain ⟨n, tail, hmeets, hnot, -⟩ := segments_eq_error_iff.1 hread
      obtain ⟨body, rest, hends⟩ := h n tail hmeets
      exact absurd hends (hnot body rest)

end LiterateJournal.Script
