import LiterateJournal.Proofs.Output.LatexNesting
import LiterateJournal.Proofs.Output.Numbers

/-!
# The numbers of list items in LaTeX

TeX counts the items of a numbered list with a counter that belongs to the depth of the list. It
starts anew with the list, and a command can set it. The writer sets the counter of the outermost
depth, at every depth, and cannot set a counter below nothing.

## Main definitions

* `Latex.numbers` — the numbers that TeX puts before the items.
* `NumberedList.Alike` — a numbered list that is numbered as on an HTML page.

## Main statements

* `numbers_agree_iff` — both outputs have the numbers of the document just when its numbered lists
  are alike.
-/

namespace LiterateJournal

/-! ### Numbered lists -/

structure NumberedList where
  /-- How many numbered lists are open in it, itself included. -/
  depth : Nat
  start : UInt64
deriving Repr, DecidableEq

/-- A list for whose first number TeX finds the right counter, at a depth that has one. -/
structure NumberedList.Alike (l : NumberedList) : Prop where
  depth_le : l.depth ≤ 4
  start_eq : l.start = 1 ∨ l.depth = 1 ∧ l.start ≠ 0

mutual

/-- The numbered lists in a block, which stands in `depth` of them. -/
def Block.numberedLists (depth : Nat) : Block → List NumberedList
  | .list (.numbered start) items => ⟨depth + 1, start⟩ :: numberedListsInCells (depth + 1) items
  | .list .bulleted items => numberedListsInCells depth items
  | .quote body => numberedLists depth body
  | .table _ header rows => numberedListsInCells depth header ++ numberedListsInRows depth rows
  | .heading _ _ | .paragraph _ | .code _ _ | .raw _ | .math _ | .rule => []

def numberedLists (depth : Nat) : List Block → List NumberedList
  | [] => []
  | b :: bs => b.numberedLists depth ++ numberedLists depth bs

def numberedListsInCells (depth : Nat) : List (List Block) → List NumberedList
  | [] => []
  | cell :: cells => numberedLists depth cell ++ numberedListsInCells depth cells

def numberedListsInRows (depth : Nat) : List (List (List Block)) → List NumberedList
  | [] => []
  | row :: rows => numberedListsInCells depth row ++ numberedListsInRows depth rows

end

/-- A part whose address is plain, and which is no numbered list without items. -/
structure Part.Listed (links : LinkTable) (p : Part) : Prop where
  plain : ∀ url ∈ p.address? links, Latex.IsPlainAddress url
  hasItem : ∀ start, p ≠ .block (.list (.numbered start) [])

namespace Latex

open Scanner

/-! ### Executing commands -/

/-- What of a command that sets a counter has been executed. -/
inductive Setting where
  | nothing
  | command
  | name (cs : List Char)
  | named (name : String)
  | number (name : String) (digits : List Char)
deriving Repr, DecidableEq

/-- What TeX knows of lists. -/
structure Machine where
  /-- Whether the open lists are numbered, innermost first. -/
  lists : List Bool
  counters : String → Nat
  setting : Setting

def counterNames : List String := ["enumi", "enumii", "enumiii", "enumiv"]

def isNumbered? (name : String) : Option Bool :=
  if name = "enumerate" then some true else if name = "itemize" then some false else none

namespace Machine

def depth (m : Machine) : Nat := m.lists.count true

def set (m : Machine) (name : String) (n : Nat) : Machine :=
  { m with counters := fun c => if c = name then n else m.counters c }

/-- Opens a list. A numbered one starts its counter anew, if there is one for its depth. -/
def openList (m : Machine) (isNumbered : Bool) : Option Machine :=
  if isNumbered then
    counterNames[m.depth]?.map fun c => { m.set c 0 with lists := true :: m.lists }
  else some { m with lists := false :: m.lists }

def closeList (m : Machine) (isNumbered : Bool) : Option Machine :=
  match m.lists with
  | [] => none
  | b :: outer => if b = isNumbered then some { m with lists := outer } else none

def counter? (m : Machine) : Option String :=
  match m.lists with
  | true :: outer => counterNames[outer.count true]?
  | _ => none

def next? (m : Machine) : Option Nat := m.counter?.map fun c => m.counters c + 1

def item (m : Machine) : Option (List (Option Nat) × Machine) :=
  match m.lists, m.counter? with
  | [], _ => none
  | _, some c => some ([some (m.counters c + 1)], m.set c (m.counters c + 1))
  | _, none => some ([none], m)

end Machine

/-- Executes a token. Only what opens and closes lists, begins items and sets counters matters. -/
def execute : Scanner Machine Token (Option Nat)
  | m, t =>
    match m.setting, t with
    | .nothing, .beginning name =>
      match isNumbered? name with
      | some b => (m.openList b).map fun m' => ([], m')
      | none => some ([], m)
    | .nothing, .ending name =>
      match isNumbered? name with
      | some b => (m.closeList b).map fun m' => ([], m')
      | none => some ([], m)
    | .nothing, .command name =>
      if name = "item" then m.item
      else if name = "setcounter" then some ([], { m with setting := .command })
      else some ([], m)
    | .nothing, _ => some ([], m)
    | .command, .leftBrace => some ([], { m with setting := .name [] })
    | .name cs, .char c => some ([], { m with setting := .name (cs ++ [c]) })
    | .name cs, .rightBrace => some ([], { m with setting := .named (String.ofList cs) })
    | .named name, .leftBrace => some ([], { m with setting := .number name [] })
    | .number name digits, .char c => some ([], { m with setting := .number name (digits ++ [c]) })
    | .number name digits, .rightBrace =>
      (decimal? digits).map fun n => ([], { m.set name n with setting := .nothing })
    | _, _ => none

def numbers (fragment : String) : Option (List (Option Nat)) :=
  (read fragment).bind fun tokens =>
    (Scanner.run execute ⟨[], fun _ => 0, .nothing⟩ tokens).map Prod.fst

/-! ### What commands leave alone -/

namespace Machine

variable {m m' m'' : Machine} {d : Nat}

/-- Commands have been executed in full, and the lists that were open are open again. -/
structure Rests (m m' : Machine) : Prop where
  setting : m'.setting = .nothing
  lists : m'.lists = m.lists

/-- The counters of the outer `d` numbered lists have not changed. -/
def Keeps (d : Nat) (m m' : Machine) : Prop :=
  ∀ i < d, ∀ c ∈ counterNames[i]?, m'.counters c = m.counters c

theorem Rests.trans (h : Rests m m') (h' : Rests m' m'') : Rests m m'' :=
  ⟨h'.setting, h'.lists.trans h.lists⟩

theorem Rests.depth_eq (h : Rests m m') : m'.depth = m.depth := by rw [depth, depth, h.lists]

theorem Keeps.refl (d : Nat) (m : Machine) : Keeps d m m := fun _ _ _ _ => rfl

theorem Keeps.trans (h : Keeps d m m') (h' : Keeps d m' m'') : Keeps d m m'' :=
  fun i hi c hc => (h' i hi c hc).trans (h i hi c hc)

theorem Keeps.mono {k : Nat} (h : Keeps d m m') (hk : k ≤ d) : Keeps k m m' :=
  fun i hi => h i (by omega)

theorem counterNames_inj {i j : Nat} {c : String} (hi : counterNames[i]? = some c)
    (hj : counterNames[j]? = some c) : i = j := by
  have hnodup : counterNames.Nodup := by decide
  exact (List.getElem?_inj (List.getElem?_eq_some_iff.1 hi).1 hnodup).1 (hi.trans hj.symm)

/-- The counter of a depth is none of those further out. -/
theorem keeps_set {c : String} (hc : counterNames[d]? = some c) (n : Nat) :
    Keeps d m (m.set c n) := by
  intro i hi c' hc'
  have hne : c' ≠ c := by
    rintro rfl
    exact absurd (counterNames_inj hc' hc) (by omega)
  simp [set, hne]

def advance (m : Machine) : Machine :=
  match m.counter? with
  | some c => m.set c (m.counters c + 1)
  | none => m

theorem item_eq (h : m.lists ≠ []) : m.item = some ([m.next?], m.advance) := by
  cases hlists : m.lists with
  | nil => exact absurd hlists h
  | cons b outer => cases hc : m.counter? <;> simp [item, next?, advance, hlists, hc]

@[simp] theorem advance_lists : m.advance.lists = m.lists := by
  unfold advance
  split <;> rfl

@[simp] theorem advance_setting : m.advance.setting = m.setting := by
  unfold advance
  split <;> rfl

theorem counter?_congr (h : m'.lists = m.lists) : m'.counter? = m.counter? := by
  rw [counter?, counter?, h]

theorem next?_advance : m.advance.next? = m.next?.map (· + 1) := by
  rw [next?, counter?_congr advance_lists, next?]
  cases hc : m.counter? with
  | none => rfl
  | some c => simp [advance, hc, set]

/-- An item leaves the counters of the lists around its own alone. -/
theorem keeps_advance {b : Bool} {outer : List Bool} (h : m.lists = b :: outer) :
    Keeps (outer.count true) m m.advance := by
  unfold advance
  split
  · rename_i c hc
    unfold counter? at hc
    split at hc
    · rename_i outer' hlists
      obtain ⟨-, rfl⟩ := List.cons.inj (h.symm.trans hlists)
      exact keeps_set hc _
    · cases hc
  · exact .refl _ m

theorem count_le_depth {b : Bool} {outer : List Bool} (h : m.lists = b :: outer) :
    outer.count true ≤ m.depth := by
  rw [depth, h]
  exact List.count_le_count_cons

/-- The counter of the innermost list belongs to an open list. -/
theorem next?_of_keeps (h : Rests m m') (hkeeps : Keeps m.depth m m') : m'.next? = m.next? := by
  rw [next?, next?, counter?_congr h.lists]
  cases hc : m.counter? with
  | none => rfl
  | some c =>
    unfold counter? at hc
    split at hc
    · rename_i outer hlists
      have hlt : outer.count true < m.depth := by simp [depth, hlists]
      rw [Option.map_some, Option.map_some, hkeeps (outer.count true) hlt c hc]
    · cases hc

end Machine

/-! ### What tokens do -/

def Token.isQuiet : Token → Bool
  | .command name => name ∉ ["item", "setcounter"]
  | .beginning name | .ending name => (isNumbered? name).isNone
  | .char _ | .leftBrace | .rightBrace | .verbatim _ => true

theorem execute_of_isQuiet {m : Machine} {t : Token} (hm : m.setting = .nothing)
    (ht : t.isQuiet = true) : execute m t = some ([], m) := by
  cases t with
  | command name =>
    simp only [Token.isQuiet, List.mem_cons, List.not_mem_nil, or_false, not_or,
      decide_eq_true_eq] at ht
    simp [execute, hm, ht]
  | beginning name | ending name =>
    rw [Token.isQuiet, Option.isNone_iff_eq_none] at ht
    simp [execute, hm, ht]
  | char c | leftBrace | rightBrace | verbatim text => simp [execute, hm]

/-- Tokens that have nothing to do with lists. -/
def Quiet (ts : List Token) : Prop := ∀ t ∈ ts, t.isQuiet = true

theorem leads_of_quiet {m : Machine} (hm : m.setting = .nothing) {ts : List Token}
    (h : Quiet ts) : Leads execute m ts [] m := by
  induction ts with
  | nil => exact Leads.refl execute m
  | cons t ts ih =>
    exact Leads.cons (execute_of_isQuiet hm (h t List.mem_cons_self))
      (ih fun u hu => h u (List.mem_cons_of_mem _ hu))

/-- Executed in some numbered lists, tokens have the numbers `ns` just when all of the numbered
lists `lists` among them are alike; and in any case as many numbers. -/
structure Executes (depth : Nat) (ts : List Token) (ns : List (Option Nat))
    (lists : List NumberedList) : Prop where
  right : ∀ {m : Machine}, m.setting = .nothing → m.depth = depth → (∀ l ∈ lists, l.Alike) →
    ∃ m', Leads execute m ts ns m' ∧ m.Rests m' ∧ Machine.Keeps depth m m'
  only : ∀ {m : Machine} {out m'}, m.setting = .nothing → m.depth = depth →
    Leads execute m ts out m' →
    m.Rests m' ∧ out.length = ns.length ∧ (out = ns → ∀ l ∈ lists, l.Alike)

namespace Executes

variable {d : Nat} {ts us : List Token} {ms ns : List (Option Nat)} {ks ls : List NumberedList}

theorem quiet (h : Quiet ts) : Executes d ts [] [] where
  right := fun hm _ _ => ⟨_, leads_of_quiet hm h, ⟨hm, rfl⟩, .refl d _⟩
  only := by
    intro m out m' hm _ hleads
    obtain ⟨rfl, rfl⟩ := hleads.unique (leads_of_quiet hm h)
    exact ⟨⟨hm, rfl⟩, rfl, by simp⟩

theorem append (ht : Executes d ts ms ks) (hu : Executes d us ns ls) :
    Executes d (ts ++ us) (ms ++ ns) (ks ++ ls) where
  right := by
    intro m hm hd halike
    obtain ⟨m₁, ht', hrests, hkeeps⟩ :=
      ht.right hm hd fun l hl => halike l (List.mem_append_left _ hl)
    obtain ⟨m₂, hu', hrests', hkeeps'⟩ := hu.right hrests.setting (hrests.depth_eq.trans hd)
      fun l hl => halike l (List.mem_append_right _ hl)
    exact ⟨m₂, ht'.append hu', hrests.trans hrests', hkeeps.trans hkeeps'⟩
  only := by
    intro m out m' hm hd hleads
    obtain ⟨out₁, m₁, out₂, ht', hu', rfl⟩ := leads_append.1 hleads
    obtain ⟨hrests, hlength, hnumbers⟩ := ht.only hm hd ht'
    obtain ⟨hrests', hlength', hnumbers'⟩ :=
      hu.only hrests.setting (hrests.depth_eq.trans hd) hu'
    refine ⟨hrests.trans hrests', by simp [hlength, hlength'], fun heq l hl => ?_⟩
    obtain ⟨hout₁, hout₂⟩ := List.append_inj heq hlength
    obtain hl | hl := List.mem_append.1 hl
    · exact hnumbers hout₁ l hl
    · exact hnumbers' hout₂ l hl

theorem afterQuiet (hu : Executes d us ns ls) (h : Quiet ts) :
    Executes d (ts ++ us) ns ls :=
  (quiet h).append hu

theorem beforeQuiet (ht : Executes d ts ns ls) (h : Quiet us) :
    Executes d (ts ++ us) ns ls := by
  simpa using ht.append (quiet h)

end Executes

/-- Executed in a list, the tokens of items have numbers from that of the first one on, just when it
is the next one and all of the numbered lists `lists` in the items are alike. -/
structure ExecutesItems (depth : Nat) (ts : List Token) (ns : Option Nat → List (Option Nat))
    (lists : List NumberedList) (HasItem : Prop) : Prop where
  right : ∀ {m : Machine} {b outer}, m.setting = .nothing → m.lists = b :: outer →
    m.depth = depth → (∀ l ∈ lists, l.Alike) →
    ∃ m', Leads execute m ts (ns m.next?) m' ∧ m.Rests m' ∧
      Machine.Keeps (outer.count true) m m'
  only : ∀ {m : Machine} {b outer out m'} (number : Option Nat), m.setting = .nothing →
    m.lists = b :: outer → m.depth = depth → Leads execute m ts out m' →
    m.Rests m' ∧ out.length = (ns number).length ∧
      (out = ns number → (∀ l ∈ lists, l.Alike) ∧ (HasItem → m.next? = number))

namespace ExecutesItems

variable {d : Nat} {ts us : List Token} {ms : List (Option Nat)}
  {ns : Option Nat → List (Option Nat)} {ks ls : List NumberedList} {P : Prop}

theorem empty (d : Nat) (hP : ¬ P) : ExecutesItems d [] (fun _ => []) [] P where
  right := fun hm _ _ _ => ⟨_, Leads.refl execute _, ⟨hm, rfl⟩, .refl _ _⟩
  only := by
    intro m b outer out m' number hm _ _ hleads
    obtain ⟨rfl, rfl⟩ := leads_nil.1 hleads
    exact ⟨⟨hm, rfl⟩, rfl, by simp [hP]⟩

theorem cons {Q : Prop} (ht : Executes d ts ms ks) (hu : ExecutesItems d us ns ls P) :
    ExecutesItems d (.command "item" :: ts ++ us)
      (fun number => number :: ms ++ ns (number.map (· + 1))) (ks ++ ls) Q := by
  have hitem {m : Machine} (hm : m.setting = .nothing) {b outer} (hlists : m.lists = b :: outer) :
      execute m (.command "item") = some ([m.next?], m.advance) := by
    simp [execute, hm, Machine.item_eq (m := m) (by simp [hlists])]
  have hadvance {m : Machine} (hm : m.setting = .nothing) (hd : m.depth = d) :
      m.advance.setting = .nothing ∧ m.advance.depth = d :=
    ⟨by simp [hm], by rw [← hd, Machine.depth, Machine.depth, Machine.advance_lists]⟩
  constructor
  · intro m b outer hm hlists hd halike
    obtain ⟨hm', hd'⟩ := hadvance hm hd
    obtain ⟨m₁, ht', hrests, hkeeps⟩ :=
      ht.right hm' hd' fun l hl => halike l (List.mem_append_left _ hl)
    have hlists₁ : m₁.lists = b :: outer := by rw [hrests.lists, Machine.advance_lists, hlists]
    obtain ⟨m₂, hu', hrests', hkeeps'⟩ := hu.right hrests.setting hlists₁
      (hrests.depth_eq.trans hd') fun l hl => halike l (List.mem_append_right _ hl)
    rw [Machine.next?_of_keeps hrests (hd' ▸ hkeeps), Machine.next?_advance] at hu'
    refine ⟨m₂, (Leads.cons (hitem hm hlists) ht').append hu', ?_, ?_⟩
    · exact ⟨hrests'.setting, by rw [hrests'.lists, hlists₁, hlists]⟩
    · have hle := Machine.count_le_depth hlists
      exact ((Machine.keeps_advance hlists).trans (hkeeps.mono (hd ▸ hle))).trans hkeeps'
  · intro m b outer out m' number hm hlists hd hleads
    obtain ⟨hm', hd'⟩ := hadvance hm hd
    have hfirst := Leads.single (hitem hm hlists)
    obtain ⟨out, hrest, rfl⟩ := hfirst.of_append (by simpa using hleads)
    obtain ⟨out₁, m₁, out₂, ht', hu', rfl⟩ := leads_append.1 hrest
    obtain ⟨hrests, hlength, hnumbers⟩ := ht.only hm' hd' ht'
    have hlists₁ : m₁.lists = b :: outer := by rw [hrests.lists, Machine.advance_lists, hlists]
    obtain ⟨hrests', hlength', hnumbers'⟩ := hu.only (number.map (· + 1)) hrests.setting hlists₁
      (hrests.depth_eq.trans hd') hu'
    refine ⟨⟨hrests'.setting, by rw [hrests'.lists, hlists₁, hlists]⟩,
      by simp [hlength, hlength'], fun heq => ?_⟩
    rw [List.singleton_append, List.cons_append, List.cons.injEq] at heq
    obtain ⟨hout₁, hout₂⟩ := List.append_inj heq.2 hlength
    refine ⟨fun l hl => ?_, fun _ => heq.1⟩
    obtain hl | hl := List.mem_append.1 hl
    · exact hnumbers hout₁ l hl
    · exact (hnumbers' hout₂).1 l hl

end ExecutesItems

/-! ### Lists -/

/-- A list has been opened, and its first item gets `number` just when the lists `own` are alike. -/
structure Machine.Opened (m m' : Machine) (isNumbered : Bool) (number : Option Nat)
    (own : List NumberedList) : Prop where
  setting : m'.setting = .nothing
  lists : m'.lists = isNumbered :: m.lists
  keeps : (∀ l ∈ own, l.Alike) → Machine.Keeps m.depth m m'
  alike_iff : (∀ l ∈ own, l.Alike) ↔ m'.next? = number

/-- The tokens at the beginning of a list open it, or nothing can be alike any more. -/
def Opens (depth : Nat) (opening : List Token) (isNumbered : Bool) (number : Option Nat)
    (own : List NumberedList) : Prop :=
  ∀ m : Machine, m.setting = .nothing → m.depth = depth →
    (∃ m', Leads execute m opening [] m' ∧ m.Opened m' isNumbered number own) ∨
      Scanner.run execute m opening = none ∧ ¬ ∀ l ∈ own, l.Alike

/-- The end of a list leaves the lists around it. -/
theorem leads_ending {m : Machine} {name : String} {b : Bool} {outer : List Bool}
    (hname : isNumbered? name = some b) (hm : m.setting = .nothing) (h : m.lists = b :: outer) :
    Leads execute m [.ending name] [] { m with lists := outer } := by
  refine Leads.single ?_
  simp [execute, hm, hname, Machine.closeList, h]

/-- A list is executed as its beginning, its items and its end. -/
theorem Executes.environment {d : Nat} {name : String} {b : Bool} {opening ts : List Token}
    {ns : Option Nat → List (Option Nat)} {number : Option Nat} {own ls : List NumberedList}
    {P : Prop} (hname : isNumbered? name = some b)
    (hopens : Opens d (.beginning name :: opening) b number own)
    (hitems : ExecutesItems (if b then d + 1 else d) ts ns ls P) (hP : own ≠ [] → P) :
    Executes d (environmentTokens name (opening ++ ts)) (ns number) (own ++ ls) := by
  have hdepth {m m' : Machine} (hd : m.depth = d) (hlists : m'.lists = b :: m.lists) :
      m'.depth = if b then d + 1 else d := by
    rw [Machine.depth, hlists, ← hd]
    cases b <;> simp [Machine.depth]
  have hsplit : environmentTokens name (opening ++ ts) =
      (.beginning name :: opening) ++ (ts ++ [.ending name]) := by
    simp [environmentTokens]
  rw [hsplit]
  constructor
  · intro m hm hd halike
    have hown : ∀ l ∈ own, l.Alike := fun l hl => halike l (List.mem_append_left _ hl)
    obtain ⟨m₁, hopen, hopened⟩ | ⟨-, hnot⟩ := hopens m hm hd
    · obtain ⟨m₂, hrun, hrests, hkeeps⟩ := hitems.right hopened.setting hopened.lists
        (hdepth hd hopened.lists) fun l hl => halike l (List.mem_append_right _ hl)
      rw [hopened.alike_iff.1 hown] at hrun
      have hend := leads_ending hname hrests.setting (hrests.lists.trans hopened.lists)
      refine ⟨{ m₂ with lists := m.lists }, hopen.append (by simpa using hrun.append hend),
        ⟨hrests.setting, rfl⟩, ?_⟩
      exact hd ▸ (hopened.keeps hown).trans hkeeps
    · exact absurd hown hnot
  · intro m out m' hm hd hleads
    obtain ⟨m₁, hopen, hopened⟩ | ⟨hnone, -⟩ := hopens m hm hd
    · obtain ⟨out, hrest, rfl⟩ := hopen.of_append hleads
      obtain ⟨out₁, m₂, out₂, hrun, hlast, rfl⟩ := leads_append.1 hrest
      obtain ⟨hrests, hlength, hnumbers⟩ := hitems.only number hopened.setting hopened.lists
        (hdepth hd hopened.lists) hrun
      obtain ⟨rfl, rfl⟩ := hlast.unique
        (leads_ending hname hrests.setting (hrests.lists.trans hopened.lists))
      refine ⟨⟨hrests.setting, rfl⟩, by simpa using hlength, fun heq l hl => ?_⟩
      obtain ⟨hinner, hfirst⟩ := hnumbers (by simpa using heq)
      obtain hl | hl := List.mem_append.1 hl
      · exact hopened.alike_iff.2 (hfirst (hP (List.ne_nil_of_mem hl))) l hl
      · exact hinner l hl
    · obtain ⟨out₁, m₁, out₂, hopen, -, -⟩ := leads_append.1 hleads
      rw [Leads, hnone] at hopen
      cases hopen

theorem opens_bulleted (d : Nat) : Opens d [.beginning "itemize"] false none [] := by
  intro m hm _
  refine .inl ⟨{ m with lists := false :: m.lists }, Leads.single ?_, hm, rfl, ?_, ?_⟩
  · simp [execute, hm, isNumbered?, Machine.openList]
  · exact fun _ => .refl _ _
  · simp [Machine.next?, Machine.counter?]

/-- The command that sets a counter. -/
theorem leads_setcounter {m : Machine} (hm : m.setting = .nothing) (name : String) (n : Nat) :
    Leads execute m
      (.command "setcounter" :: groupTokens (name.toList.map .char) ++
        groupTokens ((Nat.toDigits 10 n).map .char)) [] (m.set name n) := by
  have hcommand :
      execute m (.command "setcounter") = some ([], { m with setting := .command }) := by
    simp [execute, hm]
  have hopening : Leads execute { m with setting := .command } [.leftBrace] []
      { m with setting := .name [] } := rfl
  have hname : Leads execute { m with setting := .name [] } (name.toList.map .char) []
      { m with setting := .name name.toList } :=
    leads_collect_map (f := fun cs => { m with setting := .name cs }) (p := fun _ => True)
      (fun _ _ _ => rfl) [] fun _ _ => trivial
  have hbetween : Leads execute { m with setting := .name name.toList } [.rightBrace, .leftBrace] []
      { m with setting := .number name [] } := by
    have hright : execute { m with setting := .name name.toList } .rightBrace =
        some ([], { m with setting := .named name }) := by
      simp [execute]
    exact Leads.cons hright rfl
  have hnumber : Leads execute { m with setting := .number name [] }
      ((Nat.toDigits 10 n).map .char) [] { m with setting := .number name (Nat.toDigits 10 n) } :=
    leads_collect_map (f := fun cs => { m with setting := .number name cs }) (p := fun _ => True)
      (fun _ _ _ => rfl) [] fun _ _ => trivial
  have hlast : Leads execute { m with setting := .number name (Nat.toDigits 10 n) } [.rightBrace] []
      (m.set name n) := by
    refine Leads.single ?_
    simp [execute, decimal?_toDigits, Machine.set, hm]
  simpa [groupTokens] using
    Leads.cons hcommand ((((hopening.append hname).append hbetween).append hnumber).append hlast)

theorem leads_counterTokens {m : Machine} (hm : m.setting = .nothing) (start : UInt64) :
    Leads execute m (counterTokens (.numbered start)) []
      (if start = 1 then m else m.set "enumi" (start.toNat - 1)) := by
  rw [counterTokens]
  split
  · exact Leads.refl execute m
  · have hset := leads_setcounter hm "enumi" (start.toNat - 1)
    have hdigit : (toString (start.toNat - 1)).toList.all Char.isAlphanum = true := by
      refine List.all_eq_true.2 fun c hc => ?_
      simp [Char.isAlphanum, isDigit_of_mem_toString hc]
    rw [commandTokens, textTokens_eq_map (by decide), textTokens_eq_map hdigit]
    simpa using hset

/-- A numbered list is alike just when its counter has been set to the number before the first. -/
theorem alike_iff_counter {d : Nat} {c : String} (hc : counterNames[d]? = some c)
    (start : UInt64) :
    NumberedList.Alike ⟨d + 1, start⟩ ↔
      (if start ≠ 1 ∧ c = "enumi" then start.toNat - 1 else 0) + 1 = start.toNat := by
  have hle : d + 1 ≤ 4 := (List.getElem?_eq_some_iff.1 hc).1
  have hfirst : c = "enumi" ↔ d = 0 := by
    refine ⟨?_, ?_⟩
    · rintro rfl
      exact Machine.counterNames_inj hc rfl
    · rintro rfl
      exact (Option.some.inj hc).symm
  have hone : start = 1 ↔ start.toNat = 1 := by rw [← UInt64.toNat_inj]; rfl
  have hzero : start = 0 ↔ start.toNat = 0 := by rw [← UInt64.toNat_inj]; rfl
  have halike : NumberedList.Alike ⟨d + 1, start⟩ ↔ start = 1 ∨ d = 0 ∧ start ≠ 0 :=
    ⟨fun h => by simpa using h.start_eq, fun h => ⟨hle, by simpa using h⟩⟩
  simp only [halike, hfirst, ne_eq, hone, hzero]
  split <;> omega

theorem opens_numbered (d : Nat) (start : UInt64) :
    Opens d (.beginning "enumerate" :: counterTokens (.numbered start)) true (some start.toNat)
      [⟨d + 1, start⟩] := by
  intro m hm hd
  have hopen : execute m (.beginning "enumerate") = (counterNames[d]?).map fun c =>
      ([], { m.set c 0 with lists := true :: m.lists }) := by
    simp [execute, hm, isNumbered?, Machine.openList, hd, Function.comp_def]
  cases hc : counterNames[d]? with
  | none =>
    rw [hc] at hopen
    refine .inr ⟨by simp [Scanner.run, hopen], ?_⟩
    have hlength := List.getElem?_eq_none_iff.1 hc
    simp only [List.mem_singleton, forall_eq]
    intro halike
    have hdepth := halike.depth_le
    simp [counterNames] at hlength hdepth
    omega
  | some c =>
    rw [hc] at hopen
    have hset := leads_counterTokens (m := { m.set c 0 with lists := true :: m.lists }) hm start
    refine .inl ⟨_, Leads.cons hopen hset, ?_, ?_, ?_, ?_⟩
    · split <;> exact hm
    · split <;> rfl
    · intro halike
      obtain ⟨-, hone | ⟨hdepth, -⟩⟩ := halike _ (List.mem_singleton_self _)
      · rw [if_pos hone, hd]
        exact Machine.keeps_set hc 0
      · obtain rfl : d = 0 := by simpa using hdepth
        rw [hd]
        exact fun i hi => absurd hi (Nat.not_lt_zero i)
    · rw [List.forall_mem_singleton, alike_iff_counter hc]
      have hcounter {m' : Machine} (h : m'.lists = true :: m.lists) : m'.counter? = some c := by
        rw [Machine.counter?, h, ← hc, ← hd, Machine.depth]
      by_cases hone : start = 1
      · simp [Machine.next?, hcounter, Machine.set, hone]
      · simp [Machine.next?, hcounter, Machine.set, hone]

/-! ### Documents -/

@[simp] theorem quiet_nil : Quiet [] := by simp [Quiet]

@[simp] theorem quiet_cons {t : Token} {ts : List Token} :
    Quiet (t :: ts) ↔ t.isQuiet = true ∧ Quiet ts :=
  List.forall_mem_cons

@[simp] theorem quiet_append {ts us : List Token} : Quiet (ts ++ us) ↔ Quiet ts ∧ Quiet us :=
  List.forall_mem_append

@[simp] theorem quiet_groupTokens {ts : List Token} : Quiet (groupTokens ts) ↔ Quiet ts := by
  simp [groupTokens, Token.isQuiet]

theorem holdsInline_isQuiet : HoldsInline fun t => t.isQuiet = true :=
  ⟨fun _ => rfl, rfl, rfl, by decide⟩

@[simp] theorem quiet_textTokens (s : String) : Quiet (textTokens s) := holdsInline_isQuiet.text s

theorem quiet_addressTokens {url : String} (h : IsPlainAddress url) :
    Quiet (addressTokens url) := by
  have hchars : Quiet ((url.toList.filter fun c => !Text.isBlank c).map .char) := by
    intro t ht
    obtain ⟨c, -, rfl⟩ := List.mem_map.1 ht
    rfl
  rw [addressTokens_of_leads (leads_plainAddress h)]
  simpa [Token.isQuiet] using hchars

theorem quiet_sectionTokens (level : UInt8) : Quiet (sectionTokens level) := by
  rw [sectionTokens]
  split <;> simp [Token.isQuiet]

section

variable {links : LinkTable}

/-- No span has anything to do with lists. -/
theorem quiet_tokensOfSpans (spans : List Span)
    (h : ∀ t ∈ innerSpans spans, (Part.span t).Listed links) :
    Quiet (tokensOfSpans links spans) :=
  holdsInline_isQuiet.spans spans fun t ht url hurl => quiet_addressTokens ((h t ht).plain url hurl)

/-- An environment that is no list. -/
theorem Executes.enclosed {d : Nat} {name : String} {ts : List Token} {ns : List (Option Nat)}
    {ls : List NumberedList} (hname : isNumbered? name = none) (h : Executes d ts ns ls) :
    Executes d (environmentTokens name ts) ns ls := by
  have hbegin : Quiet [.beginning name] := by simp [Token.isQuiet, hname]
  have hend : Quiet [.ending name] := by simp [Token.isQuiet, hname]
  simpa [environmentTokens] using (h.afterQuiet hbegin).beforeQuiet hend

mutual

theorem executes_block (d : Nat) : (b : Block) → (∀ p ∈ b.parts, p.Listed links) →
    Executes d (tokensOfBlock links b) b.numbers (b.numberedLists d)
  | .heading level body, h => by
    have hbody := quiet_tokensOfSpans body fun t ht =>
      h (.span t) (List.mem_cons_of_mem _ (List.mem_map_of_mem ht))
    rw [tokensOfBlock, Block.numbers, Block.numberedLists]
    exact .quiet (by simp [quiet_sectionTokens, hbody])
  | .paragraph body, h => by
    have hbody := quiet_tokensOfSpans body fun t ht =>
      h (.span t) (List.mem_cons_of_mem _ (List.mem_map_of_mem ht))
    rw [tokensOfBlock, Block.numbers, Block.numberedLists]
    exact .quiet hbody
  | .code source _, _ => by
    rw [tokensOfBlock, Block.numbers, Block.numberedLists]
    exact .quiet (by simp [Token.isQuiet])
  | .raw _, _ | .math _, _ => by
    rw [tokensOfBlock, Block.numbers, Block.numberedLists]
    exact .quiet quiet_nil
  | .rule, _ => by
    rw [tokensOfBlock, Block.numbers, Block.numberedLists]
    have hwidth : Quiet (addressTokens "\\linewidth") := by unfold Quiet; decide
    exact .quiet (by simp [ruleTokens, Token.isQuiet, hwidth])
  | .list .bulleted items, h => by
    have hitems := executes_items d items fun p hp => h p (List.mem_cons_of_mem _ hp)
    rw [tokensOfBlock, Block.numbers, Block.numberedLists]
    exact .environment rfl (opens_bulleted d) hitems (by simp)
  | .list (.numbered start) items, h => by
    have hitems := executes_items (d + 1) items fun p hp => h p (List.mem_cons_of_mem _ hp)
    have hne : items ≠ [] := by
      rintro rfl
      exact (h _ (by simp [Block.parts])).hasItem start rfl
    rw [tokensOfBlock, Block.numbers, Block.numberedLists]
    exact .environment rfl (opens_numbered d start) hitems fun _ => hne
  | .quote body, h => by
    have hbody := executes_blocks d body fun p hp => h p (List.mem_cons_of_mem _ hp)
    rw [tokensOfBlock, Block.numbers, Block.numberedLists]
    exact .enclosed rfl hbody
  | .table alignments header rows, h => by
    have hheader := executes_cells d header
      fun p hp => h p (List.mem_cons_of_mem _ (List.mem_append_left _ hp))
    have hrows := executes_rows d rows
      fun p hp => h p (List.mem_cons_of_mem _ (List.mem_append_right _ hp))
    rw [tokensOfBlock, Block.numbers, Block.numberedLists]
    refine .enclosed rfl (.afterQuiet (.append ?_ hrows) (by simp))
    cases header with
    | nil => exact hheader
    | cons cell cells => exact hheader.beforeQuiet (by simp [Token.isQuiet])

theorem executes_blocks (d : Nat) : (blocks : List Block) →
    (∀ p ∈ partsOf blocks, p.Listed links) →
    Executes d (tokensOfBlocks links blocks) (numbersOf blocks) (numberedLists d blocks)
  | [], _ => by
    rw [tokensOfBlocks, numbersOf, numberedLists]
    exact .quiet quiet_nil
  | b :: bs, h => by
    rw [tokensOfBlocks, numbersOf, numberedLists]
    exact .append (executes_block d b fun p hp => h p (List.mem_append_left _ hp))
      (executes_blocks d bs fun p hp => h p (List.mem_append_right _ hp))

theorem executes_items (d : Nat) : (items : List (List Block)) →
    (∀ p ∈ partsInCells items, p.Listed links) →
    ExecutesItems d (tokensOfItems links items) (fun number => numbersInItems number items)
      (numberedListsInCells d items) (items ≠ [])
  | [], _ => by
    rw [tokensOfItems, numberedListsInCells]
    exact .empty d (by simp)
  | item :: items, h => by
    have hitem := executes_blocks d item fun p hp => h p (List.mem_append_left _ hp)
    have hitems := executes_items d items fun p hp => h p (List.mem_append_right _ hp)
    rw [tokensOfItems, numberedListsInCells]
    exact .cons hitem hitems

theorem executes_cells (d : Nat) : (cells : List (List Block)) →
    (∀ p ∈ partsInCells cells, p.Listed links) →
    Executes d (tokensOfCells links cells) (numbersInCells cells) (numberedListsInCells d cells)
  | [], _ => by
    rw [tokensOfCells, numbersInCells, numberedListsInCells]
    exact .quiet quiet_nil
  | [cell], h => by
    have hcell := executes_blocks d cell fun p hp => h p (List.mem_append_left _ hp)
    simpa [tokensOfCells, numbersInCells, numberedListsInCells] using hcell
  | cell :: next :: rest, h => by
    have hcell := executes_blocks d cell fun p hp => h p (List.mem_append_left _ hp)
    have hcells := executes_cells d (next :: rest) fun p hp => h p (List.mem_append_right _ hp)
    have hmark : Quiet [.char '&'] := by simp [Token.isQuiet]
    rw [tokensOfCells, numbersInCells, numberedListsInCells]
    exact hcell.append (hcells.afterQuiet hmark)

theorem executes_rows (d : Nat) : (rows : List (List (List Block))) →
    (∀ p ∈ partsInRows rows, p.Listed links) →
    Executes d (tokensOfRows links rows) (numbersInRows rows) (numberedListsInRows d rows)
  | [], _ => by
    rw [tokensOfRows, numbersInRows, numberedListsInRows]
    exact .quiet quiet_nil
  | row :: rows, h => by
    have hrow := executes_cells d row fun p hp => h p (List.mem_append_left _ hp)
    have hrows := executes_rows d rows fun p hp => h p (List.mem_append_right _ hp)
    have hmark : Quiet [.command "\\"] := by simp [Token.isQuiet]
    rw [tokensOfRows, numbersInRows, numberedListsInRows]
    exact hrow.append (hrows.afterQuiet hmark)

end

end

end Latex

/-! ### The two outputs -/

/-- On an HTML page the items of a document have its numbers. In LaTeX they have them just when
every numbered list is alike: it stands in at most three others and starts with one, or it stands in
none and does not start with zero. -/
theorem numbers_agree_iff (links : LinkTable) (blocks : List Block) (hplain : Latex.Plain blocks)
    (hitems : ∀ start, .block (.list (.numbered start) []) ∉ partsOf blocks)
    (haddresses : ∀ url ∈ addressesIn links blocks, Latex.IsPlainAddress url)
    (hcodes : ∀ code ∈ codesIn blocks, ¬ Latex.endMark <:+: code.toList) :
    Html.numbers (Html.writeBlocks links blocks) = some (numbersOf blocks) ∧
      (Latex.numbers (Latex.writeBlocks links blocks) = some (numbersOf blocks) ↔
        ∀ l ∈ numberedLists 0 blocks, l.Alike) := by
  have hlisted : ∀ p ∈ partsOf blocks, p.Listed links := by
    refine fun p hp => ⟨fun url hurl => ?_, fun start hstart => hitems start (hstart ▸ hp)⟩
    exact haddresses url (List.mem_filterMap.2 ⟨p, hp, hurl⟩)
  have hcontained : ∀ p ∈ partsOf blocks, p.Contained links := by
    refine fun p hp => ⟨(hplain p hp).1, (hplain p hp).2, fun url hurl => ?_, fun code hcode => ?_⟩
    · exact Latex.closed_of_isPlainAddress ((hlisted p hp).plain url hurl)
    · exact hcodes code (List.mem_filterMap.2 ⟨p, hp, hcode⟩)
  have hexecutes := Latex.executes_blocks 0 blocks hlisted
  refine ⟨Html.numbers_eq links fun p hp => (hplain p hp).1, ?_⟩
  rw [Latex.numbers, Latex.read_writeBlocks hcontained, Option.bind_some]
  constructor
  · intro hnumbers
    obtain ⟨⟨out, m⟩, hrun, rfl⟩ := Option.map_eq_some_iff.1 hnumbers
    exact (hexecutes.only rfl rfl hrun).2.2 rfl
  · intro halike
    obtain ⟨m, hrun, -⟩ := hexecutes.right (m := ⟨[], fun _ => 0, .nothing⟩) rfl rfl halike
    rw [hrun, Option.map_some]

/-- Two numbered lists, the outer one of which starts with three. -/
def shiftedBlocks : List Block :=
  [.list (.numbered 3) [[.paragraph [.text "a"],
    .list (.numbered 1) [[.paragraph [.link [.text "x"] "http://h/" none]]]],
    [.paragraph [.text "b"]]]]

theorem numbers_agree_of_shiftedBlocks :
    Html.numbers (Html.writeBlocks .empty shiftedBlocks) = some [some 3, some 1, some 4] ∧
      Latex.numbers (Latex.writeBlocks .empty shiftedBlocks) = some [some 3, some 1, some 4] := by
  have hagree := numbers_agree_iff .empty shiftedBlocks (by
    simp [Latex.Plain, shiftedBlocks, partsOf, partsInCells, Block.parts, innerSpans,
      Span.withInner, Part.isRaw, Part.isMath]) (by
    simp [shiftedBlocks, partsOf, partsInCells, Block.parts]) (by
    have haddresses : addressesIn .empty shiftedBlocks = ["http://h/"] := rfl
    rw [haddresses]
    decide) (by
    have hcodes : codesIn shiftedBlocks = [] := rfl
    simp [hcodes])
  refine ⟨hagree.1, hagree.2.2 ?_⟩
  have hlists : numberedLists 0 shiftedBlocks = [⟨1, 3⟩, ⟨2, 1⟩] := rfl
  rw [hlists]
  simp only [List.mem_cons, List.not_mem_nil, or_false, forall_eq_or_imp, forall_eq]
  exact ⟨⟨by decide, .inr ⟨rfl, by decide⟩⟩, ⟨by decide, .inl rfl⟩⟩

/-- The inner list starts with three, the outer one with one. -/
def nestedBlocks : List Block :=
  [.list (.numbered 1) [[.paragraph [.text "a"], .list (.numbered 3) [[.paragraph [.text "b"]]]],
    [.paragraph [.text "c"]]]]

/-- The first number of the inner list goes to the outer one. -/
theorem numbers_differ :
    Html.numbers (Html.writeBlocks .empty nestedBlocks) = some [some 1, some 3, some 2] ∧
      Latex.numbers (Latex.writeBlocks .empty nestedBlocks) = some [some 1, some 1, some 3] := by
  have hraw : ∀ p ∈ partsOf nestedBlocks, p.isRaw = false := by
    simp [nestedBlocks, partsOf, partsInCells, Block.parts, innerSpans, Span.withInner, Part.isRaw]
  exact ⟨Html.numbers_eq .empty hraw, by decide +kernel⟩

end LiterateJournal
