import LiterateJournal.Text.SortedTable

/-!
# Files and directories

A directory holds files and directories by their names. What names lead to can be looked up and
changed; a change reaches nothing that the names do not lead to.

## Main definitions

* `Content`, `FileNode` — files and directories.
* `Entry`, `FileNode.entry` — a file or directory without what is in it.
* `FileNode.get?`, `FileNode.alter` — what names lead to, and its change.
* `FileNode.inside` — all that is in a directory.

## Main statements

* `FileNode.get?_alter_append` — what a change leaves at its place and below.
* `FileNode.entry_get?_alter` — what it leaves elsewhere.
-/

namespace LiterateJournal

/-- The content of a file: text, or bytes that are no text. -/
inductive Content where
  | text (s : String)
  | binary (bytes : List UInt8)
deriving Repr, BEq, DecidableEq

namespace Content

/-- Bytes as content: a text if they are valid UTF-8. -/
def ofBytes (bytes : ByteArray) : Content :=
  match String.fromUTF8? bytes with
  | some s => .text s
  | none => .binary bytes.toList

def toBytes : Content → ByteArray
  | .text s => s.toUTF8
  | .binary bytes => ⟨bytes.toArray⟩

end Content

/-- A file or a directory, with the time of its last change. -/
inductive Entry where
  | file (content : Content) (modified : Nat)
  | directory (modified : Nat)
deriving Repr, BEq, DecidableEq

namespace Entry

def modified : Entry → Nat
  | .file _ time => time
  | .directory time => time

def isDirectory : Entry → Bool
  | .directory _ => true
  | .file .. => false

end Entry

/-- A file, or a directory with what is in it, in increasing order of the names. -/
inductive FileNode where
  | file (content : Content) (modified : Nat)
  | directory (modified : Nat) (children : List (String × FileNode))
deriving Inhabited

abbrev Children := List (String × FileNode)

namespace FileNode

def entry : FileNode → Entry
  | .file content time => .file content time
  | .directory time _ => .directory time

def get? : List String → Option FileNode → Option FileNode
  | [], n => n
  | x :: xs, some (.directory _ children) => get? xs (children.lookup x)
  | _ :: _, _ => none

/-- Whether all but the last of some names lead to directories, so that something can be there. -/
def hasPlace : List String → Option FileNode → Bool
  | [], _ => true
  | x :: xs, some (.directory _ children) => hasPlace xs (children.lookup x)
  | _ :: _, _ => false

def alterChild (x : String) (f : Option FileNode → Option FileNode) (children : Children) :
    Children :=
  match f (children.lookup x) with
  | some n => SortedTable.insertEntry x n children
  | none => children.filter (·.1 ≠ x)

/-- Changes what names lead to, if it has a place. -/
def alter (f : Option FileNode → Option FileNode) :
    List String → Option FileNode → Option FileNode
  | [], n => f n
  | x :: xs, some (.directory time children) =>
    some (.directory time (alterChild x (alter f xs) children))
  | _ :: _, n => n

mutual

/-- All that is in a node, with the names that lead there; what is in a directory follows it. -/
def inside : FileNode → List (List String × Entry)
  | .file .. => []
  | .directory _ children => insideAll children

def insideAll : Children → List (List String × Entry)
  | [] => []
  | (x, n) :: rest =>
    ([x], n.entry) :: (n.inside.map fun (names, e) => (x :: names, e)) ++ insideAll rest

end

theorem lookup_filter_ne (children : Children) (x k : String) :
    (children.filter (·.1 ≠ x)).lookup k = if k = x then none else children.lookup k := by
  induction children with
  | nil => simp
  | cons c rest ih =>
    obtain ⟨y, n⟩ := c
    by_cases hy : y = x
    · subst hy
      by_cases hk : k = y
      · subst hk
        rw [List.filter_cons_of_neg (by simp), ih]
        simp
      · rw [List.filter_cons_of_neg (by simp), ih, List.lookup_cons, beq_eq_false_iff_ne.2 hk]
    · rw [List.filter_cons_of_pos (by simpa using hy), List.lookup_cons, List.lookup_cons, ih]
      by_cases hk : k = y
      · subst hk
        simp [hy]
      · simp [beq_eq_false_iff_ne.2 hk]

theorem lookup_alterChild (x k : String) (f : Option FileNode → Option FileNode)
    (children : Children) :
    (alterChild x f children).lookup k =
      if k = x then f (children.lookup x) else children.lookup k := by
  unfold alterChild
  split
  · rename_i h
    rw [SortedTable.lookup_insertEntry, h]
  · rename_i h
    rw [lookup_filter_ne, h]

theorem get?_alter_append (f : Option FileNode → Option FileNode) (loc rest : List String)
    (n : Option FileNode) (h : hasPlace loc n = true) :
    get? (loc ++ rest) (alter f loc n) = get? rest (f (get? loc n)) := by
  induction loc generalizing n with
  | nil => rfl
  | cons x xs ih =>
    match n, h with
    | some (.directory time children), h =>
      simp only [List.cons_append, alter, get?, lookup_alterChild, if_true]
      exact ih _ h

theorem entry_get?_alter (f : Option FileNode → Option FileNode) (loc k : List String)
    (n : Option FileNode) (h : ¬ loc <+: k) :
    (get? k (alter f loc n)).map entry = (get? k n).map entry := by
  induction loc generalizing k n with
  | nil => exact absurd List.nil_prefix h
  | cons x xs ih =>
    match n with
    | none => rfl
    | some (.file ..) => rfl
    | some (.directory time children) =>
      match k with
      | [] => rfl
      | y :: ys =>
        simp only [alter, get?, lookup_alterChild]
        by_cases hy : y = x
        · subst hy
          rw [if_pos rfl]
          exact ih _ _ fun hp => h (List.cons_prefix_cons.2 ⟨rfl, hp⟩)
        · rw [if_neg hy]

end FileNode

end LiterateJournal
