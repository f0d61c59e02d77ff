import LiterateJournal.Markdown.EntityTable
import LiterateJournal.Markdown.HtmlTag

/-!
# Character references

`&name;`, `&#decimal;` and `&#xhex;` stand for characters. A number that is no character stands for
the replacement character, and a name must be known and closed by a semicolon.
-/

namespace LiterateJournal.Markdown

def decimalValue (cs : List Char) : Nat := cs.foldl (fun n c => n * 10 + (c.toNat - 48)) 0

def hexDigit? (c : Char) : Option Nat :=
  let n := c.toNat
  if 48 ≤ n && n ≤ 57 then some (n - 48)
  else if 97 ≤ n && n ≤ 102 then some (n - 87)
  else if 65 ≤ n && n ≤ 70 then some (n - 55)
  else none

/-- The code points that a name stands for, in the table's form. -/
def parseRecord (record : List Char) : List Char × List Char :=
  let name := record.takeWhile (· ≠ ' ')
  let codes := record.dropWhile (· ≠ ' ')
  let (done, last) := codes.foldl
    (fun (acc : List Char × Option (List Char)) c =>
      match c, acc.2 with
      | ' ', none => (acc.1, some [])
      | ' ', some ds => (acc.1 ++ [Char.ofNat (decimalValue ds)], some [])
      | c, ds => (acc.1, some (ds.getD [] ++ [c])))
    ([], none)
  (name, match last with
    | some ds => done ++ [Char.ofNat (decimalValue ds)]
    | none => done)

def cutRecords (line : List Char) : List (List Char) :=
  let (done, _) := line.foldl
    (fun (acc : List (List Char) × List Char) c =>
      if c = ';' then (acc.2.reverse :: acc.1, []) else (acc.1, c :: acc.2))
    ([], [])
  done.reverse

def entities : List (List Char × List Char) :=
  entityRecords.flatMap fun line => (cutRecords line.toList).map parseRecord

def numberedChar (n : Nat) : Char :=
  if n = 0 then '\ufffd' else if h : n.isValidChar then Char.ofNatAux n h else '\ufffd'

/-- The text of the character reference that stands here, after its ampersand, and the number of
characters of the reference that follow the ampersand. -/
def reference? (cs : List Char) : Option (List Char × Nat) :=
  match cs with
  | '#' :: x :: rest =>
    if x = 'x' || x = 'X' then
      let digits := (rest.take 6).takeWhile fun c => (hexDigit? c).isSome
      let value := digits.foldl (fun n c => n * 16 + (hexDigit? c).getD 0) 0
      if digits.isEmpty || (rest.drop digits.length).head? ≠ some ';' then none
      else some ([numberedChar value], digits.length + 3)
    else
      let digits := ((x :: rest).take 7).takeWhile Char.isDigit
      if digits.isEmpty || ((x :: rest).drop digits.length).head? ≠ some ';' then none
      else some ([numberedChar (decimalValue digits)], digits.length + 2)
  | _ =>
    let name := cs.takeWhile isLetterOrDigit
    if (cs.drop name.length).head? ≠ some ';' then none
    else (entities.lookup name).map fun text => (text, name.length + 1)

end LiterateJournal.Markdown
