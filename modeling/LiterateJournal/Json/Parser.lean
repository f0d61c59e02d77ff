import LiterateJournal.Json.Value

/-!
# Reading JSON

Each reader takes the characters that are left and gives back what it did not read. A value may
have white space around its parts. Of fields with one name the last one counts, and values that nest
too deep are refused.

## Main definitions

* `Json.parse?` — the value that a JSON text is.
-/

namespace LiterateJournal.Json

namespace Parser

def isGap (c : Char) : Bool := c = ' ' || c = '\n' || c = '\t' || c = '\r'

def skipGap (cs : List Char) : List Char := cs.dropWhile isGap

def hexValue? (c : Char) : Option Nat :=
  if '0' ≤ c && c ≤ '9' then some (c.toNat - 48)
  else if 'a' ≤ c && c ≤ 'f' then some (c.toNat - 87)
  else if 'A' ≤ c && c ≤ 'F' then some (c.toNat - 55)
  else none

def unit? : List Char → Option (Nat × List Char)
  | a :: b :: c :: d :: cs => do
    let a ← hexValue? a
    let b ← hexValue? b
    let c ← hexValue? c
    let d ← hexValue? d
    some (((a * 16 + b) * 16 + c) * 16 + d, cs)
  | _ => none

/-- The character whose code units are written with `\u`, after the first one's mark: a character
beyond the first 65536 takes two units. -/
def unicodeEscape? (cs : List Char) : Option (Char × List Char) := do
  let (n, cs) ← unit? cs
  if 0xD800 ≤ n && n < 0xDC00 then
    match cs with
    | '\\' :: 'u' :: cs =>
      let (m, cs) ← unit? cs
      if 0xDC00 ≤ m && m < 0xE000 then
        some (Char.ofNat (0x10000 + (n - 0xD800) * 0x400 + (m - 0xDC00)), cs)
      else none
    | _ => none
  else if 0xDC00 ≤ n && n < 0xE000 then none
  else some (Char.ofNat n, cs)

/-- The character that an escape stands for, after its backslash, and the rest. -/
def escape? : List Char → Option (Char × List Char)
  | '"' :: cs => some ('"', cs)
  | '\\' :: cs => some ('\\', cs)
  | '/' :: cs => some ('/', cs)
  | 'b' :: cs => some ('\x08', cs)
  | 'f' :: cs => some ('\x0c', cs)
  | 'n' :: cs => some ('\n', cs)
  | 'r' :: cs => some ('\r', cs)
  | 't' :: cs => some ('\t', cs)
  | 'u' :: cs => unicodeEscape? cs
  | _ => none

/-- The characters of a string up to its closing quotation mark, and the rest; at most `fuel`
characters are read. -/
def string? : Nat → List Char → Option (List Char × List Char)
  | 0, _ => none
  | _, [] => none
  | fuel + 1, c :: cs =>
    if c = '"' then some ([], cs)
    else if c.toNat < 32 then none
    else if c = '\\' then do
      let (d, cs) ← escape? cs
      let (s, rest) ← string? fuel cs
      some (d :: s, rest)
    else do
      let (s, rest) ← string? fuel cs
      some (c :: s, rest)

/-- The digits after a mark, of which there must be one at least, and the rest. -/
def digits? (cs : List Char) : Option (List Char × List Char) :=
  match cs.takeWhile Char.isDigit with
  | [] => none
  | ds => some (ds, cs.drop ds.length)

/-- The part of a number after the point, with the point; it may be missing. -/
def fraction? : List Char → Option (List Char × List Char)
  | '.' :: cs => (digits? cs).map fun (ds, rest) => ('.' :: ds, rest)
  | cs => some ([], cs)

/-- The exponent of a number with its mark; it may be missing. -/
def exponent? (cs : List Char) : Option (List Char × List Char) :=
  match cs with
  | e :: sign :: rest =>
    if e = 'e' || e = 'E' then
      if sign = '+' || sign = '-' then
        (digits? rest).map fun (ds, rest) => (e :: sign :: ds, rest)
      else (digits? (sign :: rest)).map fun (ds, rest) => (e :: ds, rest)
    else some ([], cs)
  | [e] => if e = 'e' || e = 'E' then none else some ([], cs)
  | [] => some ([], [])

def valueOf (ds : List Char) : Nat := ds.foldl (fun n c => n * 10 + (c.toNat - 48)) 0

/-- A number, and the rest. Its first digit is zero only if it has no other before the point. -/
def number? (cs : List Char) : Option (Json × List Char) := do
  let (sign, cs) := match cs with
    | '-' :: cs => (['-'], cs)
    | _ => ([], cs)
  let (whole, cs) ← digits? cs
  if whole.head? = some '0' && whole.length ≠ 1 then none
  let (fraction, cs) ← fraction? cs
  let (exponent, cs) ← exponent? cs
  if sign.isEmpty && fraction.isEmpty && exponent.isEmpty then some (.number (valueOf whole), cs)
  else some (.otherNumber (String.ofList (sign ++ whole ++ fraction ++ exponent)), cs)

mutual

def value? : Nat → List Char → Option (Json × List Char)
  | 0, _ => none
  | fuel + 1, cs =>
    match skipGap cs with
    | 'n' :: 'u' :: 'l' :: 'l' :: cs => some (.null, cs)
    | 't' :: 'r' :: 'u' :: 'e' :: cs => some (.bool true, cs)
    | 'f' :: 'a' :: 'l' :: 's' :: 'e' :: cs => some (.bool false, cs)
    | '"' :: cs => (string? fuel cs).map fun (s, rest) => (.text (String.ofList s), rest)
    | '[' :: cs =>
      match skipGap cs with
      | ']' :: cs => some (.list [], cs)
      | cs => do
        let (j, rest) ← value? fuel cs
        let (js, rest) ← items? fuel rest
        some (.list (j :: js), rest)
    | '\x7b' :: cs =>
      match skipGap cs with
      | '\x7d' :: cs => some (.object [], cs)
      | cs => do
        let (f, rest) ← field? fuel cs
        let (fs, rest) ← fields? fuel rest
        some (.object (lastFields (f :: fs)), rest)
    | cs => number? cs

/-- The further items of a list up to its closing bracket, and the rest. -/
def items? : Nat → List Char → Option (List Json × List Char)
  | 0, _ => none
  | fuel + 1, cs =>
    match skipGap cs with
    | ']' :: cs => some ([], cs)
    | ',' :: cs => do
      let (j, rest) ← value? fuel cs
      let (js, rest) ← items? fuel rest
      some (j :: js, rest)
    | _ => none

def field? : Nat → List Char → Option ((String × Json) × List Char)
  | 0, _ => none
  | fuel + 1, cs =>
    match skipGap cs with
    | '"' :: cs => do
      let (name, rest) ← string? fuel cs
      match skipGap rest with
      | ':' :: cs => do
        let (j, rest) ← value? fuel cs
        some ((String.ofList name, j), rest)
      | _ => none
    | _ => none

/-- The further fields of an object up to its closing brace, and the rest. -/
def fields? : Nat → List Char → Option (List (String × Json) × List Char)
  | 0, _ => none
  | fuel + 1, cs =>
    match skipGap cs with
    | '\x7d' :: cs => some ([], cs)
    | ',' :: cs => do
      let (f, rest) ← field? fuel cs
      let (fs, rest) ← fields? fuel rest
      some (f :: fs, rest)
    | _ => none

end

end Parser

def maxDepth : Nat := 127

def parse? (text : String) : Option Json := do
  let cs := text.toList
  let (j, rest) ← Parser.value? (cs.length + 1) cs
  if (Parser.skipGap rest).isEmpty && j.depth ≤ maxDepth then some j else none

end LiterateJournal.Json
