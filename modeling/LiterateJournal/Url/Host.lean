import LiterateJournal.Text.Blank
import LiterateJournal.Text.Fold
import LiterateJournal.Url.Percent
import LiterateJournal.Url.Punycode

/-!
# Hosts of URLs

A host is an address in brackets, four numbers, or a name. Names are case folded, and labels beyond
ASCII are written in Punycode. Every host is given by its normal form, a text.

## Main definitions

* `UrlError` — why a text is no URL.
* `Host.ofText` — the normal form of a host of a special scheme.
* `Host.ofOpaque` — the normal form of a host of another scheme.
-/

namespace LiterateJournal

/-- Why a text is no URL. -/
inductive UrlError where
  /-- There is no scheme. -/
  | relative
  | emptyHost
  | invalidPort
  | invalidIpv4
  | invalidIpv6
  /-- The host is no domain name, in ASCII or beyond. -/
  | invalidDomain
  /-- A host of an unknown scheme has a character that no host may have. -/
  | invalidHostCharacter
deriving Repr, BEq, DecidableEq

def UrlError.message : UrlError → String
  | .relative => "relative URL without a base"
  | .emptyHost => "empty host"
  | .invalidPort => "invalid port number"
  | .invalidIpv4 => "invalid IPv4 address"
  | .invalidIpv6 => "invalid IPv6 address"
  | .invalidDomain => "invalid international domain name"
  | .invalidHostCharacter => "invalid domain character"

namespace Host

open LiterateJournal.Text (cutAt joinWith)

/-! ### Addresses of four numbers -/

/-- The number that some digits write in a base, if all are digits of it. -/
def digitsValue? (base : Nat) (cs : List Char) : Option Nat :=
  cs.foldl
    (fun acc c => do
      let n ← acc
      let d ← Percent.hexValue? c
      if d < base then some (n * base + d) else none)
    (some 0)

/-- The number that a part of an address is. It is octal after a zero and hexadecimal after a zero
and an x. -/
def part? (cs : List Char) : Option Nat :=
  match cs with
  | [] => none
  | '0' :: 'x' :: ds | '0' :: 'X' :: ds => digitsValue? 16 ds
  | '0' :: d :: ds => digitsValue? 8 (d :: ds)
  | ds => digitsValue? 10 ds

/-- The labels of a name, without the empty one after a dot at its end. -/
def labels (name : List Char) : List (List Char) :=
  let all := cutAt '.' name
  if all.getLast? = some [] then all.dropLast else all

/-- Whether a name must be an address, as its last label is a number. -/
def endsInNumber (name : List Char) : Bool :=
  match (labels name).getLast? with
  | some last => (!last.isEmpty && last.all Char.isDigit) || (part? last).isSome
  | none => false

def decimal (n : Nat) : List Char := Nat.toDigits 10 n

/-- An address of four numbers; the last one stands for all that are missing. -/
def ipv4 (name : List Char) : Except UrlError (List Char) :=
  match (labels name).mapM part? with
  | none => .error .invalidIpv4
  | some parts =>
    match parts.reverse with
    | [] => .error .invalidIpv4
    | last :: front =>
      let n := front.length
      if 3 < n || Nat.pow 256 (4 - n) ≤ last || front.any (255 < ·) then .error .invalidIpv4
      else
        let start := front.reverse.foldl (fun acc x => acc * 256 + x) 0
        let value := start * Nat.pow 256 (4 - n) + last
        .ok (joinWith ['.'] ([3, 2, 1, 0].map fun i => decimal (value / Nat.pow 256 i % 256)))

/-! ### Addresses in brackets -/

/-- The four hexadecimal digits at most, the number they write, and the rest. -/
def piece? (cs : List Char) : Option (Nat × List Char) :=
  match (cs.take 4).takeWhile fun c => (Percent.hexValue? c).isSome with
  | [] => none
  | ds => (digitsValue? 16 ds).map fun n => (n, cs.drop ds.length)

/-- The number of a dotted part, which has no zero before another digit. -/
def dottedPart? (cs : List Char) : Option Nat :=
  match cs with
  | '0' :: _ :: _ => none
  | ds => do
    if ds.isEmpty || !ds.all Char.isDigit then none
    let n ← digitsValue? 10 ds
    if n < 256 then some n else none

def dottedPieces? (cs : List Char) : Option (List Nat) := do
  match ← (cutAt '.' cs).mapM dottedPart? with
  | [a, b, c, d] => some [a * 256 + b, c * 256 + d]
  | _ => none

/-- Pieces with colons between them, of which the last two may be dotted; at most `fuel`. -/
def pieces? : Nat → List Char → Option (List Nat)
  | 0, _ => none
  | fuel + 1, cs =>
    if !cs.contains ':' && cs.contains '.' then dottedPieces? cs
    else do
      let (n, rest) ← piece? cs
      match rest with
      | [] => some [n]
      | ':' :: rest => do some (n :: (← pieces? fuel rest))
      | _ => none

/-- The text before the first two colons in a row, and the text after them. -/
def cutColons? : List Char → Option (List Char × List Char)
  | ':' :: ':' :: cs => some ([], cs)
  | c :: cs => (cutColons? cs).map fun (before, after) => (c :: before, after)
  | [] => none

/-- The eight pieces of an address; two colons stand for the zeros that are missing. -/
def ipv6Pieces? (cs : List Char) : Option (List Nat) := do
  let all (cs : List Char) := if cs.isEmpty then some [] else pieces? (cs.length + 1) cs
  match cutColons? cs with
  | none =>
    let ps ← all cs
    if ps.length = 8 then some ps else none
  | some (before, after) =>
    if before.contains '.' then none
    let front ← all before
    let back ← all after
    if front.length + back.length ≤ 7 then
      some (front ++ List.replicate (8 - (front.length + back.length)) 0 ++ back)
    else none

def longestZeros : Nat → List Nat → Nat × Nat
  | _, [] => (0, 0)
  | i, p :: ps =>
    let here := ((p :: ps).takeWhile (· = 0)).length
    let later := longestZeros (i + 1) ps
    if 0 < here && later.2 ≤ here then (i, here) else later

def hexText (n : Nat) : List Char := Nat.toDigits 16 n

/-- The text of an address: two or more zeros, the first of the longest runs, are left out. -/
def ipv6Text (ps : List Nat) : List Char :=
  let text (ps : List Nat) := joinWith [':'] (ps.map hexText)
  let (i, n) := longestZeros 0 ps
  if n < 2 then text ps else text (ps.take i) ++ ':' :: ':' :: text (ps.drop (i + n))

def bracketed (cs : List Char) : Except UrlError (List Char) :=
  match cs.reverse with
  | ']' :: inner =>
    match ipv6Pieces? inner.reverse with
    | some ps => .ok ('[' :: ipv6Text ps ++ [']'])
    | none => .error .invalidIpv6
  | _ => .error .invalidIpv6

/-! ### Names -/

def isForbidden (c : Char) : Bool :=
  c.toNat = 0 || "\t\n\r #/:<>?@[\\]^|".toList.contains c

def isForbiddenInDomain (c : Char) : Bool :=
  isForbidden c || c.toNat < 32 || c = '%' || c.toNat = 127

/-- The usual form of a character in a name: full width forms are ASCII, the dots of other scripts
are dots, and some characters that show nothing are dropped. -/
def usualForm (c : Char) : List Char :=
  let n := c.toNat
  if 0xFF01 ≤ n && n ≤ 0xFF5E then [Char.ofNat (n - 0xFEE0)]
  else if n = 0x3002 || n = 0xFF61 then ['.']
  else if n = 0xAD || n = 0x200B || n = 0x2060 || n = 0xFEFF then []
  else [c]

def asciiLabel (label : List Char) : List Char :=
  if label.all (·.toNat < 128) then label else ['x', 'n', '-', '-'] ++ Punycode.encode label

def asciiName (name : List Char) : List Char :=
  joinWith ['.'] ((cutAt '.' (Text.fold (name.flatMap usualForm))).map asciiLabel)

def ofText (cs : List Char) : Except UrlError (List Char) :=
  match cs with
  | '[' :: rest => bracketed rest
  | _ =>
    match String.fromUTF8? ⟨(Percent.decode cs).toArray⟩ with
    | none => .error .invalidDomain
    | some decoded =>
      let name := asciiName decoded.toList
      if name.any isForbiddenInDomain then .error .invalidDomain
      else if name.isEmpty then .error .emptyHost
      else if endsInNumber name then ipv4 name
      else .ok name

def ofOpaque (cs : List Char) : Except UrlError (List Char) :=
  match cs with
  | '[' :: rest => bracketed rest
  | _ =>
    if cs.any isForbidden then .error .invalidHostCharacter
    else .ok (Percent.encode Percent.isControl cs)

end Host

end LiterateJournal
