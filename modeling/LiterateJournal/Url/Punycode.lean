/-!
# Punycode

Punycode writes a label of a host name with the letters, digits and hyphens of ASCII. The other
characters are taken in increasing order, and the distances between their places are written as
numbers whose digits weigh more or less as an adapted bias tells.

## Main definitions

* `Punycode.encode` — the code of a label.
-/

namespace LiterateJournal.Punycode

def digit (n : Nat) : Char := if n < 26 then Char.ofNat (97 + n) else Char.ofNat (22 + n)

def threshold (k bias : Nat) : Nat := max 1 (min 26 (k - bias))

def scale : Nat → Nat → Nat → Nat
  | 0, k, delta => k + 36 * delta / (delta + 38)
  | fuel + 1, k, delta =>
    if 455 < delta then scale fuel (k + 36) (delta / 35) else k + 36 * delta / (delta + 38)

/-- The bias after a distance, when `count` characters have been written. -/
def adapt (first : Bool) (delta count : Nat) : Nat :=
  let delta := if first then delta / 700 else delta / 2
  scale delta 0 (delta + delta / count)

/-- The digits of a distance from place `k` on, at most `fuel + 1` of them. -/
def digitsFrom (bias : Nat) : Nat → Nat → Nat → List Char
  | 0, _, _ => []
  | fuel + 1, k, q =>
    let t := threshold k bias
    if q < t then [digit q]
    else digit (t + (q - t) % (36 - t)) :: digitsFrom bias fuel (k + 36) ((q - t) / (36 - t))

structure State where
  output : List Char
  delta : Nat
  bias : Nat
  /-- The characters that have been written. -/
  count : Nat

/-- Passes one character of the label while the code point `n` is written; `basic` characters are
ASCII. -/
def pass (basic n : Nat) (s : State) (c : Char) : State :=
  if c.toNat < n then { s with delta := s.delta + 1 }
  else if c.toNat = n then
    { output := s.output ++ digitsFrom s.bias (s.delta + 1) 36 s.delta
      delta := 0
      bias := adapt (s.count = basic) s.delta (s.count + 1)
      count := s.count + 1 }
  else s

def encodeFrom (label : List Char) (basic : Nat) : Nat → Nat → State → List Char
  | 0, _, s => s.output
  | fuel + 1, n, s =>
    match ((label.map Char.toNat).filter (n ≤ ·)).min? with
    | none => s.output
    | some m =>
      let s := { s with delta := s.delta + (m - n) * (s.count + 1) }
      let s := label.foldl (pass basic m) s
      encodeFrom label basic fuel (m + 1) { s with delta := s.delta + 1 }

def encode (label : List Char) : List Char :=
  let basic := label.filter (·.toNat < 128)
  let start := if basic.isEmpty then [] else basic ++ ['-']
  encodeFrom label basic.length (label.length + 1) 128 ⟨start, 0, 72, basic.length⟩

end LiterateJournal.Punycode
