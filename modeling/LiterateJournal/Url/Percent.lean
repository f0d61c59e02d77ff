/-!
# Percent encoding

Characters that may not stand in a part of a URL are written byte by byte, each byte as a percent
sign and two hexadecimal digits.

## Main definitions

* `Percent.encode`, `Percent.decode` — to the encoding and back to bytes.
* `Percent.inFragment`, `Percent.inQuery`, `Percent.inPath`, `Percent.inUserInfo` — what must be
  encoded in each part.
-/

namespace LiterateJournal.Percent

def hexDigit (n : Nat) : Char := if n < 10 then Char.ofNat (48 + n) else Char.ofNat (55 + n)

def hexValue? (c : Char) : Option Nat :=
  if '0' ≤ c && c ≤ '9' then some (c.toNat - 48)
  else if 'a' ≤ c && c ≤ 'f' then some (c.toNat - 87)
  else if 'A' ≤ c && c ≤ 'F' then some (c.toNat - 55)
  else none

def encodeByte (b : UInt8) : List Char :=
  ['%', hexDigit (b.toNat / 16), hexDigit (b.toNat % 16)]

def encode (mustEncode : Char → Bool) (cs : List Char) : List Char :=
  cs.flatMap fun c => if mustEncode c then (String.utf8EncodeChar c).flatMap encodeByte else [c]

def decode : List Char → List UInt8
  | '%' :: a :: b :: cs =>
    match hexValue? a, hexValue? b with
    | some x, some y => UInt8.ofNat (x * 16 + y) :: decode cs
    | _, _ => 37 :: decode (a :: b :: cs)
  | c :: cs => String.utf8EncodeChar c ++ decode cs
  | [] => []

def isControl (c : Char) : Bool := c.toNat < 32 || 126 < c.toNat

def inFragment (c : Char) : Bool := isControl c || " \"<>\x60".toList.contains c

/-- What must be encoded after the question mark; in a special URL the apostrophe too. -/
def inQuery (special : Bool) (c : Char) : Bool :=
  isControl c || " \"#<>".toList.contains c || (special && c = '\x27')

def inPath (c : Char) : Bool := inFragment c || "#?\x7b\x7d".toList.contains c

def inUserInfo (c : Char) : Bool := inPath c || "/:;=@[\\]^|".toList.contains c

end LiterateJournal.Percent
