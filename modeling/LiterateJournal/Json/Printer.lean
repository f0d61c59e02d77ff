import LiterateJournal.Json.Value

/-!
# Writing JSON

Values are written without white space, or with a line for each item and field. Control characters
are escaped, all else but the quotation mark and the backslash stands for itself.

## Main definitions

* `Json.render` — the JSON text of a value on one line.
* `Json.renderLines` — the JSON text of a value on many lines.
-/

namespace LiterateJournal.Json

def hexDigit (n : Nat) : Char := if n < 10 then Char.ofNat (48 + n) else Char.ofNat (87 + n)

def escapeChar (c : Char) : List Char :=
  if c = '"' then ['\\', '"']
  else if c = '\\' then ['\\', '\\']
  else if c = '\n' then ['\\', 'n']
  else if c = '\t' then ['\\', 't']
  else if c = '\r' then ['\\', 'r']
  else if c = '\x08' then ['\\', 'b']
  else if c = '\x0c' then ['\\', 'f']
  else if c.toNat < 32 then
    ['\\', 'u', '0', '0', hexDigit (c.toNat / 16), hexDigit (c.toNat % 16)]
  else [c]

def quoted (s : String) : List Char := '"' :: (s.toList.flatMap escapeChar ++ ['"'])

mutual

/-- The characters of a value, before `rest`. -/
def write : Json → List Char → List Char
  | .null, rest => 'n' :: 'u' :: 'l' :: 'l' :: rest
  | .bool true, rest => 't' :: 'r' :: 'u' :: 'e' :: rest
  | .bool false, rest => 'f' :: 'a' :: 'l' :: 's' :: 'e' :: rest
  | .number n, rest => Nat.toDigits 10 n ++ rest
  | .otherNumber digits, rest => digits.toList ++ rest
  | .text s, rest => quoted s ++ rest
  | .list [], rest => '[' :: ']' :: rest
  | .list (j :: js), rest => '[' :: j.write (writeItems js rest)
  | .object [], rest => '\x7b' :: '\x7d' :: rest
  | .object ((k, j) :: fields), rest =>
    '\x7b' :: (quoted k ++ ':' :: j.write (writeFields fields rest))

/-- The further items of a list with its closing bracket, before `rest`. -/
def writeItems : List Json → List Char → List Char
  | [], rest => ']' :: rest
  | j :: js, rest => ',' :: j.write (writeItems js rest)

/-- The further fields of an object with its closing brace, before `rest`. -/
def writeFields : List (String × Json) → List Char → List Char
  | [], rest => '\x7d' :: rest
  | (k, j) :: fields, rest => ',' :: (quoted k ++ ':' :: j.write (writeFields fields rest))

end

def render (j : Json) : String := String.ofList (j.write [])

def newLine (level : Nat) : List Char := '\n' :: List.replicate (2 * level) ' '

mutual

/-- The characters of a value with a line for each item and field. -/
def writeLines (level : Nat) : Json → List Char
  | .list [] => ['[', ']']
  | .list (j :: js) =>
    '[' :: newLine (level + 1) ++ j.writeLines (level + 1) ++ writeItemLines level js
  | .object [] => ['\x7b', '\x7d']
  | .object ((k, j) :: fields) =>
    '\x7b' :: newLine (level + 1) ++ quoted k ++ ':' :: ' ' :: j.writeLines (level + 1)
      ++ writeFieldLines level fields
  | j => j.write []

def writeItemLines (level : Nat) : List Json → List Char
  | [] => newLine level ++ [']']
  | j :: js => ',' :: newLine (level + 1) ++ j.writeLines (level + 1) ++ writeItemLines level js

def writeFieldLines (level : Nat) : List (String × Json) → List Char
  | [] => newLine level ++ ['\x7d']
  | (k, j) :: fields =>
    ',' :: newLine (level + 1) ++ quoted k ++ ':' :: ' ' :: j.writeLines (level + 1)
      ++ writeFieldLines level fields

end

def renderLines (j : Json) : String := String.ofList (j.writeLines 0)

end LiterateJournal.Json
