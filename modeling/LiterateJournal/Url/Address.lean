import LiterateJournal.Files.Path
import LiterateJournal.Url.Host

/-!
# URLs

A URL is read into its parts, each in its normal form, and written from them.

## Main definitions

* `Url`, `Url.parse` — the parts of a URL, and how they are read.
* `Url.toText` — the normal form of a URL.
* `Url.fileExtension` — the extension of the last segment of the path.
-/

namespace LiterateJournal

inductive UrlPath where
  /-- What follows the scheme when it is neither slash nor host. -/
  | opaque_ (text : List Char)
  /-- The pieces after each slash. -/
  | segments (pieces : List (List Char))
deriving Repr, BEq, DecidableEq

/-- A URL, with each part in its normal form. -/
structure Url where
  scheme : List Char
  /-- User name and password with the sign after them, host, and port with the colon before it. -/
  authority : Option (List Char × List Char × List Char)
  path : UrlPath
  query : Option (List Char)
  fragment : Option (List Char)
deriving Repr, BEq, DecidableEq

namespace Url

/-- The schemes whose URLs always have a host, and their ports. -/
def specialPorts : List (List Char × Nat) :=
  [("http".toList, 80), ("https".toList, 443), ("ws".toList, 80), ("wss".toList, 443),
   ("ftp".toList, 21)]

/-- What a reader must know of the scheme. -/
structure Scheme where
  name : List Char
  port : Option Nat
  isFile : Bool

namespace Scheme

def ofName (name : List Char) : Scheme := ⟨name, specialPorts.lookup name, name = "file".toList⟩

/-- Whether backslashes are slashes, and a host is a domain. -/
def isSpecial (s : Scheme) : Bool := s.port.isSome || s.isFile

def isSlash (s : Scheme) (c : Char) : Bool := c = '/' || (s.isSpecial && c = '\\')

end Scheme

def scheme? (cs : List Char) : Option (Scheme × List Char) :=
  let name := cs.takeWhile fun c => c.isAlphanum || c = '+' || c = '-' || c = '.'
  match cs.drop name.length with
  | ':' :: rest =>
    if name.head?.any Char.isAlpha then some (.ofName (name.map Char.toLower), rest) else none
  | _ => none

/-- The text up to its last at sign, and the text after it. -/
def cutAtSign? (cs : List Char) : Option (List Char × List Char) :=
  let host := (cs.reverse.takeWhile (· ≠ '@')).reverse
  if host.length < cs.length then
    some (cs.take (cs.length - host.length - 1), host)
  else none

/-- User name and password in normal form, with an at sign after them if there are any. -/
def userInfo (cs : List Char) : List Char :=
  let user := Percent.encode Percent.inUserInfo (cs.takeWhile (· ≠ ':'))
  let password := Percent.encode Percent.inUserInfo ((cs.dropWhile (· ≠ ':')).drop 1)
  let info := if password.isEmpty then user else user ++ ':' :: password
  if info.isEmpty then [] else info ++ ['@']

def cutHost (inBrackets : Bool) : List Char → List Char × List Char
  | [] => ([], [])
  | c :: cs =>
    if c = ':' && !inBrackets then ([], c :: cs)
    else
      let inside := if c = '[' then true else if c = ']' then false else inBrackets
      let (host, rest) := cutHost inside cs
      (c :: host, rest)

/-- A port in normal form, with its colon; the scheme's own port is left out. -/
def port (s : Scheme) (digits : List Char) : Except UrlError (List Char) :=
  if !digits.all Char.isDigit then .error .invalidPort
  else
    let n := digits.foldl (fun n c => n * 10 + (c.toNat - 48)) 0
    if 65535 < n then .error .invalidPort
    else if digits.isEmpty || s.port = some n then .ok []
    else .ok (':' :: Nat.toDigits 10 n)

/-- The host and port that follow two slashes, with what stands before them. -/
def readAuthority (s : Scheme) (cs : List Char) :
    Except UrlError (List Char × List Char × List Char) := do
  let (info, cs) := match cutAtSign? cs with
    | some (info, rest) => (userInfo info, rest)
    | none => ([], cs)
  let (host, rest) := cutHost false cs
  if host.isEmpty && (s.isSpecial || !info.isEmpty || !rest.isEmpty) then throw .emptyHost
  let host ← if s.isSpecial then Host.ofText host else Host.ofOpaque host
  let port ← port s (rest.drop 1)
  pure (info, host, port)

/-- Whether a segment is a dot, written as it is or encoded. -/
def isDot (cs : List Char) : Bool := cs = ['.'] || cs.map Char.toLower = ['%', '2', 'e']

/-- Whether a segment is two dots, each written as it is or encoded. -/
def isTwoDots (cs : List Char) : Bool :=
  match cs with
  | '.' :: rest => isDot rest
  | '%' :: '2' :: e :: rest => (e = 'e' || e = 'E') && isDot rest
  | _ => false

/-- The segments of a path, of which `done` have been read, the last one first. A dot stands for
nothing, two dots take a segment back, and either of them at the end leaves an empty segment. -/
def resolveDots (done : List (List Char)) : List (List Char) → List (List Char)
  | [] => done.reverse
  | [last] =>
    if isTwoDots last then ([] :: done.tail).reverse
    else if isDot last then ([] :: done).reverse
    else (last :: done).reverse
  | s :: rest =>
    if isTwoDots s then resolveDots done.tail rest
    else if isDot s then resolveDots done rest
    else resolveDots (s :: done) rest

/-- The path that starts at its first slash; a special URL may leave that out. -/
def segments (s : Scheme) (cs : List Char) : List (List Char) :=
  let cs := cs.map fun c => if s.isSlash c then '/' else c
  let pieces := match cs with
    | '/' :: rest => Text.cutAt '/' rest
    | [] => if s.isSpecial then [[]] else []
    | rest => Text.cutAt '/' rest
  (resolveDots [] pieces).map (Percent.encode Percent.inPath)

def cutMark (mark : Char) (cs : List Char) : List Char × Option (List Char) :=
  match cs.dropWhile (· ≠ mark) with
  | [] => (cs, none)
  | _ :: rest => (cs.takeWhile (· ≠ mark), some rest)

/-- The host and path of a URL, given what follows the scheme, up to the query. -/
def hierarchy (s : Scheme) (cs : List Char) :
    Except UrlError (Option (List Char × List Char × List Char) × UrlPath) := do
  let withHost (cs : List Char) := do
    let host := cs.takeWhile (!s.isSlash ·)
    pure (some (← readAuthority s host), UrlPath.segments (segments s (cs.drop host.length)))
  let slashes := (cs.takeWhile s.isSlash).length
  if s.isFile then
    if slashes = 2 then
      let rest := cs.drop 2
      let host := rest.takeWhile (!s.isSlash ·)
      let name ← if host.isEmpty then pure [] else Host.ofText host
      let name := if name = "localhost".toList then [] else name
      pure (some ([], name, []), .segments (segments s (rest.drop host.length)))
    else
      let path := if 2 < slashes then cs.drop 2 else cs
      pure (some ([], [], []), .segments (segments s path))
  else if s.isSpecial then withHost (cs.drop slashes)
  else if 2 ≤ slashes then withHost (cs.drop 2)
  else if slashes = 1 then pure (none, .segments (segments s cs))
  else pure (none, .opaque_ (Percent.encode Percent.isControl cs))

/-- The text without control characters and spaces at its ends, and without tabs and line ends. -/
def clean (cs : List Char) : List Char :=
  let isEdge (c : Char) : Bool := c.toNat ≤ 32
  (Text.dropEndWhile isEdge (cs.dropWhile isEdge)).filter fun c =>
    !(c = '\t' || c = '\n' || c = '\r')

def parse (text : String) : Except UrlError Url := do
  match scheme? (clean text.toList) with
  | none => throw .relative
  | some (s, rest) =>
    let (rest, fragment) := cutMark '#' rest
    let (rest, query) := cutMark '?' rest
    let (authority, path) ← hierarchy s rest
    pure
      { scheme := s.name
        authority := authority
        path := path
        query := query.map (Percent.encode (Percent.inQuery s.isSpecial))
        fragment := fragment.map (Percent.encode Percent.inFragment) }

def pathText (u : Url) : List Char :=
  match u.path with
  | .opaque_ text => text
  | .segments pieces => pieces.flatMap ('/' :: ·)

def toText (u : Url) : String :=
  let authority := match u.authority with
    | some (info, host, port) => '/' :: '/' :: (info ++ host ++ port)
    | none => []
  let query := match u.query with
    | some q => '?' :: q
    | none => []
  let fragment := match u.fragment with
    | some f => '#' :: f
    | none => []
  String.ofList (u.scheme ++ ':' :: (authority ++ u.pathText ++ query ++ fragment))

def withoutUserInfo (u : Url) : Url :=
  { u with authority := u.authority.map fun (_, host, port) => ([], host, port) }

def hasHost (u : Url) : Bool := u.authority.isSome

def fileExtension (u : Url) : String :=
  match u.path with
  | .opaque_ _ => ""
  | .segments pieces =>
    match Path.extension? (String.ofList (pieces.getLast?.getD [])) with
    | some ext => "." ++ ext
    | none => ""

end Url

end LiterateJournal
