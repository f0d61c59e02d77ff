import LiterateJournal.Markdown.Event
import LiterateJournal.Markdown.HtmlTag

/-!
# Autolinks

An address between angle brackets links to itself: a URI with a scheme of two to thirty-two
characters, or a mail address. The readers start after the opening bracket and answer with the
address and the text after the closing bracket.
-/

namespace LiterateJournal.Markdown

def isSchemeChar (c : Char) : Bool := isLetterOrDigit c || c = '.' || c = '-' || c = '+'

def uriLink? (cs : List Char) : Option (List Char × List Char) :=
  let scheme := cs.takeWhile isSchemeChar
  match cs.drop scheme.length with
  | ':' :: rest =>
    if !scheme.head?.any isLetter || scheme.length < 2 || 32 < scheme.length then none
    else
      let body := rest.takeWhile fun c => !(c.toNat ≤ 32 || c = '<' || c = '>')
      match rest.drop body.length with
      | '>' :: after => some (scheme ++ ':' :: body, after)
      | _ => none
  | _ => none

def isMailChar (c : Char) : Bool :=
  isLetterOrDigit c || ".!#$%&'*+/=?^_\x60\x7b|\x7d~-".toList.contains c

/-- The host of a mail address, of at most `fuel` labels, and the text after its bracket. A label
has one to sixty-three characters and neither starts nor ends with a hyphen. -/
def mailHost? : Nat → List Char → Option (List Char × List Char)
  | 0, _ => none
  | fuel + 1, cs =>
    let label := cs.takeWhile fun c => isLetterOrDigit c || c = '-'
    if label.isEmpty || 63 < label.length || label.head? = some '-'
        || label.getLast? = some '-' then
      none
    else
      match cs.drop label.length with
      | '.' :: rest =>
        (mailHost? fuel rest).map fun (host, after) => (label ++ '.' :: host, after)
      | '>' :: after => some (label, after)
      | _ => none

def mailLink? (cs : List Char) : Option (List Char × List Char) :=
  let user := cs.takeWhile isMailChar
  match cs.drop user.length with
  | '@' :: rest =>
    (mailHost? (rest.length + 1) rest).map fun (host, after) => (user ++ '@' :: host, after)
  | _ => none

/-- An autolink: its form, its address and the text after its bracket. -/
def autolink? (cs : List Char) : Option (LinkForm × List Char × List Char) :=
  match uriLink? cs with
  | some (uri, rest) => some (.address, uri, rest)
  | none => (mailLink? cs).map fun (address, rest) => (.mail, address, rest)

end LiterateJournal.Markdown
