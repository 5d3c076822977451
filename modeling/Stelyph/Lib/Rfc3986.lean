import Stelyph.Lib.Text

/-!
# The components of a URI

The split of RFC 3986, appendix B. A fragment starts at the first hash, a
query at the first question mark before it; of what is left a scheme ends
at the first colon, unless a slash comes before it, and an authority
follows two slashes up to the next.
-/

namespace Stelyph

structure Uri where
  scheme : Option String
  authority : Option String
  path : String
  query : Option String
  fragment : Option String
deriving DecidableEq, Repr

namespace Uri

/-- The text before the first `c`, and the text behind it. -/
def cut (c : Char) (cs : List Char) : List Char × Option (List Char) :=
  (cs.takeWhile (· != c), (cs.dropWhile (· != c)).tail?)

def cutScheme (cs : List Char) : Option (List Char) × List Char :=
  match cs.takeWhile fun c => c != ':' && c != '/', cs.dropWhile fun c => c != ':' && c != '/' with
  | c :: scheme, ':' :: rest => (some (c :: scheme), rest)
  | _, _ => (none, cs)

def cutAuthority : List Char → Option (List Char) × List Char
  | '/' :: '/' :: cs => (some (cs.takeWhile (· != '/')), cs.dropWhile (· != '/'))
  | cs => (none, cs)

/-- What comes before the query, and the query. -/
def hierarchy (s : String) : List Char × Option (List Char) := cut '?' (cut '#' s.toList).1

def split (s : String) : Uri :=
  let scheme := cutScheme (hierarchy s).1
  let authority := cutAuthority scheme.2
  { scheme := scheme.1.map String.ofList
    authority := authority.1.map String.ofList
    path := String.ofList authority.2
    query := (hierarchy s).2.map String.ofList
    fragment := (cut '#' s.toList).2.map String.ofList }

theorem cut_append_cons {c : Char} {xs : List Char} (h : c ∉ xs) (ys : List Char) :
    cut c (xs ++ c :: ys) = (xs, some ys) := by
  rw [cut, Text.takeWhile_append_cons h, Text.dropWhile_append_cons h]
  rfl

theorem cut_of_not_mem {c : Char} {xs : List Char} (h : c ∉ xs) : cut c xs = (xs, none) := by
  rw [cut, Text.takeWhile_of_not_mem h, Text.dropWhile_of_not_mem h]
  rfl

end Uri

end Stelyph
