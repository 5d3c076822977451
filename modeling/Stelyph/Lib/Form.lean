import Stelyph.Lib.Percent

/-!
# Form-urlencoded text

The `application/x-www-form-urlencoded` parser of the URL Standard: the
pieces between ampersands, the empty ones left out; in each the name up
to the first equals sign and the value behind it, nothing where there is
none; in both, plus signs are blanks, triplets are octets, and the octets
are read as UTF-8.
-/

namespace Stelyph

namespace Form

open Text (bytes)

def plusToSpace (b : UInt8) : UInt8 := if b = 0x2b then 0x20 else b

/-- A name or a value as it was: plus signs are blanks, escapes are bytes,
and the bytes are read as UTF-8 with what is no text replaced. -/
def decode (s : String) : String := Utf8.lossy (Percent.decode ((bytes s).map plusToSpace))

def pieces (query : String) : List String := (Text.split query '&').filter (· ≠ "")

def name (piece : String) : String := Text.upTo piece '='

def value (piece : String) : String := ((Text.splitOnce piece '=').map Prod.snd).getD ""

def pair (piece : String) : String × String := (decode (name piece), decode (value piece))

def parse (query : String) : List (String × String) := (pieces query).map pair

/-- The value of the first pair of this name. -/
def find (query key : String) : Option String :=
  ((parse query).find? fun p => p.1 == key).map Prod.snd

theorem pieces_append (q r : List Char) :
    pieces (String.ofList (q ++ '&' :: r)) = pieces (String.ofList q) ++ pieces (String.ofList r) := by
  simp only [pieces, Text.split, String.toList_ofList, List.splitOn_append_cons_self,
    List.map_append, List.filter_append]

theorem parse_append (q r : List Char) :
    parse (String.ofList (q ++ '&' :: r)) = parse (String.ofList q) ++ parse (String.ofList r) := by
  rw [parse, pieces_append, List.map_append]
  rfl

theorem pieces_single {p : List Char} (hne : p ≠ []) (h : '&' ∉ p) :
    pieces (String.ofList p) = [String.ofList p] := by
  have hp : String.ofList p ≠ "" := by
    intro h0
    exact hne (by simpa using congrArg String.toList h0)
  rw [pieces, Text.split, String.toList_ofList, List.splitOn_eq_singleton h]
  simp [hp]

/-- A piece with an equals sign, its name and its value. -/
theorem name_of_eq {n : List Char} (h : '=' ∉ n) (v : List Char) :
    name (String.ofList (n ++ '=' :: v)) = String.ofList n := by
  rw [name, Text.upTo, String.toList_ofList, Text.takeWhile_append_cons h]

theorem value_of_eq {n : List Char} (h : '=' ∉ n) (v : List Char) :
    value (String.ofList (n ++ '=' :: v)) = String.ofList v := by
  rw [value, Text.splitOnce_append n v h]
  rfl

theorem pair_of_eq {n v : List Char} (h : '=' ∉ n) :
    pair (String.ofList (n ++ '=' :: v)) = (decode (String.ofList n), decode (String.ofList v)) := by
  rw [pair, name_of_eq h, value_of_eq h]

theorem pair_of_no_eq {p : List Char} (h : '=' ∉ p) :
    pair (String.ofList p) = (decode (String.ofList p), decode "") := by
  have hs : '=' ∉ (String.ofList p).toList := by rwa [String.toList_ofList]
  rw [pair, name, value, Text.upTo, String.toList_ofList, Text.takeWhile_of_not_mem h,
    Text.splitOnce_of_not_mem hs]
  rfl

end Form

end Stelyph
