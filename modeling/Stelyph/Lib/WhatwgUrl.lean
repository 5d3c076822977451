import Stelyph.Lib.DotSegments
import Stelyph.Lib.Form

/-!
# The path and the query of an https URL

The parser of the URL Standard from the end of the authority on, for a
special scheme. A backslash separates segments like a slash, a segment is
a dot segment also where its dots are written `%2e`, and what may not
stand in a path or a query is percent-encoded. No such character is a
dot, a separator or a delimiter of a form, so the encoding moves no
segment and is undone when a query is read as a form
(`form_parse_encode`).
-/

namespace Stelyph

namespace WhatwgUrl

/-! ## Percent-encoding -/

def encodeChar (set : Char → Bool) (c : Char) : List Char :=
  if set c then (String.utf8EncodeChar c).flatMap Percent.encodeOctet else [c]

def encode (set : Char → Bool) (cs : List Char) : List Char := cs.flatMap (encodeChar set)

/-- Controls, and everything beyond ASCII. -/
def c0Set (c : Char) : Bool := c.toNat ≤ 0x1f || 0x7e < c.toNat

/-- The query of a special URL. -/
def querySet (c : Char) : Bool := c0Set c || [' ', '"', '#', '<', '>', '\''].contains c

def pathSet (c : Char) : Bool :=
  c0Set c || [' ', '"', '#', '<', '>', '?', '^', '\x60', '{', '}'].contains c

/-! ## The path -/

def isSlash (c : Char) : Bool := c == '/' || c == '\\'

def singleDots : List String := [".", "%2e"]

def doubleDots : List String := ["..", ".%2e", "%2e.", "%2e%2e"]

/-- Where a segment leads. -/
def move (seg : List Char) : DotSegments.Move :=
  if doubleDots.contains (Text.toAsciiLowercase (String.ofList seg)) then .up
  else if singleDots.contains (Text.toAsciiLowercase (String.ofList seg)) then .stay
  else .down

/-- The segments of a path that begins with a slash, or is empty. -/
def segments (cs : List Char) : List (List Char) := (cs.drop 1).splitOnP isSlash

def parsePath (cs : List Char) : List (List Char) :=
  (DotSegments.finish move [] (DotSegments.walk move (segments cs).dropLast)
    ((segments cs).getLast?.getD [])).map (encode pathSet)

def serializePath (segs : List (List Char)) : List Char := segs.flatMap ('/' :: ·)

/-- What ends the authority of an https URL. -/
def endsAuthority (c : Char) : Bool := isSlash c || c == '?' || c == '#'

def endsPath (c : Char) : Bool := c == '?' || c == '#'

structure Url where
  authority : String
  path : String
  query : Option String
deriving DecidableEq, Repr

/-- The URL of `https://` and this text. -/
def parseHttps (text : String) : Url :=
  let rest := text.toList.dropWhile (!endsAuthority ·)
  { authority := String.ofList (text.toList.takeWhile (!endsAuthority ·))
    path := String.ofList (serializePath (parsePath (rest.takeWhile (!endsPath ·))))
    query := match rest.dropWhile (!endsPath ·) with
      | '?' :: query => some (String.ofList (encode querySet (query.takeWhile (· != '#'))))
      | _ => none }

/-- A URL with its host written out. -/
theorem path_parseHttps {host rest : List Char} (hhost : ∀ c ∈ host, endsAuthority c = false)
    (hrest : ∀ c, rest.head? = some c → endsAuthority c = true) :
    (parseHttps (String.ofList (host ++ rest))).path
      = String.ofList (serializePath (parsePath (rest.takeWhile (!endsPath ·)))) := by
  have hdrop : (host ++ rest).dropWhile (!endsAuthority ·) = rest := by
    rw [List.dropWhile_append_of_pos fun c hc => by rw [hhost c hc]; rfl]
    cases rest with
    | nil => rfl
    | cons c rest => rw [List.dropWhile_cons, hrest c rfl]; rfl
  simp only [parseHttps, String.toList_ofList, hdrop]

/-- The segments of a split have no separator in them. -/
theorem not_mem_of_mem_splitOnP {α : Type} {p : α → Bool} {xs : List α} {seg : List α}
    (h : seg ∈ xs.splitOnP p) : ∀ c ∈ seg, p c = false := by
  induction xs generalizing seg with
  | nil =>
      rw [List.splitOnP_nil, List.mem_singleton] at h
      subst h
      simp
  | cons x xs ih =>
      rw [List.splitOnP_cons_eq_if_modifyHead] at h
      split at h
      · rcases List.mem_cons.mp h with rfl | h
        · simp
        · exact ih h
      · rename_i hx
        obtain ⟨first, rest, hsplit⟩ := List.exists_cons_of_ne_nil (List.splitOnP_ne_nil p xs)
        rw [hsplit, List.modifyHead_cons] at h
        rw [hsplit] at ih
        rcases List.mem_cons.mp h with rfl | h
        · intro c hc
          rcases List.mem_cons.mp hc with rfl | hc
          · simpa using hx
          · exact ih List.mem_cons_self c hc
        · exact ih (List.mem_cons_of_mem _ h)

theorem segments_ne_nil (cs : List Char) : segments cs ≠ [] := List.splitOnP_ne_nil isSlash _

theorem slash_not_mem_segments {cs seg : List Char} (h : seg ∈ segments cs) : '/' ∉ seg := by
  intro hslash
  have := not_mem_of_mem_splitOnP h '/' hslash
  exact absurd this (by decide)

/-- The first segment of a path, and that there is another. -/
theorem prefix_serializePath_iff {w : List Char} (hw : '/' ∉ w) {segs : List (List Char)}
    (h : ∀ seg ∈ segs, '/' ∉ seg) :
    '/' :: (w ++ ['/']) <+: serializePath segs ↔ ∃ r rest, segs = w :: r :: rest := by
  constructor
  · rintro ⟨more, heq⟩
    match segs with
    | [] => cases heq
    | [x] =>
        have hx := h x List.mem_cons_self
        have htail : w ++ ['/'] ++ more = x := by
          simpa [serializePath] using heq
        exact absurd (htail ▸ by simp : '/' ∈ x) hx
    | x :: r :: rest =>
        have htail : w ++ '/' :: more = x ++ '/' :: (r ++ serializePath rest) := by
          simpa [serializePath] using heq
        obtain ⟨rfl, -⟩ := Text.of_append_cons hw (h x List.mem_cons_self) htail
        exact ⟨r, rest, rfl⟩
  · rintro ⟨r, rest, rfl⟩
    exact ⟨r ++ serializePath rest, by simp [serializePath]⟩

/-! ## A query read as a form -/

open Text (bytes)

/-- The octets a form decoder sees. -/
def formBytes (cs : List Char) : List UInt8 := (bytes (String.ofList cs)).map Form.plusToSpace

theorem formBytes_append (xs ys : List Char) :
    formBytes (xs ++ ys) = formBytes xs ++ formBytes ys := by
  rw [formBytes, String.ofList_append, Utf8.bytes_append, List.map_append]
  rfl

theorem formBytes_cons (c : Char) (cs : List Char) :
    formBytes (c :: cs) = formBytes [c] ++ formBytes cs := formBytes_append [c] cs

/-- A character that is encoded has no octet a decoder would look at. -/
theorem formBytes_of_querySet {c : Char} (h : querySet c = true) :
    formBytes [c] = String.utf8EncodeChar c
      ∧ ∀ b ∈ String.utf8EncodeChar c, b ≠ 0x25 ∧ Percent.hexValue b = none := by
  have hbytes : bytes (String.ofList [c]) = String.utf8EncodeChar c := by
    rw [Utf8.bytes_ofList_cons]
    exact List.append_nil _
  rw [formBytes, hbytes]
  have hb : ∀ b ∈ String.utf8EncodeChar c,
      Form.plusToSpace b = b ∧ b ≠ 0x25 ∧ Percent.hexValue b = none := by
    by_cases hascii : c.toNat < 128
    · have hall : ∀ n : Fin 128, querySet (Char.ofNat n.val) = true →
          Form.plusToSpace (UInt8.ofNat n.val) = UInt8.ofNat n.val ∧ UInt8.ofNat n.val ≠ 0x25
            ∧ Percent.hexValue (UInt8.ofNat n.val) = none := by decide +kernel
      intro b hb
      rw [Utf8.encode_ascii hascii] at hb
      obtain rfl := List.mem_singleton.mp hb
      exact hall ⟨c.toNat, hascii⟩ (by rw [Char.ofNat_toNat]; exact h)
    · intro b hb
      have hhigh := Utf8.encode_high (Nat.not_lt.mp hascii) hb
      have hall : ∀ n : Fin 256, 128 ≤ n.val →
          Form.plusToSpace (UInt8.ofNat n.val) = UInt8.ofNat n.val ∧ UInt8.ofNat n.val ≠ 0x25
            ∧ Percent.hexValue (UInt8.ofNat n.val) = none := by decide +kernel
      have := hall ⟨b.toNat, b.toNat_lt⟩ hhigh
      rwa [UInt8.ofNat_toNat] at this
  refine ⟨?_, fun b hmem => (hb b hmem).2⟩
  rw [List.map_congr_left fun b hmem => (hb b hmem).1, List.map_id']

theorem formBytes_encodeChar {c : Char} (h : querySet c = true) :
    formBytes (encodeChar querySet c)
      = (String.utf8EncodeChar c).flatMap fun b =>
          (Percent.encodeOctet b).map fun d => UInt8.ofNat d.toNat := by
  have hplain : ∀ b : UInt8, ∀ d ∈ Percent.encodeOctet b, d.toNat < 128
      ∧ Form.plusToSpace (UInt8.ofNat d.toNat) = UInt8.ofNat d.toNat := by
    intro b
    have hall : ∀ n : Fin 256, ((Percent.encodeOctet (UInt8.ofNat n.val)).all fun d =>
        decide (d.toNat < 128
          ∧ Form.plusToSpace (UInt8.ofNat d.toNat) = UInt8.ofNat d.toNat)) = true := by
      decide +kernel
    have := Text.forall_mem_of_all (hall ⟨b.toNat, b.toNat_lt⟩)
    simp only [UInt8.ofNat_toNat] at this
    exact this
  have hmem : ∀ d ∈ (String.utf8EncodeChar c).flatMap Percent.encodeOctet, d.toNat < 128
      ∧ Form.plusToSpace (UInt8.ofNat d.toNat) = UInt8.ofNat d.toNat := by
    intro d hd
    obtain ⟨b, -, hb⟩ := List.mem_flatMap.mp hd
    exact hplain b d hb
  rw [encodeChar, if_pos h, formBytes, Utf8.bytes_ofList_ascii fun d hd => (hmem d hd).1,
    List.map_map]
  refine (List.map_congr_left fun d hd => (hmem d hd).2).trans ?_
  rw [List.map_flatMap]

/-- A character that is not encoded is one octet. -/
theorem formBytes_of_not_querySet {c : Char} (h : querySet c = false) : ∃ b, formBytes [c] = [b] := by
  have hascii : c.toNat < 128 := by
    by_contra hge
    have hc0 : c0Set c = true := by
      rw [c0Set, Bool.or_eq_true, decide_eq_true_eq, decide_eq_true_eq]
      omega
    rw [querySet, hc0] at h
    cases h
  refine ⟨Form.plusToSpace (UInt8.ofNat c.toNat), ?_⟩
  rw [formBytes, Utf8.bytes_ofList_ascii fun d hd => by rw [List.mem_singleton.mp hd]; exact hascii]
  rfl

theorem encode_cons (c : Char) (cs : List Char) :
    encode querySet (c :: cs) = encodeChar querySet c ++ encode querySet cs := List.flatMap_cons

theorem encodeChar_of_not {set : Char → Bool} {c : Char} (h : set c = false) :
    encodeChar set c = [c] := by
  rw [encodeChar, h]
  rfl

theorem formBytes_cons_of_not {c : Char} (h : querySet c = false) :
    ∃ b, ∀ cs, formBytes (encode querySet (c :: cs)) = b :: formBytes (encode querySet cs)
      ∧ formBytes (c :: cs) = b :: formBytes cs := by
  obtain ⟨b, hb⟩ := formBytes_of_not_querySet h
  have hcons : ∀ cs, formBytes (c :: cs) = b :: formBytes cs := by
    intro cs
    rw [formBytes_cons, hb]
    rfl
  refine ⟨b, fun cs => ⟨?_, hcons cs⟩⟩
  rw [encode_cons, encodeChar_of_not h]
  exact hcons (encode querySet cs)

/-- An encoded character begins with no hexadecimal digit, either way. -/
theorem not_hex_of_querySet {c : Char} (h : querySet c = true) (cs : List Char) :
    (∃ b rest, formBytes (encode querySet (c :: cs)) = b :: rest ∧ Percent.hexValue b = none)
      ∧ ∃ b rest, formBytes (c :: cs) = b :: rest ∧ Percent.hexValue b = none := by
  obtain ⟨hraw, hplain⟩ := formBytes_of_querySet h
  obtain ⟨b, rest, hb⟩ := List.exists_cons_of_ne_nil (String.utf8EncodeChar_ne_nil (c := c))
  constructor
  · rw [encode_cons, formBytes_append, formBytes_encodeChar h, hb, List.flatMap_cons]
    exact ⟨0x25, _, rfl, rfl⟩
  · rw [formBytes_cons, hraw, hb]
    exact ⟨b, _, rfl, (hplain b (by rw [hb]; exact List.mem_cons_self)).2⟩

/-- A triplet is one in both, and ends at the same character. -/
theorem ahead_encode (cs : List Char) :
    Percent.ahead (formBytes (encode querySet cs)) = Percent.ahead (formBytes cs)
      ∧ ∀ octet, Percent.ahead (formBytes cs) = some octet →
        ∃ c d cs', cs = c :: d :: cs'
          ∧ (formBytes (encode querySet cs)).drop 2 = formBytes (encode querySet cs')
          ∧ (formBytes cs).drop 2 = formBytes cs' := by
  have hnone : ∀ bs bs' : List UInt8, Percent.ahead bs = none → Percent.ahead bs' = none →
      Percent.ahead bs = Percent.ahead bs' ∧ ∀ octet, Percent.ahead bs' = some octet →
        ∃ c d cs', cs = c :: d :: cs' ∧ bs.drop 2 = formBytes (encode querySet cs')
          ∧ bs'.drop 2 = formBytes cs' := by
    intro bs bs' h h'
    refine ⟨h.trans h'.symm, fun octet hsome => ?_⟩
    rw [h'] at hsome
    cases hsome
  cases cs with
  | nil => exact hnone _ _ rfl rfl
  | cons c cs =>
      cases hc : querySet c with
      | true =>
          obtain ⟨⟨b, rest, hb, hhex⟩, b', rest', hb', hhex'⟩ := not_hex_of_querySet hc cs
          rw [hb, hb']
          exact hnone _ _ (Percent.ahead_of_not_hex hhex _) (Percent.ahead_of_not_hex hhex' _)
      | false =>
          obtain ⟨b, hb⟩ := formBytes_cons_of_not hc
          rw [(hb cs).1, (hb cs).2]
          cases cs with
          | nil => exact hnone _ _ rfl rfl
          | cons d cs =>
              cases hd : querySet d with
              | true =>
                  obtain ⟨⟨x, rest, hx, hhex⟩, x', rest', hx', hhex'⟩ := not_hex_of_querySet hd cs
                  rw [hx, hx']
                  exact hnone _ _ (Percent.ahead_of_not_hex_second hhex _ _)
                    (Percent.ahead_of_not_hex_second hhex' _ _)
              | false =>
                  obtain ⟨x, hx⟩ := formBytes_cons_of_not hd
                  rw [(hx cs).1, (hx cs).2]
                  exact ⟨rfl, fun octet _ => ⟨c, d, cs, rfl, rfl, rfl⟩⟩

/-- Decoding undoes the encoding and does to the rest what it would have
done. -/
theorem decode_formBytes_encode (cs : List Char) :
    Percent.decode (formBytes (encode querySet cs)) = Percent.decode (formBytes cs) := by
  induction hn : cs.length using Nat.strongRecOn generalizing cs with
  | ind n ih =>
    cases cs with
    | nil => rfl
    | cons c cs =>
        have hrest := ih cs.length (by rw [← hn]; exact Nat.lt_succ_self _) cs rfl
        cases hc : querySet c with
        | true =>
            obtain ⟨hraw, hplain⟩ := formBytes_of_querySet hc
            rw [encode_cons, formBytes_append, formBytes_encodeChar hc, Percent.decode_octets, hrest,
              formBytes_cons, hraw, Percent.decode_plain fun b hb => (hplain b hb).1]
        | false =>
            obtain ⟨b, hb⟩ := formBytes_cons_of_not hc
            rw [(hb cs).1, (hb cs).2]
            by_cases h25 : b = 0x25
            · subst h25
              obtain ⟨hahead, htail⟩ := ahead_encode cs
              rw [Percent.decode_percent, Percent.decode_percent, hahead]
              cases hsome : Percent.ahead (formBytes cs) with
              | none => exact congrArg (0x25 :: ·) hrest
              | some octet =>
                  obtain ⟨x, y, cs', rfl, hdrop, hdrop'⟩ := htail octet hsome
                  have hlt : cs'.length < n := by
                    rw [← hn]
                    simp only [List.length_cons]
                    omega
                  simp only [hdrop, hdrop', ih cs'.length hlt cs' rfl]
            · exact (Percent.decodeWith_cons h25 _).trans
                ((congrArg (b :: ·) hrest).trans (Percent.decodeWith_cons h25 _).symm)

theorem form_decode_encode (cs : List Char) :
    Form.decode (String.ofList (encode querySet cs)) = Form.decode (String.ofList cs) :=
  congrArg Utf8.lossy (decode_formBytes_encode cs)

theorem encode_append (set : Char → Bool) (xs ys : List Char) :
    encode set (xs ++ ys) = encode set xs ++ encode set ys := List.flatMap_append

/-- A character that is not encoded, nor part of an encoding, is in the
encoded text where it was. -/
theorem mem_encode_iff {set : Char → Bool} {d : Char} (hset : set d = false)
    (hplain : ∀ b, d ∉ Percent.encodeOctet b) {cs : List Char} : d ∈ encode set cs ↔ d ∈ cs := by
  constructor
  · intro h
    obtain ⟨c, hc, hd⟩ := List.mem_flatMap.mp h
    unfold encodeChar at hd
    split at hd
    · obtain ⟨b, -, hb⟩ := List.mem_flatMap.mp hd
      exact absurd hb (hplain b)
    · rwa [List.mem_singleton.mp hd]
  · intro h
    refine List.mem_flatMap.mpr ⟨d, h, ?_⟩
    rw [encodeChar_of_not hset]
    exact List.mem_singleton_self d

theorem not_mem_encodeOctet {d : Char} (h : d ∉ '%' :: "0123456789ABCDEF".toList) (b : UInt8) :
    d ∉ Percent.encodeOctet b := by
  have hdigit : ∀ n : Fin 16, Percent.digit n.val ∈ "0123456789ABCDEF".toList := by decide
  have hlt := b.toNat_lt
  intro hd
  rw [Percent.encodeOctet] at hd
  simp only [List.mem_cons, List.not_mem_nil, or_false] at hd
  refine h (List.mem_cons.mpr ?_)
  rcases hd with hd | hd | hd
  · exact Or.inl hd
  · exact Or.inr (hd ▸ hdigit ⟨b.toNat / 16, by omega⟩)
  · exact Or.inr (hd ▸ hdigit ⟨b.toNat % 16, by omega⟩)

theorem encode_eq_nil_iff {set : Char → Bool} {cs : List Char} : encode set cs = [] ↔ cs = [] := by
  cases cs with
  | nil => exact Iff.rfl
  | cons c cs =>
      refine ⟨fun h => ?_, fun h => by cases h⟩
      rw [encode, List.flatMap_cons, List.append_eq_nil_iff] at h
      have hc := h.1
      unfold encodeChar at hc
      split at hc
      · obtain ⟨b, rest, hb⟩ := List.exists_cons_of_ne_nil (String.utf8EncodeChar_ne_nil (c := c))
        rw [hb, List.flatMap_cons] at hc
        cases hc
      · cases hc

theorem splitOn_encode (cs : List Char) :
    (encode querySet cs).splitOn '&' = (cs.splitOn '&').map (encode querySet) := by
  induction hn : cs.length using Nat.strongRecOn generalizing cs with
  | ind n ih =>
    have hmem : ∀ ds : List Char, '&' ∈ encode querySet ds ↔ '&' ∈ ds := fun _ =>
      mem_encode_iff rfl (not_mem_encodeOctet (by decide))
    by_cases h : '&' ∈ cs
    · obtain ⟨xs, ys, rfl, hxs⟩ := List.eq_append_cons_of_mem h
      have hys := ih ys.length (by
        rw [← hn, List.length_append, List.length_cons]
        omega) ys rfl
      have hencode : encode querySet (xs ++ '&' :: ys)
          = encode querySet xs ++ '&' :: encode querySet ys := encode_append ..
      rw [hencode, List.splitOn_append_cons_self, List.splitOn_append_cons_self, hys,
        List.splitOn_eq_singleton hxs, List.splitOn_eq_singleton fun hx => hxs ((hmem xs).mp hx)]
      rfl
    · rw [List.splitOn_eq_singleton h, List.splitOn_eq_singleton fun hx => h ((hmem cs).mp hx)]
      rfl

theorem pair_encode (p : List Char) :
    Form.pair (String.ofList (encode querySet p)) = Form.pair (String.ofList p) := by
  have hmem : ∀ ds : List Char, '=' ∈ encode querySet ds ↔ '=' ∈ ds := fun _ =>
    mem_encode_iff rfl (not_mem_encodeOctet (by decide))
  by_cases h : '=' ∈ p
  · obtain ⟨n, v, rfl, hn⟩ := List.eq_append_cons_of_mem h
    have hencode : encode querySet (n ++ '=' :: v)
        = encode querySet n ++ '=' :: encode querySet v := encode_append ..
    rw [hencode, Form.pair_of_eq hn, Form.pair_of_eq fun hx => hn ((hmem n).mp hx),
      form_decode_encode, form_decode_encode]
  · rw [Form.pair_of_no_eq h, Form.pair_of_no_eq fun hx => h ((hmem p).mp hx), form_decode_encode]

/-- The pairs of a query are those of its text. -/
theorem form_parse_encode (cs : List Char) :
    Form.parse (String.ofList (encode querySet cs)) = Form.parse (String.ofList cs) := by
  have hempty : ∀ p : List Char, decide (String.ofList (encode querySet p) ≠ "")
      = decide (String.ofList p ≠ "") := by
    intro p
    have hiff : ∀ q : List Char, String.ofList q ≠ "" ↔ q ≠ [] := by
      intro q
      rw [ne_eq, ne_eq, ← String.toList_inj, String.toList_ofList]
      exact Iff.rfl
    rw [decide_eq_decide, hiff, hiff, ne_eq, encode_eq_nil_iff]
  simp only [Form.parse, Form.pieces, Text.split, String.toList_ofList, splitOn_encode,
    List.map_map, List.filter_map, Function.comp_def, hempty, pair_encode]

/-! ## Where a path leads -/

/-- Text without a percent sign was not encoded. -/
theorem encode_eq_of_no_percent {set : Char → Bool} {cs : List Char} (h : '%' ∉ encode set cs) :
    encode set cs = cs := by
  induction cs with
  | nil => rfl
  | cons c cs ih =>
      have hcons : encode set (c :: cs) = encodeChar set c ++ encode set cs := List.flatMap_cons
      rw [hcons, List.mem_append, not_or] at h
      rw [hcons, ih h.2]
      cases hc : set c with
      | false => rw [encodeChar_of_not hc, List.singleton_append]
      | true =>
          refine absurd ?_ h.1
          obtain ⟨b, rest, hb⟩ := List.exists_cons_of_ne_nil (String.utf8EncodeChar_ne_nil (c := c))
          rw [encodeChar, if_pos hc, hb, List.flatMap_cons]
          exact List.mem_append_left _ List.mem_cons_self

/-- The path starts with the segment `w` and goes on from there: a word
of characters that are not encoded. -/
theorem prefix_parsePath_iff {w cs : List Char} (hslash : '/' ∉ w) (hplain : ∀ c ∈ w, pathSet c = false)
    (hpercent : '%' ∉ w) (hdown : move w = .down) :
    '/' :: (w ++ ['/']) <+: serializePath (parsePath cs) ↔
      ∃ a b, segments cs = a ++ w :: b ∧ b ≠ [] ∧ DotSegments.Cancels move a
        ∧ DotSegments.Inside move b := by
  have hsegs := segments_ne_nil cs
  have hlast : (segments cs).dropLast ++ [(segments cs).getLast?.getD []] = segments cs := by
    rw [List.getLast?_eq_some_getLast hsegs]
    exact List.dropLast_append_getLast hsegs
  have hw : encode pathSet w = w := by
    have hflat : ∀ ds : List Char, (∀ c ∈ ds, pathSet c = false) → encode pathSet ds = ds := by
      intro ds hds
      induction ds with
      | nil => rfl
      | cons c ds ih =>
          have hcons : encode pathSet (c :: ds) = encodeChar pathSet c ++ encode pathSet ds :=
            List.flatMap_cons
          rw [hcons, encodeChar_of_not (hds c List.mem_cons_self),
            ih fun d hd => hds d (List.mem_cons_of_mem _ hd), List.singleton_append]
    exact hflat w hplain
  have hfree : ∀ seg ∈ parsePath cs, '/' ∉ seg := by
    intro seg hseg
    obtain ⟨raw, hraw, rfl⟩ := List.mem_map.mp hseg
    rw [mem_encode_iff rfl (not_mem_encodeOctet (by decide))]
    rcases DotSegments.mem_finish hraw with hraw | rfl | rfl
    · exact slash_not_mem_segments (List.dropLast_subset _ (DotSegments.mem_walk hraw))
    · show '/' ∉ (segments cs).getLast?.getD []
      rw [List.getLast?_eq_some_getLast hsegs]
      exact slash_not_mem_segments (List.getLast_mem hsegs)
    · simp
  rw [prefix_serializePath_iff hslash hfree, parsePath]
  have hfinish : (∃ r rest, DotSegments.finish move [] (DotSegments.walk move (segments cs).dropLast)
      ((segments cs).getLast?.getD []) = w :: r :: rest) ↔ ∃ a b, segments cs = a ++ w :: b
        ∧ b ≠ [] ∧ move w = .down ∧ DotSegments.Cancels move a ∧ DotSegments.Inside move b := by
    rw [DotSegments.finish_walk_iff, hlast]
  constructor
  · rintro ⟨r, rest, heq⟩
    obtain ⟨x, tail, hx, hxw, htail⟩ := List.map_eq_cons_iff.mp heq
    obtain ⟨y, rest', rfl, -, -⟩ := List.map_eq_cons_iff.mp htail
    have hxeq : x = w := by
      rw [← hxw] at hpercent ⊢
      exact (encode_eq_of_no_percent hpercent).symm
    obtain ⟨a, b, hsplit, hne, -, ha, hb⟩ := hfinish.mp ⟨y, rest', by rw [hx, hxeq]⟩
    exact ⟨a, b, hsplit, hne, ha, hb⟩
  · rintro ⟨a, b, hsplit, hne, ha, hb⟩
    obtain ⟨r, rest, heq⟩ := hfinish.mpr ⟨a, b, hsplit, hne, hdown, ha, hb⟩
    rw [heq, List.map_cons, List.map_cons, hw]
    exact ⟨_, _, rfl⟩

end WhatwgUrl

end Stelyph
