import Stelyph.Lib.Percent
import Stelyph.Lib.Rfc3986
import Stelyph.XrpcHandlers

/-!
# Record keys, record URIs and TIDs

What `validate_rkey` lets through, and what becomes of it in the URI of a
record. Its documentation has letters, digits and `-`, `_`, `~`, `.`, `:`;
the code has every printable ASCII character but the slash, among them
those that end the path of a URI and the percent sign.

A TID is thirteen digits of an alphabet in byte order, so that TIDs are in
the order of their times.
-/

namespace Stelyph

/-! ## TIDs -/

theorem toList_tidFromMicros (us : Nat) : (tidFromMicros us).toList
    = Text.digits (fun d => tidAlphabet.getD d '2') 32 13 (us * 2 ^ 10 % 2 ^ 64) := by
  rw [tidFromMicros, String.toList_ofList, Text.digits_eq_map]

theorem mem_digits {digit : Nat → Char} {base width n : Nat} (hbase : 0 < base) {c : Char}
    (h : c ∈ Text.digits digit base width n) : ∃ d < base, c = digit d := by
  rw [Text.digits_eq_map] at h
  obtain ⟨i, -, rfl⟩ := List.mem_map.mp h
  exact ⟨_, Nat.mod_lt _ hbase, rfl⟩

/-- The digits are lower-case letters and digits. -/
theorem tidDigit_of_mem {us : Nat} {c : Char} (h : c ∈ (tidFromMicros us).toList) :
    c ∈ tidAlphabet := by
  rw [toList_tidFromMicros] at h
  obtain ⟨d, hd, rfl⟩ := mem_digits (by decide) h
  have hall : ∀ d < 32, tidAlphabet.getD d '2' ∈ tidAlphabet := by decide
  exact hall d hd

/-- No bit is lost by the shift. -/
theorem tid_shift {us : Nat} (h : us < 2 ^ 54) : us * 2 ^ 10 % 2 ^ 64 = us * 2 ^ 10 := by
  rw [Nat.mod_eq_of_lt]
  omega

theorem tidChars_lt {a b : Nat} (h : a < b) (hb : b < 2 ^ 54) :
    (tidFromMicros a).toList < (tidFromMicros b).toList := by
  have hdigit : ∀ a b, a < b → b < 32 → tidAlphabet.getD a '2' < tidAlphabet.getD b '2' := by
    intro a b hab hb
    have hall : ∀ b < 32, ∀ a < b, tidAlphabet.getD a '2' < tidAlphabet.getD b '2' := by decide
    exact hall b hb a hab
  rw [toList_tidFromMicros, toList_tidFromMicros, tid_shift (Nat.lt_trans h hb), tid_shift hb]
  refine Text.digits_lt hdigit ?_ ?_
  · omega
  · omega

theorem tidBytes_lt {a b : Nat} :
    Text.bytes (tidFromMicros a) < Text.bytes (tidFromMicros b)
      ↔ (tidFromMicros a).toList < (tidFromMicros b).toList := by
  have hascii : ∀ us, ∀ c ∈ (tidFromMicros us).toList, c.toNat < 128 := by
    intro us c hc
    have hall : ∀ c ∈ tidAlphabet, c.toNat < 128 := Text.forall_mem_of_all (by decide)
    exact hall c (tidDigit_of_mem hc)
  have := Utf8.bytes_lt_ascii (hascii a) (hascii b)
  rwa [String.ofList_toList, String.ofList_toList] at this

/-! ## Record keys -/

/-- The characters the documentation of `validate_rkey` allows. -/
def documentedChar (c : Char) : Bool :=
  c.isAlphanum || c == '-' || c == '_' || c == '~' || c == '.' || c == ':'

/-- What the comment of `validate_rkey` says is accepted: length and characters. -/
structure DocumentedRkey (rkey : String) : Prop where
  nonempty : 1 ≤ rkey.length
  short : rkey.length ≤ 512
  chars : ∀ c ∈ rkey.toList, documentedChar c = true

/-- What the code looks at. -/
def acceptedChar (c : Char) : Bool := decide (0x21 ≤ c.toNat) && decide (c.toNat ≤ 0x7e) && c != '/'

theorem toNat_of_documented {c : Char} (h : documentedChar c = true) : c.toNat < 128 := by
  simp only [documentedChar, Bool.or_eq_true, beq_iff_eq] at h
  rcases h with ((((h | rfl) | rfl) | rfl) | rfl) | rfl
  · exact Text.toNat_of_isAlphanum h
  all_goals decide

theorem acceptedChar_of_documented {c : Char} (h : documentedChar c = true) :
    acceptedChar c = true := by
  have hall : ∀ n : Fin 128, documentedChar (Char.ofNat n.val) = true →
      acceptedChar (Char.ofNat n.val) = true := by decide +kernel
  have := hall ⟨c.toNat, toNat_of_documented h⟩
  rw [Char.ofNat_toNat] at this
  exact this h

theorem acceptedChar_iff {c : Char} :
    acceptedChar c = true ↔ 0x21 ≤ c.toNat ∧ c.toNat ≤ 0x7e ∧ c ≠ '/' := by
  simp [acceptedChar, and_assoc]

/-- The bytes of a text are printable where its characters are. -/
theorem all_bytes_printable {s : String} :
    ((Text.bytes s).all fun b => 0x21 ≤ b && b ≤ 0x7e) = true
      ↔ ∀ c ∈ s.toList, 0x21 ≤ c.toNat ∧ c.toNat ≤ 0x7e := by
  rw [Utf8.bytes_eq_flatMap, List.all_flatMap, List.all_eq_true]
  refine forall₂_congr fun c _ => ?_
  by_cases hc : c.toNat < 128
  · rw [Utf8.encode_ascii hc, List.all_cons, List.all_nil, Bool.and_true, Bool.and_eq_true,
      decide_eq_true_eq, decide_eq_true_eq, UInt8.le_iff_toNat_le, UInt8.le_iff_toNat_le,
      UInt8.toNat_ofNat', Nat.mod_eq_of_lt (by omega)]
    rfl
  · refine iff_of_false (fun hall => ?_) (by omega)
    obtain ⟨b, hb⟩ := List.exists_mem_of_ne_nil _ (String.utf8EncodeChar_ne_nil (c := c))
    have hhigh := Utf8.encode_high (Nat.le_of_not_lt hc) hb
    have hlow := List.all_eq_true.mp hall b hb
    simp only [Bool.and_eq_true, decide_eq_true_eq, UInt8.le_iff_toNat_le] at hlow
    have : b.toNat ≤ 126 := hlow.2
    omega

theorem utf8ByteSize_ascii {s : String} (h : ∀ c ∈ s.toList, c.toNat < 128) :
    s.utf8ByteSize = s.length := by
  have hbytes := congrArg List.length (Utf8.bytes_ofList_ascii h)
  rw [String.ofList_toList, List.length_map] at hbytes
  exact hbytes

/-- The limit is in bytes, but those of an accepted key are its
characters. -/
theorem validateRkey_iff {rkey : String} : validateRkey rkey = .ok () ↔
    1 ≤ rkey.length ∧ rkey.length ≤ 512 ∧ ∀ c ∈ rkey.toList, acceptedChar c = true := by
  have hempty : rkey.isEmpty = true ↔ ¬ 1 ≤ rkey.length := by
    rw [String.isEmpty_iff, ← String.length_eq_zero_iff]
    omega
  constructor
  · intro h
    unfold validateRkey at h
    split at h
    · cases h
    · rename_i hlen
      split at h
      · cases h
      · rename_i hslash
        split at h
        · cases h
        · rename_i hprint
          have hchars := all_bytes_printable.mp (by simpa using hprint)
          have hsize := utf8ByteSize_ascii fun c hc => Nat.lt_of_le_of_lt (hchars c hc).2 (by decide)
          rw [Bool.or_eq_true, hempty, decide_eq_true_eq, hsize] at hlen
          refine ⟨by omega, by omega, fun c hc => ?_⟩
          refine acceptedChar_iff.mpr ⟨(hchars c hc).1, (hchars c hc).2, ?_⟩
          rintro rfl
          exact hslash (by rw [List.contains_iff_mem.mpr hc]; rfl)
  · rintro ⟨hpos, hshort, hchars⟩
    have hprint := all_bytes_printable.mpr fun c hc =>
      ⟨(acceptedChar_iff.mp (hchars c hc)).1, (acceptedChar_iff.mp (hchars c hc)).2.1⟩
    have hsize := utf8ByteSize_ascii fun c hc =>
      Nat.lt_of_le_of_lt (acceptedChar_iff.mp (hchars c hc)).2.1 (by decide)
    have hnot : ∀ c, acceptedChar c = false → rkey.toList.contains c = false := by
      intro c hc
      rw [← Bool.not_eq_true, List.contains_iff_mem]
      intro hmem
      rw [hchars c hmem] at hc
      cases hc
    unfold validateRkey
    rw [if_neg, hnot '/' (by decide), hnot '\x00' (by decide), hprint]
    · rfl
    · rw [Bool.or_eq_true, hempty, decide_eq_true_eq, hsize]
      omega

theorem length_tidFromMicros (us : Nat) : (tidFromMicros us).length = 13 := by
  rw [← String.length_toList, toList_tidFromMicros, Text.length_digits]

theorem validateRkey_tid (us : Nat) : validateRkey (tidFromMicros us) = .ok () := by
  have hall : ∀ c ∈ tidAlphabet, acceptedChar c = true :=
    Text.forall_mem_of_all (by decide)
  refine validateRkey_iff.mpr ⟨?_, ?_, fun c hc => hall c (tidDigit_of_mem hc)⟩
  · rw [length_tidFromMicros]
    decide
  · rw [length_tidFromMicros]
    decide

/-- Below 2^54 microseconds TIDs are thirteen characters long, are record
keys, and are in the order of their times; from there on the shift would
lose bits. -/
theorem tid_order {a b : Nat} (ha : a < 2 ^ 54) (hb : b < 2 ^ 54) :
    (tidFromMicros a).length = 13 ∧ validateRkey (tidFromMicros a) = .ok ()
    ∧ (Text.bytes (tidFromMicros a) < Text.bytes (tidFromMicros b) ↔ a < b)
    ∧ (tidFromMicros a = tidFromMicros b → a = b)
    ∧ a * 2 ^ 10 % 2 ^ 64 / 2 ^ 10 = a := by
  have hlt : Text.bytes (tidFromMicros a) < Text.bytes (tidFromMicros b) ↔ a < b := by
    rw [tidBytes_lt]
    refine ⟨fun h => ?_, fun h => tidChars_lt h hb⟩
    rcases Nat.lt_trichotomy a b with hab | rfl | hba
    · exact hab
    · exact absurd h (List.lt_irrefl _)
    · exact absurd h (List.lt_asymm (tidChars_lt hba ha))
  refine ⟨length_tidFromMicros a, validateRkey_tid a, hlt, fun heq => ?_, ?_⟩
  · rcases Nat.lt_trichotomy a b with hab | hab | hba
    · have hless := tidChars_lt hab hb
      rw [heq] at hless
      exact absurd hless (List.lt_irrefl _)
    · exact hab
    · have hless := tidChars_lt hba ha
      rw [heq] at hless
      exact absurd hless (List.lt_irrefl _)
  · rw [tid_shift ha, Nat.mul_div_cancel a (by decide)]

/-- One microsecond apart, at the end of the range. -/
theorem tid_order_last :
    Text.bytes (tidFromMicros (2 ^ 54 - 2)) < Text.bytes (tidFromMicros (2 ^ 54 - 1)) :=
  (tid_order (by decide) (by decide)).2.2.1.mpr (by decide)

/-! ## The URI of a record -/

/-- `did:method:identifier`, in the syntax of DIDs. -/
structure IsDid (did : String) : Prop where
  parts : ∃ method ident : List Char, did.toList = "did:".toList ++ method ++ ':' :: ident
    ∧ method ≠ [] ∧ ident ≠ [] ∧ (∀ c ∈ method, c.isLower = true)
    ∧ (∀ c ∈ ident, c.isAlphanum = true ∨ c ∈ "._:%-".toList)
    ∧ ident.getLast? ≠ some ':' ∧ ident.getLast? ≠ some '%'

/-- What ends a component of a URI. -/
def uriDelimiter (c : Char) : Bool := c == '/' || c == '?' || c == '#'

/-- Collection and key of a record URI, by the grammar of RFC 3986: the
segments of the path, with their triplets decoded. -/
def recordOfUri (uri : String) : Option (String × String) :=
  match Text.split (Uri.split uri).path '/' with
  | ["", collection, rkey] => do
      let collection ← Text.ofBytes (Percent.decode (Text.bytes collection))
      let rkey ← Text.ofBytes (Percent.decode (Text.bytes rkey))
      return (collection, rkey)
  | _ => none

theorem not_delimiter_of_alphanum {c : Char} (h : c.isAlphanum = true) : uriDelimiter c = false := by
  have hall : ∀ n : Fin 128, (Char.ofNat n.val).isAlphanum = true →
      uriDelimiter (Char.ofNat n.val) = false := by decide +kernel
  have := hall ⟨c.toNat, Text.toNat_of_isAlphanum h⟩
  rw [Char.ofNat_toNat] at this
  exact this h

theorem IsDid.not_delimiter {did : String} (h : IsDid did) {c : Char} (hc : c ∈ did.toList) :
    uriDelimiter c = false := by
  obtain ⟨method, ident, hdid, -, -, hmethod, hident, -, -⟩ := h.parts
  rw [hdid] at hc
  rcases List.mem_append.mp hc with hc | hc
  · rcases List.mem_append.mp hc with hc | hc
    · have hall : ∀ c ∈ "did:".toList, uriDelimiter c = false :=
        Text.forall_mem_of_all (by decide)
      exact hall c hc
    · refine not_delimiter_of_alphanum ?_
      exact Text.isAlphanum_iff.mpr (Or.inl (Or.inr (hmethod c hc)))
  · rcases List.mem_cons.mp hc with rfl | hc
    · decide
    · rcases hident c hc with hc | hc
      · exact not_delimiter_of_alphanum hc
      · have hall : ∀ c ∈ "._:%-".toList, uriDelimiter c = false :=
          Text.forall_mem_of_all (by decide)
        exact hall c hc

/-! ### Collections -/

theorem validateSegments_ok {segs : List String} (h : validateSegments segs = .ok ()) :
    ∀ seg ∈ segs, validateSegment seg = .ok () := by
  induction segs with
  | nil => exact fun _ h => nomatch h
  | cons seg segs ih =>
      rw [validateSegments] at h
      cases hseg : validateSegment seg with
      | error e =>
          rw [hseg] at h
          cases h
      | ok u =>
          rw [hseg] at h
          exact List.forall_mem_cons.mpr ⟨hseg, ih h⟩

theorem validateSegment_ok {seg : String} (h : validateSegment seg = .ok ()) {c : Char}
    (hc : c ∈ seg.toList) : c.isAlphanum = true ∨ c = '-' := by
  unfold validateSegment at h
  split at h
  · cases h
  · split at h
    · cases h
    · split at h
      · cases h
      · rename_i hall
        rw [Bool.not_eq_true, Bool.not_eq_false'] at hall
        simpa using List.all_eq_true.mp hall c hc

/-- Letters, digits, hyphens and dots. -/
theorem collectionChar_of_valid {collection : String}
    (h : validateCollection collection = .ok ()) {c : Char} (hc : c ∈ collection.toList) :
    c.isAlphanum = true ∨ c = '-' ∨ c = '.' := by
  unfold validateCollection at h
  split at h
  · cases h
  · dsimp only at h
    split at h
    · cases h
    · by_cases hdot : c = '.'
      · exact Or.inr (Or.inr hdot)
      · obtain ⟨seg, hseg, hmem⟩ := Text.mem_splitOn hdot hc
        have hvalid := validateSegments_ok h (String.ofList seg) (List.mem_map_of_mem hseg)
        rcases validateSegment_ok hvalid (by rwa [String.toList_ofList]) with hc | hc
        · exact Or.inl hc
        · exact Or.inr (Or.inl hc)

theorem collection_not_delimiter {collection : String}
    (h : validateCollection collection = .ok ()) {c : Char} (hc : c ∈ collection.toList) :
    uriDelimiter c = false ∧ c ≠ '%' := by
  rcases collectionChar_of_valid h hc with hc | rfl | rfl
  · refine ⟨not_delimiter_of_alphanum hc, ?_⟩
    rintro rfl
    exact absurd hc (by decide)
  · decide
  · decide

/-! ### Read back -/

theorem toList_atUri (did collection rkey : String) : (atUri did collection rkey).toList
    = 'a' :: 't' :: ':' :: '/' :: '/' :: (did.toList
      ++ '/' :: (collection.toList ++ '/' :: rkey.toList)) := by
  have hscheme : "at://".toList = ['a', 't', ':', '/', '/'] := by decide
  have hslash : "/".toList = ['/'] := by decide
  simp only [atUri, toString, String.toList_append, hscheme, hslash, List.append_assoc,
    List.cons_append, List.nil_append]

/-- Nothing in the URI ends its path. -/
theorem split_atUri {did collection rkey : String} (hdid : IsDid did)
    (hcollection : validateCollection collection = .ok ())
    (hrkey : '#' ∉ rkey.toList ∧ '?' ∉ rkey.toList) :
    Uri.split (atUri did collection rkey)
      = { scheme := some "at", authority := some did
          path := String.ofList ('/' :: (collection.toList ++ '/' :: rkey.toList))
          query := none, fragment := none } := by
  have hnot : ∀ c, uriDelimiter c = true → c ≠ '/' → c ∉ rkey.toList →
      c ∉ (atUri did collection rkey).toList := by
    intro c hc hslash hr hmem
    rw [toList_atUri, ← List.singleton_append] at hmem
    simp only [List.mem_append, List.mem_cons, List.not_mem_nil, or_false] at hmem
    have hat : ∀ d ∈ ['a', 't', ':'], uriDelimiter d = false :=
      Text.forall_mem_of_all (by decide)
    have hfalse : ∀ {d}, uriDelimiter d = false → c ≠ d := by
      rintro d hd rfl
      rw [hd] at hc
      cases hc
    rcases hmem with h | h | h | h | h | h | h | h | h | h
    · exact hfalse (hat 'a' (by simp)) h
    · exact hfalse (hat 't' (by simp)) h
    · exact hfalse (hat ':' (by simp)) h
    · exact hslash h
    · exact hslash h
    · exact hfalse (hdid.not_delimiter h) rfl
    · exact hslash h
    · exact hfalse (collection_not_delimiter hcollection h).1 rfl
    · exact hslash h
    · exact hr h
  have hhash : Uri.cut '#' (atUri did collection rkey).toList
      = ((atUri did collection rkey).toList, none) :=
    Uri.cut_of_not_mem (hnot '#' (by decide) (by decide) hrkey.1)
  have hquery : Uri.cut '?' (atUri did collection rkey).toList
      = ((atUri did collection rkey).toList, none) :=
    Uri.cut_of_not_mem (hnot '?' (by decide) (by decide) hrkey.2)
  have hscheme : Uri.cutScheme (atUri did collection rkey).toList
      = (some ['a', 't'], '/' :: '/' :: (did.toList
        ++ '/' :: (collection.toList ++ '/' :: rkey.toList))) := by
    rw [toList_atUri]
    rfl
  have hslash : '/' ∉ did.toList := by
    intro hmem
    exact absurd (hdid.not_delimiter hmem) (by decide)
  rw [Uri.split, Uri.hierarchy, hhash]
  simp only [hquery, hscheme, Uri.cutAuthority, Text.takeWhile_append_cons hslash,
    Text.dropWhile_append_cons hslash, Option.map_some, Option.map_none, String.ofList_toList]

theorem split_path {collection rkey : String} (hcollection : '/' ∉ collection.toList)
    (hrkey : '/' ∉ rkey.toList) :
    Text.split (String.ofList ('/' :: (collection.toList ++ '/' :: rkey.toList))) '/'
      = ["", collection, rkey] := by
  have hpath : String.ofList ('/' :: (collection.toList ++ '/' :: rkey.toList))
      = (String.singleton '/').intercalate ["", collection, rkey] := by
    rw [← String.toList_inj, String.toList_ofList, String.toList_intercalate]
    simp [List.intercalate_cons_cons]
  rw [hpath]
  refine Text.split_intercalate (List.cons_ne_nil _ _) fun w hw => ?_
  simp only [List.mem_cons, List.not_mem_nil, or_false] at hw
  rcases hw with rfl | rfl | rfl
  · decide
  · exact hcollection
  · exact hrkey

theorem not_mem_of_documented {rkey : String} (h : DocumentedRkey rkey) {c : Char}
    (hc : documentedChar c = false) : c ∉ rkey.toList := by
  intro hmem
  rw [h.chars c hmem] at hc
  cases hc

/-- A documented key is read back from the URI. -/
theorem recordOfUri_atUri {did collection rkey : String} (hdid : IsDid did)
    (hcollection : validateCollection collection = .ok ()) (hrkey : DocumentedRkey rkey) :
    recordOfUri (atUri did collection rkey) = some (collection, rkey) := by
  have hslash : '/' ∉ collection.toList := fun hmem =>
    absurd (collection_not_delimiter hcollection hmem).1 (by decide)
  have hpercent : '%' ∉ collection.toList := fun hmem =>
    (collection_not_delimiter hcollection hmem).2 rfl
  have hdecode : ∀ s : String, '%' ∉ s.toList →
      Text.ofBytes (Percent.decode (Text.bytes s)) = some s := fun s hs => by
    rw [Percent.decode_bytes hs, Text.ofBytes_bytes]
  rw [recordOfUri, split_atUri hdid hcollection
    ⟨not_mem_of_documented hrkey (by decide), not_mem_of_documented hrkey (by decide)⟩,
    split_path hslash (not_mem_of_documented hrkey (by decide))]
  show (do
    let collection ← Text.ofBytes (Percent.decode (Text.bytes collection))
    let rkey ← Text.ofBytes (Percent.decode (Text.bytes rkey))
    return (collection, rkey)) = _
  rw [hdecode collection hpercent, hdecode rkey (not_mem_of_documented hrkey (by decide))]
  rfl

theorem validateRkey_of_documented {rkey : String} (h : DocumentedRkey rkey) :
    validateRkey rkey = .ok () :=
  validateRkey_iff.mpr ⟨h.nonempty, h.short, fun c hc => acceptedChar_of_documented (h.chars c hc)⟩

/-- The slashes are where they were put. -/
theorem atUri_injective {did did' collection collection' rkey rkey' : String} (hdid : IsDid did)
    (hdid' : IsDid did') (hcollection : validateCollection collection = .ok ())
    (hcollection' : validateCollection collection' = .ok ())
    (h : atUri did collection rkey = atUri did' collection' rkey') :
    did = did' ∧ collection = collection' ∧ rkey = rkey' := by
  have hslash : ∀ did, IsDid did → '/' ∉ did.toList := fun did hdid hmem =>
    absurd (hdid.not_delimiter hmem) (by decide)
  have hslash' : ∀ collection, validateCollection collection = .ok () →
      '/' ∉ collection.toList := fun collection hvalid hmem =>
    absurd (collection_not_delimiter hvalid hmem).1 (by decide)
  have htext := congrArg String.toList h
  rw [toList_atUri, toList_atUri] at htext
  simp only [List.cons.injEq, true_and] at htext
  obtain ⟨hd, hrest⟩ := Text.of_append_cons (hslash did hdid) (hslash did' hdid') htext
  obtain ⟨hc, hk⟩ := Text.of_append_cons (hslash' collection hcollection)
    (hslash' collection' hcollection') hrest
  exact ⟨String.toList_inj.mp hd, String.toList_inj.mp hc, String.toList_inj.mp hk⟩

/-- One to 512 printable characters without a slash, one of which the
documentation does not have. -/
structure OverlookedRkey (rkey : String) : Prop where
  nonempty : 1 ≤ rkey.length
  short : rkey.length ≤ 512
  printable : ∀ c ∈ rkey.toList, acceptedChar c = true
  overlooked : ∃ c ∈ rkey.toList, documentedChar c = false

/-- What is accepted is what is documented, and is read back from the URI,
for every key but the overlooked ones. No two records share a URI. -/
theorem rkey_uris_iff (rkey : String) :
    (((validateRkey rkey = .ok () ↔ DocumentedRkey rkey)
      ∧ (validateRkey rkey = .ok () → ∀ did collection, IsDid did →
        validateCollection collection = .ok () →
        recordOfUri (atUri did collection rkey) = some (collection, rkey)))
      ↔ ¬ OverlookedRkey rkey)
    ∧ ∀ did did' collection collection' rkey', IsDid did → IsDid did' →
      validateCollection collection = .ok () → validateCollection collection' = .ok () →
      atUri did collection rkey = atUri did' collection' rkey' →
      did = did' ∧ collection = collection' ∧ rkey = rkey' := by
  refine ⟨⟨?_, fun h => ?_⟩, fun did did' collection collection' rkey' hdid hdid' hc hc' h =>
    atUri_injective hdid hdid' hc hc' h⟩
  · rintro ⟨haccepts, -⟩ hover
    obtain ⟨c, hc, hnot⟩ := hover.overlooked
    have hdoc := haccepts.mp (validateRkey_iff.mpr ⟨hover.nonempty, hover.short, hover.printable⟩)
    exact not_mem_of_documented hdoc hnot hc
  · have hdoc : validateRkey rkey = .ok () → DocumentedRkey rkey := by
      intro hvalid
      obtain ⟨hnonempty, hshort, hprintable⟩ := validateRkey_iff.mp hvalid
      refine ⟨hnonempty, hshort, fun c hc => ?_⟩
      by_contra hnot
      exact h ⟨hnonempty, hshort, hprintable, c, hc, Bool.eq_false_iff.mpr hnot⟩
    refine ⟨⟨hdoc, validateRkey_of_documented⟩, fun hvalid did collection hdid hcollection => ?_⟩
    exact recordOfUri_atUri hdid hcollection (hdoc hvalid)

/-- A key with a fragment in it, and one with a triplet. -/
theorem overlooked_rkeys_misread :
    (¬ ∀ rkey, validateRkey rkey = .ok () → DocumentedRkey rkey)
    ∧ (¬ ∀ did collection rkey, IsDid did → validateCollection collection = .ok () →
      validateRkey rkey = .ok () →
      recordOfUri (atUri did collection rkey) = some (collection, rkey))
    ∧ recordOfUri (atUri "did:plc:alice" "app.bsky.feed.post" "a#b")
      = some ("app.bsky.feed.post", "a")
    ∧ recordOfUri (atUri "did:plc:alice" "app.bsky.feed.post" "a%41")
      = some ("app.bsky.feed.post", "aA") := by
  have hdid : IsDid "did:plc:alice" :=
    ⟨"plc".toList, "alice".toList, by decide, by decide, by decide,
      Text.forall_mem_of_all (by decide), Text.forall_mem_of_all (by decide), by decide, by decide⟩
  have hhash : recordOfUri (atUri "did:plc:alice" "app.bsky.feed.post" "a#b")
      = some ("app.bsky.feed.post", "a") := by decide +kernel
  refine ⟨fun h => ?_, fun h => ?_, hhash, by decide +kernel⟩
  · have := (h "a#b" (by decide +kernel)).chars '#' (by decide)
    exact absurd this (by decide)
  · have := h "did:plc:alice" "app.bsky.feed.post" "a#b" hdid (by decide +kernel)
      (by decide +kernel)
    rw [hhash] at this
    exact absurd this (by decide)

end Stelyph
