import Stelyph.Lib.Base64url
import Stelyph.Lib.DagCbor
import Stelyph.Jose

/-!
# Records as IPLD

`json_value_to_ipld` (`repo/util.rs`) writes a JSON value as DAG-CBOR and
reads that back. JSON has neither links nor bytes; the data model of a
record has both, as objects with the one key `$link` or `$bytes`. Nothing
on the way looks for those objects, so each comes back as the map it was.
-/

namespace Stelyph

/-- The crates `serde_json` and `serde_ipld_dagcbor`. -/
structure DagCborLib where
  Cid : Type
  /-- The double that a decimal denotes. -/
  f64 : String → UInt64
  toVec : Ipld Cid → Except String Bytes
  fromSlice : Bytes → Except String (Ipld Cid)

/-- A value of the data model is read back from its encoding. -/
structure DagCborLib.Laws (D : DagCborLib) : Prop where
  read_back : ∀ {x : Ipld D.Cid}, x.Fits →
    ∃ bytes, D.toVec x = .ok bytes ∧ D.fromSlice bytes = .ok x

/-- How links and bytes stand in JSON: which strings are CIDs, and which
are base64. Two parameters, for the two decoders. -/
structure JsonForm (Cid : Type) where
  cid : String → Option Cid
  base64 : String → Option Bytes

section

variable (D : DagCborLib)

/-- A number that is no 64-bit integer is read as a double. -/
def serializeNum (n : Int) : Ipld D.Cid :=
  if -2 ^ 63 ≤ n ∧ n < 2 ^ 64 then .integer n else .float (D.f64 (toString n))

mutual

/-- What `serde_json::Value` hands to an encoder. -/
def Json.serialize : Json → Ipld D.Cid
  | .null => .null
  | .bool b => .bool b
  | .num n => serializeNum D n
  | .frac f => .float (D.f64 f.text)
  | .str s => .string s
  | .arr xs => .list (serializeAll xs)
  | .obj kvs => .map (serializeFields kvs)

def serializeAll : List Json → List (Ipld D.Cid)
  | [] => []
  | x :: xs => x.serialize :: serializeAll xs

def serializeFields : List (String × Json) → List (String × Ipld D.Cid)
  | [] => []
  | (k, v) :: kvs => (k, v.serialize) :: serializeFields kvs

end

/-- A record goes through its encoding: what is decoded again is the value
of the data model. An object that stands for a link comes back as an
object. -/
def jsonValueToIpld (value : Json) : Except String (Ipld D.Cid) := do
  let cborBytes ← (D.toVec (value.serialize D)).mapError fun e =>
    s!"json→dagcbor encode failed: {e}"
  (D.fromSlice cborBytes).mapError fun e => s!"dagcbor→ipld decode failed: {e}"

/-! ## The meaning of a record -/

variable {D}

variable (F : JsonForm D.Cid)

/-- What an object with the one key `$link` or `$bytes` stands for. -/
def JsonForm.special : List (String × Json) → Option (Ipld D.Cid)
  | [(k, .str s)] =>
      if k = "$link" then (F.cid s).map .link
      else if k = "$bytes" then (F.base64 s).map .bytes
      else none
  | _ => none

mutual

/-- What a value should become: objects that stand for a link or for bytes
become those. -/
def Json.dataModel : Json → Ipld D.Cid
  | .null => .null
  | .bool b => .bool b
  | .num n => serializeNum D n
  | .frac f => .float (D.f64 f.text)
  | .str s => .string s
  | .arr xs => .list (dataModelAll xs)
  | .obj kvs => (F.special kvs).getD (.map (dataModelFields kvs))

def dataModelAll : List Json → List (Ipld D.Cid)
  | [] => []
  | x :: xs => x.dataModel :: dataModelAll xs

def dataModelFields : List (String × Json) → List (String × Ipld D.Cid)
  | [] => []
  | (k, v) :: kvs => (k, v.dataModel) :: dataModelFields kvs

end

mutual

/-- Somewhere in the value an object stands for a link or for bytes. -/
def Json.marked : Json → Bool
  | .arr xs => markedAll xs
  | .obj kvs => (F.special kvs).isSome || markedFields kvs
  | _ => false

def markedAll : List Json → Bool
  | [] => false
  | x :: xs => x.marked || markedAll xs

def markedFields : List (String × Json) → Bool
  | [] => false
  | (_, v) :: kvs => v.marked || markedFields kvs

end

/-- A value of the atproto data model: integers of 64 bits and no other
numbers, and the keys `$link` and `$bytes` only in the objects that stand
for links and bytes. The entries of a `serde_json::Map` are in the order of
their keys. -/
inductive Json.Valid : Json → Prop
  | null : Json.Valid .null
  | bool (b : Bool) : Json.Valid (.bool b)
  | num {n : Int} (low : -2 ^ 63 ≤ n) (high : n < 2 ^ 63) : Json.Valid (.num n)
  | str {s : String} (h : (Text.bytes s).length < 2 ^ 64) : Json.Valid (.str s)
  | arr {xs : List Json} (h : xs.length < 2 ^ 64) (each : ∀ x ∈ xs, Json.Valid x) :
      Json.Valid (.arr xs)
  | link {s : String} {c : D.Cid} (h : (Text.bytes s).length < 2 ^ 64) (hc : F.cid s = some c) :
      Json.Valid (.obj [("$link", .str s)])
  | bytes {s : String} {bs : Bytes} (h : (Text.bytes s).length < 2 ^ 64)
      (hbs : F.base64 s = some bs) : Json.Valid (.obj [("$bytes", .str s)])
  | obj {kvs : List (String × Json)} (h : kvs.length < 2 ^ 64)
      (ascending : (kvs.map Prod.fst).Pairwise (· < ·))
      (keys : ∀ kv ∈ kvs, (Text.bytes kv.1).length < 2 ^ 64)
      (reserved : ∀ kv ∈ kvs, kv.1 ≠ "$link" ∧ kv.1 ≠ "$bytes")
      (each : ∀ kv ∈ kvs, Json.Valid kv.2) : Json.Valid (.obj kvs)

/-- A valid value that says its type, which every record does. -/
structure Json.ValidRecord (v : Json) : Prop where
  valid : v.Valid F
  typed : ∃ t, v.get "$type" = some (.str t)

end

/-! ## Lists of values -/

section

variable {D : DagCborLib} {F : JsonForm D.Cid}

theorem serializeAll_eq (xs : List Json) : serializeAll D xs = xs.map (Json.serialize D) := by
  induction xs with
  | nil => rfl
  | cons x xs ih => rw [serializeAll, ih, List.map_cons]

theorem serializeFields_eq (kvs : List (String × Json)) :
    serializeFields D kvs = kvs.map fun kv => (kv.1, kv.2.serialize D) := by
  induction kvs with
  | nil => rfl
  | cons kv kvs ih => rw [serializeFields, ih, List.map_cons]

theorem dataModelAll_eq (xs : List Json) : dataModelAll F xs = xs.map (Json.dataModel F) := by
  induction xs with
  | nil => rfl
  | cons x xs ih => rw [dataModelAll, ih, List.map_cons]

theorem dataModelFields_eq (kvs : List (String × Json)) :
    dataModelFields F kvs = kvs.map fun kv => (kv.1, kv.2.dataModel F) := by
  induction kvs with
  | nil => rfl
  | cons kv kvs ih => rw [dataModelFields, ih, List.map_cons]

theorem markedAll_eq_false {xs : List Json} :
    markedAll F xs = false ↔ ∀ x ∈ xs, x.marked F = false := by
  induction xs with
  | nil => simp [markedAll]
  | cons x xs ih => simp [markedAll, ih]

theorem markedFields_eq_false {kvs : List (String × Json)} :
    markedFields F kvs = false ↔ ∀ kv ∈ kvs, kv.2.marked F = false := by
  induction kvs with
  | nil => simp [markedFields]
  | cons kv kvs ih =>
      obtain ⟨k, v⟩ := kv
      simp [markedFields, ih]

/-! ## What comes back -/

theorem serializeNum_of_range {n : Int} (low : -2 ^ 63 ≤ n) (high : n < 2 ^ 63) :
    serializeNum D n = .integer n := if_pos ⟨low, by omega⟩

theorem special_eq_none {kvs : List (String × Json)}
    (h : ∀ kv ∈ kvs, kv.1 ≠ "$link" ∧ kv.1 ≠ "$bytes") : F.special kvs = none := by
  unfold JsonForm.special
  split
  · rename_i k s
    have hk := h (k, .str s) (List.mem_singleton_self _)
    rw [if_neg hk.1, if_neg hk.2]
  · rfl

theorem special_link {s : String} {c : D.Cid} (h : F.cid s = some c) :
    F.special [("$link", .str s)] = some (.link c) := by
  simp [JsonForm.special, h]

theorem special_bytes {s : String} {bs : Bytes} (h : F.base64 s = some bs) :
    F.special [("$bytes", .str s)] = some (.bytes bs) := by
  simp [JsonForm.special, h]

/-- A valid value is within the limits of the format. -/
theorem fits_serialize {v : Json} (h : v.Valid F) : (v.serialize D).Fits := by
  have hsingle : ∀ {k s}, (Text.bytes k).length < 2 ^ 64 → (Text.bytes s).length < 2 ^ 64 →
      (Json.serialize D (.obj [(k, .str s)])).Fits := by
    intro k s hk hs
    exact .map (show 1 < 2 ^ 64 by decide) (List.pairwise_singleton _ _) (List.forall_mem_singleton.mpr hk)
      (List.forall_mem_singleton.mpr (.string hs))
  induction h with
  | null => exact .null
  | bool b => exact .bool b
  | num low high =>
      rw [Json.serialize, serializeNum_of_range low high]
      exact .integer low (by omega)
  | str h => exact .string h
  | arr h each ih =>
      rw [Json.serialize, serializeAll_eq]
      exact .list (by rwa [List.length_map]) (List.forall_mem_map.mpr ih)
  | link h hc => exact hsingle (by decide) h
  | bytes h hbs => exact hsingle (by decide) h
  | obj h ascending keys reserved each ih =>
      rw [Json.serialize, serializeFields_eq]
      refine .map (by rwa [List.length_map]) ?_ (List.forall_mem_map.mpr keys)
        (List.forall_mem_map.mpr ih)
      rw [List.map_map]
      exact ascending

/-- The bridge encodes and decodes: what comes back has the structure of
the JSON value. -/
theorem jsonValueToIpld_eq (laws : D.Laws) {v : Json} (h : v.Valid F) :
    jsonValueToIpld D v = .ok (v.serialize D) := by
  obtain ⟨bytes, hwrite, hread⟩ := laws.read_back (fits_serialize h)
  rw [jsonValueToIpld, hwrite]
  simp only [Except.mapError, bind, Except.bind, hread]

/-- And that is what the value means unless it has a link or bytes in it. -/
theorem serialize_eq_dataModel_iff {v : Json} (h : v.Valid F) :
    v.serialize D = v.dataModel F ↔ v.marked F = false := by
  induction h with
  | null => exact iff_of_true rfl rfl
  | bool b => exact iff_of_true rfl rfl
  | num low high => exact iff_of_true rfl rfl
  | str h => exact iff_of_true rfl rfl
  | arr h each ih =>
      rw [Json.serialize, Json.dataModel, serializeAll_eq, dataModelAll_eq, Json.marked,
        markedAll_eq_false, Ipld.list.injEq, List.map_inj_left]
      exact forall₂_congr ih
  | link h hc =>
      refine iff_of_false ?_ ?_
      · rw [Json.dataModel, special_link hc]
        intro heq
        cases heq
      · simp [Json.marked, special_link hc]
  | bytes h hbs =>
      refine iff_of_false ?_ ?_
      · rw [Json.dataModel, special_bytes hbs]
        intro heq
        cases heq
      · simp [Json.marked, special_bytes hbs]
  | obj h ascending keys reserved each ih =>
      rw [Json.serialize, Json.dataModel, special_eq_none reserved, Option.getD_none,
        serializeFields_eq, dataModelFields_eq, Json.marked, special_eq_none reserved,
        Option.isSome_none, Bool.false_or, markedFields_eq_false, Ipld.map.injEq,
        List.map_inj_left]
      refine forall₂_congr fun kv hkv => ?_
      rw [Prod.mk.injEq, and_iff_right rfl, ih kv hkv]

end

/-! ## Reading the JSON value off again -/

section

variable {Cid : Type}

mutual

/-- The JSON value of a value without floats, bytes and links. -/
def Ipld.toJson : Ipld Cid → Json
  | .bool b => .bool b
  | .integer n => .num n
  | .string s => .str s
  | .list xs => .arr (toJsonAll xs)
  | .map kvs => .obj (toJsonFields kvs)
  | _ => .null

def toJsonAll : List (Ipld Cid) → List Json
  | [] => []
  | x :: xs => x.toJson :: toJsonAll xs

def toJsonFields : List (String × Ipld Cid) → List (String × Json)
  | [] => []
  | (k, x) :: kvs => (k, x.toJson) :: toJsonFields kvs

end

theorem toJsonAll_eq (xs : List (Ipld Cid)) : toJsonAll xs = xs.map Ipld.toJson := by
  induction xs with
  | nil => rfl
  | cons x xs ih => rw [toJsonAll, ih, List.map_cons]

theorem toJsonFields_eq (kvs : List (String × Ipld Cid)) :
    toJsonFields kvs = kvs.map fun kv => (kv.1, kv.2.toJson) := by
  induction kvs with
  | nil => rfl
  | cons kv kvs ih => rw [toJsonFields, ih, List.map_cons]

theorem toJson_serialize {D : DagCborLib} {F : JsonForm D.Cid} {v : Json} (h : v.Valid F) :
    (v.serialize D).toJson = v := by
  induction h with
  | null => rfl
  | bool b => rfl
  | num low high => rw [Json.serialize, serializeNum_of_range low high, Ipld.toJson]
  | str h => rfl
  | arr h each ih =>
      rw [Json.serialize, serializeAll_eq, Ipld.toJson, toJsonAll_eq, List.map_map]
      exact congrArg _ ((List.map_congr_left ih).trans (List.map_id _))
  | link h hc => rfl
  | bytes h hbs => rfl
  | obj h ascending keys reserved each ih =>
      rw [Json.serialize, serializeFields_eq, Ipld.toJson, toJsonFields_eq, List.map_map]
      refine congrArg _ ((List.map_congr_left fun kv hkv => ?_).trans (List.map_id _))
      exact congrArg (Prod.mk kv.1) (ih kv hkv)

end

/-! ## Records -/

section

variable {D : DagCborLib} {F : JsonForm D.Cid}

/-- Both values are converted, and their encodings differ. -/
def EncodedApart (D : DagCborLib) (v v' : Json) : Prop :=
  ∃ x x' bytes bytes', jsonValueToIpld D v = .ok x ∧ jsonValueToIpld D v' = .ok x'
    ∧ D.toVec x = .ok bytes ∧ D.toVec x' = .ok bytes' ∧ bytes ≠ bytes'

theorem encodedApart (laws : D.Laws) {v v' : Json} (h : v.Valid F) (h' : v'.Valid F)
    (hne : v.dataModel F ≠ v'.dataModel F) : EncodedApart D v v' := by
  obtain ⟨bytes, hwrite, hread⟩ := laws.read_back (fits_serialize h)
  obtain ⟨bytes', hwrite', hread'⟩ := laws.read_back (fits_serialize h')
  refine ⟨_, _, bytes, bytes', jsonValueToIpld_eq laws h, jsonValueToIpld_eq laws h', hwrite,
    hwrite', ?_⟩
  rintro rfl
  -- one encoding is read back as one value, and that has one JSON form
  have hsame : v.serialize D = v'.serialize D := Except.ok.inj (hread.symm.trans hread')
  have hv : v = v' := by rw [← toJson_serialize h, hsame, toJson_serialize h']
  exact hne (congrArg _ hv)

/-- What `uploadBlob` answers, as a client puts it into a record. -/
def blobRef (link mimeType : String) (size : Int) : Json :=
  .obj [("$type", .str "blob"), ("mimeType", .str mimeType),
    ("ref", .obj [("$link", .str link)]), ("size", .num size)]

theorem marked_of_mem {kvs : List (String × Json)} {kv : String × Json} (h : kv ∈ kvs)
    (hmarked : kv.2.marked F = true) : (Json.obj kvs).marked F = true := by
  rw [Json.marked, Bool.or_eq_true]
  refine Or.inr ?_
  by_contra hfields
  rw [Bool.not_eq_true, markedFields_eq_false] at hfields
  rw [hfields kv h] at hmarked
  cases hmarked

theorem marked_blobRef {link : String} {c : D.Cid} (h : F.cid link = some c) (mimeType : String)
    (size : Int) : (blobRef link mimeType size).marked F = true := by
  have href : (Json.obj [("$link", .str link)]).marked F = true := by
    simp [Json.marked, special_link h]
  exact marked_of_mem (List.mem_cons_of_mem _ (List.mem_cons_of_mem _ List.mem_cons_self)) href

/-- A record keeps its meaning exactly when no object in it stands for a
link or for bytes; records that mean different things have different
encodings in any case. -/
theorem records_keep_meaning_iff (laws : D.Laws) (F : JsonForm D.Cid) :
    (∀ v, v.ValidRecord F →
      (jsonValueToIpld D v = .ok (v.dataModel F) ↔ v.marked F = false))
      ∧ ∀ v v', v.ValidRecord F → v'.ValidRecord F → v.dataModel F ≠ v'.dataModel F →
        EncodedApart D v v' := by
  refine ⟨fun v h => ?_, fun v v' h h' hne => encodedApart laws h.valid h'.valid hne⟩
  rw [jsonValueToIpld_eq laws h.valid, Except.ok.injEq]
  exact serialize_eq_dataModel_iff h.valid

end

/-! ## DAG-CBOR itself, and two records -/

abbrev RawCid : Type := { bs : Bytes // bs.length + 1 < 2 ^ 64 }

def rawCidCodec : CidCodec RawCid where
  toBytes c := c.1
  ofBytes bs := if h : bs.length + 1 < 2 ^ 64 then some ⟨bs, h⟩ else none
  of_to c := dif_pos c.2
  length_lt c := c.2

def ipldFromSlice (bytes : Bytes) : Except String (Ipld RawCid) :=
  match DagCbor.decodeAll rawCidCodec bytes with
  | some x => .ok x
  | none => .error "invalid DAG-CBOR"

theorem ipldFromSlice_encode {x : Ipld RawCid} (hx : x.Fits) :
    ipldFromSlice (DagCbor.encode rawCidCodec x) = .ok x := by
  rw [ipldFromSlice, DagCbor.decodeAll_encode hx]

def dagCbor : DagCborLib where
  Cid := RawCid
  f64 _ := 0
  toVec x := .ok (DagCbor.encode rawCidCodec x)
  fromSlice := ipldFromSlice

theorem dagCbor_laws : dagCbor.Laws where
  read_back hx := ⟨_, rfl, ipldFromSlice_encode hx⟩

def base32Value (c : Char) : Option Nat :=
  if c.isLower then some (c.toNat - 'a'.toNat)
  else if '2' ≤ c ∧ c ≤ '7' then some (c.toNat - '2'.toNat + 26)
  else none

/-- A CID of version 1 in base 32, with a digest of 32 bytes. -/
def cidOfText (s : String) : Option RawCid :=
  match s.toList with
  | 'b' :: digits => do
      let values ← digits.mapM base32Value
      let n := values.foldl (fun n v => n * 32 + v) 0
      if values.length = 58 ∧ n % 4 = 0 then rawCidCodec.ofBytes (Octets.big 36 (n / 4)) else none
  | _ => none

def atprotoForm : JsonForm dagCbor.Cid where
  cid := cidOfText
  base64 s := Base64url.decode (s.map fun c => if c = '+' then '-' else if c = '/' then '_' else c)

def postRecord (text : String) : Json :=
  .obj [("$type", .str "app.bsky.feed.post"), ("langs", .arr [.str "en"]), ("text", .str text)]

theorem postRecord_valid {text : String} (h : (Text.bytes text).length < 2 ^ 64) :
    (postRecord text).ValidRecord atprotoForm where
  valid := by
    have hkeys : ∀ k ∈ ["$type", "langs", "text"], (Text.bytes k).length < 2 ^ 64
        ∧ k ≠ "$link" ∧ k ≠ "$bytes" := by decide
    refine .obj (show 3 < 2 ^ 64 by decide)
      (show List.Pairwise (· < ·) ["$type", "langs", "text"] by decide)
      (fun kv hkv => (hkeys kv.1 (List.mem_map_of_mem hkv)).1)
      (fun kv hkv => (hkeys kv.1 (List.mem_map_of_mem hkv)).2) ?_
    rw [List.forall_mem_cons, List.forall_mem_cons, List.forall_mem_singleton]
    refine ⟨.str (by decide), .arr (by decide) ?_, .str h⟩
    exact List.forall_mem_singleton.mpr (.str (by decide))
  typed := ⟨_, rfl⟩

/-- Two flat records: what they mean is what comes back, and they are
encoded apart. -/
theorem postRecord_kept :
    jsonValueToIpld dagCbor (postRecord "hi") = .ok ((postRecord "hi").dataModel atprotoForm)
      ∧ EncodedApart dagCbor (postRecord "hi") (postRecord "ho") := by
  have hhi : (postRecord "hi").ValidRecord atprotoForm := postRecord_valid (by decide)
  have hho : (postRecord "ho").ValidRecord atprotoForm := postRecord_valid (by decide)
  refine ⟨((records_keep_meaning_iff dagCbor_laws atprotoForm).1 _ hhi).mpr rfl,
    (records_keep_meaning_iff dagCbor_laws atprotoForm).2 _ _ hhi hho ?_⟩
  intro heq
  simp [postRecord, Json.dataModel, JsonForm.special, dataModelFields] at heq

/-- The CID of a blob of five bytes, as `uploadBlob` answers it. -/
def helloCid : String := "bafkreibm6jg3ux5qumhcn2b3flc3tyu6dmlb4xa7u5bf44yegnrjhc4yeq"

def profileRecord : Json :=
  .obj [("$type", .str "app.bsky.actor.profile"), ("avatar", blobRef helloCid "image/png" 5)]

theorem helloCid_isCid : ∃ c, atprotoForm.cid helloCid = some c :=
  Option.isSome_iff_exists.mp (by decide +kernel)

theorem blobRef_valid : (blobRef helloCid "image/png" 5).Valid atprotoForm := by
  obtain ⟨c, hc⟩ := helloCid_isCid
  have hkeys : ∀ k ∈ ["$type", "mimeType", "ref", "size"], (Text.bytes k).length < 2 ^ 64
      ∧ k ≠ "$link" ∧ k ≠ "$bytes" := by decide
  refine .obj (show 4 < 2 ^ 64 by decide)
    (show List.Pairwise (· < ·) ["$type", "mimeType", "ref", "size"] by decide)
    (fun kv hkv => (hkeys kv.1 (List.mem_map_of_mem hkv)).1)
    (fun kv hkv => (hkeys kv.1 (List.mem_map_of_mem hkv)).2) ?_
  rw [List.forall_mem_cons, List.forall_mem_cons, List.forall_mem_cons, List.forall_mem_singleton]
  exact ⟨.str (by decide), .str (by decide), .link (by decide) hc, .num (by decide) (by decide)⟩

theorem profileRecord_valid : profileRecord.ValidRecord atprotoForm where
  valid := by
    have hkeys : ∀ k ∈ ["$type", "avatar"], (Text.bytes k).length < 2 ^ 64
        ∧ k ≠ "$link" ∧ k ≠ "$bytes" := by decide
    refine .obj (show 2 < 2 ^ 64 by decide)
      (show List.Pairwise (· < ·) ["$type", "avatar"] by decide)
      (fun kv hkv => (hkeys kv.1 (List.mem_map_of_mem hkv)).1)
      (fun kv hkv => (hkeys kv.1 (List.mem_map_of_mem hkv)).2) ?_
    rw [List.forall_mem_cons, List.forall_mem_singleton]
    exact ⟨.str (by decide), blobRef_valid⟩
  typed := ⟨_, rfl⟩

/-- A record with an uploaded blob in it does not keep its link. -/
theorem profileRecord_changed :
    profileRecord.ValidRecord atprotoForm
      ∧ jsonValueToIpld dagCbor profileRecord ≠ .ok (profileRecord.dataModel atprotoForm) := by
  refine ⟨profileRecord_valid, ?_⟩
  rw [jsonValueToIpld_eq dagCbor_laws profileRecord_valid.valid, Ne, Except.ok.injEq,
    serialize_eq_dataModel_iff profileRecord_valid.valid, Bool.not_eq_false]
  obtain ⟨c, hc⟩ := helloCid_isCid
  exact marked_of_mem (List.mem_cons_of_mem _ List.mem_cons_self)
    (marked_blobRef hc "image/png" 5)

end Stelyph
