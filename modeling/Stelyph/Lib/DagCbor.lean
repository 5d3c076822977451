import Mathlib.Data.List.Sort
import Mathlib.Data.String.Basic
import Stelyph.Lib.Octets
import Stelyph.Lib.Text

/-!
# The IPLD data model and DAG-CBOR

DAG-CBOR writes a value of the data model as bytes: a head with the kind
of the value and a number, and then what the number counts. The entries of
a map stand in one order, the shorter keys first, so that a value has one
encoding; a link is a byte string under tag 42. A value within the limits
of the format is read back from its bytes (`decode_encode`).
-/

namespace Stelyph

/-- A map is the list of its entries in the order of their keys. -/
inductive Ipld (Cid : Type) where
  | null
  | bool (b : Bool)
  | integer (n : Int)
  | float (bits : UInt64)
  | string (s : String)
  | bytes (bs : List UInt8)
  | list (xs : List (Ipld Cid))
  | map (kvs : List (String × Ipld Cid))
  | link (c : Cid)

namespace Ipld

variable {Cid : Type}

/-- No float in it, integers of 64 bits, and every length a 64-bit number. -/
inductive Fits : Ipld Cid → Prop
  | null : Fits .null
  | bool (b : Bool) : Fits (.bool b)
  | integer {n : Int} (low : -2 ^ 63 ≤ n) (high : n < 2 ^ 64) : Fits (.integer n)
  | string {s : String} (h : (Text.bytes s).length < 2 ^ 64) : Fits (.string s)
  | bytes {bs : List UInt8} (h : bs.length < 2 ^ 64) : Fits (.bytes bs)
  | list {xs : List (Ipld Cid)} (h : xs.length < 2 ^ 64) (each : ∀ x ∈ xs, Fits x) : Fits (.list xs)
  | map {kvs : List (String × Ipld Cid)} (h : kvs.length < 2 ^ 64)
      (ascending : (kvs.map Prod.fst).Pairwise (· < ·))
      (keys : ∀ kv ∈ kvs, (Text.bytes kv.1).length < 2 ^ 64) (each : ∀ kv ∈ kvs, Fits kv.2) :
      Fits (.map kvs)
  | link (c : Cid) : Fits (.link c)

end Ipld

/-- How CIDs are written as bytes. -/
structure CidCodec (Cid : Type) where
  toBytes : Cid → List UInt8
  ofBytes : List UInt8 → Option Cid
  of_to : ∀ c, ofBytes (toBytes c) = some c
  length_lt : ∀ c, (toBytes c).length + 1 < 2 ^ 64

namespace DagCbor

/-! ## Heads -/

/-- The first bytes of an item: its major type and its number, which is
its value or its length, in the shortest of the five forms. -/
def head (major n : Nat) : List UInt8 :=
  if n < 24 then [UInt8.ofNat (major * 32 + n)]
  else if n < 2 ^ 8 then UInt8.ofNat (major * 32 + 24) :: Octets.big 1 n
  else if n < 2 ^ 16 then UInt8.ofNat (major * 32 + 25) :: Octets.big 2 n
  else if n < 2 ^ 32 then UInt8.ofNat (major * 32 + 26) :: Octets.big 4 n
  else UInt8.ofNat (major * 32 + 27) :: Octets.big 8 n

def takeBytes (n : Nat) (bs : List UInt8) : Option (List UInt8 × List UInt8) :=
  if n ≤ bs.length then some (bs.take n, bs.drop n) else none

/-- How many bytes of a number follow. -/
def argWidth : Nat → Option Nat
  | 24 => some 1
  | 25 => some 2
  | 26 => some 4
  | 27 => some 8
  | _ => none

structure Head where
  major : Nat
  info : Nat
  arg : Nat

def readHead : List UInt8 → Option (Head × List UInt8)
  | [] => none
  | b :: rest =>
      if b.toNat % 32 < 24 then some (⟨b.toNat / 32, b.toNat % 32, b.toNat % 32⟩, rest)
      else
        (argWidth (b.toNat % 32)).bind fun w => (takeBytes w rest).map fun r =>
          (⟨b.toNat / 32, b.toNat % 32, Octets.ofBig r.1⟩, r.2)

@[simp] theorem takeBytes_append (bs rest : List UInt8) :
    takeBytes bs.length (bs ++ rest) = some (bs, rest) := by
  rw [takeBytes, if_pos (by simp), List.take_left, List.drop_left]

theorem readHead_wide {major info w n : Nat} (hmajor : major < 8) (hinfo : 24 ≤ info)
    (hinfo' : info < 32) (hwidth : argWidth info = some w) (hn : n < 256 ^ w) (rest : List UInt8) :
    readHead (UInt8.ofNat (major * 32 + info) :: (Octets.big w n ++ rest))
      = some (⟨major, info, n⟩, rest) := by
  have hbyte : (UInt8.ofNat (major * 32 + info)).toNat = major * 32 + info := by
    rw [UInt8.toNat_ofNat']
    omega
  have hinfo₂ : (major * 32 + info) % 32 = info := by omega
  have hmajor₂ : (major * 32 + info) / 32 = major := by omega
  have htake := takeBytes_append (Octets.big w n) rest
  rw [Octets.length_big] at htake
  rw [readHead, hbyte, hinfo₂, hmajor₂, if_neg (by omega), hwidth, Option.bind_some, htake,
    Option.map_some, Octets.ofBig_big hn]

theorem readHead_head {major n : Nat} (hmajor : major < 8) (hn : n < 2 ^ 64) (rest : List UInt8) :
    ∃ info, readHead (head major n ++ rest) = some (⟨major, info, n⟩, rest) := by
  unfold head
  split_ifs with h₀ h₁ h₂ h₄
  · have hbyte : (UInt8.ofNat (major * 32 + n)).toNat = major * 32 + n := by
      rw [UInt8.toNat_ofNat']
      omega
    have hinfo : (major * 32 + n) % 32 = n := by omega
    have hmajor₂ : (major * 32 + n) / 32 = major := by omega
    refine ⟨n, ?_⟩
    rw [List.singleton_append, readHead, hbyte, hinfo, hmajor₂, if_pos h₀]
  · exact ⟨24, readHead_wide hmajor (by decide) (by decide) rfl h₁ rest⟩
  · exact ⟨25, readHead_wide hmajor (by decide) (by decide) rfl h₂ rest⟩
  · exact ⟨26, readHead_wide hmajor (by decide) (by decide) rfl h₄ rest⟩
  · exact ⟨27, readHead_wide hmajor (by decide) (by decide) rfl hn rest⟩

theorem one_le_length_head (major n : Nat) : 1 ≤ (head major n).length := by
  unfold head
  split_ifs <;> simp

/-! ## Writing -/

section

variable {Cid : Type} (K : CidCodec Cid)

def text (s : String) : List UInt8 := head 3 (Text.bytes s).length ++ Text.bytes s

/-- The order of the entries of a map: by the length of the key, then by
the key. -/
def keyLe {β : Type} (a b : String × β) : Prop :=
  (Text.bytes a.1).length < (Text.bytes b.1).length
    ∨ (Text.bytes a.1).length = (Text.bytes b.1).length ∧ a.1 ≤ b.1

instance {β : Type} : DecidableRel (keyLe (β := β)) := fun a b => by
  unfold keyLe
  infer_instance

mutual

def encode : Ipld Cid → List UInt8
  | .null => [0xf6]
  | .bool false => [0xf4]
  | .bool true => [0xf5]
  | .integer n => if 0 ≤ n then head 0 n.toNat else head 1 (-1 - n).toNat
  | .float bits => 0xfb :: Octets.big 8 bits.toNat
  | .string s => text s
  | .bytes bs => head 2 bs.length ++ bs
  | .list xs => head 4 xs.length ++ encodeAll xs
  | .map kvs =>
      head 5 kvs.length ++ ((encodeFields kvs).insertionSort keyLe).flatMap fun e => text e.1 ++ e.2
  | .link c => head 6 42 ++ (head 2 ((K.toBytes c).length + 1) ++ (0 :: K.toBytes c))

def encodeAll : List (Ipld Cid) → List UInt8
  | [] => []
  | x :: xs => encode x ++ encodeAll xs

def encodeFields : List (String × Ipld Cid) → List (String × List UInt8)
  | [] => []
  | (k, x) :: rest => (k, encode x) :: encodeFields rest

end

/-! ## Reading -/

variable {α : Type}

def readMany (item : List UInt8 → Option (α × List UInt8)) :
    Nat → List UInt8 → Option (List α × List UInt8)
  | 0, bs => some ([], bs)
  | n + 1, bs => do
      let (a, bs) ← item bs
      let (as, rest) ← readMany item n bs
      some (a :: as, rest)

def readText (n : Nat) (bs : List UInt8) : Option (String × List UInt8) := do
  let (utf8, rest) ← takeBytes n bs
  let s ← Text.ofBytes utf8
  some (s, rest)

/-- A key is a text. -/
def readField (item : List UInt8 → Option (α × List UInt8)) (bs : List UInt8) :
    Option ((String × α) × List UInt8) := do
  let (key, bs) ← readHead bs
  if key.major = 3 then
    let (k, bs) ← readText key.arg bs
    let (a, rest) ← item bs
    some ((k, a), rest)
  else none

/-- A byte string that starts with a zero. -/
def readLink (bs : List UInt8) : Option (Ipld Cid × List UInt8) := do
  let (content, bs) ← readHead bs
  let (prefixed, rest) ← if content.major = 2 then takeBytes content.arg bs else none
  let c ← if prefixed.head? = some 0 then K.ofBytes prefixed.tail else none
  some (.link c, rest)

def readSimple (item : Head) (rest : List UInt8) : Option (Ipld Cid × List UInt8) :=
  if item.info = 20 then some (.bool false, rest)
  else if item.info = 21 then some (.bool true, rest)
  else if item.info = 22 then some (.null, rest)
  else if item.info = 27 then some (.float (UInt64.ofNat item.arg), rest)
  else none

/-- The entries go into a map that is ordered by the keys. -/
def decode : Nat → List UInt8 → Option (Ipld Cid × List UInt8)
  | 0, _ => none
  | fuel + 1, bs => do
      let (item, bs) ← readHead bs
      if item.major = 0 then some (.integer item.arg, bs)
      else if item.major = 1 then some (.integer (-1 - item.arg), bs)
      else if item.major = 2 then (takeBytes item.arg bs).map fun r => (.bytes r.1, r.2)
      else if item.major = 3 then (readText item.arg bs).map fun r => (.string r.1, r.2)
      else if item.major = 4 then
        (readMany (decode fuel) item.arg bs).map fun r => (.list r.1, r.2)
      else if item.major = 5 then
        (readMany (readField (decode fuel)) item.arg bs).map fun r =>
          (.map (r.1.insertionSort fun a b => a.1 ≤ b.1), r.2)
      else if item.major = 6 then if item.arg = 42 then readLink K bs else none
      else readSimple item bs

/-- All of the bytes are one value. -/
def decodeAll (bs : List UInt8) : Option (Ipld Cid) :=
  match decode K bs.length bs with
  | some (x, []) => some x
  | _ => none

/-! ## Reading what was written -/

variable {K}

theorem encodeAll_eq (xs : List (Ipld Cid)) : encodeAll K xs = xs.flatMap (encode K) := by
  induction xs with
  | nil => rfl
  | cons x xs ih => rw [encodeAll, ih, List.flatMap_cons]

theorem encodeFields_eq (kvs : List (String × Ipld Cid)) :
    encodeFields K kvs = kvs.map fun kv => (kv.1, encode K kv.2) := by
  induction kvs with
  | nil => rfl
  | cons kv kvs ih => rw [encodeFields, ih, List.map_cons]

/-- The written entries are those of the map in the order of the format. -/
theorem flatMap_encodeFields (kvs : List (String × Ipld Cid)) :
    (((encodeFields K kvs).insertionSort keyLe).flatMap fun e => text e.1 ++ e.2)
      = (kvs.insertionSort keyLe).flatMap fun kv => text kv.1 ++ encode K kv.2 := by
  have hsorted : (encodeFields K kvs).insertionSort keyLe
      = (kvs.insertionSort keyLe).map fun kv => (kv.1, encode K kv.2) := by
    rw [encodeFields_eq, List.map_insertionSort keyLe keyLe]
    intro a _ b _
    rfl
  rw [hsorted, List.flatMap_map]

theorem readMany_flatMap {item : List UInt8 → Option (α × List UInt8)} {write : α → List UInt8}
    {as : List α} (h : ∀ a ∈ as, ∀ rest, item (write a ++ rest) = some (a, rest))
    (rest : List UInt8) :
    readMany item as.length (as.flatMap write ++ rest) = some (as, rest) := by
  induction as with
  | nil => rfl
  | cons a as ih =>
      have hrest := ih fun b hb => h b (List.mem_cons_of_mem a hb)
      rw [List.flatMap_cons, List.append_assoc, List.length_cons, readMany,
        h a List.mem_cons_self]
      simp only [Option.bind_eq_bind, Option.bind_some, hrest]

theorem readText_append (s : String) (rest : List UInt8) :
    readText (Text.bytes s).length (Text.bytes s ++ rest) = some (s, rest) := by
  rw [readText, takeBytes_append]
  simp only [Option.bind_eq_bind, Option.bind_some, Text.ofBytes_bytes]

theorem readField_append {item : List UInt8 → Option (α × List UInt8)} {bs : List UInt8} {a : α}
    {k : String} (hk : (Text.bytes k).length < 2 ^ 64)
    (h : ∀ rest, item (bs ++ rest) = some (a, rest)) (rest : List UInt8) :
    readField item ((text k ++ bs) ++ rest) = some ((k, a), rest) := by
  obtain ⟨info, hhead⟩ := readHead_head (show 3 < 8 by decide) hk
    (Text.bytes k ++ (bs ++ rest))
  rw [text, List.append_assoc, List.append_assoc, readField, hhead]
  simp only [Option.bind_eq_bind, Option.bind_some, if_true, readText_append, h]

theorem length_le_flatMap (write : α → List UInt8) {a : α} {as : List α} (h : a ∈ as) :
    (write a).length ≤ (as.flatMap write).length := by
  obtain ⟨before, behind, rfl⟩ := List.append_of_mem h
  simp only [List.flatMap_append, List.flatMap_cons, List.length_append]
  omega

/-- Entries with distinct keys have one order. -/
theorem insertionSort_of_perm {kvs es : List (String × α)}
    (hascending : (kvs.map Prod.fst).Pairwise (· < ·)) (hperm : es.Perm kvs) :
    (es.insertionSort fun a b => a.1 ≤ b.1) = kvs := by
  have hkvs : kvs.Pairwise fun a b => a.1 < b.1 := List.pairwise_map.mp hascending
  have hnodup : (kvs.map Prod.fst).Nodup := hascending.imp fun h => ne_of_lt h
  have : Std.Total fun a b : String × α => a.1 ≤ b.1 := ⟨fun a b => le_total a.1 b.1⟩
  have : IsTrans (String × α) fun a b => a.1 ≤ b.1 := ⟨fun _ _ _ => le_trans⟩
  have hsorted : (es.insertionSort fun a b => a.1 ≤ b.1).Perm kvs :=
    (List.perm_insertionSort _ es).trans hperm
  refine hsorted.eq_of_pairwise ?_ (List.pairwise_insertionSort _ es) (hkvs.imp fun h => h.le)
  intro a b ha hb hab hba
  exact List.inj_on_of_nodup_map hnodup (hsorted.mem_iff.mp ha) hb (le_antisymm hab hba)

theorem one_le_length_encode (x : Ipld Cid) : 1 ≤ (encode K x).length := by
  have hhead := one_le_length_head
  cases x with
  | null => simp [encode]
  | bool b => cases b <;> simp [encode]
  | integer n =>
      rw [encode]
      split_ifs
      · exact hhead _ _
      · exact hhead _ _
  | float bits => simp [encode]
  | _ =>
      simp only [encode, text, List.length_append]
      exact Nat.le_add_right_of_le (hhead _ _)

theorem readLink_append (c : Cid) (rest : List UInt8) :
    readLink K ((head 2 ((K.toBytes c).length + 1) ++ (0 :: K.toBytes c)) ++ rest)
      = some (.link c, rest) := by
  obtain ⟨info, hhead⟩ := readHead_head (show 2 < 8 by decide) (K.length_lt c)
    ((0 :: K.toBytes c) ++ rest)
  have htake := takeBytes_append (0 :: K.toBytes c) rest
  rw [List.length_cons] at htake
  rw [List.append_assoc, readLink, hhead]
  simp only [Option.bind_eq_bind, Option.bind_some, if_true, htake, List.head?_cons,
    List.tail_cons, K.of_to]

/-- What follows the head of a value, by its kind. -/
theorem decode_succ (fuel : Nat) {major n : Nat} (hmajor : major < 8) (hn : n < 2 ^ 64)
    (payload rest : List UInt8) :
    ∃ info, decode K (fuel + 1) ((head major n ++ payload) ++ rest) =
      (if major = 0 then some (.integer n, payload ++ rest)
      else if major = 1 then some (.integer (-1 - n), payload ++ rest)
      else if major = 2 then (takeBytes n (payload ++ rest)).map fun r => (.bytes r.1, r.2)
      else if major = 3 then (readText n (payload ++ rest)).map fun r => (.string r.1, r.2)
      else if major = 4 then
        (readMany (decode K fuel) n (payload ++ rest)).map fun r => (.list r.1, r.2)
      else if major = 5 then
        (readMany (readField (decode K fuel)) n (payload ++ rest)).map fun r =>
          (.map (r.1.insertionSort fun a b => a.1 ≤ b.1), r.2)
      else if major = 6 then if n = 42 then readLink K (payload ++ rest) else none
      else readSimple ⟨major, info, n⟩ (payload ++ rest)) := by
  obtain ⟨info, hhead⟩ := readHead_head hmajor hn (payload ++ rest)
  refine ⟨info, ?_⟩
  rw [List.append_assoc, decode, hhead]
  rfl

theorem decode_encode {x : Ipld Cid} (hx : x.Fits) :
    ∀ fuel, (encode K x).length ≤ fuel → ∀ rest,
      decode K fuel (encode K x ++ rest) = some (x, rest) := by
  induction hx with
  | null =>
      rintro (_ | fuel) hfuel rest
      · exact absurd hfuel (by simp [encode])
      · rfl
  | bool b =>
      rintro (_ | fuel) hfuel rest
      · exact absurd (one_le_length_encode (K := K) (.bool b)) (by omega)
      · cases b <;> rfl
  | @integer n low high =>
      rintro (_ | fuel) hfuel rest
      · exact absurd (one_le_length_encode (K := K) (.integer n)) (by omega)
      · rw [encode]
        split_ifs with hn
        · obtain ⟨info, hread⟩ := decode_succ (K := K) fuel (show 0 < 8 by decide)
            (show n.toNat < 2 ^ 64 by omega) [] rest
          rw [List.append_nil] at hread
          rw [hread, if_pos rfl, Int.toNat_of_nonneg hn]
          rfl
        · obtain ⟨info, hread⟩ := decode_succ (K := K) fuel (show 1 < 8 by decide)
            (show (-1 - n).toNat < 2 ^ 64 by omega) [] rest
          rw [List.append_nil] at hread
          rw [hread, if_neg (by decide), if_pos rfl, Int.toNat_of_nonneg (by omega)]
          have hback : -1 - (-1 - n) = n := by omega
          rw [hback]
          rfl
  | @string s h =>
      rintro (_ | fuel) hfuel rest
      · exact absurd (one_le_length_encode (K := K) (.string s)) (by omega)
      · obtain ⟨info, hread⟩ := decode_succ (K := K) fuel (show 3 < 8 by decide) h (Text.bytes s) rest
        rw [encode, text, hread]
        simp only [reduceIte, Nat.reduceEqDiff, readText_append, Option.map_some]
  | @bytes bs h =>
      rintro (_ | fuel) hfuel rest
      · exact absurd (one_le_length_encode (K := K) (.bytes bs)) (by omega)
      · obtain ⟨info, hread⟩ := decode_succ (K := K) fuel (show 2 < 8 by decide) h bs rest
        rw [encode, hread]
        simp only [reduceIte, Nat.reduceEqDiff, takeBytes_append, Option.map_some]
  | @list xs h each ih =>
      rintro (_ | fuel) hfuel rest
      · exact absurd (one_le_length_encode (K := K) (.list xs)) (by omega)
      · rw [encode, encodeAll_eq] at hfuel ⊢
        have hhead := one_le_length_head 4 xs.length
        rw [List.length_append] at hfuel
        have hitem : ∀ x ∈ xs, ∀ rest, decode K fuel (encode K x ++ rest) = some (x, rest) := by
          intro x hx
          have hle := length_le_flatMap (encode K) hx
          exact ih x hx fuel (by omega)
        obtain ⟨info, hread⟩ := decode_succ (K := K) fuel (show 4 < 8 by decide) h
          (xs.flatMap (encode K)) rest
        rw [hread]
        simp only [reduceIte, Nat.reduceEqDiff, readMany_flatMap hitem, Option.map_some]
  | @map kvs h ascending keys each ih =>
      rintro (_ | fuel) hfuel rest
      · exact absurd (one_le_length_encode (K := K) (.map kvs)) (by omega)
      · rw [encode, flatMap_encodeFields] at hfuel ⊢
        have hperm := List.perm_insertionSort keyLe kvs
        have hhead := one_le_length_head 5 kvs.length
        rw [List.length_append] at hfuel
        have hitem : ∀ kv ∈ kvs.insertionSort keyLe, ∀ rest,
            readField (decode K fuel) ((text kv.1 ++ encode K kv.2) ++ rest) = some (kv, rest) := by
          intro kv hkv rest
          have hmem := hperm.mem_iff.mp hkv
          have hle := length_le_flatMap (fun kv => text kv.1 ++ encode K kv.2) hkv
          rw [List.length_append] at hle
          exact readField_append (keys kv hmem) (ih kv hmem fuel (by omega)) rest
        have hmany := readMany_flatMap hitem rest
        rw [hperm.length_eq] at hmany
        obtain ⟨info, hread⟩ := decode_succ (K := K) fuel (show 5 < 8 by decide) h
          ((kvs.insertionSort keyLe).flatMap fun kv => text kv.1 ++ encode K kv.2) rest
        rw [hread]
        simp only [reduceIte, Nat.reduceEqDiff, hmany, Option.map_some,
          insertionSort_of_perm ascending hperm]
  | link c =>
      rintro (_ | fuel) hfuel rest
      · exact absurd (one_le_length_encode (K := K) (.link c)) (by omega)
      · obtain ⟨info, hread⟩ := decode_succ (K := K) fuel (show 6 < 8 by decide)
          (show 42 < 2 ^ 64 by decide)
          (head 2 ((K.toBytes c).length + 1) ++ (0 :: K.toBytes c)) rest
        rw [encode, hread]
        simp only [reduceIte, Nat.reduceEqDiff, readLink_append]

theorem decodeAll_encode {x : Ipld Cid} (hx : x.Fits) : decodeAll K (encode K x) = some x := by
  have hdecode := decode_encode (K := K) hx _ le_rfl []
  rw [List.append_nil] at hdecode
  rw [decodeAll, hdecode]

end

end DagCbor

end Stelyph
