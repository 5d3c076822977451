import Stelyph.Lib.Utf8

/-!
# Percent-encoding

RFC 3986 §2.1: a triplet `%HH` of two hexadecimal digits stands for one
octet, every other octet for itself. What follows a percent sign is read
by a parameter (`decodeWith`), since integer parsers accept more than two
digits; `decode` is the decoding of the RFC.
-/

namespace Stelyph

namespace Percent

def hexValue (b : UInt8) : Option Nat :=
  if 0x30 ≤ b && b ≤ 0x39 then some (b.toNat - 0x30)
  else if 0x41 ≤ b && b ≤ 0x46 then some (b.toNat - 0x41 + 10)
  else if 0x61 ≤ b && b ≤ 0x66 then some (b.toNat - 0x61 + 10)
  else none

/-- The octet of two digits. -/
def triplet (h l : UInt8) : Option UInt8 := do
  let high ← hexValue h
  let low ← hexValue l
  return UInt8.ofNat (16 * high + low)

def decodeWith (value : UInt8 → UInt8 → Option UInt8) : List UInt8 → List UInt8
  | [] => []
  | [b] => [b]
  | [b, h] => [b, h]
  | b :: h :: l :: rest =>
      if b = 0x25 then
        match value h l with
        | some octet => octet :: decodeWith value rest
        | none => b :: decodeWith value (h :: l :: rest)
      else b :: decodeWith value (h :: l :: rest)

/-- The bytes with their escapes read. A percent sign that two digits do
not follow stands for itself. -/
def decode (bs : List UInt8) : List UInt8 := decodeWith triplet bs

variable {value : UInt8 → UInt8 → Option UInt8}

theorem decodeWith_cons {b : UInt8} (hb : b ≠ 0x25) (rest : List UInt8) :
    decodeWith value (b :: rest) = b :: decodeWith value rest := by
  match rest with
  | [] => rfl
  | [_] => rfl
  | h :: l :: rest => rw [decodeWith, if_neg hb]

theorem decodeWith_some {h l octet : UInt8} (hv : value h l = some octet) (rest : List UInt8) :
    decodeWith value (0x25 :: h :: l :: rest) = octet :: decodeWith value rest := by
  rw [decodeWith, if_pos rfl, hv]

theorem decodeWith_none {h l : UInt8} (hv : value h l = none) (rest : List UInt8) :
    decodeWith value (0x25 :: h :: l :: rest) = 0x25 :: decodeWith value (h :: l :: rest) := by
  rw [decodeWith, if_pos rfl, hv]

/-- Only what stands behind a percent sign matters. -/
theorem decodeWith_congr {value' : UInt8 → UInt8 → Option UInt8} {bs : List UInt8}
    (h : ∀ b ∈ bs, ∀ l, value b l = value' b l) : decodeWith value bs = decodeWith value' bs := by
  induction bs using decodeWith.induct value with
  | case1 => rfl
  | case2 b => rfl
  | case3 b c => rfl
  | case4 h' l rest octet hv ih =>
      have htail : ∀ b ∈ rest, ∀ l, value b l = value' b l :=
        fun b hb => h b (List.mem_cons_of_mem _ (List.mem_cons_of_mem _ (List.mem_cons_of_mem _ hb)))
      have hv' : value' h' l = some octet := by
        rw [← hv]
        exact (h h' (by simp) l).symm
      rw [decodeWith_some hv, decodeWith_some hv', ih htail]
  | case5 h' l rest hv ih =>
      have hv' : value' h' l = none := by
        rw [← hv]
        exact (h h' (by simp) l).symm
      rw [decodeWith_none hv, decodeWith_none hv', ih fun b hb => h b (List.mem_cons_of_mem _ hb)]
  | case6 b h' l rest hb ih =>
      rw [decodeWith_cons hb, decodeWith_cons hb, ih fun b hb => h b (List.mem_cons_of_mem _ hb)]

/-- What two octets behind a percent sign stand for. -/
def ahead (bs : List UInt8) : Option UInt8 :=
  match bs with
  | h :: l :: _ => triplet h l
  | _ => none

theorem decode_percent (bs : List UInt8) :
    decode (0x25 :: bs) = match ahead bs with
      | some octet => octet :: decode (bs.drop 2)
      | none => 0x25 :: decode bs := by
  match bs with
  | [] => rfl
  | [_] => rfl
  | h :: l :: rest =>
      show decode _ = match triplet h l with
        | some octet => octet :: decode rest
        | none => 0x25 :: decode (h :: l :: rest)
      cases hv : triplet h l with
      | some octet => exact decodeWith_some hv rest
      | none => exact decodeWith_none hv rest

theorem ahead_of_not_hex {h : UInt8} (hh : hexValue h = none) (rest : List UInt8) :
    ahead (h :: rest) = none := by
  cases rest with
  | nil => rfl
  | cons l rest =>
      show triplet h l = none
      rw [triplet, hh]
      rfl

theorem ahead_of_not_hex_second {l : UInt8} (hl : hexValue l = none) (h : UInt8)
    (rest : List UInt8) : ahead (h :: l :: rest) = none := by
  show triplet h l = none
  rw [triplet, hl]
  cases hexValue h <;> rfl

/-! ## Encoding -/

/-- The digits in upper case. -/
def digit (n : Nat) : Char := "0123456789ABCDEF".toList.getD n '0'

def encodeOctet (b : UInt8) : List Char := ['%', digit (b.toNat / 16), digit (b.toNat % 16)]

theorem hexValue_digit {n : Nat} (h : n < 16) :
    hexValue (UInt8.ofNat (digit n).toNat) = some n := by
  have hall : ∀ i : Fin 16, hexValue (UInt8.ofNat (digit i).toNat) = some i.val := by decide
  exact hall ⟨n, h⟩

theorem decode_encodeOctet (b : UInt8) (rest : List UInt8) :
    decode ((encodeOctet b).map (fun c => UInt8.ofNat c.toNat) ++ rest) = b :: decode rest := by
  have hlt := b.toNat_lt
  have hvalue : triplet (UInt8.ofNat (digit (b.toNat / 16)).toNat)
      (UInt8.ofNat (digit (b.toNat % 16)).toNat) = some b := by
    rw [triplet, hexValue_digit (by omega), hexValue_digit (by omega)]
    show some (UInt8.ofNat (16 * (b.toNat / 16) + b.toNat % 16)) = some b
    rw [Nat.div_add_mod, UInt8.ofNat_toNat]
  exact decodeWith_some hvalue rest

theorem decode_octets (bs rest : List UInt8) :
    decode ((bs.flatMap fun b =>
        (encodeOctet b).map fun d => UInt8.ofNat d.toNat) ++ rest) = bs ++ decode rest := by
  induction bs with
  | nil => rfl
  | cons b bs ih =>
      rw [List.flatMap_cons, List.append_assoc, decode_encodeOctet, ih, List.cons_append]

theorem decode_plain {bs : List UInt8} (h : ∀ b ∈ bs, b ≠ 0x25) (rest : List UInt8) :
    decode (bs ++ rest) = bs ++ decode rest := by
  induction bs with
  | nil => rfl
  | cons b bs ih =>
      rw [List.cons_append, decode, decodeWith_cons (h b List.mem_cons_self), List.cons_append]
      exact congrArg (b :: ·) (ih fun b' hb' => h b' (List.mem_cons_of_mem _ hb'))

/-- Without percent signs there is nothing to decode. -/
theorem decode_bytes {s : String} (h : '%' ∉ s.toList) :
    decode (Text.bytes s) = Text.bytes s := by
  have hplain : ∀ b ∈ Text.bytes s, b ≠ 0x25 := by
    rintro b hb rfl
    exact h (Utf8.mem_of_byte (by decide : '%'.toNat < 128) hb)
  have := decode_plain hplain []
  rwa [List.append_nil, show decode [] = [] from rfl, List.append_nil] at this

end Percent

end Stelyph
