import Stelyph.Lib.Text

/-!
# Lossy UTF-8

Bytes read as text, with one U+FFFD for every maximal part of an
ill-formed sequence (Unicode, conformance of UTF-8, table 3-7): the
longest beginning of a well-formed sequence, and at least one byte.
Well-formed bytes are read as the text they are (`lossy_bytes`).
-/

namespace Stelyph

namespace Utf8

open Text (bytes)

/-- The second byte a lead byte of a sequence of three or four allows. -/
def secondByte (lead b : UInt8) : Bool :=
  if lead == 0xe0 then 0xa0 ≤ b && b ≤ 0xbf
  else if lead == 0xed then 0x80 ≤ b && b ≤ 0x9f
  else if lead == 0xf0 then 0x90 ≤ b && b ≤ 0xbf
  else if lead == 0xf4 then 0x80 ≤ b && b ≤ 0x8f
  else 0x80 ≤ b && b ≤ 0xbf

/-- How many bytes one replacement character stands for, where no
character begins. -/
def illFormed : List UInt8 → Nat
  | a :: b :: c :: _ =>
      if 0xe0 ≤ a && a ≤ 0xf4 && secondByte a b then
        if 0xf0 ≤ a && 0x80 ≤ c && c ≤ 0xbf then 3 else 2
      else 1
  | [a, b] => if 0xe0 ≤ a && a ≤ 0xf4 && secondByte a b then 2 else 1
  | _ => 1

def lossyChars : Nat → List UInt8 → List Char
  | 0, _ => []
  | fuel + 1, bs =>
      if bs.isEmpty then []
      else
        match bs.toByteArray.utf8DecodeChar? 0 with
        | some c => c :: lossyChars fuel (bs.drop c.utf8Size)
        | none => '\uFFFD' :: lossyChars fuel (bs.drop (illFormed bs))

/-- `String::from_utf8_lossy`. -/
def lossy (bs : List UInt8) : String := String.ofList (lossyChars bs.length bs)

theorem bytes_eq_flatMap (s : String) : bytes s = s.toList.flatMap String.utf8EncodeChar := by
  show s.toByteArray.data.toList = _
  rw [← String.utf8Encode_toList, List.utf8Encode, List.toList_data_toByteArray]

theorem bytes_ofList_cons (c : Char) (cs : List Char) :
    bytes (String.ofList (c :: cs)) = String.utf8EncodeChar c ++ bytes (String.ofList cs) := by
  simp only [bytes_eq_flatMap, String.toList_ofList, List.flatMap_cons]

@[simp] theorem bytes_append (s t : String) : bytes (s ++ t) = bytes s ++ bytes t := by
  simp only [bytes_eq_flatMap, String.toList_append, List.flatMap_append]

theorem bytes_injective {s t : String} (h : bytes s = bytes t) : s = t := by
  have := congrArg Text.ofBytes h
  rw [Text.ofBytes_bytes, Text.ofBytes_bytes] at this
  exact Option.some.inj this

/-- An ASCII character is its own byte, ... -/
theorem encode_ascii {c : Char} (h : c.toNat < 128) :
    String.utf8EncodeChar c = [UInt8.ofNat c.toNat] := by
  unfold String.utf8EncodeChar
  rw [if_pos (show c.val.toNat ≤ 0x7f by exact Nat.lt_succ_iff.mp h)]
  rfl

/-- ... and any other character has no ASCII byte in it. -/
theorem encode_high {c : Char} (h : 128 ≤ c.toNat) {b : UInt8}
    (hb : b ∈ String.utf8EncodeChar c) : 128 ≤ b.toNat := by
  have hv : ¬ c.val.toNat ≤ 0x7f := Nat.not_le.mpr h
  unfold String.utf8EncodeChar at hb
  rw [if_neg hv] at hb
  split_ifs at hb <;> simp only [List.mem_cons, List.not_mem_nil, or_false] at hb
  · rcases hb with rfl | rfl <;> rw [UInt8.toNat_ofNat'] <;> omega
  · rcases hb with rfl | rfl | rfl <;> rw [UInt8.toNat_ofNat'] <;> omega
  · rcases hb with rfl | rfl | rfl | rfl <;> rw [UInt8.toNat_ofNat'] <;> omega

/-- An ASCII byte is that of its character only. -/
theorem mem_of_byte {s : String} {c : Char} (hc : c.toNat < 128)
    (h : UInt8.ofNat c.toNat ∈ bytes s) : c ∈ s.toList := by
  rw [bytes_eq_flatMap] at h
  obtain ⟨d, hd, hb⟩ := List.mem_flatMap.mp h
  by_cases hascii : d.toNat < 128
  · rw [encode_ascii hascii] at hb
    have hnat := congrArg UInt8.toNat (List.mem_singleton.mp hb)
    rw [UInt8.toNat_ofNat', UInt8.toNat_ofNat', Nat.mod_eq_of_lt (by omega),
      Nat.mod_eq_of_lt (by omega)] at hnat
    rwa [Char.toNat_inj.mp hnat]
  · have hhigh := encode_high (Nat.not_lt.mp hascii) hb
    rw [UInt8.toNat_ofNat', Nat.mod_eq_of_lt (by omega)] at hhigh
    omega

theorem bytes_ofList_ascii {cs : List Char} (h : ∀ c ∈ cs, c.toNat < 128) :
    bytes (String.ofList cs) = cs.map fun c => UInt8.ofNat c.toNat := by
  rw [bytes_eq_flatMap, String.toList_ofList]
  induction cs with
  | nil => rfl
  | cons c cs ih =>
      rw [List.flatMap_cons, encode_ascii (h c List.mem_cons_self),
        ih fun d hd => h d (List.mem_cons_of_mem _ hd)]
      rfl

/-- Between ASCII texts the order of the bytes is that of the characters. -/
theorem bytes_lt_ascii :
    ∀ {cs ds : List Char}, (∀ c ∈ cs, c.toNat < 128) → (∀ d ∈ ds, d.toNat < 128) →
      (bytes (String.ofList cs) < bytes (String.ofList ds) ↔ cs < ds)
  | cs, [], _, _ => iff_of_false (List.not_lt_nil _) (List.not_lt_nil _)
  | [], d :: ds, _, hd => by
      rw [bytes_ofList_ascii hd]
      exact iff_of_true (List.nil_lt_cons _ _) (List.nil_lt_cons _ _)
  | c :: cs, d :: ds, hc, hd => by
      have ih := bytes_lt_ascii (fun x hx => hc x (List.mem_cons_of_mem _ hx))
        fun x hx => hd x (List.mem_cons_of_mem _ hx)
      have hclt := hc c List.mem_cons_self
      have hdlt := hd d List.mem_cons_self
      have hlt : UInt8.ofNat c.toNat < UInt8.ofNat d.toNat ↔ c < d := by
        rw [UInt8.lt_iff_toNat_lt, UInt8.toNat_ofNat', UInt8.toNat_ofNat',
          Nat.mod_eq_of_lt (by omega), Nat.mod_eq_of_lt (by omega)]
        exact Iff.rfl
      have heq : UInt8.ofNat c.toNat = UInt8.ofNat d.toNat ↔ c = d := by
        rw [← UInt8.toNat_inj, UInt8.toNat_ofNat', UInt8.toNat_ofNat',
          Nat.mod_eq_of_lt (by omega), Nat.mod_eq_of_lt (by omega), Char.toNat_inj]
      rw [bytes_ofList_cons, bytes_ofList_cons, encode_ascii hclt, encode_ascii hdlt,
        List.singleton_append, List.singleton_append, List.cons_lt_cons_iff,
        List.cons_lt_cons_iff, hlt, heq, ih]

theorem decode_head (c : Char) (rest : List UInt8) :
    (String.utf8EncodeChar c ++ rest).toByteArray.utf8DecodeChar? 0 = some c := by
  rw [List.toByteArray_append]
  exact ByteArray.utf8DecodeChar?_utf8EncodeChar_append

theorem lossyChars_bytes (cs : List Char) {fuel : Nat}
    (h : (bytes (String.ofList cs)).length ≤ fuel) :
    lossyChars fuel (bytes (String.ofList cs)) = cs := by
  induction cs generalizing fuel with
  | nil =>
      cases fuel with
      | zero => rfl
      | succ fuel => rfl
  | cons c cs ih =>
      have hpos := c.utf8Size_pos
      rw [bytes_ofList_cons, List.length_append, String.length_utf8EncodeChar] at h
      cases fuel with
      | zero => omega
      | succ fuel =>
          have hne : (String.utf8EncodeChar c ++ bytes (String.ofList cs)).isEmpty = false := by
            rw [List.isEmpty_eq_false_iff]
            exact List.append_ne_nil_of_left_ne_nil String.utf8EncodeChar_ne_nil _
          rw [bytes_ofList_cons, lossyChars, hne, decode_head]
          simp only [Bool.false_eq_true, if_false]
          rw [← String.length_utf8EncodeChar c, List.drop_left, ih (by omega)]

@[simp] theorem lossy_bytes (s : String) : lossy (bytes s) = s := by
  have h := lossyChars_bytes s.toList (Nat.le_refl _)
  rw [String.ofList_toList] at h
  rw [lossy, h, String.ofList_toList]

/-- A lossy reading has no ASCII byte that was not there. -/
theorem count_bytes_lossyChars {b : UInt8} (hb : b < 0x80) (fuel : Nat) (bs : List UInt8) :
    (bytes (String.ofList (lossyChars fuel bs))).count b ≤ bs.count b := by
  induction fuel generalizing bs with
  | zero => exact Nat.zero_le _
  | succ fuel ih =>
      rw [lossyChars]
      split
      · exact Nat.zero_le _
      · cases hc : bs.toByteArray.utf8DecodeChar? 0 with
        | some c =>
            obtain ⟨rest, hrest⟩ := ByteArray.exists_of_utf8DecodeChar?_eq_some hc
            have hlist := congrArg (fun b : ByteArray => b.data.toList) hrest
            simp only [ByteArray.data_append, Array.toList_append, List.toList_data_toByteArray] at hlist
            have hsplit : bs = String.utf8EncodeChar c ++ bs.drop c.utf8Size := by
              rw [← String.length_utf8EncodeChar c]
              conv_rhs => rw [hlist, List.drop_left]
              exact hlist
            dsimp only
            rw [bytes_ofList_cons, List.count_append]
            conv_rhs => rw [hsplit, List.count_append]
            exact Nat.add_le_add_left (ih _) _
        | none =>
            have hmark : (String.utf8EncodeChar '\uFFFD').count b = 0 := by
              rw [List.count_eq_zero]
              intro hmem
              have hhigh := encode_high (c := '\uFFFD') (by decide) hmem
              have hlow := UInt8.lt_iff_toNat_lt.mp hb
              have : (0x80 : UInt8).toNat = 128 := rfl
              omega
            dsimp only
            rw [bytes_ofList_cons, List.count_append, hmark, Nat.zero_add]
            exact Nat.le_trans (ih _) ((List.drop_sublist _ _).count_le b)

theorem count_bytes_lossy {b : UInt8} (hb : b < 0x80) (bs : List UInt8) :
    (bytes (lossy bs)).count b ≤ bs.count b := count_bytes_lossyChars hb _ bs

end Utf8

end Stelyph
