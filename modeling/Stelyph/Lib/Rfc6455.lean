import Stelyph.Lib.Octets

/-!
# WebSocket frames

The base framing of RFC 6455 §5.2, read off the octets: the FIN bit, the
three reserved bits and the opcode in the first, the mask bit and seven
bits of length in the second, then an extended length where the seven
bits announce one, the masking key where the mask bit does, and the
payload. The length takes the fewest octets it fits in, and the highest
bit of a 64-bit length is zero.
-/

namespace Stelyph

namespace Rfc6455

structure Frame where
  fin : Bool
  rsv : Fin 8
  opcode : Fin 16
  maskingKey : Option (Vector UInt8 4)
  payload : List UInt8
deriving DecidableEq

/-- §5.3: an octet by the octet of the key at its index modulo 4. -/
def transform (key : Vector UInt8 4) (xs : List UInt8) : List UInt8 :=
  xs.mapIdx fun i b => b ^^^ key[i % 4]

/-- A length, the seven bits for it and the octets that extend them. -/
inductive PayloadLength : Nat → Nat → List UInt8 → Prop where
  | seven {n : Nat} : n < 126 → PayloadLength n n []
  | sixteen {n : Nat} : 126 ≤ n → n < 2 ^ 16 → PayloadLength n 126 (Octets.big 2 n)
  | sixtyFour {n : Nat} : 2 ^ 16 ≤ n → n < 2 ^ 63 → PayloadLength n 127 (Octets.big 8 n)

/-- What follows the length: the key of a masked frame with the payload
under it, or the payload. -/
def Frame.body (f : Frame) : List UInt8 :=
  match f.maskingKey with
  | none => f.payload
  | some key => key.toList ++ transform key f.payload

/-- The octets are this frame, in one of the forms that the length of its
payload allows: the two first bytes with flags, opcode and length, what
extends the length, and the body. -/
inductive Wire (f : Frame) : List UInt8 → Prop where
  | mk {first second : UInt8} {field : Nat} {ext : List UInt8} :
      first.toNat = 128 * f.fin.toNat + 16 * f.rsv.val + f.opcode.val →
      second.toNat = 128 * f.maskingKey.isSome.toNat + field →
      PayloadLength f.payload.length field ext →
      Wire f (first :: second :: (ext ++ f.body))

@[simp] theorem length_transform (key : Vector UInt8 4) (xs : List UInt8) :
    (transform key xs).length = xs.length := List.length_mapIdx

/-- Masking twice is not masking. -/
theorem transform_transform (key : Vector UInt8 4) (xs : List UInt8) :
    transform key (transform key xs) = xs := by
  rw [transform, transform, List.mapIdx_mapIdx]
  refine List.ext_getElem (List.length_mapIdx) fun i hi hi' => ?_
  rw [List.getElem_mapIdx, Function.comp_apply, UInt8.xor_assoc, UInt8.xor_self, UInt8.xor_zero]

theorem PayloadLength.field_lt {n field : Nat} {ext : List UInt8} (h : PayloadLength n field ext) :
    field < 128 := by
  cases h <;> omega

end Rfc6455

end Stelyph
