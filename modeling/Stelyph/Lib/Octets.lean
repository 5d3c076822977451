import Mathlib.Algebra.Order.Ring.Nat

/-!
# Numbers of a fixed number of octets

A number below `256 ^ w` as `w` octets, the lowest first or the highest
first. A number too large for its width loses its high octets, the way a
cast to a narrower type does.
-/

namespace Stelyph

namespace Octets

def little : Nat → Nat → List UInt8
  | 0, _ => []
  | w + 1, n => UInt8.ofNat n :: little w (n / 256)

def ofLittle : List UInt8 → Nat
  | [] => 0
  | b :: bs => b.toNat + 256 * ofLittle bs

def big (w n : Nat) : List UInt8 := (little w n).reverse

def ofBig (bs : List UInt8) : Nat := ofLittle bs.reverse

@[simp] theorem length_little (w n : Nat) : (little w n).length = w := by
  induction w generalizing n with
  | zero => rfl
  | succ w ih => rw [little, List.length_cons, ih]

@[simp] theorem length_big (w n : Nat) : (big w n).length = w := by
  rw [big, List.length_reverse, length_little]

theorem ofLittle_little {w n : Nat} (h : n < 256 ^ w) : ofLittle (little w n) = n := by
  induction w generalizing n with
  | zero =>
      have hn : n = 0 := by simpa using h
      rw [hn]
      rfl
  | succ w ih =>
      have hdiv : n / 256 < 256 ^ w := by
        rw [pow_succ] at h
        exact Nat.div_lt_of_lt_mul (by omega)
      rw [little, ofLittle, ih hdiv, UInt8.toNat_ofNat']
      omega

/-- A `u32`. -/
theorem ofLittle_little_four {n : Nat} (h : n < 2 ^ 32) : ofLittle (little 4 n) = n :=
  ofLittle_little h

theorem ofBig_big {w n : Nat} (h : n < 256 ^ w) : ofBig (big w n) = n := by
  rw [ofBig, big, List.reverse_reverse, ofLittle_little h]

theorem ofLittle_lt (bs : List UInt8) : ofLittle bs < 256 ^ bs.length := by
  induction bs with
  | nil => decide
  | cons b bs ih =>
      have hb := b.toNat_lt
      rw [ofLittle, List.length_cons, pow_succ]
      omega

end Octets

end Stelyph
