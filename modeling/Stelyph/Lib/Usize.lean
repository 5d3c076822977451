import Mathlib.Algebra.Order.Ring.Nat

/-!
# Address-sized arithmetic

A `usize` is as wide as an address. `checkedAdd` answers `none` where a
sum does not fit; a plain `+` stops the program there, or wraps around in
a build without overflow checks. A range of a slice stops the program
where its ends are out of order or out of bounds, and no allocation is
larger than the largest signed number of that width.

In `add`, `slice` and `alloc`, `none` is the panic.
-/

namespace Stelyph

inductive Width where
  | w32
  | w64
deriving DecidableEq, Repr

def Width.bits : Width → Nat
  | .w32 => 32
  | .w64 => 64

/-- What the compiled program depends on: how wide a `usize` is, and
whether an overflow panics or wraps. -/
structure Target where
  width : Width
  overflowChecks : Bool
deriving DecidableEq, Repr

namespace Target

variable (T : Target)

/-- One more than the largest `usize`. -/
def size : Nat := 2 ^ T.width.bits

def isizeMax : Nat := 2 ^ (T.width.bits - 1) - 1

def checkedAdd (x y : Nat) : Option Nat := if x + y < T.size then some (x + y) else none

def add (x y : Nat) : Option Nat :=
  if x + y < T.size then some (x + y)
  else if T.overflowChecks then none
  else some ((x + y) % T.size)

def slice {α : Type} (xs : List α) (start stop : Nat) : Option (List α) :=
  if start ≤ stop ∧ stop ≤ xs.length then some ((xs.drop start).take (stop - start)) else none

/-- A `&[u8]`: it carries that no slice is longer than the largest
allocation, so lengths of slices never overflow. -/
structure Slice (T : Target) where
  bytes : List UInt8
  bound : bytes.length ≤ T.isizeMax

/-- A buffer of this many bytes. -/
def alloc (n : Nat) : Option Unit := if n ≤ T.isizeMax then some () else none

variable {T}

theorem lt_size_of_lt {n : Nat} (h : n < 2 ^ 32) : n < T.size := by
  unfold size Width.bits
  split <;> omega

theorem isizeMax_lt : T.isizeMax < 2 ^ 63 := by
  unfold isizeMax Width.bits
  split <;> omega

theorem isizeMax_lt_size : T.isizeMax < T.size := by
  unfold isizeMax size Width.bits
  split <;> omega

theorem checkedAdd_of_lt {x y : Nat} (h : x + y < T.size) : T.checkedAdd x y = some (x + y) :=
  if_pos h

theorem checkedAdd_of_le {x y : Nat} (h : T.size ≤ x + y) : T.checkedAdd x y = none :=
  if_neg (by omega)

theorem add_of_lt {x y : Nat} (h : x + y < T.size) : T.add x y = some (x + y) := if_pos h

theorem add_of_le_checked {x y : Nat} (h : T.size ≤ x + y) (hchecks : T.overflowChecks = true) :
    T.add x y = none := by
  rw [add, if_neg (by omega), if_pos hchecks]

theorem add_of_le_wrapping {x y : Nat} (h : T.size ≤ x + y) (hchecks : T.overflowChecks = false) :
    T.add x y = some ((x + y) % T.size) := by
  rw [add, if_neg (by omega), hchecks]
  rfl

theorem slice_of_lt {α : Type} {xs : List α} {start stop : Nat} (h : stop < start) :
    slice xs start stop = none :=
  if_neg (by omega)

theorem slice_of_le {α : Type} {xs : List α} {start stop : Nat} (h : start ≤ stop)
    (h' : stop ≤ xs.length) : slice xs start stop = some ((xs.drop start).take (stop - start)) :=
  if_pos ⟨h, h'⟩

/-- A slice of the middle part of three. -/
theorem slice_append {α : Type} (xs ys zs : List α) {start stop : Nat} (hstart : start = xs.length)
    (hstop : stop = xs.length + ys.length) : slice (xs ++ (ys ++ zs)) start stop = some ys := by
  subst hstart hstop
  rw [slice_of_le (by omega) (by simp), List.drop_left, Nat.add_sub_cancel_left, List.take_left]

theorem alloc_of_le {n : Nat} (h : n ≤ T.isizeMax) : T.alloc n = some () := if_pos h

theorem alloc_of_lt {n : Nat} (h : T.isizeMax < n) : T.alloc n = none := if_neg (by omega)

end Target

end Stelyph
