import Mathlib.Logic.Basic

/-!
# Self-delimiting formats

A format writes a value as bytes and takes it off the front of whatever
stands behind it: what a reader of a stream of values needs. Formats are
put together from numbers, sequences and options, and carried along a
map that has a left inverse.
-/

namespace Stelyph

structure Format (α : Type) where
  write : α → List UInt8
  read : List UInt8 → Option (α × List UInt8)
  read_write : ∀ a rest, read (write a ++ rest) = some (a, rest)

namespace Format

variable {α β : Type}

/-- Two values, one after the other. -/
def pair (A : Format α) (B : Format β) : Format (α × β) where
  write p := A.write p.1 ++ B.write p.2
  read bytes := do
    let (a, bytes) ← A.read bytes
    let (b, rest) ← B.read bytes
    some ((a, b), rest)
  read_write p rest := by
    rw [List.append_assoc, A.read_write]
    simp [B.read_write]

/-- The format of `α`, for the values of `β` that `α` has room for. -/
def along (A : Format α) (enc : β → α) (back : α → β) (h : ∀ b, back (enc b) = b) : Format β where
  write b := A.write (enc b)
  read bytes := (A.read bytes).map fun r => (back r.1, r.2)
  read_write b rest := by
    rw [A.read_write, Option.map_some, h]

/-! ## Numbers -/

def readOnes : List UInt8 → Option (Nat × List UInt8)
  | [] => none
  | 0 :: rest => some (0, rest)
  | _ :: rest => (readOnes rest).map fun r => (r.1 + 1, r.2)

theorem readOnes_replicate (n : Nat) (rest : List UInt8) :
    readOnes (List.replicate n 1 ++ 0 :: rest) = some (n, rest) := by
  induction n with
  | zero => rfl
  | succ n ih =>
      rw [List.replicate_succ, List.cons_append, readOnes, ih]
      · rfl
      · decide

/-- As many ones as the number says, and a zero. -/
def nat : Format Nat where
  write n := List.replicate n 1 ++ [0]
  read := readOnes
  read_write n rest := by
    rw [List.append_assoc]
    exact readOnes_replicate n rest

def bool : Format Bool :=
  nat.along (fun b => if b then 1 else 0) (fun n => n == 1) (by decide)

/-! ## Sequences -/

def readMany (A : Format α) : Nat → List UInt8 → Option (List α × List UInt8)
  | 0, bytes => some ([], bytes)
  | n + 1, bytes => do
      let (a, bytes) ← A.read bytes
      let (as, rest) ← readMany A n bytes
      some (a :: as, rest)

theorem readMany_flatMap (A : Format α) (as : List α) (rest : List UInt8) :
    readMany A as.length (as.flatMap A.write ++ rest) = some (as, rest) := by
  induction as with
  | nil => rfl
  | cons a as ih =>
      rw [List.flatMap_cons, List.append_assoc, List.length_cons, readMany, A.read_write]
      simp [ih]

/-- How many there are, and then each. -/
def list (A : Format α) : Format (List α) where
  write as := nat.write as.length ++ as.flatMap A.write
  read bytes := do
    let (n, bytes) ← nat.read bytes
    readMany A n bytes
  read_write as rest := by
    rw [List.append_assoc, nat.read_write]
    exact readMany_flatMap A as rest

def option (A : Format α) : Format (Option α) :=
  (list A).along Option.toList List.head? (by intro o; cases o <;> rfl)

def string : Format String :=
  (list nat).along (fun s => s.toList.map Char.toNat) (fun ns => String.ofList (ns.map Char.ofNat))
    (by
      intro s
      have hchars : (s.toList.map Char.toNat).map Char.ofNat = s.toList := by
        rw [List.map_map]
        exact (List.map_congr_left fun c _ => Char.ofNat_toNat c).trans (List.map_id _)
      rw [hchars, String.ofList_toList])

def bytes : Format (List UInt8) :=
  (list nat).along (fun bs => bs.map UInt8.toNat) (fun ns => ns.map UInt8.ofNat) (by
    intro bs
    rw [List.map_map]
    exact (List.map_congr_left fun _ _ => UInt8.ofNat_toNat).trans (List.map_id _))

/-! ## Texts -/

/-- A value as a text of one character for each byte. -/
def print (A : Format α) (a : α) : String :=
  String.ofList ((A.write a).map fun b => Char.ofNat b.toNat)

def parse (A : Format α) (s : String) : Option α :=
  (A.read (s.toList.map fun c => UInt8.ofNat c.toNat)).map Prod.fst

theorem ofNat_toNat_ofNat (b : UInt8) : UInt8.ofNat (Char.ofNat b.toNat).toNat = b := by
  have hvalid : b.toNat.isValidChar := Or.inl (Nat.lt_trans b.toNat_lt (by decide))
  have htoNat : (Char.ofNat b.toNat).toNat = b.toNat := by
    rw [Char.ofNat, dif_pos hvalid]
    rfl
  rw [htoNat, UInt8.ofNat_toNat]

theorem parse_print (A : Format α) (a : α) : A.parse (A.print a) = some a := by
  have hbytes : (A.write a).map (fun b => UInt8.ofNat (Char.ofNat b.toNat).toNat) = A.write a :=
    (List.map_congr_left fun b _ => ofNat_toNat_ofNat b).trans (List.map_id _)
  have hread := A.read_write a []
  rw [List.append_nil] at hread
  rw [parse, print, String.toList_ofList, List.map_map]
  exact (congrArg (fun bs => (A.read bs).map Prod.fst) hbytes).trans (by rw [hread]; rfl)

end Format

end Stelyph
