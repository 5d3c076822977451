import Mathlib.Data.List.Basic

/-!
# Futures that read a byte stream

A parser written against an asynchronous stream is a chain of
`read_exact`s. Polled, it takes from the socket what is there and keeps
it in its own buffer until a read is full; the bytes a suspended future
holds are no longer in the socket. What it has become is again such a
chain, so the state of a half-done parse is a parser.

`poll_append` says that it does not matter in which pieces the bytes
come: what a poll left waiting goes on as if it had all been there.
-/

namespace Stelyph

inductive Reader (ε α : Type) where
  | done (r : Except ε α)
  | readExact (n : Nat) (k : List UInt8 → Reader ε α)

namespace Reader

variable {ε α β : Type}

/-- One reader after the other, on what the first has left. -/
def bind : Reader ε α → (α → Reader ε β) → Reader ε β
  | .done (.ok a), f => f a
  | .done (.error e), _ => .done (.error e)
  | .readExact n k, f => .readExact n fun bs => (k bs).bind f

instance : Monad (Reader ε) where
  pure a := .done (.ok a)
  bind := bind

def exactly (n : Nat) : Reader ε (List UInt8) := .readExact n fun bs => .done (.ok bs)

def raise (e : ε) : Reader ε α := .done (.error e)

/-- Run as far as the bytes go: the future it has become, and what is left
in the socket. -/
def poll : Reader ε α → List UInt8 → Reader ε α × List UInt8
  | .done r, bs => (.done r, bs)
  | .readExact n k, bs =>
      if n ≤ bs.length then (k (bs.take n)).poll (bs.drop n)
      else (.readExact (n - bs.length) fun rest => k (bs ++ rest), [])

@[simp] theorem pure_eq (a : α) : (pure a : Reader ε α) = .done (.ok a) := rfl

@[simp] theorem bind_eq (p : Reader ε α) (f : α → Reader ε β) : p >>= f = p.bind f := rfl

@[simp] theorem done_bind (a : α) (f : α → Reader ε β) :
    (Reader.done (.ok a) : Reader ε α).bind f = f a := rfl

@[simp] theorem raise_bind (e : ε) (f : α → Reader ε β) : (raise e : Reader ε α).bind f = raise e :=
  rfl

@[simp] theorem poll_done (r : Except ε α) (bs : List UInt8) :
    (Reader.done r).poll bs = (.done r, bs) := rfl

/-- A read that the bytes begin with. -/
theorem poll_exactly_bind {n : Nat} {xs : List UInt8} (hlen : xs.length = n)
    (f : List UInt8 → Reader ε α) (ys : List UInt8) :
    ((exactly n).bind f).poll (xs ++ ys) = (f xs).poll ys := by
  have hle : n ≤ (xs ++ ys).length := by
    rw [List.length_append]
    omega
  show (Reader.readExact n fun bs => f bs).poll (xs ++ ys) = _
  rw [poll, if_pos hle, ← hlen, List.take_left, List.drop_left]

/-- What follows goes on with what the first part left. -/
theorem poll_bind {p : Reader ε α} {xs rest : List UInt8} {a : α}
    (h : p.poll xs = (.done (.ok a), rest)) (f : α → Reader ε β) :
    (p.bind f).poll xs = (f a).poll rest := by
  induction p generalizing xs with
  | done r =>
      obtain ⟨hr, rfl⟩ := Prod.mk.injEq .. |>.mp h
      obtain rfl := Reader.done.inj hr
      rfl
  | readExact n k ih =>
      rw [poll] at h
      show (Reader.readExact n fun bs => (k bs).bind f).poll xs = _
      rw [poll]
      split at h
      · rw [if_pos (by assumption)]
        exact ih _ h
      · cases h

/-- The pieces do not matter. -/
theorem poll_append (p : Reader ε α) (xs ys : List UInt8) :
    p.poll (xs ++ ys) = (p.poll xs).1.poll ((p.poll xs).2 ++ ys) := by
  induction p generalizing xs with
  | done r => rfl
  | readExact n k ih =>
      by_cases hx : n ≤ xs.length
      · have hxy : n ≤ (xs ++ ys).length := by
          rw [List.length_append]
          omega
        rw [poll, if_pos hxy, List.take_append_of_le_length hx, List.drop_append_of_le_length hx,
          ih, poll, if_pos hx]
      · rw [poll.eq_def (.readExact n k) xs]
        simp only [if_neg hx, List.nil_append]
        by_cases hy : n - xs.length ≤ ys.length
        · have hxy : n ≤ (xs ++ ys).length := by
            rw [List.length_append]
            omega
          have htake : (xs ++ ys).take n = xs ++ ys.take (n - xs.length) := by
            rw [List.take_append, List.take_of_length_le (by omega)]
          have hdrop : (xs ++ ys).drop n = ys.drop (n - xs.length) := by
            rw [List.drop_append, List.drop_of_length_le (by omega), List.nil_append]
          rw [poll, if_pos hxy, poll, if_pos hy, htake, hdrop]
        · have hxy : ¬ n ≤ (xs ++ ys).length := by
            rw [List.length_append]
            omega
          rw [poll, if_neg hxy, poll, if_neg hy, List.length_append, Nat.sub_sub]
          simp only [List.append_assoc]

/-- Suspended in a read that is not full. -/
def Waiting (p : Reader ε α) : Prop := ∃ n k, p = .readExact n k ∧ 0 < n

/-- A poll ends the future or empties the socket. -/
theorem poll_cases (p : Reader ε α) (bs : List UInt8) :
    (∃ r rest, p.poll bs = (.done r, rest)) ∨ (p.poll bs).1.Waiting ∧ (p.poll bs).2 = [] := by
  induction p generalizing bs with
  | done r => exact Or.inl ⟨r, bs, rfl⟩
  | readExact n k ih =>
      rw [poll]
      split
      · exact ih _ _
      · exact Or.inr ⟨⟨_, _, rfl, by omega⟩, rfl⟩

/-- More bytes than it needed stay in the socket. -/
theorem poll_append_of_done {p : Reader ε α} {xs rest : List UInt8} {r : Except ε α}
    (h : p.poll xs = (.done r, rest)) (ys : List UInt8) :
    p.poll (xs ++ ys) = (.done r, rest ++ ys) := by
  rw [poll_append, h]
  rfl

end Reader

end Stelyph
