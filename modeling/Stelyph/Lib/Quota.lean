import Mathlib.Data.List.Nodup

/-!
# Quotas

A number of uses, each of which can be spent once and by one spender: a
call either changes nothing, or takes one use off its pool and writes down
who spent it. Two conditions on a single call (`Quota.Sound`) give what
holds of any number of them in any order: no pool is overspent, nobody
spends twice, and the record is the calls that went through.
-/

namespace Stelyph

/-- Spending a use: the answer, and the state after it. `pool` says which
uses a spender draws on. -/
structure Quota (σ α κ : Type) where
  pool : α → κ
  spend : σ → α → Bool × σ
  left : σ → κ → Int
  record : σ → List α

namespace Quota

variable {σ α κ : Type} [DecidableEq κ]

/-- What one call may do. -/
structure Sound (Q : Quota σ α κ) : Prop where
  refused : ∀ s a, (Q.spend s a).1 = false → (Q.spend s a).2 = s
  granted : ∀ s a, (Q.spend s a).1 = true → 0 < Q.left s (Q.pool a) ∧ a ∉ Q.record s
    ∧ Q.record (Q.spend s a).2 = Q.record s ++ [a]
    ∧ ∀ k, Q.left (Q.spend s a).2 k = if k = Q.pool a then Q.left s k - 1 else Q.left s k

variable (Q : Quota σ α κ)

/-- The state after the calls. -/
def after : σ → List α → σ
  | s, [] => s
  | s, a :: as => after (Q.spend s a).2 as

/-- The calls that went through, in order. -/
def grants : σ → List α → List α
  | _, [] => []
  | s, a :: as =>
      if (Q.spend s a).1 then a :: grants (Q.spend s a).2 as else grants (Q.spend s a).2 as

/-- Those of them that draw on one pool. -/
def grantsOf (k : κ) (s : σ) (as : List α) : List α :=
  (Q.grants s as).filter fun a => Q.pool a = k

variable {Q}

theorem Sound.record_after (hQ : Q.Sound) (s : σ) (as : List α) :
    Q.record (Q.after s as) = Q.record s ++ Q.grants s as := by
  induction as generalizing s with
  | nil => exact (List.append_nil _).symm
  | cons a as ih =>
      rw [after, grants, ih]
      cases hanswer : (Q.spend s a).1 with
      | false => rw [hQ.refused s a hanswer, if_neg Bool.false_ne_true]
      | true => rw [(hQ.granted s a hanswer).2.2.1, if_pos rfl, List.append_assoc,
          List.singleton_append]

theorem Sound.left_after (hQ : Q.Sound) (k : κ) (s : σ) (as : List α) :
    Q.left (Q.after s as) k = Q.left s k - (Q.grantsOf k s as).length := by
  induction as generalizing s with
  | nil => simp [after, grantsOf, grants]
  | cons a as ih =>
      have hrest := ih (Q.spend s a).2
      simp only [grantsOf] at hrest ⊢
      rw [after, grants, hrest]
      cases hanswer : (Q.spend s a).1 with
      | false => rw [hQ.refused s a hanswer, if_neg Bool.false_ne_true]
      | true =>
          obtain ⟨-, -, -, hleft⟩ := hQ.granted s a hanswer
          rw [if_pos rfl, hleft k]
          by_cases hk : k = Q.pool a
          · rw [if_pos hk, List.filter_cons_of_pos (by simpa using hk.symm), List.length_cons]
            omega
          · rw [if_neg hk, List.filter_cons_of_neg (by simpa using fun h => hk h.symm)]

/-- Nothing is spent that is not there. -/
theorem Sound.left_nonneg (hQ : Q.Sound) (k : κ) {s : σ} (h : 0 ≤ Q.left s k) (as : List α) :
    0 ≤ Q.left (Q.after s as) k := by
  induction as generalizing s with
  | nil => exact h
  | cons a as ih =>
      rw [after]
      refine ih ?_
      cases hanswer : (Q.spend s a).1 with
      | false => rwa [hQ.refused s a hanswer]
      | true =>
          obtain ⟨hpos, -, -, hleft⟩ := hQ.granted s a hanswer
          rw [hleft k]
          split_ifs with hk
          · rw [hk]
            omega
          · exact h

/-- Who spent is not on the record before, and nobody spends twice. -/
theorem Sound.grants_fresh (hQ : Q.Sound) (s : σ) (as : List α) :
    (Q.grants s as).Nodup ∧ ∀ a ∈ Q.grants s as, a ∉ Q.record s := by
  induction as generalizing s with
  | nil => exact ⟨List.nodup_nil, fun a ha => (List.not_mem_nil ha).elim⟩
  | cons a as ih =>
      obtain ⟨hnodup, hfresh⟩ := ih (Q.spend s a).2
      rw [grants]
      cases hanswer : (Q.spend s a).1 with
      | false =>
          rw [hQ.refused s a hanswer] at hnodup hfresh ⊢
          rw [if_neg Bool.false_ne_true]
          exact ⟨hnodup, hfresh⟩
      | true =>
          obtain ⟨-, hnew, hrecord, -⟩ := hQ.granted s a hanswer
          rw [if_pos rfl]
          refine ⟨List.nodup_cons.mpr ⟨fun ha => ?_, hnodup⟩, ?_⟩
          · refine hfresh a ha ?_
            rw [hrecord]
            exact List.mem_append_right _ (List.mem_singleton_self a)
          · rintro b (_ | ⟨_, hb⟩)
            · exact hnew
            · intro hrec
              refine hfresh b hb ?_
              rw [hrecord]
              exact List.mem_append_left _ hrec

end Quota

end Stelyph
