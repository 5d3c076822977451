import Mathlib.Data.List.Sort
import Mathlib.Data.Prod.Lex
import Stelyph.Lib.Table

/-!
# SQL statements

The statements of a store over a table with a primary key, as functions
of `Table`: a selection by a condition, an update of the row of a key, an
insertion that a key or a unique column refuses, a deletion with the
number of rows that went, and the order and the limit of a selection.

A selection has an order only as far as its `ORDER BY` gives it one. Two
of them with the same rows in the same order of timestamps are
`SameUpToTies`.
-/

namespace Stelyph

namespace Table

variable {κ ν : Type}

/-- The rows of `SELECT … WHERE p`. -/
def selectAll (t : Table κ ν) (p : κ → ν → Bool) : List ν :=
  (t.rows.filter fun r => p r.1 r.2).map Prod.snd

/-- The first of them. -/
def selectOne (t : Table κ ν) (p : κ → ν → Bool) : Option ν :=
  (t.rows.find? fun r => p r.1 r.2).map Prod.snd

/-- `SELECT count(*) … WHERE p`. -/
def countWhere (t : Table κ ν) (p : κ → ν → Bool) : Nat := t.rows.countP fun r => p r.1 r.2

/-- `DELETE FROM t WHERE p`, and the number of rows that went. -/
def deleteWhere (t : Table κ ν) (p : κ → ν → Bool) : Nat × Table κ ν :=
  (t.rows.countP fun r => p r.1 r.2, t.retain fun k v => !p k v)

variable [DecidableEq κ]

/-- `UPDATE t SET … WHERE` the key is `k`. -/
def update (t : Table κ ν) (k : κ) (f : ν → ν) : Table κ ν where
  rows := t.rows.map fun r => if r.1 = k then (r.1, f r.2) else r
  nodup := by
    have hkeys : (t.rows.map fun r => if r.1 = k then (r.1, f r.2) else r).map Prod.fst
        = t.rows.map Prod.fst := by
      rw [List.map_map]
      refine List.map_congr_left fun r _ => ?_
      simp only [Function.comp_apply]
      split_ifs <;> rfl
    rw [hkeys]
    exact t.nodup

/-- `INSERT INTO t`: refused where the key has a row, or where a row
clashes with the new one in a unique column. -/
def insertNew (t : Table κ ν) (k : κ) (v : ν) (clash : ν → Bool) : Option (Table κ ν) :=
  if t.contains k || t.rows.any fun r => clash r.2 then none else some (t.insert k v)

/-! ## Counting what is deleted -/

omit [DecidableEq κ] in
theorem size_retain_add (t : Table κ ν) (p : κ → ν → Bool) :
    (t.retain fun k v => !p k v).size + (t.rows.countP fun r => p r.1 r.2) = t.size := by
  have hlen := List.length_eq_countP_add_countP (fun r => p r.1 r.2) (l := t.rows)
  simp only [size, retain, ← List.countP_eq_length_filter]
  simp only [Bool.not_eq_true, Bool.decide_eq_false] at hlen
  omega

omit [DecidableEq κ] in
/-- The count of a deletion is the difference of the sizes. -/
theorem deleteWhere_eq (t : Table κ ν) (p : κ → ν → Bool) :
    t.deleteWhere p = (t.size - (t.retain fun k v => !p k v).size,
      t.retain fun k v => !p k v) := by
  have h := t.size_retain_add p
  rw [deleteWhere]
  congr 1
  omega

omit [DecidableEq κ] in
theorem size_retain_le (t : Table κ ν) (p : κ → ν → Bool) : (t.retain p).size ≤ t.size :=
  List.length_filter_le _ _

omit [DecidableEq κ] in
/-- Deleting what has expired is keeping what has not. -/
theorem deleteWhere_expired (t : Table κ ν) (expiresAt : ν → Nat) (now : Nat) :
    t.deleteWhere (fun _ v => decide (expiresAt v ≤ now))
      = (t.size - (t.retain fun _ v => decide (expiresAt v > now)).size,
        t.retain fun _ v => decide (expiresAt v > now)) := by
  have hkeep : (fun (_ : κ) v => !decide (expiresAt v ≤ now))
      = fun _ v => decide (expiresAt v > now) := by
    funext _ v
    simp [← decide_not]
  rw [deleteWhere_eq, hkeep]

/-! ## A key has at most one row -/

theorem get_eq_none_iff {t : Table κ ν} {k : κ} : t.get k = none ↔ ∀ r ∈ t.rows, r.1 ≠ k := by
  simp [get, List.find?_eq_none]

/-- A row of a new key comes behind the others. -/
theorem rows_insert_of_get_none {t : Table κ ν} {k : κ} (h : t.get k = none) (v : ν) :
    (t.insert k v).rows = t.rows ++ [(k, v)] :=
  congrArg (fun rows => rows ++ [(k, v)]) (remove_of_get_none h)

omit [DecidableEq κ] in
theorem ext_rows {t t' : Table κ ν} (h : t.rows = t'.rows) : t = t' := by
  cases t
  cases t'
  simpa using h

/-- Without a row of the key there is nothing to update. -/
theorem update_of_get_none {t : Table κ ν} {k : κ} (h : t.get k = none) (f : ν → ν) :
    t.update k f = t := by
  refine ext_rows ((List.map_congr_left fun r hr => ?_).trans (List.map_id t.rows))
  rw [if_neg (get_eq_none_iff.mp h r hr), id_eq]

theorem get_update_self (t : Table κ ν) (k : κ) (f : ν → ν) :
    (t.update k f).get k = (t.get k).map f := by
  obtain ⟨rows, hnodup⟩ := t
  simp only [get, update]
  clear hnodup
  induction rows with
  | nil => rfl
  | cons r rows ih => by_cases hr : r.1 = k <;> simp_all

theorem get_update_of_ne {t : Table κ ν} {k k' : κ} (h : k' ≠ k) (f : ν → ν) :
    (t.update k f).get k' = t.get k' := by
  obtain ⟨rows, hnodup⟩ := t
  simp only [get, update]
  clear hnodup
  induction rows with
  | nil => rfl
  | cons r rows ih =>
      rw [List.map_cons]
      by_cases hr : r.1 = k
      · have hk' : ¬ r.1 = k' := fun hk' => h (hk'.symm.trans hr)
        rw [if_pos hr, List.find?_cons_of_neg (by simpa using hk'),
          List.find?_cons_of_neg (by simpa using hk'), ih]
      · rw [if_neg hr]
        by_cases hk' : r.1 = k'
        · rw [List.find?_cons_of_pos (by simpa using hk'),
            List.find?_cons_of_pos (by simpa using hk')]
        · rw [List.find?_cons_of_neg (by simpa using hk'),
            List.find?_cons_of_neg (by simpa using hk'), ih]

theorem size_insert_of_get_none {t : Table κ ν} {k : κ} (h : t.get k = none) (v : ν) :
    (t.insert k v).size = t.size + 1 := by
  rw [size, rows_insert_of_get_none h, List.length_append, size]
  rfl

theorem insertOrIgnore_of_get_none {t : Table κ ν} {k : κ} (h : t.get k = none) (v : ν) :
    t.insertOrIgnore k v = t.insert k v := by
  simp [insertOrIgnore, contains, h]

theorem insertNew_of_get_none {t : Table κ ν} {k : κ} (h : t.get k = none) (v : ν) :
    t.insertNew k v (fun _ => false) = some (t.insert k v) := by
  simp [insertNew, contains, h]

/-- So many rows does the condition on the key alone find. -/
theorem countWhere_key (t : Table κ ν) (k : κ) :
    t.countWhere (fun k' _ => decide (k' = k)) = if t.contains k then 1 else 0 := by
  split
  · rename_i h
    obtain ⟨v, hv⟩ := contains_iff.mp h
    have hpos : 0 < t.rows.countP fun r => decide (r.1 = k) :=
      List.countP_pos_iff.mpr ⟨(k, v), get_eq_some_iff.mp hv, by simp⟩
    exact Nat.le_antisymm (t.countP_key_le_one k) hpos
  · rename_i h
    have hnone : t.get k = none := by simpa [contains] using h
    exact List.countP_eq_zero.mpr fun r hr => by simpa using get_eq_none_iff.mp hnone r hr

/-- A further condition can be checked once the row of the key is found. -/
theorem selectOne_key (t : Table κ ν) (k : κ) (p : ν → Bool) :
    t.selectOne (fun k' v => decide (k' = k) && p v) = (t.get k).filter p := by
  cases hget : t.get k with
  | none =>
      have hne := get_eq_none_iff.mp hget
      rw [Option.filter_none, selectOne, Option.map_eq_none_iff, List.find?_eq_none]
      intro r hr
      simp [hne r hr]
  | some v =>
      have hmem := get_eq_some_iff.mp hget
      have huniq : ∀ r ∈ t.rows, r.1 = k → r.2 = v := by
        intro r hr hkey
        have hr' : t.get k = some r.2 := get_eq_some_iff.mpr (hkey ▸ hr)
        exact Option.some.inj (hr'.symm.trans hget)
      unfold selectOne
      cases hfind : t.rows.find? fun r => decide (r.1 = k) && p r.2 with
      | none =>
          have hno := List.find?_eq_none.mp hfind _ hmem
          simp only [decide_true, Bool.true_and, Bool.not_eq_true] at hno
          simp [Option.filter_some, hno]
      | some r =>
          have hr := List.find?_some hfind
          simp only [Bool.and_eq_true, decide_eq_true_eq] at hr
          have hv := huniq r (List.mem_of_find?_eq_some hfind) hr.1
          simp [Option.filter_some, ← hv, hr.2]

end Table

/-- At most one element satisfies `p`: the rest of the condition can be
checked once it is found. -/
theorem find?_and_of_pairwise {α : Type} {p q : α → Bool} {l : List α}
    (h : l.Pairwise fun a b => ¬ (p a = true ∧ p b = true)) :
    l.find? (fun a => p a && q a) = (l.find? p).filter q := by
  induction l with
  | nil => rfl
  | cons a l ih =>
      obtain ⟨hhead, htail⟩ := List.pairwise_cons.mp h
      cases hp : p a with
      | false => simp [hp, ih htail]
      | true =>
          have hnone : l.find? (fun b => p b && q b) = none := by
            refine List.find?_eq_none.mpr fun b hb => ?_
            have hpb : ¬ p b = true := fun hpb => hhead b hb ⟨hp, hpb⟩
            simp [hpb]
          cases hq : q a with
          | false => simp [hp, hq, hnone, Option.filter_some]
          | true => simp [hp, hq, Option.filter_some]

/-! ## Order and limit -/

/-- `ORDER BY`: in the order of a key, and as they came where the keys are
equal. The key is a pair (`toLex`) where there are two columns, and the
dual (`OrderDual.toDual`) of a column that goes `DESC`. -/
def orderBy {α τ : Type} [LinearOrder τ] (key : α → τ) (xs : List α) : List α :=
  xs.mergeSort fun a b => decide (key a ≤ key b)

/-- `LIMIT n`: none where `n` is negative. -/
def sqlLimit {α : Type} (n : Int) (xs : List α) : List α :=
  if n < 0 then xs else xs.take n.toNat

/-- The same rows, and the same timestamps in the same order. -/
def SameUpToTies {α τ : Type} (time : α → τ) (xs ys : List α) : Prop :=
  xs.map time = ys.map time ∧ xs.Perm ys

section

variable {α τ : Type} [LinearOrder τ] {key : α → τ} {xs ys : List α}

theorem orderBy_perm (key : α → τ) (xs : List α) : (orderBy key xs).Perm xs :=
  List.mergeSort_perm xs _

theorem pairwise_orderBy (key : α → τ) (xs : List α) :
    (orderBy key xs).Pairwise fun a b => key a ≤ key b := by
  refine (List.pairwise_mergeSort ?_ ?_ xs).imp of_decide_eq_true
  · intro a b c hab hbc
    exact decide_eq_true ((of_decide_eq_true hab).trans (of_decide_eq_true hbc))
  · intro a b
    simpa using le_total (key a) (key b)

theorem orderBy_of_pairwise (h : xs.Pairwise fun a b => key a ≤ key b) : orderBy key xs = xs :=
  List.mergeSort_of_pairwise (h.imp decide_eq_true)

/-- An order without ties does not depend on how the rows came. -/
theorem eq_orderBy_of_perm (hkey : key.Injective) (h : xs.Perm ys)
    (hsorted : xs.Pairwise fun a b => key a ≤ key b) : xs = orderBy key ys :=
  (h.trans (orderBy_perm key ys).symm).eq_of_pairwise
    (fun _ _ _ _ hab hba => hkey (le_antisymm hab hba)) hsorted (pairwise_orderBy key ys)

/-- What is taken out after sorting can be taken out before. -/
theorem filter_orderBy (hkey : key.Injective) (p : α → Bool) (xs : List α) :
    (orderBy key xs).filter p = orderBy key (xs.filter p) :=
  eq_orderBy_of_perm hkey ((orderBy_perm key xs).filter p) ((pairwise_orderBy key xs).filter p)

end

section

variable {α τ : Type} {time : α → τ} {xs ys zs : List α}

theorem SameUpToTies.symm (h : SameUpToTies time xs ys) : SameUpToTies time ys xs :=
  ⟨h.1.symm, h.2.symm⟩

theorem SameUpToTies.trans (h : SameUpToTies time xs ys) (h' : SameUpToTies time ys zs) :
    SameUpToTies time xs zs :=
  ⟨h.1.trans h'.1, h.2.trans h'.2⟩

/-- A listing is in the order of its timestamps if the keys it is sorted
by are. -/
theorem pairwise_map_orderBy {α γ κ : Type} [LinearOrder τ] [LinearOrder κ] {time : γ → τ}
    {key : α → κ} {f : α → γ} {xs : List α}
    (h : ∀ a ∈ xs, ∀ b ∈ xs, key a ≤ key b → time (f a) ≤ time (f b)) :
    (((orderBy key xs).map f).map time).Pairwise (· ≤ ·) := by
  rw [List.map_map]
  refine List.pairwise_map.mpr ((pairwise_orderBy key xs).imp_of_mem fun ha hb hab => ?_)
  have hmem := fun c => (orderBy_perm key xs).mem_iff (a := c)
  exact h _ ((hmem _).mp ha) _ ((hmem _).mp hb) hab

/-- Two listings of the same rows that are both in the order of their
timestamps. -/
theorem SameUpToTies.of_orderBy {α β γ κ₁ κ₂ : Type} [LinearOrder τ] [LinearOrder κ₁]
    [LinearOrder κ₂] {time : γ → τ} {key₁ : α → κ₁} {key₂ : β → κ₂} {f : α → γ} {g : β → γ}
    {xs : List α} {ys : List β}
    (h₁ : ∀ a ∈ xs, ∀ b ∈ xs, key₁ a ≤ key₁ b → time (f a) ≤ time (f b))
    (h₂ : ∀ a ∈ ys, ∀ b ∈ ys, key₂ a ≤ key₂ b → time (g a) ≤ time (g b))
    (h : (xs.map f).Perm (ys.map g)) :
    SameUpToTies time ((orderBy key₁ xs).map f) ((orderBy key₂ ys).map g) := by
  have hperm : ((orderBy key₁ xs).map f).Perm ((orderBy key₂ ys).map g) :=
    ((orderBy_perm key₁ xs).map f).trans (h.trans ((orderBy_perm key₂ ys).map g).symm)
  exact ⟨(hperm.map time).eq_of_pairwise (fun _ _ _ _ => le_antisymm) (pairwise_map_orderBy h₁)
    (pairwise_map_orderBy h₂), hperm⟩

end

end Stelyph
