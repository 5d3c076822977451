import Mathlib.Data.List.Nodup

/-!
# Keyed tables

A finite map with at most one row for each key: the primary-key tables
and hash maps of a store. Lookup, insert-or-replace, removal and
deletion by a predicate each have one lemma that says what a lookup
finds afterwards, and those lemmas are all a proof about a table needs.
-/

namespace Stelyph

/-- A table with a primary key: rows in the order they came in, no two of
them with one key. -/
structure Table (κ ν : Type) where
  rows : List (κ × ν)
  nodup : (rows.map Prod.fst).Nodup

namespace Table

variable {κ ν : Type}

def empty : Table κ ν := ⟨[], List.nodup_nil⟩

/-- Deletion by a predicate: the rows that satisfy `p` stay. -/
def retain (t : Table κ ν) (p : κ → ν → Bool) : Table κ ν where
  rows := t.rows.filter fun r => p r.1 r.2
  nodup := t.nodup.sublist (List.filter_sublist.map Prod.fst)

def size (t : Table κ ν) : Nat := t.rows.length

variable [DecidableEq κ]

/-- The row of a key, of which there is one at most. -/
def get (t : Table κ ν) (k : κ) : Option ν :=
  (t.rows.find? fun r => r.1 = k).map Prod.snd

def contains (t : Table κ ν) (k : κ) : Bool := (t.get k).isSome

def remove (t : Table κ ν) (k : κ) : Table κ ν := t.retain fun k' _ => k' ≠ k

/-- Insert, or replace the row of that key. The new row stands at the end. -/
def insert (t : Table κ ν) (k : κ) (v : ν) : Table κ ν where
  rows := (t.remove k).rows ++ [(k, v)]
  nodup := by
    rw [List.map_append, List.nodup_append]
    refine ⟨(t.remove k).nodup, by simp, ?_⟩
    intro k₁ h₁ k₂ h₂
    simp only [remove, retain, List.mem_map, List.mem_filter, decide_eq_true_eq] at h₁
    obtain ⟨r, ⟨-, hr⟩, rfl⟩ := h₁
    simp only [List.map_cons, List.map_nil, List.mem_singleton] at h₂
    rw [h₂]
    exact hr

/-- Insert unless the key has a row. -/
def insertOrIgnore (t : Table κ ν) (k : κ) (v : ν) : Table κ ν :=
  if t.contains k then t else t.insert k v

/-! ## What a lookup finds -/

theorem get_eq_some_iff {t : Table κ ν} {k : κ} {v : ν} :
    t.get k = some v ↔ (k, v) ∈ t.rows := by
  constructor
  · intro h
    obtain ⟨⟨k', v'⟩, hfind, rfl⟩ := Option.map_eq_some_iff.mp h
    obtain rfl : k' = k := by simpa using List.find?_some hfind
    exact List.mem_of_find?_eq_some hfind
  · intro h
    cases hfind : t.rows.find? fun r => r.1 = k with
    | none =>
        have := List.find?_eq_none.mp hfind (k, v) h
        simp at this
    | some r =>
        have hr : r.1 = k := by simpa using List.find?_some hfind
        have heq : r = (k, v) :=
          List.inj_on_of_nodup_map t.nodup (List.mem_of_find?_eq_some hfind) h hr
        rw [get, hfind, heq]
        rfl

theorem get_retain_eq_some {t : Table κ ν} {p : κ → ν → Bool} {k : κ} {v : ν} :
    (t.retain p).get k = some v ↔ t.get k = some v ∧ p k v = true := by
  rw [get_eq_some_iff, get_eq_some_iff]
  exact List.mem_filter

theorem get_insert_eq_some {t : Table κ ν} {k k' : κ} {v v' : ν} :
    (t.insert k v).get k' = some v' ↔
      (k' = k ∧ v' = v) ∨ (k' ≠ k ∧ t.get k' = some v') := by
  simp only [get_eq_some_iff, insert, remove, retain, List.mem_append, List.mem_filter,
    List.mem_singleton, Prod.mk.injEq, decide_eq_true_eq]
  constructor
  · rintro (⟨h, hne⟩ | ⟨rfl, rfl⟩)
    · exact Or.inr ⟨hne, h⟩
    · exact Or.inl ⟨rfl, rfl⟩
  · rintro (⟨rfl, rfl⟩ | ⟨hne, h⟩)
    · exact Or.inr ⟨rfl, rfl⟩
    · exact Or.inl ⟨h, hne⟩

@[simp] theorem get_insert_self (t : Table κ ν) (k : κ) (v : ν) :
    (t.insert k v).get k = some v :=
  get_insert_eq_some.mpr (Or.inl ⟨rfl, rfl⟩)

theorem get_insert_of_ne {t : Table κ ν} {k k' : κ} {v : ν} (h : k' ≠ k) :
    (t.insert k v).get k' = t.get k' := by
  ext v'
  rw [get_insert_eq_some]
  simp [h]

theorem contains_iff {t : Table κ ν} {k : κ} :
    t.contains k = true ↔ ∃ v, t.get k = some v :=
  Option.isSome_iff_exists

theorem get_remove_self (t : Table κ ν) (k : κ) : (t.remove k).get k = none := by
  cases h : (t.remove k).get k with
  | none => rfl
  | some v => simpa using (get_retain_eq_some.mp h).2

theorem contains_remove_self (t : Table κ ν) (k : κ) : (t.remove k).contains k = false := by
  rw [contains, get_remove_self]
  rfl

theorem get_remove_of_ne {t : Table κ ν} {k k' : κ} (h : k' ≠ k) :
    (t.remove k).get k' = t.get k' := by
  ext v
  rw [remove, get_retain_eq_some]
  simp [h]

/-- What was there stays, whatever key is inserted. -/
theorem get_insertOrIgnore_of_get {t : Table κ ν} {k k' : κ} {v v' : ν}
    (h : t.get k' = some v') : (t.insertOrIgnore k v).get k' = some v' := by
  unfold insertOrIgnore
  split
  · exact h
  · rename_i hk
    rw [get_insert_of_ne, h]
    rintro rfl
    exact hk (contains_iff.mpr ⟨v', h⟩)

/-- A row found afterwards was there, or is the one inserted. -/
theorem get_insertOrIgnore_cases {t : Table κ ν} {k k' : κ} {v v' : ν}
    (h : (t.insertOrIgnore k v).get k' = some v') :
    t.get k' = some v' ∨ (k' = k ∧ v' = v) := by
  unfold insertOrIgnore at h
  split at h
  · exact Or.inl h
  · rcases get_insert_eq_some.mp h with hnew | ⟨-, hold⟩
    · exact Or.inr hnew
    · exact Or.inl hold

theorem contains_insertOrIgnore_self (t : Table κ ν) (k : κ) (v : ν) :
    (t.insertOrIgnore k v).contains k = true := by
  unfold insertOrIgnore
  split
  · assumption
  · exact contains_iff.mpr ⟨v, get_insert_self t k v⟩

/-! ## Counting rows -/

/-- How many rows hold a value that satisfies `p`. Balances over a run are
stated with it. -/
def count (t : Table κ ν) (p : ν → Bool) : Nat := t.rows.countP fun r => p r.2

theorem countP_key_le_one (t : Table κ ν) (k : κ) : (t.rows.countP fun r => r.1 = k) ≤ 1 := by
  have hcount : (t.rows.map Prod.fst).count k = t.rows.countP fun r => r.1 = k := by
    rw [List.count_eq_countP, List.countP_map]
    exact List.countP_congr fun r _ => by simp
  rw [← hcount]
  exact List.nodup_iff_count_le_one.mp t.nodup k

theorem remove_of_get_none {t : Table κ ν} {k : κ} (h : t.get k = none) :
    (t.remove k).rows = t.rows := by
  refine List.filter_eq_self.mpr fun r hr => ?_
  have hne : r.1 ≠ k := by
    rintro rfl
    exact Option.some_ne_none _ ((get_eq_some_iff.mpr hr).symm.trans h)
  simpa using hne

theorem count_insert (t : Table κ ν) (k : κ) (v : ν) (p : ν → Bool) :
    (t.insert k v).count p = (t.remove k).count p + if p v then 1 else 0 := by
  simp [count, insert, List.countP_append, List.countP_cons]

omit [DecidableEq κ] in
theorem count_retain_le (t : Table κ ν) (q : κ → ν → Bool) (p : ν → Bool) :
    (t.retain q).count p ≤ t.count p :=
  List.filter_sublist.countP_le

theorem count_insert_le (t : Table κ ν) (k : κ) (v : ν) (p : ν → Bool) :
    (t.insert k v).count p ≤ t.count p + if p v then 1 else 0 := by
  rw [count_insert]
  exact Nat.add_le_add_right (t.count_retain_le _ p) _

theorem count_insert_of_get_none {t : Table κ ν} {k : κ} (h : t.get k = none) (v : ν)
    (p : ν → Bool) : (t.insert k v).count p = t.count p + if p v then 1 else 0 := by
  rw [count_insert, count, remove_of_get_none h, count]

/-- Removing a row takes it out of the count. -/
theorem count_remove_of_get {t : Table κ ν} {k : κ} {v : ν} (h : t.get k = some v)
    (p : ν → Bool) : (t.remove k).count p + (if p v then 1 else 0) = t.count p := by
  obtain ⟨rows, hnodup⟩ := t
  obtain ⟨l₁, l₂, hrows⟩ := List.append_of_mem (get_eq_some_iff.mp h)
  simp only at hrows
  subst hrows
  have hother : ∀ r ∈ l₁ ++ l₂, r.1 ≠ k := by
    intro r hr heq
    rw [List.map_append, List.map_cons, List.nodup_middle, List.nodup_cons,
      ← List.map_append] at hnodup
    exact hnodup.1 (List.mem_map.mpr ⟨r, hr, heq⟩)
  have hkeep : ∀ l : List (κ × ν), (∀ r ∈ l, r ∈ l₁ ++ l₂) →
      l.filter (fun r => decide (r.1 ≠ k)) = l :=
    fun l hl => List.filter_eq_self.mpr fun r hr => by simpa using hother r (hl r hr)
  simp only [count, remove, retain, List.filter_append, List.filter_cons, ne_eq,
    not_true_eq_false, decide_false, Bool.false_eq_true, if_false, List.countP_append,
    List.countP_cons]
  have h₁ := hkeep l₁ fun r hr => List.mem_append_left _ hr
  have h₂ := hkeep l₂ fun r hr => List.mem_append_right _ hr
  simp only [ne_eq] at h₁ h₂
  rw [h₁, h₂]
  omega

/-- Replacing a row by one that counts the same. -/
theorem count_insert_of_get {t : Table κ ν} {k : κ} {v v' : ν} (h : t.get k = some v)
    {p : ν → Bool} (hp : p v' = p v) : (t.insert k v').count p = t.count p := by
  rw [count_insert, hp, count_remove_of_get h]

theorem count_eq_zero {t : Table κ ν} {p : ν → Bool} :
    t.count p = 0 ↔ ∀ k v, t.get k = some v → p v = false := by
  rw [count, List.countP_eq_zero]
  constructor
  · intro h k v hget
    simpa using h (k, v) (get_eq_some_iff.mp hget)
  · rintro h ⟨k, v⟩ hmem
    simpa using h k v (get_eq_some_iff.mpr hmem)

end Table

end Stelyph
