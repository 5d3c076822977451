import Mathlib.Data.List.Forall2
import Stelyph.Lib.Sql

/-!
# Two tables row by row

`Table.Rel f R t t'`: the rows of `t` and `t'` correspond one by one,
their keys under the injection `f` and their values under `R`. It is what
two stores have in common that keep the same rows in a different
spelling. Every statement keeps it, and what a statement finds, counts or
lists corresponds on both sides.
-/

namespace Stelyph

section

variable {α β : Type} {R : α → β → Prop} {l : List α} {l' : List β}

theorem forall₂_find? {p : α → Bool} {q : β → Bool} (h : List.Forall₂ R l l')
    (hpq : ∀ a b, R a b → p a = q b) : Option.Rel R (l.find? p) (l'.find? q) := by
  induction h with
  | nil => exact .none
  | @cons a b l l' hab _ ih =>
      cases hp : p a with
      | true =>
          rw [List.find?_cons_of_pos hp, List.find?_cons_of_pos (hpq a b hab ▸ hp)]
          exact .some hab
      | false =>
          rw [List.find?_cons_of_neg (by simp [hp]),
            List.find?_cons_of_neg (by simp [← hpq a b hab, hp])]
          exact ih

theorem forall₂_countP {p : α → Bool} {q : β → Bool} (h : List.Forall₂ R l l')
    (hpq : ∀ a b, R a b → p a = q b) : l.countP p = l'.countP q := by
  induction h with
  | nil => rfl
  | @cons a b l l' hab _ ih => rw [List.countP_cons, List.countP_cons, ih, hpq a b hab]

theorem forall₂_filter {p : α → Bool} {q : β → Bool} (h : List.Forall₂ R l l')
    (hpq : ∀ a b, R a b → p a = q b) : List.Forall₂ R (l.filter p) (l'.filter q) :=
  List.rel_filter (fun a b hab => by simp [hpq a b hab]) h

theorem forall₂_right_of_mem (h : List.Forall₂ R l l') {b : β} (hb : b ∈ l') :
    ∃ a ∈ l, R a b := by
  induction h with
  | nil => cases hb
  | @cons a b' l l' hab _ ih =>
      rcases List.mem_cons.mp hb with rfl | hb
      · exact ⟨a, List.mem_cons_self, hab⟩
      · obtain ⟨a', ha, hR⟩ := ih hb
        exact ⟨a', List.mem_cons_of_mem _ ha, hR⟩

/-- What both sides show of their rows is the same. -/
theorem forall₂_map_eq {γ : Type} {f : α → γ} {g : β → γ} (h : List.Forall₂ R l l')
    (hfg : ∀ a b, R a b → f a = g b) : l.map f = l'.map g := by
  induction h with
  | nil => rfl
  | @cons a b l l' hab _ ih => rw [List.map_cons, List.map_cons, ih, hfg a b hab]

end

section

variable {α β : Type} {R : α → β → Prop} {o : Option α} {o' : Option β}

/-- Both sides found something, or neither did. -/
theorem optionRel_cases (h : Option.Rel R o o') :
    (o = none ∧ o' = none) ∨ ∃ a b, o = some a ∧ o' = some b ∧ R a b := by
  cases h with
  | none => exact Or.inl ⟨rfl, rfl⟩
  | some hab => exact Or.inr ⟨_, _, rfl, rfl, hab⟩

theorem optionRel_map {γ δ : Type} {P : γ → δ → Prop} {f : α → γ} {g : β → δ}
    (h : Option.Rel R o o') (hfg : ∀ a b, R a b → P (f a) (g b)) :
    Option.Rel P (o.map f) (o'.map g) := by
  cases h with
  | none => exact .none
  | some hab => exact .some (hfg _ _ hab)

/-- What both sides show of what they found is the same. -/
theorem optionRel_map_eq {γ : Type} {f : α → γ} {g : β → γ} (h : Option.Rel R o o')
    (hfg : ∀ a b, R a b → f a = g b) : o.map f = o'.map g := by
  cases h with
  | none => rfl
  | some hab => exact congrArg some (hfg _ _ hab)

theorem optionRel_isSome (h : Option.Rel R o o') : o.isSome = o'.isSome := by
  cases h with
  | none => rfl
  | some _ => rfl

end

namespace Table

variable {κ κ' ν ν' : Type}

def Rel (f : κ → κ') (R : ν → ν' → Prop) (t : Table κ ν) (t' : Table κ' ν') : Prop :=
  List.Forall₂ (fun r r' => r'.1 = f r.1 ∧ R r.2 r'.2) t.rows t'.rows

variable {f : κ → κ'} {R : ν → ν' → Prop} {t : Table κ ν} {t' : Table κ' ν'}
  {p : κ → ν → Bool} {q : κ' → ν' → Bool}

theorem Rel.empty : Rel f R (.empty : Table κ ν) (.empty : Table κ' ν') := List.Forall₂.nil

theorem Rel.retain (h : Rel f R t t') (hpq : ∀ k v v', R v v' → p k v = q (f k) v') :
    Rel f R (t.retain p) (t'.retain q) :=
  forall₂_filter h fun a b hab => by rw [hab.1, hpq _ _ _ hab.2]

theorem Rel.selectOne (h : Rel f R t t') (hpq : ∀ k v v', R v v' → p k v = q (f k) v') :
    Option.Rel R (t.selectOne p) (t'.selectOne q) :=
  optionRel_map (forall₂_find? h fun a b hab => by rw [hab.1, hpq _ _ _ hab.2])
    fun _ _ hab => hab.2

theorem Rel.selectAll (h : Rel f R t t') (hpq : ∀ k v v', R v v' → p k v = q (f k) v') :
    List.Forall₂ R (t.selectAll p) (t'.selectAll q) := by
  have hrows := h.retain hpq
  unfold Table.selectAll
  exact List.forall₂_map_left_iff.mpr (List.forall₂_map_right_iff.mpr
    (hrows.imp fun _ _ hab => hab.2))

theorem Rel.countWhere (h : Rel f R t t') (hpq : ∀ k v v', R v v' → p k v = q (f k) v') :
    t.countWhere p = t'.countWhere q :=
  forall₂_countP h fun a b hab => by rw [hab.1, hpq _ _ _ hab.2]

theorem Rel.size (h : Rel f R t t') : t.size = t'.size := h.length_eq

theorem Rel.deleteWhere (h : Rel f R t t') (hpq : ∀ k v v', R v v' → p k v = q (f k) v') :
    (t.deleteWhere p).1 = (t'.deleteWhere q).1
      ∧ Rel f R (t.deleteWhere p).2 (t'.deleteWhere q).2 :=
  ⟨h.countWhere hpq, h.retain fun k v v' hv => by rw [hpq k v v' hv]⟩

variable [DecidableEq κ] [DecidableEq κ']

theorem Rel.get (h : Rel f R t t') (hf : f.Injective) (k : κ) :
    Option.Rel R (t.get k) (t'.get (f k)) :=
  optionRel_map (forall₂_find? h fun a b hab => by simp [hab.1, hf.eq_iff]) fun _ _ hab => hab.2

/-- Equal values are found as they are. -/
theorem Rel.get_eq {t' : Table κ' ν} (h : Rel f Eq t t') (hf : f.Injective) (k : κ) :
    t'.get (f k) = t.get k := by
  rcases optionRel_cases (h.get hf k) with ⟨hnone, hnone'⟩ | ⟨v, _, hv, hv', rfl⟩
  · rw [hnone, hnone']
  · rw [hv, hv']

theorem Rel.contains (h : Rel f R t t') (hf : f.Injective) (k : κ) :
    t.contains k = t'.contains (f k) :=
  optionRel_isSome (h.get hf k)

theorem Rel.remove (h : Rel f R t t') (hf : f.Injective) (k : κ) :
    Rel f R (t.remove k) (t'.remove (f k)) :=
  h.retain fun k' _ _ _ => by simp [hf.eq_iff]

theorem Rel.insert (h : Rel f R t t') (hf : f.Injective) (k : κ) {v : ν} {v' : ν'}
    (hv : R v v') : Rel f R (t.insert k v) (t'.insert (f k) v') :=
  List.rel_append (h.remove hf k) (.cons ⟨rfl, hv⟩ .nil)

theorem Rel.insertOrIgnore (h : Rel f R t t') (hf : f.Injective) (k : κ) {v : ν} {v' : ν'}
    (hv : R v v') : Rel f R (t.insertOrIgnore k v) (t'.insertOrIgnore (f k) v') := by
  unfold Table.insertOrIgnore
  rw [h.contains hf k]
  split_ifs
  · exact h
  · exact h.insert hf k hv

theorem Rel.update (h : Rel f R t t') (hf : f.Injective) (k : κ) {g : ν → ν} {g' : ν' → ν'}
    (hg : ∀ v v', R v v' → R (g v) (g' v')) : Rel f R (t.update k g) (t'.update (f k) g') := by
  refine List.rel_map (fun a b hab => ?_) h
  simp only [hab.1, hf.eq_iff]
  split_ifs
  · exact ⟨hab.1 ▸ rfl, hg _ _ hab.2⟩
  · exact hab

theorem Rel.countWhere_key (h : Rel f R t t') (hf : f.Injective) (k : κ) :
    t'.countWhere (fun k' _ => decide (k' = f k)) = if t.contains k then 1 else 0 := by
  rw [Table.countWhere_key, h.contains hf k]

omit [DecidableEq κ] [DecidableEq κ'] in
theorem Rel.any_eq (h : Rel f R t t') {p : ν → Bool} {q : ν' → Bool}
    (hpq : ∀ v v', R v v' → p v = q v') :
    (t.rows.any fun r => p r.2) = t'.rows.any fun r => q r.2 := by
  have hcount := forall₂_countP h (p := fun r => p r.2) (q := fun r => q r.2)
    fun a b hab => hpq _ _ hab.2
  rw [Bool.eq_iff_iff, List.any_eq_true, List.any_eq_true, ← List.countP_pos_iff, hcount,
    List.countP_pos_iff]

/-- An insertion that one side refuses is refused by the other. -/
theorem Rel.insertNew (h : Rel f R t t') (hf : f.Injective) (k : κ) {v : ν} {v' : ν'}
    (hv : R v v') {clash : ν → Bool} {clash' : ν' → Bool}
    (hclash : ∀ v v', R v v' → clash v = clash' v') :
    Option.Rel (Rel f R) (t.insertNew k v clash) (t'.insertNew (f k) v' clash') := by
  unfold Table.insertNew
  rw [h.contains hf k, h.any_eq hclash]
  split_ifs
  · exact .none
  · exact .some (h.insert hf k hv)

end Table

end Stelyph
