import Mathlib.Data.List.Induction

/-!
# Walks up and down a tree of directories

A path is walked from the root: a name goes down into a directory, some
segments stay where they are, some go up, and above the root there is the
root. `walk` is the directory reached.

`finish_walk_iff` says when a path names a file inside the directory `x`
of the root: the way passes through `x`, what comes before cancels out,
and what comes after never climbs higher than it has gone down.
-/

namespace Stelyph

namespace DotSegments

inductive Move where
  | down
  | stay
  | up
deriving DecidableEq, Repr

variable {α : Type} (kind : α → Move)

/-- One segment of a path: a name leads down, a dot stays, and two dots
lead up, as far as there is an up. -/
def step (dir : List α) (seg : α) : List α :=
  match kind seg with
  | .down => dir ++ [seg]
  | .stay => dir
  | .up => dir.dropLast

def walk (segs : List α) : List α := segs.foldl (step kind) []

/-- The last segment names a file, or leaves its name blank. -/
def finish (blank : α) (dir : List α) (last : α) : List α :=
  match kind last with
  | .down => dir ++ [last]
  | .stay => dir ++ [blank]
  | .up => dir.dropLast ++ [blank]

def downs (segs : List α) : Nat := segs.countP fun s => kind s = .down

def ups (segs : List α) : Nat := segs.countP fun s => kind s = .up

/-- No part of the way climbs higher than it has gone down. -/
def Inside (segs : List α) : Prop := ∀ p, p <+: segs → ups kind p ≤ downs kind p

/-- Every end of the way climbs at least as high as it goes down. -/
def Cancels (segs : List α) : Prop := ∀ s, s <:+ segs → downs kind s ≤ ups kind s

variable {kind}

theorem walk_snoc (segs : List α) (s : α) : walk kind (segs ++ [s]) = step kind (walk kind segs) s := by
  rw [walk, List.foldl_append]
  rfl

theorem downs_snoc (segs : List α) (s : α) :
    downs kind (segs ++ [s]) = downs kind segs + if kind s = .down then 1 else 0 := by
  simp [downs, List.countP_append, List.countP_cons]

theorem ups_snoc (segs : List α) (s : α) :
    ups kind (segs ++ [s]) = ups kind segs + if kind s = .up then 1 else 0 := by
  simp [ups, List.countP_append, List.countP_cons]

/-- The ends of a longer way. -/
theorem forall_suffix_snoc {segs : List α} {s : α} {P : List α → Prop} :
    (∀ t, t <:+ segs ++ [s] → P t) ↔ P [] ∧ ∀ t, t <:+ segs → P (t ++ [s]) := by
  constructor
  · intro h
    refine ⟨h [] List.nil_suffix, ?_⟩
    rintro t ⟨pre, rfl⟩
    exact h _ ⟨pre, (List.append_assoc ..).symm⟩
  · rintro ⟨hnil, h⟩ t ⟨pre, hpre⟩
    rcases t.eq_nil_or_concat with rfl | ⟨t', x, rfl⟩
    · exact hnil
    · rw [List.concat_eq_append, ← List.append_assoc] at hpre
      obtain ⟨hsegs, hx⟩ := List.append_inj' hpre rfl
      obtain rfl := (List.cons.inj hx).1
      rw [List.concat_eq_append]
      exact h t' ⟨pre, hsegs⟩

/-- The beginnings of a longer way. -/
theorem forall_prefix_snoc {segs : List α} {s : α} {P : List α → Prop} :
    (∀ t, t <+: segs ++ [s] → P t) ↔ (∀ t, t <+: segs → P t) ∧ P (segs ++ [s]) := by
  constructor
  · intro h
    exact ⟨fun t ht => h t (ht.trans (List.prefix_append _ _)), h _ (List.prefix_refl _)⟩
  · rintro ⟨h, hall⟩ t ht
    rcases List.prefix_concat_iff.mp ht with rfl | ht'
    · exact hall
    · exact h t ht'

/-- How deep the walk ends. -/
theorem length_walk_le_iff (segs : List α) (k : Nat) :
    (walk kind segs).length ≤ k ↔ ∀ t, t <:+ segs → downs kind t ≤ ups kind t + k := by
  induction segs using List.reverseRecOn generalizing k with
  | nil => simp [walk, downs, List.suffix_nil]
  | append_singleton segs s ih =>
      have hnil : downs kind ([] : List α) = 0 := rfl
      rw [walk_snoc, step, forall_suffix_snoc]
      simp only [downs_snoc, ups_snoc, hnil]
      cases hs : kind s with
      | down =>
          simp only [List.length_append, List.length_singleton, if_true, reduceCtorEq, if_false]
          constructor
          · intro h
            refine ⟨Nat.zero_le _, fun t ht => ?_⟩
            have := (ih (k - 1)).mp (by omega) t ht
            omega
          · rintro ⟨-, h⟩
            have hone := h [] List.nil_suffix
            rw [hnil, show ups kind ([] : List α) = 0 from rfl] at hone
            have := (ih (k - 1)).mpr fun t ht => by
              have := h t ht
              omega
            omega
      | stay =>
          simp only [reduceCtorEq, if_false, Nat.add_zero]
          exact ⟨fun h => ⟨Nat.zero_le _, (ih k).mp h⟩, fun h => (ih k).mpr h.2⟩
      | up =>
          simp only [List.length_dropLast, if_true, reduceCtorEq, if_false, Nat.add_zero]
          constructor
          · intro h
            refine ⟨Nat.zero_le _, fun t ht => ?_⟩
            have := (ih (k + 1)).mp (by omega) t ht
            omega
          · rintro ⟨-, h⟩
            have := (ih (k + 1)).mpr fun t ht => by
              have := h t ht
              omega
            omega

theorem walk_eq_nil_iff (segs : List α) : walk kind segs = [] ↔ Cancels kind segs := by
  rw [← List.length_eq_zero_iff, ← Nat.le_zero, length_walk_le_iff]
  rfl

/-- From inside a directory the way goes as it would from the root. -/
theorem walk_inside {a b : List α} {x : α} (ha : walk kind a = []) (hx : kind x = .down)
    (hb : Inside kind b) :
    walk kind (a ++ x :: b) = x :: walk kind b
      ∧ (walk kind b).length + ups kind b = downs kind b := by
  induction b using List.reverseRecOn with
  | nil =>
      rw [walk_snoc, ha, step, hx]
      exact ⟨rfl, rfl⟩
  | append_singleton b s ih =>
      obtain ⟨hinside, hlast⟩ := forall_prefix_snoc.mp hb
      obtain ⟨hwalk, hlen⟩ := ih hinside
      rw [← List.cons_append, ← List.append_assoc, walk_snoc, walk_snoc, hwalk]
      rw [ups_snoc, downs_snoc] at hlast ⊢
      simp only [step]
      cases hs : kind s with
      | down =>
          simp only [List.length_append, List.length_singleton, if_true, reduceCtorEq, if_false]
          exact ⟨rfl, by omega⟩
      | stay =>
          simp only [reduceCtorEq, if_false, Nat.add_zero]
          exact ⟨trivial, hlen⟩
      | up =>
          rw [hs] at hlast
          simp only [List.length_dropLast, if_true, reduceCtorEq, if_false, Nat.add_zero] at hlast ⊢
          refine ⟨List.dropLast_cons_of_ne_nil ?_, by omega⟩
          intro hnil
          rw [hnil, List.length_nil] at hlen
          omega

theorem Inside.snoc {b : List α} {s : α} (hb : Inside kind b)
    (h : kind s = .up → ups kind b < downs kind b) : Inside kind (b ++ [s]) := by
  refine forall_prefix_snoc.mpr ⟨hb, ?_⟩
  have hle := hb b (List.prefix_refl b)
  rw [ups_snoc, downs_snoc]
  split
  · rename_i hs
    have := h hs
    omega
  · omega

/-- The way into `x`, and the way on from there. -/
theorem walk_eq_cons {segs rest : List α} {x : α} (h : walk kind segs = x :: rest) :
    ∃ a b, segs = a ++ x :: b ∧ kind x = .down ∧ walk kind a = [] ∧ Inside kind b := by
  induction segs using List.reverseRecOn generalizing rest with
  | nil => cases h
  | append_singleton segs s ih =>
      have hgoes : ∀ rest', walk kind segs = x :: rest' → (kind s = .up → rest' ≠ []) →
          ∃ a b, segs ++ [s] = a ++ x :: b ∧ kind x = .down ∧ walk kind a = []
            ∧ Inside kind b := by
        intro rest' hwalk hup
        obtain ⟨a, b, rfl, hx, ha, hb⟩ := ih hwalk
        refine ⟨a, b ++ [s], by rw [List.append_assoc, List.cons_append], hx, ha,
          hb.snoc fun hs => ?_⟩
        obtain ⟨hinside, hlen⟩ := walk_inside ha hx hb
        obtain rfl := (List.cons.inj (hwalk.symm.trans hinside)).2
        have := List.length_pos_iff.mpr (hup hs)
        omega
      rw [walk_snoc, step] at h
      cases hs : kind s with
      | down =>
          rw [hs] at h
          cases hw : walk kind segs with
          | nil =>
              rw [hw] at h
              obtain ⟨rfl, -⟩ := List.cons.inj h
              exact ⟨segs, [], rfl, hs, hw, fun p hp => by rw [List.prefix_nil.mp hp]; exact Nat.le_refl _⟩
          | cons y rest' =>
              rw [hw] at h
              obtain ⟨rfl, -⟩ := List.cons.inj h
              exact hgoes rest' hw (by rw [hs]; intro hne; cases hne)
      | stay =>
          rw [hs] at h
          exact hgoes rest h (by rw [hs]; intro hne; cases hne)
      | up =>
          rw [hs] at h
          cases hw : walk kind segs with
          | nil =>
              rw [hw] at h
              cases h
          | cons y rest' =>
              rw [hw] at h
              have hne : rest' ≠ [] := by
                rintro rfl
                cases h
              rw [List.dropLast_cons_of_ne_nil hne] at h
              obtain ⟨rfl, -⟩ := List.cons.inj h
              exact hgoes rest' hw fun _ => hne

/-- A file somewhere inside the directory `x` of the root. -/
theorem finish_walk_iff {blank last x : α} {segs : List α} :
    (∃ r rest, finish kind blank (walk kind segs) last = x :: r :: rest) ↔
      ∃ a b, segs ++ [last] = a ++ x :: b ∧ b ≠ [] ∧ kind x = .down ∧ Cancels kind a
        ∧ Inside kind b := by
  constructor
  · rintro ⟨r, rest, h⟩
    have hinside : ∀ dir, walk kind segs = x :: dir → (kind last = .up → dir ≠ []) →
        ∃ a b, segs ++ [last] = a ++ x :: b ∧ b ≠ [] ∧ kind x = .down ∧ Cancels kind a
          ∧ Inside kind b := by
      intro dir hwalk hup
      obtain ⟨a, b, rfl, hx, ha, hb⟩ := walk_eq_cons hwalk
      refine ⟨a, b ++ [last], by rw [List.append_assoc, List.cons_append],
        List.append_ne_nil_of_right_ne_nil _ (List.cons_ne_nil _ _), hx, (walk_eq_nil_iff a).mp ha,
        hb.snoc fun hlast => ?_⟩
      obtain ⟨hgoes, hlen⟩ := walk_inside ha hx hb
      obtain rfl := (List.cons.inj (hwalk.symm.trans hgoes)).2
      have := List.length_pos_iff.mpr (hup hlast)
      omega
    have hblank : ∀ y, walk kind segs ++ [y] = x :: r :: rest → kind last ≠ .up →
        ∃ a b, segs ++ [last] = a ++ x :: b ∧ b ≠ [] ∧ kind x = .down ∧ Cancels kind a
          ∧ Inside kind b := by
      intro y hy hup
      cases hw : walk kind segs with
      | nil =>
          rw [hw] at hy
          cases hy
      | cons z dir =>
          rw [hw] at hy
          obtain ⟨rfl, -⟩ := List.cons.inj hy
          exact hinside dir hw fun hlast => absurd hlast hup
    rw [finish] at h
    cases hlast : kind last with
    | down =>
        rw [hlast] at h
        exact hblank last h (by rw [hlast]; intro hne; cases hne)
    | stay =>
        rw [hlast] at h
        exact hblank blank h (by rw [hlast]; intro hne; cases hne)
    | up =>
        rw [hlast] at h
        cases hw : walk kind segs with
        | nil =>
            rw [hw] at h
            cases h
        | cons z dir =>
            rw [hw] at h
            have hne : dir ≠ [] := by
              rintro rfl
              cases h
            rw [List.dropLast_cons_of_ne_nil hne] at h
            obtain ⟨rfl, -⟩ := List.cons.inj h
            exact hinside dir hw fun _ => hne
  · rintro ⟨a, b, hsplit, hne, hx, ha, hb⟩
    rcases b.eq_nil_or_concat with rfl | ⟨b', s, rfl⟩
    · exact absurd rfl hne
    · rw [List.concat_eq_append] at hsplit hb
      rw [← List.cons_append, ← List.append_assoc] at hsplit
      obtain ⟨rfl, hs⟩ := List.append_inj' hsplit rfl
      obtain rfl := (List.cons.inj hs).1
      obtain ⟨hb', hlast⟩ := forall_prefix_snoc.mp hb
      obtain ⟨hwalk, hlen⟩ := walk_inside ((walk_eq_nil_iff a).mpr ha) hx hb'
      rw [ups_snoc, downs_snoc] at hlast
      rw [hwalk, finish]
      cases hk : kind last with
      | down =>
          obtain ⟨r, rest, hr⟩ := List.exists_cons_of_ne_nil
            (List.append_ne_nil_of_right_ne_nil (walk kind b') (List.cons_ne_nil last []))
          exact ⟨r, rest, congrArg (x :: ·) hr⟩
      | stay =>
          obtain ⟨r, rest, hr⟩ := List.exists_cons_of_ne_nil
            (List.append_ne_nil_of_right_ne_nil (walk kind b') (List.cons_ne_nil blank []))
          exact ⟨r, rest, congrArg (x :: ·) hr⟩
      | up =>
          have hdir : walk kind b' ≠ [] := by
            intro hnil
            rw [hnil, List.length_nil] at hlen
            rw [hk] at hlast
            simp only [if_true, reduceCtorEq, if_false] at hlast
            omega
          obtain ⟨r, rest, hr⟩ := List.exists_cons_of_ne_nil
            (List.append_ne_nil_of_right_ne_nil (walk kind b').dropLast (List.cons_ne_nil blank []))
          refine ⟨r, rest, ?_⟩
          show (x :: walk kind b').dropLast ++ [blank] = _
          rw [List.dropLast_cons_of_ne_nil hdir]
          exact congrArg (x :: ·) hr

/-! ## The segments of the result -/

theorem mem_walk {segs : List α} {x : α} (h : x ∈ walk kind segs) : x ∈ segs := by
  induction segs using List.reverseRecOn with
  | nil => exact h
  | append_singleton segs s ih =>
      rw [walk_snoc, step] at h
      rw [List.mem_append, List.mem_singleton]
      cases hs : kind s with
      | down =>
          rw [hs] at h
          exact (List.mem_append.mp h).imp ih List.mem_singleton.mp
      | stay =>
          rw [hs] at h
          exact Or.inl (ih h)
      | up =>
          rw [hs] at h
          exact Or.inl (ih ((List.dropLast_subset _ h)))

theorem mem_finish {blank last x : α} {dir : List α} (h : x ∈ finish kind blank dir last) :
    x ∈ dir ∨ x = last ∨ x = blank := by
  rw [finish] at h
  cases hlast : kind last with
  | down =>
      rw [hlast] at h
      exact (List.mem_append.mp h).imp_right fun h => Or.inl (List.mem_singleton.mp h)
  | stay =>
      rw [hlast] at h
      exact (List.mem_append.mp h).imp_right fun h => Or.inr (List.mem_singleton.mp h)
  | up =>
      rw [hlast] at h
      exact (List.mem_append.mp h).imp (fun h => List.dropLast_subset _ h)
        fun h => Or.inr (List.mem_singleton.mp h)

end DotSegments

end Stelyph
