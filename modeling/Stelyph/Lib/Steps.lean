import Mathlib.Data.List.Basic

/-!
# Runs of a deterministic step function

A system is given by `step : σ → α → Option σ`: the state after the
labelled step `a`, or `none` where `a` is not enabled. A run is the list
of its labels; everything the environment chooses (who moves, what a
clock or a random source answers, which call fails) is in the labels, so
quantifying over label lists quantifies over all interleavings.

Two induction rules carry every development below: `run_inv` (an
invariant of each step is an invariant of each run) and `run_inv_along`
(the same when every step of the run is known to meet a side condition,
collected by `Along`). `Projects` carries runs, and side conditions along
them, from one system to another that takes only some of its steps.
-/

namespace Stelyph

namespace Steps

variable {σ α : Type}

/-- The state a list of steps leads to, `none` when one is not enabled. -/
def run (step : σ → α → Option σ) : σ → List α → Option σ
  | s, [] => some s
  | s, a :: as => (step s a).bind fun s' => run step s' as

/-- Every step of the run meets `cond` in the state it is taken in. -/
def Along (step : σ → α → Option σ) (cond : σ → α → Prop) : σ → List α → Prop
  | _, [] => True
  | s, a :: as => cond s a ∧ ∀ s', step s a = some s' → Along step cond s' as

variable {step : σ → α → Option σ} {cond : σ → α → Prop}

/-- A side condition that can be evaluated can be evaluated along a run. -/
instance decidableAlong [∀ s a, Decidable (cond s a)] :
    ∀ s as, Decidable (Along step cond s as)
  | _, [] => isTrue trivial
  | s, a :: as =>
      match h : step s a with
      | none => decidable_of_iff (cond s a) ⟨fun hc => ⟨hc, fun _ hs => by cases h.symm.trans hs⟩,
          And.left⟩
      | some s' =>
          have := decidableAlong s' as
          decidable_of_iff (cond s a ∧ Along step cond s' as)
            ⟨fun hc => ⟨hc.1, fun _ hs => Option.some.inj (h.symm.trans hs) ▸ hc.2⟩,
              fun hc => ⟨hc.1, hc.2 s' h⟩⟩

@[simp] theorem run_nil (s : σ) : run step s [] = some s := rfl

theorem run_cons_eq_some {s t : σ} {a : α} {as : List α} :
    run step s (a :: as) = some t ↔
      ∃ s', step s a = some s' ∧ run step s' as = some t := by
  rw [run, Option.bind_eq_some_iff]

theorem run_append {s : σ} (as bs : List α) :
    run step s (as ++ bs) = (run step s as).bind fun s' => run step s' bs := by
  induction as generalizing s with
  | nil => rfl
  | cons a as ih =>
      simp only [List.cons_append, run, Option.bind_assoc, ih]

theorem run_append_eq_some {s t : σ} {as bs : List α} :
    run step s (as ++ bs) = some t ↔
      ∃ s', run step s as = some s' ∧ run step s' bs = some t := by
  rw [run_append, Option.bind_eq_some_iff]

/-! ## The invariant rules -/

/-- What every step meeting `cond` keeps, every run meeting it keeps. -/
theorem run_inv_along {I : σ → Prop}
    (hstep : ∀ s a s', I s → cond s a → step s a = some s' → I s') :
    ∀ {as : List α} {s t : σ}, I s → Along step cond s as →
      run step s as = some t → I t
  | [], _, _, hs, _, hrun => by
      obtain rfl := Option.some.inj hrun
      exact hs
  | a :: as, s, t, hs, hal, hrun => by
      obtain ⟨s', ha, hrun'⟩ := run_cons_eq_some.mp hrun
      exact run_inv_along hstep (hstep s a s' hs hal.1 ha) (hal.2 s' ha) hrun'

/-- What every step keeps, every run keeps. -/
theorem run_inv {I : σ → Prop}
    (hstep : ∀ s a s', I s → step s a = some s' → I s')
    {as : List α} {s t : σ} (hs : I s) (hrun : run step s as = some t) : I t := by
  induction as generalizing s with
  | nil =>
      obtain rfl := Option.some.inj hrun
      exact hs
  | cons a as ih =>
      obtain ⟨s', ha, hrun'⟩ := run_cons_eq_some.mp hrun
      exact ih (hstep s a s' hs ha) hrun'

/-- Where every action that meets `cond` can be taken, a run of them can. -/
theorem run_of_progress {I : σ → Prop}
    (hstep : ∀ s a, I s → cond s a → ∃ s', step s a = some s' ∧ I s') :
    ∀ {as : List α} {s : σ}, I s → Along step cond s as → ∃ t, run step s as = some t ∧ I t
  | [], s, hs, _ => ⟨s, rfl, hs⟩
  | a :: as, s, hs, hal => by
      obtain ⟨s', ha, hs'⟩ := hstep s a hs hal.1
      obtain ⟨t, hrun, ht⟩ := run_of_progress hstep hs' (hal.2 s' ha)
      exact ⟨t, run_cons_eq_some.mpr ⟨s', ha, hrun⟩, ht⟩

/-! ## Splitting side conditions -/

theorem along_of_mem : ∀ {as : List α} {s : σ}, (∀ s, ∀ a ∈ as, cond s a) → Along step cond s as
  | [], _, _ => trivial
  | a :: _, s, h => ⟨h s a List.mem_cons_self,
      fun _ _ => along_of_mem fun s a ha => h s a (List.mem_cons_of_mem _ ha)⟩

theorem along_of_forall (h : ∀ s a, cond s a) {as : List α} {s : σ} : Along step cond s as :=
  along_of_mem fun s a _ => h s a

theorem Along.imp {cond' : σ → α → Prop} (h : ∀ s a, cond s a → cond' s a) :
    ∀ {as : List α} {s : σ}, Along step cond s as → Along step cond' s as
  | [], _, _ => trivial
  | _ :: _, _, ⟨ha, has⟩ => ⟨h _ _ ha, fun s' hs' => (has s' hs').imp h⟩

theorem Along.and {cond' : σ → α → Prop} : ∀ {as : List α} {s : σ}, Along step cond s as →
    Along step cond' s as → Along step (fun s a => cond s a ∧ cond' s a) s as
  | [], _, _, _ => trivial
  | _ :: _, _, ⟨ha, has⟩, ⟨ha', has'⟩ =>
      ⟨⟨ha, ha'⟩, fun s' hs' => (has s' hs').and (has' s' hs')⟩

/-- What `cond` gives under an invariant, it gives at every step. -/
theorem Along.of_inv {cond' : σ → α → Prop} {I : σ → Prop}
    (hstep : ∀ s a s', I s → cond s a → step s a = some s' → I s')
    (h : ∀ s a, I s → cond s a → cond' s a) :
    ∀ {as : List α} {s : σ}, I s → Along step cond s as → Along step cond' s as
  | [], _, _, _ => trivial
  | _ :: _, _, hs, ⟨ha, has⟩ =>
      ⟨h _ _ hs ha, fun s' hs' => (has s' hs').of_inv hstep h (hstep _ _ s' hs ha hs')⟩

theorem along_append {as bs : List α} {s : σ} :
    Along step cond s (as ++ bs) ↔
      Along step cond s as
        ∧ ∀ s', run step s as = some s' → Along step cond s' bs := by
  induction as generalizing s with
  | nil => simp [Along]
  | cons a as ih =>
      simp only [List.cons_append, Along, ih, run_cons_eq_some]
      constructor
      · rintro ⟨ha, has⟩
        refine ⟨⟨ha, fun s' hs' => (has s' hs').1⟩, ?_⟩
        rintro t ⟨s', hs', hrun⟩
        exact (has s' hs').2 t hrun
      · rintro ⟨⟨ha, has⟩, hbs⟩
        exact ⟨ha, fun s' hs' => ⟨has s' hs', fun t hrun => hbs t ⟨s', hs', hrun⟩⟩⟩

/-- A run that does not meet `cond` throughout has a first step that
breaks it. -/
theorem exists_break_of_not_along {as : List α} {s t : σ}
    (hrun : run step s as = some t) (hnot : ¬ Along step cond s as) :
    ∃ pre a post s', as = pre ++ a :: post ∧ run step s pre = some s'
      ∧ Along step cond s pre ∧ ¬ cond s' a := by
  induction as generalizing s with
  | nil => exact absurd trivial hnot
  | cons a as ih =>
      obtain ⟨s', ha, hrun'⟩ := run_cons_eq_some.mp hrun
      by_cases hc : cond s a
      · have hnot' : ¬ Along step cond s' as := by
          intro hal
          refine hnot ⟨hc, fun s'' hs'' => ?_⟩
          obtain rfl := Option.some.inj (ha.symm.trans hs'')
          exact hal
        obtain ⟨pre, b, post, u, rfl, hpre, halong, hb⟩ := ih hrun' hnot'
        refine ⟨a :: pre, b, post, u, rfl, run_cons_eq_some.mpr ⟨s', ha, hpre⟩, ?_, hb⟩
        refine ⟨hc, fun s'' hs'' => ?_⟩
        obtain rfl := Option.some.inj (ha.symm.trans hs'')
        exact halong
      · exact ⟨[], a, as, s, rfl, rfl, trivial, hc⟩

/-! ## A run as another system sees it -/

/-- A step that ends in `O` is a step of the second system, or none at all. -/
structure Projects {τ β : Type} (step : σ → α → Option σ) (step' : τ → β → Option τ) (f : σ → τ)
    (g : α → Option β) (O : σ → Prop) : Prop where
  back : ∀ {s a s'}, step s a = some s' → O s' → O s
  moves : ∀ {s a s' b}, step s a = some s' → O s' → g a = some b → step' (f s) b = some (f s')
  stays : ∀ {s a s'}, step s a = some s' → O s' → g a = none → f s' = f s

section Projects

variable {τ β : Type} {step' : τ → β → Option τ} {f : σ → τ} {g : α → Option β} {O : σ → Prop}

theorem Projects.back_run (h : Projects step step' f g O) {as : List α} {s t : σ}
    (hrun : run step s as = some t) (ht : O t) : O s := by
  induction as generalizing s with
  | nil =>
      obtain rfl := Option.some.inj hrun
      exact ht
  | cons a as ih =>
      obtain ⟨s', ha, hrun'⟩ := run_cons_eq_some.mp hrun
      exact h.back ha (ih hrun')

/-- A run that ends in `O` is a run of the second system. -/
theorem Projects.run (h : Projects step step' f g O) {as : List α} {s t : σ}
    (hrun : Steps.run step s as = some t) (ht : O t) :
    Steps.run step' (f s) (as.filterMap g) = some (f t) := by
  induction as generalizing s with
  | nil =>
      obtain rfl := Option.some.inj hrun
      rfl
  | cons a as ih =>
      obtain ⟨s', ha, hrun'⟩ := run_cons_eq_some.mp hrun
      have hs' := h.back_run hrun' ht
      cases hg : g a with
      | none =>
          rw [List.filterMap_cons_none hg, ← h.stays ha hs' hg]
          exact ih hrun'
      | some b =>
          rw [List.filterMap_cons_some hg]
          exact run_cons_eq_some.mpr ⟨f s', h.moves ha hs' hg, ih hrun'⟩

/-- It meets a condition of the second system there exactly if its steps
do. -/
theorem Projects.along_iff (h : Projects step step' f g O) {cond : τ → β → Prop} {as : List α}
    {s t : σ} (hrun : Steps.run step s as = some t) (ht : O t) :
    Along step (fun s a => ∀ b, g a = some b → cond (f s) b) s as
      ↔ Along step' cond (f s) (as.filterMap g) := by
  induction as generalizing s with
  | nil => exact Iff.rfl
  | cons a as ih =>
      obtain ⟨s', ha, hrun'⟩ := run_cons_eq_some.mp hrun
      have hs' := h.back_run hrun' ht
      -- The only successors are `s'` and what it projects to.
      have hnext : ∀ {P : σ → Prop}, (∀ u, step s a = some u → P u) ↔ P s' := fun {P} =>
        ⟨fun hP => hP s' ha, fun hP u hu => Option.some.inj (ha.symm.trans hu) ▸ hP⟩
      rw [Along, hnext, ih hrun']
      cases hg : g a with
      | none =>
          rw [List.filterMap_cons_none hg, ← h.stays ha hs' hg]
          exact and_iff_right fun b hb => by cases hb
      | some b =>
          have hmove := h.moves ha hs' hg
          rw [List.filterMap_cons_some hg, Along]
          refine and_congr ⟨fun hc => hc b rfl, fun hc b' hb' => Option.some.inj hb' ▸ hc⟩ ?_
          exact ⟨fun hal u hu => Option.some.inj (hmove.symm.trans hu) ▸ hal,
            fun hal => hal _ hmove⟩

end Projects

end Steps

end Stelyph
