import Stelyph.Lib.Prog

/-!
# Turns

On a single thread a task gives way only where it really suspends. Some
operations park the task that issues them; between two of those it has
the store to itself. A turn of a task is the operation it is parked at
and everything up to the next.
-/

namespace Stelyph

namespace Prog

variable {S : Sig} {ε α β σ χ : Type}

/-- On to the next operation that parks, or to the end. -/
def stretch (parks : S.Op → Bool) (exec : σ → (o : S.Op) → χ → Option (S.Ret o × σ)) :
    Prog S ε α → σ → List χ → Option (Prog S ε α × σ)
  | .ret a, s, [] => some (.ret a, s)
  | .fail e, s, [] => some (.fail e, s)
  | .op o k, s, [] => if parks o then some (.op o k, s) else none
  | .op o k, s, c :: cs =>
      if parks o then none
      else (exec s o c).bind fun rs => (k rs.1).stretch parks exec rs.2 cs
  | _, _, _ => none

/-- One turn of an object: the program is handed the answer it waits for,
and goes on by itself until it comes to an operation that parks it. -/
def turn (parks : S.Op → Bool) (exec : σ → (o : S.Op) → χ → Option (S.Ret o × σ)) :
    Prog S ε α → σ → List χ → Option (Prog S ε α × σ)
  | .op o k, s, c :: cs =>
      (exec s o c).bind fun rs => (k rs.1).stretch parks exec rs.2 cs
  | _, _, _ => none

variable {parks : S.Op → Bool} {exec : σ → (o : S.Op) → χ → Option (S.Ret o × σ)}

/-- What a stretch does that starts with a part that never parks. -/
def AfterCalm (parks : S.Op → Bool) (exec : σ → (o : S.Op) → χ → Option (S.Ret o × σ))
    (f : α → Prog S ε β) (cs : List χ) (q : Prog S ε β) (t : σ) (x : Except ε α) (u : σ) : Prop :=
  match x with
  | .ok a => (f a).stretch parks exec u cs = some (q, t)
  | .error e => cs = [] ∧ q = .fail e ∧ t = u

/-- The part runs as it would alone, and the stretch goes on from there. -/
theorem stretch_bind_eq_some {f : α → Prog S ε β} {q : Prog S ε β} {t : σ} :
    ∀ {p : Prog S ε α} {s : σ} {cs : List χ}, p.Each (fun o => parks o = false) →
      ((p.bind f).stretch parks exec s cs = some (q, t) ↔
        ∃ cs₁ cs₂ x u, cs = cs₁ ++ cs₂ ∧ p.against exec s cs₁ = some (x, u)
          ∧ AfterCalm parks exec f cs₂ q t x u)
  | .ret a, s, cs, _ => by
      constructor
      · intro h
        exact ⟨[], cs, .ok a, s, rfl, rfl, h⟩
      · rintro ⟨cs₁, cs₂, x, u, rfl, hrun, hafter⟩
        cases cs₁ with
        | nil =>
            obtain ⟨rfl, rfl⟩ := Prod.mk.injEq .. |>.mp (Option.some.inj hrun)
            exact hafter
        | cons c cs₁ => cases hrun
  | .fail e, s, cs, _ => by
      constructor
      · intro h
        cases cs with
        | nil =>
            obtain ⟨rfl, rfl⟩ := Prod.mk.injEq .. |>.mp (Option.some.inj h)
            exact ⟨[], [], .error e, s, rfl, rfl, rfl, rfl, rfl⟩
        | cons c cs => cases h
      · rintro ⟨cs₁, cs₂, x, u, rfl, hrun, hafter⟩
        cases cs₁ with
        | nil =>
            obtain ⟨rfl, rfl⟩ := Prod.mk.injEq .. |>.mp (Option.some.inj hrun)
            obtain ⟨rfl, rfl, rfl⟩ := hafter
            rfl
        | cons c cs₁ => cases hrun
  | .op o k, s, cs, hp => by
      have ho : parks o = false := hp.1
      constructor
      · intro h
        cases cs with
        | nil => simp [stretch, ho] at h
        | cons c cs =>
            simp only [op_bind, stretch, ho] at h
            obtain ⟨⟨r, u⟩, hexec, hrest⟩ := Option.bind_eq_some_iff.mp h
            obtain ⟨cs₁, cs₂, x, v, rfl, hrun, hafter⟩ := (stretch_bind_eq_some (hp.2 r)).mp hrest
            exact ⟨c :: cs₁, cs₂, x, v, rfl, Option.bind_eq_some_iff.mpr ⟨(r, u), hexec, hrun⟩,
              hafter⟩
      · rintro ⟨cs₁, cs₂, x, v, rfl, hrun, hafter⟩
        cases cs₁ with
        | nil => cases hrun
        | cons c cs₁ =>
            obtain ⟨⟨r, u⟩, hexec, hrest⟩ := Option.bind_eq_some_iff.mp hrun
            simp only [op_bind, List.cons_append, stretch, ho, hexec, Option.bind_some]
            exact (stretch_bind_eq_some (hp.2 r)).mpr ⟨cs₁, cs₂, x, v, rfl, hrest, hafter⟩

theorem stretch_parked {o : S.Op} {k : S.Ret o → Prog S ε α} (ho : parks o = true) {s t : σ}
    {cs : List χ} {q : Prog S ε α} :
    (Prog.op o k).stretch parks exec s cs = some (q, t) ↔ cs = [] ∧ q = .op o k ∧ t = s := by
  cases cs with
  | nil => simp [stretch, ho, eq_comm]
  | cons c cs => simp [stretch, ho]

theorem stretch_ret {a : α} {s t : σ} {cs : List χ} {q : Prog S ε α} :
    (Prog.ret a : Prog S ε α).stretch parks exec s cs = some (q, t) ↔
      cs = [] ∧ q = .ret a ∧ t = s := by
  cases cs with
  | nil => simp [stretch, eq_comm]
  | cons c cs => simp [stretch]

theorem stretch_fail {e : ε} {s t : σ} {cs : List χ} {q : Prog S ε α} :
    (Prog.fail e : Prog S ε α).stretch parks exec s cs = some (q, t) ↔
      cs = [] ∧ q = .fail e ∧ t = s := by
  cases cs with
  | nil => simp [stretch, eq_comm]
  | cons c cs => simp [stretch]

end Prog

end Stelyph
