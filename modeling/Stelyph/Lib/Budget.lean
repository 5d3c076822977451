import Stelyph.Lib.Pool

/-!
# Budgets

Counting arguments over a run in three parts that never meet in a proof.
A program spends no more than it was given and what it gains (`Within`),
which is a fact about one tree. A store pays out no more than was paid
in (`ledger_run`), which is a fact about single operations. And a program
that returns has executed a certain operation before (`Owes`). What is
counted is always the log.
-/

namespace Stelyph

/-- A property of executed operations. -/
abbrev OpPred (S : Sig) := (o : S.Op) → S.Ret o → Bool

def OpPred.happened {S : Sig} (P : OpPred S) (e : Event S) : Bool := P e.op e.ans

theorem World.tally_after_happened {S : Sig} {σ : Type} (w : World S σ) (P : OpPred S) (i : Nat)
    (o : S.Op) (r : S.Ret o) (s : σ) :
    (w.after i o r s).tally P.happened i = w.tally P.happened i + (P o r).toNat := by
  rw [World.tally_after_self]
  cases h : P o r <;> simp [OpPred.happened, h]

theorem World.countP_after_happened {S : Sig} {σ : Type} (w : World S σ) (P : OpPred S) (i : Nat)
    (o : S.Op) (r : S.Ret o) (s : σ) :
    (w.after i o r s).log.countP P.happened = w.log.countP P.happened + (P o r).toNat := by
  rw [World.after_log, List.countP_append, List.countP_singleton]
  cases h : P o r <;> simp [OpPred.happened, h]

/-- What happened at most once happened once. -/
theorem eq_of_countP_le_one {τ : Type} {p : τ → Bool} {l : List τ} (h : l.countP p ≤ 1) {a b : τ}
    (ha : a ∈ l) (hb : b ∈ l) (hpa : p a = true) (hpb : p b = true) : a = b := by
  have hfa : a ∈ l.filter p := List.mem_filter.mpr ⟨ha, hpa⟩
  have hfb : b ∈ l.filter p := List.mem_filter.mpr ⟨hb, hpb⟩
  rw [List.countP_eq_length_filter] at h
  match hl : l.filter p with
  | [] =>
      rw [hl] at hfa
      cases hfa
  | [x] =>
      rw [hl] at hfa hfb
      rw [List.mem_singleton.mp hfa, List.mem_singleton.mp hfb]
  | _ :: _ :: _ =>
      rw [hl] at h
      simp only [List.length_cons] at h
      omega

/-- Nothing counts. -/
def OpPred.never (S : Sig) : OpPred S := fun _ _ => false

theorem toNat_le_of_imp {a b : Bool} (h : a = true → b = true) : a.toNat ≤ b.toNat := by
  cases a with
  | false => exact Nat.zero_le _
  | true => rw [h rfl]

theorem toNat_le_add_of_imp {a b c : Bool} (h : a = true → b = true ∨ c = true) :
    a.toNat ≤ b.toNat + c.toNat := by
  cases a with
  | false => exact Nat.zero_le _
  | true =>
      rcases h rfl with hb | hc
      · rw [hb]
        exact Nat.le_add_right _ _
      · rw [hc]
        exact Nat.le_add_left _ _

namespace Prog

variable {S : Sig} {ε α β : Type} {cost gain P : OpPred S}

/-- However it is answered, the program has at no point spent more than
`n` and what it has gained. -/
def Within (cost gain : OpPred S) : Nat → Prog S ε α → Prop
  | _, .ret _ => True
  | _, .fail _ => True
  | n, .op o k => ∀ r, (cost o r).toNat ≤ n + (gain o r).toNat
      ∧ (k r).Within cost gain (n + (gain o r).toNat - (cost o r).toNat)

/-- Operations that cost nothing. -/
def Free (cost : OpPred S) (o : S.Op) : Prop := ∀ r, cost o r = false

theorem Within.mono {n m : Nat} (hnm : n ≤ m) {p : Prog S ε α} (h : p.Within cost gain n) :
    p.Within cost gain m := by
  induction p generalizing n m with
  | ret a => trivial
  | fail e => trivial
  | op o k ih =>
      intro r
      obtain ⟨hcost, hk⟩ := h r
      exact ⟨by omega, ih r (by omega) hk⟩

/-- A first half that costs nothing. -/
theorem Within.bind_free {n : Nat} {f : α → Prog S ε β} (hf : ∀ a, (f a).Within cost gain n) :
    ∀ {p : Prog S ε α}, p.Each (Free cost) → (p.bind f).Within cost gain n
  | .ret a, _ => hf a
  | .fail _, _ => trivial
  | .op o k, hp => fun r => by
      have hzero : (cost o r).toNat = 0 := by rw [hp.1 r, Bool.toNat_false]
      refine ⟨by omega, Within.bind_free (fun a => (hf a).mono ?_) (hp.2 r)⟩
      omega

theorem Each.within {n : Nat} : ∀ {p : Prog S ε α}, p.Each (Free cost) → p.Within cost gain n
  | .ret _, _ => trivial
  | .fail _, _ => trivial
  | .op o k, hp => fun r => by
      have hzero : (cost o r).toNat = 0 := by rw [hp.1 r, Bool.toNat_false]
      exact ⟨by omega, (hp.2 r).within⟩

theorem Within.map {n : Nat} (f : α → β) {p : Prog S ε α} (h : p.Within cost gain n) :
    (p.bind fun a => .ret (f a)).Within cost gain n := by
  induction p generalizing n with
  | ret a => trivial
  | fail e => trivial
  | op o k ih => exact fun r => ⟨(h r).1, ih r (h r).2⟩

/-- The same where the operations are some among others. -/
theorem Within.hoist {T : Sig} {ε' : Type} {inj : S.Op → T.Op}
    {back : ∀ o, T.Ret (inj o) → S.Ret o} {f : ε → ε'} {cost' gain' : OpPred T}
    (hcost : ∀ o r, cost' (inj o) r = cost o (back o r))
    (hgain : ∀ o r, gain' (inj o) r = gain o (back o r)) {n : Nat} {p : Prog S ε α}
    (h : p.Within cost gain n) : (p.hoist inj back f).Within cost' gain' n := by
  induction p generalizing n with
  | ret a => trivial
  | fail e => trivial
  | op o k ih =>
      intro r
      rw [hcost, hgain]
      exact ⟨(h (back o r)).1, ih (back o r) (h (back o r)).2⟩

/-- The program cannot return before an operation `P` holds of. -/
def Owes (P : OpPred S) : Prog S ε α → Prop
  | .ret _ => False
  | .fail _ => True
  | .op o k => ∀ r, P o r = true ∨ (k r).Owes P

theorem Owes.bind {f : α → Prog S ε β} : ∀ {p : Prog S ε α}, p.Owes P → (p.bind f).Owes P
  | .ret _, h => h.elim
  | .fail _, _ => trivial
  | .op _ _, h => fun r => (h r).imp id Owes.bind

theorem owes_bind {f : α → Prog S ε β} (hf : ∀ a, (f a).Owes P) :
    ∀ p : Prog S ε α, (p.bind f).Owes P
  | .ret a => hf a
  | .fail _ => trivial
  | .op _ k => fun r => Or.inr (owes_bind hf (k r))

end Prog

namespace Pool

variable {S : Sig} {ρ ε α σ χ : Type} {M : Machine S σ χ} {handler : ρ → Prog S ε α}
  {cost gain : OpPred S} {s : σ} {as : List (PoolAct ρ χ)} {P : Pool S ρ ε α σ}

/-- Each task has spent what it was given and gained, at most. -/
theorem within_run {budget : ρ → Nat}
    (h : ∀ q, (handler q).Within cost gain (budget q))
    (hrun : Steps.run (next M handler) (init s) as = some P) :
    (∀ e ∈ P.log, e.tid < P.tasks.length) ∧ ∀ (i : Nat) q p, P.tasks[i]? = some (q, p) →
      P.tally cost.happened i ≤ budget q + P.tally gain.happened i := by
  have hP := tasks_inv_run (M := M) (G := fun _ => True)
    (T := fun i w q p => ∃ n, p.Within cost gain n
      ∧ w.tally cost.happened i + n ≤ budget q + w.tally gain.happened i)
    (fun q i w _ hfresh => ⟨budget q, h q, by simp [World.tally_eq_zero_of_fresh _ hfresh]⟩)
    ?_ ?_ trivial hrun
  · refine ⟨hP.2.1, fun i q p hi => ?_⟩
    obtain ⟨n, -, hle⟩ := hP.2.2 i q p hi
    omega
  · rintro i w q o k c r s - ⟨n, hp, hle⟩ -
    obtain ⟨hcost, hk⟩ := hp r
    refine ⟨trivial, _, hk, ?_⟩
    rw [World.tally_after_happened, World.tally_after_happened]
    omega
  · rintro i j w q p o r s hne ⟨n, hp, hle⟩
    refine ⟨n, hp, ?_⟩
    rw [w.tally_after_of_ne _ hne, w.tally_after_of_ne _ hne]
    exact hle

/-- All tasks together have spent what those that `C` holds of were given,
and what was gained. -/
theorem spent_le {C : ρ → Bool} (h : ∀ q, (handler q).Within cost gain (C q).toNat)
    (hrun : Steps.run (next M handler) (init s) as = some P) :
    P.log.countP cost.happened
      ≤ P.tasks.countP (fun t => C t.1) + P.log.countP gain.happened := by
  obtain ⟨htids, hle⟩ := within_run h hrun
  rw [World.countP_log_eq_sum cost.happened htids, World.countP_log_eq_sum gain.happened htids,
    countP_tasks_eq_sum, ← Finset.sum_add_distrib]
  refine Finset.sum_le_sum fun i hi => ?_
  have hlt : i < P.tasks.length := Finset.mem_range.mp hi
  have htask : P.tasks[i]? = some P.tasks[i] := List.getElem?_eq_getElem hlt
  have hone := hle i _ _ htask
  rw [htask]
  cases hC : C P.tasks[i].1 <;> simp_all

/-- Where nothing can be gained. -/
theorem spent_le_given {C : ρ → Bool}
    (h : ∀ q, (handler q).Within cost (OpPred.never S) (C q).toNat)
    (hrun : Steps.run (next M handler) (init s) as = some P) :
    P.log.countP cost.happened ≤ P.tasks.countP fun t => C t.1 := by
  have hle := spent_le h hrun
  have hzero : P.log.countP (OpPred.never S).happened = 0 :=
    List.countP_eq_zero.mpr fun _ _ => Bool.false_ne_true
  omega

/-- What a store holds and has paid out has been paid in. -/
theorem ledger_run (live : σ → Nat) (take put : OpPred S) (hlive : live s = 0)
    (hexec : ∀ i s o c r s', M.exec i s o c = some (r, s') →
      live s' + (take o r).toNat ≤ live s + (put o r).toNat)
    (hrun : Steps.run (next M handler) (init s) as = some P) :
    live P.store + P.log.countP take.happened ≤ P.log.countP put.happened := by
  refine (tasks_inv_run (G := fun w => live w.store + w.log.countP take.happened
    ≤ w.log.countP put.happened) (T := fun _ _ _ _ => True) (fun _ _ _ _ _ => trivial) ?_
    (fun _ _ _ _ _ _ _ _ _ _ => trivial) ?_ hrun).1
  · intro i w q o k c r s' hG _ hstep
    have := hexec i w.store o c r s' hstep
    rw [World.countP_after_happened, World.countP_after_happened, World.after_store]
    exact ⟨by omega, trivial⟩
  · simp [hlive]

/-- A task that has returned has done what it owed. -/
theorem paid_run {C : ρ → Prop} {D : OpPred S} (h : ∀ q, C q → (handler q).Owes D)
    (hrun : Steps.run (next M handler) (init s) as = some P) {i : Nat} {q : ρ} {a : α}
    (htask : P.tasks[i]? = some (q, .ret a)) (hq : C q) : 0 < P.tally D.happened i := by
  have hP := tasks_inv_run (M := M) (G := fun _ => True)
    (T := fun i w q p => C q → p.Owes D ∨ 0 < w.tally D.happened i)
    (fun q i w _ _ hq => Or.inl (h q hq)) ?_ ?_ trivial hrun
  · exact (hP.2.2 i q _ htask hq).resolve_left id
  · intro i w q o k c r s _ hT _
    refine ⟨trivial, fun hq => ?_⟩
    rw [World.tally_after_happened]
    rcases hT hq with howes | hpaid
    · rcases howes r with hD | hk
      · exact Or.inr (by simp [hD])
      · exact Or.inl hk
    · exact Or.inr (by omega)
  · intro i j w q p o r s hne hT hq
    rw [w.tally_after_of_ne _ hne]
    exact hT hq

/-- Two tasks have not both returned where only one can have done what
they owe. -/
theorem paid_once {C : ρ → Prop} {D : OpPred S} (h : ∀ q, C q → (handler q).Owes D)
    (hrun : Steps.run (next M handler) (init s) as = some P)
    (hone : P.log.countP D.happened ≤ 1) {i j : Nat} {q q' : ρ} {a a' : α}
    (hi : P.tasks[i]? = some (q, .ret a)) (hj : P.tasks[j]? = some (q', .ret a')) (hq : C q)
    (hq' : C q') : i = j := by
  by_contra hne
  have hpi := paid_run h hrun hi hq
  have hpj := paid_run h hrun hj hq'
  have hle := P.toWorld.tally_add_le D.happened hne
  omega

end Pool

end Stelyph
