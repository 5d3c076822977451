import Mathlib.Algebra.BigOperators.Group.Finset.Basic
import Mathlib.Algebra.Order.BigOperators.Group.Finset
import Stelyph.Lib.Prog
import Stelyph.Lib.Steps

/-!
# Interleaved requests over a shared store

A `Pool` is a store, the requests started so far with what is left of
each one's program, and the log of every operation executed, oldest
first. A step starts a request or executes the next operation of one
running request; the operation is atomic, everything between two
operations of a request is private to it, and the scheduler and the
environment (`χ`: failures, in particular) are in the label.

The log is a history variable: "how many calls of this operation have
succeeded" or "was this answered before that" are facts about it.

`Safe` is the rely-guarantee assertion of one task: whatever the others
do within its `rely`, each of its operations keeps the invariant and
stays within the others' `rely`, and it ends in its postcondition.
`Pool.good_run` is the soundness theorem: tasks that are safe when they
start make the invariant hold in every state of every run.
-/

namespace Stelyph

/-- One executed operation: the task that issued it, the operation, and
what it was answered. The log of a run is a list of these. -/
structure Event (S : Sig) where
  tid : Nat
  op : S.Op
  ans : S.Ret op

/-- The part of a pool that assertions speak about. -/
structure World (S : Sig) (σ : Type) where
  store : σ
  log : List (Event S)

/-- Task `i` executed `o`, was answered `r`, and left the store `s`. -/
def World.after {S : Sig} {σ : Type} (w : World S σ) (i : Nat) (o : S.Op)
    (r : S.Ret o) (s : σ) : World S σ :=
  ⟨s, w.log ++ [⟨i, o, r⟩]⟩

@[simp] theorem World.after_store {S : Sig} {σ : Type} (w : World S σ) (i : Nat)
    (o : S.Op) (r : S.Ret o) (s : σ) : (w.after i o r s).store = s := rfl

@[simp] theorem World.after_log {S : Sig} {σ : Type} (w : World S σ) (i : Nat)
    (o : S.Op) (r : S.Ret o) (s : σ) :
    (w.after i o r s).log = w.log ++ [⟨i, o, r⟩] := rfl

/-! ## Counting in the log -/

/-- How many operations of task `i` satisfy `p`. Invariants that count
what a task has done are stated with it. -/
def World.tally {S : Sig} {σ : Type} (w : World S σ) (p : Event S → Bool)
    (i : Nat) : Nat :=
  w.log.countP fun e => p e && e.tid == i

section Tally

variable {S : Sig} {σ : Type}

@[simp] theorem World.tally_after_self (w : World S σ) (p : Event S → Bool) (i : Nat)
    (o : S.Op) (r : S.Ret o) (s : σ) :
    (w.after i o r s).tally p i = w.tally p i + if p ⟨i, o, r⟩ then 1 else 0 := by
  simp [World.tally, List.countP_append, List.countP_cons]

theorem World.tally_after_of_ne (w : World S σ) (p : Event S → Bool) {i j : Nat}
    (h : i ≠ j) (o : S.Op) (r : S.Ret o) (s : σ) :
    (w.after i o r s).tally p j = w.tally p j := by
  simp [World.tally, List.countP_append, h]

theorem World.tally_le_after (w : World S σ) (p : Event S → Bool) (i j : Nat)
    (o : S.Op) (r : S.Ret o) (s : σ) : w.tally p j ≤ (w.after i o r s).tally p j := by
  rw [World.tally, World.tally, World.after_log, List.countP_append]
  exact Nat.le_add_right _ _

theorem World.tally_eq_zero_of_after {w : World S σ} {p : Event S → Bool} {i j : Nat}
    {o : S.Op} {r : S.Ret o} {s : σ} (h : (w.after i o r s).tally p j = 0) :
    w.tally p j = 0 :=
  Nat.le_zero.mp (h ▸ w.tally_le_after p i j o r s)

theorem World.tally_eq_zero_of_fresh {w : World S σ} (p : Event S → Bool) {i : Nat}
    (h : ∀ e ∈ w.log, e.tid < i) : w.tally p i = 0 := by
  rw [World.tally, List.countP_eq_zero]
  intro e he
  have := h e he
  simp only [Bool.and_eq_true, beq_iff_eq, not_and]
  omega

theorem World.tally_mono {w : World S σ} {p q : Event S → Bool} (i : Nat)
    (h : ∀ e, p e → q e) : w.tally p i ≤ w.tally q i :=
  List.countP_mono_left fun e _ he => by
    simp only [Bool.and_eq_true] at he ⊢
    exact ⟨h e he.1, he.2⟩

theorem World.tally_le_countP (w : World S σ) (p : Event S → Bool) (i : Nat) :
    w.tally p i ≤ w.log.countP p :=
  List.countP_mono_left fun _ _ he => (Bool.and_eq_true _ _ ▸ he : _ ∧ _).1

/-- Two tasks have at most everything there is. -/
theorem World.tally_add_le (w : World S σ) (p : Event S → Bool) {i j : Nat} (h : i ≠ j) :
    w.tally p i + w.tally p j ≤ w.log.countP p := by
  obtain ⟨s, log⟩ := w
  simp only [World.tally]
  induction log with
  | nil => exact Nat.le_refl 0
  | cons e log ih =>
      have hone : (if (p e && e.tid == i) = true then 1 else 0)
          + (if (p e && e.tid == j) = true then 1 else 0) ≤ if p e = true then 1 else 0 := by
        by_cases hi : e.tid = i
        · simp [hi, h]
        · simp only [beq_eq_false_iff_ne.mpr hi, Bool.and_false, Bool.false_eq_true, if_false]
          by_cases hp : p e = true
          · simp only [hp, Bool.true_and, if_true]
            split <;> omega
          · simp [hp]
      simp only [List.countP_cons]
      omega

/-- The log's total is the sum over the tasks. -/
theorem World.countP_log_eq_sum {w : World S σ} (p : Event S → Bool) {n : Nat}
    (h : ∀ e ∈ w.log, e.tid < n) :
    w.log.countP p = ∑ i ∈ Finset.range n, w.tally p i := by
  obtain ⟨s, log⟩ := w
  simp only [World.tally] at h ⊢
  induction log with
  | nil => simp
  | cons e log ih =>
      have htid : e.tid ∈ Finset.range n := Finset.mem_range.mpr (h e List.mem_cons_self)
      have hone : ∑ i ∈ Finset.range n, (if (p e && e.tid == i) = true then 1 else 0)
          = if p e = true then 1 else 0 := by
        rw [Finset.sum_eq_single_of_mem e.tid htid]
        · simp
        · intro i _ hi
          simp [Ne.symm hi]
      simp only [List.countP_cons, Finset.sum_add_distrib, hone,
        ih fun e' he' => h e' (List.mem_cons_of_mem e he')]

/-- What is owed task by task is owed in total. -/
theorem World.countP_log_le {w : World S σ} {p q : Event S → Bool} {n : Nat}
    (h : ∀ e ∈ w.log, e.tid < n) (hle : ∀ i, w.tally p i ≤ w.tally q i) :
    w.log.countP p ≤ w.log.countP q := by
  rw [World.countP_log_eq_sum p h, World.countP_log_eq_sum q h]
  exact Finset.sum_le_sum fun i _ => hle i

end Tally

/-- What an operation does: the environment's choice fixes the answer
and the next store, or the operation is not enabled. -/
structure Machine (S : Sig) (σ χ : Type) where
  exec : Nat → σ → (o : S.Op) → χ → Option (S.Ret o × σ)

/-- A shared store with the log of what was done to it, and the tasks that
were started, each with its request and what is left of its program. -/
structure Pool (S : Sig) (ρ ε α σ : Type) extends World S σ where
  tasks : List (ρ × Prog S ε α)

/-- A step of a pool: a request comes in, or task `i` does its next
operation, with `c` for what the environment decides. -/
inductive PoolAct (ρ χ : Type) where
  | start (q : ρ)
  | step (i : Nat) (c : χ)

namespace Pool

variable {S : Sig} {ρ ε α σ χ : Type}

/-- No task has been started, and nothing was done to the store. -/
def init (s : σ) : Pool S ρ ε α σ := ⟨⟨s, []⟩, []⟩

/-- One step. A request becomes a task with the program of its handler; a
step of a task executes one operation on the store and hands it the
answer. Tasks take turns at operations in any order. -/
def next (M : Machine S σ χ) (handler : ρ → Prog S ε α) (P : Pool S ρ ε α σ) :
    PoolAct ρ χ → Option (Pool S ρ ε α σ)
  | .start q => some ⟨P.toWorld, P.tasks ++ [(q, handler q)]⟩
  | .step i c =>
      match P.tasks[i]? with
      | some (q, .op o k) =>
          (M.exec i P.store o c).map fun rs =>
            ⟨P.toWorld.after i o rs.1 rs.2, P.tasks.set i (q, k rs.1)⟩
      | _ => none

variable {M : Machine S σ χ} {handler : ρ → Prog S ε α} {P P' : Pool S ρ ε α σ}

/-- Everything a pool step can do. -/
theorem next_cases {a : PoolAct ρ χ} (h : next M handler P a = some P') :
    (∃ q, a = .start q ∧ P' = ⟨P.toWorld, P.tasks ++ [(q, handler q)]⟩) ∨
    (∃ i c q o k r s, a = .step i c ∧ P.tasks[i]? = some (q, .op o k)
      ∧ M.exec i P.store o c = some (r, s)
      ∧ P' = ⟨P.toWorld.after i o r s, P.tasks.set i (q, k r)⟩) := by
  cases a with
  | start q => exact Or.inl ⟨q, rfl, (Option.some.inj h).symm⟩
  | step i c =>
      simp only [next] at h
      split at h
      · rename_i q o k htask
        obtain ⟨⟨r, s⟩, hexec, rfl⟩ := Option.map_eq_some_iff.mp h
        exact Or.inr ⟨i, c, q, o, k, r, s, rfl, htask, hexec, rfl⟩
      · cases h

/-- The tasks after one of them moved: itself with the continuation, or
one of the others as it was. -/
theorem getElem?_set_cases {tasks : List (ρ × Prog S ε α)} {i j : Nat}
    {x y : ρ × Prog S ε α} (h : (tasks.set i x)[j]? = some y) :
    (j = i ∧ y = x) ∨ (j ≠ i ∧ tasks[j]? = some y) := by
  rw [List.getElem?_set] at h
  split at h
  · rename_i hij
    split at h
    · exact Or.inl ⟨hij.symm, (Option.some.inj h).symm⟩
    · cases h
  · rename_i hij
    exact Or.inr ⟨fun hji => hij hji.symm, h⟩

theorem getElem?_append_cases {tasks : List (ρ × Prog S ε α)} {j : Nat}
    {x y : ρ × Prog S ε α} (h : (tasks ++ [x])[j]? = some y) :
    (j = tasks.length ∧ y = x) ∨ tasks[j]? = some y := by
  rcases Nat.lt_or_ge j tasks.length with hj | hj
  · rw [List.getElem?_append_left hj] at h
    exact Or.inr h
  · rw [List.getElem?_append_right hj] at h
    have hj0 : j - tasks.length = 0 := by
      by_contra hne
      rw [List.getElem?_singleton, if_neg hne] at h
      cases h
    rw [hj0] at h
    exact Or.inl ⟨by omega, (Option.some.inj h).symm⟩

/-! ## Invariants task by task -/

/-- An invariant `G` of the world and one `T` of each task: `T` holds of a
task that starts, its own steps keep both, and the others' steps keep it. -/
theorem tasks_inv_run {G : World S σ → Prop}
    {T : Nat → World S σ → ρ → Prog S ε α → Prop}
    (hstart : ∀ q i w, G w → (∀ e ∈ w.log, e.tid < i) → T i w q (handler q))
    (hown : ∀ i w q o k c r s, G w → T i w q (.op o k) → M.exec i w.store o c = some (r, s) →
      G (w.after i o r s) ∧ T i (w.after i o r s) q (k r))
    (hother : ∀ i j w q p o r s, j ≠ i → T i w q p → T i (w.after j o r s) q p)
    {s : σ} (hinit : G ⟨s, []⟩) {as : List (PoolAct ρ χ)}
    (hrun : Steps.run (next M handler) (init s) as = some P) :
    G P.toWorld ∧ (∀ e ∈ P.log, e.tid < P.tasks.length)
      ∧ ∀ (i : Nat) q p, P.tasks[i]? = some (q, p) → T i P.toWorld q p := by
  refine Steps.run_inv (I := fun P : Pool S ρ ε α σ => G P.toWorld
    ∧ (∀ e ∈ P.log, e.tid < P.tasks.length)
    ∧ ∀ (i : Nat) q p, P.tasks[i]? = some (q, p) → T i P.toWorld q p) ?_ ?_ hrun
  · rintro P a P' ⟨hG, htids, hT⟩ h
    rcases next_cases h with ⟨q, rfl, rfl⟩ | ⟨i, c, q, o, k, r, s, rfl, htask, hexec, rfl⟩
    · refine ⟨hG, fun e he => ?_, fun j q' p hj => ?_⟩
      · have := htids e he
        simp only [List.length_append, List.length_singleton]
        omega
      · rcases getElem?_append_cases hj with ⟨rfl, heq⟩ | hj
        · obtain ⟨rfl, rfl⟩ := Prod.mk.injEq .. |>.mp heq
          exact hstart _ _ _ hG htids
        · exact hT j q' p hj
    · have hi : i < P.tasks.length := (List.getElem?_eq_some_iff.mp htask).1
      obtain ⟨hG', hT'⟩ := hown i P.toWorld q o k c r s hG (hT i q _ htask) hexec
      refine ⟨hG', fun e he => ?_, fun j q' p hj => ?_⟩
      · simp only [List.length_set]
        rcases List.mem_append.mp he with he | he
        · exact htids e he
        · rw [List.mem_singleton.mp he]
          exact hi
      · rcases getElem?_set_cases hj with ⟨rfl, heq⟩ | ⟨hne, hj⟩
        · obtain ⟨rfl, rfl⟩ := Prod.mk.injEq .. |>.mp heq
          exact hT'
        · exact hother j i P.toWorld q' p o r s (Ne.symm hne) (hT j q' p hj)
  · exact ⟨hinit, fun _ he => (List.not_mem_nil he).elim, fun i q p h => by simp [init] at h⟩

/-! ## Who did what -/

/-- Every operation in the log is one its task's request may issue. -/
def Obeys (Q : ρ → S.Op → Prop) (P : Pool S ρ ε α σ) : Prop :=
  (∀ (i : Nat) q (p : Prog S ε α), P.tasks[i]? = some (q, p) → p.Each (Q q))
    ∧ ∀ e ∈ P.log, ∃ q p, P.tasks[e.tid]? = some (q, p) ∧ Q q e.op

theorem obeys_next {Q : ρ → S.Op → Prop} (hQ : ∀ q, (handler q).Each (Q q))
    (P : Pool S ρ ε α σ) (a : PoolAct ρ χ) (P' : Pool S ρ ε α σ) (hP : Obeys Q P)
    (h : next M handler P a = some P') : Obeys Q P' := by
  rcases next_cases h with ⟨q, rfl, rfl⟩ | ⟨i, c, q, o, k, r, s, rfl, htask, hexec, rfl⟩
  · refine ⟨fun j q' p hj => ?_, fun e he => ?_⟩
    · rcases getElem?_append_cases hj with ⟨-, heq⟩ | hj
      · obtain ⟨rfl, rfl⟩ := Prod.mk.injEq .. |>.mp heq
        exact hQ _
      · exact hP.1 j q' p hj
    · obtain ⟨q', p, hp, hq⟩ := hP.2 e he
      exact ⟨q', p, List.getElem?_append_left (List.getElem?_eq_some_iff.mp hp).1 ▸ hp, hq⟩
  · have hi : i < P.tasks.length := (List.getElem?_eq_some_iff.mp htask).1
    have hself : (P.tasks.set i (q, k r))[i]? = some (q, k r) :=
      List.getElem?_set_self hi
    refine ⟨fun j q' p hj => ?_, fun e he => ?_⟩
    · rcases getElem?_set_cases hj with ⟨rfl, heq⟩ | ⟨-, hj⟩
      · obtain ⟨rfl, rfl⟩ := Prod.mk.injEq .. |>.mp heq
        exact (hP.1 _ _ _ htask).2 r
      · exact hP.1 j q' p hj
    · rcases List.mem_append.mp he with he | he
      · obtain ⟨q', p, hp, hq⟩ := hP.2 e he
        by_cases hei : e.tid = i
        · rw [hei] at hp ⊢
          obtain ⟨rfl, -⟩ := Prod.mk.injEq .. |>.mp (Option.some.inj (hp.symm.trans htask))
          exact ⟨q', _, hself, hq⟩
        · exact ⟨q', p, (List.getElem?_set_ne (Ne.symm hei)).trans hp, hq⟩
      · rw [List.mem_singleton.mp he]
        exact ⟨q, _, hself, (hP.1 _ _ _ htask).1⟩

theorem obeys_run {Q : ρ → S.Op → Prop} (hQ : ∀ q, (handler q).Each (Q q)) {s : σ}
    {as : List (PoolAct ρ χ)} {P : Pool S ρ ε α σ}
    (hrun : Steps.run (next M handler) (init s) as = some P) : Obeys Q P :=
  Steps.run_inv (obeys_next hQ) ⟨fun _ _ _ h => by simp [init] at h,
    fun _ he => (List.not_mem_nil he).elim⟩ hrun

/-- The tasks that satisfy `p`, counted by their numbers. -/
theorem countP_tasks_eq_sum {τ : Type} (p : τ → Bool) (tasks : List τ) :
    tasks.countP p
      = ∑ i ∈ Finset.range tasks.length, if (tasks[i]?.map p).getD false then 1 else 0 := by
  induction tasks with
  | nil => rfl
  | cons t tasks ih =>
      rw [List.length_cons, Finset.sum_range_succ', List.countP_cons, ih]
      simp

end Pool

/-! ## Rely and guarantee -/

/-- The shared invariant, and for each task the changes it tolerates
from the others. -/
structure Contract (S : Sig) (σ : Type) where
  inv : World S σ → Prop
  rely : Nat → World S σ → World S σ → Prop
  refl : ∀ i w, rely i w w
  trans : ∀ i w₁ w₂ w₃, rely i w₁ w₂ → rely i w₂ w₃ → rely i w₁ w₃

/-- The contract of tasks that share an invariant and otherwise rely on
nothing but their own entries in the log. -/
def Contract.logged {S : Sig} {σ : Type} (inv : World S σ → Prop) : Contract S σ where
  inv := inv
  rely i w w' := ∀ p, w'.tally p i = w.tally p i
  refl _ _ _ := rfl
  trans _ _ _ _ h h' p := (h' p).trans (h p)

theorem Contract.logged_rely_after {S : Sig} {σ : Type} (inv : World S σ → Prop)
    (w : World S σ) {i j : Nat} (h : j ≠ i) (o : S.Op) (r : S.Ret o) (s : σ) :
    (Contract.logged inv).rely j w (w.after i o r s) :=
  fun p => w.tally_after_of_ne p h.symm o r s

section Rely

variable {S : Sig} {ρ ε α β σ χ : Type}

/-- What is left of task `i` keeps to the contract from `w` on, when an
operation `o` executed in `w` may be answered `r` and leave `s` exactly
if `E i w o r s`. -/
def Safe (C : Contract S σ) (E : Nat → World S σ → (o : S.Op) → S.Ret o → σ → Prop)
    (i : Nat) (post : Except ε α → World S σ → Prop) :
    Prog S ε α → World S σ → Prop
  | .ret a, w => ∀ w', C.rely i w w' → C.inv w' → post (.ok a) w'
  | .fail e, w => ∀ w', C.rely i w w' → C.inv w' → post (.error e) w'
  | .op o k, w => ∀ w₁, C.rely i w w₁ → C.inv w₁ → ∀ r s, E i w₁ o r s →
      C.inv (w₁.after i o r s)
        ∧ (∀ j, j ≠ i → C.rely j w₁ (w₁.after i o r s))
        ∧ Safe C E i post (k r) (w₁.after i o r s)

variable {C : Contract S σ} {E : Nat → World S σ → (o : S.Op) → S.Ret o → σ → Prop}
  {i : Nat}

/-- What the others do within the rely does not hurt. -/
theorem Safe.stable {post : Except ε α → World S σ → Prop} {p : Prog S ε α}
    {w w' : World S σ} (h : Safe C E i post p w) (hr : C.rely i w w') :
    Safe C E i post p w' := by
  cases p with
  | ret a => exact fun w'' hr' hinv => h w'' (C.trans i _ _ _ hr hr') hinv
  | fail e => exact fun w'' hr' hinv => h w'' (C.trans i _ _ _ hr hr') hinv
  | op o k => exact fun w₁ hr' hinv => h w₁ (C.trans i _ _ _ hr hr') hinv

theorem Safe.mono {post post' : Except ε α → World S σ → Prop}
    (hpost : ∀ x w, C.inv w → post x w → post' x w) :
    ∀ {p : Prog S ε α} {w : World S σ},
      Safe C E i post p w → Safe C E i post' p w
  | .ret _, _, h => fun w' hr hinv => hpost _ w' hinv (h w' hr hinv)
  | .fail _, _, h => fun w' hr hinv => hpost _ w' hinv (h w' hr hinv)
  | .op _ _, _, h => fun w₁ hr hinv r s hE =>
      ⟨(h w₁ hr hinv r s hE).1, (h w₁ hr hinv r s hE).2.1,
        Safe.mono hpost (h w₁ hr hinv r s hE).2.2⟩

/-- The rule for one operation of tasks that rely on their own log only. -/
theorem Safe.op_logged {inv : World S σ → Prop} {post : Except ε α → World S σ → Prop}
    {o : S.Op} {k : S.Ret o → Prog S ε α} {w : World S σ}
    (h : ∀ w₁, (Contract.logged inv).rely i w w₁ → inv w₁ → ∀ r s, E i w₁ o r s →
      inv (w₁.after i o r s) ∧ Safe (.logged inv) E i post (k r) (w₁.after i o r s)) :
    Safe (.logged inv) E i post (.op o k) w := fun w₁ hr hinv r s hE =>
  ⟨(h w₁ hr hinv r s hE).1, fun _ hj => Contract.logged_rely_after inv w₁ hj o r s,
    (h w₁ hr hinv r s hE).2⟩

/-- The rule for a sequence: the first half ends in a state the second
half is safe in, and its errors already meet the postcondition. -/
theorem Safe.bind {post : Except ε β → World S σ → Prop} {f : α → Prog S ε β} :
    ∀ {p : Prog S ε α} {w : World S σ},
      Safe C E i (fun x w' => match x with
        | .ok a => Safe C E i post (f a) w'
        | .error e => post (.error e) w') p w →
      C.inv w → Safe C E i post (p.bind f) w
  | .ret a, w, h, hinv => h w (C.refl i w) hinv
  | .fail e, w, h, _ => h
  | .op o k, w, h, _ => fun w₁ hr hinv r s hE => by
      obtain ⟨hinv', hrely, hsafe⟩ := h w₁ hr hinv r s hE
      exact ⟨hinv', hrely, hsafe.bind hinv'⟩

/-- The rule for a call whose error is handled: it has no error of its own. -/
theorem Safe.attempt {ε' : Type} {post : Except ε' (Except ε α) → World S σ → Prop} :
    ∀ {p : Prog S ε α} {w : World S σ},
      Safe C E i (fun x w' => post (.ok x) w') p w → Safe C E i post p.attempt w
  | .ret _, _, h => h
  | .fail _, _, h => h
  | .op _ _, _, h => fun w₁ hr hinv r s hE => by
      obtain ⟨hinv', hrely, hsafe⟩ := h w₁ hr hinv r s hE
      exact ⟨hinv', hrely, hsafe.attempt⟩

/-- The rule for a dropped guard: the body may end anywhere the closing
operation is allowed. -/
theorem Safe.ensuring {post : Except ε α → World S σ → Prop} {o : S.Op} :
    ∀ {p : Prog S ε α} {w : World S σ},
      Safe C E i (fun x w' => ∀ r s, E i w' o r s →
        C.inv (w'.after i o r s) ∧ (∀ j, j ≠ i → C.rely j w' (w'.after i o r s))
          ∧ ∀ w'', C.rely i (w'.after i o r s) w'' → C.inv w'' → post x w'') p w →
      Safe C E i post (p.ensuring o) w
  | .ret a, w, h => fun w₁ hr hinv r s hE => h w₁ hr hinv r s hE
  | .fail e, w, h => fun w₁ hr hinv r s hE => h w₁ hr hinv r s hE
  | .op o' k, w, h => fun w₁ hr hinv r s hE => by
      obtain ⟨hinv', hrely, hsafe⟩ := h w₁ hr hinv r s hE
      exact ⟨hinv', hrely, hsafe.ensuring⟩

namespace Pool

variable {post : ρ → Nat → Except ε α → World S σ → Prop}

/-- The pool invariant: the contract's, logged operations belong to
started tasks, and every task is safe where it stands. -/
def Good (C : Contract S σ)
    (E : Nat → World S σ → (o : S.Op) → S.Ret o → σ → Prop)
    (post : ρ → Nat → Except ε α → World S σ → Prop) (P : Pool S ρ ε α σ) : Prop :=
  C.inv P.toWorld ∧ (∀ e ∈ P.log, e.tid < P.tasks.length)
    ∧ ∀ i q p, P.tasks[i]? = some (q, p) → Safe C E i (post q i) p P.toWorld

/-- A label is taken with an execution `E` allows. -/
def Allowed (M : Machine S σ χ)
    (E : Nat → World S σ → (o : S.Op) → S.Ret o → σ → Prop)
    (P : Pool S ρ ε α σ) : PoolAct ρ χ → Prop
  | .start _ => True
  | .step i c => ∀ q o k r s, P.tasks[i]? = some (q, .op o k) →
      M.exec i P.store o c = some (r, s) → E i P.toWorld o r s

theorem good_next {M : Machine S σ χ} {handler : ρ → Prog S ε α}
    (hstart : ∀ q i w, C.inv w → (∀ e ∈ w.log, e.tid < i) →
      Safe C E i (post q i) (handler q) w)
    (P : Pool S ρ ε α σ) (a : PoolAct ρ χ) (P' : Pool S ρ ε α σ)
    (hP : Good C E post P) (hal : Allowed M E P a)
    (h : next M handler P a = some P') : Good C E post P' := by
  obtain ⟨hinv, hlog, htasks⟩ := hP
  rcases next_cases h with ⟨q, rfl, rfl⟩ | ⟨i, c, q, o, k, r, s, rfl, htask, hexec, rfl⟩
  · refine ⟨hinv, fun e he => ?_, fun j q' p hj => ?_⟩
    · have := hlog e he
      simp only [List.length_append, List.length_singleton]
      omega
    · rcases getElem?_append_cases hj with ⟨rfl, heq⟩ | hj
      · obtain ⟨rfl, rfl⟩ := Prod.mk.injEq .. |>.mp heq
        exact hstart _ _ _ hinv hlog
      · exact htasks j q' p hj
  · obtain ⟨hinv', hrely, hsafe⟩ :=
      htasks i q _ htask P.toWorld (C.refl i _) hinv r s (hal q o k r s htask hexec)
    have hi : i < P.tasks.length := (List.getElem?_eq_some_iff.mp htask).1
    refine ⟨hinv', fun e he => ?_, fun j q' p hj => ?_⟩
    · simp only [List.length_set]
      rcases List.mem_append.mp he with he | he
      · exact hlog e he
      · rw [List.mem_singleton.mp he]
        exact hi
    · rcases getElem?_set_cases hj with ⟨rfl, heq⟩ | ⟨hne, hj⟩
      · obtain ⟨rfl, rfl⟩ := Prod.mk.injEq .. |>.mp heq
        exact hsafe
      · exact (htasks j q' p hj).stable (hrely j hne)

/-- **Soundness of rely-guarantee.** If every handler is safe when its
request starts, every run whose steps `E` allows keeps the contract. -/
theorem good_run {M : Machine S σ χ} {handler : ρ → Prog S ε α}
    (hstart : ∀ q i w, C.inv w → (∀ e ∈ w.log, e.tid < i) →
      Safe C E i (post q i) (handler q) w)
    {s : σ} (hinit : C.inv ⟨s, []⟩) {as : List (PoolAct ρ χ)}
    {P : Pool S ρ ε α σ}
    (hal : Steps.Along (next M handler) (Allowed M E) (init s) as)
    (hrun : Steps.run (next M handler) (init s) as = some P) : Good C E post P := by
  have h0 : Good C E post (init s : Pool S ρ ε α σ) :=
    ⟨hinit, fun _ he => (List.not_mem_nil he).elim,
      fun i _ _ h => by simp [init] at h⟩
  exact Steps.run_inv_along (good_next hstart) h0 hal hrun

/-- A request that has ended meets its postcondition in every later state. -/
theorem Good.post_ok {P : Pool S ρ ε α σ} (h : Good C E post P) {i : Nat} {q : ρ}
    {a : α} (ht : P.tasks[i]? = some (q, .ret a)) : post q i (.ok a) P.toWorld :=
  h.2.2 i q _ ht P.toWorld (C.refl i _) h.1

theorem Good.post_error {P : Pool S ρ ε α σ} (h : Good C E post P) {i : Nat} {q : ρ}
    {e : ε} (ht : P.tasks[i]? = some (q, .fail e)) : post q i (.error e) P.toWorld :=
  h.2.2 i q _ ht P.toWorld (C.refl i _) h.1

end Pool

end Rely

end Stelyph
