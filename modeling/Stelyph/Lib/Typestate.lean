import Stelyph.Lib.Pool

/-!
# Typestates

What a request may do next often depends on what it has been answered so
far. A `Typestate` says it: which operations a state allows, and where
each answer leads. The state of a running task is then a function of the
log (`World.stage`), and a task that follows its typestate from the start
does so from where it stands (`followed_run`), in every interleaving.
-/

namespace Stelyph

structure Typestate (S : Sig) (Q : Type) where
  allowed : Q → S.Op → Prop
  next : Q → (o : S.Op) → S.Ret o → Q

/-! ## Programs -/

namespace Prog

variable {S : Sig} {ε ε' α β Q : Type} {A : Typestate S Q}

/-- From state `t` on, the program issues what is allowed, and ends in
`post` of the state it then is in. -/
def Follows (A : Typestate S Q) (post : Q → Except ε α → Prop) : Q → Prog S ε α → Prop
  | t, .ret a => post t (.ok a)
  | t, .fail e => post t (.error e)
  | t, .op o k => A.allowed t o ∧ ∀ r, (k r).Follows A post (A.next t o r)

theorem Follows.mono {post post' : Q → Except ε α → Prop} (h : ∀ t x, post t x → post' t x) :
    ∀ {p : Prog S ε α} {t : Q}, p.Follows A post t → p.Follows A post' t
  | .ret _, _, hp => h _ _ hp
  | .fail _, _, hp => h _ _ hp
  | .op _ _, _, hp => ⟨hp.1, fun r => (hp.2 r).mono h⟩

/-- The sequencing rule. -/
theorem Follows.bind {f : α → Prog S ε β} {post : Q → Except ε β → Prop} :
    ∀ {p : Prog S ε α} {t : Q}, p.Follows A (fun t x => match x with
        | .ok a => (f a).Follows A post t
        | .error e => post t (.error e)) t → (p.bind f).Follows A post t
  | .ret _, _, hp => hp
  | .fail _, _, hp => hp
  | .op _ _, _, hp => ⟨hp.1, fun r => (hp.2 r).bind⟩

theorem Follows.mapError {f : ε → ε'} {post : Q → Except ε' α → Prop} :
    ∀ {p : Prog S ε α} {t : Q}, p.Follows A (fun t x => post t (x.mapError f)) t →
      (p.mapError f).Follows A post t
  | .ret _, _, hp => hp
  | .fail _, _, hp => hp
  | .op _ _, _, hp => ⟨hp.1, fun r => (hp.2 r).mapError⟩

theorem Follows.attempt {post : Q → Except ε' (Except ε α) → Prop} :
    ∀ {p : Prog S ε α} {t : Q}, p.Follows A (fun t x => post t (.ok x)) t →
      p.attempt.Follows A post t
  | .ret _, _, hp => hp
  | .fail _, _, hp => hp
  | .op _ _, _, hp => ⟨hp.1, fun r => (hp.2 r).attempt⟩

theorem follows_ofExcept_bind {x : Except ε' α} {f : ε' → ε} {g : α → Prog S ε β}
    {post : Q → Except ε β → Prop} {t : Q} (herr : ∀ e, x = .error e → post t (.error (f e)))
    (hok : ∀ a, x = .ok a → (g a).Follows A post t) :
    ((ofExcept f x : Prog S ε α).bind g).Follows A post t := by
  cases x with
  | error e => exact herr e rfl
  | ok a => exact hok a rfl

theorem Follows.of_outcome {post : Q → Except ε α → Prop} {p : Prog S ε α} {t : Q}
    {x : Except ε α} (h : p.Follows A post t) (hx : p.outcome = some x) : post t x := by
  cases p with
  | ret a =>
      obtain rfl := Option.some.inj hx
      exact h
  | fail e =>
      obtain rfl := Option.some.inj hx
      exact h
  | op o k => cases hx

theorem follows_of_forall {post : Q → Except ε α → Prop} (hA : ∀ t o, A.allowed t o)
    (hpost : ∀ t x, post t x) : ∀ (p : Prog S ε α) (t : Q), p.Follows A post t
  | .ret _, _ => hpost _ _
  | .fail _, _ => hpost _ _
  | .op _ k, _ => ⟨hA _ _, fun r => follows_of_forall hA hpost (k r) _⟩

/-- What follows a typestate of its own operations follows one that says
the same of them among others. -/
theorem Follows.hoist {T : Sig} {B : Typestate T Q} {inj : S.Op → T.Op}
    {back : ∀ o, T.Ret (inj o) → S.Ret o} {f : ε → ε'}
    (hallowed : ∀ t o, A.allowed t o → B.allowed t (inj o))
    (hnext : ∀ t o r, B.next t (inj o) r = A.next t o (back o r))
    {post : Q → Except ε' α → Prop} :
    ∀ {p : Prog S ε α} {t : Q}, p.Follows A (fun t x => post t (x.mapError f)) t →
      (p.hoist inj back f).Follows B post t
  | .ret _, _, hp => hp
  | .fail _, _, hp => hp
  | .op o _, t, hp => ⟨hallowed t o hp.1, fun r =>
      (hnext t o r).symm ▸ (hp.2 (back o r)).hoist hallowed hnext⟩

/-- A program all of whose operations are allowed in `t` and lead back to it. -/
theorem Each.follows {post : Q → Except ε α → Prop} {t : Q} (hpost : ∀ x, post t x) :
    ∀ {p : Prog S ε α}, p.Each (fun o => A.allowed t o ∧ ∀ r, A.next t o r = t) →
      p.Follows A post t
  | .ret _, _ => hpost _
  | .fail _, _ => hpost _
  | .op _ _, hp => ⟨hp.1.1, fun r => (hp.1.2 r).symm ▸ (hp.2 r).follows hpost⟩

end Prog

/-- Anything may follow; what the answers say is kept, in order. -/
def Typestate.recording {S : Sig} {β : Type} (f : (o : S.Op) → S.Ret o → Option β) :
    Typestate S (List β) where
  allowed _ _ := True
  next t o r := t ++ (f o r).toList

/-- A program whose answers have nothing to keep. -/
theorem Prog.Each.recorded {S : Sig} {ε α β : Type} {f : (o : S.Op) → S.Ret o → Option β}
    {p : Prog S ε α} {t : List β} {post : List β → Except ε α → Prop} (hpost : ∀ x, post t x)
    (h : p.Each fun o => ∀ r, f o r = none) : p.Follows (.recording f) post t := by
  refine Prog.Each.follows hpost (h.mono fun o ho => ⟨trivial, fun r => ?_⟩)
  show t ++ (f o r).toList = t
  rw [ho r]
  exact List.append_nil t

/-! ## Tasks -/

section

variable {S : Sig} {ρ ε α σ χ Q : Type} {A : Typestate S Q}

/-- Where task `i` stands, if it began in `t`. -/
def World.stage (w : World S σ) (A : Typestate S Q) (t : Q) (i : Nat) : Q :=
  (w.log.filter fun e => e.tid == i).foldl (fun t e => A.next t e.op e.ans) t

@[simp] theorem World.stage_after_self (w : World S σ) (t : Q) (i : Nat) (o : S.Op) (r : S.Ret o)
    (s : σ) : (w.after i o r s).stage A t i = A.next (w.stage A t i) o r := by
  simp [World.stage, List.filter_append]

theorem World.stage_after_of_ne (w : World S σ) (t : Q) {i j : Nat} (h : i ≠ j) (o : S.Op)
    (r : S.Ret o) (s : σ) : (w.after i o r s).stage A t j = w.stage A t j := by
  simp [World.stage, List.filter_append, h]

theorem World.stage_fresh {w : World S σ} {i : Nat} (h : ∀ e ∈ w.log, e.tid < i) (t : Q) :
    w.stage A t i = t := by
  have hnil : (w.log.filter fun e => e.tid == i) = [] := by
    rw [List.filter_eq_nil_iff]
    intro e he
    have := h e he
    simp only [beq_iff_eq]
    omega
  rw [World.stage, hnil]
  rfl

/-- A recording is what the log says about the task. -/
theorem World.mem_recording {β : Type} {f : (o : S.Op) → S.Ret o → Option β} {w : World S σ}
    {i : Nat} {b : β} : b ∈ w.stage (.recording f) [] i ↔
      ∃ o r, (⟨i, o, r⟩ : Event S) ∈ w.log ∧ f o r = some b := by
  have hfold : ∀ (es : List (Event S)) (t : List β),
      es.foldl (fun t e => t ++ (f e.op e.ans).toList) t
        = t ++ es.flatMap fun e => (f e.op e.ans).toList := by
    intro es
    induction es with
    | nil => exact fun t => (List.append_nil t).symm
    | cons e es ih =>
        intro t
        rw [List.foldl_cons, ih, List.flatMap_cons, List.append_assoc]
  rw [World.stage]
  refine (iff_of_eq (congrArg (b ∈ ·) ((hfold _ _).trans (List.nil_append _)))).trans ?_
  rw [List.mem_flatMap]
  constructor
  · rintro ⟨⟨tid, o, r⟩, he, hb⟩
    obtain ⟨hlog, htid⟩ := List.mem_filter.mp he
    obtain rfl := beq_iff_eq.mp htid
    exact ⟨o, r, hlog, Option.mem_toList.mp hb⟩
  · rintro ⟨o, r, hlog, hb⟩
    exact ⟨⟨i, o, r⟩, List.mem_filter.mpr ⟨hlog, beq_self_eq_true _⟩, Option.mem_toList.mpr hb⟩

namespace Pool

variable {M : Machine S σ χ} {handler : ρ → Prog S ε α} {start : ρ → Q}
  {post : ρ → Q → Except ε α → Prop} {P P' : Pool S ρ ε α σ}

/-- Every task goes on as its typestate says. -/
structure Followed (A : Typestate S Q) (start : ρ → Q) (post : ρ → Q → Except ε α → Prop)
    (P : Pool S ρ ε α σ) : Prop where
  tids : ∀ e ∈ P.log, e.tid < P.tasks.length
  tasks : ∀ (i : Nat) q p, P.tasks[i]? = some (q, p) →
    p.Follows A (post q) (P.stage A (start q) i)

theorem followed_next (h : ∀ q, (handler q).Follows A (post q) (start q)) {a : PoolAct ρ χ}
    (hP : Followed A start post P) (hnext : next M handler P a = some P') :
    Followed A start post P' := by
  rcases next_cases hnext with ⟨q, rfl, rfl⟩ | ⟨i, c, q, o, k, r, s, rfl, htask, hexec, rfl⟩
  · refine ⟨fun e he => ?_, fun j q' p hj => ?_⟩
    · have := hP.tids e he
      simp only [List.length_append, List.length_singleton]
      omega
    · rcases getElem?_append_cases hj with ⟨rfl, heq⟩ | hj
      · obtain ⟨rfl, rfl⟩ := Prod.mk.injEq .. |>.mp heq
        rw [World.stage_fresh hP.tids]
        exact h q'
      · exact hP.tasks j q' p hj
  · have hi : i < P.tasks.length := (List.getElem?_eq_some_iff.mp htask).1
    refine ⟨fun e he => ?_, fun j q' p hj => ?_⟩
    · simp only [List.length_set]
      rcases List.mem_append.mp he with he | he
      · exact hP.tids e he
      · rw [List.mem_singleton.mp he]
        exact hi
    · rcases getElem?_set_cases hj with ⟨rfl, heq⟩ | ⟨hne, hj⟩
      · obtain ⟨rfl, rfl⟩ := Prod.mk.injEq .. |>.mp heq
        rw [World.stage_after_self]
        exact (hP.tasks _ _ _ htask).2 r
      · rw [P.stage_after_of_ne _ (Ne.symm hne)]
        exact hP.tasks j q' p hj

/-- **Tasks follow their typestates**, in every run. -/
theorem followed_run (h : ∀ q, (handler q).Follows A (post q) (start q)) {s : σ}
    {as : List (PoolAct ρ χ)} (hrun : Steps.run (next M handler) (init s) as = some P) :
    Followed A start post P :=
  Steps.run_inv (fun _ _ _ hP hnext => followed_next h hP hnext)
    ⟨fun _ he => (List.not_mem_nil he).elim, fun i q p hi => by simp [init] at hi⟩ hrun

/-- Where task `i` stands, if it has started. -/
def stageAt (A : Typestate S Q) (start : ρ → Q) (P : Pool S ρ ε α σ) (i : Nat) : Option Q :=
  P.tasks[i]?.map fun t => P.stage A (start t.1) i

theorem stageAt_of_task {i : Nat} {q : ρ} {p : Prog S ε α} (h : P.tasks[i]? = some (q, p)) :
    stageAt A start P i = some (P.stage A (start q) i) := by
  rw [stageAt, h]
  rfl

theorem stageAt_start (htids : ∀ e ∈ P.log, e.tid < P.tasks.length) (q : ρ) (p : Prog S ε α)
    (j : Nat) : stageAt A start (⟨P.toWorld, P.tasks ++ [(q, p)]⟩ : Pool S ρ ε α σ) j
      = if j = P.tasks.length then some (start q) else stageAt A start P j := by
  simp only [stageAt]
  split
  · rename_i hj
    subst hj
    rw [List.getElem?_append_right (Nat.le_refl _), Nat.sub_self]
    exact congrArg some (World.stage_fresh htids _)
  · rename_i hj
    rcases Nat.lt_or_ge j P.tasks.length with hlt | hge
    · rw [List.getElem?_append_left hlt]
    · rw [List.getElem?_eq_none (by simp; omega), List.getElem?_eq_none hge]

theorem stageAt_step {i : Nat} {q : ρ} {p p' : Prog S ε α} (htask : P.tasks[i]? = some (q, p))
    (o : S.Op) (r : S.Ret o) (s : σ) (j : Nat) :
    stageAt A start (⟨P.toWorld.after i o r s, P.tasks.set i (q, p')⟩ : Pool S ρ ε α σ) j
      = if j = i then some (A.next (P.stage A (start q) i) o r) else stageAt A start P j := by
  simp only [stageAt]
  split
  · rename_i hj
    subst hj
    rw [List.getElem?_set_self (List.getElem?_eq_some_iff.mp htask).1]
    exact congrArg some (P.stage_after_self _ _ _ _ _)
  · rename_i hj
    rw [List.getElem?_set_ne (Ne.symm hj)]
    cases P.tasks[j]? with
    | none => rfl
    | some t => exact congrArg some (P.stage_after_of_ne _ (Ne.symm hj) _ _ _)

end Pool

end

end Stelyph
