import Mathlib.Logic.Basic

/-!
# Programs over atomic operations

An asynchronous request handler, seen from the state it shares with
other handlers, is a tree: at each suspension point it issues one
operation and continues with the answer, and in between it computes. A
`Prog` is that tree. Its leaves are the handler's two ways to end, so an
early error return ends the whole computation the way the source's `?`
does, and `ensuring` is a guard dropped on every way out.

Nothing here says what an operation does: `Pool` gives the interleaved
meaning, `Prog.alone` the meaning of a handler that runs undisturbed.
-/

namespace Stelyph

/-- The atomic operations of a shared store, and what each one answers. -/
structure Sig where
  Op : Type
  Ret : Op → Type

inductive Prog (S : Sig) (ε α : Type) : Type where
  | ret (a : α)
  | fail (e : ε)
  | op (o : S.Op) (k : S.Ret o → Prog S ε α)

namespace Prog

variable {S : Sig} {ε α β γ : Type}

/-- One program after the other: the second goes on with what the first
returns, and is not begun where the first fails. -/
def bind : Prog S ε α → (α → Prog S ε β) → Prog S ε β
  | .ret a, f => f a
  | .fail e, _ => .fail e
  | .op o k, f => .op o fun r => (k r).bind f

instance : Monad (Prog S ε) where
  pure := .ret
  bind := .bind

/-- Issue one operation and hand its answer on. -/
def ask (o : S.Op) : Prog S ε (S.Ret o) := .op o .ret

/-- The source's `?` after a `map_err`. -/
def ofExcept {ε' : Type} (f : ε' → ε) : Except ε' α → Prog S ε α
  | .ok a => .ret a
  | .error e => .fail (f e)

/-- `p`, then `o` on every way out of `p`: a guard that drops. -/
def ensuring (o : S.Op) : Prog S ε α → Prog S ε α
  | .ret a => .op o fun _ => .ret a
  | .fail e => .op o fun _ => .fail e
  | .op o' k => .op o' fun r => (k r).ensuring o

/-- The outcome of `p` as a value: a call whose error its caller handles. -/
def attempt {ε' : Type} : Prog S ε α → Prog S ε' (Except ε α)
  | .ret a => .ret (.ok a)
  | .fail e => .ret (.error e)
  | .op o k => .op o fun r => (k r).attempt

/-- The same program where its operations are some among others, and its
errors are some among others. -/
def hoist {T : Sig} {ε' : Type} (inj : S.Op → T.Op) (back : ∀ o, T.Ret (inj o) → S.Ret o)
    (f : ε → ε') : Prog S ε α → Prog T ε' α
  | .ret a => .ret a
  | .fail e => .fail (f e)
  | .op o k => .op (inj o) fun r => (k (back o r)).hoist inj back f

/-- The source's `map_err` on a whole call. -/
def mapError {ε' : Type} (f : ε → ε') (p : Prog S ε α) : Prog S ε' α :=
  p.hoist id (fun _ r => r) f

/-- How a program that has ended ended; one that waits for an answer has no outcome. -/
def outcome : Prog S ε α → Option (Except ε α)
  | .ret a => some (.ok a)
  | .fail e => some (.error e)
  | .op _ _ => none

/-! ## The simp set: binds compute -/

@[simp] theorem pure_eq (a : α) : (pure a : Prog S ε α) = .ret a := rfl

@[simp] theorem bind_eq (p : Prog S ε α) (f : α → Prog S ε β) :
    (p >>= f) = p.bind f := rfl

@[simp] theorem ret_bind (a : α) (f : α → Prog S ε β) :
    (Prog.ret a : Prog S ε α).bind f = f a := rfl

@[simp] theorem fail_bind (e : ε) (f : α → Prog S ε β) :
    (Prog.fail e : Prog S ε α).bind f = .fail e := rfl

@[simp] theorem op_bind (o : S.Op) (k : S.Ret o → Prog S ε α)
    (f : α → Prog S ε β) :
    (Prog.op o k).bind f = .op o fun r => (k r).bind f := rfl

theorem bind_ite_fail (c : Prop) [Decidable c] (e : ε) (p : Prog S ε α) (f : α → Prog S ε β) :
    (if c then .fail e else p).bind f = if c then .fail e else p.bind f := by
  split <;> rfl

theorem bind_assoc (p : Prog S ε α) (f : α → Prog S ε β) (g : β → Prog S ε γ) :
    (p.bind f).bind g = p.bind fun a => (f a).bind g := by
  induction p with
  | ret a => rfl
  | fail e => rfl
  | op o k ih =>
      simp only [op_bind, ih]

@[simp] theorem ofExcept_ok {ε' : Type} (f : ε' → ε) (a : α) :
    (ofExcept f (.ok a) : Prog S ε α) = .ret a := rfl

@[simp] theorem ofExcept_error {ε' : Type} (f : ε' → ε) (e : ε') :
    (ofExcept f (.error e) : Prog S ε α) = .fail (f e) := rfl

/-- The same for the steps between two operations. -/
theorem except_bind_ok {x : Except ε α} {f : α → Except ε β} {b : β} (h : (x >>= f) = .ok b) :
    ∃ a, x = .ok a ∧ f a = .ok b := by
  cases x with
  | ok a => exact ⟨a, rfl, h⟩
  | error e => cases h

theorem except_mapError_ok {x : Except ε α} {f : ε → γ} {a : α} (h : x.mapError f = .ok a) :
    x = .ok a := by
  cases x with
  | ok b => exact congrArg _ (Except.ok.inj h)
  | error e => cases h

/-! ## Which operations a program can issue -/

/-- Every operation in the tree satisfies `P`, whatever was answered. -/
def Each (P : S.Op → Prop) : Prog S ε α → Prop
  | .ret _ => True
  | .fail _ => True
  | .op o k => P o ∧ ∀ r, (k r).Each P

theorem Each.ask {P : S.Op → Prop} {o : S.Op} (h : P o) :
    (Prog.ask o : Prog S ε (S.Ret o)).Each P := ⟨h, fun _ => trivial⟩

theorem Each.mono {P Q : S.Op → Prop} (h : ∀ o, P o → Q o) :
    ∀ {p : Prog S ε α}, p.Each P → p.Each Q
  | .ret _, _ => trivial
  | .fail _, _ => trivial
  | .op _ _, hp => ⟨h _ hp.1, fun r => (hp.2 r).mono h⟩

theorem Each.bind {P : S.Op → Prop} {f : α → Prog S ε β} :
    ∀ {p : Prog S ε α}, p.Each P → (∀ a, (f a).Each P) → (p.bind f).Each P
  | .ret a, _, hf => hf a
  | .fail _, _, _ => trivial
  | .op _ _, hp, hf => ⟨hp.1, fun r => (hp.2 r).bind hf⟩

theorem Each.hoist {T : Sig} {ε' : Type} {inj : S.Op → T.Op}
    {back : ∀ o, T.Ret (inj o) → S.Ret o} {f : ε → ε'} {P : T.Op → Prop} :
    ∀ {p : Prog S ε α}, p.Each (fun o => P (inj o)) → (p.hoist inj back f).Each P
  | .ret _, _ => trivial
  | .fail _, _ => trivial
  | .op _ _, hp => ⟨hp.1, fun r => (hp.2 (back _ r)).hoist⟩

theorem Each.attempt {P : S.Op → Prop} {ε' : Type} :
    ∀ {p : Prog S ε α}, p.Each P → (p.attempt : Prog S ε' (Except ε α)).Each P
  | .ret _, _ => trivial
  | .fail _, _ => trivial
  | .op _ _, hp => ⟨hp.1, fun r => (hp.2 r).attempt⟩

theorem each_of_forall {P : S.Op → Prop} (h : ∀ o, P o) : ∀ p : Prog S ε α, p.Each P
  | .ret _ => trivial
  | .fail _ => trivial
  | .op o k => ⟨h o, fun r => each_of_forall h (k r)⟩

theorem Each.mapError {P : S.Op → Prop} {ε' : Type} {f : ε → ε'} {p : Prog S ε α}
    (h : p.Each P) : (p.mapError f).Each P := h.hoist

@[simp] theorem each_ofExcept {ε' : Type} (P : S.Op → Prop) (f : ε' → ε)
    (x : Except ε' α) : (ofExcept f x : Prog S ε α).Each P := by
  cases x <;> trivial

theorem Each.ensuring {P : S.Op → Prop} {o : S.Op} (ho : P o) :
    ∀ {p : Prog S ε α}, p.Each P → (p.ensuring o).Each P
  | .ret _, _ => ⟨ho, fun _ => trivial⟩
  | .fail _, _ => ⟨ho, fun _ => trivial⟩
  | .op _ _, hp => ⟨hp.1, fun r => (hp.2 r).ensuring ho⟩

/-- Every error the program can end with satisfies `Q`. -/
def Fails (Q : ε → Prop) : Prog S ε α → Prop
  | .ret _ => True
  | .fail e => Q e
  | .op _ k => ∀ r, (k r).Fails Q

theorem Fails.bind {Q : ε → Prop} {f : α → Prog S ε β} :
    ∀ {p : Prog S ε α}, p.Fails Q → (∀ a, (f a).Fails Q) → (p.bind f).Fails Q
  | .ret a, _, hf => hf a
  | .fail _, hp, _ => hp
  | .op _ _, hp, hf => fun r => (hp r).bind hf

theorem fails_ask {Q : ε → Prop} (o : S.Op) :
    (Prog.ask o : Prog S ε (S.Ret o)).Fails Q := fun _ => trivial

theorem fails_ofExcept {ε' : Type} {Q : ε → Prop} {f : ε' → ε} (hf : ∀ e, Q (f e)) :
    ∀ x : Except ε' α, (ofExcept f x : Prog S ε α).Fails Q
  | .ok _ => trivial
  | .error e => hf e

theorem Fails.trivial : ∀ {p : Prog S ε α}, p.Fails fun _ => True
  | .ret _ => True.intro
  | .fail _ => True.intro
  | .op _ _ => fun _ => Fails.trivial

/-! ## What a program can do -/

/-- With some answers, the program executes an operation `P` holds of. -/
def Can (P : (o : S.Op) → S.Ret o → Prop) : Prog S ε α → Prop
  | .ret _ => False
  | .fail _ => False
  | .op o k => ∃ r, P o r ∨ (k r).Can P

/-- The program returns `a` in some run, with whatever answers it takes to get there. -/
def Returns (a : α) : Prog S ε α → Prop
  | .ret b => b = a
  | .fail _ => False
  | .op _ k => ∃ r, (k r).Returns a

@[simp] theorem can_ret (P : (o : S.Op) → S.Ret o → Prop) (a : α) :
    ¬ (Prog.ret a : Prog S ε α).Can P := id

@[simp] theorem can_fail (P : (o : S.Op) → S.Ret o → Prop) (e : ε) :
    ¬ (Prog.fail e : Prog S ε α).Can P := id

@[simp] theorem can_ofExcept {ε' : Type} (P : (o : S.Op) → S.Ret o → Prop) (f : ε' → ε)
    (x : Except ε' α) : ¬ (ofExcept f x : Prog S ε α).Can P := by
  cases x <;> exact id

@[simp] theorem returns_ofExcept {ε' : Type} (f : ε' → ε) (x : Except ε' α) (a : α) :
    (ofExcept f x : Prog S ε α).Returns a ↔ x = .ok a := by
  cases x with
  | ok b => simp [Returns]
  | error e => simp [Returns]

theorem returns_of_ensuring {o : S.Op} {a : α} :
    ∀ {p : Prog S ε α}, (p.ensuring o).Returns a → p.Returns a
  | .ret _, ⟨_, h⟩ => h
  | .fail _, ⟨_, h⟩ => h
  | .op _ _, ⟨r, h⟩ => ⟨r, returns_of_ensuring h⟩

theorem returns_bind {f : α → Prog S ε β} {p : Prog S ε α} {b : β} :
    (p.bind f).Returns b ↔ ∃ a, p.Returns a ∧ (f a).Returns b := by
  induction p with
  | ret a => simp [Returns]
  | fail e => simp [Returns]
  | op o k ih =>
      simp only [op_bind, Returns, ih]
      exact ⟨fun ⟨r, a, ha, hf⟩ => ⟨a, ⟨r, ha⟩, hf⟩, fun ⟨a, ⟨r, ha⟩, hf⟩ => ⟨r, a, ha, hf⟩⟩

theorem can_bind {P : (o : S.Op) → S.Ret o → Prop} {f : α → Prog S ε β} {p : Prog S ε α} :
    (p.bind f).Can P ↔ p.Can P ∨ ∃ a, p.Returns a ∧ (f a).Can P := by
  induction p with
  | ret a => simp [Returns]
  | fail e => simp [Returns]
  | op o k ih =>
      simp only [op_bind, Can, Returns, ih]
      constructor
      · rintro ⟨r, hP | hk | ⟨a, ha, hf⟩⟩
        · exact Or.inl ⟨r, Or.inl hP⟩
        · exact Or.inl ⟨r, Or.inr hk⟩
        · exact Or.inr ⟨a, ⟨r, ha⟩, hf⟩
      · rintro (⟨r, hP | hk⟩ | ⟨a, ⟨r, ha⟩, hf⟩)
        · exact ⟨r, Or.inl hP⟩
        · exact ⟨r, Or.inr (Or.inl hk)⟩
        · exact ⟨r, Or.inr (Or.inr ⟨a, ha, hf⟩)⟩

theorem can_ofExcept_bind {ε' : Type} {P : (o : S.Op) → S.Ret o → Prop} {g : ε' → ε}
    {x : Except ε' α} {f : α → Prog S ε β} :
    ((ofExcept g x : Prog S ε α).bind f).Can P ↔ ∃ a, x = .ok a ∧ (f a).Can P := by
  rw [can_bind]
  simp

/-! ## Whatever is answered -/

/-- However the program ends, it ends in `post`, if every answer is one
that `E` allows. -/
def Always (E : (o : S.Op) → S.Ret o → Prop) (post : Except ε α → Prop) : Prog S ε α → Prop
  | .ret a => post (.ok a)
  | .fail e => post (.error e)
  | .op o k => ∀ r, E o r → (k r).Always E post

section

variable {E : (o : S.Op) → S.Ret o → Prop}

theorem Always.mono {post post' : Except ε α → Prop} (hpost : ∀ x, post x → post' x) :
    ∀ {p : Prog S ε α}, p.Always E post → p.Always E post'
  | .ret _, h => hpost _ h
  | .fail _, h => hpost _ h
  | .op _ _, h => fun r hr => (h r hr).mono hpost

/-- The sequencing rule. -/
theorem Always.bind {f : α → Prog S ε β} {post : Except ε β → Prop} :
    ∀ {p : Prog S ε α}, p.Always E (fun x => match x with
        | .ok a => (f a).Always E post
        | .error e => post (.error e)) → (p.bind f).Always E post
  | .ret _, h => h
  | .fail _, h => h
  | .op _ _, h => fun r hr => (h r hr).bind

theorem Always.ensuring {o : S.Op} {post : Except ε α → Prop} :
    ∀ {p : Prog S ε α}, p.Always E post → (p.ensuring o).Always E post
  | .ret _, h => fun _ _ => h
  | .fail _, h => fun _ _ => h
  | .op _ _, h => fun r hr => (h r hr).ensuring

theorem Always.attempt {ε' : Type} {post : Except ε' (Except ε α) → Prop} :
    ∀ {p : Prog S ε α}, p.Always E (fun x => post (.ok x)) → p.attempt.Always E post
  | .ret _, h => h
  | .fail _, h => h
  | .op _ _, h => fun r hr => (h r hr).attempt

theorem Always.hoist {T : Sig} {ε' : Type} {F : (o : T.Op) → T.Ret o → Prop} {inj : S.Op → T.Op}
    {back : ∀ o, T.Ret (inj o) → S.Ret o} {f : ε → ε'} {post : Except ε' α → Prop}
    (h : ∀ o r, F (inj o) r → E o (back o r)) :
    ∀ {p : Prog S ε α}, p.Always E (fun x => post (x.mapError f)) →
      (p.hoist inj back f).Always F post
  | .ret _, hp => hp
  | .fail _, hp => hp
  | .op o _, hp => fun r hr => (hp (back o r) (h o r hr)).hoist h

theorem Always.mapError {ε' : Type} {f : ε → ε'} {post : Except ε' α → Prop} {p : Prog S ε α}
    (hp : p.Always E fun x => post (x.mapError f)) : (p.mapError f).Always E post :=
  hp.hoist fun _ _ hr => hr

theorem always_of_forall {post : Except ε α → Prop} (h : ∀ x, post x) :
    ∀ p : Prog S ε α, p.Always E post
  | .ret _ => h _
  | .fail _ => h _
  | .op _ k => fun r _ => always_of_forall h (k r)

theorem always_ofExcept {ε' : Type} {f : ε' → ε} {post : Except ε α → Prop} {x : Except ε' α}
    (h : post (x.mapError f)) : (ofExcept f x : Prog S ε α).Always E post := by
  cases x <;> exact h

end

theorem Always.of_returns {post : Except ε α → Prop} {a : α} :
    ∀ {p : Prog S ε α}, p.Always (fun _ _ => True) post → p.Returns a → post (.ok a)
  | .ret _, h, ha => (show _ = a from ha) ▸ h
  | .op _ _, h, ⟨r, ha⟩ => (h r trivial).of_returns ha

/-! ## Running undisturbed -/

/-- The result and final store of a program no other task interferes
with; `none` where an operation is not enabled. -/
def alone {σ : Type} (exec : σ → (o : S.Op) → Option (S.Ret o × σ)) :
    Prog S ε α → σ → Option (Except ε α × σ)
  | .ret a, s => some (.ok a, s)
  | .fail e, s => some (.error e, s)
  | .op o k, s => (exec s o).bind fun rs => (k rs.1).alone exec rs.2

section

variable {σ : Type} {exec : σ → (o : S.Op) → Option (S.Ret o × σ)}

@[simp] theorem alone_fail (e : ε) (s : σ) :
    (Prog.fail e : Prog S ε α).alone exec s = some (.error e, s) := rfl

/-- The sequencing rule: a bind runs its first half, and its second half
from where that ended, unless it ended with an error. -/
theorem alone_bind (p : Prog S ε α) (f : α → Prog S ε β) (s : σ) :
    (p.bind f).alone exec s =
      (p.alone exec s).bind fun rs =>
        match rs.1 with
        | .ok a => (f a).alone exec rs.2
        | .error e => some (.error e, rs.2) := by
  induction p generalizing s with
  | ret a => rfl
  | fail e => rfl
  | op o k ih =>
      simp only [op_bind, alone, Option.bind_assoc]
      congr 1
      funext rs
      exact ih rs.1 rs.2

theorem alone_bind_ok {p : Prog S ε α} {f : α → Prog S ε β} {s s' : σ} {a : α}
    (h : p.alone exec s = some (.ok a, s')) :
    (p.bind f).alone exec s = (f a).alone exec s' := by
  rw [alone_bind, h]; rfl

theorem alone_bind_error {p : Prog S ε α} {f : α → Prog S ε β} {s s' : σ} {e : ε}
    (h : p.alone exec s = some (.error e, s')) :
    (p.bind f).alone exec s = some (.error e, s') := by
  rw [alone_bind, h]; rfl

theorem alone_op {o : S.Op} {k : S.Ret o → Prog S ε α} {s s' : σ} {r : S.Ret o}
    (h : exec s o = some (r, s')) :
    (Prog.op o k).alone exec s = (k r).alone exec s' := by
  simp only [alone, h, Option.bind_some]

theorem alone_ensuring (o : S.Op) (p : Prog S ε α) (s : σ) :
    (p.ensuring o).alone exec s =
      (p.alone exec s).bind fun rs =>
        (exec rs.2 o).map fun rs' => (rs.1, rs'.2) := by
  induction p generalizing s with
  | ret a => cases h : exec s o <;> simp [ensuring, alone, h]
  | fail e => cases h : exec s o <;> simp [ensuring, alone, h]
  | op o' k ih =>
      simp only [ensuring, alone, Option.bind_assoc]
      congr 1
      funext rs
      exact ih rs.1 rs.2

theorem alone_attempt {ε' : Type} (p : Prog S ε α) (s : σ) :
    (p.attempt : Prog S ε' (Except ε α)).alone exec s =
      (p.alone exec s).map fun rs => (.ok rs.1, rs.2) := by
  induction p generalizing s with
  | ret a => rfl
  | fail e => rfl
  | op o k ih =>
      simp only [attempt, alone, Option.map_bind]
      congr 1
      funext rs
      exact ih rs.1 rs.2

theorem alone_mapError {ε' : Type} (f : ε → ε') (p : Prog S ε α) (s : σ) :
    (p.mapError f).alone exec s = (p.alone exec s).map fun rs => (rs.1.mapError f, rs.2) := by
  induction p generalizing s with
  | ret a => rfl
  | fail e => rfl
  | op o k ih =>
      simp only [mapError, hoist, alone, Option.map_bind, id_eq]
      congr 1
      funext rs
      exact ih rs.1 rs.2

/-! ## Total correctness of an undisturbed run -/

/-- Run alone from `s`, the program ends, and ends in `post`. -/
def Ends (exec : σ → (o : S.Op) → Option (S.Ret o × σ)) (p : Prog S ε α) (s : σ)
    (post : Except ε α → σ → Prop) : Prop :=
  ∃ x s', p.alone exec s = some (x, s') ∧ post x s'

theorem Ends.ret {a : α} {s : σ} {post : Except ε α → σ → Prop} (h : post (.ok a) s) :
    Ends exec (.ret a) s post := ⟨_, _, rfl, h⟩

theorem Ends.fail {e : ε} {s : σ} {post : Except ε α → σ → Prop} (h : post (.error e) s) :
    Ends exec (.fail e) s post := ⟨_, _, rfl, h⟩

theorem Ends.op {o : S.Op} {k : S.Ret o → Prog S ε α} {s s' : σ} {r : S.Ret o}
    {post : Except ε α → σ → Prop} (h : exec s o = some (r, s'))
    (hk : Ends exec (k r) s' post) : Ends exec (.op o k) s post := by
  obtain ⟨x, t, hrun, hpost⟩ := hk
  exact ⟨x, t, (alone_op h).trans hrun, hpost⟩

theorem Ends.mono {p : Prog S ε α} {s : σ} {post post' : Except ε α → σ → Prop}
    (h : Ends exec p s post) (hpost : ∀ x t, post x t → post' x t) : Ends exec p s post' := by
  obtain ⟨x, t, hrun, hx⟩ := h
  exact ⟨x, t, hrun, hpost x t hx⟩

/-- The sequencing rule. -/
theorem Ends.bind {p : Prog S ε α} {f : α → Prog S ε β} {s : σ}
    {mid : Except ε α → σ → Prop} {post : Except ε β → σ → Prop} (h : Ends exec p s mid)
    (hok : ∀ a t, mid (.ok a) t → Ends exec (f a) t post)
    (herr : ∀ e t, mid (.error e) t → post (.error e) t) : Ends exec (p.bind f) s post := by
  obtain ⟨x, t, hrun, hx⟩ := h
  cases x with
  | ok a =>
      obtain ⟨y, u, hrun', hy⟩ := hok a t hx
      exact ⟨y, u, (alone_bind_ok hrun).trans hrun', hy⟩
  | error e => exact ⟨_, t, alone_bind_error hrun, herr e t hx⟩

theorem Ends.ensuring {o : S.Op} {p : Prog S ε α} {s : σ} {mid post : Except ε α → σ → Prop}
    (h : Ends exec p s mid)
    (ho : ∀ x t, mid x t → ∃ r u, exec t o = some (r, u) ∧ post x u) :
    Ends exec (p.ensuring o) s post := by
  obtain ⟨x, t, hrun, hx⟩ := h
  obtain ⟨r, u, hexec, hpost⟩ := ho x t hx
  refine ⟨x, u, ?_, hpost⟩
  rw [alone_ensuring, hrun, Option.bind_some, hexec]
  rfl

end

/-! ## Running against chosen outcomes -/

section

variable {σ χ : Type}

/-- The result and final store of a program whose operations come out as
the list says, one entry for each. -/
def against (exec : σ → (o : S.Op) → χ → Option (S.Ret o × σ)) :
    Prog S ε α → σ → List χ → Option (Except ε α × σ)
  | .ret a, s, [] => some (.ok a, s)
  | .fail e, s, [] => some (.error e, s)
  | .op o k, s, c :: cs => (exec s o c).bind fun rs => (k rs.1).against exec rs.2 cs
  | _, _, _ => none

theorem against_bind_ok {exec : σ → (o : S.Op) → χ → Option (S.Ret o × σ)}
    {f : α → Prog S ε β} {a : α} {t : σ} {cs' : List χ} :
    ∀ {p : Prog S ε α} {s : σ} {cs : List χ}, p.against exec s cs = some (.ok a, t) →
      (p.bind f).against exec s (cs ++ cs') = (f a).against exec t cs'
  | .ret _, s, cs, h => by
      cases cs with
      | nil =>
          obtain ⟨heq, rfl⟩ := Prod.mk.injEq .. |>.mp (Option.some.inj h)
          obtain rfl := Except.ok.inj heq
          rfl
      | cons c cs => cases h
  | .fail _, s, cs, h => by
      cases cs with
      | nil => cases h
      | cons c cs => cases h
  | .op o k, s, cs, h => by
      cases cs with
      | nil => cases h
      | cons c cs =>
          obtain ⟨⟨r, u⟩, hexec, hrest⟩ := Option.bind_eq_some_iff.mp h
          simp only [op_bind, List.cons_append, against, hexec, Option.bind_some]
          exact against_bind_ok hrest

/-- An undisturbed run is a run against outcomes that are all the same. -/
theorem exists_against_of_alone {exec : σ → (o : S.Op) → χ → Option (S.Ret o × σ)} (c : χ) :
    ∀ {p : Prog S ε α} {s : σ} {x : Except ε α × σ},
      p.alone (fun s o => exec s o c) s = some x →
        ∃ cs, (∀ c' ∈ cs, c' = c) ∧ p.against exec s cs = some x
  | .ret _, _, _, h => ⟨[], List.forall_mem_nil _, h⟩
  | .fail _, _, _, h => ⟨[], List.forall_mem_nil _, h⟩
  | .op o k, s, x, h => by
      obtain ⟨⟨r, t⟩, hexec, hrest⟩ := Option.bind_eq_some_iff.mp h
      obtain ⟨cs, hall, hcs⟩ := exists_against_of_alone c hrest
      refine ⟨c :: cs, ?_, Option.bind_eq_some_iff.mpr ⟨(r, t), hexec, hcs⟩⟩
      intro c' hc'
      rcases List.mem_cons.mp hc' with rfl | hc'
      · rfl
      · exact hall c' hc'

theorem alone_of_against {exec : σ → (o : S.Op) → χ → Option (S.Ret o × σ)} {c : χ} :
    ∀ {p : Prog S ε α} {s : σ} {cs : List χ} {x : Except ε α × σ}, (∀ c' ∈ cs, c' = c) →
      p.against exec s cs = some x → p.alone (fun s o => exec s o c) s = some x
  | .ret _, s, cs, x, _, h => by
      cases cs with
      | nil => exact h
      | cons c cs => cases h
  | .fail _, s, cs, x, _, h => by
      cases cs with
      | nil => exact h
      | cons c cs => cases h
  | .op o k, s, cs, x, hall, h => by
      cases cs with
      | nil => cases h
      | cons c' cs =>
          obtain rfl := hall c' List.mem_cons_self
          obtain ⟨⟨r, t⟩, hexec, hrest⟩ := Option.bind_eq_some_iff.mp h
          exact Option.bind_eq_some_iff.mpr ⟨(r, t), hexec,
            alone_of_against (fun c'' hc => hall c'' (List.mem_cons_of_mem _ hc)) hrest⟩

/-- However its operations come out, if the program ends it ends in
`post`. -/
def Yields (exec : σ → (o : S.Op) → χ → Option (S.Ret o × σ)) :
    Prog S ε α → σ → (Except ε α → σ → Prop) → Prop
  | .ret a, s, post => post (.ok a) s
  | .fail e, s, post => post (.error e) s
  | .op o k, s, post => ∀ c r t, exec s o c = some (r, t) → (k r).Yields exec t post

variable {exec : σ → (o : S.Op) → χ → Option (S.Ret o × σ)}

theorem Yields.of_against {post : Except ε α → σ → Prop} :
    ∀ {p : Prog S ε α} {s : σ} {cs : List χ} {x : Except ε α} {t : σ},
      p.Yields exec s post → p.against exec s cs = some (x, t) → post x t
  | .ret a, s, cs, x, t, hp, h => by
      cases cs with
      | nil =>
          obtain ⟨rfl, rfl⟩ := Prod.mk.injEq .. |>.mp (Option.some.inj h)
          exact hp
      | cons c cs => cases h
  | .fail e, s, cs, x, t, hp, h => by
      cases cs with
      | nil =>
          obtain ⟨rfl, rfl⟩ := Prod.mk.injEq .. |>.mp (Option.some.inj h)
          exact hp
      | cons c cs => cases h
  | .op o k, s, cs, x, t, hp, h => by
      cases cs with
      | nil => cases h
      | cons c cs =>
          obtain ⟨⟨r, u⟩, hexec, hrest⟩ := Option.bind_eq_some_iff.mp h
          exact (hp c r u hexec).of_against hrest

theorem Yields.mono {post post' : Except ε α → σ → Prop} (hpost : ∀ x t, post x t → post' x t) :
    ∀ {p : Prog S ε α} {s : σ}, p.Yields exec s post → p.Yields exec s post'
  | .ret _, _, h => hpost _ _ h
  | .fail _, _, h => hpost _ _ h
  | .op _ _, _, h => fun c r t hexec => (h c r t hexec).mono hpost

theorem Yields.and {post post' : Except ε α → σ → Prop} :
    ∀ {p : Prog S ε α} {s : σ}, p.Yields exec s post → p.Yields exec s post' →
      p.Yields exec s fun x t => post x t ∧ post' x t
  | .ret _, _, h, h' => ⟨h, h'⟩
  | .fail _, _, h, h' => ⟨h, h'⟩
  | .op _ _, _, h, h' => fun c r t hexec => (h c r t hexec).and (h' c r t hexec)

/-- What the program answers is among what it can return. -/
theorem yields_returns : ∀ {p : Prog S ε α} {s : σ},
    p.Yields exec s fun x _ => ∀ a, x = .ok a → p.Returns a
  | .ret _, _ => fun _ ha => Except.ok.inj ha
  | .fail _, _ => fun _ ha => nomatch ha
  | .op _ _, _ => fun _ r _ _ => yields_returns.mono fun _ _ h a ha => ⟨r, h a ha⟩

/-- The sequencing rule. -/
theorem Yields.bind {f : α → Prog S ε β} {mid : Except ε α → σ → Prop}
    {post : Except ε β → σ → Prop} (hok : ∀ a t, mid (.ok a) t → (f a).Yields exec t post)
    (herr : ∀ e t, mid (.error e) t → post (.error e) t) :
    ∀ {p : Prog S ε α} {s : σ}, p.Yields exec s mid → (p.bind f).Yields exec s post
  | .ret a, s, h => hok a s h
  | .fail e, s, h => herr e s h
  | .op _ _, _, h => fun c r t hexec => (h c r t hexec).bind hok herr

theorem Yields.ensuring {o : S.Op} {mid post : Except ε α → σ → Prop}
    (ho : ∀ x t c r u, mid x t → exec t o c = some (r, u) → post x u) :
    ∀ {p : Prog S ε α} {s : σ}, p.Yields exec s mid → (p.ensuring o).Yields exec s post
  | .ret _, s, h => fun c r u hexec => ho _ s c r u h hexec
  | .fail _, s, h => fun c r u hexec => ho _ s c r u h hexec
  | .op _ _, _, h => fun c r t hexec => (h c r t hexec).ensuring ho

/-- The sequencing rule, where only answers matter. -/
theorem Yields.bind_ok {f : α → Prog S ε β} {mid : α → σ → Prop} {post : β → σ → Prop}
    {p : Prog S ε α} {s : σ} (hp : p.Yields exec s fun x t => ∀ a, x = .ok a → mid a t)
    (hok : ∀ a t, mid a t → (f a).Yields exec t fun x u => ∀ b, x = .ok b → post b u) :
    (p.bind f).Yields exec s fun x u => ∀ b, x = .ok b → post b u :=
  Yields.bind (fun a t h => hok a t (h a rfl)) (fun _ _ _ _ hb => nomatch hb) hp

/-- A relation that every operation of the program keeps, and that
composes, holds between the ends. -/
theorem Each.yields {P : S.Op → Prop} {R : σ → σ → Prop} (hrefl : ∀ s, R s s)
    (htrans : ∀ s t u, R s t → R t u → R s u)
    (hexec : ∀ s o c r t, P o → exec s o c = some (r, t) → R s t) :
    ∀ {p : Prog S ε α} {s : σ}, p.Each P → p.Yields exec s fun _ t => R s t
  | .ret _, s, _ => hrefl s
  | .fail _, s, _ => hrefl s
  | .op o _, s, hp => fun c r t h =>
      ((hp.2 r).yields hrefl htrans hexec).mono fun _ u hu =>
        htrans s t u (hexec s o c r t hp.1 h) hu

end

end Prog

end Stelyph
