import Stelyph.Lib.Pool

/-!
# Calls that are programs themselves

A handler is written against calls; below, each call is a program of its
own over finer operations. `Prog.expand` puts those programs in the
calls' places. What holds of every call and of every program in its place
holds of the whole (`Each.expand`), and a handler with harmless calls
only is safe and ends as it would end at the upper level
(`Safe.expand`).
-/

namespace Stelyph

namespace Prog

variable {S T : Sig} {ε ε' α β : Type}

/-- A program over a higher interface as one over a lower: each call
replaced by the program that answers it. -/
def expand (impl : (o : S.Op) → Prog T ε (S.Ret o)) : Prog S ε α → Prog T ε α
  | .ret a => .ret a
  | .fail e => .fail e
  | .op o k => (impl o).bind fun r => (k r).expand impl

variable {impl : (o : S.Op) → Prog T ε (S.Ret o)}

theorem expand_bind (p : Prog S ε α) (f : α → Prog S ε β) :
    (p.bind f).expand impl = (p.expand impl).bind fun a => (f a).expand impl := by
  induction p with
  | ret a => rfl
  | fail e => rfl
  | op o k ih =>
      rw [op_bind, expand, expand, bind_assoc]
      exact congrArg _ (funext ih)

@[simp] theorem expand_ofExcept (f : ε' → ε) (x : Except ε' α) :
    (ofExcept f x : Prog S ε α).expand impl = ofExcept f x := by
  cases x <;> rfl

theorem Each.expand {P : S.Op → Prop} {Q : T.Op → Prop} (himpl : ∀ o, P o → (impl o).Each Q) :
    ∀ {p : Prog S ε α}, p.Each P → (p.expand impl).Each Q
  | .ret _, _ => trivial
  | .fail _, _ => trivial
  | .op _ _, hp => (himpl _ hp.1).bind fun r => Each.expand himpl (hp.2 r)

/-- The sequencing rule where the second half may use what the first one
can return. -/
theorem Each.bind_returns {P : S.Op → Prop} {f : α → Prog S ε β} :
    ∀ {p : Prog S ε α}, p.Each P → (∀ a, p.Returns a → (f a).Each P) → (p.bind f).Each P
  | .ret a, _, hf => hf a rfl
  | .fail _, _, _ => trivial
  | .op _ _, hp, hf =>
      ⟨hp.1, fun r => Each.bind_returns (hp.2 r) fun a ha => hf a ⟨r, ha⟩⟩

theorem hoist_bind {inj : S.Op → T.Op} {back : ∀ o, T.Ret (inj o) → S.Ret o} {f : ε → ε'}
    (p : Prog S ε α) (g : α → Prog S ε β) :
    (p.bind g).hoist inj back f = (p.hoist inj back f).bind fun a => (g a).hoist inj back f := by
  induction p with
  | ret a => rfl
  | fail e => rfl
  | op o k ih => exact congrArg (Prog.op (inj o)) (funext fun r => ih (back o r))

theorem returns_of_hoist {inj : S.Op → T.Op} {back : ∀ o, T.Ret (inj o) → S.Ret o} {f : ε → ε'}
    {a : α} : ∀ {p : Prog S ε α}, (p.hoist inj back f).Returns a → p.Returns a
  | .ret _, h => h
  | .fail _, h => h
  | .op o _, ⟨r, h⟩ => ⟨back o r, returns_of_hoist h⟩

end Prog

section

variable {S T : Sig} {ε α σ : Type} {C : Contract T σ}
  {E : Nat → World T σ → (o : T.Op) → T.Ret o → σ → Prop} {i : Nat}

/-- **A handler with harmless calls.** -/
theorem Safe.expand {impl : (o : S.Op) → Prog T ε (S.Ret o)} {P : S.Op → Prop}
    (himpl : ∀ o, P o → ∀ w, C.inv w → Safe C E i (fun x _ => ∃ r, x = .ok r) (impl o) w) :
    ∀ {p : Prog S ε α} {w : World T σ}, p.Each P → C.inv w →
      Safe C E i (fun x _ => ∀ a, x = .ok a → p.Returns a) (p.expand impl) w
  | .ret a, w, _, _ => fun _ _ _ _ h => Except.ok.inj h
  | .fail e, w, _, _ => fun _ _ _ _ h => by cases h
  | .op o k, w, hp, hinv => by
      refine Safe.bind (Safe.mono ?_ (himpl o hp.1 w hinv)) hinv
      rintro x w' hinv' ⟨r, rfl⟩
      exact Safe.mono (fun x _ _ h a ha => ⟨r, h a ha⟩) (Safe.expand himpl (hp.2 r) hinv')

end

end Stelyph
