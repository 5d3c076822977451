import Mathlib.Data.List.Basic

/-!
# Services that answer alike

A service takes operations one after the other: each one has an answer
and leaves a state. Two services are compared by what they answer, up to
a relation for each operation, never by what their states look like. The
rule behind every comparison is a simulation: a relation of the states
that holds at the start, that every operation keeps, and under which the
answers are alike.
-/

namespace Stelyph

/-- What answers calls one at a time: a state, the first one, and what a
call makes of it. -/
structure Service (ω : Type) (ρ : ω → Type) where
  State : Type
  init : State
  serve : State → (o : ω) → ρ o × State

namespace Service

variable {ω : Type} {ρ : ω → Type} {R : ∀ o, ρ o → ρ o → Prop} {A B C : Service ω ρ}

/-- The answers to the operations are alike, one by one. -/
def AlikeFrom (R : ∀ o, ρ o → ρ o → Prop) (A B : Service ω ρ) :
    A.State → B.State → List ω → Prop
  | _, _, [] => True
  | a, b, o :: os =>
      R o (A.serve a o).1 (B.serve b o).1
        ∧ AlikeFrom R A B (A.serve a o).2 (B.serve b o).2 os

/-- The two services answer alike to these calls, each from its first state. -/
def Alike (R : ∀ o, ρ o → ρ o → Prop) (A B : Service ω ρ) (os : List ω) : Prop :=
  AlikeFrom R A B A.init B.init os

theorem AlikeFrom.symm (hR : ∀ o x y, R o x y → R o y x) {os : List ω} {a : A.State}
    {b : B.State} (h : AlikeFrom R A B a b os) : AlikeFrom R B A b a os := by
  induction os generalizing a b with
  | nil => trivial
  | cons o os ih => exact ⟨hR _ _ _ h.1, ih h.2⟩

theorem AlikeFrom.trans (hR : ∀ o x y z, R o x y → R o y z → R o x z) {os : List ω}
    {a : A.State} {b : B.State} {c : C.State} (h : AlikeFrom R A B a b os)
    (h' : AlikeFrom R B C b c os) : AlikeFrom R A C a c os := by
  induction os generalizing a b c with
  | nil => trivial
  | cons o os ih => exact ⟨hR _ _ _ _ h.1 h'.1, ih h.2 h'.2⟩

/-- `Rel` relates the states after the same operations, as long as these
meet `cond`. -/
structure Simulates (R : ∀ o, ρ o → ρ o → Prop) (cond : ω → Prop) (A B : Service ω ρ)
    (Rel : A.State → B.State → Prop) : Prop where
  init : Rel A.init B.init
  alike : ∀ {a b}, Rel a b → ∀ o, cond o → R o (A.serve a o).1 (B.serve b o).1
  next : ∀ {a b}, Rel a b → ∀ o, cond o → Rel (A.serve a o).2 (B.serve b o).2

theorem Simulates.alikeFrom {cond : ω → Prop} {Rel : A.State → B.State → Prop}
    (hS : Simulates R cond A B Rel) {os : List ω} (hos : ∀ o ∈ os, cond o) {a : A.State}
    {b : B.State} (h : Rel a b) : AlikeFrom R A B a b os := by
  induction os generalizing a b with
  | nil => trivial
  | cons o os ih =>
      have ho := hos o List.mem_cons_self
      have hrest := fun o' h' => hos o' (List.mem_cons_of_mem o h')
      exact ⟨hS.alike h o ho, ih hrest (hS.next h o ho)⟩

/-- A simulation makes all answers alike. -/
theorem Simulates.alikeOn {cond : ω → Prop} {Rel : A.State → B.State → Prop}
    (hS : Simulates R cond A B Rel) {os : List ω} (hos : ∀ o ∈ os, cond o) :
    Alike R A B os :=
  hS.alikeFrom hos hS.init

end Service

end Stelyph
