import Stelyph.Lib.Prog

/-!
# One program in another's place

`p.CoveredBy rel post q`: where `p` goes on, `q` issues the same
operation and goes on too, and where `p` returns, so does `q`. The two
may be answered differently, as far as `rel` allows; of a `p` that fails
nothing is said. So whatever is accepted by a server that runs `p` is
accepted by one that runs `q`, with the same effects.
-/

namespace Stelyph

namespace Prog

variable {S : Sig} {ε ε' ε'' α α' β β' : Type}

def CoveredBy (rel : (o : S.Op) → S.Ret o → S.Ret o → Prop) (post : α → β → Prop) :
    Prog S ε α → Prog S ε' β → Prop
  | .ret a, q => ∃ b, q = .ret b ∧ post a b
  | .fail _, _ => True
  | .op o k, q => ∃ k', q = .op o k' ∧ ∀ r r', rel o r r' → (k r).CoveredBy rel post (k' r')

variable {rel : (o : S.Op) → S.Ret o → S.Ret o → Prop}

theorem CoveredBy.ret {post : α → β → Prop} {a : α} {b : β} (h : post a b) :
    (Prog.ret a : Prog S ε α).CoveredBy rel post (.ret b : Prog S ε' β) :=
  ⟨b, rfl, h⟩

theorem CoveredBy.op {post : α → β → Prop} {o : S.Op} {k : S.Ret o → Prog S ε α}
    {k' : S.Ret o → Prog S ε' β} (h : ∀ r r', rel o r r' → (k r).CoveredBy rel post (k' r')) :
    (Prog.op o k).CoveredBy rel post (.op o k') :=
  ⟨k', rfl, h⟩

/-- The sequencing rule. -/
theorem CoveredBy.bind {mid : α → α' → Prop} {post : β → β' → Prop} {f : α → Prog S ε β}
    {g : α' → Prog S ε' β'} (hf : ∀ a b, mid a b → (f a).CoveredBy rel post (g b)) :
    ∀ {p : Prog S ε α} {q : Prog S ε' α'}, p.CoveredBy rel mid q →
      (p.bind f).CoveredBy rel post (q.bind g)
  | .ret a, q, h => by
      obtain ⟨b, rfl, hab⟩ := h
      exact hf a b hab
  | .fail _, _, _ => trivial
  | .op o k, q, h => by
      obtain ⟨k', rfl, hk⟩ := h
      exact .op fun r r' hr => (hk r r' hr).bind hf

theorem CoveredBy.andThen {post : β → β' → Prop} {f : α → Prog S ε β} {g : α → Prog S ε' β'}
    {p : Prog S ε α} {q : Prog S ε' α} (hf : ∀ a, (f a).CoveredBy rel post (g a))
    (h : p.CoveredBy rel Eq q) : (p.bind f).CoveredBy rel post (q.bind g) := by
  refine .bind ?_ h
  rintro a _ rfl
  exact hf a

/-- A program that is answered alike covers itself. -/
theorem CoveredBy.refl {P : S.Op → Prop} (hrel : ∀ o r r', P o → rel o r r' → r = r') :
    ∀ {p : Prog S ε α}, p.Each P → p.CoveredBy rel Eq p
  | .ret _, _ => .ret rfl
  | .fail _, _ => trivial
  | .op o k, h => .op fun r r' hr => by
      obtain rfl := hrel o r r' h.1 hr
      exact CoveredBy.refl hrel (h.2 r)

theorem CoveredBy.attempt {ε₁ ε₂ : Type} {P : S.Op → Prop}
    (hrel : ∀ o r r', P o → rel o r r' → r = r') :
    ∀ {p : Prog S ε α}, p.Each P →
      (p.attempt : Prog S ε₁ _).CoveredBy rel Eq (p.attempt : Prog S ε₂ _)
  | .ret _, _ => .ret rfl
  | .fail _, _ => .ret rfl
  | .op o k, h => .op fun r r' hr => by
      obtain rfl := hrel o r r' h.1 hr
      exact CoveredBy.attempt hrel (h.2 r)

theorem coveredBy_ofExcept {f : ε'' → ε} {g : ε'' → ε'} (x : Except ε'' α) :
    (ofExcept f x : Prog S ε α).CoveredBy rel Eq (ofExcept g x : Prog S ε' α) := by
  cases x with
  | error e => trivial
  | ok a => exact .ret rfl

/-- What `p` accepts `q` accepts, on machines that answer alike and move
alike. -/
theorem CoveredBy.against {σ χ : Type} {exec exec' : σ → (o : S.Op) → χ → Option (S.Ret o × σ)}
    (hexec : ∀ s o c r t, exec s o c = some (r, t) → ∃ r', exec' s o c = some (r', t) ∧ rel o r r')
    {post : α → β → Prop} {a : α} {t : σ} :
    ∀ {p : Prog S ε α} {q : Prog S ε' β} {s : σ} {cs : List χ}, p.CoveredBy rel post q →
      p.against exec s cs = some (.ok a, t) →
        ∃ b, q.against exec' s cs = some (.ok b, t) ∧ post a b
  | .ret _, q, s, cs, h, hrun => by
      obtain ⟨b, rfl, hab⟩ := h
      cases cs with
      | nil =>
          obtain ⟨ha, rfl⟩ := Prod.mk.injEq .. |>.mp (Option.some.inj hrun)
          obtain rfl := Except.ok.inj ha
          exact ⟨b, rfl, hab⟩
      | cons c cs => cases hrun
  | .fail _, _, _, cs, _, hrun => by
      cases cs with
      | nil => cases hrun
      | cons c cs => cases hrun
  | .op o k, q, s, cs, h, hrun => by
      obtain ⟨k', rfl, hk⟩ := h
      cases cs with
      | nil => cases hrun
      | cons c cs =>
          obtain ⟨⟨r, u⟩, hr, hrest⟩ := Option.bind_eq_some_iff.mp hrun
          obtain ⟨r', hr', hrel⟩ := hexec s o c r u hr
          obtain ⟨b, hb, hab⟩ := (hk r r' hrel).against hexec hrest
          refine ⟨b, ?_, hab⟩
          rw [Prog.against, hr']
          exact hb

end Prog

end Stelyph
