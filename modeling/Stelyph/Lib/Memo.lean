import Stelyph.Lib.Pool
import Stelyph.Lib.Table

/-!
# Programs that keep what they have computed

A component in front of a slower one: it looks a key up in a table, and
only where the table has no entry it asks the slower one and puts the
answer in. The lookup and the insertion are operations of their own, so
two requests may both miss, and one may insert over the other.

What an entry is worth is a relation `J` between the world, a key and a
value that later operations cannot take back. `Safe.memo` is the rule:
if the slower program answers only what `J` allows, so does the table,
whatever is interleaved.
-/

namespace Stelyph

/-! ## Contracts of a growing log -/

/-- The tasks rely on the log to keep what is in it. -/
def Contract.growing {S : Sig} {σ : Type} (inv : World S σ → Prop) : Contract S σ where
  inv := inv
  rely _ w w' := ∀ e ∈ w.log, e ∈ w'.log
  refl _ _ _ h := h
  trans _ _ _ _ h h' e he := h' e (h e he)

theorem World.mem_after_log {S : Sig} {σ : Type} {w : World S σ} {i : Nat} {o : S.Op}
    {r : S.Ret o} {s : σ} {e : Event S} :
    e ∈ (w.after i o r s).log ↔ e ∈ w.log ∨ e = ⟨i, o, r⟩ := by
  rw [World.after_log, List.mem_append, List.mem_singleton]

section

variable {S : Sig} {ε α β σ : Type} {inv : World S σ → Prop}
  {E : Nat → World S σ → (o : S.Op) → S.Ret o → σ → Prop} {i : Nat}

/-- The rule for one operation. -/
theorem Safe.op_growing {post : Except ε α → World S σ → Prop} {o : S.Op}
    {k : S.Ret o → Prog S ε α} {w : World S σ}
    (h : ∀ w₁, (∀ e ∈ w.log, e ∈ w₁.log) → inv w₁ → ∀ r s, E i w₁ o r s →
      inv (w₁.after i o r s) ∧ Safe (.growing inv) E i post (k r) (w₁.after i o r s)) :
    Safe (.growing inv) E i post (.op o k) w := fun w₁ hr hinv r s hE =>
  ⟨(h w₁ hr hinv r s hE).1, fun _ _ _ he => World.mem_after_log.mpr (Or.inl he),
    (h w₁ hr hinv r s hE).2⟩

/-- A program all of whose operations keep the invariant. -/
theorem Safe.each_growing {Q : S.Op → Prop}
    (hQ : ∀ w o r s, Q o → inv w → E i w o r s → inv (w.after i o r s)) :
    ∀ {p : Prog S ε α} {w : World S σ}, p.Each Q →
      Safe (.growing inv) E i (fun x _ => ∀ a, x = .ok a → p.Returns a) p w
  | .ret _, _, _ => fun _ _ _ _ h => Except.ok.inj h
  | .fail _, _, _ => fun _ _ _ _ h => nomatch h
  | .op o _, _, hp => Safe.op_growing fun w₁ _ hinv r s hE =>
      ⟨hQ w₁ o r s hp.1 hinv hE, Safe.mono (fun _ _ _ h a ha => ⟨r, h a ha⟩)
        (Safe.each_growing hQ (hp.2 r))⟩

end

/-! ## The signature -/

inductive CachedOp (T : Sig) (K V : Type) where
  | get (k : K)
  | insert (k : K) (v : V)
  | inner (o : T.Op)

abbrev CachedOp.Ret {T : Sig} {K V : Type} : CachedOp T K V → Type
  | .get _ => Option V
  | .insert _ _ => Unit
  | .inner o => T.Ret o

abbrev cachedSig (T : Sig) (K V : Type) : Sig := ⟨CachedOp T K V, CachedOp.Ret⟩

section

variable {T : Sig} {K V σ χ ε α : Type}

/-- The table is in memory: it fails with nothing, and takes any choice. -/
def CachedOp.exec [DecidableEq K] (exec : Nat → σ → (o : T.Op) → χ → Option (T.Ret o × σ))
    (i : Nat) (s : Table K V × σ) :
    (o : CachedOp T K V) → χ → Option (o.Ret × (Table K V × σ))
  | .get k, _ => some (s.1.get k, s)
  | .insert k v, _ => some ((), (s.1.insert k v, s.2))
  | .inner o, c => (exec i s.2 o c).map fun rs => (rs.1, (s.1, rs.2))

/-- The machine with a table in memory beside it: what is asked of the
table stays there, and all else goes through. -/
def cachedMachine [DecidableEq K] (M : Machine T σ χ) :
    Machine (cachedSig T K V) (Table K V × σ) χ where
  exec := CachedOp.exec M.exec

/-- A program of the slower component. -/
abbrev Prog.uncached (p : Prog T ε α) : Prog (cachedSig T K V) ε α :=
  p.hoist (T := cachedSig T K V) .inner (fun _ r => r) id

/-- What the source's `if let Some(hit) = cache.get(k)` and the insertion
behind it make of the program that computes the value. -/
def memo (k : K) (p : Prog T ε V) : Prog (cachedSig T K V) ε V :=
  .op (S := cachedSig T K V) (.get k) fun
    | some v => .ret v
    | none => p.uncached.bind fun v =>
        .op (S := cachedSig T K V) (.insert k v) fun _ => .ret v

end

theorem Prog.Each.memo {T : Sig} {K V ε : Type} {P : CachedOp T K V → Prop} {k : K}
    {p : Prog T ε V} (hget : P (.get k)) (hinsert : ∀ v, P (.insert k v))
    (hp : p.Each fun o => P (.inner o)) : (memo k p).Each P := by
  refine ⟨hget, fun r => ?_⟩
  cases r with
  | some v => trivial
  | none => exact (Each.hoist hp).bind fun v => ⟨hinsert v, fun _ => trivial⟩

/-! ## Justified entries -/

section

variable {T : Sig} {K V σ χ ε α : Type} [DecidableEq K]

/-- Every entry of the table is one that `J` allows. -/
def Justified (J : List (Event (cachedSig T K V)) → K → V → Prop)
    (w : World (cachedSig T K V) (Table K V × σ)) : Prop :=
  ∀ k v, w.store.1.get k = some v → J w.log k v

/-- What is allowed stays allowed. -/
def Lasting (J : List (Event (cachedSig T K V)) → K → V → Prop) : Prop :=
  ∀ l l', (∀ e ∈ l, e ∈ l') → ∀ k v, J l k v → J l' k v

variable {J : List (Event (cachedSig T K V)) → K → V → Prop}
  {M : Machine T σ χ} {w : World (cachedSig T K V) (Table K V × σ)}

theorem Justified.of_table {w' : World (cachedSig T K V) (Table K V × σ)} (hJ : Lasting J)
    (h : Justified J w) (hlog : ∀ e ∈ w.log, e ∈ w'.log) (htable : w'.store.1 = w.store.1) :
    Justified J w' := fun k v hv =>
  hJ _ _ hlog k v (h k v (htable ▸ hv))

/-- What one operation on the table, or below it, does to the entries. -/
theorem Justified.after (hJ : Lasting J) (h : Justified J w) {i : Nat} {o : CachedOp T K V} {c : χ}
    {r : o.Ret} {s : Table K V × σ}
    (hexec : CachedOp.exec M.exec i w.store o c = some (r, s))
    (hinsert : ∀ k v, o = .insert k v → J w.log k v) : Justified J (w.after i o r s) := by
  have hlog : ∀ e ∈ w.log, e ∈ (w.after i o r s).log := fun e he =>
    World.mem_after_log.mpr (Or.inl he)
  cases o with
  | get k =>
      obtain ⟨rfl, rfl⟩ := Prod.mk.injEq .. |>.mp (Option.some.inj hexec)
      exact h.of_table hJ hlog rfl
  | insert k v =>
      obtain ⟨rfl, rfl⟩ := Prod.mk.injEq .. |>.mp (Option.some.inj hexec)
      intro k' v' hv
      rcases Table.get_insert_eq_some.mp hv with ⟨rfl, rfl⟩ | ⟨-, hv⟩
      · exact hJ _ _ hlog _ _ (hinsert _ _ rfl)
      · exact hJ _ _ hlog k' v' (h k' v' hv)
  | inner o =>
      obtain ⟨rs, -, hrs⟩ := Option.map_eq_some_iff.mp hexec
      obtain ⟨rfl, rfl⟩ := Prod.mk.injEq .. |>.mp hrs
      exact h.of_table hJ hlog rfl

/-! ## The rule for a lookup -/

variable {G : σ → List (Event (cachedSig T K V)) → Prop}

/-- The invariant of the table, beside one of the store below it and the
log. -/
def MemoInv (J : List (Event (cachedSig T K V)) → K → V → Prop)
    (G : σ → List (Event (cachedSig T K V)) → Prop)
    (w : World (cachedSig T K V) (Table K V × σ)) : Prop :=
  Justified J w ∧ G w.store.2 w.log

/-- What an operation of the machine may answer. -/
def CachedExec (M : Machine T σ χ) (i : Nat) (w : World (cachedSig T K V) (Table K V × σ))
    (o : CachedOp T K V) (r : o.Ret) (s : Table K V × σ) : Prop :=
  ∃ c, CachedOp.exec M.exec i w.store o c = some (r, s)

/-- The other half does not look at the table's operations. -/
def IgnoresTable (G : σ → List (Event (cachedSig T K V)) → Prop) : Prop :=
  ∀ s l i (o : CachedOp T K V) (r : o.Ret), (∀ o', o ≠ .inner o') → G s l →
    G s (l ++ [⟨i, o, r⟩])

/-- **A lookup answers what is allowed**, if the program behind it does. -/
theorem Safe.memo (hJ : Lasting J) (hG : IgnoresTable G) {i : Nat} {k : K} {p : Prog T ε V}
    (hp : ∀ w' : World (cachedSig T K V) (Table K V × σ), (∀ e ∈ w.log, e ∈ w'.log) →
      MemoInv J G w' → Safe (.growing (MemoInv J G)) (CachedExec M) i
        (fun x u => ∀ v, x = .ok v → J u.log k v) p.uncached w') :
    Safe (.growing (MemoInv J G)) (CachedExec M) i (fun x u => ∀ v, x = .ok v → J u.log k v)
      (Stelyph.memo k p) w := by
  refine Safe.op_growing fun w₁ hr hinv r s hE => ?_
  obtain ⟨c, hc⟩ := hE
  have hjust : Justified J (w₁.after i (.get k) r s) := hinv.1.after hJ hc fun _ _ h => by cases h
  obtain ⟨rfl, rfl⟩ := Prod.mk.injEq .. |>.mp (Option.some.inj hc)
  have hinv' : MemoInv J G (w₁.after i (.get k) (w₁.store.1.get k) w₁.store) := by
    refine ⟨hjust, hG _ _ _ _ _ (fun _ h => ?_) hinv.2⟩
    cases h
  refine ⟨hinv', ?_⟩
  cases hget : w₁.store.1.get k with
  | some v =>
      intro w' hlog _ v' hv'
      obtain rfl := Except.ok.inj hv'
      exact hJ _ _ (fun e he => hlog e (World.mem_after_log.mpr (Or.inl he))) k v
        (hinv.1 k v hget)
  | none =>
      rw [hget] at hinv'
      refine Safe.bind (Safe.mono ?_ (hp _ ?_ hinv')) hinv'
      · rintro (e | v) u hu hpost
        · exact fun _ h => by cases h
        · refine Safe.op_growing fun w₂ hr₂ hinv₂ r₂ s₂ hE₂ => ?_
          obtain ⟨c₂, hc₂⟩ := hE₂
          have hv : J w₂.log k v := hJ _ _ hr₂ k v (hpost v rfl)
          have hjust₂ : Justified J (w₂.after i (.insert k v) r₂ s₂) :=
            hinv₂.1.after hJ hc₂ fun k' v' h => by
              obtain ⟨rfl, rfl⟩ := CachedOp.insert.inj h
              exact hv
          obtain ⟨rfl, rfl⟩ := Prod.mk.injEq .. |>.mp (Option.some.inj hc₂)
          refine ⟨⟨hjust₂, hG _ _ _ _ _ (fun _ h => ?_) hinv₂.2⟩, ?_⟩
          · cases h
          · intro w' hlog _ v' hv'
            obtain rfl := Except.ok.inj hv'
            exact hJ _ _ (fun e he => hlog e (World.mem_after_log.mpr (Or.inl he))) k v hv
      · exact fun e he => World.mem_after_log.mpr (Or.inl (hr e he))

end

end Stelyph
