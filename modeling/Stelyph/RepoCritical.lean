import Stelyph.RepoChain

/-!
# The critical section

What one writer does between taking the lock of its DID and giving it
back, whatever the others do meanwhile. It relies on two things: blocks
are never lost, and nobody moves the root of a DID whose lock it holds.
Up to the transaction it only adds blocks (`CritSafe`); the transaction
chains from the very root the lock was taken at, so it extends the
history; after it, nothing can fail (`Leaving`).
-/

namespace Stelyph

section

variable {L : RepoLib}

abbrev RepoWorld (L : RepoLib) := World (writerSig L) (RepoStore L)

/-! ## The log of commits -/

/-- The event row an executed call wrote. -/
def rowOf (e : Event (writerSig L)) : Option (SeqRow L.Event) :=
  match e with
  | ⟨_, .commitBlocks _ did _ event, .ok seq⟩ => some ⟨seq, did, event, false⟩
  | _ => none

/-- A commit was made, to whichever repository. -/
def committed (e : Event (writerSig L)) : Bool := (rowOf e).isSome

def committedTo (d : String) (e : Event (writerSig L)) : Bool :=
  (rowOf e).any fun row => row.did == d

/-- Commit `c` was made to the repository of `d`. -/
def committedAs (d : String) (c : L.Cid) (e : Event (writerSig L)) : Bool :=
  (rowOf e).any fun row => row.did == d && announced row == some c

theorem committed_eq_false {e : Event (writerSig L)} (h : rowOf e = none) :
    committed e = false := by
  rw [committed, h]
  rfl

theorem committedTo_of_committedAs {d : String} {c : L.Cid} {e : Event (writerSig L)}
    (h : committedAs d c e = true) : committedTo d e = true := by
  obtain ⟨row, hrow, hd⟩ := (Option.any_eq_true _ _).mp h
  exact (Option.any_eq_true _ _).mpr ⟨row, hrow, (Bool.and_eq_true _ _ ▸ hd : _ ∧ _).1⟩

theorem committed_of_committedTo {d : String} {e : Event (writerSig L)}
    (h : committedTo d e = true) : committed e = true := by
  obtain ⟨row, hrow, -⟩ := (Option.any_eq_true _ _).mp h
  rw [committed, hrow]
  rfl

theorem op_of_committedTo {d : String} {e : Event (writerSig L)} (h : committedTo d e = true) :
    ∃ blocks root event, e.op = .commitBlocks blocks d root event := by
  obtain ⟨row, hrow, hd⟩ := (Option.any_eq_true _ _).mp h
  unfold rowOf at hrow
  split at hrow
  · obtain rfl := Option.some.inj hrow
    obtain rfl := beq_iff_eq.mp hd
    exact ⟨_, _, _, rfl⟩
  · cases hrow

/-! ## The contract -/

/-- What holds between any two store calls of any writers. -/
structure RepoInv (w : RepoWorld L) : Prop where
  addressed : WellAddressed w.store.blocks
  logged : w.store.rows = w.log.filterMap rowOf
  ordered : (w.store.rows.map fun r => r.seq).Pairwise (· < ·)
  bounded : ∀ r ∈ w.store.rows, r.seq ≤ w.store.lastSeq
  history : ∀ d, History w.store.blocks.get (w.store.rowsOf d) (w.store.roots.get d)

/-- What task `i` relies on. -/
structure RepoRely (i : Nat) (w w' : RepoWorld L) : Prop where
  tally : ∀ p, w'.tally p i = w.tally p i
  blocks : BlocksLe w.store.blocks.get w'.store.blocks.get
  held : ∀ d, w.store.locks.get d = some i → w'.store.locks.get d = some i
  roots : ∀ d, w.store.locks.get d = some i → w'.store.roots.get d = w.store.roots.get d

def repoContract (L : RepoLib) : Contract (writerSig L) (RepoStore L) where
  inv := RepoInv
  rely := RepoRely
  refl _ _ := ⟨fun _ => rfl, BlocksLe.refl _, fun _ h => h, fun _ _ => rfl⟩
  trans _ _ _ _ h h' :=
    ⟨fun p => (h'.tally p).trans (h.tally p), h.blocks.trans h'.blocks,
      fun d hd => h'.held d (h.held d hd),
      fun d hd => (h'.roots d (h.held d hd)).trans (h.roots d hd)⟩

/-- Every execution the store allows, faults included. -/
def RepoExec (i : Nat) (w : RepoWorld L) (o : WriterOp L) (r : o.Ret) (s : RepoStore L) : Prop :=
  ∃ c, o.exec i w.store c = some (r, s)

/-- The calls that at most add blocks. -/
def WriterOp.Quiet : WriterOp L → Prop
  | .loadRepoRoot _ | .readBlock _ | .writeBlock _ | .tree _ _ | .send _ => True
  | .lock _ | .unlock _ | .commitBlocks _ _ _ _ => False

theorem WriterOp.Quiet.grown {o : WriterOp L} (hq : o.Quiet) {i : Nat} {s s' : RepoStore L}
    {c : WriterFate} {r : o.Ret} (hs : WellAddressed s.blocks)
    (h : o.exec i s c = some (r, s')) : Grown s s' := by
  have hput : ∀ bs : List L.Block, Grown s { s with blocks := putBlocks s.blocks bs } :=
    fun bs => ⟨blocksLe_putBlocks _ bs, hs.putBlocks bs, rfl, rfl, rfl, rfl⟩
  cases o with
  | lock | unlock | commitBlocks => exact hq.elim
  | loadRepoRoot did =>
      cases c with
      | done | fault =>
          obtain ⟨-, rfl⟩ := Prod.mk.injEq .. |>.mp (Option.some.inj h)
          exact .refl hs
  | readBlock cid =>
      cases c with
      | done =>
          simp only [WriterOp.exec] at h
          split at h
          · obtain ⟨-, rfl⟩ := Prod.mk.injEq .. |>.mp (Option.some.inj h)
            exact .refl hs
          · obtain ⟨-, rfl⟩ := Prod.mk.injEq .. |>.mp (Option.some.inj h)
            exact .refl hs
      | fault =>
          obtain ⟨-, rfl⟩ := Prod.mk.injEq .. |>.mp (Option.some.inj h)
          exact .refl hs
  | writeBlock b =>
      cases c with
      | done =>
          obtain ⟨-, rfl⟩ := Prod.mk.injEq .. |>.mp (Option.some.inj h)
          exact hput [b]
      | fault =>
          obtain ⟨-, rfl⟩ := Prod.mk.injEq .. |>.mp (Option.some.inj h)
          exact .refl hs
  | tree root op =>
      cases c with
      | done | fault =>
          simp only [WriterOp.exec] at h
          split at h
          · obtain ⟨-, rfl⟩ := Prod.mk.injEq .. |>.mp (Option.some.inj h)
            exact hput _
          · obtain ⟨-, rfl⟩ := Prod.mk.injEq .. |>.mp (Option.some.inj h)
            exact .refl hs
  | send e =>
      obtain ⟨-, rfl⟩ := Prod.mk.injEq .. |>.mp (Option.some.inj h)
      exact ⟨BlocksLe.refl _, hs, rfl, rfl, rfl, rfl⟩

theorem WriterOp.Quiet.rowOf {o : WriterOp L} (hq : o.Quiet) (i : Nat) (r : o.Ret) :
    rowOf (L := L) ⟨i, o, r⟩ = none := by
  cases o with
  | commitBlocks => exact hq.elim
  | _ => rfl

/-! ## One step -/

variable {i : Nat} {w w' : RepoWorld L}

/-- A step that writes no row and leaves the roots keeps the invariant. -/
theorem RepoInv.quiet {o : WriterOp L} {r : o.Ret} {s : RepoStore L} (hw : RepoInv w)
    (hrow : rowOf (L := L) ⟨i, o, r⟩ = none) (hb : BlocksLe w.store.blocks.get s.blocks.get)
    (ha : WellAddressed s.blocks) (hroots : s.roots = w.store.roots)
    (hrows : s.rows = w.store.rows) (hseq : s.lastSeq = w.store.lastSeq) :
    RepoInv (w.after i o r s) where
  addressed := ha
  logged := by
    rw [World.after_store, World.after_log, List.filterMap_append, hrows, hw.logged]
    simp [hrow]
  ordered := by
    rw [World.after_store, hrows]
    exact hw.ordered
  bounded := by
    rw [World.after_store, hrows, hseq]
    exact hw.bounded
  history d := by
    have hd := (hw.history d).mono hb
    rw [World.after_store, RepoStore.rowsOf, hrows, hroots]
    exact hd

theorem RepoInv.grown {o : WriterOp L} {r : o.Ret} {s : RepoStore L} (hw : RepoInv w)
    (hq : o.Quiet) (h : Grown w.store s) : RepoInv (w.after i o r s) :=
  hw.quiet (hq.rowOf i r) h.blocks h.addressed h.roots h.rows h.lastSeq

theorem RepoRely.grown {o : WriterOp L} {r : o.Ret} {s : RepoStore L} (h : Grown w.store s)
    {j : Nat} (hj : j ≠ i) : RepoRely j w (w.after i o r s) where
  tally p := w.tally_after_of_ne p hj.symm o r s
  blocks := h.blocks
  held d hd := by
    rw [World.after_store, h.locks]
    exact hd
  roots d _ := by rw [World.after_store, h.roots]

/-! ## Inside the critical section -/

/-- Task `i` holds the lock of `d`, whose root is `root`, and has
committed nothing yet. -/
structure Crit (d : String) (root : Option L.Cid) (i : Nat) (w : RepoWorld L) : Prop where
  held : w.store.locks.get d = some i
  root : w.store.roots.get d = root
  none : w.tally committed i = 0

variable {d : String} {root : Option L.Cid} {α β : Type}

theorem Crit.stable (h : Crit d root i w) (hr : RepoRely i w w') : Crit d root i w' where
  held := hr.held d h.held
  root := (hr.roots d h.held).trans h.root
  none := (hr.tally _).trans h.none

theorem Crit.grown {o : WriterOp L} {r : o.Ret} {s : RepoStore L} (h : Crit d root i w)
    (hq : o.Quiet) (hs : Grown w.store s) : Crit d root i (w.after i o r s) where
  held := by
    rw [World.after_store, hs.locks]
    exact h.held
  root := by
    rw [World.after_store, hs.roots]
    exact h.root
  none := by rw [World.tally_after_self, committed_eq_false (hq.rowOf i r), h.none]; rfl

/-- The program stays in the critical section, and what it returns
satisfies `G` for the blocks then stored. -/
def CritSafe (d : String) (root : Option L.Cid) (i : Nat)
    (G : α → (L.Cid → Option L.Block) → Prop) (p : RepoProg L α) (w : RepoWorld L) : Prop :=
  Safe (repoContract L) RepoExec i (fun x w' => Crit d root i w'
    ∧ BlocksLe w.store.blocks.get w'.store.blocks.get
    ∧ ∀ a, x = .ok a → G a w'.store.blocks.get) p w

theorem CritSafe.ret {G : α → (L.Cid → Option L.Block) → Prop} {a : α}
    (hw : Crit d root i w) (h : ∀ g, BlocksLe w.store.blocks.get g → G a g) :
    CritSafe d root i G (.ret a) w := by
  intro w' hr _
  refine ⟨hw.stable hr, hr.blocks, ?_⟩
  rintro _ ⟨⟩
  exact h _ hr.blocks

theorem CritSafe.fail {G : α → (L.Cid → Option L.Block) → Prop} {e : RepoError}
    (hw : Crit d root i w) : CritSafe d root i G (.fail e) w := by
  intro w' hr _
  refine ⟨hw.stable hr, hr.blocks, ?_⟩
  rintro _ ⟨⟩

theorem CritSafe.ofExcept {ε : Type} {G : α → (L.Cid → Option L.Block) → Prop}
    {f : ε → RepoError} {x : Except ε α} (hw : Crit d root i w)
    (h : ∀ a, x = .ok a → ∀ g, BlocksLe w.store.blocks.get g → G a g) :
    CritSafe d root i G (Prog.ofExcept f x) w := by
  cases x with
  | ok a => exact .ret hw (h a rfl)
  | error e => exact .fail hw

/-- Blocks that grew since `w'` grew since any `w` before it. -/
theorem CritSafe.weaken {G : α → (L.Cid → Option L.Block) → Prop} {p : RepoProg L α}
    (hb : BlocksLe w.store.blocks.get w'.store.blocks.get) (h : CritSafe d root i G p w') :
    Safe (repoContract L) RepoExec i (fun x u => Crit d root i u
      ∧ BlocksLe w.store.blocks.get u.store.blocks.get
      ∧ ∀ a, x = .ok a → G a u.store.blocks.get) p w' :=
  Safe.mono (fun _ _ _ hx => ⟨hx.1, hb.trans hx.2.1, hx.2.2⟩) h

theorem CritSafe.op {G : α → (L.Cid → Option L.Block) → Prop} {o : WriterOp L}
    {k : o.Ret → RepoProg L α} (hq : o.Quiet) (hw : Crit d root i w)
    (h : ∀ w₁ c r s, RepoInv w₁ → Crit d root i (w₁.after i o r s) →
      BlocksLe w.store.blocks.get w₁.store.blocks.get →
      BlocksLe w₁.store.blocks.get s.blocks.get → o.exec i w₁.store c = some (r, s) →
      w₁.store.roots.get d = root → CritSafe d root i G (k r) (w₁.after i o r s)) :
    CritSafe d root i G (.op o k) w := by
  rintro w₁ hr hinv r s ⟨c, hexec⟩
  have hgrown := hq.grown hinv.addressed hexec
  have hcrit := hw.stable hr
  refine ⟨hinv.grown hq hgrown, fun j hj => .grown hgrown hj, ?_⟩
  exact (h w₁ c r s hinv (hcrit.grown hq hgrown) hr.blocks hgrown.blocks hexec
    hcrit.root).weaken (hr.blocks.trans hgrown.blocks)

theorem CritSafe.ofExcept_bind {ε : Type} {G : β → (L.Cid → Option L.Block) → Prop}
    {f : ε → RepoError} {x : Except ε α} {k : α → RepoProg L β} (hw : Crit d root i w)
    (h : ∀ a, x = .ok a → CritSafe d root i G (k a) w) :
    CritSafe d root i G ((Prog.ofExcept f x : RepoProg L α).bind k) w := by
  cases x with
  | ok a => exact h a rfl
  | error e => exact .fail hw

theorem CritSafe.forget {G : α → (L.Cid → Option L.Block) → Prop} {p : RepoProg L α}
    (h : CritSafe d root i G p w) : CritSafe d root i (fun _ _ => True) p w :=
  Safe.mono (fun _ _ _ hx => ⟨hx.1, hx.2.1, fun _ _ => trivial⟩) h

theorem CritSafe.bind {G : α → (L.Cid → Option L.Block) → Prop}
    {G' : β → (L.Cid → Option L.Block) → Prop} {p : RepoProg L α} {f : α → RepoProg L β}
    (hinv : RepoInv w) (hp : CritSafe d root i G p w)
    (hf : ∀ a w', RepoInv w' → Crit d root i w' →
      BlocksLe w.store.blocks.get w'.store.blocks.get → G a w'.store.blocks.get →
      CritSafe d root i G' (f a) w') :
    CritSafe d root i G' (p.bind f) w := by
  refine Safe.bind (Safe.mono (fun x w' hinv' hx => ?_) hp) hinv
  obtain ⟨hcrit, hb, hgood⟩ := hx
  cases x with
  | ok a => exact (hf a w' hinv' hcrit hb (hgood a rfl)).weaken hb
  | error e => exact ⟨hcrit, hb, fun _ h => by cases h⟩

/-! ## The steps of the cycle -/

theorem critSafe_read (hw : Crit d root i w) (f : StorageError → RepoError) (cid : L.Cid) :
    CritSafe d root i (fun b g => g cid = some b ∧ L.cidOf b = cid)
      (.op (.readBlock cid) fun r => Prog.ofExcept f r) w := by
  refine .op trivial hw fun w₁ c r s hinv hcrit _ hb hexec _ => ?_
  refine .ofExcept hcrit fun b hr g hg => ?_
  have hget : w₁.store.blocks.get cid = some b := by
    cases c with
    | done =>
        simp only [WriterOp.exec] at hexec
        split at hexec
        · rename_i b' hb'
          obtain ⟨rfl, -⟩ := Prod.mk.injEq .. |>.mp (Option.some.inj hexec)
          rw [hb', Except.ok.inj hr]
        · obtain ⟨rfl, -⟩ := Prod.mk.injEq .. |>.mp (Option.some.inj hexec)
          cases hr
    | fault =>
        obtain ⟨rfl, -⟩ := Prod.mk.injEq .. |>.mp (Option.some.inj hexec)
        cases hr
  exact ⟨hg _ _ (hb _ _ hget), hinv.addressed _ _ hget⟩

theorem critSafe_write (hL : RepoLaws L) (hw : Crit d root i w) (b : L.Block) :
    CritSafe d root i (fun c g => g c = some b) (writeRepo b) w := by
  refine .op trivial hw fun w₁ c r s hinv hcrit _ _ hexec _ => ?_
  refine .ofExcept hcrit fun cid hr g hg => hg _ _ ?_
  cases c with
  | done =>
      obtain ⟨rfl, rfl⟩ := Prod.mk.injEq .. |>.mp (Option.some.inj hexec)
      rw [← Except.ok.inj hr]
      exact get_putBlock hL hinv.addressed b
  | fault =>
      obtain ⟨rfl, -⟩ := Prod.mk.injEq .. |>.mp (Option.some.inj hexec)
      cases hr

theorem critSafe_tree (hw : Crit d root i w) (data : L.Cid) (op : TreeOp L.Cid)
    (err : String → String) :
    CritSafe d root i (fun _ _ => True) (treeRepo data op err) w :=
  .op trivial hw fun _ _ _ _ _ hcrit _ _ _ _ => .ofExcept hcrit fun _ _ _ _ => trivial

/-- A signed commit is stored with what was asked to be signed. -/
theorem critSafe_signCommit (hL : RepoLaws L) (hw : Crit d root i w)
    (wr : RepoWriter L) (u : UnsignedCommit L.Cid) (e₁ e₂ : String → String) :
    CritSafe d root i (fun c g => ∃ sig, commitAt g c = some { u with sig := sig })
      (signCommit wr u e₁ e₂) w := by
  refine .ofExcept_bind hw fun preimage _ => .ofExcept_bind hw fun sig _ => ?_
  refine .ofExcept_bind hw fun block hblock => ?_
  refine Safe.mono (fun x w' _ hx => ⟨hx.1, hx.2.1, fun c hc => ⟨sig, ?_⟩⟩)
    (critSafe_write hL hw block)
  exact commitAt_of_decode (hx.2.2 c hc) (hL.decode_commit _ _ hblock)

/-- The commit to chain from: the stored root, or a fresh one that chains
from nothing. -/
def OpenedFrom (root : Option L.Cid) (o : Opened L) (f : L.Cid → Option L.Block) : Prop :=
  match root with
  | some r => o.prev = r ∧ o.hadPriorRoot = true
  | none => o.hadPriorRoot = false ∧ ∃ g, commitAt f o.prev = some g ∧ g.prev = none

theorem OpenedFrom.mono {o : Opened L} {f g : L.Cid → Option L.Block} (hle : BlocksLe f g)
    (h : OpenedFrom root o f) : OpenedFrom root o g := by
  cases root with
  | some r => exact h
  | none =>
      obtain ⟨hprior, gen, hgen, hend⟩ := h
      exact ⟨hprior, gen, commitAt_mono hle hgen, hend⟩

theorem critSafe_openRepo (hL : RepoLaws L) (hw : Crit d root i w) (wr : RepoWriter L)
    (hd : wr.did = d) (rev : String) :
    CritSafe d root i (OpenedFrom root) (openRepo wr rev) w := by
  refine .op trivial hw fun w₁ c r s hinv hcrit _ hb hexec hroot => ?_
  have hinv₁ : RepoInv (w₁.after i (.loadRepoRoot wr.did) r s) :=
    hinv.grown trivial (WriterOp.Quiet.grown (o := .loadRepoRoot wr.did) trivial
      hinv.addressed hexec)
  have hr : ∀ x, r = .ok x → x = root := by
    intro x hx
    cases c with
    | done =>
        obtain ⟨rfl, -⟩ := Prod.mk.injEq .. |>.mp (Option.some.inj hexec)
        rw [← Except.ok.inj hx, hd]
        exact hroot
    | fault =>
        obtain ⟨rfl, -⟩ := Prod.mk.injEq .. |>.mp (Option.some.inj hexec)
        cases hx
  refine .ofExcept_bind hcrit fun x hx => ?_
  obtain rfl := hr x hx
  cases x with
  | some root =>
      refine .bind hinv₁ (critSafe_read hcrit _ root) fun b w₃ hinv₃ hw₃ _ _ => ?_
      exact .ofExcept_bind hw₃ fun commit _ => .ret hw₃ fun _ _ => ⟨rfl, rfl⟩
  | none =>
      refine .bind hinv₁ (critSafe_write hL hcrit L.emptyNode) fun data w₃ hinv₃ hw₃ _ _ => ?_
      refine .bind hinv₃ (critSafe_signCommit hL hw₃ wr _ id id) ?_
      rintro c w₄ - hw₄ - ⟨sig, hc⟩
      exact .ret hw₄ fun g hg => ⟨rfl, _, commitAt_mono hg hc, rfl⟩

theorem critSafe_readBlocks (cids : List L.Cid) : ∀ {w : RepoWorld L}, RepoInv w →
    Crit d root i w →
    CritSafe d root i (fun bs _ => ∀ x ∈ bs, L.cidOf x.2 = x.1) (readBlocks cids) w := by
  induction cids with
  | nil => exact fun _ hw => .ret hw fun _ _ x hx => (List.not_mem_nil hx).elim
  | cons cid cids ih =>
      intro w hinv hw
      refine .bind hinv (critSafe_read hw _ cid) fun b w₁ hinv₁ hw₁ _ hb => ?_
      refine .bind hinv₁ (ih hinv₁ hw₁) fun rest w₂ _ hw₂ _ hrest => ?_
      refine .ret hw₂ fun _ _ x hx => ?_
      rcases List.mem_cons.mp hx with rfl | hx
      · exact hb.2
      · exact hrest x hx

theorem critSafe_revOf (hw : Crit d root i w) {c : L.Cid} {b : L.Block}
    (hb : w.store.blocks.get c = some b) (err : String → String) :
    CritSafe d root i (fun rev g => ∃ cm, commitAt g c = some cm ∧ rev = cm.rev)
      (revOf err b) w := by
  refine .ofExcept hw fun rev hrev g hg => ?_
  cases hdec : L.decodeCommit b with
  | error e =>
      rw [hdec] at hrev
      cases hrev
  | ok cm =>
      rw [hdec] at hrev
      exact ⟨cm, commitAt_of_decode (hg _ _ hb) hdec, (Except.ok.inj hrev).symm⟩

/-- `since` is the rev of the commit opened, if that was stored as a root. -/
def SinceOf (o : Opened L) (since : Option String) (f : L.Cid → Option L.Block) : Prop :=
  if o.hadPriorRoot then ∃ g, commitAt f o.prev = some g ∧ since = some g.rev else since = none

theorem SinceOf.mono {o : Opened L} {since : Option String} {f g : L.Cid → Option L.Block}
    (hle : BlocksLe f g) (h : SinceOf o since f) : SinceOf o since g := by
  unfold SinceOf at h ⊢
  split at h
  · rename_i hprior
    obtain ⟨gen, hgen, hs⟩ := h
    rw [if_pos hprior]
    exact ⟨gen, commitAt_mono hle hgen, hs⟩
  · rename_i hprior
    rw [if_neg hprior]
    exact h

theorem critSafe_sinceOf (hinv : RepoInv w) (hw : Crit d root i w) (o : Opened L)
    (err : String → String) : CritSafe d root i (SinceOf o) (sinceOf o err) w := by
  rw [sinceOf]
  split
  · rename_i hprior
    refine .bind hinv (critSafe_read hw _ o.prev) fun b w₁ hinv₁ hw₁ _ hb => ?_
    refine .bind hinv₁ (critSafe_revOf hw₁ hb.1 err) ?_
    rintro rev w₂ - hw₂ - ⟨cm, hcm, rfl⟩
    refine .ret hw₂ fun g hg => ?_
    rw [SinceOf, if_pos hprior]
    exact ⟨cm, commitAt_mono hg hcm, rfl⟩
  · rename_i hprior
    refine .ret hw fun g _ => ?_
    rw [SinceOf, if_neg hprior]

theorem critSafe_encodeAndWrite (hL : RepoLaws L) (hw : Crit d root i w) (record : L.Ipld)
    (err : String → String) :
    CritSafe d root i (fun _ _ => True) (encodeAndWrite record err) w :=
  .ofExcept_bind hw fun block _ => (critSafe_write hL hw block).forget

theorem critSafe_applyRaw (hL : RepoLaws L) (hinv : RepoInv w) (hw : Crit d root i w)
    (data : L.Cid) (op : WriteOp L.Ipld) :
    CritSafe d root i (fun _ _ => True) (applyRaw data op) w := by
  cases op with
  | create key record | update key record =>
      refine .bind hinv (critSafe_encodeAndWrite hL hw record id) fun cid w₁ hinv₁ hw₁ _ _ => ?_
      refine .bind hinv₁ (critSafe_tree hw₁ data _ id) fun _ w₂ _ hw₂ _ _ => ?_
      exact .ret hw₂ fun _ _ => trivial
  | delete key =>
      refine .bind hinv (critSafe_tree hw data _ id) fun _ w₁ _ hw₁ _ _ => ?_
      exact .ret hw₁ fun _ _ => trivial

theorem critSafe_prepare (hL : RepoLaws L) (ops : List (WriteOp L.Ipld)) :
    ∀ {w : RepoWorld L}, RepoInv w → Crit d root i w →
      CritSafe d root i (fun _ _ => True) (prepare ops) w := by
  induction ops with
  | nil => exact fun _ hw => .ret hw fun _ _ => trivial
  | cons op ops ih =>
      intro w hinv hw
      cases op with
      | create key record | update key record =>
          refine .bind hinv (critSafe_encodeAndWrite hL hw record _) ?_
          intro cid w₁ hinv₁ hw₁ _ _
          refine .bind hinv₁ (ih hinv₁ hw₁) fun _ w₂ _ hw₂ _ _ => ?_
          exact .ret hw₂ fun _ _ => trivial
      | delete key =>
          refine .bind hinv (ih hinv hw) fun _ w₁ _ hw₁ _ _ => ?_
          exact .ret hw₁ fun _ _ => trivial

theorem critSafe_applyTree (ps : List (Prepared L)) : ∀ {w : RepoWorld L} (data : L.Cid),
    RepoInv w → Crit d root i w →
      CritSafe d root i (fun _ _ => True) (applyTree data ps) w := by
  induction ps with
  | nil => exact fun _ _ hw => .ret hw fun _ _ => trivial
  | cons p ps ih =>
      intro w data hinv hw
      refine .bind hinv (critSafe_tree hw data _ _) fun _ w₁ hinv₁ hw₁ _ _ => ?_
      refine .bind hinv₁ (ih _ hinv₁ hw₁) fun _ w₂ _ hw₂ _ _ => ?_
      exact .ret hw₂ fun _ _ => trivial

/-! ## The commit -/

/-- The event of a commit that chains from `root`. -/
def Chains (root : Option L.Cid) (body : CommitBody L.Cid L.Car)
    (f : L.Cid → Option L.Block) : Prop :=
  ∃ o c, OpenedFrom root o f ∧ commitAt f body.commit = some c ∧ body.rev = c.rev
    ∧ c.prev = some o.prev ∧ SinceOf o body.since f

theorem Chains.mono {body : CommitBody L.Cid L.Car} {f g : L.Cid → Option L.Block}
    (hle : BlocksLe f g) (h : Chains root body f) : Chains root body g := by
  obtain ⟨o, c, ho, hc, hrev, hprev, hsince⟩ := h
  exact ⟨o, c, ho.mono hle, commitAt_mono hle hc, hrev, hprev, hsince.mono hle⟩

/-- A commit that chains from the root extends the history. -/
theorem History.snoc {f : L.Cid → Option L.Block} {rows : List (SeqRow L.Event)}
    {row : SeqRow L.Event} {body : CommitBody L.Cid L.Car} (h : History f rows root)
    (hbody : L.decodeBody row.event = .ok body) (hchain : Chains root body f) :
    History f (rows ++ [row]) (some body.commit) := by
  obtain ⟨o, c, ho, hc, hrev, hprev, hsince⟩ := hchain
  cases root with
  | none =>
      obtain ⟨hprior, g, hg, hend⟩ := ho
      rw [h.rows_of_none]
      rw [SinceOf, if_neg (by rw [hprior]; decide)] at hsince
      exact .first hbody hc hrev hprev hg hend hsince
  | some r =>
      obtain ⟨rfl, hprior⟩ := ho
      rw [SinceOf, if_pos hprior] at hsince
      obtain ⟨g, hg, hs⟩ := hsince
      exact .next h hbody hc hrev hprev hg hs

theorem rowsOf_commitBlocks (s : RepoStore L) (blocks : List (L.Cid × L.Block)) (did d : String)
    (newRoot : L.Cid) (event : L.Event) :
    (s.commitBlocks blocks did newRoot event).rowsOf d
      = s.rowsOf d ++ if did = d then [⟨s.lastSeq + 1, did, event, false⟩] else [] := by
  rw [RepoStore.rowsOf, RepoStore.commitBlocks, List.filter_append, RepoStore.rowsOf]
  by_cases h : did = d
  · simp [h]
  · simp [h]

theorem RepoInv.commit (hL : RepoLaws L) (hw : RepoInv w) {blocks : List (L.Cid × L.Block)}
    (hblocks : ∀ x ∈ blocks, L.cidOf x.2 = x.1) {body : CommitBody L.Cid L.Car}
    {event : L.Event} (henc : L.encodeBody body = .ok event)
    (hchain : Chains (w.store.roots.get d) body w.store.blocks.get) :
    RepoInv (w.after i (.commitBlocks blocks d body.commit event) (.ok (w.store.lastSeq + 1))
      (w.store.commitBlocks blocks d body.commit event)) where
  addressed := wellAddressed_commitBlocks hw.addressed hblocks d body.commit event
  logged := by
    rw [World.after_store, World.after_log, List.filterMap_append, ← hw.logged]
    rfl
  ordered := by
    rw [World.after_store, RepoStore.commitBlocks, List.map_append, List.pairwise_append]
    refine ⟨hw.ordered, List.pairwise_singleton _ _, fun n hn m hm => ?_⟩
    obtain ⟨r, hr, rfl⟩ := List.mem_map.mp hn
    have hle := hw.bounded r hr
    rw [List.mem_singleton.mp hm]
    show r.seq < w.store.lastSeq + 1
    omega
  bounded r hr := by
    show r.seq ≤ w.store.lastSeq + 1
    rcases List.mem_append.mp hr with hr | hr
    · have hle := hw.bounded r hr
      omega
    · rw [List.mem_singleton.mp hr]
  history d' := by
    have hle := blocksLe_commitBlocks w.store blocks d body.commit event
    have hd' := (hw.history d').mono hle
    rw [World.after_store, rowsOf_commitBlocks]
    by_cases hd : d = d'
    · subst hd
      rw [if_pos rfl]
      show History _ _ ((w.store.roots.insert d body.commit).get d)
      rw [Table.get_insert_self]
      exact hd'.snoc (hL.decode_body _ _ henc) (hchain.mono hle)
    · rw [if_neg hd, List.append_nil]
      show History _ _ ((w.store.roots.insert d body.commit).get d')
      rw [Table.get_insert_of_ne (Ne.symm hd)]
      exact hd'

/-- How a call that holds no lock any more, or is about to release it,
ended: with the one commit it made, or with none. -/
def Concluded (d : String) (i : Nat) (commit : α → L.Cid) (x : Except RepoError α)
    (w : RepoWorld L) : Prop :=
  match x with
  | .ok a => w.tally (committedAs d (commit a)) i = 1 ∧ w.tally committed i = 1
  | .error _ => w.tally committed i = 0

theorem Concluded.congr {commit : α → L.Cid} {x : Except RepoError α}
    (h : Concluded d i commit x w) (ht : ∀ p, w'.tally p i = w.tally p i) :
    Concluded d i commit x w' := by
  cases x with
  | ok a => exact ⟨(ht _).trans h.1, (ht _).trans h.2⟩
  | error e => exact (ht _).trans h

/-- Task `i` holds the lock of `d` and has settled. -/
def Leaving (d : String) (i : Nat) (commit : α → L.Cid) (x : Except RepoError α)
    (w : RepoWorld L) : Prop :=
  w.store.locks.get d = some i ∧ Concluded d i commit x w

theorem Leaving.stable {commit : α → L.Cid} {x : Except RepoError α}
    (h : Leaving d i commit x w) (hr : RepoRely i w w') : Leaving d i commit x w' :=
  ⟨hr.held d h.1, h.2.congr hr.tally⟩

theorem Crit.leaving {commit : α → L.Cid} (h : Crit d root i w) (e : RepoError) :
    Leaving d i commit (.error e) w := ⟨h.held, h.none⟩

abbrev RepoSafe (i : Nat) (post : Except RepoError α → RepoWorld L → Prop)
    (p : RepoProg L α) (w : RepoWorld L) : Prop :=
  Safe (repoContract L) RepoExec i post p w

theorem Leaving.ret {commit : α → L.Cid} {a : α} (h : Leaving d i commit (.ok a) w) :
    RepoSafe i (Leaving d i commit) (.ret a) w := fun _ hr _ => h.stable hr

/-- A part of the critical section, and what comes after it. -/
theorem CritSafe.leave {G : α → (L.Cid → Option L.Block) → Prop} {p : RepoProg L α}
    {f : α → RepoProg L β} {commit : β → L.Cid} (hinv : RepoInv w)
    (hp : CritSafe d root i G p w)
    (hf : ∀ a w', RepoInv w' → Crit d root i w' →
      BlocksLe w.store.blocks.get w'.store.blocks.get → G a w'.store.blocks.get →
      RepoSafe i (Leaving d i commit) (f a) w') :
    RepoSafe i (Leaving d i commit) (p.bind f) w := by
  refine Safe.bind (Safe.mono (fun x w' hinv' hx => ?_) hp) hinv
  obtain ⟨hcrit, hb, hgood⟩ := hx
  cases x with
  | ok a => exact hf a w' hinv' hcrit hb (hgood a rfl)
  | error e => exact hcrit.leaving e

theorem Crit.ofExcept_leave {ε : Type} {f : ε → RepoError} {x : Except ε α}
    {k : α → RepoProg L β} {post : Except RepoError β → RepoWorld L → Prop}
    (hw : Crit d root i w) (herr : ∀ w' e, Crit d root i w' → post (.error e) w')
    (h : ∀ a, x = .ok a → RepoSafe i post (k a) w) :
    RepoSafe i post ((Prog.ofExcept f x : RepoProg L α).bind k) w := by
  cases x with
  | ok a => exact h a rfl
  | error e => exact fun w' hr _ => herr w' _ (hw.stable hr)

/-- The transaction ends the critical section: the row is written and the
root moves, or nothing happens. -/
theorem safe_storeCommit (hL : RepoLaws L) (hw : Crit d root i w) {wr : RepoWriter L}
    (hd : wr.did = d) {blocks : List (L.Cid × L.Block)}
    (hblocks : ∀ x ∈ blocks, L.cidOf x.2 = x.1) {body : CommitBody L.Cid L.Car}
    (hchain : Chains root body w.store.blocks.get) :
    RepoSafe i (fun x w' => Leaving d i (fun _ => body.commit) x w'
      ∧ ∀ b, x = .ok b → b.commit = body.commit) (storeCommit wr blocks body) w := by
  subst hd
  refine hw.ofExcept_leave (fun w' e hw' => ⟨hw'.leaving e, fun _ h => by cases h⟩) ?_
  rintro event hevent w₁ hr hinv r s ⟨c, hexec⟩
  have hw₁ := hw.stable hr
  cases c with
  | done =>
      obtain ⟨rfl, rfl⟩ := Prod.mk.injEq .. |>.mp (Option.some.inj hexec)
      have hann : announced (L := L) ⟨w₁.store.lastSeq + 1, wr.did, event, false⟩
          = some body.commit := by
        rw [announced, hL.decode_body _ _ hevent]
        rfl
      have hzero : w₁.tally (committedAs wr.did body.commit) i = 0 :=
        Nat.le_zero.mp (hw₁.none ▸ w₁.tally_mono i fun _ h =>
          committed_of_committedTo (committedTo_of_committedAs h))
      refine ⟨hinv.commit hL hblocks hevent ?_, fun j hj => ?_, ?_⟩
      · rw [hw₁.root]
        exact hchain.mono hr.blocks
      · refine ⟨fun p => w₁.tally_after_of_ne p hj.symm _ _ _, blocksLe_commitBlocks _ _ _ _ _,
          fun d hd => hd, fun d hd => Table.get_insert_of_ne ?_⟩
        rintro rfl
        exact hj (Option.some.inj (hd.symm.trans hw₁.held))
      · have hleave : Leaving wr.did i (fun _ => body.commit)
            (.ok { body with seq := w₁.store.lastSeq + 1 } : Except RepoError _)
            (w₁.after i (.commitBlocks blocks wr.did body.commit event)
              (.ok (w₁.store.lastSeq + 1))
              (w₁.store.commitBlocks blocks wr.did body.commit event)) := by
          refine ⟨hw₁.held, ?_, ?_⟩
          · rw [World.tally_after_self, hzero]
            simp [committedAs, rowOf, hann]
          · rw [World.tally_after_self, hw₁.none]
            rfl
        intro w' hr' _
        refine ⟨hleave.stable hr', ?_⟩
        rintro _ ⟨⟩
        rfl
  | fault msg =>
      obtain ⟨rfl, rfl⟩ := Prod.mk.injEq .. |>.mp (Option.some.inj hexec)
      have hgrown : Grown w₁.store w₁.store := .refl hinv.addressed
      refine ⟨hinv.quiet rfl hgrown.blocks hgrown.addressed rfl rfl rfl,
        fun j hj => .grown hgrown hj, ?_⟩
      have hleave : Leaving wr.did i (fun _ => body.commit)
          (.error (.storage (.backend msg)) : Except RepoError (CommitBody L.Cid L.Car))
          (w₁.after i (.commitBlocks blocks wr.did body.commit event)
            (.error (.backend msg)) w₁.store) := by
        refine ⟨hw₁.held, ?_⟩
        show World.tally _ _ _ = 0
        rw [World.tally_after_self, hw₁.none]
        rfl
      intro w' hr' _
      refine ⟨hleave.stable hr', ?_⟩
      rintro _ ⟨⟩

/-- After the transaction a call only passes its commit on. -/
theorem Leaving.bind {p : RepoProg L α} {f : α → RepoProg L β} {c : L.Cid} {P : α → Prop}
    {commit : β → L.Cid} (hinv : RepoInv w)
    (hp : RepoSafe i (fun x w' => Leaving d i (fun _ => c) x w' ∧ ∀ a, x = .ok a → P a) p w)
    (hf : ∀ a w', RepoInv w' → P a → (∀ b, commit b = c → Leaving d i commit (.ok b) w') →
      RepoSafe i (Leaving d i commit) (f a) w') :
    RepoSafe i (Leaving d i commit) (p.bind f) w := by
  refine Safe.bind (Safe.mono (fun x w' hinv' hx => ?_) hp) hinv
  obtain ⟨hleave, hP⟩ := hx
  cases x with
  | ok a =>
      refine hf a w' hinv' (hP a rfl) fun b hb => ?_
      rw [Leaving, Concluded, hb]
      exact hleave
  | error e => exact hleave

theorem Concluded.after_quiet {commit : α → L.Cid} {x : Except RepoError α} {o : WriterOp L}
    {r : o.Ret} {s : RepoStore L} (h : Concluded d i commit x w)
    (hrow : rowOf (L := L) ⟨i, o, r⟩ = none) : Concluded d i commit x (w.after i o r s) := by
  have hself : ∀ p : Event (writerSig L) → Bool, p ⟨i, o, r⟩ = false →
      (w.after i o r s).tally p i = w.tally p i := by
    intro p hp
    rw [World.tally_after_self, hp]
    rfl
  have hcommitted := hself committed (committed_eq_false hrow)
  cases x with
  | ok a =>
      refine ⟨(hself _ ?_).trans h.1, hcommitted.trans h.2⟩
      rw [committedAs, hrow]
      rfl
  | error e => exact hcommitted.trans h

theorem Leaving.send {commit : α → L.Cid} {a : α} (h : Leaving d i commit (.ok a) w)
    (e : FirehoseEvent L.Frame) :
    RepoSafe i (Leaving d i commit) (.op (.send e) fun _ => .ret a) w := by
  rintro w₁ hr hinv r s ⟨c, hexec⟩
  have hgrown := WriterOp.Quiet.grown (o := .send e) trivial hinv.addressed hexec
  have hleave := h.stable hr
  refine ⟨hinv.grown trivial hgrown, fun j hj => .grown hgrown hj, Leaving.ret ⟨?_, ?_⟩⟩
  · rw [World.after_store, hgrown.locks]
    exact hleave.1
  · exact hleave.2.after_quiet rfl

/-! ## The calls -/

theorem safe_commitOpLocked (hL : RepoLaws L) (hinv : RepoInv w) (wr : RepoWriter L)
    (hw : Crit wr.did root i w) (op : WriteOp L.Ipld) (broadcast : Bool) (rnd : WriteDraw) :
    RepoSafe i (Leaving wr.did i fun a => a.1.commitCid) (commitOpLocked wr op broadcast rnd) w := by
  refine CritSafe.leave hinv (critSafe_openRepo hL hw wr rfl _) fun opened w₁ hinv₁ hw₁ _ ho => ?_
  refine CritSafe.leave hinv₁ (critSafe_applyRaw hL hinv₁ hw₁ opened.data op) ?_
  rintro ⟨action, key, recordCid, data, written⟩ w₂ hinv₂ hw₂ hb₂ -
  refine CritSafe.leave hinv₂ (critSafe_signCommit hL hw₂ wr _ id id) ?_
  rintro commitCid w₃ hinv₃ hw₃ hb₃ ⟨sig, hc⟩
  refine CritSafe.leave hinv₃ (critSafe_readBlocks _ hinv₃ hw₃) fun blocks w₄ hinv₄ hw₄ hb₄ hblocks => ?_
  refine hw₄.ofExcept_leave (fun _ e h => h.leaving e) fun car _ => ?_
  refine CritSafe.leave hinv₄ (critSafe_read hw₄ _ commitCid) fun block w₅ hinv₅ hw₅ hb₅ hblock => ?_
  refine CritSafe.leave hinv₅ (critSafe_revOf hw₅ hblock.1 _) ?_
  rintro rev w₆ hinv₆ hw₆ hb₆ ⟨cm, hcm, rfl⟩
  refine CritSafe.leave hinv₆ (critSafe_sinceOf hinv₆ hw₆ opened _) fun since w₇ hinv₇ hw₇ hb₇ hs => ?_
  -- the commit read back for its rev is the one just signed
  have hb := hb₃.trans (hb₄.trans (hb₅.trans (hb₆.trans hb₇)))
  have hc₇ := commitAt_mono (hb₄.trans (hb₅.trans (hb₆.trans hb₇))) hc
  have hcm₇ := commitAt_mono hb₇ hcm
  obtain rfl := Option.some.inj (hc₇.symm.trans hcm₇)
  refine Leaving.bind hinv₇ (safe_storeCommit hL hw₇ rfl hblocks
    ⟨opened, _, ho.mono (hb₂.trans hb), hc₇, rfl, rfl, hs⟩) fun body w₈ _ _ hleave => ?_
  split
  · exact (hleave _ rfl).send _
  · exact (hleave _ rfl).ret

theorem safe_applyManyLocked (hL : RepoLaws L) (hinv : RepoInv w) (wr : RepoWriter L)
    (hw : Crit wr.did root i w) (ops : List (WriteOp L.Ipld)) (rnd : WriteDraw) :
    RepoSafe i (Leaving wr.did i fun a => a.2.commit) (applyManyLocked wr ops rnd) w := by
  refine CritSafe.leave hinv (critSafe_openRepo hL hw wr rfl _) fun opened w₁ hinv₁ hw₁ _ ho => ?_
  refine CritSafe.leave hinv₁ (critSafe_prepare hL ops hinv₁ hw₁) fun prepared w₂ hinv₂ hw₂ hb₂ _ => ?_
  refine CritSafe.leave hinv₂ (critSafe_applyTree prepared opened.data hinv₂ hw₂) ?_
  rintro ⟨data, nodes⟩ w₃ hinv₃ hw₃ hb₃ -
  refine CritSafe.leave hinv₃ (critSafe_signCommit hL hw₃ wr _ _ _) ?_
  rintro commitCid w₄ hinv₄ hw₄ hb₄ ⟨sig, hc⟩
  refine CritSafe.leave hinv₄ (critSafe_readBlocks _ hinv₄ hw₄) fun blocks w₅ hinv₅ hw₅ hb₅ hblocks => ?_
  refine hw₅.ofExcept_leave (fun _ e h => h.leaving e) fun car _ => ?_
  refine CritSafe.leave hinv₅ (critSafe_sinceOf hinv₅ hw₅ opened _) fun since w₆ hinv₆ hw₆ hb₆ hs => ?_
  have hc₆ := commitAt_mono (hb₅.trans hb₆) hc
  refine Leaving.bind hinv₆ (safe_storeCommit hL hw₆ rfl hblocks
    ⟨opened, _, ho.mono (hb₂.trans (hb₃.trans (hb₄.trans (hb₅.trans hb₆)))), hc₆, rfl, rfl, hs⟩)
    fun body w₇ _ hbody hleave => ?_
  exact (hleave _ hbody).ret

/-- The write lock: a task takes it where nobody holds it, and gives it
back on every way out. -/
theorem safe_locked {p : RepoProg L α} {commit : α → L.Cid} (hfresh : w.tally committed i = 0)
    (hp : ∀ root w', RepoInv w' → Crit d root i w' → RepoSafe i (Leaving d i commit) p w') :
    RepoSafe i (Concluded d i commit) (.op (.lock d) fun _ => p.ensuring (.unlock d)) w := by
  rintro w₁ hr hinv r s ⟨c, hexec⟩
  cases c with
  | fault => cases hexec
  | done =>
      simp only [WriterOp.exec] at hexec
      split at hexec
      · cases hexec
      rename_i hfree
      obtain ⟨-, rfl⟩ := Prod.mk.injEq .. |>.mp (Option.some.inj hexec)
      have hinv₁ : RepoInv (w₁.after i (.lock d) r
          { w₁.store with locks := w₁.store.locks.insert d i }) :=
        hinv.quiet rfl (BlocksLe.refl _) hinv.addressed rfl rfl rfl
      refine ⟨hinv₁, fun j hj => ?_, ?_⟩
      · refine ⟨fun p => w₁.tally_after_of_ne p hj.symm _ _ _, BlocksLe.refl _, fun d' hd' => ?_,
          fun _ _ => rfl⟩
        have hne : d' ≠ d := by
          rintro rfl
          exact hfree (Table.contains_iff.mpr ⟨j, hd'⟩)
        exact (Table.get_insert_of_ne hne).trans hd'
      · have hcrit : Crit d (w₁.store.roots.get d) i (w₁.after i (.lock d) r
            { w₁.store with locks := w₁.store.locks.insert d i }) := by
          refine ⟨Table.get_insert_self _ _ _, rfl, ?_⟩
          rw [World.tally_after_self, hr.tally, hfresh]
          rfl
        refine Safe.ensuring (Safe.mono (fun x w₂ hinv₂ hx => ?_) (hp _ _ hinv₁ hcrit))
        rintro r₂ s₂ ⟨c₂, hexec₂⟩
        obtain ⟨-, rfl⟩ := Prod.mk.injEq .. |>.mp (Option.some.inj hexec₂)
        refine ⟨hinv₂.quiet rfl (BlocksLe.refl _) hinv₂.addressed rfl rfl rfl, fun j hj => ?_,
          fun w₃ hr₃ _ => ?_⟩
        · refine ⟨fun p => w₂.tally_after_of_ne p hj.symm _ _ _, BlocksLe.refl _,
            fun d' hd' => ?_, fun _ _ => rfl⟩
          have hne : d' ≠ d := by
            rintro rfl
            exact hj (Option.some.inj (hd'.symm.trans hx.1))
          exact (Table.get_remove_of_ne hne).trans hd'
        · exact (hx.2.after_quiet rfl).congr hr₃.tally

end

end Stelyph
