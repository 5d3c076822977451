import Stelyph.RepoClosed

/-!
# What a commit lists

The event of a commit lists its writes, and each record it names is
there: the block under the listed CID is the encoded record.
-/

namespace Stelyph

section

variable {L : RepoLib} {α β : Type} {s t u : RepoStore L} {w : RepoWriter L}

/-! ## Blocks stay -/

theorem WriterOp.blocksLe {o : WriterOp L} {c : WriterFate} {r : o.Ret}
    (h : writerExec s o c = some (r, t)) : BlocksLe s.blocks.get t.blocks.get := by
  cases o with
  | loadRepoRoot did => exact (WriterOp.Local.unmoved (o := .loadRepoRoot did) trivial h).blocks
  | readBlock cid => exact (WriterOp.Local.unmoved (o := .readBlock cid) trivial h).blocks
  | writeBlock b => exact (WriterOp.Local.unmoved (o := .writeBlock b) trivial h).blocks
  | tree root op => exact (WriterOp.Local.unmoved (o := .tree root op) trivial h).blocks
  | lock did =>
      cases c with
      | fault => cases h
      | done =>
          simp only [writerExec, WriterOp.exec] at h
          split at h
          · cases h
          · obtain ⟨-, rfl⟩ := Prod.mk.injEq .. |>.mp (Option.some.inj h)
            exact BlocksLe.refl _
  | unlock did | send e =>
      obtain ⟨-, rfl⟩ := Prod.mk.injEq .. |>.mp (Option.some.inj h)
      exact BlocksLe.refl _
  | commitBlocks blocks did newRoot event =>
      cases c with
      | fault =>
          obtain ⟨-, rfl⟩ := Prod.mk.injEq .. |>.mp (Option.some.inj h)
          exact BlocksLe.refl _
      | done =>
          obtain ⟨-, rfl⟩ := Prod.mk.injEq .. |>.mp (Option.some.inj h)
          exact blocksLe_commitBlocks s blocks did newRoot event

theorem yields_blocksLe : ∀ {p : RepoProg L α} {s : RepoStore L},
    RepoYields p s fun _ t => BlocksLe s.blocks.get t.blocks.get
  | .ret _, _ => BlocksLe.refl _
  | .fail _, _ => BlocksLe.refl _
  | .op _ _, _ => fun _ _ _ h =>
      yields_blocksLe.mono fun _ _ hle => (WriterOp.blocksLe h).trans hle

/-! ## Listed writes -/

/-- The event's entry for a write. -/
def WriteOp.Lists (t : RepoStore L) (op : WriteOp L.Ipld) (o : RepoOp L.Cid) : Prop :=
  match op with
  | .create _ record | .update _ record => ∃ block, L.encodeRecord record = .ok block
      ∧ o.cid = some (L.cidOf block) ∧ t.blocks.get (L.cidOf block) = some block
  | .delete _ => o.cid = none

/-- The event of a commit, for the writes it was made of. -/
structure Listing (w : RepoWriter L) (ops : List (WriteOp L.Ipld)) (t : RepoStore L)
    (body : CommitBody L.Cid L.Car) : Prop where
  repo : body.repo = w.did
  lists : List.Forall₂ (WriteOp.Lists t) ops body.ops

theorem WriteOp.Lists.mono {op : WriteOp L.Ipld} {o : RepoOp L.Cid} (h : op.Lists t o)
    (hle : BlocksLe t.blocks.get u.blocks.get) : op.Lists u o := by
  cases op with
  | create key record | update key record =>
      obtain ⟨block, hblock, hcid, hget⟩ := h
      exact ⟨block, hblock, hcid, hle _ _ hget⟩
  | delete key => exact h

theorem lists_putRaw (hL : RepoLaws L) (hs : WellAddressed s.blocks) {data : L.Cid}
    {op : WriteOp L.Ipld} {record : L.Ipld} {action key : String} (put : L.Cid → TreeOp L.Cid)
    (hop : ∀ t o block, L.encodeRecord record = .ok block → o.cid = some (L.cidOf block) →
      t.blocks.get (L.cidOf block) = some block → op.Lists t o) :
    RepoYields ((encodeAndWrite record id).bind fun cid => (treeRepo data (put cid) id).bind
        fun (root, nodes) => .ret (action, key, some cid, root, cid :: nodes)) s
      fun x t => ∀ a, x = .ok a → op.Lists t ⟨a.1, a.2.1, a.2.2.1⟩ := by
  refine Prog.Yields.bind_ok ((adds_encodeAndWrite hL hs record id).mono fun _ _ h => h.2) ?_
  intro cid t hcid
  obtain ⟨block, hblock, hcid, hget⟩ := hcid
  refine Prog.Yields.bind_ok ((yields_local (local_tree _ _ _)).mono fun _ _ h _ _ => h.blocks) ?_
  intro a u hle b hb
  obtain rfl := Except.ok.inj hb
  exact hop u _ block hblock (congrArg some hcid) (hle _ _ (hcid ▸ hget))

theorem lists_applyRaw (hL : RepoLaws L) (hs : WellAddressed s.blocks) (data : L.Cid)
    (op : WriteOp L.Ipld) :
    RepoYields (applyRaw data op) s
      fun x t => ∀ a, x = .ok a → op.Lists t ⟨a.1, a.2.1, a.2.2.1⟩ := by
  cases op with
  | create key record =>
      exact lists_putRaw hL hs (.add key) fun t o block h h' h'' => ⟨block, h, h', h''⟩
  | update key record =>
      exact lists_putRaw hL hs (.update key) fun t o block h h' h'' => ⟨block, h, h', h''⟩
  | delete key =>
      have htree : RepoYields (treeRepo data (.delete key) id) s fun x _ => ∀ a, x = .ok a → True :=
        yields_blocksLe.mono fun _ _ _ _ _ => trivial
      refine Prog.Yields.bind_ok htree ?_
      intro a u _ b hb
      obtain rfl := Except.ok.inj hb
      rfl

/-- The records of a batch are written in turn, and stay. -/
theorem lists_prepare_cons (hL : RepoLaws L) (hs : WellAddressed s.blocks) {op : WriteOp L.Ipld}
    {ops : List (WriteOp L.Ipld)} {record : L.Ipld} {action key : String} (err : String → String)
    (ih : ∀ {t : RepoStore L}, WellAddressed t.blocks → RepoYields (prepare ops) t
      fun x u => ∀ ps, x = .ok ps → List.Forall₂ (WriteOp.Lists u) ops (ps.map Prepared.listed))
    (hop : ∀ t o block, L.encodeRecord record = .ok block → o.cid = some (L.cidOf block) →
      t.blocks.get (L.cidOf block) = some block → op.Lists t o) :
    RepoYields ((encodeAndWrite record err).bind fun cid => (prepare ops).bind
        fun rest => .ret (⟨action, key, some cid⟩ :: rest)) s
      fun x t => ∀ ps, x = .ok ps →
        List.Forall₂ (WriteOp.Lists t) (op :: ops) (ps.map Prepared.listed) := by
  refine Prog.Yields.bind ?_ (fun _ _ _ _ h => nomatch h) (adds_encodeAndWrite hL hs record err)
  intro cid t hcid
  obtain ⟨block, hblock, hcid', hget⟩ := hcid.2 cid rfl
  refine Prog.Yields.bind ?_ (fun _ _ _ _ h => nomatch h)
    ((ih hcid.1.addressed).and yields_blocksLe)
  intro rest u hrest ps hps
  obtain rfl := Except.ok.inj hps
  refine .cons ?_ (hrest.1 rest rfl)
  exact hop u _ block hblock (congrArg some hcid') (hrest.2 _ _ (hcid' ▸ hget))

theorem lists_prepare (hL : RepoLaws L) (ops : List (WriteOp L.Ipld)) :
    ∀ {s : RepoStore L}, WellAddressed s.blocks → RepoYields (prepare ops) s
      fun x t => ∀ ps, x = .ok ps →
        List.Forall₂ (WriteOp.Lists t) ops (ps.map Prepared.listed) := by
  induction ops with
  | nil =>
      intro s _ ps hps
      obtain rfl := Except.ok.inj hps
      exact .nil
  | cons op ops ih =>
      intro s hs
      cases op with
      | create key record | update key record =>
          exact lists_prepare_cons hL hs _ ih fun t o block h h' h'' => ⟨block, h, h', h''⟩
      | delete key =>
          refine Prog.Yields.bind_ok (ih hs) ?_
          intro rest t hrest ps hps
          obtain rfl := Except.ok.inj hps
          exact .cons rfl hrest

/-! ## The two calls -/

theorem returns_storeCommit {blocks : List (L.Cid × L.Block)} {body body' : CommitBody L.Cid L.Car}
    (h : (storeCommit w blocks body).Returns body') : ∃ seq, body' = { body with seq := seq } := by
  obtain ⟨event, -, r, hr⟩ := Prog.returns_bind.mp h
  obtain ⟨seq, -, hseq⟩ := Prog.returns_bind.mp hr
  exact ⟨seq, hseq.symm⟩

theorem listing_locked {p : RepoProg L α} {ops : List (WriteOp L.Ipld)}
    {g : α → CommitBody L.Cid L.Car}
    (hp : ∀ s', s'.blocks = s.blocks → RepoYields p s'
      fun x t => ∀ a, x = .ok a → Listing w ops t (g a)) :
    RepoYields (.op (.lock w.did) fun _ => p.ensuring (.unlock w.did)) s
      fun x t => ∀ a, x = .ok a → Listing w ops t (g a) := by
  intro c r s' hexec
  cases c with
  | fault => cases hexec
  | done =>
      simp only [writerExec, WriterOp.exec] at hexec
      split at hexec
      · cases hexec
      · obtain ⟨-, rfl⟩ := Prod.mk.injEq .. |>.mp (Option.some.inj hexec)
        refine Prog.Yields.ensuring ?_ (hp _ rfl)
        intro x t c r u hx hunlock a ha
        have hle := WriterOp.blocksLe (o := .unlock w.did) hunlock
        have h := hx a ha
        exact ⟨h.repo, h.lists.imp fun _ _ hl => hl.mono hle⟩

/-- What comes after the writes are listed only carries the list along. -/
theorem Listing.of_returns {p : RepoProg L α} {ops : List (WriteOp L.Ipld)}
    {listed : List (RepoOp L.Cid)} {g : α → CommitBody L.Cid L.Car}
    (hlisted : List.Forall₂ (WriteOp.Lists s) ops listed)
    (hp : ∀ a, p.Returns a → (g a).repo = w.did ∧ (g a).ops = listed) :
    RepoYields p s fun x t => ∀ a, x = .ok a → Listing w ops t (g a) := by
  refine (Prog.yields_returns.and yields_blocksLe).mono ?_
  intro x t hx a ha
  obtain ⟨hrepo, hops⟩ := hp a (hx.1 a ha)
  exact ⟨hrepo, hops ▸ hlisted.imp fun _ _ hl => hl.mono hx.2⟩

theorem listing_commitOpLocked (hL : RepoLaws L) (hs : WellAddressed s.blocks)
    (op : WriteOp L.Ipld) (broadcast : Bool) (rnd : WriteDraw) :
    RepoYields (commitOpLocked w op broadcast rnd) s
      fun x t => ∀ a, x = .ok a → Listing w [op] t a.2 := by
  refine Prog.Yields.bind ?_ (fun _ _ _ _ h => nomatch h) (yields_local (local_openRepo _ _))
  intro opened t ht
  refine Prog.Yields.bind_ok (lists_applyRaw hL (ht.addressed hs) _ op) ?_
  rintro ⟨action, key, recordCid, data, written⟩ u hu
  refine Listing.of_returns (.cons hu .nil) ?_
  intro a ha
  obtain ⟨commitCid, -, ha⟩ := Prog.returns_bind.mp ha
  obtain ⟨blocks, -, ha⟩ := Prog.returns_bind.mp ha
  obtain ⟨car, -, ha⟩ := Prog.returns_bind.mp ha
  obtain ⟨block, -, ha⟩ := Prog.returns_bind.mp ha
  obtain ⟨rev, -, ha⟩ := Prog.returns_bind.mp ha
  obtain ⟨since, -, ha⟩ := Prog.returns_bind.mp ha
  obtain ⟨body, hbody, ha⟩ := Prog.returns_bind.mp ha
  obtain ⟨seq, rfl⟩ := returns_storeCommit hbody
  cases broadcast with
  | false =>
      obtain rfl := ha
      exact ⟨rfl, rfl⟩
  | true =>
      obtain ⟨-, rfl⟩ := ha
      exact ⟨rfl, rfl⟩

theorem listing_applyManyLocked (hL : RepoLaws L) (hs : WellAddressed s.blocks)
    (ops : List (WriteOp L.Ipld)) (rnd : WriteDraw) :
    RepoYields (applyManyLocked w ops rnd) s
      fun x t => ∀ a, x = .ok a → Listing w ops t a.2 := by
  refine Prog.Yields.bind ?_ (fun _ _ _ _ h => nomatch h) (yields_local (local_openRepo _ _))
  intro opened t ht
  refine Prog.Yields.bind_ok (lists_prepare hL ops (ht.addressed hs)) ?_
  intro prepared u hu
  refine Listing.of_returns hu ?_
  intro a ha
  obtain ⟨⟨data, nodes⟩, -, ha⟩ := Prog.returns_bind.mp ha
  obtain ⟨commitCid, -, ha⟩ := Prog.returns_bind.mp ha
  obtain ⟨blocks, -, ha⟩ := Prog.returns_bind.mp ha
  obtain ⟨car, -, ha⟩ := Prog.returns_bind.mp ha
  obtain ⟨since, -, ha⟩ := Prog.returns_bind.mp ha
  obtain ⟨body, hbody, ha⟩ := Prog.returns_bind.mp ha
  obtain ⟨seq, rfl⟩ := returns_storeCommit hbody
  obtain rfl := ha
  exact ⟨rfl, rfl⟩

theorem listing_commitOp (hL : RepoLaws L) (hs : WellAddressed s.blocks) (w : RepoWriter L)
    (op : WriteOp L.Ipld) (broadcast : Bool) (rnd : WriteDraw) :
    RepoYields (commitOp w op broadcast rnd) s
      fun x t => ∀ a, x = .ok a → Listing w [op] t a.2 :=
  listing_locked fun _ hblocks => listing_commitOpLocked hL (hblocks ▸ hs) op broadcast rnd

theorem listing_applyManyParts (hL : RepoLaws L) (hs : WellAddressed s.blocks)
    (w : RepoWriter L) (ops : List (WriteOp L.Ipld)) (rnd : WriteDraw) :
    RepoYields (applyManyParts w ops rnd) s
      fun x t => ∀ a, x = .ok a → Listing w ops t a.2 := by
  rw [applyManyParts]
  split_ifs
  · intro a ha
    cases ha
  · exact listing_locked fun _ hblocks => listing_applyManyLocked hL (hblocks ▸ hs) ops rnd

end

end Stelyph
