import Stelyph.RepoBatch
import Stelyph.RepoCalls

/-!
# Failed writes and closed roots

A call that returns an error has left nothing but blocks, on every store
and wherever it failed. And in every state that calls can reach, one
after another, every root is closed: all that it and the commits before
it point to is in the block table. Blocks are written one by one before
the transaction, but a root only moves to a commit whose tree is complete.
-/

namespace Stelyph

section

variable {L : RepoLib} {α β : Type} {s t u : RepoStore L}

/-! ## Where a call can fail -/

/-- If the program ends with an error, it has only added blocks. -/
def Quits (s : RepoStore L) (x : Except RepoError α) (t : RepoStore L) : Prop :=
  ∀ e, x = .error e → Unmoved s t

theorem Unmoved.refl (s : RepoStore L) : Unmoved s s :=
  ⟨rfl, rfl, rfl, BlocksLe.refl _, fun _ _ hb => Or.inl hb⟩

theorem unmoved_putBlocks (s : RepoStore L) (bs : List L.Block) :
    Unmoved s { s with blocks := putBlocks s.blocks bs } := by
  refine ⟨rfl, rfl, rfl, blocksLe_putBlocks _ _, ?_⟩
  have hgen : ∀ (bs : List L.Block) (t : Table L.Cid L.Block) c b,
      (putBlocks t bs).get c = some b → t.get c = some b ∨ L.cidOf b = c := by
    intro bs
    induction bs with
    | nil => exact fun t c b hb => Or.inl hb
    | cons b' bs ih =>
        intro t c b hb
        rcases ih (putBlock t b') c b hb with hold | hnew
        · rcases Table.get_insertOrIgnore_cases hold with hold | ⟨rfl, rfl⟩
          · exact Or.inl hold
          · exact Or.inr rfl
        · exact Or.inr hnew
  exact hgen bs s.blocks

theorem WriterOp.Local.unmoved {o : WriterOp L} (ho : o.Local) {c : WriterFate} {r : o.Ret}
    (h : writerExec s o c = some (r, t)) : Unmoved s t := by
  cases o with
  | lock | unlock | commitBlocks | send => exact ho.elim
  | loadRepoRoot did =>
      cases c with
      | done | fault =>
          obtain ⟨-, rfl⟩ := Prod.mk.injEq .. |>.mp (Option.some.inj h)
          exact .refl s
  | readBlock cid =>
      cases c with
      | done =>
          simp only [writerExec, WriterOp.exec] at h
          split at h
          · obtain ⟨-, rfl⟩ := Prod.mk.injEq .. |>.mp (Option.some.inj h)
            exact .refl s
          · obtain ⟨-, rfl⟩ := Prod.mk.injEq .. |>.mp (Option.some.inj h)
            exact .refl s
      | fault =>
          obtain ⟨-, rfl⟩ := Prod.mk.injEq .. |>.mp (Option.some.inj h)
          exact .refl s
  | writeBlock b =>
      cases c with
      | done =>
          obtain ⟨-, rfl⟩ := Prod.mk.injEq .. |>.mp (Option.some.inj h)
          exact unmoved_putBlocks s [b]
      | fault =>
          obtain ⟨-, rfl⟩ := Prod.mk.injEq .. |>.mp (Option.some.inj h)
          exact .refl s
  | tree root op =>
      cases c with
      | done | fault =>
          simp only [writerExec, WriterOp.exec] at h
          split at h
          · obtain ⟨-, rfl⟩ := Prod.mk.injEq .. |>.mp (Option.some.inj h)
            exact unmoved_putBlocks s _
          · obtain ⟨-, rfl⟩ := Prod.mk.injEq .. |>.mp (Option.some.inj h)
            exact .refl s

theorem yields_local {p : RepoProg L α} (hp : p.Local) : RepoYields p s fun _ t => Unmoved s t :=
  Prog.Each.yields Unmoved.refl (fun _ _ _ h h' => h.trans h')
    (fun _ _ _ _ _ ho h => WriterOp.Local.unmoved ho h) hp

/-- Before the transaction a failure leaves blocks, and what comes later
can only fail in the same way. -/
theorem quits_bind {p : RepoProg L α} {f : α → RepoProg L β} (hp : p.Local)
    (hf : ∀ a t, RepoYields (f a) t (Quits t)) : RepoYields (p.bind f) s (Quits s) := by
  refine Prog.Yields.bind ?_ ?_ (yields_local hp)
  · intro a t ht
    exact (hf a t).mono fun x u hu e he => ht.trans (hu e he)
  · intro e t ht _ _
    exact ht

/-- After the transaction nothing fails. -/
theorem quits_then {p : RepoProg L α} {f : α → RepoProg L β} (hp : RepoYields p s (Quits s))
    (hf : ∀ a t, RepoYields (f a) t fun x _ => ∃ b, x = .ok b) :
    RepoYields (p.bind f) s (Quits s) := by
  refine Prog.Yields.bind ?_ ?_ hp
  · intro a t _
    refine (hf a t).mono fun x u hx e he => ?_
    obtain ⟨b, hb⟩ := hx
    cases hb.symm.trans he
  · intro e t ht e' he'
    exact ht e rfl

theorem quits_storeCommit (w : RepoWriter L) (blocks : List (L.Cid × L.Block))
    (body : CommitBody L.Cid L.Car) : RepoYields (storeCommit w blocks body) s (Quits s) := by
  refine quits_bind (Prog.each_ofExcept _ _ _) fun event t c r u hexec => ?_
  cases c with
  | fault msg part =>
      obtain ⟨rfl, rfl⟩ := Prod.mk.injEq .. |>.mp (Option.some.inj hexec)
      exact fun _ _ => .refl t
  | done =>
      obtain ⟨rfl, rfl⟩ := Prod.mk.injEq .. |>.mp (Option.some.inj hexec)
      exact fun e he => nomatch he

theorem quits_commitOpLocked (w : RepoWriter L) (op : WriteOp L.Ipld) (broadcast : Bool)
    (rnd : WriteDraw) : RepoYields (commitOpLocked w op broadcast rnd) s (Quits s) := by
  refine quits_bind (local_openRepo _ _) fun opened t₁ => ?_
  refine quits_bind (local_applyRaw _ _) fun applied t₂ => ?_
  refine quits_bind (local_signCommit _ _ _ _) fun commitCid t₃ => ?_
  refine quits_bind (local_readBlocks _) fun blocks t₄ => ?_
  refine quits_bind (Prog.each_ofExcept _ _ _) fun car t₅ => ?_
  refine quits_bind (local_read _ _) fun block t₆ => ?_
  refine quits_bind (local_revOf _ _) fun rev t₇ => ?_
  refine quits_bind (local_sinceOf _ _) fun since t₈ => ?_
  refine quits_then (quits_storeCommit w blocks _) fun body t₉ => ?_
  dsimp only
  split_ifs
  · exact fun c r v _ => ⟨_, rfl⟩
  · exact ⟨_, rfl⟩

theorem quits_applyManyLocked (w : RepoWriter L) (ops : List (WriteOp L.Ipld)) (rnd : WriteDraw) :
    RepoYields (applyManyLocked w ops rnd) s (Quits s) := by
  refine quits_bind (local_openRepo _ _) fun opened t₁ => ?_
  refine quits_bind (local_prepare _) fun prepared t₂ => ?_
  refine quits_bind (local_applyTree _ _) fun applied t₃ => ?_
  refine quits_bind (local_signCommit _ _ _ _) fun commitCid t₄ => ?_
  refine quits_bind (local_readBlocks _) fun blocks t₅ => ?_
  refine quits_bind (Prog.each_ofExcept _ _ _) fun car t₆ => ?_
  refine quits_bind (local_sinceOf _ _) fun since t₇ => ?_
  exact quits_then (quits_storeCommit w blocks _) fun body t₈ => ⟨_, rfl⟩

theorem quits_locked {p : RepoProg L α} {did : String} (hp : ∀ s, RepoYields p s (Quits s)) :
    RepoYields (.op (.lock did) fun _ => p.ensuring (.unlock did)) s (Quits s) := by
  intro c r s' hexec
  cases c with
  | fault => cases hexec
  | done =>
      simp only [writerExec, WriterOp.exec] at hexec
      split at hexec
      · cases hexec
      · obtain ⟨-, rfl⟩ := Prod.mk.injEq .. |>.mp (Option.some.inj hexec)
        refine Prog.Yields.ensuring ?_ (hp _)
        intro x t c r u hx hunlock e he
        obtain ⟨-, rfl⟩ := Prod.mk.injEq .. |>.mp (Option.some.inj hunlock)
        have h := hx e he
        exact ⟨h.roots, h.rows, h.lastSeq, h.blocks, h.pairs⟩

theorem quits_applyManyParts (w : RepoWriter L) (ops : List (WriteOp L.Ipld)) (rnd : WriteDraw) :
    RepoYields (applyManyParts w ops rnd) s (Quits s) := by
  rw [applyManyParts]
  split_ifs
  · exact fun _ _ => .refl s
  · exact quits_locked fun _ => quits_applyManyLocked w ops rnd

/-! ## Closed roots -/

/-- A commit whose tree is complete, and so on back to the first. -/
inductive Rooted (K : TreeLinks L) (f : L.Cid → Option L.Block) : L.Cid → Prop where
  | mk {k : L.Cid} {cm : SignedCommit L.Cid} (hcm : commitAt f k = some cm)
      (hdata : TreeClosed K f cm.data) (hprev : ∀ p, cm.prev = some p → Rooted K f p) :
      Rooted K f k

variable {K : TreeLinks L} {view : TreeView L}

theorem Rooted.mono {f g : L.Cid → Option L.Block} (hle : BlocksLe f g) {k : L.Cid}
    (h : Rooted K f k) : Rooted K g k := by
  induction h with
  | mk hcm hdata _ ih => exact .mk (commitAt_mono hle hcm) (hdata.mono hle) ih

theorem Rooted.of_commitIn {f : L.Cid → Option L.Block} {root k : L.Cid} (h : Rooted K f root)
    (hk : CommitIn f root k) : Rooted K f k := by
  induction hk with
  | root => exact h
  | prev _ hcm hp ih =>
      cases ih with
      | mk hcm' _ hprev =>
          obtain rfl := Option.some.inj (hcm'.symm.trans hcm)
          exact hprev _ hp

theorem Rooted.isSome {f : L.Cid → Option L.Block} {k c : L.Cid} (h : Rooted K f k)
    (hc : ReachedBy K f k c) : (f c).isSome = true := by
  cases h with
  | mk hcm hdata _ =>
      rcases hc with rfl | ⟨cm', hcm', hin⟩
      · obtain ⟨b, hb, -⟩ := Option.bind_eq_some_iff.mp hcm
        exact Option.isSome_iff_exists.mpr ⟨b, hb⟩
      · obtain rfl := Option.some.inj (hcm.symm.trans hcm')
        rcases hin with hnode | hrec
        · obtain ⟨b, hb, -⟩ := hdata c hnode
          exact Option.isSome_iff_exists.mpr ⟨b, hb⟩
        · exact hdata.isSome_of_recordIn hrec

/-- What calls keep: blocks under their CIDs, and every repository on a
complete tree at a closed root. -/
structure CallsInv (view : TreeView L) (K : TreeLinks L) (s : RepoStore L) : Prop where
  addressed : WellAddressed s.blocks
  standing : ∀ did, ∃ m, Standing view K s did m
  rooted : ∀ did root, s.roots.get did = some root → Rooted K s.blocks.get root

theorem callsInv_empty : CallsInv view K (RepoStore.empty L) :=
  ⟨wellAddressed_empty, fun _ => ⟨_, rfl⟩, fun _ _ h => by cases h⟩

theorem Standing.mono (hV : TreeLaws L view) {did : String} {m : RecordMap L}
    (h : Standing view K s did m) (hle : BlocksLe s.blocks.get t.blocks.get)
    (hroot : t.roots.get did = s.roots.get did) : Standing view K t did m := by
  unfold Standing at h ⊢
  rw [hroot]
  split at h
  · exact h
  · obtain ⟨cm, hcm, htree⟩ := h
    exact ⟨cm, commitAt_mono hle hcm, htree.mono hV hle⟩

theorem CallsInv.unmoved (hV : TreeLaws L view) (h : CallsInv view K s) (hu : Unmoved s t) :
    CallsInv view K t where
  addressed := hu.addressed h.addressed
  standing did := by
    obtain ⟨m, hm⟩ := h.standing did
    exact ⟨m, hm.mono hV hu.blocks (by rw [hu.roots])⟩
  rooted did root hroot := (h.rooted did root (hu.roots ▸ hroot)).mono hu.blocks

theorem Wrote.standing {w : RepoWriter L} {rnd : WriteDraw} {m : RecordMap L} {o : Opened L}
    {data : L.Cid} {blocks : List (L.Cid × L.Block)} {body : CommitBody L.Cid L.Car}
    (h : Wrote view K w rnd s t m o data blocks body) :
    Standing view K t w.did (applyOps m body.ops) := by
  obtain ⟨sig, hcommit⟩ := h.commit
  rw [Standing, h.roots, Table.get_insert_self]
  exact ⟨_, hcommit, h.tree⟩

theorem Wrote.rowsOf_of_ne {w : RepoWriter L} {rnd : WriteDraw} {m : RecordMap L} {o : Opened L}
    {data : L.Cid} {blocks : List (L.Cid × L.Block)} {body : CommitBody L.Cid L.Car}
    (hw : Wrote view K w rnd s t m o data blocks body) {did : String} (hdid : did ≠ w.did) :
    t.rowsOf did = s.rowsOf did := by
  obtain ⟨event, -, hrows⟩ := hw.row
  rw [RepoStore.rowsOf, hrows, List.filter_append, RepoStore.rowsOf]
  simp [Ne.symm hdid]

theorem Wrote.rowsOf_self {w : RepoWriter L} {rnd : WriteDraw} {m : RecordMap L} {o : Opened L}
    {data : L.Cid} {blocks : List (L.Cid × L.Block)} {body : CommitBody L.Cid L.Car}
    (hw : Wrote view K w rnd s t m o data blocks body) :
    ∃ row, L.decodeBody row.event = .ok { body with seq := 0 }
      ∧ t.rowsOf w.did = s.rowsOf w.did ++ [row] := by
  obtain ⟨event, hdec, hrows⟩ := hw.row
  refine ⟨⟨s.lastSeq + 1, w.did, event, false⟩, hdec, ?_⟩
  rw [RepoStore.rowsOf, hrows, List.filter_append, RepoStore.rowsOf]
  simp

/-- The new commit is closed because the one it chains from is. -/
theorem Wrote.rooted (hK : LinkLaws K) {w : RepoWriter L} {rnd : WriteDraw} {m : RecordMap L}
    {o : Opened L} {data : L.Cid} {blocks : List (L.Cid × L.Block)}
    {body : CommitBody L.Cid L.Car} (h : Wrote view K w rnd s t m o data blocks body)
    (hs : CallsInv view K s) : Rooted K t.blocks.get body.commit := by
  obtain ⟨sig, hcommit⟩ := h.commit
  refine .mk hcommit h.tree.closed fun p hp => ?_
  obtain rfl := Option.some.inj hp
  cases h.starts with
  | stored cm hroot _ _ _ => exact (hs.rooted _ _ hroot).mono h.grown
  | created sig' _ hgenesis hget _ hcid _ =>
      refine .mk hgenesis ?_ fun p hp => nomatch hp
      rw [hcid] at hget ⊢
      exact treeClosed_empty hK hget

theorem CallsInv.wrote (hV : TreeLaws L view) (hK : LinkLaws K) (h : CallsInv view K s)
    {w : RepoWriter L} {rnd : WriteDraw} {m : RecordMap L} {o : Opened L} {data : L.Cid}
    {blocks : List (L.Cid × L.Block)} {body : CommitBody L.Cid L.Car}
    (hw : Wrote view K w rnd s t m o data blocks body) : CallsInv view K t where
  addressed := hw.addressed
  standing did := by
    by_cases hdid : did = w.did
    · rw [hdid]
      exact ⟨_, hw.standing⟩
    · obtain ⟨m', hm'⟩ := h.standing did
      exact ⟨m', hm'.mono hV hw.grown (by rw [hw.roots, Table.get_insert_of_ne hdid])⟩
  rooted did root hroot := by
    rw [hw.roots] at hroot
    rcases Table.get_insert_eq_some.mp hroot with ⟨-, rfl⟩ | ⟨-, hold⟩
    · exact hw.rooted hK h
    · exact (h.rooted did root hold).mono hw.grown

/-! ## Calls, one after another -/

/-- A call that is served to its end, and how each of its store calls comes out. -/
structure ServedCall (L : RepoLib) where
  request : RepoRequest L
  fates : List WriterFate

/-- One call after the other, each with its own faults; what it answers is left out. -/
def callStep (s : RepoStore L) (c : ServedCall L) : Option (RepoStore L) :=
  (c.request.handler.against writerExec s c.fates).map Prod.snd

theorem callsInv_step (hL : RepoLaws L) (hV : TreeLaws L view) (hK : LinkLaws K)
    {c : ServedCall L} (hs : CallsInv view K s) (h : callStep s c = some t) :
    CallsInv view K t := by
  obtain ⟨⟨x, t'⟩, hrun, rfl⟩ := Option.map_eq_some_iff.mp h
  obtain ⟨m, hm⟩ := hs.standing c.request.writer.did
  have hend := (yields_handler hL hV hK hs.addressed c.request hm).of_against hrun
  cases x with
  | error e => exact hs.unmoved hV hend
  | ok a =>
      obtain ⟨o, data, blocks, body, hwrote⟩ := hend
      exact hs.wrote hV hK hwrote

/-- A failing call leaves roots and log as they were, on every store and
wherever it fails; and whatever calls were made, failing or not, all that
a root and the commits before it point to is there. -/
theorem failures_leave_blocks_and_roots_closed (hL : RepoLaws L) (hV : TreeLaws L view)
    (hK : LinkLaws K) :
    (∀ (w : RepoWriter L) (op : WriteOp L.Ipld) (broadcast : Bool) (rnd : WriteDraw)
      (s t : RepoStore L) (fates : List WriterFate) (e : RepoError),
      (commitOp w op broadcast rnd).against writerExec s fates = some (.error e, t) → Unmoved s t)
    ∧ (∀ (w : RepoWriter L) (ops : List (WriteOp L.Ipld)) (rnd : WriteDraw)
      (s t : RepoStore L) (fates : List WriterFate) (e : RepoError),
      (applyManyParts w ops rnd).against writerExec s fates = some (.error e, t) → Unmoved s t)
    ∧ ∀ (cs : List (ServedCall L)) (s : RepoStore L),
      Steps.run callStep (RepoStore.empty L) cs = some s →
      ∀ did root, s.roots.get did = some root → ∀ k, CommitIn s.blocks.get root k →
        ∀ c, ReachedBy K s.blocks.get k c → (s.blocks.get c).isSome = true := by
  refine ⟨?_, ?_, ?_⟩
  · intro w op broadcast rnd s t fates e hrun
    have h : RepoYields (commitOp w op broadcast rnd) s (Quits s) :=
      quits_locked fun _ => quits_commitOpLocked w op broadcast rnd
    exact h.of_against hrun e rfl
  · intro w ops rnd s t fates e hrun
    exact (quits_applyManyParts w ops rnd).of_against hrun e rfl
  · intro cs s hrun did root hroot k hk c hc
    have hinv : CallsInv view K s :=
      Steps.run_inv (fun _ _ _ hs h => callsInv_step hL hV hK hs h) callsInv_empty hrun
    exact ((hinv.rooted did root hroot).of_commitIn hk).isSome hc

end

/-- A write that goes through, and a batch whose tree operation fails. -/
def sampleCalls : List (ServedCall sampleRepo) :=
  [⟨⟨sampleWriter, .applyOne (.create "app.bsky.feed.post/1" (7 : Nat)), sampleDraw⟩,
      List.replicate 16 .done⟩,
    ⟨⟨sampleWriter, .applyMany [.create "app.bsky.feed.post/2" (8 : Nat)], sampleDraw⟩,
      [.done, .done, .done, .done, .fault "disk full" 0, .done]⟩]

theorem roots_closed_after_failure : ∃ s root,
    Steps.run callStep (RepoStore.empty sampleRepo) sampleCalls = some s
    ∧ s.roots.get "did:plc:alice" = some root ∧ (s.blocks.get root).isSome = true
    ∧ ∃ e t, (applyManyParts sampleWriter [.delete "app.bsky.feed.post/9"] sampleDraw).against
        writerExec s [.done, .done, .done, .done, .done] = some (.error e, t) ∧ Unmoved s t := by
  obtain ⟨-, hmany, hclosed⟩ := failures_leave_blocks_and_roots_closed
    sampleRepo_laws sampleRepo_treeLaws sampleRepo_linkLaws
  have hrun : ((Steps.run callStep (RepoStore.empty sampleRepo) sampleCalls).map fun s =>
      ((s.roots.get "did:plc:alice").isSome,
        ((applyManyParts sampleWriter [.delete "app.bsky.feed.post/9"] sampleDraw).against
          writerExec s [.done, .done, .done, .done, .done]).map fun r => r.1.isOk))
        = some (true, some false) := by decide
  obtain ⟨s, hs, hlook⟩ := Option.map_eq_some_iff.mp hrun
  obtain ⟨hroot, hfail⟩ := Prod.mk.injEq .. |>.mp hlook
  obtain ⟨root, hroot⟩ := Option.isSome_iff_exists.mp hroot
  obtain ⟨⟨x, t⟩, hx, hbad⟩ := Option.map_eq_some_iff.mp hfail
  refine ⟨s, root, hs, hroot, hclosed sampleCalls s hs _ root hroot root .root root (Or.inl rfl), ?_⟩
  cases x with
  | ok a => cases hbad
  | error e => exact ⟨e, t, hx, hmany _ _ _ s t _ e hx⟩

end Stelyph
