import Stelyph.RepoBatch
import Stelyph.RepoClosed

/-!
# Between calls

What holds whenever no call is under way, whatever calls there were: the
repositories stand on complete trees at closed roots, and nobody holds a
lock. A call that is refused by the record map fails wherever it is made.
-/

namespace Stelyph

section

variable {L : RepoLib} {α β : Type} {view : TreeView L} {K : TreeLinks L} {s t : RepoStore L}

/-! ## Locks -/

/-- An operation that neither takes nor gives back a lock. -/
def WriterOp.LockFree : WriterOp L → Prop
  | .lock _ | .unlock _ => False
  | _ => True

theorem WriterOp.LockFree.locks {o : WriterOp L} (ho : o.LockFree) {s t : RepoStore L}
    {c : WriterFate} {r : o.Ret} (h : writerExec s o c = some (r, t)) : t.locks = s.locks := by
  cases o with
  | lock | unlock => exact ho.elim
  | send e =>
      obtain ⟨-, rfl⟩ := Prod.mk.injEq .. |>.mp (Option.some.inj h)
      rfl
  | commitBlocks blocks did newRoot event =>
      cases c with
      | done | fault =>
          obtain ⟨-, rfl⟩ := Prod.mk.injEq .. |>.mp (Option.some.inj h)
          rfl
  | loadRepoRoot did =>
      cases c with
      | done | fault =>
          obtain ⟨-, rfl⟩ := Prod.mk.injEq .. |>.mp (Option.some.inj h)
          rfl
  | writeBlock b =>
      cases c with
      | done | fault =>
          obtain ⟨-, rfl⟩ := Prod.mk.injEq .. |>.mp (Option.some.inj h)
          rfl
  | readBlock cid =>
      cases c with
      | done =>
          simp only [writerExec, WriterOp.exec] at h
          split at h
          · obtain ⟨-, rfl⟩ := Prod.mk.injEq .. |>.mp (Option.some.inj h)
            rfl
          · obtain ⟨-, rfl⟩ := Prod.mk.injEq .. |>.mp (Option.some.inj h)
            rfl
      | fault =>
          obtain ⟨-, rfl⟩ := Prod.mk.injEq .. |>.mp (Option.some.inj h)
          rfl
  | tree root op =>
      cases c with
      | done | fault =>
          simp only [writerExec, WriterOp.exec] at h
          split at h
          · obtain ⟨-, rfl⟩ := Prod.mk.injEq .. |>.mp (Option.some.inj h)
            rfl
          · obtain ⟨-, rfl⟩ := Prod.mk.injEq .. |>.mp (Option.some.inj h)
            rfl

theorem Local.lockFree {p : RepoProg L α} (h : p.Local) :
    Prog.Each (S := writerSig L) WriterOp.LockFree p :=
  h.mono fun o ho => by cases o <;> first | exact ho.elim | trivial

theorem lockFree_storeCommit (w : RepoWriter L) (blocks : List (L.Cid × L.Block))
    (body : CommitBody L.Cid L.Car) :
    Prog.Each (S := writerSig L) WriterOp.LockFree (storeCommit w blocks body) :=
  .bind (Prog.each_ofExcept _ _ _) fun _ => ⟨trivial, fun _ => .bind (Prog.each_ofExcept _ _ _)
    fun _ => trivial⟩

theorem lockFree_commitOpLocked (w : RepoWriter L) (op : WriteOp L.Ipld) (broadcast : Bool)
    (rnd : WriteDraw) :
    Prog.Each (S := writerSig L) WriterOp.LockFree (commitOpLocked w op broadcast rnd) := by
  refine .bind (Local.lockFree (local_openRepo _ _)) fun opened => ?_
  refine .bind (Local.lockFree (local_applyRaw _ _)) fun applied => ?_
  refine .bind (Local.lockFree (local_signCommit _ _ _ _)) fun commitCid => ?_
  refine .bind (Local.lockFree (local_readBlocks _)) fun blocks => ?_
  refine .bind (Prog.each_ofExcept _ _ _) fun car => ?_
  refine .bind (Local.lockFree (local_read _ _)) fun block => ?_
  refine .bind (Local.lockFree (local_revOf _ _)) fun rev => ?_
  refine .bind (Local.lockFree (local_sinceOf _ _)) fun since => ?_
  refine .bind (lockFree_storeCommit w blocks _) fun body => ?_
  dsimp only
  split_ifs
  · exact ⟨trivial, fun _ => trivial⟩
  · trivial

theorem lockFree_applyManyLocked (w : RepoWriter L) (ops : List (WriteOp L.Ipld))
    (rnd : WriteDraw) :
    Prog.Each (S := writerSig L) WriterOp.LockFree (applyManyLocked w ops rnd) := by
  refine .bind (Local.lockFree (local_openRepo _ _)) fun opened => ?_
  refine .bind (Local.lockFree (local_prepare _)) fun prepared => ?_
  refine .bind (Local.lockFree (local_applyTree _ _)) fun applied => ?_
  refine .bind (Local.lockFree (local_signCommit _ _ _ _)) fun commitCid => ?_
  refine .bind (Local.lockFree (local_readBlocks _)) fun blocks => ?_
  refine .bind (Prog.each_ofExcept _ _ _) fun car => ?_
  refine .bind (Local.lockFree (local_sinceOf _ _)) fun since => ?_
  exact .bind (lockFree_storeCommit w blocks _) fun body => trivial

/-- Nobody holds a lock. -/
def Unlocked (s : RepoStore L) : Prop := ∀ did, s.locks.contains did = false

theorem unlocked_locked {p : RepoProg L α} {did : String} {s : RepoStore L}
    (hp : Prog.Each (S := writerSig L) WriterOp.LockFree p) (hs : Unlocked s) :
    RepoYields (.op (.lock did) fun _ => p.ensuring (.unlock did)) s fun _ t => Unlocked t := by
  intro c r s' hexec
  cases c with
  | fault => cases hexec
  | done =>
      simp only [writerExec, WriterOp.exec] at hexec
      split at hexec
      · cases hexec
      · obtain ⟨-, rfl⟩ := Prod.mk.injEq .. |>.mp (Option.some.inj hexec)
        have hlocks : RepoYields p { s with locks := s.locks.insert did 0 }
            fun _ t => t.locks = s.locks.insert did 0 :=
          Prog.Each.yields (R := fun s t => t.locks = s.locks) (fun _ => rfl)
            (fun s t u (h : t.locks = s.locks) (h' : u.locks = t.locks) => h'.trans h)
            (fun _ _ _ _ _ ho h => WriterOp.LockFree.locks ho h) hp
        refine Prog.Yields.ensuring ?_ hlocks
        intro x t c r u ht hunlock d
        obtain ⟨-, rfl⟩ := Prod.mk.injEq .. |>.mp (Option.some.inj hunlock)
        show (t.locks.remove did).contains d = false
        rw [ht]
        by_cases hd : d = did
        · rw [hd]
          exact Table.contains_remove_self _ _
        · rw [Table.contains, Table.get_remove_of_ne hd, Table.get_insert_of_ne hd]
          exact hs d

theorem unlocked_map {p : RepoProg L α} {f : α → RepoProg L β}
    (hp : RepoYields p s fun _ t => Unlocked t) (hf : ∀ a, ∃ b, f a = .ret b) :
    RepoYields (p.bind f) s fun _ t => Unlocked t := by
  refine Prog.Yields.bind ?_ ?_ hp
  · intro a t ht
    obtain ⟨b, hb⟩ := hf a
    rw [hb]
    exact ht
  · exact fun _ _ ht => ht

theorem unlocked_handler (q : RepoRequest L) (hs : Unlocked s) :
    RepoYields q.handler s fun _ t => Unlocked t := by
  have hone : ∀ op broadcast, RepoYields (commitOp q.writer op broadcast q.rnd) s
      fun _ t => Unlocked t := fun op broadcast =>
    unlocked_locked (lockFree_commitOpLocked q.writer op broadcast q.rnd) hs
  rw [RepoRequest.handler]
  split
  · exact unlocked_map (unlocked_map (hone _ true) fun _ => ⟨_, rfl⟩) fun _ => ⟨_, rfl⟩
  · exact unlocked_map (hone _ false) fun _ => ⟨_, rfl⟩
  · refine unlocked_map ?_ fun _ => ⟨_, rfl⟩
    rw [applyManyParts]
    split_ifs
    · exact hs
    · exact unlocked_locked (lockFree_applyManyLocked q.writer _ q.rnd) hs

/-! ## States at rest -/

structure AtRest (view : TreeView L) (K : TreeLinks L) (s : RepoStore L) : Prop
    extends CallsInv view K s where
  unlocked : Unlocked s

theorem atRest_empty : AtRest view K (RepoStore.empty L) := ⟨callsInv_empty, fun _ => rfl⟩

theorem atRest_step (hL : RepoLaws L) (hV : TreeLaws L view) (hK : LinkLaws K)
    {c : ServedCall L} (hs : AtRest view K s) (h : callStep s c = some t) : AtRest view K t := by
  refine ⟨callsInv_step hL hV hK hs.toCallsInv h, ?_⟩
  obtain ⟨⟨x, t'⟩, hrun, rfl⟩ := Option.map_eq_some_iff.mp h
  exact (unlocked_handler c.request hs.unlocked).of_against hrun

theorem atRest_run (hL : RepoLaws L) (hV : TreeLaws L view) (hK : LinkLaws K)
    {cs : List (ServedCall L)} (hrun : Steps.run callStep (RepoStore.empty L) cs = some s) :
    AtRest view K s :=
  Steps.run_inv (fun _ _ _ hs h => atRest_step hL hV hK hs h) atRest_empty hrun

theorem Standing.mapOf {did : String} {m : RecordMap L} (h : Standing view K s did m) :
    mapOf view s did = some m := by
  unfold Standing at h
  unfold Stelyph.mapOf
  cases hroot : s.roots.get did with
  | none =>
      rw [hroot] at h
      rw [h]
  | some root =>
      rw [hroot] at h
      obtain ⟨cm, hcm, htree⟩ := h
      exact Option.bind_eq_some_iff.mpr ⟨cm, hcm, htree.map⟩

theorem Unmoved.mapOf (hV : TreeLaws L view) (h : Unmoved s t) {did : String} {m : RecordMap L}
    (hm : Stelyph.mapOf view s did = some m) : Stelyph.mapOf view t did = some m := by
  unfold Stelyph.mapOf at hm ⊢
  rw [h.roots]
  cases hroot : s.roots.get did with
  | none =>
      rw [hroot] at hm
      exact hm
  | some root =>
      rw [hroot] at hm
      obtain ⟨cm, hcm, hview⟩ := Option.bind_eq_some_iff.mp hm
      exact Option.bind_eq_some_iff.mpr
        ⟨cm, commitAt_mono h.blocks hcm, hV.mono _ _ _ _ h.blocks hview⟩

/-! ## Refused writes -/

/-- A tree operation that does not fit the map fails. -/
theorem refused_tree (hL : RepoLaws L) (hV : TreeLaws L view) (hK : LinkLaws K)
    (hs : WellAddressed s.blocks) {data : L.Cid} {m : RecordMap L}
    (hm : TreeAt view K s data m) {op : TreeOp L.Cid} (hop : op.onMap m = none)
    (hrec : ∀ c ∈ op.inserted, s.blocks.contains c = true) (err : String → String)
    {f : L.Cid × List L.Cid → RepoProg L α} :
    RepoYields ((treeRepo data op err).bind f) s fun x _ => ∃ e, x = .error e := by
  refine Prog.Yields.bind ?_ ?_ (adds_tree hL hV hK hs hm op hrec err)
  · intro a t ha
    obtain ⟨m', hsome, -⟩ := ha.2 a rfl
    cases hop.symm.trans hsome
  · exact fun e _ _ => ⟨e, rfl⟩

/-- A record that is put where it does not fit, after it was written. -/
theorem refused_putRaw (hL : RepoLaws L) (hV : TreeLaws L view) (hK : LinkLaws K)
    (hs : WellAddressed s.blocks) {data : L.Cid} {m : RecordMap L}
    (hm : TreeAt view K s data m) {record : L.Ipld} (put : L.Cid → TreeOp L.Cid)
    (hin : ∀ cid, (put cid).inserted = [cid])
    (hop : ∀ cid, recordCid record = some cid → (put cid).onMap m = none)
    {f : L.Cid → L.Cid × List L.Cid → RepoProg L α} :
    RepoYields ((encodeAndWrite record id).bind fun cid => (treeRepo data (put cid) id).bind (f cid))
      s fun x _ => ∃ e, x = .error e := by
  refine Prog.Yields.bind ?_ ?_ (adds_encodeAndWrite hL hs record id)
  · intro cid t hcid
    obtain ⟨block, hblock, rfl, hget⟩ := hcid.2 cid rfl
    refine refused_tree hL hV hK hcid.1.addressed (hm.mono hV hcid.1.blocks)
      (hop _ (by rw [recordCid, hblock]; rfl)) ?_ id
    intro c hc
    rw [hin, List.mem_singleton] at hc
    rw [hc]
    exact Table.contains_iff.mpr ⟨block, hget⟩
  · exact fun e _ _ => ⟨e, rfl⟩

theorem refused_applyRaw (hL : RepoLaws L) (hV : TreeLaws L view) (hK : LinkLaws K)
    (hs : WellAddressed s.blocks) {data : L.Cid} {m : RecordMap L}
    (hm : TreeAt view K s data m) {op : WriteOp L.Ipld} (hop : op.onMap m = none) :
    RepoYields (applyRaw data op) s fun x _ => ∃ e, x = .error e := by
  cases op with
  | create key record =>
      refine refused_putRaw hL hV hK hs hm (.add key) (fun _ => rfl) fun cid hcid => ?_
      rw [WriteOp.onMap, hcid] at hop
      simpa [TreeOp.onMap] using hop
  | update key record =>
      refine refused_putRaw hL hV hK hs hm (.update key) (fun _ => rfl) fun cid hcid => ?_
      rw [WriteOp.onMap, hcid] at hop
      simpa [TreeOp.onMap] using hop
  | delete key =>
      have hdel : (TreeOp.delete key : TreeOp L.Cid).onMap m = none := hop
      exact refused_tree hL hV hK hs hm hdel (fun c hc => by cases hc) id

/-- A write that the map or the encoder refuses does not go through,
whatever the store does. -/
theorem refused_applyOne (hL : RepoLaws L) (hV : TreeLaws L view) (hK : LinkLaws K)
    (hs : CallsInv view K s) {w : RepoWriter L} {m : RecordMap L}
    (hm : Stelyph.mapOf view s w.did = some m) {op : WriteOp L.Ipld} (hop : op.onMap m = none)
    (broadcast : Bool) (rnd : WriteDraw) :
    RepoYields (commitOp w op broadcast rnd) s fun x _ => ∃ e, x = .error e := by
  intro c r s' hexec
  cases c with
  | fault => cases hexec
  | done =>
      simp only [writerExec, WriterOp.exec] at hexec
      split at hexec
      · cases hexec
      · obtain ⟨-, rfl⟩ := Prod.mk.injEq .. |>.mp (Option.some.inj hexec)
        obtain ⟨m', hm'⟩ := hs.standing w.did
        obtain rfl := Option.some.inj (hm.symm.trans hm'.mapOf)
        have hstand : Standing view K { s with locks := s.locks.insert w.did 0 } w.did m :=
          standing_of_eq (s := s) (by rfl) (by rfl) hm'
        have hopen := adds_openRepo (s := { s with locks := s.locks.insert w.did 0 }) hL hV hK
          hs.addressed hstand rnd.genesisRev
        have hbody : RepoYields (commitOpLocked w op broadcast rnd)
            { s with locks := s.locks.insert w.did 0 } fun x _ => ∃ e, x = .error e := by
          refine Prog.Yields.bind ?_ ?_ hopen
          · intro o t ho
            obtain ⟨-, htree, -⟩ := ho.2 o rfl
            refine Prog.Yields.bind ?_ ?_ (refused_applyRaw hL hV hK ho.1.addressed htree hop)
            · rintro a u ⟨e, he⟩
              cases he
            · exact fun e _ _ => ⟨e, rfl⟩
          · exact fun e _ _ => ⟨e, rfl⟩
        refine Prog.Yields.ensuring ?_ hbody
        exact fun _ _ _ _ _ hx _ => hx

end

end Stelyph
