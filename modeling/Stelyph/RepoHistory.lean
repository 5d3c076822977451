import Stelyph.RepoCritical

/-!
# Linear history

Any number of calls on any writers, interleaved at every store call and
failing anywhere. The write lock of a DID makes the read-modify-commit
cycles on its repository follow each other, so its commits form one
chain, its event rows are in the order of the chain, and there is one
row for each call that returned `Ok`.
-/

namespace Stelyph

section

variable {L : RepoLib}

/-! ## Calls -/

inductive RepoCall (L : RepoLib) where
  | applyOne (op : WriteOp L.Ipld)
  | applyOneParts (op : WriteOp L.Ipld)
  | applyMany (ops : List (WriteOp L.Ipld))

/-- A call, the writer it is made on, and what it reads from the clock. -/
structure RepoRequest (L : RepoLib) where
  writer : RepoWriter L
  call : RepoCall L
  rnd : WriteDraw

inductive RepoAnswer (L : RepoLib) where
  | one (outcome : WriteOutcome L.Cid)
  | oneParts (outcome : WriteOutcome L.Cid) (body : CommitBody L.Cid L.Car)
  | many (outcomes : List (WriteOutcome L.Cid)) (body : CommitBody L.Cid L.Car)

/-- The commit a call says it made. -/
def RepoAnswer.commit : RepoAnswer L → L.Cid
  | .one outcome => outcome.commitCid
  | .oneParts outcome _ => outcome.commitCid
  | .many _ body => body.commit

/-- The three entries of the writer, as the programs that a task runs. -/
def RepoRequest.handler (q : RepoRequest L) : RepoProg L (RepoAnswer L) :=
  match q.call with
  | .applyOne op => do return .one (← applyOne q.writer op q.rnd)
  | .applyOneParts op => do
      let (outcome, body) ← applyOneParts q.writer op q.rnd
      return .oneParts outcome body
  | .applyMany ops => do
      let (outcomes, body) ← applyManyParts q.writer ops q.rnd
      return .many outcomes body

/-- The store with the calls of writers that were begun on it, finished or not. -/
abbrev RepoPool (L : RepoLib) :=
  Pool (writerSig L) (RepoRequest L) RepoError (RepoAnswer L) (RepoStore L)

abbrev RepoAct (L : RepoLib) := PoolAct (RepoRequest L) WriterFate

/-- One step of the writers: a call begins, or one under way does its next
operation. The repositories, the number of the calls and the order are
free. -/
def repoNext (L : RepoLib) : RepoPool L → RepoAct L → Option (RepoPool L) :=
  Pool.next (writerMachine L) RepoRequest.handler

variable {i : Nat} {w : RepoWorld L} {d : String} {α β : Type}

theorem Concluded.map {p : RepoProg L α} {commit : α → L.Cid} {commit' : β → L.Cid}
    {f : α → RepoProg L β} (hinv : RepoInv w) (hp : RepoSafe i (Concluded d i commit) p w)
    (hf : ∀ a, ∃ b, f a = .ret b ∧ commit' b = commit a) :
    RepoSafe i (Concluded d i commit') (p.bind f) w := by
  refine Safe.bind (Safe.mono (fun x w' _ hx => ?_) hp) hinv
  cases x with
  | ok a =>
      obtain ⟨b, hb, hcommit⟩ := hf a
      show RepoSafe i (Concluded d i commit') (f a) w'
      rw [hb]
      intro w'' hr _
      have ha := hx.congr hr.tally
      rw [Concluded, hcommit]
      exact ha
  | error e => exact hx

theorem safe_handler (hL : RepoLaws L) (q : RepoRequest L) (hinv : RepoInv w)
    (hfresh : ∀ e ∈ w.log, e.tid < i) :
    RepoSafe i (Concluded q.writer.did i RepoAnswer.commit) q.handler w := by
  have hnone : w.tally committed i = 0 := World.tally_eq_zero_of_fresh committed hfresh
  have hone : ∀ op broadcast, RepoSafe i (Concluded q.writer.did i fun a => a.1.commitCid)
      (commitOp q.writer op broadcast q.rnd) w := fun op broadcast =>
    safe_locked hnone fun root w' hinv' hw' =>
      safe_commitOpLocked hL hinv' q.writer hw' op broadcast q.rnd
  rw [RepoRequest.handler]
  split
  · rename_i op _
    have happly : RepoSafe i (Concluded q.writer.did i fun o => o.commitCid)
        (applyOne q.writer op q.rnd) w :=
      Concluded.map hinv (hone op true) fun _ => ⟨_, rfl, rfl⟩
    exact Concluded.map hinv happly fun _ => ⟨_, rfl, rfl⟩
  · rename_i op _
    exact Concluded.map hinv (hone op false) fun _ => ⟨_, rfl, rfl⟩
  · rename_i ops _
    have hmany : RepoSafe i (Concluded q.writer.did i fun a => a.2.commit)
        (applyManyParts q.writer ops q.rnd) w := by
      rw [applyManyParts]
      split
      · intro w' hr _
        exact (hr.tally _).trans hnone
      · exact safe_locked hnone fun root w' hinv' hw' =>
          safe_applyManyLocked hL hinv' q.writer hw' ops q.rnd
    exact Concluded.map hinv hmany fun _ => ⟨_, rfl, rfl⟩

/-! ## Who commits where -/

/-- A call commits to the repository of its writer. -/
def CommitsTo (d : String) : WriterOp L → Prop
  | .commitBlocks _ did _ _ => did = d
  | _ => True

abbrev EachTo (d : String) (p : RepoProg L α) : Prop :=
  Prog.Each (S := writerSig L) (CommitsTo d) p

theorem RepoProg.Local.eachTo {p : RepoProg L α} (h : p.Local) : EachTo d p := by
  refine Prog.Each.mono (fun o ho => ?_) h
  cases o with
  | commitBlocks => exact ho.elim
  | _ => trivial

theorem each_storeCommit (wr : RepoWriter L) (blocks : List (L.Cid × L.Block))
    (body : CommitBody L.Cid L.Car) : EachTo wr.did (storeCommit wr blocks body) := by
  refine .bind (Prog.each_ofExcept _ _ _) fun _ => ⟨rfl, fun _ => ?_⟩
  exact .bind (Prog.each_ofExcept _ _ _) fun _ => trivial

theorem each_commitOp (wr : RepoWriter L) (op : WriteOp L.Ipld) (broadcast : Bool)
    (rnd : WriteDraw) : EachTo wr.did (commitOp wr op broadcast rnd) := by
  refine ⟨trivial, fun _ => .ensuring trivial ?_⟩
  refine .bind (local_openRepo _ _).eachTo fun _ => .bind (local_applyRaw _ _).eachTo fun _ => ?_
  refine .bind (local_signCommit _ _ _ _).eachTo fun _ => ?_
  refine .bind (local_readBlocks _).eachTo fun _ => .bind (Prog.each_ofExcept _ _ _) fun _ => ?_
  refine .bind (local_read _ _).eachTo fun _ => .bind (local_revOf _ _).eachTo fun _ => ?_
  refine .bind (local_sinceOf _ _).eachTo fun _ => .bind (each_storeCommit _ _ _) fun _ => ?_
  split
  · exact ⟨trivial, fun _ => trivial⟩
  · trivial

theorem each_applyManyParts (wr : RepoWriter L) (ops : List (WriteOp L.Ipld))
    (rnd : WriteDraw) : EachTo wr.did (applyManyParts wr ops rnd) := by
  rw [applyManyParts]
  split
  · trivial
  refine ⟨trivial, fun _ => .ensuring trivial ?_⟩
  refine .bind (local_openRepo _ _).eachTo fun _ => .bind (local_prepare _).eachTo fun _ => ?_
  refine .bind (local_applyTree _ _).eachTo fun _ => ?_
  refine .bind (local_signCommit _ _ _ _).eachTo fun _ => ?_
  refine .bind (local_readBlocks _).eachTo fun _ => .bind (Prog.each_ofExcept _ _ _) fun _ => ?_
  exact .bind (local_sinceOf _ _).eachTo fun _ => .bind (each_storeCommit _ _ _) fun _ => trivial

theorem each_handler (q : RepoRequest L) : EachTo q.writer.did q.handler := by
  rw [RepoRequest.handler]
  split
  · exact .bind (.bind (each_commitOp _ _ _ _) fun _ => trivial) fun _ => trivial
  · exact .bind (each_commitOp _ _ _ _) fun _ => trivial
  · exact .bind (each_applyManyParts _ _ _) fun _ => trivial

/-! ## Counting commits -/

theorem length_rowsOf (hw : RepoInv w) (d : String) :
    (w.store.rowsOf d).length = w.log.countP (committedTo d) := by
  rw [RepoStore.rowsOf, hw.logged, ← List.countP_eq_length_filter, List.countP_filterMap]
  congr 1
  funext e
  rw [committedTo]
  cases rowOf e <;> rfl

/-- A commit is among the announced ones as often as it was made. -/
theorem count_commits (hw : RepoInv w) {commits : List L.Cid}
    (h : (w.store.rowsOf d).map announced = commits.map some) (c : L.Cid) :
    commits.count c = w.log.countP (committedAs d c) := by
  have hcount : commits.count c = ((w.store.rowsOf d).map announced).count (some c) := by
    rw [h, List.count_map_of_injective _ _ (Option.some_injective _)]
  rw [hcount, List.count, List.countP_map, RepoStore.rowsOf, List.countP_filter, hw.logged,
    List.countP_filterMap]
  congr 1
  funext e
  rw [committedAs]
  cases rowOf e with
  | none => rfl
  | some row =>
      simp only [Option.map_some, Option.getD_some, Option.any_some, Function.comp_apply]
      exact Bool.and_comm _ _

/-! ## The theorem -/

/-- A call on the repository of `d` that has returned `Ok`. -/
def okFor (d : String) (t : RepoRequest L × RepoProg L (RepoAnswer L)) : Bool :=
  t.1.writer.did == d && match t.2 with
    | .ret _ => true
    | _ => false

/-- No call on the repository of `d` is running. -/
def IdleFor (d : String) (P : RepoPool L) : Prop :=
  ∀ (i : Nat) q p, P.tasks[i]? = some (q, p) → q.writer.did = d → p.outcome.isSome = true

/-- The repository of `d` has one linear history: chain, rows and answers
tell the same story of it. -/
structure LinearHistory (d : String) (P : RepoPool L) : Prop where
  /-- The chain from the root is the commits the rows announce, newest
  first, each once, and the commit the repository was created with. -/
  chained : ∀ root, P.store.roots.get d = some root → ∃ (commits : List L.Cid) (genesis : L.Cid),
    PrevChain P.store.blocks.get root (commits.reverse ++ [genesis])
      ∧ (commits.reverse ++ [genesis]).Nodup
      ∧ (P.store.rowsOf d).map announced = commits.map some
  ordered : ((P.store.rowsOf d).map fun r => r.seq).Pairwise (· < ·)
  /-- The commit of a call that returned `Ok` is on the chain once, and
  announced by a row. -/
  answered : ∀ (i : Nat) q a, P.tasks[i]? = some (q, .ret a) → q.writer.did = d →
    ∃ root l, P.store.roots.get d = some root ∧ PrevChain P.store.blocks.get root l
      ∧ l.count a.commit = 1 ∧ some a.commit ∈ (P.store.rowsOf d).map announced
  /-- Two calls never have the same commit. -/
  distinct : ∀ (i j : Nat) q q' a a', P.tasks[i]? = some (q, .ret a) →
    P.tasks[j]? = some (q', .ret a') → q.writer.did = d → q'.writer.did = d → i ≠ j →
    a.commit ≠ a'.commit
  /-- An event names the rev of the commit before its own, if it is not
  the first. -/
  since : ∀ (k : Nat) row, (P.store.rowsOf d)[k]? = some row → ∃ body c p g,
    L.decodeBody row.event = .ok body ∧ commitAt P.store.blocks.get body.commit = some c
      ∧ body.rev = c.rev ∧ c.prev = some p ∧ commitAt P.store.blocks.get p = some g
      ∧ body.since = if k = 0 then none else some g.rev
  counted : IdleFor d P → (P.store.rowsOf d).length = P.tasks.countP (okFor d)

theorem repoPool_good (hL : RepoLaws L) {as : List (RepoAct L)} {P : RepoPool L}
    (hrun : Steps.run (repoNext L) (Pool.init (RepoStore.empty L)) as = some P) :
    Pool.Good (repoContract L) RepoExec
      (fun (q : RepoRequest L) i => Concluded q.writer.did i RepoAnswer.commit) P := by
  refine Pool.good_run (fun q i w hinv hfresh => safe_handler hL q hinv hfresh) ?_
    (Steps.along_of_forall ?_) hrun
  · exact ⟨wellAddressed_empty, rfl, List.Pairwise.nil, fun _ h => (List.not_mem_nil h).elim,
      fun _ => .empty⟩
  · intro P a
    cases a with
    | start q => trivial
    | step i c => exact fun q o k r s _ hexec => ⟨c, hexec⟩

/-- What one call has committed to the repository of `d`, once no call
on it runs. -/
theorem tally_committedTo (hL : RepoLaws L) {as : List (RepoAct L)} {P : RepoPool L}
    (hrun : Steps.run (repoNext L) (Pool.init (RepoStore.empty L)) as = some P)
    (hidle : IdleFor d P) {i : Nat} {q : RepoRequest L} {p : RepoProg L (RepoAnswer L)}
    (ht : P.tasks[i]? = some (q, p)) :
    P.toWorld.tally (committedTo d) i = if okFor d (q, p) then 1 else 0 := by
  have hgood := repoPool_good hL hrun
  by_cases hd : q.writer.did = d
  · have hle : P.toWorld.tally (committedTo d) i ≤ P.toWorld.tally committed i :=
      World.tally_mono i fun _ => committed_of_committedTo
    cases p with
    | ret a =>
        obtain ⟨hone, hall⟩ := hgood.post_ok ht
        rw [hd] at hone
        have hge : P.toWorld.tally (committedAs d a.commit) i
            ≤ P.toWorld.tally (committedTo d) i :=
          World.tally_mono i fun _ => committedTo_of_committedAs
        rw [if_pos (by rw [okFor, beq_iff_eq.mpr hd]; rfl)]
        omega
    | fail e =>
        have hnone : P.toWorld.tally committed i = 0 := hgood.post_error ht
        rw [if_neg (by simp [okFor])]
        omega
    | op o k => cases hidle i q _ ht hd
  · have hobey := Pool.obeys_run each_handler hrun
    rw [if_neg (by simp [okFor, hd]), World.tally, List.countP_eq_zero]
    intro e he hcount
    obtain ⟨hto, htid⟩ := (Bool.and_eq_true _ _ ▸ hcount : _ ∧ _)
    obtain ⟨q', p', ht', hop⟩ := hobey.2 e he
    rw [beq_iff_eq.mp htid, ht] at ht'
    obtain ⟨rfl, -⟩ := Prod.mk.injEq .. |>.mp (Option.some.inj ht')
    obtain ⟨blocks, root, event, ho⟩ := op_of_committedTo hto
    rw [ho] at hop
    exact hd hop.symm

/-- A repository that was committed to has a root, and its chain. -/
theorem chain_of_committed (hw : RepoInv w) {c : L.Cid}
    (hc : 0 < w.log.countP (committedAs d c)) :
    ∃ (root : L.Cid) (commits : List L.Cid) (genesis : L.Cid),
      w.store.roots.get d = some root
        ∧ PrevChain w.store.blocks.get root (commits.reverse ++ [genesis])
        ∧ (commits.reverse ++ [genesis]).Nodup
        ∧ (w.store.rowsOf d).map announced = commits.map some := by
  have hhist := hw.history d
  cases hr : w.store.roots.get d with
  | some root =>
      rw [hr] at hhist
      obtain ⟨commits, genesis, hchain⟩ := hhist.chain
      exact ⟨root, commits, genesis, rfl, hchain⟩
  | none =>
      rw [hr] at hhist
      have hmap : (w.store.rowsOf d).map announced = ([] : List L.Cid).map some := by
        rw [hhist.rows_of_none]
        rfl
      rw [← count_commits hw hmap] at hc
      cases hc

/-- A commit is made once. -/
theorem committed_le_one (hw : RepoInv w) (c : L.Cid) :
    w.log.countP (committedAs d c) ≤ 1 := by
  rcases Nat.eq_zero_or_pos (w.log.countP (committedAs d c)) with hzero | hpos
  · omega
  · obtain ⟨root, commits, genesis, -, -, hnodup, hmap⟩ := chain_of_committed hw hpos
    rw [← count_commits hw hmap]
    have hcommits := List.nodup_reverse.mp (List.nodup_append.mp hnodup).1
    exact List.nodup_iff_count_le_one.mp hcommits c

/-- A commit that was made is on the chain once, and announced. -/
theorem on_chain_of_committed (hw : RepoInv w) {c : L.Cid}
    (hc : 0 < w.log.countP (committedAs d c)) :
    ∃ root l, w.store.roots.get d = some root ∧ PrevChain w.store.blocks.get root l
      ∧ l.count c = 1 ∧ some c ∈ (w.store.rowsOf d).map announced := by
  obtain ⟨root, commits, genesis, hroot, hchain, hnodup, hmap⟩ := chain_of_committed hw hc
  rw [← count_commits hw hmap, List.count_pos_iff] at hc
  refine ⟨root, _, hroot, hchain, List.count_eq_one_of_mem hnodup ?_, ?_⟩
  · exact List.mem_append_left _ (List.mem_reverse.mpr hc)
  · rw [hmap]
    exact List.mem_map_of_mem hc

/-- Once no call on it runs, a repository has a row for each call that
returned `Ok`. -/
theorem length_rowsOf_eq_countP (hL : RepoLaws L) {as : List (RepoAct L)} {P : RepoPool L}
    (hrun : Steps.run (repoNext L) (Pool.init (RepoStore.empty L)) as = some P)
    (hidle : IdleFor d P) : (P.store.rowsOf d).length = P.tasks.countP (okFor d) := by
  have hgood := repoPool_good hL hrun
  have hinv : RepoInv P.toWorld := hgood.1
  rw [length_rowsOf hinv, World.countP_log_eq_sum (committedTo d) hgood.2.1,
    Pool.countP_tasks_eq_sum]
  refine Finset.sum_congr rfl fun i hi => ?_
  have hget : ∃ t, P.tasks[i]? = some t :=
    ⟨_, List.getElem?_eq_getElem (Finset.mem_range.mp hi)⟩
  obtain ⟨⟨q, p⟩, ht⟩ := hget
  rw [tally_committedTo hL hrun hidle ht, ht]
  rfl

/-- Any number of calls on any repositories, interleaved and failing
anywhere, leave every repository with one linear history: the lock is held
from the load of the root to the transaction, and the transaction stores
the commit with its row or nothing at all. -/
theorem linearHistory_run (hL : RepoLaws L) {as : List (RepoAct L)} {P : RepoPool L}
    (hrun : Steps.run (repoNext L) (Pool.init (RepoStore.empty L)) as = some P) (d : String) :
    LinearHistory d P := by
  have hgood := repoPool_good hL hrun
  have hinv : RepoInv P.toWorld := hgood.1
  have hmade : ∀ (i : Nat) q a, P.tasks[i]? = some (q, .ret a) → q.writer.did = d →
      P.toWorld.tally (committedAs d a.commit) i = 1 := by
    intro i q a ht hd
    have hone := (hgood.post_ok ht).1
    rwa [hd] at hone
  refine ⟨fun root hroot => ?_, ?_, fun i q a ht hd => ?_,
    fun i j q q' a a' ht ht' hd hd' hij heq => ?_,
    fun k row hk => (hinv.history d).since hk, length_rowsOf_eq_countP hL hrun⟩
  · have hhist := hinv.history d
    rw [hroot] at hhist
    exact hhist.chain
  · exact hinv.ordered.sublist (List.filter_sublist.map _)
  · have hone := hmade i q a ht hd
    have hle := World.tally_le_countP P.toWorld (committedAs d a.commit) i
    exact on_chain_of_committed hinv (by omega)
  · -- the commit would have been made by both
    have hone := hmade i q a ht hd
    have hone' := hmade j q' a' ht' hd'
    rw [← heq] at hone'
    have htwo := World.tally_add_le P.toWorld (committedAs d a.commit) hij
    have hle := committed_le_one (d := d) hinv a.commit
    omega

end

/-! ## A run -/

def sampleRequest (did : String) (call : RepoCall sampleRepo) (rev : String) :
    RepoRequest sampleRepo :=
  ⟨⟨did, ()⟩, call, ⟨s!"{rev}0", rev, "2026-06-17T00:00:00Z"⟩⟩

/-- A write to each of two repositories, step by step in turn; then, on
the first, a write of a key that is there, and a batch. -/
def sampleRun : List (RepoAct sampleRepo) :=
  [.start (sampleRequest "did:plc:alice" (.applyOne (.create "app.bsky.feed.post/1" (7 : Nat))) "a"),
    .start (sampleRequest "did:plc:bob"
      (.applyOneParts (.create "app.bsky.feed.post/1" (7 : Nat))) "b"),
    .start (sampleRequest "did:plc:alice"
      (.applyOne (.create "app.bsky.feed.post/1" (8 : Nat))) "c"),
    .start (sampleRequest "did:plc:alice" (.applyMany
      [.update "app.bsky.feed.post/1" (9 : Nat), .create "app.bsky.feed.post/2" (7 : Nat)]) "d")]
  ++ (List.replicate 15 [.step 0 .done, .step 1 .done]).flatten ++ [.step 0 .done]
  ++ List.replicate 6 (.step 2 .done) ++ List.replicate 16 (.step 3 .done)

theorem linearHistory_sampleRun : ∃ P,
    Steps.run (repoNext sampleRepo) (Pool.init (RepoStore.empty sampleRepo)) sampleRun = some P
    ∧ P.tasks.map (fun t => t.2.outcome.map fun x => x.toOption.isSome)
      = [some true, some true, some false, some true]
    ∧ (P.store.rowsOf "did:plc:alice").length = 2 ∧ LinearHistory "did:plc:alice" P := by
  have heval : (Steps.run (repoNext sampleRepo) (Pool.init (RepoStore.empty sampleRepo))
      sampleRun).map (fun P => (P.tasks.map (fun t => t.2.outcome.map fun x =>
        x.toOption.isSome), (P.store.rowsOf "did:plc:alice").length))
      = some ([some true, some true, some false, some true], 2) := by decide
  obtain ⟨P, hrun, hP⟩ := Option.map_eq_some_iff.mp heval
  obtain ⟨hout, hrows⟩ := Prod.mk.injEq .. |>.mp hP
  exact ⟨P, hrun, hout, hrows, linearHistory_run sampleRepo_laws hrun _⟩

end Stelyph
