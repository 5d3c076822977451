import Stelyph.FirehoseSubscribe
import Stelyph.RepoBlocks

/-!
# The event log and the channel

What the writers of a server make of the event log and the broadcast
channel, together and in any interleaving. The log is numbered from one
without gaps. Every event in the channel is that of a row, and every row
is either in the channel or in the hands of a writer that is about to
broadcast it: `Publishes` says that a writer broadcasts right after its
transaction, whatever it does before. Nothing here says in which order
the rows reach the channel.
-/

namespace Stelyph

section

variable {L : RepoLib} {α β : Type}

/-- The broadcast unit of a row. -/
def eventOf (row : SeqRow L.Event) : Option (FirehoseEvent L.Frame) :=
  (L.decodeBody row.event).toOption.map fun body =>
    ⟨row.seq, L.encodeFrame { body with seq := row.seq }⟩

theorem seq_of_eventOf {row : SeqRow L.Event} {e : FirehoseEvent L.Frame}
    (h : eventOf row = some e) : e.seq = row.seq := by
  obtain ⟨body, -, rfl⟩ := Option.map_eq_some_iff.mp h
  rfl

/-! ## The largest seq -/

theorem le_maxSeq {rows : List (SeqRow L.Event)} {row : SeqRow L.Event} (h : row ∈ rows) :
    row.seq ≤ maxSeq rows := by
  have hgen : ∀ (rows : List (SeqRow L.Event)) (m : Nat),
      m ≤ rows.foldl (fun m r => max m r.seq) m
        ∧ ∀ r ∈ rows, r.seq ≤ rows.foldl (fun m r => max m r.seq) m := by
    intro rows
    induction rows with
    | nil => exact fun m => ⟨Nat.le_refl _, fun _ hr => (List.not_mem_nil hr).elim⟩
    | cons r rows ih =>
        intro m
        obtain ⟨hm, hrows⟩ := ih (max m r.seq)
        refine ⟨Nat.le_trans (Nat.le_max_left _ _) hm, fun r' hr' => ?_⟩
        rcases List.mem_cons.mp hr' with rfl | hr'
        · exact Nat.le_trans (Nat.le_max_right _ _) hm
        · exact hrows r' hr'
  exact (hgen rows 0).2 row h

theorem maxSeq_le {rows : List (SeqRow L.Event)} {n : Nat} (h : ∀ row ∈ rows, row.seq ≤ n) :
    maxSeq rows ≤ n := by
  have hgen : ∀ (rows : List (SeqRow L.Event)) (m : Nat), (∀ row ∈ rows, row.seq ≤ n) → m ≤ n →
      rows.foldl (fun m r => max m r.seq) m ≤ n := by
    intro rows
    induction rows with
    | nil => exact fun m _ hm => hm
    | cons r rows ih =>
        intro m hl hm
        exact ih _ (fun r' hr' => hl r' (List.mem_cons_of_mem r hr'))
          (Nat.max_le.mpr ⟨hm, hl r List.mem_cons_self⟩)
  exact hgen rows 0 h (Nat.zero_le _)

/-! ## Writers that publish -/

/-- The calls that touch neither the log nor the channel. -/
def WriterOp.Plain : WriterOp L → Prop
  | .commitBlocks _ _ _ _ | .send _ => False
  | _ => True

/-- The broadcast follows each transaction at once, and nothing else is
broadcast. -/
inductive Publishes : RepoProg L α → Prop where
  | ret (a : α) : Publishes (.ret a)
  | fail (e : RepoError) : Publishes (.fail e)
  | op {o : WriterOp L} {k : o.Ret → RepoProg L α} (ho : o.Plain)
      (hk : ∀ r, Publishes (k r)) : Publishes (.op o k)
  | commit {blocks : List (L.Cid × L.Block)} {did : String} {root : L.Cid} {event : L.Event}
      {k : Except StorageError Nat → RepoProg L α} {e : Nat → FirehoseEvent L.Frame}
      {k' : Nat → Unit → RepoProg L α} (herr : ∀ msg, Publishes (k (.error msg)))
      (hok : ∀ seq, k (.ok seq) = .op (.send (e seq)) (k' seq))
      (he : ∀ seq, eventOf ⟨seq, did, event, false⟩ = some (e seq))
      (hk : ∀ seq r, Publishes (k' seq r)) :
      Publishes (.op (.commitBlocks blocks did root event) k)

theorem RepoProg.Local.publishes_bind {p : RepoProg L α} {f : α → RepoProg L β}
    (hp : p.Local) (hf : ∀ a, Publishes (f a)) : Publishes (p.bind f) := by
  induction p with
  | ret a => exact hf a
  | fail e => exact .fail e
  | op o k ih =>
      refine .op ?_ fun r => ih r (hp.2 r)
      have ho : o.Local := hp.1
      cases o with
      | commitBlocks | send => exact ho.elim
      | _ => trivial

theorem publishes_ofExcept_bind {ε : Type} {f : ε → RepoError} {x : Except ε α}
    {k : α → RepoProg L β} (hk : ∀ a, x = .ok a → Publishes (k a)) :
    Publishes ((Prog.ofExcept f x : RepoProg L α).bind k) := by
  cases x with
  | ok a => exact hk a rfl
  | error e => exact .fail _

theorem Publishes.map {p : RepoProg L α} (hp : Publishes p) (f : α → β) :
    Publishes (p.bind fun a => .ret (f a)) := by
  induction hp with
  | ret a => exact .ret _
  | fail e => exact .fail e
  | op ho _ ih => exact .op ho ih
  | commit herr hok he hk iherr ihk =>
      refine .commit iherr (fun seq => ?_) he ihk
      rw [hok]
      rfl

theorem Publishes.ensuring {p : RepoProg L α} (hp : Publishes p) {o : WriterOp L}
    (ho : o.Plain) : Publishes (p.ensuring o) := by
  induction hp with
  | ret a => exact .op ho fun _ => .ret a
  | fail e => exact .op ho fun _ => .fail e
  | op ho' _ ih => exact .op ho' ih
  | commit herr hok he hk iherr ihk =>
      refine .commit iherr (fun seq => ?_) he ihk
      rw [hok]
      rfl

theorem publishes_applyOne (hL : RepoLaws L) (w : RepoWriter L) (op : WriteOp L.Ipld)
    (rnd : WriteDraw) : Publishes (applyOne w op rnd) := by
  refine .map ?_ _
  refine .op (o := .lock w.did) trivial fun _ => .ensuring ?_ trivial
  refine (local_openRepo w _).publishes_bind fun opened => ?_
  refine (local_applyRaw _ op).publishes_bind fun applied => ?_
  refine (local_signCommit w _ _ _).publishes_bind fun commitCid => ?_
  refine (local_readBlocks _).publishes_bind fun blocks => ?_
  refine publishes_ofExcept_bind fun car _ => ?_
  refine (local_read _ _).publishes_bind fun block => ?_
  refine (local_revOf _ _).publishes_bind fun rev => ?_
  refine (local_sinceOf _ _).publishes_bind fun since => ?_
  rw [storeCommit]
  cases hevent : L.encodeBody (commitBody w commitCid rev since car
      [⟨applied.1, applied.2.1, applied.2.2.1⟩] rnd.time) with
  | error e => exact .fail _
  | ok event =>
      refine .commit (fun _ => .fail _) (fun _ => rfl) (fun seq => ?_) fun _ _ => .ret _
      rw [eventOf, hL.decode_body _ _ hevent]
      rfl

/-! ## The log and the channel -/

/-- The rows are numbered from one on. -/
def Numbered (rows : List (SeqRow L.Event)) : Prop :=
  ∀ (k : Nat) row, rows[k]? = some row → row.seq = k + 1

/-- What holds of the log and the channel in every state of every run. -/
structure Published (P : ApplyPool L) : Prop where
  numbered : Numbered P.store.rows
  lastSeq : P.store.lastSeq = P.store.rows.length
  valid : ∀ row ∈ P.store.rows, row.invalidated = false ∧ ∃ e, eventOf row = some e
  sent : ∀ e ∈ P.store.sent, ∃ row ∈ P.store.rows, eventOf row = some e
  /-- A writer is about to broadcast the event of a row, or publishes
  what it will commit. -/
  tasks : ∀ (i : Nat) q p, P.tasks[i]? = some (q, p) → Publishes p ∨
    ∃ e k, p = .op (.send e) k ∧ (∀ r, Publishes (k r)) ∧ ∃ row ∈ P.store.rows, eventOf row = some e
  pending : ∀ row ∈ P.store.rows, ∀ e, eventOf row = some e → e ∈ P.store.sent ∨
    ∃ (i : Nat) (q : ApplyOne L) (k : Unit → RepoProg L (WriteOutcome L.Cid)),
      P.tasks[i]? = some (q, .op (.send e) k)

theorem published_init : Published (Pool.init (RepoStore.empty L) : ApplyPool L) where
  numbered k row h := by simp [Pool.init, RepoStore.empty] at h
  lastSeq := rfl
  valid _ h := (List.not_mem_nil h).elim
  sent _ h := (List.not_mem_nil h).elim
  tasks i q p h := by simp [Pool.init] at h
  pending _ h := (List.not_mem_nil h).elim

theorem WriterOp.Plain.exec {o : WriterOp L} (ho : o.Plain) {i : Nat} {s s' : RepoStore L}
    {c : WriterFate} {r : o.Ret} (h : o.exec i s c = some (r, s')) :
    s'.rows = s.rows ∧ s'.lastSeq = s.lastSeq ∧ s'.sent = s.sent := by
  cases o with
  | commitBlocks | send => exact ho.elim
  | lock did =>
      cases c with
      | done =>
          simp only [WriterOp.exec] at h
          split at h
          · cases h
          · obtain ⟨-, rfl⟩ := Prod.mk.injEq .. |>.mp (Option.some.inj h)
            exact ⟨rfl, rfl, rfl⟩
      | fault => cases h
  | unlock did =>
      obtain ⟨-, rfl⟩ := Prod.mk.injEq .. |>.mp (Option.some.inj h)
      exact ⟨rfl, rfl, rfl⟩
  | loadRepoRoot did | writeBlock b =>
      cases c with
      | done | fault =>
          obtain ⟨-, rfl⟩ := Prod.mk.injEq .. |>.mp (Option.some.inj h)
          exact ⟨rfl, rfl, rfl⟩
  | readBlock cid =>
      cases c with
      | done =>
          simp only [WriterOp.exec] at h
          split at h
          · obtain ⟨-, rfl⟩ := Prod.mk.injEq .. |>.mp (Option.some.inj h)
            exact ⟨rfl, rfl, rfl⟩
          · obtain ⟨-, rfl⟩ := Prod.mk.injEq .. |>.mp (Option.some.inj h)
            exact ⟨rfl, rfl, rfl⟩
      | fault =>
          obtain ⟨-, rfl⟩ := Prod.mk.injEq .. |>.mp (Option.some.inj h)
          exact ⟨rfl, rfl, rfl⟩
  | tree root op =>
      cases c with
      | done | fault =>
          simp only [WriterOp.exec] at h
          split at h
          · obtain ⟨-, rfl⟩ := Prod.mk.injEq .. |>.mp (Option.some.inj h)
            exact ⟨rfl, rfl, rfl⟩
          · obtain ⟨-, rfl⟩ := Prod.mk.injEq .. |>.mp (Option.some.inj h)
            exact ⟨rfl, rfl, rfl⟩

variable {P : ApplyPool L}

theorem Published.start (h : Published P) {q : ApplyOne L} (hq : Publishes q.handler) :
    Published ⟨P.toWorld, P.tasks ++ [(q, q.handler)]⟩ where
  numbered := h.numbered
  lastSeq := h.lastSeq
  valid := h.valid
  sent := h.sent
  tasks j q' p hj := by
    rcases Pool.getElem?_append_cases hj with ⟨-, heq⟩ | hj
    · obtain ⟨rfl, rfl⟩ := Prod.mk.injEq .. |>.mp heq
      exact Or.inl hq
    · exact h.tasks j q' p hj
  pending row hrow e he := by
    rcases h.pending row hrow e he with hsent | ⟨i, q', k, hi⟩
    · exact Or.inl hsent
    · exact Or.inr ⟨i, q', k, List.getElem?_append_left (List.getElem?_eq_some_iff.mp hi).1 ▸ hi⟩

/-- A writer that moved on without the log and the channel. -/
theorem Published.plain (h : Published P) {i : Nat} {q : ApplyOne L} {o : WriterOp L}
    {k : o.Ret → RepoProg L (WriteOutcome L.Cid)} {r : o.Ret} {s : RepoStore L}
    (ht : P.tasks[i]? = some (q, .op o k)) (hno : ∀ e, o ≠ .send e)
    (hk : Publishes (k r)) (hrows : s.rows = P.store.rows)
    (hlast : s.lastSeq = P.store.lastSeq) (hsent : s.sent = P.store.sent) :
    Published ⟨P.toWorld.after i o r s, P.tasks.set i (q, k r)⟩ := by
  refine ⟨hrows ▸ h.numbered, by rw [World.after_store, hrows, hlast]; exact h.lastSeq,
    hrows ▸ h.valid, by rw [World.after_store, hrows, hsent]; exact h.sent, ?_, ?_⟩
  · intro j q' p hj
    rw [World.after_store, hrows]
    rcases Pool.getElem?_set_cases hj with ⟨-, heq⟩ | ⟨-, hj⟩
    · obtain ⟨rfl, rfl⟩ := Prod.mk.injEq .. |>.mp heq
      exact Or.inl hk
    · exact h.tasks j q' p hj
  · rw [World.after_store, hrows, hsent]
    intro row hrow e he
    rcases h.pending row hrow e he with hsent | ⟨j, q', k', hj⟩
    · exact Or.inl hsent
    · have hne : i ≠ j := by
        rintro rfl
        obtain ⟨-, hop⟩ := Prod.mk.injEq .. |>.mp (Option.some.inj (ht.symm.trans hj))
        obtain ⟨rfl, -⟩ := Prog.op.injEq .. |>.mp hop
        exact hno e rfl
      exact Or.inr ⟨j, q', k', (List.getElem?_set_ne hne).trans hj⟩

/-- A transaction writes the next row and leaves its writer with the
broadcast. -/
theorem Published.commit (h : Published P) {i : Nat} {q : ApplyOne L}
    {blocks : List (L.Cid × L.Block)} {did : String} {root : L.Cid} {event : L.Event}
    {k : Except StorageError Nat → RepoProg L (WriteOutcome L.Cid)}
    {e : FirehoseEvent L.Frame} {k' : Unit → RepoProg L (WriteOutcome L.Cid)}
    (ht : P.tasks[i]? = some (q, .op (.commitBlocks blocks did root event) k))
    (hok : k (.ok (P.store.lastSeq + 1)) = .op (.send e) k')
    (he : eventOf ⟨P.store.lastSeq + 1, did, event, false⟩ = some e)
    (hk : ∀ r, Publishes (k' r)) :
    Published ⟨P.toWorld.after i (.commitBlocks blocks did root event)
        (.ok (P.store.lastSeq + 1)) (P.store.commitBlocks blocks did root event),
      P.tasks.set i (q, k (.ok (P.store.lastSeq + 1)))⟩ := by
  have hi : i < P.tasks.length := (List.getElem?_eq_some_iff.mp ht).1
  have hmem : ∀ row, row ∈ (P.store.commitBlocks blocks did root event).rows ↔
      row ∈ P.store.rows ∨ row = ⟨P.store.lastSeq + 1, did, event, false⟩ := by
    intro row
    rw [RepoStore.commitBlocks, List.mem_append, List.mem_singleton]
  refine ⟨?_, ?_, ?_, ?_, ?_, ?_⟩
  · intro n row hn
    rw [World.after_store, RepoStore.commitBlocks] at hn
    rcases Nat.lt_or_ge n P.store.rows.length with hlt | hge
    · rw [List.getElem?_append_left hlt] at hn
      exact h.numbered n row hn
    · rw [List.getElem?_append_right hge, List.getElem?_singleton] at hn
      split at hn
      · obtain rfl := Option.some.inj hn
        have hlast := h.lastSeq
        show P.store.lastSeq + 1 = n + 1
        omega
      · cases hn
  · rw [World.after_store, RepoStore.commitBlocks, List.length_append, ← h.lastSeq]
    rfl
  · intro row hrow
    rcases (hmem row).mp hrow with hrow | rfl
    · exact h.valid row hrow
    · exact ⟨rfl, e, he⟩
  · intro e' he'
    obtain ⟨row, hrow, hev⟩ := h.sent e' he'
    exact ⟨row, (hmem row).mpr (Or.inl hrow), hev⟩
  · intro j q' p hj
    rcases Pool.getElem?_set_cases hj with ⟨-, heq⟩ | ⟨-, hj⟩
    · obtain ⟨rfl, rfl⟩ := Prod.mk.injEq .. |>.mp heq
      exact Or.inr ⟨e, k', hok, hk, _, (hmem _).mpr (Or.inr rfl), he⟩
    · rcases h.tasks j q' p hj with hp | ⟨e', k'', hop, hk'', row, hrow, hev⟩
      · exact Or.inl hp
      · exact Or.inr ⟨e', k'', hop, hk'', row, (hmem row).mpr (Or.inl hrow), hev⟩
  · intro row hrow e' he'
    rcases (hmem row).mp hrow with hrow | rfl
    · rcases h.pending row hrow e' he' with hsent | ⟨j, q', k'', hj⟩
      · exact Or.inl hsent
      · have hne : i ≠ j := by
          rintro rfl
          cases ht.symm.trans hj
        exact Or.inr ⟨j, q', k'', (List.getElem?_set_ne hne).trans hj⟩
    · obtain rfl := Option.some.inj (he.symm.trans he')
      refine Or.inr ⟨i, q, k', ?_⟩
      rw [List.getElem?_set_self hi, hok]

theorem Published.broadcast (h : Published P) {i : Nat} {q : ApplyOne L}
    {e : FirehoseEvent L.Frame} {k : Unit → RepoProg L (WriteOutcome L.Cid)} {row : SeqRow L.Event}
    (ht : P.tasks[i]? = some (q, .op (.send e) k)) (hk : Publishes (k ()))
    (hrow : row ∈ P.store.rows) (hev : eventOf row = some e) :
    Published ⟨P.toWorld.after i (.send e) () { P.store with sent := P.store.sent ++ [e] },
      P.tasks.set i (q, k ())⟩ := by
  refine ⟨h.numbered, h.lastSeq, h.valid, ?_, ?_, ?_⟩
  · intro e' he'
    rcases List.mem_append.mp he' with he' | he'
    · exact h.sent e' he'
    · obtain rfl := List.mem_singleton.mp he'
      exact ⟨row, hrow, hev⟩
  · intro j q' p hj
    rcases Pool.getElem?_set_cases hj with ⟨-, heq⟩ | ⟨-, hj⟩
    · obtain ⟨rfl, rfl⟩ := Prod.mk.injEq .. |>.mp heq
      exact Or.inl hk
    · exact h.tasks j q' p hj
  · intro row' hrow' e' he'
    rcases h.pending row' hrow' e' he' with hsent | ⟨j, q', k', hj⟩
    · exact Or.inl (List.mem_append_left _ hsent)
    · by_cases hij : i = j
      · subst hij
        cases ht.symm.trans hj
        exact Or.inl (List.mem_append_right _ (List.mem_singleton_self _))
      · exact Or.inr ⟨j, q', k', (List.getElem?_set_ne hij).trans hj⟩

/-- What one step of the writers does, as a subscriber sees it: the log
and the channel grow. -/
structure Extends (s s' : RepoStore L) : Prop where
  rows : ∃ new, s'.rows = s.rows ++ new
  sent : ∃ new, s'.sent = s.sent ++ new

theorem published_next (hL : RepoLaws L) {a : PoolAct (ApplyOne L) WriterFate}
    {P' : ApplyPool L} (hP : Published P)
    (h : Pool.next (writerMachine L) ApplyOne.handler P a = some P') :
    Published P' ∧ Extends P.store P'.store := by
  have hsame : ∀ {s : RepoStore L}, s.rows = P.store.rows → s.sent = P.store.sent →
      Extends P.store s := fun hrows hsent => ⟨⟨[], by rw [hrows, List.append_nil]⟩,
        ⟨[], by rw [hsent, List.append_nil]⟩⟩
  rcases Pool.next_cases h with ⟨q, rfl, rfl⟩ | ⟨i, c, q, o, k, r, s, rfl, ht, hexec, rfl⟩
  · exact ⟨hP.start (publishes_applyOne hL _ _ _), hsame rfl rfl⟩
  · replace hexec : o.exec i P.store c = some (r, s) := hexec
    rcases hP.tasks i q _ ht with hp | ⟨e, k', hop, hk, row, hrow, hev⟩
    · generalize hprog : Prog.op (S := writerSig L) o k = p at hp
      cases hp with
      | ret a => cases hprog
      | fail e => cases hprog
      | op ho hk =>
          cases hprog
          obtain ⟨hrows, hlast, hsent⟩ := ho.exec hexec
          refine ⟨hP.plain ht ?_ (hk r) hrows hlast hsent, hsame hrows hsent⟩
          rintro e rfl
          exact ho
      | commit herr hok he hk =>
          cases hprog
          cases c with
          | done =>
              obtain ⟨rfl, rfl⟩ := Prod.mk.injEq .. |>.mp (Option.some.inj hexec)
              exact ⟨hP.commit ht (hok _) (he _) (hk _), ⟨_, rfl⟩, ⟨[], (List.append_nil _).symm⟩⟩
          | fault msg =>
              obtain ⟨rfl, rfl⟩ := Prod.mk.injEq .. |>.mp (Option.some.inj hexec)
              exact ⟨hP.plain ht (fun e h => by cases h) (herr _) rfl rfl rfl, hsame rfl rfl⟩
    · cases hop
      obtain ⟨rfl, rfl⟩ := Prod.mk.injEq .. |>.mp (Option.some.inj hexec)
      exact ⟨hP.broadcast ht (hk ()) hrow hev, ⟨[], (List.append_nil _).symm⟩, ⟨[e], rfl⟩⟩

end

end Stelyph
