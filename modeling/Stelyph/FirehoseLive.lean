import Stelyph.FirehosePrefix

/-!
# A subscriber without a cursor

It is to be sent what is committed after it subscribed, and nothing of
before. Its `last_sent_seq` starts at 0, so until its first frame the
filter passes everything: a lag recovery replays the log from its
beginning, and an event that was committed before the subscription and
broadcast after it is relayed. `replays` is a step that does one or the
other.
-/

namespace Stelyph

section

variable {L : RepoLib}

/-- The step begins a replay from before `m`, or relays an event of before
it. -/
def Subscriber.replays (capacity m : Nat) (s : RepoStore L) (u : Subscriber L) (fate : SubFate) :
    Bool :=
  match u.phase with
  | .live =>
      if s.sent.length - u.rx > capacity then
        !u.recoveredFromLag && decide (u.lastSentSeq < m)
      else decide (fate = .done) && s.sent[u.rx]?.any fun e =>
        decide (u.lastSentSeq < e.seq) && decide (e.seq ≤ m)
  | _ => false

/-- The step is one of the subscriber's, and one that replays. -/
def Firehose.replays (capacity m : Nat) (s : Firehose L) : FirehoseAct L → Bool
  | .write _ => false
  | .subscriber fate => s.sub.replays capacity m s.pool.store fate

/-- The step is one of the subscriber's, and one that replays. -/
def EmbeddedFirehose.replays (capacity m : Nat) (s : EmbeddedFirehose L) : EmbeddedAct L → Bool
  | .subscriber (.stream fate) => s.sub.stream.replays capacity m s.pool.store fate
  | _ => false

/-- A server started on a log, with a subscriber that brings no cursor. -/
def Firehose.listenOn (s₀ : RepoStore L) : Firehose L :=
  ⟨Pool.init s₀, Subscriber.connect L none⟩

/-- The same of the embedded server. -/
def EmbeddedFirehose.listenOn (s₀ : RepoStore L) : EmbeddedFirehose L :=
  ⟨Pool.init s₀, WsSubscriber.connect L none⟩

/-! ## The invariant -/

/-- Until it has subscribed, nothing has happened to it. -/
def Unsubscribed (u : Subscriber L) : Prop :=
  u.phase = .connecting → u = Subscriber.connect L none

/-- A replay has only rows after `m` before it. -/
def ReplaysAfter (m last : Nat) : SubPhase L.Event → Prop
  | .connecting => False
  | .checking => False
  | .fetching => m ≤ last
  | .sending page => m ≤ last ∧ ∀ x ∈ page, m < x.1
  | .live => True
  | .closed => True

/-- Nothing of before `m` was sent, or will be by the replay under way. -/
structure OnlyNew (m : Nat) (u : Subscriber L) : Prop where
  frames : ∀ e, OutFrame.message e ∈ u.out → m < e.seq
  phase : ReplaysAfter m u.lastSentSeq u.phase

variable {capacity m : Nat} {s : RepoStore L} {u u' : Subscriber L} {fate : SubFate}

theorem mem_backfillPage {rows : List (SeqRow L.Event)} {after limit : Nat} {x : Nat × L.Event}
    (h : x ∈ backfillPage rows after limit) : after < x.1 := by
  obtain ⟨row, hrow, rfl⟩ := List.mem_map.mp h
  have hsorted := List.mem_of_mem_take hrow
  have hmem := (List.mem_filter.mp ((List.mem_insertionSort _).mp hsorted)).2
  simp only [Bool.and_eq_true, decide_eq_true_eq] at hmem
  exact hmem.1

theorem frames_append {out : List (OutFrame L.Frame)} {f : OutFrame L.Frame}
    (h : ∀ e, OutFrame.message e ∈ out → m < e.seq) (hf : ∀ e, f = .message e → m < e.seq) :
    ∀ e, OutFrame.message e ∈ out ++ [f] → m < e.seq := by
  intro e he
  rcases List.mem_append.mp he with he | he
  · exact h e he
  · exact hf e (List.mem_singleton.mp he).symm

theorem OnlyNew.lagged (h : OnlyNew m u)
    (hno : (!u.recoveredFromLag && decide (u.lastSentSeq < m)) = false) :
    OnlyNew m (u.lagged s) := by
  unfold Subscriber.lagged
  by_cases hrec : u.recoveredFromLag = true
  · rw [if_pos hrec]
    exact ⟨frames_append h.frames fun e he => (nomatch he), trivial⟩
  · rw [if_neg hrec]
    rw [Bool.eq_false_iff.mpr hrec] at hno
    exact ⟨h.frames, show m ≤ u.lastSentSeq by simpa using hno⟩

theorem OnlyNew.receive (h : OnlyNew m u) (hphase : u.phase = .live)
    {e : FirehoseEvent L.Frame} (hno : fate = .done → u.lastSentSeq < e.seq → m < e.seq) :
    OnlyNew m (u.receive e fate) := by
  have hlive : ∀ last, ReplaysAfter m last u.phase := by
    intro last
    rw [hphase]
    trivial
  unfold Subscriber.receive
  by_cases hle : e.seq ≤ u.lastSentSeq
  · rw [if_pos hle]
    exact ⟨h.frames, hlive _⟩
  · rw [if_neg hle]
    cases fate with
    | fails => exact ⟨h.frames, trivial⟩
    | done =>
        refine ⟨frames_append h.frames fun e' he' => ?_, hlive _⟩
        obtain rfl := OutFrame.message.inj he'
        exact hno rfl (Nat.lt_of_not_le hle)

theorem OnlyNew.sendRow (h : OnlyNew m u) {seq : Nat} {event : L.Event}
    {rest : List (Nat × L.Event)} (hseq : m < seq) (hrest : ∀ x ∈ rest, m < x.1) :
    OnlyNew m (u.sendRow seq event rest fate) := by
  unfold Subscriber.sendRow
  split
  · exact ⟨h.frames, Nat.le_of_lt hseq, hrest⟩
  · cases fate with
    | fails => exact ⟨h.frames, trivial⟩
    | done =>
        refine ⟨frames_append h.frames fun e he => ?_, Nat.le_of_lt hseq, hrest⟩
        obtain rfl := OutFrame.message.inj he
        exact hseq

/-- A step that replays nothing sends nothing of before `m`. -/
theorem onlyNew_step (h : OnlyNew m u) (hno : u.replays capacity m s fate = false)
    (hstep : u.step capacity s fate = some u') : OnlyNew m u' := by
  have hphase := h.phase
  unfold Subscriber.replays at hno
  unfold Subscriber.step at hstep
  split at hstep <;> rename_i hp <;> rw [hp] at hphase
  · exact hphase.elim
  · exact hphase.elim
  · cases fate with
    | fails =>
        obtain rfl := Option.some.inj hstep
        exact ⟨h.frames, trivial⟩
    | done =>
        dsimp only at hstep
        split at hstep
        · obtain rfl := Option.some.inj hstep
          exact ⟨h.frames, trivial⟩
        · obtain rfl := Option.some.inj hstep
          exact ⟨h.frames, hphase, fun x hx => Nat.lt_of_le_of_lt hphase (mem_backfillPage hx)⟩
  · obtain rfl := Option.some.inj hstep
    exact ⟨h.frames, hphase.1⟩
  · obtain rfl := Option.some.inj hstep
    exact h.sendRow (hphase.2 _ List.mem_cons_self)
      fun x hx => hphase.2 x (List.mem_cons_of_mem _ hx)
  · rw [hp] at hno
    dsimp only at hno
    by_cases hlag : s.sent.length - u.rx > capacity
    · rw [if_pos hlag] at hstep hno
      obtain rfl := Option.some.inj hstep
      exact h.lagged hno
    · rw [if_neg hlag] at hstep hno
      obtain ⟨e, he, rfl⟩ := Option.map_eq_some_iff.mp hstep
      refine h.receive hp fun hfate hlt => ?_
      rw [he, hfate] at hno
      simp only [decide_true, Bool.true_and, Option.any_some, Bool.and_eq_false_iff,
        decide_eq_false_iff_not] at hno
      omega
  · cases hstep

theorem onlyNew_subscribe (h : u.phase = .connecting) (hu : Unsubscribed u)
    (hstep : u.step capacity s fate = some u') : OnlyNew m u' := by
  obtain rfl := hu h
  obtain rfl := Option.some.inj hstep
  exact ⟨fun e he => (List.not_mem_nil he).elim, trivial⟩

/-- No step goes back to before the subscription. -/
theorem unsubscribed_step (hstep : u.step capacity s fate = some u') : Unsubscribed u' := by
  have hne : u'.phase ≠ .connecting := by
    unfold Subscriber.step at hstep
    split at hstep
    · obtain rfl := Option.some.inj hstep
      dsimp only
      split <;> exact fun h => nomatch h
    · cases fate with
      | fails =>
          obtain rfl := Option.some.inj hstep
          exact fun h => nomatch h
      | done =>
          dsimp only at hstep
          split at hstep <;>
          · obtain rfl := Option.some.inj hstep
            exact fun h => nomatch h
    · cases fate with
      | fails =>
          obtain rfl := Option.some.inj hstep
          exact fun h => nomatch h
      | done =>
          dsimp only at hstep
          split at hstep <;>
          · obtain rfl := Option.some.inj hstep
            exact fun h => nomatch h
    · obtain rfl := Option.some.inj hstep
      exact fun h => nomatch h
    · obtain rfl := Option.some.inj hstep
      unfold Subscriber.sendRow
      split
      · exact fun h => nomatch h
      · cases fate <;> exact fun h => nomatch h
    · rename_i hp
      split at hstep
      · obtain rfl := Option.some.inj hstep
        unfold Subscriber.lagged
        split <;> exact fun h => nomatch h
      · obtain ⟨e, -, rfl⟩ := Option.map_eq_some_iff.mp hstep
        unfold Subscriber.receive
        split
        · exact fun h => nomatch hp.symm.trans h
        · cases fate with
          | done => exact fun h => nomatch hp.symm.trans h
          | fails => exact fun h => nomatch h
    · cases hstep
  exact fun h => absurd h hne

/-! ## Runs of both servers -/

theorem onlyNew_run {m : Nat} {t s : Firehose L} {as : List (FirehoseAct L)}
    (ht : OnlyNew m t.sub) (hno : Steps.Along (Firehose.next capacity)
      (fun s a => s.replays capacity m a = false) t as)
    (hrun : Steps.run (Firehose.next capacity) t as = some s) : OnlyNew m s.sub := by
  refine Steps.run_inv_along (I := fun s => OnlyNew m s.sub) ?_ ht hno hrun
  intro s a s' hs hok hnext
  cases a with
  | write a =>
      obtain ⟨P', -, rfl⟩ := Option.map_eq_some_iff.mp hnext
      exact hs
  | subscriber fate =>
      obtain ⟨u', hu', rfl⟩ := Option.map_eq_some_iff.mp hnext
      exact onlyNew_step hs hok hu'

theorem onlyNew_embedded {v v' : WsSubscriber L} {ev : WsEvent} (h : OnlyNew m v.stream)
    (hno : ∀ fate, ev = .stream fate → v.stream.replays capacity m s fate = false)
    (hstep : v.step capacity s ev = some v') : OnlyNew m v'.stream := by
  cases ev with
  | stream fate => exact onlyNew_step h (hno fate rfl) (WsSubscriber.step_of_stream hstep)
  | client frame fate =>
      rcases WsSubscriber.step_of_client hstep with hsame | hclosed
      · rw [hsame]
        exact h
      · rw [hclosed]
        exact ⟨h.frames, trivial⟩

theorem onlyNew_embedded_run {m : Nat} {t s : EmbeddedFirehose L} {as : List (EmbeddedAct L)}
    (ht : OnlyNew m t.sub.stream) (hno : Steps.Along (EmbeddedFirehose.next capacity)
      (fun s a => s.replays capacity m a = false) t as)
    (hrun : Steps.run (EmbeddedFirehose.next capacity) t as = some s) :
    OnlyNew m s.sub.stream := by
  refine Steps.run_inv_along (I := fun s => OnlyNew m s.sub.stream) ?_ ht hno hrun
  intro s a s' hs hok hnext
  cases a with
  | write a =>
      obtain ⟨P', -, rfl⟩ := Option.map_eq_some_iff.mp hnext
      exact hs
  | subscriber ev =>
      obtain ⟨v', hv', rfl⟩ := Option.map_eq_some_iff.mp hnext
      exact onlyNew_embedded hs (fun fate hev => by subst hev; exact hok) hv'

theorem unsubscribed_run {s₀ : RepoStore L} {as : List (FirehoseAct L)} {s : Firehose L}
    (hrun : Steps.run (Firehose.next capacity) (Firehose.listenOn s₀) as = some s) :
    Unsubscribed s.sub := by
  refine Steps.run_inv (I := fun s => Unsubscribed s.sub) ?_ (fun _ => rfl) hrun
  intro s a s' hs hnext
  cases a with
  | write a =>
      obtain ⟨P', -, rfl⟩ := Option.map_eq_some_iff.mp hnext
      exact hs
  | subscriber fate =>
      obtain ⟨u', hu', rfl⟩ := Option.map_eq_some_iff.mp hnext
      exact unsubscribed_step hu'

theorem unsubscribed_embedded_run {s₀ : RepoStore L} {as : List (EmbeddedAct L)}
    {s : EmbeddedFirehose L}
    (hrun : Steps.run (EmbeddedFirehose.next capacity) (EmbeddedFirehose.listenOn s₀) as
      = some s) : Unsubscribed s.sub.stream := by
  refine Steps.run_inv (I := fun s => Unsubscribed s.sub.stream) ?_ (fun _ => rfl) hrun
  intro s a s' hs hnext
  cases a with
  | write a =>
      obtain ⟨P', -, rfl⟩ := Option.map_eq_some_iff.mp hnext
      exact hs
  | subscriber ev =>
      obtain ⟨v', hv', rfl⟩ := Option.map_eq_some_iff.mp hnext
      cases ev with
      | stream fate => exact unsubscribed_step (WsSubscriber.step_of_stream hv')
      | client frame fate =>
          change Unsubscribed v'.stream
          rcases WsSubscriber.step_of_client hv' with hsame | hclosed
          · rw [hsame]
            exact hs
          · rw [hclosed]
            exact fun h => nomatch h

/-- **No history without a cursor**, on either server: in a run from the
subscription on in which no step replays, every frame sent is of an event
after the largest seq the log then had. -/
theorem onlyNew_of_no_replay (capacity : Nat) (s₀ : RepoStore L) :
    (∀ (pre post : List (FirehoseAct L)) (fate : SubFate) (t s : Firehose L),
      Steps.run (Firehose.next capacity) (Firehose.listenOn s₀) pre = some t →
      t.sub.phase = .connecting →
      Steps.run (Firehose.next capacity) t (.subscriber fate :: post) = some s →
      Steps.Along (Firehose.next capacity)
        (fun s a => s.replays capacity (maxSeq t.pool.store.rows) a = false) t
        (.subscriber fate :: post) →
      ∀ e, OutFrame.message e ∈ s.sub.out → maxSeq t.pool.store.rows < e.seq)
    ∧ ∀ (pre post : List (EmbeddedAct L)) (fate : SubFate) (t s : EmbeddedFirehose L),
      Steps.run (EmbeddedFirehose.next capacity) (EmbeddedFirehose.listenOn s₀) pre = some t →
      t.sub.phase = .connecting →
      Steps.run (EmbeddedFirehose.next capacity) t (.subscriber (.stream fate) :: post) = some s →
      Steps.Along (EmbeddedFirehose.next capacity)
        (fun s a => s.replays capacity (maxSeq t.pool.store.rows) a = false) t
        (.subscriber (.stream fate) :: post) →
      ∀ e, WsFrame.binary (.message e) ∈ s.sub.out → maxSeq t.pool.store.rows < e.seq := by
  constructor
  · intro pre post fate t s hpre hphase hrun hno
    obtain ⟨t', hstep, hpost⟩ := Steps.run_cons_eq_some.mp hrun
    have hnew : OnlyNew (maxSeq t.pool.store.rows) t'.sub := by
      obtain ⟨u', hu', rfl⟩ := Option.map_eq_some_iff.mp hstep
      exact onlyNew_subscribe hphase (unsubscribed_run hpre) hu'
    exact (onlyNew_run hnew (hno.2 t' hstep) hpost).frames
  · intro pre post fate t s hpre hphase hrun hno e he
    obtain ⟨t', hstep, hpost⟩ := Steps.run_cons_eq_some.mp hrun
    have hnew : OnlyNew (maxSeq t.pool.store.rows) t'.sub.stream := by
      obtain ⟨v', hv', rfl⟩ := Option.map_eq_some_iff.mp hstep
      exact onlyNew_subscribe hphase (unsubscribed_embedded_run hpre)
        (WsSubscriber.step_of_stream hv')
    refine (onlyNew_embedded_run hnew (hno.2 t' hstep) hpost).frames e ?_
    exact List.mem_filterMap.mpr ⟨_, he, rfl⟩

end

/-! ## History that is sent -/

/-- The seqs of the frames sent. -/
def Firehose.sentSeqs {L : RepoLib} (s : Firehose L) : List Nat :=
  (commitFrames s.sub.out).map fun e => e.seq

def EmbeddedFirehose.sentSeqs {L : RepoLib} (s : EmbeddedFirehose L) : List Nat :=
  (commitFrames s.sub.stream.out).map fun e => e.seq

/-- Alice has committed and not yet broadcast when the subscriber comes. -/
def lateBroadcast : List (FirehoseAct sampleRepo) :=
  [.write (.start (sampleWrite "did:plc:alice" "a"))]
  ++ List.replicate 14 (.write (.step 0 .done))

/-- The subscriber comes, and her event is relayed to it. -/
def lateRelay : List (FirehoseAct sampleRepo) :=
  [.subscriber .done] ++ List.replicate 2 (.write (.step 0 .done)) ++ [.subscriber .done]

/-- The writes of `n` accounts, one after the other. -/
def writesInTurn (first n : Nat) : List (EmbeddedAct sampleRepo) :=
  (List.range' first n).flatMap fun i =>
    .write (.start (sampleWrite (String.ofList (List.replicate i 'x')) "a"))
      :: List.replicate 16 (.write (.step i .done))

/-- The subscriber comes after one event, and falls behind before the
first one it is to be sent. -/
def laggedReplay : List (EmbeddedAct sampleRepo) :=
  [.subscriber (.stream .done)] ++ writesInTurn 1 17
  ++ List.replicate 3 (.subscriber (.stream .done))

def SubPhase.isConnecting {Event : Type} : SubPhase Event → Bool
  | .connecting => true
  | _ => false

theorem SubPhase.eq_connecting {Event : Type} {p : SubPhase Event} (h : p.isConnecting = true) :
    p = .connecting := by
  cases p <;> first | rfl | cases h

theorem history_is_sent :
    (¬ ∀ (capacity : Nat) (pre post : List (FirehoseAct sampleRepo)) (fate : SubFate)
      (t s : Firehose sampleRepo),
      Steps.run (Firehose.next capacity) (Firehose.listenOn (RepoStore.empty sampleRepo)) pre
        = some t → t.sub.phase = .connecting →
      Steps.run (Firehose.next capacity) t (.subscriber fate :: post) = some s →
      ∀ q ∈ s.sentSeqs, maxSeq t.pool.store.rows < q)
    ∧ ¬ ∀ (capacity : Nat) (pre post : List (EmbeddedAct sampleRepo)) (fate : SubFate)
      (t s : EmbeddedFirehose sampleRepo),
      Steps.run (EmbeddedFirehose.next capacity)
        (EmbeddedFirehose.listenOn (RepoStore.empty sampleRepo)) pre = some t →
      t.sub.phase = .connecting →
      Steps.run (EmbeddedFirehose.next capacity) t (.subscriber (.stream fate) :: post) = some s →
      ∀ q ∈ s.sentSeqs, maxSeq t.pool.store.rows < q := by
  constructor
  · intro h
    have heval : ((Steps.run (Firehose.next 512)
        (Firehose.listenOn (RepoStore.empty sampleRepo)) lateBroadcast).bind fun t =>
          (Steps.run (Firehose.next 512) t lateRelay).map fun s =>
            (t.sub.phase.isConnecting, maxSeq t.pool.store.rows, s.sentSeqs))
        = some (true, 1, [1]) := by decide +kernel
    obtain ⟨t, ht, heval⟩ := Option.bind_eq_some_iff.mp heval
    obtain ⟨s, hs, heq⟩ := Option.map_eq_some_iff.mp heval
    simp only [Prod.mk.injEq] at heq
    obtain ⟨hphase, hmax, hsent⟩ := heq
    have := h 512 lateBroadcast _ .done t s ht (SubPhase.eq_connecting hphase) hs 1
      (by simp [hsent])
    omega
  · intro h
    have heval : ((Steps.run (EmbeddedFirehose.next 16)
        (EmbeddedFirehose.listenOn (RepoStore.empty sampleRepo)) (writesInTurn 0 1)).bind fun t =>
          (Steps.run (EmbeddedFirehose.next 16) t laggedReplay).map fun s =>
            (t.sub.phase.isConnecting, maxSeq t.pool.store.rows, s.sentSeqs))
        = some (true, 1, [1]) := by decide +kernel
    obtain ⟨t, ht, heval⟩ := Option.bind_eq_some_iff.mp heval
    obtain ⟨s, hs, heq⟩ := Option.map_eq_some_iff.mp heval
    simp only [Prod.mk.injEq] at heq
    obtain ⟨hphase, hmax, hsent⟩ := heq
    have := h 16 (writesInTurn 0 1) _ .done t s ht (SubPhase.eq_connecting hphase) hs 1
      (by simp [hsent])
    omega

/-- An event before the subscription, one after it. -/
def freshRelay : List (EmbeddedAct sampleRepo) :=
  [.subscriber (.stream .done)] ++ writesInTurn 1 1 ++ [.subscriber (.stream .done)]

theorem freshRelay_onlyNew : ∃ t s : EmbeddedFirehose sampleRepo,
    Steps.run (EmbeddedFirehose.next 16)
      (EmbeddedFirehose.listenOn (RepoStore.empty sampleRepo)) (writesInTurn 0 1) = some t
    ∧ Steps.run (EmbeddedFirehose.next 16) t freshRelay = some s
    ∧ maxSeq t.pool.store.rows = 1 ∧ s.sentSeqs = [2]
    ∧ ∀ e, WsFrame.binary (.message e) ∈ s.sub.out → maxSeq t.pool.store.rows < e.seq := by
  have heval : ((Steps.run (EmbeddedFirehose.next 16)
      (EmbeddedFirehose.listenOn (RepoStore.empty sampleRepo)) (writesInTurn 0 1)).bind fun t =>
        (Steps.run (EmbeddedFirehose.next 16) t freshRelay).map fun s =>
          (t.sub.phase.isConnecting, maxSeq t.pool.store.rows, s.sentSeqs))
      = some (true, 1, [2]) := by decide +kernel
  obtain ⟨t, ht, heval⟩ := Option.bind_eq_some_iff.mp heval
  obtain ⟨s, hs, heq⟩ := Option.map_eq_some_iff.mp heval
  simp only [Prod.mk.injEq] at heq
  obtain ⟨hphase, hmax, hsent⟩ := heq
  refine ⟨t, s, ht, hs, hmax, hsent, ?_⟩
  refine (onlyNew_of_no_replay 16 (RepoStore.empty sampleRepo)).2 (writesInTurn 0 1) _ .done t s ht
    (SubPhase.eq_connecting hphase) hs ?_
  rw [hmax]
  have hquiet : ((Steps.run (EmbeddedFirehose.next 16)
      (EmbeddedFirehose.listenOn (RepoStore.empty sampleRepo)) (writesInTurn 0 1)).map fun t =>
        decide (Steps.Along (EmbeddedFirehose.next 16) (fun s a => s.replays 16 1 a = false) t
          freshRelay)) = some true := by decide +kernel
  obtain ⟨t', ht', hquiet⟩ := Option.map_eq_some_iff.mp hquiet
  obtain rfl := Option.some.inj (ht.symm.trans ht')
  exact of_decide_eq_true hquiet

end Stelyph
