import Stelyph.Lib.Format
import Stelyph.Sequencer

/-!
# The order of the stream

The log is strictly increasing and only grows at its end, and a socket
that stays is sent what is logged. So a subscriber has every frame above
its cursor, once and in order, wherever the replay ended.

Whether the log has gaps depends on what the sequencer is told. The
counter is advanced before the CIDs of an event are read, so an event
whose CIDs do not read uses up a seq that is never logged.
-/

namespace Stelyph

section

variable {Cid Car Payload : Type} {X : SequencerLib Cid Car Payload} {S S' : Sequencer}

/-! ## What a step does -/

/-- The event that a request has the sequencer put in order. -/
def SequencerLib.eventOf (X : SequencerLib Cid Car Payload) (q : SequencerRequest Payload) :
    Option EnqueueReq :=
  if q.path ∈ enqueuePaths then
    match q.body with
    | .error _ => none
    | .ok text => (X.readJson text).bind (EnqueueReq.ofJson X.toJsNumbers)
  else none

/-- One row more, sent to every socket there is. -/
def Sequencer.logged (S : Sequencer) (row : LogRow) (indexed : List Json) : Sequencer where
  next := S.next + 1
  log := S.log ++ [row]
  sockets := S.sockets.map fun ws =>
    if ws.connected then { ws with received := ws.received ++ [row.frame] } else ws
  indexed := indexed

def Sequencer.skipped (S : Sequencer) : Sequencer := { S with next := S.next + 1 }

theorem enqueue_of_error {ev : EnqueueReq} {now : String} {e : String}
    (h : X.eventBody ev S.next now = .error e) : X.enqueue S ev now = (.error e, S.skipped) := by
  simp only [SequencerLib.enqueue, h, Sequencer.skipped]

theorem enqueue_of_ok {ev : EnqueueReq} {now : String} {body : CommitBody Cid Car}
    (h : X.eventBody ev S.next now = .ok body) (hfresh : ∀ r ∈ S.log, r.seq ≠ S.next) :
    X.enqueue S ev now = (.ok (.json (.obj [("ok", .bool true), ("seq", .num S.next)])),
      S.logged ⟨S.next, ev.repo, X.encodeMessageFrame "#commit" body⟩
        (if X.hasQueue then S.indexed ++ [SequencerLib.indexerMessage S.next ev]
          else S.indexed)) := by
  have hany : (S.log.any fun r => decide (r.seq = S.next)) = false := by
    simpa using hfresh
  simp only [SequencerLib.enqueue, h, hany, Sequencer.logged]
  rfl

/-- The event has CIDs that read. -/
def SequencerLib.Reads (X : SequencerLib Cid Car Payload) (ev : EnqueueReq) : Prop :=
  (X.parseCid ev.commit).isOk ∧ ∀ o ∈ ev.ops, ∀ c, o.cid = some c → (X.parseCid c).isOk

theorem repoOps_isOk (X : SequencerLib Cid Car Payload) : ∀ os : List EnqueueOp,
    (X.repoOps os).isOk = true ↔ ∀ o ∈ os, ∀ c, o.cid = some c → (X.parseCid c).isOk = true
  | [] => by simp [SequencerLib.repoOps, Except.isOk, Except.toBool]
  | o :: os => by
      have hone : (X.opCid o).isOk = true ↔ ∀ c, o.cid = some c → (X.parseCid c).isOk = true := by
        unfold SequencerLib.opCid
        cases o.cid with
        | none => simp [Except.isOk, Except.toBool]
        | some c => cases hparse : X.parseCid c <;> simp [hparse, Except.isOk, Except.toBool]
      rw [List.forall_mem_cons, ← hone, ← repoOps_isOk X os, SequencerLib.repoOps]
      cases X.opCid o with
      | error e => simp [Except.isOk, Except.toBool]
      | ok cid => cases X.repoOps os <;> simp [Except.isOk, Except.toBool]

theorem eventBody_isOk_iff (X : SequencerLib Cid Car Payload) (ev : EnqueueReq) (seq : Nat)
    (now : String) : (X.eventBody ev seq now).isOk = true ↔ X.Reads ev := by
  unfold SequencerLib.Reads
  rw [← repoOps_isOk X ev.ops, SequencerLib.eventBody]
  cases X.parseCid ev.commit with
  | error e => simp [Except.isOk, Except.toBool]
  | ok commit => cases X.repoOps ev.ops <;> simp [Except.isOk, Except.toBool]

/-! ## The log is in order -/

/-- Rows are numbered upwards from one, below the counter. -/
structure LogOrdered (S : Sequencer) : Prop where
  pos : 1 ≤ S.next
  range : ∀ r ∈ S.log, 1 ≤ r.seq ∧ r.seq < S.next
  sorted : S.log.Pairwise fun r r' => r.seq < r'.seq

theorem logOrdered_init : LogOrdered Sequencer.init :=
  ⟨Nat.le_refl 1, fun _ h => (List.not_mem_nil h).elim, List.Pairwise.nil⟩

theorem LogOrdered.fresh (h : LogOrdered S) : ∀ r ∈ S.log, r.seq ≠ S.next :=
  fun r hr => Nat.ne_of_lt (h.range r hr).2

/-- Everything a step of the sequencer can do. -/
theorem sequencer_cases (hnum : LogOrdered S) {a : SequencerAct Payload}
    (h : S.step X a = some S') :
    (∃ q, a = .request q ∧ q.path ≠ subscribePath ∧ X.eventOf q = none ∧ S' = S)
    ∨ (∃ q ev, a = .request q ∧ q.path ≠ subscribePath ∧ X.eventOf q = some ev ∧ ¬ X.Reads ev
        ∧ S' = S.skipped)
    ∨ (∃ q ev body indexed, a = .request q ∧ q.path ≠ subscribePath ∧ X.eventOf q = some ev
        ∧ X.Reads ev ∧ X.eventBody ev S.next q.now = .ok body
        ∧ S' = S.logged ⟨S.next, ev.repo, X.encodeMessageFrame "#commit" body⟩ indexed)
    ∨ (∃ q, a = .request q ∧ q.path = subscribePath
        ∧ S' = (SequencerLib.subscribe S q.cursor).2)
    ∨ ∃ i ws, a = .disconnect i ∧ S.sockets[i]? = some ws
        ∧ S' = { S with sockets := S.sockets.set i { ws with connected := false } } := by
  cases a with
  | disconnect i =>
      obtain ⟨ws, hws, rfl⟩ := Option.map_eq_some_iff.mp h
      exact Or.inr (Or.inr (Or.inr (Or.inr ⟨i, ws, rfl, hws, rfl⟩)))
  | request q =>
      have hfetch : (X.route S q).2 = S' := by
        have hsome := Option.some.inj h
        unfold SequencerLib.fetch at hsome
        cases hroute : X.route S q with
        | mk reply T => cases reply <;> simpa [hroute] using hsome
      by_cases hsub : q.path = subscribePath
      · refine Or.inr (Or.inr (Or.inr (Or.inl ⟨q, rfl, hsub, ?_⟩)))
        rw [← hfetch, SequencerLib.route, if_pos hsub]
      · rw [SequencerLib.route, if_neg hsub] at hfetch
        by_cases hpath : q.path ∈ enqueuePaths
        · rw [if_pos hpath] at hfetch
          cases hbody : q.body with
          | error e =>
              simp only [hbody] at hfetch
              exact Or.inl ⟨q, rfl, hsub, by simp [SequencerLib.eventOf, hpath, hbody], hfetch.symm⟩
          | ok text =>
              have hevent :
                  X.eventOf q = (X.readJson text).bind (EnqueueReq.ofJson X.toJsNumbers) := by
                simp [SequencerLib.eventOf, hpath, hbody]
              simp only [hbody] at hfetch
              cases hread : (X.readJson text).bind (EnqueueReq.ofJson X.toJsNumbers) with
              | none =>
                  simp only [hread] at hfetch
                  exact Or.inl ⟨q, rfl, hsub, hevent.trans hread, hfetch.symm⟩
              | some ev =>
                  simp only [hread] at hfetch
                  have hok := eventBody_isOk_iff X ev S.next q.now
                  cases hbody' : X.eventBody ev S.next q.now with
                  | error e =>
                      rw [enqueue_of_error hbody'] at hfetch
                      rw [hbody'] at hok
                      exact Or.inr (Or.inl ⟨q, ev, rfl, hsub, hevent.trans hread,
                        fun hr => Bool.noConfusion (hok.mpr hr), hfetch.symm⟩)
                  | ok body =>
                      rw [enqueue_of_ok hbody' hnum.fresh] at hfetch
                      rw [hbody'] at hok
                      exact Or.inr (Or.inr (Or.inl ⟨q, ev, body, _, rfl, hsub, hevent.trans hread,
                        hok.mp rfl, hbody', hfetch.symm⟩))
        · rw [if_neg hpath] at hfetch
          exact Or.inl ⟨q, rfl, hsub, by simp [SequencerLib.eventOf, hpath], hfetch.symm⟩

theorem LogOrdered.logged (h : LogOrdered S) (repo : String) (frame : Bytes) (indexed : List Json) :
    LogOrdered (S.logged ⟨S.next, repo, frame⟩ indexed) where
  pos := by
    have := h.pos
    simp only [Sequencer.logged]
    omega
  range := by
    intro r hr
    simp only [Sequencer.logged] at hr ⊢
    rcases List.mem_append.mp hr with hr | hr
    · have := h.range r hr
      omega
    · rw [List.mem_singleton.mp hr]
      exact ⟨h.pos, Nat.lt_succ_self _⟩
  sorted := by
    refine List.pairwise_append.mpr ⟨h.sorted, List.pairwise_singleton _ _, ?_⟩
    intro r hr r' hr'
    rw [List.mem_singleton.mp hr']
    exact (h.range r hr).2

theorem LogOrdered.skipped (h : LogOrdered S) : LogOrdered S.skipped where
  pos := Nat.le_succ_of_le h.pos
  range := fun r hr => ⟨(h.range r hr).1, Nat.lt_succ_of_lt (h.range r hr).2⟩
  sorted := h.sorted

theorem logOrdered_step (X : SequencerLib Cid Car Payload) (S : Sequencer)
    (a : SequencerAct Payload) (S' : Sequencer) (h : LogOrdered S)
    (hstep : S.step X a = some S') : LogOrdered S' := by
  rcases sequencer_cases h hstep with ⟨q, -, -, -, rfl⟩ | ⟨q, ev, -, -, -, -, rfl⟩
    | ⟨q, ev, body, indexed, -, -, -, -, -, rfl⟩ | ⟨q, -, -, rfl⟩ | ⟨i, ws, -, -, rfl⟩
  · exact h
  · exact h.skipped
  · exact h.logged _ _ _
  · exact ⟨h.pos, h.range, h.sorted⟩
  · exact ⟨h.pos, h.range, h.sorted⟩

theorem logOrdered_run {as : List (SequencerAct Payload)} (h : LogOrdered S)
    (hrun : Steps.run (Sequencer.step X) S as = some S') : LogOrdered S' :=
  Steps.run_inv (logOrdered_step X) h hrun

/-! ## What a socket receives -/

/-- A socket that is not closed is sent each row that is logged. -/
theorem socket_step (hnum : LogOrdered S) {a : SequencerAct Payload} {k : Nat}
    {received : List Bytes}
    (hws : S.sockets[k]? = some ⟨true, received⟩) (hstays : a ≠ .disconnect k)
    (h : S.step X a = some S') :
    ∃ rows, S'.log = S.log ++ rows ∧ (∀ r ∈ rows, S.next ≤ r.seq) ∧ S.next ≤ S'.next
      ∧ S'.sockets[k]? = some ⟨true, received ++ rows.map fun r => r.frame⟩ := by
  rcases sequencer_cases hnum h with ⟨q, -, -, -, rfl⟩ | ⟨q, ev, -, -, -, -, rfl⟩
    | ⟨q, ev, body, indexed, -, -, -, -, -, rfl⟩ | ⟨q, -, -, rfl⟩ | ⟨i, ws, rfl, -, rfl⟩
  · exact ⟨[], by simp, by simp, Nat.le_refl _, by simpa using hws⟩
  · exact ⟨[], by simp [Sequencer.skipped], by simp, Nat.le_succ _,
      by simpa [Sequencer.skipped] using hws⟩
  · refine ⟨[⟨S.next, ev.repo, X.encodeMessageFrame "#commit" body⟩], rfl, by simp,
      Nat.le_succ _, ?_⟩
    simp [Sequencer.logged, hws]
  · refine ⟨[], by simp [SequencerLib.subscribe], by simp, Nat.le_refl _, ?_⟩
    have hk : k < S.sockets.length := (List.getElem?_eq_some_iff.mp hws).1
    simpa [SequencerLib.subscribe, List.getElem?_append_left hk] using hws
  · have hne : i ≠ k := fun hik => hstays (congrArg SequencerAct.disconnect hik)
    exact ⟨[], by simp, by simp, Nat.le_refl _, by simpa [List.getElem?_set_ne hne] using hws⟩

theorem socket_run : ∀ {as : List (SequencerAct Payload)} {S : Sequencer} {k : Nat}
    {received : List Bytes}, LogOrdered S → S.sockets[k]? = some ⟨true, received⟩ →
    .disconnect k ∉ as → Steps.run (Sequencer.step X) S as = some S' →
    ∃ rows, S'.log = S.log ++ rows ∧ (∀ r ∈ rows, S.next ≤ r.seq)
      ∧ S'.sockets[k]? = some ⟨true, received ++ rows.map fun r => r.frame⟩
  | [], S, k, received, _, hws, _, hrun => by
      obtain rfl := Option.some.inj hrun
      exact ⟨[], by simp, by simp, by simpa using hws⟩
  | a :: as, S, k, received, hnum, hws, hstays, hrun => by
      obtain ⟨S₁, hstep, hrest⟩ := Steps.run_cons_eq_some.mp hrun
      rw [List.mem_cons, not_or] at hstays
      obtain ⟨rows₁, hlog₁, hfrom₁, hnext, hws₁⟩ :=
        socket_step hnum hws (Ne.symm hstays.1) hstep
      obtain ⟨rows₂, hlog₂, hfrom₂, hws₂⟩ :=
        socket_run (logOrdered_step X S a S₁ hnum hstep) hws₁ hstays.2 hrest
      refine ⟨rows₁ ++ rows₂, by rw [hlog₂, hlog₁, List.append_assoc], ?_, ?_⟩
      · intro r hr
        rcases List.mem_append.mp hr with hr | hr
        · exact hfrom₁ r hr
        · exact Nat.le_trans hnext (hfrom₂ r hr)
      · rw [hws₂, List.map_append, List.append_assoc]

/-- The replay is the log itself, above the cursor. -/
theorem LogOrdered.replay (h : LogOrdered S) (after : Int) :
    SequencerLib.replay S.log after
      = (S.log.filter fun r => after < r.seq).map fun r => r.frame := by
  have hle : (S.log.filter fun r => decide (after < r.seq)).Pairwise fun r r' => r.seq ≤ r'.seq :=
    (h.sorted.sublist List.filter_sublist).imp Nat.le_of_lt
  rw [SequencerLib.replay, hle.insertionSort_eq]

/-- The last seq that was assigned. -/
def Sequencer.head (S : Sequencer) : Int := (S.next : Int) - 1

/-- A subscriber that stays has received what its cursor asks for: all
frames above it, or those of after its subscription. Replay and
registration are one step of the object, so that nothing is logged between
them. -/
theorem sequencer_delivery {pre post : List (SequencerAct Payload)}
    {q : SequencerRequest Payload} {S₁ : Sequencer}
    (hpre : Steps.run (Sequencer.step X) Sequencer.init pre = some S₁)
    (hq : q.path = subscribePath)
    (hrun : Steps.run (Sequencer.step X) S₁ (.request q :: post) = some S)
    (hstays : .disconnect S₁.sockets.length ∉ post) :
    S.log.Pairwise (fun r r' => r.seq < r'.seq)
      ∧ ∃ received, S.sockets[S₁.sockets.length]? = some ⟨true, received⟩
        ∧ match q.cursor with
          | some c => c ≤ S₁.head →
              received = (S.log.filter fun r => c < r.seq).map fun r => r.frame
          | none => received = (S.log.drop S₁.log.length).map fun r => r.frame := by
  have hnum : LogOrdered S₁ := logOrdered_run logOrdered_init hpre
  refine ⟨(logOrdered_run hnum hrun).sorted, ?_⟩
  obtain ⟨S₂, hstep, hrest⟩ := Steps.run_cons_eq_some.mp hrun
  have hnum₂ := logOrdered_step X S₁ _ S₂ hnum hstep
  have hfetch : S₂ = (SequencerLib.subscribe S₁ q.cursor).2 := by
    rcases sequencer_cases hnum hstep with ⟨q', hq', hne, -, -⟩ | ⟨q', ev, hq', hne, -⟩
      | ⟨q', ev, body, indexed, hq', hne, -⟩ | ⟨q', hq', -, rfl⟩ | ⟨i, ws, hq', -⟩
    · exact absurd hq (SequencerAct.request.inj hq' ▸ hne)
    · exact absurd hq (SequencerAct.request.inj hq' ▸ hne)
    · exact absurd hq (SequencerAct.request.inj hq' ▸ hne)
    · rw [SequencerAct.request.inj hq']
    · cases hq'
  have hnew : S₂.sockets[S₁.sockets.length]?
      = some ⟨true, SequencerLib.backlog S₁.log q.cursor⟩ := by
    rw [hfetch]
    simp [SequencerLib.subscribe]
  obtain ⟨rows, hlog, hfrom, hws⟩ := socket_run hnum₂ hnew hstays hrest
  have hlog₁ : S.log = S₁.log ++ rows := by rw [hlog, hfetch]; rfl
  have hnext : S₂.next = S₁.next := by rw [hfetch]; rfl
  refine ⟨_, hws, ?_⟩
  cases hc : q.cursor with
  | none => simp [hlog₁, SequencerLib.backlog]
  | some c =>
      intro hhead
      -- Rows that came later are all above the cursor.
      have habove : rows.filter (fun r => decide (c < r.seq)) = rows := by
        refine List.filter_eq_self.mpr fun r hr => decide_eq_true ?_
        have hr' := hfrom r hr
        unfold Sequencer.head at hhead
        omega
      simp only [SequencerLib.backlog, hnum.replay, hlog₁, List.filter_append, List.map_append,
        habove]

end

/-- The bodies of the runs below. -/
def goodText : String :=
  "\x7b\"repo\":\"did:plc:alice\",\"commit\":\"bafyreia\",\"rev\":\"3kaa\"\x7d"

def badText : String :=
  "\x7b\"repo\":\"did:plc:bob\",\"commit\":\"not a cid\",\"rev\":\"3kab\"\x7d"

/-- Only the texts of the runs below are read. -/
def sampleSequencer : SequencerLib String String String where
  toFrameLib := FrameLib.ofFormats Format.string Format.string
  double _ := none
  ofFraction := .frac
  readJson text :=
    if text = goodText then
      some (.obj
        [("repo", .str "did:plc:alice"), ("commit", .str "bafyreia"), ("rev", .str "3kaa")])
    else if text = badText then
      some (.obj [("repo", .str "did:plc:bob"), ("commit", .str "not a cid"), ("rev", .str "3kab")])
    else none
  jsonError _ := "expected value at line 1 column 1"
  parseCid s := if Text.startsWith s "bafyrei" then .ok s else .error "Failed to parse multihash"
  base64Decode s := if s = "" then some "" else none
  noBlocks := ""
  hasQueue := true

def sampleEnqueue (text : String) : SequencerAct String :=
  .request ⟨"/enqueue", [], .ok text, "2026-01-01T00:00:00.000Z"⟩

def sampleGood : SequencerAct String := sampleEnqueue goodText

def sampleBad : SequencerAct String := sampleEnqueue badText

def sampleSubscribe : SequencerRequest String := ⟨subscribePath, [("cursor", "0")], .ok "", ""⟩

/-- A subscriber that came between an event, one with a bad CID, and
another event. -/
theorem sampleSubscribe_delivered : ∃ S₁ S received,
    Steps.run (Sequencer.step sampleSequencer) Sequencer.init [sampleGood] = some S₁
      ∧ Steps.run (Sequencer.step sampleSequencer) S₁
        [.request sampleSubscribe, sampleBad, sampleGood] = some S
      ∧ S.sockets[S₁.sockets.length]? = some ⟨true, received⟩
      ∧ received = (S.log.filter fun r => (0 : Int) < r.seq).map fun r => r.frame := by
  have hpre : (Steps.run (Sequencer.step sampleSequencer) Sequencer.init [sampleGood]).map
      (fun S => (S.next, S.sockets)) = some (2, []) := by decide
  obtain ⟨S₁, hrun₁, hS₁⟩ := Option.map_eq_some_iff.mp hpre
  obtain ⟨hnext, hsockets⟩ := Prod.mk.injEq .. |>.mp hS₁
  have hpost : (Steps.run (Sequencer.step sampleSequencer) S₁
      [.request sampleSubscribe, sampleBad, sampleGood]).isSome := rfl
  obtain ⟨S, hrun⟩ := Option.isSome_iff_exists.mp hpost
  obtain ⟨-, received, hws, hreceived⟩ := sequencer_delivery (X := sampleSequencer) hrun₁
    (q := sampleSubscribe) rfl hrun (by simp [hsockets, sampleBad, sampleGood, sampleEnqueue])
  have hcursor : sampleSubscribe.cursor = some 0 := by decide
  rw [hcursor] at hreceived
  exact ⟨S₁, S, received, hrun₁, hrun, hws, hreceived (by simp [Sequencer.head, hnext])⟩

/-! ## Gaps -/

section

variable {Cid Car Payload : Type} {X : SequencerLib Cid Car Payload} {S S' : Sequencer}

/-- The seqs in the log are those from 1 to `n`, and `n + 1` is next. -/
def Sequencer.GapFree (S : Sequencer) : Prop :=
  ∃ n, (∀ seq, (∃ r ∈ S.log, r.seq = seq) ↔ 1 ≤ seq ∧ seq ≤ n) ∧ S.next = n + 1

/-- A request that, if it has an event put in order, has one whose CIDs
read. -/
def SequencerAct.Readable (X : SequencerLib Cid Car Payload) : SequencerAct Payload → Prop
  | .request q => ∀ ev, X.eventOf q = some ev → X.Reads ev
  | .disconnect _ => True

theorem LogOrdered.gapFree_iff (h : LogOrdered S) :
    S.GapFree ↔ ∀ seq, 1 ≤ seq → seq < S.next → ∃ r ∈ S.log, r.seq = seq := by
  constructor
  · rintro ⟨n, hlog, hnext⟩ seq hpos hlt
    exact (hlog seq).mpr ⟨hpos, by omega⟩
  · intro hall
    have hpos := h.pos
    refine ⟨S.next - 1, fun seq => ⟨?_, fun hseq => hall seq hseq.1 (by omega)⟩, by omega⟩
    rintro ⟨r, hr, rfl⟩
    have := h.range r hr
    omega

theorem LogOrdered.gapFree_logged (h : LogOrdered S) (repo : String) (frame : Bytes)
    (indexed : List Json) :
    (S.logged ⟨S.next, repo, frame⟩ indexed).GapFree ↔ S.GapFree := by
  rw [(h.logged repo frame indexed).gapFree_iff, h.gapFree_iff]
  constructor
  · intro hall seq hpos hlt
    obtain ⟨r, hr, rfl⟩ := hall seq hpos (Nat.lt_succ_of_lt hlt)
    rcases List.mem_append.mp hr with hr | hr
    · exact ⟨r, hr, rfl⟩
    · rw [List.mem_singleton.mp hr] at hlt
      exact absurd hlt (Nat.lt_irrefl _)
  · intro hall seq hpos hlt
    by_cases hseq : seq = S.next
    · exact ⟨_, List.mem_append_right _ List.mem_cons_self, hseq.symm⟩
    · have hlt' : seq < S.next := by
        simp only [Sequencer.logged] at hlt
        omega
      obtain ⟨r, hr, heq⟩ := hall seq hpos hlt'
      exact ⟨r, List.mem_append_left _ hr, heq⟩

theorem LogOrdered.not_gapFree_skipped (h : LogOrdered S) : ¬ S.skipped.GapFree := by
  intro hfree
  obtain ⟨r, hr, heq⟩ := h.skipped.gapFree_iff.mp hfree S.next h.pos (Nat.lt_succ_self _)
  exact h.fresh r hr heq

/-- A step keeps the log without gaps exactly if its CIDs read, and no
step closes a gap. -/
theorem gapFree_step (hnum : LogOrdered S) {a : SequencerAct Payload} (h : S.step X a = some S') :
    S'.GapFree ↔ S.GapFree ∧ a.Readable X := by
  rcases sequencer_cases hnum h with ⟨q, rfl, -, hnone, rfl⟩ | ⟨q, ev, rfl, -, hev, hbad, rfl⟩
    | ⟨q, ev, body, indexed, rfl, -, hev, hgood, -, rfl⟩ | ⟨q, rfl, hsub, rfl⟩
    | ⟨i, ws, rfl, -, rfl⟩
  · have hread : (SequencerAct.request q).Readable X := by
      intro ev hev
      cases hnone.symm.trans hev
    exact ⟨fun hfree => ⟨hfree, hread⟩, And.left⟩
  · exact ⟨fun hfree => absurd hfree hnum.not_gapFree_skipped,
      fun hfree => absurd (hfree.2 ev hev) hbad⟩
  · have hread : (SequencerAct.request q).Readable X := by
      intro ev' hev'
      obtain rfl := Option.some.inj (hev.symm.trans hev')
      exact hgood
    rw [hnum.gapFree_logged]
    exact ⟨fun hfree => ⟨hfree, hread⟩, And.left⟩
  · have hread : (SequencerAct.request q).Readable X := by
      intro ev hev
      have hpath : q.path ∉ enqueuePaths := by
        rw [hsub]
        decide
      simp [SequencerLib.eventOf, hpath] at hev
    exact ⟨fun hfree => ⟨hfree, hread⟩, And.left⟩
  · exact ⟨fun hfree => ⟨hfree, trivial⟩, And.left⟩

theorem gapFree_run : ∀ {as : List (SequencerAct Payload)} {S : Sequencer}, LogOrdered S →
    Steps.run (Sequencer.step X) S as = some S' →
    (S'.GapFree ↔ S.GapFree ∧ ∀ a ∈ as, a.Readable X)
  | [], S, _, hrun => by
      obtain rfl := Option.some.inj hrun
      simp
  | a :: as, S, hnum, hrun => by
      obtain ⟨S₁, hstep, hrest⟩ := Steps.run_cons_eq_some.mp hrun
      rw [gapFree_run (logOrdered_step X S a S₁ hnum hstep) hrest, gapFree_step hnum hstep,
        List.forall_mem_cons, and_assoc]

theorem gapFree_init : Sequencer.init.GapFree := by
  rw [logOrdered_init.gapFree_iff]
  intro seq hpos hlt
  simp only [Sequencer.init] at hlt
  omega

/-- The stream has no gap exactly if every event the sequencer was told of
had CIDs that read. The number is taken before they are looked at and is
not given back, so one such event is enough, and nothing else makes a gap.
-/
theorem sequencer_gapFree_iff {as : List (SequencerAct Payload)}
    (hrun : Steps.run (Sequencer.step X) Sequencer.init as = some S) :
    S.GapFree ↔ ∀ a ∈ as, a.Readable X := by
  rw [gapFree_run logOrdered_init hrun]
  simp [gapFree_init]

end

/-- One event with a bad CID: its seq is gone, and the log is empty. -/
theorem sampleBad_leaves_gap : ∃ S,
    Steps.run (Sequencer.step sampleSequencer) Sequencer.init [sampleBad] = some S
      ∧ ¬ S.GapFree := by
  have hrun : (Steps.run (Sequencer.step sampleSequencer) Sequencer.init [sampleBad]).map
      (fun S => (S.next, S.log)) = some (2, []) := by decide
  obtain ⟨S, hS, heq⟩ := Option.map_eq_some_iff.mp hrun
  obtain ⟨hnext, hlog⟩ := Prod.mk.injEq .. |>.mp heq
  refine ⟨S, hS, ?_⟩
  rintro ⟨n, hseqs, hn⟩
  obtain ⟨r, hr, -⟩ := (hseqs 1).mpr ⟨Nat.le_refl 1, by omega⟩
  rw [hlog] at hr
  exact List.not_mem_nil hr

theorem sampleGood_gapFree_iff : ∃ S,
    Steps.run (Sequencer.step sampleSequencer) Sequencer.init [sampleGood, sampleBad] = some S
      ∧ (S.GapFree ↔ ∀ a ∈ [sampleGood, sampleBad], a.Readable sampleSequencer) := by
  have hrun : (Steps.run (Sequencer.step sampleSequencer) Sequencer.init
      [sampleGood, sampleBad]).isSome := rfl
  obtain ⟨S, hS⟩ := Option.isSome_iff_exists.mp hrun
  exact ⟨S, hS, sequencer_gapFree_iff hS⟩

end Stelyph
