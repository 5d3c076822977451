import Stelyph.FirehoseSubscribe

/-!
# subscribeRepos of the embedded server

`handle_firehose` and `run_backfill` of
`rust-core/src/server/firehose_ws.rs`, over a WebSocket host of its own.
While it waits on the channel it also reads what the client sends: a ping
is answered, a close is answered and ends the stream, anything else is
ignored. An error frame is followed by a close frame.

Dropping the control frames, every step is a step of the server's
handler, no step at all, or the end of the stream
(`WsSubscriber.step_stream`). So a run that does not end the stream is a
run of the server, with the client's frames left out
(`EmbeddedFirehose.projects`).
-/

namespace Stelyph

/-- The opcode of a close frame. -/
def opClose : UInt8 := 0x8

/-- The opcode of a ping. -/
def opPing : UInt8 := 0x9

/-- A frame of the client's, once it is unmasked. -/
structure ClientFrame where
  opcode : UInt8
  payload : Bytes
deriving DecidableEq

/-- What the host writes to its client: a frame of the stream, a pong to a
ping, or the close that answers a close. -/
inductive WsFrame (Frame : Type) where
  | binary (f : OutFrame Frame)
  | pong (payload : Bytes)
  | close (payload : Bytes)
deriving DecidableEq

/-- The task of one subscriber: what it is doing, how far it has read the
channel, and what it has sent. -/
structure WsSubscriber (L : RepoLib) where
  cursor : Option Nat
  phase : SubPhase L.Event
  rx : Nat
  lastSentSeq : Nat
  recoveredFromLag : Bool
  out : List (WsFrame L.Frame)

/-- A subscription begins with its cursor for the last number sent, or with zero. -/
def WsSubscriber.connect (L : RepoLib) (cursor : Option Nat) : WsSubscriber L :=
  ⟨cursor, .connecting, 0, cursor.getD 0, false, []⟩

/-- Which branch of the `select!` a step takes: `client none` is a read
that failed. -/
inductive WsEvent where
  | stream (fate : SubFate)
  | client (frame : Option ClientFrame) (fate : SubFate)
deriving DecidableEq

namespace WsSubscriber

variable {L : RepoLib}

/-- `encode_error_frame`, then a close frame, whatever becomes of them. -/
def refuse (u : WsSubscriber L) (name message : String) : WsSubscriber L :=
  { u with out := u.out ++ [.binary (.error name message), .close []], phase := .closed }

/-- A row of the log is sent unless it does not decode; either way the task is past it. -/
def sendRow (u : WsSubscriber L) (seq : Nat) (event : L.Event) (rest : List (Nat × L.Event))
    (fate : SubFate) : WsSubscriber L :=
  match L.decodeBody event with
  | .error _ => { u with lastSentSeq := seq, phase := .sending rest }
  | .ok body =>
      match fate with
      | .done =>
          { u with
            lastSentSeq := seq
            phase := .sending rest
            out := u.out ++ [.binary (.message ⟨seq, L.encodeFrame { body with seq := seq }⟩)] }
      | .fails => { u with phase := .closed }

/-- The first time the channel has overtaken the task it starts over from
the log; the second time in a row it gives up. -/
def lagged (u : WsSubscriber L) (s : RepoStore L) : WsSubscriber L :=
  if u.recoveredFromLag then u.refuse "ConsumerTooSlow" "Stream consumer too slow."
  else { u with recoveredFromLag := true, rx := s.sent.length, phase := .fetching }

/-- An event of the channel: what the log has already sent is passed over. -/
def receive (u : WsSubscriber L) (e : FirehoseEvent L.Frame) (fate : SubFate) : WsSubscriber L :=
  if e.seq ≤ u.lastSentSeq then { u with rx := u.rx + 1 }
  else
    match fate with
    | .done =>
        { u with
          rx := u.rx + 1
          out := u.out ++ [.binary (.message e)]
          lastSentSeq := e.seq
          recoveredFromLag := false }
    | .fails => { u with phase := .closed }

/-- A frame of the client, between two events. -/
def answer (u : WsSubscriber L) (frame : Option ClientFrame) (fate : SubFate) : WsSubscriber L :=
  match frame with
  | none => { u with phase := .closed }
  | some f =>
      if f.opcode = opPing then
        match fate with
        | .done => { u with out := u.out ++ [.pong f.payload] }
        | .fails => { u with phase := .closed }
      else if f.opcode = opClose then
        { u with out := u.out ++ [.close f.payload], phase := .closed }
      else u

/-- One step of the handler; the client is read in the live loop only. -/
def step (capacity : Nat) (s : RepoStore L) (u : WsSubscriber L) : WsEvent → Option (WsSubscriber L)
  | .client frame fate =>
      match u.phase with
      | .live => some (u.answer frame fate)
      | _ => none
  | .stream fate =>
      match u.phase with
      | .connecting =>
          some { u with
            rx := s.sent.length
            phase := if u.cursor.isSome then .checking else .live }
      | .checking =>
          match fate with
          | .done =>
              if u.lastSentSeq > maxSeq s.rows then
                some (u.refuse "FutureCursor" "Cursor in the future.")
              else some { u with phase := .fetching }
          | .fails => some { u with phase := .closed }
      | .fetching =>
          match fate with
          | .done =>
              match backfillPage s.rows u.lastSentSeq backfillLimit with
              | [] => some { u with phase := .live }
              | page => some { u with phase := .sending page }
          | .fails => some { u with phase := .closed }
      | .sending [] => some { u with phase := .fetching }
      | .sending ((seq, event) :: rest) => some (u.sendRow seq event rest fate)
      | .live =>
          if s.sent.length - u.rx > capacity then some (u.lagged s)
          else s.sent[u.rx]?.map fun e => u.receive e fate
      | .closed => none

/-! ## The stream without its control frames -/

def dataFrame {Frame : Type} : WsFrame Frame → Option (OutFrame Frame)
  | .binary f => some f
  | .pong _ => none
  | .close _ => none

/-- The subscriber of the axum server that the embedded one is, once the
frames of its client are left out. What is proved of the axum server's
loop is read off through it. -/
def stream (u : WsSubscriber L) : Subscriber L where
  cursor := u.cursor
  phase := u.phase
  rx := u.rx
  lastSentSeq := u.lastSentSeq
  recoveredFromLag := u.recoveredFromLag
  out := u.out.filterMap dataFrame

theorem stream_connect (cursor : Option Nat) :
    (connect L cursor).stream = Subscriber.connect L cursor := rfl

theorem stream_refuse (u : WsSubscriber L) (name message : String) :
    (u.refuse name message).stream
      = { u.stream with out := u.stream.out ++ [.error name message], phase := .closed } := by
  simp [refuse, stream, dataFrame]

theorem stream_sendRow (u : WsSubscriber L) (seq : Nat) (event : L.Event)
    (rest : List (Nat × L.Event)) (fate : SubFate) :
    (u.sendRow seq event rest fate).stream = u.stream.sendRow seq event rest fate := by
  unfold sendRow Subscriber.sendRow
  cases L.decodeBody event with
  | error e => rfl
  | ok body =>
      cases fate with
      | done => simp [stream, dataFrame]
      | fails => rfl

theorem stream_lagged (u : WsSubscriber L) (s : RepoStore L) :
    (u.lagged s).stream = u.stream.lagged s := by
  unfold lagged Subscriber.lagged
  by_cases hrec : u.recoveredFromLag = true
  · rw [if_pos hrec, if_pos (show u.stream.recoveredFromLag = true from hrec), stream_refuse]
  · rw [if_neg hrec, if_neg (show ¬ u.stream.recoveredFromLag = true from hrec)]
    rfl

theorem stream_receive (u : WsSubscriber L) (e : FirehoseEvent L.Frame) (fate : SubFate) :
    (u.receive e fate).stream = u.stream.receive e fate := by
  unfold receive Subscriber.receive
  by_cases hle : e.seq ≤ u.lastSentSeq
  · rw [if_pos hle, if_pos (show e.seq ≤ u.stream.lastSentSeq from hle)]
    rfl
  · rw [if_neg hle, if_neg (show ¬ e.seq ≤ u.stream.lastSentSeq from hle)]
    cases fate with
    | done => simp [stream, dataFrame]
    | fails => rfl

/-- A frame of the client changes nothing, or ends the stream. -/
theorem stream_answer (u : WsSubscriber L) (frame : Option ClientFrame) (fate : SubFate) :
    (u.answer frame fate).stream = u.stream
      ∨ (u.answer frame fate).stream = { u.stream with phase := .closed } := by
  unfold answer
  cases frame with
  | none => exact Or.inr rfl
  | some f =>
      dsimp only
      split_ifs
      · cases fate with
        | done => exact Or.inl (by simp [stream, dataFrame])
        | fails => exact Or.inr rfl
      · exact Or.inr (by simp [stream, dataFrame])
      · exact Or.inl rfl

/-- A step on the channel is a step of the server's handler. -/
theorem step_of_stream {capacity : Nat} {s : RepoStore L} {u u' : WsSubscriber L} {fate : SubFate}
    (h : u.step capacity s (.stream fate) = some u') :
    u.stream.step capacity s fate = some u'.stream := by
  have hphase : u.stream.phase = u.phase := rfl
  simp only [step] at h
  simp only [Subscriber.step, hphase]
  cases hp : u.phase with
  | closed => simp [hp] at h
  | connecting =>
      simp only [hp] at h
      obtain rfl := Option.some.inj h
      rfl
  | checking =>
      simp only [hp] at h
      cases fate with
      | fails =>
          obtain rfl := Option.some.inj h
          rfl
      | done =>
          dsimp only at h ⊢
          by_cases hmax : u.lastSentSeq > maxSeq s.rows
          · rw [if_pos hmax] at h
            obtain rfl := Option.some.inj h
            rw [if_pos (show u.stream.lastSentSeq > maxSeq s.rows from hmax), stream_refuse]
          · rw [if_neg hmax] at h
            obtain rfl := Option.some.inj h
            rw [if_neg (show ¬ u.stream.lastSentSeq > maxSeq s.rows from hmax)]
            rfl
  | fetching =>
      simp only [hp] at h
      cases fate with
      | fails =>
          obtain rfl := Option.some.inj h
          rfl
      | done =>
          dsimp only at h ⊢
          rw [show u.stream.lastSentSeq = u.lastSentSeq from rfl]
          cases hpage : backfillPage s.rows u.lastSentSeq backfillLimit with
          | nil =>
              simp only [hpage] at h
              obtain rfl := Option.some.inj h
              rfl
          | cons x page =>
              simp only [hpage] at h
              obtain rfl := Option.some.inj h
              rfl
  | sending page =>
      simp only [hp] at h
      cases page with
      | nil =>
          obtain rfl := Option.some.inj h
          rfl
      | cons x rest =>
          obtain rfl := Option.some.inj h
          exact congrArg some (u.stream_sendRow x.1 x.2 rest fate).symm
  | live =>
      simp only [hp] at h
      rw [show u.stream.rx = u.rx from rfl]
      by_cases hcap : s.sent.length - u.rx > capacity
      · rw [if_pos hcap] at h
        obtain rfl := Option.some.inj h
        rw [if_pos hcap, stream_lagged]
      · rw [if_neg hcap] at h
        obtain ⟨e, he, rfl⟩ := Option.map_eq_some_iff.mp h
        rw [if_neg hcap, he, Option.map_some, stream_receive]

theorem step_of_client {capacity : Nat} {s : RepoStore L} {u u' : WsSubscriber L}
    {frame : Option ClientFrame} {fate : SubFate}
    (h : u.step capacity s (.client frame fate) = some u') :
    u'.stream = u.stream ∨ u'.stream = { u.stream with phase := .closed } := by
  simp only [step] at h
  split at h
  · obtain rfl := Option.some.inj h
    exact u.stream_answer frame fate
  · cases h

/-- Every step of the embedded handler is one of the server's, or leaves
the stream alone, or ends it. -/
theorem step_stream {capacity : Nat} {s : RepoStore L} {u u' : WsSubscriber L} {ev : WsEvent}
    (h : u.step capacity s ev = some u') :
    (∃ fate, u.stream.step capacity s fate = some u'.stream)
      ∨ u'.stream = u.stream ∨ u'.stream = { u.stream with phase := .closed } := by
  cases ev with
  | client frame fate => exact Or.inr (step_of_client h)
  | stream fate => exact Or.inl ⟨fate, step_of_stream h⟩

theorem step_of_closed {capacity : Nat} {s : RepoStore L} {u : WsSubscriber L} {ev : WsEvent}
    (h : u.phase = .closed) : u.step capacity s ev = none := by
  cases ev <;> simp only [step, h]

end WsSubscriber

/-! ## The system -/

/-- Writers of the embedded server, and one of its subscribers, over one store. -/
structure EmbeddedFirehose (L : RepoLib) where
  pool : ApplyPool L
  sub : WsSubscriber L

/-- Something a writer does, or an event of the subscriber's loop. -/
inductive EmbeddedAct (L : RepoLib) where
  | write (a : PoolAct (ApplyOne L) WriterFate)
  | subscriber (ev : WsEvent)

section

variable {L : RepoLib}

/-- An empty store and a subscription that has not begun. -/
def EmbeddedFirehose.init (L : RepoLib) (cursor : Option Nat) : EmbeddedFirehose L :=
  ⟨Pool.init (RepoStore.empty L), WsSubscriber.connect L cursor⟩

/-- Writers and subscriber share the store, and with it the channel, of
which only the last `capacity` events can be received. -/
def EmbeddedFirehose.next (capacity : Nat) (s : EmbeddedFirehose L) :
    EmbeddedAct L → Option (EmbeddedFirehose L)
  | .write a =>
      (Pool.next (writerMachine L) ApplyOne.handler s.pool a).map fun pool =>
        { s with pool := pool }
  | .subscriber ev =>
      (s.sub.step capacity s.pool.store ev).map fun sub => { s with sub := sub }

/-- The server with the same writers and the stream of the subscriber. -/
def EmbeddedFirehose.served (s : EmbeddedFirehose L) : Firehose L := ⟨s.pool, s.sub.stream⟩

/-- The step of the axum server that this one amounts to, if it is one of
the stream. A frame of the client's is none. -/
def EmbeddedAct.served : EmbeddedAct L → Option (FirehoseAct L)
  | .write a => some (.write a)
  | .subscriber (.stream fate) => some (.subscriber fate)
  | .subscriber (.client _ _) => none

theorem EmbeddedFirehose.served_init (cursor : Option Nat) :
    (EmbeddedFirehose.init L cursor).served = Firehose.init L cursor :=
  congrArg (Firehose.mk _) (WsSubscriber.stream_connect cursor)

/-- While the stream is open, the embedded server does what the server
does. -/
theorem EmbeddedFirehose.projects (capacity : Nat) :
    Steps.Projects (EmbeddedFirehose.next capacity) (Firehose.next (L := L) capacity)
      EmbeddedFirehose.served EmbeddedAct.served fun s => s.sub.phase ≠ .closed where
  back := by
    intro s a s' h hopen hclosed
    cases a with
    | write a =>
        obtain ⟨P', -, rfl⟩ := Option.map_eq_some_iff.mp h
        exact hopen hclosed
    | subscriber ev =>
        obtain ⟨u', hstep, -⟩ := Option.map_eq_some_iff.mp h
        rw [WsSubscriber.step_of_closed hclosed] at hstep
        cases hstep
  moves := by
    intro s a s' b h _ hb
    cases a with
    | write a =>
        cases hb
        obtain ⟨P', hnext, rfl⟩ := Option.map_eq_some_iff.mp h
        exact Option.map_eq_some_iff.mpr ⟨P', hnext, rfl⟩
    | subscriber ev =>
        obtain ⟨u', hstep, rfl⟩ := Option.map_eq_some_iff.mp h
        cases ev with
        | client frame fate => cases hb
        | stream fate =>
            cases hb
            exact Option.map_eq_some_iff.mpr ⟨_, WsSubscriber.step_of_stream hstep, rfl⟩
  stays := by
    intro s a s' h hopen hnone
    cases a with
    | write a => cases hnone
    | subscriber ev =>
        obtain ⟨u', hstep, rfl⟩ := Option.map_eq_some_iff.mp h
        cases ev with
        | stream fate => cases hnone
        | client frame fate =>
            rcases WsSubscriber.step_of_client hstep with hsame | hclosed
            · exact congrArg (Firehose.mk s.pool) hsame
            · exact absurd (congrArg Subscriber.phase hclosed) hopen

end

end Stelyph
