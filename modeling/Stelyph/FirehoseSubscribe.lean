import Mathlib.Data.List.Sort
import Stelyph.RepoWriter

/-!
# subscribeRepos

`handle_firehose` and `run_backfill` of
`rust-pds/src/firehose/subscribe.rs` (and of
`rust-core/src/server/firehose_ws.rs`, which has the same state machine
with ping and close frames in between). A subscriber takes a place in
the broadcast channel, replays the event log from its cursor page by
page, and then relays what the channel hands it. One filter,
`last_sent_seq`, keeps what came through both from being sent twice.

A step of a subscriber ends at the await that gave it its answer, so a
writer can commit or broadcast between any two of them.

The channel keeps the last `capacity` events for a receiver that falls
behind. A receiver is the number of events sent before the next one it
will be handed (`rx`).
-/

namespace Stelyph

/-! ## The event log, as a subscriber reads it -/

section

variable {L : RepoLib}

/-- `SELECT COALESCE(MAX(seq), 0) FROM repo_seq` -/
def maxSeq (rows : List (SeqRow L.Event)) : Nat :=
  rows.foldl (fun m r => max m r.seq) 0

/-- `WHERE seq > ?1 AND invalidated = 0 ORDER BY seq ASC LIMIT ?2` -/
def backfillPage (rows : List (SeqRow L.Event)) (afterSeq limit : Nat) : List (Nat × L.Event) :=
  (((rows.filter fun r => decide (afterSeq < r.seq) && !r.invalidated).insertionSort
    fun a b => a.seq ≤ b.seq).take limit).map fun r => (r.seq, r.event)

/-- How many rows one page has. -/
def backfillLimit : Nat := 500

end

/-! ## The subscriber -/

/-- What a subscriber is sent: an event, or the error that ends the stream. -/
inductive OutFrame (Frame : Type) where
  | message (e : FirehoseEvent Frame)
  | error (name message : String)
deriving DecidableEq

/-- Where the handler is suspended. -/
inductive SubPhase (Event : Type) where
  /-- The upgrade is done and nothing else. -/
  | connecting
  /-- `max_seq` for the FutureCursor check. -/
  | checking
  /-- `backfill_page`. -/
  | fetching
  /-- The rest of a page. -/
  | sending (page : List (Nat × Event))
  /-- `rx.recv`. -/
  | live
  | closed
deriving DecidableEq

/-- The task of one subscriber: what it is doing, how far it has read the
channel, and what it has sent. -/
structure Subscriber (L : RepoLib) where
  cursor : Option Nat
  phase : SubPhase L.Event
  rx : Nat
  lastSentSeq : Nat
  recoveredFromLag : Bool
  out : List (OutFrame L.Frame)

/-- A subscription begins with its cursor for the last number sent, or with zero. -/
def Subscriber.connect (L : RepoLib) (cursor : Option Nat) : Subscriber L :=
  ⟨cursor, .connecting, 0, cursor.getD 0, false, []⟩

/-- What the await of a step came to: an answer, or an error of the store
or of the socket. -/
inductive SubFate where
  | done
  | fails
deriving DecidableEq

section

variable {L : RepoLib}

/-- One row of a page: a row that does not decode is skipped. -/
def Subscriber.sendRow (u : Subscriber L) (seq : Nat) (event : L.Event)
    (rest : List (Nat × L.Event)) (fate : SubFate) : Subscriber L :=
  match L.decodeBody event with
  | .error _ => { u with lastSentSeq := seq, phase := .sending rest }
  | .ok body =>
      match fate with
      | .done =>
          { u with
            lastSentSeq := seq
            phase := .sending rest
            out := u.out ++ [.message ⟨seq, L.encodeFrame { body with seq := seq }⟩] }
      | .fails => { u with phase := .closed }

/-- `RecvError::Lagged`: one recovery from the log, until a live event was
sent again. -/
def Subscriber.lagged (u : Subscriber L) (s : RepoStore L) : Subscriber L :=
  if u.recoveredFromLag then
    { u with
      out := u.out ++ [.error "ConsumerTooSlow" "Stream consumer too slow."]
      phase := .closed }
  else { u with recoveredFromLag := true, rx := s.sent.length, phase := .fetching }

/-- An event from the channel: sent unless the backfill has passed it. -/
def Subscriber.receive (u : Subscriber L) (e : FirehoseEvent L.Frame) (fate : SubFate) :
    Subscriber L :=
  if e.seq ≤ u.lastSentSeq then { u with rx := u.rx + 1 }
  else
    match fate with
    | .done =>
        { u with
          rx := u.rx + 1
          out := u.out ++ [.message e]
          lastSentSeq := e.seq
          recoveredFromLag := false }
    | .fails => { u with phase := .closed }

/-- One step of `handle_firehose`, by the phase it is in: it subscribes,
checks its cursor, reads a page, sends a row of it, or takes an event from
the channel. There is no step while `recv` waits on an empty channel. -/
def Subscriber.step (capacity : Nat) (s : RepoStore L) (u : Subscriber L) (fate : SubFate) :
    Option (Subscriber L) :=
  match u.phase with
  | .connecting =>
      some { u with
        rx := s.sent.length
        phase := if u.cursor.isSome then .checking else .live }
  | .checking =>
      match fate with
      | .done =>
          if u.lastSentSeq > maxSeq s.rows then
            some { u with
              out := u.out ++ [.error "FutureCursor" "Cursor in the future."]
              phase := .closed }
          else some { u with phase := .fetching }
      | .fails => some { u with phase := .closed }
  | .fetching =>
      match fate with
      | .done =>
          match backfillPage s.rows u.lastSentSeq backfillLimit with
          | [] => some { u with phase := .live }
          | page => some { u with phase := .sending page }
      | .fails => some { u with phase := .closed }
  | .sending [] => some { u with phase := .fetching }
  | .sending ((seq, event) :: rest) => some (u.sendRow seq event rest fate)
  | .live =>
      if s.sent.length - u.rx > capacity then some (u.lagged s)
      else s.sent[u.rx]?.map fun e => u.receive e fate
  | .closed => none

/-! ## The system -/

/-- A write of the server: `apply_one` of a writer. -/
structure ApplyOne (L : RepoLib) where
  writer : RepoWriter L
  op : WriteOp L.Ipld
  rnd : WriteDraw

/-- A writer that broadcasts by itself. -/
def ApplyOne.handler (q : ApplyOne L) : RepoProg L (WriteOutcome L.Cid) :=
  applyOne q.writer q.op q.rnd

abbrev ApplyPool (L : RepoLib) :=
  Pool (writerSig L) (ApplyOne L) RepoError (WriteOutcome L.Cid) (RepoStore L)

/-- Any number of writers over one store, and one subscriber that reads
its log and its channel. The others do not matter to it, since a receiver
has a position of its own. -/
structure Firehose (L : RepoLib) where
  pool : ApplyPool L
  sub : Subscriber L

/-- Something a writer does, or a step of the subscriber. -/
inductive FirehoseAct (L : RepoLib) where
  | write (a : PoolAct (ApplyOne L) WriterFate)
  | subscriber (fate : SubFate)

/-- An empty store and a subscription that has not begun. -/
def Firehose.init (L : RepoLib) (cursor : Option Nat) : Firehose L :=
  ⟨Pool.init (RepoStore.empty L), Subscriber.connect L cursor⟩

/-- Writers and subscriber share the store, and with it the channel, of
which only the last `capacity` events can be received. -/
def Firehose.next (capacity : Nat) (s : Firehose L) : FirehoseAct L → Option (Firehose L)
  | .write a =>
      (Pool.next (writerMachine L) ApplyOne.handler s.pool a).map fun pool =>
        { s with pool := pool }
  | .subscriber fate =>
      (s.sub.step capacity s.pool.store fate).map fun sub => { s with sub := sub }

end

end Stelyph
