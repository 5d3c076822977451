import Stelyph.FirehosePrefix
import Stelyph.WsFraming

/-!
# Control frames between live events

The `select!` of `handle_firehose` in
`rust-core/src/server/firehose_ws.rs`, with the socket it reads. A turn of
the loop waits for an event and for a frame of the client; polling
`read_frame` takes the octets that have arrived out of the socket, and
when an event wins the turn the future is dropped with what it took. The
next turn starts another one at the octets that are left.

As long as no event wins over a frame that is half read, the loop reads
the client's frames in order, whatever they are and however they arrive
(`frames_read_in_order`). An event in the middle of a frame makes what is
left of it the next header (`payload_read_as_header`).
-/

namespace Stelyph

open Rfc6455 (Wire)

/-- A frame as the client sends it: the frame, and octets that are it in
the sense of the protocol. -/
structure SentFrame where
  frame : Rfc6455.Frame
  octets : Bytes
  wire : Wire frame octets

namespace SentFrame

def result (m : SentFrame) : Except IoError ClientFrame := readResult m.frame

end SentFrame

/-- The connection between a client and the loop: what is on the way, what
is in the socket, and how far `read_frame` has come with it. -/
structure WsConn (L : RepoLib) where
  sub : WsSubscriber L
  /-- Sent by the client and not here yet. -/
  upstream : Bytes
  /-- In the socket. -/
  inbox : Bytes
  /-- The `read_frame` of this turn. -/
  reading : Reader IoError ClientFrame
  /-- What it has taken from the socket. -/
  taken : Bytes
  /-- What every `read_frame` that ended has returned. -/
  reads : List (Except IoError ClientFrame)

inductive ConnAct where
  | arrives (n : Nat)
  /-- The read branch is polled; `fate` is that of the answer it leads to. -/
  | poll (fate : SubFate)
  /-- A step that does not read; in the live loop, an event wins. -/
  | stream (fate : SubFate)
  | hangUp
deriving DecidableEq

namespace WsConn

variable {L : RepoLib}

def connect (L : RepoLib) (cursor : Option Nat) (bytes : Bytes) : WsConn L :=
  ⟨.connect L cursor, bytes, [], readFrame, [], []⟩

/-- A step of the connection. Octets arrive in portions of any size, and a
poll goes on with `read_frame` as far as they reach. An event of the
stream drops the read that is under way, with what it has taken. -/
def step (capacity : Nat) (s : RepoStore L) (c : WsConn L) : ConnAct → Option (WsConn L)
  | .arrives n =>
      some { c with inbox := c.inbox ++ c.upstream.take n, upstream := c.upstream.drop n }
  | .poll fate =>
      match c.sub.phase with
      | .live =>
          match c.reading.poll c.inbox with
          | (.done r, rest) =>
              (c.sub.step capacity s (.client r.toOption fate)).map fun sub =>
                { c with
                  sub := sub
                  inbox := rest
                  reading := readFrame
                  taken := []
                  reads := c.reads ++ [r] }
          | (pending, rest) =>
              some { c with inbox := rest, reading := pending, taken := c.taken ++ c.inbox }
      | _ => none
  | .stream fate =>
      (c.sub.step capacity s (.stream fate)).map fun sub =>
        { c with sub := sub, reading := readFrame, taken := [] }
  | .hangUp =>
      (c.sub.step capacity s (.client none .done)).map fun sub =>
        { c with sub := sub, reading := readFrame, taken := [] }

/-- An event wins over a frame that is half read: the reader is dropped
with the octets it has taken. -/
def interrupts (c : WsConn L) : ConnAct → Bool
  | .stream _ => !c.taken.isEmpty
  | _ => false

/-! ## What a step can do -/

variable {capacity : Nat} {s : RepoStore L} {c c' : WsConn L}

/-- The read branch is polled: its frame is complete, or everything in the
socket went into the future. -/
theorem step_poll {fate : SubFate} (h : c.step capacity s (.poll fate) = some c') :
    c.sub.phase = .live
      ∧ ((∃ r rest, c.reading.poll c.inbox = (.done r, rest)
          ∧ c' = { c with
              sub := c.sub.answer r.toOption fate
              inbox := rest
              reading := readFrame
              taken := []
              reads := c.reads ++ [r] })
        ∨ (c.reading.poll c.inbox).1.Waiting
          ∧ c' = { c with
              inbox := []
              reading := (c.reading.poll c.inbox).1
              taken := c.taken ++ c.inbox }) := by
  simp only [step] at h
  split at h
  case h_2 => cases h
  case h_1 hlive =>
    refine ⟨hlive, ?_⟩
    rcases c.reading.poll_cases c.inbox with ⟨r, rest, hpoll⟩ | ⟨hwait, hrest⟩
    · rw [hpoll] at h
      obtain ⟨sub, hsub, rfl⟩ := Option.map_eq_some_iff.mp h
      simp only [WsSubscriber.step, hlive] at hsub
      obtain rfl := Option.some.inj hsub
      exact Or.inl ⟨r, rest, hpoll, rfl⟩
    · refine Or.inr ⟨hwait, ?_⟩
      obtain ⟨n, k, hk, -⟩ := hwait
      have hpoll : c.reading.poll c.inbox = (.readExact n k, []) := Prod.ext hk hrest
      rw [hpoll] at h ⊢
      exact (Option.some.inj h).symm

/-- No event wins over octets that are already taken. -/
theorem taken_eq_nil {fate : SubFate} (h : c.interrupts (.stream fate) = false) : c.taken = [] := by
  simpa [interrupts] using h

/-! ## The frames read -/

/-- Where the loop stands in what the client sends: the frames that were
read, those that were not, and the part of the next that is taken. -/
structure Reading (sent : List SentFrame) (c : WsConn L) (done rest : List SentFrame) : Prop where
  sent : sent = done ++ rest
  reads : c.reads = done.map SentFrame.result
  position : c.sub.phase ≠ .closed →
    rest.flatMap SentFrame.octets = c.taken ++ c.inbox ++ c.upstream
  polled : readFrame.poll c.taken = (c.reading, [])
  waiting : c.reading.Waiting

/-- The future a turn starts with. -/
theorem readFrame_waiting : readFrame.Waiting := ⟨2, _, rfl, by decide⟩

theorem reading_connect (cursor : Option Nat) (sent : List SentFrame) :
    Reading sent (connect L cursor (sent.flatMap SentFrame.octets)) [] sent :=
  ⟨rfl, rfl, fun _ => rfl, rfl, readFrame_waiting⟩

/-- A future that ends has the octets of the next frame. -/
theorem read_next {rest : List SentFrame} {taken inbox upstream left : Bytes}
    {r : Except IoError ClientFrame}
    (hpos : rest.flatMap SentFrame.octets = taken ++ inbox ++ upstream)
    (hpoll : readFrame.poll (taken ++ inbox) = (.done r, left)) :
    ∃ m more, rest = m :: more ∧ r = m.result
      ∧ (m.frame.payload.length ≤ maxClientFrame →
        more.flatMap SentFrame.octets = left ++ upstream) := by
  have hall := Reader.poll_append_of_done hpoll upstream
  rw [← hpos] at hall
  cases rest with
  | nil => cases hall
  | cons m more =>
      rw [List.flatMap_cons, readFrame_wire m.wire] at hall
      obtain ⟨hr, hleft⟩ := Prod.mk.injEq .. |>.mp hall
      refine ⟨m, more, rfl, (Reader.done.inj hr).symm, fun hcap => ?_⟩
      rw [if_pos hcap] at hleft
      exact hleft

/-- Only a frame within the cap leaves the loop running. -/
theorem le_cap_of_answer {m : SentFrame} {fate : SubFate} {u : WsSubscriber L}
    (h : (u.answer m.result.toOption fate).phase ≠ .closed) :
    m.frame.payload.length ≤ maxClientFrame := by
  by_contra hcap
  apply h
  rw [SentFrame.result, readResult, if_neg hcap]
  rfl

theorem Reading.poll {sent done rest : List SentFrame} (h : Reading sent c done rest)
    {fate : SubFate} (hstep : c.step capacity s (.poll fate) = some c') :
    ∃ done' rest', Reading sent c' done' rest' := by
  obtain ⟨hlive, hcases⟩ := step_poll hstep
  have hpos := h.position (by rw [hlive]; intro hne; cases hne)
  have hgoes : readFrame.poll (c.taken ++ c.inbox) = c.reading.poll c.inbox := by
    rw [Reader.poll_append, h.polled]
    rfl
  rcases hcases with ⟨r, left, hpoll, rfl⟩ | ⟨hwait, rfl⟩
  · obtain ⟨m, more, rfl, rfl, hmore⟩ := read_next hpos (hgoes.trans hpoll)
    refine ⟨done ++ [m], more, ?_, ?_, ?_, rfl, readFrame_waiting⟩
    · rw [h.sent, List.append_assoc]
      rfl
    · show c.reads ++ [m.result] = _
      rw [h.reads, List.map_append]
      rfl
    · intro hopen
      exact hmore (le_cap_of_answer hopen)
  · refine ⟨done, rest, h.sent, h.reads, ?_, ?_, hwait⟩
    · intro _
      show _ = c.taken ++ c.inbox ++ [] ++ c.upstream
      rw [List.append_nil, hpos]
    · show readFrame.poll (c.taken ++ c.inbox) = _
      rw [hgoes]
      rcases c.reading.poll_cases c.inbox with ⟨r, left, hpoll⟩ | ⟨-, hrest⟩
      · obtain ⟨n, k, hk, -⟩ := hwait
        rw [hpoll] at hk
        cases hk
      · exact Prod.ext rfl hrest

/-- What one step preserves, when it does not interrupt a read. -/
theorem Reading.step {sent done rest : List SentFrame} (h : Reading sent c done rest)
    {a : ConnAct} (hcalm : c.interrupts a = false) (hstep : c.step capacity s a = some c') :
    ∃ done' rest', Reading sent c' done' rest' := by
  cases a with
  | arrives n =>
      obtain rfl := Option.some.inj hstep
      refine ⟨done, rest, h.sent, h.reads, ?_, h.polled, h.waiting⟩
      intro hopen
      rw [h.position hopen]
      show c.taken ++ c.inbox ++ c.upstream
        = c.taken ++ (c.inbox ++ c.upstream.take n) ++ c.upstream.drop n
      rw [← List.append_assoc c.taken, List.append_assoc _ (c.upstream.take n),
        List.take_append_drop]
  | poll fate => exact h.poll hstep
  | stream fate =>
      obtain ⟨sub, hsub, rfl⟩ := Option.map_eq_some_iff.mp hstep
      refine ⟨done, rest, h.sent, h.reads, ?_, rfl, readFrame_waiting⟩
      intro _
      have hopen : c.sub.phase ≠ .closed := by
        intro hclosed
        simp [WsSubscriber.step, hclosed] at hsub
      rw [h.position hopen, taken_eq_nil hcalm]
  | hangUp =>
      obtain ⟨sub, hsub, rfl⟩ := Option.map_eq_some_iff.mp hstep
      refine ⟨done, rest, h.sent, h.reads, ?_, rfl, readFrame_waiting⟩
      intro hopen
      refine absurd ?_ hopen
      simp only [WsSubscriber.step] at hsub
      split at hsub
      · obtain rfl := Option.some.inj hsub
        rfl
      · cases hsub

/-- With everything read there is no frame left over. -/
theorem Reading.complete {sent done rest : List SentFrame} (h : Reading sent c done rest)
    (hlive : c.sub.phase = .live) (hinbox : c.inbox = []) (hupstream : c.upstream = []) :
    rest = [] := by
  have hpos := h.position (by rw [hlive]; intro hne; cases hne)
  rw [hinbox, hupstream, List.append_nil, List.append_nil] at hpos
  have hpolled := h.polled
  rw [← hpos] at hpolled
  cases rest with
  | nil => rfl
  | cons m more =>
      rw [List.flatMap_cons, readFrame_wire m.wire] at hpolled
      obtain ⟨n, k, hk, -⟩ := h.waiting
      rw [hk] at hpolled
      cases hpolled

/-! ## The answers -/

def pongPayload {Frame : Type} : WsFrame Frame → Option Bytes
  | .pong payload => some payload
  | _ => none

def pingPayload : Except IoError ClientFrame → Option Bytes
  | .ok f => if f.opcode = opPing then some f.payload else none
  | .error _ => none

/-- The pongs written. -/
def pongs (u : WsSubscriber L) : List Bytes := u.out.filterMap pongPayload

/-- Every ping that was read is answered, and a close is the last thing
read and the last thing written. -/
structure Answered (c : WsConn L) : Prop where
  pings : pongs c.sub = c.reads.filterMap pingPayload
  closes : ∀ f, .ok f ∈ c.reads → f.opcode = opClose →
    c.sub.phase = .closed ∧ c.sub.out.getLast? = some (.close f.payload)

theorem pongs_refuse (u : WsSubscriber L) (name message : String) :
    pongs (u.refuse name message) = pongs u := by
  simp [pongs, WsSubscriber.refuse, pongPayload]

theorem pongs_sendRow (u : WsSubscriber L) (seq : Nat) (event : L.Event)
    (rest : List (Nat × L.Event)) (fate : SubFate) :
    pongs (u.sendRow seq event rest fate) = pongs u := by
  unfold WsSubscriber.sendRow
  cases L.decodeBody event with
  | error e => rfl
  | ok body =>
      cases fate with
      | done => simp [pongs, pongPayload]
      | fails => rfl

theorem pongs_lagged (u : WsSubscriber L) : pongs (u.lagged s) = pongs u := by
  unfold WsSubscriber.lagged
  split
  · exact pongs_refuse ..
  · rfl

theorem pongs_receive (u : WsSubscriber L) (e : FirehoseEvent L.Frame) (fate : SubFate) :
    pongs (u.receive e fate) = pongs u := by
  unfold WsSubscriber.receive
  split
  · rfl
  · cases fate with
    | done => simp [pongs, pongPayload]
    | fails => rfl

/-- Events write no pong. -/
theorem pongs_stream {u u' : WsSubscriber L} {fate : SubFate}
    (h : u.step capacity s (.stream fate) = some u') : pongs u' = pongs u := by
  simp only [WsSubscriber.step] at h
  split at h
  · obtain rfl := Option.some.inj h
    rfl
  · cases fate with
    | fails =>
        obtain rfl := Option.some.inj h
        rfl
    | done =>
        dsimp only at h
        split at h
        · obtain rfl := Option.some.inj h
          exact pongs_refuse ..
        · obtain rfl := Option.some.inj h
          rfl
  · cases fate with
    | fails =>
        obtain rfl := Option.some.inj h
        rfl
    | done =>
        dsimp only at h
        split at h
        · obtain rfl := Option.some.inj h
          rfl
        · obtain rfl := Option.some.inj h
          rfl
  · obtain rfl := Option.some.inj h
    rfl
  · obtain rfl := Option.some.inj h
    exact pongs_sendRow ..
  · split at h
    · obtain rfl := Option.some.inj h
      exact pongs_lagged _
    · obtain ⟨e, -, rfl⟩ := Option.map_eq_some_iff.mp h
      exact pongs_receive ..
  · cases h

/-- An answer that is written. -/
theorem Answered.answer (h : Answered c) (hopen : c.sub.phase ≠ .closed)
    (r : Except IoError ClientFrame) {rest : Bytes} :
    Answered { c with
      sub := c.sub.answer r.toOption .done
      inbox := rest
      reading := readFrame
      taken := []
      reads := c.reads ++ [r] } := by
  have hno : ∀ f, .ok f ∈ c.reads → f.opcode ≠ opClose :=
    fun f hf hclose => hopen (h.closes f hf hclose).1
  have hlast : ∀ f, .ok f ∈ c.reads ++ [r] → f.opcode = opClose → r = .ok f := by
    intro f hf hclose
    rcases List.mem_append.mp hf with hf | hf
    · exact absurd hclose (hno f hf)
    · exact (List.mem_singleton.mp hf).symm
  cases r with
  | error e =>
      refine ⟨?_, ?_⟩
      · rw [List.filterMap_append]
        exact h.pings.trans (List.append_nil _).symm
      · intro f hf hclose
        cases hlast f hf hclose
  | ok f =>
      by_cases hping : f.opcode = opPing
      · refine ⟨?_, ?_⟩
        · have hpongs : pongs c.sub = c.reads.filterMap pingPayload := h.pings
          simp only [pongs] at hpongs
          simp [pongs, WsSubscriber.answer, Except.toOption, hping, pongPayload, pingPayload,
            List.filterMap_append, hpongs]
        · intro f' hf hclose
          obtain rfl := Except.ok.inj (hlast f' hf hclose)
          rw [hping] at hclose
          exact absurd hclose (by decide)
      · by_cases hclose : f.opcode = opClose
        · have hanswer : c.sub.answer (Except.ok (ε := IoError) f).toOption .done
              = { c.sub with out := c.sub.out ++ [.close f.payload], phase := .closed } := by
            simp only [WsSubscriber.answer, Except.toOption]
            rw [if_neg hping, if_pos hclose]
          rw [hanswer]
          refine ⟨?_, ?_⟩
          · have hpongs : pongs c.sub = c.reads.filterMap pingPayload := h.pings
            simp only [pongs] at hpongs
            simp [pongs, pongPayload, pingPayload, List.filterMap_append, hpongs, hping]
          · intro f' hf hclose'
            obtain rfl := Except.ok.inj (hlast f' hf hclose')
            exact ⟨rfl, by simp⟩
        · have hanswer : c.sub.answer (Except.ok (ε := IoError) f).toOption .done = c.sub := by
            simp only [WsSubscriber.answer, Except.toOption]
            rw [if_neg hping, if_neg hclose]
          rw [hanswer]
          refine ⟨?_, ?_⟩
          · rw [List.filterMap_append]
            simpa [pingPayload, hping] using h.pings
          · intro f' hf hclose'
            obtain rfl := Except.ok.inj (hlast f' hf hclose')
            exact absurd hclose' hclose

theorem Answered.step (h : Answered c) {a : ConnAct} (hwrites : a ≠ .poll .fails)
    (hstep : c.step capacity s a = some c') : Answered c' := by
  cases a with
  | arrives n =>
      obtain rfl := Option.some.inj hstep
      exact ⟨h.pings, h.closes⟩
  | poll fate =>
      obtain ⟨hlive, hcases⟩ := step_poll hstep
      have hopen : c.sub.phase ≠ .closed := by rw [hlive]; intro hne; cases hne
      rcases hcases with ⟨r, left, -, rfl⟩ | ⟨-, rfl⟩
      · cases fate with
        | fails => exact absurd rfl hwrites
        | done => exact h.answer hopen r
      · exact ⟨h.pings, h.closes⟩
  | stream fate =>
      obtain ⟨sub, hsub, rfl⟩ := Option.map_eq_some_iff.mp hstep
      refine ⟨(pongs_stream hsub).trans h.pings, fun f hf hclose => ?_⟩
      have hclosed := (h.closes f hf hclose).1
      simp [WsSubscriber.step, hclosed] at hsub
  | hangUp =>
      obtain ⟨sub, hsub, rfl⟩ := Option.map_eq_some_iff.mp hstep
      simp only [WsSubscriber.step] at hsub
      split at hsub
      case h_2 => cases hsub
      case h_1 hlive =>
        obtain rfl := Option.some.inj hsub
        refine ⟨h.pings, fun f hf hclose => ?_⟩
        have hclosed := (h.closes f hf hclose).1
        rw [hlive] at hclosed
        cases hclosed

/-- Apart from the socket, a step is one of the handler or none. -/
theorem step_sub {a : ConnAct} (h : c.step capacity s a = some c') :
    c'.sub = c.sub ∨ ∃ ev, c.sub.step capacity s ev = some c'.sub := by
  cases a with
  | arrives n =>
      obtain rfl := Option.some.inj h
      exact Or.inl rfl
  | poll fate =>
      obtain ⟨hlive, ⟨r, left, -, rfl⟩ | ⟨-, rfl⟩⟩ := step_poll h
      · exact Or.inr ⟨.client r.toOption fate, by simp only [WsSubscriber.step, hlive]⟩
      · exact Or.inl rfl
  | stream fate =>
      obtain ⟨sub, hsub, rfl⟩ := Option.map_eq_some_iff.mp h
      exact Or.inr ⟨_, hsub⟩
  | hangUp =>
      obtain ⟨sub, hsub, rfl⟩ := Option.map_eq_some_iff.mp h
      exact Or.inr ⟨_, hsub⟩

end WsConn

/-! ## The server and one connection -/

/-- The writers of the embedded server, and one connection with its octets. -/
structure WsHost (L : RepoLib) where
  pool : ApplyPool L
  conn : WsConn L

/-- A step of a writer, or of the connection. The two meet in the store's
channel alone. -/
inductive HostAct (L : RepoLib) where
  | write (a : PoolAct (ApplyOne L) WriterFate)
  | conn (a : ConnAct)

/-- The write of an answer fails. -/
def HostAct.unanswered {L : RepoLib} : HostAct L → Bool
  | .conn (.poll .fails) => true
  | _ => false

namespace WsHost

variable {L : RepoLib}

/-- Writers and connection share the store; octets arrive in chunks of any size. -/
def next (capacity : Nat) (s : WsHost L) : HostAct L → Option (WsHost L)
  | .write a =>
      (Pool.next (writerMachine L) ApplyOne.handler s.pool a).map fun pool =>
        { s with pool := pool }
  | .conn a => (s.conn.step capacity s.pool.store a).map fun conn => { s with conn := conn }

/-- A server on some log, and a client that connects and will send this. -/
def serve (s₀ : RepoStore L) (cursor : Option Nat) (bytes : Bytes) : WsHost L :=
  ⟨Pool.init s₀, .connect L cursor bytes⟩

def interrupts (s : WsHost L) : HostAct L → Bool
  | .write _ => false
  | .conn a => s.conn.interrupts a

def firehose (s : WsHost L) : EmbeddedFirehose L := ⟨s.pool, s.conn.sub⟩

variable {capacity : Nat}

/-- Without the socket, this is the firehose and its subscriber. -/
theorem next_firehose {s s' : WsHost L} {a : HostAct L} (h : s.next capacity a = some s') :
    s'.firehose = s.firehose ∨ ∃ b, s.firehose.next capacity b = some s'.firehose := by
  cases a with
  | write a =>
      obtain ⟨pool, hpool, rfl⟩ := Option.map_eq_some_iff.mp h
      exact Or.inr ⟨.write a, Option.map_eq_some_iff.mpr ⟨pool, hpool, rfl⟩⟩
  | conn a =>
      obtain ⟨conn, hconn, rfl⟩ := Option.map_eq_some_iff.mp h
      rcases WsConn.step_sub hconn with hsub | ⟨ev, hev⟩
      · exact Or.inl (congrArg (EmbeddedFirehose.mk s.pool) hsub)
      · exact Or.inr ⟨.subscriber ev, Option.map_eq_some_iff.mpr ⟨_, hev, rfl⟩⟩

/-- The loop has read exactly the client's frames, in order: as many as
have ended, and all of them once everything is here and taken. -/
structure ReadInOrder (sent : List SentFrame) (s : WsHost L) (done rest : List SentFrame) : Prop where
  split : sent = done ++ rest
  reads : s.conn.reads = done.map SentFrame.result
  boundary : s.conn.sub.phase ≠ .closed →
    rest.flatMap SentFrame.octets = s.conn.taken ++ s.conn.inbox ++ s.conn.upstream
  complete : s.conn.sub.phase = .live → s.conn.inbox = [] → s.conn.upstream = [] → rest = []

theorem reading_run {s₀ : RepoStore L} {cursor : Option Nat} {sent : List SentFrame}
    {acts : List (HostAct L)} {t : WsHost L}
    (hcalm : Steps.Along (next capacity) (fun s a => s.interrupts a = false)
      (serve s₀ cursor (sent.flatMap SentFrame.octets)) acts)
    (hrun : Steps.run (next capacity) (serve s₀ cursor (sent.flatMap SentFrame.octets)) acts
      = some t) :
    ∃ done rest, WsConn.Reading sent t.conn done rest := by
  refine Steps.run_inv_along (I := fun s => ∃ done rest, WsConn.Reading sent s.conn done rest)
    ?_ ⟨[], sent, WsConn.reading_connect cursor sent⟩ hcalm hrun
  rintro s a s' ⟨done, rest, hs⟩ hc h
  cases a with
  | write a =>
      obtain ⟨pool, hpool, rfl⟩ := Option.map_eq_some_iff.mp h
      exact ⟨done, rest, hs⟩
  | conn a =>
      obtain ⟨conn, hconn, rfl⟩ := Option.map_eq_some_iff.mp h
      exact hs.step hc hconn

theorem answered_run {s₀ : RepoStore L} {cursor : Option Nat} {bytes : Bytes}
    {acts : List (HostAct L)} {t : WsHost L} (hwrites : ∀ a ∈ acts, a.unanswered = false)
    (hrun : Steps.run (next capacity) (serve s₀ cursor bytes) acts = some t) :
    WsConn.Answered t.conn := by
  have hal : Steps.Along (next capacity) (fun _ a => a.unanswered = false)
      (serve s₀ cursor bytes) acts := Steps.along_of_mem fun _ a ha => hwrites a ha
  refine Steps.run_inv_along (I := fun s : WsHost L => WsConn.Answered s.conn) ?_
    ⟨rfl, fun f hf => by cases hf⟩ hal hrun
  intro s a s' hs hc h
  cases a with
  | write a =>
      obtain ⟨pool, hpool, rfl⟩ := Option.map_eq_some_iff.mp h
      exact hs
  | conn a =>
      obtain ⟨conn, hconn, rfl⟩ := Option.map_eq_some_iff.mp h
      refine hs.step ?_ hconn
      rintro rfl
      cases hc

end WsHost

/-- Where no event wins over a frame that is half read, the loop reads the
client's frames in order, however they arrive, and answers the pings and
the close among them. -/
theorem frames_read_in_order {L : RepoLib} (capacity : Nat) (s₀ : RepoStore L)
    (cursor : Option Nat) (sent : List SentFrame) (acts : List (HostAct L)) (t : WsHost L)
    (hrun : Steps.run (WsHost.next capacity)
      (WsHost.serve s₀ cursor (sent.flatMap SentFrame.octets)) acts = some t)
    (hcalm : Steps.Along (WsHost.next capacity) (fun s a => s.interrupts a = false)
      (WsHost.serve s₀ cursor (sent.flatMap SentFrame.octets)) acts) :
    (∃ done rest, WsHost.ReadInOrder sent t done rest)
      ∧ ((∀ a ∈ acts, a.unanswered = false) → WsConn.Answered t.conn) := by
  obtain ⟨done, rest, h⟩ := WsHost.reading_run hcalm hrun
  refine ⟨⟨done, rest, h.sent, h.reads, h.position, h.complete⟩, ?_⟩
  intro hwrites
  exact WsHost.answered_run hwrites hrun

/-! ## A ping with a commit in the middle of it -/

/-- The mask looks like a close frame without payload. -/
def splitPing : SentFrame where
  frame := singleFrame samplePing.opcode (some #v[0x88, 0x00, 0x12, 0x34]) [0x68, 0x69]
  octets := maskedLayout 9 #v[0x88, 0x00, 0x12, 0x34] [0x68, 0x69]
  wire := wire_maskedLayout samplePing.opcode _ (by decide)

def commitOnce : List (HostAct sampleRepo) :=
  .write (.start (sampleWrite "did:plc:alice" "a")) :: List.replicate 16 (.write (.step 0 .done))

/-- The two octets of the header arrive, a commit is relayed, and the rest
arrives. -/
def splitByCommit : List (HostAct sampleRepo) :=
  [.conn (.stream .done), .conn (.arrives 2), .conn (.poll .done)] ++ commitOnce
  ++ [.conn (.stream .done), .conn (.arrives 6), .conn (.poll .done)]

theorem splitByCommit_run :
    (Steps.run (WsHost.next 16) (WsHost.serve (RepoStore.empty sampleRepo) none splitPing.octets)
      splitByCommit).map (fun t => t.conn.reads) = some [.ok ⟨8, []⟩] := by decide +kernel

theorem payload_read_as_header :
    ¬ ∀ (capacity : Nat) (s₀ : RepoStore sampleRepo) (cursor : Option Nat) (sent : List SentFrame)
      (acts : List (HostAct sampleRepo)) (t : WsHost sampleRepo),
      Steps.run (WsHost.next capacity)
        (WsHost.serve s₀ cursor (sent.flatMap SentFrame.octets)) acts = some t →
      ∃ done rest, WsHost.ReadInOrder sent t done rest := by
  intro h
  obtain ⟨t, ht, hreads⟩ := Option.map_eq_some_iff.mp splitByCommit_run
  obtain ⟨done, rest, hsent⟩ := h 16 (RepoStore.empty sampleRepo) none [splitPing] splitByCommit t ht
  have hdone : t.conn.reads = done.map SentFrame.result := hsent.reads
  rw [hreads] at hdone
  have hsplit := hsent.split
  cases done with
  | nil => cases hdone
  | cons m done =>
      obtain ⟨rfl, -⟩ := List.cons.inj hsplit
      have hresult := (List.cons.inj hdone).1
      exact absurd hresult (by decide)

/-- The commit is relayed before the frame begins and after it ends. -/
def wholeFrame : List (HostAct sampleRepo) :=
  [.conn (.stream .done)] ++ commitOnce ++ [.conn (.arrives 3), .conn (.stream .done),
    .conn (.poll .done), .conn (.arrives 5), .conn (.poll .done)]

theorem wholeFrame_answered : ∃ t : WsHost sampleRepo,
    Steps.run (WsHost.next 16)
      (WsHost.serve (RepoStore.empty sampleRepo) none ([splitPing].flatMap SentFrame.octets))
      wholeFrame = some t
    ∧ (∃ done rest, WsHost.ReadInOrder [splitPing] t done rest)
    ∧ WsConn.pongs t.conn.sub = [[0x68, 0x69]] := by
  have hrun : (Steps.run (WsHost.next 16)
      (WsHost.serve (RepoStore.empty sampleRepo) none ([splitPing].flatMap SentFrame.octets))
      wholeFrame).map (fun t => t.conn.reads.filterMap WsConn.pingPayload) = some [[0x68, 0x69]] := by
    decide +kernel
  obtain ⟨t, ht, hpings⟩ := Option.map_eq_some_iff.mp hrun
  obtain ⟨hread, hanswered⟩ := frames_read_in_order 16 (RepoStore.empty sampleRepo) none [splitPing]
    wholeFrame t ht (of_decide_eq_true (by decide +kernel))
  exact ⟨t, ht, hread, (hanswered (by decide +kernel)).pings.trans hpings⟩

end Stelyph
