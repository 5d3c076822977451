import Mathlib.Data.List.Sort
import Stelyph.FirehoseTail
import Stelyph.Lib.Steps
import Stelyph.Lib.Text
import Stelyph.RequestJson

/-!
# The sequencer

`rust-worker/src/sequencer.rs`: one object for the whole server, which
gives every commit its place in the one stream, logs the frame, and sends
it to every subscriber there is. It is told of a commit by JSON, so what
arrives is a text that may be anything.

A request is a step from where its body has been read. Nothing in it
suspends before the frame is logged, sent and handed to the indexer's
queue, and a subscription does not suspend at all.
-/

namespace Stelyph

/-! ## What it is told -/

/-- One write of a commit, as an object tells the sequencer of it. -/
structure EnqueueOp where
  action : String
  path : String
  cid : Option String
  record : Option Json

/-- The event of one commit. The sequencer gives it its place in the order
of all objects. -/
structure EnqueueReq where
  repo : String
  commit : String
  rev : String
  since : Option String
  blocksB64 : String
  ops : List EnqueueOp
  tooBig : Bool

/-- The members that serde reads: `action` and `path` have to be there,
`cid` and `record` may be missing or `null`. -/
def EnqueueOp.ofJson (N : JsNumbers) (j : Json) : Option EnqueueOp := do
  let action ← (j.member "action").bind Json.asStr
  let path ← (j.member "path").bind Json.asStr
  let cid ← Json.orDefault none (Json.nullable Json.asStr) (j.member "cid")
  let record ← Json.orDefault none (Json.nullable fun v => some (N.reread v)) (j.member "record")
  return ⟨action, path, cid, record⟩

/-- An event from the object of a request body. Members with a default may
be missing; one of the wrong type makes all of it unreadable. -/
def EnqueueReq.ofJson (N : JsNumbers) (j : Json) : Option EnqueueReq := do
  let repo ← (j.member "repo").bind Json.asStr
  let commit ← (j.member "commit").bind Json.asStr
  let rev ← (j.member "rev").bind Json.asStr
  let since ← Json.orDefault none (Json.nullable Json.asStr) (j.member "since")
  let blocksB64 ← Json.orDefault "" Json.asStr (j.member "blocks_b64")
  let ops ← Json.orDefault [] (fun j => j.asArr.bind fun xs => xs.mapM (EnqueueOp.ofJson N))
    (j.member "ops")
  let tooBig ← Json.orDefault false Json.asBool (j.member "too_big")
  return ⟨repo, commit, rev, since, blocksB64, ops, tooBig⟩

/-! ## The object -/

/-- What the sequencer calls, and whether its deployment binds the queue of
the indexer. A `Payload` is the text of a request. -/
structure SequencerLib (Cid Car Payload : Type) extends FrameLib Cid Car, JsNumbers where
  /-- The document a text is by the grammar of JSON. -/
  readJson : Payload → Option Json
  /-- What is said of a text that is no JSON, or no JSON of this struct. -/
  jsonError : Payload → String
  parseCid : String → Except String Cid
  base64Decode : String → Option Car
  noBlocks : Car
  hasQueue : Bool

/-- A frame as it was broadcast, under the number it carries. -/
structure LogRow where
  seq : Nat
  repo : String
  frame : Bytes
deriving DecidableEq, Repr

/-- A subscriber's WebSocket with all that was sent to it, kept after it is closed. -/
structure Socket where
  connected : Bool
  received : List Bytes
deriving DecidableEq, Repr

/-- The one object that all commits go to: `next` is the counter, `log`
the rows of `firehose_log`, and `indexed` what the queue was given. -/
structure Sequencer where
  next : Nat
  log : List LogRow
  sockets : List Socket
  indexed : List Json

/-- The counter stands at one; the log is empty and nobody listens. -/
def Sequencer.init : Sequencer := ⟨1, [], [], []⟩

/-- A request to the object, with the instant at which it is handled. The
body is read only where the path asks for it, and reading it may fail. -/
structure SequencerRequest (Payload : Type) where
  path : String
  query : List (String × String)
  body : Except String Payload
  now : String

/-- The upgrade to a WebSocket, a JSON document, or an error with its text. -/
inductive SequencerReply where
  | websocket
  | json (value : Json)
  | error (status : Nat) (msg : String)

def enqueuePaths : List String := ["/enqueue", "/_test-inject"]

def subscribePath : String := "/xrpc/com.atproto.sync.subscribeRepos"

def SequencerRequest.cursor {Payload : Type} (q : SequencerRequest Payload) : Option Int :=
  (q.query.find? fun kv => kv.1 = "cursor").bind fun kv => Text.parseI64 kv.2

namespace SequencerLib

variable {Cid Car Payload : Type} (X : SequencerLib Cid Car Payload)

/-- The CID of an op, where it has one, has to read. -/
def opCid (o : EnqueueOp) : Except String (Option Cid) :=
  match o.cid with
  | none => .ok none
  | some c =>
      match X.parseCid c with
      | .ok cid => .ok (some cid)
      | .error e => .error s!"bad op cid: {e}"

/-- The ops of an event for its frame. The first CID that does not read is the error. -/
def repoOps : List EnqueueOp → Except String (List (RepoOp Cid))
  | [] => .ok []
  | o :: os =>
      match X.opCid o with
      | .error e => .error e
      | .ok cid =>
          match repoOps os with
          | .error e => .error e
          | .ok ops => .ok (⟨o.action, o.path, cid⟩ :: ops)

/-- The body of the event, once its seq is known. Blocks that are not
base64 are no blocks. -/
def eventBody (ev : EnqueueReq) (seq : Nat) (now : String) : Except String (CommitBody Cid Car) :=
  match X.parseCid ev.commit with
  | .error e => .error s!"bad commit cid: {e}"
  | .ok commit =>
      match X.repoOps ev.ops with
      | .error e => .error e
      | .ok ops => .ok {
          seq := seq
          rebase := false
          tooBig := ev.tooBig
          repo := ev.repo
          commit := commit
          rev := ev.rev
          since := ev.since
          blocks := (X.base64Decode ev.blocksB64).getD X.noBlocks
          ops := ops
          blobs := []
          time := now
          prevData := none }

/-- The message to the indexer. -/
def indexerMessage (seq : Nat) (ev : EnqueueReq) : Json :=
  .obj [("seq", .num seq), ("repo", .str ev.repo), ("rev", .str ev.rev),
    ("ops", .arr (ev.ops.map fun o => .obj [("action", .str o.action), ("path", .str o.path),
      ("cid", (o.cid.map Json.str).getD .null), ("record", o.record.getD .null)]))]

/-- The next number is taken, then the frame is made, logged under it, and
sent to whoever listens and to the indexer. An event that cannot be made
into a frame has used up its number. -/
def enqueue (S : Sequencer) (ev : EnqueueReq) (now : String) :
    Except String SequencerReply × Sequencer :=
  let seq := S.next
  -- The counter is advanced before the event is looked at.
  let S := { S with next := seq + 1 }
  match X.eventBody ev seq now with
  | .error e => (.error e, S)
  | .ok body =>
      let frame := X.encodeMessageFrame "#commit" body
      if S.log.any fun r => r.seq = seq then
        (.error "UNIQUE constraint failed: firehose_log.seq", S)
      else
        (.ok (.json (.obj [("ok", .bool true), ("seq", .num seq)])),
          { S with
            log := S.log ++ [⟨seq, ev.repo, frame⟩]
            sockets := S.sockets.map fun ws =>
              if ws.connected then { ws with received := ws.received ++ [frame] } else ws
            indexed := if X.hasQueue then S.indexed ++ [indexerMessage seq ev] else S.indexed })

/-- `SELECT frame FROM firehose_log WHERE seq > ? ORDER BY seq ASC` -/
def replay (log : List LogRow) (after : Int) : List Bytes :=
  ((log.filter fun r => after < r.seq).insertionSort fun r r' => r.seq ≤ r'.seq).map
    fun r => r.frame

/-- What is replayed on subscription: nothing without a cursor. -/
def backlog (log : List LogRow) : Option Int → List Bytes
  | none => []
  | some after => replay log after

/-- The socket is among those `enqueue` sends to before anything is
replayed on it. -/
def subscribe (S : Sequencer) (cursor : Option Int) : Except String SequencerReply × Sequencer :=
  (.ok .websocket, { S with sockets := S.sockets ++ [⟨true, backlog S.log cursor⟩] })

/-- The two kinds of endpoints. The body is read before anything is changed. -/
def route (S : Sequencer) (q : SequencerRequest Payload) :
    Except String SequencerReply × Sequencer :=
  if q.path = subscribePath then subscribe S q.cursor
  else if q.path ∈ enqueuePaths then
    match q.body with
    | .error e => (.error e, S)
    | .ok text =>
        match (X.readJson text).bind (EnqueueReq.ofJson X.toJsNumbers) with
        | none => (.error (X.jsonError text), S)
        | some ev => X.enqueue S ev q.now
  else (.ok (.error 404 "unknown sequencer endpoint"), S)

/-- How the runtime calls the object. An error becomes a response; what
was written before it stays written. -/
def fetch (S : Sequencer) (q : SequencerRequest Payload) : SequencerReply × Sequencer :=
  match X.route S q with
  | (.ok reply, S') => (reply, S')
  | (.error e, S') => (.error 500 s!"sequencer error: {e}", S')

end SequencerLib

/-! ## Steps -/

/-- A request that is handled as a whole, or a subscriber that goes away. -/
inductive SequencerAct (Payload : Type) where
  | request (q : SequencerRequest Payload)
  | disconnect (socket : Nat)

/-- The object handles one request at a time; there is nothing between its
parts that another request could see. -/
def Sequencer.step {Cid Car Payload : Type} (X : SequencerLib Cid Car Payload) (S : Sequencer) :
    SequencerAct Payload → Option Sequencer
  | .request q => some (X.fetch S q).2
  | .disconnect i =>
      S.sockets[i]?.map fun ws =>
        { S with sockets := S.sockets.set i { ws with connected := false } }

end Stelyph
