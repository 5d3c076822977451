import Stelyph.Lib.Turns
import Stelyph.WorkerRepo

/-!
# An account's object and its write requests

The write routes of `rust-worker/src/durable.rs`. A request reads its
body, is served, and tells the sequencer of its commit; a failure there is
only logged. Reading the body and calling the sequencer are the two places
where it suspends. What a handler asks of the object's store, of the key
derivation and of a lock nobody else knows comes back at once.

Every handler builds a writer of its own, and the lock with it, in the
turn in which it is dropped. So each turn starts with no lock taken.
-/

namespace Stelyph

namespace Worker

section

variable {L : RepoLib}

/-- What a handler of the object waits for, or does without waiting. -/
inductive ObjectOp (L : RepoLib) where
  | readBody (body : Option Json)
  | record (o : RecordOp L)
  | enqueueCommit (body : CommitBody L.Cid L.Car) (records : List (Option Json))

/-- What it comes back with. -/
abbrev ObjectOp.Ret : ObjectOp L → Type
  | .readBody _ => Except String (Option Json)
  | .record o => o.Ret RepoError
  | .enqueueCommit _ _ => Except String Unit

abbrev objectSig (L : RepoLib) : Sig := ⟨ObjectOp L, ObjectOp.Ret⟩

abbrev ObjectProg (L : RepoLib) := Prog (objectSig L) RepoFailure

/-- Where a request really suspends. -/
def ObjectOp.parks : ObjectOp L → Bool
  | .record _ => false
  | .readBody _ | .enqueueCommit _ _ => true

/-- One operation on the object's store. What goes to the sequencer leaves
the object as it is. -/
def ObjectOp.exec (env : RecordEnv L RepoError) (s : RepoStore L) :
    (o : ObjectOp L) → WriterFate → Option (o.Ret × RepoStore L)
  | .readBody body, .done => some (.ok body, s)
  | .readBody _, .fault msg _ => some (.error msg, s)
  | .record o, c => RecordOp.exec env 0 s o c
  | .enqueueCommit _ _, .done => some (.ok (), s)
  | .enqueueCommit _ _, .fault msg _ => some (.error msg, s)

def liftRecord {α : Type} : RepoProg L α → ObjectProg L α
  | .ret a => .ret a
  | .fail e => .fail e
  | .op o k => .op (.record o) fun r => liftRecord (k r)

/-! ## The routes -/

/-- `micros` is the clock where keys have to be made up. -/
inductive WriteCall where
  | createRecord (micros : Nat) (rnd : WriteDraw)
  | putRecord (rnd : WriteDraw)
  | deleteRecord (rnd : WriteDraw)
  | applyWrites (micros : Nat → Nat) (rnd : WriteDraw)

/-- A call of one of the write endpoints. The body is JSON that was read,
or none that could be. -/
structure WriteRequest where
  bearer : Option String
  body : Option Json
  call : WriteCall

/-- The answer of a write that went through. -/
inductive WriteReply where
  | record (uri cid : String)
  | empty
  | batch (results : List Json)

/-- What there is to tell the sequencer. -/
abbrev Commit (L : RepoLib) := CommitBody L.Cid L.Car × List (Option Json)

variable (cfg : RepoConfig L)

/-- The handler of a call: what it answers, and the commit it hands to the
sequencer, where it made one. -/
def serve (bearer : Option String) (body : Option Json) :
    WriteCall → RepoProg L (WriteReply × Option (Commit L))
  | .createRecord micros rnd => do
      let sequenced ← createRecord cfg bearer body micros rnd
      return (.record sequenced.uri sequenced.cid, some (sequenced.body, sequenced.records))
  | .putRecord rnd => do
      let sequenced ← putRecord cfg bearer body rnd
      return (.record sequenced.uri sequenced.cid, some (sequenced.body, sequenced.records))
  | .deleteRecord rnd => do
      match ← deleteRecord cfg bearer body rnd with
      | none => return (.empty, none)
      | some sequenced => return (.empty, some (sequenced.body, sequenced.records))
  | .applyWrites micros rnd => do
      let batch ← applyWrites cfg bearer body micros rnd
      return (.batch batch.results, some (batch.body, batch.records))

/-- The answer does not depend on what the sequencer says. -/
def tell (reply : WriteReply) : Option (Commit L) → ObjectProg L WriteReply
  | none => return reply
  | some (body, records) => .op (.enqueueCommit body records) fun _ => return reply

/-- The body is awaited, then the write is carried out in one go, and at
last the sequencer is told of its commit. -/
def route (q : WriteRequest) : ObjectProg L WriteReply :=
  .op (.readBody q.body) fun r => do
    let body ← Prog.ofExcept .thrown r
    let (reply, commit) ← liftRecord (serve cfg q.bearer body q.call)
    tell reply commit

/-! ## Turns -/

/-- The store, the requests there were, and the commits that requests have
made, oldest first. -/
structure Object (L : RepoLib) where
  store : RepoStore L
  tasks : List (WriteRequest × ObjectProg L WriteReply)
  sequenced : List (Nat × CommitBody L.Cid L.Car)

def Object.init (L : RepoLib) : Object L := ⟨RepoStore.empty L, [], []⟩

/-- A request arrives, or the runtime lets one go on to where it waits next. -/
inductive ObjectAct where
  | arrive (q : WriteRequest)
  | turn (i : Nat) (fates : List WriterFate)

/-- The commit a task is about to tell the sequencer. -/
def toTell : ObjectProg L WriteReply → Option (CommitBody L.Cid L.Car)
  | .op (.enqueueCommit body _) _ => some body
  | _ => none

/-- One turn of the object. The lock of the writer is taken and given back within it. -/
def Object.step (env : RecordEnv L RepoError) (O : Object L) : ObjectAct → Option (Object L)
  | .arrive q => some { O with tasks := O.tasks ++ [(q, route cfg q)] }
  | .turn i fates =>
      match O.tasks[i]? with
      | none => none
      | some (q, p) =>
          (p.turn (S := objectSig L) ObjectOp.parks (ObjectOp.exec env)
            { O.store with locks := .empty } fates).map fun r =>
              ⟨r.2, O.tasks.set i (q, r.1),
                O.sequenced ++ ((toTell r.1).map fun body => (i, body)).toList⟩

/-! ## Where a task can be -/

variable {cfg} {env : RecordEnv L RepoError} {s t : RepoStore L}

theorem against_liftRecord {α : Type} :
    ∀ {p : RepoProg L α} {s : RepoStore L} {cs : List WriterFate},
      (liftRecord p).against (S := objectSig L) (ObjectOp.exec env) s cs
        = p.against (RecordOp.exec env 0) s cs
  | .ret _, _, cs => by cases cs <;> rfl
  | .fail _, _, cs => by cases cs <;> rfl
  | .op o k, s, cs => by
      cases cs with
      | nil => rfl
      | cons c cs =>
          simp only [liftRecord, Prog.against]
          exact Option.bind_congr fun _ _ => against_liftRecord

theorem calm_liftRecord {α : Type} : ∀ {p : RepoProg L α},
    (liftRecord p).Each (S := objectSig L) fun o => ObjectOp.parks o = false
  | .ret _ => trivial
  | .fail _ => trivial
  | .op _ _ => ⟨rfl, fun _ => calm_liftRecord⟩

/-- Where a request is after it has been served. -/
def answered : Except RepoFailure (WriteReply × Option (Commit L)) → ObjectProg L WriteReply
  | .error e => .fail e
  | .ok (reply, commit) => tell reply commit

theorem stretch_tell {reply : WriteReply} {commit : Option (Commit L)} {fates : List WriterFate}
    {p : ObjectProg L WriteReply} :
    (tell reply commit).stretch (S := objectSig L) ObjectOp.parks (ObjectOp.exec env) s fates
        = some (p, t) ↔ fates = [] ∧ p = tell reply commit ∧ t = s := by
  cases commit with
  | none => exact Prog.stretch_ret
  | some commit => exact Prog.stretch_parked rfl

/-- A task that waits for its body is served in one turn, on the store as
it finds it. -/
theorem turn_route {q : WriteRequest} {fates : List WriterFate} {p : ObjectProg L WriteReply} :
    (route cfg q).turn (S := objectSig L) ObjectOp.parks (ObjectOp.exec env) s fates = some (p, t) ↔
      (∃ msg part, fates = [.fault msg part] ∧ p = .fail (.thrown msg) ∧ t = s)
      ∨ ∃ cs x, fates = .done :: cs ∧ p = answered x
        ∧ (serve cfg q.bearer q.body q.call).against (RecordOp.exec env 0) s cs = some (x, t) := by
  cases fates with
  | nil => simp [route, Prog.turn]
  | cons c cs =>
      cases c with
      | fault msg part =>
          have hturn : (route cfg q).turn (S := objectSig L) ObjectOp.parks (ObjectOp.exec env) s
              (.fault msg part :: cs) = (Prog.fail (.thrown msg) : ObjectProg L WriteReply).stretch
                ObjectOp.parks (ObjectOp.exec env) s cs := rfl
          rw [hturn, Prog.stretch_fail]
          simp
      | done =>
          have hturn : (route cfg q).turn (S := objectSig L) ObjectOp.parks (ObjectOp.exec env) s
              (.done :: cs) = ((liftRecord (serve cfg q.bearer q.body q.call)).bind
                fun r => tell r.1 r.2).stretch ObjectOp.parks (ObjectOp.exec env) s cs := rfl
          rw [hturn, Prog.stretch_bind_eq_some calm_liftRecord]
          constructor
          · rintro ⟨cs₁, cs₂, x, u, rfl, hrun, hafter⟩
            rw [against_liftRecord] at hrun
            cases x with
            | error e =>
                obtain ⟨rfl, rfl, rfl⟩ := hafter
                exact Or.inr ⟨cs₁, .error e, by rw [List.append_nil], rfl, hrun⟩
            | ok a =>
                obtain ⟨rfl, rfl, rfl⟩ := stretch_tell.mp hafter
                exact Or.inr ⟨cs₁, .ok a, by rw [List.append_nil], rfl, hrun⟩
          · rintro (⟨msg, part, hcs, -, -⟩ | ⟨cs', x, hcs, rfl, hrun⟩)
            · cases hcs
            · obtain ⟨-, rfl⟩ := List.cons.inj hcs
              refine ⟨cs, [], x, t, (List.append_nil cs).symm, against_liftRecord.trans hrun, ?_⟩
              cases x with
              | error e => exact ⟨rfl, rfl, rfl⟩
              | ok a => exact stretch_tell.mpr ⟨rfl, rfl, rfl⟩

/-- The call of the sequencer ends a request with its answer. -/
theorem turn_tell {reply : WriteReply} {commit : Commit L} {fates : List WriterFate}
    {p : ObjectProg L WriteReply} :
    (tell reply (some commit)).turn (S := objectSig L) ObjectOp.parks (ObjectOp.exec env) s fates
        = some (p, t) ↔ (∃ c, fates = [c]) ∧ p = .ret reply ∧ t = s := by
  cases fates with
  | nil => simp [tell, Prog.turn]
  | cons c cs =>
      have hturn : (tell reply (some commit)).turn (S := objectSig L) ObjectOp.parks
          (ObjectOp.exec env) s (c :: cs) = (Prog.ret reply : ObjectProg L WriteReply).stretch
            ObjectOp.parks (ObjectOp.exec env) s cs := by
        cases c <;> rfl
      rw [hturn, Prog.stretch_ret]
      simp

end

end Worker

end Stelyph
