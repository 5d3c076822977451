import Stelyph.ApplyWrites

/-!
# Record requests that race

`createRecord`, `putRecord` and `deleteRecord` on one repository, in any
interleaving, on the axum server and on the embedded server. A put and a
delete look the record up before they take the repository's lock, and
write what the lookup told them to write. When the lookup is out of date
by then, the write is refused: the request is answered with an error.

In a run where no lookup that is written from is out of date, every put
and every delete is answered with success, and the requests take effect
one after the other: a write at its commit, a delete of what is not
there at its lookup, a refused create when it gives the lock back.
-/

namespace Stelyph

section

variable {L : RepoLib} {α β : Type} {view : TreeView L} {s t : RepoStore L} {d : String}

/-! ## Where a write commits -/

def WriterOp.Sends : WriterOp L → Prop
  | .send _ => True
  | _ => False

theorem WriterOp.Sends.lockFree (o : WriterOp L) (ho : o.Sends) : o.LockFree := by
  cases o with
  | send => trivial
  | _ => exact ho.elim

/-- Blocks are added, then there is one commit, then nothing but
broadcasts. -/
def CommitsLast : RepoProg L α → Prop
  | .ret _ => True
  | .fail _ => True
  | .op o k => (o.Quiet ∧ ∀ r, CommitsLast (k r))
      ∨ (o.LockFree ∧ ∀ r, Prog.Each (S := writerSig L) WriterOp.Sends (k r))

theorem CommitsLast.bind {f : α → RepoProg L β} (hf : ∀ a, CommitsLast (f a)) :
    ∀ {p : RepoProg L α}, p.Local → CommitsLast (p.bind f)
  | .ret a, _ => hf a
  | .fail _, _ => trivial
  | .op o _, hp => Or.inl ⟨by cases o <;> first | exact hp.1.elim | trivial,
      fun r => CommitsLast.bind hf (hp.2 r)⟩

theorem commitsLast_commitOpLocked (w : RepoWriter L) (op : WriteOp L.Ipld) (broadcast : Bool)
    (rnd : WriteDraw) : CommitsLast (commitOpLocked w op broadcast rnd) := by
  refine .bind (fun opened => ?_) (local_openRepo _ _)
  refine .bind (fun applied => ?_) (local_applyRaw _ _)
  refine .bind (fun commitCid => ?_) (local_signCommit _ _ _ _)
  refine .bind (fun blocks => ?_) (local_readBlocks _)
  refine .bind (fun car => ?_) (Prog.each_ofExcept _ _ _)
  refine .bind (fun block => ?_) (local_read _ _)
  refine .bind (fun rev => ?_) (local_revOf _ _)
  refine .bind (fun since => ?_) (local_sinceOf _ _)
  simp only [storeCommit, Prog.bind_eq, Prog.bind_assoc]
  refine .bind (fun event => ?_) (Prog.each_ofExcept _ _ _)
  refine Or.inr ⟨trivial, fun r => ?_⟩
  refine .bind (.bind (Prog.each_ofExcept _ _ _) fun _ => trivial) fun body => ?_
  split_ifs
  · exact ⟨trivial, fun _ => trivial⟩
  · trivial

/-- Broadcasts leave the repositories alone. -/
theorem sends_alone : ∀ {p : RepoProg L α} {s t : RepoStore L} {x : Except RepoError α},
    Prog.Each (S := writerSig L) WriterOp.Sends p → p.alone soloExec s = some (x, t) →
      t.roots = s.roots ∧ t.blocks = s.blocks
  | .ret _, s, t, x, _, h => by
      obtain ⟨-, rfl⟩ := Prod.mk.injEq .. |>.mp (Option.some.inj h)
      exact ⟨rfl, rfl⟩
  | .fail _, s, t, x, _, h => by
      obtain ⟨-, rfl⟩ := Prod.mk.injEq .. |>.mp (Option.some.inj h)
      exact ⟨rfl, rfl⟩
  | .op (.send e) k, s, t, x, hp, h =>
      sends_alone (p := k ()) (s := { s with sent := s.sent ++ [e] }) (hp.2 ()) h

theorem mapOf_congr {s t : RepoStore L} (hroots : t.roots = s.roots) (hblocks : t.blocks = s.blocks)
    (d : String) : mapOf view t d = mapOf view s d := by
  rw [mapOf, mapOf, hroots, hblocks]

/-- Apart from taking a lock, who runs an operation does not matter. -/
theorem WriterOp.LockFree.exec_eq {o : WriterOp L} (ho : o.LockFree) (i : Nat) (s : RepoStore L) :
    o.exec i s .done = soloExec s o := by
  cases o with
  | lock | unlock => exact ho.elim
  | _ => rfl

/-! ## What a request asks for -/

inductive RecordChange (L : RepoLib) where
  | create (key : String) (record : L.Ipld)
  | put (key : String) (record : L.Ipld)
  | delete (key : String)

/-- The map after the request has been served alone. -/
def RecordChange.onMap (m : RecordMap L) : RecordChange L → RecordMap L
  | .create key record => if (m key).isSome then m else Function.update m key (recordCid record)
  | .put key record => Function.update m key (recordCid record)
  | .delete key => Function.update m key none

/-- A create may be refused. -/
def RecordChange.Certain : RecordChange L → Prop
  | .create _ _ => False
  | _ => True

/-- The record, if there is one, has a CID. -/
def RecordChange.Encodable : RecordChange L → Prop
  | .create _ record | .put _ record => (recordCid (L := L) record).isSome = true
  | .delete _ => True

/-- The record that is looked up first. -/
def RecordChange.looked : RecordChange L → Option String
  | .create _ _ => none
  | .put key _ | .delete key => some key

/-- The write that a lookup's answer leads to; what is not there is not
deleted. -/
def RecordChange.toOp (found : Option L.Cid) : RecordChange L → Option (WriteOp L.Ipld)
  | .create key record => some (.create key record)
  | .put key record => some (if found.isSome then .update key record else .create key record)
  | .delete key => if found.isSome then some (.delete key) else none

/-- `found` still says whether the record is there. -/
def RecordChange.Current (m : RecordMap L) (found : Option L.Cid) (c : RecordChange L) : Prop :=
  ∀ key, c.looked = some key → (m key).isSome = found.isSome

/-- A write from a lookup that is not out of date does what the request
asks for. -/
theorem RecordChange.toOp_onMap {c : RecordChange L} {m : RecordMap L} {found : Option L.Cid}
    {op : WriteOp L.Ipld} (hc : c.Encodable) (hcur : c.Current m found)
    (hop : c.toOp found = some op) :
    (op.onMap m).getD m = c.onMap m ∧ (c.Certain → (op.onMap m).isSome = true) := by
  cases c with
  | create key record =>
      obtain ⟨cid, hcid⟩ := Option.isSome_iff_exists.mp hc
      obtain rfl := Option.some.inj hop
      refine ⟨?_, fun h => h.elim⟩
      simp only [onMap, WriteOp.onMap, hcid, Option.bind_some]
      split <;> rfl
  | put key record =>
      obtain ⟨cid, hcid⟩ := Option.isSome_iff_exists.mp hc
      obtain rfl := Option.some.inj hop
      have hkey := hcur key rfl
      cases hf : found.isSome with
      | true => simp [onMap, WriteOp.onMap, hcid, hf, hkey]
      | false => simp [onMap, WriteOp.onMap, hcid, hf, hkey]
  | delete key =>
      have hkey := hcur key rfl
      cases hf : found.isSome with
      | true =>
          obtain rfl : WriteOp.delete key = op := by simpa [toOp, hf] using hop
          simp [onMap, WriteOp.onMap, hf, hkey]
      | false => simp [toOp, hf] at hop

/-- The batch of that write, when it is run. -/
theorem BatchPost.changed {c : RecordChange L} {m : RecordMap L} {found : Option L.Cid}
    {op : WriteOp L.Ipld}
    {x : Except RepoError (List (WriteOutcome L.Cid) × CommitBody L.Cid L.Car)}
    (h : BatchPost view d s m [op] x t) (hc : c.Encodable) (hcur : c.Current m found)
    (hop : c.toOp found = some op) :
    mapOf view t d = some (c.onMap m) ∧ (c.Certain → x.isOk = true) := by
  obtain ⟨hmap, hcertain⟩ := RecordChange.toOp_onMap hc hcur hop
  rw [BatchPost] at h
  cases hm : op.onMap m with
  | none =>
      rw [hm] at hmap hcertain
      rw [show foldWrites m [op] = none by simp [foldWrites, hm]] at h
      obtain ⟨-, -, -, hsame⟩ := h
      exact ⟨hmap ▸ hsame, fun hcert => by cases hcertain hcert⟩
  | some m' =>
      rw [hm] at hmap
      rw [show foldWrites m [op] = some m' by simp [foldWrites, hm]] at h
      obtain ⟨body, hstep, -, rfl⟩ := h
      exact ⟨hmap ▸ hstep.map, fun _ => rfl⟩

/-- Where nothing is written, nothing had to be. -/
theorem RecordChange.onMap_of_toOp_none {c : RecordChange L} {m : RecordMap L}
    {found : Option L.Cid} (hcur : c.Current m found) (hop : c.toOp found = none) :
    c.onMap m = m := by
  cases c with
  | create key record => cases hop
  | put key record => cases hop
  | delete key =>
      have hkey := hcur key rfl
      cases hf : found.isSome with
      | true => simp [toOp, hf] at hop
      | false =>
          rw [hf, Option.isSome_eq_false_iff, Option.isNone_iff_eq_none] at hkey
          exact (congrArg (Function.update m key) hkey.symm).trans (Function.update_eq_self key m)

/-! ## The shape of the handlers -/

variable {p : RecordProg L α}

/-- What a handler makes of the writer's answer. -/
structure Closes (f : Except RepoError (WriteOutcome L.Cid) → RecordProg L α) : Prop where
  ok : ∀ o, ∃ a, f (.ok o) = .ret a
  error : ∀ e, ∃ e', f (.error e) = .fail e'

/-- About to take the lock. -/
def Entering (d : String) (op : WriteOp L.Ipld) (p : RecordProg L α) : Prop :=
  ∃ (w : RepoWriter L) (rnd : WriteDraw)
    (f : Except RepoError (WriteOutcome L.Cid) → RecordProg L α),
    w.did = d ∧ Closes f ∧ p = (liftWriter (applyOne w op rnd)).attempt.bind f

/-- About to load the signing key. -/
def Keyed (d : String) (op : WriteOp L.Ipld) (p : RecordProg L α) : Prop :=
  ∃ k : Except String L.Key → RecordProg L α,
    p = .op (.loadSigningKey d) k ∧ ∀ key, Entering d op (k (.ok key))

/-- Past the lookup. -/
def Decided (d : String) (c : RecordChange L) (found : Option L.Cid) (p : RecordProg L α) : Prop :=
  match c.toOp found with
  | some op => Keyed d op p
  | none => ∃ a, p = .ret a

def Starts (d : String) (c : RecordChange L) (p : RecordProg L α) : Prop :=
  match c.looked with
  | none => Decided d c none p
  | some key => ∃ k : Except XrpcError (Option L.Cid) → RecordProg L α,
      p = .op (.lookupRecordCid d key) k ∧ ∀ found, Decided d c found (k (.ok found))

/-- Between the lock and its release, with `q` left to do. -/
def inside (d : String) (q : RepoProg L (WriteOutcome L.Cid × CommitBody L.Cid L.Car))
    (f : Except RepoError (WriteOutcome L.Cid) → RecordProg L α) : RecordProg L α :=
  (liftWriter ((Prog.ensuring (S := writerSig L) (.unlock d) q).bind fun a => .ret a.1)).attempt.bind
    f

theorem entering_eq (w : RepoWriter L) (op : WriteOp L.Ipld) (rnd : WriteDraw)
    (f : Except RepoError (WriteOutcome L.Cid) → RecordProg L α) :
    (liftWriter (applyOne w op rnd)).attempt.bind f
      = .op (.writer (.lock w.did)) fun _ => inside w.did (commitOpLocked w op true rnd) f := rfl

theorem inside_op (o : WriterOp L)
    (k : o.Ret → RepoProg L (WriteOutcome L.Cid × CommitBody L.Cid L.Car))
    (f : Except RepoError (WriteOutcome L.Cid) → RecordProg L α) :
    inside d (.op o k) f = .op (.writer o) fun r => inside d (k r) f := rfl

theorem inside_ret (a : WriteOutcome L.Cid × CommitBody L.Cid L.Car)
    (f : Except RepoError (WriteOutcome L.Cid) → RecordProg L α) :
    inside d (.ret a) f = .op (.writer (.unlock d)) fun _ => f (.ok a.1) := rfl

theorem inside_fail (e : RepoError)
    (f : Except RepoError (WriteOutcome L.Cid) → RecordProg L α) :
    inside d (.fail e) f = .op (.writer (.unlock d)) fun _ => f (.error e) := rfl

/-! ## Requests in any order -/

variable {ρ : Type}

/-- No store call fails; what is left to chance is the order of the requests. -/
def quietMachine (env : RecordEnv L XrpcError) :
    Machine (recordSig L XrpcError) (RepoStore L) Unit where
  exec i s o _ := RecordOp.exec env i s o .done

abbrev RecordPool (L : RepoLib) (ρ α : Type) :=
  Pool (recordSig L XrpcError) ρ XrpcError α (RepoStore L)

abbrev RecordLog (L : RepoLib) := List (Event (recordSig L XrpcError))

/-- What task `i` looked up, if anything, was `found`. -/
def Looked (d : String) (log : RecordLog L) (i : Nat) (c : RecordChange L)
    (found : Option L.Cid) : Prop :=
  ∀ key, c.looked = some key →
    (⟨i, .lookupRecordCid d key, .ok found⟩ : Event (recordSig L XrpcError)) ∈ log

/-- The lookups of task `i` still say what is there. -/
def Timely (view : TreeView L) (d : String) (P : RecordPool L ρ α) (i : Nat) : Prop :=
  ∀ key found m, mapOf view P.store d = some m →
    (⟨i, .lookupRecordCid d key, .ok found⟩ : Event (recordSig L XrpcError)) ∈ P.log →
      (m key).isSome = found.isSome

/-- Whoever takes the lock does so with a lookup that is not out of date. -/
def TimelyStep (view : TreeView L) (d : String) (P : RecordPool L ρ α) :
    PoolAct ρ Unit → Prop
  | .start _ => True
  | .step i _ => ∀ q k, P.tasks[i]? = some (q, .op (.writer (.lock d)) k) → Timely view d P i

/-- The requests take effect in this order. -/
def play (change : ρ → Option (RecordChange L)) (reqs : List ρ) (m : RecordMap L)
    (order : List Nat) : RecordMap L :=
  order.foldl (fun m i => (reqs[i]?.bind change).elim m fun c => c.onMap m) m

/-- Not yet in effect, and without the lock. -/
def Waiting (d : String) (log : RecordLog L) (i : Nat) (c : RecordChange L)
    (p : RecordProg L α) : Prop :=
  Starts d c p ∨ ∃ found op, Looked d log i c found ∧ c.toOp found = some op
    ∧ (Keyed d op p ∨ Entering d op p)

/-- Task `i` has the lock. Nobody else touches the store, so that what is
left of its write comes out as it does alone: at `x` and `t`. -/
structure Holds (view : TreeView L) (d : String) (s : RepoStore L) (m : RecordMap L) (i : Nat)
    (inEffect : Prop) (c : RecordChange L)
    (q : RepoProg L (WriteOutcome L.Cid × CommitBody L.Cid L.Car))
    (x : Except RepoError (WriteOutcome L.Cid × CommitBody L.Cid L.Car)) (t : RepoStore L) :
    Prop where
  lock : s.locks.get d = some i
  alone : q.alone soloExec s = some (x, t)
  addressed : WellAddressed t.blocks
  certain : c.Certain → x.isOk = true
  phase : (¬ inEffect ∧ CommitsLast q ∧ mapOf view t d = some (c.onMap m))
    ∨ (inEffect ∧ Prog.Each (S := writerSig L) WriterOp.Sends q)

def Ended (c : RecordChange L) (p : RecordProg L α) : Prop :=
  ∃ x, p.outcome = some x ∧ (c.Certain → x.isOk = true)

/-- Where a task stands. -/
inductive TaskAt (view : TreeView L) (d : String) (log : RecordLog L) (s : RepoStore L)
    (m : RecordMap L) (order : List Nat) (i : Nat) (c : RecordChange L) (p : RecordProg L α) :
    Prop where
  | waiting (hi : i ∉ order) (h : Waiting d log i c p)
  | holds (q : RepoProg L (WriteOutcome L.Cid × CommitBody L.Cid L.Car))
      (f : Except RepoError (WriteOutcome L.Cid) → RecordProg L α)
      (x : Except RepoError (WriteOutcome L.Cid × CommitBody L.Cid L.Car)) (t : RepoStore L)
      (hf : Closes f) (h : Holds view d s m i (i ∈ order) c q x t) (hp : p = inside d q f)
  | ended (hi : i ∈ order) (h : Ended c p)

/-- A task that can always go on. -/
def Owns (d : String) (p : RecordProg L α) : Prop :=
  ∃ (q : RepoProg L (WriteOutcome L.Cid × CommitBody L.Cid L.Car))
    (f : Except RepoError (WriteOutcome L.Cid) → RecordProg L α),
    p = inside d q f ∧ Prog.Each (S := writerSig L) WriterOp.LockFree q

/-- The requests in `order` have taken effect, one after the other. -/
structure RaceInv (view : TreeView L) (d : String) (change : ρ → Option (RecordChange L))
    (m₀ : RecordMap L) (P : RecordPool L ρ α) (order : List Nat) (m : RecordMap L) : Prop where
  addressed : WellAddressed P.store.blocks
  map : mapOf view P.store d = some m
  nodup : order.Nodup
  started : ∀ i ∈ order, i < P.tasks.length
  played : m = play change (P.tasks.map Prod.fst) m₀ order
  owned : ∀ i, P.store.locks.get d = some i → ∃ q p, P.tasks[i]? = some (q, p) ∧ Owns d p
  tasks : ∀ i q p, P.tasks[i]? = some (q, p) →
    ∃ c, change q = some c ∧ c.Encodable ∧ TaskAt view d P.log P.store m order i c p

variable {change : ρ → Option (RecordChange L)} {m₀ m m' : RecordMap L} {order order' : List Nat}
  {log log' : RecordLog L} {c : RecordChange L} {i j : Nat} {P : RecordPool L ρ α}

theorem play_snoc {reqs : List ρ} {q : ρ} (hq : reqs[i]? = some q) (hc : change q = some c) :
    play change reqs m (order ++ [i]) = c.onMap (play change reqs m order) := by
  simp [play, List.foldl_append, hq, hc]

theorem play_started {reqs : List ρ} (h : ∀ i ∈ order, i < reqs.length) (q : ρ) :
    play change (reqs ++ [q]) m order = play change reqs m order := by
  refine List.foldl_ext _ _ _ fun m i hi => ?_
  rw [List.getElem?_append_left (h i hi)]

theorem map_fst_set {tasks : List (ρ × RecordProg L α)} {q : ρ} {p p' : RecordProg L α}
    (h : tasks[i]? = some (q, p)) : (tasks.set i (q, p')).map Prod.fst = tasks.map Prod.fst := by
  rw [List.map_set]
  refine List.ext_getElem? fun j => ?_
  by_cases hj : i = j
  · subst hj
    obtain ⟨hi, hget⟩ := List.getElem?_eq_some_iff.mp h
    simp [hi, hget]
  · rw [List.getElem?_set_ne hj]

theorem Looked.mono {found : Option L.Cid} (h : Looked d log i c found)
    (hlog : ∀ e ∈ log, e ∈ log') : Looked d log' i c found :=
  fun key hkey => hlog _ (h key hkey)

theorem Waiting.mono (h : Waiting d log i c p) (hlog : ∀ e ∈ log, e ∈ log') :
    Waiting d log' i c p := by
  rcases h with h | ⟨found, op, hlook, hrest⟩
  · exact Or.inl h
  · exact Or.inr ⟨found, op, hlook.mono hlog, hrest⟩

/-- The others stand where they stood, unless one of them has the lock
and the store has changed. -/
theorem TaskAt.other (h : TaskAt view d log s m order j c p) (hlog : ∀ e ∈ log, e ∈ log')
    (hord : j ∈ order' ↔ j ∈ order) (hs : (t = s ∧ m' = m) ∨ s.locks.get d ≠ some j) :
    TaskAt view d log' t m' order' j c p := by
  cases h with
  | waiting hi h => exact .waiting (fun hj => hi (hord.mp hj)) (h.mono hlog)
  | ended hi h => exact .ended (hord.mpr hi) h
  | holds q f x t' hf h hp =>
      rcases hs with ⟨rfl, rfl⟩ | hs
      · refine .holds q f x t' hf ⟨h.lock, h.alone, h.addressed, h.certain, ?_⟩ hp
        rw [hord]
        exact h.phase
      · exact absurd h.lock hs

/-- One step of task `i`, with or without its taking effect. -/
theorem RaceInv.move (h : RaceInv view d change m₀ P order m) {q : ρ} {o : RecordOp L}
    {k : o.Ret XrpcError → RecordProg L α} (htask : P.tasks[i]? = some (q, .op o k))
    {r : o.Ret XrpcError} (hc : change q = some c) (henc : c.Encodable)
    (horder : (order' = order ∧ m' = m) ∨ (i ∉ order ∧ order' = order ++ [i] ∧ m' = c.onMap m))
    (hothers : (t = P.store ∧ m' = m) ∨ ∀ j, j ≠ i → P.store.locks.get d ≠ some j)
    (howned : ∀ j, t.locks.get d = some j →
      (j = i ∧ Owns d (k r)) ∨ (j ≠ i ∧ P.store.locks.get d = some j))
    (haddr : WellAddressed t.blocks) (hmap : mapOf view t d = some m')
    (hat : TaskAt view d (P.log ++ [⟨i, o, r⟩]) t m' order' i c (k r)) :
    RaceInv view d change m₀ ⟨P.toWorld.after i o r t, P.tasks.set i (q, k r)⟩ order' m' := by
  have hlen : i < P.tasks.length := (List.getElem?_eq_some_iff.mp htask).1
  have hreq : (P.tasks.map Prod.fst)[i]? = some q := by simp [htask]
  refine ⟨haddr, hmap, ?_, ?_, ?_, ?_, ?_⟩
  · rcases horder with ⟨rfl, -⟩ | ⟨hi, rfl, -⟩
    · exact h.nodup
    · exact List.nodup_append.mpr ⟨h.nodup, List.nodup_singleton i, fun a ha b hb hab =>
        hi (List.mem_singleton.mp hb ▸ hab ▸ ha)⟩
  · intro j hj
    show j < (P.tasks.set i (q, k r)).length
    rw [List.length_set]
    rcases horder with ⟨rfl, -⟩ | ⟨-, rfl, -⟩
    · exact h.started j hj
    · rcases List.mem_append.mp hj with hj | hj
      · exact h.started j hj
      · exact List.mem_singleton.mp hj ▸ hlen
  · show m' = play change ((P.tasks.set i (q, k r)).map Prod.fst) m₀ order'
    rw [map_fst_set htask]
    rcases horder with ⟨rfl, rfl⟩ | ⟨-, rfl, rfl⟩
    · exact h.played
    · rw [play_snoc hreq hc, ← h.played]
  · intro j hj
    rcases howned j hj with ⟨rfl, hown⟩ | ⟨hji, hlock⟩
    · exact ⟨q, k r, List.getElem?_set_self hlen, hown⟩
    · obtain ⟨q', p', hp, hown⟩ := h.owned j hlock
      exact ⟨q', p', (List.getElem?_set_ne (Ne.symm hji)).trans hp, hown⟩
  · intro j q' p' hj
    rcases Pool.getElem?_set_cases hj with ⟨rfl, heq⟩ | ⟨hji, hj⟩
    · obtain ⟨rfl, rfl⟩ := Prod.mk.injEq .. |>.mp heq
      exact ⟨c, hc, henc, hat⟩
    · obtain ⟨c', hc', henc', hat'⟩ := h.tasks j q' p' hj
      refine ⟨c', hc', henc', hat'.other (fun e he => List.mem_append_left _ he) ?_
        (hothers.imp id fun h => h j hji)⟩
      rcases horder with ⟨rfl, -⟩ | ⟨-, rfl, -⟩
      · exact Iff.rfl
      · simp [hji]

/-! ## The steps -/

variable {q : ρ}

/-- Who owns the lock does not read now. -/
theorem RaceInv.not_owner (h : RaceInv view d change m₀ P order m) {o : RecordOp L}
    {k : o.Ret XrpcError → RecordProg L α} (htask : P.tasks[i]? = some (q, .op o k))
    (ho : o.Reading) (hj : P.store.locks.get d = some j) : j ≠ i := by
  rintro rfl
  obtain ⟨q', p', hp, w, f, rfl, -⟩ := h.owned j hj
  obtain ⟨-, hw⟩ := Prod.mk.injEq .. |>.mp (Option.some.inj (htask.symm.trans hp))
  cases w with
  | ret a => cases hw; exact ho
  | fail e => cases hw; exact ho
  | op o' k' => cases hw; exact ho

theorem CommitsLast.lockFree :
    ∀ {p : RepoProg L α}, CommitsLast p → Prog.Each (S := writerSig L) WriterOp.LockFree p
  | .ret _, _ => trivial
  | .fail _, _ => trivial
  | .op o _, Or.inl h => ⟨by have hq := h.1; cases o <;> first | exact hq.elim | trivial,
      fun r => (h.2 r).lockFree⟩
  | .op _ _, Or.inr h => ⟨h.1, fun r => (h.2 r).mono WriterOp.Sends.lockFree⟩

/-- The state after a step of task `i`. -/
def stepped (P : RecordPool L ρ α) (i : Nat) (q : ρ) (o : RecordOp L) (r : o.Ret XrpcError)
    (t : RepoStore L) (p : RecordProg L α) : RecordPool L ρ α :=
  ⟨P.toWorld.after i o r t, P.tasks.set i (q, p)⟩

theorem RaceInv.lookup (h : RaceInv view d change m₀ P order m) {key : String}
    {k : Except XrpcError (Option L.Cid) → RecordProg L α}
    (htask : P.tasks[i]? = some (q, .op (.lookupRecordCid d key) k)) (hc : change q = some c)
    (henc : c.Encodable) (hi : i ∉ order) (hlooked : c.looked = some key)
    (hk : ∀ found, Decided d c found (k (.ok found))) :
    ∃ order', RaceInv view d change m₀
      (stepped P i q (.lookupRecordCid d key) (.ok (m key)) P.store (k (.ok (m key)))) order' m := by
  have hcur : c.Current m (m key) := by
    intro key' hkey'
    obtain rfl := Option.some.inj (hlooked.symm.trans hkey')
    rfl
  have hdec := hk (m key)
  rw [Decided] at hdec
  cases hop : c.toOp (m key) with
  | none =>
      -- The request is over, and takes effect here.
      rw [hop] at hdec
      obtain ⟨a, ha⟩ := hdec
      have hsame := RecordChange.onMap_of_toOp_none hcur hop
      refine ⟨order ++ [i], h.move htask hc henc (Or.inr ⟨hi, rfl, hsame.symm⟩) (Or.inl ⟨rfl, rfl⟩)
        (fun j hj => Or.inr ⟨h.not_owner htask trivial hj, hj⟩) h.addressed h.map
        (.ended (by simp) ⟨.ok a, by rw [ha]; rfl, fun _ => rfl⟩)⟩
  | some op =>
      rw [hop] at hdec
      refine ⟨order, h.move htask hc henc (Or.inl ⟨rfl, rfl⟩) (Or.inl ⟨rfl, rfl⟩)
        (fun j hj => Or.inr ⟨h.not_owner htask trivial hj, hj⟩) h.addressed h.map
        (.waiting hi (Or.inr ⟨m key, op, ?_, hop, Or.inl hdec⟩))⟩
      intro key' hkey'
      obtain rfl := Option.some.inj (hlooked.symm.trans hkey')
      simp

theorem RaceInv.loadKey (h : RaceInv view d change m₀ P order m) {op : WriteOp L.Ipld}
    {found : Option L.Cid} {k : Except String L.Key → RecordProg L α} {key : L.Key}
    (htask : P.tasks[i]? = some (q, .op (.loadSigningKey d) k)) (hc : change q = some c)
    (henc : c.Encodable) (hi : i ∉ order) (hlook : Looked d P.log i c found)
    (hop : c.toOp found = some op) (hk : ∀ key, Entering d op (k (.ok key))) :
    RaceInv view d change m₀
      (stepped P i q (.loadSigningKey d) (.ok key) P.store (k (.ok key))) order m :=
  h.move htask hc henc (Or.inl ⟨rfl, rfl⟩) (Or.inl ⟨rfl, rfl⟩)
    (fun _ hj => Or.inr ⟨h.not_owner htask trivial hj, hj⟩) h.addressed h.map
    (.waiting hi (Or.inr ⟨found, op, hlook.mono fun _ he => List.mem_append_left _ he, hop,
      Or.inr (hk key)⟩))

/-- Where the lookup is not out of date, the write comes out as the
request asks. -/
theorem RaceInv.enter (hL : RepoLaws L) (hT : RepoTotal L) (hV : TreeLaws L view)
    (h : RaceInv view d change m₀ P order m) {op : WriteOp L.Ipld} {found : Option L.Cid}
    {w : RepoWriter L} {rnd : WriteDraw}
    {f : Except RepoError (WriteOutcome L.Cid) → RecordProg L α} (hw : w.did = d) (hf : Closes f)
    (htask : P.tasks[i]? = some (q, (liftWriter (applyOne w op rnd)).attempt.bind f))
    (hc : change q = some c) (henc : c.Encodable) (hi : i ∉ order) (hcur : c.Current m found)
    (hop : c.toOp found = some op) (hfree : P.store.locks.contains d = false) :
    RaceInv view d change m₀ (stepped P i q (.writer (.lock d)) ()
      { P.store with locks := P.store.locks.insert d i }
      (inside d (commitOpLocked w op true rnd) f)) order m := by
  subst hw
  obtain ⟨x, t, halone, hpost, haddr⟩ := solo_commitOpLocked
    (s := { P.store with locks := P.store.locks.insert w.did i }) hL hT hV h.addressed h.map op
    true rnd
  obtain ⟨hmap, hcertain⟩ := hpost.changed henc hcur hop
  have hok : c.Certain → x.isOk = true := by
    intro hcert
    have h := hcertain hcert
    cases x with
    | error e => cases h
    | ok a => rfl
  have hnone : P.store.locks.get w.did = none := by
    simpa [Table.contains] using hfree
  have hlast := commitsLast_commitOpLocked w op true rnd
  have hself : (P.store.locks.insert w.did i).get w.did = some i := Table.get_insert_self ..
  refine h.move (r := ()) htask hc henc (Or.inl ⟨rfl, rfl⟩) (Or.inr fun j _ hj => ?_)
    (fun j hj => ?_) h.addressed h.map (.holds (commitOpLocked w op true rnd) f x t hf
      ⟨hself, halone, haddr, hok, Or.inl ⟨hi, hlast, hmap⟩⟩ rfl)
  · rw [hnone] at hj
    cases hj
  · exact Or.inl ⟨Option.some.inj (hj.symm.trans hself), _, f, rfl, hlast.lockFree⟩

/-- Giving the lock back ends the request. -/
theorem RaceInv.leave (h : RaceInv view d change m₀ P order m)
    {w : RepoProg L (WriteOutcome L.Cid × CommitBody L.Cid L.Car)}
    {x : Except RepoError (WriteOutcome L.Cid × CommitBody L.Cid L.Car)}
    {k : Unit → RecordProg L α} (htask : P.tasks[i]? = some (q, .op (.writer (.unlock d)) k))
    (hc : change q = some c) (henc : c.Encodable)
    (hholds : Holds view d P.store m i (i ∈ order) c w x P.store)
    (hend : Ended c (k ())) :
    ∃ order' m', RaceInv view d change m₀ (stepped P i q (.writer (.unlock d)) ()
      { P.store with locks := P.store.locks.remove d } (k ())) order' m' := by
  have hothers : ∀ j, j ≠ i → P.store.locks.get d ≠ some j := by
    intro j hj hlock
    exact hj (Option.some.inj (hlock.symm.trans hholds.lock))
  have howned : ∀ j, (P.store.locks.remove d).get d = some j →
      (j = i ∧ Owns d (k ())) ∨ (j ≠ i ∧ P.store.locks.get d = some j) := by
    intro j hj
    rw [Table.get_remove_self] at hj
    cases hj
  rcases hholds.phase with ⟨hi, -, hmap⟩ | ⟨hi, -⟩
  · exact ⟨order ++ [i], c.onMap m, h.move (r := ()) htask hc henc (Or.inr ⟨hi, rfl, rfl⟩)
      (Or.inr hothers) howned h.addressed hmap (.ended (by simp) hend)⟩
  · exact ⟨order, m, h.move (r := ()) htask hc henc (Or.inl ⟨rfl, rfl⟩) (Or.inr hothers)
      howned h.addressed h.map (.ended hi hend)⟩

/-- A step under the lock: blocks are added, or the request takes effect
with its commit, or it is broadcast. -/
theorem RaceInv.hold (hV : TreeLaws L view) (h : RaceInv view d change m₀ P order m)
    {o : WriterOp L} {k : o.Ret → RepoProg L (WriteOutcome L.Cid × CommitBody L.Cid L.Car)}
    {x : Except RepoError (WriteOutcome L.Cid × CommitBody L.Cid L.Car)}
    {f : Except RepoError (WriteOutcome L.Cid) → RecordProg L α} (hf : Closes f)
    (htask : P.tasks[i]? = some (q, inside d (.op o k) f)) (hc : change q = some c)
    (henc : c.Encodable) (hholds : Holds view d P.store m i (i ∈ order) c (.op o k) x t)
    {r : o.Ret} {u : RepoStore L} (hexec : o.exec i P.store .done = some (r, u)) :
    ∃ order' m', RaceInv view d change m₀
      (stepped P i q (.writer o) r u (inside d (k r) f)) order' m' := by
  have hothers : ∀ j, j ≠ i → P.store.locks.get d ≠ some j := by
    intro j hj hlock
    exact hj (Option.some.inj (hlock.symm.trans hholds.lock))
  have hfree : o.LockFree := by
    rcases hholds.phase with ⟨-, hlast, -⟩ | ⟨-, hsends⟩
    · rcases hlast with ⟨hq, -⟩ | ⟨hl, -⟩
      · cases o <;> first | exact hq.elim | trivial
      · exact hl
    · have hs := hsends.1
      cases o <;> first | exact hs.elim | trivial
  have hsolo : soloExec P.store o = some (r, u) := (hfree.exec_eq i P.store).symm.trans hexec
  have halone : (k r).alone soloExec u = some (x, t) :=
    (Prog.alone_op hsolo).symm.trans hholds.alone
  have hlock : u.locks.get d = some i := by
    rw [hfree.locks (c := .done) hsolo]
    exact hholds.lock
  have howned : Prog.Each (S := writerSig L) WriterOp.LockFree (k r) → ∀ j,
      u.locks.get d = some j →
      (j = i ∧ Owns d (inside d (k r) f)) ∨ (j ≠ i ∧ P.store.locks.get d = some j) :=
    fun hk j hj => Or.inl ⟨Option.some.inj (hj.symm.trans hlock), k r, f, rfl, hk⟩
  rcases hholds.phase with ⟨hi, hlast, hmap⟩ | ⟨hi, hsends⟩
  · rcases hlast with ⟨hquiet, hlast⟩ | ⟨-, hsends⟩
    · have hgrown := hquiet.grown h.addressed hexec
      exact ⟨order, m, h.move (r := r) htask hc henc (Or.inl ⟨rfl, rfl⟩) (Or.inr hothers)
        (howned (hlast r).lockFree) hgrown.addressed (hgrown.mapOf hV h.map) (.holds (k r) f x t hf
          ⟨hlock, halone, hholds.addressed, hholds.certain, Or.inl ⟨hi, hlast r, hmap⟩⟩ rfl)⟩
    · obtain ⟨hroots, hblocks⟩ := sends_alone (hsends r) halone
      refine ⟨order ++ [i], c.onMap m, h.move (r := r) htask hc henc (Or.inr ⟨hi, rfl, rfl⟩)
        (Or.inr hothers) (howned ((hsends r).mono WriterOp.Sends.lockFree))
        (hblocks ▸ hholds.addressed) ?_ (.holds (k r) f x t hf
          ⟨hlock, halone, hholds.addressed, hholds.certain, Or.inr ⟨by simp, hsends r⟩⟩ rfl)⟩
      exact (mapOf_congr hroots hblocks d).symm.trans hmap
  · have hsame : u.roots = P.store.roots ∧ u.blocks = P.store.blocks := by
      have hs := hsends.1
      cases o with
      | send e =>
          obtain ⟨-, rfl⟩ := Prod.mk.injEq .. |>.mp (Option.some.inj hexec)
          exact ⟨rfl, rfl⟩
      | _ => exact hs.elim
    exact ⟨order, m, h.move (r := r) htask hc henc (Or.inl ⟨rfl, rfl⟩) (Or.inr hothers)
      (howned ((hsends.2 r).mono WriterOp.Sends.lockFree)) (hsame.2 ▸ h.addressed)
      ((mapOf_congr hsame.1 hsame.2 d).trans h.map)
      (.holds (k r) f x t hf ⟨hlock, halone, hholds.addressed, hholds.certain,
        Or.inr ⟨hi, hsends.2 r⟩⟩ rfl)⟩

/-- The record handlers of one server, for requests that are valid: what
`change` reads off them is what they do. -/
structure RecordServer (view : TreeView L) (env : RecordEnv L XrpcError) (d : String)
    (handler : ρ → RecordProg L α) (change : ρ → Option (RecordChange L)) : Prop where
  lookup : ∀ s m key, mapOf view s d = some m → env.lookup s d key = .ok (m key)
  key : ∃ key, env.key d = .ok key
  encodable : ∀ q c, change q = some c → c.Encodable
  starts : ∀ q c, change q = some c → Starts d c (handler q)

/-- A request that is begun asks for a change, so it is not refused for what it says. -/
def ValidStart (change : ρ → Option (RecordChange L)) : PoolAct ρ Unit → Prop
  | .start q => (change q).isSome = true
  | .step _ _ => True

variable {env : RecordEnv L XrpcError} {handler : ρ → RecordProg L α} {P' : RecordPool L ρ α}

theorem RaceInv.start (hS : RecordServer view env d handler change)
    (h : RaceInv view d change m₀ P order m) (hc : change q = some c) :
    RaceInv view d change m₀ ⟨P.toWorld, P.tasks ++ [(q, handler q)]⟩ order m := by
  refine ⟨h.addressed, h.map, h.nodup, ?_, ?_, ?_, ?_⟩
  · intro j hj
    have := h.started j hj
    simp only [List.length_append, List.length_singleton]
    omega
  · rw [List.map_append, List.map_singleton]
    refine h.played.trans (play_started (fun j hj => ?_) q).symm
    rw [List.length_map]
    exact h.started j hj
  · intro j hj
    obtain ⟨q', p', hp, hown⟩ := h.owned j hj
    exact ⟨q', p', List.getElem?_append_left (List.getElem?_eq_some_iff.mp hp).1 ▸ hp, hown⟩
  · intro j q' p' hj
    rcases Pool.getElem?_append_cases hj with ⟨rfl, heq⟩ | hj
    · obtain ⟨rfl, rfl⟩ := Prod.mk.injEq .. |>.mp heq
      refine ⟨c, hc, hS.encodable _ _ hc, .waiting ?_ (Or.inl (hS.starts _ _ hc))⟩
      exact fun hmem => Nat.lt_irrefl _ (h.started _ hmem)
    · exact h.tasks j q' p' hj

/-- A step of a task that waits. -/
theorem RaceInv.wait (hL : RepoLaws L) (hT : RepoTotal L) (hV : TreeLaws L view)
    (hS : RecordServer view env d handler change) (h : RaceInv view d change m₀ P order m)
    {o : RecordOp L} {k : o.Ret XrpcError → RecordProg L α}
    (htask : P.tasks[i]? = some (q, .op o k)) (hc : change q = some c) (henc : c.Encodable)
    (hi : i ∉ order) (hwait : Waiting d P.log i c (.op o k))
    (htimely : TimelyStep view d P (.step i ())) {r : o.Ret XrpcError} {t : RepoStore L}
    (hexec : RecordOp.exec env i P.store o .done = some (r, t)) :
    ∃ order' m', RaceInv view d change m₀ (stepped P i q o r t (k r)) order' m' := by
  -- The signing key is loaded once it is known what to write.
  have hload : ∀ found op, Looked d P.log i c found → c.toOp found = some op →
      Keyed d op (.op o k) →
      ∃ order' m', RaceInv view d change m₀ (stepped P i q o r t (k r)) order' m' := by
    rintro found op hlook hop ⟨k', hp, hk⟩
    cases hp
    obtain ⟨key, hkey⟩ := hS.key
    obtain ⟨rfl, rfl⟩ := Prod.mk.injEq .. |>.mp (Option.some.inj hexec)
    rw [hkey]
    exact ⟨order, m, h.loadKey htask hc henc hi hlook hop hk⟩
  rcases hwait with hstarts | ⟨found, op, hlook, hop, hkeyed | ⟨w, rnd, f, hw, hf, hp⟩⟩
  · rw [Starts] at hstarts
    cases hlooked : c.looked with
    | none =>
        rw [hlooked, Decided] at hstarts
        cases hop : c.toOp none with
        | none =>
            rw [hop] at hstarts
            obtain ⟨a, ha⟩ := hstarts
            cases ha
        | some op =>
            rw [hop] at hstarts
            refine hload none op (fun key hkey => ?_) hop hstarts
            cases hlooked.symm.trans hkey
    | some key =>
        rw [hlooked] at hstarts
        obtain ⟨k', hp, hk⟩ := hstarts
        cases hp
        obtain ⟨rfl, rfl⟩ := Prod.mk.injEq .. |>.mp (Option.some.inj hexec)
        rw [hS.lookup _ _ key h.map]
        obtain ⟨order', h'⟩ := h.lookup htask hc henc hi hlooked hk
        exact ⟨order', m, h'⟩
  · exact hload found op hlook hop hkeyed
  · rw [entering_eq, hw] at hp
    cases hp
    have hcur : c.Current m found := fun key hkey =>
      htimely q _ htask key found m h.map (hlook key hkey)
    cases hfree : P.store.locks.contains d with
    | true => simp [RecordOp.exec, WriterOp.exec, hfree] at hexec
    | false =>
        obtain ⟨-, rfl⟩ : () = r ∧ { P.store with locks := P.store.locks.insert d i } = t := by
          simpa [RecordOp.exec, WriterOp.exec, hfree] using hexec
        refine ⟨order, m, h.enter hL hT hV hw hf ?_ hc henc hi hcur hop hfree⟩
        rw [entering_eq, hw]
        exact htask

theorem raceInv_next (hL : RepoLaws L) (hT : RepoTotal L) (hV : TreeLaws L view)
    (hS : RecordServer view env d handler change) {a : PoolAct ρ Unit}
    (h : ∃ order m, RaceInv view d change m₀ P order m)
    (ha : ValidStart change a ∧ TimelyStep view d P a)
    (hnext : Pool.next (quietMachine env) handler P a = some P') :
    ∃ order m, RaceInv view d change m₀ P' order m := by
  obtain ⟨order, m, h⟩ := h
  rcases Pool.next_cases hnext with ⟨q, rfl, rfl⟩ | ⟨i, u, q, o, k, r, t, rfl, htask, hexec, rfl⟩
  · obtain ⟨c, hc⟩ := Option.isSome_iff_exists.mp ha.1
    exact ⟨order, m, h.start hS hc⟩
  · obtain ⟨c, hc, henc, hat⟩ := h.tasks i q _ htask
    cases hat with
    | waiting hi hwait => exact h.wait hL hT hV hS htask hc henc hi hwait ha.2 hexec
    | ended hi hend =>
        obtain ⟨x, hx, -⟩ := hend
        cases hx
    | holds w f x t' hf hholds hp =>
        cases w with
        | ret b =>
            obtain ⟨rfl, rfl⟩ := Prod.mk.injEq .. |>.mp (Option.some.inj hholds.alone)
            rw [inside_ret] at hp
            cases hp
            obtain ⟨y, hy⟩ := hf.ok b.1
            obtain ⟨rfl, rfl⟩ := Prod.mk.injEq .. |>.mp (Option.some.inj hexec)
            exact h.leave htask hc henc hholds ⟨.ok y, by rw [hy]; rfl, fun _ => rfl⟩
        | fail e =>
            obtain ⟨rfl, rfl⟩ := Prod.mk.injEq .. |>.mp (Option.some.inj hholds.alone)
            rw [inside_fail] at hp
            cases hp
            obtain ⟨y, hy⟩ := hf.error e
            obtain ⟨rfl, rfl⟩ := Prod.mk.injEq .. |>.mp (Option.some.inj hexec)
            refine h.leave htask hc henc hholds ⟨.error y, by rw [hy]; rfl, fun hcert => ?_⟩
            cases hholds.certain hcert
        | op o' k' =>
            rw [inside_op] at hp
            cases hp
            exact h.hold hV hf htask hc henc hholds hexec

end

end Stelyph
