import Stelyph.RecordRaces

/-!
# Record requests in some order

What the invariant of the races says of whole runs. When every request
has been answered, the record map is the one the same requests leave when
they are served one after the other, in the order in which they took
effect. The two servers' handlers have the shape the invariant is about.

Without the condition on the lookups this is false: two puts of one
record that is not there, each looked up before the other has the lock,
and the second is refused.
-/

namespace Stelyph

section

variable {L : RepoLib} {ρ α β : Type} {view : TreeView L} {s t : RepoStore L} {d : String}
  {env : RecordEnv L XrpcError} {handler : ρ → RecordProg L α}
  {change : ρ → Option (RecordChange L)} {m₀ m : RecordMap L} {order : List Nat}
  {log : RecordLog L} {c : RecordChange L} {i : Nat} {P : RecordPool L ρ α} {q : ρ}
  {p : RecordProg L α}

/-! ## One after the other -/

/-- A request that is served alone. -/
def serveAlone (env : RecordEnv L XrpcError) (handler : ρ → RecordProg L α) (s : RepoStore L)
    (q : ρ) : Option (RepoStore L) :=
  ((handler q).alone (S := recordSig L XrpcError) (quietExec env) s).map Prod.snd

/-- A repository between two writes: its map can be read, and nobody has the lock. -/
structure Idle (view : TreeView L) (d : String) (s : RepoStore L) (m : RecordMap L) : Prop where
  addressed : WellAddressed s.blocks
  map : mapOf view s d = some m
  free : s.locks.contains d = false

/-- Once it is known what to write. -/
theorem Keyed.served (hL : RepoLaws L) (hT : RepoTotal L) (hV : TreeLaws L view)
    (h : Idle view d s m) {key : L.Key} (hkey : env.key d = .ok key) {op : WriteOp L.Ipld}
    {found : Option L.Cid} (hc : c.Encodable) (hcur : c.Current m found)
    (hop : c.toOp found = some op) (hp : Keyed d op p) :
    ∃ x t, p.alone (S := recordSig L XrpcError) (quietExec env) s = some (x, t)
      ∧ Idle view d t (c.onMap m) := by
  obtain ⟨k, rfl, hk⟩ := hp
  obtain ⟨w, rnd, f, rfl, hf, hp⟩ := hk key
  obtain ⟨x, t, halone, hpost, haddr, hfree⟩ :=
    solo_commitOp hL hT hV h.addressed h.free h.map op true rnd
  have hidle : Idle view w.did t (c.onMap m) := ⟨haddr, (hpost.changed hc hcur hop).1, hfree⟩
  have hload : quietExec env s (.loadSigningKey w.did) = some (.ok key, s) :=
    congrArg (fun r => some (r, s)) hkey
  have happly : (applyOne w op rnd).alone (S := writerSig L) soloExec s
      = some (x.map Prod.fst, t) := by
    cases x with
    | ok a => exact Prog.alone_bind_ok halone
    | error e => exact Prog.alone_bind_error halone
  rw [Prog.alone_op hload, hp, alone_liftWriter happly]
  cases x with
  | ok a =>
      obtain ⟨b, hb⟩ := hf.ok a.1
      exact ⟨.ok b, t, congrArg (Prog.alone (quietExec env) · t) hb, hidle⟩
  | error e =>
      obtain ⟨b, hb⟩ := hf.error e
      exact ⟨.error b, t, congrArg (Prog.alone (quietExec env) · t) hb, hidle⟩

theorem serveAlone_eq (hL : RepoLaws L) (hT : RepoTotal L) (hV : TreeLaws L view)
    (hS : RecordServer view env d handler change) (h : Idle view d s m) (hc : change q = some c) :
    ∃ t, serveAlone env handler s q = some t ∧ Idle view d t (c.onMap m) := by
  obtain ⟨key, hkey⟩ := hS.key
  have henc := hS.encodable _ _ hc
  have hstarts := hS.starts _ _ hc
  suffices hserve : ∃ x t, (handler q).alone (S := recordSig L XrpcError) (quietExec env) s
      = some (x, t) ∧ Idle view d t (c.onMap m) by
    obtain ⟨x, t, halone, hidle⟩ := hserve
    exact ⟨t, by rw [serveAlone, halone]; rfl, hidle⟩
  rw [Starts] at hstarts
  cases hlooked : c.looked with
  | none =>
      rw [hlooked, Decided] at hstarts
      have hcur : c.Current m none := fun key hkey => by cases hlooked.symm.trans hkey
      cases hop : c.toOp none with
      | none =>
          rw [hop] at hstarts
          obtain ⟨a, ha⟩ := hstarts
          rw [ha, RecordChange.onMap_of_toOp_none hcur hop]
          exact ⟨.ok a, s, rfl, h⟩
      | some op =>
          rw [hop] at hstarts
          exact hstarts.served hL hT hV h hkey henc hcur hop
  | some rkey =>
      rw [hlooked] at hstarts
      obtain ⟨k, hp, hk⟩ := hstarts
      have hlook : quietExec env s (.lookupRecordCid d rkey) = some (.ok (m rkey), s) :=
        congrArg (fun r => some (r, s)) (hS.lookup s m rkey h.map)
      have hcur : c.Current m (m rkey) := by
        intro key' hkey'
        obtain rfl := Option.some.inj (hlooked.symm.trans hkey')
        rfl
      have hdec := hk (m rkey)
      rw [Decided] at hdec
      rw [hp, Prog.alone_op hlook]
      cases hop : c.toOp (m rkey) with
      | none =>
          rw [hop] at hdec
          obtain ⟨a, ha⟩ := hdec
          rw [ha, RecordChange.onMap_of_toOp_none hcur hop]
          exact ⟨.ok a, s, rfl, h⟩
      | some op =>
          rw [hop] at hdec
          exact hdec.served hL hT hV h hkey henc hcur hop

theorem serve_play (hL : RepoLaws L) (hT : RepoTotal L) (hV : TreeLaws L view)
    (hS : RecordServer view env d handler change) {reqs : List ρ} :
    ∀ {order : List Nat} {s : RepoStore L} {m : RecordMap L}, Idle view d s m →
      (∀ i ∈ order, ∃ q c, reqs[i]? = some q ∧ change q = some c) →
      ∃ t, Steps.run (serveAlone env handler) s (order.filterMap fun i => reqs[i]?) = some t
        ∧ Idle view d t (play change reqs m order)
  | [], s, m, h, _ => ⟨s, rfl, h⟩
  | i :: order, s, m, h, horder => by
      obtain ⟨q, c, hq, hc⟩ := horder i List.mem_cons_self
      obtain ⟨u, hu, hidle⟩ := serveAlone_eq hL hT hV hS h hc
      obtain ⟨t, hrun, hend⟩ := serve_play hL hT hV hS hidle fun j hj =>
        horder j (List.mem_cons_of_mem i hj)
      refine ⟨t, ?_, ?_⟩
      · rw [List.filterMap_cons_some hq]
        exact Steps.run_cons_eq_some.mpr ⟨u, hu, hrun⟩
      · have hplay : play change reqs m (i :: order) = play change reqs (c.onMap m) order := by
          simp [play, hq, hc]
        rw [hplay]
        exact hend

theorem filterMap_range (reqs : List ρ) :
    (List.range reqs.length).filterMap (fun i => reqs[i]?) = reqs := by
  induction reqs using List.reverseRecOn with
  | nil => rfl
  | append_singleton reqs q ih =>
      rw [List.length_append, List.length_singleton, List.range_succ, List.filterMap_append]
      have hfront : (List.range reqs.length).filterMap (fun i => (reqs ++ [q])[i]?) = reqs := by
        refine (List.filterMap_congr fun i hi => ?_).trans ih
        exact List.getElem?_append_left (List.mem_range.mp hi)
      rw [hfront]
      simp

/-! ## In every run -/

/-- Every put and delete that has been answered was answered with
success, no one waits for ever, and when all are answered the record map
is that of some sequential order. -/
structure Linearized (view : TreeView L) (env : RecordEnv L XrpcError) (d : String)
    (handler : ρ → RecordProg L α) (certain : ρ → Prop) (s₀ : RepoStore L)
    (P : RecordPool L ρ α) : Prop where
  succeeds : ∀ (i : Nat) (q : ρ) (p : RecordProg L α) (e : XrpcError),
    P.tasks[i]? = some (q, p) → certain q → p.outcome ≠ some (.error e)
  goesOn : ∀ (i : Nat) (q : ρ) (p : RecordProg L α), P.tasks[i]? = some (q, p) →
    p.outcome = none → ∃ j P', Pool.next (quietMachine env) handler P (.step j ()) = some P'
  sequential : (∀ (i : Nat) (q : ρ) (p : RecordProg L α), P.tasks[i]? = some (q, p) →
      p.outcome ≠ none) →
    ∃ reqs t, reqs.Perm (P.tasks.map Prod.fst)
      ∧ Steps.run (serveAlone env handler) s₀ reqs = some t
      ∧ mapOf view P.store d = mapOf view t d

theorem next_of_exec {o : RecordOp L} {k : o.Ret XrpcError → RecordProg L α}
    (htask : P.tasks[i]? = some (q, .op o k))
    (hexec : ∃ r t, RecordOp.exec env i P.store o .done = some (r, t)) :
    ∃ j P', Pool.next (quietMachine env) handler P (.step j ()) = some P' := by
  obtain ⟨r, t, hexec⟩ := hexec
  refine ⟨i, ⟨P.toWorld.after i o r t, P.tasks.set i (q, k r)⟩, ?_⟩
  simp only [Pool.next, htask]
  exact Option.map_eq_some_iff.mpr ⟨(r, t), hexec, rfl⟩

theorem WriterOp.LockFree.enabled {o : WriterOp L} (ho : o.LockFree) (i : Nat) (s : RepoStore L) :
    ∃ r t, o.exec i s .done = some (r, t) := by
  cases o with
  | lock | unlock => exact ho.elim
  | loadRepoRoot | writeBlock | commitBlocks | send => exact ⟨_, _, rfl⟩
  | readBlock cid =>
      simp only [WriterOp.exec]
      split <;> exact ⟨_, _, rfl⟩
  | tree root op =>
      simp only [WriterOp.exec]
      split <;> exact ⟨_, _, rfl⟩

variable (env) in
/-- A task that waits has something to do, and can do it when the lock is
free. -/
theorem Waiting.ready (h : Waiting d log i c p) : ∃ o k, p = .op o k ∧ ∀ s : RepoStore L,
    s.locks.get d = none → ∃ r t, RecordOp.exec env i s o .done = some (r, t) := by
  have hkeyed : ∀ op, Keyed d op p → ∃ o k, p = .op o k ∧ ∀ s : RepoStore L,
      s.locks.get d = none → ∃ r t, RecordOp.exec env i s o .done = some (r, t) := by
    rintro op ⟨k, rfl, -⟩
    exact ⟨.loadSigningKey d, k, rfl, fun s _ => ⟨env.key d, s, rfl⟩⟩
  rcases h with hstarts | ⟨found, op, -, -, hk | ⟨w, rnd, f, rfl, -, rfl⟩⟩
  · cases c with
    | create key record => exact hkeyed _ hstarts
    | put key record | delete key =>
        obtain ⟨k, rfl, -⟩ := hstarts
        exact ⟨.lookupRecordCid d key, k, rfl, fun s _ => ⟨env.lookup s d key, s, rfl⟩⟩
  · exact hkeyed op hk
  · refine ⟨.writer (.lock w.did), _, entering_eq w op rnd f, fun s hs => ?_⟩
    refine ⟨(), { s with locks := s.locks.insert w.did i }, ?_⟩
    simp [RecordOp.exec, WriterOp.exec, Table.contains, hs]

/-- The owner of the lock can go on. Where there is none, everybody can. -/
theorem RaceInv.goesOn (h : RaceInv view d change m₀ P order m)
    (htask : P.tasks[i]? = some (q, p)) (hp : p.outcome = none) :
    ∃ j P', Pool.next (quietMachine env) handler P (.step j ()) = some P' := by
  cases hlock : P.store.locks.get d with
  | some j =>
      obtain ⟨q', p', hj, w, f, rfl, hfree⟩ := h.owned j hlock
      cases w with
      | ret a => exact next_of_exec hj ⟨(), _, rfl⟩
      | fail e => exact next_of_exec hj ⟨(), _, rfl⟩
      | op o k => exact next_of_exec hj (hfree.1.enabled j P.store)
  | none =>
      obtain ⟨c, -, -, hat⟩ := h.tasks i q p htask
      cases hat with
      | ended hi hend =>
          obtain ⟨x, hx, -⟩ := hend
          cases hp.symm.trans hx
      | holds w f x t hf hholds hw => cases hlock.symm.trans hholds.lock
      | waiting hi hwait =>
          obtain ⟨o, k, rfl, hexec⟩ := hwait.ready env
          exact next_of_exec htask (hexec P.store hlock)

/-- A task that has been answered has taken effect. -/
theorem TaskAt.of_outcome (env : RecordEnv L XrpcError) {x : Except XrpcError α}
    (h : TaskAt view d log s m order i c p) (hp : p.outcome = some x) : i ∈ order ∧ (c.Certain → x.isOk = true) := by
  cases h with
  | waiting hi hwait =>
      obtain ⟨o, k, rfl, -⟩ := hwait.ready env
      cases hp
  | holds w f x t hf hholds hw =>
      subst hw
      cases w <;> cases hp
  | ended hi hend =>
      obtain ⟨y, hy, hok⟩ := hend
      obtain rfl := Option.some.inj (hp.symm.trans hy)
      exact ⟨hi, hok⟩

theorem RaceInv.linearized (hL : RepoLaws L) (hT : RepoTotal L) (hV : TreeLaws L view)
    (hS : RecordServer view env d handler change) {certain : ρ → Prop}
    (hcertain : ∀ q c, change q = some c → certain q → c.Certain) {s₀ : RepoStore L}
    (hs₀ : Idle view d s₀ m₀) (h : RaceInv view d change m₀ P order m) :
    Linearized view env d handler certain s₀ P := by
  refine ⟨?_, fun i q p htask hp => h.goesOn htask hp, ?_⟩
  · intro i q p e htask hq hp
    obtain ⟨c, hc, -, hat⟩ := h.tasks i q p htask
    cases (hat.of_outcome env hp).2 (hcertain q c hc hq)
  · intro hall
    have hmem : ∀ i < P.tasks.length, i ∈ order := by
      intro i hi
      have htask := List.getElem?_eq_getElem hi
      obtain ⟨c, -, -, hat⟩ := h.tasks i _ _ htask
      obtain ⟨x, hx⟩ := Option.ne_none_iff_exists'.mp (hall i _ _ htask)
      exact (hat.of_outcome env hx).1
    have hperm : order.Perm (List.range (P.tasks.map Prod.fst).length) := by
      refine (List.perm_ext_iff_of_nodup h.nodup List.nodup_range).mpr fun i => ?_
      rw [List.mem_range, List.length_map]
      exact ⟨h.started i, hmem i⟩
    have hreqs : ∀ i ∈ order, ∃ q c, (P.tasks.map Prod.fst)[i]? = some q ∧ change q = some c := by
      intro i hi
      have htask := List.getElem?_eq_getElem (h.started i hi)
      obtain ⟨c, hc, -, -⟩ := h.tasks i _ _ htask
      exact ⟨_, c, by rw [List.getElem?_map, htask]; rfl, hc⟩
    obtain ⟨t, hrun, hidle⟩ := serve_play hL hT hV hS hs₀ hreqs
    refine ⟨_, t, (hperm.filterMap _).trans (List.Perm.of_eq (filterMap_range _)), hrun, ?_⟩
    rw [h.map, hidle.map, h.played]

theorem raceInv_init (hs : Idle view d s m₀) :
    RaceInv view d change m₀ (Pool.init s : RecordPool L ρ α) [] m₀ where
  addressed := hs.addressed
  map := hs.map
  nodup := List.nodup_nil
  started _ h := by cases h
  played := rfl
  owned i hi := by
    have hfree := hs.free
    rw [Table.contains, show s.locks.get d = some i from hi] at hfree
    cases hfree
  tasks i q p h := by cases h

theorem linearized_run (hL : RepoLaws L) (hT : RepoTotal L) (hV : TreeLaws L view)
    (hS : RecordServer view env d handler change) {certain : ρ → Prop}
    (hcertain : ∀ q c, change q = some c → certain q → c.Certain) {s₀ : RepoStore L}
    (hs₀ : Idle view d s₀ m₀) {acts : List (PoolAct ρ Unit)}
    (hrun : Steps.run (Pool.next (quietMachine env) handler) (Pool.init s₀) acts = some P)
    (hacts : Steps.Along (Pool.next (quietMachine env) handler)
      (fun P a => ValidStart change a ∧ TimelyStep view d P a) (Pool.init s₀) acts) :
    Linearized view env d handler certain s₀ P := by
  obtain ⟨order, m, h⟩ := Steps.run_inv_along
    (I := fun P : RecordPool L ρ α => ∃ order m, RaceInv view d change m₀ P order m)
    (fun _ _ _ h ha hnext => raceInv_next hL hT hV hS h ha hnext) ⟨[], m₀, raceInv_init hs₀⟩ hacts
    hrun
  exact h.linearized hL hT hV hS hcertain hs₀

end

/-! ## The two servers -/

section

variable {L : RepoLib} {α : Type} {view : TreeView L} {s : RepoStore L} {d : String}
  {c : RecordChange L}

section

variable {draws : Nat → WriteDraw} {parse : Except String Unit} (bad : String → XrpcError)
  (err : RepoError → XrpcError) (answer : WriteOutcome L.Cid → α) {key : String}
  {record : L.Ipld}

/-- A handler that has only its write left. -/
theorem keyed_onWriter {op : WriteOp L.Ipld} (hparse : parse = .ok ()) :
    Keyed d op (expand draws 0 (onWriter d parse bad fun writer =>
      oneThen writer err (.ok op) fun o => .ret (answer o))) := by
  subst hparse
  exact ⟨_, rfl, fun key => ⟨⟨d, key⟩, draws 0, fun r =>
    expand draws 1 ((Prog.ofExcept err r).bind fun o => .ret (answer o)), rfl,
    ⟨fun o => ⟨answer o, rfl⟩, fun e => ⟨err e, rfl⟩⟩, rfl⟩⟩

theorem starts_create {h : XrpcProg L α} (hparse : parse = .ok ())
    (heq : h = onWriter d parse bad fun writer =>
      oneThen writer err (.ok (.create key record)) fun o => .ret (answer o)) :
    Starts d (.create key record) (expand draws 0 h) := by
  subst heq
  exact keyed_onWriter bad err answer hparse

theorem starts_put {h : XrpcProg L α} (hparse : parse = .ok ())
    (heq : h = .op (.lookupRecordCid d key) fun r => (Prog.ofExcept id r).bind fun found =>
      onWriter d parse bad fun writer => oneThen writer err
        (.ok (if found.isSome then .update key record else .create key record))
        fun o => .ret (answer o)) :
    Starts d (.put key record) (expand draws 0 h) := by
  subst heq
  exact ⟨_, rfl, fun found => keyed_onWriter bad err answer hparse⟩

theorem starts_delete {h : XrpcProg L α} (absent : α) (hparse : parse = .ok ())
    (heq : h = .op (.lookupRecordCid d key) fun r => (Prog.ofExcept id r).bind fun found =>
      if found.isNone then .ret absent
      else onWriter d parse bad fun writer =>
        oneThen writer err (.ok (.delete key)) fun o => .ret (answer o)) :
    Starts d (.delete key : RecordChange L) (expand draws 0 h) := by
  subst heq
  refine ⟨_, rfl, fun found => ?_⟩
  cases found with
  | none => exact ⟨absent, rfl⟩
  | some cid => exact keyed_onWriter bad err answer hparse

end

/-- A record that can be stored. -/
def encodableRecord (cfg : XrpcConfig L) (value : Json) : Option L.Ipld :=
  (cfg.jsonValueToIpld value).toOption.filter fun record => (recordCid (L := L) record).isSome

theorem encodableRecord_eq_some {cfg : XrpcConfig L} {value : Json} {record : L.Ipld}
    (h : encodableRecord cfg value = some record) :
    cfg.jsonValueToIpld value = .ok record ∧ (recordCid (L := L) record).isSome = true := by
  obtain ⟨hok, henc⟩ := Option.filter_eq_some_iff.mp h
  refine ⟨?_, henc⟩
  cases hj : cfg.jsonValueToIpld value with
  | error e => rw [hj] at hok; cases hok
  | ok record' => rw [hj] at hok; exact congrArg _ (Option.some.inj hok)

/-- A write by an account to its own repository. -/
inductive RecordCall where
  | create (input : CreateRecordInput) (micros : Nat)
  | put (input : PutRecordInput)
  | delete (input : DeleteRecordInput)

/-- A put or a delete, which goes through whatever the repository holds. A
create may be refused. -/
def RecordCall.certain : RecordCall → Bool
  | .create _ _ => false
  | _ => true

/-- A request, with what its commit reads from the clock. The account is
the same for all. -/
structure RecordRequest where
  call : RecordCall
  draw : WriteDraw

/-- The endpoint with the writer's own steps in place of the call of it. -/
def RecordRequest.handler (cfg : XrpcConfig L) (did : String) (q : RecordRequest) :
    RecordProg L XrpcResponse :=
  expand (fun _ => q.draw) 0 (match q.call with
    | .create input micros => createRecord cfg did input micros
    | .put input => putRecord cfg did input
    | .delete input => deleteRecord cfg did input)

/-- What a request that passes validation asks for, as a change of the map
from keys to records. -/
def RecordCall.change (cfg : XrpcConfig L) (did : String) : RecordCall → Option (RecordChange L)
  | .create input micros =>
      if input.repo == did && (validateCollection input.collection).isOk
          && input.rkey.all fun rkey => (validateRkey rkey).isOk then
        (encodableRecord cfg input.record).map
          (.create s!"{input.collection}/{input.rkey.getD (tidFromMicros micros)}")
      else none
  | .put input =>
      if input.repo == did && (validateCollection input.collection).isOk
          && (validateRkey input.rkey).isOk then
        (encodableRecord cfg input.record).map (.put s!"{input.collection}/{input.rkey}")
      else none
  | .delete input =>
      if input.repo == did && (validateCollection input.collection).isOk
          && (validateRkey input.rkey).isOk then some (.delete s!"{input.collection}/{input.rkey}")
      else none

theorem eq_ok_of_isOk {x : Except String Unit} (h : x.isOk = true) : x = .ok () := by
  cases x with
  | error e => cases h
  | ok u => rfl

theorem validRkey_ok {rkey : Option String}
    (h : rkey.all (fun rkey => (validateRkey rkey).isOk) = true) :
    (validRkey rkey : XrpcProg L Unit) = .ret () := by
  cases rkey with
  | none => rfl
  | some rkey => simp [validRkey, eq_ok_of_isOk (by simpa using h : (validateRkey rkey).isOk = true)]

theorem RecordCall.certain_change {cfg : XrpcConfig L} {call : RecordCall}
    (hc : call.change cfg d = some c) (h : call.certain = true) : c.Certain := by
  cases call with
  | create => cases h
  | put input =>
      simp only [RecordCall.change] at hc
      split at hc
      · obtain ⟨record, -, rfl⟩ := Option.map_eq_some_iff.mp hc
        trivial
      · cases hc
  | delete input =>
      simp only [RecordCall.change] at hc
      split at hc
      · obtain rfl := Option.some.inj hc
        trivial
      · cases hc

theorem starts_handler {cfg : XrpcConfig L} (hdid : cfg.parseDid d = .ok ()) {q : RecordRequest}
    (hc : q.call.change cfg d = some c) : c.Encodable ∧ Starts d c (q.handler cfg d) := by
  obtain ⟨call, draw⟩ := q
  cases call with
  | create input micros =>
      simp only [RecordCall.change] at hc
      split at hc
      · rename_i hvalid
        obtain ⟨record, hrec, rfl⟩ := Option.map_eq_some_iff.mp hc
        obtain ⟨hjson, henc⟩ := encodableRecord_eq_some hrec
        simp only [Bool.and_eq_true, beq_iff_eq] at hvalid
        obtain ⟨⟨hrepo, hcol⟩, hkey⟩ := hvalid
        refine ⟨henc, starts_create (fun e => .internal s!"invalid DID: {e}") .ofRepo
          (fun outcome => .createRecord
            (atUri d input.collection (input.rkey.getD (tidFromMicros micros)))
            ((outcome.recordCid.map cfg.cidText).getD "")) hdid ?_⟩
        simp [createRecord, ownRepo, hrepo, eq_ok_of_isOk hcol, validRkey_ok hkey, buildWriter,
          toIpld, hjson, onWriter, oneThen, Prog.bind_assoc]
      · cases hc
  | put input =>
      simp only [RecordCall.change] at hc
      split at hc
      · rename_i hvalid
        obtain ⟨record, hrec, rfl⟩ := Option.map_eq_some_iff.mp hc
        obtain ⟨hjson, henc⟩ := encodableRecord_eq_some hrec
        simp only [Bool.and_eq_true, beq_iff_eq] at hvalid
        obtain ⟨⟨hrepo, hcol⟩, hkey⟩ := hvalid
        refine ⟨henc, starts_put (fun e => .internal s!"invalid DID: {e}") .ofRepo
          (fun outcome => .putRecord (atUri d input.collection input.rkey)
            ((outcome.recordCid.map cfg.cidText).getD "") (commitMeta cfg outcome)) hdid ?_⟩
        simp [putRecord, ownRepo, hrepo, eq_ok_of_isOk hcol, eq_ok_of_isOk hkey, buildWriter,
          toIpld, hjson, onWriter, oneThen, Prog.bind_assoc]
      · cases hc
  | delete input =>
      simp only [RecordCall.change] at hc
      split at hc
      · rename_i hvalid
        obtain rfl := Option.some.inj hc
        simp only [Bool.and_eq_true, beq_iff_eq] at hvalid
        obtain ⟨⟨hrepo, hcol⟩, hkey⟩ := hvalid
        refine ⟨trivial, starts_delete (fun e => .internal s!"invalid DID: {e}") .ofRepo
          (fun outcome => .deleteRecord (some (commitMeta cfg outcome))) (.deleteRecord none) hdid
          ?_⟩
        simp [deleteRecord, ownRepo, hrepo, eq_ok_of_isOk hcol, eq_ok_of_isOk hkey, buildWriter,
          onWriter, oneThen, Prog.bind_assoc]
      · cases hc

namespace Embedded

inductive RecordCall where
  | create (body : Json) (micros : Nat)
  | put (body : Json)
  | delete (body : Json)

/-- A put or a delete: a create may be refused. -/
def RecordCall.certain : RecordCall → Bool
  | .create _ _ => false
  | _ => true

structure RecordRequest where
  call : RecordCall
  draw : WriteDraw

def RecordRequest.handler (cfg : XrpcConfig L) (did : String) (q : RecordRequest) :
    RecordProg L XrpcResponse :=
  expand (fun _ => q.draw) 0 (match q.call with
    | .create body micros => createRecord cfg did body micros
    | .put body => putRecord cfg did body
    | .delete body => deleteRecord cfg did body)

/-- The collection, where the request is for the caller's repository and
the given key is valid. -/
def validCollection (body : Json) (did : String) : Option String :=
  (body.field "collection").asStr.filter fun collection =>
    (body.field "repo").asStr == some did && (validateCollection collection).isOk
      && (body.field "rkey").asStr.all fun rkey => (validateRkey rkey).isOk

/-- The record of a body that the embedded server takes. -/
def validRecord (cfg : XrpcConfig L) (body : Json) : Option L.Ipld :=
  if (body.field "record").isNull then none else encodableRecord cfg (body.field "record")

/-- What a request that passes validation asks for. -/
def RecordCall.change (cfg : XrpcConfig L) (did : String) : RecordCall → Option (RecordChange L)
  | .create body micros =>
      let rkey := (body.field "rkey").asStr.getD (tidFromMicros micros)
      (validCollection body did).bind fun collection =>
        (validRecord cfg body).map (.create s!"{collection}/{rkey}")
  | .put body =>
      (validCollection body did).bind fun collection => (body.field "rkey").asStr.bind fun rkey =>
        (validRecord cfg body).map (.put s!"{collection}/{rkey}")
  | .delete body =>
      (validCollection body did).bind fun collection => (body.field "rkey").asStr.map fun rkey =>
        .delete s!"{collection}/{rkey}"

theorem validCollection_eq_some {body : Json} {did collection : String}
    (h : validCollection body did = some collection) :
    (body.field "collection").asStr = some collection ∧ (body.field "repo").asStr = some did
      ∧ validateCollection collection = .ok ()
      ∧ ∀ rkey, (body.field "rkey").asStr = some rkey → validateRkey rkey = .ok () := by
  obtain ⟨hcol, hvalid⟩ := Option.filter_eq_some_iff.mp h
  simp only [Bool.and_eq_true, beq_iff_eq] at hvalid
  obtain ⟨⟨hrepo, hok⟩, hkey⟩ := hvalid
  refine ⟨hcol, hrepo, eq_ok_of_isOk hok, fun rkey hrkey => ?_⟩
  rw [hrkey] at hkey
  exact eq_ok_of_isOk hkey

theorem recordOf_eq {cfg : XrpcConfig L} {body : Json} {record : L.Ipld}
    (h : validRecord cfg body = some record) :
    recordOf cfg body = .ret record ∧ (recordCid (L := L) record).isSome = true := by
  rw [validRecord] at h
  split at h
  · cases h
  · rename_i hnull
    obtain ⟨hjson, henc⟩ := encodableRecord_eq_some h
    exact ⟨by simp [recordOf, hnull, toIpld, hjson], henc⟩

theorem namedRecord_eq {body : Json} {did collection rkey : String}
    (h : validCollection body did = some collection) (hkey : (body.field "rkey").asStr = some rkey) :
    (namedRecord body did : XrpcProg L (String × String)) = .ret (collection, rkey) := by
  obtain ⟨hcol, hrepo, hok, hvalid⟩ := validCollection_eq_some h
  simp [namedRecord, ownRepo, hrepo, hcol, hkey, valid, hok, hvalid rkey hkey]

theorem RecordCall.certain_change {cfg : XrpcConfig L} {call : RecordCall}
    (hc : call.change cfg d = some c) (h : call.certain = true) : c.Certain := by
  cases call with
  | create => cases h
  | put body =>
      obtain ⟨collection, -, hc⟩ := Option.bind_eq_some_iff.mp hc
      obtain ⟨rkey, -, hc⟩ := Option.bind_eq_some_iff.mp hc
      obtain ⟨record, -, rfl⟩ := Option.map_eq_some_iff.mp hc
      trivial
  | delete body =>
      obtain ⟨collection, -, hc⟩ := Option.bind_eq_some_iff.mp hc
      obtain ⟨rkey, -, rfl⟩ := Option.map_eq_some_iff.mp hc
      trivial

theorem starts_handler {cfg : XrpcConfig L} (hdid : cfg.parseDid d = .ok ()) {q : RecordRequest}
    (hc : q.call.change cfg d = some c) : c.Encodable ∧ Starts d c (q.handler cfg d) := by
  obtain ⟨call, draw⟩ := q
  cases call with
  | create body micros =>
      obtain ⟨collection, hcol, hc⟩ := Option.bind_eq_some_iff.mp hc
      obtain ⟨record, hrec, rfl⟩ := Option.map_eq_some_iff.mp hc
      obtain ⟨hrecord, henc⟩ := recordOf_eq hrec
      obtain ⟨hcol, hrepo, hok, hvalid⟩ := validCollection_eq_some hcol
      have hkey : (rkeyOrTid (body.field "rkey").asStr micros : XrpcProg L String)
          = .ret ((body.field "rkey").asStr.getD (tidFromMicros micros)) := by
        cases hr : (body.field "rkey").asStr with
        | none => rfl
        | some rkey => simp [rkeyOrTid, valid, hvalid rkey hr]
      refine ⟨henc, starts_create (fun _ => .internal "invalid DID")
        (fun _ => .internal "write failed") (fun outcome => .createRecord
          (atUri d collection ((body.field "rkey").asStr.getD (tidFromMicros micros)))
          ((outcome.recordCid.map cfg.cidText).getD "")) hdid ?_⟩
      simp [createRecord, ownRepo, required, hrepo, hcol, valid, hok, hkey, hrecord, buildWriter,
        onWriter, oneThen, Prog.bind_assoc]
  | put body =>
      obtain ⟨collection, hcol, hc⟩ := Option.bind_eq_some_iff.mp hc
      obtain ⟨rkey, hkey, hc⟩ := Option.bind_eq_some_iff.mp hc
      obtain ⟨record, hrec, rfl⟩ := Option.map_eq_some_iff.mp hc
      obtain ⟨hrecord, henc⟩ := recordOf_eq hrec
      refine ⟨henc, starts_put (fun _ => .internal "invalid DID")
        (fun _ => .internal "write failed") (fun outcome => .putRecord
          (atUri d collection rkey) ((outcome.recordCid.map cfg.cidText).getD "")
          (commitMeta cfg outcome)) hdid ?_⟩
      simp [putRecord, namedRecord_eq hcol hkey, hrecord, buildWriter, onWriter, oneThen,
        Prog.bind_assoc]
  | delete body =>
      obtain ⟨collection, hcol, hc⟩ := Option.bind_eq_some_iff.mp hc
      obtain ⟨rkey, hkey, rfl⟩ := Option.map_eq_some_iff.mp hc
      refine ⟨trivial, starts_delete (fun _ => .internal "invalid DID")
        (fun _ => .internal "write failed")
        (fun outcome => .deleteRecord (some (commitMeta cfg outcome))) (.deleteRecord none) hdid ?_⟩
      simp [deleteRecord, namedRecord_eq hcol hkey, buildWriter, onWriter, oneThen,
        Prog.bind_assoc]

end Embedded

theorem axum_recordServer {treeGet : TreeGet L} (hG : TreeGetLaws view treeGet)
    {keys : String → Except String L.Key} {key : L.Key} (hkey : keys d = .ok key)
    {cfg : XrpcConfig L} (hdid : cfg.parseDid d = .ok ()) :
    RecordServer view (axumEnv keys treeGet) d (RecordRequest.handler cfg d)
      fun q => q.call.change cfg d where
  lookup s m key hm := by
    simp only [axumEnv]
    exact treeLookup_eq hG hm _ _ key
  key := ⟨key, hkey⟩
  encodable q c hc := (starts_handler hdid hc).1
  starts q c hc := (starts_handler hdid hc).2

theorem embedded_recordServer {treeGet : TreeGet L} (hG : TreeGetLaws view treeGet)
    {keys : String → Except String L.Key} {key : L.Key} (hkey : keys d = .ok key)
    {cfg : XrpcConfig L} (hdid : cfg.parseDid d = .ok ()) :
    RecordServer view (embeddedEnv keys treeGet) d (Embedded.RecordRequest.handler cfg d)
      fun q => q.call.change cfg d where
  lookup s m key hm := by
    simp only [embeddedEnv]
    exact treeLookup_eq hG hm _ _ key
  key := ⟨key, hkey⟩
  encodable q c hc := (Embedded.starts_handler hdid hc).1
  starts q c hc := (Embedded.starts_handler hdid hc).2

/-! ## The theorem -/

theorem AtRest.idle {K : TreeLinks L} (hs : AtRest view K s) (d : String) :
    ∃ m, Idle view d s m := by
  obtain ⟨m, hm⟩ := hs.standing d
  exact ⟨m, hs.addressed, hm.mapOf, hs.unlocked d⟩

/-- **Linearization.** From every state that calls have led to, a run of
valid requests in which nobody takes the lock with a lookup that is out of
date has the effect of the requests one by one, in the order in which they
had the lock. The lookup is what makes the difference: it is made before
the lock is taken, and all that comes after it is guarded. -/
theorem records_linearize {K : TreeLinks L} (hL : RepoLaws L) (hT : RepoTotal L)
    (hV : TreeLaws L view) (hK : LinkLaws K) {treeGet : TreeGet L} (hG : TreeGetLaws view treeGet)
    {calls : List (ServedCall L)} (hcalls : Steps.run callStep (RepoStore.empty L) calls = some s)
    {keys : String → Except String L.Key} {key : L.Key} (hkey : keys d = .ok key)
    {cfg : XrpcConfig L} (hdid : cfg.parseDid d = .ok ()) :
    (∀ (acts : List (PoolAct RecordRequest Unit)) P,
      Steps.run (Pool.next (quietMachine (axumEnv keys treeGet)) (RecordRequest.handler cfg d))
          (Pool.init s) acts = some P →
        Steps.Along (Pool.next (quietMachine (axumEnv keys treeGet)) (RecordRequest.handler cfg d))
          (fun P a => ValidStart (fun q => q.call.change cfg d) a ∧ TimelyStep view d P a)
          (Pool.init s) acts →
        Linearized view (axumEnv keys treeGet) d (RecordRequest.handler cfg d)
          (fun q => q.call.certain = true) s P)
    ∧ ∀ (acts : List (PoolAct Embedded.RecordRequest Unit)) P,
      Steps.run (Pool.next (quietMachine (embeddedEnv keys treeGet))
          (Embedded.RecordRequest.handler cfg d)) (Pool.init s) acts = some P →
        Steps.Along (Pool.next (quietMachine (embeddedEnv keys treeGet))
            (Embedded.RecordRequest.handler cfg d))
          (fun P a => ValidStart (fun q => q.call.change cfg d) a ∧ TimelyStep view d P a)
          (Pool.init s) acts →
        Linearized view (embeddedEnv keys treeGet) d (Embedded.RecordRequest.handler cfg d)
          (fun q => q.call.certain = true) s P := by
  obtain ⟨m, hm⟩ := (atRest_run hL hV hK hcalls).idle d
  refine ⟨fun acts P hrun hacts => ?_, fun acts P hrun hacts => ?_⟩
  · exact linearized_run hL hT hV (axum_recordServer hG hkey hdid)
      (fun _ _ => RecordCall.certain_change) hm hrun hacts
  · exact linearized_run hL hT hV (embedded_recordServer hG hkey hdid)
      (fun _ _ => Embedded.RecordCall.certain_change) hm hrun hacts

end

/-! ## Two puts of one record -/

def samplePut : RecordRequest :=
  ⟨.put ⟨"did:plc:alice", "app.bsky.feed.post", "1", .null⟩, sampleDraw⟩

def sampleDelete : RecordRequest :=
  ⟨.delete ⟨"did:plc:alice", "app.bsky.feed.post", "1"⟩, sampleDraw⟩

def sampleEmbeddedPut : Embedded.RecordRequest :=
  ⟨.put (.obj [("repo", .str "did:plc:alice"), ("collection", .str "app.bsky.feed.post"),
    ("rkey", .str "1"), ("record", .obj [])]), sampleDraw⟩

/-- Both look up, then the first runs to its end, then the second. -/
def sampleRace {ρ : Type} (q : ρ) : List (PoolAct ρ Unit) :=
  [.start q, .start q, .step 0 (), .step 1 ()]
    ++ List.replicate 17 (.step 0 ()) ++ List.replicate 7 (.step 1 ())

theorem not_linearized_of_failure {L : RepoLib} {ρ α : Type} {view : TreeView L}
    {env : RecordEnv L XrpcError} {d : String} {handler : ρ → RecordProg L α}
    {certain : ρ → Bool} {s : RepoStore L} {P : RecordPool L ρ α} {i : Nat}
    (h : P.tasks[i]?.map (fun t => (certain t.1, t.2.outcome.map fun x => x.isOk))
      = some (true, some false)) :
    ¬ Linearized view env d handler (fun q => certain q = true) s P := by
  intro hlin
  obtain ⟨⟨q, p⟩, htask, heq⟩ := Option.map_eq_some_iff.mp h
  obtain ⟨hq, hfail⟩ := Prod.mk.injEq .. |>.mp heq
  obtain ⟨x, hx, hbad⟩ := Option.map_eq_some_iff.mp hfail
  cases x with
  | ok a => cases hbad
  | error e => exact hlin.succeeds i q p e htask hq hx

/-- Without the condition the second put is refused. -/
theorem racing_puts_not_linearized :
    (∃ P, Steps.run (Pool.next (quietMachine (axumEnv (fun _ => .ok ()) sampleTreeGet))
          (RecordRequest.handler batchServer "did:plc:alice"))
        (Pool.init (RepoStore.empty sampleRepo)) (sampleRace samplePut) = some P
      ∧ (samplePut.call.change batchServer "did:plc:alice").isSome = true
      ∧ ¬ Linearized sampleView (axumEnv (fun _ => .ok ()) sampleTreeGet) "did:plc:alice"
          (RecordRequest.handler batchServer "did:plc:alice") (fun q => q.call.certain = true)
          (RepoStore.empty sampleRepo) P)
    ∧ ∃ P, Steps.run (Pool.next (quietMachine (embeddedEnv (fun _ => .ok ()) sampleTreeGet))
          (Embedded.RecordRequest.handler batchServer "did:plc:alice"))
        (Pool.init (RepoStore.empty sampleRepo)) (sampleRace sampleEmbeddedPut) = some P
      ∧ (sampleEmbeddedPut.call.change batchServer "did:plc:alice").isSome = true
      ∧ ¬ Linearized sampleView (embeddedEnv (fun _ => .ok ()) sampleTreeGet) "did:plc:alice"
          (Embedded.RecordRequest.handler batchServer "did:plc:alice")
          (fun q => q.call.certain = true) (RepoStore.empty sampleRepo) P := by
  constructor
  · have hrun : ((Steps.run (Pool.next (quietMachine (axumEnv (fun _ => .ok ()) sampleTreeGet))
        (RecordRequest.handler batchServer "did:plc:alice"))
        (Pool.init (RepoStore.empty sampleRepo)) (sampleRace samplePut)).map fun P =>
          P.tasks[1]?.map fun t => (t.1.call.certain, t.2.outcome.map fun x => x.isOk))
        = some (some (true, some false)) := by decide +kernel
    obtain ⟨P, hP, hfail⟩ := Option.map_eq_some_iff.mp hrun
    exact ⟨P, hP, by decide +kernel, not_linearized_of_failure hfail⟩
  · have hrun : ((Steps.run (Pool.next (quietMachine (embeddedEnv (fun _ => .ok ()) sampleTreeGet))
        (Embedded.RecordRequest.handler batchServer "did:plc:alice"))
        (Pool.init (RepoStore.empty sampleRepo)) (sampleRace sampleEmbeddedPut)).map fun P =>
          P.tasks[1]?.map fun t => (t.1.call.certain, t.2.outcome.map fun x => x.isOk))
        = some (some (true, some false)) := by decide +kernel
    obtain ⟨P, hP, hfail⟩ := Option.map_eq_some_iff.mp hrun
    exact ⟨P, hP, by decide +kernel, not_linearized_of_failure hfail⟩

/-- Whether a lookup in the log still says what is there. -/
def timelyEvent {L : RepoLib} (d : String) (m : RecordMap L) (i : Nat) :
    Event (recordSig L XrpcError) → Bool
  | ⟨j, .lookupRecordCid did key, .ok found⟩ =>
      !(j == i && did == d) || (m key).isSome == found.isSome
  | _ => true

/-- Whoever takes the lock has looked up what is still so: its lookups say
what the map says now. -/
def timelyStep {L : RepoLib} {ρ α : Type} (view : TreeView L) (d : String)
    (P : RecordPool L ρ α) : PoolAct ρ Unit → Bool
  | .start _ => true
  | .step i _ =>
      match P.tasks[i]? with
      | some (_, .op (.writer (.lock _)) _) =>
          (mapOf view P.store d).all fun m => P.log.all (timelyEvent d m i)
      | _ => true

theorem timelyStep_sound {L : RepoLib} {ρ α : Type} {view : TreeView L} {d : String}
    {P : RecordPool L ρ α} {a : PoolAct ρ Unit} (h : timelyStep view d P a = true) :
    TimelyStep view d P a := by
  cases a with
  | start q => trivial
  | step i u =>
      intro q k htask key found m hm hmem
      simp only [timelyStep, htask, hm, Option.all_some] at h
      have := List.all_eq_true.mp h _ hmem
      simpa [timelyEvent] using this

/-- A put, and a delete that looks up when the put has been answered. -/
def sampleTurns : List (PoolAct RecordRequest Unit) :=
  [.start samplePut, .start sampleDelete] ++ List.replicate 18 (.step 0 ())
    ++ List.replicate 14 (.step 1 ())

theorem sampleTurns_linearized : ∃ P,
    Steps.run (Pool.next (quietMachine (axumEnv (fun _ => .ok ()) sampleTreeGet))
        (RecordRequest.handler batchServer "did:plc:alice"))
      (Pool.init (RepoStore.empty sampleRepo)) sampleTurns = some P
    ∧ (P.tasks.all fun t => (t.2.outcome.map fun x => x.isOk).getD false) = true
    ∧ Linearized sampleView (axumEnv (fun _ => .ok ()) sampleTreeGet) "did:plc:alice"
        (RecordRequest.handler batchServer "did:plc:alice") (fun q => q.call.certain = true)
        (RepoStore.empty sampleRepo) P := by
  have hrun : ((Steps.run (Pool.next (quietMachine (axumEnv (fun _ => .ok ()) sampleTreeGet))
      (RecordRequest.handler batchServer "did:plc:alice"))
      (Pool.init (RepoStore.empty sampleRepo)) sampleTurns).map fun P =>
        P.tasks.all fun t => (t.2.outcome.map fun x => x.isOk).getD false) = some true := by
    decide +kernel
  obtain ⟨P, hP, hall⟩ := Option.map_eq_some_iff.mp hrun
  have htimely : Steps.Along (Pool.next (quietMachine (axumEnv (fun _ => .ok ()) sampleTreeGet))
      (RecordRequest.handler batchServer "did:plc:alice"))
      (fun P a => (match a with
        | .start q => (RecordCall.change batchServer "did:plc:alice" q.call).isSome
        | .step _ _ => timelyStep sampleView "did:plc:alice" P a) = true)
      (Pool.init (RepoStore.empty sampleRepo)) sampleTurns := by
    decide +kernel
  have hstart : Steps.run callStep (RepoStore.empty sampleRepo) []
      = some (RepoStore.empty sampleRepo) := rfl
  refine ⟨P, hP, hall, (records_linearize sampleRepo_laws sampleRepo_total sampleRepo_treeLaws
    sampleRepo_linkLaws sampleTreeGet_laws hstart rfl rfl).1 sampleTurns P hP
    (htimely.imp fun P a h => ?_)⟩
  cases a with
  | start q => exact ⟨h, trivial⟩
  | step i u => exact ⟨trivial, timelyStep_sound h⟩

end Stelyph
