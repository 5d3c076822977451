import Stelyph.SequencerHop
import Stelyph.WorkerHistory

/-!
# The order of one repository's events

An account's object makes a commit and sends it to the sequencer in one
turn, so it sends its commits in the order of the chain. What it has sent
is then on its way like any other call: the next write does not wait for
it, and the calls arrive in any order, or not at all. The events of a
repository are in the order of its commits where every call is received
before the later ones of its repository.
-/

namespace Stelyph

namespace Worker

section

variable {L : RepoLib} {Payload : Type}

/-! ## An object and the sequencer -/

/-- What a task has just sent to the sequencer, if its next operation is that. -/
def sent : ObjectProg L WriteReply → Option (Commit L)
  | .op (.enqueueCommit body records) _ => some (body, records)
  | _ => none

/-- The object of a repository and the sequencer, with the calls between
them that are on their way, oldest first. -/
structure Uplink (L : RepoLib) where
  object : Object L
  flight : List (Commit L)
  sequencer : Sequencer

def Uplink.init (L : RepoLib) : Uplink L := ⟨Object.init L, [], Sequencer.init⟩

/-- A turn of the object, a call that arrives or gets lost, in any order,
and whatever else the sequencer is asked. -/
inductive UplinkAct (Payload : Type) where
  | object (a : ObjectAct)
  | receive (k : Nat) (now : String)
  | lose (k : Nat)
  /-- What else there is at the sequencer. -/
  | other (a : SequencerAct Payload)

variable (cfg : RepoConfig L) (env : RecordEnv L RepoError) (X : HopLib L Payload) (did : String)

/-- An event of this repository that is not of its object. -/
def spoofs : SequencerAct Payload → Bool
  | .request q => (X.eventOf q).any fun ev => ev.repo = did
  | .disconnect _ => false

/-- A call arrives when it does, not when it was sent. The other requests
at the sequencer are of other repositories. -/
def Uplink.step (W : Uplink L) : UplinkAct Payload → Option (Uplink L)
  | .object (.arrive q) =>
      (W.object.step cfg env (.arrive q)).map fun O => { W with object := O }
  | .object (.turn i fates) =>
      (W.object.step cfg env (.turn i fates)).map fun O =>
        { W with
          object := O
          flight := W.flight ++ (O.tasks[i]?.bind fun task => sent task.2).toList }
  | .receive k now =>
      match W.flight[k]? with
      | none => none
      | some (body, records) =>
          (W.sequencer.step X.toSequencerLib (.request (X.enqueueCommit body records now))).map
            fun S => { W with flight := W.flight.eraseIdx k, sequencer := S }
  | .lose k => if k < W.flight.length then some { W with flight := W.flight.eraseIdx k } else none
  | .other a =>
      if spoofs X did a then none
      else (W.sequencer.step X.toSequencerLib a).map fun S => { W with sequencer := S }

/-! ## Order -/

variable {cfg env did} {X}

/-- Going back from `b` one comes to `a`. -/
def Precedes (f : L.Cid → Option L.Block) (a b : L.Cid) : Prop :=
  ∃ l, PrevChain f b (b :: l) ∧ a ∈ l

/-- The commit of an event in the log. -/
def loggedCommit (X : HopLib L Payload) (row : LogRow) : Option L.Cid :=
  (X.decodeCommitFrame row.frame).toOption.map fun body => body.commit

/-- The events of the repository are of commits, in the order of the chain. -/
def Uplink.InOrder (X : HopLib L Payload) (did : String) (W : Uplink L) : Prop :=
  ∃ commits : List L.Cid, (W.sequencer.log.filter fun r => r.repo = did).map (loggedCommit X)
      = commits.map some ∧ commits.Pairwise (Precedes W.object.store.blocks.get)

/-- A call is received when no older one of its repository is under way. -/
def Uplink.Oldest (W : Uplink L) : UplinkAct Payload → Prop
  | .receive k _ => ∀ m, W.flight[k]? = some m → ∀ j < k, ∀ m', W.flight[j]? = some m' →
      m'.1.repo ≠ m.1.repo
  | _ => True

/-- Two commits of an object, the older one first, and the chain from
either. -/
theorem Linear.chains {O : Object L} (h : Linear O) {a b : L.Cid}
    (hab : [a, b].Sublist (commitsOf O.sequenced did)) :
    ∃ older newer, PrevChain O.store.blocks.get a (a :: older)
      ∧ PrevChain O.store.blocks.get b (b :: newer) ∧ a ∈ newer ∧ b ∉ older := by
  cases hroot : O.store.roots.get did with
  | none =>
      rw [h.started did hroot] at hab
      cases hab
  | some root =>
      obtain ⟨genesis, hchain, hnodup⟩ := h.chain did root hroot
      have hba : [b, a].Sublist (commitsOf O.sequenced did).reverse := hab.reverse
      obtain ⟨front, rest, hsplit, hb, ha⟩ := List.cons_sublist_iff.mp hba
      obtain ⟨pre, mid, rfl⟩ := List.append_of_mem hb
      obtain ⟨mid', post, rfl⟩ := List.append_of_mem (List.singleton_sublist.mp ha)
      have hchain' : (commitsOf O.sequenced did).reverse ++ [genesis]
          = pre ++ b :: (mid ++ mid') ++ a :: (post ++ [genesis]) := by
        rw [hsplit]
        simp
      rw [hchain'] at hnodup
      refine ⟨post ++ [genesis], mid ++ mid' ++ a :: (post ++ [genesis]), hchain.from_mem hchain',
        hchain.from_mem (hchain'.trans (List.append_assoc ..)), by simp, fun hmem => ?_⟩
      have hfront : b ∈ pre ++ b :: (mid ++ mid') := by simp
      exact List.disjoint_of_nodup_append hnodup hfront (List.mem_cons_of_mem _ hmem)

theorem Linear.precedes {O : Object L} (h : Linear O) {a b : L.Cid}
    (hab : [a, b].Sublist (commitsOf O.sequenced did)) :
    Precedes O.store.blocks.get a b := by
  obtain ⟨-, newer, -, hb, ha, -⟩ := h.chains hab
  exact ⟨newer, hb, ha⟩

theorem Linear.not_precedes {O : Object L} (h : Linear O) {a b : L.Cid}
    (hab : [a, b].Sublist (commitsOf O.sequenced did)) :
    ¬ Precedes O.store.blocks.get b a := by
  obtain ⟨older, -, ha, -, -, hb⟩ := h.chains hab
  rintro ⟨l, hl, hmem⟩
  obtain ⟨-, rfl⟩ := List.cons.inj (ha.unique hl)
  exact hb hmem

/-! ## What a step does to the events of the repository -/

/-- The commits of the repository that are on their way. -/
def Uplink.flightOf (did : String) (W : Uplink L) : List L.Cid :=
  (W.flight.filter fun m => m.1.repo = did).map fun m => m.1.commit

/-- What is logged and what is on its way, in this order, are commits in
the order in which they were made. -/
structure SentInOrder (X : HopLib L Payload) (did : String) (W : Uplink L) : Prop where
  log : LogOrdered W.sequencer
  commits : ∃ commits : List L.Cid,
    (W.sequencer.log.filter fun r => r.repo = did).map (loggedCommit X) = commits.map some
      ∧ (commits ++ W.flightOf did).Sublist (commitsOf W.object.sequenced did)

theorem sentInOrder_init : SentInOrder X did (Uplink.init L) where
  log := logOrdered_init
  commits := ⟨[], rfl, List.Sublist.refl _⟩

theorem sent_eq_some {p : ObjectProg L WriteReply} {m : Commit L} (h : sent p = some m) :
    toTell p = some m.1 := by
  cases p with
  | ret | fail => cases h
  | op o k =>
      cases o with
      | enqueueCommit body records =>
          obtain rfl := Option.some.inj h
          rfl
      | readBody | record => cases h

theorem toTell_of_sent_none {p : ObjectProg L WriteReply} (h : sent p = none) :
    toTell p = none := by
  cases p with
  | ret | fail => rfl
  | op o k =>
      cases o with
      | enqueueCommit body records => cases h
      | readBody | record => rfl

/-- What a turn sends is what it adds to the commits of the object. -/
theorem sequenced_turn {O O' : Object L} {i : Nat} {fates : List WriterFate}
    (h : O.step cfg env (.turn i fates) = some O') :
    commitsOf O'.sequenced did = commitsOf O.sequenced did
      ++ (((O'.tasks[i]?.bind fun task => sent task.2).toList.filter fun m =>
        m.1.repo = did).map fun m => m.1.commit) := by
  simp only [Object.step] at h
  split at h
  · cases h
  · rename_i q p htask
    obtain ⟨⟨p', t⟩, -, rfl⟩ := Option.map_eq_some_iff.mp h
    have hi : i < O.tasks.length := (List.getElem?_eq_some_iff.mp htask).1
    simp only [List.getElem?_set_self hi, Option.bind_some]
    cases hsent : sent p' with
    | none => simp [toTell_of_sent_none hsent]
    | some m =>
        simp only [sent_eq_some hsent, Option.map_some, Option.toList_some, commitsOf_append]
        by_cases hm : m.1.repo = did
        · simp [hm]
        · simp [hm]

/-- The row of a call that is received. -/
theorem loggedCommit_received (hX : X.Laws) (body : CommitBody L.Cid L.Car) (seq : Nat)
    (now : String) :
    loggedCommit X ⟨seq, body.repo, X.encodeMessageFrame "#commit" (HopLib.restamped body seq now)⟩
      = some body.commit := by
  rw [loggedCommit, hX.frames.decode_encode]
  rfl

theorem exists_split {α : Type} {l : List α} {k : Nat} {a : α} (h : l[k]? = some a) :
    ∃ pre post, l = pre ++ a :: post ∧ l.eraseIdx k = pre ++ post ∧ pre.length = k := by
  obtain ⟨hlt, rfl⟩ := List.getElem?_eq_some_iff.mp h
  refine ⟨l.take k, l.drop (k + 1), ?_, List.eraseIdx_eq_take_drop_succ .., ?_⟩
  · rw [List.getElem_cons_drop, List.take_append_drop]
  · rw [List.length_take]
    exact Nat.min_eq_left (Nat.le_of_lt hlt)

theorem step_receive (hX : X.Laws) {W : Uplink L} (hS : LogOrdered W.sequencer) {k : Nat}
    {m : Commit L} (hk : W.flight[k]? = some m) (now : String) :
    ∃ indexed, W.step cfg env X did (.receive k now)
      = some ⟨W.object, W.flight.eraseIdx k, W.sequencer.logged ⟨W.sequencer.next, m.1.repo,
        X.encodeMessageFrame "#commit" (HopLib.restamped m.1 W.sequencer.next now)⟩ indexed⟩ := by
  have hstep := HopLib.step_enqueueCommit hX m.1 m.2 hS now
  simp only [Uplink.step, hk, hstep, Option.map_some]
  exact ⟨_, rfl⟩

theorem SentInOrder.received (hX : X.Laws) {W W' : Uplink L} (h : SentInOrder X did W) {k : Nat}
    {now : String} (hold : W.Oldest (.receive k now : UplinkAct Payload))
    (hstep : W.step cfg env X did (.receive k now) = some W') : SentInOrder X did W' := by
  cases hk : W.flight[k]? with
  | none => simp [Uplink.step, hk] at hstep
  | some m =>
      obtain ⟨indexed, hreceive⟩ := step_receive hX h.log hk now
      obtain rfl := Option.some.inj (hreceive.symm.trans hstep)
      obtain ⟨body, records⟩ := m
      obtain ⟨pre, post, hsplit, herase, hpre⟩ := exists_split hk
      obtain ⟨commits, hlog, hsub⟩ := h.commits
      have hflight : W.flightOf did = (Uplink.mk W.object pre W.sequencer).flightOf did
          ++ (if body.repo = did then [body.commit] else [])
          ++ (Uplink.mk W.object post W.sequencer).flightOf did := by
        by_cases hrepo : body.repo = did <;> simp [Uplink.flightOf, hsplit, hrepo]
      have hflight' : ∀ S, (Uplink.mk W.object (W.flight.eraseIdx k) S).flightOf did
          = (Uplink.mk W.object pre W.sequencer).flightOf did
            ++ (Uplink.mk W.object post W.sequencer).flightOf did := by
        intro S
        simp [Uplink.flightOf, herase]
      refine ⟨h.log.logged _ _ _, ?_⟩
      rw [hflight']
      by_cases hrepo : body.repo = did
      · -- Nothing older of the repository is on its way.
        have hfront : (Uplink.mk W.object pre W.sequencer).flightOf did = [] := by
          refine List.map_eq_nil_iff.mpr (List.filter_eq_nil_iff.mpr fun m hm => ?_)
          obtain ⟨j, hj⟩ := List.getElem?_of_mem hm
          have hjk := (List.getElem?_eq_some_iff.mp hj).1
          have hne := hold (body, records) hk j (hpre ▸ hjk) m
            (by rw [hsplit, List.getElem?_append_left hjk, hj])
          simpa [hrepo] using hne
        rw [hflight, hfront, if_pos hrepo, List.nil_append] at hsub
        refine ⟨commits ++ [body.commit], ?_, ?_⟩
        · simp [Sequencer.logged, List.filter_append, hlog, hrepo,
            ← loggedCommit_received hX body W.sequencer.next now]
        · rw [hfront, List.nil_append, List.append_assoc]
          exact hsub
      · rw [hflight, if_neg hrepo, List.append_nil] at hsub
        refine ⟨commits, ?_, hsub⟩
        simp [Sequencer.logged, List.filter_append, hlog, hrepo]

/-- Requests of others log nothing of the repository. -/
theorem log_other {S S' : Sequencer} (hS : LogOrdered S) {a : SequencerAct Payload}
    (hown : spoofs X did a = false) (hstep : S.step X.toSequencerLib a = some S') :
    (S'.log.filter fun r => r.repo = did) = S.log.filter fun r => r.repo = did := by
  rcases sequencer_cases hS hstep with ⟨q, -, -, -, rfl⟩ | ⟨q, ev, -, -, -, -, rfl⟩
    | ⟨q, ev, body, indexed, rfl, -, hev, -, -, rfl⟩ | ⟨q, -, -, rfl⟩ | ⟨i, ws, -, -, rfl⟩
  · rfl
  · rfl
  · have hne : ev.repo ≠ did := by simpa [spoofs, hev] using hown
    simp [Sequencer.logged, List.filter_append, hne]
  · rfl
  · rfl

theorem sentInOrder_step (hX : X.Laws) {W W' : Uplink L} (h : SentInOrder X did W)
    {a : UplinkAct Payload} (hold : W.Oldest a) (hstep : W.step cfg env X did a = some W') :
    SentInOrder X did W' := by
  cases a with
  | object a =>
      cases a with
      | arrive q =>
          simp only [Uplink.step] at hstep
          obtain ⟨O, hO, rfl⟩ := Option.map_eq_some_iff.mp hstep
          obtain rfl := Option.some.inj hO
          exact ⟨h.log, h.commits⟩
      | turn i fates =>
          obtain ⟨O, hO, rfl⟩ := Option.map_eq_some_iff.mp hstep
          obtain ⟨commits, hlog, hsub⟩ := h.commits
          refine ⟨h.log, commits, hlog, ?_⟩
          rw [sequenced_turn hO]
          simp only [Uplink.flightOf, List.filter_append, List.map_append]
          rw [← List.append_assoc]
          exact hsub.append (List.Sublist.refl _)
  | receive k now => exact h.received hX hold hstep
  | lose k =>
      simp only [Uplink.step] at hstep
      split at hstep
      · obtain rfl := Option.some.inj hstep
        obtain ⟨commits, hlog, hsub⟩ := h.commits
        refine ⟨h.log, commits, hlog, List.Sublist.trans ?_ hsub⟩
        have hless : (W.flight.eraseIdx k).Sublist W.flight := List.eraseIdx_sublist ..
        exact (List.Sublist.refl commits).append ((hless.filter _).map _)
      · cases hstep
  | other a =>
      simp only [Uplink.step] at hstep
      split at hstep
      · cases hstep
      · rename_i hown
        obtain ⟨S, hS, rfl⟩ := Option.map_eq_some_iff.mp hstep
        obtain ⟨commits, hlog, hsub⟩ := h.commits
        refine ⟨logOrdered_step _ _ _ _ h.log hS, commits, ?_, hsub⟩
        rw [← hlog, log_other h.log (Bool.eq_false_iff.mpr hown) hS]

/-! ## Every run -/

variable {view : TreeView L} {K : TreeLinks L} {decodeRecord : L.Block → Except String Json}

theorem objectInv_uplink (hL : RepoLaws L) (hV : TreeLaws L view) (hK : LinkLaws K)
    (hJ : RecordLaws cfg decodeRecord) {W W' : Uplink L} {a : UplinkAct Payload}
    (h : ObjectInv view K decodeRecord cfg W.object) (hstep : W.step cfg env X did a = some W') :
    ObjectInv view K decodeRecord cfg W'.object := by
  cases a with
  | object a =>
      cases a with
      | arrive q | turn i fates =>
          simp only [Uplink.step] at hstep
          obtain ⟨O, hO, rfl⟩ := Option.map_eq_some_iff.mp hstep
          exact objectInv_step hL hV hK hJ h hO
  | receive k now =>
      simp only [Uplink.step] at hstep
      split at hstep
      · cases hstep
      · obtain ⟨S, -, rfl⟩ := Option.map_eq_some_iff.mp hstep
        exact h
  | lose k =>
      simp only [Uplink.step] at hstep
      split at hstep
      · obtain rfl := Option.some.inj hstep
        exact h
      · cases hstep
  | other a =>
      simp only [Uplink.step] at hstep
      split at hstep
      · cases hstep
      · obtain ⟨S, -, rfl⟩ := Option.map_eq_some_iff.mp hstep
        exact h

/-- The events of a repository are logged in the order of its commits, in
every run in which no call overtakes an older one. The object does not
wait for one call to be answered before it makes the next, so this has to
be asked of the calls. -/
theorem logged_in_commit_order (hL : RepoLaws L) (hV : TreeLaws L view) (hK : LinkLaws K)
    (hJ : RecordLaws cfg decodeRecord) (hX : X.Laws) {acts : List (UplinkAct Payload)}
    {W : Uplink L}
    (halong : Steps.Along (Uplink.step cfg env X did) Uplink.Oldest (Uplink.init L) acts)
    (hrun : Steps.run (Uplink.step cfg env X did) (Uplink.init L) acts = some W) :
    W.InOrder X did := by
  obtain ⟨hobject, hsent⟩ := Steps.run_inv_along
    (I := fun W => ObjectInv view K decodeRecord cfg W.object ∧ SentInOrder X did W)
    (fun _ _ _ h ha hstep => ⟨objectInv_uplink hL hV hK hJ h.1 hstep,
      sentInOrder_step hX h.2 ha hstep⟩)
    ⟨objectInv_init, sentInOrder_init⟩ halong hrun
  obtain ⟨commits, hlog, hsub⟩ := hsent.commits
  refine ⟨commits, hlog, List.pairwise_iff_forall_sublist.mpr fun hab => ?_⟩
  exact hobject.linear.precedes (hab.trans ((List.sublist_append_left _ _).trans hsub))

end

/-! ### Two writes -/

abbrev sampleUplink (W : Uplink sampleRepo) (a : UplinkAct Json) : Option (Uplink sampleRepo) :=
  W.step sampleConfig (env sampleConfig (fun _ => .ok ()) sampleTreeGet fun _ => .ok .null)
    HopLib.sampleHop "did:plc:alice" a

/-- A put and a delete of one record, each committed and sent. -/
def sampleSent : List (UplinkAct Json) :=
  [.object (.arrive (sampleRequest (.putRecord sampleDraw))),
    .object (.arrive (sampleRequest (.deleteRecord sampleDraw))),
    .object (.turn 0 (List.replicate 18 .done)), .object (.turn 1 (List.replicate 14 .done))]

theorem sampleSent_run : ∃ W m₀ m₁,
    Steps.run sampleUplink (Uplink.init sampleRepo) sampleSent = some W
      ∧ W.sequencer = Sequencer.init ∧ W.flight = [m₀, m₁]
      ∧ m₀.1.repo = "did:plc:alice" ∧ m₁.1.repo = "did:plc:alice"
      ∧ commitsOf W.object.sequenced "did:plc:alice" = [m₀.1.commit, m₁.1.commit] := by
  have hrun : (Steps.run sampleUplink (Uplink.init sampleRepo) sampleSent).map (fun W =>
      (W.sequencer, W.flight.map fun m => m.1.repo,
        decide (commitsOf W.object.sequenced "did:plc:alice" = W.flight.map fun m => m.1.commit)))
      = some (Sequencer.init, ["did:plc:alice", "did:plc:alice"], true) := rfl
  obtain ⟨W, hW, heq⟩ := Option.map_eq_some_iff.mp hrun
  obtain ⟨hseq, heq⟩ := Prod.mk.injEq .. |>.mp heq
  obtain ⟨hrepos, hcommits⟩ := Prod.mk.injEq .. |>.mp heq
  have hcommits' := of_decide_eq_true hcommits
  rcases hflight : W.flight with _ | ⟨m₀, _ | ⟨m₁, _ | ⟨m₂, rest⟩⟩⟩
  · simp [hflight] at hrepos
  · simp [hflight] at hrepos
  · simp only [hflight, List.map_cons, List.map_nil, List.cons.injEq, and_true] at hrepos hcommits'
    exact ⟨W, m₀, m₁, hW, hseq, hflight, hrepos.1, hrepos.2, hcommits'⟩
  · simp [hflight] at hrepos

/-- Both calls are received, the one at `k` first. -/
theorem sample_received {W : Uplink sampleRepo} (hseq : W.sequencer = Sequencer.init) {k : Nat}
    {first second : Commit sampleRepo} (hfirst : W.flight[k]? = some first)
    (hsecond : W.flight.eraseIdx k = [second]) :
    ∃ W', Steps.run sampleUplink W [.receive k "", .receive 0 ""] = some W'
      ∧ W'.object = W.object
      ∧ W'.sequencer.log.map (fun r => r.repo) = [first.1.repo, second.1.repo]
      ∧ W'.sequencer.log.map (loggedCommit HopLib.sampleHop)
        = [some first.1.commit, some second.1.commit] := by
  have hS : LogOrdered W.sequencer := hseq ▸ logOrdered_init
  obtain ⟨indexed, hstep⟩ : ∃ indexed, sampleUplink W (.receive k "") = some ⟨W.object, _,
      W.sequencer.logged ⟨_, first.1.repo, _⟩ indexed⟩ :=
    step_receive HopLib.sampleHop_laws hS hfirst ""
  obtain ⟨indexed', hstep'⟩ : ∃ indexed', sampleUplink ⟨W.object, W.flight.eraseIdx k, _⟩
      (.receive 0 "") = some ⟨W.object, _, Sequencer.logged _ ⟨_, second.1.repo, _⟩ indexed'⟩ :=
    step_receive HopLib.sampleHop_laws (hS.logged first.1.repo _ indexed)
      (by rw [hsecond]; rfl) ""
  refine ⟨_, Steps.run_cons_eq_some.mpr ⟨_, hstep, Steps.run_cons_eq_some.mpr ⟨_, hstep', rfl⟩⟩,
    rfl, ?_, ?_⟩
  · simp [Sequencer.logged, hseq, Sequencer.init]
  · simp only [Sequencer.logged, hseq, Sequencer.init, List.nil_append, List.map_append,
      List.map_cons, List.map_nil, loggedCommit_received HopLib.sampleHop_laws]
    rfl

theorem sampleSent_linear {W : Uplink sampleRepo}
    (hrun : Steps.run sampleUplink (Uplink.init sampleRepo) sampleSent = some W) :
    Linear W.object :=
  (Steps.run_inv (I := fun W => ObjectInv sampleView sampleLinks (fun _ => .ok .null) sampleConfig
    W.object) (fun _ _ _ h hstep => objectInv_uplink sampleRepo_laws sampleRepo_treeLaws
      sampleRepo_linkLaws sampleConfig_laws h hstep) objectInv_init hrun).linear

/-- A delete that overtakes the put before it: the log has it first. -/
theorem sample_overtaken : ∃ W,
    Steps.run sampleUplink (Uplink.init sampleRepo)
      (sampleSent ++ [.receive 1 "", .receive 0 ""]) = some W
    ∧ ¬ W.InOrder HopLib.sampleHop "did:plc:alice" := by
  obtain ⟨W, m₀, m₁, hrun, hseq, hflight, hrepo₀, hrepo₁, hcommits⟩ := sampleSent_run
  have hone : W.flight[1]? = some m₁ := by rw [hflight]; rfl
  have hzero : W.flight.eraseIdx 1 = [m₀] := by rw [hflight]; rfl
  obtain ⟨W', hrun', hobject, hrepos, hlogged⟩ := sample_received hseq hone hzero
  refine ⟨W', Steps.run_append_eq_some.mpr ⟨W, hrun, hrun'⟩, ?_⟩
  rintro ⟨commits, hlog, hpairs⟩
  have hall : W'.sequencer.log.filter (fun r => decide (r.repo = "did:plc:alice"))
      = W'.sequencer.log := by
    refine List.filter_eq_self.mpr fun r hr => decide_eq_true ?_
    have hmem := List.mem_map_of_mem (f := fun r : LogRow => r.repo) hr
    simpa [hrepos, hrepo₀, hrepo₁] using hmem
  rw [hall, hlogged] at hlog
  obtain rfl : [m₁.1.commit, m₀.1.commit] = commits :=
    List.map_injective_iff.mpr (Option.some_injective _) hlog
  rw [hobject] at hpairs
  have hmade : [m₀.1.commit, m₁.1.commit].Sublist
      (commitsOf W.object.sequenced "did:plc:alice") := by
    rw [hcommits]
  exact (sampleSent_linear hrun).not_precedes hmade (List.pairwise_pair.mp hpairs)

/-- The same two calls, the put first. -/
theorem sample_inOrder : ∃ W,
    Steps.run sampleUplink (Uplink.init sampleRepo)
      (sampleSent ++ [.receive 0 "", .receive 0 ""]) = some W
    ∧ W.sequencer.log.length = 2 ∧ W.InOrder HopLib.sampleHop "did:plc:alice" := by
  obtain ⟨W, m₀, m₁, hrun, hseq, hflight, -⟩ := sampleSent_run
  have hzero : W.flight[0]? = some m₀ := by rw [hflight]; rfl
  have hone : W.flight.eraseIdx 0 = [m₁] := by rw [hflight]; rfl
  obtain ⟨W', hrun', -, hrepos, -⟩ := sample_received hseq hzero hone
  have hrun'' := Steps.run_append_eq_some.mpr ⟨W, hrun, hrun'⟩
  have hold : ∀ (W : Uplink sampleRepo),
      ∀ a ∈ sampleSent ++ [.receive 0 "", .receive 0 ""], W.Oldest a := by
    intro W a ha
    simp only [sampleSent, List.cons_append, List.nil_append, List.mem_cons, List.not_mem_nil,
      or_false, or_self] at ha
    rcases ha with rfl | rfl | rfl | rfl | rfl
    · trivial
    · trivial
    · trivial
    · trivial
    · exact fun _ _ j hj => absurd hj (Nat.not_lt_zero j)
  refine ⟨W', hrun'', by simpa using congrArg List.length hrepos, ?_⟩
  exact logged_in_commit_order sampleRepo_laws sampleRepo_treeLaws sampleRepo_linkLaws
    sampleConfig_laws HopLib.sampleHop_laws (Steps.along_of_mem hold) hrun''

end Worker

end Stelyph
