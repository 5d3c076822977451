import Stelyph.DpopReplay
import Stelyph.RepoAtRest
import Stelyph.WorkerRepo

/-!
# Batches, whole or in part

`applyWrites` on the three servers, with store calls that fail anywhere.
The Worker checks every write first and then makes one commit, so that a
request that is answered with an error has changed nothing. The axum
server and the embedded server make one commit for each write as they
go: a batch whose first write goes through and that has another write
can be answered with an error after a commit. The exact condition for
that not to happen is in the batch and in the record map.
-/

namespace Stelyph

section

variable {L : RepoLib} {ε ε' α : Type} {view : TreeView L} {K : TreeLinks L}

/-- Root, record map and sequence log are as before. -/
structure Kept (view : TreeView L) (did : String) (s t : RepoStore L) : Prop where
  roots : t.roots = s.roots
  map : mapOf view t did = mapOf view s did
  rows : t.rows = s.rows
  lastSeq : t.lastSeq = s.lastSeq

/-- Wherever a store call fails: a handler that answers an error has kept
everything. -/
def AllOrNothing (view : TreeView L) (env : RecordEnv L ε) (did : String) (s : RepoStore L)
    (p : Prog (recordSig L ε) ε' α) : Prop :=
  ∀ fates e t, p.against (RecordOp.exec env 0) s fates = some (.error e, t) → Kept view did s t

/-- A write that cannot go through: it is not valid, or the record map or
the encoder refuses it. -/
def FirstRefused (view : TreeView L) (s : RepoStore L) (did : String)
    (first : Except XrpcError (WriteOp L.Ipld)) : Prop :=
  ∀ op m, first = .ok op → mapOf view s did = some m → op.onMap m = none

variable {env : RecordEnv L ε} {s t : RepoStore L} {did : String}

theorem Unmoved.kept (hV : TreeLaws L view) (hs : CallsInv view K s) (h : Unmoved s t)
    (did : String) : Kept view did s t := by
  obtain ⟨m, hm⟩ := hs.standing did
  exact ⟨h.roots, (h.mapOf hV hm.mapOf).trans hm.mapOf.symm, h.rows, h.lastSeq⟩

/-- If the handler ends with an error, it has only added blocks. -/
abbrev Reverts (env : RecordEnv L ε) (p : Prog (recordSig L ε) ε' α) (s : RepoStore L) : Prop :=
  RecordYields env p s fun x t => ∀ e, x = .error e → Unmoved s t

theorem Reverts.allOrNothing (hV : TreeLaws L view) (hs : CallsInv view K s)
    {p : Prog (recordSig L ε) ε' α} (h : Reverts env p s) (did : String) :
    AllOrNothing view env did s p :=
  fun _ e _ hrun => (h.of_against hrun e rfl).kept hV hs did

theorem Reverts.ret (a : α) : Reverts env (Prog.ret a : Prog (recordSig L ε) ε' α) s := by
  intro e he
  cases he

theorem Reverts.fail (e : ε') : Reverts env (Prog.fail e : Prog (recordSig L ε) ε' α) s :=
  fun _ _ => .refl s

/-- What comes before the first write does not matter. -/
theorem Reverts.after {β : Type} {p : Prog (recordSig L ε) ε' β}
    {f : β → Prog (recordSig L ε) ε' α} (hp : p.Each RecordOp.Reading)
    (hf : ∀ b, Reverts env (f b) s) : Reverts env (p.bind f) s := by
  exact yields_front hp (fun b _ => hf b) fun _ _ _ => .refl s

/-! ## One write after another -/

variable {env : RecordEnv L XrpcError} {draws : Nat → WriteDraw}

/-- One write of a batch, and what comes after it. -/
def oneThen (writer : RepoWriter L) (err : RepoError → XrpcError)
    (first : Except XrpcError (WriteOp L.Ipld)) (rest : WriteOutcome L.Cid → XrpcProg L α) :
    XrpcProg L α :=
  (Prog.ofExcept id first).bind fun op =>
    .op (.applyOne writer op) fun r => (Prog.ofExcept err r).bind rest

/-- A write that fails, or that nothing can follow. -/
theorem reverts_oneThen (hL : RepoLaws L) (hV : TreeLaws L view) (hK : LinkLaws K)
    (hs : CallsInv view K s) {writer : RepoWriter L} {err : RepoError → XrpcError}
    {first : Except XrpcError (WriteOp L.Ipld)} {rest : WriteOutcome L.Cid → XrpcProg L α}
    (h : FirstRefused view s writer.did first ∨ ∀ outcome, ∃ a, rest outcome = .ret a) (n : Nat) :
    Reverts env (expand draws n (oneThen writer err first rest)) s := by
  cases first with
  | error e => exact fun _ _ => .refl s
  | ok op =>
      obtain ⟨m, hm⟩ := hs.standing writer.did
      have hquits : RepoYields (commitOp writer op true (draws n)) s (Quits s) :=
        quits_locked fun _ => quits_commitOpLocked writer op true (draws n)
      have hone : RepoYields (applyOne writer op (draws n)) s fun x t =>
          (∀ e, x = .error e → Unmoved s t)
            ∧ (FirstRefused view s writer.did (.ok op) → ∃ e, x = .error e) := by
        by_cases href : op.onMap m = none
        · refine Prog.Yields.bind ?_ ?_ (hquits.and
            (refused_applyOne hL hV hK hs hm.mapOf href true (draws n)))
          · rintro a t ⟨-, e, he⟩
            cases he
          · exact fun e t h => ⟨fun _ _ => h.1 e rfl, fun _ => ⟨e, rfl⟩⟩
        · refine Prog.Yields.bind ?_ ?_ hquits
          · intro a t _
            refine And.intro ?_ ?_
            · intro e he
              cases he
            · exact fun hf => absurd (hf op m rfl hm.mapOf) href
          · exact fun e t h => ⟨fun _ _ => h e rfl, fun _ => ⟨e, rfl⟩⟩
      refine yields_liftWriter (fun x t hx => ?_) hone
      cases x with
      | error e => exact fun _ _ => hx.1 e rfl
      | ok outcome =>
          rcases h with href | hret
          · obtain ⟨e, he⟩ := hx.2 href
            cases he
          · obtain ⟨a, ha⟩ := hret outcome
            show RecordYields env (expand draws (n + 1) (rest outcome)) t _
            rw [ha]
            exact fun _ he => nomatch he

variable (env draws) in
/-- Whatever a write is, the store can make it fail. -/
theorem oneThen_fails (hs : Unlocked s) (writer : RepoWriter L) (err : RepoError → XrpcError)
    (first : Except XrpcError (WriteOp L.Ipld)) (rest : WriteOutcome L.Cid → XrpcProg L α)
    (n : Nat) : ∃ fates e t, (expand draws n (oneThen writer err first rest)).against
      (RecordOp.exec env 0) s fates = some (.error e, t) ∧ t.rows = s.rows := by
  cases first with
  | error e => exact ⟨[], e, s, rfl, rfl⟩
  | ok op =>
      have hrun : (applyOne writer op (draws n)).against writerExec s
          [.done, .fault "" 0, .done] = some (.error (.storage (.backend "")),
            { s with locks := (s.locks.insert writer.did 0).remove writer.did }) := by
        simp [applyOne, commitOp, commitOpLocked, openRepo, Prog.against, Prog.ensuring, writerExec,
          WriterOp.exec, hs writer.did]
      exact ⟨_ ++ [], err (.storage (.backend "")),
        { s with locks := (s.locks.insert writer.did 0).remove writer.did },
        (against_liftWriter hrun).trans rfl, rfl⟩

/-- A batch that goes on after a write that went through. -/
theorem oneThen_breaks (hL : RepoLaws L) (hT : RepoTotal L) (hV : TreeLaws L view)
    (hK : LinkLaws K) (hs : AtRest view K s) {writer : RepoWriter L}
    {err : RepoError → XrpcError} {first : Except XrpcError (WriteOp L.Ipld)}
    {rest : WriteOutcome L.Cid → XrpcProg L α}
    (hfirst : ¬ FirstRefused view s writer.did first)
    (hrest : ∀ outcome, ∃ second rest', rest outcome = oneThen writer err second rest') (n : Nat) :
    ¬ AllOrNothing view env writer.did s (expand draws n (oneThen writer err first rest)) := by
  intro hall
  obtain ⟨op, m, rfl, hm, hop⟩ : ∃ op m, first = .ok op ∧ mapOf view s writer.did = some m
      ∧ op.onMap m ≠ none := by
    by_contra hno
    refine hfirst fun op m hok hm => ?_
    by_contra hop
    exact hno ⟨op, m, hok, hm, hop⟩
  obtain ⟨m', hm'⟩ := Option.ne_none_iff_exists'.mp hop
  obtain ⟨x, t, halone, hpost, -, -⟩ :=
    solo_commitOp hL hT hV hs.addressed (hs.unlocked writer.did) hm op true (draws n)
  have hfold : foldWrites m [op] = some m' := by simp [foldWrites, hm']
  rw [BatchPost, hfold] at hpost
  obtain ⟨body, hstep, -, hx⟩ := hpost
  obtain ⟨row, hrow, -⟩ := hstep.row
  obtain ⟨cs, -, hrun⟩ : ∃ cs, (∀ c ∈ cs, c = WriterFate.done)
      ∧ (commitOp writer op true (draws n)).against writerExec s cs = some (x, t) :=
    Prog.exists_against_of_alone WriterFate.done halone
  cases x with
  | error e => cases hx
  | ok a =>
      have hone : (applyOne writer op (draws n)).against writerExec s (cs ++ [])
          = some (.ok a.1, t) := Prog.against_bind_ok hrun
      have hcall : callStep s ⟨⟨writer, .applyOne op, draws n⟩, (cs ++ []) ++ []⟩ = some t :=
        Option.map_eq_some_iff.mpr ⟨(.ok (.one a.1), t), Prog.against_bind_ok hone, rfl⟩
      have ht := atRest_step hL hV hK hs hcall
      obtain ⟨second, rest', hsecond⟩ := hrest a.1
      obtain ⟨fates, e, u, hfail, hrows⟩ :=
        oneThen_fails env draws ht.unlocked writer err second rest' (n + 1)
      have hkept := hall ((cs ++ []) ++ fates) e u ((against_liftWriter hone).trans (by
        show (expand draws (n + 1) (rest a.1)).against (RecordOp.exec env 0) t fates = _
        rw [hsecond]
        exact hfail))
      have hlen := congrArg List.length (hrow.symm.trans (hrows.symm.trans hkept.rows))
      simp at hlen

/-! ## The loops of the two servers -/

/-- A batch on the writer that is built for it. -/
def onWriter (did : String) (parse : Except String Unit) (bad : String → XrpcError)
    (loop : RepoWriter L → XrpcProg L α) : XrpcProg L α :=
  .op (.loadSigningKey did) fun r => (Prog.ofExcept .internal r).bind fun key =>
    (Prog.ofExcept bad parse).bind fun _ => loop ⟨did, key⟩

/-- There is no writer to make a batch with. -/
def NoWriter (env : RecordEnv L XrpcError) (did : String) (parse : Except String Unit) : Prop :=
  (∃ e, env.key did = .error e) ∨ ∃ e, parse = .error e

variable {parse : Except String Unit} {bad : String → XrpcError}

theorem reverts_onWriter {loop : RepoWriter L → XrpcProg L α}
    (h : NoWriter env did parse ∨ ∀ key, Reverts env (expand draws 0 (loop ⟨did, key⟩)) s) :
    Reverts env (expand draws 0 (onWriter did parse bad loop)) s := by
  intro c r t hexec
  have hts : t = s := by
    cases c with
    | done | fault => exact (Prod.mk.injEq .. |>.mp (Option.some.inj hexec)).2.symm
  subst hts
  cases r with
  | error e => exact fun _ _ => .refl t
  | ok key =>
      cases hp : parse with
      | error e => exact fun _ _ => .refl t
      | ok u =>
          rcases h with (⟨e, he⟩ | ⟨e, he⟩) | h
          · cases c with
            | fault => cases (Prod.mk.injEq .. |>.mp (Option.some.inj hexec)).1
            | done => cases he.symm.trans (Prod.mk.injEq .. |>.mp (Option.some.inj hexec)).1
          · cases hp.symm.trans he
          · exact h key

theorem onWriter_breaks {loop : RepoWriter L → XrpcProg L α} (hw : ¬ NoWriter env did parse)
    (h : ∀ key, ¬ AllOrNothing view env did s (expand draws 0 (loop ⟨did, key⟩))) :
    ¬ AllOrNothing view env did s (expand draws 0 (onWriter did parse bad loop)) := by
  intro hall
  cases hkey : env.key did with
  | error e => exact hw (Or.inl ⟨e, hkey⟩)
  | ok key =>
      cases hp : parse with
      | error e => exact hw (Or.inr ⟨e, hp⟩)
      | ok u =>
          refine h key fun fates e t hrun => hall (.done :: fates) e t ?_
          subst hp
          simp only [onWriter, expand, Prog.against, RecordOp.exec, hkey, Option.bind_some]
          exact hrun

/-- A loop over writes: the first is a write of its own, and what comes
after it goes on in the same way. -/
structure Looping {ω : Type} (writer : RepoWriter L) (err : RepoError → XrpcError)
    (first : ω → Except XrpcError (WriteOp L.Ipld)) (loop : List ω → XrpcProg L α) : Prop where
  one : ∀ w, ∃ rest, loop [w] = oneThen writer err (first w) rest
    ∧ ∀ outcome, ∃ a, rest outcome = .ret a
  more : ∀ w w' ws, ∃ rest, loop (w :: w' :: ws) = oneThen writer err (first w) rest
    ∧ ∀ outcome, ∃ second rest', rest outcome = oneThen writer err second rest'

/-- No write can fail after one that went through: there is no writer, or
no second write, or the first cannot go through. -/
def Spared {ω : Type} (view : TreeView L) (env : RecordEnv L XrpcError) (s : RepoStore L)
    (did : String) (parse : Except String Unit) (first : ω → Except XrpcError (WriteOp L.Ipld))
    (ws : List ω) : Prop :=
  NoWriter env did parse ∨ ws.length ≤ 1 ∨ ∀ w ∈ ws.head?, FirstRefused view s did (first w)

/-- The two servers' loops have this shape. -/
theorem Looping.of_bind {ω : Type} {writer : RepoWriter L} {err : RepoError → XrpcError}
    {write : Nat → ω → XrpcProg L (WriteOutcome L.Cid × Json)}
    {first : Nat → ω → Except XrpcError (WriteOp L.Ipld)}
    {last : WriteOutcome L.Cid → CommitMeta}
    {loop : List ω → Option CommitMeta → List Json → XrpcProg L XrpcResponse}
    (hnil : ∀ commit results, loop [] commit results = .ret (.applyWrites commit results))
    (hcons : ∀ w ws commit results, loop (w :: ws) commit results
      = (write results.length w).bind fun p => loop ws (some (last p.1)) (results ++ [p.2]))
    (hwrite : ∀ n w (k : WriteOutcome L.Cid × Json → XrpcProg L XrpcResponse),
      ∃ result : WriteOutcome L.Cid → Json,
        (write n w).bind k = oneThen writer err (first n w) fun o => k (o, result o)) :
    Looping writer err (first 0) fun ws => loop ws none [] where
  one w := by
    obtain ⟨result, heq⟩ := hwrite 0 w fun p => loop [] (some (last p.1)) [p.2]
    exact ⟨_, (hcons w [] none []).trans heq, fun outcome => ⟨_, hnil _ _⟩⟩
  more w w' ws := by
    obtain ⟨result, heq⟩ := hwrite 0 w fun p => loop (w' :: ws) (some (last p.1)) [p.2]
    refine ⟨_, (hcons w (w' :: ws) none []).trans heq, fun outcome => ?_⟩
    obtain ⟨result', heq'⟩ := hwrite 1 w' fun p =>
      loop ws (some (last p.1)) ([result outcome] ++ [p.2])
    exact ⟨_, _, (hcons w' ws _ _).trans heq'⟩

/-- The condition for a loop that makes a commit for each write. -/
theorem looping_iff {ω : Type} (hL : RepoLaws L) (hT : RepoTotal L) (hV : TreeLaws L view)
    (hK : LinkLaws K) (hs : AtRest view K s) {err : RepoError → XrpcError}
    {first : ω → Except XrpcError (WriteOp L.Ipld)} (loop : RepoWriter L → List ω → XrpcProg L α)
    (hloop : ∀ writer, Looping writer err first (loop writer)) (a : α) (ws : List ω) :
    AllOrNothing view env did s (expand draws 0
        (if ws.isEmpty then .ret a else onWriter did parse bad fun writer => loop writer ws))
      ↔ Spared view env s did parse first ws := by
  cases ws with
  | nil =>
      refine ⟨fun _ => Or.inr (Or.inl (Nat.zero_le 1)), fun _ => ?_⟩
      exact (Reverts.ret a).allOrNothing hV hs.toCallsInv did
  | cons w ws =>
      simp only [List.isEmpty_cons, Bool.false_eq_true, if_false]
      constructor
      · intro hall
        by_contra hno
        obtain ⟨hw, hws, hfirst⟩ : ¬ NoWriter env did parse ∧ ws ≠ []
            ∧ ¬ FirstRefused view s did (first w) := by
          refine ⟨fun h => hno (Or.inl h), fun h => hno (Or.inr (Or.inl (by simp [h]))),
            fun h => hno (Or.inr (Or.inr ?_))⟩
          simpa using h
        obtain ⟨w', ws', rfl⟩ := List.exists_cons_of_ne_nil hws
        refine onWriter_breaks hw (fun key => ?_) hall
        obtain ⟨rest, heq, hrest⟩ := (hloop ⟨did, key⟩).more w w' ws'
        rw [heq]
        exact oneThen_breaks hL hT hV hK hs hfirst hrest 0
      · intro h
        refine Reverts.allOrNothing hV hs.toCallsInv (reverts_onWriter ?_) did
        rcases h with hw | hws | hfirst
        · exact Or.inl hw
        · obtain rfl : ws = [] := by simpa using hws
          refine Or.inr fun key => ?_
          obtain ⟨rest, heq, hret⟩ := (hloop ⟨did, key⟩).one w
          rw [heq]
          exact reverts_oneThen hL hV hK hs.toCallsInv (Or.inr hret) 0
        · refine Or.inr fun key => ?_
          obtain ⟨rest, heq⟩ : ∃ rest, loop ⟨did, key⟩ (w :: ws)
              = oneThen ⟨did, key⟩ err (first w) rest := by
            cases ws with
            | nil => exact ((hloop ⟨did, key⟩).one w).imp fun _ h => h.1
            | cons w' ws => exact ((hloop ⟨did, key⟩).more w w' ws).imp fun _ h => h.1
          rw [heq]
          exact reverts_oneThen hL hV hK hs.toCallsInv (Or.inl (hfirst w rfl)) 0

/-- Checks before a write belong to the write. -/
theorem ofExcept_bind_oneThen {β ε'' : Type} (g : ε'' → XrpcError) (x : Except ε'' β)
    (writer : RepoWriter L) (err : RepoError → XrpcError)
    (first : β → Except XrpcError (WriteOp L.Ipld)) (rest : WriteOutcome L.Cid → XrpcProg L α) :
    ((Prog.ofExcept g x).bind fun b => oneThen writer err (first b) rest)
      = oneThen writer err ((x.mapError g).bind first) rest := by
  cases x with
  | ok b => rfl
  | error e => rfl

/-! ## The axum server -/

variable (cfg : XrpcConfig L)

/-- What the loop makes of one write before it is applied: its collection
and key are checked, its value becomes IPLD, and a create that names no
key gets one from the clock. -/
def ApplyWritesWrite.toOp (micros : Nat) : ApplyWritesWrite → Except XrpcError (WriteOp L.Ipld)
  | .create collection rkey value =>
      ((validateCollection collection).mapError .invalidRequest).bind fun _ =>
        ((rkey.elim (.ok ()) validateRkey).mapError .invalidRequest).bind fun _ =>
          ((cfg.jsonValueToIpld value).mapError .internal).bind fun ipld =>
            .ok (.create s!"{collection}/{rkey.getD (tidFromMicros micros)}" ipld)
  | .update collection rkey value =>
      ((validateCollection collection).mapError .invalidRequest).bind fun _ =>
        ((validateRkey rkey).mapError .invalidRequest).bind fun _ =>
          ((cfg.jsonValueToIpld value).mapError .internal).bind fun ipld =>
            .ok (.update s!"{collection}/{rkey}" ipld)
  | .delete collection rkey =>
      ((validateCollection collection).mapError .invalidRequest).bind fun _ =>
        ((validateRkey rkey).mapError .invalidRequest).bind fun _ =>
          .ok (.delete s!"{collection}/{rkey}")

theorem validRkey_eq (rkey : Option String) :
    validRkey rkey = (valid (rkey.elim (.ok ()) validateRkey) : XrpcProg L Unit) := by
  cases rkey with
  | none => rfl
  | some rkey => rfl

theorem applyWrite_bind {β : Type} (did : String) (writer : RepoWriter L) (micros : Nat)
    (w : ApplyWritesWrite) (k : WriteOutcome L.Cid × Json → XrpcProg L β) :
    ∃ result : WriteOutcome L.Cid → Json, (applyWrite cfg did writer micros w).bind k
      = oneThen writer .ofRepo (w.toOp cfg micros) fun o => k (o, result o) := by
  cases w with
  | create collection rkey value =>
      refine ⟨fun o => .obj [("$type", .str "com.atproto.repo.applyWrites#createResult"),
        ("uri", .str (atUri did collection (rkey.getD (tidFromMicros micros)))),
        ("cid", (o.recordCid.map fun c => Json.str (cfg.cidText c)).getD .null),
        ("validationStatus", .str "unknown")], ?_⟩
      simp only [ApplyWritesWrite.toOp, ← ofExcept_bind_oneThen, applyWrite, validRkey_eq,
        Prog.bind_eq, Prog.bind_assoc]
      simp only [oneThen, Prog.ofExcept_ok, Prog.op_bind, Prog.ret_bind, Prog.pure_eq]
  | update collection rkey value =>
      refine ⟨fun o => .obj [("$type", .str "com.atproto.repo.applyWrites#updateResult"),
        ("uri", .str (atUri did collection rkey)),
        ("cid", (o.recordCid.map fun c => Json.str (cfg.cidText c)).getD .null),
        ("validationStatus", .str "unknown")], ?_⟩
      simp only [ApplyWritesWrite.toOp, ← ofExcept_bind_oneThen, applyWrite, Prog.bind_eq,
        Prog.bind_assoc]
      simp only [oneThen, Prog.ofExcept_ok, Prog.op_bind, Prog.ret_bind, Prog.pure_eq]
  | delete collection rkey =>
      refine ⟨fun _ => .obj [("$type", .str "com.atproto.repo.applyWrites#deleteResult")], ?_⟩
      simp only [ApplyWritesWrite.toOp, ← ofExcept_bind_oneThen, applyWrite, Prog.bind_eq,
        Prog.bind_assoc]
      simp only [oneThen, Prog.ofExcept_ok, Prog.op_bind, Prog.ret_bind, Prog.pure_eq]

theorem axum_applyWrites_iff (hL : RepoLaws L) (hT : RepoTotal L) (hV : TreeLaws L view)
    (hK : LinkLaws K) (hs : AtRest view K s) (input : ApplyWritesInput) (micros : Nat → Nat) :
    AllOrNothing view env did s (expand draws 0 (applyWrites cfg did input micros))
      ↔ (input.repo = did → Spared view env s did (cfg.parseDid did)
        (fun w => ApplyWritesWrite.toOp cfg (micros 0) w) input.writes) := by
  by_cases hrepo : input.repo = did
  · have heq : applyWrites cfg did input micros
        = if input.writes.isEmpty then .ret (.applyWrites none [])
          else onWriter did (cfg.parseDid did) (fun e => .internal s!"invalid DID: {e}")
            fun writer => applyEach cfg did writer micros input.writes none [] := by
      simp only [applyWrites, ownRepo, hrepo, ne_eq, not_true_eq_false, if_false, buildWriter,
        onWriter, Prog.bind_eq, Prog.pure_eq, Prog.ret_bind, Prog.op_bind, Prog.bind_assoc]
    rw [heq, forall_prop_of_true hrepo]
    exact looping_iff hL hT hV hK hs (fun writer ws => applyEach cfg did writer micros ws none [])
      (fun writer => .of_bind (fun _ _ => rfl) (fun _ _ _ _ => rfl)
        fun n w k => applyWrite_bind cfg did writer (micros n) w k) _ _
  · refine ⟨fun _ h => absurd h hrepo, fun _ => ?_⟩
    have heq : applyWrites cfg did input micros
        = .fail (.invalidRequest "repo must match the authenticated DID") := by
      simp only [applyWrites, ownRepo, hrepo, ne_eq, not_false_eq_true, if_true, Prog.bind_eq,
        Prog.fail_bind]
    rw [heq]
    exact (Reverts.fail _).allOrNothing hV hs.toCallsInv did

/-! ## The embedded server -/

namespace Embedded

/-- A field that has to be there. -/
def present (value : Option String) (text : String) : Except XrpcError String :=
  match value with
  | some s => .ok s
  | none => .error (.invalidRequest text)

/-- The given key, checked, or one made of the clock. -/
def keyOrTid (rkey : Option String) (micros : Nat) : Except XrpcError String :=
  match rkey with
  | some rkey => ((validateRkey rkey).mapError .invalidRequest).bind fun _ => .ok rkey
  | none => .ok (tidFromMicros micros)

/-- What the loop makes of one write before it is applied, in the order of
the checks. The writes are JSON here, so that what is missing is missed
one by one. -/
def toOp (micros : Nat) (w : Json) : Except XrpcError (WriteOp L.Ipld) :=
  (present (w.field "collection").asStr "write is missing collection").bind fun collection =>
    ((validateCollection collection).mapError .invalidRequest).bind fun _ =>
      match (w.field "$type").asStr.getD "" with
      | "com.atproto.repo.applyWrites#create" =>
          (keyOrTid (w.field "rkey").asStr micros).bind fun rkey =>
            ((cfg.jsonValueToIpld (w.field "value")).mapError fun _ =>
                .internal "record encode failed").bind fun ipld =>
              .ok (.create s!"{collection}/{rkey}" ipld)
      | "com.atproto.repo.applyWrites#update" =>
          (present (w.field "rkey").asStr "update write is missing rkey").bind fun rkey =>
            ((validateRkey rkey).mapError .invalidRequest).bind fun _ =>
              ((cfg.jsonValueToIpld (w.field "value")).mapError fun _ =>
                  .internal "record encode failed").bind fun ipld =>
                .ok (.update s!"{collection}/{rkey}" ipld)
      | "com.atproto.repo.applyWrites#delete" =>
          (present (w.field "rkey").asStr "delete write is missing rkey").bind fun rkey =>
            ((validateRkey rkey).mapError .invalidRequest).bind fun _ =>
              .ok (.delete s!"{collection}/{rkey}")
      | other => .error (.invalidRequest s!"unknown write $type: {other}")

theorem required_eq (value : Option String) (text : String) :
    required value text = (Prog.ofExcept id (present value text) : XrpcProg L String) := by
  cases value with
  | none => rfl
  | some s => rfl

theorem rkeyOrTid_eq (rkey : Option String) (micros : Nat) :
    rkeyOrTid rkey micros = (Prog.ofExcept id (keyOrTid rkey micros) : XrpcProg L String) := by
  cases rkey with
  | none => rfl
  | some rkey =>
      simp only [rkeyOrTid, keyOrTid]
      cases validateRkey rkey with
      | ok u => rfl
      | error e => rfl

theorem applyWrite_bind {β : Type} (did : String) (writer : RepoWriter L) (micros : Nat) (w : Json)
    (k : WriteOutcome L.Cid × Json → XrpcProg L β) :
    ∃ result : WriteOutcome L.Cid → Json, (applyWrite cfg did writer micros w).bind k
      = oneThen writer (fun _ => .internal "write failed") (toOp cfg micros w)
        fun o => k (o, result o) := by
  unfold applyWrite toOp
  simp only [required_eq, rkeyOrTid_eq, Prog.bind_eq, Prog.bind_assoc]
  cases present (w.field "collection").asStr "write is missing collection" with
  | error e => exact ⟨fun _ => .null, rfl⟩
  | ok collection =>
      simp only [Prog.ofExcept_ok, Prog.ret_bind, Except.bind]
      cases validateCollection collection with
      | error e => exact ⟨fun _ => .null, rfl⟩
      | ok u =>
          simp only [valid, Except.mapError, Prog.ofExcept_ok, Prog.ret_bind]
          generalize (w.field "$type").asStr.getD "" = kind
          split
          · cases keyOrTid (w.field "rkey").asStr micros with
            | error e => exact ⟨fun _ => .null, rfl⟩
            | ok rkey =>
                refine ⟨writeResult cfg "create" did collection rkey, ?_⟩
                cases hj : cfg.jsonValueToIpld (w.field "value") with
                | error e => simp [toIpld, hj, oneThen]
                | ok ipld => simp [toIpld, hj, oneThen, Prog.bind_assoc]
          · cases present (w.field "rkey").asStr "update write is missing rkey" with
            | error e => exact ⟨fun _ => .null, rfl⟩
            | ok rkey =>
                refine ⟨writeResult cfg "update" did collection rkey, ?_⟩
                cases hr : validateRkey rkey with
                | error e => simp [hr, oneThen]
                | ok u =>
                    cases hj : cfg.jsonValueToIpld (w.field "value") with
                    | error e => simp [toIpld, hr, hj, oneThen]
                    | ok ipld => simp [toIpld, hr, hj, oneThen, Prog.bind_assoc]
          · cases present (w.field "rkey").asStr "delete write is missing rkey" with
            | error e => exact ⟨fun _ => .null, rfl⟩
            | ok rkey =>
                refine ⟨fun _ => .obj [("$type", .str "com.atproto.repo.applyWrites#deleteResult")],
                  ?_⟩
                cases hr : validateRkey rkey with
                | error e => simp [hr, oneThen]
                | ok u => simp [hr, oneThen, Prog.bind_assoc]
          · refine ⟨fun _ => .null, ?_⟩
            simp [oneThen]

theorem applyWrites_iff (hL : RepoLaws L) (hT : RepoTotal L) (hV : TreeLaws L view)
    (hK : LinkLaws K) (hs : AtRest view K s) (body : Json) (micros : Nat → Nat) :
    AllOrNothing view env did s (expand draws 0 (applyWrites cfg did body micros))
      ↔ ((body.field "repo").asStr = some did → ∀ ws, (body.field "writes").asArr = some ws →
        Spared view env s did (cfg.parseDid did) (toOp cfg (micros 0)) ws) := by
  by_cases hrepo : (body.field "repo").asStr = some did
  · rw [forall_prop_of_true hrepo]
    cases hws : (body.field "writes").asArr with
    | none =>
        have heq : applyWrites cfg did body micros
            = .fail (.invalidRequest "writes must be an array") := by
          simp [applyWrites, ownRepo, hrepo, hws]
        rw [heq]
        refine ⟨fun _ ws h => (by cases h), fun _ => ?_⟩
        exact (Reverts.fail _).allOrNothing hV hs.toCallsInv did
    | some writes =>
        have heq : applyWrites cfg did body micros
            = if writes.isEmpty then .ret (.applyWrites none [])
              else onWriter did (cfg.parseDid did) (fun _ => .internal "invalid DID")
                fun writer => applyEach cfg did writer micros writes none [] := by
          simp [applyWrites, ownRepo, hrepo, hws, buildWriter, onWriter, Prog.bind_assoc]
        rw [heq]
        refine (looping_iff hL hT hV hK hs
          (fun writer ws => applyEach cfg did writer micros ws none [])
          (fun writer => .of_bind (fun _ _ => rfl) (fun _ _ _ _ => rfl)
            fun n w k => applyWrite_bind cfg did writer (micros n) w k) _ _).trans ?_
        exact ⟨fun h ws hws => Option.some.inj hws ▸ h, fun h => h writes rfl⟩
  · refine ⟨fun _ h => absurd h hrepo, fun _ => ?_⟩
    have heq : applyWrites cfg did body micros
        = .fail (.invalidRequest "repo must match the authenticated DID") := by
      simp [applyWrites, ownRepo, hrepo]
    rw [heq]
    exact (Reverts.fail _).allOrNothing hV hs.toCallsInv did

end Embedded

/-! ## The Worker -/

namespace Worker

variable {env : RecordEnv L RepoError} (cfg : RepoConfig L)

/-- Every write is checked first, and the batch is one commit. -/
theorem reverts_applyWrites (bearer : Option String) (body : Option Json) (micros : Nat → Nat)
    (rnd : WriteDraw) : Reverts env (applyWrites cfg bearer body micros rnd) s := by
  refine Reverts.after (each_authenticated cfg bearer) fun did => ?_
  refine Reverts.after (each_parsed body) fun input => ?_
  refine Reverts.after (each_ownRepo input did) fun _ => ?_
  dsimp only
  split
  · exact Reverts.fail _
  · rename_i writes _
    split
    · exact Reverts.fail _
    · refine Reverts.after (each_batchEntries cfg did micros writes 0) fun entries => ?_
      refine Reverts.after (reading_loadKey did) fun key => ?_
      refine Reverts.after ((Prog.each_ofExcept _ _ _).bind fun _ => trivial) fun writer => ?_
      refine yields_liftWriter (fun x t hx => ?_) (quits_applyManyParts writer _ rnd)
      cases x with
      | error e => exact fun _ _ => hx e rfl
      | ok a => exact fun _ he => nomatch he

end Worker

/-! ## Whole or in part -/

/-- In every state that calls have led to, the axum server's batch and
the embedded server's are all or nothing exactly when no write can fail
after one that went through. The Worker's always is. -/
theorem applyWrites_allOrNothing_iff (hL : RepoLaws L) (hT : RepoTotal L) (hV : TreeLaws L view)
    (hK : LinkLaws K) {calls : List (ServedCall L)}
    (hrun : Steps.run callStep (RepoStore.empty L) calls = some s) (did : String)
    (key : String → Except String L.Key) (treeGet : TreeGet L) :
    (∀ (cfg : XrpcConfig L) draws (input : ApplyWritesInput) micros,
      AllOrNothing view (axumEnv key treeGet) did s
          (expand draws 0 (applyWrites cfg did input micros))
        ↔ (input.repo = did → Spared view (axumEnv key treeGet) s did (cfg.parseDid did)
            (ApplyWritesWrite.toOp cfg (micros 0)) input.writes))
    ∧ (∀ (cfg : XrpcConfig L) draws (body : Json) micros,
      AllOrNothing view (embeddedEnv key treeGet) did s
          (expand draws 0 (Embedded.applyWrites cfg did body micros))
        ↔ ((body.field "repo").asStr = some did →
            ∀ ws, (body.field "writes").asArr = some ws →
              Spared view (embeddedEnv key treeGet) s did (cfg.parseDid did)
                (Embedded.toOp cfg (micros 0)) ws))
    ∧ ∀ (cfg : Worker.RepoConfig L) decodeRecord bearer body micros rnd,
      AllOrNothing view (Worker.env cfg key treeGet decodeRecord) did s
        (Worker.applyWrites cfg bearer body micros rnd) := by
  have hs := atRest_run hL hV hK hrun
  refine ⟨fun cfg draws input micros => ?_, fun cfg draws body micros => ?_,
    fun cfg decodeRecord bearer body micros rnd => ?_⟩
  · exact axum_applyWrites_iff cfg hL hT hV hK hs input micros
  · exact Embedded.applyWrites_iff cfg hL hT hV hK hs body micros
  · exact (Worker.reverts_applyWrites cfg bearer body micros rnd).allOrNothing hV hs.toCallsInv did

end

/-! ## A batch that creates one record twice -/

def batchServer : XrpcConfig sampleRepo where
  oauth := {
    dpop := ⟨sampleJose, []⟩
    issuerUrl := "https://pds.test"
    audience := "did:web:pds.test"
    signAccessToken := fun claims => .ok s!"a.{claims.scope}.s"
    hashSecret := id }
  tokenKey := sampleJwk
  decodeJwt _ := .error .invalidToken
  parseDid _ := .ok ()
  jsonValueToIpld _ := .ok (7 : Nat)
  cidText _ := "cid"
  blobCid _ := "cid"
  headerValue _ := true
  appviewDid := "did:web:api.bsky.app"
  appviewUrl := "https://api.bsky.app"

def sampleTwice : ApplyWritesInput where
  repo := "did:plc:alice"
  writes := [.create "app.bsky.feed.post" (some "1") .null,
    .create "app.bsky.feed.post" (some "1") .null]

def sampleTwiceBody : Json :=
  let write : Json := .obj [("$type", .str "com.atproto.repo.applyWrites#create"),
    ("collection", .str "app.bsky.feed.post"), ("rkey", .str "1"), ("value", .obj [])]
  .obj [("repo", .str "did:plc:alice"), ("writes", .arr [write, write])]


theorem not_allOrNothing_of_run {L : RepoLib} {ε ε' α : Type} {view : TreeView L}
    {env : RecordEnv L ε} {did : String} {s : RepoStore L} {p : Prog (recordSig L ε) ε' α}
    {n : Nat} (hn : n ≠ s.rows.length) (fates : List WriterFate)
    (hrun : (p.against (RecordOp.exec env 0) s fates).map
      (fun r => (r.1.isOk, r.2.rows.length)) = some (false, n)) :
    ¬ AllOrNothing view env did s p := by
  intro hall
  obtain ⟨⟨x, t⟩, hx, hlook⟩ := Option.map_eq_some_iff.mp hrun
  obtain ⟨hbad, hlen⟩ := Prod.mk.injEq .. |>.mp hlook
  cases x with
  | ok a => cases hbad
  | error e => exact hn (hlen.symm.trans (congrArg List.length (hall fates e t hx).rows))

/-- The second create fails after the commit of the first. -/
theorem sampleTwice_in_part :
    ¬ AllOrNothing sampleView (axumEnv (fun _ => .ok ()) sampleTreeGet) "did:plc:alice"
        (RepoStore.empty sampleRepo) (expand (fun _ => sampleDraw) 0
          (applyWrites batchServer "did:plc:alice" sampleTwice fun _ => 0))
    ∧ ¬ AllOrNothing sampleView (embeddedEnv (fun _ => .ok ()) sampleTreeGet) "did:plc:alice"
        (RepoStore.empty sampleRepo) (expand (fun _ => sampleDraw) 0
          (Embedded.applyWrites batchServer "did:plc:alice" sampleTwiceBody fun _ => 0)) := by
  have hone : (1 : Nat) ≠ (RepoStore.empty sampleRepo).rows.length := by decide
  constructor
  · exact not_allOrNothing_of_run hone (List.replicate 23 .done) (by decide +kernel)
  · exact not_allOrNothing_of_run hone (List.replicate 23 .done) (by decide +kernel)

/-- Where the record is there already, the first create fails. -/
theorem sampleTwice_whole : ∃ s,
    Steps.run callStep (RepoStore.empty sampleRepo) (sampleCalls.take 1) = some s
    ∧ AllOrNothing sampleView (axumEnv (fun _ => .ok ()) sampleTreeGet) "did:plc:alice" s
        (expand (fun _ => sampleDraw) 0
          (applyWrites batchServer "did:plc:alice" sampleTwice fun _ => 0)) := by
  have hrun : ((Steps.run callStep (RepoStore.empty sampleRepo) (sampleCalls.take 1)).map fun s =>
      (mapOf sampleView s "did:plc:alice").map fun m => (m "app.bsky.feed.post/1").isSome)
        = some (some true) := by decide +kernel
  obtain ⟨s, hs, hlook⟩ := Option.map_eq_some_iff.mp hrun
  obtain ⟨m, hm, hkey⟩ := Option.map_eq_some_iff.mp hlook
  obtain ⟨haxum, -, -⟩ := applyWrites_allOrNothing_iff sampleRepo_laws sampleRepo_total
    sampleRepo_treeLaws sampleRepo_linkLaws hs "did:plc:alice" (fun _ => .ok ()) sampleTreeGet
  refine ⟨s, hs, (haxum _ _ _ _).mpr fun _ => Or.inr (Or.inr ?_)⟩
  intro w hw op m' hop hm'
  obtain rfl := Option.some.inj hw
  obtain rfl := Except.ok.inj (hop.symm.trans (by rfl :
    ApplyWritesWrite.toOp batchServer 0 (.create "app.bsky.feed.post" (some "1") .null)
      = .ok (.create "app.bsky.feed.post/1" (7 : Nat))))
  obtain rfl := Option.some.inj (hm'.symm.trans hm)
  simp [WriteOp.onMap, hkey]

end Stelyph
