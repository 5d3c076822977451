import Stelyph.DpopReplay
import Stelyph.TokenEndpoint

/-!
# Revoking a refresh chain

A session is revoked by deleting the rows of its chain: by a grant that
was told its token is already spent, or by `/oauth/revoke`. Rotation is
two store calls, the redemption of one token and the insertion of the
next, and nothing looks for a revocation in between. So a revocation is
final exactly if no grant of the session stands between its two calls.

The argument follows one session from its revocation on: its chain has
no rows, and no request is about to insert one. A request gets to insert
a row of the chain only by redeeming a row of it (`Fine`, `LastPut`).
-/

namespace Stelyph

/-- What acts on the tokens of a session after its code: refresh grants
and revocations. -/
inductive ChainRequest where
  | refresh (q : TokenRequest)
  | revoke (token : String)

section

variable (cfg : OauthConfig)

def chainHandler : ChainRequest → OauthProg (Option TokenResponse)
  | .refresh q =>
      (tokenHandle cfg { q with form := { q.form with grantType := "refresh_token" } }).bind
        fun r => .ret (some r)
  | .revoke token => (revoke cfg token).bind fun _ => .ret none

abbrev ChainPool := Pool oauthSig ChainRequest OAuthError (Option TokenResponse) OauthStore

/-- One step: a grant or a revocation comes in, or one under way does its
next store call. Every interleaving is a run. -/
def chainStep (P : ChainPool) (a : PoolAct ChainRequest StoreOutcome) : Option ChainPool :=
  Pool.next oauthMachine (chainHandler cfg) P a

end

/-- The session that a step revokes, read off the store before it. -/
def revokedBy (P : ChainPool) : PoolAct ChainRequest StoreOutcome → Option String
  | .step i .done =>
      match P.tasks[i]? with
      | some (_, .op (.revokeSession sessionId) _) => some sessionId
      | some (_, .op (.revokeRefreshToken hash) _) =>
          (P.store.refresh.get hash).map fun row => row.1.sessionId
      | _ => none
  | _ => none

/-- The session of the token that a step redeems, read off the store before it. -/
def redeemedBy (P : ChainPool) : PoolAct ChainRequest StoreOutcome → Option String
  | .step i .done =>
      match P.tasks[i]? with
      | some (_, .op (.consumeRefreshToken hash now) _) =>
          match (P.store.consumeRefreshToken hash now).1 with
          | .consumed rec => some rec.sessionId
          | _ => none
      | _ => none
  | _ => none

/-- What is left of the request is to store the next token of the session. -/
def aboutToPut {α : Type} (sessionId : String) : OauthProg α → Bool
  | .op (.putRefreshToken rec) _ => rec.sessionId == sessionId
  | _ => false

/-- No revocation is made while a grant of the session has redeemed its
token and not yet stored the next one. -/
def noGrantInFlight (P : ChainPool) (a : PoolAct ChainRequest StoreOutcome) : Bool :=
  match revokedBy P a with
  | some sessionId => !P.tasks.any fun t => aboutToPut sessionId t.2
  | none => true

/-! ## The shape of a request -/

section

variable {α β : Type}

/-- The record an answer redeems. -/
def redeemed : (o : OauthOp) → Except StorageError o.Value → Option RefreshTokenRecord
  | .consumeRefreshToken _ _, .ok (.consumed rec) => some rec
  | _, _ => none

def OauthOp.isPut : OauthOp → Bool
  | .putRefreshToken _ => true
  | _ => false

/-- At most one more operation: storing a token of this session. -/
def LastPut (sessionId : String) (p : OauthProg α) : Prop :=
  p.outcome.isSome ∨
    ∃ rec k, p = .op (.putRefreshToken rec) k ∧ rec.sessionId = sessionId
      ∧ ∀ r, (k r).outcome.isSome

/-- Nothing is stored except as the last operation after a redemption,
and then for the session that was redeemed. -/
def Fine : OauthProg α → Prop
  | .ret _ => True
  | .fail _ => True
  | .op o k => o.isPut = false ∧ ∀ r,
      (∀ rec, redeemed o r = some rec → LastPut rec.sessionId (k r))
        ∧ (redeemed o r = none → Fine (k r))

theorem fine_of_ended {p : OauthProg α} (h : p.outcome.isSome) : Fine p := by
  cases p with
  | ret a => trivial
  | fail e => trivial
  | op o k => cases h

/-- Operations that neither redeem nor store a refresh token. -/
def OauthOp.Plain : OauthOp → Prop
  | .putRefreshToken _ => False
  | .consumeRefreshToken _ _ => False
  | _ => True

theorem OauthOp.Plain.isPut {o : OauthOp} (h : o.Plain) : o.isPut = false := by
  cases o <;> first | rfl | exact h.elim

theorem OauthOp.Plain.redeemed {o : OauthOp} (h : o.Plain)
    (r : Except StorageError o.Value) : redeemed o r = none := by
  cases o <;> first | rfl | exact h.elim

theorem Fine.bind_plain {f : α → OauthProg β} (hf : ∀ a, Fine (f a)) :
    ∀ {p : OauthProg α}, p.Each OauthOp.Plain → Fine (p.bind f)
  | .ret a, _ => hf a
  | .fail _, _ => trivial
  | .op o k, hp => by
      refine ⟨hp.1.isPut, fun r => ⟨fun rec h => ?_, fun _ => Fine.bind_plain hf (hp.2 r)⟩⟩
      rw [hp.1.redeemed r] at h
      cases h

theorem outcome_map {f : α → β} {p : OauthProg α} (h : p.outcome.isSome) :
    (p.bind fun a => .ret (f a)).outcome.isSome := by
  cases p with
  | ret a => rfl
  | fail e => rfl
  | op o k => cases h

theorem LastPut.map {f : α → β} {sessionId : String} {p : OauthProg α}
    (h : LastPut sessionId p) : LastPut sessionId (p.bind fun a => .ret (f a)) := by
  rcases h with h | ⟨rec, k, rfl, hrec, hk⟩
  · exact Or.inl (outcome_map h)
  · exact Or.inr ⟨rec, _, rfl, hrec, fun r => outcome_map (hk r)⟩

theorem Fine.map {f : α → β} : ∀ {p : OauthProg α}, Fine p →
    Fine (p.bind fun a => .ret (f a))
  | .ret _, _ => trivial
  | .fail _, _ => trivial
  | .op _ _, h => ⟨h.1, fun r => ⟨fun rec hr => ((h.2 r).1 rec hr).map,
      fun hr => ((h.2 r).2 hr).map⟩⟩

end

/-! ## The handlers have it -/

section

variable {cfg : OauthConfig}

/-- The only store call of a DPoP check. -/
theorem each_verify {p : OauthOp → Prop} (hp : ∀ jti e, p (.recordDpopJti jti e))
    {v : DpopVerifier} {req : DpopRequest} : (v.verify req).Each p := by
  refine Prog.Each.bind (Prog.each_ofExcept ..) fun _ => ?_
  refine Prog.Each.bind (Prog.each_ofExcept ..) fun _ => ?_
  refine Prog.Each.bind ⟨hp _ _, fun r => Prog.each_ofExcept ..⟩ fun fresh => ?_
  split <;> trivial

theorem each_verifyDpop {p : OauthOp → Prop} (hp : ∀ jti e, p (.recordDpopJti jti e))
    {q : TokenRequest} : (verifyDpop cfg q).Each p := by
  unfold verifyDpop
  split
  · trivial
  · trivial
  · exact each_verify hp
  · trivial

theorem lastPut_ofExcept_bind {α β : Type} {sessionId : String} {x : Except OAuthError α}
    {f : α → OauthProg β} (hf : ∀ a, LastPut sessionId (f a)) :
    LastPut sessionId ((Prog.ofExcept id x : OauthProg α).bind f) := by
  cases x with
  | error e => exact Or.inl rfl
  | ok a => exact hf a

theorem lastPut_issue {did clientId jkt sessionId : String} {scope : Scope} {q : TokenRequest} :
    LastPut sessionId (issue cfg did clientId scope jkt (some sessionId) q) := by
  refine lastPut_ofExcept_bind fun x => Or.inr ⟨_, _, rfl, rfl, fun r => ?_⟩
  cases r <;> rfl

theorem lastPut_refreshChecks {q : TokenRequest} {proof : DpopProof}
    {record : RefreshTokenRecord} :
    LastPut record.sessionId (refreshChecks cfg q proof record) := by
  unfold refreshChecks
  split_ifs
  · exact Or.inl rfl
  · exact Or.inl rfl
  · exact lastPut_ofExcept_bind fun granted => lastPut_ofExcept_bind fun scope => lastPut_issue

theorem fine_refreshTokenGrant {q : TokenRequest} {proof : DpopProof} :
    Fine (refreshTokenGrant cfg q proof) := by
  unfold refreshTokenGrant
  split
  · trivial
  · refine ⟨rfl, fun r => ?_⟩
    rcases r with e | (record | sessionId | -)
    · exact ⟨fun rec h => (by cases h), fun _ => trivial⟩
    · refine ⟨fun rec h => ?_, fun h => by cases h⟩
      obtain rfl := Option.some.inj h
      exact lastPut_refreshChecks
    · refine ⟨fun rec h => (by cases h), fun _ => ⟨rfl, fun r => ⟨fun rec h => (by cases h), ?_⟩⟩⟩
      intro _
      cases r <;> trivial
    · exact ⟨fun rec h => (by cases h), fun _ => trivial⟩

theorem fine_chainHandler (q : ChainRequest) : Fine (chainHandler cfg q) := by
  cases q with
  | refresh q => exact Fine.map (Fine.bind_plain (fun _ => fine_refreshTokenGrant)
      (each_verifyDpop fun _ _ => trivial))
  | revoke token => exact ⟨rfl, fun r => ⟨fun rec h => (by cases h), fun _ => trivial⟩⟩

end

/-! ## One session, from its revocation on -/

/-- What is left of a request in any state of a run. -/
def Settled {α : Type} (p : OauthProg α) : Prop := Fine p ∨ ∃ sessionId, LastPut sessionId p

def OauthStore.NoRows (s : OauthStore) (sessionId : String) : Prop :=
  ∀ hash row, s.refresh.get hash = some row → row.1.sessionId ≠ sessionId

/-- The chain has no rows and no request is about to insert one. -/
structure Revoked (sessionId : String) (P : ChainPool) : Prop where
  rows : P.store.NoRows sessionId
  tasks : ∀ (i : Nat) q p, P.tasks[i]? = some (q, p) → aboutToPut sessionId p = false

def AllSettled (P : ChainPool) : Prop :=
  ∀ (i : Nat) q p, P.tasks[i]? = some (q, p) → Settled p

theorem aboutToPut_of_ended {α : Type} {sessionId : String} {p : OauthProg α}
    (h : p.outcome.isSome) : aboutToPut sessionId p = false := by
  cases p with
  | ret a => rfl
  | fail e => rfl
  | op o k => cases h

theorem aboutToPut_of_fine {α : Type} {sessionId : String} {p : OauthProg α} (h : Fine p) :
    aboutToPut sessionId p = false := by
  cases p with
  | ret a => rfl
  | fail e => rfl
  | op o k =>
      have := h.1
      cases o <;> first | rfl | cases this

theorem aboutToPut_of_lastPut {α : Type} {sessionId s : String} {p : OauthProg α}
    (h : LastPut s p) (hne : s ≠ sessionId) : aboutToPut sessionId p = false := by
  rcases h with h | ⟨rec, k, rfl, hrec, -⟩
  · exact aboutToPut_of_ended h
  · simpa [aboutToPut, hrec] using hne

theorem Settled.next {α : Type} {o : OauthOp} {k : Except StorageError o.Value → OauthProg α}
    (h : Settled (.op o k : OauthProg α)) (r : Except StorageError o.Value) :
    Settled (k r) := by
  rcases h with h | ⟨s, h | ⟨rec, k', heq, -, hk⟩⟩
  · cases hr : redeemed o r with
    | none => exact Or.inl ((h.2 r).2 hr)
    | some rec => exact Or.inr ⟨_, (h.2 r).1 rec hr⟩
  · cases h
  · cases heq
    exact Or.inl (fine_of_ended (hk r))

/-- What a request is about to do after an answer that redeems no token
of the session. -/
theorem Settled.aboutToPut_next {α : Type} {sessionId : String} {o : OauthOp}
    {k : Except StorageError o.Value → OauthProg α} (h : Settled (.op o k : OauthProg α))
    {r : Except StorageError o.Value}
    (hr : ∀ rec, redeemed o r = some rec → rec.sessionId ≠ sessionId) :
    aboutToPut sessionId (k r) = false := by
  rcases h with h | ⟨s, h | ⟨rec, k', heq, -, hk⟩⟩
  · cases hred : redeemed o r with
    | none => exact aboutToPut_of_fine ((h.2 r).2 hred)
    | some rec => exact aboutToPut_of_lastPut ((h.2 r).1 rec hred) (hr rec hred)
  · cases h
  · cases heq
    exact aboutToPut_of_ended (hk r)

/-! ### What a store call does to a chain without rows -/

namespace OauthStore

variable {s : OauthStore} {sessionId : String}

theorem NoRows.insert (h : s.NoRows sessionId) {hash : String}
    {row : RefreshTokenRecord × Bool} (hrow : row.1.sessionId ≠ sessionId) :
    NoRows { s with refresh := s.refresh.insert hash row } sessionId := by
  intro hash' row' hget
  rcases Table.get_insert_eq_some.mp hget with ⟨rfl, rfl⟩ | ⟨-, hget⟩
  · exact hrow
  · exact h hash' row' hget

theorem NoRows.retain (h : s.NoRows sessionId)
    (p : String → RefreshTokenRecord × Bool → Bool) :
    NoRows { s with refresh := s.refresh.retain p } sessionId :=
  fun hash row hget => h hash row (Table.get_retain_eq_some.mp hget).1

theorem noRows_dropSession (s : OauthStore) (sessionId : String) :
    (s.dropSession sessionId).NoRows sessionId := by
  intro hash row hget
  simpa using (Table.get_retain_eq_some.mp hget).2

theorem NoRows.dropSession (h : s.NoRows sessionId) (other : String) :
    (s.dropSession other).NoRows sessionId := h.retain _

/-- Only a live row of the table is redeemed. -/
theorem consumeRefreshToken_consumed {hash : String} {now : Nat} {rec : RefreshTokenRecord}
    (h : (s.consumeRefreshToken hash now).1 = .consumed rec) :
    s.refresh.get hash = some (rec, false) := by
  unfold consumeRefreshToken at h
  split at h
  · cases h
  · rename_i rec' used hget
    split_ifs at h with hexp hused
    obtain rfl := ConsumeResult.consumed.inj h
    rw [hget, Bool.eq_false_of_not_eq_true hused]

theorem NoRows.consumeRefreshToken (h : s.NoRows sessionId) (hash : String) (now : Nat) :
    (s.consumeRefreshToken hash now).2.NoRows sessionId := by
  unfold OauthStore.consumeRefreshToken
  split
  · exact h
  · rename_i rec used hget
    split_ifs
    · exact h
    · exact h
    · have hrec : rec.sessionId ≠ sessionId := h hash _ hget
      exact h.insert hrec

theorem NoRows.revokeRefreshToken (h : s.NoRows sessionId) (hash : String) :
    (s.revokeRefreshToken hash).2.NoRows sessionId := by
  unfold OauthStore.revokeRefreshToken
  split
  · exact h
  · exact h.dropSession _

theorem recordDpopJti_refresh (jti : String) (expiresAt : Nat) :
    (s.recordDpopJti jti expiresAt).2.refresh = s.refresh := by
  unfold OauthStore.recordDpopJti
  split_ifs <;> rfl

end OauthStore

theorem noRows_apply {s : OauthStore} {sessionId : String} {o : OauthOp}
    (h : s.NoRows sessionId)
    (hput : ∀ rec, o = .putRefreshToken rec → rec.sessionId ≠ sessionId) :
    (o.apply s).2.NoRows sessionId := by
  cases o with
  | putPushedRequest req => exact h
  | getPushedRequest hash now => exact h
  | deletePushedRequest hash => exact h
  | putAuthCode code => exact h
  | consumeAuthCode hash now => exact h
  | putRefreshToken rec => exact h.insert (hput rec rfl)
  | consumeRefreshToken hash now => exact h.consumeRefreshToken hash now
  | revokeSession other => exact h.dropSession other
  | revokeRefreshToken hash => exact h.revokeRefreshToken hash
  | recordDpopJti jti expiresAt =>
      intro hash row hget
      rw [OauthOp.apply, OauthStore.recordDpopJti_refresh] at hget
      exact h hash row hget
  | purgeExpired now => exact h.retain _

/-- A chain without rows is not redeemed from. -/
theorem redeemed_exec {s : OauthStore} {sessionId : String} {o : OauthOp} {c : StoreOutcome}
    (h : s.NoRows sessionId) {rec : RefreshTokenRecord}
    (hr : redeemed o (o.exec s c).1 = some rec) : rec.sessionId ≠ sessionId := by
  cases c with
  | fault msg => cases o <;> cases hr
  | done =>
      cases o with
      | consumeRefreshToken hash now =>
          cases hres : (s.consumeRefreshToken hash now).1 with
          | consumed rec' =>
              simp only [OauthOp.exec, OauthOp.apply, hres, redeemed, Option.some.injEq] at hr
              subst hr
              exact h hash _ (OauthStore.consumeRefreshToken_consumed hres)
          | reused s => simp [OauthOp.exec, OauthOp.apply, hres, redeemed] at hr
          | notFound => simp [OauthOp.exec, OauthOp.apply, hres, redeemed] at hr
      | _ => cases hr

section

variable {cfg : OauthConfig}

theorem allSettled_next {P P' : ChainPool} {a : PoolAct ChainRequest StoreOutcome}
    (hP : AllSettled P) (h : chainStep cfg P a = some P') : AllSettled P' := by
  rcases Pool.next_cases h with ⟨q, rfl, rfl⟩ | ⟨i, c, q, o, k, r, s, rfl, htask, -, rfl⟩
  · intro j q' p hj
    rcases Pool.getElem?_append_cases hj with ⟨-, heq⟩ | hj
    · obtain ⟨rfl, rfl⟩ := Prod.mk.injEq .. |>.mp heq
      exact Or.inl (fine_chainHandler _)
    · exact hP j q' p hj
  · intro j q' p hj
    rcases Pool.getElem?_set_cases hj with ⟨rfl, heq⟩ | ⟨-, hj⟩
    · obtain ⟨rfl, rfl⟩ := Prod.mk.injEq .. |>.mp heq
      exact (hP _ _ _ htask).next r
    · exact hP j q' p hj

/-- Every step keeps a revoked session revoked. -/
theorem revoked_next {sessionId : String} {P P' : ChainPool}
    {a : PoolAct ChainRequest StoreOutcome} (hset : AllSettled P) (hP : Revoked sessionId P)
    (h : chainStep cfg P a = some P') : Revoked sessionId P' := by
  rcases Pool.next_cases h with ⟨q, rfl, rfl⟩ | ⟨i, c, q, o, k, r, s, rfl, htask, hexec, rfl⟩
  · refine ⟨hP.rows, fun j q' p hj => ?_⟩
    rcases Pool.getElem?_append_cases hj with ⟨-, heq⟩ | hj
    · obtain ⟨rfl, rfl⟩ := Prod.mk.injEq .. |>.mp heq
      exact aboutToPut_of_fine (fine_chainHandler _)
    · exact hP.tasks j q' p hj
  · obtain ⟨rfl, rfl⟩ := Prod.mk.injEq .. |>.mp (Option.some.inj hexec)
    refine ⟨?_, fun j q' p hj => ?_⟩
    · cases c with
      | fault msg => exact hP.rows
      | done =>
          refine noRows_apply hP.rows fun rec hrec => ?_
          subst hrec
          simpa [aboutToPut] using hP.tasks i q _ htask
    · rcases Pool.getElem?_set_cases hj with ⟨rfl, heq⟩ | ⟨-, hj⟩
      · obtain ⟨rfl, rfl⟩ := Prod.mk.injEq .. |>.mp heq
        exact (hset _ _ _ htask).aboutToPut_next fun rec => redeemed_exec hP.rows
      · exact hP.tasks j q' p hj

/-- The session's rows are gone when the revocation has run. -/
theorem noRows_of_revokedBy {sessionId : String} {P : ChainPool} {i : Nat} {c : StoreOutcome}
    {q : ChainRequest} {o : OauthOp}
    {k : Except StorageError o.Value → OauthProg (Option TokenResponse)}
    (htask : P.tasks[i]? = some (q, .op o k))
    (hrev : revokedBy P (.step i c) = some sessionId) :
    (o.exec P.store c).2.NoRows sessionId ∧ o.Plain := by
  cases c with
  | fault msg => cases hrev
  | done =>
      simp only [revokedBy, htask] at hrev
      cases o with
      | revokeSession other =>
          obtain rfl := Option.some.inj hrev
          exact ⟨OauthStore.noRows_dropSession _ _, trivial⟩
      | revokeRefreshToken hash =>
          obtain ⟨⟨rec, used⟩, hget, rfl⟩ := Option.map_eq_some_iff.mp hrev
          refine ⟨?_, trivial⟩
          simp only [OauthOp.exec, OauthOp.apply, OauthStore.revokeRefreshToken, hget]
          exact OauthStore.noRows_dropSession _ _
      | _ => cases hrev

/-- The revocation itself, when no grant of the session is in flight. -/
theorem revoked_of_revokedBy {sessionId : String} {P P' : ChainPool}
    {a : PoolAct ChainRequest StoreOutcome} (hset : AllSettled P)
    (hrev : revokedBy P a = some sessionId) (hnone : noGrantInFlight P a = true)
    (h : chainStep cfg P a = some P') : Revoked sessionId P' := by
  rcases Pool.next_cases h with ⟨q, rfl, rfl⟩ | ⟨i, c, q, o, k, r, s, rfl, htask, hexec, rfl⟩
  · cases hrev
  · obtain ⟨rfl, rfl⟩ := Prod.mk.injEq .. |>.mp (Option.some.inj hexec)
    obtain ⟨hrows, hplain⟩ := noRows_of_revokedBy htask hrev
    refine ⟨hrows, fun j q' p hj => ?_⟩
    rcases Pool.getElem?_set_cases hj with ⟨rfl, heq⟩ | ⟨-, hj⟩
    · obtain ⟨rfl, rfl⟩ := Prod.mk.injEq .. |>.mp heq
      refine (hset _ _ _ htask).aboutToPut_next fun rec hred => ?_
      rw [hplain.redeemed] at hred
      cases hred
    · simp only [noGrantInFlight, hrev, Bool.not_eq_true', List.any_eq_false] at hnone
      simpa using hnone _ (List.mem_of_getElem? hj)

theorem not_redeemedBy_of_revoked {sessionId : String} {P : ChainPool} (hP : Revoked sessionId P)
    (b : PoolAct ChainRequest StoreOutcome) : redeemedBy P b ≠ some sessionId := by
  intro hb
  unfold redeemedBy at hb
  split at hb
  · split at hb
    · split at hb
      · rename_i rec hres
        exact hP.rows _ _ (OauthStore.consumeRefreshToken_consumed hres) (Option.some.inj hb)
      · cases hb
    · cases hb
  · cases hb

theorem allSettled_init (store : OauthStore) : AllSettled (Pool.init store) := by
  intro i q p hi
  simp [Pool.init] at hi

/-- In every run in which no revocation is made while a grant of the
session has redeemed its token and not yet stored the next one, a
revoked session is never redeemed from again. -/
theorem revocation_final {store : OauthStore} {pre mid : List (PoolAct ChainRequest StoreOutcome)}
    {a b : PoolAct ChainRequest StoreOutcome} {P Q : ChainPool} {sessionId : String}
    (hP : Steps.run (chainStep cfg) (Pool.init store) pre = some P)
    (hrev : revokedBy P a = some sessionId)
    (hQ : Steps.run (chainStep cfg) (Pool.init store) (pre ++ a :: mid) = some Q)
    (hfree : Steps.Along (chainStep cfg) (fun P a => noGrantInFlight P a = true)
      (Pool.init store) (pre ++ a :: mid)) :
    redeemedBy Q b ≠ some sessionId := by
  have hset : AllSettled P :=
    Steps.run_inv (fun _ _ _ => allSettled_next) (allSettled_init store) hP
  obtain ⟨P₁, hP₁, hmid⟩ := Steps.run_append_eq_some.mp hQ
  obtain rfl := Option.some.inj (hP.symm.trans hP₁)
  obtain ⟨P', hstep, hrest⟩ := Steps.run_cons_eq_some.mp hmid
  have hnone := ((Steps.along_append.mp hfree).2 P hP).1
  have hP' : AllSettled P' ∧ Revoked sessionId P' :=
    ⟨allSettled_next hset hstep, revoked_of_revokedBy hset hrev hnone hstep⟩
  have hQ' : AllSettled Q ∧ Revoked sessionId Q :=
    Steps.run_inv (I := fun P => AllSettled P ∧ Revoked sessionId P)
      (fun _ _ _ hs h => ⟨allSettled_next hs.1 h, revoked_next hs.1 hs.2 h⟩) hP' hrest
  exact not_redeemedBy_of_revoked hQ'.2 b

end

/-! ## A revocation in the middle of a rotation -/

def sampleOauth : OauthConfig where
  dpop := sampleVerifier
  issuerUrl := "https://pds.test"
  audience := "did:web:pds.test"
  signAccessToken claims := .ok s!"at:{claims.sub}"
  hashSecret secret := s!"hash:{secret}"

def sampleChain : OauthStore :=
  OauthStore.empty.putRefreshToken {
    tokenHash := "hash:t0", sessionId := "s", did := "did:plc:alice"
    clientId := "https://app.test/client", scope := "atproto"
    dpopJkt := sampleJwk.thumbprint sampleJose, issuedAt := 900, expiresAt := 5000 }

/-- A refresh with `token`, given `next`, with a proof of its own. -/
def sampleRefresh (token next : String) : ChainRequest :=
  .refresh {
    form := { grantType := "refresh_token", clientId := "https://app.test/client"
              code := none, redirectUri := none, codeVerifier := none
              refreshToken := some token, scope := none }
    dpopHeaders := [some s!"h.{token}.s"], dpopNow := 1000, nonceNow := 1000
    redeemNow := 1000, accessNow := 1000, refreshNow := 1000
    newRefreshToken := next, newSessionId := "new", newJti := "j" }

/-- A grant redeems `t0`, the session is revoked, the grant stores `t1`,
and `t1` is redeemed. -/
theorem revocation_not_final :
    ¬ ∀ (cfg : OauthConfig) (store : OauthStore)
      (pre mid : List (PoolAct ChainRequest StoreOutcome))
      (a b : PoolAct ChainRequest StoreOutcome) (P Q : ChainPool) (sessionId : String),
      Steps.run (chainStep cfg) (Pool.init store) pre = some P →
      revokedBy P a = some sessionId →
      Steps.run (chainStep cfg) (Pool.init store) (pre ++ a :: mid) = some Q →
      redeemedBy Q b ≠ some sessionId := by
  intro h
  have hrev : (Steps.run (chainStep sampleOauth) (Pool.init sampleChain)
      [.start (sampleRefresh "t0" "t1"), .step 0 .done, .step 0 .done,
        .start (.revoke "t0")]).map (fun P => revokedBy P (.step 1 .done))
        = some (some "s") := by decide
  have hred : (Steps.run (chainStep sampleOauth) (Pool.init sampleChain)
      ([.start (sampleRefresh "t0" "t1"), .step 0 .done, .step 0 .done,
        .start (.revoke "t0")] ++ .step 1 .done ::
        [.step 0 .done, .start (sampleRefresh "t1" "t2"), .step 2 .done])).map
          (fun Q => redeemedBy Q (.step 2 .done)) = some (some "s") := by decide
  obtain ⟨P, hP, hrevP⟩ := Option.map_eq_some_iff.mp hrev
  obtain ⟨Q, hQ, hredQ⟩ := Option.map_eq_some_iff.mp hred
  exact h sampleOauth sampleChain _ _ _ _ P Q "s" hP hrevP hQ hredQ

/-- Revoked while no grant is in flight, the token is not redeemed. -/
theorem revocation_final_idle : ∃ P Q : ChainPool,
    Steps.run (chainStep sampleOauth) (Pool.init sampleChain) [.start (.revoke "t0")] = some P
    ∧ revokedBy P (.step 0 .done) = some "s"
    ∧ Steps.run (chainStep sampleOauth) (Pool.init sampleChain)
      ([.start (.revoke "t0")] ++ .step 0 .done ::
        [.start (sampleRefresh "t0" "t1"), .step 1 .done]) = some Q
    ∧ redeemedBy Q (.step 1 .done) ≠ some "s" := by
  have hrev : (Steps.run (chainStep sampleOauth) (Pool.init sampleChain)
      [.start (.revoke "t0")]).map (fun P => revokedBy P (.step 0 .done)) = some (some "s") := by
    decide
  obtain ⟨P, hP, hrevP⟩ := Option.map_eq_some_iff.mp hrev
  obtain ⟨Q, hQ⟩ := Option.isSome_iff_exists.mp (show (Steps.run (chainStep sampleOauth)
    (Pool.init sampleChain) ([.start (.revoke "t0")] ++ .step 0 .done ::
      [.start (sampleRefresh "t0" "t1"), .step 1 .done])).isSome by decide)
  exact ⟨P, Q, hP, hrevP, hQ, revocation_final hP hrevP hQ (by decide)⟩

end Stelyph
