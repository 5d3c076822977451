import Stelyph.OauthScope
import Stelyph.SingleCode

/-!
# Where tokens come from

Every refresh token, and every access token issued with it, goes back
through rotations to a redeemed code, from there to a submission that
gave the account's password, and from there to a pushed request that was
validated against its client's own metadata. The log says where: an
`Authorization` names the request and the submission, a `Redemption` the
exchange, a `Lineage` the rotations.
-/

namespace Stelyph

section

variable {Keypair : Type}

/-- The request task `i` serves. -/
def requestAt (P : ServerPool Keypair) (i : Nat) : Option (ServerRequest Keypair) :=
  P.tasks[i]?.map Prod.fst

/-- Task `i` executed `o` and was answered `r`. -/
def Logged (P : ServerPool Keypair) (i : Nat) (o : ServerOp) (r : o.Ret) : Prop :=
  (⟨i, o, r⟩ : Event serverSig) ∈ P.log

/-- The record of a refresh token was stored. -/
def StoredBy (P : ServerPool Keypair) (i : Nat) (rec : RefreshTokenRecord) : Prop :=
  Logged P i (.oauth (.putRefreshToken rec)) (.ok ())

def Issued (P : ServerPool Keypair) (rec : RefreshTokenRecord) : Prop := ∃ i, StoredBy P i rec

/-- The client's metadata: its own, or the document found under its
identifier. -/
def Resolved (state : AppState Keypair) (P : ServerPool Keypair) (i : Nat) (clientId : ClientId)
    (metadata : ClientMetadata) : Prop :=
  clientId.loopbackMetadata = some metadata
    ∨ ∃ r, Logged P i (.fetch clientId.asStr) r ∧ state.readMetadata r = .ok metadata

/-- A pushed request that was validated and stored: the request, the
client it resolved to, and the record. -/
structure Accepted (state : AppState Keypair) (P : ServerPool Keypair) where
  pushing : Nat
  par : ParRequest
  clientId : ClientId
  metadata : ClientMetadata
  dpopJkt : Option String
  requestUri : String
  stored : StoredPushedRequest
  started : requestAt P pushing = some (.par par)
  parsed : ClientId.parse state.parseUrl par.form.clientId = .ok clientId
  resolved : Resolved state P pushing clientId metadata
  registered : metadata.validate clientId = .ok ()
  validated : par.form.validate state.oauth.dpop.jose state.oauth.hashSecret clientId metadata
    dpopJkt par.handle par.validateNow = .ok ⟨requestUri, stored⟩
  pushed : Logged P pushing (.oauth (.putPushedRequest stored)) (.ok ())

/-- A submission that found the pushed request, gave the password of the
account and stored a code. -/
structure Authorization (state : AppState Keypair) (P : ServerPool Keypair) extends
    Accepted state P where
  submission : Nat
  form : AuthorizeForm
  did : String
  phc : String
  submitted : requestAt P submission = some (.authorizeSubmit form)
  accepts : form.action = "accept"
  loaded : Logged P submission
    (.oauth (.getPushedRequest (state.oauth.hashSecret form.requestUri) form.loadNow))
    (.ok (some stored))
  found : Logged P submission
    (.account (.getAccountByHandle (AppState.normalizeUsername form.username)))
    (.ok (some (did, phc)))
  verified : state.server.verifyPassword form.password phc = .ok true
  minted : Logged P submission (.oauth (.putAuthCode (state.authCode stored did form))) (.ok ())

/-- The code the authorization was answered with: made of the pushed
request, the account and the form. -/
def Authorization.code {state : AppState Keypair} {P : ServerPool Keypair}
    (A : Authorization state P) : AuthCode :=
  state.authCode A.stored A.did A.form

/-- A code exchanged for the first token of a session. -/
structure Redemption (state : AppState Keypair) (P : ServerPool Keypair) extends
    Authorization state P where
  redeeming : Nat
  token : TokenRequest
  first : RefreshTokenRecord
  presented : requestAt P redeeming = some (.token token)
  redeemed : ∃ hash now, Logged P redeeming (.oauth (.consumeAuthCode hash now))
    (.ok (some toAuthorization.code))
  checked : Redeems state.oauth token toAuthorization.code first
  kept : StoredBy P redeeming first

/-- One task consumed the old record and stored the new one. -/
def Rotated (P : ServerPool Keypair) (old rec : RefreshTokenRecord) : Prop :=
  ∃ i q, requestAt P i = some (.token q)
    ∧ (∃ hash now, Logged P i (.oauth (.consumeRefreshToken hash now)) (.ok (.consumed old)))
    ∧ Rotates q old rec ∧ StoredBy P i rec

/-- The tokens of the session that `first` began. -/
inductive Lineage (P : ServerPool Keypair) (first : RefreshTokenRecord) :
    RefreshTokenRecord → Prop where
  | first : Lineage P first first
  | rotated {old rec : RefreshTokenRecord} : Lineage P first old → Rotated P old rec →
      Lineage P first rec

/-! ## What may be said of a token -/

/-- A record of the session that `R` began. -/
structure Provenance {state : AppState Keypair} {P : ServerPool Keypair} (R : Redemption state P)
    (rec : RefreshTokenRecord) : Prop where
  lineage : Lineage P R.first rec
  did : rec.did = R.did
  clientId : rec.clientId = R.clientId.asStr
  atproto : ∃ s, Scope.parse rec.scope = .ok s ∧ s.contains Scope.atproto = true
  /-- No token asks for more than the one before it. -/
  narrowed : rec = R.first
    ∨ ∃ old, Lineage P R.first old ∧ Rotated P old rec ∧ Scope.Within rec.scope old.scope
  requested : Scope.Within rec.scope R.stored.scope
  registered : R.metadata.scope.isEmpty = true ∨ Scope.Within rec.scope R.metadata.scope
  session : rec.sessionId = R.token.newSessionId
  key : rec.dpopJkt = R.first.dpopJkt
  boundKey : ∀ jkt, R.stored.dpopJkt = some jkt → rec.dpopJkt = jkt
  verifier : ∃ v, R.token.form.codeVerifier = some v
    ∧ state.oauth.dpop.jose.base64urlEncode (state.oauth.dpop.jose.sha256 (Text.bytes v))
      = R.stored.codeChallenge
  redirectUri : R.token.form.redirectUri = some R.stored.redirectUri

/-- No two token requests draw the same session. -/
def DistinctSessions (P : ServerPool Keypair) : Prop :=
  ∀ i j q q', requestAt P i = some (.token q) → requestAt P j = some (.token q') →
    q.newSessionId = q'.newSessionId → i = j

/-- What holds of every reachable state: each stored token was issued,
each answer carries the claims of an issued record, and each issued record
goes back to an authorization by redemptions. -/
structure OauthProvenance (state : AppState Keypair) (P : ServerPool Keypair) : Prop where
  stored : ∀ hash row, P.store.oauth.refresh.get hash = some row → Issued P row.1
  /-- An access token carries the claims of the record stored with it. -/
  answered : ∀ (i : Nat) q r, P.tasks[i]? = some (q, .ret (.tokens r)) →
    ∃ q' rec, Issued P rec ∧ Answers state.oauth q' rec r
  issued : ∀ rec, Issued P rec → ∃ R : Redemption state P, Provenance R rec
  sessions : DistinctSessions P → ∀ rec rec', Issued P rec → Issued P rec' →
    rec.sessionId = rec'.sessionId → rec.dpopJkt = rec'.dpopJkt

end

/-! ## One session -/

theorem verifyChallenge_ok {jose : JoseLib} {challenge v : String}
    (h : verifyChallenge jose challenge v = .ok ()) :
    jose.base64urlEncode (jose.sha256 (Text.bytes v)) = challenge := by
  rw [verifyChallenge] at h
  split at h
  · cases h
  · split at h
    · cases h
    · split at h
      · rename_i heq
        exact beq_iff_eq.mp heq
      · cases h

/-- What a validated request's record says: the client as it was resolved,
the key of its proof, and a scope that the client has declared, where it
declares one. -/
structure Validated (client : ClientMetadata) (clientId : ClientId) (dpopJkt : Option String)
    (stored : StoredPushedRequest) : Prop where
  clientId : stored.clientId = clientId.asStr
  dpopJkt : stored.dpopJkt = dpopJkt
  scope : ∃ raw s, Scope.parse raw = .ok s ∧ stored.scope = s.display
    ∧ (client.scope.isEmpty = true
      ∨ ∃ declared, Scope.parse client.scope = .ok declared ∧ s.isSubsetOf declared = true)

theorem requestedScope_ok {q : PushedRequest} {client : ClientMetadata} {s : Scope}
    (h : q.requestedScope client = .ok s) : ∃ raw, Scope.parse raw = .ok s
      ∧ (client.scope.isEmpty = true
        ∨ ∃ declared, Scope.parse client.scope = .ok declared ∧ s.isSubsetOf declared = true) := by
  rw [PushedRequest.requestedScope] at h
  cases hparse : Scope.parse (q.scope.getD "") with
  | error e =>
      rw [hparse] at h
      cases h
  | ok requested =>
      rw [hparse] at h
      simp only [bind, Except.bind] at h
      split at h
      · rename_i hempty
        obtain rfl := Except.ok.inj h
        exact ⟨_, hparse, Or.inl hempty⟩
      · cases hdeclared : Scope.parse client.scope with
        | error e =>
            rw [hdeclared] at h
            cases h
        | ok declared =>
            rw [hdeclared] at h
            simp only at h
            split at h
            · cases h
            · rename_i hsub
              obtain rfl := Except.ok.inj h
              exact ⟨_, hparse, Or.inr ⟨declared, rfl, by simpa using hsub⟩⟩

theorem validate_ok {q : PushedRequest} {jose : JoseLib} {hashSecret : String → String}
    {clientId : ClientId} {client : ClientMetadata} {dpopJkt : Option String} {handle : String}
    {now : Nat} {requestUri : String} {stored : StoredPushedRequest}
    (h : q.validate jose hashSecret clientId client dpopJkt handle now = .ok ⟨requestUri, stored⟩) :
    Validated client clientId dpopJkt stored := by
  rw [PushedRequest.validate] at h
  split at h
  · cases h
  · split at h
    · cases h
    · split at h
      · cases h
      · split at h
        · cases h
        · cases hscope : q.requestedScope client with
          | error e =>
              rw [hscope] at h
              cases h
          | ok s =>
              rw [hscope] at h
              simp only [bind, Except.bind] at h
              split at h
              · cases h
              · rename_i challenge _
                cases hchallenge : parseChallenge jose challenge q.codeChallengeMethod with
                | error e =>
                    rw [hchallenge] at h
                    cases h
                | ok challenge =>
                    rw [hchallenge] at h
                    obtain ⟨-, rfl⟩ := AuthorizationRequest.mk.injEq .. |>.mp (Except.ok.inj h)
                    obtain ⟨raw, hraw, hclient⟩ := requestedScope_ok hscope
                    exact ⟨rfl, rfl, raw, s, hraw, rfl, hclient⟩

section

variable {Keypair : Type} {state : AppState Keypair} {P : ServerPool Keypair}

/-- What every token of a session shares, and how its scope shrinks. -/
structure SameSession (first rec : RefreshTokenRecord) : Prop where
  did : rec.did = first.did
  clientId : rec.clientId = first.clientId
  scope : Scope.Within rec.scope first.scope
  session : rec.sessionId = first.sessionId
  key : rec.dpopJkt = first.dpopJkt

theorem within_of_rotates {q : TokenRequest} {old rec : RefreshTokenRecord}
    (h : Rotates q old rec) : Scope.Within rec.scope old.scope := by
  obtain ⟨granted, s, hgranted, hnarrow, hscope⟩ := h.scope
  rw [hscope]
  exact narrowScope_within hgranted hnarrow

theorem Lineage.sameSession {first rec : RefreshTokenRecord} {s : Scope}
    (hfirst : Scope.parse first.scope = .ok s) (h : Lineage P first rec) :
    SameSession first rec := by
  induction h with
  | first => exact ⟨rfl, rfl, Scope.within_self hfirst, rfl, rfl⟩
  | rotated _ hrot ih =>
      obtain ⟨i, q, -, -, hrotates, -⟩ := hrot
      exact ⟨hrotates.did.trans ih.did, hrotates.clientId.trans ih.clientId,
        (within_of_rotates hrotates).trans ih.scope, hrotates.session.trans ih.session,
        hrotates.key.trans ih.key⟩

/-- The facts a session's tokens inherit from its redemption. -/
theorem provenance_of_lineage (R : Redemption state P) {rec : RefreshTokenRecord}
    (h : Lineage P R.first rec) : Provenance R rec := by
  have hval := validate_ok R.validated
  obtain ⟨raw, s, hraw, hstored, hclient⟩ := hval.scope
  have hread : Scope.parse R.stored.scope = .ok s := by
    rw [hstored]
    exact Scope.parse_display hraw
  have hfirst : R.first.scope = s.display := by
    obtain ⟨s', hs', hscope⟩ := R.checked.scope
    obtain rfl := Except.ok.inj (hread.symm.trans hs')
    exact hscope
  have hsame : SameSession R.first rec :=
    h.sameSession (by rw [hfirst]; exact Scope.parse_display hraw)
  have hrequested : Scope.Within rec.scope R.stored.scope := by
    rw [hstored, ← hfirst]
    exact hsame.scope
  refine ⟨h, hsame.did.trans R.checked.did, ?_, hrequested.atproto, ?_, hrequested, ?_,
    hsame.session.trans R.checked.session, hsame.key, fun jkt hjkt => ?_, ?_,
    R.checked.redirectUri⟩
  · exact (hsame.clientId.trans R.checked.clientId).trans hval.clientId
  · cases h with
    | first => exact Or.inl rfl
    | rotated hold hrot =>
        obtain ⟨i, q, hreq, hconsumed, hrotates, hkept⟩ := hrot
        exact Or.inr ⟨_, hold, ⟨i, q, hreq, hconsumed, hrotates, hkept⟩,
          within_of_rotates hrotates⟩
  · rcases hclient with hempty | ⟨declared, hdeclared, hsub⟩
    · exact Or.inl hempty
    · refine Or.inr (hrequested.trans ⟨s, declared, hread, hdeclared, hsub⟩)
  · exact hsame.key.trans (R.checked.key jkt hjkt)
  · obtain ⟨v, hv, hverify⟩ := R.checked.verifier
    exact ⟨v, hv, verifyChallenge_ok hverify⟩

/-! ## The log only grows -/

structure LogGrows (P P' : ServerPool Keypair) : Prop where
  log : ∀ e ∈ P.log, e ∈ P'.log
  tasks : ∀ i q, requestAt P i = some q → requestAt P' i = some q

variable {P' : ServerPool Keypair}

theorem LogGrows.logged (hG : LogGrows P P') {i : Nat} {o : ServerOp} {r : o.Ret}
    (h : Logged P i o r) : Logged P' i o r := hG.log _ h

theorem LogGrows.resolved (hG : LogGrows P P') {i : Nat} {clientId : ClientId} {md : ClientMetadata}
    (h : Resolved state P i clientId md) : Resolved state P' i clientId md :=
  h.imp_right fun ⟨r, hlogged, hread⟩ => ⟨r, hG.logged hlogged, hread⟩

theorem LogGrows.rotated (hG : LogGrows P P') {old rec : RefreshTokenRecord}
    (h : Rotated P old rec) : Rotated P' old rec := by
  obtain ⟨i, q, hreq, ⟨hash, now, hconsumed⟩, hrotates, hkept⟩ := h
  exact ⟨i, q, hG.tasks i _ hreq, ⟨hash, now, hG.logged hconsumed⟩, hrotates, hG.logged hkept⟩

theorem LogGrows.lineage (hG : LogGrows P P') {first rec : RefreshTokenRecord}
    (h : Lineage P first rec) : Lineage P' first rec := by
  induction h with
  | first => exact .first
  | rotated _ hrot ih => exact .rotated ih (hG.rotated hrot)

def Accepted.mono (hG : LogGrows P P') (A : Accepted state P) : Accepted state P' :=
  { A with
    started := hG.tasks _ _ A.started
    resolved := hG.resolved A.resolved
    pushed := hG.logged A.pushed }

def Authorization.mono (hG : LogGrows P P') (A : Authorization state P) : Authorization state P' :=
  { A with
    toAccepted := A.toAccepted.mono hG
    submitted := hG.tasks _ _ A.submitted
    loaded := hG.logged A.loaded
    found := hG.logged A.found
    minted := hG.logged A.minted }

def Redemption.mono (hG : LogGrows P P') (R : Redemption state P) : Redemption state P' :=
  { R with
    toAuthorization := R.toAuthorization.mono hG
    presented := hG.tasks _ _ R.presented
    redeemed := by
      obtain ⟨hash, now, h⟩ := R.redeemed
      exact ⟨hash, now, hG.logged h⟩
    checked := R.checked
    kept := hG.logged R.kept }

/-! ## The store -/

theorem OauthStore.codes_of_exec {s : OauthStore} {o : OauthOp} {c : StoreOutcome} {k : String}
    {code : AuthCode} (h : (o.exec s c).2.codes.get k = some code) :
    s.codes.get k = some code ∨ (o = .putAuthCode code ∧ c = .done) := by
  cases c with
  | fault msg => exact Or.inl h
  | done =>
      cases o with
      | putAuthCode code' =>
          rcases Table.get_insert_eq_some.mp h with ⟨-, rfl⟩ | ⟨-, h⟩
          · exact Or.inr ⟨rfl, rfl⟩
          · exact Or.inl h
      | consumeAuthCode hash now => exact Or.inl (Table.get_retain_eq_some.mp h).1
      | purgeExpired now => exact Or.inl (Table.get_retain_eq_some.mp h).1
      | consumeRefreshToken hash now =>
          refine Or.inl ?_
          simp only [OauthOp.exec, OauthOp.apply, consumeRefreshToken] at h
          split at h
          · exact h
          · split_ifs at h <;> exact h
      | revokeRefreshToken hash =>
          refine Or.inl ?_
          simp only [OauthOp.exec, OauthOp.apply, revokeRefreshToken] at h
          split at h <;> exact h
      | recordDpopJti jti expiresAt =>
          refine Or.inl ?_
          simp only [OauthOp.exec, OauthOp.apply, recordDpopJti] at h
          split at h <;> exact h
      | _ => exact Or.inl h

/-- A record's being spent is all that changes about it. -/
theorem OauthStore.refresh_of_exec {s : OauthStore} {o : OauthOp} {c : StoreOutcome} {k : String}
    {row : RefreshTokenRecord × Bool} (h : (o.exec s c).2.refresh.get k = some row) :
    (∃ row', s.refresh.get k = some row' ∧ row'.1 = row.1)
      ∨ (o = .putRefreshToken row.1 ∧ c = .done) := by
  cases c with
  | fault msg => exact Or.inl ⟨row, h, rfl⟩
  | done =>
      cases o with
      | putRefreshToken rec =>
          rcases Table.get_insert_eq_some.mp h with ⟨-, rfl⟩ | ⟨-, h⟩
          · exact Or.inr ⟨rfl, rfl⟩
          · exact Or.inl ⟨row, h, rfl⟩
      | consumeRefreshToken hash now =>
          refine Or.inl ?_
          simp only [OauthOp.exec, OauthOp.apply, consumeRefreshToken] at h
          split at h
          · exact ⟨row, h, rfl⟩
          · rename_i rec used hget
            split_ifs at h
            · exact ⟨row, h, rfl⟩
            · exact ⟨row, h, rfl⟩
            · rcases Table.get_insert_eq_some.mp h with ⟨rfl, rfl⟩ | ⟨-, h⟩
              · exact ⟨_, hget, rfl⟩
              · exact ⟨row, h, rfl⟩
      | revokeSession sessionId => exact Or.inl ⟨row, (Table.get_retain_eq_some.mp h).1, rfl⟩
      | purgeExpired now => exact Or.inl ⟨row, (Table.get_retain_eq_some.mp h).1, rfl⟩
      | revokeRefreshToken hash =>
          refine Or.inl ⟨row, ?_, rfl⟩
          simp only [OauthOp.exec, OauthOp.apply, revokeRefreshToken] at h
          split at h
          · exact h
          · exact (Table.get_retain_eq_some.mp h).1
      | recordDpopJti jti expiresAt =>
          refine Or.inl ⟨row, ?_, rfl⟩
          simp only [OauthOp.exec, OauthOp.apply, recordDpopJti] at h
          split at h <;> exact h
      | _ => exact Or.inl ⟨row, h, rfl⟩

theorem OauthStore.get_of_consumeAuthCode {s : OauthStore} {hash : String} {now : Nat}
    {code : AuthCode} (h : (s.consumeAuthCode hash now).1 = some code) :
    s.codes.get hash = some code :=
  (Option.filter_eq_some_iff.mp h).1

theorem OauthStore.get_of_consumeRefreshToken {s : OauthStore} {hash : String} {now : Nat}
    {rec : RefreshTokenRecord} (h : (s.consumeRefreshToken hash now).1 = .consumed rec) :
    ∃ row, s.refresh.get hash = some row ∧ row.1 = rec := by
  rw [consumeRefreshToken] at h
  split at h
  · cases h
  · rename_i rec' used hget
    split_ifs at h
    obtain rfl := ConsumeResult.consumed.inj h
    exact ⟨_, hget, rfl⟩

/-! ## The client's document -/

/-- A pushed request fetches the document of its own client. -/
def fetchesOwn (state : AppState Keypair) : ServerRequest Keypair → ServerOp → Prop
  | .par q, .fetch url =>
      ∃ clientId, ClientId.parse state.parseUrl q.form.clientId = .ok clientId
        ∧ url = clientId.asStr
  | _, _ => True

theorem serverHandler_fetchesOwn (q : ServerRequest Keypair) :
    (serverHandler state q).Each (fetchesOwn state q) := by
  cases q with
  | par q =>
      refine .bind (Prog.Each.hoist ?_) fun _ => trivial
      rw [AppState.pushedAuthorizationRequest]
      cases hparse : ClientId.parse state.parseUrl q.form.clientId with
      | error e => trivial
      | ok clientId =>
          change Prog.Each _ ((state.resolve clientId).bind _)
          refine Prog.Each.bind ?_ fun resolved => ?_
          · rw [AppState.resolve]
            split
            · exact .bind (Prog.each_ofExcept _ _ _) fun _ => trivial
            · refine .bind (.ask ⟨clientId, hparse, rfl⟩) fun _ => ?_
              exact .bind (Prog.each_ofExcept _ _ _) fun _ =>
                .bind (Prog.each_ofExcept _ _ _) fun _ => trivial
          · refine .bind ?_ fun dpopJkt => .bind (Prog.each_ofExcept _ _ _) fun validated => ?_
            · rw [AppState.parDpop]
              split
              · trivial
              · exact .bind (Prog.Each.hoist (Prog.each_of_forall (fun _ => trivial) _))
                  fun _ => trivial
            · exact .bind (Prog.Each.hoist (Prog.each_of_forall (fun _ => trivial) _))
                fun _ => trivial
  | _ => exact Prog.each_of_forall (fun _ => trivial) _

/-! ## What a run keeps -/

/-- The submission found a request that was accepted. -/
def Loads (state : AppState Keypair) (P : ServerPool Keypair) (i : Nat) (q : AuthorizeForm)
    (stored : StoredPushedRequest) : Prop :=
  requestAt P i = some (.authorizeSubmit q)
    ∧ Logged P i (.oauth (.getPushedRequest (state.oauth.hashSecret q.requestUri) q.loadNow))
      (.ok (some stored))
    ∧ ∃ A : Accepted state P, A.stored = stored

/-- What the log says of a request that stands at a stage. -/
def Grounded (state : AppState Keypair) (P : ServerPool Keypair) (i : Nat) : ServerStage → Prop
  | .pushing q metadata => requestAt P i = some (.par q)
      ∧ ∀ md, metadata = some md → ∃ clientId,
        ClientId.parse state.parseUrl q.form.clientId = .ok clientId
          ∧ Resolved state P i clientId md
  | .loading q => requestAt P i = some (.authorizeSubmit q)
  | .loaded q stored => Loads state P i q stored
  | .authenticated q stored did => Loads state P i q stored ∧ q.action = "accept"
      ∧ ∃ phc, Logged P i
          (.account (.getAccountByHandle (AppState.normalizeUsername q.username)))
          (.ok (some (did, phc)))
        ∧ state.server.verifyPassword q.password phc = .ok true
  | .redeeming q => requestAt P i = some (.token q)
  | .redeemed q code => requestAt P i = some (.token q)
      ∧ (∃ hash now, Logged P i (.oauth (.consumeAuthCode hash now)) (.ok (some code)))
      ∧ ∃ A : Authorization state P, A.code = code
  | .rotating q old => requestAt P i = some (.token q)
      ∧ (∃ hash now, Logged P i (.oauth (.consumeRefreshToken hash now)) (.ok (.consumed old)))
      ∧ Issued P old
  | .issued _ rec => Issued P rec
  | _ => True

structure ProvInv (state : AppState Keypair) (P : ServerPool Keypair) : Prop where
  followed : Pool.Followed (serverStages state) (startStage state) (EndsAs state) P
  obeys : Pool.Obeys (fetchesOwn state) P
  par : ∀ k stored, P.store.oauth.par.get k = some stored →
    ∃ A : Accepted state P, A.stored = stored
  codes : ∀ k code, P.store.oauth.codes.get k = some code →
    ∃ A : Authorization state P, A.code = code
  refresh : ∀ k row, P.store.oauth.refresh.get k = some row → Issued P row.1
  issued : ∀ rec, Issued P rec → ∃ R : Redemption state P, Lineage P R.first rec
  /-- A request issues one token. -/
  settled : ∀ i rec, StoredBy P i rec → ∃ q, stageOf state P i = some (.issued q rec)
  stages : ∀ i t, stageOf state P i = some t → Grounded state P i t

theorem LogGrows.issued (hG : LogGrows P P') {rec : RefreshTokenRecord} (h : Issued P rec) :
    Issued P' rec := by
  obtain ⟨i, hi⟩ := h
  exact ⟨i, hG.logged hi⟩

theorem LogGrows.loads (hG : LogGrows P P') {i : Nat} {q : AuthorizeForm}
    {stored : StoredPushedRequest} (h : Loads state P i q stored) : Loads state P' i q stored := by
  obtain ⟨hreq, hload, A, hA⟩ := h
  exact ⟨hG.tasks i _ hreq, hG.logged hload, A.mono hG, hA⟩

theorem LogGrows.grounded (hG : LogGrows P P') {i : Nat} {t : ServerStage}
    (h : Grounded state P i t) : Grounded state P' i t := by
  cases t with
  | pushing q metadata =>
      refine ⟨hG.tasks i _ h.1, fun md hmd => ?_⟩
      obtain ⟨clientId, hparse, hresolved⟩ := h.2 md hmd
      exact ⟨clientId, hparse, hG.resolved hresolved⟩
  | loading q => exact hG.tasks i _ h
  | loaded q stored => exact hG.loads h
  | authenticated q stored did =>
      obtain ⟨hloads, haccept, phc, hfound, hverified⟩ := h
      exact ⟨hG.loads hloads, haccept, phc, hG.logged hfound, hverified⟩
  | redeeming q => exact hG.tasks i _ h
  | redeemed q code =>
      obtain ⟨hreq, ⟨hash, now, hconsumed⟩, A, hA⟩ := h
      exact ⟨hG.tasks i _ hreq, ⟨hash, now, hG.logged hconsumed⟩, A.mono hG, hA⟩
  | rotating q old =>
      obtain ⟨hreq, ⟨hash, now, hconsumed⟩, hold⟩ := h
      exact ⟨hG.tasks i _ hreq, ⟨hash, now, hG.logged hconsumed⟩, hG.issued hold⟩
  | issued q rec => exact hG.issued h
  | idle | refused | denied | minted q stored code => trivial

/-! ### A request starts -/

theorem grows_start (q : ServerRequest Keypair) (p : AnswerProg) :
    LogGrows P ⟨P.toWorld, P.tasks ++ [(q, p)]⟩ := by
  refine ⟨fun e he => he, fun i q' hq' => ?_⟩
  obtain ⟨x, hx, rfl⟩ := Option.map_eq_some_iff.mp hq'
  rw [requestAt, List.getElem?_append_left (List.getElem?_eq_some_iff.mp hx).1, hx]
  rfl

theorem grounded_start {i : Nat} {q : ServerRequest Keypair} (hreq : requestAt P i = some q) :
    Grounded state P i (startStage state q) := by
  cases q with
  | par q =>
      refine ⟨hreq, fun md hmd => ?_⟩
      obtain ⟨clientId, hparse, hloop⟩ := Option.bind_eq_some_iff.mp hmd
      refine ⟨clientId, ?_, Or.inl hloop⟩
      revert hparse
      cases ClientId.parse state.parseUrl q.form.clientId with
      | error e => exact fun h => nomatch h
      | ok c => exact fun h => congrArg _ (Option.some.inj h)
  | authorizeSubmit q => exact hreq
  | token q => exact hreq
  | _ => trivial

theorem provInv_start {q : ServerRequest Keypair} (hI : ProvInv state P)
    (hfollowed : Pool.Followed (serverStages state) (startStage state) (EndsAs state)
      ⟨P.toWorld, P.tasks ++ [(q, serverHandler state q)]⟩)
    (hobeys : Pool.Obeys (fetchesOwn state)
      (⟨P.toWorld, P.tasks ++ [(q, serverHandler state q)]⟩ : ServerPool Keypair)) :
    ProvInv state ⟨P.toWorld, P.tasks ++ [(q, serverHandler state q)]⟩ := by
  have hG : LogGrows P ⟨P.toWorld, P.tasks ++ [(q, serverHandler state q)]⟩ := grows_start q _
  refine ⟨hfollowed, hobeys, fun k stored hk => ?_, fun k code hk => ?_, hI.refresh,
    fun rec hrec => ?_, fun i rec hrec => ?_, fun i t ht => ?_⟩
  · obtain ⟨A, hA⟩ := hI.par k stored hk
    exact ⟨A.mono hG, hA⟩
  · obtain ⟨A, hA⟩ := hI.codes k code hk
    exact ⟨A.mono hG, hA⟩
  · obtain ⟨R, hR⟩ := hI.issued rec hrec
    exact ⟨R.mono hG, hG.lineage hR⟩
  · obtain ⟨q', hq'⟩ := hI.settled i rec hrec
    refine ⟨q', ?_⟩
    rw [stageOf, Pool.stageAt_start hI.followed.tids, if_neg]
    · exact hq'
    · exact Nat.ne_of_lt (hI.followed.tids _ hrec)
  · rw [stageOf, Pool.stageAt_start hI.followed.tids] at ht
    split at ht
    · rename_i hlen
      obtain rfl := Option.some.inj ht
      refine grounded_start ?_
      rw [requestAt, hlen, List.getElem?_concat_length]
      rfl
    · exact hG.grounded (hI.stages i t ht)

/-! ### An operation is executed -/

section

variable {i : Nat} {q : ServerRequest Keypair} {o : ServerOp} {r : o.Ret}

theorem Executes.grows (hE : Executes state P P' i q o r) : LogGrows P P' := by
  obtain ⟨k, htask, heq⟩ := hE.before
  rw [heq]
  refine ⟨fun e he => List.mem_append_left _ he, fun j q' hq' => ?_⟩
  by_cases hj : j = i
  · subst hj
    have hlt : j < P.tasks.length := (List.getElem?_eq_some_iff.mp htask).1
    rw [requestAt, htask] at hq'
    rw [requestAt, List.getElem?_set_self hlt]
    exact hq'
  · rw [requestAt, List.getElem?_set_ne (Ne.symm hj)]
    exact hq'

theorem Executes.logged (hE : Executes state P P' i q o r) : Logged P' i o r := by
  obtain ⟨k, -, heq⟩ := hE.before
  rw [heq]
  exact List.mem_append_right _ List.mem_cons_self

theorem Executes.logged_cases (hE : Executes state P P' i q o r) {j : Nat} {o' : ServerOp}
    {r' : o'.Ret} (h : Logged P' j o' r') :
    Logged P j o' r' ∨ (⟨j, o', r'⟩ : Event serverSig) = ⟨i, o, r⟩ := by
  obtain ⟨k, -, heq⟩ := hE.before
  rw [heq] at h
  exact (List.mem_append.mp h).imp_right List.mem_singleton.mp

/-- The task's request, and that the operation is one of its own. -/
theorem Executes.request (hE : Executes state P P' i q o r) : requestAt P i = some q := by
  obtain ⟨k, htask, -⟩ := hE.before
  rw [requestAt, htask]
  rfl

theorem Executes.allowed (hE : Executes state P P' i q o r)
    (hfollowed : Pool.Followed (serverStages state) (startStage state) (EndsAs state) P) :
    o.allowedIn state (stageBefore state P i q) := by
  obtain ⟨k, htask, -⟩ := hE.before
  exact (hfollowed.tasks i q _ htask).1

theorem Executes.fetchesOwn (hE : Executes state P P' i q o r)
    (hobeys : Pool.Obeys (fetchesOwn state) P) : fetchesOwn state q o := by
  obtain ⟨k, htask, -⟩ := hE.before
  exact (hobeys.1 i q _ htask).1

theorem not_allowedIn_issued {q : TokenRequest} {rec : RefreshTokenRecord} {o : ServerOp} :
    ¬ o.allowedIn state (.issued q rec) := by
  intro h
  cases o with
  | oauth o => cases o <;> exact h
  | account o => cases o <;> exact h
  | _ => exact h

variable {t' : ServerStage} {c : ServerOutcome}

/-- The stage a request reaches is one the log accounts for. -/
theorem grounded_step (hE : Executes state P P' i q o r) (hI : ProvInv state P)
    (hexec : o.exec P.store c = some (r, P'.store))
    (hmoves : Moves state (stageBefore state P i q) o r t') : Grounded state P' i t' := by
  have hG := hE.grows
  have hlog := hE.logged
  have hground := hI.stages i _ hE.stageOf_self
  generalize stageBefore state P i q = t at hmoves hground
  cases hmoves with
  | @fetch q' metadata url r =>
      refine ⟨hG.tasks i _ hground.1, fun md hmd => ?_⟩
      have hreq : q = .par q' := Option.some.inj (hE.request.symm.trans hground.1)
      have hown := hE.fetchesOwn hI.obeys
      rw [hreq] at hown
      obtain ⟨clientId, hparse, rfl⟩ := hown
      refine ⟨clientId, hparse, Or.inr ⟨r, hlog, ?_⟩⟩
      revert hmd
      cases state.readMetadata r with
      | error e => exact fun h => nomatch h
      | ok md' => exact fun h => congrArg _ (Option.some.inj h)
  | push _ => trivial
  | @load q' stored =>
      obtain ⟨c', -, hr, -⟩ := ServerOp.exec_oauth hexec
      cases c' with
      | fault msg => cases hr
      | done =>
          have hget : P.store.oauth.getPushedRequest (state.oauth.hashSecret q'.requestUri)
              q'.loadNow = some stored := (Except.ok.inj hr).symm
          obtain ⟨A, hA⟩ := hI.par _ stored (Option.filter_eq_some_iff.mp hget).1
          exact ⟨hG.tasks i _ hground, hlog, A.mono hG, hA⟩
  | deny _ => trivial
  | authenticate haccept hverify =>
      exact ⟨hG.loads hground, haccept, _, hlog, hverify⟩
  | mint => trivial
  | close => trivial
  | @redeem q' hash now code =>
      obtain ⟨c', -, hr, -⟩ := ServerOp.exec_oauth hexec
      cases c' with
      | fault msg => cases hr
      | done =>
          obtain ⟨A, hA⟩ := hI.codes hash code
            (OauthStore.get_of_consumeAuthCode (Except.ok.inj hr).symm)
          exact ⟨hG.tasks i _ hground, ⟨hash, now, hlog⟩, A.mono hG, hA⟩
  | @rotate q' hash now old =>
      obtain ⟨c', -, hr, -⟩ := ServerOp.exec_oauth hexec
      cases c' with
      | fault msg => cases hr
      | done =>
          obtain ⟨row, hrow, rfl⟩ :=
            OauthStore.get_of_consumeRefreshToken (Except.ok.inj hr).symm
          exact ⟨hG.tasks i _ hground, ⟨hash, now, hlog⟩, hG.issued (hI.refresh hash row hrow)⟩
  | issueRedeemed _ => exact ⟨i, hlog⟩
  | issueRotated _ => exact ⟨i, hlog⟩
  | rest _ hend =>
      rcases hend with rfl | rfl | ⟨rfl, -⟩
      · trivial
      · trivial
      · exact hG.grounded hground

/-- A pushed request is stored after it was accepted. -/
theorem accepted_step {stored : StoredPushedRequest}
    {r : (ServerOp.oauth (.putPushedRequest stored)).Ret}
    (hE : Executes state P P' i q (.oauth (.putPushedRequest stored)) r) (hI : ProvInv state P)
    (hmoves : Moves state (stageBefore state P i q) (.oauth (.putPushedRequest stored)) r t')
    (hr : r = .ok ()) : ∃ A : Accepted state P', A.stored = stored := by
  subst hr
  have hG := hE.grows
  have hlog := hE.logged
  have hground := hI.stages i _ hE.stageOf_self
  generalize stageBefore state P i q = t at hmoves hground
  cases hmoves with
  | push haccepts =>
      obtain ⟨clientId, md, dpopJkt, requestUri, hparse, hmd, hvalid, hval⟩ := haccepts
      obtain ⟨hreq, hresolved⟩ := hground
      obtain ⟨clientId', hparse', hres⟩ := hresolved md hmd
      obtain rfl := Except.ok.inj (hparse.symm.trans hparse')
      exact ⟨⟨i, _, clientId, md, dpopJkt, requestUri, stored, hG.tasks i _ hreq, hparse,
        hG.resolved hres, hvalid, hval, hlog⟩, rfl⟩
  | rest hinert _ => exact hinert.elim

/-- A code is stored after the password was verified. -/
theorem authorized_step {code : AuthCode} {r : (ServerOp.oauth (.putAuthCode code)).Ret}
    (hE : Executes state P P' i q (.oauth (.putAuthCode code)) r) (hI : ProvInv state P)
    (hmoves : Moves state (stageBefore state P i q) (.oauth (.putAuthCode code)) r t')
    (hr : r = .ok ()) : ∃ A : Authorization state P', A.code = code := by
  subst hr
  have hG := hE.grows
  have hlog := hE.logged
  have hground := hI.stages i _ hE.stageOf_self
  generalize stageBefore state P i q = t at hmoves hground
  cases hmoves with
  | @mint q' stored did =>
      obtain ⟨⟨hreq, hload, A, rfl⟩, haccept, phc, hfound, hverified⟩ := hground
      exact ⟨⟨A.mono hG, i, q', did, phc, hG.tasks i _ hreq, haccept, hG.logged hload,
        hG.logged hfound, hverified, hlog⟩, rfl⟩
  | rest hinert _ => exact hinert.elim

/-- A token is stored after a code or an older token was redeemed. -/
theorem issued_step {rec : RefreshTokenRecord}
    {r : (ServerOp.oauth (.putRefreshToken rec)).Ret}
    (hE : Executes state P P' i q (.oauth (.putRefreshToken rec)) r) (hI : ProvInv state P)
    (hmoves : Moves state (stageBefore state P i q) (.oauth (.putRefreshToken rec)) r t')
    (hr : r = .ok ()) : (∃ R : Redemption state P', Lineage P' R.first rec)
      ∧ ∃ q', t' = .issued q' rec := by
  subst hr
  have hG := hE.grows
  have hlog := hE.logged
  have hground := hI.stages i _ hE.stageOf_self
  generalize stageBefore state P i q = t at hmoves hground
  cases hmoves with
  | @issueRedeemed q' code _ hredeems =>
      obtain ⟨hreq, ⟨hash, now, hconsumed⟩, A, rfl⟩ := hground
      refine ⟨⟨⟨A.mono hG, i, q', rec, hG.tasks i _ hreq, ⟨hash, now, hG.logged hconsumed⟩,
        hredeems, hlog⟩, .first⟩, q', rfl⟩
  | @issueRotated q' old _ hrotates =>
      obtain ⟨hreq, ⟨hash, now, hconsumed⟩, hold⟩ := hground
      obtain ⟨R, hR⟩ := hI.issued old hold
      refine ⟨⟨R.mono hG, .rotated (hG.lineage hR) ?_⟩, q', rfl⟩
      exact ⟨i, q', hG.tasks i _ hreq, ⟨hash, now, hG.logged hconsumed⟩, hrotates, hlog⟩
  | rest hinert _ => exact hinert.elim

theorem provInv_step (hE : Executes state P P' i q o r) (hI : ProvInv state P)
    (hexec : o.exec P.store c = some (r, P'.store))
    (hobeys : Pool.Obeys (Stelyph.fetchesOwn state) P') : ProvInv state P' := by
  have hG := hE.grows
  have hmoves := moves_of_allowed (hE.allowed hI.followed) r
  have hput : ∀ j rec, StoredBy P' j rec → StoredBy P j rec
      ∨ (j = i ∧ (∃ R : Redemption state P', Lineage P' R.first rec)
        ∧ ∃ q', ServerOp.nextStage state (stageBefore state P i q) o r = .issued q' rec) := by
    intro j rec hrec
    rcases hE.logged_cases hrec with hold | hnew
    · exact Or.inl hold
    · cases hnew
      exact Or.inr ⟨rfl, issued_step hE hI hmoves rfl⟩
  refine ⟨hE.follows, hobeys, fun k stored hk => ?_, fun k code hk => ?_, fun k row hk => ?_,
    fun rec hrec => ?_, fun j rec hrec => ?_, fun j t hj => ?_⟩
  · rcases ServerOp.exec_cases hexec with hsame | ⟨o', c', rfl, -, -⟩
    · rw [hsame] at hk
      obtain ⟨A, hA⟩ := hI.par k stored hk
      exact ⟨A.mono hG, hA⟩
    · obtain ⟨c', -, hr, hs⟩ := ServerOp.exec_oauth hexec
      rw [hs] at hk
      rcases OauthStore.par_exec hk with hold | ⟨rfl, rfl, -⟩
      · obtain ⟨A, hA⟩ := hI.par k stored hold
        exact ⟨A.mono hG, hA⟩
      · exact accepted_step hE hI hmoves hr
  · rcases ServerOp.exec_cases hexec with hsame | ⟨o', c', rfl, -, -⟩
    · rw [hsame] at hk
      obtain ⟨A, hA⟩ := hI.codes k code hk
      exact ⟨A.mono hG, hA⟩
    · obtain ⟨c', -, hr, hs⟩ := ServerOp.exec_oauth hexec
      rw [hs] at hk
      rcases OauthStore.codes_of_exec hk with hold | ⟨rfl, rfl⟩
      · obtain ⟨A, hA⟩ := hI.codes k code hold
        exact ⟨A.mono hG, hA⟩
      · exact authorized_step hE hI hmoves hr
  · rcases ServerOp.exec_cases hexec with hsame | ⟨o', c', rfl, -, -⟩
    · rw [hsame] at hk
      exact hG.issued (hI.refresh k row hk)
    · obtain ⟨c', -, hr, hs⟩ := ServerOp.exec_oauth hexec
      rw [hs] at hk
      rcases OauthStore.refresh_of_exec hk with ⟨row', hold, hsame⟩ | ⟨rfl, rfl⟩
      · rw [← hsame]
        exact hG.issued (hI.refresh k row' hold)
      · obtain rfl := hr
        exact ⟨i, hE.logged⟩
  · obtain ⟨j, hj⟩ := hrec
    rcases hput j rec hj with hold | ⟨-, hissued, -⟩
    · obtain ⟨R, hR⟩ := hI.issued rec ⟨j, hold⟩
      exact ⟨R.mono hG, hG.lineage hR⟩
    · exact hissued
  · rcases hput j rec hrec with hold | ⟨rfl, -, q', hstage⟩
    · obtain ⟨q', hq'⟩ := hI.settled j rec hold
      refine ⟨q', ?_⟩
      rw [hE.stageOf, if_neg]
      · exact hq'
      · -- a request that has issued a token issues nothing more
        rintro rfl
        have hbefore := Option.some.inj (hE.stageOf_self.symm.trans hq')
        have hallowed := hE.allowed hI.followed
        rw [hbefore] at hallowed
        exact not_allowedIn_issued hallowed
    · refine ⟨q', ?_⟩
      rw [hE.stageOf, if_pos rfl, hstage]
  · rw [hE.stageOf] at hj
    split at hj
    · rename_i hji
      subst hji
      obtain rfl := Option.some.inj hj
      exact grounded_step hE hI hexec hmoves
    · exact hG.grounded (hI.stages j t hj)

end

theorem provInv_next {a : ServerAct Keypair} (hI : ProvInv state P)
    (hnext : serverStep state P a = some P') : ProvInv state P' := by
  have hfollowed := Pool.followed_next serverHandler_follows hI.followed hnext
  have hobeys := Pool.obeys_next serverHandler_fetchesOwn P a P' hI.obeys hnext
  rcases Pool.next_cases hnext with ⟨q, rfl, rfl⟩ | ⟨i, c, q, o, k, r, s, rfl, htask, hexec, rfl⟩
  · exact provInv_start hI hfollowed hobeys
  · have hE : Executes state P ⟨P.toWorld.after i o r s, P.tasks.set i (q, k r)⟩ i q o r :=
      ⟨⟨k, htask, rfl⟩, hfollowed⟩
    exact provInv_step hE hI hexec hobeys

theorem not_logged_init {accounts : AccountStore} {i : Nat} {o : ServerOp} {r : o.Ret} :
    ¬ Logged (Pool.init ⟨accounts, OauthStore.empty⟩ : ServerPool Keypair) i o r :=
  fun h => List.not_mem_nil h

theorem provInv_init (accounts : AccountStore) :
    ProvInv state (Pool.init ⟨accounts, OauthStore.empty⟩) where
  followed := ⟨fun _ he => (List.not_mem_nil he).elim, fun i q p hi => by simp [Pool.init] at hi⟩
  obeys := ⟨fun i q p hi => by simp [Pool.init] at hi, fun _ he => (List.not_mem_nil he).elim⟩
  par k stored hk := by cases hk
  codes k code hk := by cases hk
  refresh k row hk := by cases hk
  issued rec hrec := by
    obtain ⟨i, hi⟩ := hrec
    exact (not_logged_init hi).elim
  settled i rec hrec := (not_logged_init hrec).elim
  stages i t ht := by simp [stageOf, Pool.stageAt, Pool.init] at ht

/-- Two sessions with one identifier are the same session. -/
theorem one_session (hI : ProvInv state P) (hdistinct : DistinctSessions P)
    {rec rec' : RefreshTokenRecord} (h : Issued P rec) (h' : Issued P rec')
    (hsession : rec.sessionId = rec'.sessionId) : rec.dpopJkt = rec'.dpopJkt := by
  obtain ⟨R, hR⟩ := hI.issued rec h
  obtain ⟨R', hR'⟩ := hI.issued rec' h'
  have hprov := provenance_of_lineage R hR
  have hprov' := provenance_of_lineage R' hR'
  have hdrawn : R.token.newSessionId = R'.token.newSessionId :=
    (hprov.session.symm.trans hsession).trans hprov'.session
  have htask := hdistinct _ _ _ _ R.presented R'.presented hdrawn
  obtain ⟨q, hq⟩ := hI.settled _ _ R.kept
  obtain ⟨q', hq'⟩ := hI.settled _ _ R'.kept
  rw [htask] at hq
  obtain ⟨-, hfirst⟩ := ServerStage.issued.inj (Option.some.inj (hq.symm.trans hq'))
  rw [hprov.key, hprov'.key, hfirst]

/-- **Provenance of every token.** In every run from an empty store, each
token that was issued goes back, by what was stored on the way, to a code
or to the token before it in its session, and from there to a submission
with the account's password and to a request that was validated when it
was pushed. The invariant says so of every row; a request that is under
way has what it read in its stage. -/
theorem oauth_provenance {state : AppState Keypair} {accounts : AccountStore}
    {as : List (ServerAct Keypair)} {P : ServerPool Keypair}
    (hrun : Steps.run (serverStep state) (Pool.init ⟨accounts, OauthStore.empty⟩) as = some P) :
    OauthProvenance state P := by
  have hI : ProvInv state P :=
    Steps.run_inv (fun _ _ _ hI hnext => provInv_next hI hnext) (provInv_init accounts) hrun
  refine ⟨hI.refresh, fun i q r hi => ?_, fun rec hrec => ?_,
    fun hdistinct rec rec' h h' => one_session hI hdistinct h h'⟩
  · obtain ⟨q', rec, hstage, hanswers⟩ := hI.followed.tasks i q _ hi
    refine ⟨q', rec, ?_, hanswers⟩
    have hground := hI.stages i _ (Pool.stageAt_of_task hi)
    rw [hstage] at hground
    exact hground
  · obtain ⟨R, hR⟩ := hI.issued rec hrec
    exact ⟨R, provenance_of_lineage R hR⟩

end

/-! ### A session of two tokens -/

def sampleExchange (form : TokenForm) (proof next session : String) : ServerRequest Nat :=
  .token {
    form := form, dpopHeaders := [some s!"h.{proof}.s"], dpopNow := 1000, nonceNow := 1000
    redeemNow := 1020, accessNow := 1020, refreshNow := 1020
    newRefreshToken := next, newSessionId := session, newJti := "j" }

/-- A request is pushed and accepted, its code redeemed and the token
rotated once. -/
def sampleSession : List (ServerAct Nat) :=
  samplePushed ++ [.start (sampleSubmit "accept" "c0"), .step 1 .done, .step 1 .done,
    .step 1 .done, .step 1 .done, .start (sampleExchange sampleCodeForm "p1" "t0" "s0"),
    .step 2 .done, .step 2 .done, .step 2 .done,
    .start (sampleExchange sampleRefreshForm "p3" "t1" "s1"), .step 3 .done, .step 3 .done,
    .step 3 .done]

theorem sampleSession_provenance : ∃ P : ServerPool Nat,
    Steps.run (serverStep sampleApp) sampleStart sampleSession = some P
    ∧ P.store.oauth.refresh.rows.map (fun row => (row.1, row.2.1.sessionId, row.2.2))
      = [("hash:t0", "s0", true), ("hash:t1", "s0", false)]
    ∧ OauthProvenance sampleApp P := by
  have hrows : (Steps.run (serverStep sampleApp) sampleStart sampleSession).map
      (fun P => P.store.oauth.refresh.rows.map fun row => (row.1, row.2.1.sessionId, row.2.2))
      = some [("hash:t0", "s0", true), ("hash:t1", "s0", false)] := by decide +kernel
  obtain ⟨P, hrun, hP⟩ := Option.map_eq_some_iff.mp hrows
  exact ⟨P, hrun, hP, oauth_provenance hrun⟩

end Stelyph
