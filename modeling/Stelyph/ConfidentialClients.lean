import Stelyph.Provenance
import Stelyph.RefreshHolder

/-!
# Confidential clients

A client may declare `private_key_jwt`, and its metadata is only accepted
with keys to verify its assertions (`ClientMetadata::validate`); the
discovery document offers the method. The token endpoint never reads an
assertion: `TokenForm` has no field for one. What a request needs is the
code with its verifier, or the refresh token, and a proof of the DPoP key
these are bound to.

So it is up to those who redeem the codes and the refresh tokens of a
client whether its tokens answer requests with an assertion. They do
where every request that finds one of these in the store carries one.
-/

namespace Stelyph

/-! ## Assertions -/

/-- The keys a client publishes: in its metadata, or at the URI there. -/
def ClientMetadata.publishedKeys (keysAt : String → Option Json) (md : ClientMetadata) :
    List Json :=
  ((md.jwks.or (md.jwksUri.bind keysAt)).bind fun jwks => (jwks.field "keys").asArr).getD []

/-- One of the client's keys verifies the assertion. -/
def ClientMetadata.attests (jose : JoseLib) (keysAt : String → Option Json) (md : ClientMetadata)
    (assertion : String) : Bool :=
  match Unverified.parse jose assertion with
  | .error _ => false
  | .ok jws => (md.publishedKeys keysAt).any fun key =>
      match jose.parseJwk key with
      | .error _ => false
      | .ok jwk => (Unverified.verifyWith jose Except.ok jws jwk).isOk

/-- The request carries an assertion of the client. -/
def TokenRequest.attested (jose : JoseLib) (keysAt : String → Option Json) (md : ClientMetadata)
    (q : TokenRequest) : Bool :=
  q.clientAssertion.any (md.attests jose keysAt)

section

variable {Keypair : Type} (state : AppState Keypair) (keysAt : String → Option Json)

/-- Whatever metadata a run has validated with `private_key_jwt`: tokens
issued under the `client_id` answer a request with an assertion that a
key published there verifies. -/
def ClientsAuthenticated (P : ServerPool Keypair) : Prop :=
  ∀ A : Accepted state P, A.metadata.tokenEndpointAuthMethod = "private_key_jwt" →
    ∀ i rec, StoredBy P i rec → rec.clientId = A.clientId.asStr →
      ∃ q, requestAt P i = some (.token q)
        ∧ q.attested state.oauth.dpop.jose keysAt A.metadata = true

/-- The client of the code or the refresh token that an operation finds in
the store. -/
def takesFrom (s : OauthStore) : ServerOp → Option String
  | .oauth (.consumeAuthCode hash now) => (s.liveCode hash now).map fun code => code.clientId
  | .oauth (.consumeRefreshToken hash now) => (s.liveToken hash now).map fun rec => rec.clientId
  | _ => none

/-- Where a token request names the client and finds a code or a refresh
token of it, it carries an assertion. -/
def RedeemsAttested (clientId : ClientId) (md : ClientMetadata) (P : ServerPool Keypair) :
    ServerAct Keypair → Prop
  | .start _ => True
  | .step i _ => ∀ q o k, P.tasks[i]? = some (.token q, .op o k) →
      q.form.clientId = clientId.asStr → takesFrom P.store.oauth o = some clientId.asStr →
      q.attested state.oauth.dpop.jose keysAt md = true

/-! ## Whose tokens a request is given -/

variable {state} {keysAt} {clientId : ClientId} {md : ClientMetadata} {P P' : ServerPool Keypair}

/-- What a request that has redeemed something of the client carries. -/
def AttestedAt (state : AppState Keypair) (keysAt : String → Option Json) (clientId : ClientId)
    (md : ClientMetadata) : ServerStage → Prop
  | .redeemed q code => code.clientId = clientId.asStr → q.form.clientId = clientId.asStr →
      q.attested state.oauth.dpop.jose keysAt md = true
  | .rotating q old => old.clientId = clientId.asStr → q.form.clientId = clientId.asStr →
      q.attested state.oauth.dpop.jose keysAt md = true
  | _ => True

structure AssertedInv (state : AppState Keypair) (keysAt : String → Option Json)
    (clientId : ClientId) (md : ClientMetadata) (P : ServerPool Keypair) : Prop where
  stages : ∀ i t, stageOf state P i = some t → AttestedAt state keysAt clientId md t
  stored : ∀ i rec, StoredBy P i rec → rec.clientId = clientId.asStr →
    ∃ q, requestAt P i = some (.token q) ∧ q.attested state.oauth.dpop.jose keysAt md = true

section

variable {i : Nat} {q : ServerRequest Keypair} {o : ServerOp} {r : o.Ret} {c : ServerOutcome}
  {t' : ServerStage}

theorem attestedAt_step (hE : Executes state P P' i q o r) (hI : ProvInv state P)
    (hexec : o.exec P.store c = some (r, P'.store))
    (hcond : RedeemsAttested state keysAt clientId md P (.step i c))
    (hbefore : AttestedAt state keysAt clientId md (stageBefore state P i q))
    (hmoves : Moves state (stageBefore state P i q) o r t') :
    AttestedAt state keysAt clientId md t' := by
  have hground := hI.stages i _ hE.stageOf_self
  have hreq := hE.request
  obtain ⟨k, htask, -⟩ := hE.before
  generalize stageBefore state P i q = t at hmoves hground hbefore
  cases hmoves with
  | @redeem q' hash now code =>
      obtain ⟨c', -, hr, -⟩ := ServerOp.exec_oauth hexec
      cases c' with
      | fault msg => cases hr
      | done =>
          obtain rfl := Option.some.inj (hreq.symm.trans hground)
          have hlive : P.store.oauth.liveCode hash now = some code := (Except.ok.inj hr).symm
          exact fun hclient hnames =>
            hcond q' _ k htask hnames (by simp [takesFrom, hlive, hclient])
  | @rotate q' hash now old =>
      obtain ⟨c', -, hr, -⟩ := ServerOp.exec_oauth hexec
      cases c' with
      | fault msg => cases hr
      | done =>
          obtain rfl := Option.some.inj (hreq.symm.trans hground)
          have hlive : P.store.oauth.liveToken hash now = some old :=
            OauthStore.liveToken_of_consumeRefreshToken (Except.ok.inj hr).symm
          exact fun hclient hnames =>
            hcond q' _ k htask hnames (by simp [takesFrom, hlive, hclient])
  | rest _ hend =>
      rcases hend with rfl | rfl | ⟨rfl, -⟩
      · trivial
      · trivial
      · exact hbefore
  | _ => trivial

/-- A token is stored for the client that the request names. -/
theorem attested_put {rec : RefreshTokenRecord}
    {r : (ServerOp.oauth (.putRefreshToken rec)).Ret}
    (hE : Executes state P P' i q (.oauth (.putRefreshToken rec)) r) (hI : ProvInv state P)
    (hbefore : AttestedAt state keysAt clientId md (stageBefore state P i q))
    (hmoves : Moves state (stageBefore state P i q) (.oauth (.putRefreshToken rec)) r t')
    (hr : r = .ok ()) (hclient : rec.clientId = clientId.asStr) :
    ∃ q', requestAt P' i = some (.token q')
      ∧ q'.attested state.oauth.dpop.jose keysAt md = true := by
  subst hr
  have hG := hE.grows
  have hground := hI.stages i _ hE.stageOf_self
  generalize stageBefore state P i q = t at hmoves hground hbefore
  cases hmoves with
  | @issueRedeemed q' code _ hredeems =>
      have hcode : code.clientId = clientId.asStr := hredeems.clientId.symm.trans hclient
      exact ⟨q', hG.tasks i _ hground.1, hbefore hcode (hredeems.presenter.symm.trans hcode)⟩
  | @issueRotated q' old _ hrotates =>
      have hold : old.clientId = clientId.asStr := hrotates.clientId.symm.trans hclient
      exact ⟨q', hG.tasks i _ hground.1, hbefore hold (hrotates.presenter.symm.trans hold)⟩
  | rest hinert _ => exact hinert.elim

end

theorem attestedAt_start (q : ServerRequest Keypair) :
    AttestedAt state keysAt clientId md (startStage state q) := by
  cases q <;> trivial

theorem assertedInv_next {a : ServerAct Keypair} (hI : ProvInv state P)
    (hA : AssertedInv state keysAt clientId md P)
    (hcond : RedeemsAttested state keysAt clientId md P a)
    (hnext : serverStep state P a = some P') : AssertedInv state keysAt clientId md P' := by
  have hfollowed := Pool.followed_next serverHandler_follows hI.followed hnext
  rcases Pool.next_cases hnext with ⟨q, rfl, rfl⟩ | ⟨i, c, q, o, k, r, s, rfl, htask, hexec, rfl⟩
  · refine ⟨fun j t hj => ?_, fun j rec hrec hclient => ?_⟩
    · rw [stageOf, Pool.stageAt_start hI.followed.tids] at hj
      split at hj
      · obtain rfl := Option.some.inj hj
        exact attestedAt_start q
      · exact hA.stages j t hj
    · obtain ⟨q', hq', hattested⟩ := hA.stored j rec hrec hclient
      exact ⟨q', (grows_start q _).tasks j _ hq', hattested⟩
  · have hE : Executes state P ⟨P.toWorld.after i o r s, P.tasks.set i (q, k r)⟩ i q o r :=
      ⟨⟨k, htask, rfl⟩, hfollowed⟩
    have hmoves := moves_of_allowed (hE.allowed hI.followed) r
    have hbefore := hA.stages i _ hE.stageOf_self
    refine ⟨fun j t hj => ?_, fun j rec hrec hclient => ?_⟩
    · rw [hE.stageOf] at hj
      split at hj
      · obtain rfl := Option.some.inj hj
        exact attestedAt_step hE hI hexec hcond hbefore hmoves
      · exact hA.stages j t hj
    · rcases hE.logged_cases hrec with hold | hnew
      · obtain ⟨q', hq', hattested⟩ := hA.stored j rec hold hclient
        exact ⟨q', hE.grows.tasks j _ hq', hattested⟩
      · cases hnew
        exact attested_put hE hI hbefore hmoves rfl hclient

theorem assertedInv_run {accounts : AccountStore} {as : List (ServerAct Keypair)}
    (hrun : Steps.run (serverStep state) (Pool.init ⟨accounts, OauthStore.empty⟩) as = some P)
    (hcond : Steps.Along (serverStep state) (RedeemsAttested state keysAt clientId md)
      (Pool.init ⟨accounts, OauthStore.empty⟩) as) :
    AssertedInv state keysAt clientId md P := by
  have hinit : AssertedInv state keysAt clientId md
      (Pool.init ⟨accounts, OauthStore.empty⟩ : ServerPool Keypair) :=
    ⟨fun i t ht => by simp [stageOf, Pool.stageAt, Pool.init] at ht,
      fun i rec hrec => (not_logged_init hrec).elim⟩
  exact (Steps.run_inv_along
    (I := fun P => ProvInv state P ∧ AssertedInv state keysAt clientId md P)
    (fun _ _ _ h hc hnext => ⟨provInv_next h.1 hnext, assertedInv_next h.1 h.2 hc hnext⟩)
    ⟨provInv_init accounts, hinit⟩ hcond hrun).2

end

/-! ## What is enough -/

section

variable (cfg : OauthConfig) (q : TokenRequest) (s : OauthStore)

/-- The request has a code, its verifier and redirect URI, and proves a key
the code is not bound against. -/
structure HoldsCode (record : AuthCode) : Prop where
  grant : q.form.grantType = "authorization_code"
  code : ∃ code, q.form.code = some code ∧ s.codes.get (cfg.hashSecret code) = some record
  inTime : q.redeemNow < record.expiresAt
  client : q.form.clientId = record.clientId
  redirectUri : q.form.redirectUri = some record.redirectUri
  verifier : ∃ v, q.form.codeVerifier = some v
    ∧ verifyChallenge cfg.dpop.jose record.codeChallenge v = .ok ()
  proof : ∃ p, q.Proves cfg s p ∧ (record.dpopJkt.any fun expected => expected != p.jkt) = false
    ∧ ∃ scope t, Scope.parse record.scope = .ok scope
      ∧ issueAccessToken cfg record.did record.clientId scope p.jkt q = .ok t

variable {cfg q s}

theorem holdsCode_suffices {record : AuthCode} (h : HoldsCode cfg q s record) :
    ∃ resp u, (tokenHandle cfg q).alone quietStore s = some (.ok resp, u) := by
  obtain ⟨code, hcode, hget⟩ := h.code
  obtain ⟨v, hv, hverify⟩ := h.verifier
  obtain ⟨p, hp, hkey, scope, t, hscope, hsign⟩ := h.proof
  have hredeem : (recorded q s p).consumeAuthCode (cfg.hashSecret code) q.redeemNow
      = (some record, { recorded q s p with codes := s.codes.remove (cfg.hashSecret code) }) := by
    have hin : record.expiresAt > q.redeemNow := h.inTime
    simp [OauthStore.consumeAuthCode, recorded, hget, Option.filter_some, hin]
  have hgrant : (authorizationCodeGrant cfg q p).alone quietStore (recorded q s p)
      = (issue cfg record.did record.clientId scope p.jkt none q).alone quietStore
          { recorded q s p with codes := s.codes.remove (cfg.hashSecret code) } := by
    unfold authorizationCodeGrant
    rw [hcode]
    refine (alone_call _ _ _).trans ?_
    rw [OauthOp.apply, hredeem]
    simp only [h.client, ne_eq, not_true_eq_false, if_false, h.redirectUri, hv]
    refine (alone_ofExcept_ok hverify _ _).trans ?_
    rw [hkey, if_neg Bool.false_ne_true]
    exact alone_ofExcept_ok hscope _ _
  obtain ⟨resp, hresp⟩ := alone_issue none hsign
    { recorded q s p with codes := s.codes.remove (cfg.hashSecret code) }
  exact ⟨resp, _, (alone_tokenHandle_code hp h.grant).trans (hgrant.trans hresp)⟩

end

section

variable {cfg : OauthConfig} {q : TokenRequest} {s : OauthStore}

/-- What suffices has no part for the assertion. -/
theorem HoldsCode.withAssertion {record : AuthCode} (h : HoldsCode cfg q s record)
    (assertion : Option String) : HoldsCode cfg { q with clientAssertion := assertion } s record :=
  ⟨h.grant, h.code, h.inTime, h.client, h.redirectUri, h.verifier, h.proof⟩

theorem Rightful.withAssertion {hash : String} {record : RefreshTokenRecord}
    (h : Rightful cfg q s hash record) (assertion : Option String) :
    Rightful cfg { q with clientAssertion := assertion } s hash record :=
  ⟨⟨h.request.grant, h.request.token⟩, h.client, h.proof, h.inTime, h.signs⟩

end

/-- In every run in which each request that redeems a code or a refresh
token of a confidential client carries an assertion of it, tokens for
such a client answer requests with an assertion. Nothing else brings that
about: on any store, the code with its verifier, or the refresh token, and
the DPoP key are enough, whatever assertion comes with them, or none. -/
theorem assertions_never_read {Keypair : Type} {state : AppState Keypair}
    {accounts : AccountStore} {as : List (ServerAct Keypair)} {P : ServerPool Keypair}
    (hrun : Steps.run (serverStep state) (Pool.init ⟨accounts, OauthStore.empty⟩) as = some P)
    (keysAt : String → Option Json) :
    ((∀ A : Accepted state P, A.metadata.tokenEndpointAuthMethod = "private_key_jwt" →
        Steps.Along (serverStep state) (RedeemsAttested state keysAt A.clientId A.metadata)
          (Pool.init ⟨accounts, OauthStore.empty⟩) as) →
      ClientsAuthenticated state keysAt P)
    ∧ (∀ q s record, HoldsCode state.oauth q s record → ∀ assertion, ∃ resp u,
        (tokenHandle state.oauth { q with clientAssertion := assertion }).alone quietStore s
          = some (.ok resp, u))
    ∧ ∀ q s hash record, s.refresh.get hash = some (record, false) →
        Rightful state.oauth q s hash record → ∀ assertion, ∃ resp u,
        (tokenHandle state.oauth { q with clientAssertion := assertion }).alone quietStore s
          = some (.ok resp, u) := by
  refine ⟨fun hcond A hmethod i rec hrec hclient => ?_, fun q s record h assertion => ?_,
    fun q s hash record hrow h assertion => ?_⟩
  · exact (assertedInv_run hrun (hcond A hmethod)).stored i rec hrec hclient
  · exact holdsCode_suffices (h.withAssertion assertion)
  · exact rightful_succeeds hrow (h.withAssertion assertion)

/-! ## A client with keys -/

def keyedMetadata : ClientMetadata where
  clientId := "https://app.test/client"
  clientName := none
  redirectUris := ["https://app.test/callback"]
  grantTypes := ["authorization_code", "refresh_token"]
  responseTypes := ["code"]
  scope := "atproto"
  tokenEndpointAuthMethod := "private_key_jwt"
  dpopBoundAccessTokens := true
  jwksUri := none
  jwks := some (.obj [("keys", .arr [.obj [("kty", .str "EC"), ("crv", .str "P-256")]])])

def keyedApp : AppState Nat := { sampleApp with parseMetadata := fun _ => .ok keyedMetadata }

def keyedClient : ClientId :=
  .web {
    text := "https://app.test/client", scheme := "https", username := "", password := none
    host := some (.domain "app.test"), port := none, path := "/client", query := none
    queryPairs := [], fragment := none }

def withAssertion (assertion : Option String) : ServerAct Nat → ServerAct Nat
  | .start (.token q) => .start (.token { q with clientAssertion := assertion })
  | a => a

/-- The whole flow, from the pushed request to a rotated token, with the
same assertion in every token request. -/
def keyedSession (assertion : Option String) : List (ServerAct Nat) :=
  sampleSession.map (withAssertion assertion)

/-- The clients of the requests that are pushed, by their tasks. -/
def parClients (P : ServerPool Nat) : List (Option String) :=
  P.tasks.map fun t => match t.1 with
    | .par q => some q.form.clientId
    | _ => none

/-- The assertions of the token requests. -/
def assertions (P : ServerPool Nat) : List (Option String) :=
  P.tasks.filterMap fun t => match t.1 with
    | .token q => some q.clientAssertion
    | _ => none

theorem assertion_of_request {P : ServerPool Nat} {assertion : Option String}
    (h : assertions P = [assertion, assertion]) {i : Nat} {q : TokenRequest}
    (hq : requestAt P i = some (.token q)) : q.clientAssertion = assertion := by
  obtain ⟨t, ht, heq⟩ := Option.map_eq_some_iff.mp hq
  have hmem : q.clientAssertion ∈ assertions P :=
    List.mem_filterMap.mpr ⟨t, List.mem_of_getElem? ht, by rw [heq]⟩
  rw [h] at hmem
  simpa using hmem

theorem readMetadata_keyed {r : Except String FetchedDocument} {md : ClientMetadata}
    (h : keyedApp.readMetadata r = .ok md) : md = keyedMetadata := by
  unfold AppState.readMetadata at h
  obtain ⟨resp, -, h⟩ := Prog.except_bind_ok h
  split_ifs at h
  obtain ⟨bytes, -, h⟩ := Prog.except_bind_ok h
  split_ifs at h
  exact (Except.ok.inj h).symm

/-- A check that `RedeemsAttested` holds: every token request has an
assertion. -/
def attestsSteps (P : ServerPool Nat) : ServerAct Nat → Bool
  | .start _ => true
  | .step i _ =>
      match P.tasks[i]? with
      | some (.token q, _) => q.attested keyedApp.oauth.dpop.jose (fun _ => none) keyedMetadata
      | _ => true

theorem redeemsAttested_of_attestsSteps {P : ServerPool Nat} {a : ServerAct Nat}
    (h : attestsSteps P a = true) :
    RedeemsAttested keyedApp (fun _ => none) keyedClient keyedMetadata P a := by
  cases a with
  | start q => trivial
  | step i c =>
      intro q o k htask _ _
      simpa only [attestsSteps, htask] using h

/-- The only client whose metadata was validated is the one with keys. -/
theorem accepted_keyed {P : ServerPool Nat}
    (hpar : parClients P = [some "https://app.test/client", none, none, none])
    (A : Accepted keyedApp P) : A.clientId = keyedClient ∧ A.metadata = keyedMetadata := by
  have hclient : A.par.form.clientId = "https://app.test/client" := by
    obtain ⟨t, ht, heq⟩ := Option.map_eq_some_iff.mp A.started
    have hmem : some A.par.form.clientId ∈ parClients P :=
      List.mem_map.mpr ⟨t, List.mem_of_getElem? ht, by rw [heq]⟩
    rw [hpar] at hmem
    simpa using hmem
  have hparsed := A.parsed
  rw [hclient] at hparsed
  have hkeyed : ClientId.parse keyedApp.parseUrl "https://app.test/client" = .ok keyedClient := by
    decide
  have hid : A.clientId = keyedClient := Except.ok.inj (hparsed.symm.trans hkeyed)
  refine ⟨hid, ?_⟩
  have hresolved := A.resolved
  rw [hid] at hresolved
  rcases hresolved with hloop | ⟨r, -, hread⟩
  · cases hloop
  · exact readMetadata_keyed hread

/-- Tokens of the client are stored, with an assertion and without. -/
theorem keyedSession_issues {assertion : Option String}
    (h : assertion = none ∨ assertion = some "h.a.s") : ∃ P : ServerPool Nat,
      Steps.run (serverStep keyedApp) sampleStart (keyedSession assertion) = some P
      ∧ parClients P = [some "https://app.test/client", none, none, none]
      ∧ assertions P = [assertion, assertion]
      ∧ ∃ i rec, StoredBy P i rec ∧ rec.clientId = keyedClient.asStr := by
  have hrows : (Steps.run (serverStep keyedApp) sampleStart (keyedSession assertion)).map
      (fun P => (parClients P, assertions P,
        P.store.oauth.refresh.rows.map fun row => (row.1, row.2.1.clientId)))
      = some ([some "https://app.test/client", none, none, none], [assertion, assertion],
        [("hash:t0", "https://app.test/client"), ("hash:t1", "https://app.test/client")]) := by
    rcases h with rfl | rfl <;> decide +kernel
  obtain ⟨P, hrun, hP⟩ := Option.map_eq_some_iff.mp hrows
  obtain ⟨hpar, hP⟩ := Prod.mk.injEq .. |>.mp hP
  obtain ⟨hassertions, hrows⟩ := Prod.mk.injEq .. |>.mp hP
  have hmem : ("hash:t0", "https://app.test/client")
      ∈ P.store.oauth.refresh.rows.map fun row => (row.1, row.2.1.clientId) := by
    rw [hrows]
    exact List.mem_cons_self
  obtain ⟨row, hrow, heq⟩ := List.mem_map.mp hmem
  have hI : ProvInv keyedApp P :=
    Steps.run_inv (fun _ _ _ hI hnext => provInv_next hI hnext) (provInv_init _) hrun
  obtain ⟨i, hi⟩ := hI.refresh row.1 row.2 (Table.get_eq_some_iff.mpr hrow)
  exact ⟨P, hrun, hpar, hassertions, i, row.2.1, hi, (Prod.mk.injEq .. |>.mp heq).2⟩

/-- Tokens without any assertion. -/
theorem tokens_without_assertion :
    ¬ ∀ (state : AppState Nat) (accounts : AccountStore) (as : List (ServerAct Nat))
      (P : ServerPool Nat) (keysAt : String → Option Json),
      Steps.run (serverStep state) (Pool.init ⟨accounts, OauthStore.empty⟩) as = some P →
      ClientsAuthenticated state keysAt P := by
  intro h
  obtain ⟨P, hrun, hpar, hnone, i, rec, hrec, hclient⟩ := keyedSession_issues (Or.inl rfl)
  have hI : ProvInv keyedApp P :=
    Steps.run_inv (fun _ _ _ hI hnext => provInv_next hI hnext) (provInv_init _) hrun
  obtain ⟨R, -⟩ := hI.issued rec ⟨i, hrec⟩
  obtain ⟨hid, hmd⟩ := accepted_keyed hpar R.toAccepted
  obtain ⟨q, hq, hattested⟩ := h keyedApp sampleMembers _ P (fun _ => none) hrun R.toAccepted
    (by rw [hmd]; rfl) i rec hrec (by rw [hclient, hid])
  rw [TokenRequest.attested, assertion_of_request hnone hq] at hattested
  cases hattested

/-- The same flow, with a signed assertion in every request. -/
theorem keyedSession_authenticated : ∃ P : ServerPool Nat,
    Steps.run (serverStep keyedApp) sampleStart (keyedSession (some "h.a.s")) = some P
    ∧ (∃ A : Accepted keyedApp P, A.metadata.tokenEndpointAuthMethod = "private_key_jwt")
    ∧ ClientsAuthenticated keyedApp (fun _ => none) P := by
  obtain ⟨P, hrun, hpar, -, i, rec, hrec, -⟩ := keyedSession_issues (Or.inr rfl)
  have hI : ProvInv keyedApp P :=
    Steps.run_inv (fun _ _ _ hI hnext => provInv_next hI hnext) (provInv_init _) hrun
  obtain ⟨R, -⟩ := hI.issued rec ⟨i, hrec⟩
  have hattests : Steps.Along (serverStep keyedApp) (fun P a => attestsSteps P a = true)
      sampleStart (keyedSession (some "h.a.s")) := by decide +kernel
  refine ⟨P, hrun, ⟨R.toAccepted, by rw [(accepted_keyed hpar R.toAccepted).2]; rfl⟩, ?_⟩
  refine (assertions_never_read hrun fun _ => none).1 fun A _ => ?_
  obtain ⟨hid, hmd⟩ := accepted_keyed hpar A
  rw [hid, hmd]
  exact hattests.imp fun _ _ => redeemsAttested_of_attestsSteps

end Stelyph
