import Stelyph.Provenance
import Stelyph.RefreshHolder

/-!
# A client that keeps to the protocol

Push the request, give the password, exchange the code, refresh and
refresh again: a client that does this in time, with proofs of one key,
is answered at every step (`flow_completes`). In between anything may
happen to the two stores that leaves alone the one row the client counts
on, that of its pushed request, of its code or of its last refresh token.

What a client has to do (`Follows`) is said in terms of what it has sent
and been answered; the rows are the invariant's business.
-/

namespace Stelyph

/-! ## A request on its own -/

/-- Store calls go through, and the document that is asked for is this
one. -/
def withDocument (document : Except String FetchedDocument) (s : ServerStore) :
    (o : ServerOp) → Option (o.Ret × ServerStore)
  | .fetch _ => some (document, s)
  | o => o.exec s .done

section

variable {document : Except String FetchedDocument} {s : ServerStore}

/-- A call of the OAuth store leaves the accounts alone. -/
theorem alone_lift {α : Type} {p : OauthProg α} {x : Except OAuthError α} {t : OauthStore}
    (h : p.alone quietStore s.oauth = some (x, t)) :
    (OauthProg.lift p).alone (withDocument document) s = some (x, { s with oauth := t }) := by
  induction p generalizing s with
  | ret a =>
      obtain ⟨rfl, rfl⟩ := Prod.mk.injEq .. |>.mp (Option.some.inj h)
      rfl
  | fail e =>
      obtain ⟨rfl, rfl⟩ := Prod.mk.injEq .. |>.mp (Option.some.inj h)
      rfl
  | op o k ih =>
      have hexec : withDocument document s (.oauth o)
          = some ((o.exec s.oauth .done).1, { s with oauth := (o.exec s.oauth .done).2 }) := rfl
      have hrest : (k (o.exec s.oauth .done).1).alone quietStore (o.exec s.oauth .done).2
          = some (x, t) := h
      exact (Prog.alone_op hexec).trans
        (ih _ (s := { s with oauth := (o.exec s.oauth .done).2 }) hrest)

theorem alone_oauth_call {α : Type} (o : OauthOp) (f : o.Value → ServerProg OAuthError α) :
    ((OauthProg.lift (OauthOp.call o)).bind f).alone (withDocument document) s
      = (f (o.apply s.oauth).1).alone (withDocument document)
          { s with oauth := (o.apply s.oauth).2 } := rfl

theorem alone_checked {ε ε' α β : Type} {f : ε → ε'} {x : Except ε α} {a : α} (h : x = .ok a)
    (g : α → ServerProg ε' β) :
    ((Prog.ofExcept f x).bind g).alone (withDocument document) s
      = (g a).alone (withDocument document) s := by
  rw [h]
  rfl

end

/-! ## The client -/

/-- How far the client has come: with its pushed request, the page its
user has submitted, and the last tokens. -/
inductive ClientStage where
  | start
  | pushed (q : ParRequest) (requestUri : String)
  | granted (q : ParRequest) (did : String) (f : AuthorizeForm)
  | holding (q : ParRequest) (did : String) (last : TokenRequest) (tokens : TokenResponse)

/-- What happens next. The `did` of a submission is whose password it
gives. -/
inductive FlowAct where
  | others (s : ServerStore)
  | push (q : ParRequest) (document : Except String FetchedDocument)
  | submit (f : AuthorizeForm) (did : String)
  | token (q : TokenRequest)

section

variable {Keypair : Type} (state : AppState Keypair)

/-- A step of one client's flow, on the store it shares with all others.
What those do between its requests is one step, to whatever store. -/
def flowStep : ServerStore × ClientStage → FlowAct → Option (ServerStore × ClientStage)
  | (_, c), .others s => some (s, c)
  | (s, .start), .push q document =>
      match (state.pushedAuthorizationRequest q).alone (withDocument document) s with
      | some (.ok r, s') => some (s', .pushed q r.requestUri)
      | _ => none
  | (s, .pushed q _), .submit f did =>
      match (state.authorizeSubmit f).alone (withDocument (.error "")) s with
      | some (.ok (.granted _ _), s') => some (s', .granted q did f)
      | _ => none
  | (s, .granted q did _), .token t =>
      match (tokenHandle state.oauth t).alone quietStore s.oauth with
      | some (.ok r, o) => some ({ s with oauth := o }, .holding q did t r)
      | _ => none
  | (s, .holding q did _ _), .token t =>
      match (tokenHandle state.oauth t).alone quietStore s.oauth with
      | some (.ok r, o) => some ({ s with oauth := o }, .holding q did t r)
      | _ => none
  | _, _ => none

/-! ## What it has to do -/

/-- The key a pushed request binds the code to, if it carries a proof. -/
def boundKey (q : ParRequest) : Option String :=
  q.dpopHeader.bind fun proof =>
    match state.oauth.dpop.readProof proof with
    | .ok (jwk, _) => some (jwk.thumbprint state.oauth.dpop.jose)
    | .error _ => none

/-- The client's metadata, from its identifier or the document. -/
def Describes (document : Except String FetchedDocument) (clientId : ClientId)
    (metadata : ClientMetadata) : Prop :=
  (clientId.loopbackMetadata = some metadata
      ∨ clientId.loopbackMetadata = none ∧ state.readMetadata document = .ok metadata)
    ∧ metadata.validate clientId = .ok ()

/-- A pushed request that is in order. -/
structure PushesWell (s : ServerStore) (q : ParRequest)
    (document : Except String FetchedDocument) : Prop where
  proof : ∀ proof, q.dpopHeader = some proof → ∃ p, state.oauth.dpop.Accepts
    { proof := proof, method := "POST", uri := state.oauth.endpointUrl "/oauth/par"
      accessToken := none, requireNonce := false, now := q.dpopNow, nonceNow := q.dpopNow }
    s.oauth p
  form : ∃ clientId metadata request,
    ClientId.parse state.parseUrl q.form.clientId = .ok clientId
      ∧ Describes state document clientId metadata
      ∧ q.form.validate state.oauth.dpop.jose state.oauth.hashSecret clientId metadata
          (boundKey state q) q.handle q.validateNow = .ok request

/-- The account's password, while the request stands. -/
structure SubmitsWell (s : ServerStore) (q : ParRequest) (requestUri : String) (f : AuthorizeForm)
    (did : String) : Prop where
  request : f.requestUri = requestUri
  accept : f.action = "accept"
  inTime : f.loadNow < q.validateNow + parTtlSecs
  password : ∃ phc,
    s.accounts.getAccountByHandle (AppState.normalizeUsername f.username) = some (did, phc)
    ∧ state.server.verifyPassword f.password phc = .ok true

/-- The identifier as the server knows it. -/
def ClientNamed (q : ParRequest) (t : TokenRequest) : Prop :=
  ∃ clientId, ClientId.parse state.parseUrl q.form.clientId = .ok clientId
    ∧ t.form.clientId = clientId.asStr

/-- The code, with what it was bound to. -/
structure ExchangesWell (s : ServerStore) (q : ParRequest) (f : AuthorizeForm) (t : TokenRequest) :
    Prop where
  grant : t.form.grantType = "authorization_code"
  client : ClientNamed state q t
  code : t.form.code = some f.code
  redirectUri : t.form.redirectUri = q.form.redirectUri
  verifier : ∃ verifier challenge, t.form.codeVerifier = some verifier
    ∧ q.form.codeChallenge = some challenge
    ∧ verifyChallenge state.oauth.dpop.jose challenge verifier = .ok ()
  inTime : t.redeemNow < f.codeNow + authCodeTtlSecs
  proof : ∃ p, t.Proves state.oauth s.oauth p ∧ ∀ key, boundKey state q = some key → p.jkt = key

/-- The last refresh token, with the same key and no wider scope. -/
structure RefreshesWell (s : ServerStore) (q : ParRequest) (last : TokenRequest)
    (tokens : TokenResponse) (t : TokenRequest) : Prop where
  grant : t.form.grantType = "refresh_token"
  client : ClientNamed state q t
  token : t.form.refreshToken = some tokens.refreshToken
  scope : ∃ granted narrowed, Scope.parse tokens.scope = .ok granted
    ∧ narrowScope granted t.form.scope = .ok narrowed
  inTime : t.redeemNow < last.refreshNow + refreshTokenTtlSecs
  proof : ∃ p, t.Proves state.oauth s.oauth p ∧ last.proofKey state.oauth = some p.jkt

/-- The row the client counts on. -/
def Untouched (s s' : ServerStore) : ClientStage → Prop
  | .start => True
  | .pushed _ uri => s'.oauth.par.get (state.oauth.hashSecret uri)
      = s.oauth.par.get (state.oauth.hashSecret uri)
  | .granted _ _ f => s'.oauth.codes.get (state.oauth.hashSecret f.code)
      = s.oauth.codes.get (state.oauth.hashSecret f.code)
  | .holding _ _ _ r => s'.oauth.refresh.get (state.oauth.hashSecret r.refreshToken)
      = s.oauth.refresh.get (state.oauth.hashSecret r.refreshToken)

/-- The client keeps to the protocol, and the others leave its row alone:
this is a condition on the next step, read off where the flow stands. -/
def Follows : ServerStore × ClientStage → FlowAct → Prop
  | (s, c), .others s' => Untouched state s s' c
  | (s, .start), .push q document => PushesWell state s q document
  | (s, .pushed q uri), .submit f did => SubmitsWell state s q uri f did
  | (s, .granted q _ f), .token t => ExchangesWell state s q f t
  | (s, .holding q _ last r), .token t => RefreshesWell state s q last r t
  | _, _ => False

/-! ## What the server keeps for it -/

/-- The pushed request as it is stored. -/
structure Stands (q : ParRequest) (uri : String) (stored : StoredPushedRequest) : Prop where
  valid : validateRequestUri uri = .ok ()
  hash : stored.requestUriHash = state.oauth.hashSecret uri
  client : ∃ clientId, ClientId.parse state.parseUrl q.form.clientId = .ok clientId
    ∧ stored.clientId = clientId.asStr
  redirectUri : q.form.redirectUri = some stored.redirectUri
  scope : Scope.Within stored.scope (q.form.scope.getD "")
  challenge : q.form.codeChallenge = some stored.codeChallenge
  key : stored.dpopJkt = boundKey state q
  expires : stored.expiresAt = q.validateNow + parTtlSecs

/-- What the client relies on at its stage: the row is there, and says
what the client was told. -/
def Served (s : ServerStore) : ClientStage → Prop
  | .start => True
  | .pushed q uri => ∃ stored, s.oauth.par.get (state.oauth.hashSecret uri) = some stored
      ∧ Stands state q uri stored
  | .granted q did f => ∃ uri stored, Stands state q uri stored
      ∧ s.oauth.codes.get (state.oauth.hashSecret f.code) = some (state.authCode stored did f)
  | .holding q did last r => r.sub = did ∧ Scope.Within r.scope (q.form.scope.getD "")
      ∧ ∃ rec, s.oauth.refresh.get (state.oauth.hashSecret r.refreshToken) = some (rec, false)
        ∧ rec.did = did ∧ rec.scope = r.scope ∧ last.proofKey state.oauth = some rec.dpopJkt
        ∧ (∃ clientId, ClientId.parse state.parseUrl q.form.clientId = .ok clientId
            ∧ rec.clientId = clientId.asStr)
        ∧ rec.expiresAt = last.refreshNow + refreshTokenTtlSecs

end

/-! ## The pushed request -/

section

variable {Keypair : Type} {state : AppState Keypair} {document : Except String FetchedDocument}
  {s : ServerStore} {q : ParRequest}

theorem alone_resolve {clientId : ClientId} {metadata : ClientMetadata}
    (h : Describes state document clientId metadata) :
    (state.resolve clientId).alone (withDocument document) s = some (.ok metadata, s) := by
  obtain ⟨hl | ⟨hl, hread⟩, hvalid⟩ := h
  · unfold AppState.resolve
    rw [hl]
    exact alone_checked hvalid _
  · unfold AppState.resolve
    rw [hl]
    have hfetch : withDocument document s (.fetch clientId.asStr) = some (document, s) := rfl
    refine (Prog.alone_op hfetch).trans ?_
    exact (alone_checked hread _).trans (alone_checked hvalid _)

theorem alone_parDpop (h : ∀ proof, q.dpopHeader = some proof → ∃ p, state.oauth.dpop.Accepts
      { proof := proof, method := "POST", uri := state.oauth.endpointUrl "/oauth/par"
        accessToken := none, requireNonce := false, now := q.dpopNow, nonceNow := q.dpopNow }
      s.oauth p) :
    ∃ t, (state.parDpop q).alone (withDocument document) s
      = some (.ok (boundKey state q), { s with oauth := t }) := by
  cases hheader : q.dpopHeader with
  | none =>
      refine ⟨s.oauth, ?_⟩
      rw [AppState.parDpop, boundKey, hheader]
      rfl
  | some proof =>
      obtain ⟨p, hp⟩ := h proof hheader
      refine ⟨{ s.oauth with jti := s.oauth.jti.insert p.jti (q.dpopNow + maxProofAgeSecs) }, ?_⟩
      rw [AppState.parDpop, hheader]
      refine (Prog.alone_bind_ok (alone_lift (DpopVerifier.alone_verify hp))).trans ?_
      obtain ⟨jwk, claims, hread, -, -, rfl⟩ := hp
      rw [boundKey, hheader, Option.bind_some, hread]
      rfl

theorem parseChallenge_ok {jose : JoseLib} {challenge challenge' : String} {method : Option String}
    (h : parseChallenge jose challenge method = .ok challenge') : challenge' = challenge := by
  unfold parseChallenge at h
  split at h
  · cases h
  · split_ifs at h
    exact (Except.ok.inj h).symm

theorem validateRequestUri_prefix (handle : String) :
    validateRequestUri s!"{requestUriPrefix}{handle}" = .ok () := by
  have hstart : Text.startsWith s!"{requestUriPrefix}{handle}" requestUriPrefix = true := by
    rw [Text.startsWith, List.isPrefixOf_iff_prefix]
    exact ⟨handle.toList, String.toList_append.symm⟩
  rw [validateRequestUri, hstart]
  rfl

/-- A form that is accepted says what is stored. -/
theorem stands_of_validate {clientId : ClientId} {metadata : ClientMetadata}
    {request : AuthorizationRequest}
    (hparse : ClientId.parse state.parseUrl q.form.clientId = .ok clientId)
    (h : q.form.validate state.oauth.dpop.jose state.oauth.hashSecret clientId metadata
      (boundKey state q) q.handle q.validateNow = .ok request) :
    Stands state q request.requestUri request.stored := by
  rw [PushedRequest.validate] at h
  split at h
  · cases h
  split at h
  · cases h
  split at h
  · cases h
  rename_i redirectUri hredirect
  split at h
  · cases h
  obtain ⟨requested, hrequested, hrest⟩ := Prog.except_bind_ok h
  split at hrest
  · cases hrest
  rename_i challenge hchallenge
  obtain ⟨challenge', hparsed, hstored⟩ := Prog.except_bind_ok hrest
  obtain rfl := parseChallenge_ok hparsed
  obtain rfl := Except.ok.inj hstored
  obtain ⟨asked, hasked, hdeclared⟩ := Prog.except_bind_ok hrequested
  have hsame : asked = requested := by
    split at hdeclared
    · exact Except.ok.inj hdeclared
    · obtain ⟨declared, -, hsub⟩ := Prog.except_bind_ok hdeclared
      split at hsub
      · cases hsub
      · exact Except.ok.inj hsub
  subst hsame
  exact {
    valid := validateRequestUri_prefix q.handle
    hash := rfl
    client := ⟨clientId, hparse, rfl⟩
    redirectUri := hredirect
    scope := Scope.Within.display hasked hasked (Scope.isSubsetOf_iff.mpr fun _ hx => hx)
    challenge := hchallenge
    key := rfl
    expires := rfl }

theorem push_progress (h : PushesWell state s q document) :
    ∃ r s', (state.pushedAuthorizationRequest q).alone (withDocument document) s = some (.ok r, s')
      ∧ Served state s' (.pushed q r.requestUri) := by
  obtain ⟨clientId, metadata, request, hparse, hdescribes, hvalid⟩ := h.form
  obtain ⟨t, hdpop⟩ : ∃ t, (state.parDpop q).alone (withDocument document) s
      = some (.ok (boundKey state q), { s with oauth := t }) := alone_parDpop h.proof
  have hstands := stands_of_validate hparse hvalid
  refine ⟨⟨request.requestUri, request.stored.expiresAt - q.expiresNow⟩,
    { s with oauth := t.putPushedRequest request.stored }, ?_, request.stored, ?_, hstands⟩
  · refine (alone_checked hparse _).trans ((Prog.alone_bind_ok (alone_resolve hdescribes)).trans ?_)
    refine (Prog.alone_bind_ok hdpop).trans ((alone_checked hvalid _).trans ?_)
    exact alone_oauth_call _ _
  · rw [← hstands.hash]
    exact Table.get_insert_self ..

/-! ## The code -/

variable {uri did : String} {f : AuthorizeForm} {stored : StoredPushedRequest}

theorem alone_loadRequest (hvalid : validateRequestUri uri = .ok ()) {now : Nat}
    (hrow : s.oauth.par.get (state.oauth.hashSecret uri) = some stored)
    (htime : now < stored.expiresAt) :
    (state.loadRequest uri now).alone (withDocument document) s = some (.ok (.ok stored), s) := by
  have hfound :
      withDocument document s (.oauth (.getPushedRequest (state.oauth.hashSecret uri) now))
        = some (.ok (some stored), s) := by
    have hget : s.oauth.getPushedRequest (state.oauth.hashSecret uri) now = some stored := by
      rw [OauthStore.getPushedRequest, hrow, Option.filter_some, if_pos (decide_eq_true htime)]
    simp [withDocument, ServerOp.exec, ServerOutcome.store, OauthOp.exec, OauthOp.apply, hget]
  unfold AppState.loadRequest
  rw [hvalid]
  refine (Prog.alone_op (S := serverSig) hfound).trans ?_
  rfl

theorem alone_authenticated {username password phc : String}
    (hrow : s.accounts.getAccountByHandle (AppState.normalizeUsername username) = some (did, phc))
    (hpass : state.server.verifyPassword password phc = .ok true) :
    (state.authenticate username password).alone (withDocument document) s
      = some (.ok (.ok did), s) := by
  have hfound : withDocument document s
      (.account (.getAccountByHandle (AppState.normalizeUsername username)))
      = some (.ok (some (did, phc)), s) := by
    rw [← hrow]
    rfl
  unfold AppState.authenticate
  refine (Prog.alone_op hfound).trans ?_
  simp only [Prog.ret_bind, hpass]
  rfl

theorem submit_progress (hserved : Served state s (.pushed q uri))
    (h : SubmitsWell state s q uri f did) :
    ∃ location record s', (state.authorizeSubmit f).alone (withDocument document) s
        = some (.ok (.granted location record), s') ∧ Served state s' (.granted q did f) := by
  obtain ⟨stored, hrow, hstands⟩ := hserved
  obtain ⟨phc, haccount, hpass⟩ := h.password
  have hload : (state.loadRequest f.requestUri f.loadNow).alone (withDocument document) s
      = some (.ok (.ok stored), s) := by
    rw [h.request]
    exact alone_loadRequest hstands.valid hrow (hstands.expires ▸ h.inTime)
  obtain ⟨location, hissued⟩ : ∃ location, (state.issueCode stored did f).alone
      (withDocument document) s = some (.ok (.granted location (state.authCode stored did f)),
        ⟨s.accounts, (s.oauth.putAuthCode (state.authCode stored did f)).deletePushedRequest
          stored.requestUriHash⟩) := ⟨_, rfl⟩
  refine ⟨location, state.authCode stored did f,
    ⟨s.accounts, (s.oauth.putAuthCode (state.authCode stored did f)).deletePushedRequest
      stored.requestUriHash⟩, ?_, uri, stored, hstands, Table.get_insert_self ..⟩
  unfold AppState.authorizeSubmit
  refine (Prog.alone_bind_ok hload).trans ?_
  simp only [h.accept, ne_eq, not_true_eq_false, if_false]
  refine (Prog.alone_bind_ok (alone_authenticated haccount hpass)).trans ?_
  have hattempt : ((state.issueCode stored did f).attempt : ServerProg OAuthError _).alone
      (withDocument document) s = some (.ok (.ok (.granted location (state.authCode stored did f))),
        ⟨s.accounts, (s.oauth.putAuthCode (state.authCode stored did f)).deletePushedRequest
          stored.requestUriHash⟩) := by
    rw [Prog.alone_attempt, hissued]
    rfl
  exact (Prog.alone_bind_ok hattempt).trans rfl

/-! ## Tokens -/

variable {t last : TokenRequest} {r : TokenResponse}

/-- The answer of `issue`. -/
def issued (did : String) (scope : Scope) (t : TokenRequest) (accessToken : String) :
    TokenResponse where
  accessToken := accessToken
  tokenType := "DPoP"
  expiresIn := accessTokenTtlSecs
  refreshToken := t.newRefreshToken
  scope := scope.display
  sub := did

theorem alone_issued (hsign : ∀ claims, ∃ token, state.oauth.signAccessToken claims = .ok token)
    (did clientId : String) (scope : Scope) (jkt : String) (sessionId : Option String)
    (o : OauthStore) :
    ∃ token, (issue state.oauth did clientId scope jkt sessionId t).alone quietStore o
      = some (.ok (issued did scope t token),
          o.putRefreshToken (nextToken state.oauth did clientId scope jkt sessionId t)) := by
  obtain ⟨token, htoken⟩ := hsign {
    iss := state.oauth.issuerUrl, sub := did, aud := state.oauth.audience, clientId := clientId
    scope := scope.display, jti := t.newJti, iat := t.accessNow
    exp := t.accessNow + accessTokenTtlSecs, cnfJkt := jkt }
  have hissue : issueAccessToken state.oauth did clientId scope jkt t
      = .ok (token, accessTokenTtlSecs) := by
    rw [issueAccessToken, htoken]
    rfl
  exact ⟨token, (alone_ofExcept_ok hissue _ o).trans (alone_call _ _ o)⟩

/-- What is issued is what the client holds next. -/
theorem served_issued {clientId jkt token : String} {scope : Scope} {sessionId : Option String}
    {o : OauthStore} (hscope : Scope.Within scope.display (q.form.scope.getD ""))
    (hclient : ∃ id, ClientId.parse state.parseUrl q.form.clientId = .ok id ∧ clientId = id.asStr)
    (hkey : t.proofKey state.oauth = some jkt) :
    Served state ⟨s.accounts, o.putRefreshToken
        (nextToken state.oauth did clientId scope jkt sessionId t)⟩
      (.holding q did t (issued did scope t token)) :=
  ⟨rfl, hscope, _, Table.get_insert_self .., rfl, rfl, hkey, hclient, rfl⟩

theorem exchange_progress
    (hsign : ∀ claims, ∃ token, state.oauth.signAccessToken claims = .ok token)
    (hserved : Served state s (.granted q did f)) (h : ExchangesWell state s q f t) :
    ∃ r o, (tokenHandle state.oauth t).alone quietStore s.oauth = some (.ok r, o)
      ∧ Served state { s with oauth := o } (.holding q did t r) := by
  obtain ⟨uri, stored, hstands, hrow⟩ := hserved
  obtain ⟨p, hp, hbound⟩ := h.proof
  obtain ⟨verifier, challenge, hverifier, hchallenge, hverify⟩ := h.verifier
  obtain ⟨clientId, hparse, hclient⟩ := h.client
  obtain ⟨scope, asked, hscope, hasked, hsub⟩ := hstands.scope
  obtain ⟨id, hid, hstored⟩ := hstands.client
  obtain rfl := Except.ok.inj (hid.symm.trans hparse)
  have hconsume : (recorded t s.oauth p).consumeAuthCode (state.oauth.hashSecret f.code) t.redeemNow
      = (some (state.authCode stored did f), { recorded t s.oauth p with
          codes := s.oauth.codes.remove (state.oauth.hashSecret f.code) }) := by
    have hget : (recorded t s.oauth p).codes.get (state.oauth.hashSecret f.code)
        = some (state.authCode stored did f) := hrow
    have hintime : (state.authCode stored did f).expiresAt > t.redeemNow := h.inTime
    rw [OauthStore.consumeAuthCode, hget, Option.filter_some, if_pos (decide_eq_true hintime)]
    rfl
  have hverify' : verifyChallenge state.oauth.dpop.jose stored.codeChallenge verifier = .ok () := by
    rw [hstands.challenge] at hchallenge
    rw [Option.some.inj hchallenge]
    exact hverify
  have hkey : (stored.dpopJkt.any fun expected => expected != p.jkt) = false := by
    rw [hstands.key]
    cases hkey : boundKey state q with
    | none => rfl
    | some key => simp [hbound key hkey]
  obtain ⟨token, htoken⟩ := alone_issued (t := t) hsign did stored.clientId scope p.jkt none
    { recorded t s.oauth p with codes := s.oauth.codes.remove (state.oauth.hashSecret f.code) }
  have hrun : (tokenHandle state.oauth t).alone quietStore s.oauth
      = (issue state.oauth did stored.clientId scope p.jkt none t).alone quietStore
          { recorded t s.oauth p with
            codes := s.oauth.codes.remove (state.oauth.hashSecret f.code) } := by
    rw [alone_tokenHandle_code hp h.grant, authorizationCodeGrant, h.code]
    refine (alone_call _ _ _).trans ?_
    rw [OauthOp.apply, hconsume]
    change Prog.alone (S := oauthSig) quietStore
      (if stored.clientId ≠ t.form.clientId then _ else _) _ = _
    rw [if_neg (not_not_intro (hstored.trans hclient.symm)), h.redirectUri, hstands.redirectUri]
    change Prog.alone (S := oauthSig) quietStore
      (if stored.redirectUri ≠ stored.redirectUri then _ else _) _ = _
    rw [if_neg (not_not_intro rfl), hverifier]
    refine (alone_ofExcept_ok hverify' _ _).trans ?_
    change Prog.alone (S := oauthSig) quietStore
      (if (stored.dpopJkt.any fun expected => expected != p.jkt) = true then _ else _) _ = _
    rw [if_neg (by rw [hkey]; exact Bool.false_ne_true)]
    exact alone_ofExcept_ok hscope _ _
  exact ⟨_, _, hrun.trans htoken, served_issued (Scope.Within.display hscope hasked hsub)
    ⟨_, hid, hstored⟩ (proofKey_of_proves hp)⟩

theorem refresh_progress
    (hsign : ∀ claims, ∃ token, state.oauth.signAccessToken claims = .ok token)
    (hserved : Served state s (.holding q did last r)) (h : RefreshesWell state s q last r t) :
    ∃ r' o, (tokenHandle state.oauth t).alone quietStore s.oauth = some (.ok r', o)
      ∧ Served state { s with oauth := o } (.holding q did t r') := by
  obtain ⟨-, hwithin, rec, hrow, rfl, hrscope, hkey, ⟨id, hid, hrclient⟩, hexpires⟩ := hserved
  obtain ⟨p, hp, hlast⟩ := h.proof
  obtain ⟨clientId, hparse, hclient⟩ := h.client
  obtain ⟨granted, narrowed, hgranted, hnarrowed⟩ := h.scope
  obtain rfl := Except.ok.inj (hid.symm.trans hparse)
  have hsame : rec.dpopJkt = p.jkt := Option.some.inj (hkey.symm.trans hlast)
  have hrow' : (recorded t s.oauth p).refresh.get (state.oauth.hashSecret r.refreshToken)
      = some (rec, false) := hrow
  have hrequest : RefreshRequest state.oauth t (state.oauth.hashSecret r.refreshToken) :=
    ⟨h.grant, by rw [h.token]; rfl⟩
  obtain ⟨token, htoken⟩ := alone_issued (t := t) hsign rec.did rec.clientId narrowed p.jkt
    (some rec.sessionId) { recorded t s.oauth p with
      refresh := s.oauth.refresh.insert (state.oauth.hashSecret r.refreshToken) (rec, true) }
  have hrun : (tokenHandle state.oauth t).alone quietStore s.oauth
      = (issue state.oauth rec.did rec.clientId narrowed p.jkt (some rec.sessionId) t).alone
          quietStore { recorded t s.oauth p with
            refresh := s.oauth.refresh.insert (state.oauth.hashSecret r.refreshToken)
              (rec, true) } := by
    rw [alone_refresh hrequest hp, consume_unused hrow' (hexpires ▸ h.inTime)]
    change (refreshChecks state.oauth t p rec).alone quietStore _ = _
    rw [refreshChecks, if_neg (not_not_intro (hrclient.trans hclient.symm)),
      if_neg (not_not_intro hsame)]
    rw [← hrscope] at hgranted
    exact (alone_ofExcept_ok hgranted _ _).trans (alone_ofExcept_ok hnarrowed _ _)
  exact ⟨_, _, hrun.trans htoken, served_issued
    ((narrowScope_within hgranted hnarrowed).trans hwithin) ⟨_, hid, hrclient⟩
    (proofKey_of_proves hp)⟩

/-! ## The whole flow -/

theorem Served.untouched {s s' : ServerStore} {c : ClientStage} (h : Served state s c)
    (hsame : Untouched state s s' c) : Served state s' c := by
  cases c with
  | start => trivial
  | pushed q uri =>
      obtain ⟨stored, hrow, hstands⟩ := h
      exact ⟨stored, hsame.trans hrow, hstands⟩
  | granted q did f =>
      obtain ⟨uri, stored, hstands, hrow⟩ := h
      exact ⟨uri, stored, hstands, hsame.trans hrow⟩
  | holding q did last r =>
      obtain ⟨hsub, hwithin, rec, hrow, hrest⟩ := h
      exact ⟨hsub, hwithin, rec, hsame.trans hrow, hrest⟩

/-- A client that keeps to the protocol is answered. -/
theorem flow_progress (hsign : ∀ claims, ∃ token, state.oauth.signAccessToken claims = .ok token)
    {sc : ServerStore × ClientStage} {a : FlowAct} (hserved : Served state sc.1 sc.2)
    (h : Follows state sc a) :
    ∃ sc', flowStep state sc a = some sc' ∧ Served state sc'.1 sc'.2 := by
  obtain ⟨s, c⟩ := sc
  cases a with
  | others s' => exact ⟨_, rfl, hserved.untouched h⟩
  | push q document =>
      cases c with
      | start =>
          obtain ⟨r, s', hrun, hnext⟩ := push_progress h
          exact ⟨(s', .pushed q r.requestUri), by rw [flowStep, hrun], hnext⟩
      | pushed q' uri => exact h.elim
      | granted q' did f => exact h.elim
      | holding q' did last r => exact h.elim
  | submit f did =>
      cases c with
      | pushed q uri =>
          obtain ⟨location, record, s', hrun, hnext⟩ := submit_progress hserved h
          exact ⟨(s', .granted q did f), by rw [flowStep, hrun], hnext⟩
      | start => exact h.elim
      | granted q' did' f' => exact h.elim
      | holding q' did' last r => exact h.elim
  | token t =>
      cases c with
      | granted q did f =>
          obtain ⟨r, o, hrun, hnext⟩ := exchange_progress hsign hserved h
          exact ⟨(⟨s.accounts, o⟩, .holding q did t r), by rw [flowStep, hrun], hnext⟩
      | holding q did last r =>
          obtain ⟨r', o, hrun, hnext⟩ := refresh_progress hsign hserved h
          exact ⟨(⟨s.accounts, o⟩, .holding q did t r'), by rw [flowStep, hrun], hnext⟩
      | start => exact h.elim
      | pushed q uri => exact h.elim

/-- **The protocol goes through.** A client that keeps to it, whatever the
others do to what is not its own, is answered at every step, with any
number of refreshes. What it holds in the end is for the account whose
password was given, asks for no more than its pushed request did, and can
be spent. -/
theorem flow_completes
    (hsign : ∀ claims, ∃ token, state.oauth.signAccessToken claims = .ok token)
    {s : ServerStore} {as : List FlowAct}
    (h : Steps.Along (flowStep state) (Follows state) (s, .start) as) :
    ∃ s' c, Steps.run (flowStep state) (s, .start) as = some (s', c) ∧ Served state s' c
      ∧ ∀ q did last r, c = .holding q did last r → r.sub = did
        ∧ Scope.Within r.scope (q.form.scope.getD "")
        ∧ ∃ rec, s'.oauth.refresh.get (state.oauth.hashSecret r.refreshToken) = some (rec, false)
          ∧ rec.did = did ∧ rec.scope = r.scope := by
  have hstart : Served state s .start := trivial
  obtain ⟨⟨s', c⟩, hrun, hserved⟩ := Steps.run_of_progress
    (I := fun sc : ServerStore × ClientStage => Served state sc.1 sc.2)
    (fun sc a => flow_progress hsign) hstart h
  refine ⟨s', c, hrun, hserved, fun q did last r hc => ?_⟩
  subst hc
  obtain ⟨hsub, hwithin, rec, hrow, hdid, hscope, -⟩ := hserved
  exact ⟨hsub, hwithin, rec, hrow, hdid, hscope⟩

end

/-! ## A client of the sample server -/

def alicePushes : ParRequest where
  form := {
    clientId := "https://app.test/client", responseType := "code"
    redirectUri := some "https://app.test/callback", scope := some "atproto"
    state := some "s1", codeChallenge := some sampleCodeVerifier
    codeChallengeMethod := some "S256", loginHint := none }
  dpopHeader := none
  dpopNow := 1000
  handle := "p0"
  validateNow := 1000
  expiresNow := 1000

def aliceSubmits : AuthorizeForm where
  requestUri := "urn:ietf:params:oauth:request_uri:p0"
  username := "@Alice.pds.test"
  password := "correct horse"
  action := "accept"
  loadNow := 1010
  code := "c0"
  codeNow := 1010

def aliceAsks (form : TokenForm) (proof next : String) : TokenRequest where
  form := form
  dpopHeaders := [some s!"h.{proof}.s"]
  dpopNow := 1000
  nonceNow := 1000
  redeemNow := 1020
  accessNow := 1020
  refreshNow := 1020
  newRefreshToken := next
  newSessionId := "s0"
  newJti := "j"

def aliceFlow : List FlowAct :=
  [.push alicePushes (.ok ⟨200, "OK", none, .ok []⟩), .submit aliceSubmits "did:plc:alice",
    .token (aliceAsks sampleCodeForm "p1" "t0"), .token (aliceAsks sampleRefreshForm "p3" "t1")]

def aliceClaims (jti : String) : DpopClaims where
  jti := jti
  htm := "POST"
  htu := "https://pds.test/oauth/token"
  iat := 1000
  nonce := some (String.ofList ((toBeBytes 3).map fun x => Char.ofUInt8 x))
  ath := none

/-- Its proofs, all of one key. -/
theorem aliceAsks_proves {form : TokenForm} {proof next : String} {o : OauthStore}
    (hproof : proof = "p1" ∨ proof = "p3") (hnew : o.jti.contains proof = false) :
    ∃ p, (aliceAsks form proof next).Proves sampleOauth o p
      ∧ p.jkt = sampleJwk.thumbprint sampleJose := by
  have hread : sampleVerifier.readProof s!"h.{proof}.s" = .ok (sampleJwk, aliceClaims proof) := by
    rcases hproof with rfl | rfl
    · rfl
    · rfl
  have hisOk : (sampleVerifier.checkClaims
      { proof := s!"h.{proof}.s", method := "POST", uri := "https://pds.test/oauth/token"
        accessToken := none, requireNonce := true, now := 1000, nonceNow := 1000 }
      (aliceClaims proof)).isOk = true := by
    rcases hproof with rfl | rfl
    · decide
    · decide
  obtain ⟨u, hcheck⟩ : ∃ u, sampleVerifier.checkClaims
      { proof := s!"h.{proof}.s", method := "POST", uri := "https://pds.test/oauth/token"
        accessToken := none, requireNonce := true, now := 1000, nonceNow := 1000 }
      (aliceClaims proof) = .ok u := by
    cases hcheck : sampleVerifier.checkClaims _ (aliceClaims proof) with
    | ok u => exact ⟨u, rfl⟩
    | error e =>
        rw [hcheck] at hisOk
        cases hisOk
  exact ⟨_, ⟨_, rfl, sampleJwk, aliceClaims proof, hread, hcheck, hnew, rfl⟩, rfl⟩

theorem sampleChallenge_verifies :
    verifyChallenge sampleJose sampleCodeVerifier sampleCodeVerifier = .ok () := by
  have hisOk : (verifyChallenge sampleJose sampleCodeVerifier sampleCodeVerifier).isOk = true := by
    decide
  cases h : verifyChallenge sampleJose sampleCodeVerifier sampleCodeVerifier with
  | ok u => rfl
  | error e =>
      rw [h] at hisOk
      cases hisOk

theorem flowStep_exchanged {Keypair : Type} {state : AppState Keypair} {s : ServerStore}
    {q : ParRequest} {did : String} {f : AuthorizeForm} {t : TokenRequest}
    {sc : ServerStore × ClientStage}
    (h : flowStep state (s, .granted q did f) (.token t) = some sc) :
    ∃ o r, sc = ({ s with oauth := o }, .holding q did t r) := by
  rw [flowStep] at h
  split at h
  · exact ⟨_, _, (Option.some.inj h).symm⟩
  · cases h

/-- What the last step needs to know of the one before. -/
def heldTokens : ServerStore × ClientStage → Option (String × String × Bool)
  | (s, .holding _ _ _ r) => some (r.refreshToken, r.scope, s.oauth.jti.contains "p3")
  | _ => none

theorem aliceFlow_follows : Steps.Along (flowStep sampleApp) (Follows sampleApp)
    (⟨sampleMembers, OauthStore.empty⟩, .start) aliceFlow := by
  obtain ⟨o₁, o₂, hpush, hsubmit, hnew, hheld⟩ : ∃ o₁ o₂,
      flowStep sampleApp (⟨sampleMembers, OauthStore.empty⟩, .start)
          (.push alicePushes (.ok ⟨200, "OK", none, .ok []⟩))
        = some (⟨sampleMembers, o₁⟩, .pushed alicePushes "urn:ietf:params:oauth:request_uri:p0")
      ∧ flowStep sampleApp
          (⟨sampleMembers, o₁⟩, .pushed alicePushes "urn:ietf:params:oauth:request_uri:p0")
          (.submit aliceSubmits "did:plc:alice")
        = some (⟨sampleMembers, o₂⟩, .granted alicePushes "did:plc:alice" aliceSubmits)
      ∧ o₂.jti.contains "p1" = false
      ∧ ((flowStep sampleApp
          (⟨sampleMembers, o₂⟩, .granted alicePushes "did:plc:alice" aliceSubmits)
          (.token (aliceAsks sampleCodeForm "p1" "t0"))).bind heldTokens)
        = some ("t0", "atproto", false) := by
    refine ⟨_, _, rfl, rfl, rfl, ?_⟩
    decide
  refine ⟨⟨fun _ h => (by cases h), ?_⟩, fun s₁ h₁ => ?_⟩
  · exact ⟨_, _, _, rfl, ⟨Or.inr ⟨rfl, rfl⟩, rfl⟩, rfl⟩
  obtain rfl := Option.some.inj (hpush.symm.trans h₁)
  refine ⟨⟨rfl, rfl, by decide, _, rfl, rfl⟩, fun s₂ h₂ => ?_⟩
  obtain rfl := Option.some.inj (hsubmit.symm.trans h₂)
  refine ⟨⟨rfl, ⟨_, rfl, rfl⟩, rfl, rfl, ⟨_, _, rfl, rfl, sampleChallenge_verifies⟩, by decide, ?_⟩,
    fun s₃ h₃ => ?_⟩
  · obtain ⟨p, hp, -⟩ := aliceAsks_proves (Or.inl rfl) hnew
    exact ⟨p, hp, fun key hkey => by cases hkey⟩
  · obtain ⟨o, r, rfl⟩ := flowStep_exchanged h₃
    rw [h₃] at hheld
    obtain ⟨htoken, hrest⟩ := Prod.mk.inj (Option.some.inj hheld)
    obtain ⟨hscope, hnew'⟩ := Prod.mk.inj hrest
    obtain ⟨p, hp, hkey⟩ := aliceAsks_proves (Or.inr rfl) hnew'
    obtain ⟨granted, hasked⟩ : ∃ granted, Scope.parse r.scope = .ok granted := by
      rw [show r.scope = "atproto" from hscope]
      exact ⟨_, rfl⟩
    refine ⟨⟨rfl, ⟨_, rfl, rfl⟩, ?_, ⟨_, _, hasked, rfl⟩, by decide, p, hp, ?_⟩,
      fun _ _ => trivial⟩
    · rw [show r.refreshToken = "t0" from htoken]
      rfl
    · rw [hkey]
      rfl

/-- Alice pushes, submits, exchanges and refreshes. -/
theorem aliceFlow_completes :
    ∃ s' c, Steps.run (flowStep sampleApp) (⟨sampleMembers, OauthStore.empty⟩, .start) aliceFlow
        = some (s', c) ∧ Served sampleApp s' c
      ∧ ∀ q did last r, c = .holding q did last r → r.sub = did
        ∧ Scope.Within r.scope (q.form.scope.getD "")
        ∧ ∃ rec, s'.oauth.refresh.get (sampleApp.oauth.hashSecret r.refreshToken)
            = some (rec, false) ∧ rec.did = did ∧ rec.scope = r.scope :=
  flow_completes (fun _ => ⟨_, rfl⟩) aliceFlow_follows

end Stelyph
