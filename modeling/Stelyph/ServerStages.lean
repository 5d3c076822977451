import Stelyph.Lib.Typestate
import Stelyph.RefreshRevocation
import Stelyph.Server

/-!
# The life of a request

What a request may store, by what it has been answered so far. A pushed
request is stored once it was validated; a code once the request was
loaded and the account's password verified; a refresh token once a code
or an older token was redeemed and checked. `serverStages` says so, and
every handler follows it.
-/

namespace Stelyph

inductive ServerStage where
  /-- Stores nothing that grants anything. -/
  | idle
  | pushing (q : ParRequest) (metadata : Option ClientMetadata)
  | loading (q : AuthorizeForm)
  | refused
  | loaded (q : AuthorizeForm) (stored : StoredPushedRequest)
  | denied
  | authenticated (q : AuthorizeForm) (stored : StoredPushedRequest) (did : String)
  | minted (q : AuthorizeForm) (stored : StoredPushedRequest) (code : AuthCode)
  | redeeming (q : TokenRequest)
  | redeemed (q : TokenRequest) (code : AuthCode)
  | rotating (q : TokenRequest) (old : RefreshTokenRecord)
  | issued (q : TokenRequest) (rec : RefreshTokenRecord)

/-! ## What is stored for what -/

/-- The next refresh token for a redeemed code. -/
structure Redeems (cfg : OauthConfig) (q : TokenRequest) (code : AuthCode)
    (rec : RefreshTokenRecord) : Prop where
  did : rec.did = code.did
  clientId : rec.clientId = code.clientId
  presenter : code.clientId = q.form.clientId
  redirectUri : q.form.redirectUri = some code.redirectUri
  verifier : ∃ v, q.form.codeVerifier = some v
    ∧ verifyChallenge cfg.dpop.jose code.codeChallenge v = .ok ()
  scope : ∃ s, Scope.parse code.scope = .ok s ∧ rec.scope = s.display
  key : ∀ jkt, code.dpopJkt = some jkt → rec.dpopJkt = jkt
  session : rec.sessionId = q.newSessionId

/-- The next refresh token for a redeemed one. -/
structure Rotates (q : TokenRequest) (old rec : RefreshTokenRecord) : Prop where
  did : rec.did = old.did
  clientId : rec.clientId = old.clientId
  presenter : old.clientId = q.form.clientId
  scope : ∃ granted s, Scope.parse old.scope = .ok granted
    ∧ narrowScope granted q.form.scope = .ok s ∧ rec.scope = s.display
  key : rec.dpopJkt = old.dpopJkt
  session : rec.sessionId = old.sessionId

/-- The claims of the access token that goes with a refresh token. -/
def accessClaims (cfg : OauthConfig) (q : TokenRequest) (rec : RefreshTokenRecord) :
    AccessTokenClaims where
  iss := cfg.issuerUrl
  sub := rec.did
  aud := cfg.audience
  clientId := rec.clientId
  scope := rec.scope
  jti := q.newJti
  iat := q.accessNow
  exp := q.accessNow + accessTokenTtlSecs
  cnfJkt := rec.dpopJkt

/-- The response that goes with it. -/
structure Answers (cfg : OauthConfig) (q : TokenRequest) (rec : RefreshTokenRecord)
    (r : TokenResponse) : Prop where
  token : cfg.signAccessToken (accessClaims cfg q rec) = .ok r.accessToken
  sub : r.sub = rec.did
  scope : r.scope = rec.scope
  refresh : cfg.hashSecret r.refreshToken = rec.tokenHash

section

variable {Keypair : Type} (state : AppState Keypair)

/-- A pushed request that was validated against its client's metadata. -/
def Accepts (q : ParRequest) (metadata : Option ClientMetadata) (stored : StoredPushedRequest) :
    Prop :=
  ∃ clientId md dpopJkt requestUri, ClientId.parse state.parseUrl q.form.clientId = .ok clientId
    ∧ metadata = some md ∧ md.validate clientId = .ok ()
    ∧ q.form.validate state.oauth.dpop.jose state.oauth.hashSecret clientId md dpopJkt q.handle
        q.validateNow = .ok ⟨requestUri, stored⟩

/-! ## Stages -/

def OauthOp.allowedIn (t : ServerStage) (o : OauthOp) : Prop :=
  match t, o with
  | .pushing q metadata, .putPushedRequest stored => Accepts state q metadata stored
  | .loading q, .getPushedRequest hash now =>
      hash = state.oauth.hashSecret q.requestUri ∧ now = q.loadNow
  | .loaded q stored, .deletePushedRequest hash =>
      q.action ≠ "accept" ∧ hash = stored.requestUriHash
  | .authenticated q stored did, .putAuthCode code => code = state.authCode stored did q
  | .minted _ stored _, .deletePushedRequest hash => hash = stored.requestUriHash
  | .redeeming _, .consumeAuthCode _ _ => True
  | .redeeming _, .consumeRefreshToken _ _ => True
  | .redeemed q code, .putRefreshToken rec => Redeems state.oauth q code rec
  | .rotating q old, .putRefreshToken rec => Rotates q old rec
  | .pushing _ _, .recordDpopJti _ _ => True
  | .redeeming _, .recordDpopJti _ _ => True
  | .idle, .getPushedRequest _ _ => True
  | .idle, .revokeSession _ => True
  | .idle, .revokeRefreshToken _ => True
  | .idle, .purgeExpired _ => True
  | _, _ => False

def OauthOp.nextStage (t : ServerStage) (o : OauthOp) (r : Except StorageError o.Value) :
    ServerStage :=
  match t, o, r with
  | .pushing _ _, .putPushedRequest _, _ => .idle
  | .loading q, .getPushedRequest _ _, .ok (some stored) => .loaded q stored
  | .loading _, .getPushedRequest _ _, _ => .refused
  | .loaded _ _, .deletePushedRequest _, _ => .denied
  | .authenticated q stored _, .putAuthCode code, .ok _ => .minted q stored code
  | .authenticated _ _ _, .putAuthCode _, .error _ => .idle
  | .minted _ _ _, .deletePushedRequest _, _ => .idle
  | .redeeming q, .consumeAuthCode _ _, .ok (some code) => .redeemed q code
  | .redeeming q, .consumeRefreshToken _ _, .ok (.consumed old) => .rotating q old
  | .redeeming _, .consumeAuthCode _ _, _ => .idle
  | .redeeming _, .consumeRefreshToken _ _, _ => .idle
  | .redeemed q _, .putRefreshToken rec, .ok _ => .issued q rec
  | .rotating q _, .putRefreshToken rec, .ok _ => .issued q rec
  | .redeemed _ _, .putRefreshToken _, .error _ => .idle
  | .rotating _ _, .putRefreshToken _, .error _ => .idle
  | t, _, _ => t

def oauthStages : Typestate oauthSig ServerStage where
  allowed := OauthOp.allowedIn state
  next := OauthOp.nextStage

def ServerOp.allowedIn (t : ServerStage) (o : ServerOp) : Prop :=
  match t, o with
  | t, .oauth o => o.allowedIn state t
  | .idle, _ => True
  | .pushing _ _, .fetch _ => True
  | .loaded q _, .account (.getAccountByHandle handle) =>
      q.action = "accept" ∧ handle = AppState.normalizeUsername q.username
  | _, _ => False

def ServerOp.nextStage (t : ServerStage) (o : ServerOp) (r : o.Ret) : ServerStage :=
  match t, o, r with
  | t, .oauth o, r => o.nextStage t r
  | .pushing q _, .fetch _, r => .pushing q (state.readMetadata r).toOption
  | .loaded q stored, .account (.getAccountByHandle _), .ok (some (did, phc)) =>
      match state.server.verifyPassword q.password phc with
      | .ok true => .authenticated q stored did
      | _ => .idle
  | .loaded _ _, .account (.getAccountByHandle _), _ => .idle
  | t, _, _ => t

def serverStages : Typestate serverSig ServerStage where
  allowed := ServerOp.allowedIn state
  next := ServerOp.nextStage state

/-- Where a request begins; a development client brings its metadata. -/
def startStage : ServerRequest Keypair → ServerStage
  | .par q => .pushing q ((ClientId.parse state.parseUrl q.form.clientId).toOption.bind
      ClientId.loopbackMetadata)
  | .authorizeSubmit q => .loading q
  | .token q => .redeeming q
  | _ => .idle

/-- How it may end. -/
def EndsAs (q : ServerRequest Keypair) (t : ServerStage) : Except ServerError ServerAnswer → Prop
  | .ok (.tokens r) => ∃ q' rec, t = .issued q' rec ∧ Answers state.oauth q' rec r
  | .ok (.authorize (.redirect _)) => ∀ form, q = .authorizeSubmit form →
      (t = .denied ∧ form.action ≠ "accept") ∨ (t = .idle ∧ form.action = "accept")
  | _ => True

end

/-! ## Handlers follow their stages -/

section

variable {Keypair : Type} {state : AppState Keypair} {ε α : Type}

theorem nextStage_idle (o : ServerOp) (r : o.Ret) : ServerOp.nextStage state .idle o r = .idle := by
  cases o with
  | oauth o => cases o <;> rfl
  | account o => cases o <;> rfl
  | _ => rfl

/-- A request that grants nothing. -/
theorem follows_idle {p : ServerProg ε α} {post : ServerStage → Except ε α → Prop}
    (hp : p.Each fun o : ServerOp => o.allowedIn state .idle) (hpost : ∀ x, post .idle x) :
    p.Follows (serverStages state) post .idle :=
  Prog.Each.follows hpost (hp.mono fun o ho => ⟨ho, nextStage_idle o⟩)

theorem follows_answer {Q : Type} {A : Typestate serverSig Q} {p : ServerProg ε α}
    {wrap : α → ServerAnswer} {f : ε → ServerError}
    {post : Q → Except ServerError ServerAnswer → Prop} {t : Q}
    (h : p.Follows A (fun t x => post t ((x.mapError f).map wrap)) t) :
    (answer wrap f p).Follows A post t := by
  refine Prog.Follows.bind (Prog.Follows.mapError (h.mono fun t x hx => ?_))
  cases x <;> exact hx

theorem follows_lift {p : OauthProg α} {post : ServerStage → Except OAuthError α → Prop}
    {t : ServerStage} (h : p.Follows (oauthStages state) post t) :
    p.lift.Follows (serverStages state) post t := by
  rw [OauthProg.lift]
  apply Prog.Follows.hoist (A := oauthStages state)
  · exact fun _ _ ho => ho
  · exact fun _ _ _ => rfl
  · refine h.mono fun t x hx => ?_
    cases x <;> exact hx

/-! ### Pushed requests -/

theorem follows_resolve {clientId : ClientId} {q : ParRequest}
    {post : ServerStage → Except OAuthError ClientMetadata → Prop}
    (herr : ∀ t e, post t (.error e))
    (hok : ∀ metadata, metadata.validate clientId = .ok () →
      post (.pushing q (some metadata)) (.ok metadata)) :
    (state.resolve clientId).Follows (serverStages state) post
      (.pushing q clientId.loopbackMetadata) := by
  have hvalidate : ∀ metadata : ClientMetadata,
      Prog.Follows (serverStages state) post (.pushing q (some metadata))
        ((Prog.ofExcept id (metadata.validate clientId) : ServerProg OAuthError Unit).bind
          fun _ => .ret metadata) := by
    intro metadata
    cases hv : metadata.validate clientId with
    | error e => exact herr _ _
    | ok u => exact hok metadata hv
  rw [AppState.resolve]
  split
  · rename_i metadata hloop
    rw [hloop]
    exact hvalidate metadata
  · refine ⟨trivial, fun r => ?_⟩
    change Prog.Follows (serverStages state) post (.pushing q (state.readMetadata r).toOption) _
    simp only [Prog.ret_bind]
    cases hread : state.readMetadata r with
    | error e => exact herr _ _
    | ok metadata => exact hvalidate metadata

theorem follows_par (q : ParRequest) :
    (state.pushedAuthorizationRequest q).Follows (serverStages state) (fun _ _ => True)
      (startStage state (.par q)) := by
  rw [AppState.pushedAuthorizationRequest, startStage]
  cases hparse : ClientId.parse state.parseUrl q.form.clientId with
  | error e => trivial
  | ok clientId =>
      change Prog.Follows _ _ (ServerStage.pushing q clientId.loopbackMetadata)
        ((state.resolve clientId).bind _)
      refine Prog.Follows.bind (follows_resolve (fun _ _ => trivial) fun metadata hvalidate => ?_)
      have hdpop : (state.parDpop q).Follows (serverStages state)
          (fun t _ => t = .pushing q (some metadata)) (.pushing q (some metadata)) := by
        rw [AppState.parDpop]
        split
        · rfl
        · refine Prog.Follows.bind (follows_lift (Prog.Each.follows ?_ (each_verify ?_)))
          · rintro (e | proof) <;> rfl
          · exact fun _ _ => ⟨trivial, fun _ => rfl⟩
      refine Prog.Follows.bind (hdpop.mono fun t x ht => ?_)
      subst ht
      cases x with
      | error e => trivial
      | ok dpopJkt =>
          simp only
          cases hval : q.form.validate state.oauth.dpop.jose state.oauth.hashSecret clientId
              metadata dpopJkt q.handle q.validateNow with
          | error e => trivial
          | ok validated =>
              refine ⟨⟨clientId, metadata, dpopJkt, validated.requestUri, hparse, rfl, hvalidate,
                hval⟩, fun r => ?_⟩
              cases r <;> trivial

/-! ### Authorization -/

/-- What a request that grants nothing may issue. -/
abbrev GrantsNothing (state : AppState Keypair) (p : ServerProg ε α) : Prop :=
  p.Each fun o : ServerOp => o.allowedIn state .idle

theorem grantsNothing_resolve (clientId : ClientId) :
    GrantsNothing state (state.resolve clientId) := by
  rw [AppState.resolve]
  split
  · exact .bind (Prog.each_ofExcept _ _ _) fun _ => trivial
  · refine .bind (.ask trivial) fun _ => .bind (Prog.each_ofExcept _ _ _) fun _ => ?_
    exact .bind (Prog.each_ofExcept _ _ _) fun _ => trivial

theorem grantsNothing_renderPage (requestUri : String) (stored : StoredPushedRequest)
    (error : Option String) : GrantsNothing state (state.renderPage requestUri stored error) := by
  refine .bind ?_ fun _ => trivial
  rw [AppState.clientName]
  split
  · trivial
  · refine .bind (grantsNothing_resolve _).attempt fun resolved => ?_
    split <;> trivial

theorem grantsNothing_loadRequest (requestUri : String) (now : Nat) :
    GrantsNothing state (state.loadRequest requestUri now) := by
  rw [AppState.loadRequest]
  split
  · trivial
  · refine .bind (.ask trivial) fun found => ?_
    split <;> trivial

theorem grantsNothing_authorizePage (q : AuthorizeQuery) :
    GrantsNothing state (state.authorizePage q) := by
  refine .bind (grantsNothing_loadRequest _ _) fun loaded => ?_
  split
  · trivial
  · split
    · trivial
    · exact grantsNothing_renderPage _ _ _

/-- A submission ends with a redirect after a denial, or accepted. -/
def SubmitEnds (q : AuthorizeForm) (t : ServerStage) (x : Except OAuthError AuthorizeResponse) :
    Prop :=
  ∀ location, x = .ok (.redirect location) →
    (t = .denied ∧ q.action ≠ "accept") ∨ (t = .idle ∧ q.action = "accept")

theorem follows_authorizeSubmit (q : AuthorizeForm) :
    (state.authorizeSubmit q).Follows (serverStages state) (SubmitEnds q) (.loading q) := by
  rw [AppState.authorizeSubmit, AppState.loadRequest]
  split
  · exact fun _ h => nomatch h
  · refine ⟨⟨rfl, rfl⟩, fun found => ?_⟩
    rcases found with e | (_ | stored)
    · exact fun _ h => nomatch h
    · exact fun _ h => nomatch h
    · change Prog.Follows _ _ (ServerStage.loaded q stored) (if q.action ≠ "accept" then _ else _)
      split
      · rename_i hdeny
        exact ⟨⟨hdeny, rfl⟩, fun _ _ _ => Or.inl ⟨rfl, hdeny⟩⟩
      · rename_i haccept
        replace haccept : q.action = "accept" := not_not.mp haccept
        have hidle : ∀ x, SubmitEnds q .idle x := fun _ _ _ => Or.inr ⟨rfl, haccept⟩
        have hpage : ∀ message, (state.renderPage q.requestUri stored (some message)).Follows
            (serverStages state) (SubmitEnds q) .idle :=
          fun message => follows_idle (grantsNothing_renderPage _ _ _) hidle
        refine ⟨⟨haccept, rfl⟩, fun row => ?_⟩
        rcases row with e | (_ | ⟨did, phc⟩)
        · exact hpage _
        · exact hpage _
        · simp only [Prog.ret_bind]
          change Prog.Follows _ _ (match state.server.verifyPassword q.password phc with
            | .ok true => ServerStage.authenticated q stored did
            | _ => .idle) _
          rcases state.server.verifyPassword q.password phc with e | (_ | _)
          · exact hpage _
          · exact hpage _
          · refine ⟨rfl, fun put => ?_⟩
            cases put with
            | error e => exact hidle _
            | ok u =>
                refine ⟨rfl, fun deleted => ?_⟩
                cases deleted <;> exact hidle _

/-! ### Tokens -/

/-- A token response goes with a refresh token that was stored. -/
def TokenEnds (cfg : OauthConfig) (t : ServerStage) (x : Except OAuthError TokenResponse) : Prop :=
  ∀ r, x = .ok r → ∃ q rec, t = .issued q rec ∧ Answers cfg q rec r

theorem tokenEnds_error {cfg : OauthConfig} {t : ServerStage} {e : OAuthError} :
    TokenEnds cfg t (.error e) := fun _ h => nomatch h

theorem signed_of_issueAccessToken {cfg : OauthConfig} {did clientId jkt : String} {scope : Scope}
    {q : TokenRequest} {issued : String × Nat}
    (h : issueAccessToken cfg did clientId scope jkt q = .ok issued) :
    cfg.signAccessToken {
      iss := cfg.issuerUrl, sub := did, aud := cfg.audience, clientId := clientId
      scope := scope.display, jti := q.newJti, iat := q.accessNow
      exp := q.accessNow + accessTokenTtlSecs, cnfJkt := jkt } = .ok issued.1 := by
  rw [issueAccessToken] at h
  revert h
  cases cfg.signAccessToken _ with
  | error e => exact fun h => nomatch h
  | ok token =>
      intro h
      obtain rfl := Except.ok.inj h
      rfl

theorem follows_issue {did clientId jkt : String} {scope : Scope} {sid : Option String}
    {q : TokenRequest} {t : ServerStage}
    (hallowed : ∀ rec : RefreshTokenRecord, rec.did = did → rec.clientId = clientId →
      rec.scope = scope.display → rec.dpopJkt = jkt → rec.sessionId = sid.getD q.newSessionId →
      OauthOp.allowedIn state t (.putRefreshToken rec))
    (hnext : ∀ rec, OauthOp.nextStage t (.putRefreshToken rec) (.ok ()) = .issued q rec) :
    (issue state.oauth did clientId scope jkt sid q).Follows (oauthStages state)
      (TokenEnds state.oauth) t := by
  refine Prog.follows_ofExcept_bind (fun _ _ => tokenEnds_error) fun issued hsign => ?_
  refine ⟨hallowed _ rfl rfl rfl rfl rfl, fun r => ?_⟩
  cases r with
  | error e => exact tokenEnds_error
  | ok u =>
      intro r hr
      obtain rfl := Except.ok.inj hr
      exact ⟨q, _, hnext _, signed_of_issueAccessToken hsign, rfl, rfl, rfl⟩

theorem follows_authorizationCodeGrant (q : TokenRequest) (proof : DpopProof) :
    (authorizationCodeGrant state.oauth q proof).Follows (oauthStages state)
      (TokenEnds state.oauth) (.redeeming q) := by
  rw [authorizationCodeGrant]
  split
  · exact tokenEnds_error
  · refine ⟨trivial, fun r => ?_⟩
    rcases r with e | (_ | code)
    · exact tokenEnds_error
    · exact tokenEnds_error
    · change Prog.Follows _ _ (ServerStage.redeemed q code) _
      simp only [Prog.ofExcept_ok, Prog.ret_bind]
      split
      · exact tokenEnds_error
      · rename_i hclient
        split
        · exact tokenEnds_error
        · rename_i redirectUri hredirect
          split
          · exact tokenEnds_error
          · rename_i hsame
            split
            · exact tokenEnds_error
            · rename_i verifier hverifier
              refine Prog.follows_ofExcept_bind (fun _ _ => tokenEnds_error) fun u hverify => ?_
              split
              · exact tokenEnds_error
              · rename_i hkey
                refine Prog.follows_ofExcept_bind (fun _ _ => tokenEnds_error)
                  fun scope hscope => ?_
                refine follows_issue (fun rec hdid hclientId hrecScope hjkt hsession => ?_)
                  fun rec => rfl
                refine ⟨hdid, hclientId, not_not.mp hclient, ?_, ⟨verifier, hverifier, hverify⟩,
                  ⟨scope, hscope, hrecScope⟩, fun jkt hcode => ?_, hsession⟩
                · rw [hredirect, not_not.mp hsame]
                · rw [hcode] at hkey
                  rw [hjkt]
                  simpa using Eq.symm (by simpa using hkey)

theorem follows_refreshTokenGrant (q : TokenRequest) (proof : DpopProof) :
    (refreshTokenGrant state.oauth q proof).Follows (oauthStages state)
      (TokenEnds state.oauth) (.redeeming q) := by
  rw [refreshTokenGrant]
  split
  · exact tokenEnds_error
  · refine ⟨trivial, fun r => ?_⟩
    rcases r with e | (old | sessionId | -)
    · exact tokenEnds_error
    · change Prog.Follows _ _ (ServerStage.rotating q old) (refreshChecks state.oauth q proof old)
      rw [refreshChecks]
      split
      · exact tokenEnds_error
      · rename_i hclient
        split
        · exact tokenEnds_error
        · rename_i hkey
          refine Prog.follows_ofExcept_bind (fun _ _ => tokenEnds_error) fun granted hgranted => ?_
          refine Prog.follows_ofExcept_bind (fun _ _ => tokenEnds_error) fun scope hscope => ?_
          refine follows_issue (fun rec hdid hclientId hrecScope hjkt hsession => ?_) fun rec => rfl
          exact ⟨hdid, hclientId, not_not.mp hclient, ⟨granted, scope, hgranted, hscope, hrecScope⟩,
            hjkt.trans (not_not.mp hkey).symm, hsession⟩
    · refine ⟨trivial, fun r => ?_⟩
      cases r <;> exact tokenEnds_error
    · exact tokenEnds_error

theorem follows_tokenHandle (q : TokenRequest) :
    (tokenHandle state.oauth q).Follows (oauthStages state) (TokenEnds state.oauth)
      (.redeeming q) := by
  have hverify : (verifyDpop state.oauth q).Follows (oauthStages state)
      (fun t _ => t = .redeeming q) (.redeeming q) :=
    Prog.Each.follows (fun _ => rfl) (each_verifyDpop fun _ _ => ⟨trivial, fun _ => rfl⟩)
  refine Prog.Follows.bind (hverify.mono fun t x ht => ?_)
  subst ht
  cases x with
  | error e => exact tokenEnds_error
  | ok proof =>
      simp only
      split
      · exact follows_authorizationCodeGrant q proof
      · split
        · exact follows_refreshTokenGrant q proof
        · exact tokenEnds_error

/-! ### Sessions and commands -/

theorem grantsNothing_of_lift {p : AccountProg α} : GrantsNothing state p.lift :=
  Prog.Each.hoist (Prog.each_of_forall (fun _ => trivial) p)

theorem grantsNothing_createSession (identifier password : String) (now : Nat) :
    GrantsNothing state (state.createSession identifier password now) := by
  refine .bind (.ask trivial) fun found => .bind (Prog.each_ofExcept _ _ _) fun row => ?_
  split
  · trivial
  · refine .bind (.ask trivial) fun joined => .bind (Prog.each_ofExcept _ _ _) fun _ => ?_
    refine .bind (Prog.each_ofExcept _ _ _) fun verified => ?_
    split
    · trivial
    · refine .bind (Prog.each_ofExcept _ _ _) fun _ => ?_
      exact .bind (Prog.each_ofExcept _ _ _) fun _ => trivial

theorem grantsNothing_refreshSession (parts : XrpcParts) (now : Nat) :
    GrantsNothing state (state.refreshSession parts now) := by
  refine .bind (Prog.each_ofExcept _ _ _) fun did => ?_
  refine .bind (.ask trivial) fun found => .bind (Prog.each_ofExcept _ _ _) fun row => ?_
  split
  · trivial
  · refine .bind (Prog.each_ofExcept _ _ _) fun _ => ?_
    exact .bind (Prog.each_ofExcept _ _ _) fun _ => trivial

theorem grantsNothing_takedown (did reference now : String) :
    GrantsNothing state (AppState.takedown did reference now) := by
  refine .bind (.ask trivial) fun _ => .bind (Prog.each_ofExcept _ _ _) fun n => ?_
  split <;> trivial

theorem grantsNothing_untakedown (did : String) :
    GrantsNothing state (AppState.untakedown did) := by
  refine .bind (.ask trivial) fun _ => .bind (Prog.each_ofExcept _ _ _) fun n => ?_
  split <;> trivial

theorem grantsNothing_resetPassword (identifier pw confirm salt : String) :
    GrantsNothing state (state.resetPassword identifier pw confirm salt) := by
  refine .bind ?_ fun did => ?_
  · rw [AppState.resetDid]
    split
    · trivial
    · refine .bind (.ask trivial) fun _ => .bind (Prog.each_ofExcept _ _ _) fun did => ?_
      split <;> trivial
  · split
    · trivial
    · split
      · trivial
      · refine .bind (Prog.each_ofExcept _ _ _) fun phc => .bind (.ask trivial) fun _ => ?_
        refine .bind (Prog.each_ofExcept _ _ _) fun n => ?_
        split <;> trivial

/-! ### Every request -/

theorem serverHandler_follows (q : ServerRequest Keypair) :
    (serverHandler state q).Follows (serverStages state) (EndsAs state q)
      (startStage state q) := by
  cases q with
  | par q =>
      refine follows_answer ((follows_par q).mono fun t x _ => ?_)
      cases x <;> trivial
  | authorizePage q =>
      refine follows_answer (follows_idle (grantsNothing_authorizePage q) fun x => ?_)
      rcases x with e | (_ | _ | _ | _)
      · trivial
      · trivial
      · trivial
      · exact fun form h => nomatch h
      · trivial
  | authorizeSubmit q =>
      refine follows_answer ((follows_authorizeSubmit q).mono fun t x hx => ?_)
      rcases x with e | (_ | _ | location | _)
      · trivial
      · trivial
      · trivial
      · intro form hform
        obtain rfl := ServerRequest.authorizeSubmit.inj hform
        exact hx location rfl
      · trivial
  | token q =>
      refine follows_answer (follows_lift ((follows_tokenHandle q).mono fun t x hx => ?_))
      cases x with
      | error e => trivial
      | ok r => exact hx r rfl
  | revoke token =>
      refine follows_answer (follows_idle ?_ fun x => by cases x <;> trivial)
      exact ⟨trivial, fun _ => trivial⟩
  | purgeExpired now =>
      refine follows_answer (follows_idle ?_ fun x => by cases x <;> trivial)
      exact Prog.Each.hoist ⟨trivial, fun _ => Prog.each_ofExcept _ _ _⟩
  | createSession identifier password now =>
      exact follows_answer (follows_idle (grantsNothing_createSession identifier password now)
        fun x => by cases x <;> trivial)
  | refreshSession parts now =>
      exact follows_answer (follows_idle (grantsNothing_refreshSession parts now)
        fun x => by cases x <;> trivial)
  | createAccount input rnd =>
      -- nothing about the program but that it is one of the account store
      rw [serverHandler]
      generalize createAccountInner state.server input rnd = p
      exact follows_answer (follows_idle grantsNothing_of_lift fun x => by cases x <;> trivial)
  | takedown did reference now =>
      exact follows_answer (follows_idle (grantsNothing_takedown did reference now)
        fun x => by cases x <;> trivial)
  | untakedown did =>
      exact follows_answer (follows_idle (grantsNothing_untakedown did)
        fun x => by cases x <;> trivial)
  | resetPassword identifier pw confirm salt =>
      exact follows_answer (follows_idle (grantsNothing_resetPassword identifier pw confirm salt)
        fun x => by cases x <;> trivial)

/-! ## What one step does to a stage -/

/-- The operation stores nothing, or its failure was rolled back. -/
def Inert : (o : ServerOp) → o.Ret → Prop
  | .oauth (.putPushedRequest _), _ => False
  | .oauth (.deletePushedRequest _), _ => False
  | .oauth (.putAuthCode _), .ok _ => False
  | .oauth (.putRefreshToken _), .ok _ => False
  | _, _ => True

/-- Stages in which a request may still be left by an inert operation. -/
def ServerStage.waiting : ServerStage → Bool
  | .idle => true
  | .pushing _ _ => true
  | .redeeming _ => true
  | _ => false

inductive Moves (state : AppState Keypair) :
    ServerStage → (o : ServerOp) → o.Ret → ServerStage → Prop where
  | fetch {q metadata url r} : Moves state (.pushing q metadata) (.fetch url) r
      (.pushing q (state.readMetadata r).toOption)
  | push {q metadata stored r} (h : Accepts state q metadata stored) :
      Moves state (.pushing q metadata) (.oauth (.putPushedRequest stored)) r .idle
  | load {q : AuthorizeForm} {stored} : Moves state (.loading q)
      (.oauth (.getPushedRequest (state.oauth.hashSecret q.requestUri) q.loadNow))
      (.ok (some stored)) (.loaded q stored)
  | deny {q : AuthorizeForm} {stored r} (h : q.action ≠ "accept") : Moves state (.loaded q stored)
      (.oauth (.deletePushedRequest stored.requestUriHash)) r .denied
  | authenticate {q : AuthorizeForm} {stored did phc} (haccept : q.action = "accept")
      (hverify : state.server.verifyPassword q.password phc = .ok true) :
      Moves state (.loaded q stored)
        (.account (.getAccountByHandle (AppState.normalizeUsername q.username)))
        (.ok (some (did, phc))) (.authenticated q stored did)
  | mint {q stored did} : Moves state (.authenticated q stored did)
      (.oauth (.putAuthCode (state.authCode stored did q))) (.ok ())
      (.minted q stored (state.authCode stored did q))
  | close {q stored code r} : Moves state (.minted q stored code)
      (.oauth (.deletePushedRequest stored.requestUriHash)) r .idle
  | redeem {q hash now code} : Moves state (.redeeming q) (.oauth (.consumeAuthCode hash now))
      (.ok (some code)) (.redeemed q code)
  | rotate {q hash now old} : Moves state (.redeeming q) (.oauth (.consumeRefreshToken hash now))
      (.ok (.consumed old)) (.rotating q old)
  | issueRedeemed {q code rec} (h : Redeems state.oauth q code rec) :
      Moves state (.redeemed q code) (.oauth (.putRefreshToken rec)) (.ok ()) (.issued q rec)
  | issueRotated {q old rec} (h : Rotates q old rec) :
      Moves state (.rotating q old) (.oauth (.putRefreshToken rec)) (.ok ()) (.issued q rec)
  | rest {t o r t'} (hinert : Inert o r)
      (hend : t' = .idle ∨ t' = .refused ∨ (t' = t ∧ t.waiting = true)) : Moves state t o r t'

theorem inert_of_idle {o : ServerOp} (h : o.allowedIn state .idle) (r : o.Ret) : Inert o r := by
  cases o with
  | oauth o => cases o <;> trivial
  | _ => trivial

theorem moves_pushing {q : ParRequest} {metadata : Option ClientMetadata} {o : OauthOp}
    (h : o.allowedIn state (.pushing q metadata)) (r : Except StorageError o.Value) :
    Moves state (.pushing q metadata) (.oauth o) r (o.nextStage (.pushing q metadata) r) := by
  cases o with
  | putPushedRequest stored => exact .push h
  | recordDpopJti jti expiresAt => exact .rest trivial (Or.inr (Or.inr ⟨rfl, rfl⟩))
  | _ => exact h.elim

theorem moves_loading {q : AuthorizeForm} {o : OauthOp} (h : o.allowedIn state (.loading q))
    (r : Except StorageError o.Value) :
    Moves state (.loading q) (.oauth o) r (o.nextStage (.loading q) r) := by
  cases o with
  | getPushedRequest hash now =>
      obtain ⟨rfl, rfl⟩ := h
      rcases r with e | (_ | stored)
      · exact .rest trivial (Or.inr (Or.inl rfl))
      · exact .rest trivial (Or.inr (Or.inl rfl))
      · exact .load
  | _ => exact h.elim

theorem moves_loaded {q : AuthorizeForm} {stored : StoredPushedRequest} {o : OauthOp}
    (h : o.allowedIn state (.loaded q stored)) (r : Except StorageError o.Value) :
    Moves state (.loaded q stored) (.oauth o) r (o.nextStage (.loaded q stored) r) := by
  cases o with
  | deletePushedRequest hash =>
      obtain ⟨hdeny, rfl⟩ := h
      exact .deny hdeny
  | _ => exact h.elim

theorem moves_authenticated {q : AuthorizeForm} {stored : StoredPushedRequest} {did : String}
    {o : OauthOp} (h : o.allowedIn state (.authenticated q stored did))
    (r : Except StorageError o.Value) : Moves state (.authenticated q stored did) (.oauth o) r
      (o.nextStage (.authenticated q stored did) r) := by
  cases o with
  | putAuthCode code =>
      obtain rfl := h
      cases r with
      | error e => exact .rest trivial (Or.inl rfl)
      | ok u => exact .mint
  | _ => exact h.elim

theorem moves_minted {q : AuthorizeForm} {stored : StoredPushedRequest} {code : AuthCode}
    {o : OauthOp} (h : o.allowedIn state (.minted q stored code))
    (r : Except StorageError o.Value) :
    Moves state (.minted q stored code) (.oauth o) r (o.nextStage (.minted q stored code) r) := by
  cases o with
  | deletePushedRequest hash =>
      obtain rfl := h
      exact .close
  | _ => exact h.elim

theorem moves_redeeming {q : TokenRequest} {o : OauthOp} (h : o.allowedIn state (.redeeming q))
    (r : Except StorageError o.Value) :
    Moves state (.redeeming q) (.oauth o) r (o.nextStage (.redeeming q) r) := by
  cases o with
  | consumeAuthCode hash now =>
      rcases r with e | (_ | code)
      · exact .rest trivial (Or.inl rfl)
      · exact .rest trivial (Or.inl rfl)
      · exact .redeem
  | consumeRefreshToken hash now =>
      rcases r with e | (old | sessionId | -)
      · exact .rest trivial (Or.inl rfl)
      · exact .rotate
      · exact .rest trivial (Or.inl rfl)
      · exact .rest trivial (Or.inl rfl)
  | recordDpopJti jti expiresAt => exact .rest trivial (Or.inr (Or.inr ⟨rfl, rfl⟩))
  | _ => exact h.elim

theorem moves_redeemed {q : TokenRequest} {code : AuthCode} {o : OauthOp}
    (h : o.allowedIn state (.redeemed q code)) (r : Except StorageError o.Value) :
    Moves state (.redeemed q code) (.oauth o) r (o.nextStage (.redeemed q code) r) := by
  cases o with
  | putRefreshToken rec =>
      cases r with
      | error e => exact .rest trivial (Or.inl rfl)
      | ok u => exact .issueRedeemed h
  | _ => exact h.elim

theorem moves_rotating {q : TokenRequest} {old : RefreshTokenRecord} {o : OauthOp}
    (h : o.allowedIn state (.rotating q old)) (r : Except StorageError o.Value) :
    Moves state (.rotating q old) (.oauth o) r (o.nextStage (.rotating q old) r) := by
  cases o with
  | putRefreshToken rec =>
      cases r with
      | error e => exact .rest trivial (Or.inl rfl)
      | ok u => exact .issueRotated h
  | _ => exact h.elim

/-- The password of a submission is looked up. -/
theorem moves_account {t : ServerStage} {o : AccountOp}
    (h : ServerOp.allowedIn state t (.account o)) (r : ServerOp.Ret (.account o)) :
    Moves state t (.account o) r (ServerOp.nextStage state t (.account o) r) := by
  cases t with
  | idle =>
      rw [nextStage_idle]
      exact .rest trivial (Or.inl rfl)
  | loaded q stored =>
      cases o with
      | getAccountByHandle handle =>
          obtain ⟨haccept, rfl⟩ := h
          rcases r with e | (_ | ⟨did, phc⟩)
          · exact .rest trivial (Or.inl rfl)
          · exact .rest trivial (Or.inl rfl)
          · simp only [ServerOp.nextStage]
            split
            · rename_i hverify
              exact .authenticate haccept hverify
            · exact .rest trivial (Or.inl rfl)
      | _ => exact h.elim
  | _ => cases o <;> exact h.elim

/-- Every step a stage allows is one of these. -/
theorem moves_of_allowed {t : ServerStage} {o : ServerOp} (h : o.allowedIn state t) (r : o.Ret) :
    Moves state t o r (ServerOp.nextStage state t o r) := by
  cases o with
  | oauth o =>
      cases t with
      | idle =>
          rw [nextStage_idle]
          exact .rest (inert_of_idle h r) (Or.inl rfl)
      | pushing q metadata => exact moves_pushing h r
      | loading q => exact moves_loading h r
      | loaded q stored => exact moves_loaded h r
      | authenticated q stored did => exact moves_authenticated h r
      | minted q stored code => exact moves_minted h r
      | redeeming q => exact moves_redeeming h r
      | redeemed q code => exact moves_redeemed h r
      | rotating q old => exact moves_rotating h r
      | refused | denied | issued q rec => cases o <;> exact h.elim
  | account o => exact moves_account h r
  | fetch url =>
      cases t with
      | idle =>
          rw [nextStage_idle]
          exact .rest trivial (Or.inl rfl)
      | pushing q metadata => exact .fetch
      | _ => exact h.elim
  | _ =>
      cases t with
      | idle =>
          rw [nextStage_idle]
          exact .rest trivial (Or.inl rfl)
      | _ => exact h.elim

end

end Stelyph
