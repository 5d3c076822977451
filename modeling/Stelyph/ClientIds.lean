import Stelyph.Provenance

/-!
# The client_id of a flow

A flow begins with a pushed request, whose `client_id` is parsed and kept
in its canonical form: of an https client the URL parser's serialisation,
of a localhost client the string itself (`ClientId::as_str`). The page of
the authorization, the code grant and every refresh compare the string
they are given with what was kept, without parsing it. So the string a
request was pushed with passes these checks exactly when it is canonical.
-/

namespace Stelyph

/-! ## What the checks look at -/

/-- A record of the flow, of whichever of the three kinds, with the
`client_id` it was made for. -/
inductive ClientRecord where
  | request (stored : StoredPushedRequest)
  | code (code : AuthCode)
  | token (rec : RefreshTokenRecord)
deriving DecidableEq

namespace ClientRecord

/-- The client that a record was made for. -/
def clientId : ClientRecord → String
  | .request stored => stored.clientId
  | .code c => c.clientId
  | .token rec => rec.clientId

/-- The answer to a request that comes with another `client_id` than its
record: an error page where a user looks at it, `invalid_grant` elsewhere.
-/
def mismatch : ClientRecord → Except ServerError ServerAnswer
  | .request _ => .ok (.authorize (.errorPage 400 "Invalid request"
      "The client_id does not match this authorization request."))
  | .code _ => .error (.oauth (.invalidGrant
      "authorization code was issued to a different client"))
  | .token _ => .error (.oauth (.invalidGrant
      "refresh token was issued to a different client"))

end ClientRecord

/-- The record an answer of the OAuth store gives. -/
def OauthOp.clientRecord (o : OauthOp) (r : Except StorageError o.Value) : Option ClientRecord :=
  match o, r with
  | .getPushedRequest _ _, .ok (some stored) => some (.request stored)
  | .consumeAuthCode _ _, .ok (some code) => some (.code code)
  | .consumeRefreshToken _ _, .ok (.consumed rec) => some (.token rec)
  | _, _ => none

def ServerOp.clientRecord (o : ServerOp) (r : o.Ret) : Option ClientRecord :=
  match o, r with
  | .oauth o, r => o.clientRecord r
  | _, _ => none

section

variable {Keypair : Type}

/-- The `client_id` a request is checked with, for the requests that look
up a record by a handle. -/
def ServerRequest.presents : ServerRequest Keypair → Option String
  | .authorizePage q => q.clientId
  | .token q => some q.form.clientId
  | _ => none

/-- Task `i` was given this record by the store, at some point of the run so far. -/
def LooksUp (P : ServerPool Keypair) (i : Nat) (f : ClientRecord) : Prop :=
  ∃ o r, Logged P i o r ∧ ServerOp.clientRecord o r = some f

/-- The records a flow leaves: its request, its codes and the tokens of
their sessions. -/
inductive Accepted.Leaves {state : AppState Keypair} {P : ServerPool Keypair}
    (A : Accepted state P) : ClientRecord → Prop where
  | request : A.Leaves (.request A.stored)
  | code (B : Authorization state P) : B.toAccepted = A → A.Leaves (.code B.code)
  | token (R : Redemption state P) {rec : RefreshTokenRecord} : R.toAccepted = A →
      Lineage P R.first rec → A.Leaves (.token rec)

/-- `jws::sign`: only the encoding of the header or the claims can fail. -/
def AppState.signing (state : AppState Keypair)
    (sign : AccessTokenClaims → Except String String) : AppState Keypair :=
  { state with oauth := { state.oauth with
      signAccessToken := fun claims => (sign claims).mapError .internal } }

/-- A localhost client, or a URL that is its own serialisation: what is
compared as text later is what was written at first. -/
def IsCanonical (parseUrl : String → Except String ParsedUrl) (clientId : String) : Prop :=
  ∀ url, parseUrl clientId = .ok url → url.scheme = "https" → url.text = clientId

/-! ## The string that is kept -/

theorem parseLoopback_ok {raw : String} {url : ParsedUrl} {clientId : ClientId}
    (h : ClientId.parseLoopback raw url = .ok clientId) : clientId.asStr = raw := by
  unfold ClientId.parseLoopback at h
  split at h
  · cases h
  · split at h
    · cases h
    · split at h
      · cases h
      · obtain ⟨⟨uris, scope⟩, -, hok⟩ := Prog.except_bind_ok h
        obtain rfl := Except.ok.inj hok
        rfl

theorem parseWeb_ok {url : ParsedUrl} {clientId : ClientId}
    (h : ClientId.parseWeb url = .ok clientId) : clientId = .web url := by
  unfold ClientId.parseWeb at h
  split at h
  · split_ifs at h
    exact (Except.ok.inj h).symm
  · cases h
  · cases h

theorem asStr_eq_iff {parseUrl : String → Except String ParsedUrl} {raw : String}
    {clientId : ClientId} (h : ClientId.parse parseUrl raw = .ok clientId) :
    clientId.asStr = raw ↔ IsCanonical parseUrl raw := by
  obtain ⟨url, hurl, hrest⟩ := Prog.except_bind_ok h
  obtain hurl := Prog.except_mapError_ok hurl
  split at hrest
  · cases hrest
  · split at hrest
    · cases hrest
    · split at hrest
      · rename_i hhttp
        refine iff_of_true (parseLoopback_ok hrest) fun url' hurl' hhttps => ?_
        obtain rfl := Except.ok.inj (hurl.symm.trans hurl')
        rw [hhttp] at hhttps
        exact absurd hhttps (by decide)
      · split at hrest
        · rename_i hhttps
          obtain rfl := parseWeb_ok hrest
          refine ⟨fun heq url' hurl' _ => ?_, fun hcanonical => hcanonical url hurl hhttps⟩
          obtain rfl := Except.ok.inj (hurl.symm.trans hurl')
          exact heq
        · cases hrest

/-! ## The checks -/

/-- What a request was given decides whether it ends in a mismatch. -/
def Compares (q : ServerRequest Keypair) (fs : List ClientRecord)
    (x : Except ServerError ServerAnswer) : Prop :=
  ∀ f ∈ fs, ∀ c, q.presents = some c → (x = f.mismatch ↔ c ≠ f.clientId)

theorem compares_nil (q : ServerRequest Keypair) (x : Except ServerError ServerAnswer) :
    Compares q [] x := fun f hf => by cases hf

theorem compares_mismatch {q : ServerRequest Keypair} {f : ClientRecord} {c : String}
    (hq : q.presents = some c) (h : c ≠ f.clientId) : Compares q [f] f.mismatch := by
  intro f' hf c' hc
  obtain rfl := List.mem_singleton.mp hf
  obtain rfl := Option.some.inj (hq.symm.trans hc)
  exact iff_of_true rfl h

theorem compares_passed {q : ServerRequest Keypair} {f : ClientRecord}
    {x : Except ServerError ServerAnswer} (h : ∀ c, q.presents = some c → c = f.clientId)
    (hx : x ≠ f.mismatch) : Compares q [f] x := by
  intro f' hf c hc
  obtain rfl := List.mem_singleton.mp hf
  exact iff_of_false hx (not_not_intro (h c hc))

abbrev oauthRecords : Typestate oauthSig (List ClientRecord) := .recording OauthOp.clientRecord

abbrev serverRecords : Typestate serverSig (List ClientRecord) := .recording ServerOp.clientRecord

/-! ### The page -/

variable {state : AppState Keypair}

theorem each_clientName (stored : StoredPushedRequest) :
    (state.clientName stored).Each fun o : ServerOp => ∀ r, o.clientRecord r = none := by
  have hresolve : ∀ clientId : ClientId,
      (state.resolve clientId).Each fun o : ServerOp => ∀ r, o.clientRecord r = none := by
    intro clientId
    rw [AppState.resolve]
    split
    · exact .bind (Prog.each_ofExcept _ _ _) fun _ => trivial
    · refine .bind (.ask fun _ => rfl) fun _ => .bind (Prog.each_ofExcept _ _ _) fun _ => ?_
      exact .bind (Prog.each_ofExcept _ _ _) fun _ => trivial
  rw [AppState.clientName]
  split
  · trivial
  · refine .bind (hresolve _).attempt fun resolved => ?_
    split <;> trivial

theorem compares_authorizePage (q : AuthorizeQuery) :
    (state.authorizePage q).Follows serverRecords (fun fs x =>
      Compares (.authorizePage q : ServerRequest Keypair) fs ((x.mapError .oauth).map .authorize))
      [] := by
  rw [AppState.authorizePage, AppState.loadRequest]
  split
  · exact compares_nil _ _
  · refine ⟨trivial, fun found => ?_⟩
    rcases found with e | (_ | stored)
    · exact compares_nil _ _
    · exact compares_nil _ _
    · change Prog.Follows serverRecords _ [ClientRecord.request stored] (if _ then _ else _)
      split
      · rename_i hany
        obtain ⟨c, hc, hne⟩ := (Option.any_eq_true _ _).mp hany
        have hneq : c ≠ stored.clientId := bne_iff_ne.mp hne
        exact compares_mismatch (f := .request stored) hc hneq
      · rename_i hany
        have hsame : ∀ c, q.clientId = some c → c = stored.clientId := by
          intro c hc
          rw [hc, Option.any_some] at hany
          by_contra hne
          exact hany (bne_iff_ne.mpr hne)
        refine Prog.Follows.bind (Prog.Each.recorded (fun x => ?_) (each_clientName stored))
        cases x with
        | error e =>
            refine compares_passed hsame ?_
            intro heq
            cases heq
        | ok name =>
            refine compares_passed hsame ?_
            intro heq
            cases heq

/-! ### The grants -/

/-- No error of a grant but the checks' own says that the client differs. -/
def OAuthError.Ordinary (e : OAuthError) : Prop :=
  ∀ f : ClientRecord, (.error (.oauth e) : Except ServerError ServerAnswer) ≠ f.mismatch

theorem ordinary_invalidGrant {msg : String}
    (hcode : msg ≠ "authorization code was issued to a different client")
    (htoken : msg ≠ "refresh token was issued to a different client") :
    (OAuthError.invalidGrant msg).Ordinary := by
  intro f heq
  cases f with
  | request stored => cases heq
  | code c =>
      have := OAuthError.invalidGrant.inj (ServerError.oauth.inj (Except.error.inj heq))
      exact hcode this
  | token rec =>
      have := OAuthError.invalidGrant.inj (ServerError.oauth.inj (Except.error.inj heq))
      exact htoken this

theorem ordinary_of_not_grant {e : OAuthError} (h : ∀ msg, e ≠ .invalidGrant msg) :
    e.Ordinary := by
  intro f heq
  cases f with
  | request stored => cases heq
  | code c => exact h _ (ServerError.oauth.inj (Except.error.inj heq))
  | token rec => exact h _ (ServerError.oauth.inj (Except.error.inj heq))

theorem ordinary_scope {s : String} {e : OAuthError} (h : Scope.parse s = .error e) :
    e.Ordinary := by
  have htokens : ∀ (ts acc : List String) (e : OAuthError),
      Scope.parseTokens acc ts = .error e → ∀ msg, e ≠ .invalidGrant msg := by
    intro ts
    induction ts with
    | nil => exact fun acc e he => by cases he
    | cons t ts ih =>
        intro acc e he
        rw [Scope.parseTokens] at he
        split at he
        · exact ih _ e he
        · obtain rfl := Except.error.inj he
          intro msg heq
          cases heq
  refine ordinary_of_not_grant ?_
  rw [Scope.parse] at h
  cases hset : Scope.parseTokens [] (Text.splitAsciiWhitespace s) with
  | error e' =>
      rw [hset] at h
      obtain rfl := Except.error.inj h
      exact htokens _ _ _ hset
  | ok set =>
      rw [hset] at h
      simp only [bind, Except.bind] at h
      split_ifs at h
      · obtain rfl := Except.error.inj h
        exact fun msg heq => by cases heq
      · obtain rfl := Except.error.inj h
        exact fun msg heq => by cases heq

theorem ordinary_narrowScope {granted : Scope} {requested : Option String} {e : OAuthError}
    (h : narrowScope granted requested = .error e) : e.Ordinary := by
  cases requested with
  | none => cases h
  | some requested =>
    simp only [narrowScope] at h
    cases hscope : Scope.parse requested with
    | error e' =>
        rw [hscope] at h
        obtain rfl := Except.error.inj h
        exact ordinary_scope hscope
    | ok s =>
        rw [hscope] at h
        simp only [bind, Except.bind] at h
        split at h
        · obtain rfl := Except.error.inj h
          exact ordinary_of_not_grant fun msg heq => by cases heq
        · cases h

theorem ordinary_verifyChallenge {jose : JoseLib} {challenge verifier : String} {e : OAuthError}
    (h : verifyChallenge jose challenge verifier = .error e) : e.Ordinary := by
  unfold verifyChallenge at h
  split_ifs at h
  all_goals
    obtain rfl := Except.error.inj h
    exact ordinary_invalidGrant (by decide) (by decide)

section

variable {cfg : OauthConfig} {q : TokenRequest}

/-- The end of a grant, past its check. -/
def GrantCompares (q : TokenRequest) (fs : List ClientRecord)
    (x : Except OAuthError TokenResponse) : Prop :=
  Compares (.token q : ServerRequest Nat) fs ((x.mapError .oauth).map .tokens)

theorem grantCompares_error {f : ClientRecord} {e : OAuthError} (h : q.form.clientId = f.clientId)
    (he : e.Ordinary) : GrantCompares q [f] (.error e) :=
  compares_passed (fun _ hc => (Option.some.inj hc).symm.trans h) (he f)

theorem grantCompares_ok {f : ClientRecord} {r : TokenResponse} (h : q.form.clientId = f.clientId) :
    GrantCompares q [f] (.ok r) := by
  refine compares_passed (fun _ hc => (Option.some.inj hc).symm.trans h) ?_
  intro heq
  cases f <;> cases heq

variable (hsign : ∀ claims e, cfg.signAccessToken claims = .error e → OAuthError.Ordinary e)

include hsign in
theorem compares_issue {f : ClientRecord} (h : q.form.clientId = f.clientId)
    (did clientId : String) (scope : Scope) (jkt : String) (sid : Option String) :
    (issue cfg did clientId scope jkt sid q).Follows oauthRecords (GrantCompares q) [f] := by
  refine Prog.follows_ofExcept_bind (fun e he => ?_) fun issued _ => ?_
  · refine grantCompares_error h ?_
    rw [issueAccessToken] at he
    cases hs : cfg.signAccessToken _ with
    | error e' =>
        rw [hs] at he
        obtain rfl := Except.error.inj he
        exact hsign _ _ hs
    | ok token =>
        rw [hs] at he
        cases he
  · refine ⟨trivial, fun r => ?_⟩
    cases r with
    | error e => exact grantCompares_error h (ordinary_of_not_grant fun msg heq => by cases heq)
    | ok u => exact grantCompares_ok h

include hsign in
theorem compares_authorizationCodeGrant (proof : DpopProof) :
    (authorizationCodeGrant cfg q proof).Follows oauthRecords (GrantCompares q) [] := by
  rw [authorizationCodeGrant]
  split
  · exact compares_nil _ _
  · refine ⟨trivial, fun r => ?_⟩
    rcases r with e | (_ | code)
    · exact compares_nil _ _
    · exact compares_nil _ _
    · change Prog.Follows oauthRecords _ [ClientRecord.code code] _
      simp only [Prog.ofExcept_ok, Prog.ret_bind]
      split
      · rename_i hne
        exact compares_mismatch (f := .code code) rfl (Ne.symm hne)
      · rename_i hclient
        have h : q.form.clientId = (ClientRecord.code code).clientId := (not_not.mp hclient).symm
        split
        · exact grantCompares_error h (ordinary_of_not_grant fun msg heq => by cases heq)
        · split
          · exact grantCompares_error h (ordinary_invalidGrant (by decide) (by decide))
          · split
            · exact grantCompares_error h (ordinary_of_not_grant fun msg heq => by cases heq)
            · refine Prog.follows_ofExcept_bind
                (fun e he => grantCompares_error h (ordinary_verifyChallenge he)) fun u _ => ?_
              split
              · exact grantCompares_error h (ordinary_invalidGrant (by decide) (by decide))
              · exact Prog.follows_ofExcept_bind
                  (fun e he => grantCompares_error h (ordinary_scope he))
                  fun scope _ => compares_issue hsign h _ _ _ _ _

include hsign in
theorem compares_refreshTokenGrant (proof : DpopProof) :
    (refreshTokenGrant cfg q proof).Follows oauthRecords (GrantCompares q) [] := by
  rw [refreshTokenGrant]
  split
  · exact compares_nil _ _
  · refine ⟨trivial, fun r => ?_⟩
    rcases r with e | (old | sessionId | _)
    · exact compares_nil _ _
    · change Prog.Follows oauthRecords _ [ClientRecord.token old] (refreshChecks cfg q proof old)
      rw [refreshChecks]
      split
      · rename_i hne
        exact compares_mismatch (f := .token old) rfl (Ne.symm hne)
      · rename_i hclient
        have h : q.form.clientId = (ClientRecord.token old).clientId := (not_not.mp hclient).symm
        split
        · exact grantCompares_error h (ordinary_invalidGrant (by decide) (by decide))
        · refine Prog.follows_ofExcept_bind
            (fun e he => grantCompares_error h (ordinary_scope he)) fun granted _ => ?_
          exact Prog.follows_ofExcept_bind
            (fun e he => grantCompares_error h (ordinary_narrowScope he))
            fun scope _ => compares_issue hsign h _ _ _ _ _
    · refine ⟨trivial, fun r => ?_⟩
      cases r <;> exact compares_nil _ _
    · exact compares_nil _ _

include hsign in
theorem compares_tokenHandle :
    (tokenHandle cfg q).Follows oauthRecords (GrantCompares q) [] := by
  have hverify : (verifyDpop cfg q).Follows oauthRecords (fun fs _ => fs = []) [] :=
    Prog.Each.recorded (fun _ => rfl) (each_verifyDpop fun _ _ _ => rfl)
  refine Prog.Follows.bind (hverify.mono fun fs x hfs => ?_)
  subst hfs
  cases x with
  | error e => exact compares_nil _ _
  | ok proof =>
      simp only
      split
      · exact compares_authorizationCodeGrant hsign proof
      · split
        · exact compares_refreshTokenGrant hsign proof
        · exact compares_nil _ _

end

/-! ### Every request -/

theorem serverHandler_compares {state : AppState Keypair}
    (hsign : ∀ claims e, state.oauth.signAccessToken claims = .error e → OAuthError.Ordinary e)
    (q : ServerRequest Keypair) :
    (serverHandler state q).Follows serverRecords (Compares q) [] := by
  cases q with
  | authorizePage q => exact follows_answer (compares_authorizePage q)
  | token q =>
      refine follows_answer ?_
      rw [OauthProg.lift]
      apply Prog.Follows.hoist (A := oauthRecords)
      · exact fun _ _ _ => trivial
      · exact fun _ _ _ => rfl
      · refine (compares_tokenHandle hsign).mono fun fs x hx => ?_
        cases x <;> exact hx
  | _ =>
      refine Prog.follows_of_forall (fun _ _ => trivial) (fun fs x f _ c hc => ?_) _ _
      cases hc

/-- Every record of a flow is kept under the canonical form. -/
theorem Accepted.Leaves.clientId_eq {state : AppState Keypair} {P : ServerPool Keypair}
    {A : Accepted state P} {f : ClientRecord} (h : A.Leaves f) :
    f.clientId = A.clientId.asStr := by
  cases h with
  | request => exact (validate_ok A.validated).clientId
  | code B hB =>
      subst hB
      exact (validate_ok B.validated).clientId
  | token R hR hlineage =>
      subst hR
      exact (provenance_of_lineage R hlineage).clientId

/-! ## A whole flow -/

/-- **Canonical strings pass, and only they**: in every run, a request that
looks up a record of the flow of `A` and presents the string `A` was
pushed with. -/
theorem client_id_passes_iff {state : AppState Keypair}
    {sign : AccessTokenClaims → Except String String} {accounts : AccountStore}
    {as : List (ServerAct Keypair)} {P : ServerPool Keypair}
    (hrun : Steps.run (serverStep (state.signing sign)) (Pool.init ⟨accounts, OauthStore.empty⟩) as
      = some P) (A : Accepted (state.signing sign) P) {f : ClientRecord} (hA : A.Leaves f) {i : Nat}
    {q : ServerRequest Keypair} {p : AnswerProg} {x : Except ServerError ServerAnswer}
    (htask : P.tasks[i]? = some (q, p)) (hx : p.outcome = some x) (hf : LooksUp P i f)
    (hq : q.presents = some A.par.form.clientId) :
    x ≠ f.mismatch ↔ IsCanonical state.parseUrl A.par.form.clientId := by
  have hsign : ∀ claims e, (state.signing sign).oauth.signAccessToken claims = .error e →
      OAuthError.Ordinary e := by
    intro claims e he
    refine ordinary_of_not_grant fun msg hmsg => ?_
    subst hmsg
    change (sign claims).mapError OAuthError.internal = _ at he
    cases hs : sign claims with
    | error text =>
        rw [hs] at he
        cases he
    | ok token =>
        rw [hs] at he
        cases he
  have hfollowed := Pool.followed_run (serverHandler_compares hsign) hrun
  have hpost := (hfollowed.tasks i q p htask).of_outcome hx
  have hmem := hpost f (World.mem_recording.mpr hf) _ hq
  refine Iff.trans ?_ (asStr_eq_iff A.parsed)
  rw [← hA.clientId_eq, ne_eq, hmem, ne_eq, not_not, eq_comm]

end

/-! ### Two spellings of one client -/

def sampleSign (claims : AccessTokenClaims) : Except String String := .ok s!"at:{claims.sub}"

/-- The parser puts the host in lower case. -/
def sampleHosts : AppState Nat :=
  { sampleApp with
    parseUrl := fun raw => .ok {
      text := if raw = "https://APP.test/client" then "https://app.test/client" else raw
      scheme := "https", username := "", password := none, host := some (.domain "app.test")
      port := none, path := "/client", query := none, queryPairs := [], fragment := none } }

/-- A request is pushed, and its page asked for, under this string. -/
def sampleSpelled (clientId : String) : List (ServerAct Nat) :=
  [.start (.par {
      form := {
        clientId := clientId, responseType := "code"
        redirectUri := some "https://app.test/callback", scope := some "atproto"
        state := some "s1", codeChallenge := some sampleCodeVerifier
        codeChallengeMethod := some "S256", loginHint := none }
      dpopHeader := none, dpopNow := 1000, handle := "p0", validateNow := 1000
      expiresNow := 1000 }),
    .step 0 (.response ⟨200, "OK", none, .ok []⟩), .step 0 .done,
    .start (.authorizePage {
      requestUri := "urn:ietf:params:oauth:request_uri:p0", clientId := some clientId
      now := 1010 }),
    .step 1 .done]

def sampleKept : StoredPushedRequest where
  requestUriHash := samplePushedHash
  clientId := "https://app.test/client"
  redirectUri := "https://app.test/callback"
  scope := "atproto"
  state := "s1"
  codeChallenge := sampleCodeVerifier
  dpopJkt := none
  loginHint := none
  expiresAt := 1300

def ServerRequest.pushes : ServerRequest Nat → Option String
  | .par q => some q.form.clientId
  | _ => none

/-- What is stored and was pushed; and what the page was given, presented
and ended in. -/
def sampleFlowView (P : ServerPool Nat) :=
  (P.store.oauth.par.get samplePushedHash, P.tasks.filterMap fun t => t.1.pushes,
    P.stage serverRecords [] 1, P.tasks[1]?.bind fun t => t.1.presents,
    (P.tasks[1]?.bind fun t => t.2.outcome).isSome)

/-- Where the page of a pushed request stands. -/
structure PageEnds (clientId : String) (P : ServerPool Nat)
    (A : Accepted (sampleHosts.signing sampleSign) P) (q : ServerRequest Nat) (p : AnswerProg)
    (x : Except ServerError ServerAnswer) : Prop where
  pushed : A.par.form.clientId = clientId
  kept : A.stored = sampleKept
  task : P.tasks[1]? = some (q, p)
  ended : p.outcome = some x
  looksUp : LooksUp P 1 (.request A.stored)
  presents : q.presents = some A.par.form.clientId

theorem pageEnds_of_view {clientId : String} {as : List (ServerAct Nat)} {P : ServerPool Nat}
    (hrun : Steps.run (serverStep (sampleHosts.signing sampleSign)) sampleStart as = some P)
    (hview : sampleFlowView P
      = (some sampleKept, [clientId], [.request sampleKept], some clientId, true)) :
    ∃ A q p x, PageEnds clientId P A q p x := by
  simp only [sampleFlowView, Prod.mk.injEq] at hview
  obtain ⟨hstored, hpushed, hstage, hpresents, hended⟩ := hview
  have hI : ProvInv (sampleHosts.signing sampleSign) P :=
    Steps.run_inv (fun _ _ _ hI hnext => provInv_next hI hnext) (provInv_init sampleMembers) hrun
  obtain ⟨A, hA⟩ := hI.par _ _ hstored
  obtain ⟨t, htask, hstarted⟩ := Option.map_eq_some_iff.mp A.started
  have hmem : A.par.form.clientId ∈ P.tasks.filterMap fun t => t.1.pushes :=
    List.mem_filterMap.mpr ⟨t, List.mem_of_getElem? htask, by rw [hstarted]; rfl⟩
  rw [hpushed, List.mem_singleton] at hmem
  obtain ⟨⟨q, p⟩, hpage, hq⟩ := Option.bind_eq_some_iff.mp hpresents
  rw [hpage] at hended
  obtain ⟨x, hx⟩ := Option.isSome_iff_exists.mp hended
  refine ⟨A, q, p, x, hmem, hA, hpage, hx, ?_, hq.trans (congrArg some hmem.symm)⟩
  have hgiven : ClientRecord.request A.stored ∈ P.stage serverRecords [] 1 := by
    rw [hstage, hA]
    exact List.mem_singleton_self _
  exact World.mem_recording.mp hgiven

theorem canonical_page_passes : ∃ P A q p x,
    PageEnds "https://app.test/client" P A q p x
    ∧ (x ≠ (ClientRecord.request A.stored).mismatch ↔
      IsCanonical sampleHosts.parseUrl "https://app.test/client") := by
  have hview : (Steps.run (serverStep (sampleHosts.signing sampleSign)) sampleStart
      (sampleSpelled "https://app.test/client" ++ [.step 1 (.response ⟨200, "OK", none, .ok []⟩)])).map
      sampleFlowView = some (some sampleKept, ["https://app.test/client"], [.request sampleKept],
        some "https://app.test/client", true) := by decide +kernel
  obtain ⟨P, hrun, hP⟩ := Option.map_eq_some_iff.mp hview
  obtain ⟨A, q, p, x, h⟩ := pageEnds_of_view hrun hP
  refine ⟨P, A, q, p, x, h, ?_⟩
  rw [← h.pushed]
  exact client_id_passes_iff hrun A .request h.task h.ended h.looksUp h.presents

def turnedAway : Except ServerError ServerAnswer → Bool
  | .ok (.authorize (.errorPage _ _ msg)) =>
      msg == "The client_id does not match this authorization request."
  | .error (.oauth (.invalidGrant msg)) =>
      msg == "authorization code was issued to a different client"
  | _ => false

/-- Pushed and accepted, but turned away at the page and by the grant. -/
theorem uppercase_turned_away :
    (Steps.run (serverStep (sampleHosts.signing sampleSign)) sampleStart
      (sampleSpelled "https://APP.test/client" ++ [.start (sampleSubmit "accept" "c0"),
        .step 2 .done, .step 2 .done, .step 2 .done, .step 2 .done,
        .start (sampleExchange { sampleCodeForm with clientId := "https://APP.test/client" }
          "p1" "t0" "s0"), .step 3 .done, .step 3 .done])).map
      (fun P => P.tasks.map fun t => t.2.outcome.map turnedAway)
      = some [some false, some true, some false, some true]
    ∧ ¬ ∀ (state : AppState Nat) (sign : AccessTokenClaims → Except String String)
      (accounts : AccountStore) (as : List (ServerAct Nat)) (P : ServerPool Nat)
      (A : Accepted (state.signing sign) P) (f : ClientRecord) (i : Nat) (q : ServerRequest Nat)
      (p : AnswerProg) (x : Except ServerError ServerAnswer),
      Steps.run (serverStep (state.signing sign)) (Pool.init ⟨accounts, OauthStore.empty⟩) as
        = some P → A.Leaves f → P.tasks[i]? = some (q, p) → p.outcome = some x →
      LooksUp P i f → q.presents = some A.par.form.clientId → x ≠ f.mismatch := by
  refine ⟨by decide +kernel, fun h => ?_⟩
  have hview : (Steps.run (serverStep (sampleHosts.signing sampleSign)) sampleStart
      (sampleSpelled "https://APP.test/client")).map sampleFlowView
      = some (some sampleKept, ["https://APP.test/client"], [.request sampleKept],
        some "https://APP.test/client", true) := by decide +kernel
  obtain ⟨P, hrun, hP⟩ := Option.map_eq_some_iff.mp hview
  obtain ⟨A, q, p, x, hends⟩ := pageEnds_of_view hrun hP
  refine h _ _ _ _ P A _ 1 q p x hrun .request hends.task hends.ended hends.looksUp
    hends.presents ?_
  -- the page compares the string with the one that was kept
  have hcompares := ((Pool.followed_run (serverHandler_compares fun claims e he => by cases he)
    hrun).tasks 1 q p hends.task).of_outcome hends.ended
  refine (hcompares _ (World.mem_recording.mpr hends.looksUp) _ hends.presents).mpr ?_
  show A.par.form.clientId ≠ A.stored.clientId
  rw [hends.pushed, hends.kept]
  decide

end Stelyph
