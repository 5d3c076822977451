import Stelyph.ApplyWrites
import Stelyph.SessionEndpoints

/-!
# A refresh token is not an access token

A refresh token is a session token of another scope, signed with the
same secret. The axum server and the embedded server compare the scope,
so every endpoint behind a session turns such a token away before it
does anything. The handlers of the Worker decode the token and take its
subject: there a refresh token is as good as an access token, for as
long as it lasts.
-/

namespace Stelyph

/-- The three servers that take session tokens. They serve the same
methods, each in its own way. -/
inductive SessionServer where
  | axum
  | embedded
  /-- The object of a host. -/
  | worker (host : String)
deriving DecidableEq, Repr

def SessionServer.isWorker : SessionServer → Bool
  | .worker _ => true
  | _ => false

/-- The Worker has no `getServiceAuth`. -/
def SessionServer.hasEndpoint : SessionServer → SessionEndpoint → Bool
  | .worker _, .getServiceAuth => false
  | _, _ => true

/-- The request carries the token in the way the server looks for it. -/
def SessionServer.presents (S : SessionServer) (parts : XrpcParts) (token : String) : Prop :=
  match S with
  | .axum => authorization parts = .ok (.bearer, token)
  | _ => bearer parts = some token

section

variable {L : RepoLib} (cfg : SessionConfig L)

/-- A request on one of them, at an instant. -/
def SessionServer.serve (S : SessionServer) (now : Nat) (q : SessionRequest) : SessionProg L :=
  match S with
  | .axum => Axum.serveSession cfg now q
  | .embedded => Embedded.serveSession cfg now q
  | .worker host => Worker.serveSession cfg host now q

def SessionReply.isError : SessionReply L → Bool
  | .tenant (.error _ _ _) => true
  | _ => false

/-- An error, before anything was asked of the store: the token alone decided it. -/
def TurnedAway : SessionProg L → Prop
  | .fail _ => True
  | .ret r => r.isError
  | .op _ _ => False

/-! ## What a refresh token decodes to -/

variable {cfg} {did jti t : String} {iat now : Nat}

/-- The token is past its time, and the leeway. -/
def RefreshExpired (iat now : Nat) : Prop := iat + 7776000 + jwtLeeway < now

instance (iat now : Nat) : Decidable (RefreshExpired iat now) := Nat.decLt _ _

theorem decodeJwt_refresh (hJ : cfg.jwt.Laws)
    (ht : encodeRefreshJwtAt cfg.jwt did cfg.secret iat jti = .ok t) :
    decodeJwt cfg.jwt t cfg.secret now = if RefreshExpired iat now then .error .expiredToken
      else .ok ⟨did, "com.atproto.refresh", iat + 7776000, iat, some jti⟩ := by
  rw [encodeRefreshJwtAt] at ht
  cases henc : cfg.jwt.encode cfg.secret
      ⟨did, "com.atproto.refresh", iat + 7776000, iat, some jti⟩ with
  | error e =>
      rw [henc] at ht
      cases ht
  | ok t' =>
      rw [henc] at ht
      obtain rfl : t' = t := Except.ok.inj ht
      rw [decodeJwt, hJ.verified_encode henc]
      by_cases hexp : RefreshExpired iat now
      · have hexp' : iat + 7776000 + jwtLeeway < now := hexp
        simp [AuthClaims.expired, hexp, hexp']
      · have hexp' : ¬ iat + 7776000 + jwtLeeway < now := hexp
        simp [AuthClaims.expired, hexp, hexp']

theorem decode_refresh (hJ : cfg.jwt.Laws)
    (ht : encodeRefreshJwtAt cfg.jwt did cfg.secret iat jti = .ok t) :
    cfg.decode now t = if RefreshExpired iat now then .error .expiredToken
      else .ok ⟨did, "com.atproto.refresh"⟩ := by
  rw [SessionConfig.decode, decodeJwt_refresh hJ ht]
  split_ifs <;> rfl

/-! ## The axum server and the embedded server -/

theorem axum_turnedAway (hJ : cfg.jwt.Laws)
    (ht : encodeRefreshJwtAt cfg.jwt did cfg.secret iat jti = .ok t) {q : SessionRequest}
    (hq : authorization q.parts = .ok (.bearer, t)) : TurnedAway (Axum.serveSession cfg now q) := by
  have haccess : ∃ e, authenticateAccess (cfg.axum now) t = .error e := by
    have hdecode : (cfg.axum now).decodeJwt t = cfg.decode now t := rfl
    rw [authenticateAccess, hdecode, decode_refresh hJ ht]
    split_ifs
    · exact ⟨_, rfl⟩
    · exact ⟨_, rfl⟩
  obtain ⟨e, he⟩ := haccess
  rw [Axum.serveSession, accessAuth, hq]
  simp only [Prog.ofExcept, bind, Prog.bind, he]
  trivial

theorem embedded_turnedAway (hJ : cfg.jwt.Laws)
    (ht : encodeRefreshJwtAt cfg.jwt did cfg.secret iat jti = .ok t) {q : SessionRequest}
    (hq : bearer q.parts = some t) : TurnedAway (Embedded.serveSession cfg now q) := by
  rw [Embedded.serveSession]
  cases Embedded.unrouted cfg q with
  | some e => trivial
  | none =>
      have hauth : ∃ e, Embedded.authedDid cfg now q.parts "com.atproto.access" = .error e := by
        rw [Embedded.authedDid, hq]
        by_cases hempty : cfg.secret.isEmpty
        · exact ⟨_, if_pos hempty⟩
        · simp only [hempty, Bool.false_eq_true, if_false, decodeJwt_refresh hJ ht]
          by_cases hexp : RefreshExpired iat now
          · exact ⟨_, by simp only [hexp, if_true]; rfl⟩
          · refine ⟨.response 400 "InvalidToken" "token has the wrong scope", ?_⟩
            simp [hexp]
      obtain ⟨e, he⟩ := hauth
      rw [he]
      trivial

/-! ## The Worker -/

namespace Worker

/-- What the Worker's handlers read of a token. -/
def subject (cfg : SessionConfig L) (now : Nat) (token : String) : Option String :=
  (cfg.decode now token).toOption.map fun claims => claims.sub

theorem actingDid_eq (cfg : SessionConfig L) (now : Nat) (token : String) :
    actingDid (cfg.worker now) (some token) = subject cfg now token := rfl

theorem authenticated_eq (cfg : SessionConfig L) (now : Nat) (token : String) :
    authenticated (cfg.worker now).toRepoConfig (some token)
      = match subject cfg now token with
        | some did => .ret did
        | none => .fail (.response 401 "AuthenticationRequired" "Invalid token.") := by
  have hdecode : (cfg.worker now).decodeJwt token = cfg.decode now token := rfl
  rw [authenticated, Option.bind_some, hdecode, subject]
  cases cfg.decode now token <;> rfl

/-- Without a subject no handler gets past the token. -/
theorem serve_turnedAway (hnone : subject cfg now t = none) (body : Option Json)
    (call : WriteCall) :
    ∃ e, serve (cfg.worker now).toRepoConfig (some t) body call = .fail e := by
  have hauth := authenticated_eq cfg now t
  rw [hnone] at hauth
  cases call with
  | createRecord micros rnd => exact ⟨_, by rw [serve, createRecord, hauth]; rfl⟩
  | applyWrites micros rnd => exact ⟨_, by rw [serve, applyWrites, hauth]; rfl⟩
  | putRecord rnd =>
      rw [serve, putRecord]
      cases body with
      | none => exact ⟨_, rfl⟩
      | some input => exact ⟨_, by simp only [writePreamble, hauth]; rfl⟩
  | deleteRecord rnd =>
      rw [serve, deleteRecord]
      cases body with
      | none => exact ⟨_, rfl⟩
      | some input => exact ⟨_, by simp only [writePreamble, hauth]; rfl⟩

theorem turnedAway_of_subject {host : String} {q : SessionRequest} (hq : bearer q.parts = some t)
    (hnone : subject cfg now t = none) : TurnedAway (serveSession cfg host now q) := by
  have hacting := (actingDid_eq cfg now t).trans hnone
  rw [serveSession, hq]
  cases q.call with
  | getSession =>
      rw [subject] at hnone
      cases hdecode : cfg.decode now t with
      | error e =>
          simp only [getSession, hdecode]
          trivial
      | ok claims =>
          rw [hdecode] at hnone
          cases hnone
  | getServiceAuth => trivial
  | getPreferences =>
      simp only [getPreferences, hacting]
      trivial
  | putPreferences body =>
      simp only [putPreferences, hacting]
      trivial
  | record method body micros rnd =>
      obtain ⟨e, he⟩ := serve_turnedAway hnone (readJsonBody body) (writeCall method micros rnd)
      simp only [he]
      trivial
  | uploadBlob contentType body =>
      simp only [uploadBlob, hacting]
      trivial
  | proxy input =>
      dsimp only
      split_ifs
      · simp only [proxyAppview, hacting]
        trivial
      · trivial

/-- A request with the token, to a method that is forwarded. -/
def tokenParts (token : String) : XrpcParts where
  authorization := some (some ("Bearer " ++ token))
  dpopHeaders := []
  method := "GET"
  path := "/xrpc/app.bsky.feed.getTimeline"
  tokenNow := 0
  dpopNow := 0
  nonceNow := 0

theorem bearer_tokenParts (token : String) : bearer (tokenParts token) = some token := by
  have hprefix : Text.stripPrefix ("Bearer " ++ token) "Bearer " = some token := by
    rw [Text.stripPrefix, String.toList_append]
    simp
  exact hprefix

/-- The value of a body that no record method finds fault with. -/
def recordValue (did : String) (record : Json) : Json :=
  .obj [("repo", .str did), ("collection", .str "app.bsky.feed.post"), ("rkey", .str "1"),
    ("record", record), ("writes", .arr [.obj
      [("$type", .str "com.atproto.repo.applyWrites#delete"),
        ("collection", .str "app.bsky.feed.post"), ("rkey", .str "1")]])]

theorem ownRepo_recordValue (did : String) (record : Json) :
    (ownRepo (recordValue did record) did : RepoProg L Unit) = .ret () := by
  have hrepo : ((recordValue did record).field "repo").asStr = some did := rfl
  rw [ownRepo, hrepo, if_neg (not_not.mpr rfl)]
  rfl

theorem collectionOf_recordValue (did : String) (record : Json) (message : String) :
    (collectionOf (recordValue did record) message : RepoProg L String)
      = .ret "app.bsky.feed.post" := rfl

theorem recordOf_recordValue (rcfg : RepoConfig L) (did : String) {record : Json} {ipld : L.Ipld}
    (hnull : record.isNull = false) (hipld : rcfg.jsonValueToIpld record = .ok ipld) :
    recordOf rcfg (recordValue did record) = .ret ipld := by
  have hrecord : (recordValue did record).field "record" = record := rfl
  rw [recordOf, hrecord, ipldOf, hnull, hipld]
  rfl

/-- With a subject the signing key is loaded. -/
theorem serve_loads (hsub : subject cfg now t = some did) {record : Json} {ipld : L.Ipld}
    (hnull : record.isNull = false) (hipld : cfg.tenant.jsonValueToIpld record = .ok ipld)
    (method : RepoMethod) (rnd : WriteDraw) :
    ∃ k, serve (cfg.worker now).toRepoConfig (some t) (some (recordValue did record))
      (writeCall method (fun _ => 0) rnd) = .op (.loadSigningKey did) k := by
  have hauth := authenticated_eq cfg now t
  rw [hsub] at hauth
  have hipld' : (cfg.worker now).jsonValueToIpld record = .ok ipld := hipld
  have hrec := recordOf_recordValue (cfg.worker now).toRepoConfig did hnull hipld'
  cases method with
  | createRecord =>
      simp only [writeCall, serve, createRecord, hauth, parsed, Prog.pure_eq, Prog.bind_eq,
        Prog.ret_bind, ownRepo_recordValue, collectionOf_recordValue, hrec]
      exact ⟨_, rfl⟩
  | putRecord =>
      simp only [writeCall, serve, putRecord, writePreamble, hauth, parsed, Prog.pure_eq,
        Prog.bind_eq, Prog.ret_bind, ownRepo_recordValue, collectionOf_recordValue]
      exact ⟨_, rfl⟩
  | deleteRecord =>
      simp only [writeCall, serve, deleteRecord, writePreamble, hauth, parsed, Prog.pure_eq,
        Prog.bind_eq, Prog.ret_bind, ownRepo_recordValue, collectionOf_recordValue]
      exact ⟨_, rfl⟩
  | applyWrites =>
      simp only [writeCall, serve, applyWrites, hauth, parsed, Prog.pure_eq, Prog.bind_eq,
        Prog.ret_bind, ownRepo_recordValue]
      exact ⟨_, rfl⟩

/-- Members in the order that gives the value back. -/
def recordBody (did : String) (record : Json) : JsonBody :=
  match recordValue did record with
  | .obj kvs => .obj (kvs.reverse.map fun kv => (kv.1, some kv.2))
  | _ => .other

/-- A request to the endpoint with the token; what it says is in order. -/
def fairRequest (did token : String) (record : Json) (e : SessionEndpoint) : SessionRequest where
  parts := tokenParts token
  call :=
    match e with
    | .getSession => .getSession
    | .getServiceAuth => .getServiceAuth none none none
    | .getPreferences => .getPreferences
    | .putPreferences => .putPreferences (.obj [("preferences", some (.arr []))])
    | .record method => .record method (recordBody did record) (fun _ => 0) ⟨"", "", ""⟩
    | .uploadBlob => .uploadBlob none [0]
    | .proxy => .proxy ⟨"", none, none, none, []⟩

theorem endpoint_fairRequest (did token : String) (record : Json) (e : SessionEndpoint) :
    (fairRequest did token record e).call.endpoint = e := by
  cases e <;> rfl

theorem not_turnedAway_of_subject (hsub : subject cfg now t = some did) {record : Json}
    {ipld : L.Ipld} (hnull : record.isNull = false)
    (hipld : cfg.tenant.jsonValueToIpld record = .ok ipld) (host : String) {e : SessionEndpoint}
    (he : e ≠ .getServiceAuth) :
    ¬ TurnedAway (serveSession cfg host now (fairRequest did t record e)) := by
  have hacting := (actingDid_eq cfg now t).trans hsub
  have hbearer : bearer (fairRequest did t record e).parts = some t := bearer_tokenParts t
  rw [serveSession, hbearer]
  cases e with
  | getServiceAuth => exact (he rfl).elim
  | getSession =>
      rw [subject] at hsub
      cases hdecode : cfg.decode now t with
      | error e =>
          rw [hdecode] at hsub
          cases hsub
      | ok claims =>
          simp only [fairRequest, getSession, hdecode]
          exact id
  | getPreferences =>
      simp only [fairRequest, getPreferences, hacting]
      exact id
  | putPreferences =>
      simp only [fairRequest, putPreferences, hacting]
      exact id
  | record method =>
      obtain ⟨k, hk⟩ := serve_loads hsub hnull hipld method ⟨"", "", ""⟩
      have hbody : readJsonBody (recordBody did record) = some (recordValue did record) := rfl
      simp only [fairRequest, hbody, hk]
      exact id
  | uploadBlob =>
      simp only [fairRequest, uploadBlob, hacting]
      exact id
  | proxy =>
      have hpath : (fairRequest did t record .proxy).parts.path
        = "/xrpc/app.bsky.feed.getTimeline" := rfl
      have hcall : (fairRequest did t record .proxy).call
        = .proxy ⟨"", none, none, none, []⟩ := rfl
      have hstart : Text.startsWith "/xrpc/app.bsky.feed.getTimeline" "/xrpc/app.bsky." := by decide
      simp only [hcall, hpath, hstart, true_or, if_true, proxyAppview, hacting]
      exact id

end Worker

/-! ## The token at every endpoint -/

/-- Whatever a request with the refresh token says, it is turned away:
exactly on the two servers that compare the scope, and on the Worker
once the token has expired. -/
theorem refresh_turnedAway_iff (hJ : cfg.jwt.Laws)
    (ht : encodeRefreshJwtAt cfg.jwt did cfg.secret iat jti = .ok t)
    (hencodes : ∃ record ipld, record.isNull = false
      ∧ cfg.tenant.jsonValueToIpld record = .ok ipld)
    {S : SessionServer} {e : SessionEndpoint} (he : S.hasEndpoint e) :
    (∀ q, S.presents q.parts t → q.call.endpoint = e → TurnedAway (S.serve cfg now q))
      ↔ S.isWorker = false ∨ RefreshExpired iat now := by
  cases S with
  | axum => exact ⟨fun _ => Or.inl rfl, fun _ q hq _ => axum_turnedAway hJ ht hq⟩
  | embedded => exact ⟨fun _ => Or.inl rfl, fun _ q hq _ => embedded_turnedAway hJ ht hq⟩
  | worker host =>
      have hsub : Worker.subject cfg now t = if RefreshExpired iat now then none else some did := by
        rw [Worker.subject, decode_refresh hJ ht]
        split_ifs <;> rfl
      constructor
      · intro hall
        by_cases hexp : RefreshExpired iat now
        · exact Or.inr hexp
        · rw [if_neg hexp] at hsub
          obtain ⟨record, ipld, hnull, hipld⟩ := hencodes
          have hne : e ≠ .getServiceAuth := by
            rintro rfl
            cases he
          have hturned := hall (Worker.fairRequest did t record e) (Worker.bearer_tokenParts t)
            (Worker.endpoint_fairRequest did t record e)
          exact (Worker.not_turnedAway_of_subject hsub hnull hipld host hne hturned).elim
      · intro hcond q hq _
        have hexp : RefreshExpired iat now := hcond.resolve_left (by simp [SessionServer.isWorker])
        rw [if_pos hexp] at hsub
        exact Worker.turnedAway_of_subject hq hsub

end

/-! ## A sample token -/

def sampleRefreshClaims : AuthClaims := ⟨"did:plc:alice", "com.atproto.refresh", 7776000, 0, some "1"⟩

/-- It knows one token. -/
def sampleJwt : JwtLib where
  encode _ claims := if claims = sampleRefreshClaims then .ok "refresh" else .error "claims"
  verified _ token := if token = "refresh" then some sampleRefreshClaims else none

theorem sampleJwt_laws : sampleJwt.Laws where
  verified_encode := by
    intro secret claims t h
    simp only [sampleJwt] at h
    split_ifs at h with hclaims
    obtain rfl := Except.ok.inj h
    rw [hclaims]
    rfl

def sampleSessions : SessionConfig sampleRepo where
  jwt := sampleJwt
  secret := [1]
  xrpc := batchServer
  tenant := Worker.sampleTenants
  parseJson _ := none
  parseJsonArray _ := .error "expected value"
  jsonText _ := "[]"
  forwards := true

theorem sampleToken_minted :
    encodeRefreshJwtAt sampleSessions.jwt "did:plc:alice" sampleSessions.secret 0 "1"
      = .ok "refresh" := rfl

/-- The Worker tells the bearer of a refresh token who he is. -/
theorem refresh_reads_session :
    encodeRefreshJwtAt sampleJwt "did:plc:alice" [1] 0 "1" = .ok "refresh"
    ∧ ∃ k, (SessionServer.worker "alice.pds.test").serve sampleSessions 100
        ⟨Worker.tokenParts "refresh", .getSession⟩ = .op (.getHandleByDid "did:plc:alice") k
      ∧ k (.ok (some "alice.pds.test")) = .ret (.session "alice.pds.test" "did:plc:alice") :=
  ⟨rfl, _, rfl, rfl⟩

/-- The embedded server does not. -/
theorem refresh_reads_nothing :
    TurnedAway (SessionServer.embedded.serve sampleSessions 100
      ⟨Worker.tokenParts "refresh", .getSession⟩) :=
  (refresh_turnedAway_iff sampleJwt_laws sampleToken_minted ⟨.obj [], (7 : Nat), rfl, rfl⟩
    rfl).mpr (Or.inl rfl) ⟨Worker.tokenParts "refresh", .getSession⟩ rfl rfl

end Stelyph
