import Stelyph.Tenants
import Stelyph.XrpcInputs

/-!
# Behind a session

`auth/jwt.rs`, and the endpoints of the three servers that act for the
subject of a session token: all but `refreshSession`, which takes a
refresh token. Each server looks the token up in its own way: the axum
server by its extractor, the embedded server by `authed_did`, and every
handler of the Worker for itself.

The OAuth tokens that the axum server takes as well are in `XrpcAuth`.
-/

namespace Stelyph

/-! ## Tokens -/

/-- The payload of a session token, of access or of refresh. -/
structure AuthClaims where
  sub : String
  scope : String
  exp : Nat
  iat : Nat
  jti : Option String
deriving DecidableEq, Repr

def AuthClaims.session (c : AuthClaims) : SessionClaims := ⟨c.sub, c.scope⟩

/-- `jsonwebtoken` with HS256. -/
structure JwtLib where
  encode : (secret : Bytes) → AuthClaims → Except String String
  /-- The claims of a token whose signature holds. -/
  verified : (secret : Bytes) → String → Option AuthClaims

/-- A token that was made with a secret is verified under it, with the
claims it was made from. -/
structure JwtLib.Laws (J : JwtLib) : Prop where
  verified_encode : ∀ {secret claims t}, J.encode secret claims = .ok t →
    J.verified secret t = some claims

section

variable (J : JwtLib)

/-- An access token of two hours. -/
def encodeAccessJwtAt (did : String) (secret : Bytes) (now : Nat) : Except CoreError String :=
  (J.encode secret ⟨did, "com.atproto.access", now + 7200, now, none⟩).mapError fun e =>
    .internal s!"JWT encode error: {e}"

/-- `jti` is the UUID that is drawn. -/
def encodeRefreshJwtAt (did : String) (secret : Bytes) (now : Nat) (jti : String) :
    Except CoreError String :=
  (J.encode secret ⟨did, "com.atproto.refresh", now + 7776000, now, some jti⟩).mapError fun e =>
    .internal s!"JWT encode error: {e}"

/-- The library's leeway, in seconds. -/
def jwtLeeway : Nat := 60

/-- A token is good for the leeway after it has expired. -/
def AuthClaims.expired (c : AuthClaims) (now : Nat) : Bool := c.exp + jwtLeeway < now

/-- A token that was signed here and has not expired. Its scope is for the
caller to look at. -/
def decodeJwt (token : String) (secret : Bytes) (now : Nat) : Except CoreError AuthClaims :=
  match J.verified secret token with
  | none => .error .invalidToken
  | some claims => if claims.expired now then .error .expiredToken else .ok claims

end

/-! ## Requests -/

/-- The endpoints that take a session token, on all three servers. One
rule has to hold of all of them. -/
inductive SessionEndpoint where
  | getSession
  | getServiceAuth
  | getPreferences
  | putPreferences
  | record (method : RepoMethod)
  | uploadBlob
  /-- Every method the server forwards. -/
  | proxy
deriving DecidableEq, Repr

/-- A call of one of them with what it was given. -/
inductive SessionCall where
  | getSession
  | getServiceAuth (aud lxm exp : Option String)
  | getPreferences
  | putPreferences (body : JsonBody)
  | record (method : RepoMethod) (body : JsonBody) (micros : Nat → Nat) (rnd : WriteDraw)
  | uploadBlob (contentType : Option String) (body : Bytes)
  | proxy (input : ProxyInput)

def SessionCall.endpoint : SessionCall → SessionEndpoint
  | .getSession => .getSession
  | .getServiceAuth _ _ _ => .getServiceAuth
  | .getPreferences => .getPreferences
  | .putPreferences _ => .putPreferences
  | .record method _ _ _ => .record method
  | .uploadBlob _ _ => .uploadBlob
  | .proxy _ => .proxy

/-- A call and the header it came with. -/
structure SessionRequest where
  parts : XrpcParts
  call : SessionCall

/-- The answers, as each server has them. -/
inductive SessionReply (L : RepoLib) where
  | session (handle did : String)
  | token (token : String)
  | preferences (prefs : Json)
  | done
  | xrpc (r : XrpcResponse)
  | tenant (r : Worker.TenantReply L)
  | wrote (r : Worker.WriteReply × Option (Worker.Commit L))

/-- The errors, as each server has them. -/
inductive SessionError where
  /-- An extractor's, after the token's: the query or the body is not the input. -/
  | rejected
  | xrpc (e : XrpcError)
  | response (status : Nat) (error message : String)
  | thrown (msg : String)
deriving DecidableEq, Repr

/-! ## Operations -/

/-- What the endpoints wait for, on any of the servers. -/
inductive SessionOp (L : RepoLib) where
  | xrpc (o : XrpcOp L)
  | record (o : RecordOp L)
  | tenant (o : Worker.TenantOp L)
  | getHandleByDid (did : String)
  | getPreferences (did : String)
  | upsertPreferences (did prefs : String)
  | mintServiceAuth (key : L.Key) (iss aud : String) (lxm : Option String) (exp : Nat)

/-- What it comes back with. -/
abbrev SessionOp.Ret {L : RepoLib} : SessionOp L → Type
  | .xrpc o => o.Ret
  | .record o => o.Ret RepoError
  | .tenant o => o.Ret
  | .getHandleByDid _ => Except StorageError (Option String)
  | .getPreferences _ => Except StorageError (Option String)
  | .upsertPreferences _ _ => Except StorageError Unit
  | .mintServiceAuth _ _ _ _ _ => Except String String

abbrev sessionSig (L : RepoLib) : Sig := ⟨SessionOp L, SessionOp.Ret⟩

abbrev SessionProg (L : RepoLib) := Prog (sessionSig L) SessionError (SessionReply L)

/-- One deployment's settings, for all three servers. -/
structure SessionConfig (L : RepoLib) where
  jwt : JwtLib
  secret : Bytes
  xrpc : XrpcConfig L
  tenant : Worker.TenantConfig L
  parseJson : String → Option Json
  /-- The text of a list of values. -/
  parseJsonArray : String → Except String (List Json)
  jsonText : Json → String
  /-- Whether the embedder of the server gave it a way out. -/
  forwards : Bool

section

variable {L : RepoLib} (cfg : SessionConfig L)

/-- A token as it is read at an instant: its signature and its time are
checked, and its scope is handed on. -/
def SessionConfig.decode (now : Nat) (token : String) : Except CoreError SessionClaims :=
  (decodeJwt cfg.jwt token cfg.secret now).map AuthClaims.session

def SessionConfig.axum (now : Nat) : XrpcConfig L :=
  { cfg.xrpc with decodeJwt := cfg.decode now }

def SessionConfig.worker (now : Nat) : Worker.TenantConfig L :=
  { cfg.tenant with decodeJwt := cfg.decode now }

def liftXrpc {α : Type} (p : XrpcProg L α) : Prog (sessionSig L) SessionError α :=
  p.hoist (T := sessionSig L) .xrpc (fun _ r => r) .xrpc

/-- `e as u64 > now` of a number that may be negative, and the cap. -/
def serviceAuthExp (exp : Option Int) (now : Nat) : Nat :=
  match exp with
  | some e =>
      let e := (e % (2 ^ 64 : Int)).toNat
      if now < e then min e (now + 30 * 60) else now + 60
  | none => now + 60

/-! ## The axum server -/

namespace Axum

/-- The account of the token, if its handle is active. -/
def getSession (did : String) : SessionProg L :=
  .op (.getHandleByDid did) fun
    | .error e => .fail (.xrpc (.ofStorage e))
    | .ok none => .fail (.xrpc .accountTakedown)
    | .ok (some handle) => return .session handle did

/-- A token for another service, signed with the account's key. -/
def getServiceAuth (did : String) (aud lxm exp : Option String) (now : Nat) : SessionProg L :=
  match aud, exp.map Text.parseI64 with
  | none, _ => .fail .rejected
  | _, some none => .fail .rejected
  | some aud, exp =>
      .op (.xrpc (.loadSigningKey did)) fun r => do
        let key ← Prog.ofExcept (fun e => .xrpc (.internal e)) r
        .op (.mintServiceAuth key did aud lxm (serviceAuthExp (exp.bind id) now)) fun r => do
          let token ← Prog.ofExcept (fun e => .xrpc (.internal e)) r
          return .token token

/-- What was stored last, or none. -/
def getPreferences (did : String) : SessionProg L :=
  .op (.getPreferences did) fun
    | .error e => .fail (.xrpc (.ofStorage e))
    | .ok none => return .preferences (.arr [])
    | .ok (some text) =>
        match cfg.parseJsonArray text with
        | .error e => .fail (.xrpc (.internal s!"prefs decode: {e}"))
        | .ok prefs => return .preferences (.arr prefs)

/-- The list replaces what was stored. -/
def putPreferences (did : String) (body : JsonBody) : SessionProg L :=
  match JsonBody.needed (body.fieldOf ["preferences"] "preferences") Json.asArr with
  | none => .fail .rejected
  | some prefs =>
      .op (.upsertPreferences did (cfg.jsonText (.arr prefs))) fun
        | .error e => .fail (.xrpc (.ofStorage e))
        | .ok () => return .done

/-- The endpoints for a DID that is known. -/
def serveFor (did : String) (now : Nat) (parts : XrpcParts) : SessionCall → SessionProg L
  | .getSession => getSession did
  | .getServiceAuth aud lxm exp => getServiceAuth did aud lxm exp now
  | .getPreferences => getPreferences cfg did
  | .putPreferences body => putPreferences cfg did body
  | .record method body micros _ =>
      match method.axum cfg.xrpc did micros body with
      | none => .fail .rejected
      | some p => do
          let r ← liftXrpc p
          return .xrpc r
  | .uploadBlob contentType body => do
      let r ← liftXrpc (uploadBlob cfg.xrpc did contentType body)
      return .xrpc r
  | .proxy input => do
      let r ← liftXrpc (proxyFallback cfg.xrpc did parts input)
      return .xrpc r

/-- Every handler is behind `AccessAuth`. -/
def serveSession (now : Nat) (q : SessionRequest) : SessionProg L := do
  let did ← liftXrpc (accessAuth (cfg.axum now) q.parts)
  serveFor cfg did now q.parts q.call

end Axum

/-! ## The token of the other two -/

/-- The header's text behind `Bearer `. -/
def bearer (parts : XrpcParts) : Option String :=
  parts.authorization.join.bind fun header => Text.stripPrefix header "Bearer "

/-! ## The embedded server -/

namespace Embedded

/-- `authed_did`. -/
def authedDid (now : Nat) (parts : XrpcParts) (wantScope : String) : Except SessionError String :=
  if cfg.secret.isEmpty then
    .error (.response 401 "AuthenticationRequired" "sessions are not enabled on this server")
  else
    match bearer parts with
    | none => .error (.response 401 "AuthenticationRequired" "missing bearer token")
    | some token =>
        match decodeJwt cfg.jwt token cfg.secret now with
        | .error .expiredToken => .error (.response 400 "ExpiredToken" "token has expired")
        | .error _ => .error (.response 400 "InvalidToken" "invalid token")
        | .ok claims =>
            if claims.scope ≠ wantScope then
              .error (.response 400 "InvalidToken" "token has the wrong scope")
            else .ok claims.sub

abbrev invalid (message : String) : SessionError := .response 400 "InvalidRequest" message

abbrev internal (message : String) : SessionError := .response 500 "InternalError" message

abbrev notImplemented (message : String) : SessionError :=
  .response 404 "MethodNotImplemented" message

def getSession (did : String) : SessionProg L :=
  .op (.getHandleByDid did) fun
    | .error _ => .fail (internal "store error")
    | .ok none =>
        .fail (.response 400 "AccountTakedown" "account is deactivated or taken down")
    | .ok (some handle) => return .session handle did

def getServiceAuth (did : String) (aud lxm exp : Option String) (now : Nat) : SessionProg L :=
  match aud with
  | none => .fail (invalid "aud is required")
  | some aud =>
      .op (.xrpc (.loadSigningKey did)) fun r => do
        let key ← Prog.ofExcept internal r
        let exp := serviceAuthExp (exp.bind Text.parseI64) now
        .op (.mintServiceAuth key did aud lxm exp) fun r => do
          let token ← Prog.ofExcept (fun _ => internal "service-auth mint failed") r
          return .token token

def getPreferences (did : String) : SessionProg L :=
  .op (.getPreferences did) fun
    | .error _ => .fail (internal "store error")
    | .ok none => return .preferences (.arr [])
    | .ok (some text) =>
        match cfg.parseJson text with
        | none => .fail (internal "stored preferences are corrupt")
        | some prefs => return .preferences prefs

def putPreferences (did : String) (body : JsonBody) : SessionProg L :=
  match readJsonBody body with
  | none => .fail (invalid "invalid JSON body")
  | some v =>
      match (v.get "preferences").bind Json.asArr with
      | none => .fail (invalid "preferences must be an array")
      | some prefs =>
          .op (.upsertPreferences did (cfg.jsonText (.arr prefs))) fun
            | .error _ => .fail (internal "store error")
            | .ok () => return .done

/-- `store_blob` is inlined. -/
def uploadBlob (did : String) (contentType : Option String) (body : Bytes) : SessionProg L :=
  let mimeType := contentType.getD "application/octet-stream"
  if body.isEmpty then .fail (invalid "empty blob")
  else if body.length > Worker.maxBlobBytes then
    .fail (.response 413 "InvalidRequest" "blob too large")
  else
    let cid := cfg.xrpc.blobCid body
    .op (.xrpc (.putBlob did cid mimeType body.length body)) fun
      | .error _ => .fail (internal "store error")
      | .ok () => return .xrpc (.uploadBlob cid mimeType body.length)

/-- `trim_start_matches`, on a text of at most `n` repetitions. -/
def trimStartMatches (p : String) : Nat → String → String
  | 0, s => s
  | n + 1, s =>
      match Text.stripPrefix s p with
      | some rest => trimStartMatches p n rest
      | none => s

/-- The DID and the base URL to forward to. -/
def proxyTarget (nsid : String) (input : ProxyInput) :
    Prog (sessionSig L) SessionError (String × String) :=
  match input.atprotoProxy with
  | some target =>
      match Text.splitOnce target '#' with
      | none => .fail (invalid "atproto-proxy must be <did>#<service-fragment>")
      | some (did, fragment) =>
          .op (.xrpc (.resolveService did fragment)) fun r => do
            let base ← Prog.ofExcept .xrpc r
            return (did, base)
  | none =>
      if Text.startsWith nsid "app.bsky." then return (cfg.xrpc.appviewDid, cfg.xrpc.appviewUrl)
      else .fail (notImplemented "method not implemented by the embedded server")

/-- `forward`, behind the token. -/
def forward (did : String) (parts : XrpcParts) (input : ProxyInput) : SessionProg L :=
  let nsid := trimStartMatches "/xrpc/" parts.path.length parts.path
  match proxyMethod parts.method with
  | none => .fail (notImplemented "method not implemented by the embedded server")
  | some method =>
      if nsid.isEmpty || nsid.toList.contains '/' then
        .fail (notImplemented "method not implemented by the embedded server")
      else do
        let (targetDid, baseUrl) ← proxyTarget cfg nsid input
        if input.body.length > maxProxyBody then
          .fail (.response 413 "InvalidRequest" "request body too large")
        else
          .op (.xrpc (.loadSigningKey did)) fun r => do
            let key ← Prog.ofExcept internal r
            .op (.xrpc (.mintServiceAuthJwt key did targetDid nsid)) fun r => do
              let jwt ← Prog.ofExcept (fun _ => internal "service-auth mint failed") r
              .op (.xrpc (.proxyRequest
                  { method := method, baseUrl := baseUrl, nsid := nsid, query := input.query
                    body := input.body, contentType := input.contentType, jwt := jwt
                    acceptLabelers := input.acceptLabelers })) fun
                | .error _ => .fail (.response 502 "UpstreamFailure" "upstream request failed")
                | .ok upstream => return .xrpc (.relayed
                    (if 100 ≤ upstream.status ∧ upstream.status < 1000 then upstream.status
                      else 500)
                    (upstream.contentType.filter cfg.xrpc.headerValue)
                    (upstream.contentLabelers.filter cfg.xrpc.headerValue) upstream.body)

def serveFor (did : String) (now : Nat) (parts : XrpcParts) : SessionCall → SessionProg L
  | .getSession => getSession did
  | .getServiceAuth aud lxm exp => getServiceAuth did aud lxm exp now
  | .getPreferences => getPreferences cfg did
  | .putPreferences body => putPreferences cfg did body
  | .record method body micros _ => do
      let r ← liftXrpc (method.embedded cfg.xrpc did micros body)
      return .xrpc r
  | .uploadBlob contentType body => uploadBlob cfg did contentType body
  | .proxy input => forward cfg did parts input

/-- What is answered before the token is looked at. -/
def unrouted (q : SessionRequest) : Option SessionError :=
  match q.call with
  | .proxy _ =>
      if (proxyMethod q.parts.method).isNone then
        some (notImplemented "method not implemented by the embedded server")
      else if cfg.forwards then none
      else some (notImplemented "no upstream forwarder is configured on this embedded server")
  | _ => none

def serveSession (now : Nat) (q : SessionRequest) : SessionProg L :=
  match unrouted cfg q with
  | some e => .fail e
  | none => do
      let did ← Prog.ofExcept id (authedDid cfg now q.parts "com.atproto.access")
      serveFor cfg did now q.parts q.call

end Embedded

/-! ## The Worker -/

namespace Worker

def authRequired (message : String) : SessionError := .response 401 "AuthenticationRequired" message

/-- On the Worker any token that decodes will do; its scope is not looked at. -/
def getSession (now : Nat) (bearer : Option String) : SessionProg L :=
  match bearer with
  | none => .fail (authRequired "Missing bearer token.")
  | some token =>
      match cfg.decode now token with
      | .error _ => .fail (authRequired "Invalid token.")
      | .ok claims =>
          .op (.getHandleByDid claims.sub) fun
            | .error e => .fail (.thrown s!"handle lookup: {e.display}")
            | .ok handle => return .session (handle.getD "") claims.sub

def getPreferences (now : Nat) (bearer : Option String) : SessionProg L :=
  match actingDid (cfg.worker now) bearer with
  | none => .fail (authRequired "Invalid token.")
  | some did =>
      .op (.getPreferences did) fun
        | .error e => .fail (.thrown s!"get prefs: {e.display}")
        | .ok prefs => return .preferences ((prefs.bind cfg.parseJson).getD (.arr []))

/-- `proxy_appview`: the DID and the URL are of the AppView, or of the
chat service. -/
def proxyAppview (now : Nat) (bearer : Option String) (nsid query : String) : SessionProg L :=
  let (targetDid, targetUrl) :=
    if Text.startsWith nsid "chat.bsky." then ("did:web:api.bsky.chat", "https://api.bsky.chat")
    else ("did:web:api.bsky.app", "https://api.bsky.app")
  match actingDid (cfg.worker now) bearer with
  | none => .fail (authRequired "Invalid token.")
  | some did =>
      .op (.xrpc (.loadSigningKey did)) fun r => do
        let key ← Prog.ofExcept .thrown r
        .op (.mintServiceAuth key did targetDid (some nsid) (now + 60)) fun r => do
          let jwt ← Prog.ofExcept (fun e => .thrown s!"mint service auth: {e}") r
          .op (.xrpc (.proxyRequest
              { method := .get, baseUrl := targetUrl, nsid := nsid, query := query, body := []
                contentType := none, jwt := jwt, acceptLabelers := none })) fun
            | .error _ => .fail (.thrown "fetch")
            | .ok upstream => return .xrpc (.relayed upstream.status
                (some (upstream.contentType.getD "application/json")) none upstream.body)

def writeCall (method : RepoMethod) (micros : Nat → Nat) (rnd : WriteDraw) : WriteCall :=
  match method with
  | .createRecord => .createRecord (micros 0) rnd
  | .putRecord => .putRecord rnd
  | .deleteRecord => .deleteRecord rnd
  | .applyWrites => .applyWrites micros rnd

def sessionError : RepoFailure → SessionError
  | .response status error message => .response status error message
  | .thrown msg => .thrown msg

/-- The handler in the object of `host`. A feed of the deployment's own
AppView is fetched without a token, and is left out. -/
def serveSession (host : String) (now : Nat) (q : SessionRequest) : SessionProg L :=
  match q.call with
  | .getSession => getSession cfg now (bearer q.parts)
  | .getServiceAuth _ _ _ => .fail (.response 404 "MethodNotImplemented" "unknown endpoint")
  | .getPreferences => getPreferences cfg now (bearer q.parts)
  | .putPreferences body => do
      let r ← (putPreferences (cfg.worker now) host (bearer q.parts) (readJsonBody body)).hoist
        (T := sessionSig L) .tenant (fun _ r => r) .thrown
      return .tenant r
  | .record method body micros rnd => do
      let r ← (serve (cfg.worker now).toRepoConfig (bearer q.parts) (readJsonBody body)
        (writeCall method micros rnd)).hoist (T := sessionSig L) .record (fun _ r => r) sessionError
      return .wrote r
  | .uploadBlob contentType body => do
      let r ← (uploadBlob (cfg.worker now) host (bearer q.parts)
        (contentType.getD "application/octet-stream") body).hoist
          (T := sessionSig L) .tenant (fun _ r => r) .thrown
      return .tenant r
  | .proxy input =>
      if Text.startsWith q.parts.path "/xrpc/app.bsky."
          ∨ Text.startsWith q.parts.path "/xrpc/chat.bsky." then
        proxyAppview cfg now (bearer q.parts)
          (Embedded.trimStartMatches "/xrpc/" q.parts.path.length q.parts.path) input.query
      else .fail (.response 404 "MethodNotImplemented" "unknown endpoint")

end Worker

end

end Stelyph
