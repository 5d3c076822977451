import Stelyph.OauthClient
import Stelyph.Registration
import Stelyph.XrpcAuth

/-!
# Pushed requests and their authorization

`POST /oauth/par` (`xrpc/oauth/par.rs`), `GET` and `POST /oauth/authorize`
(`xrpc/oauth/authorize.rs`) and the lookup of a client's metadata document
(`xrpc/oauth/client_resolver.rs`). A submission loads the pushed request,
looks the account up, stores a code and deletes the request in four store
calls, with other requests in between.
-/

namespace Stelyph

/-! ## Errors as a client sees them -/

namespace OAuthError

/-- The `error` of an OAuth response, by the kind of failure. -/
def errorCode : OAuthError → String
  | .invalidRequest _ => "invalid_request"
  | .invalidClient _ => "invalid_client"
  | .invalidGrant _ => "invalid_grant"
  | .invalidScope _ => "invalid_scope"
  | .unauthorizedClient _ => "unauthorized_client"
  | .unsupportedGrantType _ => "unsupported_grant_type"
  | .accessDenied _ => "access_denied"
  | .invalidDpopProof _ => "invalid_dpop_proof"
  | .useDpopNonce _ => "use_dpop_nonce"
  | .invalidToken _ => "invalid_token"
  | .unsupportedAlgorithm _ => "invalid_request"
  | .storage _ => "server_error"
  | .internal _ => "server_error"

/-- The server's own failures are not described. -/
def publicDescription : OAuthError → String
  | .invalidRequest msg => s!"invalid_request: {msg}"
  | .invalidClient msg => s!"invalid_client: {msg}"
  | .invalidGrant msg => s!"invalid_grant: {msg}"
  | .invalidScope msg => s!"invalid_scope: {msg}"
  | .unauthorizedClient msg => s!"unauthorized_client: {msg}"
  | .unsupportedGrantType msg => s!"unsupported_grant_type: {msg}"
  | .accessDenied msg => s!"access_denied: {msg}"
  | .invalidDpopProof msg => s!"invalid_dpop_proof: {msg}"
  | .useDpopNonce msg => s!"use_dpop_nonce: {msg}"
  | .invalidToken msg => s!"invalid_token: {msg}"
  | .unsupportedAlgorithm msg => s!"unsupported algorithm: {msg}"
  | .storage _ => "internal server error"
  | .internal _ => "internal server error"

end OAuthError

/-! ## Redirects -/

/-- Percent-encoding of all but the unreserved set, by the bytes of the
text. An escape has two digits in upper case. -/
def urlencode (s : String) : String :=
  String.ofList ((Text.bytes s).flatMap fun b =>
    if unreserved b then [Char.ofUInt8 b]
    else '%' :: Text.digits (fun n => "0123456789ABCDEF".toList.getD n '0') 16 2 b.toNat)

/-- The parameters behind a URL, percent-encoded, the first after `sep`
and the others after `&`. -/
def appendParams (url : String) (sep : Char) : List (String × String) → String
  | [] => url
  | (k, v) :: params =>
      appendParams (url.push sep ++ urlencode k ++ "=" ++ urlencode v) '&' params

/-- `base` with `params` appended to the query it may have. -/
def appendQuery (base : String) (params : List (String × String)) : String :=
  appendParams base (if base.toList.contains '?' then '&' else '?') params

/-! ## Operations -/

/-- The answer to a request for a client's metadata document. -/
structure FetchedDocument where
  status : Nat
  reason : String
  contentLength : Option Nat
  body : Except String Bytes

/-- What a handler of the axum server waits for: a call of either store, a
blocking thread, or a document from the network. -/
inductive ServerOp where
  | oauth (o : OauthOp)
  | account (o : AccountOp)
  | getDidByHandle (handle : String)
  | getHandleByDid (did : String)
  | updatePassword (did phc : String)
  | setTakedown (did reference now : String)
  | clearTakedown (did : String)
  /-- Waiting for a blocking thread, which may have panicked. -/
  | joinBlocking
  | fetch (url : String)

/-- What it waits for it to come back with. -/
abbrev ServerOp.Ret : ServerOp → Type
  | .oauth o => Except StorageError o.Value
  | .account o => o.Ret
  | .getDidByHandle _ => Except StorageError (Option String)
  | .getHandleByDid _ => Except StorageError (Option String)
  | .updatePassword _ _ => Except StorageError Nat
  | .setTakedown _ _ _ => Except StorageError Nat
  | .clearTakedown _ => Except StorageError Nat
  | .joinBlocking => Except String Unit
  | .fetch _ => Except String FetchedDocument

abbrev serverSig : Sig := ⟨ServerOp, ServerOp.Ret⟩

/-- A handler of the server, up to its error. -/
abbrev ServerProg (ε : Type) := Prog serverSig ε

def ServerOp.ask {ε : Type} (o : ServerOp) : ServerProg ε o.Ret := Prog.ask (S := serverSig) o

/-- The OAuth store's calls among the server's. -/
def OauthProg.lift {α : Type} (p : OauthProg α) : ServerProg OAuthError α :=
  Prog.hoist (T := serverSig) ServerOp.oauth (fun _ r => r) id p

/-! ## The server -/

/-- The shared state of the handlers: the settings and the parsers of other crates. -/
structure AppState (Keypair : Type) where
  server : ServerConfig Keypair
  oauth : OauthConfig
  parseUrl : String → Except String ParsedUrl
  /-- `serde_json::from_slice`. -/
  parseMetadata : Bytes → Except String ClientMetadata
  decodeJwt : String → Except CoreError SessionClaims

/-- The bound on a client's metadata document, checked on its declared and
on its true length. -/
def maxMetadataBytes : Nat := 64 * 1024

/-- The parts of a pushed request, with the handle it draws. A `DPoP`
header that is not ASCII is `none`. -/
structure ParRequest where
  form : PushedRequest
  dpopHeader : Option String
  dpopNow : Nat
  handle : String
  validateNow : Nat
  expiresNow : Nat
deriving DecidableEq, Repr

/-- What the client carries to the authorize endpoint. -/
structure ParResponse where
  requestUri : String
  expiresIn : Nat
deriving DecidableEq, Repr

/-- The query of the consent page. The `client_id` may be left out. -/
structure AuthorizeQuery where
  requestUri : String
  clientId : Option String
  now : Nat
deriving DecidableEq, Repr

/-- A submitted page, with the code it draws. -/
structure AuthorizeForm where
  requestUri : String
  username : String
  password : String
  action : String
  loadNow : Nat
  code : String
  codeNow : Nat
deriving DecidableEq, Repr

/-- What the login and consent page shows. -/
structure ConsentPage where
  requestUri : String
  clientName : String
  clientId : String
  scopes : List String
  loginHint : Option String
  error : Option String
deriving DecidableEq, Repr

/-- The consent page, an error page, or the redirect to the client that ends the flow. -/
inductive AuthorizeResponse where
  | page (p : ConsentPage)
  | errorPage (status : Nat) (title message : String)
  | redirect (location : String)
  /-- A redirect that carries a code, with the record of the code. -/
  | granted (location : String) (record : AuthCode)
deriving DecidableEq, Repr

namespace AppState

variable {Keypair : Type} (state : AppState Keypair)

/-! ## Client metadata -/

/-- A metadata document from the answer to its request: a success status,
a bounded length, and JSON that reads. -/
def readMetadata (answer : Except String FetchedDocument) : Except OAuthError ClientMetadata := do
  let resp ← answer.mapError fun e => .invalidClient s!"could not fetch client metadata: {e}"
  if resp.status < 200 ∨ 300 ≤ resp.status then
    .error (.invalidClient
      s!"client metadata request returned HTTP {resp.status} {resp.reason}")
  else if resp.contentLength.any fun len => maxMetadataBytes < len then
    .error (.invalidClient "client metadata document is too large")
  else
    let bytes ← resp.body.mapError fun e =>
      .invalidClient s!"could not read client metadata: {e}"
    if maxMetadataBytes < bytes.length then
      .error (.invalidClient "client metadata document is too large")
    else
      (state.parseMetadata bytes).mapError fun e =>
        .invalidClient s!"client metadata is not valid JSON: {e}"

/-- A development client carries its registration in its identifier. -/
def resolve (clientId : ClientId) : ServerProg OAuthError ClientMetadata :=
  match clientId.loopbackMetadata with
  | some metadata => do
      Prog.ofExcept id (metadata.validate clientId)
      return metadata
  | none => do
      let answer ← ServerOp.ask (.fetch clientId.asStr)
      let metadata ← Prog.ofExcept id (state.readMetadata answer)
      Prog.ofExcept id (metadata.validate clientId)
      return metadata

/-! ## `POST /oauth/par` -/

/-- A proof is optional here, and needs no nonce. -/
def parDpop (q : ParRequest) : ServerProg OAuthError (Option String) :=
  match q.dpopHeader with
  | none => return none
  | some proof => do
      let verified ← OauthProg.lift (state.oauth.dpop.verify {
        proof := proof, method := "POST", uri := state.oauth.endpointUrl "/oauth/par"
        accessToken := none, requireNonce := false, now := q.dpopNow, nonceNow := q.dpopNow })
      return some verified.jkt

/-- `POST /oauth/par`: the client is resolved, the proof checked, the
request validated against the client's metadata, and only then is it
stored. -/
def pushedAuthorizationRequest (q : ParRequest) : ServerProg OAuthError ParResponse := do
  let clientId ← Prog.ofExcept id (ClientId.parse state.parseUrl q.form.clientId)
  let resolved ← state.resolve clientId
  let dpopJkt ← state.parDpop q
  let validated ← Prog.ofExcept id (q.form.validate state.oauth.dpop.jose state.oauth.hashSecret
    clientId resolved dpopJkt q.handle q.validateNow)
  OauthProg.lift (OauthOp.call (.putPushedRequest validated.stored))
  return { requestUri := validated.requestUri
           expiresIn := validated.stored.expiresAt - q.expiresNow }

/-! ## `GET` and `POST /oauth/authorize` -/

/-- The stored request of a `request_uri`, or the page that says why there is none. -/
def loadRequest (requestUri : String) (now : Nat) :
    ServerProg OAuthError (Except AuthorizeResponse StoredPushedRequest) :=
  match validateRequestUri requestUri with
  | .error _ => return .error (.errorPage 400 "Invalid request"
      "This authorization request is not recognised.")
  | .ok _ => do
      let found ← ServerOp.ask
        (.oauth (.getPushedRequest (state.oauth.hashSecret requestUri) now))
      match found with
      | .ok (some stored) => return .ok stored
      | .ok none => return .error (.errorPage 400 "Request expired"
          ("This authorization request has expired or has already been used. "
            ++ "Please start again from the application."))
      | .error _ => return .error (.errorPage 500 "Server error"
          "Something went wrong. Please try again.")

/-- `username` as it is looked up. -/
def normalizeUsername (username : String) : String :=
  Text.toAsciiLowercase
    (String.ofList ((Text.trim username).toList.dropWhile (· == '@')))

/-- The DID, or the message the page is shown again with. -/
def authenticate (username password : String) :
    ServerProg OAuthError (Except String String) := do
  let found ← ServerOp.ask (.account (.getAccountByHandle (normalizeUsername username)))
  match found with
  | .ok (some (did, phc)) =>
      match state.server.verifyPassword password phc with
      | .ok true => return .ok did
      | .ok false => return .error "Incorrect handle or password."
      | .error _ => return .error "Something went wrong. Please try again."
  | .ok none => return .error "Incorrect handle or password."
  | .error _ => return .error "Something went wrong. Please try again."

/-- The record of a code. It takes over what the pushed request said, and
whom the user signed in as. -/
def authCode (stored : StoredPushedRequest) (did : String) (q : AuthorizeForm) : AuthCode where
  codeHash := state.oauth.hashSecret q.code
  did := did
  clientId := stored.clientId
  redirectUri := stored.redirectUri
  scope := stored.scope
  codeChallenge := stored.codeChallenge
  dpopJkt := stored.dpopJkt
  expiresAt := q.codeNow + authCodeTtlSecs

/-- The code is stored before the request is deleted, in two calls;
another submission may come between them. -/
def issueCode (stored : StoredPushedRequest) (did : String) (q : AuthorizeForm) :
    ServerProg OAuthError AuthorizeResponse := do
  OauthProg.lift (OauthOp.call (.putAuthCode (state.authCode stored did q)))
  OauthProg.lift (OauthOp.call (.deletePushedRequest stored.requestUriHash))
  return .granted (appendQuery stored.redirectUri
    [("code", q.code), ("state", stored.state), ("iss", state.oauth.issuerUrl)])
    (state.authCode stored did q)

/-- The name of the client, its identifier if it cannot be resolved. -/
def clientName (stored : StoredPushedRequest) : ServerProg OAuthError String :=
  match ClientId.parse state.parseUrl stored.clientId with
  | .error _ => return stored.clientId
  | .ok clientId => do
      let resolved ← (state.resolve clientId).attempt
      match resolved with
      | .ok metadata => return metadata.displayName
      | .error _ => return stored.clientId

/-- The consent page of a request, with an error where it is shown again. -/
def renderPage (requestUri : String) (stored : StoredPushedRequest) (error : Option String) :
    ServerProg OAuthError AuthorizeResponse := do
  let clientName ← state.clientName stored
  return .page {
    requestUri := requestUri, clientName := clientName, clientId := stored.clientId
    scopes := match Scope.parse stored.scope with
      | .ok scope => scope.tokens
      | .error _ => []
    loginHint := stored.loginHint, error := error }

/-- The redirect that tells the client of a denial. -/
def redirectError (stored : StoredPushedRequest) (code description : String) :
    AuthorizeResponse :=
  .redirect (appendQuery stored.redirectUri
    [("error", code), ("error_description", description), ("state", stored.state)])

/-- `GET /oauth/authorize`: nothing is changed by looking at the page. -/
def authorizePage (q : AuthorizeQuery) : ServerProg OAuthError AuthorizeResponse := do
  let loaded ← state.loadRequest q.requestUri q.now
  match loaded with
  | .error page => return page
  | .ok stored =>
      if q.clientId.any fun clientId => clientId != stored.clientId then
        return .errorPage 400 "Invalid request"
          "The client_id does not match this authorization request."
      else state.renderPage q.requestUri stored none

/-- `POST /oauth/authorize`: a denial deletes the request; an acceptance
has to come with the account's password, and issues a code. -/
def authorizeSubmit (q : AuthorizeForm) : ServerProg OAuthError AuthorizeResponse := do
  let loaded ← state.loadRequest q.requestUri q.loadNow
  match loaded with
  | .error page => return page
  | .ok stored =>
      if q.action ≠ "accept" then
        -- the answer to the deletion is not looked at
        let _deleted ← ServerOp.ask (.oauth (.deletePushedRequest stored.requestUriHash))
        return redirectError stored "access_denied" "The user denied the request."
      else
        let authenticated ← state.authenticate q.username q.password
        match authenticated with
        | .error message => state.renderPage q.requestUri stored (some message)
        | .ok did =>
            let issued ← (state.issueCode stored did q).attempt
            match issued with
            | .ok redirect => return redirect
            | .error e => return redirectError stored e.errorCode e.publicDescription

end AppState

end Stelyph
