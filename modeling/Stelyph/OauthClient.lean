import Stelyph.Jose

/-!
# OAuth clients and what they ask for

Client identifiers and metadata documents (`oauth/client.rs`), PKCE
challenges (`oauth/pkce.rs`) and pushed requests (`oauth/request.rs`).
A client identifier is a URL; the parser is a crate, and `ParsedUrl` is
what the code reads of a parsed URL. A handle drawn for a request and
the time it is stored are arguments.
-/

namespace Stelyph

/-- A host name, or an address of either family. -/
inductive UrlHost where
  | domain (d : String)
  | ip (address : String)
deriving DecidableEq, Repr

/-- The accessors of `url::Url`; `text` is its normalised serialisation. -/
structure ParsedUrl where
  text : String
  scheme : String
  username : String
  password : Option String
  host : Option UrlHost
  port : Option Nat
  path : String
  query : Option String
  queryPairs : List (String × String)
  fragment : Option String
deriving DecidableEq, Repr

/-! ## Client identifiers -/

/-- A client that publishes its metadata, or one under development, whose
id says all there is to know. -/
inductive ClientId where
  | web (url : ParsedUrl)
  | loopback (redirectUris : List String) (scope : Option String) (raw : String)
deriving DecidableEq, Repr

namespace ClientId

def bad (msg : String) : OAuthError := .invalidClient msg

/-- The id of a published client is the URL of its metadata document. -/
def parseWeb (url : ParsedUrl) : Except OAuthError ClientId :=
  match url.host with
  | some (.domain d) =>
      if d = "localhost" ∨ Text.endsWith d ".localhost" then
        .error (bad "localhost clients must use the http:// loopback form")
      else if url.port.isSome then .error (bad "client_id must not specify a port")
      else if url.path = "" ∨ url.path = "/" then
        .error (bad "client_id must include a path to the metadata document")
      else if url.query.isSome then
        .error (bad "client_id must not contain a query string")
      else .ok (.web url)
  | some (.ip _) =>
      .error (bad "client_id host must be a domain name, not an IP address")
  | none => .error (bad "client_id must have a host")

/-- The registration a development client carries in its own query. -/
def loopbackPairs : List (String × String) → List String → Option String →
    Except OAuthError (List String × Option String)
  | [], redirectUris, scope => .ok (redirectUris, scope)
  | (k, v) :: rest, redirectUris, scope =>
      if k = "redirect_uri" then loopbackPairs rest (redirectUris ++ [v]) scope
      else if k = "scope" then loopbackPairs rest redirectUris (some v)
      else .error (bad s!"unsupported localhost client_id parameter: {k}")

/-- The id of a client under development. Its redirects go to the loopback
interface unless it lists others. -/
def parseLoopback (raw : String) (url : ParsedUrl) : Except OAuthError ClientId :=
  if url.host ≠ some (.domain "localhost") then
    .error (bad "http client_id is only permitted for localhost")
  else if url.port.isSome then
    .error (bad "localhost client_id must not specify a port")
  else if ¬ (url.path = "" ∨ url.path = "/") then
    .error (bad "localhost client_id must not have a path")
  else do
    let (redirectUris, scope) ← loopbackPairs url.queryPairs [] none
    return .loopback
      (if redirectUris.isEmpty then ["http://127.0.0.1/", "http://[::1]/"] else redirectUris)
      scope raw

/-- A client id is a URL without credentials and fragment, of one of two kinds. -/
def parse (parseUrl : String → Except String ParsedUrl) (raw : String) :
    Except OAuthError ClientId := do
  let url ← (parseUrl raw).mapError fun e => bad s!"client_id is not a URL: {e}"
  if ¬ url.username.isEmpty ∨ url.password.isSome then
    .error (bad "client_id must not contain credentials")
  else if url.fragment.isSome then
    .error (bad "client_id must not contain a fragment")
  else if url.scheme = "http" then parseLoopback raw url
  else if url.scheme = "https" then parseWeb url
  else
    .error (bad
      s!"client_id scheme must be https (or http for localhost), got {url.scheme}")

/-- The canonical form, as it appears in tokens and stored records: the
URL as it was parsed and printed again, or a localhost client as it was
written. -/
def asStr : ClientId → String
  | .web url => url.text
  | .loopback _ _ raw => raw

end ClientId

/-! ## Client metadata -/

/-- What a client says of itself. -/
structure ClientMetadata where
  clientId : String
  clientName : Option String
  redirectUris : List String
  grantTypes : List String
  responseTypes : List String
  scope : String
  tokenEndpointAuthMethod : String
  dpopBoundAccessTokens : Bool
  jwksUri : Option String
  jwks : Option Json

/-- A development client's metadata, made from its `client_id`. -/
def ClientId.loopbackMetadata : ClientId → Option ClientMetadata
  | .web _ => none
  | .loopback redirectUris scope raw => some {
      clientId := raw
      clientName := some "Local development client"
      redirectUris := redirectUris
      grantTypes := ["authorization_code", "refresh_token"]
      responseTypes := ["code"]
      scope := scope.getD "atproto"
      tokenEndpointAuthMethod := "none"
      dpopBoundAccessTokens := true
      jwksUri := none
      jwks := none }

namespace ClientMetadata

def bad (msg : String) : OAuthError := .invalidClient msg

/-- A client with a key of its own has to publish it. -/
def checkAuthMethod (md : ClientMetadata) : Except OAuthError Unit :=
  if md.tokenEndpointAuthMethod = "none" then .ok ()
  else if md.tokenEndpointAuthMethod = "private_key_jwt" then
    if md.jwksUri.isNone ∧ md.jwks.isNone then
      .error (bad "a private_key_jwt client must publish jwks or jwks_uri")
    else .ok ()
  else .error (bad s!"unsupported token_endpoint_auth_method: {md.tokenEndpointAuthMethod}")

/-- A document checked against the `client_id` it was found under. -/
def validate (md : ClientMetadata) (clientId : ClientId) : Except OAuthError Unit :=
  if md.clientId ≠ clientId.asStr then
    .error (bad (s!"client metadata declares client_id {md.clientId} "
      ++ s!"but was fetched as {clientId.asStr}"))
  else if ¬ md.dpopBoundAccessTokens then
    .error (bad "client metadata must set dpop_bound_access_tokens to true")
  else if ¬ md.grantTypes.contains "authorization_code" then
    .error (bad "client metadata must include the authorization_code grant type")
  else if ¬ md.responseTypes.contains "code" then
    .error (bad "client metadata must include the `code` response type")
  else if md.redirectUris.isEmpty then
    .error (bad "client metadata must declare at least one redirect_uri")
  else do
    md.checkAuthMethod
    if md.scope.isEmpty then return ()
    else
      let _declared ← Scope.parse md.scope
      return ()

/-- Exact comparison: where a code is delivered is not matched loosely. -/
def allowsRedirectUri (md : ClientMetadata) (uri : String) : Bool := md.redirectUris.contains uri

/-- The name on the consent page, and the id where there is none. -/
def displayName (md : ClientMetadata) : String :=
  (md.clientName.filter fun n => !(Text.trim n).isEmpty).getD md.clientId

end ClientMetadata

/-! ## Pushed requests -/

/-- How long a pushed request waits for its user. -/
def parTtlSecs : Nat := 300

/-- How long a code waits for its client. -/
def authCodeTtlSecs : Nat := 60

/-- `CodeChallenge::parse`: the challenge, if it can be one. -/
def parseChallenge (jose : JoseLib) (challenge : String) (method : Option String) :
    Except OAuthError String :=
  match method with
  | none => .error (.invalidRequest "code_challenge_method is required and must be S256")
  | some method =>
      if method ≠ "S256" then
        .error (.invalidRequest
          s!"unsupported code_challenge_method: {method} (only S256 is allowed)")
      else if challenge.utf8ByteSize ≠ 43 then
        .error (.invalidRequest "code_challenge must be a base64url-encoded SHA-256 digest")
      else if (jose.base64urlDecode challenge).isNone then
        .error (.invalidRequest "code_challenge is not valid base64url")
      else .ok challenge

/-- The form of a pushed request, before any of it is checked. -/
structure PushedRequest where
  clientId : String
  responseType : String
  redirectUri : Option String
  scope : Option String
  state : Option String
  codeChallenge : Option String
  codeChallengeMethod : Option String
  loginHint : Option String
deriving DecidableEq, Repr

/-- A checked request with the `request_uri` that its client is given for it. -/
structure AuthorizationRequest where
  requestUri : String
  stored : StoredPushedRequest

/-- What a `request_uri` begins with; the rest is random. -/
def requestUriPrefix : String := "urn:ietf:params:oauth:request_uri:"

namespace PushedRequest

def bad (msg : String) : OAuthError := .invalidRequest msg

/-- The scope asked for, which may not exceed the registered one. -/
def requestedScope (q : PushedRequest) (client : ClientMetadata) : Except OAuthError Scope := do
  let requested ← Scope.parse (q.scope.getD "")
  if client.scope.isEmpty then return requested
  else
    let declared ← Scope.parse client.scope
    if !requested.isSubsetOf declared then
      .error (.invalidScope "requested scope exceeds the client's registered scope")
    else return requested

/-- A pushed request is checked in full before it is stored, so that the
authorize endpoint need not check it again. -/
def validate (q : PushedRequest) (jose : JoseLib) (hashSecret : String → String)
    (clientId : ClientId) (client : ClientMetadata) (dpopJkt : Option String)
    (handle : String) (now : Nat) : Except OAuthError AuthorizationRequest :=
  if q.responseType ≠ "code" then .error (bad "response_type must be `code`")
  else
    match q.state.filter fun s => !s.isEmpty with
    | none => .error (bad "state is required")
    | some state =>
        match q.redirectUri with
        | none => .error (bad "redirect_uri is required")
        | some redirectUri =>
            if !client.allowsRedirectUri redirectUri then
              .error (bad "redirect_uri is not registered for this client")
            else do
              let requested ← q.requestedScope client
              match q.codeChallenge with
              | none => .error (bad "code_challenge is required")
              | some challenge =>
                  let challenge ← parseChallenge jose challenge q.codeChallengeMethod
                  let requestUri := s!"{requestUriPrefix}{handle}"
                  return {
                    requestUri := requestUri
                    stored := {
                      requestUriHash := hashSecret requestUri, clientId := clientId.asStr
                      redirectUri := redirectUri, scope := requested.display, state := state
                      codeChallenge := challenge, dpopJkt := dpopJkt, loginHint := q.loginHint
                      expiresAt := now + parTtlSecs } }

end PushedRequest

def validateRequestUri (requestUri : String) : Except OAuthError Unit :=
  if !Text.startsWith requestUri requestUriPrefix then
    .error (.invalidRequest "request_uri is not a recognised pushed-request handle")
  else .ok ()

end Stelyph
