import Stelyph.RepoWriter
import Stelyph.TokenEndpoint

/-!
# Authenticated requests

The `AccessAuth` extractor (`rust-pds/src/auth/extractor.rs`): either a
Bearer session token or an OAuth access token with a DPoP proof. What it
hands to a handler is the DID of the token, and nothing else of it.

A handler behind it calls the key store, the repository writer, the blob
store and other services; each such call is one operation of `XrpcOp`,
and so is the replay check inside the proof's verification.
-/

namespace Stelyph

/-! ## Operations -/

/-- The methods that are passed on. -/
inductive ProxyMethod where
  | get
  | post
deriving DecidableEq, Repr

/-- What another service is sent for a client: its request, and a token of
this server's instead of its own. -/
structure UpstreamRequest where
  method : ProxyMethod
  baseUrl : String
  nsid : String
  query : String
  body : Bytes
  contentType : Option String
  jwt : String
  acceptLabelers : Option String
deriving DecidableEq, Repr

structure UpstreamResponse where
  status : Nat
  body : Bytes
  contentType : Option String
  contentLabelers : Option String
deriving DecidableEq, Repr

/-- What an endpoint waits for once it has its token. A record write is
one operation here; the writer's own steps are those of `applyOne`. -/
inductive XrpcOp (L : RepoLib) where
  | oauth (o : OauthOp)
  /-- `load_signing_key_cached`, with the import of the key. -/
  | loadSigningKey (did : String)
  | lookupRecordCid (did key : String)
  /-- `apply_one` on a writer of the DID. -/
  | applyOne (writer : RepoWriter L) (op : WriteOp L.Ipld)
  | putBlob (did cid mimeType : String) (size : Nat) (bytes : Bytes)
  | resolveService (did fragment : String)
  | mintServiceAuthJwt (key : L.Key) (iss aud lxm : String)
  | proxyRequest (r : UpstreamRequest)

/-- What the operation comes back with. -/
abbrev XrpcOp.Ret {L : RepoLib} : XrpcOp L → Type
  | .oauth o => Except StorageError o.Value
  | .loadSigningKey _ => Except String L.Key
  | .lookupRecordCid _ _ => Except XrpcError (Option L.Cid)
  | .applyOne _ _ => Except RepoError (WriteOutcome L.Cid)
  | .putBlob _ _ _ _ _ => Except StorageError Unit
  | .resolveService _ _ => Except XrpcError String
  | .mintServiceAuthJwt _ _ _ _ => Except String String
  | .proxyRequest _ => Except XrpcError UpstreamResponse

abbrev xrpcSig (L : RepoLib) : Sig := ⟨XrpcOp L, XrpcOp.Ret⟩

abbrev XrpcProg (L : RepoLib) := Prog (xrpcSig L) XrpcError

/-! ## The server and a request -/

/-- What a session token says of itself, as far as the endpoints look at it. -/
structure SessionClaims where
  sub : String
  scope : String
deriving DecidableEq, Repr

/-- The keys of the server and the functions of other crates that its endpoints use. -/
structure XrpcConfig (L : RepoLib) where
  oauth : OauthConfig
  /-- The public half of the key that signs access tokens. -/
  tokenKey : PublicJwk
  decodeJwt : String → Except CoreError SessionClaims
  /-- `Did::from_str`. -/
  parseDid : String → Except String Unit
  jsonValueToIpld : Json → Except String L.Ipld
  cidText : L.Cid → String
  /-- CIDv1, raw codec, SHA-256. -/
  blobCid : Bytes → String
  /-- Whether a text may stand in a header. -/
  headerValue : String → Bool
  appviewDid : String
  appviewUrl : String

/-- The parts of a request the extractor reads. A header that is not
ASCII is `some none`, or `none` in the list. -/
structure XrpcParts where
  authorization : Option (Option String)
  dpopHeaders : List (Option String)
  method : String
  path : String
  tokenNow : Nat
  dpopNow : Nat
  nonceNow : Nat
deriving DecidableEq, Repr

/-- A session token, or an OAuth token with a proof of possession. -/
inductive Scheme where
  | bearer
  | dpop
deriving DecidableEq, Repr

/-- The scheme and the token of the `Authorization` header, the scheme in any case. -/
def authorization (parts : XrpcParts) : Except XrpcError (Scheme × String) :=
  match parts.authorization with
  | none => .error .authRequired
  | some none => .error .invalidToken
  | some (some header) =>
      match Text.splitOnce header ' ' with
      | none => .error .invalidToken
      | some (scheme, token) =>
          let token := Text.trim token
          if token.isEmpty then .error .invalidToken
          else if Text.eqIgnoreAsciiCase scheme "bearer" then .ok (.bearer, token)
          else if Text.eqIgnoreAsciiCase scheme "dpop" then .ok (.dpop, token)
          else .error .invalidToken

section

variable {L : RepoLib} (cfg : XrpcConfig L)

/-- `TokenIssuer::verify_access_token`. -/
def verifyAccessToken (token : String) (now : Nat) : Except OAuthError AccessTokenClaims := do
  let claims ← jwsVerify cfg.oauth.dpop.jose cfg.oauth.dpop.jose.parseAccessTokenClaims
    cfg.tokenKey "at+jwt" token
  if claims.exp ≤ now then .error (.invalidToken "access token has expired")
  else if claims.iss ≠ cfg.oauth.issuerUrl then
    .error (.invalidToken "access token issuer does not match")
  else if claims.aud ≠ cfg.oauth.audience then
    .error (.invalidToken "access token audience does not match")
  else .ok claims

/-- `AccessTokenClaims::scope`. -/
def AccessTokenClaims.scopeSet (claims : AccessTokenClaims) : Except OAuthError Scope :=
  Scope.parse claims.scope

/-- The OAuth store's calls in a handler that answers every failure the
same way. -/
def liftOauth {α : Type} : OauthProg α → XrpcProg L α
  | .ret a => .ret a
  | .fail _ => .fail .invalidToken
  | .op o k => .op (.oauth o) fun r => liftOauth (k r)

/-- What a proof has to be for: this method and path, this token, and a
nonce of the server's. -/
def dpopRequest (parts : XrpcParts) (proof accessToken : String) : DpopRequest where
  proof := proof
  method := parts.method
  uri := cfg.oauth.endpointUrl parts.path
  accessToken := some accessToken
  requireNonce := true
  now := parts.dpopNow
  nonceNow := parts.nonceNow

/-- An OAuth token with one proof, whose key has to be the one the token
is bound to. It is the token that says whose account it is. -/
def authenticateDpop (parts : XrpcParts) (accessToken : String) : XrpcProg L String :=
  match parts.dpopHeaders with
  | [] => .fail .authRequired
  | [none] => .fail .invalidToken
  | [some proof] => do
      let claims ← Prog.ofExcept (fun _ => .invalidToken)
        (verifyAccessToken cfg accessToken parts.tokenNow)
      let verified ← liftOauth (cfg.oauth.dpop.verify (dpopRequest cfg parts proof accessToken))
      if verified.jkt ≠ claims.cnfJkt then .fail .invalidToken
      else return claims.sub
  | _ => .fail .invalidToken

/-- A session token whose scope is that of access. -/
def authenticateAccess (token : String) : Except XrpcError String := do
  let claims ← (cfg.decodeJwt token).mapError .ofCore
  if claims.scope ≠ "com.atproto.access" then .error .invalidToken
  else return claims.sub

/-- The DID a request acts for: a bearer token by itself, or a DPoP token
with its proof. -/
def accessAuth (parts : XrpcParts) : XrpcProg L String := do
  let (scheme, token) ← Prog.ofExcept id (authorization parts)
  match scheme with
  | .bearer => Prog.ofExcept id (authenticateAccess cfg token)
  | .dpop => authenticateDpop cfg parts token

end

end Stelyph
