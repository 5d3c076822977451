import Stelyph.Dpop

/-!
# The token and revocation endpoints

`POST /oauth/token` (`xrpc/oauth/token.rs`) and `POST /oauth/revoke`
(`xrpc/oauth/revoke.rs`). Both grants verify a DPoP proof, redeem a
secret, check what it is bound to, and issue the next pair of tokens.
Redeeming and storing the next refresh token are separate store calls.
-/

namespace Stelyph

def accessTokenTtlSecs : Nat := 3600

def refreshTokenTtlSecs : Nat := 90 * 24 * 3600

/-- The form of a token request. Which fields have to be there depends on the grant. -/
structure TokenForm where
  grantType : String
  clientId : String
  code : Option String
  redirectUri : Option String
  codeVerifier : Option String
  refreshToken : Option String
  scope : Option String
deriving DecidableEq, Repr

/-- Both tokens, with what the client has to know of them. -/
structure TokenResponse where
  accessToken : String
  tokenType : String
  expiresIn : Nat
  refreshToken : String
  scope : String
  sub : String
deriving DecidableEq, Repr

/-- One request with the clock readings and the randomness it draws. A
`DPoP` header that is not ASCII is `none`. -/
structure TokenRequest where
  form : TokenForm
  dpopHeaders : List (Option String)
  dpopNow : Nat
  nonceNow : Nat
  redeemNow : Nat
  accessNow : Nat
  refreshNow : Nat
  newRefreshToken : String
  newSessionId : String
  newJti : String
  /-- A parameter of the form that `TokenForm` has no field for. -/
  clientAssertion : Option String := none
deriving DecidableEq, Repr

/-- The issuer with its names and its key, which every handler of the flow is given. -/
structure OauthConfig where
  dpop : DpopVerifier
  issuerUrl : String
  audience : String
  /-- `jws::sign` with the server's key and `typ: at+jwt`. -/
  signAccessToken : AccessTokenClaims → Except OAuthError String
  hashSecret : String → String

def OauthConfig.endpointUrl (cfg : OauthConfig) (path : String) : String :=
  s!"{cfg.issuerUrl}{path}"

/-! ## PKCE -/

def unreserved (b : UInt8) : Bool :=
  (48 ≤ b && b ≤ 57) || (65 ≤ b && b ≤ 90) || (97 ≤ b && b ≤ 122)
    || b == 45 || b == 46 || b == 95 || b == 126

/-- `CodeChallenge::verify`. -/
def verifyChallenge (jose : JoseLib) (challenge verifier : String) : Except OAuthError Unit :=
  if verifier.utf8ByteSize < 43 ∨ 128 < verifier.utf8ByteSize then
    .error (.invalidGrant "code_verifier must be 43-128 characters")
  else if !(Text.bytes verifier).all unreserved then
    .error (.invalidGrant "code_verifier contains characters outside the unreserved set")
  else if constantTimeEq (jose.base64urlEncode (jose.sha256 (Text.bytes verifier))) challenge then
    .ok ()
  else .error (.invalidGrant "code_verifier does not match code_challenge")

section

variable (cfg : OauthConfig)

/-- One proof, in one header, made for this endpoint. Without the server's
nonce it is refused. -/
def verifyDpop (q : TokenRequest) : OauthProg DpopProof :=
  match q.dpopHeaders with
  | [] => .fail (.invalidDpopProof "a DPoP proof is required")
  | [none] => .fail (.invalidDpopProof "DPoP header is not valid ASCII")
  | [some proof] =>
      cfg.dpop.verify { proof := proof, method := "POST", uri := cfg.endpointUrl "/oauth/token"
                        accessToken := none, requireNonce := true, now := q.dpopNow
                        nonceNow := q.nonceNow }
  | _ => .fail (.invalidDpopProof "exactly one DPoP header is permitted")

/-- A signed token of an hour, bound to the key `jkt`. -/
def issueAccessToken (did clientId : String) (scope : Scope) (jkt : String) (q : TokenRequest) :
    Except OAuthError (String × Nat) := do
  let token ← cfg.signAccessToken {
    iss := cfg.issuerUrl, sub := did, aud := cfg.audience, clientId := clientId
    scope := scope.display, jti := q.newJti, iat := q.accessNow
    exp := q.accessNow + accessTokenTtlSecs, cnfJkt := jkt }
  return (token, accessTokenTtlSecs)

/-- The refresh token is stored by its hash before the client is answered.
A rotation goes on with the session it was given. -/
def issue (did clientId : String) (scope : Scope) (jkt : String) (sessionId : Option String)
    (q : TokenRequest) : OauthProg TokenResponse := do
  let (accessToken, expiresIn) ← Prog.ofExcept id
    (issueAccessToken cfg did clientId scope jkt q)
  OauthOp.call (.putRefreshToken {
    tokenHash := cfg.hashSecret q.newRefreshToken
    sessionId := sessionId.getD q.newSessionId
    did := did, clientId := clientId, scope := scope.display, dpopJkt := jkt
    issuedAt := q.refreshNow, expiresAt := q.refreshNow + refreshTokenTtlSecs })
  return { accessToken := accessToken, tokenType := "DPoP", expiresIn := expiresIn
           refreshToken := q.newRefreshToken, scope := scope.display, sub := did }

/-- The code is redeemed first, and then compared with what the request
says: one that is presented with the wrong client, redirect, key or
verifier is spent all the same. -/
def authorizationCodeGrant (q : TokenRequest) (proof : DpopProof) : OauthProg TokenResponse :=
  match q.form.code with
  | none => .fail (.invalidRequest "code is required")
  | some code => do
      let redeemed ← OauthOp.call (.consumeAuthCode (cfg.hashSecret code) q.redeemNow)
      match redeemed with
      | none =>
          .fail (.invalidGrant "authorization code is invalid, expired, or already used")
      | some record =>
          if record.clientId ≠ q.form.clientId then
            .fail (.invalidGrant "authorization code was issued to a different client")
          else
            match q.form.redirectUri with
            | none => .fail (.invalidRequest "redirect_uri is required")
            | some redirectUri =>
                if redirectUri ≠ record.redirectUri then
                  .fail (.invalidGrant "redirect_uri does not match")
                else
                  match q.form.codeVerifier with
                  | none => .fail (.invalidRequest "code_verifier is required")
                  | some verifier =>
                      Prog.ofExcept id
                        (verifyChallenge cfg.dpop.jose record.codeChallenge verifier)
                      if record.dpopJkt.any fun expected => expected != proof.jkt then
                        .fail (.invalidGrant
                          "DPoP key does not match the key bound at authorization time")
                      else
                        let scope ← Prog.ofExcept id (Scope.parse record.scope)
                        issue cfg record.did record.clientId scope proof.jkt none q

/-- A client may narrow its scope on refresh but never widen it. -/
def narrowScope (granted : Scope) (requested : Option String) : Except OAuthError Scope :=
  match requested with
  | none => .ok granted
  | some requested => do
      let requested ← Scope.parse requested
      if !requested.isSubsetOf granted then
        .error (.invalidScope "requested scope exceeds the originally granted scope")
      else .ok requested

/-- What follows a redeemed refresh token: the checks, and the next
token of the same chain. -/
def refreshChecks (q : TokenRequest) (proof : DpopProof) (record : RefreshTokenRecord) :
    OauthProg TokenResponse :=
  if record.clientId ≠ q.form.clientId then
    .fail (.invalidGrant "refresh token was issued to a different client")
  else if record.dpopJkt ≠ proof.jkt then
    .fail (.invalidGrant "DPoP key does not match the key this refresh token is bound to")
  else do
    let granted ← Prog.ofExcept id (Scope.parse record.scope)
    let scope ← Prog.ofExcept id (narrowScope granted q.form.scope)
    issue cfg record.did record.clientId scope proof.jkt (some record.sessionId) q

/-- The token is redeemed first. If it was redeemed before, somebody else
has it, and the session is revoked. -/
def refreshTokenGrant (q : TokenRequest) (proof : DpopProof) : OauthProg TokenResponse :=
  match q.form.refreshToken with
  | none => .fail (.invalidRequest "refresh_token is required")
  | some presented => do
      let redeemed ← OauthOp.call
        (.consumeRefreshToken (cfg.hashSecret presented) q.redeemNow)
      match redeemed with
      | .consumed record => refreshChecks cfg q proof record
      | .reused sessionId =>
          let _revoked ← OauthOp.call (.revokeSession sessionId)
          .fail (.invalidGrant
            "refresh token has already been used; the session has been revoked")
      | .notFound => .fail (.invalidGrant "refresh token is invalid or expired")

/-- `POST /oauth/token`: the proof is verified first, and the grant is
chosen by its type. -/
def tokenHandle (q : TokenRequest) : OauthProg TokenResponse := do
  let proof ← verifyDpop cfg q
  if q.form.grantType = "authorization_code" then authorizationCodeGrant cfg q proof
  else if q.form.grantType = "refresh_token" then refreshTokenGrant cfg q proof
  else .fail (.unsupportedGrantType q.form.grantType)

/-- `POST /oauth/revoke`: answered the same whatever the store says. -/
def revoke (token : String) : OauthProg Unit :=
  .op (.revokeRefreshToken (cfg.hashSecret token)) fun _ => .ret ()

end

end Stelyph
