import Stelyph.Jose

/-!
# DPoP proofs

`DpopVerifier::verify` (`oauth/dpop.rs`). Everything up to the replay
check is a function of the proof, the request and two clock readings
(`checkProof`): one for the proof's age, one inside the nonce check. The
replay check is one store call.
-/

namespace Stelyph

/-- A nonce is good for the window it was made in and for the next one. -/
def nonceWindowSecs : Nat := 300

/-- How far the time of a proof may be from the server's, and how long its
id is remembered. -/
def maxProofAgeSecs : Nat := 300

/-- What the endpoint is told of a proof that passed. -/
structure DpopProof where
  jkt : String
  jti : String
  htm : String
  htu : String
  iat : Nat
  ath : Option String
deriving DecidableEq, Repr

/-- `u64::to_be_bytes`. -/
def toBeBytes (n : Nat) : Bytes :=
  (List.range 8).map fun i => UInt8.ofNat (n / 256 ^ (7 - i))

/-- The checks share the secret their nonces are made from. -/
structure DpopVerifier where
  jose : JoseLib
  nonceSecret : Bytes

/-- The arguments of one `verify` call, and the clock as it reads it. -/
structure DpopRequest where
  proof : String
  method : String
  uri : String
  accessToken : Option String
  requireNonce : Bool
  now : Nat
  nonceNow : Nat
deriving DecidableEq, Repr

/-- A default port goes from the end of an authority. -/
def stripSuffix (s t : String) : String :=
  if Text.endsWith s t then String.ofList (s.toList.take (s.toList.length - t.toList.length))
  else s

/-- The position of the first `://` splits scheme from the rest. -/
def splitScheme : List Char → Option (List Char × List Char)
  | [] => none
  | ':' :: '/' :: '/' :: rest => some ([], rest)
  | c :: cs => (splitScheme cs).map fun p => (c :: p.1, p.2)

/-- A URL without query and fragment, with scheme and host in lower case
and no default port. Two spellings of one endpoint get the same text. -/
def normalizeHtu (uri : String) : String :=
  let base := Text.upTo (Text.upTo uri '#') '?'
  match splitScheme base.toList with
  | none => base
  | some (scheme, rest) =>
      let scheme := Text.toAsciiLowercase (String.ofList scheme)
      let authority := Text.toAsciiLowercase (String.ofList (rest.takeWhile (· != '/')))
      let path := String.ofList (rest.dropWhile (· != '/'))
      let authority := if scheme = "https" then stripSuffix authority ":443"
        else if scheme = "http" then stripSuffix authority ":80"
        else authority
      let path := if path = "/" then "" else path
      s!"{scheme}://{authority}{path}"

namespace DpopVerifier

variable (v : DpopVerifier)

/-- The nonce of a window, which nobody without the secret can tell beforehand. -/
def nonceForWindow (window : Nat) : String :=
  v.jose.base64urlEncode (v.jose.sha256 (v.nonceSecret ++ toBeBytes window))

/-- It is that of the current window or of the one before. -/
def nonceIsValid (nonce : String) (now : Nat) : Bool :=
  let window := now / nonceWindowSecs
  constantTimeEq nonce (v.nonceForWindow window)
    || constantTimeEq nonce (v.nonceForWindow (window - 1))

def bad (msg : String) : OAuthError := .invalidDpopProof msg

/-- What a proof string alone determines: its key and its claims. -/
def readProof (proof : String) : Except OAuthError (PublicJwk × DpopClaims) := do
  let unverified ← Unverified.parse v.jose proof
  if unverified.headerStr "typ" ≠ some "dpop+jwt" then
    .error (bad "DPoP proof must have typ=dpop+jwt")
  else
    match unverified.header.get "jwk" with
    | none => .error (bad "DPoP proof header has no jwk")
    | some jwkValue =>
        PublicJwk.rejectIfPrivate jwkValue
        let jwk ← (v.jose.parseJwk jwkValue).mapError fun e =>
          bad s!"DPoP proof jwk is not a supported EC key: {e}"
        let claims ← unverified.verifyWith v.jose v.jose.parseDpopClaims jwk
        return (jwk, claims)

def absDiff (a b : Nat) : Nat := (a - b) + (b - a)

/-- Where a nonce is required, its absence and its age are told apart from
other faults, so that the client can try again. -/
def checkNonce (req : DpopRequest) (claims : DpopClaims) : Except OAuthError Unit :=
  if !req.requireNonce then .ok ()
  else
    match claims.nonce with
    | none => .error (.useDpopNonce "a DPoP nonce is required")
    | some n =>
        if !v.nonceIsValid n req.nonceNow then
          .error (.useDpopNonce "the supplied DPoP nonce is stale or unrecognised")
        else .ok ()

/-- A proof that comes with an access token names the token it is for. -/
def checkAth (req : DpopRequest) (claims : DpopClaims) : Except OAuthError Unit :=
  match req.accessToken, claims.ath with
  | some token, some ath =>
      let expected := v.jose.base64urlEncode (v.jose.sha256 (Text.bytes token))
      if !constantTimeEq ath expected then
        .error (bad "DPoP ath does not match the presented access token")
      else .ok ()
  | some _, none => .error (bad "DPoP proof must carry ath when an access token is presented")
  | none, _ => .ok ()

/-- Checks (8) to (12) of a proof whose signature is good. -/
def checkClaims (req : DpopRequest) (claims : DpopClaims) : Except OAuthError Unit := do
  if !Text.eqIgnoreAsciiCase claims.htm req.method then
    .error (bad "DPoP htm does not match the request method")
  else if normalizeHtu claims.htu ≠ normalizeHtu req.uri then
    .error (bad "DPoP htu does not match the request URI")
  else if absDiff req.now claims.iat > maxProofAgeSecs then
    .error (bad "DPoP proof iat is outside the acceptable window")
  else
    v.checkNonce req claims
    v.checkAth req claims

/-- All checks on what the proof says come before its id is recorded, so
that a proof that fails one has not been used. -/
def verify (req : DpopRequest) : OauthProg DpopProof := do
  let (jwk, claims) ← Prog.ofExcept id (v.readProof req.proof)
  Prog.ofExcept id (v.checkClaims req claims)
  let fresh ← OauthOp.call (.recordDpopJti claims.jti (req.now + maxProofAgeSecs))
  if !fresh then .fail (bad "DPoP proof jti has already been used")
  else
    return { jkt := jwk.thumbprint v.jose, jti := claims.jti, htm := claims.htm
             htu := claims.htu, iat := claims.iat, ath := claims.ath }

end DpopVerifier

end Stelyph
