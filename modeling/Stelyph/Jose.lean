import Stelyph.OauthStore

/-!
# JSON web keys and signatures

`oauth/jwk.rs` and `oauth/jws.rs`: the EC keys the profile allows and
compact JWS. Base64url, JSON, SHA-256 and ECDSA come from crates; the
model takes them as `JoseLib`.
-/

namespace Stelyph

/-! ## JSON -/

/-- The exponent of a number, up to its end. -/
def isExponent : List Char → Bool
  | [] => false
  | e :: cs =>
      let digits := if cs.head? = some '+' ∨ cs.head? = some '-' then cs.tail else cs
      (e == 'e' || e == 'E') && !digits.isEmpty && digits.all Char.isDigit

/-- A number of the JSON grammar that has a fraction or an exponent. -/
def isFraction (cs : List Char) : Bool :=
  let cs := if cs.head? = some '-' then cs.tail else cs
  let whole := cs.takeWhile Char.isDigit
  (whole == ['0'] || (!whole.isEmpty && whole.head? != some '0')) &&
    match cs.dropWhile Char.isDigit with
    | '.' :: rest =>
        !(rest.takeWhile Char.isDigit).isEmpty &&
          ((rest.dropWhile Char.isDigit).isEmpty || isExponent (rest.dropWhile Char.isDigit))
    | rest => isExponent rest

/-- A number by its text, where that is more than an integer's digits. -/
structure Fraction where
  text : String
  grammar : isFraction text.toList = true

/-- A JSON document as it is written: integers in full, other numbers by
their text, and the members of an object in order. -/
inductive Json where
  | null
  | bool (b : Bool)
  | num (n : Int)
  | frac (f : Fraction)
  | str (s : String)
  | arr (xs : List Json)
  | obj (kvs : List (String × Json))

namespace Json

/-- The first member of that name. -/
def get : Json → String → Option Json
  | .obj kvs, k => (kvs.find? fun kv => kv.1 = k).map Prod.snd
  | _, _ => none

def asStr : Json → Option String
  | .str s => some s
  | _ => none

/-- A field of a JSON value, `null` where there is none. -/
def field (j : Json) (k : String) : Json := (j.get k).getD .null

def isNull : Json → Bool
  | .null => true
  | _ => false

def asArr : Json → Option (List Json)
  | .arr xs => some xs
  | _ => none

def asBool : Json → Option Bool
  | .bool b => some b
  | _ => none

def keys : Json → List String
  | .obj kvs => kvs.map Prod.fst
  | _ => []

end Json

/-- The two curves that keys may be on. -/
inductive Alg where
  | es256
  | es256k
deriving DecidableEq, Repr

def Alg.asStr : Alg → String
  | .es256 => "ES256"
  | .es256k => "ES256K"

def Alg.parse (s : String) : Except OAuthError Alg :=
  if s = "ES256" then .ok .es256
  else if s = "ES256K" then .ok .es256k
  else .error (.unsupportedAlgorithm s)

/-- A key as a client sends it. `kid`, `alg` and `use` may be missing. -/
structure PublicJwk where
  kty : String
  crv : String
  x : String
  y : String
  kid : Option String
  alg : Option String
  use : Option String
deriving DecidableEq, Repr

/-- What verification can fail of: the point or the signature. -/
inductive EcdsaFault where
  | badPoint
  | badSignature
deriving DecidableEq, Repr

/-- The payload of a proof: the request it is for, the time, and its id. -/
structure DpopClaims where
  jti : String
  htm : String
  htu : String
  iat : Nat
  nonce : Option String
  ath : Option String
deriving DecidableEq, Repr

/-- The payload of an access token. `cnfJkt` is the thumbprint of the key
that has to prove itself whenever the token is used. -/
structure AccessTokenClaims where
  iss : String
  sub : String
  aud : String
  clientId : String
  scope : String
  jti : String
  iat : Nat
  exp : Nat
  cnfJkt : String
deriving DecidableEq, Repr

/-- The crates behind the JOSE code. -/
structure JoseLib where
  base64urlDecode : String → Option Bytes
  base64urlEncode : Bytes → String
  sha256 : Bytes → Bytes
  parseJson : Bytes → Option Json
  parseJwk : Json → Except String PublicJwk
  parseDpopClaims : Bytes → Except String DpopClaims
  parseAccessTokenClaims : Bytes → Except String AccessTokenClaims
  ecdsaVerify : Alg → (point : Bytes) → (message : Bytes) → (signature : Bytes) →
    Except EcdsaFault Unit

section

variable (jose : JoseLib)

namespace PublicJwk

/-- Members that only a private key has. -/
def privateMembers : List String := ["d", "p", "q", "dp", "dq", "qi", "oth"]

/-- A client that sends its private key is told so, and the key is not used. -/
def rejectIfPrivate (value : Json) : Except OAuthError Unit :=
  if privateMembers.any value.keys.contains then
    .error (.invalidDpopProof "embedded JWK contains private key material")
  else .ok ()

/-- The algorithm the curve implies; a declared one must agree. -/
def algorithm (jwk : PublicJwk) : Except OAuthError Alg := do
  if jwk.kty ≠ "EC" then .error (.unsupportedAlgorithm s!"unsupported kty: {jwk.kty}")
  else
    let fromCurve ← if jwk.crv = "P-256" then .ok Alg.es256
      else if jwk.crv = "secp256k1" then .ok Alg.es256k
      else .error (.unsupportedAlgorithm s!"unsupported crv: {jwk.crv}")
    match jwk.alg with
    | none => .ok fromCurve
    | some d =>
        let declared ← Alg.parse d
        if declared ≠ fromCurve then
          .error (.unsupportedAlgorithm
            s!"JWK declares alg {declared.asStr} but crv {jwk.crv} implies {fromCurve.asStr}")
        else .ok fromCurve

/-- The point as the curve libraries take it. -/
def sec1Uncompressed (jwk : PublicJwk) : Except OAuthError Bytes := do
  let x ← (jose.base64urlDecode jwk.x).elim
    (.error (.invalidDpopProof "JWK x is not base64url")) .ok
  let y ← (jose.base64urlDecode jwk.y).elim
    (.error (.invalidDpopProof "JWK y is not base64url")) .ok
  if x.length ≠ 32 ∨ y.length ≠ 32 then
    .error (.invalidDpopProof "JWK coordinates must be 32 bytes")
  else .ok (0x04 :: x ++ y)

/-- A signature over a message, under the key's own algorithm. -/
def verify (jwk : PublicJwk) (message signature : Bytes) : Except OAuthError Unit := do
  let point ← jwk.sec1Uncompressed jose
  let alg ← jwk.algorithm
  (jose.ecdsaVerify alg point message signature).mapError fun
    | .badPoint => .invalidDpopProof (match alg with
        | .es256 => "invalid P-256 point"
        | .es256k => "invalid secp256k1 point")
    | .badSignature => .invalidDpopProof "signature verification failed"

/-- The hash of the members that make the key, in a fixed order, so that
the other members have no part in it. -/
def thumbprint (jwk : PublicJwk) : String :=
  let canonical := "\x7b\"crv\":\"" ++ jwk.crv ++ "\",\"kty\":\"" ++ jwk.kty
    ++ "\",\"x\":\"" ++ jwk.x ++ "\",\"y\":\"" ++ jwk.y ++ "\"\x7d"
  jose.base64urlEncode (jose.sha256 (Text.bytes canonical))

end PublicJwk

/-- The parts of a token before its signature was looked at. -/
structure Unverified where
  header : Json
  payloadBytes : Bytes
  signingInput : String
  signature : Bytes

namespace Unverified

def malformed (what : String) : OAuthError := .invalidDpopProof s!"malformed JWS: {what}"

/-- Three segments, each of them base64url, and a header that is JSON. -/
def parse (token : String) : Except OAuthError Unverified :=
  match Text.split token '.' with
  | [h, p, s] => do
      let headerBytes ← (jose.base64urlDecode h).elim
        (.error (malformed "header is not base64url")) .ok
      let payloadBytes ← (jose.base64urlDecode p).elim
        (.error (malformed "payload is not base64url")) .ok
      let signature ← (jose.base64urlDecode s).elim
        (.error (malformed "signature is not base64url")) .ok
      let header ← (jose.parseJson headerBytes).elim
        (.error (malformed "header is not JSON")) .ok
      return { header := header, payloadBytes := payloadBytes
               signingInput := s!"{h}.{p}", signature := signature }
  | _ => .error (malformed "expected exactly three segments")

/-- A header member, if it is a string. -/
def headerStr (u : Unverified) (key : String) : Option String :=
  (u.header.get key).bind Json.asStr

/-- The algorithm of the header; the key's own has to agree with it. -/
def alg (u : Unverified) : Except OAuthError Alg :=
  match u.headerStr "alg" with
  | none => .error (.invalidDpopProof "JWS header has no alg")
  | some a => Alg.parse a

/-- The key decides the algorithm and the header must agree; `decode`
is the deserializer of the claims. -/
def verifyWith {T : Type} (decode : Bytes → Except String T) (u : Unverified)
    (jwk : PublicJwk) : Except OAuthError T := do
  let keyAlg ← jwk.algorithm
  let alg ← u.alg
  if alg ≠ keyAlg then .error (.invalidDpopProof "JWS alg does not match the key's curve")
  else
    jwk.verify jose (Text.bytes u.signingInput) u.signature
    (decode u.payloadBytes).mapError fun e =>
      .invalidDpopProof s!"payload is not valid JSON: {e}"

end Unverified

/-- `jws::verify`: a token of the server's own key. -/
def jwsVerify {T : Type} (decode : Bytes → Except String T) (key : PublicJwk)
    (expectedTyp token : String) : Except OAuthError T := do
  let unverified ← (Unverified.parse jose token).mapError fun _ =>
    .invalidToken "malformed token"
  if unverified.headerStr "typ" ≠ some expectedTyp then
    .error (.invalidToken s!"expected typ {expectedTyp}")
  else
    (unverified.verifyWith jose decode key).mapError fun _ =>
      .invalidToken "signature verification failed"

/-- Compared in constant time there; the result is equality. -/
def constantTimeEq (a b : String) : Bool := a == b

end

end Stelyph
