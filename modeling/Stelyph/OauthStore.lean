import Stelyph.Errors
import Stelyph.Lib.Pool
import Stelyph.Lib.Table
import Stelyph.Lib.Text

/-!
# OAuth server state

Scopes (`oauth/scope.rs`), the four kinds of short-lived record
(`oauth/store.rs`) and the operations on them as `storage/memory` and
`storage/sqlite` implement them: one call, one transaction. Secrets are
keyed by their hash. Every record expires at a Unix time in seconds.
-/

namespace Stelyph

/-- What an OAuth endpoint may end in. All but `storage` and `internal`
carry the description that the client is shown. -/
inductive OAuthError where
  | invalidRequest (msg : String)
  | invalidClient (msg : String)
  | invalidGrant (msg : String)
  | invalidScope (msg : String)
  | unauthorizedClient (msg : String)
  | unsupportedGrantType (msg : String)
  | accessDenied (msg : String)
  | invalidDpopProof (msg : String)
  | useDpopNonce (msg : String)
  | invalidToken (msg : String)
  | unsupportedAlgorithm (msg : String)
  | storage (e : StorageError)
  | internal (msg : String)
deriving DecidableEq, Repr

/-! ## Scopes -/

/-- A set of scope tokens, kept sorted and without repetition, so that
equal sets are equal values. -/
structure Scope where
  tokens : List String
deriving DecidableEq, Repr

namespace Scope

/-- The scope that every grant needs. -/
def atproto : String := "atproto"

def supported : List String :=
  [atproto, "transition:generic", "transition:chat.bsky", "transition:email"]

/-- Insertion into a sorted list without repetitions, as into the
`BTreeSet` of the source. -/
def insertToken (x : String) : List String → List String
  | [] => [x]
  | y :: ys =>
      if x < y then x :: y :: ys
      else if x = y then y :: ys
      else y :: insertToken x ys

/-- The words of a scope, one after the other; the first unknown one is the error. -/
def parseTokens : List String → List String → Except OAuthError (List String)
  | acc, [] => .ok acc
  | acc, t :: ts =>
      if supported.contains t then parseTokens (insertToken t acc) ts
      else .error (.invalidScope s!"unknown scope: {t}")

/-- A scope from its text: known words only, at least one, and `atproto`
among them. Repeated words count once. -/
def parse (s : String) : Except OAuthError Scope := do
  let set ← parseTokens [] (Text.splitAsciiWhitespace s)
  if set.isEmpty then .error (.invalidScope "scope is required")
  else if !set.contains atproto then
    .error (.invalidScope "the `atproto` scope is required")
  else .ok ⟨set⟩

def contains (s : Scope) (t : String) : Bool := s.tokens.contains t

def isSubsetOf (s other : Scope) : Bool := s.tokens.all other.tokens.contains

/-- The words in their order, with a blank between them. -/
def display (s : Scope) : String := " ".intercalate s.tokens

end Scope

/-! ## Records -/

/-- What the authorize endpoint needs of a pushed request, filed under the
hash of the `request_uri` its client was answered with. -/
structure StoredPushedRequest where
  requestUriHash : String
  clientId : String
  redirectUri : String
  scope : String
  state : String
  codeChallenge : String
  dpopJkt : Option String
  loginHint : Option String
  expiresAt : Nat
deriving DecidableEq, Repr

/-- A code by its hash: whom it is for, the client and redirect it was
asked with, and the PKCE challenge and the key that have to be met when it
is redeemed. -/
structure AuthCode where
  codeHash : String
  did : String
  clientId : String
  redirectUri : String
  scope : String
  codeChallenge : String
  dpopJkt : Option String
  expiresAt : Nat
deriving DecidableEq, Repr

/-- A refresh token by its hash. Rotation replaces the record by one with
the same session. -/
structure RefreshTokenRecord where
  tokenHash : String
  /-- Groups every token of one rotation chain. -/
  sessionId : String
  did : String
  clientId : String
  scope : String
  dpopJkt : String
  issuedAt : Nat
  expiresAt : Nat
deriving DecidableEq, Repr

/-- What became of a refresh token that was presented. One that is
presented again is told apart from one that never was, since its whole
session goes. -/
inductive ConsumeResult where
  | consumed (rec : RefreshTokenRecord)
  | reused (sessionId : String)
  | notFound
deriving DecidableEq, Repr

/-- The four tables of the OAuth store. A redeemed refresh token keeps its
row, so that it is known when it comes back. -/
structure OauthStore where
  par : Table String StoredPushedRequest
  codes : Table String AuthCode
  /-- The record and whether it is spent. -/
  refresh : Table String (RefreshTokenRecord × Bool)
  jti : Table String Nat

namespace OauthStore

def empty : OauthStore := ⟨.empty, .empty, .empty, .empty⟩

def putPushedRequest (s : OauthStore) (req : StoredPushedRequest) : OauthStore :=
  { s with par := s.par.insert req.requestUriHash req }

/-- A request is there up to the second before it expires. -/
def getPushedRequest (s : OauthStore) (hash : String) (now : Nat) :
    Option StoredPushedRequest :=
  (s.par.get hash).filter fun r => r.expiresAt > now

def deletePushedRequest (s : OauthStore) (hash : String) : OauthStore :=
  { s with par := s.par.remove hash }

def putAuthCode (s : OauthStore) (code : AuthCode) : OauthStore :=
  { s with codes := s.codes.insert code.codeHash code }

/-- The code that is there to be redeemed. -/
def liveCode (s : OauthStore) (hash : String) (now : Nat) : Option AuthCode :=
  (s.codes.get hash).filter fun c => c.expiresAt > now

/-- The code is gone whether or not it was still valid. -/
def consumeAuthCode (s : OauthStore) (hash : String) (now : Nat) :
    Option AuthCode × OauthStore :=
  ((s.codes.get hash).filter fun c => c.expiresAt > now, { s with codes := s.codes.remove hash })

def putRefreshToken (s : OauthStore) (token : RefreshTokenRecord) : OauthStore :=
  { s with refresh := s.refresh.insert token.tokenHash (token, false) }

/-- The refresh token that is there to be redeemed. -/
def liveToken (s : OauthStore) (hash : String) (now : Nat) : Option RefreshTokenRecord :=
  ((s.refresh.get hash).filter fun row => row.1.expiresAt > now && !row.2).map Prod.fst

/-- A spent record stays, so that its reuse is seen. -/
def consumeRefreshToken (s : OauthStore) (hash : String) (now : Nat) :
    ConsumeResult × OauthStore :=
  match s.refresh.get hash with
  | none => (.notFound, s)
  | some (rec, used) =>
      if rec.expiresAt ≤ now then (.notFound, s)
      else if used then (.reused rec.sessionId, s)
      else (.consumed rec, { s with refresh := s.refresh.insert hash (rec, true) })

theorem liveToken_of_consumeRefreshToken {s : OauthStore} {hash : String} {now : Nat}
    {rec : RefreshTokenRecord} (h : (s.consumeRefreshToken hash now).1 = .consumed rec) :
    s.liveToken hash now = some rec := by
  unfold consumeRefreshToken at h
  unfold liveToken
  cases hget : s.refresh.get hash with
  | none =>
      rw [hget] at h
      cases h
  | some row =>
      obtain ⟨rec', used⟩ := row
      rw [hget] at h
      dsimp only at h
      split_ifs at h with hexp hused
      obtain rfl := ConsumeResult.consumed.inj h
      simp [Option.filter, hused, Nat.lt_of_not_le hexp]

/-- All tokens of one rotation chain, spent and unspent, are gone. -/
def dropSession (s : OauthStore) (sessionId : String) : OauthStore :=
  { s with refresh := s.refresh.retain fun _ row => row.1.sessionId ≠ sessionId }

/-- The session is dropped, and how many rows that took. -/
def revokeSession (s : OauthStore) (sessionId : String) : Nat × OauthStore :=
  (s.refresh.size - (s.dropSession sessionId).refresh.size, s.dropSession sessionId)

/-- Revocation by one token takes its whole session; whether the token was known. -/
def revokeRefreshToken (s : OauthStore) (hash : String) : Bool × OauthStore :=
  match s.refresh.get hash with
  | none => (false, s)
  | some (rec, _) => (true, s.dropSession rec.sessionId)

/-- A proof's id is recorded unless it is already there; whether it was new. -/
def recordDpopJti (s : OauthStore) (jti : String) (expiresAt : Nat) : Bool × OauthStore :=
  if s.jti.contains jti then (false, s)
  else (true, { s with jti := s.jti.insert jti expiresAt })

def count (s : OauthStore) : Nat :=
  s.par.size + s.codes.size + s.refresh.size + s.jti.size

/-- Rows that expire at `now` or before are gone from all four tables. -/
def dropExpired (s : OauthStore) (now : Nat) : OauthStore where
  par := s.par.retain fun _ r => r.expiresAt > now
  codes := s.codes.retain fun _ c => c.expiresAt > now
  refresh := s.refresh.retain fun _ row => row.1.expiresAt > now
  jti := s.jti.retain fun _ e => e > now

def purgeExpired (s : OauthStore) (now : Nat) : Nat × OauthStore :=
  (s.count - (s.dropExpired now).count, s.dropExpired now)

end OauthStore

/-! ## The operations a handler issues -/

/-- The calls of the store, each one atomic. What goes on between two of
them is up to the others who use it. -/
inductive OauthOp where
  | putPushedRequest (req : StoredPushedRequest)
  | getPushedRequest (hash : String) (now : Nat)
  | deletePushedRequest (hash : String)
  | putAuthCode (code : AuthCode)
  | consumeAuthCode (hash : String) (now : Nat)
  | putRefreshToken (token : RefreshTokenRecord)
  | consumeRefreshToken (hash : String) (now : Nat)
  | revokeSession (sessionId : String)
  | revokeRefreshToken (hash : String)
  | recordDpopJti (jti : String) (expiresAt : Nat)
  | purgeExpired (now : Nat)

/-- What a call answers where the store does not fail. -/
abbrev OauthOp.Value : OauthOp → Type
  | .putPushedRequest _ => Unit
  | .getPushedRequest _ _ => Option StoredPushedRequest
  | .deletePushedRequest _ => Unit
  | .putAuthCode _ => Unit
  | .consumeAuthCode _ _ => Option AuthCode
  | .putRefreshToken _ => Unit
  | .consumeRefreshToken _ _ => ConsumeResult
  | .revokeSession _ => Nat
  | .revokeRefreshToken _ => Bool
  | .recordDpopJti _ _ => Bool
  | .purgeExpired _ => Nat

abbrev oauthSig : Sig := ⟨OauthOp, fun o => Except StorageError o.Value⟩

/-- What becomes of a store call: it goes through, or it fails and is rolled back. -/
inductive StoreOutcome where
  | done
  | fault (msg : String)

/-- A call that goes through, on the state of the store. -/
def OauthOp.apply (s : OauthStore) : (o : OauthOp) → o.Value × OauthStore
  | .putPushedRequest req => ((), s.putPushedRequest req)
  | .getPushedRequest hash now => (s.getPushedRequest hash now, s)
  | .deletePushedRequest hash => ((), s.deletePushedRequest hash)
  | .putAuthCode code => ((), s.putAuthCode code)
  | .consumeAuthCode hash now => s.consumeAuthCode hash now
  | .putRefreshToken token => ((), s.putRefreshToken token)
  | .consumeRefreshToken hash now => s.consumeRefreshToken hash now
  | .revokeSession sessionId => s.revokeSession sessionId
  | .revokeRefreshToken hash => s.revokeRefreshToken hash
  | .recordDpopJti jti expiresAt => s.recordDpopJti jti expiresAt
  | .purgeExpired now => s.purgeExpired now

/-- A call with its outcome: one that fails changes nothing. -/
def OauthOp.exec (s : OauthStore) (o : OauthOp) :
    StoreOutcome → Except StorageError o.Value × OauthStore
  | .done => (.ok (o.apply s).1, (o.apply s).2)
  | .fault msg => (.error (.backend msg), s)

def oauthMachine : Machine oauthSig OauthStore StoreOutcome where
  exec _ s o c := some (o.exec s c)

/-- A handler over the OAuth store, which may end in an `OAuthError`. -/
abbrev OauthProg := Prog oauthSig OAuthError

/-- Issue a store call from a handler; its failure is the handler's. -/
def OauthOp.call (o : OauthOp) : OauthProg o.Value :=
  .op o fun r => Prog.ofExcept OAuthError.storage r

end Stelyph
