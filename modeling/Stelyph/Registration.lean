import Stelyph.Accounts
import Stelyph.Lib.Pool
import Stelyph.Plc

/-!
# Account creation and login

`createAccount` and `createSession` of the PDS (`xrpc/server.rs`), each
a program that suspends at every store call and every network call. The
randomness a call draws (two keypairs, a salt, the nonces of the key
encryption) and the time it reads are fields of its request, so a call
is a function of its request and of the answers it gets.
-/

namespace Stelyph

/-- The calls `createAccount` and `createSession` make: those of the
account store, each atomic, and the two that go out to the network. -/
inductive AccountOp where
  | getAccountByHandle (handle : String)
  | countAccounts
  | consumeInvite (code usedBy : String)
  | resolveDidWeb (did : String)
  | postOperation (did : String) (op : PlcGenesisOpSigned)
  | countAndInsertAccount (did handle : String) (email : Option String) (phc : String)
  | putKeyBlob (id : String) (ciphertext : Bytes)

/-- `resolveDidWeb` answers the `id` of the resolved document, where the
document has one that is a string. -/
abbrev AccountOp.Ret : AccountOp → Type
  | .getAccountByHandle _ => Except StorageError (Option (String × String))
  | .countAccounts => Except StorageError Nat
  | .consumeInvite _ _ => Except StorageError Bool
  | .resolveDidWeb _ => Except String (Option String)
  | .postOperation _ _ => Except CoreError Unit
  | .countAndInsertAccount _ _ _ _ => Except StorageError Nat
  | .putKeyBlob _ _ => Except StorageError Unit

abbrev accountSig : Sig := ⟨AccountOp, AccountOp.Ret⟩

/-- What the environment decides about one operation. A store call that
fails has been rolled back. -/
inductive Outcome where
  | done
  | fault (msg : String)
  | document (id : Option String)

/-- A call with its outcome. A storage call that fails has done nothing;
what the network answers is up to it. -/
def AccountOp.exec (s : AccountStore) : (o : AccountOp) → Outcome → Option (o.Ret × AccountStore)
  | .resolveDidWeb _, .document id => some (.ok id, s)
  | .resolveDidWeb _, .fault msg => some (.error msg, s)
  | .resolveDidWeb _, .done => none
  | .postOperation _ _, .done => some (.ok (), s)
  | .postOperation _ _, .fault msg => some (.error (.internal msg), s)
  | .getAccountByHandle handle, .done => some (.ok (s.getAccountByHandle handle), s)
  | .getAccountByHandle _, .fault msg => some (.error (.backend msg), s)
  | .countAccounts, .done => some (.ok s.countAccounts, s)
  | .countAccounts, .fault msg => some (.error (.backend msg), s)
  | .consumeInvite code usedBy, .done =>
      some (.ok (s.consumeInvite code usedBy).1, (s.consumeInvite code usedBy).2)
  | .consumeInvite _ _, .fault msg => some (.error (.backend msg), s)
  | .countAndInsertAccount did handle email phc, .done =>
      match s.countAndInsertAccount did handle email phc with
      | .ok (n, s') => some (.ok n, s')
      | .error e => some (.error e, s)
  | .countAndInsertAccount _ _ _ _, .fault msg => some (.error (.backend msg), s)
  | .putKeyBlob id ciphertext, .done => some (.ok (), s.putKeyBlob id ciphertext)
  | .putKeyBlob _ _, .fault msg => some (.error (.backend msg), s)
  | _, .document _ => none

/-- The account store as a machine, for many calls at once. -/
def accountMachine : Machine accountSig AccountStore Outcome where
  exec _ s o c := AccountOp.exec s o c

/-! ## The server's settings and the crates it calls -/

/-- The settings of the server with the functions it gets from `argon2`,
`jsonwebtoken` and the key store. -/
structure ServerConfig (Keypair : Type) where
  hostname : String
  openRegistration : Bool
  pdsEndpoint : String
  plc : PlcCrypto Keypair
  /-- argon2id, with the salt it draws. -/
  hashPassword : (salt password : String) → Except CoreError String
  verifyPassword : (password phc : String) → Except CoreError Bool
  /-- Encryption at rest, with the nonce it draws. -/
  encryptKey : (nonce : Bytes) → (plaintext : Bytes) → Except StorageError Bytes
  encodeAccessJwt : (did : String) → (now : Nat) → Except CoreError String
  encodeRefreshJwt : (did : String) → (now : Nat) → Except CoreError String

/-- The body of `createAccount`. A missing `did` asks for a new identity. -/
structure CreateAccountInput where
  handle : String
  email : Option String
  password : Option String
  inviteCode : Option String
  did : Option String

/-- The first session of a new account, as the client is answered. -/
structure CreateAccountResponse where
  accessJwt : String
  refreshJwt : String
  handle : String
  did : String
deriving DecidableEq, Repr

/-- What one call draws from the system: keys, a salt, nonces and the time. -/
structure Entropy (Keypair : Type) where
  signing : Keypair
  rotation : Keypair
  salt : String
  signingNonce : Bytes
  rotationNonce : Bytes
  now : Nat

/-- A handler over the account store that ends in an XRPC error or an answer. -/
abbrev AccountProg := Prog accountSig XrpcError

abbrev AccountOp.call (o : AccountOp) : AccountProg o.Ret := Prog.ask (S := accountSig) o
def storage {α : Type} (x : Except StorageError α) : AccountProg α :=
  Prog.ofExcept XrpcError.ofStorage x

def core {α : Type} (x : Except CoreError α) : AccountProg α :=
  Prog.ofExcept XrpcError.ofCore x

/-! ## createAccount -/

/-- A label of a domain name: letters, digits and inner hyphens. -/
def validSegment (seg : String) : Bool :=
  !seg.isEmpty && !Text.startsWith seg "-" && !Text.endsWith seg "-"
    && seg.toList.all fun c => c.isAlphanum || c == '-'

/-- A handle has two labels at least, all of them well formed, and no more
than 253 bytes. -/
def validateHandle (handle : String) : Except XrpcError Unit :=
  if handle.isEmpty || handle.utf8ByteSize > 253 then .error .invalidHandle
  else
    let segments := Text.split handle '.'
    if segments.length < 2 then .error .invalidHandle
    else if segments.all validSegment then .ok ()
    else .error .invalidHandle

section

variable {Keypair : Type} (cfg : ServerConfig Keypair)

/-- Step 4, the gate: whether an invite was consumed for the call. -/
def inviteGate (handle : String) (inviteCode : Option String) : AccountProg Bool := do
  let preliminaryN ← storage (← AccountOp.call .countAccounts)
  if preliminaryN = 0 then return false
  else if cfg.openRegistration then return false
  else
    match inviteCode with
    | none => .fail .invalidInviteCode
    | some code =>
        let consumed ← storage (← AccountOp.call (.consumeInvite code handle))
        if consumed then return true else .fail .invalidInviteCode

/-- The genesis operation is signed and submitted, and only then is there a DID. -/
def registerDidPlc (handle : String) (rnd : Entropy Keypair) : AccountProg String := do
  let (did, signed) ← core
    (signGenesis cfg.plc handle cfg.pdsEndpoint rnd.signing rnd.rotation)
  core (← AccountOp.call (.postOperation did signed))
  return did

/-- Step 6: a `did:web` the caller brings is resolved and must name
itself; any other account gets a fresh `did:plc`. -/
def accountDid (handle : String) (did : Option String) (rnd : Entropy Keypair) :
    AccountProg String :=
  match did with
  | none => registerDidPlc cfg handle rnd
  | some d =>
      if Text.startsWith d "did:web:" then do
        let docId ← Prog.ofExcept (fun _ => .unresolvableDid) (← AccountOp.call (.resolveDidWeb d))
        if docId = some d then return d else .fail .unresolvableDid
      else registerDidPlc cfg handle rnd

/-- There has to be one, of eight bytes at least. -/
def checkPassword (password : Option String) : Except XrpcError String :=
  match password.filter fun p => !p.isEmpty with
  | none => .error (.invalidRequest "password is required")
  | some p =>
      if p.utf8ByteSize < 8 then
        .error (.invalidRequest "password must be at least 8 characters")
      else .ok p

/-- The signing key as it is kept: encrypted, under the DID. -/
def storeKey (id : String) (nonce plaintext : Bytes) : AccountProg Unit := do
  let blob ← storage (cfg.encryptKey nonce plaintext)
  storage (← AccountOp.call (.putKeyBlob id blob))

/-- The end of the call, after its row is in. -/
def finishAccount (handle did : String) (rnd : Entropy Keypair) :
    AccountProg CreateAccountResponse := do
  storeKey cfg s!"{did}#signing" rnd.signingNonce (cfg.plc.exportKey rnd.signing)
  storeKey cfg s!"{did}#rotation" rnd.rotationNonce (cfg.plc.exportKey rnd.rotation)
  let access ← core (cfg.encodeAccessJwt did rnd.now)
  let refresh ← core (cfg.encodeRefreshJwt did rnd.now)
  return { accessJwt := access, refreshJwt := refresh, handle := handle, did := did }

/-- The call from handle to session: the checks on the handle, the gate,
the identity, the password, the row, and last the key. What fails on the
way leaves what was done before it. -/
def createAccountInner (input : CreateAccountInput) (rnd : Entropy Keypair) :
    AccountProg CreateAccountResponse := do
  let handle := Text.toAsciiLowercase input.handle
  Prog.ofExcept id (validateHandle handle)
  if handle ≠ cfg.hostname ∧ ¬ Text.endsWith handle s!".{cfg.hostname}" then
    .fail .unsupportedDomain
  else
    let existing ← storage (← AccountOp.call (.getAccountByHandle handle))
    if existing.isSome then .fail .handleNotAvailable
    else
      let inviteConsumed ← inviteGate cfg handle input.inviteCode
      let did ← accountDid cfg handle input.did rnd
      let password ← Prog.ofExcept id (checkPassword input.password)
      let phc ← core (cfg.hashPassword rnd.salt password)
      let countBefore ← storage
        (← AccountOp.call (.countAndInsertAccount did handle input.email phc))
      if countBefore > 0 ∧ ¬ cfg.openRegistration ∧ ¬ inviteConsumed then
        .fail .invalidInviteCode
      else finishAccount cfg handle did rnd

/-! ## createSession -/

/-- A session as `createSession` and `refreshSession` answer it. -/
structure SessionResponse where
  accessJwt : String
  refreshJwt : String
  handle : String
  did : String
  active : Bool
deriving DecidableEq, Repr

/-- A login by handle. The handle in the answer is the one that was typed. -/
def createSession (identifier password : String) (now : Nat) : AccountProg SessionResponse := do
  let row ← storage (← AccountOp.call (.getAccountByHandle identifier))
  match row with
  | none => .fail (.invalidRequest "invalid identifier or password")
  | some (did, phc) =>
      let verified ← core (cfg.verifyPassword password phc)
      if ¬ verified then .fail (.invalidRequest "invalid identifier or password")
      else
        let access ← core (cfg.encodeAccessJwt did now)
        let refresh ← core (cfg.encodeRefreshJwt did now)
        return { accessJwt := access, refreshJwt := refresh, handle := identifier
                 did := did, active := true }

end

end Stelyph
