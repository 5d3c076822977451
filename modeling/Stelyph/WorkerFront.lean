import Stelyph.Registration
import Stelyph.Registry

/-!
# The Worker front: signup and teardown

`createAccount` and the admin `delete-account` of the front Worker
(`rust-worker/src/lib.rs`), with `provision_account` of the account
object in the middle of the first. Three parties share the work: the
registry object, one account object for each hostname, and the PLC
directory. A request is one program over their operations.

Any operation can fail before its effect or after it (`Fate`): a lost
request and a lost answer look the same to the caller. The request to
an account object and its answer are operations of their own (`reach`,
`reply`), and so are the local computations that can fail once the
genesis operation is out.

`history` records what the directory accepted and which objects were
wiped, newest first; no program reads it.
-/

namespace Stelyph

/-- What the world outside sees: an identity with its handle, and an
object that was erased. -/
inductive PublicEvent where
  | published (did : String) (op : PlcGenesisOpSigned)
  | deleted (host : String)
deriving DecidableEq

/-- What signup and teardown work on: the registry, the accounts of every
object, and what has become public. -/
structure FrontStore where
  registry : Registry
  objects : String → AccountStore
  history : List PublicEvent

/-- A genesis operation naming `handle` was accepted, and no
delete-account ran on its object since. -/
def liveIn (handle : String) : List PublicEvent → Bool
  | [] => false
  | .published _ op :: h => op.alsoKnownAs.contains s!"at://{handle}" || liveIn handle h
  | .deleted host :: h => host != handle && liveIn handle h

def FrontStore.setObject (s : FrontStore) (host : String) (a : AccountStore) : FrontStore :=
  { s with objects := fun h => if h = host then a else s.objects h }

def FrontStore.record (s : FrontStore) (e : PublicEvent) : FrontStore :=
  { s with history := e :: s.history }

/-- `delete_account_data`: the account's row and its two keys. -/
def AccountStore.deleteAccountData (a : AccountStore) (did : String) : AccountStore :=
  { a with
    accounts := a.accounts.filter fun r => r.did != did
    keys := a.keys.filter fun k => k.1 != s!"{did}#signing" && k.1 != s!"{did}#rotation" }

/-- `delete_account` of the object: the DID it erased, if it held an account. -/
def AccountStore.deleteAccount (a : AccountStore) : Option String × AccountStore :=
  match a.accounts.head? with
  | none => (none, a)
  | some r => (some r.did, a.deleteAccountData r.did)

inductive ProvisionOutcome where
  | created (did accessJwt refreshJwt : String)
  | rejected (error message : String)
deriving DecidableEq, Repr

/-! ## Operations -/

inductive FrontOp where
  | claim (label : String) (inviteCode : Option String) (isOpen : Bool)
  | reach (host : String)
  | countAccounts (host : String)
  | postOperation (did : String) (op : PlcGenesisOpSigned)
  | hashPassword (salt password : String)
  | countAndInsertAccount (host did handle : String) (email : Option String) (phc : String)
  | storeKey (host id : String) (nonce plaintext : Bytes)
  | encodeAccessJwt (did : String) (now : Nat)
  | encodeRefreshJwt (did : String) (now : Nat)
  | reply (outcome : ProvisionOutcome)
  | release (label : String)
  | bind (label did : String)
  | wipe (host : String)
  | forceRelease (label : String)

namespace FrontOp

/-- A failed fetch, a failed store call, or a failed library call. -/
abbrev Err : FrontOp → Type
  | .countAccounts _ | .countAndInsertAccount _ _ _ _ _ | .storeKey _ _ _ _ => StorageError
  | .postOperation _ _ | .hashPassword _ _ | .encodeAccessJwt _ _ | .encodeRefreshJwt _ _ =>
      CoreError
  | _ => String

abbrev Val : FrontOp → Type
  | .claim _ _ _ => ClaimAnswer
  | .countAccounts _ | .countAndInsertAccount _ _ _ _ _ => Nat
  | .hashPassword _ _ | .encodeAccessJwt _ _ | .encodeRefreshJwt _ _ => String
  | .wipe _ => Option String
  | _ => Unit

abbrev Ret (o : FrontOp) : Type := Except o.Err o.Val

def err (msg : String) : (o : FrontOp) → o.Err
  | .countAccounts _ | .countAndInsertAccount _ _ _ _ _ | .storeKey _ _ _ _ => .backend msg
  | .postOperation _ _ | .hashPassword _ _ | .encodeAccessJwt _ _ | .encodeRefreshJwt _ _ =>
      .internal msg
  | .claim _ _ _ | .reach _ | .reply _ | .release _ | .bind _ _ | .wipe _ | .forceRelease _ => msg

end FrontOp

abbrev frontSig : Sig := ⟨FrontOp, FrontOp.Ret⟩

/-- Hashing, encryption, tokens and signing, which are other crates' work.
What is relied on of them is named where it is used. -/
structure FrontLib (Keypair : Type) where
  plc : PlcCrypto Keypair
  hashPassword : (salt password : String) → String
  encryptKey : (nonce plaintext : Bytes) → Bytes
  encodeAccessJwt : (did : String) → (now : Nat) → String
  encodeRefreshJwt : (did : String) → (now : Nat) → String

/-- What the environment decides about one operation: it is done, or lost
before its effect, or done with its answer lost. The last is what makes a
retry dangerous. -/
inductive Fate where
  | done
  | failsBefore (msg : String)
  | failsAfter (msg : String)
deriving DecidableEq

def Fate.isDone : Fate → Bool
  | .done => true
  | _ => false

def Fate.isAfter : Fate → Bool
  | .failsAfter _ => true
  | _ => false

section

variable {Keypair : Type} (lib : FrontLib Keypair)

/-- The operation when nothing fails. -/
def FrontOp.effect (s : FrontStore) : (o : FrontOp) → o.Ret × FrontStore
  | .claim label code isOpen =>
      let (answer, registry) := s.registry.claim label code isOpen
      (.ok answer, { s with registry := registry })
  | .reach _ => (.ok (), s)
  | .countAccounts host => (.ok (s.objects host).countAccounts, s)
  | .postOperation did op => (.ok (), s.record (.published did op))
  | .hashPassword salt password => (.ok (lib.hashPassword salt password), s)
  | .countAndInsertAccount host did handle email phc =>
      match (s.objects host).countAndInsertAccount did handle email phc with
      | .ok (n, a) => (.ok n, s.setObject host a)
      | .error e => (.error e, s)
  | .storeKey host id nonce plaintext =>
      (.ok (), s.setObject host ((s.objects host).putKeyBlob id (lib.encryptKey nonce plaintext)))
  | .encodeAccessJwt did now => (.ok (lib.encodeAccessJwt did now), s)
  | .encodeRefreshJwt did now => (.ok (lib.encodeRefreshJwt did now), s)
  | .reply _ => (.ok (), s)
  | .release label => (.ok (), { s with registry := s.registry.release label })
  | .bind label did => (.ok (), { s with registry := s.registry.bind label did })
  | .wipe host =>
      let (did, a) := (s.objects host).deleteAccount
      (.ok did, (s.setObject host a).record (.deleted host))
  | .forceRelease label => (.ok (), { s with registry := s.registry.forceRelease label })

/-- A step on the way of a signup. One that fails may have had its effect. -/
def FrontOp.exec (s : FrontStore) (o : FrontOp) : Fate → o.Ret × FrontStore
  | .done => o.effect lib s
  | .failsBefore msg => (.error (o.err msg), s)
  | .failsAfter msg => (.error (o.err msg), (o.effect lib s).2)

/-- All signups and deletions over one store. -/
def frontMachine : Machine frontSig FrontStore Fate where
  exec _ s o c := some (FrontOp.exec lib s o c)

end

/-! ## The account object -/

abbrev FrontProg := Prog frontSig String

abbrev FrontOp.call (o : FrontOp) (f : o.Err → String) : FrontProg o.Val :=
  .op o fun r => Prog.ofExcept f r

def upstreamFailure (e : CoreError) : ProvisionOutcome :=
  .rejected "UpstreamFailure" s!"Could not register your identity: {e.display}"

section

variable {Keypair : Type} (lib : FrontLib Keypair)

/-- `provision_account` after the genesis operation has been answered. -/
def finishProvision (host handle : String) (email : Option String) (password did : String)
    (rnd : Entropy Keypair) : FrontProg ProvisionOutcome := do
  let phc ← FrontOp.call (.hashPassword rnd.salt password) fun e => s!"hash password: {e.display}"
  let _ ← FrontOp.call (.countAndInsertAccount host did handle email phc)
    fun e => s!"insert account: {e.display}"
  FrontOp.call (.storeKey host s!"{did}#signing" rnd.signingNonce
    (lib.plc.exportKey rnd.signing)) fun e => s!"store signing key: {e.display}"
  FrontOp.call (.storeKey host s!"{did}#rotation" rnd.rotationNonce
    (lib.plc.exportKey rnd.rotation)) fun e => s!"store rotation key: {e.display}"
  let access ← FrontOp.call (.encodeAccessJwt did rnd.now) fun e => s!"access jwt: {e.display}"
  let refresh ← FrontOp.call (.encodeRefreshJwt did rnd.now)
    fun e => s!"refresh jwt: {e.display}"
  return .created did access refresh

/-- `register_did_plc` is inlined. The identity names the shared service:
`issuer` is built from the zone (`Ctx::from_host`), not from the account's
own hostname. -/
def provisionAccount (issuer host handle : String) (email : Option String) (password : String)
    (rnd : Entropy Keypair) : FrontProg ProvisionOutcome :=
  if password.utf8ByteSize < 8 then
    return .rejected "InvalidRequest" "Password must be at least 8 characters."
  else do
    let existing ← FrontOp.call (.countAccounts host) fun e => s!"count accounts: {e.display}"
    if existing > 0 then
      return .rejected "HandleNotAvailable" "That handle already has an account."
    else
      match signGenesis lib.plc handle issuer rnd.signing rnd.rotation with
      | .error e => return upstreamFailure e
      | .ok (did, signed) =>
          .op (.postOperation did signed) fun
            | .error e => return upstreamFailure e
            | .ok () => finishProvision lib host handle email password did rnd

/-- `call_pds_do` with `/_stelyph/provision`. -/
def callProvision (zone host : String) (email : Option String) (password : String)
    (rnd : Entropy Keypair) : FrontProg ProvisionOutcome := do
  FrontOp.call (.reach host) id
  let outcome ← provisionAccount lib s!"https://{zone}" host host email password rnd
  FrontOp.call (.reply outcome) id
  return outcome

end

/-! ## The front -/

/-- The zone whose handles are given out, and how. -/
structure FrontConfig where
  zone : String
  openRegistration : Bool
  adminToken : Option String

/-- The body of a signup. -/
structure SignupInput where
  handle : String
  email : Option String
  password : Option String
  inviteCode : Option String

/-- An error with its status and text, a session, or a deletion that was carried out. -/
inductive FrontResponse where
  | error (status : Nat) (code message : String)
  | account (r : CreateAccountResponse)
  | deleted (ok : Bool) (handle did : String)
deriving DecidableEq, Repr

/-- Labels that no account gets. -/
def reservedLabels : List String :=
  ["www", "api", "admin", "pds", "signup", "registry", "plc", "oauth", "xrpc", "mail", "ns1",
    "ns2"]

/-- A label as a host name has it, and not a reserved one. -/
def validateLabel (label : String) : Except String Unit :=
  if label.isEmpty then .error "Pick a handle."
  else if label.utf8ByteSize > 63 then .error "That's too long — 63 characters at most."
  else if Text.startsWith label "-" || Text.endsWith label "-" then
    .error "Can't start or end with a hyphen."
  else if !label.toList.all fun c => c.isAlphanum || c == '-' then
    .error "Letters, numbers and hyphens only."
  else if reservedLabels.contains label then .error "That name is reserved."
  else .ok ()

/-- Equality that looks at all bytes of texts of one length. -/
def Front.constantTimeEq (a b : Bytes) : Bool :=
  if a.length ≠ b.length then false
  else (a.zip b).foldl (fun acc xy => acc ||| (xy.1 ^^^ xy.2)) 0 == 0

/-- What a caller is told whose claim was refused. -/
def ClaimAnswer.refusal : ClaimAnswer → FrontResponse
  | .handleNotAvailable => .error 400 "HandleNotAvailable" "That one's taken. Try another."
  | .invalidInviteCode => .error 400 "InvalidInviteCode" "That invite code isn't valid."
  | .ok => .error 400 "InvalidRequest" "Could not reserve that handle."

/-- What the client is told when provisioning did not end in an account. -/
def provisionRefusal : Except String ProvisionOutcome → FrontResponse
  | .ok (.rejected error message) => .error 400 error message
  | _ => .error 400 "InternalError" "Could not create the account."

section

variable {Keypair : Type} (lib : FrontLib Keypair) (cfg : FrontConfig)

/-- Steps 2 and 3, with the label reserved. -/
def provisionAndBind (label handle : String) (email : Option String) (password : String)
    (rnd : Entropy Keypair) : FrontProg FrontResponse := do
  match ← (callProvision lib cfg.zone handle email password rnd).attempt with
  | .ok (.created did accessJwt refreshJwt) =>
      .op (.bind label did) fun _ =>
        return .account { accessJwt, refreshJwt, handle, did }
  | other => .op (.release label) fun _ => return provisionRefusal other

/-- The signup: handle, label and password are looked at, the label is
claimed, and the object behind it provisioned. `none` is a body that does
not parse. -/
def Front.createAccount (body : Option SignupInput) (rnd : Entropy Keypair) :
    FrontProg FrontResponse :=
  match body with
  | none => return .error 400 "InvalidRequest" "Malformed request body."
  | some input =>
      let handle := Text.toAsciiLowercase (Text.trim input.handle)
      let suffix := s!".{cfg.zone}"
      match Text.stripSuffix handle suffix with
      | none => return .error 400 "UnsupportedDomain" s!"Handles here end in {suffix}"
      | some label =>
          match validateLabel label with
          | .error msg => return .error 400 "InvalidHandle" msg
          | .ok () =>
              let password := input.password.getD ""
              if password.utf8ByteSize < 8 then
                return .error 400 "InvalidRequest" "Password must be at least 8 characters."
              else do
                match ← FrontOp.call (.claim label input.inviteCode cfg.openRegistration) id with
                | .ok => provisionAndBind lib cfg label handle input.email password rnd
                | answer => return answer.refusal

/-- A deletion by the operator: the object is wiped, and its label is free again. -/
def Front.deleteAccount (presented : String) (body : Option String) : FrontProg FrontResponse :=
  match cfg.adminToken with
  | none => return .error 503 "NotConfigured" "Admin actions are not configured."
  | some expected =>
      if !Front.constantTimeEq (Text.bytes presented) (Text.bytes expected) then
        return .error 401 "Unauthorized" "Not authorized."
      else
        match body with
        | none => return .error 400 "InvalidRequest" "Expected \x7b\"handle\"\x7d."
        | some given =>
            let handle := Text.toAsciiLowercase (Text.trim given)
            let suffix := s!".{cfg.zone}"
            match Text.stripSuffix handle suffix with
            | none => return .error 400 "UnsupportedDomain" s!"Handles end in {suffix}"
            | some label => do
                let wiped ← FrontOp.call (.wipe handle) id
                .op (.forceRelease label) fun _ =>
                  return .deleted wiped.isSome handle (wiped.getD "")

/-- A signup, or a deletion by the operator. The two may overlap. -/
inductive FrontRequest (Keypair : Type) where
  | createAccount (body : Option SignupInput) (rnd : Entropy Keypair)
  | deleteAccount (presented : String) (body : Option String)

/-- The handler of either. -/
def frontHandle : FrontRequest Keypair → FrontProg FrontResponse
  | .createAccount body rnd => Front.createAccount lib cfg body rnd
  | .deleteAccount presented body => Front.deleteAccount cfg presented body

end

end Stelyph
