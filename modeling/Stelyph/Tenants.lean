import Stelyph.HandleHeld
import Stelyph.Lib.Base64url
import Stelyph.OauthStore
import Stelyph.SigninSecrecy
import Stelyph.WorkerObject

/-!
# All the objects of a deployment

The Worker deployment with every table of every account object
(`rust-worker/src/schema.rs`), the registry and the bucket with the blobs.
The requests are those that write a table: signup and teardown at the
front, and behind `dispatch` the preferences, the blobs, the record
writes and the sign-in.

`dispatch` picks the object by the Host, or on the shared host by a claim
of the token it does not verify. The object verifies the token and acts
for its subject. A handler is one step where nothing in it suspends; the
bytes of a blob are stored before its row, and in between others run.

No route reaches the OAuth store of an object, so its tables have no
writer here. `wroteFor` records for which account a block was inserted;
no program reads it.
-/

namespace Stelyph

namespace Worker

/-- A row of `blob_refs`, without its key. -/
structure BlobRow where
  mimeType : String
  size : Nat
deriving DecidableEq, Repr

/-- All that one object stores for its account. -/
structure ObjectTables (L : RepoLib) where
  /-- `accounts` and `keys`. -/
  accounts : AccountStore
  repo : RepoStore L
  preferences : Table String String
  /-- By DID and CID. -/
  blobRefs : Table (String × String) BlobRow
  deviceKeys : Table String String
  signins : Table String SigninRow
  oauth : OauthStore
  wroteFor : List (String × L.Cid)

/-- The whole of the Worker's storage: the registry, an object for each
hostname, and the one bucket that their blobs share. -/
structure Deployment (L : RepoLib) where
  registry : Registry
  objects : String → ObjectTables L
  bucket : Table String Bytes
  history : List PublicEvent

section

variable {L : RepoLib}

/-- An object that was never used. -/
def ObjectTables.empty (L : RepoLib) : ObjectTables L where
  accounts := ⟨[], [], [], []⟩
  repo := RepoStore.empty L
  preferences := .empty
  blobRefs := .empty
  deviceKeys := .empty
  signins := .empty
  oauth := .empty
  wroteFor := []

/-- `delete_account_data`, table by table. -/
def ObjectTables.deleteAccountData (t : ObjectTables L) (did : String) : ObjectTables L :=
  { t with
    accounts := t.accounts.deleteAccountData did
    preferences := t.preferences.remove did
    repo := { t.repo with
      roots := t.repo.roots.remove did
      rows := t.repo.rows.filter fun r => r.did != did }
    blobRefs := t.blobRefs.retain fun k _ => k.1 ≠ did
    deviceKeys := .empty
    signins := .empty }

/-- `delete_account`: the DID it erased, if the object held an account. -/
def ObjectTables.deleteAccount (t : ObjectTables L) : Option String × ObjectTables L :=
  match t.accounts.accounts.head? with
  | none => (none, t)
  | some a => (some a.did, t.deleteAccountData a.did)

/-- The object holds the account of the DID. -/
def ObjectTables.holds (t : ObjectTables L) (did : String) : Bool :=
  t.accounts.accounts.any fun a => a.did == did

namespace Deployment

/-- A deployment whose objects are all as new. -/
def empty (L : RepoLib) (registry : Registry) : Deployment L :=
  ⟨registry, fun _ => ObjectTables.empty L, .empty, []⟩

/-- The object of one hostname is changed, and no other. -/
def setObject (D : Deployment L) (host : String) (t : ObjectTables L) : Deployment L :=
  { D with objects := fun h => if h = host then t else D.objects h }

/-- What signup and teardown see of the deployment: the registry, the
accounts of each object, and what has become public. -/
def front (D : Deployment L) : FrontStore :=
  ⟨D.registry, fun host => (D.objects host).accounts, D.history⟩

/-- What a front operation does to the registry, to the account tables and
to the public record. -/
def setFront (D : Deployment L) (s : FrontStore) : Deployment L :=
  { D with
    registry := s.registry
    objects := fun host => { D.objects host with accounts := s.objects host }
    history := s.history }

/-- `delete_account_data` in the object of a hostname, and the deletion is public. -/
def wipe (D : Deployment L) (host : String) : Deployment L :=
  { D.setObject host (D.objects host).deleteAccount.2 with
    history := .deleted host :: D.history }

end Deployment

end

/-- `SELECT label FROM claims WHERE did = ? AND state = 'active'`. -/
def resolveDid (g : Registry) (did : String) : Option String :=
  (g.claims.rows.find? fun r => r.2.did == some did && r.2.state = .active).map Prod.fst

/-! ## Operations -/

/-- The steps that handlers wait for: registry and account calls, the
storage calls of the endpoints, and a record write or a sign-in call as a
whole, since an object runs those in one turn. -/
inductive TenantOp (L : RepoLib) where
  | front (o : FrontOp)
  | resolveDid (did : String)
  | upsertPreferences (host did prefs : String)
  | putObject (key : String) (bytes : Bytes)
  | insertBlobRef (host did cid : String) (row : BlobRow)
  /-- A whole record write; `fates` says how its store calls come out. -/
  | write (host : String) (bearer : Option String) (body : Option Json) (call : WriteCall)
      (fates : List WriterFate)
  | signin (host : String) (request : SigninRequest) (rnd : SigninDraw)

/-- What a step comes back with. -/
abbrev TenantOp.Ret {L : RepoLib} : TenantOp L → Type
  | .front o => o.Ret
  | .resolveDid _ => Except String (Option String)
  | .upsertPreferences _ _ _ | .putObject _ _ | .insertBlobRef _ _ _ _ => Except String Unit
  | .write _ _ _ _ _ => Except RepoFailure (WriteReply × Option (Commit L))
  | .signin _ _ _ => SigninAnswer

abbrev tenantSig (L : RepoLib) : Sig := ⟨TenantOp L, TenantOp.Ret⟩

abbrev TenantProg (L : RepoLib) := Prog (tenantSig L) String

/-- What a failed step comes back with. -/
def TenantOp.err {L : RepoLib} (msg : String) : (o : TenantOp L) → o.Ret
  | .front o => .error (o.err msg)
  | .resolveDid _ => .error msg
  | .upsertPreferences _ _ _ => .error msg
  | .putObject _ _ => .error msg
  | .insertBlobRef _ _ _ _ => .error msg
  | .write _ _ _ _ _ => .error (.thrown msg)
  | .signin _ _ _ => .fault msg

/-- The code that is not in the repository: JSON, CIDs, key import and the tree. -/
structure TenantConfig (L : RepoLib) extends RepoConfig L where
  front : FrontConfig
  /-- `serde_json::from_slice`. -/
  fromSlice : Bytes → Option Json
  jsonText : Json → String
  /-- CIDv1, raw codec, SHA-256. -/
  blobCid : Bytes → String
  /-- Decrypt and import a key. -/
  importKey : Bytes → Except String L.Key
  treeGet : TreeGet L
  decodeRecord : L.Block → Except String Json

section

variable {L : RepoLib} {Keypair : Type} (lib : FrontLib Keypair) (cfg : TenantConfig L)

/-- The subject in the payload of a token. Nothing is verified: it is only
good for finding the object, which verifies the token itself. -/
def jwtSub (token : String) : Option String := do
  let payload ← (Text.split token '.')[1]?
  let bytes ← Base64url.decode payload
  let claims ← cfg.fromSlice bytes
  (claims.get "sub").bind Json.asStr

/-- The subject of a token that verifies. -/
def actingDid (bearer : Option String) : Option String :=
  (bearer.bind fun t => (cfg.decodeJwt t).toOption).map fun claims => claims.sub

/-- `load_key` of `{did}#signing`. -/
def signingKey (keys : List (String × Bytes)) (did : String) : Except String L.Key :=
  match keys.find? fun k => k.1 == s!"{did}#signing" with
  | none => .error "load signing key: crypto error: key not found"
  | some (_, ciphertext) => cfg.importKey ciphertext

/-- A record write in one turn of its object, with the blocks that it
inserted noted under the DID it acted for. -/
def ObjectTables.write (t : ObjectTables L) (bearer : Option String) (body : Option Json)
    (call : WriteCall) (fates : List WriterFate) :
    Option (Except RepoFailure (WriteReply × Option (Commit L)) × ObjectTables L) :=
  ((serve cfg.toRepoConfig bearer body call).against
    (RecordOp.exec (env cfg.toRepoConfig (signingKey cfg t.accounts.keys) cfg.treeGet
      cfg.decodeRecord) 0) { t.repo with locks := .empty } fates).map fun r =>
    let inserted := r.2.blocks.rows.filter fun b => !t.repo.blocks.contains b.1
    (r.1, { t with
      repo := r.2
      wroteFor := t.wroteFor ++
        (actingDid cfg bearer).toList.flatMap fun did => inserted.map fun b => (did, b.1) })

/-- A sign-in call in one turn of its object. -/
def ObjectTables.signin (slib : SigninLib) (t : ObjectTables L) (request : SigninRequest)
    (rnd : SigninDraw) : SigninAnswer × ObjectTables L :=
  let (answer, s) := signinHandle slib ⟨t.accounts.accounts, t.deviceKeys, t.signins⟩ rnd request
  (answer, { t with deviceKeys := s.deviceKeys, signins := s.signins })

variable (slib : SigninLib)

/-- The operation when nothing fails. -/
def TenantOp.effect (D : Deployment L) : (o : TenantOp L) → Option (o.Ret × Deployment L)
  | .front (.wipe host) => some (.ok (D.objects host).deleteAccount.1, D.wipe host)
  | .front o => some ((o.effect lib D.front).1, D.setFront (o.effect lib D.front).2)
  | .resolveDid did => some (.ok (Worker.resolveDid D.registry did), D)
  | .upsertPreferences host did prefs =>
      some (.ok (), D.setObject host { D.objects host with
        preferences := (D.objects host).preferences.insert did prefs })
  | .putObject key bytes => some (.ok (), { D with bucket := D.bucket.insert key bytes })
  | .insertBlobRef host did cid row =>
      some (.ok (), D.setObject host { D.objects host with
        blobRefs := (D.objects host).blobRefs.insert (did, cid) row })
  | .write host bearer body call fates =>
      ((D.objects host).write cfg bearer body call fates).map fun r => (r.1, D.setObject host r.2)
  | .signin host request rnd =>
      some (((D.objects host).signin slib request rnd).1,
        D.setObject host ((D.objects host).signin slib request rnd).2)

/-- A step that goes through, or fails before it had an effect, or after. -/
def TenantOp.exec (D : Deployment L) (o : TenantOp L) : Fate → Option (o.Ret × Deployment L)
  | .done => o.effect lib cfg slib D
  | .failsBefore msg => some (o.err msg, D)
  | .failsAfter msg => (o.effect lib cfg slib D).map fun r => (o.err msg, r.2)

/-- The deployment as one machine. -/
def tenantMachine : Machine (tenantSig L) (Deployment L) Fate where
  exec _ D o c := TenantOp.exec lib cfg slib D o c

end

/-! ## Handlers -/

/-- The bound on an upload, two mebibytes. -/
def maxBlobBytes : Nat := 2 * 1024 * 1024

/-- What a request is answered with. -/
inductive TenantReply (L : RepoLib) where
  | front (r : FrontResponse)
  | plain (status : Nat) (message : String)
  | error (status : Nat) (error message : String)
  | stored
  | blob (cid mimeType : String) (size : Nat)
  | wrote (r : Except RepoFailure (WriteReply × Option (Commit L)))
  | signin (answer : SigninAnswer)

section

variable {L : RepoLib} {Keypair : Type} (lib : FrontLib Keypair) (cfg : TenantConfig L)

def invalidToken : TenantReply L := .error 401 "AuthenticationRequired" "Invalid token."

/-- `body` is `none` where it is not JSON. -/
def putPreferences (host : String) (bearer : Option String) (body : Option Json) :
    TenantProg L (TenantReply L) :=
  match actingDid cfg bearer with
  | none => return invalidToken
  | some did =>
      let prefs := (body.bind fun v => v.get "preferences").getD (.arr [])
      .op (.upsertPreferences host did (cfg.jsonText prefs)) fun
        | .error e => .fail s!"put prefs: {e}"
        | .ok () => return .stored

/-- `store_blob` is inlined. -/
def uploadBlob (host : String) (bearer : Option String) (mimeType : String) (bytes : Bytes) :
    TenantProg L (TenantReply L) :=
  match actingDid cfg bearer with
  | none => return invalidToken
  | some did =>
      if bytes.isEmpty then return .error 400 "InvalidRequest" "Blob is empty."
      else if bytes.length > maxBlobBytes then
        return .error 413 "InvalidRequest"
          s!"blob is {bytes.length} bytes, over the {maxBlobBytes} limit"
      else
        let cid := cfg.blobCid bytes
        .op (.putObject s!"{did}/{cid}" bytes) fun
          | .error e => .fail s!"store blob: pool error: r2 put: {e}"
          | .ok () => .op (.insertBlobRef host did cid ⟨mimeType, bytes.length⟩) fun
              | .error e => .fail s!"store blob: {e}"
              | .ok () => return .blob cid mimeType bytes.length

/-- What is sent to an account's object. -/
inductive TenantCall where
  | putPreferences (body : Option Json)
  | uploadBlob (contentType : Option String) (bytes : Bytes)
  | write (body : Option Json) (call : WriteCall) (fates : List WriterFate)
  | signin (request : SigninRequest) (rnd : SigninDraw)

/-- On the shared host the token says which object is meant. -/
def TenantCall.byToken : TenantCall → Bool
  | .signin _ _ => false
  | _ => true

/-- `session_target`, for the subject of a token. -/
def sessionTarget (identifier : String) : TenantProg L (Option String) :=
  let id := Text.toAsciiLowercase identifier
  if Text.startsWith id "did:" then
    .op (.resolveDid id) fun
      | .ok (some label) => return some s!"{label}.{cfg.front.zone}"
      | _ => return none
  else if Text.endsWith id s!".{cfg.front.zone}" then return some id
  else return some s!"{id}.{cfg.front.zone}"

/-- The object of a request: that of its host, except that calls to the
zone itself which are routed by token go to the object of the token's
subject, where there is one. -/
def targetHost (host : String) (bearer : Option String) (call : TenantCall) :
    TenantProg L String :=
  if host = cfg.front.zone ∧ call.byToken then
    match bearer.bind (jwtSub cfg) with
    | none => return host
    | some did => do
        let found ← sessionTarget cfg did
        return found.getD host
  else return host

/-- The handler in the object. -/
def tenantRoute (host : String) (bearer : Option String) : TenantCall → TenantProg L (TenantReply L)
  | .putPreferences body => putPreferences cfg host bearer body
  | .uploadBlob contentType bytes =>
      uploadBlob cfg host bearer (contentType.getD "application/octet-stream") bytes
  | .write body call fates =>
      .op (.write host bearer body call fates) fun r => return .wrote r
  | .signin request rnd => .op (.signin host request rnd) fun answer => return .signin answer

/-- The body of an upload is read with its limit before it is routed. -/
def dispatch (hostHeader : String) (bearer : Option String) (call : TenantCall) :
    TenantProg L (TenantReply L) :=
  let host := Text.toAsciiLowercase (Text.upTo hostHeader ':')
  if host.isEmpty then return .plain 400 "missing Host header"
  else
    match call with
    | .uploadBlob contentType bytes =>
        if bytes.length > maxBlobBytes then .fail "request body too large"
        else do
          let target ← targetHost cfg host bearer call
          tenantRoute cfg target bearer (.uploadBlob contentType bytes)
    -- This route is under `/_stelyph/`, and no path that begins so is forwarded.
    -- A path that only leads there once it is parsed is (`LeadsInside`).
    | .signin .deleteAccount _ => return .error 404 "NotFound" "Not found."
    | call => do
        let target ← targetHost cfg host bearer call
        tenantRoute cfg target bearer call

/-- A signup or a deletion through the front, or a call to an account's object. -/
inductive TenantRequest (Keypair : Type) where
  | front (q : FrontRequest Keypair)
  | account (hostHeader : String) (bearer : Option String) (call : TenantCall)

/-- Signup and teardown, with their operations among all the others. -/
def frontRequest (q : FrontRequest Keypair) : TenantProg L (TenantReply L) :=
  ((frontHandle lib cfg.front q).hoist (T := tenantSig L) TenantOp.front (fun _ r => r) id).bind
    fun r => return .front r

/-- The Worker's handler for either. -/
def tenantHandle : TenantRequest Keypair → TenantProg L (TenantReply L)
  | .front q => frontRequest lib cfg q
  | .account hostHeader bearer call => dispatch cfg hostHeader bearer call

/-- The deployment with the requests under way, of all hosts. -/
abbrev TenantPool (L : RepoLib) (Keypair : Type) :=
  Pool (tenantSig L) (TenantRequest Keypair) String (TenantReply L) (Deployment L)

/-- A request begins or one step of a request is carried out. -/
def tenantStep (slib : SigninLib) (P : TenantPool L Keypair) :
    PoolAct (TenantRequest Keypair) Fate → Option (TenantPool L Keypair) :=
  Pool.next (tenantMachine lib cfg slib) (tenantHandle lib cfg) P

end

/-! ## A small deployment -/

/-- The subject of a sample token. -/
def sampleSub (token : String) : Option String :=
  (Text.stripPrefix token "access:").bind fun s => Text.stripSuffix s ":0"

def sampleTenants : TenantConfig sampleRepo where
  decodeJwt t := match sampleSub t with
    | some did => .ok ⟨did, "com.atproto.access"⟩
    | none => .error .invalidToken
  parseDid _ := .ok ()
  jsonValueToIpld _ := .ok (7 : Nat)
  cidText _ := "cid"
  front := sampleFront
  fromSlice _ := none
  jsonText _ := "[]"
  blobCid _ := "bafkrei"
  importKey _ := .ok ()
  treeGet := sampleTreeGet
  decodeRecord _ := .ok .null

def sampleDeployment : TenantPool sampleRepo Nat :=
  Pool.init (Deployment.empty sampleRepo ⟨.empty, .empty⟩)

/-- The directory of the sample names an identity after its handle. -/
def sampleDid (name : String) : String := s!"did:plc:at://{name}.pds.test"

/-- A signup to its end, as the request with number `i`. -/
def signUp (name : String) (n i : Nat) : List (PoolAct (TenantRequest Nat) Fate) :=
  .start (.front (sampleSignup name n)) :: List.replicate 12 (.step i .done)

end Worker

end Stelyph
