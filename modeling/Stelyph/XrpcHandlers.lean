import Stelyph.RepoUtil
import Stelyph.XrpcAuth

/-!
# The writing and proxying handlers

`createRecord`, `putRecord`, `deleteRecord`, `applyWrites` and
`uploadBlob` (`rust-pds/src/xrpc/repo.rs`), and the router's fallback
that forwards every other method to another service
(`rust-pds/src/xrpc/appview/proxy.rs`). Each takes the DID that
`AccessAuth` yields. Bodies are the parsed inputs; the fields of an
input that no handler reads are left out.
-/

namespace Stelyph

/-! ## Inputs and answers -/

/-- A record to be created; a missing `rkey` is made up from the clock. -/
structure CreateRecordInput where
  repo : String
  collection : String
  record : Json
  rkey : Option String

/-- A record to be created or replaced under a given key. -/
structure PutRecordInput where
  repo : String
  collection : String
  rkey : String
  record : Json

/-- A record to be deleted, which need not be there. -/
structure DeleteRecordInput where
  repo : String
  collection : String
  rkey : String

/-- One write of a batch, as the input type has it. -/
inductive ApplyWritesWrite where
  | create (collection : String) (rkey : Option String) (value : Json)
  | update (collection rkey : String) (value : Json)
  | delete (collection rkey : String)

/-- Writes to one repository, in their order. -/
structure ApplyWritesInput where
  repo : String
  writes : List ApplyWritesWrite

/-- The commit a caller is told of. -/
structure CommitMeta where
  cid : String
  rev : String
deriving DecidableEq, Repr

/-- The part of a proxied request that is not in `XrpcParts`. -/
structure ProxyInput where
  query : String
  atprotoProxy : Option String
  contentType : Option String
  acceptLabelers : Option String
  body : Bytes

/-- The answers of the endpoints that need an access token, in one type,
so that a run answers with it. -/
inductive XrpcResponse where
  | createRecord (uri cid : String)
  | putRecord (uri cid : String) (commit : CommitMeta)
  | deleteRecord (commit : Option CommitMeta)
  | applyWrites (commit : Option CommitMeta) (results : List Json)
  | uploadBlob (link mimeType : String) (size : Nat)
  | relayed (status : Nat) (contentType contentLabelers : Option String) (body : Bytes)

def RepoError.display : RepoError → String
  | .storage e => s!"storage error: {e.display}"
  | .repo msg => s!"atrium repo error: {msg}"
  | .crypto msg => s!"crypto error: {msg}"

def XrpcError.ofRepo (e : RepoError) : XrpcError := .internal e.display

section

variable {L : RepoLib} (cfg : XrpcConfig L)

/-! ## Repository writes -/

/-- Nobody writes to a repository that is not theirs. -/
def ownRepo (repo did : String) : XrpcProg L Unit :=
  if repo ≠ did then .fail (.invalidRequest "repo must match the authenticated DID")
  else return ()

abbrev valid (x : Except String Unit) : XrpcProg L Unit :=
  Prog.ofExcept .invalidRequest x

/-- A key that is given is checked. -/
def validRkey (rkey : Option String) : XrpcProg L Unit :=
  match rkey with
  | some rkey => valid (validateRkey rkey)
  | none => return ()

abbrev toIpld (value : Json) : XrpcProg L L.Ipld :=
  Prog.ofExcept .internal (cfg.jsonValueToIpld value)

/-- The key of the account, and a writer that signs with it. -/
def buildWriter (did : String) : XrpcProg L (RepoWriter L) :=
  .op (.loadSigningKey did) fun r => do
    let key ← Prog.ofExcept .internal r
    Prog.ofExcept (fun e => .internal s!"invalid DID: {e}") (cfg.parseDid did)
    return ⟨did, key⟩

abbrev write (writer : RepoWriter L) (op : WriteOp L.Ipld) :
    XrpcProg L (WriteOutcome L.Cid) :=
  .op (.applyOne writer op) fun r => Prog.ofExcept .ofRepo r

def commitMeta (outcome : WriteOutcome L.Cid) : CommitMeta :=
  ⟨cfg.cidText outcome.commitCid, outcome.rev⟩

def atUri (did collection rkey : String) : String := s!"at://{did}/{collection}/{rkey}"

/-- `micros` is the clock where a key has to be made up. A create always
has a record CID. -/
def createRecord (did : String) (input : CreateRecordInput) (micros : Nat) :
    XrpcProg L XrpcResponse := do
  ownRepo input.repo did
  valid (validateCollection input.collection)
  validRkey input.rkey
  let writer ← buildWriter cfg did
  let rkey := input.rkey.getD (tidFromMicros micros)
  let ipld ← toIpld cfg input.record
  let outcome ← write writer (.create s!"{input.collection}/{rkey}" ipld)
  return .createRecord (atUri did input.collection rkey)
    ((outcome.recordCid.map cfg.cidText).getD "")

/-- The key is looked up before the lock is taken, and that decides
whether the write is an update or a creation. By the time it is carried
out this may not be so any more. -/
def putRecord (did : String) (input : PutRecordInput) : XrpcProg L XrpcResponse := do
  ownRepo input.repo did
  valid (validateCollection input.collection)
  valid (validateRkey input.rkey)
  let key := s!"{input.collection}/{input.rkey}"
  .op (.lookupRecordCid did key) fun r => do
    let found ← Prog.ofExcept id r
    let ipld ← toIpld cfg input.record
    let writer ← buildWriter cfg did
    let outcome ← write writer (if found.isSome then .update key ipld else .create key ipld)
    return .putRecord (atUri did input.collection input.rkey)
      ((outcome.recordCid.map cfg.cidText).getD "") (commitMeta cfg outcome)

/-- Deleting what is not there is no write. -/
def deleteRecord (did : String) (input : DeleteRecordInput) : XrpcProg L XrpcResponse := do
  ownRepo input.repo did
  valid (validateCollection input.collection)
  valid (validateRkey input.rkey)
  let key := s!"{input.collection}/{input.rkey}"
  .op (.lookupRecordCid did key) fun r => do
    let found ← Prog.ofExcept id r
    if found.isNone then return .deleteRecord none
    else
      let writer ← buildWriter cfg did
      let outcome ← write writer (.delete key)
      return .deleteRecord (some (commitMeta cfg outcome))

/-- The write of one entry of a batch and its result. -/
def applyWrite (did : String) (writer : RepoWriter L) (micros : Nat) :
    ApplyWritesWrite → XrpcProg L (WriteOutcome L.Cid × Json)
  | .create collection rkey value => do
      valid (validateCollection collection)
      validRkey rkey
      let rkey := rkey.getD (tidFromMicros micros)
      let ipld ← toIpld cfg value
      let outcome ← write writer (.create s!"{collection}/{rkey}" ipld)
      return (outcome, .obj [("$type", .str "com.atproto.repo.applyWrites#createResult"),
        ("uri", .str (atUri did collection rkey)),
        ("cid", (outcome.recordCid.map fun c => Json.str (cfg.cidText c)).getD .null),
        ("validationStatus", .str "unknown")])
  | .update collection rkey value => do
      valid (validateCollection collection)
      valid (validateRkey rkey)
      let ipld ← toIpld cfg value
      let outcome ← write writer (.update s!"{collection}/{rkey}" ipld)
      return (outcome, .obj [("$type", .str "com.atproto.repo.applyWrites#updateResult"),
        ("uri", .str (atUri did collection rkey)),
        ("cid", (outcome.recordCid.map fun c => Json.str (cfg.cidText c)).getD .null),
        ("validationStatus", .str "unknown")])
  | .delete collection rkey => do
      valid (validateCollection collection)
      valid (validateRkey rkey)
      let outcome ← write writer (.delete s!"{collection}/{rkey}")
      return (outcome, .obj [("$type", .str "com.atproto.repo.applyWrites#deleteResult")])

/-- One commit for each entry, up to the first that fails. -/
def applyEach (did : String) (writer : RepoWriter L) (micros : Nat → Nat) :
    List ApplyWritesWrite → Option CommitMeta → List Json → XrpcProg L XrpcResponse
  | [], last, results => return .applyWrites last results
  | w :: ws, _, results => do
      let (outcome, result) ← applyWrite cfg did writer (micros results.length) w
      applyEach did writer micros ws (some (commitMeta cfg outcome)) (results ++ [result])

/-- The writes of a batch, each a commit of its own. There is none for the empty batch. -/
def applyWrites (did : String) (input : ApplyWritesInput) (micros : Nat → Nat) :
    XrpcProg L XrpcResponse := do
  ownRepo input.repo did
  if input.writes.isEmpty then return .applyWrites none []
  else
    let writer ← buildWriter cfg did
    applyEach cfg did writer micros input.writes none []

/-- A blob under its own CID. The empty one is refused. -/
def uploadBlob (did : String) (contentType : Option String) (body : Bytes) :
    XrpcProg L XrpcResponse :=
  if body.isEmpty then .fail (.invalidRequest "empty blob")
  else
    let mimeType := contentType.getD "application/octet-stream"
    let cid := cfg.blobCid body
    .op (.putBlob did cid mimeType body.length body) fun r => do
      Prog.ofExcept .ofStorage r
      return .uploadBlob cid mimeType body.length

/-! ## The proxy -/

/-- The bound on what is passed on to another service. -/
def maxProxyBody : Nat := 1024 * 1024

/-- The method of a path, if it is one. -/
def proxyNsid (path : String) : Option String :=
  (Text.stripPrefix path "/xrpc/").filter fun nsid => !(nsid.isEmpty || nsid.toList.contains '/')

def proxyMethod (method : String) : Option ProxyMethod :=
  if method = "GET" then some .get
  else if method = "POST" then some .post
  else none

/-- The DID and the base URL to forward to. -/
def proxyTarget (nsid : String) (input : ProxyInput) : XrpcProg L (String × String) :=
  match input.atprotoProxy with
  | some target =>
      match Text.splitOnce target '#' with
      | none => .fail (.invalidRequest "atproto-proxy must be <did>#<service-fragment>")
      | some (did, fragment) =>
          .op (.resolveService did fragment) fun r => do
            let base ← Prog.ofExcept id r
            return (did, base)
  | none =>
      if Text.startsWith nsid "app.bsky." then return (cfg.appviewDid, cfg.appviewUrl)
      else .fail .methodNotImplemented

/-- A method the server does not have goes to the service that the request
names, or to the default one, with a token that the account's key has
signed for that service and that method. -/
def proxyFallback (did : String) (parts : XrpcParts) (input : ProxyInput) :
    XrpcProg L XrpcResponse :=
  match proxyNsid parts.path, proxyMethod parts.method with
  | some nsid, some method =>
      if input.body.length > maxProxyBody then .fail (.invalidRequest "request body too large")
      else do
        let (targetDid, baseUrl) ← proxyTarget cfg nsid input
        .op (.loadSigningKey did) fun r => do
          let key ← Prog.ofExcept .internal r
          .op (.mintServiceAuthJwt key did targetDid nsid) fun r => do
            let jwt ← Prog.ofExcept .internal r
            .op (.proxyRequest { method := method, baseUrl := baseUrl, nsid := nsid
                                 query := input.query, body := input.body
                                 contentType := input.contentType, jwt := jwt
                                 acceptLabelers := input.acceptLabelers }) fun r => do
              let upstream ← Prog.ofExcept id r
              return .relayed
                (if 100 ≤ upstream.status ∧ upstream.status < 1000 then upstream.status else 500)
                (upstream.contentType.filter cfg.headerValue)
                (upstream.contentLabelers.filter cfg.headerValue) upstream.body
  | _, _ => .fail .methodNotImplemented

/-! ## Requests -/

/-- The endpoints behind an access token. -/
inductive XrpcCall where
  | createRecord (input : CreateRecordInput)
  | putRecord (input : PutRecordInput)
  | deleteRecord (input : DeleteRecordInput)
  | applyWrites (input : ApplyWritesInput)
  | uploadBlob (contentType : Option String) (body : Bytes)
  | proxyFallback (input : ProxyInput)

/-- A request as the router hands it over; `micros` is the clock of the
made-up keys. -/
structure XrpcRequest where
  parts : XrpcParts
  call : XrpcCall
  micros : Nat → Nat

/-- The token comes first: nothing of the store is asked for a request that has none. -/
def XrpcRequest.handler (q : XrpcRequest) : XrpcProg L XrpcResponse := do
  let did ← accessAuth cfg q.parts
  match q.call with
  | .createRecord input => createRecord cfg did input (q.micros 0)
  | .putRecord input => putRecord cfg did input
  | .deleteRecord input => deleteRecord cfg did input
  | .applyWrites input => applyWrites cfg did input q.micros
  | .uploadBlob contentType body => uploadBlob cfg did contentType body
  | .proxyFallback input => proxyFallback cfg did q.parts input

end

end Stelyph
