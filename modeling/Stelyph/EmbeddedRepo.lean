import Stelyph.XrpcHandlers

/-!
# The record handlers of the embedded server

`createRecord`, `putRecord`, `deleteRecord` and `applyWrites` of
`rust-core/src/server/repo.rs`. They read the fields of the request body
themselves, so the order of the checks and their texts differ from the
axum server's; the calls behind them are the same. A body here is one
that parsed, and the DID is that of the access token.
-/

namespace Stelyph

namespace Embedded

section

variable {L : RepoLib} (cfg : XrpcConfig L)

/-- A field that has to be there. -/
def required (value : Option String) (text : String) : XrpcProg L String :=
  match value with
  | some s => return s
  | none => .fail (.invalidRequest text)

def ownRepo (body : Json) (did : String) : XrpcProg L Unit :=
  if (body.field "repo").asStr ≠ some did then
    .fail (.invalidRequest "repo must match the authenticated DID")
  else return ()

/-- The given key, checked, or one made of the clock. -/
def rkeyOrTid (rkey : Option String) (micros : Nat) : XrpcProg L String := do
  match rkey with
  | some rkey =>
      valid (validateRkey rkey)
      return rkey
  | none => return tidFromMicros micros

abbrev toIpld (value : Json) : XrpcProg L L.Ipld :=
  Prog.ofExcept (fun _ => .internal "record encode failed") (cfg.jsonValueToIpld value)

def recordOf (body : Json) : XrpcProg L L.Ipld :=
  if (body.field "record").isNull then .fail (.invalidRequest "record is required")
  else toIpld cfg (body.field "record")

def buildWriter (did : String) : XrpcProg L (RepoWriter L) :=
  .op (.loadSigningKey did) fun r => do
    let key ← Prog.ofExcept .internal r
    Prog.ofExcept (fun _ => .internal "invalid DID") (cfg.parseDid did)
    return ⟨did, key⟩

abbrev write (writer : RepoWriter L) (op : WriteOp L.Ipld) :
    XrpcProg L (WriteOutcome L.Cid) :=
  .op (.applyOne writer op) fun r => Prog.ofExcept (fun _ => .internal "write failed") r

def createRecord (did : String) (body : Json) (micros : Nat) : XrpcProg L XrpcResponse := do
  ownRepo body did
  let collection ← required (body.field "collection").asStr "collection is required"
  valid (validateCollection collection)
  let rkey ← rkeyOrTid (body.field "rkey").asStr micros
  let ipld ← recordOf cfg body
  let writer ← buildWriter cfg did
  let outcome ← write writer (.create s!"{collection}/{rkey}" ipld)
  return .createRecord (atUri did collection rkey)
    ((outcome.recordCid.map cfg.cidText).getD "")

/-- The collection and the key of a record that is named in full. -/
def namedRecord (body : Json) (did : String) : XrpcProg L (String × String) := do
  ownRepo body did
  match (body.field "collection").asStr, (body.field "rkey").asStr with
  | some collection, some rkey =>
      valid (validateCollection collection)
      valid (validateRkey rkey)
      return (collection, rkey)
  | _, _ => .fail (.invalidRequest "collection and rkey are required")

def putRecord (did : String) (body : Json) : XrpcProg L XrpcResponse := do
  let (collection, rkey) ← namedRecord body did
  let ipld ← recordOf cfg body
  let key := s!"{collection}/{rkey}"
  .op (.lookupRecordCid did key) fun r => do
    let found ← Prog.ofExcept id r
    let writer ← buildWriter cfg did
    let outcome ← write writer (if found.isSome then .update key ipld else .create key ipld)
    return .putRecord (atUri did collection rkey)
      ((outcome.recordCid.map cfg.cidText).getD "") (commitMeta cfg outcome)

def deleteRecord (did : String) (body : Json) : XrpcProg L XrpcResponse := do
  let (collection, rkey) ← namedRecord body did
  let key := s!"{collection}/{rkey}"
  .op (.lookupRecordCid did key) fun r => do
    let found ← Prog.ofExcept id r
    if found.isNone then return .deleteRecord none
    else
      let writer ← buildWriter cfg did
      let outcome ← write writer (.delete key)
      return .deleteRecord (some (commitMeta cfg outcome))

/-- A created or updated record in the list of results. -/
def writeResult (kind did collection rkey : String) (outcome : WriteOutcome L.Cid) : Json :=
  .obj [("$type", .str s!"com.atproto.repo.applyWrites#{kind}Result"),
    ("uri", .str (atUri did collection rkey)),
    ("cid", (outcome.recordCid.map fun c => Json.str (cfg.cidText c)).getD .null),
    ("validationStatus", .str "unknown")]

/-- The write of one entry of a batch and its result. -/
def applyWrite (did : String) (writer : RepoWriter L) (micros : Nat) (w : Json) :
    XrpcProg L (WriteOutcome L.Cid × Json) := do
  let collection ← required (w.field "collection").asStr "write is missing collection"
  valid (validateCollection collection)
  match (w.field "$type").asStr.getD "" with
  | "com.atproto.repo.applyWrites#create" =>
      let rkey ← rkeyOrTid (w.field "rkey").asStr micros
      let ipld ← toIpld cfg (w.field "value")
      let outcome ← write writer (.create s!"{collection}/{rkey}" ipld)
      return (outcome, writeResult cfg "create" did collection rkey outcome)
  | "com.atproto.repo.applyWrites#update" =>
      let rkey ← required (w.field "rkey").asStr "update write is missing rkey"
      valid (validateRkey rkey)
      let ipld ← toIpld cfg (w.field "value")
      let outcome ← write writer (.update s!"{collection}/{rkey}" ipld)
      return (outcome, writeResult cfg "update" did collection rkey outcome)
  | "com.atproto.repo.applyWrites#delete" =>
      let rkey ← required (w.field "rkey").asStr "delete write is missing rkey"
      valid (validateRkey rkey)
      let outcome ← write writer (.delete s!"{collection}/{rkey}")
      return (outcome, .obj [("$type", .str "com.atproto.repo.applyWrites#deleteResult")])
  | other => .fail (.invalidRequest s!"unknown write $type: {other}")

/-- One commit for each entry, up to the first that fails. -/
def applyEach (did : String) (writer : RepoWriter L) (micros : Nat → Nat) :
    List Json → Option CommitMeta → List Json → XrpcProg L XrpcResponse
  | [], last, results => return .applyWrites last results
  | w :: ws, _, results => do
      let (outcome, result) ← applyWrite cfg did writer (micros results.length) w
      applyEach did writer micros ws (some (commitMeta cfg outcome)) (results ++ [result])

/-- The embedded server's batch: the writes are applied one after the
other, each with a commit of its own, and an error in the middle leaves
those before it applied. -/
def applyWrites (did : String) (body : Json) (micros : Nat → Nat) : XrpcProg L XrpcResponse := do
  ownRepo body did
  match (body.field "writes").asArr with
  | none => .fail (.invalidRequest "writes must be an array")
  | some writes =>
      if writes.isEmpty then return .applyWrites none []
      else
        let writer ← buildWriter cfg did
        applyEach cfg did writer micros writes none []

end

end Embedded

end Stelyph
