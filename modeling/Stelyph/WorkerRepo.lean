import Stelyph.EmbeddedRepo
import Stelyph.RecordServing

/-!
# The record handlers of the Worker

`create_record`, `put_record`, `delete_record` and `apply_writes` of
`rust-worker/src/handlers.rs`, up to the commit. Each builds a writer of
its own and hands back what the sequencer is to be told; a batch is one
call of `apply_many_parts`.

A rejection that the client sees is a response; any other failure is an
error that leaves the object's `fetch`. A body that is not JSON is `none`.
-/

namespace Stelyph

namespace Worker

/-- A refusal with its status and text, or a failure that the runtime turns into a 500. -/
inductive RepoFailure where
  | response (status : Nat) (error message : String)
  | thrown (msg : String)
deriving DecidableEq, Repr

/-- What is left to tell the sequencer. -/
structure Sequenced (L : RepoLib) where
  uri : String
  cid : String
  body : CommitBody L.Cid L.Car
  records : List (Option Json)

/-- The answer of a batch, and what the sequencer is told of it. -/
structure BatchSequenced (L : RepoLib) where
  results : List Json
  body : CommitBody L.Cid L.Car
  records : List (Option Json)

/-- The parsers and formats of other crates that the write endpoints use. -/
structure RepoConfig (L : RepoLib) where
  decodeJwt : String → Except CoreError SessionClaims
  /-- `Did::new`. -/
  parseDid : String → Except String Unit
  jsonValueToIpld : Json → Except String L.Ipld
  cidText : L.Cid → String

section

variable {L : RepoLib} (cfg : RepoConfig L)

abbrev RepoProg (L : RepoLib) := Prog (recordSig L RepoError) RepoFailure

def invalidRequest (message : String) : RepoFailure := .response 400 "InvalidRequest" message

/-- `stelyph_core::repo::get_record`: the record is read and decoded too. -/
def getRecord (treeGet : TreeGet L) (decodeRecord : L.Block → Except String Json)
    (cidText : L.Cid → String) (s : RepoStore L) (did key : String) :
    Except RepoError (Option L.Cid) := do
  match ← treeLookup treeGet .repo .repo s did key with
  | none => return none
  | some cid =>
      match s.blocks.get cid with
      | none => .error (.storage .blockNotFound)
      | some block =>
          match decodeRecord block with
          | .error e => .error (.repo s!"decode record {cidText cid}: {e}")
          | .ok _ => return some cid

/-- The first and the last read go to the store itself. -/
def env (key : String → Except String L.Key) (treeGet : TreeGet L)
    (decodeRecord : L.Block → Except String Json) : RecordEnv L RepoError where
  key := key
  lookup := getRecord treeGet decodeRecord cfg.cidText
  lookupFault msg
    | 0 => .storage (.backend msg)
    | 1 => .repo msg
    | _ => .storage (.backend msg)

abbrev check (x : Except String Unit) : RepoProg L Unit := Prog.ofExcept invalidRequest x

def required (value : Option String) (message : String) : RepoProg L String :=
  match value with
  | some s => return s
  | none => .fail (invalidRequest message)

/-- The DID of the access token. -/
def authenticated (bearer : Option String) : RepoProg L String :=
  match bearer.bind fun t => (cfg.decodeJwt t).toOption with
  | some claims => return claims.sub
  | none => .fail (.response 401 "AuthenticationRequired" "Invalid token.")

def parsed (body : Option Json) : RepoProg L Json :=
  match body with
  | some input => return input
  | none => .fail (invalidRequest "Malformed body.")

/-- The repository in the body has to be the one of the token. -/
def ownRepo (input : Json) (did : String) : RepoProg L Unit :=
  if (input.field "repo").asStr ≠ some did then
    .fail (invalidRequest "repo must match the authenticated DID.")
  else return ()

/-- The collection of a body, which has to be there and be well formed. -/
def collectionOf (input : Json) (message : String) : RepoProg L String := do
  let collection ← required (input.field "collection").asStr message
  check (validateCollection collection)
  return collection

/-- A key that is given is checked. -/
def rkeyOr (rkey : Option String) (absent : RepoProg L String) : RepoProg L String :=
  match rkey with
  | some rkey => do
      check (validateRkey rkey)
      return rkey
  | none => absent

/-- A value that has to be there, as IPLD. -/
def ipldOf (value : Json) (missing unencodable : String) : RepoProg L L.Ipld :=
  if value.isNull then .fail (invalidRequest missing)
  else Prog.ofExcept (fun _ => invalidRequest unencodable) (cfg.jsonValueToIpld value)

abbrev recordOf (input : Json) : RepoProg L L.Ipld :=
  ipldOf cfg (input.field "record") "record is required." "record is not encodable as IPLD."

def loadKey (did : String) : RepoProg L L.Key :=
  .op (.loadSigningKey did) fun r => Prog.ofExcept .thrown r

/-- A writer for the account of the object. -/
def writerFor (key : L.Key) (did : String) : RepoProg L (RepoWriter L) := do
  Prog.ofExcept (fun e => .thrown s!"bad account DID: {e}") (cfg.parseDid did)
  return ⟨did, key⟩

/-- `apply_one_parts`; the text is of its failure. -/
def applyOneParts (writer : RepoWriter L) (op : WriteOp L.Ipld) (rnd : WriteDraw) (text : String) :
    RepoProg L (CommitBody L.Cid L.Car) :=
  (liftWriter (Stelyph.applyOneParts writer op rnd)).attempt.bind fun r => do
    let (_, body) ← Prog.ofExcept (fun e => .thrown s!"{text}: {e.display}") r
    return body

/-- The CID of the one record a commit carries. -/
def firstCid (body : CommitBody L.Cid L.Car) (text : String) : RepoProg L L.Cid :=
  match body.ops.head?.bind fun o => o.cid with
  | some cid => return cid
  | none => .fail (.thrown text)

/-- `micros` is the clock where a key has to be made up. -/
def createRecord (bearer : Option String) (body : Option Json) (micros : Nat) (rnd : WriteDraw) :
    RepoProg L (Sequenced L) := do
  let did ← authenticated cfg bearer
  let input ← parsed body
  ownRepo input did
  let collection ← collectionOf input "collection is required."
  let rkey ← rkeyOr (input.field "rkey").asStr (return tidFromMicros micros)
  let ipld ← recordOf cfg input
  let key ← loadKey did
  let writer ← writerFor cfg key did
  let commit ← applyOneParts writer (.create s!"{collection}/{rkey}" ipld) rnd "repo write failed"
  let cid ← firstCid commit "create op yielded no record cid"
  return ⟨atUri did collection rkey, cfg.cidText cid, commit, [some (input.field "record")]⟩

/-- DID, key, collection and record key. -/
def writePreamble (bearer : Option String) (input : Json) :
    RepoProg L (String × L.Key × String × String) := do
  let did ← authenticated cfg bearer
  ownRepo input did
  let collection ← collectionOf input "collection is required."
  let rkey ← required (input.field "rkey").asStr "rkey is required."
  check (validateRkey rkey)
  let key ← loadKey did
  return (did, key, collection, rkey)

/-- A lookup decides between update and creation. Nothing can come between
the two, since the object does not wait for anything there. -/
def putRecord (bearer : Option String) (body : Option Json) (rnd : WriteDraw) :
    RepoProg L (Sequenced L) := do
  let input ← parsed body
  let (did, key, collection, rkey) ← writePreamble cfg bearer input
  let ipld ← recordOf cfg input
  let mstKey := s!"{collection}/{rkey}"
  .op (.lookupRecordCid did mstKey) fun r => do
    let found ← Prog.ofExcept (fun e => .thrown s!"lookup existing: {e.display}") r
    let writer ← writerFor cfg key did
    let commit ← applyOneParts writer
      (if found.isSome then .update mstKey ipld else .create mstKey ipld) rnd "repo write failed"
    let cid ← firstCid commit "write yielded no record cid"
    return ⟨atUri did collection rkey, cfg.cidText cid, commit, [some (input.field "record")]⟩

/-- Deleting what is not there is no write. -/
def deleteRecord (bearer : Option String) (body : Option Json) (rnd : WriteDraw) :
    RepoProg L (Option (Sequenced L)) := do
  let input ← parsed body
  let (did, key, collection, rkey) ← writePreamble cfg bearer input
  let mstKey := s!"{collection}/{rkey}"
  .op (.lookupRecordCid did mstKey) fun r => do
    let found ← Prog.ofExcept (fun e => .thrown s!"lookup existing: {e.display}") r
    if found.isNone then return none
    else
      let writer ← writerFor cfg key did
      let commit ← applyOneParts writer (.delete mstKey) rnd "repo delete failed"
      return some ⟨atUri did collection rkey, "", commit, [none]⟩

/-! ## applyWrites -/

/-- One checked entry of a batch: its write, its URI and its record. -/
def batchEntry (did : String) (micros : Nat) (w : Json) :
    RepoProg L (WriteOp L.Ipld × String × Option Json) := do
  let kind := (w.field "$type").asStr.getD ""
  let collection ← collectionOf w "each write needs a collection."
  let rkey ← rkeyOr (w.field "rkey").asStr
    (if Text.endsWith kind "#create" then return tidFromMicros micros
      else .fail (invalidRequest "rkey is required for update and delete."))
  let key := s!"{collection}/{rkey}"
  let uri := s!"at://{did}/{key}"
  if Text.endsWith kind "#delete" then return (.delete key, uri, none)
  else
    let ipld ← ipldOf cfg (w.field "value") "create and update need a value."
      "value is not encodable as IPLD."
    if Text.endsWith kind "#update" then return (.update key ipld, uri, some (w.field "value"))
    else if Text.endsWith kind "#create" then return (.create key ipld, uri, some (w.field "value"))
    else .fail (invalidRequest "each write must be a create, update or delete.")

/-- Every write is checked before any is applied. -/
def batchEntries (did : String) (micros : Nat → Nat) :
    Nat → List Json → RepoProg L (List (WriteOp L.Ipld × String × Option Json))
  | _, [] => return []
  | n, w :: ws => do
      let entry ← batchEntry cfg did (micros n) w
      let rest ← batchEntries did micros (n + 1) ws
      return entry :: rest

/-- The result of one write of a batch. -/
def batchResult (outcome : WriteOutcome L.Cid) (uri : String) : Json :=
  if outcome.action = "delete" then
    .obj [("$type", .str "com.atproto.repo.applyWrites#deleteResult")]
  else
    .obj [("$type", .str s!"com.atproto.repo.applyWrites#{outcome.action}Result"),
      ("uri", .str uri),
      ("cid", (outcome.recordCid.map fun c => Json.str (cfg.cidText c)).getD .null),
      ("validationStatus", .str "unknown")]

/-- A batch, as one commit: all entries are read and checked before
anything is written. -/
def applyWrites (bearer : Option String) (body : Option Json) (micros : Nat → Nat)
    (rnd : WriteDraw) : RepoProg L (BatchSequenced L) := do
  let did ← authenticated cfg bearer
  let input ← parsed body
  ownRepo input did
  match (input.field "writes").asArr with
  | none => .fail (invalidRequest "writes must be an array.")
  | some writes =>
      if writes.isEmpty then .fail (invalidRequest "writes must not be empty.")
      else
        let entries ← batchEntries cfg did micros 0 writes
        let key ← loadKey did
        let writer ← writerFor cfg key did
        (liftWriter (applyManyParts writer (entries.map fun e => e.1) rnd)).attempt.bind fun r => do
          let (outcomes, commit) ←
            Prog.ofExcept (fun e => .thrown s!"batch write failed: {e.display}") r
          return ⟨List.zipWith (fun o e => batchResult cfg o e.2.1) outcomes entries, commit,
            entries.map fun e => e.2.2⟩

/-! ## The checks read nothing but keys -/

section

variable {P : RecordOp L → Prop}

theorem each_required (value : Option String) (message : String) :
    (required value message : RepoProg L String).Each P := by
  cases value with
  | none => trivial
  | some s => trivial

theorem each_authenticated (bearer : Option String) :
    (authenticated cfg bearer).Each P := by
  rw [authenticated]
  split <;> trivial

theorem each_parsed (body : Option Json) : (parsed body : RepoProg L Json).Each P := by
  cases body with
  | none => trivial
  | some input => trivial

theorem each_ownRepo (input : Json) (did : String) :
    (ownRepo input did : RepoProg L Unit).Each P := by
  rw [ownRepo]
  split <;> trivial

theorem each_collectionOf (input : Json) (message : String) :
    (collectionOf input message : RepoProg L String).Each P :=
  (each_required _ _).bind fun _ => (Prog.each_ofExcept _ _ _).bind fun _ => trivial

theorem each_rkeyOr (rkey : Option String) {absent : RepoProg L String} (h : absent.Each P) :
    (rkeyOr rkey absent).Each P := by
  cases rkey with
  | none => exact h
  | some rkey => exact (Prog.each_ofExcept _ _ _).bind fun _ => trivial

theorem each_ipldOf (value : Json) (missing unencodable : String) :
    (ipldOf cfg value missing unencodable).Each P := by
  rw [ipldOf]
  split
  · trivial
  · exact Prog.each_ofExcept _ _ _

theorem each_batchEntry (did : String) (micros : Nat) (w : Json) :
    (batchEntry cfg did micros w).Each P := by
  refine (each_collectionOf _ _).bind fun collection => ?_
  refine (each_rkeyOr _ (by split <;> trivial)).bind fun rkey => ?_
  dsimp only
  split
  · trivial
  · refine (each_ipldOf cfg _ _ _).bind fun ipld => ?_
    split_ifs <;> trivial

theorem each_batchEntries (did : String) (micros : Nat → Nat) :
    ∀ (ws : List Json) (n : Nat), (batchEntries cfg did micros n ws).Each P
  | [], _ => trivial
  | w :: ws, n => (each_batchEntry cfg did (micros n) w).bind fun _ =>
      (each_batchEntries did micros ws (n + 1)).bind fun _ => trivial

end

theorem reading_loadKey (did : String) : (loadKey did : RepoProg L L.Key).Each RecordOp.Reading :=
  ⟨trivial, fun _ => Prog.each_ofExcept _ _ _⟩

end

end Worker

end Stelyph
