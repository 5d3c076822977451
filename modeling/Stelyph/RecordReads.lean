import Mathlib.Data.List.Sort
import Stelyph.Accounts
import Stelyph.Lib.Paging
import Stelyph.RecordServing
import Stelyph.RepoExport

/-!
# Reading records

`getRecord` and `listRecords` of the axum server (`xrpc/repo.rs`) and of
the embedded one (`server/repo.rs`), and `list_records` of the library
(`repo/read.rs`), which the Worker calls. One looks a key up in the tree;
the other streams the entries under a prefix, skips those up to the
cursor, and stops when the page is full.

`getRecord` takes a DID or a handle. `listRecords` looks the root up
under what it is given.
-/

namespace Stelyph

/-- `Tree::entries_prefixed`: the entries, and the error that ends the
stream if one does. -/
abbrev TreeEntries (L : RepoLib) :=
  (L.Cid → Option L.Block) → L.Cid → String → List (String × L.Cid) × Option String

/-- What the read methods need of the tree and of the record format. -/
structure ReadLib (L : RepoLib) where
  treeGet : TreeGet L
  treeEntries : TreeEntries L
  decodeRecord : L.Block → Except String Json
  cidText : L.Cid → String

/-- A record with its URI and its CID. -/
structure RecordEntry where
  uri : String
  cid : String
  value : Json

/-- A page of a listing, and where the next one begins. -/
structure ListRecordsOutput where
  records : List RecordEntry
  cursor : Option String

section

variable {L : RepoLib} {ε : Type} (X : ReadLib L)

/-- The account that `repo` names, by its DID or its handle. Written alike
in both servers. -/
def resolveRepoDid (accounts : AccountStore) (repo : String) : Except XrpcError String :=
  if Text.startsWith repo "did:" then .ok repo
  else
    match accounts.getDidByHandle repo with
    | some did => .ok did
    | none => .error (.invalidRequest s!"could not resolve repo: {repo}")

/-- The loop of `listRecords`: `page` is what has been read so far, each
record with its key. -/
def readPage {β : Type} (read : String → L.Cid → Except ε β) (streamErr : String → ε)
    (limit : Nat) (cursor : Option String) :
    List (String × L.Cid) → Option String → List (String × β) → Except ε (List (String × β))
  | [], none, page => .ok page
  | [], some e, _ => .error (streamErr e)
  | (key, cid) :: entries, err, page =>
      if cursor.any fun c => decide (key ≤ c) then
        readPage read streamErr limit cursor entries err page
      else do
        let entry ← read key cid
        let page := page ++ [(key, entry)]
        if limit ≤ page.length then return page
        else readPage read streamErr limit cursor entries err page

/-- At most a hundred, at least one, and fifty where nothing is asked for. -/
def pageLimit (limit : Option Nat) : Nat := (limit.map fun l => max 1 (min l 100)).getD 50

end

/-! ## The library -/

namespace Core

/-- The key is that of the tree, collection and all. -/
structure RecordEntry (L : RepoLib) where
  key : String
  cid : L.Cid
  value : Json

/-- A page with the keys and CIDs as the core crate has them. -/
structure RecordPage (L : RepoLib) where
  records : List (RecordEntry L)
  cursor : Option String

section

variable {L : RepoLib} (X : ReadLib L)

/-- The block of a record, decoded. -/
def readRecord (s : RepoStore L) (key : String) (cid : L.Cid) :
    Except RepoError (RecordEntry L) := do
  let block ← (readBlockBytes s cid).mapError .storage
  let value ← (X.decodeRecord block).mapError
    fun e => .repo s!"decode record {X.cidText cid}: {e}"
  return ⟨key, cid, value⟩

/-- Without a root there is nothing to list. -/
def listRecords (s : RepoStore L) (did collection : String) (limit : Nat)
    (cursor : Option String) : Except RepoError (RecordPage L) :=
  let limit := max 1 (min limit 100)
  match s.roots.get did with
  | none => .ok ⟨[], none⟩
  | some root => do
      let commit ← (openAt s root).mapError .repo
      let (entries, err) := X.treeEntries s.blocks.get commit.data s!"{collection}/"
      let page ← readPage (readRecord X s) .repo limit cursor entries err []
      let cursor := if page.length = limit then page.getLast?.map Prod.fst else none
      return ⟨page.map Prod.snd, cursor⟩

end

end Core

/-! ## The axum server -/

namespace Axum

/-- One record of one repository, given by its handle or its DID. -/
structure GetRecordParams where
  repo : String
  collection : String
  rkey : String

/-- A collection, and the part of it that is asked for. -/
structure ListRecordsParams where
  repo : String
  collection : String
  limit : Option Nat
  cursor : Option String

section

variable {L : RepoLib} (X : ReadLib L)

def lookupRecordCid (s : RepoStore L) (did key : String) : Except XrpcError (Option L.Cid) :=
  treeLookup X.treeGet (fun e => .internal s!"failed to open repo: {e}")
    (fun e => .internal s!"MST get error: {e}") s did key

/-- The record under a CID, with the errors of the axum server. -/
def readRecord (s : RepoStore L) (uri : String) (cid : L.Cid) : Except XrpcError RecordEntry := do
  let block ← (readBlockBytes s cid).mapError
    fun e => .internal s!"read_block_bytes for {X.cidText cid}: {e.display}"
  let value ← (X.decodeRecord block).mapError
    fun e => .internal s!"dagcbor decode for record {X.cidText cid}: {e}"
  return ⟨uri, X.cidText cid, value⟩

def getRecord (accounts : AccountStore) (s : RepoStore L) (params : GetRecordParams) :
    Except XrpcError RecordEntry := do
  let did ← resolveRepoDid accounts params.repo
  match ← lookupRecordCid X s did s!"{params.collection}/{params.rkey}" with
  | none => .error (.invalidRequest "record not found")
  | some cid => readRecord X s s!"at://{did}/{params.collection}/{params.rkey}" cid

/-- The cursor is read back from the last record's URI. -/
def listRecords (s : RepoStore L) (params : ListRecordsParams) :
    Except XrpcError ListRecordsOutput :=
  let limit := pageLimit params.limit
  let did := params.repo
  match s.roots.get did with
  | none => .error (.invalidRequest s!"repo not found for did: {did}")
  | some root => do
      let commit ← (openAt s root).mapError fun e => .internal s!"failed to open repo: {e}"
      let (entries, err) := X.treeEntries s.blocks.get commit.data s!"{params.collection}/"
      let page ← readPage (fun key cid => readRecord X s s!"at://{did}/{key}" cid)
        (fun e => .internal s!"MST stream error: {e}") limit params.cursor entries err []
      let records := page.map Prod.snd
      let cursor :=
        if records.length = limit then
          records.getLast?.map fun r => (Text.stripPrefix r.uri s!"at://{did}/").getD ""
        else none
      return ⟨records, cursor⟩

/-! ### describeRepo -/

structure VerificationMethod where
  id : String
  vmType : String
  controller : String
  publicKeyMultibase : String
deriving DecidableEq, Repr

structure ServiceEntry where
  id : String
  serviceType : String
  serviceEndpoint : String
deriving DecidableEq, Repr

structure DidDocument where
  context : List String
  id : String
  alsoKnownAs : List String
  verificationMethod : List VerificationMethod
  service : List ServiceEntry
deriving DecidableEq, Repr

/-- A repository with its owner's document and the collections it has. -/
structure DescribeRepoOutput where
  handle : String
  did : String
  didDoc : DidDocument
  collections : List String
  handleIsCorrect : Bool
deriving DecidableEq, Repr

/-- The part of each key before its slash, in order and once. -/
def collectionsOf (keys : List String) : List String :=
  keys.foldl (fun set key =>
    match Text.splitOnce key '/' with
    | none => set
    | some (collection, _) =>
        if set.contains collection then set else set.orderedInsert (· ≤ ·) collection) []

/-- The collections of a repository, sorted, each once. One without a commit has none. -/
def listCollections (s : RepoStore L) (did : String) : Except XrpcError (List String) :=
  match s.roots.get did with
  | none => .ok []
  | some root => do
      let commit ← (openAt s root).mapError fun e => .internal s!"failed to open repo: {e}"
      match X.treeEntries s.blocks.get commit.data "" with
      | (_, some e) => .error (.internal s!"MST stream error: {e}")
      | (entries, none) => .ok (collectionsOf (entries.map Prod.fst))

/-- The document the server makes up for an account of its own, with the
key that the account signs with. -/
def buildDidDoc (keyDid pdsEndpoint did handle : String) : DidDocument where
  context := ["https://www.w3.org/ns/did/v1", "https://w3id.org/security/multikey/v1"]
  id := did
  alsoKnownAs := [s!"at://{handle}"]
  verificationMethod := [{
    id := s!"{did}#atproto", vmType := "Multikey", controller := did
    publicKeyMultibase := (Text.stripPrefix keyDid "did:key:").getD keyDid }]
  service := [⟨"#atproto_pds", "AtprotoPersonalDataServer", pdsEndpoint⟩]

/-- `signingKey` is the `did:key` of an account's signing key, from the
cache or from the store. -/
def describeRepo (signingKey : String → Except XrpcError String) (pdsEndpoint : String)
    (accounts : AccountStore) (s : RepoStore L) (repo : String) :
    Except XrpcError DescribeRepoOutput := do
  let did ← resolveRepoDid accounts repo
  match accounts.getHandleByDid did with
  | none => .error (.invalidRequest s!"repo not found: {repo}")
  | some handle =>
      let collections ← listCollections X s did
      let keyDid ← signingKey did
      return { handle := handle, did := did, didDoc := buildDidDoc keyDid pdsEndpoint did handle
               collections := collections, handleIsCorrect := true }

end

end Axum

/-! ## The embedded server -/

namespace Embedded

structure GetRecordQuery where
  repo : Option String
  collection : Option String
  rkey : Option String

structure ListRecordsQuery where
  repo : Option String
  collection : Option String
  limit : Option String
  cursor : Option String

section

variable {L : RepoLib} (X : ReadLib L)

def lookupRecordCid (s : RepoStore L) (did key : String) : Except XrpcError (Option L.Cid) :=
  treeLookup X.treeGet (fun _ => .internal "failed to open repo")
    (fun _ => .internal "MST get error") s did key

/-- The record under a CID; the embedded server's errors do not say what went wrong. -/
def readRecord (s : RepoStore L) (uri : String) (cid : L.Cid) : Except XrpcError RecordEntry := do
  let block ← (readBlockBytes s cid).mapError fun _ => .internal "read_block_bytes failed"
  let value ← (X.decodeRecord block).mapError fun _ => .internal "dagcbor decode failed"
  return ⟨uri, X.cidText cid, value⟩

def getRecord (accounts : AccountStore) (s : RepoStore L) (query : GetRecordQuery) :
    Except XrpcError RecordEntry :=
  match query.repo, query.collection, query.rkey with
  | some repo, some collection, some rkey => do
      let did ← resolveRepoDid accounts repo
      match ← lookupRecordCid X s did s!"{collection}/{rkey}" with
      | none => .error (.invalidRequest "record not found")
      | some cid => readRecord X s s!"at://{did}/{collection}/{rkey}" cid
  | _, _, _ => .error (.invalidRequest "repo, collection and rkey are required")

/-- A limit that is not a number is none, and the cursor is the last key. -/
def listRecords (s : RepoStore L) (query : ListRecordsQuery) :
    Except XrpcError ListRecordsOutput :=
  match query.repo, query.collection with
  | some did, some collection =>
      let limit := pageLimit (query.limit.bind Text.parseU64)
      match s.roots.get did with
      | none => .error (.invalidRequest s!"repo not found for did: {did}")
      | some root => do
          let commit ← (openAt s root).mapError fun _ => .internal "failed to open repo"
          let (entries, err) := X.treeEntries s.blocks.get commit.data s!"{collection}/"
          let page ← readPage (fun key cid => readRecord X s s!"at://{did}/{key}" cid)
            (fun _ => .internal "MST stream error") limit query.cursor entries err []
          let cursor := if page.length = limit then page.getLast?.map Prod.fst else none
          return ⟨page.map Prod.snd, cursor⟩
  | _, _ => .error (.invalidRequest "repo and collection are required")

end

end Embedded

end Stelyph
