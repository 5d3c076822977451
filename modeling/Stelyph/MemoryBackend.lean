import Mathlib.Data.String.Basic
import Stelyph.StorageBackend

/-!
# The memory backend

`storage/memory/mod.rs`: maps and sets under one lock, held for the whole
of a call. The fields of `Inner` are grouped by the trait whose methods
touch them; the OAuth maps and the calls on them are those of
`OauthStore`. A map is a `Table`, and so its iteration has some order
that no answer shows.
-/

namespace Stelyph

namespace Backend

namespace Memory

/-- An account under its DID, with its place in the order of insertion. -/
structure Account where
  did : String
  handle : Option String
  email : Option String
  passwordPhc : String
  createdAt : String
  deactivatedAt : Option String
  takedownRef : Option String
  ordinal : Nat
deriving DecidableEq, Repr

structure Invite where
  availableUses : Int
  disabled : Bool
deriving DecidableEq, Repr

structure SeqRow where
  seq : Int
  event : Bytes
  invalidated : Bool
deriving DecidableEq, Repr

/-- The repository part of the state: blocks, the log in its order, the
counter, and the roots. -/
structure Repo (C : CidLib) where
  blocks : Table C.Cid Bytes
  repoSeq : List SeqRow
  nextSeq : Int
  repoRoots : Table String C.Cid

/-- The account part of the state. -/
structure Accounts where
  accounts : Table String Account
  nextOrdinal : Nat
  invites : Table String Invite
  inviteUses : Table (String × String) Unit
  prefs : Table String String

/-- All that the lock of `MemoryStore` guards. -/
structure Inner (C : CidLib) where
  repo : Repo C
  accounts : Accounts
  keys : Table String Bytes
  blobs : Table (String × String) (String × Bytes)
  oauth : OauthStore

/-! ## Repo path: blocks, roots, sequencer -/

namespace Repo

variable {C : CidLib} (s : Repo C)

def readBlockBytes (cid : C.Cid) : Except StorageError Bytes :=
  match s.blocks.get cid with
  | some bytes => .ok bytes
  | none => .error .blockNotFound

def putBlock (cid : C.Cid) (bytes : Bytes) : Repo C :=
  { s with blocks := s.blocks.insertOrIgnore cid bytes }

def maxSeq : Int := (s.repoSeq.getLast?.map SeqRow.seq).getD 0

/-- Rows after a number, in order, without those that were invalidated. -/
def backfillPage (afterSeq limit : Int) : List (Int × Bytes) :=
  ((s.repoSeq.filter fun r => decide (r.seq > afterSeq) && !r.invalidated).take
    (max limit 0).toNat).map fun r => (r.seq, r.event)

/-- Blocks, row and root at once, under the lock. The number is the next one. -/
def commitBlocks (blocks : List (C.Cid × Bytes)) (did : String) (newRoot : C.Cid)
    (eventBody : Bytes) : Int × Repo C :=
  let seq := s.nextSeq + 1
  (seq, {
    blocks := blocks.foldl (fun t b => t.insertOrIgnore b.1 b.2) s.blocks
    nextSeq := seq
    repoSeq := s.repoSeq ++ [⟨seq, eventBody, false⟩]
    repoRoots := s.repoRoots.insert did newRoot })

/-- The repository calls. -/
def serve : (o : RepoStoreOp C) → Except StorageError o.Value × Repo C
  | .readBlockBytes cid => (s.readBlockBytes cid, s)
  | .putBlock cid bytes => (.ok (), s.putBlock cid bytes)
  | .maxSeq => (.ok s.maxSeq, s)
  | .backfillPage afterSeq limit => (.ok (s.backfillPage afterSeq limit), s)
  | .loadRepoRoot did => (.ok (s.repoRoots.get did), s)
  | .updateRepoRoot did rootCid =>
      (.ok (), { s with repoRoots := s.repoRoots.insert did rootCid })
  | .commitBlocks blocks did newRoot eventBody =>
      let (seq, s') := s.commitBlocks blocks did newRoot eventBody
      (.ok seq, s')

end Repo

/-! ## Accounts, invites, preferences -/

def Account.isActive (a : Account) : Bool := a.deactivatedAt.isNone && a.takedownRef.isNone

def Account.summary (a : Account) : AccountSummary :=
  ⟨a.did, a.handle, a.deactivatedAt, a.takedownRef, a.createdAt⟩

namespace Accounts

variable (s : Accounts)

/-- The account of a DID, if it is active: neither deactivated nor taken down. -/
def active (did : String) : Option Account := (s.accounts.get did).filter Account.isActive

def activeByHandle (handle : String) : Option Account :=
  (s.accounts.selectOne fun _ a => a.handle == some handle).filter Account.isActive

/-- A new account, whose DID and whose handle no other has. -/
def insertAccountLocked (did handle : String) (email : Option String) (passwordPhc now : String) :
    Except StorageError Accounts :=
  if s.accounts.contains did then .error (.constraint s!"account already exists: {did}")
  else if s.accounts.rows.any fun r => r.2.handle == some handle then
    .error (.constraint s!"handle already taken: {handle}")
  else
    .ok { s with
      nextOrdinal := s.nextOrdinal + 1
      accounts := s.accounts.insert did {
        did, handle := some handle, email, passwordPhc, createdAt := now
        deactivatedAt := none, takedownRef := none, ordinal := s.nextOrdinal } }

/-- `get_mut`: one row, or none. -/
def modify (did : String) (f : Account → Account) : Nat × Accounts :=
  if s.accounts.contains did then (1, { s with accounts := s.accounts.update did f })
  else (0, s)

/-- By `created_at`, and by `ordinal` where it is equal. -/
def listAccounts : List AccountSummary :=
  (orderBy (fun a => toLex (a.createdAt, a.ordinal)) (s.accounts.rows.map Prod.snd)).map
    Account.summary

def insertInvite (code : String) (availableUses : Int) : Except StorageError Accounts :=
  if s.invites.contains code then .error (.constraint s!"invite code already exists: {code}")
  else .ok { s with invites := s.invites.insert code ⟨availableUses, false⟩ }

/-- A use is taken off a code that has one left, once for each caller. -/
def consumeInvite (code usedBy : String) : Bool × Accounts :=
  match s.invites.get code with
  | none => (false, s)
  | some i =>
      if i.disabled then (false, s)
      else if i.availableUses ≤ 0 then (false, s)
      else if s.inviteUses.contains (code, usedBy) then (false, s)
      else (true, { s with
        inviteUses := s.inviteUses.insert (code, usedBy) ()
        invites := s.invites.update code fun i => { i with availableUses := i.availableUses - 1 } })

/-- An empty reference still has to produce a marker. -/
def takedownMarker (reference now : String) : String :=
  if reference.isEmpty then now else reference

/-- The account calls. A call that is refused changes nothing. -/
def serve (now : String) : (o : AccountStoreOp) → Except StorageError o.Value × Accounts
  | .countAccounts => (.ok s.accounts.size, s)
  | .insertAccount did handle email passwordPhc =>
      match s.insertAccountLocked did handle email passwordPhc now with
      | .ok s' => (.ok (), s')
      | .error e => (.error e, s)
  | .countAndInsertAccount did handle email passwordPhc =>
      match s.insertAccountLocked did handle email passwordPhc now with
      | .ok s' => (.ok s.accounts.size, s')
      | .error e => (.error e, s)
  | .getAccountByHandle handle =>
      (.ok ((s.activeByHandle handle).map fun a => (a.did, a.passwordPhc)), s)
  | .getDidByHandle handle => (.ok ((s.activeByHandle handle).map Account.did), s)
  | .getHandleByDid did => (.ok ((s.active did).bind Account.handle), s)
  | .listAccounts => (.ok s.listAccounts, s)
  | .updatePassword did passwordPhc =>
      let (n, s') := s.modify did fun a => { a with passwordPhc }
      (.ok n, s')
  | .setTakedown did reference =>
      let (n, s') := s.modify did fun a =>
        { a with takedownRef := some (takedownMarker reference now) }
      (.ok n, s')
  | .clearTakedown did =>
      let (n, s') := s.modify did fun a => { a with takedownRef := none }
      (.ok n, s')
  | .insertInvite code availableUses _ =>
      match s.insertInvite code availableUses with
      | .ok s' => (.ok (), s')
      | .error e => (.error e, s)
  | .consumeInvite code usedBy =>
      let (consumed, s') := s.consumeInvite code usedBy
      (.ok consumed, s')
  | .upsertPreferences did prefsJson => (.ok (), { s with prefs := s.prefs.insert did prefsJson })
  | .getPreferences did => (.ok (s.prefs.get did), s)

end Accounts

/-! ## Keys and blobs -/

def serveKey (keys : Table String Bytes) :
    (o : KeyStoreOp) → Except StorageError o.Value × Table String Bytes
  | .putKeyBlob id ciphertext => (.ok (), keys.insert id ciphertext)
  | .getKeyBlob id => (.ok (keys.get id), keys)

/-- Sorted before it is cut into pages. -/
def listBlobs (blobs : Table (String × String) (String × Bytes)) (did : String) (limit : Nat)
    (cursor : Option String) : List String :=
  let cids := (blobs.rows.filter fun r => decide (r.1.1 = did)).map fun r => r.1.2
  ((orderBy id cids).filter fun c => cursor.all fun cur => decide (cur < c)).take limit

/-- The blob calls. A blob is found under its DID and its CID. -/
def serveBlob (blobs : Table (String × String) (String × Bytes)) :
    (o : BlobStoreOp) →
      Except StorageError o.Value × Table (String × String) (String × Bytes)
  | .putBlob did cid mimeType _ bytes => (.ok (), blobs.insert (did, cid) (mimeType, bytes))
  | .getBlob did cid => (.ok (blobs.get (did, cid)), blobs)
  | .listBlobs did limit cursor => (.ok (listBlobs blobs did limit cursor), blobs)

/-! ## OAuth server state -/

/-- Newest first, and by the hash of the token where the times are equal. -/
def listSessionsForDid (s : OauthStore) (did : String) (now : Nat) : List RefreshTokenRecord :=
  orderBy (fun t => toLex (OrderDual.toDual t.issuedAt, t.tokenHash))
    ((s.refresh.selectAll fun _ row =>
      !row.2 && decide (row.1.did = did) && decide (row.1.expiresAt > now)).map Prod.fst)

/-- The OAuth calls, on the tables that the endpoints are modelled over. -/
def serveOauth (s : OauthStore) : (o : OauthStoreOp) → Except StorageError o.Value × OauthStore
  | .call o => (.ok (o.apply s).1, (o.apply s).2)
  | .listSessionsForDid did now => (.ok (listSessionsForDid s did now), s)

/-! ## The backend -/

def Inner.empty {C : CidLib} : Inner C where
  repo := ⟨.empty, [], 0, .empty⟩
  accounts := ⟨.empty, 0, .empty, .empty, .empty⟩
  keys := .empty
  blobs := .empty
  oauth := .empty

/-- Each call on its own part of the state. -/
def Inner.serve {C : CidLib} (s : Inner C) (now : String) :
    (o : StorageOp C) → Except StorageError o.Value × Inner C
  | .repo o => ((s.repo.serve o).1, { s with repo := (s.repo.serve o).2 })
  | .account o =>
      ((s.accounts.serve now o).1, { s with accounts := (s.accounts.serve now o).2 })
  | .key o => ((serveKey s.keys o).1, { s with keys := (serveKey s.keys o).2 })
  | .blob o => ((serveBlob s.blobs o).1, { s with blobs := (serveBlob s.blobs o).2 })
  | .oauth o => ((serveOauth s.oauth o).1, { s with oauth := (serveOauth s.oauth o).2 })

end Memory

/-- `MemoryStore`: maps behind one lock, so that a call is one step. -/
def memoryStore (C : CidLib) : StorageBackend C where
  State := Memory.Inner C
  init := .empty
  serve s c := s.serve c.now c.op

end Backend

end Stelyph
