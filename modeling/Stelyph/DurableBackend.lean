import Stelyph.SqlTables

/-!
# The Durable Object's backend

`store.rs` of the Worker: the SQLite database of a Durable Object, and a
bucket for the bytes of blobs. A call runs its statements one after the
other, and none of them is undone; what a primary key or a unique column
would refuse is looked up before. The sequence is a counter in a row of
its own.

Numbers are bound and read as they are; that the runtime carries them as
JavaScript numbers is left out.
-/

namespace Stelyph

namespace Backend

namespace Durable

open Sql

/-- The repository tables of an object. The counter is a table with one row. -/
structure Repo where
  blocks : Table String Bytes
  repoSeq : Table Int RepoSeqRow
  /-- `next` of the row whose `id` is 0. -/
  seqCounter : Table Int Int
  repoRoots : Table String String

structure BlobRefRow where
  mimeType : String
  size : Int
deriving DecidableEq, Repr

/-- References in the object, bytes in the bucket. -/
structure Blobs where
  blobRefs : Table (String × String) BlobRefRow
  /-- The objects of the bucket, by their keys. -/
  bucket : Table String Bytes

/-- The tables of one object, and the bucket it shares with the others. -/
structure Object where
  repo : Repo
  accounts : Accounts
  keys : Table String Bytes
  blobs : Blobs
  oauth : Oauth

/-- A refused statement, as the runtime reports it. -/
def sqlErr (msg : String) : StorageError := .backend s!"durable object sql: {msg}"

/-! ## Blocks, sequencer, repo -/

namespace Repo

variable {C : CidLib} (s : Repo)

def readBlockBytes (cid : C.Cid) : Except StorageError Bytes :=
  match s.blocks.get (C.toString cid) with
  | some bytes => .ok bytes
  | none => .error .blockNotFound

def putBlock (cid : C.Cid) (bytes : Bytes) : Repo :=
  { s with blocks := s.blocks.insertOrIgnore (C.toString cid) bytes }

/-- `SELECT COALESCE(MAX(seq), 0) AS max_seq FROM repo_seq`. -/
def maxSeq : Int := (s.repoSeq.rows.map Prod.fst).max?.getD 0

/-- `… WHERE seq > ? AND invalidated = 0 ORDER BY seq ASC LIMIT ?`, with a
limit of at least 0. -/
def backfillPage (afterSeq limit : Int) : List (Int × Bytes) :=
  (sqlLimit (max limit 0) (orderBy Prod.fst (s.repoSeq.rows.filter fun r =>
    decide (r.1 > afterSeq) && decide (r.2.invalidated = 0)))).map fun r => (r.1, r.2.event)

/-- The root is kept as text, which has to read as a CID. -/
def loadRepoRoot (C : CidLib) (did : String) : Except StorageError (Option C.Cid) :=
  match s.repoRoots.get did with
  | none => .ok none
  | some text =>
      match C.fromStr text with
      | .ok cid => .ok (some cid)
      | .error e => .error (.crypto s!"bad root cid: {e}")

def updateRepoRoot (did : String) (rootCid : C.Cid) : Repo :=
  { s with repoRoots := s.repoRoots.insert did (C.toString rootCid) }

/-- The counter is incremented and read back; a missing row and a number
that is taken are errors. -/
def commitBlocks (blocks : List (C.Cid × Bytes)) (did : String) (newRoot : C.Cid)
    (eventBody : Bytes) : Except StorageError Int × Repo :=
  let s₁ : Repo := { s with
    blocks := blocks.foldl (fun t b => t.insertOrIgnore (C.toString b.1) b.2) s.blocks }
  let s₂ : Repo := { s₁ with seqCounter := s₁.seqCounter.update 0 (· + 1) }
  match s₂.seqCounter.get 0 with
  | none => (.error (.backend "seq_counter row is missing"), s₂)
  | some seq =>
      match s₂.repoSeq.insertNew seq ⟨did, "append", eventBody, 0⟩ fun _ => false with
      | none => (.error (sqlErr "UNIQUE constraint failed: repo_seq.seq"), s₂)
      | some repoSeq =>
          (.ok seq, { s₂ with
            repoSeq := repoSeq
            repoRoots := s₂.repoRoots.insert did (C.toString newRoot) })

/-- The repository calls. -/
def serve : (o : RepoStoreOp C) → Except StorageError o.Value × Repo
  | .readBlockBytes cid => (s.readBlockBytes cid, s)
  | .putBlock cid bytes => (.ok (), s.putBlock cid bytes)
  | .maxSeq => (.ok s.maxSeq, s)
  | .backfillPage afterSeq limit => (.ok (s.backfillPage afterSeq limit), s)
  | .loadRepoRoot did => (s.loadRepoRoot C did, s)
  | .updateRepoRoot did rootCid => (.ok (), s.updateRepoRoot did rootCid)
  | .commitBlocks blocks did newRoot eventBody => s.commitBlocks blocks did newRoot eventBody

end Repo

/-! ## Accounts -/

section

variable (s : Accounts)

/-- `SELECT count(*) AS n FROM accounts WHERE did = ?` finds a row. -/
def accountExists (did : String) : Bool :=
  decide (s.accounts.countWhere (fun k _ => decide (k = did)) > 0)

/-- Checked before, so that the caller is told which constraint it is. -/
def insertAccount (did handle : String) (email : Option String) (passwordPhc now : String) :
    Except StorageError Accounts :=
  if accountExists s did then .error (.constraint s!"account already exists: {did}")
  else if s.accounts.countWhere (fun _ r => r.handle == some handle) > 0 then
    .error (.constraint s!"handle already taken: {handle}")
  else
    match s.insertAccountRow did handle email passwordPhc now with
    | some s' => .ok s'
    | none => .error (sqlErr "UNIQUE constraint failed: accounts")

/-- `SELECT … FROM accounts ORDER BY created_at, did`. -/
def listAccounts : List AccountSummary :=
  (orderBy (fun r => toLex (r.createdAt, r.did)) (s.accounts.selectAll fun _ _ => true)).map
    AccountRow.summary

/-- One row where the account is there. -/
def modifyAccount (did : String) (s' : Accounts) : Nat × Accounts :=
  if accountExists s did then (1, s') else (0, s)

/-- The code is looked for first, so that the constraint of the table is met. -/
def insertInvite (code : String) (availableUses : Int) (forAccount : String) :
    Except StorageError Accounts :=
  if s.invites.countWhere (fun k _ => decide (k = code)) > 0 then
    .error (.constraint s!"invite code already exists: {code}")
  else
    match s.insertInviteRow code availableUses forAccount with
    | some s' => .ok s'
    | none => .error (sqlErr "UNIQUE constraint failed: invites.code")

/-- Three statements: the code, whether the caller has used it, and the two updates. -/
def consumeInvite (code usedBy : String) : Except StorageError Bool × Accounts :=
  match s.invites.get code with
  | none => (.ok false, s)
  | some invite =>
      if invite.disabled ≠ 0 ∨ invite.availableUses ≤ 0 then (.ok false, s)
      else if s.inviteUses.countWhere (fun k _ => decide (k = (code, usedBy))) > 0 then
        (.ok false, s)
      else
        match s.inviteUses.insertNew (code, usedBy) () fun _ => false with
        | none => (.error (sqlErr "UNIQUE constraint failed: invite_uses"), s)
        | some inviteUses => (.ok true, { s with inviteUses }.spendInvite code)

/-- The account calls. A call that is refused changes nothing. -/
def serveAccount (now : String) : (o : AccountStoreOp) → Except StorageError o.Value × Accounts
  | .countAccounts => (.ok (s.accounts.countWhere fun _ _ => true), s)
  | .insertAccount did handle email passwordPhc =>
      match insertAccount s did handle email passwordPhc now with
      | .ok s' => (.ok (), s')
      | .error e => (.error e, s)
  | .countAndInsertAccount did handle email passwordPhc =>
      let before := s.accounts.countWhere fun _ _ => true
      match insertAccount s did handle email passwordPhc now with
      | .ok s' => (.ok before, s')
      | .error e => (.error e, s)
  | .getAccountByHandle handle => (.ok (s.getAccountByHandle handle), s)
  | .getDidByHandle handle => (.ok (s.getDidByHandle handle), s)
  | .getHandleByDid did => (.ok (s.getHandleByDid did), s)
  | .listAccounts => (.ok (listAccounts s), s)
  | .updatePassword did passwordPhc =>
      let (n, s') := modifyAccount s did (s.setPassword did passwordPhc)
      (.ok n, s')
  | .setTakedown did reference =>
      let (n, s') := modifyAccount s did
        (s.setTakedownRef did (some (Accounts.takedownMarker reference now)))
      (.ok n, s')
  | .clearTakedown did =>
      let (n, s') := modifyAccount s did (s.setTakedownRef did none)
      (.ok n, s')
  | .insertInvite code availableUses forAccount =>
      match insertInvite s code availableUses forAccount with
      | .ok s' => (.ok (), s')
      | .error e => (.error e, s)
  | .consumeInvite code usedBy => consumeInvite s code usedBy
  | .upsertPreferences did prefsJson => (.ok (), s.upsertPreferences did prefsJson)
  | .getPreferences did => (.ok (s.preferences.get did), s)

end

/-! ## Blobs -/

/-- The key of a blob in the bucket. -/
def blobKey (did cid : String) : String := s!"{did}/{cid}"

namespace Blobs

variable (s : Blobs)

/-- The object first, then the row. -/
def putBlob (did cid mimeType : String) (size : Int) (bytes : Bytes) : Blobs where
  bucket := s.bucket.insert (blobKey did cid) bytes
  blobRefs := s.blobRefs.insert (did, cid) ⟨mimeType, size⟩

/-- The row says whether the account has the blob. -/
def getBlob (did cid : String) : Option (String × Bytes) :=
  match s.blobRefs.get (did, cid) with
  | none => none
  | some row => (s.bucket.get (blobKey did cid)).map fun bytes => (row.mimeType, bytes)

/-- One statement where there is a cursor, another where there is none. -/
def listBlobs (did : String) (limit : Nat) (cursor : Option String) : List String :=
  let cids : List String := match cursor with
    | some cur => (s.blobRefs.rows.filter fun r =>
        decide (r.1.1 = did) && decide (cur < r.1.2)).map fun r => r.1.2
    | none => (s.blobRefs.rows.filter fun r => decide (r.1.1 = did)).map fun r => r.1.2
  sqlLimit (asI64 limit) (orderBy id cids)

/-- The blob calls, on references and bucket. -/
def serve : (o : BlobStoreOp) → Except StorageError o.Value × Blobs
  | .putBlob did cid mimeType size bytes => (.ok (), s.putBlob did cid mimeType size bytes)
  | .getBlob did cid => (.ok (s.getBlob did cid), s)
  | .listBlobs did limit cursor => (.ok (s.listBlobs did limit cursor), s)

end Blobs

/-! ## OAuth -/

section

variable (s : Oauth)

/-- Counted before they are deleted. -/
def revokeSession (sessionId : String) : Nat × Oauth :=
  (s.refresh.countWhere fun _ r => decide (r.sessionId = sessionId),
    (s.deleteSession sessionId).2)

/-- `… ORDER BY issued_at DESC, token_hash ASC`. -/
def listSessionsForDid (did : String) (now : Nat) : List RefreshTokenRecord :=
  (orderBy (fun r => toLex (OrderDual.toDual r.issuedAt, r.tokenHash)) (s.openSessions did now)).map
    RefreshRow.record

/-- A lookup and an insert, which the object runs without a pause between them. -/
def recordDpopJti (jti : String) (expiresAt : Nat) : Except StorageError Bool × Oauth :=
  if s.jti.countWhere (fun k _ => decide (k = jti)) > 0 then (.ok false, s)
  else
    match s.jti.insertNew jti (asI64 expiresAt) fun _ => false with
    | none => (.error (sqlErr "UNIQUE constraint failed: oauth_dpop_jti.jti"), s)
    | some table => (.ok true, { s with jti := table })

/-- Table by table: counted, then deleted. -/
def purgeExpired (now : Nat) : Nat × Oauth :=
  let n₁ := s.par.countWhere fun _ r => decide (r.expiresAt ≤ asI64 now)
  let par := (s.par.deleteWhere fun _ r => decide (r.expiresAt ≤ asI64 now)).2
  let n₂ := s.codes.countWhere fun _ r => decide (r.expiresAt ≤ asI64 now)
  let codes := (s.codes.deleteWhere fun _ r => decide (r.expiresAt ≤ asI64 now)).2
  let n₃ := s.refresh.countWhere fun _ r => decide (r.expiresAt ≤ asI64 now)
  let refresh := (s.refresh.deleteWhere fun _ r => decide (r.expiresAt ≤ asI64 now)).2
  let n₄ := s.jti.countWhere fun _ e => decide (e ≤ asI64 now)
  let jti := (s.jti.deleteWhere fun _ e => decide (e ≤ asI64 now)).2
  (n₁ + n₂ + n₃ + n₄, ⟨par, codes, refresh, jti⟩)

def applyOauth : (o : OauthOp) → Except StorageError o.Value × Oauth
  | .putPushedRequest req => (.ok (), s.putPushedRequest req)
  | .getPushedRequest hash now => (.ok (s.getPushedRequest hash now), s)
  | .deletePushedRequest hash => (.ok (), s.deletePushedRequest hash)
  | .putAuthCode code => (.ok (), s.putAuthCode code)
  | .consumeAuthCode hash now =>
      let (code, s') := s.consumeAuthCode hash now
      (.ok code, s')
  | .putRefreshToken token => (.ok (), s.putRefreshToken token)
  | .consumeRefreshToken hash now =>
      let (result, s') := s.consumeRefreshToken hash now
      (.ok result, s')
  | .revokeSession sessionId =>
      let (n, s') := revokeSession s sessionId
      (.ok n, s')
  | .revokeRefreshToken hash =>
      let (found, s') := s.revokeRefreshToken hash
      (.ok found, s')
  | .recordDpopJti jti expiresAt => recordDpopJti s jti expiresAt
  | .purgeExpired now =>
      let (n, s') := purgeExpired s now
      (.ok n, s')

def serveOauth : (o : OauthStoreOp) → Except StorageError o.Value × Oauth
  | .call o => applyOauth s o
  | .listSessionsForDid did now => (.ok (listSessionsForDid s did now), s)

end

/-! ## The backend -/

/-- After `migrate`: the counter has its row. -/
def Object.migrated : Object where
  repo := ⟨.empty, .empty, (Table.empty : Table Int Int).insertOrIgnore 0 0, .empty⟩
  accounts := ⟨.empty, .empty, .empty, .empty⟩
  keys := .empty
  blobs := ⟨.empty, .empty⟩
  oauth := ⟨.empty, .empty, .empty, .empty⟩

/-- A call is served on its own part of the object's storage, and leaves
the other parts as they are. -/
def Object.serve {C : CidLib} (s : Object) (now : String) :
    (o : StorageOp C) → Except StorageError o.Value × Object
  | .repo o => ((s.repo.serve o).1, { s with repo := (s.repo.serve o).2 })
  | .account o =>
      ((serveAccount s.accounts now o).1, { s with accounts := (serveAccount s.accounts now o).2 })
  | .key o => ((serveKey s.keys o).1, { s with keys := (serveKey s.keys o).2 })
  | .blob o => ((s.blobs.serve o).1, { s with blobs := (s.blobs.serve o).2 })
  | .oauth o => ((serveOauth s.oauth o).1, { s with oauth := (serveOauth s.oauth o).2 })

end Durable

/-- `DoStore`: the object's own tables for the rows, and the bucket for
the bytes of blobs. -/
def doStore (C : CidLib) : StorageBackend C where
  State := Durable.Object
  init := .migrated
  serve s c := s.serve c.now c.op

end Backend

end Stelyph
