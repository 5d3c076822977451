import Stelyph.SqlTables

/-!
# The SQLite backend

`storage/sqlite/{repo,account,keys,blob,oauth}.rs`, statement by
statement. Every call is one statement or one `IMMEDIATE` transaction on
the only writer, so that a call that fails leaves the tables as they
were. `repo_seq` numbers its rows itself: `AUTOINCREMENT` gives the
successor of the largest number ever given, which SQLite keeps.
-/

namespace Stelyph

namespace Backend

namespace Sqlite

open Sql

/-- The repository tables. `sequence` is what sqlite keeps for
`AUTOINCREMENT`, so that a number is not given twice. -/
structure Repo where
  blocks : Table String Bytes
  repoSeq : Table Int RepoSeqRow
  /-- The largest number `AUTOINCREMENT` has given. -/
  sequence : Int
  repoRoots : Table String String

/-- A blob with its bytes in the table. -/
structure BlobRow where
  mimeType : String
  size : Int
  bytes : Bytes
deriving DecidableEq, Repr

/-- The tables of the database. -/
structure Db where
  repo : Repo
  accounts : Accounts
  keys : Table String Bytes
  blobs : Table (String × String) BlobRow
  oauth : Oauth

/-- What SQLite reports. -/
def uniqueFailed (column : String) : StorageError :=
  .backend s!"UNIQUE constraint failed: {column}"

/-! ## Repo path: blocks, roots, sequencer -/

namespace Repo

variable {C : CidLib} (s : Repo)

def readBlockBytes (cid : C.Cid) : Except StorageError Bytes :=
  match s.blocks.get (C.toString cid) with
  | some bytes => .ok bytes
  | none => .error .blockNotFound

/-- `INSERT OR IGNORE INTO blocks`. -/
def putBlock (cid : C.Cid) (bytes : Bytes) : Repo :=
  { s with blocks := s.blocks.insertOrIgnore (C.toString cid) bytes }

/-- `SELECT COALESCE(MAX(seq), 0) FROM repo_seq`. -/
def maxSeq : Int := (s.repoSeq.rows.map Prod.fst).max?.getD 0

/-- `… WHERE seq > ? AND invalidated = 0 ORDER BY seq ASC LIMIT ?`. -/
def backfillPage (afterSeq limit : Int) : List (Int × Bytes) :=
  (sqlLimit limit (orderBy Prod.fst (s.repoSeq.rows.filter fun r =>
    decide (r.1 > afterSeq) && decide (r.2.invalidated = 0)))).map fun r => (r.1, r.2.event)

/-- The root is kept as text, which has to read as a CID. -/
def loadRepoRoot (C : CidLib) (did : String) : Except StorageError (Option C.Cid) :=
  match s.repoRoots.get did with
  | none => .ok none
  | some text =>
      match C.fromStr text with
      | .ok cid => .ok (some cid)
      | .error e => .error (.crypto s!"bad root cid: {e}")

/-- `INSERT OR REPLACE INTO repo_roots`. -/
def updateRepoRoot (did : String) (rootCid : C.Cid) : Repo :=
  { s with repoRoots := s.repoRoots.insert did (C.toString rootCid) }

/-- One transaction; `last_insert_rowid` is the number of the new row, and
the table never gives a number twice. -/
def commitBlocks (blocks : List (C.Cid × Bytes)) (did : String) (newRoot : C.Cid)
    (eventBody : Bytes) : Int × Repo :=
  let seq := s.sequence + 1
  (seq, {
    blocks := blocks.foldl (fun t b => t.insertOrIgnore (C.toString b.1) b.2) s.blocks
    repoSeq := s.repoSeq.insert seq ⟨did, "append", eventBody, 0⟩
    sequence := seq
    repoRoots := s.repoRoots.insert did (C.toString newRoot) })

/-- The repository calls. -/
def serve : (o : RepoStoreOp C) → Except StorageError o.Value × Repo
  | .readBlockBytes cid => (s.readBlockBytes cid, s)
  | .putBlock cid bytes => (.ok (), s.putBlock cid bytes)
  | .maxSeq => (.ok s.maxSeq, s)
  | .backfillPage afterSeq limit => (.ok (s.backfillPage afterSeq limit), s)
  | .loadRepoRoot did => (s.loadRepoRoot C did, s)
  | .updateRepoRoot did rootCid => (.ok (), s.updateRepoRoot did rootCid)
  | .commitBlocks blocks did newRoot eventBody =>
      let (seq, s') := s.commitBlocks blocks did newRoot eventBody
      (.ok seq, s')

end Repo

/-! ## Accounts, invites, preferences -/

section

variable (s : Accounts)

/-- `SELECT … FROM accounts ORDER BY created_at`. -/
def listAccounts : List AccountSummary :=
  (orderBy AccountRow.createdAt (s.accounts.selectAll fun _ _ => true)).map AccountRow.summary

/-- `UPDATE accounts SET … WHERE did = ?`, and the rows it changed. -/
def rowsOf (did : String) : Nat := s.accounts.countWhere fun k _ => decide (k = did)

/-- One transaction: the code, whether the caller has used it, and the two updates. -/
def consumeInvite (code usedBy : String) : Bool × Accounts :=
  match s.invites.get code with
  | none => (false, s)
  | some row =>
      if row.disabled = 1 then (false, s)
      else if row.availableUses = 0 then (false, s)
      else if row.availableUses ≤ 0 then (false, s)
      else if s.inviteUses.countWhere (fun k _ => decide (k = (code, usedBy))) > 0 then (false, s)
      else
        let inviteUses := s.inviteUses.insertOrIgnore (code, usedBy) ()
        if inviteUses.size - s.inviteUses.size = 0 then (false, s)
        else (true, { s with inviteUses }.spendInvite code)

/-- The account calls. A call that violates a constraint changes nothing. -/
def serveAccount (now : String) : (o : AccountStoreOp) → Except StorageError o.Value × Accounts
  | .countAccounts => (.ok (s.accounts.countWhere fun _ _ => true), s)
  | .insertAccount did handle email passwordPhc =>
      match s.insertAccountRow did handle email passwordPhc now with
      | some s' => (.ok (), s')
      | none => (.error (uniqueFailed "accounts"), s)
  | .countAndInsertAccount did handle email passwordPhc =>
      let n := s.accounts.countWhere fun _ _ => true
      match s.insertAccountRow did handle email passwordPhc now with
      | some s' => (.ok n, s')
      | none => (.error (uniqueFailed "accounts"), s)
  | .getAccountByHandle handle => (.ok (s.getAccountByHandle handle), s)
  | .getDidByHandle handle => (.ok (s.getDidByHandle handle), s)
  | .getHandleByDid did => (.ok (s.getHandleByDid did), s)
  | .listAccounts => (.ok (listAccounts s), s)
  | .updatePassword did passwordPhc => (.ok (rowsOf s did), s.setPassword did passwordPhc)
  | .setTakedown did reference =>
      (.ok (rowsOf s did),
        s.setTakedownRef did (some (Accounts.takedownMarker reference now)))
  | .clearTakedown did => (.ok (rowsOf s did), s.setTakedownRef did none)
  | .insertInvite code availableUses forAccount =>
      match s.insertInviteRow code availableUses forAccount with
      | some s' => (.ok (), s')
      | none => (.error (uniqueFailed "invites.code"), s)
  | .consumeInvite code usedBy =>
      let (consumed, s') := consumeInvite s code usedBy
      (.ok consumed, s')
  | .upsertPreferences did prefsJson => (.ok (), s.upsertPreferences did prefsJson)
  | .getPreferences did => (.ok (s.preferences.get did), s)

end

/-! ## Blobs -/

section

variable (blobs : Table (String × String) BlobRow)

/-- `SELECT cid FROM blobs WHERE did = ?1 AND (?2 IS NULL OR cid > ?2)
ORDER BY cid ASC LIMIT ?3`. -/
def listBlobs (did : String) (limit : Nat) (cursor : Option String) : List String :=
  sqlLimit (asI64 limit) (orderBy id ((blobs.rows.filter fun r =>
    decide (r.1.1 = did) && cursor.all fun cur => decide (cur < r.1.2)).map fun r => r.1.2))

def serveBlob : (o : BlobStoreOp) →
    Except StorageError o.Value × Table (String × String) BlobRow
  | .putBlob did cid mimeType size bytes =>
      (.ok (), blobs.insert (did, cid) ⟨mimeType, size, bytes⟩)
  | .getBlob did cid => (.ok ((blobs.get (did, cid)).map fun r => (r.mimeType, r.bytes)), blobs)
  | .listBlobs did limit cursor => (.ok (listBlobs blobs did limit cursor), blobs)

end

/-! ## OAuth server state -/

section

variable (s : Oauth)

/-- `… ORDER BY issued_at DESC`. -/
def listSessionsForDid (did : String) (now : Nat) : List RefreshTokenRecord :=
  (orderBy (fun r => OrderDual.toDual r.issuedAt) (s.openSessions did now)).map RefreshRow.record

/-- `INSERT … ON CONFLICT(jti) DO NOTHING`, and whether a row was written. -/
def recordDpopJti (jti : String) (expiresAt : Nat) : Bool × Oauth :=
  let table := s.jti.insertOrIgnore jti (asI64 expiresAt)
  (decide (table.size - s.jti.size > 0), { s with jti := table })

/-- `DELETE FROM … WHERE expires_at <= ?` on each of the four tables. -/
def purgeExpired (now : Nat) : Nat × Oauth :=
  let (n₁, par) := s.par.deleteWhere fun _ r => decide (r.expiresAt ≤ asI64 now)
  let (n₂, codes) := s.codes.deleteWhere fun _ r => decide (r.expiresAt ≤ asI64 now)
  let (n₃, refresh) := s.refresh.deleteWhere fun _ r => decide (r.expiresAt ≤ asI64 now)
  let (n₄, jti) := s.jti.deleteWhere fun _ e => decide (e ≤ asI64 now)
  (n₁ + n₂ + n₃ + n₄, ⟨par, codes, refresh, jti⟩)

/-- The OAuth calls, each in one statement or one transaction. -/
def applyOauth : (o : OauthOp) → o.Value × Oauth
  | .putPushedRequest req => ((), s.putPushedRequest req)
  | .getPushedRequest hash now => (s.getPushedRequest hash now, s)
  | .deletePushedRequest hash => ((), s.deletePushedRequest hash)
  | .putAuthCode code => ((), s.putAuthCode code)
  | .consumeAuthCode hash now => s.consumeAuthCode hash now
  | .putRefreshToken token => ((), s.putRefreshToken token)
  | .consumeRefreshToken hash now => s.consumeRefreshToken hash now
  | .revokeSession sessionId => s.deleteSession sessionId
  | .revokeRefreshToken hash => s.revokeRefreshToken hash
  | .recordDpopJti jti expiresAt => recordDpopJti s jti expiresAt
  | .purgeExpired now => purgeExpired s now

def serveOauth : (o : OauthStoreOp) → Except StorageError o.Value × Oauth
  | .call o => (.ok (applyOauth s o).1, (applyOauth s o).2)
  | .listSessionsForDid did now => (.ok (listSessionsForDid s did now), s)

end

/-! ## The backend -/

def Db.empty : Db where
  repo := ⟨.empty, .empty, 0, .empty⟩
  accounts := ⟨.empty, .empty, .empty, .empty⟩
  keys := .empty
  blobs := .empty
  oauth := ⟨.empty, .empty, .empty, .empty⟩

/-- Each call on its own tables. -/
def Db.serve {C : CidLib} (s : Db) (now : String) :
    (o : StorageOp C) → Except StorageError o.Value × Db
  | .repo o => ((s.repo.serve o).1, { s with repo := (s.repo.serve o).2 })
  | .account o =>
      ((serveAccount s.accounts now o).1, { s with accounts := (serveAccount s.accounts now o).2 })
  | .key o => ((serveKey s.keys o).1, { s with keys := (serveKey s.keys o).2 })
  | .blob o => ((serveBlob s.blobs o).1, { s with blobs := (serveBlob s.blobs o).2 })
  | .oauth o => ((serveOauth s.oauth o).1, { s with oauth := (serveOauth s.oauth o).2 })

end Sqlite

/-- `SqliteStore`: one connection behind a lock, so that a call is one step. -/
def sqliteStore (C : CidLib) : StorageBackend C where
  State := Sqlite.Db
  init := .empty
  serve s c := s.serve c.now c.op

end Backend

end Stelyph
