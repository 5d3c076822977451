import Mathlib.Algebra.Group.Int.Defs
import Mathlib.Data.String.Basic
import Stelyph.StorageBackend

/-!
# The tables of the SQL backends

The two SQL schemas (`storage/sqlite/schema.rs` and the Worker's
`schema.rs`) declare the same columns for accounts, invites, preferences
and the OAuth server, and many statements on them are the same text.
Those are here; what the backends do differently is with each of them.
Times are `u64` in the program and `i64` in a column.

Left out are the columns that only a wall clock fills and nothing reads
back (`updated_at`, `used_at`, `sequenced_at`, `created_at` of an invite
and of a blob).
-/

namespace Stelyph

namespace Backend

namespace Sql

/-! ## Numbers -/

/-- `n as i64` of an unsigned 64-bit number. -/
@[irreducible] def asI64 (n : Nat) : Int := Int.bmod n (2 ^ 64)

/-- `i as u64`. -/
@[irreducible] def asU64 (i : Int) : Nat := (i % 2 ^ 64).toNat

theorem asI64_of_lt {n : Nat} (h : n < 2 ^ 63) : asI64 n = n := by
  have hlt : (n : Int) < 2 ^ 63 := by exact_mod_cast h
  unfold asI64
  refine Int.bmod_eq_of_le ?_ ?_
  · omega
  · omega

theorem asU64_ofNat {n : Nat} (h : n < 2 ^ 63) : asU64 n = n := by
  unfold asU64
  have hlt : (n : Int) < 2 ^ 63 := by exact_mod_cast h
  omega

theorem asU64_asI64 {n : Nat} (h : n < 2 ^ 63) : asU64 (asI64 n) = n := by
  rw [asI64_of_lt h, asU64_ofNat h]

/-- A limit that is not negative as an `i64` is the limit. -/
theorem sqlLimit_asI64 {α : Type} {limit : Nat} (h : limit < 2 ^ 63) (xs : List α) :
    sqlLimit (asI64 limit) xs = xs.take limit := by
  rw [sqlLimit, asI64_of_lt h, if_neg (by omega), Int.toNat_natCast]

/-! ## Rows -/

/-- A row of `repo_seq` under its number; `invalidated` is a flag kept as an integer. -/
structure RepoSeqRow where
  did : String
  eventType : String
  event : Bytes
  invalidated : Int
deriving DecidableEq, Repr

/-- A row of `accounts`, under its DID. -/
structure AccountRow where
  did : String
  handle : Option String
  email : Option String
  passwordArgon2 : String
  createdAt : String
  deactivatedAt : Option String
  takedownRef : Option String
deriving DecidableEq, Repr

structure InviteRow where
  availableUses : Int
  disabled : Int
  forAccount : String
  createdBy : String
deriving DecidableEq, Repr

/-- A row of `oauth_par`. Times are signed here and unsigned in the record. -/
structure ParRow where
  requestUriHash : String
  clientId : String
  redirectUri : String
  scope : String
  state : String
  codeChallenge : String
  dpopJkt : Option String
  loginHint : Option String
  expiresAt : Int
deriving DecidableEq, Repr

/-- A row of `oauth_auth_codes`. -/
structure CodeRow where
  codeHash : String
  did : String
  clientId : String
  redirectUri : String
  scope : String
  codeChallenge : String
  dpopJkt : Option String
  expiresAt : Int
deriving DecidableEq, Repr

/-- A row of `oauth_refresh_tokens`, with the flag that it was redeemed. -/
structure RefreshRow where
  tokenHash : String
  sessionId : String
  did : String
  clientId : String
  scope : String
  dpopJkt : String
  issuedAt : Int
  expiresAt : Int
  used : Int
deriving DecidableEq, Repr

/-- The columns of a record. -/
def ParRow.ofRecord (r : StoredPushedRequest) : ParRow :=
  ⟨r.requestUriHash, r.clientId, r.redirectUri, r.scope, r.state, r.codeChallenge, r.dpopJkt,
    r.loginHint, asI64 r.expiresAt⟩

/-- What a query makes of a row. A time in range comes back as it was stored. -/
def ParRow.record (r : ParRow) : StoredPushedRequest :=
  ⟨r.requestUriHash, r.clientId, r.redirectUri, r.scope, r.state, r.codeChallenge, r.dpopJkt,
    r.loginHint, asU64 r.expiresAt⟩

def CodeRow.ofRecord (c : AuthCode) : CodeRow :=
  ⟨c.codeHash, c.did, c.clientId, c.redirectUri, c.scope, c.codeChallenge, c.dpopJkt,
    asI64 c.expiresAt⟩

def CodeRow.record (r : CodeRow) : AuthCode :=
  ⟨r.codeHash, r.did, r.clientId, r.redirectUri, r.scope, r.codeChallenge, r.dpopJkt,
    asU64 r.expiresAt⟩

/-- A new token has not been redeemed. -/
def RefreshRow.ofRecord (t : RefreshTokenRecord) : RefreshRow :=
  ⟨t.tokenHash, t.sessionId, t.did, t.clientId, t.scope, t.dpopJkt, asI64 t.issuedAt,
    asI64 t.expiresAt, 0⟩

def RefreshRow.record (r : RefreshRow) : RefreshTokenRecord :=
  ⟨r.tokenHash, r.sessionId, r.did, r.clientId, r.scope, r.dpopJkt, asU64 r.issuedAt,
    asU64 r.expiresAt⟩

def AccountRow.summary (r : AccountRow) : AccountSummary :=
  ⟨r.did, r.handle, r.deactivatedAt, r.takedownRef, r.createdAt⟩

/-- `deactivated_at IS NULL AND takedown_ref IS NULL`. -/
def AccountRow.isActive (r : AccountRow) : Bool := r.deactivatedAt.isNone && r.takedownRef.isNone

/-! ## Accounts, invites, preferences -/

/-- The account tables that sqlite and the object have in common. -/
structure Accounts where
  accounts : Table String AccountRow
  invites : Table String InviteRow
  inviteUses : Table (String × String) Unit
  preferences : Table String String

namespace Accounts

variable (s : Accounts)

/-- `SELECT … FROM accounts WHERE handle = ? AND deactivated_at IS NULL AND
takedown_ref IS NULL`. -/
def activeByHandle (handle : String) : Option AccountRow :=
  s.accounts.selectOne fun _ r => r.handle == some handle && r.isActive

def getAccountByHandle (handle : String) : Option (String × String) :=
  (s.activeByHandle handle).map fun r => (r.did, r.passwordArgon2)

def getDidByHandle (handle : String) : Option String :=
  (s.activeByHandle handle).map AccountRow.did

/-- The row's handle may be `NULL`. -/
def getHandleByDid (did : String) : Option String :=
  (s.accounts.selectOne fun k r => decide (k = did) && r.isActive).bind AccountRow.handle

/-- `INSERT INTO accounts`: `did` is the primary key and `handle` is unique. -/
def insertAccountRow (did handle : String) (email : Option String) (passwordPhc now : String) :
    Option Accounts :=
  (s.accounts.insertNew did ⟨did, some handle, email, passwordPhc, now, none, none⟩
    fun r => r.handle == some handle).map fun accounts => { s with accounts }

/-- `UPDATE accounts SET … WHERE did = ?`. -/
def updateAccount (did : String) (f : AccountRow → AccountRow) : Accounts :=
  { s with accounts := s.accounts.update did f }

def setPassword (did passwordPhc : String) : Accounts :=
  s.updateAccount did fun r => { r with passwordArgon2 := passwordPhc }

def setTakedownRef (did : String) (reference : Option String) : Accounts :=
  s.updateAccount did fun r => { r with takedownRef := reference }

/-- The text to store: a column that is not null is what hides the account. -/
def takedownMarker (reference now : String) : String :=
  if reference.isEmpty then now else reference

/-- `INSERT INTO invites … VALUES (?, ?, 0, ?, 'admin', ?)`. -/
def insertInviteRow (code : String) (availableUses : Int) (forAccount : String) :
    Option Accounts :=
  (s.invites.insertNew code ⟨availableUses, 0, forAccount, "admin"⟩ fun _ => false).map
    fun invites => { s with invites }

/-- `UPDATE invites SET available_uses = available_uses - 1 WHERE code = ?`. -/
def spendInvite (code : String) : Accounts :=
  { s with invites := s.invites.update code fun r =>
      { r with availableUses := r.availableUses - 1 } }

def upsertPreferences (did prefsJson : String) : Accounts :=
  { s with preferences := s.preferences.insert did prefsJson }

end Accounts

/-! ## Keys -/

/-- The key table is the same on all backends: an upsert and a lookup. -/
def serveKey (keys : Table String Bytes) :
    (o : KeyStoreOp) → Except StorageError o.Value × Table String Bytes
  | .putKeyBlob id ciphertext => (.ok (), keys.insert id ciphertext)
  | .getKeyBlob id => (.ok (keys.get id), keys)

/-! ## OAuth server state -/

/-- The OAuth tables that sqlite and the object have in common. -/
structure Oauth where
  par : Table String ParRow
  codes : Table String CodeRow
  refresh : Table String RefreshRow
  jti : Table String Int

namespace Oauth

variable (s : Oauth)

def putPushedRequest (req : StoredPushedRequest) : Oauth :=
  { s with par := s.par.insert req.requestUriHash (.ofRecord req) }

/-- `… WHERE request_uri_hash = ? AND expires_at > ?`. -/
def getPushedRequest (hash : String) (now : Nat) : Option StoredPushedRequest :=
  (s.par.selectOne fun k r => decide (k = hash) && decide (r.expiresAt > asI64 now)).map
    ParRow.record

def deletePushedRequest (hash : String) : Oauth :=
  { s with par := (s.par.deleteWhere fun k _ => decide (k = hash)).2 }

def putAuthCode (code : AuthCode) : Oauth :=
  { s with codes := s.codes.insert code.codeHash (.ofRecord code) }

/-- Selected if it is not expired, and deleted in any case. -/
def consumeAuthCode (hash : String) (now : Nat) : Option AuthCode × Oauth :=
  let row := s.codes.selectOne fun k r => decide (k = hash) && decide (r.expiresAt > asI64 now)
  (row.map CodeRow.record,
    { s with codes := (s.codes.deleteWhere fun k _ => decide (k = hash)).2 })

def putRefreshToken (token : RefreshTokenRecord) : Oauth :=
  { s with refresh := s.refresh.insert token.tokenHash (.ofRecord token) }

/-- Selected if it is not expired, and marked as used: the row is replaced
by one that differs in `used`. -/
def consumeRefreshToken (hash : String) (now : Nat) : ConsumeResult × Oauth :=
  match s.refresh.selectOne fun k r =>
      decide (k = hash) && decide (r.expiresAt > asI64 now) with
  | none => (.notFound, s)
  | some row =>
      if row.used ≠ 0 then (.reused row.sessionId, s)
      else (.consumed row.record,
        { s with refresh := s.refresh.insert hash { row with used := 1 } })

/-- `DELETE … WHERE session_id = ?` and how many rows it took. -/
def deleteSession (sessionId : String) : Nat × Oauth :=
  let (n, refresh) := s.refresh.deleteWhere fun _ r => decide (r.sessionId = sessionId)
  (n, { s with refresh })

def revokeRefreshToken (hash : String) : Bool × Oauth :=
  match (s.refresh.get hash).map RefreshRow.sessionId with
  | none => (false, s)
  | some sessionId => (true, (s.deleteSession sessionId).2)

/-- `… WHERE did = ? AND expires_at > ? AND used = 0`. -/
def openSessions (did : String) (now : Nat) : List RefreshRow :=
  s.refresh.selectAll fun _ r =>
    decide (r.did = did) && decide (r.expiresAt > asI64 now) && decide (r.used = 0)

end Oauth

end Sql

end Backend

end Stelyph
