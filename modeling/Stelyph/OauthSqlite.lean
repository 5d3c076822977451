import Stelyph.Lib.Sql
import Stelyph.OauthStore

/-!
# The SQLite backend of the OAuth store

`storage/sqlite/oauth.rs`, statement by statement: a table is the rows of
a primary key, and each call is one statement or one `IMMEDIATE`
transaction on the only writer. The calls that look at a row before they
change it differ from the memory backend in the order of looking and
changing; what they answer and leave is the same.
-/

namespace Stelyph

namespace OauthStore

/-- `SELECT … FROM oauth_auth_codes WHERE code_hash = ?1 AND expires_at > ?2`,
then `DELETE … WHERE code_hash = ?1` whether or not there was a row. -/
def sqliteConsumeAuthCode (s : OauthStore) (hash : String) (now : Nat) :
    Option AuthCode × OauthStore :=
  let row := s.codes.rows.find? fun r => r.1 = hash && decide (r.2.expiresAt > now)
  (row.map Prod.snd, { s with codes := (s.codes.deleteWhere fun k _ => k = hash).2 })

/-- `SELECT … WHERE token_hash = ?1 AND expires_at > ?2`, and `UPDATE … SET
used = 1` if the row is not used. -/
def sqliteConsumeRefreshToken (s : OauthStore) (hash : String) (now : Nat) :
    ConsumeResult × OauthStore :=
  let row := s.refresh.rows.find? fun r => r.1 = hash && decide (r.2.1.expiresAt > now)
  match row.map Prod.snd with
  | none => (.notFound, s)
  | some (rec, true) => (.reused rec.sessionId, s)
  | some (rec, false) => (.consumed rec, { s with refresh := s.refresh.insert hash (rec, true) })

def sqliteRevokeSession (s : OauthStore) (sessionId : String) : Nat × OauthStore :=
  let (n, refresh) := s.refresh.deleteWhere fun _ row => row.1.sessionId = sessionId
  (n, { s with refresh := refresh })

def sqliteRevokeRefreshToken (s : OauthStore) (hash : String) : Bool × OauthStore :=
  match (s.refresh.get hash).map fun row => row.1.sessionId with
  | none => (false, s)
  | some sessionId => (true, (s.sqliteRevokeSession sessionId).2)

/-- `INSERT … ON CONFLICT(jti) DO NOTHING`, and whether a row was written. -/
def sqliteRecordDpopJti (s : OauthStore) (jti : String) (expiresAt : Nat) : Bool × OauthStore :=
  let after := s.jti.insertOrIgnore jti expiresAt
  (decide (after.size - s.jti.size > 0), { s with jti := after })

/-- `DELETE FROM … WHERE expires_at <= ?1` on each of the four tables. -/
def sqlitePurgeExpired (s : OauthStore) (now : Nat) : Nat × OauthStore :=
  let (n₁, par) := s.par.deleteWhere fun _ r => r.expiresAt ≤ now
  let (n₂, codes) := s.codes.deleteWhere fun _ c => c.expiresAt ≤ now
  let (n₃, refresh) := s.refresh.deleteWhere fun _ row => row.1.expiresAt ≤ now
  let (n₄, jti) := s.jti.deleteWhere fun _ e => e ≤ now
  (n₁ + n₂ + n₃ + n₄, ⟨par, codes, refresh, jti⟩)

end OauthStore

/-- A call on the SQLite backend. The plain inserts, lookups and deletions
are as in memory. -/
def OauthOp.applySqlite (s : OauthStore) : (o : OauthOp) → o.Value × OauthStore
  | .consumeAuthCode hash now => s.sqliteConsumeAuthCode hash now
  | .consumeRefreshToken hash now => s.sqliteConsumeRefreshToken hash now
  | .revokeSession sessionId => s.sqliteRevokeSession sessionId
  | .revokeRefreshToken hash => s.sqliteRevokeRefreshToken hash
  | .recordDpopJti jti expiresAt => s.sqliteRecordDpopJti jti expiresAt
  | .purgeExpired now => s.sqlitePurgeExpired now
  | o => o.apply s

/-! ## Both backends are one store -/

namespace OauthStore

theorem sqliteConsumeAuthCode_eq (s : OauthStore) (hash : String) (now : Nat) :
    s.sqliteConsumeAuthCode hash now = s.consumeAuthCode hash now := by
  have hfind := s.codes.selectOne_key hash fun c => decide (c.expiresAt > now)
  unfold Table.selectOne at hfind
  simp only [sqliteConsumeAuthCode, consumeAuthCode, hfind, Table.deleteWhere, Table.remove,
    ne_eq, decide_not]

theorem sqliteConsumeRefreshToken_eq (s : OauthStore) (hash : String) (now : Nat) :
    s.sqliteConsumeRefreshToken hash now = s.consumeRefreshToken hash now := by
  have hfind := s.refresh.selectOne_key hash fun row => decide (row.1.expiresAt > now)
  unfold Table.selectOne at hfind
  simp only [sqliteConsumeRefreshToken, consumeRefreshToken, hfind]
  cases hget : s.refresh.get hash with
  | none => rfl
  | some row =>
      obtain ⟨rec, used⟩ := row
      by_cases hexp : rec.expiresAt ≤ now
      · simp [hexp, Nat.not_lt.mpr hexp, Option.filter_some]
      · cases used <;> simp [hexp, Nat.lt_of_not_le hexp, Option.filter_some]

theorem sqliteRevokeSession_eq (s : OauthStore) (sessionId : String) :
    s.sqliteRevokeSession sessionId = s.revokeSession sessionId := by
  simp only [sqliteRevokeSession, revokeSession, dropSession, Table.deleteWhere_eq, ne_eq,
    decide_not]

theorem sqliteRevokeRefreshToken_eq (s : OauthStore) (hash : String) :
    s.sqliteRevokeRefreshToken hash = s.revokeRefreshToken hash := by
  simp only [sqliteRevokeRefreshToken, revokeRefreshToken, sqliteRevokeSession_eq]
  cases s.refresh.get hash <;> rfl

theorem sqliteRecordDpopJti_eq (s : OauthStore) (jti : String) (expiresAt : Nat) :
    s.sqliteRecordDpopJti jti expiresAt = s.recordDpopJti jti expiresAt := by
  simp only [sqliteRecordDpopJti, recordDpopJti, Table.insertOrIgnore]
  by_cases hjti : s.jti.contains jti = true
  · simp [hjti]
  · have hnone : s.jti.get jti = none := by
      simpa [Table.contains] using hjti
    have hsize : (s.jti.insert jti expiresAt).size = s.jti.size + 1 := by
      simp [Table.size, Table.insert, Table.remove_of_get_none hnone]
    simp [hjti, hsize]

theorem sqlitePurgeExpired_eq (s : OauthStore) (now : Nat) :
    s.sqlitePurgeExpired now = s.purgeExpired now := by
  have hpar := s.par.size_retain_le fun _ r => decide (r.expiresAt > now)
  have hcodes := s.codes.size_retain_le fun _ c => decide (c.expiresAt > now)
  have hrefresh := s.refresh.size_retain_le fun _ row => decide (row.1.expiresAt > now)
  have hjti := s.jti.size_retain_le fun _ e => decide (e > now)
  simp only [sqlitePurgeExpired, purgeExpired, dropExpired, count,
    Table.deleteWhere_expired s.par fun r => r.expiresAt,
    Table.deleteWhere_expired s.codes fun c => c.expiresAt,
    Table.deleteWhere_expired s.refresh fun row => row.1.expiresAt,
    Table.deleteWhere_expired s.jti fun e => e]
  refine Prod.ext ?_ rfl
  simp only
  omega

end OauthStore

/-- **The backends agree**: on every call, in the answer and in the tables. -/
theorem applySqlite_eq (s : OauthStore) (o : OauthOp) : o.applySqlite s = o.apply s := by
  cases o with
  | consumeAuthCode hash now => exact s.sqliteConsumeAuthCode_eq hash now
  | consumeRefreshToken hash now => exact s.sqliteConsumeRefreshToken_eq hash now
  | revokeSession sessionId => exact s.sqliteRevokeSession_eq sessionId
  | revokeRefreshToken hash => exact s.sqliteRevokeRefreshToken_eq hash
  | recordDpopJti jti expiresAt => exact s.sqliteRecordDpopJti_eq jti expiresAt
  | purgeExpired now => exact s.sqlitePurgeExpired_eq now
  | _ => rfl

/-- The stores that the flow runs on, one of them in memory and the other
with the rows of SQLite. -/
inductive OauthBackend where
  | memory
  | sqlite
deriving DecidableEq, Repr

def OauthBackend.apply (s : OauthStore) (o : OauthOp) : OauthBackend → o.Value × OauthStore
  | .memory => o.apply s
  | .sqlite => o.applySqlite s

def OauthBackend.machine (b : OauthBackend) : Machine oauthSig OauthStore StoreOutcome where
  exec _ s o
    | .done => some (.ok (b.apply s o).1, (b.apply s o).2)
    | .fault msg => some (.error (.backend msg), s)

theorem OauthBackend.machine_eq (b : OauthBackend) : b.machine = oauthMachine := by
  have hexec : ∀ i s o c, b.machine.exec i s o c = oauthMachine.exec i s o c := by
    intro i s o c
    cases c with
    | fault msg => rfl
    | done =>
        cases b with
        | memory => rfl
        | sqlite => simp only [machine, OauthBackend.apply, applySqlite_eq, oauthMachine,
            OauthOp.exec]
  exact congrArg Machine.mk (funext fun i => funext fun s => funext fun o => funext fun c =>
    hexec i s o c)

end Stelyph
