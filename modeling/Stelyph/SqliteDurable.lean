import Stelyph.DurableBackend
import Stelyph.Lib.TableRel
import Stelyph.SqliteBackend

/-!
# The two SQL backends

`SqliteStore` and `DoStore` keep the same tables, but for the counter of
the log and for the bytes of blobs. What the one leaves to a constraint
or to the number of rows changed the other looks up before; the answers
are the same. The bytes of a blob are in one row with the rest of it
here and under a key of the bucket there, so they are the same as long as
no two blobs share a key.
-/

namespace Stelyph

namespace Backend

namespace SqliteDurable

open Sql

/-! ## Repo path -/

structure RepoMatch (s : Sqlite.Repo) (d : Durable.Repo) : Prop where
  blocks : s.blocks = d.blocks
  repoSeq : s.repoSeq = d.repoSeq
  repoRoots : s.repoRoots = d.repoRoots
  counter : d.seqCounter.get 0 = some s.sequence
  given : ∀ r ∈ s.repoSeq.rows, r.1 ≤ s.sequence

section

variable {C : CidLib} {s : Sqlite.Repo} {d : Durable.Repo}

/-- The next number is not taken. -/
theorem RepoMatch.fresh (h : RepoMatch s d) : s.repoSeq.get (s.sequence + 1) = none := by
  refine Table.get_eq_none_iff.mpr fun r hr heq => ?_
  have hle := h.given r hr
  omega

theorem RepoMatch.commitBlocks (h : RepoMatch s d) (blocks : List (C.Cid × Bytes)) (did : String)
    (newRoot : C.Cid) (eventBody : Bytes) :
    .ok (s.commitBlocks blocks did newRoot eventBody).1
        = (d.commitBlocks blocks did newRoot eventBody).1
      ∧ RepoMatch (s.commitBlocks blocks did newRoot eventBody).2
          (d.commitBlocks blocks did newRoot eventBody).2 := by
  have hcounter : (d.seqCounter.update 0 (· + 1)).get 0 = some (s.sequence + 1) := by
    rw [Table.get_update_self, h.counter]
    rfl
  have hinsert : d.repoSeq.insertNew (s.sequence + 1) ⟨did, "append", eventBody, 0⟩
      (fun _ => false)
      = some (s.repoSeq.insert (s.sequence + 1) ⟨did, "append", eventBody, 0⟩) := by
    rw [← h.repoSeq]
    exact Table.insertNew_of_get_none h.fresh _
  have hdurable : d.commitBlocks blocks did newRoot eventBody = (.ok (s.sequence + 1), {
      blocks := blocks.foldl (fun t b => t.insertOrIgnore (C.toString b.1) b.2) d.blocks
      repoSeq := s.repoSeq.insert (s.sequence + 1) ⟨did, "append", eventBody, 0⟩
      seqCounter := d.seqCounter.update 0 (· + 1)
      repoRoots := d.repoRoots.insert did (C.toString newRoot) }) := by
    simp only [Durable.Repo.commitBlocks, hcounter, hinsert]
  rw [hdurable]
  refine ⟨rfl, ?_⟩
  exact {
    blocks := by rw [Sqlite.Repo.commitBlocks, h.blocks]
    repoSeq := rfl
    repoRoots := by rw [Sqlite.Repo.commitBlocks, h.repoRoots]
    counter := hcounter
    given := by
      intro r hr
      simp only [Sqlite.Repo.commitBlocks, Table.rows_insert_of_get_none h.fresh,
        List.mem_append, List.mem_singleton] at hr ⊢
      rcases hr with hr | rfl
      · have hle := h.given r hr
        omega
      · exact le_refl _ }

theorem RepoMatch.backfillPage_eq (h : RepoMatch s d) (afterSeq : Int) {limit : Int}
    (hlimit : 0 ≤ limit) : s.backfillPage afterSeq limit = d.backfillPage afterSeq limit := by
  rw [Sqlite.Repo.backfillPage, Durable.Repo.backfillPage, h.repoSeq, max_eq_left hlimit]

theorem RepoMatch.serve (h : RepoMatch s d) {o : RepoStoreOp C}
    (hrange : (StorageOp.repo o).InRange) :
    (s.serve o).1 = (d.serve o).1 ∧ RepoMatch (s.serve o).2 (d.serve o).2 := by
  cases o with
  | readBlockBytes cid =>
      refine ⟨?_, h⟩
      rw [Sqlite.Repo.serve, Sqlite.Repo.readBlockBytes, h.blocks]
      rfl
  | putBlock cid bytes =>
      exact ⟨rfl, { h with
        blocks := by rw [Sqlite.Repo.serve, Sqlite.Repo.putBlock, h.blocks]; rfl }⟩
  | maxSeq =>
      refine ⟨?_, h⟩
      simp only [Sqlite.Repo.serve, Durable.Repo.serve, Sqlite.Repo.maxSeq, Durable.Repo.maxSeq,
        h.repoSeq]
  | backfillPage afterSeq limit =>
      exact ⟨congrArg Except.ok (h.backfillPage_eq afterSeq hrange), h⟩
  | loadRepoRoot did =>
      refine ⟨?_, h⟩
      rw [Sqlite.Repo.serve, Sqlite.Repo.loadRepoRoot, h.repoRoots]
      rfl
  | updateRepoRoot did rootCid =>
      exact ⟨rfl, { h with
        repoRoots := by rw [Sqlite.Repo.serve, Sqlite.Repo.updateRepoRoot, h.repoRoots]; rfl }⟩
  | commitBlocks blocks did newRoot eventBody => exact h.commitBlocks blocks did newRoot eventBody

end

/-! ## Accounts, invites, preferences -/

/-- The same tables; the flag of an invite is 0 or 1. -/
structure AccountsMatch (s d : Accounts) : Prop where
  same : d = s
  flags : ∀ r ∈ s.invites.rows, r.2.disabled = 0 ∨ r.2.disabled = 1

section

variable (s : Accounts) (now : String)

theorem accountExists_eq (did : String) :
    Durable.accountExists s did = s.accounts.contains did := by
  rw [Durable.accountExists, Table.countWhere_key]
  cases s.accounts.contains did <;> simp

/-- Both insert the account, or neither does. -/
theorem insertAccount_cases (did handle : String) (email : Option String) (passwordPhc : String) :
    (∃ e, Durable.insertAccount s did handle email passwordPhc now = .error e
      ∧ s.insertAccountRow did handle email passwordPhc now = none)
    ∨ ∃ s', Durable.insertAccount s did handle email passwordPhc now = .ok s'
      ∧ s.insertAccountRow did handle email passwordPhc now = some s'
      ∧ s'.invites = s.invites := by
  have hcount : decide (s.accounts.countWhere (fun _ r => r.handle == some handle) > 0)
      = s.accounts.rows.any fun r => r.2.handle == some handle := by
    rw [Bool.eq_iff_iff, decide_eq_true_eq, gt_iff_lt, Table.countWhere, List.countP_pos_iff,
      List.any_eq_true]
  unfold Durable.insertAccount
  rw [accountExists_eq]
  cases hdid : s.accounts.contains did with
  | true =>
      refine Or.inl ⟨_, rfl, ?_⟩
      simp [Accounts.insertAccountRow, Table.insertNew, hdid]
  | false =>
      cases hany : s.accounts.rows.any fun r => r.2.handle == some handle with
      | true =>
          have hpos := of_decide_eq_true (hcount.trans hany)
          refine Or.inl ⟨.constraint s!"handle already taken: {handle}", ?_, ?_⟩
          · rw [if_neg Bool.false_ne_true, if_pos hpos]
          · simp [Accounts.insertAccountRow, Table.insertNew, hany]
      | false =>
          have hzero := of_decide_eq_false (hcount.trans hany)
          obtain ⟨s', hrow, hinvites⟩ :
              ∃ s', s.insertAccountRow did handle email passwordPhc now = some s'
                ∧ s'.invites = s.invites := by
            rw [Accounts.insertAccountRow, Table.insertNew, hdid, hany]
            exact ⟨_, rfl, rfl⟩
          refine Or.inr ⟨s', ?_, hrow, hinvites⟩
          rw [if_neg Bool.false_ne_true, if_neg hzero, hrow]

theorem insertInvite_cases (code : String) (availableUses : Int) (forAccount : String) :
    (∃ e, Durable.insertInvite s code availableUses forAccount = .error e
      ∧ s.insertInviteRow code availableUses forAccount = none)
    ∨ ∃ s', Durable.insertInvite s code availableUses forAccount = .ok s'
      ∧ s.insertInviteRow code availableUses forAccount = some s'
      ∧ s'.invites = s.invites.insert code ⟨availableUses, 0, forAccount, "admin"⟩ := by
  have hfree : (s.invites.rows.any fun _ => false) = false := by simp
  unfold Durable.insertInvite
  rw [Table.countWhere_key]
  cases hcode : s.invites.contains code with
  | true =>
      refine Or.inl ⟨.constraint s!"invite code already exists: {code}", ?_, ?_⟩
      · simp
      · simp [Accounts.insertInviteRow, Table.insertNew, hcode]
  | false =>
      obtain ⟨s', hrow, hinvites⟩ :
          ∃ s', s.insertInviteRow code availableUses forAccount = some s'
            ∧ s'.invites = s.invites.insert code ⟨availableUses, 0, forAccount, "admin"⟩ := by
        rw [Accounts.insertInviteRow, Table.insertNew, hcode, hfree]
        exact ⟨_, rfl, rfl⟩
      refine Or.inr ⟨s', ?_, hrow, hinvites⟩
      rw [hrow]
      simp

end

section

variable {s d : Accounts}

/-- A flag that is not 1 is 0, and a use that is not there is written. -/
theorem consumeInvite_eq (hflag : ∀ r ∈ s.invites.rows, r.2.disabled = 0 ∨ r.2.disabled = 1)
    (code usedBy : String) :
    Durable.consumeInvite s code usedBy
      = (.ok (Sqlite.consumeInvite s code usedBy).1, (Sqlite.consumeInvite s code usedBy).2) := by
  unfold Durable.consumeInvite Sqlite.consumeInvite
  rw [Table.countWhere_key]
  cases hget : s.invites.get code with
  | none => rfl
  | some row =>
      have hrow := hflag (code, row) (Table.get_eq_some_iff.mp hget)
      simp only at hrow ⊢
      by_cases hdisabled : row.disabled = 1
      · simp [hdisabled]
      · have hzero : row.disabled = 0 := by omega
        by_cases hspent : row.availableUses ≤ 0
        · simp [hzero, hspent]
        · have hleft : ¬ row.availableUses = 0 := by omega
          cases hused : s.inviteUses.contains (code, usedBy) with
          | true => simp [hzero, hspent, hleft]
          | false =>
              have hnone : s.inviteUses.get (code, usedBy) = none := by
                simpa [Table.contains] using hused
              have hinsert : s.inviteUses.insertOrIgnore (code, usedBy) ()
                  = s.inviteUses.insert (code, usedBy) () := by
                simp [Table.insertOrIgnore, hused]
              have hsize :
                  (s.inviteUses.insert (code, usedBy) ()).size - s.inviteUses.size = 1 := by
                rw [Table.size, Table.rows_insert_of_get_none hnone, List.length_append, Table.size]
                simp
              simp [hzero, hspent, hleft, hinsert, hsize, Table.insertNew_of_get_none hnone]

theorem consumeInvite_flags
    (hflag : ∀ r ∈ s.invites.rows, r.2.disabled = 0 ∨ r.2.disabled = 1) (code usedBy : String) :
    ∀ r ∈ (Sqlite.consumeInvite s code usedBy).2.invites.rows,
      r.2.disabled = 0 ∨ r.2.disabled = 1 := by
  have hspend : ∀ inviteUses,
      ∀ r ∈ (Accounts.spendInvite { s with inviteUses := inviteUses } code).invites.rows,
        r.2.disabled = 0 ∨ r.2.disabled = 1 := by
    intro inviteUses r hr
    obtain ⟨r', hr', rfl⟩ := List.mem_map.mp hr
    split_ifs
    · exact hflag r' hr'
    · exact hflag r' hr'
  unfold Sqlite.consumeInvite
  cases s.invites.get code with
  | none => exact hflag
  | some row =>
      simp only
      split_ifs
      · exact hflag
      · exact hflag
      · exact hflag
      · exact hflag
      · exact hflag
      · exact hspend _

theorem AccountsMatch.listAccounts_alike (h : AccountsMatch s d) :
    SameUpToTies AccountSummary.createdAt (Sqlite.listAccounts s) (Durable.listAccounts d) := by
  refine SameUpToTies.of_orderBy (fun a _ b _ hab => hab) ?_ (by rw [h.same])
  intro a _ b _ hab
  exact Prod.Lex.monotone_fst _ _ hab

/-- One row where the account is there; without it the update changes nothing. -/
theorem modifyAccount_eq (did : String) (f : AccountRow → AccountRow) :
    Durable.modifyAccount s did (s.updateAccount did f)
      = (Sqlite.rowsOf s did, s.updateAccount did f) := by
  unfold Durable.modifyAccount Sqlite.rowsOf
  rw [accountExists_eq, Table.countWhere_key]
  cases hdid : s.accounts.contains did with
  | true => rfl
  | false =>
      have hnone : s.accounts.get did = none := by simpa [Table.contains] using hdid
      have hsame : s.accounts.update did f = s.accounts := Table.update_of_get_none hnone f
      rw [Accounts.updateAccount, hsame]
      rfl

theorem AccountsMatch.serve (h : AccountsMatch s d) (now : String) (o : AccountStoreOp) :
    RepliesAlike o.Same (Sqlite.serveAccount s now o).1 (Durable.serveAccount d now o).1
      ∧ AccountsMatch (Sqlite.serveAccount s now o).2 (Durable.serveAccount d now o).2 := by
  obtain ⟨rfl, hflag⟩ := h
  have hsame : AccountsMatch d d := ⟨rfl, hflag⟩
  cases o with
  | countAccounts => exact ⟨rfl, hsame⟩
  | insertAccount did handle email passwordPhc =>
      simp only [Sqlite.serveAccount, Durable.serveAccount]
      rcases insertAccount_cases d now did handle email passwordPhc with
        ⟨e, hd, hs⟩ | ⟨s', hd, hs, hinvites⟩
      · rw [hd, hs]
        exact ⟨trivial, hsame⟩
      · rw [hd, hs]
        exact ⟨rfl, rfl, hinvites ▸ hflag⟩
  | countAndInsertAccount did handle email passwordPhc =>
      simp only [Sqlite.serveAccount, Durable.serveAccount]
      rcases insertAccount_cases d now did handle email passwordPhc with
        ⟨e, hd, hs⟩ | ⟨s', hd, hs, hinvites⟩
      · rw [hd, hs]
        exact ⟨trivial, hsame⟩
      · rw [hd, hs]
        exact ⟨rfl, rfl, hinvites ▸ hflag⟩
  | getAccountByHandle handle => exact ⟨rfl, hsame⟩
  | getDidByHandle handle => exact ⟨rfl, hsame⟩
  | getHandleByDid did => exact ⟨rfl, hsame⟩
  | listAccounts => exact ⟨hsame.listAccounts_alike, hsame⟩
  | updatePassword did passwordPhc =>
      simp only [Sqlite.serveAccount, Durable.serveAccount, Accounts.setPassword, modifyAccount_eq]
      exact ⟨rfl, rfl, hflag⟩
  | setTakedown did reference =>
      simp only [Sqlite.serveAccount, Durable.serveAccount, Accounts.setTakedownRef,
        modifyAccount_eq]
      exact ⟨rfl, rfl, hflag⟩
  | clearTakedown did =>
      simp only [Sqlite.serveAccount, Durable.serveAccount, Accounts.setTakedownRef,
        modifyAccount_eq]
      exact ⟨rfl, rfl, hflag⟩
  | insertInvite code availableUses forAccount =>
      simp only [Sqlite.serveAccount, Durable.serveAccount]
      rcases insertInvite_cases d code availableUses forAccount with
        ⟨e, hd, hs⟩ | ⟨s', hd, hs, hinvites⟩
      · rw [hd, hs]
        exact ⟨trivial, hsame⟩
      · rw [hd, hs]
        refine ⟨rfl, rfl, ?_⟩
        rw [hinvites]
        intro r hr
        rcases List.mem_append.mp hr with hr | hr
        · exact hflag r (List.mem_filter.mp hr).1
        · obtain rfl := List.mem_singleton.mp hr
          exact Or.inl rfl
  | consumeInvite code usedBy =>
      simp only [Sqlite.serveAccount, Durable.serveAccount, consumeInvite_eq hflag]
      exact ⟨rfl, rfl, consumeInvite_flags hflag code usedBy⟩
  | upsertPreferences did prefsJson => exact ⟨rfl, rfl, hflag⟩
  | getPreferences did => exact ⟨rfl, hsame⟩

end

/-! ## Blobs -/

/-- The blobs are among `K`, and their bytes are under their keys. -/
structure BlobsMatch (K : Set (String × String)) (s : Table (String × String) Sqlite.BlobRow)
    (d : Durable.Blobs) : Prop where
  refs : Table.Rel id (fun r r' => r'.mimeType = r.mimeType ∧ r'.size = r.size) s d.blobRefs
  known : ∀ k r, s.get k = some r → k ∈ K
  bytes : ∀ k r, s.get k = some r → d.bucket.get (Durable.blobKey k.1 k.2) = some r.bytes

/-- No two of the blobs share a key of the bucket. -/
def KeysApart (K : Set (String × String)) : Prop :=
  Set.InjOn (fun k : String × String => Durable.blobKey k.1 k.2) K

/-- The blob that a call stores is one of `K`. -/
def StoresIn (K : Set (String × String)) {C : CidLib} : StorageOp C → Prop
  | .blob (.putBlob did cid _ _ _) => (did, cid) ∈ K
  | _ => True

section

variable {K : Set (String × String)} {s : Table (String × String) Sqlite.BlobRow}
  {d : Durable.Blobs}

theorem BlobsMatch.putBlob (hK : KeysApart K) (h : BlobsMatch K s d) {did cid : String}
    (hmem : (did, cid) ∈ K) (mimeType : String) (size : Int) (bytes : Bytes) :
    BlobsMatch K (s.insert (did, cid) ⟨mimeType, size, bytes⟩)
      (d.putBlob did cid mimeType size bytes) where
  refs := h.refs.insert Function.injective_id (did, cid) ⟨rfl, rfl⟩
  known := by
    intro k r hget
    rcases Table.get_insert_eq_some.mp hget with ⟨rfl, -⟩ | ⟨-, hold⟩
    · exact hmem
    · exact h.known k r hold
  bytes := by
    intro k r hget
    rcases Table.get_insert_eq_some.mp hget with ⟨rfl, rfl⟩ | ⟨hne, hold⟩
    · exact Table.get_insert_self _ _ _
    · -- another blob of `K` is under another key
      have hkey : Durable.blobKey k.1 k.2 ≠ Durable.blobKey did cid :=
        fun heq => hne (hK (h.known k r hold) hmem heq)
      exact (Table.get_insert_of_ne hkey).trans (h.bytes k r hold)

theorem BlobsMatch.getBlob_eq (h : BlobsMatch K s d) (did cid : String) :
    (s.get (did, cid)).map (fun r => (r.mimeType, r.bytes)) = d.getBlob did cid := by
  unfold Durable.Blobs.getBlob
  rcases optionRel_cases (h.refs.get Function.injective_id (did, cid)) with
    ⟨hs, hd⟩ | ⟨r, r', hs, hd, hmime, -⟩
  · simp only [id_eq] at hd
    rw [hs, hd]
    rfl
  · simp only [id_eq] at hd
    simp only [hs, hd, h.bytes (did, cid) r hs, Option.map_some, hmime]

theorem BlobsMatch.listBlobs_eq (h : BlobsMatch K s d) (did : String) (limit : Nat)
    (cursor : Option String) :
    Sqlite.listBlobs s did limit cursor = d.listBlobs did limit cursor := by
  have hcids : ∀ p : String → Bool,
      (s.rows.filter fun r => decide (r.1.1 = did) && p r.1.2).map (fun r => r.1.2)
        = (d.blobRefs.rows.filter fun r => decide (r.1.1 = did) && p r.1.2).map fun r => r.1.2 := by
    intro p
    refine forall₂_map_eq (forall₂_filter h.refs fun r r' hr => ?_) fun r r' hr => ?_
    · rw [hr.1]
      rfl
    · rw [hr.1]
      rfl
  rw [Sqlite.listBlobs, hcids fun cid => cursor.all fun cur => decide (cur < cid)]
  cases cursor with
  | none => simp [Durable.Blobs.listBlobs]
  | some cur => simp [Durable.Blobs.listBlobs]

theorem BlobsMatch.serve (hK : KeysApart K) (h : BlobsMatch K s d) {C : CidLib} {o : BlobStoreOp}
    (hmem : StoresIn K (.blob o : StorageOp C)) :
    (Sqlite.serveBlob s o).1 = (d.serve o).1
      ∧ BlobsMatch K (Sqlite.serveBlob s o).2 (d.serve o).2 := by
  cases o with
  | putBlob did cid mimeType size bytes => exact ⟨rfl, h.putBlob hK hmem mimeType size bytes⟩
  | getBlob did cid => exact ⟨congrArg Except.ok (h.getBlob_eq did cid), h⟩
  | listBlobs did limit cursor =>
      exact ⟨congrArg Except.ok (h.listBlobs_eq did limit cursor), h⟩

end

/-! ## OAuth server state -/

/-- The same tables; what a session was issued at is a time. -/
structure OauthMatch (s d : Oauth) : Prop where
  same : d = s
  issued : ∀ r ∈ s.refresh.rows, ∃ t : Nat, TimeInRange t ∧ r.2.issuedAt = t

section

variable {s d : Oauth}

theorem recordDpopJti_eq (s : Oauth) (jti : String) (expiresAt : Nat) :
    Durable.recordDpopJti s jti expiresAt
      = (.ok (Sqlite.recordDpopJti s jti expiresAt).1,
        (Sqlite.recordDpopJti s jti expiresAt).2) := by
  unfold Durable.recordDpopJti Sqlite.recordDpopJti Table.insertOrIgnore
  rw [Table.countWhere_key]
  cases hjti : s.jti.contains jti with
  | true => simp
  | false =>
      have hnone : s.jti.get jti = none := by simpa [Table.contains] using hjti
      have hsize : (s.jti.insert jti (asI64 expiresAt)).size - s.jti.size = 1 := by
        rw [Table.size, Table.rows_insert_of_get_none hnone, List.length_append, Table.size]
        simp
      simp [hsize, Table.insertNew_of_get_none hnone]

theorem revokeSession_eq (s : Oauth) (sessionId : String) :
    Durable.revokeSession s sessionId = s.deleteSession sessionId := rfl

theorem purgeExpired_eq (s : Oauth) (now : Nat) :
    Durable.purgeExpired s now = Sqlite.purgeExpired s now := rfl

/-- An answer and the state left are SQLite's. -/
theorem applyOauth_eq (s : Oauth) (o : OauthOp) :
    Durable.applyOauth s o = (.ok (Sqlite.applyOauth s o).1, (Sqlite.applyOauth s o).2) := by
  cases o with
  | recordDpopJti jti expiresAt => exact recordDpopJti_eq s jti expiresAt
  | revokeSession sessionId => simp only [Durable.applyOauth, revokeSession_eq, Sqlite.applyOauth]
  | purgeExpired now => simp only [Durable.applyOauth, purgeExpired_eq, Sqlite.applyOauth]
  | _ => rfl

/-- Rows are only deleted, marked as used, or written for a new token. -/
theorem applyOauth_issued
    (h : ∀ r ∈ s.refresh.rows, ∃ t : Nat, TimeInRange t ∧ r.2.issuedAt = t) {o : OauthOp}
    (hrange : (OauthStoreOp.call o).InRange) :
    ∀ r ∈ (Sqlite.applyOauth s o).2.refresh.rows, ∃ t : Nat, TimeInRange t ∧ r.2.issuedAt = t := by
  have hretain : ∀ p, ∀ r ∈ (s.refresh.retain p).rows,
      ∃ t : Nat, TimeInRange t ∧ r.2.issuedAt = t :=
    fun p r hr => h r (List.mem_filter.mp hr).1
  have hinsert : ∀ k (v : RefreshRow), (∃ t : Nat, TimeInRange t ∧ v.issuedAt = t) →
      ∀ r ∈ (s.refresh.insert k v).rows, ∃ t : Nat, TimeInRange t ∧ r.2.issuedAt = t := by
    intro k v hv r hr
    rcases List.mem_append.mp hr with hr | hr
    · exact hretain _ r hr
    · obtain rfl := List.mem_singleton.mp hr
      exact hv
  cases o with
  | putRefreshToken token =>
      exact hinsert _ _ ⟨token.issuedAt, hrange.1, asI64_of_lt hrange.1⟩
  | consumeRefreshToken hash now =>
      simp only [Sqlite.applyOauth, Oauth.consumeRefreshToken]
      split
      · exact h
      · rename_i row hrow
        split_ifs
        · exact h
        · obtain ⟨r, hr, rfl⟩ := Option.map_eq_some_iff.mp hrow
          exact hinsert _ _ (h r (List.mem_of_find?_eq_some hr))
  | revokeSession sessionId => exact hretain _
  | revokeRefreshToken hash =>
      simp only [Sqlite.applyOauth, Oauth.revokeRefreshToken]
      split
      · exact h
      · exact hretain _
  | purgeExpired now => exact hretain _
  | _ => exact h

theorem OauthMatch.listSessions_alike (h : OauthMatch s d) (did : String) (now : Nat) :
    SameUpToTies RefreshTokenRecord.issuedAt (Sqlite.listSessionsForDid s did now)
      (Durable.listSessionsForDid d did now) := by
  -- the order of the columns is the order of the times
  have hrecord : ∀ r ∈ s.openSessions did now, r.issuedAt = r.record.issuedAt := by
    intro r hr
    obtain ⟨row, hrow, rfl⟩ := List.mem_map.mp hr
    obtain ⟨t, ht, hissued⟩ := h.issued row (List.mem_of_mem_filter hrow)
    simp only [RefreshRow.record, hissued, asU64_ofNat ht]
  have hmono : ∀ a ∈ s.openSessions did now, ∀ b ∈ s.openSessions did now,
      OrderDual.toDual a.issuedAt ≤ OrderDual.toDual b.issuedAt →
        OrderDual.toDual a.record.issuedAt ≤ OrderDual.toDual b.record.issuedAt := by
    intro a ha b hb hab
    have hcolumns : b.issuedAt ≤ a.issuedAt := hab
    rw [hrecord a ha, hrecord b hb] at hcolumns
    exact OrderDual.toDual_le_toDual.mpr (by omega)
  have halike : SameUpToTies (fun t : RefreshTokenRecord => OrderDual.toDual t.issuedAt)
      (Sqlite.listSessionsForDid s did now) (Durable.listSessionsForDid d did now) := by
    rw [h.same]
    refine SameUpToTies.of_orderBy hmono ?_ (List.Perm.refl _)
    intro a ha b hb hab
    exact hmono a ha b hb (Prod.Lex.monotone_fst _ _ hab)
  exact halike

theorem OauthMatch.serve (h : OauthMatch s d) {o : OauthStoreOp} (hrange : o.InRange) :
    RepliesAlike o.Same (Sqlite.serveOauth s o).1 (Durable.serveOauth d o).1
      ∧ OauthMatch (Sqlite.serveOauth s o).2 (Durable.serveOauth d o).2 := by
  cases o with
  | listSessionsForDid did now => exact ⟨h.listSessions_alike did now, h⟩
  | call o =>
      rw [h.same]
      simp only [Sqlite.serveOauth, Durable.serveOauth, applyOauth_eq]
      exact ⟨rfl, rfl, applyOauth_issued h.issued hrange⟩

end

/-! ## The backends -/

structure Match (K : Set (String × String)) (s : Sqlite.Db) (d : Durable.Object) : Prop where
  repo : RepoMatch s.repo d.repo
  accounts : AccountsMatch s.accounts d.accounts
  keys : d.keys = s.keys
  blobs : BlobsMatch K s.blobs d.blobs
  oauth : OauthMatch s.oauth d.oauth

theorem match_empty (K : Set (String × String)) : Match K .empty .migrated where
  repo := ⟨rfl, rfl, rfl, rfl, fun r hr => by cases hr⟩
  accounts := ⟨rfl, fun r hr => by cases hr⟩
  keys := rfl
  blobs := ⟨.empty, (fun k r hr => by cases hr), (fun k r hr => by cases hr)⟩
  oauth := ⟨rfl, fun r hr => by cases hr⟩

/-- A call is answered alike, and leaves the backends alike. -/
theorem Match.serve {K : Set (String × String)} (hK : KeysApart K) {s : Sqlite.Db}
    {d : Durable.Object} (h : Match K s d) (now : String) {C : CidLib} {o : StorageOp C}
    (hrange : o.InRange) (hmem : StoresIn K o) :
    RepliesAlike o.Same (s.serve now o).1 (d.serve now o).1
      ∧ Match K (s.serve now o).2 (d.serve now o).2 := by
  cases o with
  | repo o =>
      obtain ⟨hreply, hnext⟩ := h.repo.serve hrange
      exact ⟨repliesAlike_of_eq hreply, { h with repo := hnext }⟩
  | account o =>
      obtain ⟨hreply, hnext⟩ := h.accounts.serve now o
      exact ⟨hreply, { h with accounts := hnext }⟩
  | key o =>
      have hreply : (serveKey s.keys o) = serveKey d.keys o := by rw [h.keys]
      exact ⟨repliesAlike_of_eq (congrArg Prod.fst hreply),
        { h with keys := (congrArg Prod.snd hreply).symm }⟩
  | blob o =>
      obtain ⟨hreply, hnext⟩ := h.blobs.serve hK hmem
      exact ⟨repliesAlike_of_eq hreply, { h with blobs := hnext }⟩
  | oauth o =>
      obtain ⟨hreply, hnext⟩ := h.oauth.serve hrange
      exact ⟨hreply, { h with oauth := hnext }⟩

theorem simulates (C : CidLib) {K : Set (String × String)} (hK : KeysApart K) :
    Service.Simulates Alike (fun c => c.op.InRange ∧ StoresIn K c.op) (sqliteStore C) (doStore C)
      (Match K) where
  init := match_empty K
  alike h c hc := (h.serve hK c.now hc.1 hc.2).1
  next h c hc := (h.serve hK c.now hc.1 hc.2).2

end SqliteDurable

end Backend

end Stelyph
