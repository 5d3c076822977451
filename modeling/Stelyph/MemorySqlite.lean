import Stelyph.Lib.TableRel
import Stelyph.MemoryBackend
import Stelyph.SqliteBackend

/-!
# The memory backend and the SQLite backend

The maps of `MemoryStore` and the tables of `SqliteStore` hold the same
rows: CIDs as their text, flags and times as integers, and some columns
that only the database has. Trait by trait, each call answers alike on
both sides and leaves them so.
-/

namespace Stelyph

namespace Backend

namespace MemorySqlite

open Sql

/-! ## Repo path -/

def RepoSeqMatch (r : Memory.SeqRow) (r' : Int × RepoSeqRow) : Prop :=
  r'.1 = r.seq ∧ r'.2.event = r.event ∧ r'.2.invalidated = if r.invalidated then 1 else 0

/-- Both number the events 1, 2, 3 and so on. -/
structure RepoMatch {C : CidLib} (m : Memory.Repo C) (d : Sqlite.Repo) : Prop where
  blocks : Table.Rel C.toString Eq m.blocks d.blocks
  log : List.Forall₂ RepoSeqMatch m.repoSeq d.repoSeq.rows
  roots : Table.Rel id (fun c text => text = C.toString c) m.repoRoots d.repoRoots
  counted : m.repoSeq.map Memory.SeqRow.seq
    = (List.range m.repoSeq.length).map fun i : Nat => (i : Int) + 1
  next : m.nextSeq = m.repoSeq.length
  sequence : d.sequence = m.repoSeq.length

section

variable {C : CidLib} {m : Memory.Repo C} {d : Sqlite.Repo}

theorem RepoMatch.seqs (h : RepoMatch m d) :
    d.repoSeq.rows.map Prod.fst
      = (List.range m.repoSeq.length).map fun i : Nat => (i : Int) + 1 := by
  rw [← h.counted]
  exact (forall₂_map_eq h.log fun a b hab => hab.1.symm).symm

/-- The largest of the numbers up to `n`. -/
theorem max?_upTo (n : Nat) :
    ((List.range n).map fun i : Nat => (i : Int) + 1).max?.getD 0 = n := by
  induction n with
  | zero => rfl
  | succ n ih =>
      have hmax : ((List.range (n + 1)).map fun i : Nat => (i : Int) + 1).max?
          = some ((n : Int) + 1) := by
        refine List.max?_eq_some_iff.mpr ⟨?_, ?_⟩
        · exact List.mem_map.mpr ⟨n, List.mem_range.mpr (by omega), rfl⟩
        · intro b hb
          obtain ⟨i, hi, rfl⟩ := List.mem_map.mp hb
          have := List.mem_range.mp hi
          omega
      rw [hmax]
      simp

theorem RepoMatch.maxSeq_eq (h : RepoMatch m d) : m.maxSeq = d.maxSeq := by
  have hsql : d.maxSeq = m.repoSeq.length := by
    rw [Sqlite.Repo.maxSeq, h.seqs, max?_upTo]
  have hlast : m.maxSeq = (m.repoSeq.map Memory.SeqRow.seq).getLast?.getD 0 := by
    rw [Memory.Repo.maxSeq, List.getLast?_map]
  rw [hsql, hlast, h.counted]
  cases m.repoSeq.length with
  | zero => rfl
  | succ n => simp [List.range_succ]

/-- The log is in the order of its numbers already. -/
theorem RepoMatch.sorted (h : RepoMatch m d) :
    d.repoSeq.rows.Pairwise fun a b => a.1 ≤ b.1 := by
  have hseqs : (d.repoSeq.rows.map Prod.fst).Pairwise (· ≤ ·) := by
    rw [h.seqs]
    refine List.pairwise_map.mpr (List.pairwise_lt_range.imp ?_)
    intro a b hab
    omega
  exact List.pairwise_map.mp hseqs

theorem RepoMatch.backfillPage_eq (h : RepoMatch m d) (afterSeq : Int) {limit : Int}
    (hlimit : 0 ≤ limit) : m.backfillPage afterSeq limit = d.backfillPage afterSeq limit := by
  have hfilter : List.Forall₂ RepoSeqMatch
      (m.repoSeq.filter fun r => decide (r.seq > afterSeq) && !r.invalidated)
      (d.repoSeq.rows.filter fun r =>
        decide (r.1 > afterSeq) && decide (r.2.invalidated = 0)) := by
    refine forall₂_filter h.log fun a b hab => ?_
    rw [hab.1, hab.2.2]
    cases a.invalidated <;> simp
  have hsort := orderBy_of_pairwise (h.sorted.filter fun r =>
    decide (r.1 > afterSeq) && decide (r.2.invalidated = 0))
  have hmap := forall₂_map_eq hfilter
    (f := fun r => (r.seq, r.event)) (g := fun r => (r.1, r.2.event))
    fun a b hab => by rw [hab.1, hab.2.1]
  rw [Memory.Repo.backfillPage, Sqlite.Repo.backfillPage, hsort, sqlLimit,
    if_neg (Int.not_lt.mpr hlimit), max_eq_left hlimit, List.map_take, List.map_take, hmap]

theorem RepoMatch.loadRepoRoot_eq (hC : C.Laws) (h : RepoMatch m d) (did : String) :
    d.loadRepoRoot C did = .ok (m.repoRoots.get did) := by
  unfold Sqlite.Repo.loadRepoRoot
  rcases optionRel_cases (h.roots.get Function.injective_id did) with
    ⟨hm, hd⟩ | ⟨c, _, hm, hd, rfl⟩
  · simp only [id_eq] at hd
    rw [hm, hd]
  · simp only [id_eq] at hd
    simp only [hm, hd, hC c]

theorem RepoMatch.readBlockBytes_eq (hC : C.Laws) (h : RepoMatch m d) (cid : C.Cid) :
    d.readBlockBytes cid = m.readBlockBytes cid := by
  rw [Sqlite.Repo.readBlockBytes, h.blocks.get_eq hC.injective]
  rfl

theorem RepoMatch.putBlocks (hC : C.Laws) {t : Table C.Cid Bytes} {t' : Table String Bytes}
    (h : Table.Rel C.toString Eq t t') (blocks : List (C.Cid × Bytes)) :
    Table.Rel C.toString Eq (blocks.foldl (fun t b => t.insertOrIgnore b.1 b.2) t)
      (blocks.foldl (fun t b => t.insertOrIgnore (C.toString b.1) b.2) t') := by
  induction blocks generalizing t t' with
  | nil => exact h
  | cons b blocks ih => exact ih (h.insertOrIgnore hC.injective b.1 rfl)

/-- The next number is not taken. -/
theorem RepoMatch.fresh (h : RepoMatch m d) : d.repoSeq.get (d.sequence + 1) = none := by
  refine Table.get_eq_none_iff.mpr fun r hr heq => ?_
  have hmem : r.1 ∈ d.repoSeq.rows.map Prod.fst := List.mem_map_of_mem hr
  rw [h.seqs] at hmem
  obtain ⟨i, hi, hseq⟩ := List.mem_map.mp hmem
  have hlt := List.mem_range.mp hi
  have hcount := h.sequence
  omega

theorem RepoMatch.commitBlocks (hC : C.Laws) (h : RepoMatch m d)
    (blocks : List (C.Cid × Bytes)) (did : String) (newRoot : C.Cid) (eventBody : Bytes) :
    (m.commitBlocks blocks did newRoot eventBody).1
        = (d.commitBlocks blocks did newRoot eventBody).1
      ∧ RepoMatch (m.commitBlocks blocks did newRoot eventBody).2
          (d.commitBlocks blocks did newRoot eventBody).2 := by
  have hseq : d.sequence + 1 = m.nextSeq + 1 := by rw [h.sequence, h.next]
  refine ⟨hseq.symm, ?_⟩
  exact {
    blocks := RepoMatch.putBlocks hC h.blocks blocks
    log := by
      simp only [Memory.Repo.commitBlocks, Sqlite.Repo.commitBlocks,
        Table.rows_insert_of_get_none h.fresh]
      exact List.rel_append h.log (.cons ⟨hseq, rfl, rfl⟩ .nil)
    roots := h.roots.insert Function.injective_id did rfl
    counted := by
      simp only [Memory.Repo.commitBlocks, List.map_append, List.length_append, h.counted,
        List.length_singleton, List.range_succ, List.map_cons, List.map_nil, h.next]
    next := by
      simp only [Memory.Repo.commitBlocks, List.length_append, List.length_singleton, h.next]
      omega
    sequence := by
      simp only [Memory.Repo.commitBlocks, Sqlite.Repo.commitBlocks, List.length_append,
        List.length_singleton, h.sequence]
      omega }

theorem RepoMatch.serve (hC : C.Laws) (h : RepoMatch m d) {o : RepoStoreOp C}
    (hrange : (StorageOp.repo o).InRange) :
    (m.serve o).1 = (d.serve o).1 ∧ RepoMatch (m.serve o).2 (d.serve o).2 := by
  cases o with
  | readBlockBytes cid => exact ⟨(h.readBlockBytes_eq hC cid).symm, h⟩
  | putBlock cid bytes =>
      exact ⟨rfl, { h with blocks := h.blocks.insertOrIgnore hC.injective cid rfl }⟩
  | maxSeq => exact ⟨congrArg Except.ok h.maxSeq_eq, h⟩
  | backfillPage afterSeq limit =>
      exact ⟨congrArg Except.ok (h.backfillPage_eq afterSeq hrange), h⟩
  | loadRepoRoot did => exact ⟨(h.loadRepoRoot_eq hC did).symm, h⟩
  | updateRepoRoot did rootCid =>
      exact ⟨rfl, { h with roots := h.roots.insert Function.injective_id did rfl }⟩
  | commitBlocks blocks did newRoot eventBody =>
      obtain ⟨hseq, hnext⟩ := h.commitBlocks hC blocks did newRoot eventBody
      exact ⟨congrArg Except.ok hseq, hnext⟩

end

/-! ## Accounts, invites, preferences -/

/-- The columns of an account. -/
def accountRow (a : Memory.Account) : AccountRow :=
  ⟨a.did, a.handle, a.email, a.passwordPhc, a.createdAt, a.deactivatedAt, a.takedownRef⟩

def InviteMatch (i : Memory.Invite) (r : Sql.InviteRow) : Prop :=
  r.availableUses = i.availableUses ∧ r.disabled = if i.disabled then 1 else 0

structure AccountsMatch (m : Memory.Accounts) (d : Accounts) : Prop where
  accounts : Table.Rel id (fun a r => r = accountRow a) m.accounts d.accounts
  handles : m.accounts.rows.Pairwise fun r r' => r.2.handle ≠ r'.2.handle
  invites : Table.Rel id InviteMatch m.invites d.invites
  inviteUses : Table.Rel id Eq m.inviteUses d.inviteUses
  preferences : Table.Rel id Eq m.prefs d.preferences

section

variable {m : Memory.Accounts} {d : Accounts}

/-- Only one account has the handle. -/
theorem AccountsMatch.activeByHandle_eq (h : AccountsMatch m d) (handle : String) :
    d.activeByHandle handle = (m.activeByHandle handle).map accountRow := by
  have hone : m.accounts.rows.Pairwise fun r r' =>
      ¬ ((r.2.handle == some handle) = true ∧ (r'.2.handle == some handle) = true) := by
    refine h.handles.imp fun hne hboth => ?_
    simp only [beq_iff_eq] at hboth
    exact hne (hboth.1.trans hboth.2.symm)
  have hfind := find?_and_of_pairwise (q := fun r => r.2.isActive) hone
  have hactive : m.activeByHandle handle
      = m.accounts.selectOne fun _ a => a.handle == some handle && a.isActive := by
    unfold Memory.Accounts.activeByHandle Table.selectOne
    rw [hfind, Option.filter_map]
    rfl
  rw [hactive, Accounts.activeByHandle]
  have hrel := h.accounts.selectOne
    (p := fun _ a => a.handle == some handle && a.isActive)
    (q := fun _ r => r.handle == some handle && r.isActive)
    fun k a r hr => by rw [hr]; rfl
  rw [optionRel_map_eq hrel (f := accountRow) (g := id) fun a r hr => hr.symm, Option.map_id]
  rfl

theorem AccountsMatch.getHandleByDid_eq (h : AccountsMatch m d) (did : String) :
    d.getHandleByDid did = (m.active did).bind Memory.Account.handle := by
  rw [Accounts.getHandleByDid, Table.selectOne_key, Memory.Accounts.active]
  rcases optionRel_cases (h.accounts.get Function.injective_id did) with
    ⟨hm, hd⟩ | ⟨a, _, hm, hd, rfl⟩
  · simp only [id_eq] at hd
    rw [hm, hd]
    rfl
  · simp only [id_eq] at hd
    have hsame : (accountRow a).isActive = a.isActive := rfl
    rw [hm, hd, Option.filter_some, Option.filter_some, hsame]
    split_ifs <;> rfl

theorem AccountsMatch.listAccounts_alike (h : AccountsMatch m d) :
    SameUpToTies AccountSummary.createdAt m.listAccounts (Sqlite.listAccounts d) := by
  have hall := forall₂_map_eq h.accounts (f := fun r => r.2.summary) (g := fun r => r.2.summary)
    fun r r' hr => by rw [hr.2]; rfl
  refine SameUpToTies.of_orderBy ?_ (fun a _ b _ hab => hab) (List.Perm.of_eq ?_)
  · intro a _ b _ hab
    exact Prod.Lex.monotone_fst _ _ hab
  · rw [List.map_map, Table.selectAll, List.filter_true, List.map_map]
    exact hall

theorem AccountsMatch.update (h : AccountsMatch m d) (did : String)
    {f : Memory.Account → Memory.Account} {g : AccountRow → AccountRow}
    (hfg : ∀ a, g (accountRow a) = accountRow (f a)) (hhandle : ∀ a, (f a).handle = a.handle) :
    AccountsMatch { m with accounts := m.accounts.update did f } (d.updateAccount did g) where
  accounts := h.accounts.update Function.injective_id did fun a r hr => by rw [hr, hfg]
  handles := by
    refine List.pairwise_map.mpr (h.handles.imp fun {r r'} hne => ?_)
    have hkeep : ∀ r : String × Memory.Account,
        (if r.1 = did then (r.1, f r.2) else r).2.handle = r.2.handle := by
      intro r
      split_ifs
      · exact hhandle r.2
      · rfl
    rw [hkeep, hkeep]
    exact hne
  invites := h.invites
  inviteUses := h.inviteUses
  preferences := h.preferences

/-- One row is changed where the account is there, and none where it is not. -/
theorem AccountsMatch.modify (h : AccountsMatch m d) (did : String)
    {f : Memory.Account → Memory.Account} {g : AccountRow → AccountRow}
    (hfg : ∀ a, g (accountRow a) = accountRow (f a)) (hhandle : ∀ a, (f a).handle = a.handle) :
    (m.modify did f).1 = Sqlite.rowsOf d did
      ∧ AccountsMatch (m.modify did f).2 (d.updateAccount did g) := by
  have hrows : Sqlite.rowsOf d did = if m.accounts.contains did then 1 else 0 :=
    h.accounts.countWhere_key Function.injective_id did
  have hupdate := h.update did hfg hhandle
  unfold Memory.Accounts.modify
  rw [hrows]
  cases hdid : m.accounts.contains did with
  | true => exact ⟨rfl, hupdate⟩
  | false =>
      refine ⟨rfl, ?_⟩
      have hnone : m.accounts.get did = none := by simpa [Table.contains] using hdid
      have hsame : m.accounts.update did f = m.accounts := Table.update_of_get_none hnone f
      rw [hsame] at hupdate
      exact hupdate

/-- An account that is refused by one is refused by the other. -/
theorem AccountsMatch.insertAccount (h : AccountsMatch m d) (did handle : String)
    (email : Option String) (passwordPhc now : String) :
    (∃ e, m.insertAccountLocked did handle email passwordPhc now = .error e
      ∧ d.insertAccountRow did handle email passwordPhc now = none)
    ∨ ∃ m' d', m.insertAccountLocked did handle email passwordPhc now = .ok m'
      ∧ d.insertAccountRow did handle email passwordPhc now = some d' ∧ AccountsMatch m' d' := by
  have hclash := h.accounts.any_eq (p := fun a => a.handle == some handle)
    (q := fun r => r.handle == some handle) fun a r hr => by rw [hr]; rfl
  have hcontains := h.accounts.contains Function.injective_id did
  simp only [id_eq] at hcontains
  unfold Memory.Accounts.insertAccountLocked Accounts.insertAccountRow Table.insertNew
  rw [← hcontains, ← hclash]
  cases hdid : m.accounts.contains did with
  | true => exact Or.inl ⟨_, rfl, rfl⟩
  | false =>
      cases hany : m.accounts.rows.any fun r => r.2.handle == some handle with
      | true => exact Or.inl ⟨_, rfl, rfl⟩
      | false =>
          refine Or.inr ⟨_, _, rfl, rfl, ?_⟩
          have hnone : m.accounts.get did = none := by simpa [Table.contains] using hdid
          exact {
            accounts := h.accounts.insert Function.injective_id did rfl
            handles := by
              rw [Table.rows_insert_of_get_none hnone, List.pairwise_append]
              refine ⟨h.handles, List.pairwise_singleton _ _, ?_⟩
              intro r hr r' hr'
              obtain rfl := List.mem_singleton.mp hr'
              have hfree := List.any_eq_false.mp hany r hr
              simpa using hfree
            invites := h.invites
            inviteUses := h.inviteUses
            preferences := h.preferences }

theorem AccountsMatch.insertInvite (h : AccountsMatch m d) (code : String) (availableUses : Int)
    (forAccount : String) :
    (∃ e, m.insertInvite code availableUses = .error e
      ∧ d.insertInviteRow code availableUses forAccount = none)
    ∨ ∃ m' d', m.insertInvite code availableUses = .ok m'
      ∧ d.insertInviteRow code availableUses forAccount = some d' ∧ AccountsMatch m' d' := by
  have hcontains := h.invites.contains Function.injective_id code
  simp only [id_eq] at hcontains
  have hfree : (d.invites.rows.any fun _ => false) = false := by simp
  unfold Memory.Accounts.insertInvite Accounts.insertInviteRow Table.insertNew
  rw [← hcontains, hfree, Bool.or_false]
  cases m.invites.contains code with
  | true => exact Or.inl ⟨_, rfl, rfl⟩
  | false =>
      refine Or.inr ⟨_, _, rfl, rfl, ?_⟩
      exact { h with invites := h.invites.insert Function.injective_id code ⟨rfl, rfl⟩ }

theorem AccountsMatch.consumeInvite (h : AccountsMatch m d) (code usedBy : String) :
    (m.consumeInvite code usedBy).1 = (Sqlite.consumeInvite d code usedBy).1
      ∧ AccountsMatch (m.consumeInvite code usedBy).2 (Sqlite.consumeInvite d code usedBy).2 := by
  unfold Memory.Accounts.consumeInvite Sqlite.consumeInvite
  rcases optionRel_cases (h.invites.get Function.injective_id code) with
    ⟨hm, hd⟩ | ⟨i, r, hm, hd, huses, hdisabled⟩
  · simp only [id_eq] at hd
    rw [hm, hd]
    exact ⟨rfl, h⟩
  · simp only [id_eq] at hd
    have hcount : d.inviteUses.countWhere (fun k _ => decide (k = (code, usedBy)))
        = if m.inviteUses.contains (code, usedBy) then 1 else 0 :=
      h.inviteUses.countWhere_key Function.injective_id (code, usedBy)
    rw [hm, hd]
    simp only [huses, hdisabled, hcount]
    cases hdis : i.disabled with
    | true => exact ⟨rfl, h⟩
    | false =>
        by_cases hspent : i.availableUses ≤ 0
        · simpa [hspent] using h
        · have hzero : ¬ i.availableUses = 0 := by omega
          cases hused : m.inviteUses.contains (code, usedBy) with
          | true => simpa [hspent, hzero] using h
          | false =>
              have hfresh : d.inviteUses.contains (code, usedBy) = false :=
                (h.inviteUses.contains Function.injective_id (code, usedBy)).symm.trans hused
              have hnone : d.inviteUses.get (code, usedBy) = none := by
                simpa [Table.contains] using hfresh
              have hinsert : d.inviteUses.insertOrIgnore (code, usedBy) ()
                  = d.inviteUses.insert (code, usedBy) () := by
                simp [Table.insertOrIgnore, hfresh]
              have hsize :
                  (d.inviteUses.insert (code, usedBy) ()).size - d.inviteUses.size = 1 := by
                rw [Table.size, Table.rows_insert_of_get_none hnone, List.length_append, Table.size]
                simp
              simp only [hspent, hzero, if_false, hinsert, hsize, Bool.false_eq_true]
              refine ⟨by simp, ?_⟩
              simp only [gt_iff_lt, lt_irrefl, if_false, Nat.one_ne_zero]
              exact { h with
                inviteUses := h.inviteUses.insert Function.injective_id (code, usedBy) rfl
                invites := h.invites.update Function.injective_id code fun i r hr =>
                  ⟨by rw [hr.1], hr.2⟩ }

theorem AccountsMatch.size_eq (h : AccountsMatch m d) :
    m.accounts.size = d.accounts.countWhere fun _ _ => true := by
  rw [h.accounts.size, Table.countWhere, List.countP_true]
  rfl

theorem AccountsMatch.serve (h : AccountsMatch m d) (now : String) (o : AccountStoreOp) :
    RepliesAlike o.Same (m.serve now o).1 (Sqlite.serveAccount d now o).1
      ∧ AccountsMatch (m.serve now o).2 (Sqlite.serveAccount d now o).2 := by
  cases o with
  | countAccounts => exact ⟨h.size_eq, h⟩
  | insertAccount did handle email passwordPhc =>
      simp only [Memory.Accounts.serve, Sqlite.serveAccount]
      rcases h.insertAccount did handle email passwordPhc now with
        ⟨e, hm, hd⟩ | ⟨m', d', hm, hd, hnext⟩
      · rw [hm, hd]
        exact ⟨trivial, h⟩
      · rw [hm, hd]
        exact ⟨rfl, hnext⟩
  | countAndInsertAccount did handle email passwordPhc =>
      simp only [Memory.Accounts.serve, Sqlite.serveAccount]
      rcases h.insertAccount did handle email passwordPhc now with
        ⟨e, hm, hd⟩ | ⟨m', d', hm, hd, hnext⟩
      · rw [hm, hd]
        exact ⟨trivial, h⟩
      · rw [hm, hd]
        exact ⟨h.size_eq, hnext⟩
  | getAccountByHandle handle =>
      refine ⟨?_, h⟩
      simp only [Sqlite.serveAccount, Accounts.getAccountByHandle, h.activeByHandle_eq,
        Option.map_map]
      rfl
  | getDidByHandle handle =>
      refine ⟨?_, h⟩
      simp only [Sqlite.serveAccount, Accounts.getDidByHandle, h.activeByHandle_eq,
        Option.map_map]
      rfl
  | getHandleByDid did => exact ⟨(h.getHandleByDid_eq did).symm, h⟩
  | listAccounts => exact ⟨h.listAccounts_alike, h⟩
  | updatePassword did passwordPhc => exact h.modify did (fun a => rfl) fun a => rfl
  | setTakedown did reference => exact h.modify did (fun a => rfl) fun a => rfl
  | clearTakedown did => exact h.modify did (fun a => rfl) fun a => rfl
  | insertInvite code availableUses forAccount =>
      simp only [Memory.Accounts.serve, Sqlite.serveAccount]
      rcases h.insertInvite code availableUses forAccount with
        ⟨e, hm, hd⟩ | ⟨m', d', hm, hd, hnext⟩
      · rw [hm, hd]
        exact ⟨trivial, h⟩
      · rw [hm, hd]
        exact ⟨rfl, hnext⟩
  | consumeInvite code usedBy => exact h.consumeInvite code usedBy
  | upsertPreferences did prefsJson =>
      exact ⟨rfl, { h with preferences := h.preferences.insert Function.injective_id did rfl }⟩
  | getPreferences did =>
      exact ⟨(h.preferences.get_eq Function.injective_id did).symm, h⟩

end

/-! ## Blobs -/

def BlobMatch (v : String × Bytes) (r : Sqlite.BlobRow) : Prop :=
  r.mimeType = v.1 ∧ r.bytes = v.2

section

variable {m : Table (String × String) (String × Bytes)}
  {d : Table (String × String) Sqlite.BlobRow}

theorem listBlobs_eq (h : Table.Rel id BlobMatch m d) (did : String) {limit : Nat}
    (hlimit : limit < 2 ^ 63) (cursor : Option String) :
    Memory.listBlobs m did limit cursor = Sqlite.listBlobs d did limit cursor := by
  have hcids : (m.rows.filter fun r => decide (r.1.1 = did)).map (fun r => r.1.2)
      = (d.rows.filter fun r => decide (r.1.1 = did)).map fun r => r.1.2 := by
    refine forall₂_map_eq (forall₂_filter h fun r r' hr => ?_) fun r r' hr => ?_
    · rw [hr.1]
      rfl
    · rw [hr.1]
      rfl
  have hfilter : ((d.rows.filter fun r => decide (r.1.1 = did)).map fun r => r.1.2).filter
        (fun c => cursor.all fun cur => decide (cur < c))
      = (d.rows.filter fun r =>
          decide (r.1.1 = did) && cursor.all fun cur => decide (cur < r.1.2)).map
            fun r => r.1.2 := by
    rw [List.filter_map, List.filter_filter]
    congr 2
    funext r
    exact Bool.and_comm _ _
  rw [Memory.listBlobs, Sqlite.listBlobs, sqlLimit_asI64 hlimit]
  simp only [hcids, filter_orderBy Function.injective_id, hfilter]

theorem blobs_serve (h : Table.Rel id BlobMatch m d) {C : CidLib} {o : BlobStoreOp}
    (hrange : (StorageOp.blob o : StorageOp C).InRange) :
    (Memory.serveBlob m o).1 = (Sqlite.serveBlob d o).1
      ∧ Table.Rel id BlobMatch (Memory.serveBlob m o).2 (Sqlite.serveBlob d o).2 := by
  cases o with
  | putBlob did cid mimeType size bytes =>
      exact ⟨rfl, h.insert Function.injective_id (did, cid) ⟨rfl, rfl⟩⟩
  | getBlob did cid =>
      refine ⟨congrArg Except.ok ?_, h⟩
      have hmap := optionRel_map_eq (h.get Function.injective_id (did, cid)) (f := id)
        (g := fun r => (r.mimeType, r.bytes)) fun v r hr => by rw [hr.1, hr.2]; rfl
      rw [Option.map_id] at hmap
      exact hmap
  | listBlobs did limit cursor =>
      exact ⟨congrArg Except.ok (listBlobs_eq h did hrange cursor), h⟩

end

/-! ## Keys -/

theorem keys_serve {m d : Table String Bytes} (h : Table.Rel id Eq m d) (o : KeyStoreOp) :
    (Memory.serveKey m o).1 = (serveKey d o).1
      ∧ Table.Rel id Eq (Memory.serveKey m o).2 (serveKey d o).2 := by
  cases o with
  | putKeyBlob id ciphertext => exact ⟨rfl, h.insert Function.injective_id id rfl⟩
  | getKeyBlob id =>
      exact ⟨congrArg Except.ok (h.get_eq Function.injective_id id).symm, h⟩

/-! ## OAuth server state -/

def ParMatch (r : StoredPushedRequest) (row : ParRow) : Prop :=
  row = .ofRecord r ∧ TimeInRange r.expiresAt

def CodeMatch (c : AuthCode) (row : CodeRow) : Prop :=
  row = .ofRecord c ∧ TimeInRange c.expiresAt

def RefreshMatch (t : RefreshTokenRecord × Bool) (row : RefreshRow) : Prop :=
  row = { RefreshRow.ofRecord t.1 with used := if t.2 then 1 else 0 }
    ∧ TimeInRange t.1.issuedAt ∧ TimeInRange t.1.expiresAt

def JtiMatch (expiresAt : Nat) (column : Int) : Prop :=
  column = asI64 expiresAt ∧ TimeInRange expiresAt

structure OauthMatch (m : OauthStore) (d : Oauth) : Prop where
  par : Table.Rel id ParMatch m.par d.par
  codes : Table.Rel id CodeMatch m.codes d.codes
  refresh : Table.Rel id RefreshMatch m.refresh d.refresh
  jti : Table.Rel id JtiMatch m.jti d.jti

/-- Times compare as their columns do. -/
theorem asI64_gt {t now : Nat} (ht : TimeInRange t) (hnow : TimeInRange now) :
    decide (asI64 t > asI64 now) = decide (t > now) := by
  rw [asI64_of_lt ht, asI64_of_lt hnow]
  simp

theorem asI64_le {t now : Nat} (ht : TimeInRange t) (hnow : TimeInRange now) :
    decide (asI64 t ≤ asI64 now) = decide (t ≤ now) := by
  rw [asI64_of_lt ht, asI64_of_lt hnow]
  simp

theorem ParMatch.record_eq {r : StoredPushedRequest} {row : ParRow} (h : ParMatch r row) :
    row.record = r := by
  rw [h.1, ParRow.record, ParRow.ofRecord, asU64_asI64 h.2]

theorem CodeMatch.record_eq {c : AuthCode} {row : CodeRow} (h : CodeMatch c row) :
    row.record = c := by
  rw [h.1, CodeRow.record, CodeRow.ofRecord, asU64_asI64 h.2]

theorem RefreshMatch.record_eq {t : RefreshTokenRecord × Bool} {row : RefreshRow}
    (h : RefreshMatch t row) : row.record = t.1 := by
  rw [h.1, RefreshRow.record, RefreshRow.ofRecord, asU64_asI64 h.2.1, asU64_asI64 h.2.2]

section

variable {m : OauthStore} {d : Oauth} {now : Nat}

theorem OauthMatch.getPushedRequest_eq (h : OauthMatch m d) (hnow : TimeInRange now)
    (hash : String) : d.getPushedRequest hash now = m.getPushedRequest hash now := by
  rw [Oauth.getPushedRequest, Table.selectOne_key, OauthStore.getPushedRequest]
  rcases optionRel_cases (h.par.get Function.injective_id hash) with
    ⟨hm, hd⟩ | ⟨r, row, hm, hd, hrow⟩
  · simp only [id_eq] at hd
    rw [hm, hd]
    rfl
  · simp only [id_eq] at hd
    have hexp : decide (row.expiresAt > asI64 now) = decide (r.expiresAt > now) := by
      rw [hrow.1, ← asI64_gt hrow.2 hnow]
      rfl
    rw [hm, hd, Option.filter_some, Option.filter_some, hexp]
    split_ifs
    · exact congrArg some hrow.record_eq
    · rfl

theorem OauthMatch.consumeAuthCode (h : OauthMatch m d) (hnow : TimeInRange now)
    (hash : String) :
    (m.consumeAuthCode hash now).1 = (d.consumeAuthCode hash now).1
      ∧ OauthMatch (m.consumeAuthCode hash now).2 (d.consumeAuthCode hash now).2 := by
  constructor
  · rw [OauthStore.consumeAuthCode, Oauth.consumeAuthCode, Table.selectOne_key]
    rcases optionRel_cases (h.codes.get Function.injective_id hash) with
      ⟨hm, hd⟩ | ⟨c, row, hm, hd, hrow⟩
    · simp only [id_eq] at hd
      rw [hm, hd]
      rfl
    · simp only [id_eq] at hd
      have hexp : decide (row.expiresAt > asI64 now) = decide (c.expiresAt > now) := by
        rw [hrow.1, ← asI64_gt hrow.2 hnow]
        rfl
      simp only [hm, hd, Option.filter_some, hexp]
      split_ifs
      · exact congrArg some hrow.record_eq.symm
      · rfl
  · exact { h with
      codes := h.codes.retain fun k c row _ => by simp }

theorem OauthMatch.consumeRefreshToken (h : OauthMatch m d) (hnow : TimeInRange now)
    (hash : String) :
    (m.consumeRefreshToken hash now).1 = (d.consumeRefreshToken hash now).1
      ∧ OauthMatch (m.consumeRefreshToken hash now).2 (d.consumeRefreshToken hash now).2 := by
  rw [OauthStore.consumeRefreshToken, Oauth.consumeRefreshToken, Table.selectOne_key]
  rcases optionRel_cases (h.refresh.get Function.injective_id hash) with
    ⟨hm, hd⟩ | ⟨t, row, hm, hd, hrow⟩
  · simp only [id_eq] at hd
    rw [hm, hd]
    exact ⟨rfl, h⟩
  · simp only [id_eq] at hd
    obtain ⟨rec, used⟩ := t
    have hexp : decide (row.expiresAt > asI64 now) = decide (rec.expiresAt > now) := by
      rw [hrow.1, ← asI64_gt hrow.2.2 hnow]
      rfl
    have hused : row.used = if used then 1 else 0 := by rw [hrow.1]
    have hsession : row.sessionId = rec.sessionId := by rw [hrow.1]; rfl
    rw [hm, hd, Option.filter_some, hexp]
    by_cases hlate : rec.expiresAt ≤ now
    · have hnot : ¬ rec.expiresAt > now := by omega
      simp only [hlate, if_true, hnot, decide_false, Bool.false_eq_true, if_false]
      exact ⟨trivial, h⟩
    · have hin : rec.expiresAt > now := by omega
      simp only [hlate, if_false, hin, decide_true, if_true, hused, hsession]
      cases used with
      | true => exact ⟨rfl, h⟩
      | false =>
          refine ⟨congrArg ConsumeResult.consumed hrow.record_eq.symm, ?_⟩
          exact { h with
            refresh := h.refresh.insert Function.injective_id hash
              ⟨by rw [hrow.1]; rfl, hrow.2⟩ }

/-- The rows of a session go on both sides. -/
theorem OauthMatch.deleteSession (h : OauthMatch m d) (sessionId : String) :
    (m.revokeSession sessionId).1 = (d.deleteSession sessionId).1
      ∧ OauthMatch (m.dropSession sessionId) (d.deleteSession sessionId).2 := by
  have hrows := h.refresh.deleteWhere (p := fun _ t => decide (t.1.sessionId = sessionId))
    (q := fun _ row => decide (row.sessionId = sessionId))
    fun k t row hrow => by rw [hrow.1]; rfl
  rw [Table.deleteWhere_eq] at hrows
  have hkeep : (fun (_ : String) (t : RefreshTokenRecord × Bool) =>
      !decide (t.1.sessionId = sessionId)) = fun _ t => decide (t.1.sessionId ≠ sessionId) := by
    funext _ t
    simp
  rw [hkeep] at hrows
  exact ⟨hrows.1, { h with refresh := hrows.2 }⟩

theorem OauthMatch.revokeRefreshToken (h : OauthMatch m d) (hash : String) :
    (m.revokeRefreshToken hash).1 = (d.revokeRefreshToken hash).1
      ∧ OauthMatch (m.revokeRefreshToken hash).2 (d.revokeRefreshToken hash).2 := by
  rw [OauthStore.revokeRefreshToken, Oauth.revokeRefreshToken]
  rcases optionRel_cases (h.refresh.get Function.injective_id hash) with
    ⟨hm, hd⟩ | ⟨t, row, hm, hd, hrow⟩
  · simp only [id_eq] at hd
    rw [hm, hd]
    exact ⟨rfl, h⟩
  · simp only [id_eq] at hd
    have hsession : row.sessionId = t.1.sessionId := by rw [hrow.1]; rfl
    rw [hm, hd, Option.map_some, hsession]
    exact ⟨rfl, (h.deleteSession t.1.sessionId).2⟩

theorem OauthMatch.recordDpopJti (h : OauthMatch m d) (jti : String) {expiresAt : Nat}
    (hexp : TimeInRange expiresAt) :
    (m.recordDpopJti jti expiresAt).1 = (Sqlite.recordDpopJti d jti expiresAt).1
      ∧ OauthMatch (m.recordDpopJti jti expiresAt).2
          (Sqlite.recordDpopJti d jti expiresAt).2 := by
  have hcontains := h.jti.contains Function.injective_id jti
  simp only [id_eq] at hcontains
  unfold OauthStore.recordDpopJti Sqlite.recordDpopJti Table.insertOrIgnore
  rw [hcontains]
  cases hd : d.jti.contains jti with
  | true => simpa using h
  | false =>
      have hnone : d.jti.get jti = none := by simpa [Table.contains] using hd
      have hsize : (d.jti.insert jti (asI64 expiresAt)).size - d.jti.size = 1 := by
        rw [Table.size, Table.rows_insert_of_get_none hnone, List.length_append, Table.size]
        simp
      simp only [Bool.false_eq_true, if_false, hsize]
      refine ⟨by simp, ?_⟩
      exact { h with jti := h.jti.insert Function.injective_id jti ⟨rfl, hexp⟩ }

/-- One table of a purge. -/
theorem purge_table {ν ν' : Type} {t : Table String ν} {t' : Table String ν'} {R : ν → ν' → Prop}
    (time : ν → Nat) (column : ν' → Int) (hnow : TimeInRange now) (h : Table.Rel id R t t')
    (hR : ∀ v v', R v v' → column v' = asI64 (time v) ∧ TimeInRange (time v)) :
    (t'.deleteWhere fun _ v => decide (column v ≤ asI64 now)).1
        = t.size - (t.retain fun _ v => decide (time v > now)).size
      ∧ Table.Rel id R (t.retain fun _ v => decide (time v > now))
          (t'.deleteWhere fun _ v => decide (column v ≤ asI64 now)).2 := by
  have hrows := h.deleteWhere (p := fun _ v => decide (time v ≤ now))
    (q := fun _ v => decide (column v ≤ asI64 now))
    fun k v v' hv => by rw [(hR v v' hv).1, asI64_le (hR v v' hv).2 hnow]
  rw [Table.deleteWhere_expired t time now] at hrows
  exact ⟨hrows.1.symm, hrows.2⟩

theorem OauthMatch.purgeExpired (h : OauthMatch m d) (hnow : TimeInRange now) :
    (m.purgeExpired now).1 = (Sqlite.purgeExpired d now).1
      ∧ OauthMatch (m.purgeExpired now).2 (Sqlite.purgeExpired d now).2 := by
  obtain ⟨hpar, hpar'⟩ := purge_table StoredPushedRequest.expiresAt ParRow.expiresAt
    hnow h.par fun r row hrow => ⟨by rw [hrow.1]; rfl, hrow.2⟩
  obtain ⟨hcodes, hcodes'⟩ := purge_table AuthCode.expiresAt CodeRow.expiresAt
    hnow h.codes fun c row hrow => ⟨by rw [hrow.1]; rfl, hrow.2⟩
  obtain ⟨hrefresh, hrefresh'⟩ := purge_table (fun t => t.1.expiresAt)
    RefreshRow.expiresAt hnow h.refresh
    fun t row hrow => ⟨by rw [hrow.1]; rfl, hrow.2.2⟩
  obtain ⟨hjti, hjti'⟩ := purge_table (fun e : Nat => e) (fun e : Int => e) hnow
    h.jti fun e column hcolumn => hcolumn
  refine ⟨?_, ⟨hpar', hcodes', hrefresh', hjti'⟩⟩
  have h₁ := m.par.size_retain_le fun _ r => decide (r.expiresAt > now)
  have h₂ := m.codes.size_retain_le fun _ c => decide (c.expiresAt > now)
  have h₃ := m.refresh.size_retain_le fun _ t => decide (t.1.expiresAt > now)
  have h₄ := m.jti.size_retain_le fun _ e => decide (e > now)
  simp only [OauthStore.purgeExpired, OauthStore.dropExpired, OauthStore.count,
    Sqlite.purgeExpired, hpar, hcodes, hrefresh, hjti]
  omega

/-- The open sessions, as records, in the order of the rows. -/
theorem OauthMatch.openSessions_eq (h : OauthMatch m d) (hnow : TimeInRange now)
    (did : String) :
    (m.refresh.selectAll fun _ t =>
        !t.2 && decide (t.1.did = did) && decide (t.1.expiresAt > now)).map Prod.fst
      = (d.openSessions did now).map RefreshRow.record := by
  refine forall₂_map_eq (h.refresh.selectAll (q := fun _ r =>
    decide (r.did = did) && decide (r.expiresAt > asI64 now) && decide (r.used = 0))
    fun k t row hrow => ?_) fun t row hrow => hrow.record_eq.symm
  have hexp : decide (row.expiresAt > asI64 now) = decide (t.1.expiresAt > now) := by
    rw [hrow.1, ← asI64_gt hrow.2.2 hnow]
    rfl
  have hdid : row.did = t.1.did := by rw [hrow.1]; rfl
  have hused : decide (row.used = 0) = !t.2 := by
    rw [hrow.1]
    cases t.2 <;> rfl
  rw [hexp, hdid, hused]
  cases t.2 <;> simp

/-- The columns of an open session hold times. -/
theorem OauthMatch.issuedAt_eq (h : OauthMatch m d) {did : String} {r : RefreshRow}
    (hr : r ∈ d.openSessions did now) : r.issuedAt = r.record.issuedAt := by
  obtain ⟨row, hrow, rfl⟩ := List.mem_map.mp hr
  obtain ⟨t, -, ht⟩ := forall₂_right_of_mem h.refresh (List.mem_of_mem_filter hrow)
  rw [ht.2.record_eq, ht.2.1, ← asI64_of_lt ht.2.2.1]
  rfl

theorem OauthMatch.listSessions_alike (h : OauthMatch m d) (hnow : TimeInRange now)
    (did : String) :
    SameUpToTies RefreshTokenRecord.issuedAt (Memory.listSessionsForDid m did now)
      (Sqlite.listSessionsForDid d did now) := by
  have halike : SameUpToTies (fun t : RefreshTokenRecord => OrderDual.toDual t.issuedAt)
      ((Memory.listSessionsForDid m did now).map id) (Sqlite.listSessionsForDid d did now) := by
    refine SameUpToTies.of_orderBy ?_ ?_ (List.Perm.of_eq ?_)
    · intro a _ b _ hab
      exact Prod.Lex.monotone_fst _ _ hab
    · intro a ha b hb hab
      have hcolumns : b.issuedAt ≤ a.issuedAt := hab
      rw [h.issuedAt_eq ha, h.issuedAt_eq hb] at hcolumns
      exact OrderDual.toDual_le_toDual.mpr (by omega)
    · rw [List.map_id]
      exact h.openSessions_eq hnow did
  rw [List.map_id] at halike
  exact halike

theorem OauthMatch.serve (h : OauthMatch m d) {o : OauthStoreOp} (hrange : o.InRange) :
    RepliesAlike o.Same (Memory.serveOauth m o).1 (Sqlite.serveOauth d o).1
      ∧ OauthMatch (Memory.serveOauth m o).2 (Sqlite.serveOauth d o).2 := by
  cases o with
  | listSessionsForDid did now => exact ⟨h.listSessions_alike hrange did, h⟩
  | call o =>
      cases o with
      | putPushedRequest req =>
          exact ⟨rfl, { h with
            par := h.par.insert Function.injective_id req.requestUriHash ⟨rfl, hrange⟩ }⟩
      | getPushedRequest hash now => exact ⟨(h.getPushedRequest_eq hrange hash).symm, h⟩
      | deletePushedRequest hash =>
          exact ⟨rfl, { h with par := h.par.retain fun k r row _ => by simp }⟩
      | putAuthCode code =>
          exact ⟨rfl, { h with
            codes := h.codes.insert Function.injective_id code.codeHash ⟨rfl, hrange⟩ }⟩
      | consumeAuthCode hash now => exact h.consumeAuthCode hrange hash
      | putRefreshToken token =>
          exact ⟨rfl, { h with
            refresh := h.refresh.insert Function.injective_id token.tokenHash ⟨rfl, hrange⟩ }⟩
      | consumeRefreshToken hash now => exact h.consumeRefreshToken hrange hash
      | revokeSession sessionId => exact h.deleteSession sessionId
      | revokeRefreshToken hash => exact h.revokeRefreshToken hash
      | recordDpopJti jti expiresAt => exact h.recordDpopJti jti hrange
      | purgeExpired now => exact h.purgeExpired hrange

end

/-! ## The backends -/

structure Match {C : CidLib} (m : Memory.Inner C) (d : Sqlite.Db) : Prop where
  repo : RepoMatch m.repo d.repo
  accounts : AccountsMatch m.accounts d.accounts
  keys : Table.Rel id Eq m.keys d.keys
  blobs : Table.Rel id BlobMatch m.blobs d.blobs
  oauth : OauthMatch m.oauth d.oauth

theorem match_empty {C : CidLib} : Match (Memory.Inner.empty : Memory.Inner C) .empty where
  repo := ⟨.empty, .nil, .empty, rfl, rfl, rfl⟩
  accounts := ⟨.empty, .nil, .empty, .empty, .empty⟩
  keys := .empty
  blobs := .empty
  oauth := ⟨.empty, .empty, .empty, .empty⟩

/-- A call is answered alike, and leaves the backends alike. -/
theorem Match.serve {C : CidLib} (hC : C.Laws) {m : Memory.Inner C} {d : Sqlite.Db}
    (h : Match m d) (now : String) {o : StorageOp C} (hrange : o.InRange) :
    RepliesAlike o.Same (m.serve now o).1 (d.serve now o).1
      ∧ Match (m.serve now o).2 (d.serve now o).2 := by
  cases o with
  | repo o =>
      obtain ⟨hreply, hnext⟩ := h.repo.serve hC hrange
      exact ⟨repliesAlike_of_eq hreply, { h with repo := hnext }⟩
  | account o =>
      obtain ⟨hreply, hnext⟩ := h.accounts.serve now o
      exact ⟨hreply, { h with accounts := hnext }⟩
  | key o =>
      obtain ⟨hreply, hnext⟩ := keys_serve h.keys o
      exact ⟨repliesAlike_of_eq hreply, { h with keys := hnext }⟩
  | blob o =>
      obtain ⟨hreply, hnext⟩ := blobs_serve h.blobs hrange
      exact ⟨repliesAlike_of_eq hreply, { h with blobs := hnext }⟩
  | oauth o =>
      obtain ⟨hreply, hnext⟩ := h.oauth.serve hrange
      exact ⟨hreply, { h with oauth := hnext }⟩

theorem simulates {C : CidLib} (hC : C.Laws) :
    Service.Simulates Alike (fun c => c.op.InRange) (memoryStore C) (sqliteStore C) Match where
  init := match_empty
  alike h c hc := (h.serve hC c.now hc).1
  next h c hc := (h.serve hC c.now hc).2

end MemorySqlite

end Backend

end Stelyph
