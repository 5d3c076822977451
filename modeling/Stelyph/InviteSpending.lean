import Stelyph.DurableBackend
import Stelyph.Lib.Quota
import Stelyph.MemoryBackend
import Stelyph.SqliteBackend

/-!
# Spending invites

`consume_invite` of the three backends: a map behind a mutex, a transaction
on SQLite's writer, a handler of a Durable Object that waits for nothing
between its statements. Each call is one step, so calls that run at the
same time are calls in some order. Each of them is a sound spending of one
quota, with a pool for every code.
-/

namespace Stelyph

namespace Backend

/-- Two calls of a backend, and what of its state they are about. -/
structure InviteBackend where
  State : Type
  insertInvite : State → (code : String) → (availableUses : Int) → (forAccount : String) →
    Except StorageError Unit × State
  consumeInvite : State → (code usedBy : String) → Except StorageError Bool × State
  /-- The column of the code's row. -/
  availableUses : State → String → Option Int
  /-- The rows of `invite_uses`, as code and `used_by`. -/
  inviteUses : State → List (String × String)

namespace InviteBackend

/-- A call that answers `true` spends a use. -/
def quota (B : InviteBackend) : Quota B.State (String × String) String where
  pool call := call.1
  spend s call := ((B.consumeInvite s call.1 call.2).1 matches .ok true,
    (B.consumeInvite s call.1 call.2).2)
  left s code := (B.availableUses s code).getD 0
  record := B.inviteUses

@[simp] theorem quota_pool (B : InviteBackend) (call : String × String) :
    B.quota.pool call = call.1 := rfl

theorem quota_left (B : InviteBackend) (s : B.State) (code : String) :
    B.quota.left s code = (B.availableUses s code).getD 0 := rfl

/-- The calls for a code that answer `true`. -/
def successes (B : InviteBackend) (code : String) (s : B.State) (calls : List (String × String)) :
    List (String × String) :=
  B.quota.grantsOf code s calls

end InviteBackend

/-- The calls on a code that was created with `n` uses, among any others.
With no storage failure none of them fails, one that is refused changes
nothing, at most `n` succeed, each for a `used_by` of its own, and what is
left is `n` less their number. -/
structure NeverOverspent (B : InviteBackend) : Prop where
  answered : ∀ s code usedBy, ∃ b, (B.consumeInvite s code usedBy).1 = .ok b
  refused : ∀ s code usedBy, (B.consumeInvite s code usedBy).1 = .ok false →
    (B.consumeInvite s code usedBy).2 = s
  recorded : ∀ s calls, B.inviteUses (B.quota.after s calls)
    = B.inviteUses s ++ B.quota.grants s calls
  spent : ∀ (s s₁ : B.State) (code : String) (n : Nat) (forAccount : String),
    B.insertInvite s code n forAccount = (.ok (), s₁) → ∀ calls : List (String × String),
      (B.successes code s₁ calls).length ≤ n
      ∧ B.availableUses (B.quota.after s₁ calls) code
        = some ((n - (B.successes code s₁ calls).length : Nat) : Int)
      ∧ ((B.successes code s₁ calls).map Prod.snd).Nodup

/-! ## The three backends -/

/-- The invites of the in-memory store, by its clock: what is spent and by
whom is read off its tables. -/
def memoryInvites (now : String) : InviteBackend where
  State := Memory.Accounts
  insertInvite s code availableUses forAccount :=
    s.serve now (.insertInvite code availableUses forAccount)
  consumeInvite s code usedBy := s.serve now (.consumeInvite code usedBy)
  availableUses s code := (s.invites.get code).map fun i => i.availableUses
  inviteUses s := s.inviteUses.rows.map Prod.fst

/-- The invites of the SQLite store, by the clock of the database. -/
def sqliteInvites (now : String) : InviteBackend where
  State := Sql.Accounts
  insertInvite s code availableUses forAccount :=
    Sqlite.serveAccount s now (.insertInvite code availableUses forAccount)
  consumeInvite s code usedBy := Sqlite.serveAccount s now (.consumeInvite code usedBy)
  availableUses s code := (s.invites.get code).map fun r => r.availableUses
  inviteUses s := s.inviteUses.rows.map Prod.fst

/-- The invites of the Worker's object, by its clock. -/
def durableInvites (now : String) : InviteBackend where
  State := Sql.Accounts
  insertInvite s code availableUses forAccount :=
    Durable.serveAccount s now (.insertInvite code availableUses forAccount)
  consumeInvite s code usedBy := Durable.serveAccount s now (.consumeInvite code usedBy)
  availableUses s code := (s.invites.get code).map fun r => r.availableUses
  inviteUses s := s.inviteUses.rows.map Prod.fst

/-! ## One call -/

/-- Everything a call can do: nothing, or spend a use that is there. -/
structure Spends (B : InviteBackend) : Prop where
  cases : ∀ s code usedBy, B.consumeInvite s code usedBy = (.ok false, s)
    ∨ ∃ a s', B.consumeInvite s code usedBy = (.ok true, s') ∧ 0 < a
      ∧ B.availableUses s code = some a ∧ (code, usedBy) ∉ B.inviteUses s
      ∧ B.inviteUses s' = B.inviteUses s ++ [(code, usedBy)]
      ∧ ∀ c, B.availableUses s' c = if c = code then some (a - 1) else B.availableUses s c
  created : ∀ s s₁ code n forAccount, B.insertInvite s code n forAccount = (.ok (), s₁) →
    B.availableUses s₁ code = some n

section

variable {κ ν : Type} [DecidableEq κ]

theorem keys_insert_of_get_none {t : Table κ Unit} {k : κ} (h : t.get k = none) :
    (t.insert k ()).rows.map Prod.fst = t.rows.map Prod.fst ++ [k] := by
  rw [Table.rows_insert_of_get_none h, List.map_append]
  rfl

theorem not_mem_keys_of_get_none {t : Table κ ν} {k : κ} (h : t.get k = none) :
    k ∉ t.rows.map Prod.fst := by
  intro hk
  obtain ⟨r, hr, hkey⟩ := List.mem_map.mp hk
  exact Table.get_eq_none_iff.mp h r hr hkey

/-- A column after one was taken off it in the row of a key. -/
theorem column_update {column : ν → Int} {f : ν → ν} (hf : ∀ v, column (f v) = column v - 1)
    {t : Table κ ν} {k : κ} {v : ν} (hget : t.get k = some v) (k' : κ) :
    ((t.update k f).get k').map column
      = if k' = k then some (column v - 1) else (t.get k').map column := by
  split_ifs with hk
  · rw [hk, Table.get_update_self, hget, Option.map_some, Option.map_some, hf]
  · rw [Table.get_update_of_ne hk]

end

theorem availableUses_of_insertInviteRow {s s' : Sql.Accounts} {code forAccount : String} {n : Int}
    (h : s.insertInviteRow code n forAccount = some s') :
    (s'.invites.get code).map (fun r => r.availableUses) = some n := by
  obtain ⟨invites, hinvites, rfl⟩ := Option.map_eq_some_iff.mp h
  unfold Table.insertNew at hinvites
  split_ifs at hinvites
  obtain rfl := Option.some.inj hinvites
  rw [Table.get_insert_self]
  rfl

theorem memory_spends (now : String) : Spends (memoryInvites now) where
  cases s code usedBy := by
    change Memory.Accounts at s
    simp only [memoryInvites, Memory.Accounts.serve, Memory.Accounts.consumeInvite]
    cases hget : s.invites.get code with
    | none => exact Or.inl rfl
    | some i =>
        by_cases hdisabled : i.disabled = true
        · exact Or.inl (by simp [hdisabled])
        · by_cases hspent : i.availableUses ≤ 0
          · exact Or.inl (by simp [hdisabled, hspent])
          · by_cases hused : s.inviteUses.contains (code, usedBy) = true
            · exact Or.inl (by simp [hdisabled, hspent, hused])
            · have hnone : s.inviteUses.get (code, usedBy) = none := by
                simpa [Table.contains] using hused
              exact Or.inr ⟨i.availableUses, { s with
                  inviteUses := s.inviteUses.insert (code, usedBy) ()
                  invites := s.invites.update code fun i =>
                    { i with availableUses := i.availableUses - 1 } },
                by simp [hdisabled, hspent, hused], by omega, rfl,
                not_mem_keys_of_get_none hnone, keys_insert_of_get_none hnone,
                column_update (fun _ => rfl) hget⟩
  created s s₁ code n forAccount h := by
    change Memory.Accounts at s s₁
    simp only [memoryInvites, Memory.Accounts.serve, Memory.Accounts.insertInvite] at h ⊢
    split at h
    · rename_i s' hs'
      obtain ⟨-, rfl⟩ := Prod.mk.injEq .. |>.mp h
      split_ifs at hs'
      obtain rfl := Except.ok.inj hs'
      rw [Table.get_insert_self]
      rfl
    · cases (Prod.mk.injEq .. |>.mp h).1

theorem sqlite_spends (now : String) : Spends (sqliteInvites now) where
  cases s code usedBy := by
    change Sql.Accounts at s
    simp only [sqliteInvites, Sqlite.serveAccount, Sqlite.consumeInvite, Table.countWhere_key]
    cases hget : s.invites.get code with
    | none => exact Or.inl rfl
    | some row =>
        by_cases hdisabled : row.disabled = 1
        · exact Or.inl (by simp [hdisabled])
        · by_cases hspent : row.availableUses ≤ 0
          · exact Or.inl (by simp [hdisabled, hspent])
          · have hleft : ¬ row.availableUses = 0 := by omega
            by_cases hused : s.inviteUses.contains (code, usedBy) = true
            · exact Or.inl (by simp [hdisabled, hspent, hleft, hused])
            · have hnone : s.inviteUses.get (code, usedBy) = none := by
                simpa [Table.contains] using hused
              exact Or.inr ⟨row.availableUses, { s with
                  inviteUses := s.inviteUses.insert (code, usedBy) ()
                  invites := s.invites.update code fun r =>
                    { r with availableUses := r.availableUses - 1 } },
                by simp [hdisabled, hspent, hleft, hused,
                    Table.size_insert_of_get_none hnone,
                    Table.insertOrIgnore_of_get_none hnone, Sql.Accounts.spendInvite], by omega, rfl,
                not_mem_keys_of_get_none hnone, keys_insert_of_get_none hnone,
                column_update (fun _ => rfl) hget⟩
  created s s₁ code n forAccount h := by
    change Sql.Accounts at s s₁
    simp only [sqliteInvites, Sqlite.serveAccount] at h ⊢
    split at h
    · rename_i s' hs'
      obtain ⟨-, rfl⟩ := Prod.mk.injEq .. |>.mp h
      exact availableUses_of_insertInviteRow hs'
    · cases (Prod.mk.injEq .. |>.mp h).1

theorem durable_spends (now : String) : Spends (durableInvites now) where
  cases s code usedBy := by
    change Sql.Accounts at s
    simp only [durableInvites, Durable.serveAccount, Durable.consumeInvite, Table.countWhere_key]
    cases hget : s.invites.get code with
    | none => exact Or.inl rfl
    | some row =>
        by_cases hopen : row.disabled ≠ 0 ∨ row.availableUses ≤ 0
        · exact Or.inl (by simp [hopen])
        · by_cases hused : s.inviteUses.contains (code, usedBy) = true
          · exact Or.inl (by simp [hopen, hused])
          · have hnone : s.inviteUses.get (code, usedBy) = none := by
              simpa [Table.contains] using hused
            exact Or.inr ⟨row.availableUses, { s with
                inviteUses := s.inviteUses.insert (code, usedBy) ()
                invites := s.invites.update code fun r =>
                  { r with availableUses := r.availableUses - 1 } },
              by simp [hopen, hused, Table.insertNew_of_get_none hnone, Sql.Accounts.spendInvite],
              by omega, rfl, not_mem_keys_of_get_none hnone, keys_insert_of_get_none hnone,
              column_update (fun _ => rfl) hget⟩
  created s s₁ code n forAccount h := by
    change Sql.Accounts at s s₁
    simp only [durableInvites, Durable.serveAccount, Durable.insertInvite] at h ⊢
    split at h
    · rename_i s' hs'
      obtain ⟨-, rfl⟩ := Prod.mk.injEq .. |>.mp h
      split_ifs at hs'
      split at hs'
      · rename_i s'' hrow
        obtain rfl := Except.ok.inj hs'
        exact availableUses_of_insertInviteRow hrow
      · cases hs'
    · cases (Prod.mk.injEq .. |>.mp h).1

/-! ## Any number of calls -/

variable {B : InviteBackend}

theorem Spends.sound (hB : Spends B) : B.quota.Sound where
  refused s call h := by
    rcases hB.cases s call.1 call.2 with hno | ⟨a, s', hyes, -⟩
    · exact congrArg Prod.snd hno
    · simp [InviteBackend.quota, hyes] at h
  granted s call h := by
    rcases hB.cases s call.1 call.2 with hno | ⟨a, s', hyes, hpos, hleft, hnew, hrecord, hcolumns⟩
    · simp [InviteBackend.quota, hno] at h
    · have hstate : (B.quota.spend s call).2 = s' := congrArg Prod.snd hyes
      rw [hstate]
      refine ⟨by simpa [InviteBackend.quota, hleft] using hpos, hnew, hrecord, fun k => ?_⟩
      rw [B.quota_left, B.quota_left, B.quota_pool, hcolumns k]
      by_cases hk : k = call.1
      · simp [hk, hleft]
      · rw [if_neg hk, if_neg hk]

/-- The code keeps its row. -/
theorem Spends.row_after (hB : Spends B) {s : B.State} {code : String} {a : Int}
    (h : B.availableUses s code = some a) (calls : List (String × String)) :
    ∃ a', B.availableUses (B.quota.after s calls) code = some a' := by
  induction calls generalizing s a with
  | nil => exact ⟨a, h⟩
  | cons call calls ih =>
      rcases hB.cases s call.1 call.2 with hno | ⟨b, s', hyes, -, -, -, -, hcolumns⟩
      · have hstate : (B.quota.spend s call).2 = s := congrArg Prod.snd hno
        rw [Quota.after, hstate]
        exact ih h
      · have hstate : (B.quota.spend s call).2 = s' := congrArg Prod.snd hyes
        rw [Quota.after, hstate]
        by_cases hcode : code = call.1
        · exact ih ((hcolumns code).trans (if_pos hcode))
        · exact ih (((hcolumns code).trans (if_neg hcode)).trans h)

theorem Spends.neverOverspent (hB : Spends B) : NeverOverspent B where
  answered s code usedBy := by
    rcases hB.cases s code usedBy with hno | ⟨a, s', hyes, -⟩
    · exact ⟨false, congrArg Prod.fst hno⟩
    · exact ⟨true, congrArg Prod.fst hyes⟩
  refused s code usedBy h := by
    rcases hB.cases s code usedBy with hno | ⟨a, s', hyes, -⟩
    · exact congrArg Prod.snd hno
    · cases (congrArg Prod.fst hyes).symm.trans h
  recorded := hB.sound.record_after
  spent s s₁ code n forAccount h calls := by
    have hcreated := hB.created s s₁ code n forAccount h
    have hstart : B.quota.left s₁ code = n := by rw [B.quota_left, hcreated, Option.getD_some]
    have hleft := hB.sound.left_after code s₁ calls
    have hnonneg := hB.sound.left_nonneg code (by omega : 0 ≤ B.quota.left s₁ code) calls
    obtain ⟨a, ha⟩ := hB.row_after hcreated calls
    have hend : B.quota.left (B.quota.after s₁ calls) code = a := by
      rw [B.quota_left, ha, Option.getD_some]
    have hcount : (B.successes code s₁ calls).length = (B.quota.grantsOf code s₁ calls).length :=
      rfl
    refine ⟨by omega, ?_, ?_⟩
    · rw [ha]
      congr 1
      omega
    · refine List.Nodup.map_on ?_ ((hB.sound.grants_fresh s₁ calls).1.filter _)
      intro x hx y hy hxy
      have hxcode : x.1 = code := of_decide_eq_true (List.mem_filter.mp hx).2
      have hycode : y.1 = code := of_decide_eq_true (List.mem_filter.mp hy).2
      exact Prod.ext (hxcode.trans hycode.symm) hxy

/-- Whatever the clocks of the backends say, no sequence of calls gets
more out of a code than it was given, and no caller uses it twice. On each
backend a consumption is one step from one balance to the next, and the
rest is the quota's. -/
theorem invites_never_overspent (now : String) :
    NeverOverspent (memoryInvites now) ∧ NeverOverspent (sqliteInvites now)
      ∧ NeverOverspent (durableInvites now) :=
  ⟨(memory_spends now).neverOverspent, (sqlite_spends now).neverOverspent,
    (durable_spends now).neverOverspent⟩

/-! ## A code with two uses -/

def noInvites : Sql.Accounts := ⟨.empty, .empty, .empty, .empty⟩

def twoUses : Sql.Accounts :=
  { noInvites with invites := Table.empty.insert "inv" ⟨2, 0, "alice", "admin"⟩ }

/-- Alice asks twice, and the code is spent before Carol asks. -/
def inviteCalls : List (String × String) :=
  [("inv", "alice"), ("inv", "alice"), ("other", "bob"), ("inv", "bob"), ("inv", "carol")]

theorem twoUses_spent :
    (durableInvites "now").successes "inv" twoUses inviteCalls
      = [("inv", "alice"), ("inv", "bob")]
    ∧ (durableInvites "now").availableUses
        ((durableInvites "now").quota.after twoUses inviteCalls) "inv" = some 0 := by
  have hsuccesses : (durableInvites "now").successes "inv" twoUses inviteCalls
      = [("inv", "alice"), ("inv", "bob")] := by decide
  obtain ⟨-, -, hdurable⟩ := invites_never_overspent "now"
  obtain ⟨-, hleft, -⟩ := hdurable.spent noInvites twoUses "inv" 2 "alice" rfl inviteCalls
  rw [hsuccesses] at hleft
  exact ⟨hsuccesses, hleft⟩

end Backend

end Stelyph
