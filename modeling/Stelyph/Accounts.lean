import Stelyph.Errors
import Stelyph.Lib.Text

/-!
# The account store

The rows behind `AccountStore` and `KeyStore` (`storage/memory/mod.rs`,
`storage/sqlite/account.rs`): accounts keyed by DID with a unique
handle, invites with their remaining uses, and encrypted key blobs. Each
function is one call of the trait, and each call is one transaction.
-/

namespace Stelyph

/-- A row of `accounts`. One that is taken down or deactivated stays in
the table and is not found by its handle. -/
structure Account where
  did : String
  handle : Option String
  email : Option String
  passwordPhc : String
  deactivatedAt : Option String
  takedownRef : Option String
deriving DecidableEq, Repr

/-- A code with the uses that are left of it. -/
structure Invite where
  code : String
  availableUses : Int
  disabled : Bool
deriving DecidableEq, Repr

/-- The account side of a backend: accounts, invites with who used them,
and the encrypted keys. -/
structure AccountStore where
  accounts : List Account
  invites : List Invite
  /-- `(code, used_by)` pairs. -/
  inviteUses : List (String × String)
  keys : List (String × Bytes)
deriving DecidableEq, Repr

namespace AccountStore

/-- The first account of the handle, if it is active. -/
def activeByHandle (s : AccountStore) (handle : String) : Option Account :=
  (s.accounts.find? fun a => a.handle == some handle).filter fun a =>
    a.deactivatedAt.isNone && a.takedownRef.isNone

def getAccountByHandle (s : AccountStore) (handle : String) :
    Option (String × String) :=
  (s.activeByHandle handle).map fun a => (a.did, a.passwordPhc)

def countAccounts (s : AccountStore) : Nat := s.accounts.length

/-- The insert both entry points share: `did` is a primary key and
`handle` is unique. -/
def insertAccountLocked (s : AccountStore) (did handle : String)
    (email : Option String) (passwordPhc : String) :
    Except StorageError AccountStore :=
  if s.accounts.any fun a => a.did == did then
    .error (.constraint s!"account already exists: {did}")
  else if s.accounts.any fun a => a.handle == some handle then
    .error (.constraint s!"handle already taken: {handle}")
  else
    .ok { s with accounts := s.accounts ++ [{
      did := did, handle := some handle, email := email
      passwordPhc := passwordPhc, deactivatedAt := none, takedownRef := none }] }

/-- The count is taken before the insert, in the same transaction. -/
def countAndInsertAccount (s : AccountStore) (did handle : String)
    (email : Option String) (passwordPhc : String) :
    Except StorageError (Nat × AccountStore) :=
  (s.insertAccountLocked did handle email passwordPhc).map fun s' =>
    (s.countAccounts, s')

/-- A use is taken off a code that has one left and that this caller has
not used before. -/
def consumeInvite (s : AccountStore) (code usedBy : String) : Bool × AccountStore :=
  match s.invites.find? fun i => i.code == code with
  | none => (false, s)
  | some i =>
      if i.disabled then (false, s)
      else if i.availableUses ≤ 0 then (false, s)
      else if s.inviteUses.contains (code, usedBy) then (false, s)
      else (true, { s with
        inviteUses := s.inviteUses ++ [(code, usedBy)]
        invites := s.invites.map fun i =>
          if i.code == code then { i with availableUses := i.availableUses - 1 } else i })

def putKeyBlob (s : AccountStore) (id : String) (ciphertext : Bytes) : AccountStore :=
  { s with keys := (s.keys.filter fun e => e.1 != id) ++ [(id, ciphertext)] }

/-! ## Lookups by DID, and the operator's calls -/

def Account.isActive (a : Account) : Bool := a.deactivatedAt.isNone && a.takedownRef.isNone

def getDidByHandle (s : AccountStore) (handle : String) : Option String :=
  (s.activeByHandle handle).map fun a => a.did

def getHandleByDid (s : AccountStore) (did : String) : Option String :=
  ((s.accounts.find? fun a => a.did == did).filter Account.isActive).bind fun a => a.handle

/-- The rows affected, and the store with `f` applied to them. -/
def modifyAccount (s : AccountStore) (did : String) (f : Account → Account) :
    Nat × AccountStore :=
  (s.accounts.countP fun a => a.did == did,
    { s with accounts := s.accounts.map fun a => if a.did == did then f a else a })

/-- The new hash, and how many rows were changed. -/
def updatePassword (s : AccountStore) (did phc : String) : Nat × AccountStore :=
  s.modifyAccount did fun a => { a with passwordPhc := phc }

/-- An empty reference still has to leave a marker. -/
def setTakedown (s : AccountStore) (did reference now : String) : Nat × AccountStore :=
  s.modifyAccount did fun a =>
    { a with takedownRef := some (if reference.isEmpty then now else reference) }

/-- A taken-down account is found by its handle again. -/
def clearTakedown (s : AccountStore) (did : String) : Nat × AccountStore :=
  s.modifyAccount did fun a => { a with takedownRef := none }

/-! ## What the calls do to the accounts table -/

theorem insertAccountLocked_ok {s s' : AccountStore} {did handle phc : String}
    {email : Option String} (h : s.insertAccountLocked did handle email phc = .ok s') :
    s'.accounts.length = s.accounts.length + 1 := by
  unfold insertAccountLocked at h
  split at h
  · cases h
  · split at h
    · cases h
    · obtain rfl := Except.ok.inj h
      simp

theorem countAndInsertAccount_ok {s s' : AccountStore} {did handle phc : String}
    {email : Option String} {n : Nat}
    (h : s.countAndInsertAccount did handle email phc = .ok (n, s')) :
    n = s.accounts.length ∧ s'.accounts.length = s.accounts.length + 1 := by
  unfold countAndInsertAccount at h
  cases hins : s.insertAccountLocked did handle email phc with
  | error e => rw [hins] at h; cases h
  | ok t =>
      rw [hins] at h
      obtain ⟨rfl, rfl⟩ := Prod.mk.injEq .. |>.mp (Except.ok.inj h)
      exact ⟨rfl, insertAccountLocked_ok hins⟩

theorem countAndInsertAccount_empty {s : AccountStore} (h : s.accounts = [])
    (did handle : String) (email : Option String) (phc : String) :
    ∃ s', s.countAndInsertAccount did handle email phc = .ok (0, s')
      ∧ s'.accounts.length = 1 := by
  simp [countAndInsertAccount, insertAccountLocked, countAccounts, h, Except.map]

theorem insertAccountLocked_isOk {s s' : AccountStore}
    {did handle phc : String} {email : Option String} {n : Nat}
    (h : s.countAndInsertAccount did handle email phc = .ok (n, s')) :
    (s.insertAccountLocked did handle email phc).isOk = true := by
  unfold countAndInsertAccount at h
  cases hins : s.insertAccountLocked did handle email phc with
  | error e => rw [hins] at h; cases h
  | ok t => rfl

/-- An invite is refused and nothing changes, or one use of it is
recorded. -/
theorem consumeInvite_cases (s : AccountStore) (code usedBy : String) :
    s.consumeInvite code usedBy = (false, s)
      ∨ ((s.consumeInvite code usedBy).1 = true
        ∧ (s.consumeInvite code usedBy).2.inviteUses = s.inviteUses ++ [(code, usedBy)]) := by
  unfold consumeInvite
  split
  · exact Or.inl rfl
  · split_ifs
    · exact Or.inl rfl
    · exact Or.inl rfl
    · exact Or.inl rfl
    · exact Or.inr ⟨rfl, rfl⟩

@[simp] theorem consumeInvite_accounts (s : AccountStore) (code usedBy : String) :
    (s.consumeInvite code usedBy).2.accounts = s.accounts := by
  unfold consumeInvite
  split
  · rfl
  · split
    · rfl
    · split
      · rfl
      · split <;> rfl

@[simp] theorem putKeyBlob_accounts (s : AccountStore) (id : String) (b : Bytes) :
    (s.putKeyBlob id b).accounts = s.accounts := rfl

end AccountStore

end Stelyph
