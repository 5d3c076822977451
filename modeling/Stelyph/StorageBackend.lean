import Stelyph.Lib.Services
import Stelyph.Lib.Sql
import Stelyph.OauthStore

/-!
# What a storage backend is asked

The operations of `StorageBackend` (`storage/traits.rs` and
`oauth/store.rs`), with what each one answers. A call also carries what
the wall clock reads while it is served: the columns that hold it are not
compared between backends, so one reading serves all of them.

Answers are compared up to the kind and text of an error, and the two
listings with timestamps up to the order of rows with equal ones.
-/

namespace Stelyph

namespace Backend

/-- CIDs, and their text in the columns of a database. -/
structure CidLib where
  Cid : Type
  decEq : DecidableEq Cid
  toString : Cid → String
  fromStr : String → Except String Cid

instance (C : CidLib) : DecidableEq C.Cid := C.decEq

/-- The text of a CID is read back. -/
def CidLib.Laws (C : CidLib) : Prop := ∀ c, C.fromStr (C.toString c) = .ok c

theorem CidLib.Laws.injective {C : CidLib} (hC : C.Laws) : C.toString.Injective := by
  intro a b h
  have hab := congrArg C.fromStr h
  rw [hC a, hC b] at hab
  exact Except.ok.inj hab

/-- A row of the operator's list. -/
structure AccountSummary where
  did : String
  handle : Option String
  deactivatedAt : Option String
  takedownRef : Option String
  createdAt : String
deriving DecidableEq, Repr

/-! ## Operations -/

/-- `BlockStore`, `Sequencer` and `RepoStore`. -/
inductive RepoStoreOp (C : CidLib) where
  | readBlockBytes (cid : C.Cid)
  | putBlock (cid : C.Cid) (bytes : Bytes)
  | maxSeq
  | backfillPage (afterSeq limit : Int)
  | loadRepoRoot (did : String)
  | updateRepoRoot (did : String) (rootCid : C.Cid)
  | commitBlocks (blocks : List (C.Cid × Bytes)) (did : String) (newRoot : C.Cid)
      (eventBody : Bytes)

/-- The calls of `AccountStore`, for all backends. -/
inductive AccountStoreOp where
  | countAccounts
  | insertAccount (did handle : String) (email : Option String) (passwordPhc : String)
  | countAndInsertAccount (did handle : String) (email : Option String) (passwordPhc : String)
  | getAccountByHandle (handle : String)
  | getDidByHandle (handle : String)
  | getHandleByDid (did : String)
  | listAccounts
  | updatePassword (did passwordPhc : String)
  | setTakedown (did reference : String)
  | clearTakedown (did : String)
  | insertInvite (code : String) (availableUses : Int) (forAccount : String)
  | consumeInvite (code usedBy : String)
  | upsertPreferences (did prefsJson : String)
  | getPreferences (did : String)

/-- The calls of `KeyStore`; the blob is encrypted before it gets here. -/
inductive KeyStoreOp where
  | putKeyBlob (id : String) (ciphertext : Bytes)
  | getKeyBlob (id : String)

/-- A limit is a `usize`. -/
inductive BlobStoreOp where
  | putBlob (did cid mimeType : String) (size : Int) (bytes : Bytes)
  | getBlob (did cid : String)
  | listBlobs (did : String) (limit : Nat) (cursor : Option String)

/-- The calls of the server, and the listing of the sessions of an account. -/
inductive OauthStoreOp where
  | call (o : OauthOp)
  | listSessionsForDid (did : String) (now : Nat)

/-- The five traits that a backend implements, as one. -/
inductive StorageOp (C : CidLib) where
  | repo (o : RepoStoreOp C)
  | account (o : AccountStoreOp)
  | key (o : KeyStoreOp)
  | blob (o : BlobStoreOp)
  | oauth (o : OauthStoreOp)

/-! ## Answers -/

abbrev RepoStoreOp.Value {C : CidLib} : RepoStoreOp C → Type
  | .readBlockBytes _ => Bytes
  | .putBlock _ _ => Unit
  | .maxSeq => Int
  | .backfillPage _ _ => List (Int × Bytes)
  | .loadRepoRoot _ => Option C.Cid
  | .updateRepoRoot _ _ => Unit
  | .commitBlocks _ _ _ _ => Int

abbrev AccountStoreOp.Value : AccountStoreOp → Type
  | .countAccounts => Nat
  | .insertAccount _ _ _ _ => Unit
  | .countAndInsertAccount _ _ _ _ => Nat
  | .getAccountByHandle _ => Option (String × String)
  | .getDidByHandle _ => Option String
  | .getHandleByDid _ => Option String
  | .listAccounts => List AccountSummary
  | .updatePassword _ _ => Nat
  | .setTakedown _ _ => Nat
  | .clearTakedown _ => Nat
  | .insertInvite _ _ _ => Unit
  | .consumeInvite _ _ => Bool
  | .upsertPreferences _ _ => Unit
  | .getPreferences _ => Option String

abbrev KeyStoreOp.Value : KeyStoreOp → Type
  | .putKeyBlob _ _ => Unit
  | .getKeyBlob _ => Option Bytes

abbrev BlobStoreOp.Value : BlobStoreOp → Type
  | .putBlob _ _ _ _ _ => Unit
  | .getBlob _ _ => Option (String × Bytes)
  | .listBlobs _ _ _ => List String

abbrev OauthStoreOp.Value : OauthStoreOp → Type
  | .call o => o.Value
  | .listSessionsForDid _ _ => List RefreshTokenRecord

abbrev StorageOp.Value {C : CidLib} : StorageOp C → Type
  | .repo o => o.Value
  | .account o => o.Value
  | .key o => o.Value
  | .blob o => o.Value
  | .oauth o => o.Value

/-- An operation, and what the wall clock reads while it is served. -/
structure Call (C : CidLib) where
  op : StorageOp C
  now : String

/-- The answer to a call, or the failure of the backend. -/
abbrev Reply {C : CidLib} (c : Call C) : Type := Except StorageError c.op.Value

/-! ## Limits and times -/

/-- Times are `u64` and stored as `i64`. -/
def TimeInRange (t : Nat) : Prop := t < 2 ^ 63

/-- The times of a call are ones that a signed column can hold. -/
def OauthStoreOp.InRange : OauthStoreOp → Prop
  | .call (.putPushedRequest req) => TimeInRange req.expiresAt
  | .call (.getPushedRequest _ now) => TimeInRange now
  | .call (.putAuthCode code) => TimeInRange code.expiresAt
  | .call (.consumeAuthCode _ now) => TimeInRange now
  | .call (.putRefreshToken token) =>
      TimeInRange token.issuedAt ∧ TimeInRange token.expiresAt
  | .call (.consumeRefreshToken _ now) => TimeInRange now
  | .call (.recordDpopJti _ expiresAt) => TimeInRange expiresAt
  | .call (.purgeExpired now) => TimeInRange now
  | .listSessionsForDid _ now => TimeInRange now
  | _ => True

/-- Times below 2^63, and limits that are not negative as the `i64` that a
statement takes them as. -/
def StorageOp.InRange {C : CidLib} : StorageOp C → Prop
  | .repo (.backfillPage _ limit) => 0 ≤ limit
  | .blob (.listBlobs _ limit _) => limit < 2 ^ 63
  | .oauth o => o.InRange
  | _ => True

/-! ## Answers that are alike -/

/-- Both are errors, or the values are the same. -/
def RepliesAlike {ε α : Type} (same : α → α → Prop) : Except ε α → Except ε α → Prop
  | .ok a, .ok b => same a b
  | .error _, .error _ => True
  | _, _ => False

section

variable {ε α : Type} {same : α → α → Prop} {x y z : Except ε α}

theorem repliesAlike_of_eq (h : x = y) : RepliesAlike Eq x y := by
  subst h
  cases x <;> trivial

theorem RepliesAlike.symm (hsame : ∀ a b, same a b → same b a) (h : RepliesAlike same x y) :
    RepliesAlike same y x := by
  cases x <;> cases y <;> first | exact hsame _ _ h | trivial

theorem RepliesAlike.trans (hsame : ∀ a b c, same a b → same b c → same a c)
    (h : RepliesAlike same x y) (h' : RepliesAlike same y z) : RepliesAlike same x z := by
  cases x <;> cases y <;> cases z <;> first | exact hsame _ _ _ h h' | trivial

end

/-- Two backends answer alike where the answer is the same, up to the
order of accounts of one instant. -/
def AccountStoreOp.Same : (o : AccountStoreOp) → o.Value → o.Value → Prop
  | .listAccounts => SameUpToTies AccountSummary.createdAt
  | _ => Eq

/-- The same for the sessions of one instant. -/
def OauthStoreOp.Same : (o : OauthStoreOp) → o.Value → o.Value → Prop
  | .listSessionsForDid _ _ => SameUpToTies RefreshTokenRecord.issuedAt
  | .call _ => Eq

/-- When two answers to one call count as the same. -/
def StorageOp.Same {C : CidLib} : (o : StorageOp C) → o.Value → o.Value → Prop
  | .account o => o.Same
  | .oauth o => o.Same
  | _ => Eq

/-- What two backends answer to one call is alike. -/
def Alike {C : CidLib} (c : Call C) : Reply c → Reply c → Prop := RepliesAlike c.op.Same

theorem AccountStoreOp.Same.symm {o : AccountStoreOp} {a b : o.Value} (h : o.Same a b) :
    o.Same b a := by
  cases o with
  | listAccounts => exact SameUpToTies.symm h
  | _ => exact Eq.symm h

theorem AccountStoreOp.Same.trans {o : AccountStoreOp} {a b c : o.Value} (h : o.Same a b)
    (h' : o.Same b c) : o.Same a c := by
  cases o with
  | listAccounts => exact SameUpToTies.trans h h'
  | _ => exact Eq.trans h h'

theorem OauthStoreOp.Same.symm {o : OauthStoreOp} {a b : o.Value} (h : o.Same a b) :
    o.Same b a := by
  cases o with
  | listSessionsForDid did now => exact SameUpToTies.symm h
  | call o => exact Eq.symm h

theorem OauthStoreOp.Same.trans {o : OauthStoreOp} {a b c : o.Value} (h : o.Same a b)
    (h' : o.Same b c) : o.Same a c := by
  cases o with
  | listSessionsForDid did now => exact SameUpToTies.trans h h'
  | call o => exact Eq.trans h h'

theorem alike_trans {C : CidLib} (c : Call C) (x y z : Reply c) (h : Alike c x y)
    (h' : Alike c y z) : Alike c x z := by
  refine RepliesAlike.trans ?_ h h'
  cases c.op with
  | account o => exact fun a b c => AccountStoreOp.Same.trans
  | oauth o => exact fun a b c => OauthStoreOp.Same.trans
  | _ => exact fun a b c => Eq.trans

end Backend

/-- A backend, as what it answers to the calls of a run. -/
abbrev StorageBackend (C : Backend.CidLib) : Type 1 := Service (Backend.Call C) Backend.Reply

end Stelyph
