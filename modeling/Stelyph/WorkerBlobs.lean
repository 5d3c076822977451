import Mathlib.Data.String.Basic
import Stelyph.FrontQuery
import Stelyph.Lib.Sql
import Stelyph.Tenants

/-!
# Blobs of the Worker

All accounts share one bucket, and an upload is two writes: the object
first, then the row in the account's own object that says whose it is and
of what type. A read asks for the account, for the row and then for the
object. The calls of a whole deployment are interleaved; each may fail,
with or without its effect.

`BlobStep` says what one call does to the objects and the rows.
-/

namespace Stelyph

namespace Worker

/-! ## Operations -/

/-- The steps of the blob endpoints, and all those of the other endpoints of an object. -/
inductive BlobOp (L : RepoLib) where
  | tenant (o : TenantOp L)
  /-- The first account's DID. -/
  | listAccounts (host : String)
  | selectBlobRef (host did cid : String)
  | getObject (key : String)
  | selectCids (host did : String) (limit : Nat) (cursor : Option String)

/-- What a step comes back with. -/
abbrev BlobOp.Ret {L : RepoLib} : BlobOp L → Type
  | .tenant o => o.Ret
  | .listAccounts _ => Except String (Option String)
  | .selectBlobRef _ _ _ => Except String (Option BlobRow)
  | .getObject _ => Except String (Option Bytes)
  | .selectCids _ _ _ _ => Except String (List String)

abbrev blobSig (L : RepoLib) : Sig := ⟨BlobOp L, BlobOp.Ret⟩

abbrev BlobProg (L : RepoLib) := Prog (blobSig L) String

/-- `parse::<usize>`: 32 bits in a Worker. -/
def parseUsize (s : String) : Option Nat := (Text.parseU64 s).filter (· < 2 ^ 32)

/-- `SELECT cid FROM blob_refs WHERE did = ? AND cid > ? ORDER BY cid ASC LIMIT ?`. -/
def ObjectTables.selectCids {L : RepoLib} (t : ObjectTables L) (did : String) (limit : Nat)
    (cursor : Option String) : List String :=
  let cids := (t.blobRefs.rows.filter fun r => decide (r.1.1 = did)).map fun r => r.1.2
  (orderBy id (cids.filter fun c => cursor.all fun cur => decide (cur < c))).take limit

section

variable {L : RepoLib} {Keypair : Type} (lib : FrontLib Keypair) (cfg : TenantConfig L)
  (slib : SigninLib)

/-- What a read finds; it changes nothing. -/
def BlobOp.exec (D : Deployment L) : (o : BlobOp L) → Fate → Option (o.Ret × Deployment L)
  | .tenant o, c => TenantOp.exec lib cfg slib D o c
  | .listAccounts host, .done =>
      some (.ok ((D.objects host).accounts.accounts.head?.map (·.did)), D)
  | .selectBlobRef host did cid, .done => some (.ok ((D.objects host).blobRefs.get (did, cid)), D)
  | .getObject key, .done => some (.ok (D.bucket.get key), D)
  | .selectCids host did limit cursor, .done =>
      some (.ok ((D.objects host).selectCids did limit cursor), D)
  | .listAccounts _, .failsBefore msg | .listAccounts _, .failsAfter msg => some (.error msg, D)
  | .selectBlobRef _ _ _, .failsBefore msg | .selectBlobRef _ _ _, .failsAfter msg =>
      some (.error msg, D)
  | .getObject _, .failsBefore msg | .getObject _, .failsAfter msg => some (.error msg, D)
  | .selectCids _ _ _ _, .failsBefore msg | .selectCids _ _ _ _, .failsAfter msg =>
      some (.error msg, D)

/-- The deployment with its bucket as one machine. -/
def blobMachine : Machine (blobSig L) (Deployment L) Fate where
  exec _ D o c := BlobOp.exec lib cfg slib D o c

end

/-! ## Handlers -/

/-- What a request is answered with. -/
inductive BlobReply (L : RepoLib) where
  | tenant (r : TenantReply L)
  | plain (status : Nat) (message : String)
  | error (status : Nat) (error message : String)
  | bytes (mimeType : String) (bytes : Bytes)
  | cids (cids : List String) (cursor : Option String)

/-- The two methods that read blobs. -/
inductive BlobMethod where
  | getBlob
  | listBlobs
deriving DecidableEq

def BlobMethod.route : BlobMethod → String
  | .getBlob => "/xrpc/com.atproto.sync.getBlob"
  | .listBlobs => "/xrpc/com.atproto.sync.listBlobs"

/-- A read of a blob or of their list, or any other request to the Worker. -/
inductive BlobRequest (Keypair : Type) where
  | tenant (q : TenantRequest Keypair)
  | read (hostHeader : String) (method : BlobMethod) (query : Option String)

section

variable {L : RepoLib} {Keypair : Type} (lib : FrontLib Keypair) (cfg : TenantConfig L)

def liftTenant {α : Type} (p : TenantProg L α) : BlobProg L α :=
  p.hoist (T := blobSig L) .tenant (fun _ r => r) id

/-- `repo_scoped_target`: the host of the account the query names. -/
def readTarget (query : Option String) : BlobProg L (Option String) :=
  match query.bind fun q => (queryParam q "repo").or (queryParam q "did") with
  | none => return none
  | some ident =>
      if Text.startsWith ident "did:" then
        .op (.tenant (.resolveDid ident)) fun
          | .ok (some label) => return some s!"{label}.{cfg.front.zone}"
          | _ => return none
      else
        let h := Text.toAsciiLowercase ident
        return if Text.endsWith h s!".{cfg.front.zone}" then some h else none

/-- `sole_account_did`. -/
def soleAccount (host : String) : BlobProg L (Option String) :=
  .op (.listAccounts host) fun
    | .error e => .fail s!"list accounts: {e}"
    | .ok did => return did

/-- `DoStore::get_blob`: the row says whether the account has the blob. -/
def storedBlob (host did cid : String) : BlobProg L (Option (String × Bytes)) :=
  .op (.selectBlobRef host did cid) fun
    | .error e => .fail s!"get_blob: {e}"
    | .ok none => return none
    | .ok (some row) => .op (.getObject s!"{did}/{cid}") fun
        | .error e => .fail s!"get_blob: pool error: {e}"
        | .ok none => return none
        | .ok (some bytes) => return some (row.mimeType, bytes)

/-- The object knows the type of a blob, the bucket has its bytes: two
reads, and a deletion or an upload may come between them. -/
def getBlob (host : String) (cid : Option String) : BlobProg L (BlobReply L) :=
  match cid with
  | none => return .error 400 "InvalidRequest" "cid is required"
  | some cid => do
      match ← soleAccount host with
      | none => return .error 404 "RepoNotFound" "No account on this host."
      | some did =>
          match ← storedBlob host did cid with
          | none => return .error 404 "BlobNotFound" "Blob not found."
          | some (mimeType, bytes) => return .bytes mimeType bytes

/-- A page of CIDs, of at most a thousand, and a cursor where it is full. -/
def listBlobsAt (host : String) (limit : Option Nat) (cursor : Option String) :
    BlobProg L (BlobReply L) := do
  match ← soleAccount host with
  | none => return .error 404 "RepoNotFound" "No account on this host."
  | some did =>
      let limit := max 1 (min (limit.getD 500) 1000)
      .op (.selectCids host did limit cursor) fun
        | .error e => .fail s!"list_blobs: {e}"
        | .ok cids => return .cids cids (if cids.length = limit then cids.getLast? else none)

/-- The object's route; the query is read again there. -/
def blobRoute (host : String) (query : Option String) : BlobMethod → BlobProg L (BlobReply L)
  | .getBlob => getBlob host (query.bind fun q => objectParam q "cid")
  | .listBlobs =>
      listBlobsAt host ((query.bind fun q => objectParam q "limit").bind parseUsize)
        (query.bind fun q => objectParam q "cursor")

/-- A read at the zone itself is passed to the account that its query names. -/
def readHandle (host : String) (method : BlobMethod) (query : Option String) :
    BlobProg L (BlobReply L) :=
  if host.isEmpty then return .plain 400 "missing Host header"
  else if host = cfg.front.zone then do
    let target ← readTarget cfg query
    blobRoute (target.getD host) query method
  else blobRoute host query method

/-- The handler of either kind. -/
def blobHandle : BlobRequest Keypair → BlobProg L (BlobReply L)
  | .tenant q => (liftTenant (tenantHandle lib cfg q)).bind fun r => return .tenant r
  | .read hostHeader method query =>
      readHandle cfg (Text.toAsciiLowercase (Text.upTo hostHeader ':')) method query

abbrev BlobPool (L : RepoLib) (Keypair : Type) :=
  Pool (blobSig L) (BlobRequest Keypair) String (BlobReply L) (Deployment L)

/-- A request begins or one step of a request is carried out. -/
def blobStep (slib : SigninLib) (P : BlobPool L Keypair) :
    PoolAct (BlobRequest Keypair) Fate → Option (BlobPool L Keypair) :=
  Pool.next (blobMachine lib cfg slib) (blobHandle lib cfg) P

end

/-! ## What one operation does to the blobs -/

section

variable {L : RepoLib} {Keypair : Type} {lib : FrontLib Keypair} {cfg : TenantConfig L}
  {slib : SigninLib} {D D' : Deployment L}

abbrev Deployment.refs (D : Deployment L) (host : String) : Table (String × String) BlobRow :=
  (D.objects host).blobRefs

theorem effect_bucket {o : TenantOp L} {r : o.Ret} (h : o.effect lib cfg slib D = some (r, D')) :
    D'.bucket = D.bucket
      ∨ ∃ key bytes, o = .putObject key bytes ∧ D'.bucket = D.bucket.insert key bytes := by
  cases o with
  | front o => cases o <;> cases h <;> exact Or.inl rfl
  | putObject key bytes =>
      cases h
      exact Or.inr ⟨key, bytes, rfl, rfl⟩
  | write host bearer body call fates =>
      obtain ⟨⟨x, t⟩, -, heq⟩ := Option.map_eq_some_iff.mp h
      cases heq
      exact Or.inl rfl
  | _ =>
      cases h
      exact Or.inl rfl

theorem refs_setObject (host target : String) (t : ObjectTables L) :
    (D.setObject target t).refs host = if host = target then t.blobRefs else D.refs host := by
  simp only [Deployment.refs, Deployment.setObject]
  split_ifs <;> rfl

theorem effect_refs {o : TenantOp L} {r : o.Ret} (h : o.effect lib cfg slib D = some (r, D'))
    (host : String) :
    D'.refs host = D.refs host
      ∨ (∃ did cid row, o = .insertBlobRef host did cid row
          ∧ D'.refs host = (D.refs host).insert (did, cid) row)
      ∨ o = .front (.wipe host) ∧ ∃ p, D'.refs host = (D.refs host).retain p := by
  have hset : ∀ {target t}, t.blobRefs = D.refs target →
      (D.setObject target t).refs host = D.refs host := by
    intro target t ht
    rw [refs_setObject]
    split_ifs with heq
    · rw [ht, heq]
    · rfl
  cases o with
  | front o =>
      by_cases hw : ∃ target, o = .wipe target
      · obtain ⟨target, rfl⟩ := hw
        cases h
        by_cases heq : host = target
        · subst heq
          have hrefs : (D.wipe host).refs host = (D.objects host).deleteAccount.2.blobRefs := by
            simp [Deployment.wipe, Deployment.refs, Deployment.setObject]
          rw [hrefs, ObjectTables.deleteAccount]
          cases (D.objects host).accounts.accounts.head? with
          | none => exact Or.inl rfl
          | some a => exact Or.inr (Or.inr ⟨rfl, fun k _ => k.1 ≠ a.did, rfl⟩)
        · refine Or.inl ?_
          simp [Deployment.wipe, Deployment.refs, Deployment.setObject, heq]
      · have hfront : D' = D.setFront (o.effect lib D.front).2 := by
          cases o with
          | wipe target => exact absurd ⟨target, rfl⟩ hw
          | _ => cases h; rfl
        rw [hfront]
        exact Or.inl rfl
  | insertBlobRef target did cid row =>
      cases h
      by_cases heq : host = target
      · subst heq
        refine Or.inr (Or.inl ⟨did, cid, row, rfl, ?_⟩)
        rw [refs_setObject, if_pos rfl]
      · refine Or.inl ?_
        rw [refs_setObject, if_neg heq]
  | upsertPreferences target did prefs =>
      cases h
      exact Or.inl (hset rfl)
  | write target bearer body call fates =>
      obtain ⟨⟨x, t⟩, hwrite, heq⟩ := Option.map_eq_some_iff.mp h
      cases heq
      obtain ⟨y, -, heq⟩ := Option.map_eq_some_iff.mp hwrite
      cases heq
      exact Or.inl (hset rfl)
  | signin target request rnd =>
      cases h
      exact Or.inl (hset rfl)
  | _ =>
      cases h
      exact Or.inl rfl

abbrev BlobEvent (L : RepoLib) := Event (blobSig L)

/-- Objects and rows come from the operations that write them, and a row
goes with its account only; reads answer what there is. -/
structure BlobStep (D D' : Deployment L) (e : BlobEvent L) : Prop where
  bucket : D'.bucket = D.bucket ∨ ∃ key bytes, e.op = .tenant (.putObject key bytes)
    ∧ D'.bucket = D.bucket.insert key bytes
  row : ∀ host did cid row, (D'.refs host).get (did, cid) = some row →
    (D.refs host).get (did, cid) = some row ∨ e.op = .tenant (.insertBlobRef host did cid row)
  noRow : ∀ host did cid, (D'.refs host).get (did, cid) = none →
    (D.refs host).get (did, cid) = none ∨ e.op = .tenant (.front (.wipe host))
  put : ∀ i key bytes, e = ⟨i, .tenant (.putObject key bytes), .ok ()⟩ →
    D'.bucket.contains key = true
  inserted : ∀ i host did cid row, e = ⟨i, .tenant (.insertBlobRef host did cid row), .ok ()⟩ →
    (D'.refs host).get (did, cid) = some row
  selected : ∀ i host did cid x, e = ⟨i, .selectBlobRef host did cid, .ok x⟩ →
    (D.refs host).get (did, cid) = x
  fetched : ∀ i key x, e = ⟨i, .getObject key, .ok x⟩ → D.bucket.get key = x

/-- The event of a failed call is of no call that went well. -/
theorem event_err_ne {o o' : TenantOp L} {msg : String} {i j : Nat} {r : o'.Ret}
    (hr : o'.err msg ≠ r) :
    (⟨i, .tenant o, o.err msg⟩ : BlobEvent L) ≠ ⟨j, .tenant o', r⟩ := by
  intro h
  injection h with hi ho hans
  injection ho with ho
  subst ho
  exact hr (eq_of_heq hans)

/-- A call that leaves the blobs alone and is none of those that say
something about them. -/
theorem BlobStep.of_same {e : BlobEvent L} (hbucket : D'.bucket = D.bucket)
    (hrefs : ∀ host, D'.refs host = D.refs host)
    (hput : ∀ i key bytes, e ≠ ⟨i, .tenant (.putObject key bytes), .ok ()⟩)
    (hinsert : ∀ i host did cid row, e ≠ ⟨i, .tenant (.insertBlobRef host did cid row), .ok ()⟩)
    (hselected : ∀ i host did cid x, e = ⟨i, .selectBlobRef host did cid, .ok x⟩ →
      (D.refs host).get (did, cid) = x)
    (hfetched : ∀ i key x, e = ⟨i, .getObject key, .ok x⟩ → D.bucket.get key = x) :
    BlobStep D D' e where
  bucket := Or.inl hbucket
  row host _ _ _ h := Or.inl (hrefs host ▸ h)
  noRow host _ _ h := Or.inl (hrefs host ▸ h)
  put i key bytes he := absurd he (hput i key bytes)
  inserted i host did cid row he := absurd he (hinsert i host did cid row)
  selected := hselected
  fetched := hfetched

theorem BlobStep.of_read {o : BlobOp L} {r : o.Ret} {i : Nat} (ho : ∀ t, o ≠ .tenant t)
    (hselected : ∀ j host did cid x,
      (⟨i, o, r⟩ : BlobEvent L) = ⟨j, .selectBlobRef host did cid, .ok x⟩ →
      (D.refs host).get (did, cid) = x)
    (hfetched : ∀ j key x, (⟨i, o, r⟩ : BlobEvent L) = ⟨j, .getObject key, .ok x⟩ →
      D.bucket.get key = x) : BlobStep D D ⟨i, o, r⟩ :=
  .of_same rfl (fun _ => rfl) (fun _ _ _ he => ho _ (congrArg Event.op he))
    (fun _ _ _ _ _ he => ho _ (congrArg Event.op he)) hselected hfetched

/-- An effect, whether it was reported or not. -/
theorem BlobStep.of_effect {o : TenantOp L} {r r' : o.Ret} {i : Nat}
    (h : o.effect lib cfg slib D = some (r, D')) : BlobStep D D' ⟨i, .tenant o, r'⟩ where
  bucket := by
    rcases effect_bucket h with hsame | ⟨key, bytes, rfl, hput⟩
    · exact Or.inl hsame
    · exact Or.inr ⟨key, bytes, rfl, hput⟩
  row host did cid row hget := by
    rcases effect_refs h host with hsame | ⟨_, _, _, rfl, hins⟩ | ⟨-, p, hretain⟩
    · exact Or.inl (hsame ▸ hget)
    · rw [hins] at hget
      rcases Table.get_insert_eq_some.mp hget with ⟨heq, rfl⟩ | ⟨-, hget⟩
      · obtain ⟨rfl, rfl⟩ := Prod.mk.injEq .. |>.mp heq
        exact Or.inr rfl
      · exact Or.inl hget
    · rw [hretain] at hget
      exact Or.inl (Table.get_retain_eq_some.mp hget).1
  noRow host did cid hget := by
    rcases effect_refs h host with hsame | ⟨did', cid', row', rfl, hins⟩ | ⟨rfl, -⟩
    · exact Or.inl (hsame ▸ hget)
    · refine Or.inl ?_
      rw [hins] at hget
      by_cases heq : (did, cid) = (did', cid')
      · rw [heq, Table.get_insert_self] at hget
        cases hget
      · rwa [Table.get_insert_of_ne heq] at hget
    · exact Or.inr rfl
  put j key bytes he := by
    injection he with hi ho hans
    injection ho with ho
    subst ho
    cases h
    simp [Table.contains]
  inserted j host did cid row he := by
    injection he with hi ho hans
    injection ho with ho
    subst ho
    cases h
    rw [refs_setObject, if_pos rfl, Table.get_insert_self]
  selected j host did cid x he := by cases he
  fetched j key x he := by cases he

theorem blobStep_exec {o : BlobOp L} {c : Fate} {r : o.Ret} (i : Nat)
    (h : BlobOp.exec lib cfg slib D o c = some (r, D')) : BlobStep D D' ⟨i, o, r⟩ := by
  cases o with
  | tenant o =>
      cases c with
      | done => exact .of_effect h
      | failsBefore msg =>
          obtain ⟨rfl, rfl⟩ := Prod.mk.injEq .. |>.mp (Option.some.inj h)
          exact .of_same rfl (fun _ => rfl) (fun _ _ _ => event_err_ne (by simp [TenantOp.err]))
            (fun _ _ _ _ _ => event_err_ne (by simp [TenantOp.err]))
            (fun _ _ _ _ _ he => by cases he) fun _ _ _ he => by cases he
      | failsAfter msg =>
          obtain ⟨⟨r', D₁⟩, heff, heq⟩ := Option.map_eq_some_iff.mp h
          obtain ⟨rfl, rfl⟩ := Prod.mk.injEq .. |>.mp heq
          exact .of_effect heff
  | listAccounts host =>
      cases c <;> cases h <;> exact .of_read (fun _ ho => nomatch ho)
        (fun _ _ _ _ _ he => nomatch he) fun _ _ _ he => nomatch he
  | selectCids host did limit cursor =>
      cases c <;> cases h <;> exact .of_read (fun _ ho => nomatch ho)
        (fun _ _ _ _ _ he => nomatch he) fun _ _ _ he => nomatch he
  | selectBlobRef host did cid =>
      obtain rfl : D' = D := by cases c <;> cases h <;> rfl
      refine .of_read (fun _ ho => nomatch ho) (fun j host' did' cid' x he => ?_)
        fun _ _ _ he => nomatch he
      cases c <;> cases h <;> cases he
      rfl
  | getObject key =>
      obtain rfl : D' = D := by cases c <;> cases h <;> rfl
      refine .of_read (fun _ ho => nomatch ho) (fun _ _ _ _ _ he => nomatch he)
        fun j key' x he => ?_
      cases c <;> cases h <;> cases he
      rfl

end

end Worker

end Stelyph
