import Stelyph.Tenants

/-!
# Whose rows an object holds

The Host decides which object a request reaches, and the token decides
for whom the object acts. Preferences and uploads take the subject of any
token the deployment issued, whether or not the object holds that account.
So the rows of an object are its account's as long as the two agree: each
request that is to store a row reaches the object that holds the subject
of its token, and that account is not wiped while the request is under way.

`selection` says where `dispatch` sends a request, `stores` for whom it
will store a row, both read off the request; `SentHome` compares them with
the accounts of the moment.
-/

namespace Stelyph

namespace Worker

section

variable {L : RepoLib} {Keypair : Type}

/-- Every row of `account_preferences` and `blob_refs` has the DID of the
account the object holds. -/
structure ObjectTables.Isolated (t : ObjectTables L) : Prop where
  preferences : ∀ did prefs, t.preferences.get did = some prefs → t.holds did = true
  blobRefs : ∀ did cid row, t.blobRefs.get (did, cid) = some row → t.holds did = true

/-- No object has a row of another account's than its own. -/
def Isolated (D : Deployment L) : Prop := ∀ host, (D.objects host).Isolated

/-! ## Where a request goes, and for whom -/

/-- How `dispatch` finds the object of a request: the host is known, or the
registry is asked for the label of a DID. -/
inductive Selection where
  | known (host : String)
  | asks (did : String)

variable (cfg : TenantConfig L)

/-- The host as the Worker compares it: without a port, in lower case. -/
def hostOf (hostHeader : String) : String := Text.toAsciiLowercase (Text.upTo hostHeader ':')

/-- On the shared host the subject of the token is looked for, a DID with
the registry's help; everywhere else the Host is the object. -/
def selection (host : String) (bearer : Option String) (call : TenantCall) : Selection :=
  if host = cfg.front.zone ∧ call.byToken then
    match bearer.bind (jwtSub cfg) with
    | none => .known host
    | some sub =>
        let id := Text.toAsciiLowercase sub
        if Text.startsWith id "did:" then .asks id
        else if Text.endsWith id s!".{cfg.front.zone}" then .known id
        else .known s!"{id}.{cfg.front.zone}"
  else .known host

/-- Without a label for the DID the request stays with the shared host. -/
def resolvedHost : Except String (Option String) → String
  | .ok (some label) => s!"{label}.{cfg.front.zone}"
  | _ => cfg.front.zone

/-- The calls that store a row, where their token verifies. -/
def TenantCall.storesRow : TenantCall → Bool
  | .putPreferences _ => true
  | .uploadBlob _ bytes => !bytes.isEmpty && decide (bytes.length ≤ maxBlobBytes)
  | _ => false

/-- The DID under which a request will store a row: the subject of its
token, if that verifies. -/
def TenantRequest.stores : TenantRequest Keypair → Option String
  | .front _ => none
  | .account hostHeader bearer call =>
      if !(hostOf hostHeader).isEmpty && call.storesRow then actingDid cfg bearer else none

theorem ObjectTables.holds_iff {t : ObjectTables L} {did : String} :
    t.holds did = true ↔ ∃ a ∈ t.accounts.accounts, a.did = did := by
  simp [ObjectTables.holds]

/-- The rows may go and the account may come, not the other way round. -/
theorem ObjectTables.Isolated.mono {t t' : ObjectTables L} (h : t.Isolated)
    (hprefs : t'.preferences = t.preferences) (hblobs : t'.blobRefs = t.blobRefs)
    (hholds : ∀ did, t.holds did = true → t'.holds did = true) : t'.Isolated where
  preferences did prefs hget := hholds did (h.preferences did prefs (hprefs ▸ hget))
  blobRefs did cid row hget := hholds did (h.blobRefs did cid row (hblobs ▸ hget))

/-- What is erased takes its rows along. -/
theorem ObjectTables.Isolated.deleteAccountData {t : ObjectTables L} (h : t.Isolated)
    (did : String) : (t.deleteAccountData did).Isolated := by
  have hstays : ∀ did', did' ≠ did → t.holds did' = true →
      (t.deleteAccountData did).holds did' = true := by
    intro did' hne hholds
    obtain ⟨a, ha, rfl⟩ := holds_iff.mp hholds
    exact holds_iff.mpr ⟨a, List.mem_filter.mpr ⟨ha, by simpa using hne⟩, rfl⟩
  constructor
  · intro did' prefs hget
    obtain ⟨hget, hne⟩ := Table.get_retain_eq_some.mp hget
    exact hstays did' (by simpa using hne) (h.preferences did' prefs hget)
  · intro did' cid row hget
    obtain ⟨hget, hne⟩ := Table.get_retain_eq_some.mp hget
    exact hstays did' (by simpa using hne) (h.blobRefs did' cid row hget)

theorem ObjectTables.Isolated.deleteAccount {t : ObjectTables L} (h : t.Isolated) :
    t.deleteAccount.2.Isolated := by
  unfold ObjectTables.deleteAccount
  split
  · exact h
  · exact h.deleteAccountData _

/-- The object and the DID of the row that an operation stores. -/
def TenantOp.row : TenantOp L → Option (String × String)
  | .upsertPreferences host did _ => some (host, did)
  | .insertBlobRef host did _ _ => some (host, did)
  | _ => none

variable {cfg} {lib : FrontLib Keypair} {slib : SigninLib}

/-- Every row the program will store is the request's own, in the object at
`host`. -/
def RowsAt (cfg : TenantConfig L) (q : TenantRequest Keypair) (host : String)
    (p : TenantProg L (TenantReply L)) : Prop :=
  Prog.Each (S := tenantSig L) (fun o => ∀ row, TenantOp.row o = some row →
    row.1 = host ∧ q.stores cfg = some row.2) p

/-- Every row the program will store is the request's own, in an object
that holds its account. -/
def RowsHome (cfg : TenantConfig L) (D : Deployment L) (q : TenantRequest Keypair)
    (p : TenantProg L (TenantReply L)) : Prop :=
  Prog.Each (S := tenantSig L) (fun o => ∀ row, TenantOp.row o = some row →
    q.stores cfg = some row.2 ∧ (D.objects row.1).holds row.2 = true) p

/-- What is left of a request: rows in the object it was sent to, or the
question to the registry on which the object depends. -/
inductive TaskHome (cfg : TenantConfig L) (D : Deployment L) (q : TenantRequest Keypair) :
    TenantProg L (TenantReply L) → Prop
  | sent {p} (h : RowsHome cfg D q p) : TaskHome cfg D q p
  | asking {did : String} {k} (h : ∀ r, RowsAt cfg q (resolvedHost cfg r) (k r)) :
      TaskHome cfg D q (.op (.resolveDid did) k)

/-- The accounts a request needs are there after a step, unless it is
answered. -/
theorem RowsHome.keeps {D D' : Deployment L} {q : TenantRequest Keypair}
    {p : TenantProg L (TenantReply L)} (h : RowsHome cfg D q p)
    (hkeep : p.outcome.isSome = true ∨ ∀ host did, q.stores cfg = some did →
      (D.objects host).holds did = true → (D'.objects host).holds did = true) :
    RowsHome cfg D' q p := by
  rcases hkeep with hend | hkeep
  · cases p with
    | op o k => cases hend
    | _ => trivial
  · exact Prog.Each.mono (S := tenantSig L) (fun o ho row hrow =>
      ⟨(ho row hrow).1, hkeep _ _ (ho row hrow).1 (ho row hrow).2⟩) h

theorem TaskHome.keeps {D D' : Deployment L} {q : TenantRequest Keypair}
    {p : TenantProg L (TenantReply L)} (h : TaskHome cfg D q p)
    (hkeep : p.outcome.isSome = true ∨ ∀ host did, q.stores cfg = some did →
      (D.objects host).holds did = true → (D'.objects host).holds did = true) :
    TaskHome cfg D' q p := by
  cases h with
  | sent h => exact .sent (h.keeps hkeep)
  | asking h => exact .asking h

/-- The object of a request when the registry answers. -/
def TenantRequest.object (cfg : TenantConfig L) (D : Deployment L) :
    TenantRequest Keypair → String
  | .front _ => cfg.front.zone
  | .account hostHeader bearer call =>
      match selection cfg (hostOf hostHeader) bearer call with
      | .known host => host
      | .asks did => resolvedHost cfg (.ok (resolveDid D.registry did))

end

/-! ## A token at another account's host -/

end Worker

end Stelyph
