import Stelyph.Tenants

/-!
# What is left of a deleted account

`delete_account_data` is a list of deletes kept by hand. What it misses
are the blocks: they carry no DID, and nothing ever removes one. So the
erasure of an account leaves nothing of it exactly where no block was
ever inserted for it. Every other table the schema has for an account is
either cleared or, like the OAuth tables, never written.
-/

namespace Stelyph

namespace Worker

section

variable {L : RepoLib}

/-- Nothing that was written for the account is left in any table that
holds account data. -/
structure Erased (did : String) (t : ObjectTables L) : Prop where
  accounts : ∀ a ∈ t.accounts.accounts, a.did ≠ did
  keys : ∀ k ∈ t.accounts.keys, k.1 ≠ s!"{did}#signing" ∧ k.1 ≠ s!"{did}#rotation"
  preferences : t.preferences.get did = none
  roots : t.repo.roots.get did = none
  rows : ∀ r ∈ t.repo.rows, r.did ≠ did
  blocks : ∀ cid, (did, cid) ∈ t.wroteFor → t.repo.blocks.contains cid = false
  blobRefs : ∀ cid, t.blobRefs.get (did, cid) = none
  deviceKeys : t.deviceKeys.rows = []
  signins : t.signins.rows = []
  oauthRequests : t.oauth.par.rows = []
  oauthCodes : ∀ hash code, t.oauth.codes.get hash = some code → code.did ≠ did
  oauthTokens : ∀ hash rec used, t.oauth.refresh.get hash = some (rec, used) → rec.did ≠ did

/-- No route writes the OAuth tables, and blocks stay. -/
structure Kept (t : ObjectTables L) : Prop where
  oauth : t.oauth = .empty
  blocks : ∀ did cid, (did, cid) ∈ t.wroteFor → t.repo.blocks.contains cid = true

theorem kept_empty : Kept (ObjectTables.empty L) :=
  ⟨rfl, fun _ _ h => absurd h List.not_mem_nil⟩

/-- Both are about fields a request may leave alone. -/
theorem Kept.congr {t t' : ObjectTables L} (h : Kept t) (hoauth : t'.oauth = t.oauth)
    (hblocks : t'.repo.blocks = t.repo.blocks) (hfor : t'.wroteFor = t.wroteFor) : Kept t' :=
  ⟨hoauth.trans h.oauth, fun did cid hmem => hblocks ▸ h.blocks did cid (hfor ▸ hmem)⟩

theorem Kept.deleteAccountData {t : ObjectTables L} (h : Kept t) (did : String) :
    Kept (t.deleteAccountData did) := h.congr rfl rfl rfl

theorem Kept.deleteAccount {t : ObjectTables L} (h : Kept t) : Kept t.deleteAccount.2 := by
  unfold ObjectTables.deleteAccount
  split
  · exact h
  · exact h.deleteAccountData _

/-! ## Blocks stay -/

theorem WriterOp.exec_blocksLe {i : Nat} {s t : RepoStore L} {o : WriterOp L} {c : WriterFate}
    {r : o.Ret} (h : WriterOp.exec i s o c = some (r, t)) :
    BlocksLe s.blocks.get t.blocks.get := by
  cases o with
  | writeBlock b =>
      cases c <;> cases h
      · exact blocksLe_insertOrIgnore _ _ _
      · exact BlocksLe.refl _
  | tree root op =>
      cases c with
      | done =>
          simp only [WriterOp.exec] at h
          split at h <;> cases h
          · exact blocksLe_putBlocks _ _
          · exact BlocksLe.refl _
      | fault msg part =>
          simp only [WriterOp.exec] at h
          split at h <;> cases h
          · exact blocksLe_putBlocks _ _
          · exact BlocksLe.refl _
  | commitBlocks blocks did newRoot event =>
      cases c <;> cases h
      · exact blocksLe_commitBlocks _ _ _ _ _
      · exact BlocksLe.refl _
  | lock did =>
      cases c with
      | done =>
          simp only [WriterOp.exec] at h
          split_ifs at h
          cases h
          exact BlocksLe.refl _
      | fault msg part => cases h
  | readBlock cid =>
      cases c with
      | done =>
          simp only [WriterOp.exec] at h
          split at h <;> cases h <;> exact BlocksLe.refl _
      | fault msg part =>
          cases h
          exact BlocksLe.refl _
  | unlock did | loadRepoRoot did | send e =>
      cases c <;> cases h <;> exact BlocksLe.refl _

theorem RecordOp.exec_blocksLe {env : RecordEnv L RepoError} {i : Nat} {s t : RepoStore L}
    {o : RecordOp L} {c : WriterFate} {r : o.Ret RepoError}
    (h : RecordOp.exec env i s o c = some (r, t)) : BlocksLe s.blocks.get t.blocks.get := by
  cases o with
  | writer o => exact WriterOp.exec_blocksLe h
  | loadSigningKey did => cases c <;> cases h <;> exact BlocksLe.refl _
  | lookupRecordCid did key => cases c <;> cases h <;> exact BlocksLe.refl _
  | other o => cases c <;> cases h

variable {Keypair : Type} {lib : FrontLib Keypair} {cfg : TenantConfig L} {slib : SigninLib}

theorem Kept.write {t t' : ObjectTables L} (h : Kept t) {bearer : Option String}
    {body : Option Json} {call : WriteCall} {fates : List WriterFate}
    {x : Except RepoFailure (WriteReply × Option (Commit L))}
    (hrun : t.write cfg bearer body call fates = some (x, t')) : Kept t' := by
  obtain ⟨⟨y, s⟩, hserve, heq⟩ := Option.map_eq_some_iff.mp hrun
  obtain ⟨rfl, rfl⟩ := Prod.mk.injEq .. |>.mp heq
  have hle := (Prog.Each.yields (P := fun _ => True)
    (R := fun s t : RepoStore L => BlocksLe s.blocks.get t.blocks.get)
    (fun _ => BlocksLe.refl _) (fun _ _ _ => BlocksLe.trans)
    (fun _ _ _ _ _ _ hexec => RecordOp.exec_blocksLe hexec)
    (Prog.each_of_forall (fun _ => trivial) _)).of_against hserve
  refine ⟨h.oauth, fun did cid hmem => ?_⟩
  rcases List.mem_append.mp hmem with hold | hnew
  · obtain ⟨b, hb⟩ := Table.contains_iff.mp (h.blocks did cid hold)
    exact Table.contains_iff.mpr ⟨b, hle cid b hb⟩
  · obtain ⟨did', -, hin⟩ := List.mem_flatMap.mp hnew
    obtain ⟨b, hb, heq⟩ := List.mem_map.mp hin
    obtain ⟨-, rfl⟩ := Prod.mk.injEq .. |>.mp heq
    exact Table.contains_iff.mpr ⟨b.2, Table.get_eq_some_iff.mpr (List.mem_filter.mp hb).1⟩

/-! ## Runs -/

theorem kept_setObject {D : Deployment L} (h : ∀ host, Kept (D.objects host)) {host : String}
    {t : ObjectTables L} (ht : Kept t) (host' : String) :
    Kept ((D.setObject host t).objects host') := by
  simp only [Deployment.setObject]
  split_ifs
  · exact ht
  · exact h host'

theorem kept_effect {D D' : Deployment L} (h : ∀ host, Kept (D.objects host)) {o : TenantOp L}
    {r : o.Ret} (heff : o.effect lib cfg slib D = some (r, D')) (host : String) :
    Kept (D'.objects host) := by
  cases o with
  | front o =>
      by_cases hw : ∃ target, o = .wipe target
      · obtain ⟨target, rfl⟩ := hw
        cases heff
        exact kept_setObject h (h target).deleteAccount host
      · have hset : D' = D.setFront (o.effect lib D.front).2 := by
          cases o with
          | wipe target => exact absurd ⟨target, rfl⟩ hw
          | _ => cases heff; rfl
        rw [hset]
        exact (h host).congr rfl rfl rfl
  | resolveDid did =>
      cases heff
      exact h host
  | upsertPreferences target did prefs =>
      cases heff
      refine kept_setObject h ?_ host
      exact (h target).congr rfl rfl rfl
  | putObject key bytes =>
      cases heff
      exact h host
  | insertBlobRef target did cid row =>
      cases heff
      refine kept_setObject h ?_ host
      exact (h target).congr rfl rfl rfl
  | write target bearer body call fates =>
      obtain ⟨⟨x, t⟩, hwrite, heq⟩ := Option.map_eq_some_iff.mp heff
      cases heq
      exact kept_setObject h ((h target).write hwrite) host
  | signin target request rnd =>
      cases heff
      refine kept_setObject h ?_ host
      exact (h target).congr rfl rfl rfl

theorem kept_exec {D D' : Deployment L} (h : ∀ host, Kept (D.objects host)) {o : TenantOp L}
    {r : o.Ret} {c : Fate} (hexec : TenantOp.exec lib cfg slib D o c = some (r, D'))
    (host : String) : Kept (D'.objects host) := by
  cases c with
  | done => exact kept_effect h hexec host
  | failsBefore msg =>
      cases hexec
      exact h host
  | failsAfter msg =>
      obtain ⟨⟨x, D''⟩, heff, heq⟩ := Option.map_eq_some_iff.mp hexec
      cases heq
      exact kept_effect h heff host

theorem kept_run {registry : Registry} {as : List (PoolAct (TenantRequest Keypair) Fate)}
    {P : TenantPool L Keypair}
    (hrun : Steps.run (tenantStep lib cfg slib) (Pool.init (Deployment.empty L registry)) as
      = some P) (host : String) : Kept (P.store.objects host) := by
  refine Steps.run_inv (I := fun P : TenantPool L Keypair => ∀ host, Kept (P.store.objects host))
    (fun P a P' hP h => ?_) (fun _ => kept_empty) hrun host
  rcases Pool.next_cases h with ⟨q, rfl, rfl⟩ | ⟨i, c, q, o, k, r, D, rfl, -, hexec, rfl⟩
  · exact hP
  · exact kept_exec hP hexec

/-! ## The erasure -/

/-- What the deletes reach, they clear. -/
theorem erased_iff_of_kept {t : ObjectTables L} (h : Kept t) (did : String) :
    Erased did (t.deleteAccountData did) ↔ ∀ cid, (did, cid) ∉ t.wroteFor := by
  constructor
  · intro herased cid hmem
    have hgone := herased.blocks cid hmem
    exact absurd ((h.blocks did cid hmem).symm.trans hgone) (by decide)
  · intro hnone
    refine
      { accounts := fun a ha => by simpa using (List.mem_filter.mp ha).2
        keys := fun k hk => by simpa using (List.mem_filter.mp hk).2
        preferences := Table.get_remove_self _ _
        roots := Table.get_remove_self _ _
        rows := fun r hr => by simpa using (List.mem_filter.mp hr).2
        blocks := fun cid hmem => absurd hmem (hnone cid)
        blobRefs := fun cid => ?_
        deviceKeys := rfl
        signins := rfl
        oauthRequests := ?_
        oauthCodes := fun hash code hget => ?_
        oauthTokens := fun hash rec used hget => ?_ }
    · cases hget : (t.deleteAccountData did).blobRefs.get (did, cid) with
      | none => rfl
      | some row => simpa using (Table.get_retain_eq_some.mp hget).2
    · have hoauth : (t.deleteAccountData did).oauth = .empty := h.oauth
      rw [hoauth]
      rfl
    · have hoauth : (t.deleteAccountData did).oauth = .empty := h.oauth
      rw [hoauth] at hget
      cases hget
    · have hoauth : (t.deleteAccountData did).oauth = .empty := h.oauth
      rw [hoauth] at hget
      cases hget

/-- In every reachable state, an erasure that is answered with the DID of
the account leaves nothing of it in the object if and only if no block was
ever inserted for the account. -/
theorem erased_iff {registry : Registry} {as : List (PoolAct (TenantRequest Keypair) Fate)}
    {P : TenantPool L Keypair}
    (hrun : Steps.run (tenantStep lib cfg slib) (Pool.init (Deployment.empty L registry)) as
      = some P) {host did : String} {D : Deployment L}
    (hwipe : TenantOp.exec lib cfg slib P.store (.front (.wipe host)) .done
      = some (.ok (some did), D)) :
    Erased did (D.objects host) ↔ ∀ cid, (did, cid) ∉ (P.store.objects host).wroteFor := by
  obtain ⟨hans, rfl⟩ := Prod.mk.injEq .. |>.mp (Option.some.inj hwipe)
  have hdid := Except.ok.inj hans
  have htables : ((P.store.wipe host).objects host)
      = (P.store.objects host).deleteAccount.2 := by
    simp [Deployment.wipe, Deployment.setObject]
  rw [htables]
  unfold ObjectTables.deleteAccount at hdid ⊢
  split at hdid
  · cases hdid
  · rename_i a hhead
    obtain rfl := Option.some.inj hdid
    exact erased_iff_of_kept (kept_run hrun host) a.did

end

/-! ## An account with a post -/

def samplePost (did : String) : Json :=
  .obj [("repo", .str did), ("collection", .str "app.bsky.feed.post"), ("rkey", .str "1"),
    ("record", .obj [])]

/-- A signup and the account's first record. -/
def signUpAndPost : List (PoolAct (TenantRequest Nat) Fate) :=
  signUp "alice" 1 0 ++
    [.start (.account "alice.pds.test" (some ("access:" ++ sampleDid "alice" ++ ":0"))
      (.write (some (samplePost (sampleDid "alice"))) (.createRecord 0 sampleDraw)
        (List.replicate 16 .done))), .step 1 .done]

/-- Its blocks outlive the account. -/
theorem blocks_outlive_account :
    ¬ ∀ (L : RepoLib) (lib : FrontLib Nat) (cfg : TenantConfig L) (slib : SigninLib)
      (registry : Registry) (as : List (PoolAct (TenantRequest Nat) Fate)) (P : TenantPool L Nat)
      (host did : String) (D : Deployment L),
      Steps.run (tenantStep lib cfg slib) (Pool.init (Deployment.empty L registry)) as = some P →
      TenantOp.exec lib cfg slib P.store (.front (.wipe host)) .done
        = some (.ok (some did), D) → Erased did (D.objects host) := by
  intro h
  have hend : (Steps.run (tenantStep sampleFrontLib sampleTenants sampleSignin) sampleDeployment
      signUpAndPost).map (fun P => ((P.store.objects "alice.pds.test").deleteAccount.1,
        (P.store.objects "alice.pds.test").deleteAccount.2.wroteFor.any fun w =>
          w.1 == sampleDid "alice"
            && (P.store.objects "alice.pds.test").deleteAccount.2.repo.blocks.contains w.2))
      = some (some (sampleDid "alice"), true) := by decide +kernel
  obtain ⟨P, hrun, hP⟩ := Option.map_eq_some_iff.mp hend
  obtain ⟨hdid, hany⟩ := Prod.mk.injEq .. |>.mp hP
  have herased := h sampleRepo sampleFrontLib sampleTenants sampleSignin ⟨.empty, .empty⟩
    signUpAndPost P "alice.pds.test" (sampleDid "alice") (P.store.wipe "alice.pds.test") hrun
    (by rw [← hdid]; rfl)
  obtain ⟨⟨did, cid⟩, hmem, hw⟩ := List.any_eq_true.mp hany
  obtain ⟨hown, hthere⟩ := Bool.and_eq_true _ _ |>.mp hw
  obtain rfl : did = sampleDid "alice" := by simpa using hown
  have hgone := herased.blocks cid hmem
  exact absurd (hthere.symm.trans hgone) (by decide)

/-- A sign-in library for the password hashes of the sample front. -/
def saltedSignin : SigninLib :=
  { sampleSignin with
    verifyPassword := fun password phc => .ok (Text.endsWith phc s!"${password}") }

/-- A signup, and a row in each table an account can fill without a post. -/
def signUpAndSettle : List (PoolAct (TenantRequest Nat) Fate) :=
  let host := "alice.pds.test"
  let token := some ("access:" ++ sampleDid "alice" ++ ":0")
  signUp "alice" 1 0 ++ [
    .start (.account host token (.putPreferences (some (.obj [("preferences", .arr [])])))),
    .start (.account host token (.uploadBlob (some "image/png") [1, 2, 3])),
    .start (.account host none (.signin
      (.deviceRegister host "correct horse" "did:key:zAlice" "phone") ⟨"device", "", 100⟩)),
    .start (.account host none (.signin (.signinStart "app") ⟨"req", "code", 101⟩)),
    .step 1 .done, .step 2 .done, .step 3 .done, .step 2 .done, .step 4 .done]

/-- The rows of the account, table by table. -/
def rowCounts {L : RepoLib} (t : ObjectTables L) : List Nat :=
  [t.accounts.accounts.length, t.accounts.keys.length, t.preferences.rows.length,
    t.blobRefs.rows.length, t.deviceKeys.rows.length, t.signins.rows.length, t.wroteFor.length]

/-- An account that never posted is gone without a trace. -/
theorem postless_account_erased : ∃ P,
    Steps.run (tenantStep sampleFrontLib sampleTenants saltedSignin) sampleDeployment
      signUpAndSettle = some P
    ∧ rowCounts (P.store.objects "alice.pds.test") = [1, 2, 1, 1, 1, 1, 0]
    ∧ Erased (sampleDid "alice") ((P.store.wipe "alice.pds.test").objects "alice.pds.test") := by
  have hend : (Steps.run (tenantStep sampleFrontLib sampleTenants saltedSignin) sampleDeployment
      signUpAndSettle).map (fun P => ((P.store.objects "alice.pds.test").deleteAccount.1,
        rowCounts (P.store.objects "alice.pds.test")))
      = some (some (sampleDid "alice"), [1, 2, 1, 1, 1, 1, 0]) := by decide +kernel
  obtain ⟨P, hrun, hP⟩ := Option.map_eq_some_iff.mp hend
  obtain ⟨hdid, hrows⟩ := Prod.mk.injEq .. |>.mp hP
  refine ⟨P, hrun, hrows, (erased_iff hrun (by rw [← hdid]; rfl)).mpr fun cid hmem => ?_⟩
  have hnone : (P.store.objects "alice.pds.test").wroteFor = [] :=
    List.eq_nil_of_length_eq_zero (by simpa [rowCounts] using congrArg List.getLast? hrows)
  rw [hnone] at hmem
  exact List.not_mem_nil hmem

end Worker

end Stelyph
