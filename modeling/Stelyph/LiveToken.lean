import Stelyph.Lib.Budget
import Stelyph.OauthSqlite
import Stelyph.RefreshRevocation

/-!
# One live refresh token

A code is redeemed once, a refresh token is redeemed once, and a session
has one token that can be. All three are balances of the log: what was
redeemed and what is still there was put there before. A token request
puts a token only for what it redeemed, so the puts are bounded by the
random values that the requests drew.
-/

namespace Stelyph

/-! ## Requests -/

/-- Token requests, with the requests that put codes (`issue_code`) and
those that delete tokens. -/
inductive GrantRequest where
  | token (q : TokenRequest)
  | issueCode (code : AuthCode) (requestUriHash : String)
  | revoke (token : String)
  | purge (now : Nat)

section

variable (cfg : OauthConfig)

/-- The endpoints that store or take codes and tokens. -/
def grantHandler : GrantRequest → OauthProg (Option TokenResponse)
  | .token q => (tokenHandle cfg q).bind fun r => .ret (some r)
  | .issueCode code requestUriHash => do
      OauthOp.call (.putAuthCode code)
      OauthOp.call (.deletePushedRequest requestUriHash)
      return none
  | .revoke token => (revoke cfg token).bind fun _ => .ret none
  | .purge now => do
      let _ ← OauthOp.call (.purgeExpired now)
      return none

/-- The token requests under way, over one backend. -/
abbrev GrantPool := Pool oauthSig GrantRequest OAuthError (Option TokenResponse) OauthStore

/-- One step of them: a request comes in, or one of those under way does
its next store call. Every interleaving is a run. -/
def grantStep (b : OauthBackend) (P : GrantPool) (a : PoolAct GrantRequest StoreOutcome) :
    Option GrantPool :=
  Pool.next b.machine (grantHandler cfg) P a

/-! ## Random values -/

/-- The random values a request has drawn: here the code, by its hash. -/
def GrantRequest.drawnCode : GrantRequest → Option String
  | .issueCode code _ => some code.codeHash
  | _ => none

/-- The refresh token it has drawn, by its hash. -/
def GrantRequest.drawnToken : GrantRequest → Option String
  | .token q => some (cfg.hashSecret q.newRefreshToken)
  | _ => none

/-- The session id it has drawn, used or not. -/
def GrantRequest.drawnSession : GrantRequest → Option String
  | .token q => some q.newSessionId
  | _ => none

/-- No two `random_token` values of a run are the same, nor are their hashes. -/
structure DistinctDraws (qs : List GrantRequest) : Prop where
  codes : (qs.filterMap GrantRequest.drawnCode).Nodup
  tokens : (qs.filterMap (GrantRequest.drawnToken cfg)).Nodup
  sessions : (qs.filterMap GrantRequest.drawnSession).Nodup

/-- The hash of the code a token request redeems. -/
def TokenRequest.presentedCode (q : TokenRequest) : Option String :=
  if q.form.grantType = "authorization_code" then q.form.code.map cfg.hashSecret else none

/-- The hash of the refresh token it redeems. -/
def TokenRequest.presentedToken (q : TokenRequest) : Option String :=
  if q.form.grantType = "refresh_token" then q.form.refreshToken.map cfg.hashSecret else none

end

/-! ## What is counted -/

section

variable (h sessionId : String)

/-- The code of hash `h` was stored. -/
def putCode : (o : OauthOp) → Except StorageError o.Value → Bool
  | .putAuthCode code, .ok _ => code.codeHash == h
  | _, _ => false

/-- The code of hash `h` was redeemed. -/
def tookCode : (o : OauthOp) → Except StorageError o.Value → Bool
  | .consumeAuthCode hash _, .ok (some _) => hash == h
  | _, _ => false

/-- The refresh token of hash `h` was stored. -/
def putToken : (o : OauthOp) → Except StorageError o.Value → Bool
  | .putRefreshToken rec, .ok _ => rec.tokenHash == h
  | _, _ => false

/-- The refresh token of hash `h` was redeemed. -/
def tookToken : (o : OauthOp) → Except StorageError o.Value → Bool
  | .consumeRefreshToken hash _, .ok (.consumed _) => hash == h
  | _, _ => false

/-- A token of the session was stored. -/
def putIn : (o : OauthOp) → Except StorageError o.Value → Bool
  | .putRefreshToken rec, .ok _ => rec.sessionId == sessionId
  | _, _ => false

/-- A token of the session was redeemed. -/
def tookIn : (o : OauthOp) → Except StorageError o.Value → Bool
  | .consumeRefreshToken _ _, .ok (.consumed rec) => rec.sessionId == sessionId
  | _, _ => false

/-- A row that can still be redeemed, but for its expiry. -/
def unspentIn (row : RefreshTokenRecord × Bool) : Bool := row.1.sessionId == sessionId && !row.2

end

/-! ## Balances of the store -/

namespace OauthStore

variable {s : OauthStore} {h sessionId : String}

/-- Whether the row under `h` can still be redeemed, but for its expiry. -/
def unspent (s : OauthStore) (h : String) : Bool := (s.refresh.get h).any fun row => !row.2

theorem unspent_iff {s : OauthStore} {h : String} :
    s.unspent h = true ↔ ∃ rec, s.refresh.get h = some (rec, false) := by
  rw [unspent, Option.any_eq_true]
  constructor
  · rintro ⟨⟨rec, used⟩, hget, hused⟩
    obtain rfl : used = false := by simpa using hused
    exact ⟨rec, hget⟩
  · rintro ⟨rec, hget⟩
    exact ⟨_, hget, rfl⟩

theorem contains_consumeAuthCode (s : OauthStore) (h hash : String) (now : Nat) :
    ((s.consumeAuthCode hash now).2.codes.contains h).toNat
      + (tookCode h (.consumeAuthCode hash now) (.ok (s.consumeAuthCode hash now).1)).toNat
      ≤ (s.codes.contains h).toNat := by
  simp only [consumeAuthCode]
  by_cases heq : hash = h
  · subst heq
    rw [Table.contains_remove_self, Bool.toNat_false, Nat.zero_add]
    refine toNat_le_of_imp fun htook => ?_
    cases hget : s.codes.get hash with
    | none => simp [tookCode, hget] at htook
    | some code => exact Table.contains_iff.mpr ⟨code, hget⟩
  · have hsame : (s.codes.remove hash).contains h = s.codes.contains h := by
      rw [Table.contains, Table.get_remove_of_ne (Ne.symm heq), Table.contains]
    have hother : ∀ r, tookCode h (.consumeAuthCode hash now) (.ok r) = false := by
      intro r
      cases r <;> simp [tookCode, heq]
    rw [hsame, hother, Bool.toNat_false, Nat.add_zero]

@[simp] theorem revokeRefreshToken_codes (s : OauthStore) (hash : String) :
    (s.revokeRefreshToken hash).2.codes = s.codes := by
  unfold revokeRefreshToken
  split <;> rfl

@[simp] theorem consumeRefreshToken_codes (s : OauthStore) (hash : String) (now : Nat) :
    (s.consumeRefreshToken hash now).2.codes = s.codes := by
  unfold consumeRefreshToken
  split
  · rfl
  · split_ifs <;> rfl

@[simp] theorem recordDpopJti_codes (s : OauthStore) (jti : String) (expiresAt : Nat) :
    (s.recordDpopJti jti expiresAt).2.codes = s.codes := by
  unfold recordDpopJti
  split <;> rfl

/-- A code that is there, or is redeemed now, was there or is put now. -/
theorem codes_exec (s : OauthStore) (h : String) (o : OauthOp) (c : StoreOutcome) :
    ((o.exec s c).2.codes.contains h).toNat + (tookCode h o (o.exec s c).1).toNat
      ≤ (s.codes.contains h).toNat + (putCode h o (o.exec s c).1).toNat := by
  cases c with
  | fault msg => cases o <;> exact Nat.le_refl _
  | done =>
      cases o with
      | putAuthCode code =>
          refine toNat_le_add_of_imp fun hin => ?_
          obtain ⟨row, hrow⟩ := Table.contains_iff.mp hin
          rcases Table.get_insert_eq_some.mp hrow with ⟨rfl, -⟩ | ⟨-, hrow⟩
          · exact Or.inr (beq_self_eq_true _)
          · exact Or.inl (Table.contains_iff.mpr ⟨row, hrow⟩)
      | consumeAuthCode hash now =>
          exact Nat.le_trans (contains_consumeAuthCode s h hash now) (Nat.le_add_right _ _)
      | purgeExpired now =>
          refine toNat_le_add_of_imp fun hin => Or.inl ?_
          obtain ⟨row, hrow⟩ := Table.contains_iff.mp hin
          exact Table.contains_iff.mpr ⟨row, (Table.get_retain_eq_some.mp hrow).1⟩
      | revokeRefreshToken hash | consumeRefreshToken hash now | recordDpopJti jti expiresAt =>
          simp [OauthOp.exec, OauthOp.apply, tookCode]
      | _ => exact Nat.le_refl _

theorem unspent_retain {s : OauthStore} {p : String → RefreshTokenRecord × Bool → Bool}
    {h : String} (hun : unspent { s with refresh := s.refresh.retain p } h = true) :
    s.unspent h = true := by
  obtain ⟨rec, hget⟩ := unspent_iff.mp hun
  exact unspent_iff.mpr ⟨rec, (Table.get_retain_eq_some.mp hget).1⟩

/-- A token that is redeemed was unspent and is spent. -/
theorem unspent_consumeRefreshToken (s : OauthStore) (h hash : String) (now : Nat) :
    ((s.consumeRefreshToken hash now).2.unspent h).toNat
      + (tookToken h (.consumeRefreshToken hash now) (.ok (s.consumeRefreshToken hash now).1)).toNat
      ≤ (s.unspent h).toNat := by
  unfold consumeRefreshToken
  split
  · exact Nat.le_refl _
  · rename_i rec used hget
    split_ifs with hexp hused
    · exact Nat.le_refl _
    · exact Nat.le_refl _
    · obtain rfl : used = false := Bool.eq_false_of_not_eq_true hused
      by_cases heq : hash = h
      · subst heq
        have hspent : unspent { s with refresh := s.refresh.insert hash (rec, true) } hash
            = false := by simp [unspent]
        rw [hspent, unspent_iff.mpr ⟨rec, hget⟩]
        simp [tookToken]
      · have hsame : unspent { s with refresh := s.refresh.insert hash (rec, true) } h
            = s.unspent h := by
          rw [unspent, Table.get_insert_of_ne (Ne.symm heq), unspent]
        rw [hsame]
        simp [tookToken, heq]

theorem tokens_exec (s : OauthStore) (h : String) (o : OauthOp) (c : StoreOutcome) :
    ((o.exec s c).2.unspent h).toNat + (tookToken h o (o.exec s c).1).toNat
      ≤ (s.unspent h).toNat + (putToken h o (o.exec s c).1).toNat := by
  cases c with
  | fault msg => cases o <;> exact Nat.le_refl _
  | done =>
      cases o with
      | putRefreshToken rec =>
          refine toNat_le_add_of_imp fun hun => ?_
          obtain ⟨row, hget⟩ := unspent_iff.mp hun
          rcases Table.get_insert_eq_some.mp hget with ⟨rfl, -⟩ | ⟨-, hget⟩
          · exact Or.inr (beq_self_eq_true _)
          · exact Or.inl (unspent_iff.mpr ⟨row, hget⟩)
      | consumeRefreshToken hash now =>
          exact Nat.le_trans (unspent_consumeRefreshToken s h hash now) (Nat.le_add_right _ _)
      | revokeSession sessionId => exact toNat_le_of_imp unspent_retain
      | purgeExpired now => exact toNat_le_of_imp unspent_retain
      | revokeRefreshToken hash =>
          refine toNat_le_of_imp fun hun => ?_
          simp only [OauthOp.exec, OauthOp.apply, revokeRefreshToken] at hun
          split at hun
          · exact hun
          · exact unspent_retain hun
      | recordDpopJti jti expiresAt =>
          simp [OauthOp.exec, OauthOp.apply, tookToken, unspent, recordDpopJti_refresh]
      | _ => exact Nat.le_refl _

theorem count_consumeRefreshToken (s : OauthStore) (sessionId hash : String) (now : Nat) :
    (s.consumeRefreshToken hash now).2.refresh.count (unspentIn sessionId)
      + (tookIn sessionId (.consumeRefreshToken hash now)
          (.ok (s.consumeRefreshToken hash now).1)).toNat
      ≤ s.refresh.count (unspentIn sessionId) := by
  unfold consumeRefreshToken
  split
  · exact Nat.le_refl _
  · rename_i rec used hget
    split_ifs with hexp hused
    · exact Nat.le_refl _
    · exact Nat.le_refl _
    · obtain rfl : used = false := Bool.eq_false_of_not_eq_true hused
      have hcount := Table.count_remove_of_get hget (unspentIn sessionId)
      rw [Table.count_insert]
      cases hrec : rec.sessionId == sessionId <;> simp [tookIn, unspentIn, hrec] at hcount ⊢ <;>
        omega

theorem session_exec (s : OauthStore) (sessionId : String) (o : OauthOp) (c : StoreOutcome) :
    (o.exec s c).2.refresh.count (unspentIn sessionId) + (tookIn sessionId o (o.exec s c).1).toNat
      ≤ s.refresh.count (unspentIn sessionId) + (putIn sessionId o (o.exec s c).1).toNat := by
  cases c with
  | fault msg => cases o <;> exact Nat.le_refl _
  | done =>
      cases o with
      | putRefreshToken rec =>
          have hle := s.refresh.count_insert_le rec.tokenHash (rec, false) (unspentIn sessionId)
          cases hrec : rec.sessionId == sessionId <;>
            simpa [OauthOp.exec, OauthOp.apply, putRefreshToken, tookIn, putIn, unspentIn, hrec]
              using hle
      | consumeRefreshToken hash now =>
          exact Nat.le_trans (count_consumeRefreshToken s sessionId hash now)
            (Nat.le_add_right _ _)
      | revokeSession other => exact Table.count_retain_le _ _ _
      | purgeExpired now => exact Table.count_retain_le _ _ _
      | revokeRefreshToken hash =>
          simp only [OauthOp.exec, OauthOp.apply, revokeRefreshToken]
          split
          · exact Nat.le_refl _
          · exact Table.count_retain_le _ _ _
      | recordDpopJti jti expiresAt =>
          simp [OauthOp.exec, OauthOp.apply, tookIn, recordDpopJti_refresh]
      | _ => exact Nat.le_refl _

end OauthStore

/-! ## Budgets of the requests -/

section

variable {cfg : OauthConfig} {h sessionId : String}
  {cost gain : (o : OauthOp) → Except StorageError o.Value → Bool}

theorem free_ofExcept {α β : Type} {n : Nat} {x : Except OAuthError α} {f : α → OauthProg β}
    (hf : ∀ a, Prog.Within (S := oauthSig) cost gain n (f a)) :
    Prog.Within (S := oauthSig) cost gain n ((Prog.ofExcept id x : OauthProg α).bind f) :=
  .bind_free hf (Prog.each_ofExcept _ _ _)

/-- The token that `issue` puts, if it costs no more than there is. -/
theorem within_issue {n : Nat} {did clientId jkt : String} {scope : Scope} {sid : Option String}
    {q : TokenRequest} (hcost : ∀ rec : RefreshTokenRecord,
      rec.tokenHash = cfg.hashSecret q.newRefreshToken → rec.sessionId = sid.getD q.newSessionId →
      ∀ r, (cost (.putRefreshToken rec) r).toNat ≤ n) :
    Prog.Within (S := oauthSig) cost gain n (issue cfg did clientId scope jkt sid q) := by
  refine free_ofExcept fun x r => ⟨?_, ?_⟩
  · exact Nat.le_trans (hcost _ rfl rfl r) (Nat.le_add_right _ _)
  · cases r <;> trivial

/-- What a token request calls the store for, but for the token it puts. -/
def OauthOp.Redeeming : OauthOp → Prop
  | .recordDpopJti _ _ | .consumeAuthCode _ _ | .consumeRefreshToken _ _ | .revokeSession _ => True
  | _ => False

/-- A token request costs what the token it puts costs, and may have
gained by what it redeemed. -/
theorem within_tokenHandle {n : Nat} {q : TokenRequest}
    (hfree : ∀ o : OauthOp, o.Redeeming → Prog.Free (S := oauthSig) cost o)
    (hcode : ∀ rec : RefreshTokenRecord, rec.tokenHash = cfg.hashSecret q.newRefreshToken →
      rec.sessionId = q.newSessionId → ∀ r, (cost (.putRefreshToken rec) r).toNat ≤ n)
    (hrefresh : ∀ hash now old, ∀ rec : RefreshTokenRecord,
      rec.tokenHash = cfg.hashSecret q.newRefreshToken → rec.sessionId = old.sessionId →
      ∀ r, (cost (.putRefreshToken rec) r).toNat
        ≤ n + (gain (.consumeRefreshToken hash now) (.ok (.consumed old))).toNat) :
    Prog.Within (S := oauthSig) cost gain n (tokenHandle cfg q) := by
  have hverify : Prog.Each (S := oauthSig) (Prog.Free cost) (verifyDpop cfg q) :=
    each_verifyDpop fun _ _ => hfree _ trivial
  refine .bind_free (fun proof => ?_) hverify
  split_ifs
  · rw [authorizationCodeGrant]
    split
    · trivial
    · intro r
      have hzero := hfree (.consumeAuthCode _ _) trivial r
      refine ⟨by rw [hzero]; exact Nat.zero_le _, ?_⟩
      rw [hzero, Bool.toNat_false, Nat.sub_zero]
      refine Prog.Within.mono (Nat.le_add_right n _) ?_
      cases r with
      | error e => trivial
      | ok code =>
          cases code with
          | none => trivial
          | some code =>
              simp only [Prog.ofExcept_ok, Prog.ret_bind]
              split
              · trivial
              · split
                · trivial
                · split
                  · trivial
                  · split
                    · trivial
                    · refine free_ofExcept fun _ => ?_
                      split
                      · trivial
                      · exact free_ofExcept fun scope => within_issue hcode
  · rw [refreshTokenGrant]
    split
    · trivial
    · intro r
      have hzero := hfree (.consumeRefreshToken _ _) trivial r
      refine ⟨by rw [hzero]; exact Nat.zero_le _, ?_⟩
      rw [hzero, Bool.toNat_false, Nat.sub_zero]
      cases r with
      | error e => trivial
      | ok res =>
          cases res with
          | consumed record =>
              simp only [Prog.ofExcept_ok, Prog.ret_bind, refreshChecks]
              split_ifs
              · trivial
              · trivial
              · refine free_ofExcept fun granted => free_ofExcept fun scope => ?_
                exact within_issue fun rec htoken hsession r =>
                  hrefresh _ _ record rec htoken hsession r
          | reused s =>
              refine Prog.Each.within ⟨hfree _ trivial, fun r => ?_⟩
              exact .bind (Prog.each_ofExcept _ _ _) fun _ => trivial
          | notFound => trivial
  · trivial

theorem each_issueCode {P : OauthOp → Prop} {code : AuthCode} {hash : String}
    (hput : P (.putAuthCode code)) (hdelete : P (.deletePushedRequest hash)) :
    Prog.Each (S := oauthSig) P (grantHandler cfg (.issueCode code hash)) := by
  refine .bind ⟨hput, fun _ => Prog.each_ofExcept _ _ _⟩ fun _ => ?_
  exact .bind ⟨hdelete, fun _ => Prog.each_ofExcept _ _ _⟩ fun _ => trivial

/-- A request that puts no refresh token. -/
theorem within_grant {n : GrantRequest → Nat}
    (hfree : ∀ o : OauthOp, o.isPut = false → Prog.Free (S := oauthSig) cost o)
    (htoken : ∀ q, Prog.Within (S := oauthSig) cost gain (n (.token q)) (tokenHandle cfg q))
    (q : GrantRequest) : Prog.Within (S := oauthSig) cost gain (n q) (grantHandler cfg q) := by
  cases q with
  | token q => exact (htoken q).map some
  | issueCode code hash => exact (each_issueCode (hfree _ rfl) (hfree _ rfl)).within
  | revoke token => exact Prog.Each.within ⟨hfree _ rfl, fun _ => trivial⟩
  | purge now =>
      have hcall : Prog.Each (S := oauthSig) (Prog.Free cost) (OauthOp.call (.purgeExpired now)) :=
        ⟨hfree _ rfl, fun _ => Prog.each_ofExcept _ _ _⟩
      exact Prog.Each.within (hcall.bind fun _ => ⟨⟩)

theorem OauthOp.Redeeming.isPut {o : OauthOp} (ho : o.Redeeming) : o.isPut = false := by
  cases o <;> first | rfl | exact ho.elim

theorem free_putToken {o : OauthOp} (ho : o.isPut = false) :
    Prog.Free (S := oauthSig) (putToken h) o := by
  intro r
  cases o <;> first | rfl | cases ho

theorem free_putIn {o : OauthOp} (ho : o.isPut = false) :
    Prog.Free (S := oauthSig) (putIn sessionId) o := by
  intro r
  cases o <;> first | rfl | cases ho

theorem within_putToken (h : String) (q : GrantRequest) :
    Prog.Within (S := oauthSig) (putToken h) (OpPred.never _)
      (q.drawnToken cfg == some h).toNat (grantHandler cfg q) := by
  refine within_grant (n := fun q => (q.drawnToken cfg == some h).toNat)
    (fun o ho => free_putToken ho) (fun q => ?_) q
  have hput : ∀ rec : RefreshTokenRecord, rec.tokenHash = cfg.hashSecret q.newRefreshToken →
      ∀ r, (putToken h (.putRefreshToken rec) r).toNat
        ≤ (some (cfg.hashSecret q.newRefreshToken) == some h).toNat := by
    intro rec htoken r
    cases r with
    | error e => exact Nat.zero_le _
    | ok u => simp [putToken, htoken]
  exact within_tokenHandle (fun o ho => free_putToken ho.isPut)
    (fun rec htoken _ => hput rec htoken) fun _ _ _ rec htoken _ r =>
      Nat.le_trans (hput rec htoken r) (Nat.le_add_right _ _)

/-- A token is put into a session that the request began, or that it
redeemed a token of. -/
theorem within_putIn (sessionId : String) (q : GrantRequest) :
    Prog.Within (S := oauthSig) (putIn sessionId) (tookIn sessionId)
      (q.drawnSession == some sessionId).toNat (grantHandler cfg q) := by
  refine within_grant (n := fun q => (q.drawnSession == some sessionId).toNat)
    (fun o ho => free_putIn ho) (fun q => ?_) q
  refine within_tokenHandle (fun o ho => free_putIn ho.isPut) (fun rec _ hsession r => ?_)
    fun _ _ old rec _ hsession r => ?_
  · cases r with
    | error e => exact Nat.zero_le _
    | ok u => simp [putIn, hsession, GrantRequest.drawnSession]
  · cases r with
    | error e => exact Nat.zero_le _
    | ok u =>
        simp only [putIn, hsession, tookIn]
        exact Nat.le_add_left _ _

theorem within_putCode (h : String) (q : GrantRequest) :
    Prog.Within (S := oauthSig) (putCode h) (OpPred.never _)
      (q.drawnCode == some h).toNat (grantHandler cfg q) := by
  cases q with
  | token q =>
      refine Prog.Within.map _ (within_tokenHandle (fun o ho r => ?_) (fun rec _ _ r => ?_)
        fun _ _ _ rec _ _ r => ?_)
      · cases o <;> first | rfl | exact ho.elim
      · exact Nat.zero_le _
      · exact Nat.zero_le _
  | issueCode code hash =>
      intro r
      have hcost : (putCode h (.putAuthCode code) r).toNat
          ≤ (some code.codeHash == some h).toNat := by
        cases r with
        | error e => exact Nat.zero_le _
        | ok u => simp [putCode]
      refine ⟨Nat.le_trans hcost (Nat.le_add_right _ _), ?_⟩
      cases r with
      | error e => trivial
      | ok u =>
          refine Prog.Each.within (Prog.Each.bind (Prog.each_ofExcept _ _ _) fun _ => ?_)
          exact .bind ⟨fun _ => rfl, fun _ => Prog.each_ofExcept _ _ _⟩ fun _ => trivial
  | revoke token => exact Prog.Each.within ⟨fun _ => rfl, fun _ => trivial⟩
  | purge now =>
      have hcall : Prog.Each (S := oauthSig) (Prog.Free (putCode h))
          (OauthOp.call (.purgeExpired now)) :=
        ⟨fun _ => rfl, fun _ => Prog.each_ofExcept _ _ _⟩
      exact Prog.Each.within (hcall.bind fun _ => ⟨⟩)

/-! ## What a response is owed -/

theorem owes_code {q : TokenRequest} (hq : q.presentedCode cfg = some h) :
    Prog.Owes (S := oauthSig) (tookCode h) (tokenHandle cfg q) := by
  obtain ⟨hgrant, code, hcode, rfl⟩ : q.form.grantType = "authorization_code"
      ∧ ∃ code, q.form.code = some code ∧ cfg.hashSecret code = h := by
    rw [TokenRequest.presentedCode] at hq
    split at hq
    · rename_i hgrant
      exact ⟨hgrant, Option.map_eq_some_iff.mp hq⟩
    · cases hq
  refine Prog.owes_bind (fun proof => ?_) _
  rw [if_pos hgrant, authorizationCodeGrant]
  simp only [hcode]
  intro r
  rcases r with e | (_ | record)
  · exact Or.inr trivial
  · exact Or.inr trivial
  · exact Or.inl (beq_self_eq_true _)

theorem owes_token {q : TokenRequest} (hq : q.presentedToken cfg = some h) :
    Prog.Owes (S := oauthSig) (tookToken h) (tokenHandle cfg q) := by
  obtain ⟨hgrant, token, htoken, rfl⟩ : q.form.grantType = "refresh_token"
      ∧ ∃ token, q.form.refreshToken = some token ∧ cfg.hashSecret token = h := by
    rw [TokenRequest.presentedToken] at hq
    split at hq
    · rename_i hgrant
      exact ⟨hgrant, Option.map_eq_some_iff.mp hq⟩
    · cases hq
  refine Prog.owes_bind (fun proof => ?_) _
  rw [if_neg (by simp [hgrant]), if_pos hgrant, refreshTokenGrant]
  simp only [htoken]
  intro r
  rcases r with e | (record | sessionId | -)
  · exact Or.inr trivial
  · exact Or.inl (beq_self_eq_true _)
  · refine Or.inr fun r => Or.inr ?_
    cases r <;> trivial
  · exact Or.inr trivial

end

/-! ## The system -/

/-- At most one request draws a value, if all values are distinct. -/
theorem countP_draws_le_one {τ : Type} {l : List (GrantRequest × τ)}
    {f : GrantRequest → Option String} (hnodup : ((l.map Prod.fst).filterMap f).Nodup)
    (v : String) : l.countP (fun t => f t.1 == some v) ≤ 1 := by
  have hcount := List.nodup_iff_count_le_one.mp hnodup v
  rw [List.count_filterMap, List.countP_map] at hcount
  exact hcount

/-- What a token is good for: one answer, and one token of a session alive at any time. -/
structure SingleUse (cfg : OauthConfig) (P : GrantPool) : Prop where
  /-- A session has at most one token that is neither used nor expired. -/
  live : ∀ sessionId now, P.store.refresh.count (fun row =>
    unspentIn sessionId row && decide (row.1.expiresAt > now)) ≤ 1
  /-- A code is answered with tokens once. -/
  codes : ∀ (i j : Nat) q q' a a' h, P.tasks[i]? = some (.token q, .ret a) →
    P.tasks[j]? = some (.token q', .ret a') → q.presentedCode cfg = some h →
    q'.presentedCode cfg = some h → i = j
  /-- So is a refresh token. -/
  tokens : ∀ (i j : Nat) q q' a a' h, P.tasks[i]? = some (.token q, .ret a) →
    P.tasks[j]? = some (.token q', .ret a') → q.presentedToken cfg = some h →
    q'.presentedToken cfg = some h → i = j

/-- **One live token.** In every run from an empty store, on either
backend, in which the random values are distinct: a code is redeemed once,
a refresh token is, and at no time are two tokens of one session alive.
Redeeming is one call of the store, so the accounts of puts and takes
settle it. -/
theorem one_live_token (b : OauthBackend) (cfg : OauthConfig)
    (as : List (PoolAct GrantRequest StoreOutcome)) (P : GrantPool)
    (hrun : Steps.run (grantStep cfg b) (Pool.init OauthStore.empty) as = some P)
    (hdraws : DistinctDraws cfg (P.tasks.map Prod.fst)) : SingleUse cfg P := by
  replace hrun : Steps.run (Pool.next oauthMachine (grantHandler cfg)) (Pool.init OauthStore.empty)
      as = some P := b.machine_eq ▸ hrun
  refine ⟨fun sessionId now => ?_, fun i j q q' a a' h hi hj hq hq' => ?_,
    fun i j q q' a a' h hi hj hq hq' => ?_⟩
  · have hstore := Pool.ledger_run (fun s => s.refresh.count (unspentIn sessionId)) (tookIn sessionId)
      (putIn sessionId) rfl
      (fun _ s o c r s' hexec => by
        obtain ⟨rfl, rfl⟩ := Prod.mk.injEq .. |>.mp (Option.some.inj hexec)
        exact s.session_exec sessionId o c) hrun
    have hspent := Pool.spent_le (within_putIn sessionId) hrun
    have hone := countP_draws_le_one hdraws.sessions sessionId
    have hle : P.store.refresh.count (fun row => unspentIn sessionId row
        && decide (row.1.expiresAt > now)) ≤ P.store.refresh.count (unspentIn sessionId) :=
      List.countP_mono_left fun _ _ h => (Bool.and_eq_true _ _ ▸ h : _ ∧ _).1
    omega
  · have hstore := Pool.ledger_run (fun s => (s.codes.contains h).toNat) (tookCode h) (putCode h) rfl
      (fun _ s o c r s' hexec => by
        obtain ⟨rfl, rfl⟩ := Prod.mk.injEq .. |>.mp (Option.some.inj hexec)
        exact s.codes_exec h o c) hrun
    have hspent := Pool.spent_le_given (within_putCode h) hrun
    have hone := countP_draws_le_one hdraws.codes h
    refine Pool.paid_once (C := fun q => ∃ r, q = .token r ∧ r.presentedCode cfg = some h)
      (D := tookCode h) ?_ hrun (by omega) hi hj ⟨q, rfl, hq⟩ ⟨q', rfl, hq'⟩
    rintro _ ⟨r, rfl, hr⟩
    exact (owes_code hr).bind
  · have hstore := Pool.ledger_run (fun s => (s.unspent h).toNat) (tookToken h) (putToken h) rfl
      (fun _ s o c r s' hexec => by
        obtain ⟨rfl, rfl⟩ := Prod.mk.injEq .. |>.mp (Option.some.inj hexec)
        exact s.tokens_exec h o c) hrun
    have hspent := Pool.spent_le_given (within_putToken h) hrun
    have hone := countP_draws_le_one hdraws.tokens h
    refine Pool.paid_once (C := fun q => ∃ r, q = .token r ∧ r.presentedToken cfg = some h)
      (D := tookToken h) ?_ hrun (by omega) hi hj ⟨q, rfl, hq⟩ ⟨q', rfl, hq'⟩
    rintro _ ⟨r, rfl, hr⟩
    exact (owes_token hr).bind

/-! ### A run -/

def sampleToken (form : TokenForm) (proof next session : String) : GrantRequest :=
  .token {
    form := form, dpopHeaders := [some s!"h.{proof}.s"], dpopNow := 1000, nonceNow := 1000
    redeemNow := 1000, accessNow := 1000, refreshNow := 1000
    newRefreshToken := next, newSessionId := session, newJti := "j" }

def sampleCodeVerifier : String := "0123456789012345678901234567890123456789012"

def sampleCodeForm : TokenForm where
  grantType := "authorization_code"
  clientId := "https://app.test/client"
  code := some "c0"
  redirectUri := some "https://app.test/callback"
  codeVerifier := some sampleCodeVerifier
  refreshToken := none
  scope := none

def sampleRefreshForm : TokenForm where
  grantType := "refresh_token"
  clientId := "https://app.test/client"
  code := none
  redirectUri := none
  codeVerifier := none
  refreshToken := some "t0"
  scope := none

def sampleCode : AuthCode where
  codeHash := "hash:c0"
  did := "did:plc:alice"
  clientId := "https://app.test/client"
  redirectUri := "https://app.test/callback"
  scope := "atproto"
  codeChallenge := sampleCodeVerifier
  dpopJkt := none
  expiresAt := 1060

/-- A code is stored and redeemed by two requests at once, and so is the
token that one of them is answered with. -/
def sampleRedemptions : List (PoolAct GrantRequest StoreOutcome) :=
  [.start (.issueCode sampleCode "hash:p0"), .step 0 .done, .step 0 .done,
    .start (sampleToken sampleCodeForm "p1" "t0" "s0"),
    .start (sampleToken sampleCodeForm "p2" "t1" "s1"),
    .step 1 .done, .step 2 .done, .step 1 .done, .step 2 .done, .step 1 .done,
    .start (sampleToken sampleRefreshForm "p3" "t2" "s2"),
    .start (sampleToken sampleRefreshForm "p4" "t3" "s3"),
    .step 3 .done, .step 4 .done, .step 3 .done, .step 4 .done, .step 4 .done, .step 3 .done]

theorem sampleRedemptions_single : ∃ P : GrantPool,
    Steps.run (grantStep sampleOauth .sqlite) (Pool.init OauthStore.empty) sampleRedemptions
      = some P
    ∧ P.tasks.map (fun t => t.2.outcome.map fun x => x.toOption.isSome)
      = [some true, some true, some false, some true, some false]
    ∧ P.store.refresh.count (unspentIn "s0") = 1 ∧ SingleUse sampleOauth P := by
  have heval : (Steps.run (grantStep sampleOauth .sqlite) (Pool.init OauthStore.empty)
      sampleRedemptions).map (fun P =>
        (P.tasks.map (fun t => t.2.outcome.map fun x => x.toOption.isSome),
          P.store.refresh.count (unspentIn "s0"),
          ((P.tasks.map Prod.fst).filterMap GrantRequest.drawnCode,
            (P.tasks.map Prod.fst).filterMap (GrantRequest.drawnToken sampleOauth),
            (P.tasks.map Prod.fst).filterMap GrantRequest.drawnSession)))
      = some ([some true, some true, some false, some true, some false], 1,
          (["hash:c0"], ["hash:t0", "hash:t1", "hash:t2", "hash:t3"],
            ["s0", "s1", "s2", "s3"])) := by decide +kernel
  obtain ⟨P, hrun, hP⟩ := Option.map_eq_some_iff.mp heval
  simp only [Prod.mk.injEq] at hP
  obtain ⟨hout, hlive, hcodes, htokens, hsessions⟩ := hP
  refine ⟨P, hrun, hout, hlive, one_live_token .sqlite sampleOauth _ P hrun ⟨?_, ?_, ?_⟩⟩
  · rw [hcodes]
    decide
  · rw [htokens]
    decide
  · rw [hsessions]
    decide

end Stelyph
