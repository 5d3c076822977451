import Stelyph.RefreshRevocation
import Stelyph.TokenRuns

/-!
# Who can spend a refresh token

`refresh_token_grant` redeems the token in one store call and checks
afterwards whom it belongs to: the client, the DPoP key and the scope. A
request that fails one of these checks is answered with an error, and the
token is spent all the same; when the client it belongs to presents it,
that counts as a reuse and revokes the session. Only a request that never
comes to the store call spares the record.
-/

namespace Stelyph

section

variable (cfg : OauthConfig) (q : TokenRequest)

/-- A refresh request for the token with this hash. -/
structure RefreshRequest (hash : String) : Prop where
  grant : q.form.grantType = "refresh_token"
  token : q.form.refreshToken.map cfg.hashSecret = some hash

/-- The thumbprint of the key in the request's proof. -/
def TokenRequest.proofKey : Option String :=
  match q.dpopHeaders with
  | [some proof] =>
      match cfg.dpop.readProof proof with
      | .ok (jwk, _) => some (jwk.thumbprint cfg.dpop.jose)
      | .error _ => none
  | _ => none

/-- The scope a refresh comes to. -/
def refreshedScope (record : RefreshTokenRecord) : Except OAuthError Scope := do
  let granted ← Scope.parse record.scope
  narrowScope granted q.form.scope

/-- The scope asked for is none, or more than was granted. -/
def ScopeExceeds (record : RefreshTokenRecord) : Prop :=
  ∃ requested, q.form.scope = some requested
    ∧ ∀ r g, Scope.parse requested = .ok r → Scope.parse record.scope = .ok g →
      r.isSubsetOf g = false

/-- A request that is not its holder's, or asks for too much: of another
client, with another key, or for a wider scope. -/
def Improper (record : RefreshTokenRecord) : Prop :=
  q.form.clientId ≠ record.clientId ∨ q.proofKey cfg ≠ some record.dpopJkt
    ∨ ScopeExceeds q record

/-- A request of the token's client, with its key, in time. -/
structure Rightful (s : OauthStore) (hash : String) (record : RefreshTokenRecord) : Prop where
  request : RefreshRequest cfg q hash
  client : q.form.clientId = record.clientId
  proof : ∃ p, q.Proves cfg s p ∧ p.jkt = record.dpopJkt
  inTime : q.redeemNow < record.expiresAt
  signs : ∃ scope t, refreshedScope q record = .ok scope
    ∧ issueAccessToken cfg record.did record.clientId scope record.dpopJkt q = .ok t

/-- The request is rejected and the record left unused: the next refresh
of its client succeeds, and no token has been revoked. -/
def Spares (s : OauthStore) (hash : String) (record : RefreshTokenRecord) : Prop :=
  ∃ e t, (tokenHandle cfg q).alone quietStore s = some (.error e, t)
    ∧ t.refresh.get hash = some (record, false)
    ∧ (∀ r, Rightful cfg r t hash record →
        ∃ resp u, (tokenHandle cfg r).alone quietStore t = some (.ok resp, u))
    ∧ ∀ h row, s.refresh.get h = some row → t.refresh.get h = some row

end

section

variable {cfg : OauthConfig} {q : TokenRequest} {s : OauthStore} {hash : String}
  {record : RefreshTokenRecord} {p : DpopProof}

/-! ## After redeeming -/

theorem proofKey_of_proves (h : q.Proves cfg s p) : q.proofKey cfg = some p.jkt := by
  obtain ⟨proof, hheaders, jwk, claims, hread, -, -, rfl⟩ := h
  simp only [TokenRequest.proofKey, hheaders, hread]

theorem refreshedScope_error (h : ScopeExceeds q record) :
    ∃ e, refreshedScope q record = .error e := by
  obtain ⟨requested, hscope, hexceeds⟩ := h
  unfold refreshedScope
  cases hg : Scope.parse record.scope with
  | error e => exact ⟨e, rfl⟩
  | ok g =>
      cases hr : Scope.parse requested with
      | error e => exact ⟨e, by simp [bind, Except.bind, narrowScope, hscope, hr]⟩
      | ok r =>
          have hnot := hexceeds r g hr hg
          simp [bind, Except.bind, narrowScope, hscope, hr, hnot]

variable (cfg q p record) in
/-- The checks end with an error, or tokens are issued. -/
theorem refreshChecks_cases (s : OauthStore) :
    (∃ e, (refreshChecks cfg q p record).alone quietStore s = some (.error e, s))
    ∨ (q.form.clientId = record.clientId ∧ p.jkt = record.dpopJkt
        ∧ (∃ scope, refreshedScope q record = .ok scope)
        ∧ ∃ resp u, (refreshChecks cfg q p record).alone quietStore s = some (.ok resp, u)) := by
  unfold refreshChecks
  by_cases hclient : record.clientId = q.form.clientId
  · by_cases hkey : record.dpopJkt = p.jkt
    · rw [if_neg (not_not_intro hclient), if_neg (not_not_intro hkey)]
      cases hgranted : Scope.parse record.scope with
      | error e => exact Or.inl ⟨e, rfl⟩
      | ok granted =>
          cases hscope : narrowScope granted q.form.scope with
          | error e => exact Or.inl ⟨e, alone_ofExcept_error hscope _ s⟩
          | ok scope =>
              have hrun : ∀ x, (issue cfg record.did record.clientId scope p.jkt
                  (some record.sessionId) q).alone quietStore s = x →
                  (Prog.bind (Prog.ofExcept id (narrowScope granted q.form.scope)) fun scope =>
                    issue cfg record.did record.clientId scope p.jkt (some record.sessionId)
                      q).alone quietStore s = x :=
                fun x hx => (alone_ofExcept_ok hscope _ s).trans hx
              cases hsign : issueAccessToken cfg record.did record.clientId scope p.jkt q with
              | error e => exact Or.inl ⟨e, hrun _ (alone_ofExcept_error hsign _ s)⟩
              | ok t =>
                  obtain ⟨resp, hresp⟩ := alone_issue (some record.sessionId) hsign s
                  refine Or.inr ⟨hclient.symm, hkey.symm, ⟨scope, ?_⟩, resp, _, hrun _ hresp⟩
                  simp [refreshedScope, hgranted, bind, Except.bind, hscope]
    · rw [if_neg (not_not_intro hclient), if_pos hkey]
      exact Or.inl ⟨_, rfl⟩
  · rw [if_pos hclient]
    exact Or.inl ⟨_, rfl⟩

/-- A rightful request with an unused record in the store is answered with
tokens. -/
theorem alone_refreshChecks_ok {scope : Scope} {t : String × Nat}
    (hclient : q.form.clientId = record.clientId) (hkey : p.jkt = record.dpopJkt)
    (hscope : refreshedScope q record = .ok scope)
    (hsign : issueAccessToken cfg record.did record.clientId scope record.dpopJkt q = .ok t)
    (s : OauthStore) :
    ∃ resp u, (refreshChecks cfg q p record).alone quietStore s = some (.ok resp, u) := by
  unfold refreshedScope at hscope
  cases hgranted : Scope.parse record.scope with
  | error e =>
      rw [hgranted] at hscope
      cases hscope
  | ok granted =>
      rw [hgranted] at hscope
      obtain ⟨resp, hresp⟩ := alone_issue (some record.sessionId) hsign s
      unfold refreshChecks
      rw [if_neg (not_not_intro hclient.symm), if_neg (not_not_intro hkey.symm), hkey]
      exact ⟨resp, _, (alone_ofExcept_ok hgranted _ s).trans
        ((alone_ofExcept_ok hscope _ s).trans hresp)⟩

/-! ## The grant -/

/-- What the grant comes to, once the store has been asked to redeem. -/
def afterRedeeming (cfg : OauthConfig) (q : TokenRequest) (p : DpopProof) :
    ConsumeResult × OauthStore → Option (Except OAuthError TokenResponse × OauthStore)
  | (.consumed record, t) => (refreshChecks cfg q p record).alone quietStore t
  | (.reused sessionId, t) =>
      some (.error (.invalidGrant
        "refresh token has already been used; the session has been revoked"),
        t.dropSession sessionId)
  | (.notFound, t) => some (.error (.invalidGrant "refresh token is invalid or expired"), t)

theorem alone_refreshTokenGrant (hq : RefreshRequest cfg q hash) (s : OauthStore) :
    (refreshTokenGrant cfg q p).alone quietStore s
      = afterRedeeming cfg q p (s.consumeRefreshToken hash q.redeemNow) := by
  obtain ⟨presented, htoken, rfl⟩ := Option.map_eq_some_iff.mp hq.token
  unfold refreshTokenGrant
  rw [htoken]
  refine (alone_call _ _ s).trans ?_
  rw [OauthOp.apply]
  cases hresult : s.consumeRefreshToken (cfg.hashSecret presented) q.redeemNow with
  | mk result t =>
      cases result with
      | consumed record => rfl
      | reused sessionId => exact (alone_call _ _ t).trans rfl
      | notFound => rfl

theorem alone_refresh (hq : RefreshRequest cfg q hash) (hp : q.Proves cfg s p) :
    (tokenHandle cfg q).alone quietStore s
      = afterRedeeming cfg q p ((recorded q s p).consumeRefreshToken hash q.redeemNow) :=
  (alone_tokenHandle_refresh hp hq.grant).trans (alone_refreshTokenGrant hq _)

theorem consume_unused (hrow : s.refresh.get hash = some (record, false)) {now : Nat}
    (hnow : now < record.expiresAt) :
    s.consumeRefreshToken hash now
      = (.consumed record, { s with refresh := s.refresh.insert hash (record, true) }) := by
  simp [OauthStore.consumeRefreshToken, hrow, Nat.not_le.mpr hnow]

theorem consume_used (hrow : s.refresh.get hash = some (record, true)) {now : Nat}
    (hnow : now < record.expiresAt) :
    s.consumeRefreshToken hash now = (.reused record.sessionId, s) := by
  simp [OauthStore.consumeRefreshToken, hrow, Nat.not_le.mpr hnow]

theorem consume_expired {used : Bool} (hrow : s.refresh.get hash = some (record, used)) {now : Nat}
    (hnow : record.expiresAt ≤ now) : s.consumeRefreshToken hash now = (.notFound, s) := by
  simp [OauthStore.consumeRefreshToken, hrow, hnow]

/-- The holder's request, where the record is unused. -/
theorem rightful_succeeds (hrow : s.refresh.get hash = some (record, false))
    (h : Rightful cfg q s hash record) :
    ∃ resp u, (tokenHandle cfg q).alone quietStore s = some (.ok resp, u) := by
  obtain ⟨p, hp, hkey⟩ := h.proof
  obtain ⟨scope, t, hscope, hsign⟩ := h.signs
  have hrow' : (recorded q s p).refresh.get hash = some (record, false) := hrow
  rw [alone_refresh h.request hp, consume_unused hrow' h.inTime]
  exact alone_refreshChecks_ok h.client hkey hscope hsign _

/-- A request that fails one of the checks is rejected. -/
theorem improper_rejected {used : Bool} (hq : RefreshRequest cfg q hash)
    (hrow : s.refresh.get hash = some (record, used)) (h : Improper cfg q record) :
    ∃ e t, (tokenHandle cfg q).alone quietStore s = some (.error e, t) := by
  by_cases hproves : ∃ p, q.Proves cfg s p
  · obtain ⟨p, hp⟩ := hproves
    have hrow' : (recorded q s p).refresh.get hash = some (record, used) := hrow
    rw [alone_refresh hq hp]
    by_cases hnow : record.expiresAt ≤ q.redeemNow
    · rw [consume_expired hrow' hnow]
      exact ⟨_, _, rfl⟩
    · have hin : q.redeemNow < record.expiresAt := Nat.lt_of_not_le hnow
      cases used with
      | true =>
          rw [consume_used hrow' hin]
          exact ⟨_, _, rfl⟩
      | false =>
          rw [consume_unused hrow' hin]
          rcases refreshChecks_cases cfg q record p
            { recorded q s p with refresh := (recorded q s p).refresh.insert hash (record, true) }
            with ⟨e, he⟩ | ⟨hclient, hkey, ⟨scope, hscope⟩, -⟩
          · exact ⟨e, _, he⟩
          · rcases h with hother | hother | hexceeds
            · exact absurd hclient hother
            · exact absurd ((proofKey_of_proves hp).trans (congrArg some hkey)) hother
            · obtain ⟨e, he⟩ := refreshedScope_error hexceeds
              cases hscope.symm.trans he
  · obtain ⟨e, he⟩ := alone_tokenHandle_error fun p hp => hproves ⟨p, hp⟩
    exact ⟨e, s, he⟩

/-- A request that leaves the refresh tokens as they are spares an unused one. -/
theorem spares_of_untouched (hrow : s.refresh.get hash = some (record, false)) {e : OAuthError}
    {t : OauthStore} (hrun : (tokenHandle cfg q).alone quietStore s = some (.error e, t))
    (hsame : t.refresh = s.refresh) : Spares cfg q s hash record := by
  have hrow' : t.refresh.get hash = some (record, false) := hsame ▸ hrow
  refine ⟨e, t, hrun, hrow', fun r hr => rightful_succeeds hrow' hr, ?_⟩
  rw [hsame]
  exact fun h row hget => hget

/-- Redeemed, the record is marked as used, whatever the checks say. -/
theorem not_spares_of_redeemed (hq : RefreshRequest cfg q hash)
    (hrow : s.refresh.get hash = some (record, false)) (hp : q.Proves cfg s p)
    (hnow : q.redeemNow < record.expiresAt) : ¬ Spares cfg q s hash record := by
  intro ⟨e, t, hrun, hunused, _⟩
  have hrow' : (recorded q s p).refresh.get hash = some (record, false) := hrow
  rw [alone_refresh hq hp, consume_unused hrow' hnow] at hrun
  rcases refreshChecks_cases cfg q record p
    { recorded q s p with refresh := (recorded q s p).refresh.insert hash (record, true) }
    with ⟨e', he⟩ | ⟨-, -, -, resp, u, hok⟩
  · obtain ⟨-, rfl⟩ := Prod.mk.injEq .. |>.mp (Option.some.inj (he.symm.trans hrun))
    rw [Table.get_insert_self] at hunused
    cases hunused
  · cases (Prod.mk.injEq .. |>.mp (Option.some.inj (hok.symm.trans hrun))).1

/-- A used record never becomes unused. -/
theorem not_spares_of_used (hq : RefreshRequest cfg q hash)
    (hrow : s.refresh.get hash = some (record, true)) : ¬ Spares cfg q s hash record := by
  intro ⟨e, t, hrun, hunused, _⟩
  by_cases hproves : ∃ p, q.Proves cfg s p
  · obtain ⟨p, hp⟩ := hproves
    have hrow' : (recorded q s p).refresh.get hash = some (record, true) := hrow
    rw [alone_refresh hq hp] at hrun
    by_cases hnow : record.expiresAt ≤ q.redeemNow
    · rw [consume_expired hrow' hnow] at hrun
      obtain ⟨-, rfl⟩ := Prod.mk.injEq .. |>.mp (Option.some.inj hrun)
      cases hrow'.symm.trans hunused
    · rw [consume_used hrow' (Nat.lt_of_not_le hnow)] at hrun
      obtain ⟨-, rfl⟩ := Prod.mk.injEq .. |>.mp (Option.some.inj hrun)
      cases hrow'.symm.trans (Table.get_retain_eq_some.mp hunused).1
  · obtain ⟨e', he⟩ := alone_tokenHandle_error fun p hp => hproves ⟨p, hp⟩
    obtain ⟨-, rfl⟩ := Prod.mk.injEq .. |>.mp (Option.some.inj (he.symm.trans hrun))
    cases hrow.symm.trans hunused

/-- For every store and every refresh request for a token with a record:
an improper one is rejected; the record is spared if and only if it is
unused and the request is refused before the token is redeemed, for its
proof or because the token has expired. -/
theorem refresh_spares_iff {used : Bool} (hq : RefreshRequest cfg q hash)
    (hrow : s.refresh.get hash = some (record, used)) :
    (Improper cfg q record →
      ∃ e t, (tokenHandle cfg q).alone quietStore s = some (.error e, t))
    ∧ (Spares cfg q s hash record
        ↔ used = false ∧ ((∀ p, ¬ q.Proves cfg s p) ∨ record.expiresAt ≤ q.redeemNow)) := by
  refine ⟨improper_rejected hq hrow, ?_⟩
  cases used with
  | true => exact iff_of_false (not_spares_of_used hq hrow) (fun h => by cases h.1)
  | false =>
      constructor
      · intro hspares
        refine ⟨rfl, ?_⟩
        by_contra hnot
        rw [not_or, not_forall] at hnot
        obtain ⟨⟨p, hp⟩, hin⟩ := hnot
        exact not_spares_of_redeemed hq hrow (not_not.mp hp) (Nat.lt_of_not_le hin) hspares
      · intro ⟨_, hbefore⟩
        by_cases hproves : ∃ p, q.Proves cfg s p
        · obtain ⟨p, hp⟩ := hproves
          have hrow' : (recorded q s p).refresh.get hash = some (record, false) := hrow
          have hnow := hbefore.resolve_left fun hno => hno p hp
          have hrun : (tokenHandle cfg q).alone quietStore s = some
              (.error (.invalidGrant "refresh token is invalid or expired"), recorded q s p) := by
            rw [alone_refresh hq hp, consume_expired hrow' hnow]
            rfl
          exact spares_of_untouched hrow hrun rfl
        · obtain ⟨e, he⟩ := alone_tokenHandle_error fun p hp => hproves ⟨p, hp⟩
          exact spares_of_untouched hrow he rfl

end

/-! ## A token presented by another client -/

def sampleRecord : RefreshTokenRecord where
  tokenHash := "hash:t0"
  sessionId := "s"
  did := "did:plc:alice"
  clientId := "https://app.test/client"
  scope := "atproto"
  dpopJkt := sampleJwk.thumbprint sampleJose
  issuedAt := 900
  expiresAt := 5000

/-- The token `t0`, with a proof made for the request. -/
def presentT0 (clientId proof : String) (redeemNow : Nat) : TokenRequest where
  form := { grantType := "refresh_token", clientId := clientId, code := none, redirectUri := none
            codeVerifier := none, refreshToken := some "t0", scope := none }
  dpopHeaders := [some proof]
  dpopNow := 1000
  nonceNow := 1000
  redeemNow := redeemNow
  accessNow := 1000
  refreshNow := 1000
  newRefreshToken := "t1"
  newSessionId := "new"
  newJti := "j"

theorem presentT0_request (clientId proof : String) (redeemNow : Nat) :
    RefreshRequest sampleOauth (presentT0 clientId proof redeemNow) "hash:t0" := ⟨rfl, rfl⟩

/-- Another client presents the token and is rejected; then its own client
is refused, and its session is gone. -/
example :
    (((tokenHandle sampleOauth (presentT0 "https://evil.test" "h.a.s" 1000)).alone quietStore
      sampleChain).bind fun x =>
        ((tokenHandle sampleOauth (presentT0 "https://app.test/client" "h.b.s" 1000)).alone
          quietStore x.2).map fun y => (x.1.isOk, y.1.isOk, y.2.refresh.size))
      = some (false, false, 0) := by decide

/-- Not every improper request spares the record. -/
theorem improper_spends :
    ¬ ∀ (cfg : OauthConfig) (q : TokenRequest) (s : OauthStore) (hash : String)
      (record : RefreshTokenRecord), RefreshRequest cfg q hash →
      s.refresh.get hash = some (record, false) → Improper cfg q record →
      Spares cfg q s hash record := by
  intro h
  obtain ⟨e, t, hrun, hunused, -⟩ := h sampleOauth (presentT0 "https://evil.test" "h.a.s" 1000)
    sampleChain "hash:t0" sampleRecord (presentT0_request _ _ _) rfl (Or.inl (by decide))
  have hspent : ((tokenHandle sampleOauth (presentT0 "https://evil.test" "h.a.s" 1000)).alone
      quietStore sampleChain).map (fun x => (x.2.refresh.get "hash:t0").map Prod.snd)
      = some (some true) := by decide
  rw [hrun, Option.map_some, hunused] at hspent
  cases hspent

/-- Presented by another client after it has expired, the record is spared. -/
theorem expired_spared :
    sampleRecord.expiresAt ≤ 6000
      ∧ Spares sampleOauth (presentT0 "https://evil.test" "h.a.s" 6000) sampleChain "hash:t0"
        sampleRecord :=
  ⟨by decide, (refresh_spares_iff (presentT0_request "https://evil.test" "h.a.s" 6000)
    (rfl : sampleChain.refresh.get "hash:t0" = some (sampleRecord, false))).2.mpr
      ⟨rfl, Or.inr (by decide)⟩⟩

end Stelyph
