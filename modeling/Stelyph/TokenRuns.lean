import Stelyph.TokenEndpoint

/-!
# Token requests, run alone

What a token request comes to on a store that nothing else uses and whose
calls go through: which proofs are accepted, what a grant needs to be
answered with tokens, and what a refused one leaves.
-/

namespace Stelyph

/-- Every store call goes through. -/
def quietStore (s : OauthStore) (o : OauthOp) :
    Option (Except StorageError o.Value × OauthStore) :=
  some (o.exec s .done)

section

variable {α β : Type} {s s' : OauthStore}

theorem alone_call (o : OauthOp) (f : o.Value → OauthProg β) (s : OauthStore) :
    ((OauthOp.call o).bind f).alone quietStore s
      = (f (o.apply s).1).alone quietStore (o.apply s).2 := rfl

theorem alone_ofExcept_ok {ε : Type} {f : ε → OAuthError} {x : Except ε α} {a : α}
    (h : x = .ok a) (g : α → OauthProg β) (s : OauthStore) :
    ((Prog.ofExcept f x).bind g).alone quietStore s = (g a).alone quietStore s := by
  rw [h]
  rfl

theorem alone_ofExcept_error {ε : Type} {f : ε → OAuthError} {x : Except ε α} {e : ε}
    (h : x = .error e) (g : α → OauthProg β) (s : OauthStore) :
    ((Prog.ofExcept f x).bind g).alone quietStore s = some (.error (f e), s) := by
  rw [h]
  rfl

/-! ## Proofs -/

namespace DpopVerifier

variable (v : DpopVerifier) (req : DpopRequest)

/-- The proof passes every check, and its `jti` is not recorded in `s`. -/
def Accepts (s : OauthStore) (proof : DpopProof) : Prop :=
  ∃ jwk claims, v.readProof req.proof = .ok (jwk, claims)
    ∧ v.checkClaims req claims = .ok () ∧ s.jti.contains claims.jti = false
    ∧ proof = { jkt := jwk.thumbprint v.jose, jti := claims.jti, htm := claims.htm
                htu := claims.htu, iat := claims.iat, ath := claims.ath }

variable {v req}

theorem Accepts.unique {p p' : DpopProof} (h : v.Accepts req s p) (h' : v.Accepts req s p') :
    p = p' := by
  obtain ⟨jwk, claims, hread, -, -, rfl⟩ := h
  obtain ⟨jwk', claims', hread', -, -, rfl⟩ := h'
  obtain ⟨rfl, rfl⟩ := Prod.mk.injEq .. |>.mp (Except.ok.inj (hread.symm.trans hread'))
  rfl

/-- An accepted proof's `jti` is recorded. -/
theorem alone_verify {p : DpopProof} (h : v.Accepts req s p) :
    (v.verify req).alone quietStore s
      = some (.ok p, { s with jti := s.jti.insert p.jti (req.now + maxProofAgeSecs) }) := by
  obtain ⟨jwk, claims, hread, hcheck, hnew, rfl⟩ := h
  have hrecord : s.recordDpopJti claims.jti (req.now + maxProofAgeSecs)
      = (true, { s with jti := s.jti.insert claims.jti (req.now + maxProofAgeSecs) }) := by
    simp [OauthStore.recordDpopJti, hnew]
  refine (alone_ofExcept_ok hread _ s).trans ((alone_ofExcept_ok hcheck _ s).trans ?_)
  refine (alone_call _ _ s).trans ?_
  rw [OauthOp.apply, hrecord]
  rfl

/-- A refused one changes nothing. -/
theorem alone_verify_error (h : ∀ p, ¬ v.Accepts req s p) :
    ∃ e, (v.verify req).alone quietStore s = some (.error e, s) := by
  cases hread : v.readProof req.proof with
  | error e => exact ⟨_, alone_ofExcept_error hread _ s⟩
  | ok p =>
      obtain ⟨jwk, claims⟩ := p
      cases hcheck : v.checkClaims req claims with
      | error e => exact ⟨_, (alone_ofExcept_ok hread _ s).trans (alone_ofExcept_error hcheck _ s)⟩
      | ok u =>
          cases hseen : s.jti.contains claims.jti with
          | false => exact absurd ⟨jwk, claims, hread, hcheck, hseen, rfl⟩ (h _)
          | true =>
              have hrecord : s.recordDpopJti claims.jti (req.now + maxProofAgeSecs)
                  = (false, s) := by
                simp [OauthStore.recordDpopJti, hseen]
              refine ⟨bad "DPoP proof jti has already been used", ?_⟩
              refine (alone_ofExcept_ok hread _ s).trans ((alone_ofExcept_ok hcheck _ s).trans ?_)
              refine (alone_call _ _ s).trans ?_
              rw [OauthOp.apply, hrecord]
              rfl

end DpopVerifier

section

variable (cfg : OauthConfig) (q : TokenRequest)

/-- The request carries one proof, and it is accepted on this store: for
the method and the URL of the endpoint, with a nonce. -/
def TokenRequest.Proves (s : OauthStore) (p : DpopProof) : Prop :=
  ∃ proof, q.dpopHeaders = [some proof]
    ∧ cfg.dpop.Accepts { proof := proof, method := "POST", uri := cfg.endpointUrl "/oauth/token"
                         accessToken := none, requireNonce := true, now := q.dpopNow
                         nonceNow := q.nonceNow } s p

/-- The store after that. -/
def recorded (s : OauthStore) (p : DpopProof) : OauthStore :=
  { s with jti := s.jti.insert p.jti (q.dpopNow + maxProofAgeSecs) }

variable {cfg q}

theorem TokenRequest.Proves.unique {p p' : DpopProof} (h : q.Proves cfg s p)
    (h' : q.Proves cfg s p') : p = p' := by
  obtain ⟨proof, hheaders, haccepts⟩ := h
  obtain ⟨proof', hheaders', haccepts'⟩ := h'
  have heq : proof = proof' := by
    rw [hheaders] at hheaders'
    simpa using hheaders'
  subst heq
  exact haccepts.unique haccepts'

theorem alone_verifyDpop {p : DpopProof} (h : q.Proves cfg s p) :
    (verifyDpop cfg q).alone quietStore s = some (.ok p, recorded q s p) := by
  obtain ⟨proof, hheaders, haccepts⟩ := h
  unfold verifyDpop
  rw [hheaders]
  exact DpopVerifier.alone_verify haccepts

theorem alone_verifyDpop_error (h : ∀ p, ¬ q.Proves cfg s p) :
    ∃ e, (verifyDpop cfg q).alone quietStore s = some (.error e, s) := by
  unfold verifyDpop
  split
  · exact ⟨_, rfl⟩
  · exact ⟨_, rfl⟩
  · rename_i proof hheaders
    exact DpopVerifier.alone_verify_error fun p hp => h p ⟨proof, hheaders, hp⟩
  · exact ⟨_, rfl⟩

/-! ## The endpoint -/

theorem alone_tokenHandle_error (h : ∀ p, ¬ q.Proves cfg s p) :
    ∃ e, (tokenHandle cfg q).alone quietStore s = some (.error e, s) := by
  obtain ⟨e, he⟩ := alone_verifyDpop_error h
  exact ⟨e, Prog.alone_bind_error he⟩

theorem alone_tokenHandle_refresh {p : DpopProof} (h : q.Proves cfg s p)
    (hgrant : q.form.grantType = "refresh_token") :
    (tokenHandle cfg q).alone quietStore s
      = (refreshTokenGrant cfg q p).alone quietStore (recorded q s p) := by
  have hne : ¬ q.form.grantType = "authorization_code" := by
    rw [hgrant]
    decide
  refine (Prog.alone_bind_ok (alone_verifyDpop h)).trans ?_
  rw [if_neg hne, if_pos hgrant]

theorem alone_tokenHandle_code {p : DpopProof} (h : q.Proves cfg s p)
    (hgrant : q.form.grantType = "authorization_code") :
    (tokenHandle cfg q).alone quietStore s
      = (authorizationCodeGrant cfg q p).alone quietStore (recorded q s p) := by
  refine (Prog.alone_bind_ok (alone_verifyDpop h)).trans ?_
  rw [if_pos hgrant]

/-- What `issue` stores. -/
def nextToken (cfg : OauthConfig) (did clientId : String) (scope : Scope) (jkt : String)
    (sessionId : Option String) (q : TokenRequest) : RefreshTokenRecord where
  tokenHash := cfg.hashSecret q.newRefreshToken
  sessionId := sessionId.getD q.newSessionId
  did := did
  clientId := clientId
  scope := scope.display
  dpopJkt := jkt
  issuedAt := q.refreshNow
  expiresAt := q.refreshNow + refreshTokenTtlSecs

/-- With a token signed, `issue` goes through. -/
theorem alone_issue {did clientId : String} {scope : Scope} {jkt : String}
    (sessionId : Option String) {t : String × Nat}
    (h : issueAccessToken cfg did clientId scope jkt q = .ok t) (s : OauthStore) :
    ∃ resp, (issue cfg did clientId scope jkt sessionId q).alone quietStore s
      = some (.ok resp, s.putRefreshToken (nextToken cfg did clientId scope jkt sessionId q)) := by
  exact ⟨_, (alone_ofExcept_ok h _ s).trans (alone_call _ _ s)⟩

end

end

end Stelyph
