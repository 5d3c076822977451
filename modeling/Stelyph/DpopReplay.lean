import Stelyph.Dpop

/-!
# Replay of DPoP proofs

A proof is accepted while the clock is within `maxProofAgeSecs` of its
`iat`, and its `jti` is remembered until `maxProofAgeSecs` after the
clock at the time it was accepted; a purge forgets it at that second.
The two windows line up only for a proof whose `iat` lies strictly
before the clock that accepts it: then the proof is too old by the time
its `jti` can be forgotten (`Spent`). A proof stamped with the current
second, or with a later one, outlives its `jti` by at least one instant.
-/

namespace Stelyph

/-- A server that verifies proofs and purges its store. -/
structure ReplayState where
  store : OauthStore
  now : Nat
  /-- The proof strings accepted so far, oldest first. -/
  accepted : List String

/-- A step of a run: a proof that is presented, or a purge of the ids
whose time has passed. The store may fail either. -/
inductive ReplayAct where
  | verify (req : DpopRequest) (c : StoreOutcome)
  | purge (now : Nat) (c : StoreOutcome)

section

variable (v : DpopVerifier)

/-- Calls that verify proofs over one store. The clock never goes back,
within a call or between calls. -/
def replayStep (s : ReplayState) : ReplayAct → Option ReplayState
  | .verify req c =>
      if s.now ≤ req.now ∧ req.now ≤ req.nonceNow then
        ((v.verify req).alone (fun t o => some (OauthOp.exec t o c)) s.store).map fun r =>
          { store := r.2, now := req.nonceNow
            accepted := if r.1.isOk then s.accepted ++ [req.proof] else s.accepted }
      else none
  | .purge now c =>
      if s.now ≤ now then
        some { s with store := (OauthOp.exec s.store (.purgeExpired now) c).2, now := now }
      else none

/-- A call that passes every check before the replay check is made after
the second its proof is stamped with. -/
def stampedBefore (_ : ReplayState) : ReplayAct → Bool
  | .verify req _ =>
      match v.readProof req.proof with
      | .ok (_, claims) => !(v.checkClaims req claims).isOk || claims.iat < req.now
      | .error _ => true
  | .purge _ _ => true

/-! ## One call -/

/-- Everything a call can do. -/
theorem verify_cases {req : DpopRequest} {c : StoreOutcome} {s s' : OauthStore}
    {r : Except OAuthError DpopProof}
    (h : (v.verify req).alone (fun t o => some (OauthOp.exec t o c)) s = some (r, s')) :
    (r.isOk = false ∧ s' = s) ∨
    (∃ jwk claims, v.readProof req.proof = .ok (jwk, claims)
      ∧ v.checkClaims req claims = .ok () ∧ s.jti.get claims.jti = none
      ∧ s' = { s with jti := s.jti.insert claims.jti (req.now + maxProofAgeSecs) }
      ∧ r = .ok { jkt := jwk.thumbprint v.jose, jti := claims.jti, htm := claims.htm
                  htu := claims.htu, iat := claims.iat, ath := claims.ath }) := by
  unfold DpopVerifier.verify at h
  cases hread : v.readProof req.proof with
  | error e =>
      rw [hread] at h
      obtain ⟨rfl, rfl⟩ := Prod.mk.injEq .. |>.mp (Option.some.inj h)
      exact Or.inl ⟨rfl, rfl⟩
  | ok p =>
      obtain ⟨jwk, claims⟩ := p
      rw [hread] at h
      cases hcheck : v.checkClaims req claims with
      | error e =>
          simp only [Prog.bind_eq, Prog.ofExcept_ok, Prog.ret_bind, hcheck,
            Prog.ofExcept_error, Prog.fail_bind, Prog.alone_fail] at h
          obtain ⟨rfl, rfl⟩ := Prod.mk.injEq .. |>.mp (Option.some.inj h)
          exact Or.inl ⟨rfl, rfl⟩
      | ok u =>
          simp only [Prog.bind_eq, Prog.ofExcept_ok, Prog.ret_bind, hcheck, OauthOp.call,
            Prog.op_bind, Prog.alone, Option.bind_some] at h
          cases c with
          | fault msg =>
              obtain ⟨rfl, rfl⟩ := Prod.mk.injEq .. |>.mp (Option.some.inj h)
              exact Or.inl ⟨rfl, rfl⟩
          | done =>
              simp only [OauthOp.exec, OauthOp.apply, OauthStore.recordDpopJti] at h
              split_ifs at h with hseen
              · obtain ⟨rfl, rfl⟩ := Prod.mk.injEq .. |>.mp (Option.some.inj h)
                exact Or.inl ⟨rfl, rfl⟩
              · obtain ⟨rfl, rfl⟩ := Prod.mk.injEq .. |>.mp (Option.some.inj h)
                refine Or.inr ⟨jwk, claims, rfl, hcheck, ?_, rfl, rfl⟩
                simpa [Table.contains] using hseen

theorem checkClaims_age {req : DpopRequest} {claims : DpopClaims}
    (h : v.checkClaims req claims = .ok ()) :
    req.now ≤ claims.iat + maxProofAgeSecs := by
  simp only [DpopVerifier.checkClaims] at h
  split_ifs at h with h1 h2 h3
  simp only [DpopVerifier.absDiff] at h3
  omega

/-! ## The invariant -/

/-- A proof that can no longer be accepted: it is too old, or its `jti`
is remembered for longer than it is young. -/
def Spent (s : ReplayState) (proof : String) : Prop :=
  ∃ jwk claims, v.readProof proof = .ok (jwk, claims)
    ∧ (claims.iat + maxProofAgeSecs < s.now
      ∨ ∃ e, s.store.jti.get claims.jti = some e ∧ claims.iat + maxProofAgeSecs < e)

def ReplayInv (s : ReplayState) : Prop :=
  s.accepted.Nodup ∧ ∀ p ∈ s.accepted, Spent v s p

variable {v} {s : ReplayState}

/-- Time and other proofs leave a spent proof spent. -/
theorem Spent.mono {s' : ReplayState} {p : String} (h : Spent v s p) (hnow : s.now ≤ s'.now)
    (hjti : ∀ j e, s.store.jti.get j = some e → s'.store.jti.get j = some e ∨ e ≤ s'.now) :
    Spent v s' p := by
  obtain ⟨jwk, claims, hread, hold | ⟨e, hget, he⟩⟩ := h
  · exact ⟨jwk, claims, hread, Or.inl (by omega)⟩
  · rcases hjti _ _ hget with hget' | hle
    · exact ⟨jwk, claims, hread, Or.inr ⟨e, hget', he⟩⟩
    · exact ⟨jwk, claims, hread, Or.inl (by omega)⟩

theorem Spent.not_accepted {req : DpopRequest} {jwk : PublicJwk} {claims : DpopClaims}
    (h : Spent v s req.proof) (hnow : s.now ≤ req.now)
    (hread : v.readProof req.proof = .ok (jwk, claims))
    (hcheck : v.checkClaims req claims = .ok ()) (hnew : s.store.jti.get claims.jti = none) :
    False := by
  obtain ⟨jwk', claims', hread', hspent⟩ := h
  obtain ⟨rfl, rfl⟩ := Prod.mk.injEq .. |>.mp (Except.ok.inj (hread.symm.trans hread'))
  rcases hspent with hold | ⟨e, hget, -⟩
  · have := checkClaims_age v hcheck
    omega
  · cases hnew.symm.trans hget

theorem replayInv_verify {req : DpopRequest} {c : StoreOutcome} {s' : ReplayState}
    (hinv : ReplayInv v s) (hbefore : stampedBefore v s (.verify req c) = true)
    (h : replayStep v s (.verify req c) = some s') : ReplayInv v s' := by
  simp only [replayStep] at h
  split_ifs at h with htime
  obtain ⟨⟨r, t⟩, halone, rfl⟩ := Option.map_eq_some_iff.mp h
  rcases verify_cases v halone with ⟨hr, rfl⟩ | ⟨jwk, claims, hread, hcheck, hnew, rfl, -⟩
  · simp only [hr]
    refine ⟨hinv.1, fun p hp => (hinv.2 p hp).mono ?_ fun j e he => Or.inl he⟩
    exact htime.1.trans htime.2
  · have hiat : claims.iat < req.now := by
      simpa [stampedBefore, hread, hcheck, Except.isOk, Except.toBool] using hbefore
    have hkeep : ∀ acc, ∀ p ∈ s.accepted, Spent v ⟨{ s.store with
        jti := s.store.jti.insert claims.jti (req.now + maxProofAgeSecs) },
          req.nonceNow, acc⟩ p := by
      intro acc p hp
      refine (hinv.2 p hp).mono (htime.1.trans htime.2) fun j e he => Or.inl ?_
      refine Table.get_insert_eq_some.mpr (Or.inr ⟨?_, he⟩)
      rintro rfl
      cases hnew.symm.trans he
    have hnot : req.proof ∉ s.accepted := fun hp =>
      (hinv.2 _ hp).not_accepted htime.1 hread hcheck hnew
    split_ifs with hr
    · refine ⟨List.nodup_append.mpr ⟨hinv.1, by simp, ?_⟩, fun p hp => ?_⟩
      · intro a ha b hb
        rw [List.mem_singleton.mp hb]
        exact fun hab => hnot (hab ▸ ha)
      · rcases List.mem_append.mp hp with hp | hp
        · exact hkeep _ p hp
        · rw [List.mem_singleton.mp hp]
          exact ⟨jwk, claims, hread, Or.inr ⟨_, Table.get_insert_self .., by omega⟩⟩
    · exact ⟨hinv.1, hkeep _⟩

theorem replayInv_purge {now : Nat} {c : StoreOutcome} {s' : ReplayState}
    (hinv : ReplayInv v s) (h : replayStep v s (.purge now c) = some s') :
    ReplayInv v s' := by
  simp only [replayStep] at h
  split_ifs at h with htime
  obtain rfl := Option.some.inj h
  refine ⟨hinv.1, fun p hp => (hinv.2 p hp).mono htime fun j e he => ?_⟩
  cases c with
  | fault msg => exact Or.inl he
  | done =>
      rcases Nat.lt_or_ge now e with hlt | hge
      · exact Or.inl (Table.get_retain_eq_some.mpr ⟨he, by simpa using hlt⟩)
      · exact Or.inr hge

/-- In every run in which each call that passes the checks before the
replay check is made after the second its proof is stamped with, every
proof string is accepted at most once. -/
theorem accepted_nodup_of_stampedBefore {store : OauthStore} {t : Nat}
    {as : List ReplayAct}
    (hrun : Steps.run (replayStep v) ⟨store, t, []⟩ as = some s)
    (hbefore : Steps.Along (replayStep v) (fun s a => stampedBefore v s a = true)
      ⟨store, t, []⟩ as) :
    s.accepted.Nodup := by
  refine (Steps.run_inv_along (I := ReplayInv v) (fun s a s' hs hb h => ?_)
    ⟨List.nodup_nil, fun p hp => (List.not_mem_nil hp).elim⟩ hbefore hrun).1
  cases a with
  | verify req c => exact replayInv_verify hs hb h
  | purge now c => exact replayInv_purge hs h

end

/-! ## A proof stamped with the current second -/

def sampleJwk : PublicJwk where
  kty := "EC"
  crv := "P-256"
  x := "abcdefghijklmnopqrstuvwxyz012345"
  y := "abcdefghijklmnopqrstuvwxyz012345"
  kid := none
  alg := none
  use := none

/-- A codec whose segments stand for themselves: every payload is read
as a proof for the token endpoint, stamped 1000, with its own text as
`jti`. -/
def sampleJose : JoseLib where
  base64urlDecode s := some (Text.bytes s)
  base64urlEncode b := String.ofList (b.map fun x => Char.ofUInt8 x)
  sha256 b := b
  parseJson _ := some (.obj [("typ", .str "dpop+jwt"), ("alg", .str "ES256"), ("jwk", .obj [])])
  parseJwk _ := .ok sampleJwk
  parseDpopClaims b := .ok {
    jti := String.ofList (b.map fun x => Char.ofUInt8 x), htm := "POST"
    htu := "https://pds.test/oauth/token", iat := 1000
    nonce := some (String.ofList ((toBeBytes 3).map fun x => Char.ofUInt8 x)), ath := none }
  parseAccessTokenClaims _ := .error "not a token"
  ecdsaVerify _ _ _ _ := .ok ()

def sampleVerifier : DpopVerifier := ⟨sampleJose, []⟩

def sampleProofAt (proof : String) (now : Nat) : DpopRequest where
  proof := proof
  method := "POST"
  uri := "https://pds.test/oauth/token"
  accessToken := none
  requireNonce := true
  now := now
  nonceNow := now

/-- Accepted in the second it is stamped with, forgotten and accepted
again 300 seconds later, each time with a nonce. -/
theorem replay_at_the_boundary :
    ¬ ∀ (v : DpopVerifier) (store : OauthStore) (t : Nat) (as : List ReplayAct)
      (s : ReplayState), Steps.run (replayStep v) ⟨store, t, []⟩ as = some s →
      s.accepted.Nodup := by
  intro h
  have hacc : (Steps.run (replayStep sampleVerifier) ⟨.empty, 1000, []⟩
      [.verify (sampleProofAt "h.p.s" 1000) .done, .purge 1300 .done,
        .verify (sampleProofAt "h.p.s" 1300) .done]).map (fun s => s.accepted)
        = some ["h.p.s", "h.p.s"] := by decide
  obtain ⟨s, hrun, hs⟩ := Option.map_eq_some_iff.mp hacc
  have := h sampleVerifier _ _ _ s hrun
  rw [hs] at this
  exact absurd this (by decide)

/-- One second later the same proof is accepted once. -/
theorem accepted_once_after_its_second : ∃ s,
    Steps.run (replayStep sampleVerifier) ⟨.empty, 1000, []⟩
      [.verify (sampleProofAt "h.p.s" 1001) .done, .purge 1301 .done,
        .verify (sampleProofAt "h.p.s" 1301) .done] = some s
    ∧ s.accepted = ["h.p.s"] ∧ s.accepted.Nodup := by
  have hacc : (Steps.run (replayStep sampleVerifier) ⟨.empty, 1000, []⟩
      [.verify (sampleProofAt "h.p.s" 1001) .done, .purge 1301 .done,
        .verify (sampleProofAt "h.p.s" 1301) .done]).map (fun s => s.accepted)
        = some ["h.p.s"] := by decide
  obtain ⟨s, hrun, hs⟩ := Option.map_eq_some_iff.mp hacc
  exact ⟨s, hrun, hs, accepted_nodup_of_stampedBefore hrun (by decide)⟩

end Stelyph
