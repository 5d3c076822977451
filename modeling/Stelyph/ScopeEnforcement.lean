import Stelyph.DpopReplay
import Stelyph.RepoBlocks
import Stelyph.XrpcHandlers

/-!
# Scopes

What the scope of an OAuth access token has to do with what a request
that carries it can do: nothing. `AccessAuth` hands on the DID alone, so
a request acts as soon as its handler's own checks pass. `Admissible`
lists those checks, and the requests that meet the profile's rule for
scopes are exactly those that have the scope, or that are not admissible
on any token.
-/

namespace Stelyph

section

variable {L : RepoLib}

/-! ## The rule -/

/-- The scope that a proxied method needs. -/
def scopeFor (nsid : String) : String :=
  if Text.startsWith nsid "chat.bsky." then "transition:chat.bsky" else "transition:generic"

/-- The scope that an executed call needs: a write that was made, or a
request that was forwarded. -/
def needs : (o : XrpcOp L) → o.Ret → Option String
  | .applyOne _ _, .ok _ => some "transition:generic"
  | .putBlob _ _ _ _ _, .ok _ => some "transition:generic"
  | .proxyRequest r, _ => some (scopeFor r.nsid)
  | _, _ => none

/-- The token was granted that scope. -/
def AccessTokenClaims.hasScope (claims : AccessTokenClaims) (s : String) : Bool :=
  match claims.scopeSet with
  | .ok set => set.contains s
  | .error _ => false

abbrev Acts {α : Type} (s : String) (p : XrpcProg L α) : Prop :=
  Prog.Can (S := xrpcSig L) (fun o r => needs o r = some s) p

/-- Whatever the stores and the other services answer, the request only
does what the scope of its token allows. -/
def ScopeEnforced (cfg : XrpcConfig L) (q : XrpcRequest) (claims : AccessTokenClaims) : Prop :=
  ∀ s, Acts s (q.handler cfg) → claims.hasScope s = true

/-- The request carries an access token with these claims and a valid
proof for it. -/
def Presents (cfg : XrpcConfig L) (parts : XrpcParts) (claims : AccessTokenClaims) : Prop :=
  ∃ token proof jwk pc, authorization parts = .ok (.dpop, token)
    ∧ parts.dpopHeaders = [some proof]
    ∧ verifyAccessToken cfg token parts.tokenNow = .ok claims
    ∧ cfg.oauth.dpop.readProof proof = .ok (jwk, pc)
    ∧ cfg.oauth.dpop.checkClaims (dpopRequest cfg parts proof token) pc = .ok ()
    ∧ jwk.thumbprint cfg.oauth.dpop.jose = claims.cnfJkt

/-! ## The handlers' own checks -/

def ValidWrite (cfg : XrpcConfig L) : ApplyWritesWrite → Prop
  | .create collection rkey value =>
      validateCollection collection = .ok () ∧ (∀ k, rkey = some k → validateRkey k = .ok ())
        ∧ ∃ x, cfg.jsonValueToIpld value = .ok x
  | .update collection rkey value =>
      validateCollection collection = .ok () ∧ validateRkey rkey = .ok ()
        ∧ ∃ x, cfg.jsonValueToIpld value = .ok x
  | .delete collection rkey =>
      validateCollection collection = .ok () ∧ validateRkey rkey = .ok ()

/-- A write to the caller's own repository. -/
def OwnWrite (cfg : XrpcConfig L) (did repo : String) (w : ApplyWritesWrite) : Prop :=
  repo = did ∧ cfg.parseDid did = .ok () ∧ ValidWrite cfg w

def Routed (nsid : String) (input : ProxyInput) : Prop :=
  match input.atprotoProxy with
  | some target => (Text.splitOnce target '#').isSome = true
  | none => Text.startsWith nsid "app.bsky." = true

/-- The request passes every check of its handler but that of the scope,
which there is none of. -/
def Admissible (cfg : XrpcConfig L) (did : String) (q : XrpcRequest) : Prop :=
  match q.call with
  | .createRecord input =>
      OwnWrite cfg did input.repo (.create input.collection input.rkey input.record)
  | .putRecord input =>
      OwnWrite cfg did input.repo (.update input.collection input.rkey input.record)
  | .deleteRecord input => OwnWrite cfg did input.repo (.delete input.collection input.rkey)
  | .applyWrites input => ∃ w ws, input.writes = w :: ws ∧ OwnWrite cfg did input.repo w
  | .uploadBlob _ body => body ≠ []
  | .proxyFallback input => ∃ nsid, proxyNsid q.parts.path = some nsid
      ∧ (proxyMethod q.parts.method).isSome = true ∧ input.body.length ≤ maxProxyBody
      ∧ Routed nsid input

/-- The scope the rule asks for: the one of the method for what is
forwarded, and `transition:generic` elsewhere. -/
def XrpcRequest.scope (q : XrpcRequest) : String :=
  match q.call with
  | .proxyFallback _ => scopeFor ((proxyNsid q.parts.path).getD "")
  | _ => "transition:generic"

/-! ## Authentication -/

variable {α β : Type} {s : String}

theorem not_acts_liftOauth (p : OauthProg α) : ¬ Acts s (liftOauth p : XrpcProg L α) := by
  induction p with
  | ret a => exact id
  | fail e => exact id
  | op o k ih =>
      rintro ⟨r, h | h⟩
      · cases h
      · exact ih r h

theorem returns_liftOauth {p : OauthProg α} {a : α} :
    (liftOauth p : XrpcProg L α).Returns a ↔ p.Returns a := by
  induction p with
  | ret b => exact Iff.rfl
  | fail e => exact Iff.rfl
  | op o k ih => exact exists_congr fun r => ih r

theorem not_acts_accessAuth (cfg : XrpcConfig L) (parts : XrpcParts) :
    ¬ Acts s (accessAuth cfg parts) := by
  intro h
  obtain ⟨⟨scheme, token⟩, -, h⟩ := Prog.can_ofExcept_bind.mp h
  cases scheme with
  | bearer => exact Prog.can_ofExcept _ _ _ h
  | dpop =>
      unfold authenticateDpop at h
      dsimp only at h
      split at h
      · exact h
      · exact h
      · obtain ⟨claims, -, h⟩ := Prog.can_ofExcept_bind.mp h
        rcases Prog.can_bind.mp h with h | ⟨verified, -, h⟩
        · exact not_acts_liftOauth _ h
        · split at h
          · exact h
          · exact h
      · exact h

/-- A proof that passes its checks is verified, with the thumbprint of
its key, unless it was used before. -/
theorem returns_verify (v : DpopVerifier) (req : DpopRequest) {jwk : PublicJwk}
    {pc : DpopClaims} (hread : v.readProof req.proof = .ok (jwk, pc))
    (hcheck : v.checkClaims req pc = .ok ()) {proof : DpopProof} :
    (v.verify req).Returns proof ↔
      proof = ⟨jwk.thumbprint v.jose, pc.jti, pc.htm, pc.htu, pc.iat, pc.ath⟩ := by
  have hverify : v.verify req = (OauthOp.call (.recordDpopJti pc.jti (req.now + maxProofAgeSecs))).bind
      fun fresh => if !fresh then .fail (DpopVerifier.bad "DPoP proof jti has already been used")
        else .ret ⟨jwk.thumbprint v.jose, pc.jti, pc.htm, pc.htu, pc.iat, pc.ath⟩ := by
    rw [DpopVerifier.verify, hread]
    simp only [Prog.bind_eq, Prog.pure_eq, Prog.ofExcept_ok, Prog.ret_bind, hcheck]
  rw [hverify]
  constructor
  · rintro ⟨r, h⟩
    cases r with
    | error e => cases h
    | ok fresh =>
        cases fresh with
        | false => cases h
        | true => exact h.symm
  · rintro rfl
    exact ⟨.ok true, rfl⟩

theorem returns_accessAuth {cfg : XrpcConfig L} {parts : XrpcParts} {claims : AccessTokenClaims}
    (h : Presents cfg parts claims) {did : String} :
    (accessAuth cfg parts).Returns did ↔ did = claims.sub := by
  obtain ⟨token, proof, jwk, pc, hauth, hheaders, htoken, hread, hcheck, hjkt⟩ := h
  have hprog : accessAuth cfg parts
      = (liftOauth (cfg.oauth.dpop.verify (dpopRequest cfg parts proof token))).bind fun verified =>
          if verified.jkt ≠ claims.cnfJkt then .fail .invalidToken else .ret claims.sub := by
    rw [accessAuth, hauth]
    simp only [Prog.bind_eq, Prog.pure_eq, Prog.ofExcept_ok, Prog.ret_bind, authenticateDpop,
      hheaders, htoken]
  have hverify : ∀ p, (liftOauth (cfg.oauth.dpop.verify (dpopRequest cfg parts proof token)) :
      XrpcProg L DpopProof).Returns p ↔
        p = ⟨jwk.thumbprint cfg.oauth.dpop.jose, pc.jti, pc.htm, pc.htu, pc.iat, pc.ath⟩ :=
    fun p => returns_liftOauth.trans
      (returns_verify cfg.oauth.dpop (dpopRequest cfg parts proof token) hread hcheck)
  rw [hprog, Prog.returns_bind]
  constructor
  · rintro ⟨p, hp, hdid⟩
    rw [(hverify p).mp hp, if_neg (not_not_intro hjkt)] at hdid
    exact hdid.symm
  · rintro rfl
    refine ⟨_, (hverify _).mpr rfl, ?_⟩
    rw [if_neg (not_not_intro hjkt)]
    rfl

/-! ## What each handler can do -/

/-- A call that needs no scope acts through what follows it. -/
theorem acts_op {o : XrpcOp L} {k : o.Ret → XrpcProg L α} (ho : ∀ r, needs o r = none) :
    Acts s (.op o k) ↔ ∃ r, Acts s (k r) := by
  refine exists_congr fun r => or_iff_right fun h => ?_
  have hneeds : needs o r = some s := h
  rw [ho r] at hneeds
  cases hneeds

theorem acts_ownRepo_bind {repo did : String} {f : Unit → XrpcProg L α} :
    Acts s ((ownRepo repo did : XrpcProg L Unit).bind f) ↔ repo = did ∧ Acts s (f ()) := by
  unfold ownRepo
  split
  · rename_i hne
    exact ⟨fun h => h.elim, fun h => absurd h.1 hne⟩
  · rename_i heq
    exact ⟨fun h => ⟨not_not.mp heq, h⟩, fun h => h.2⟩

theorem acts_valid_bind {x : Except String Unit} {f : Unit → XrpcProg L α} :
    Acts s ((valid x : XrpcProg L Unit).bind f) ↔ x = .ok () ∧ Acts s (f ()) :=
  Prog.can_ofExcept_bind.trans ⟨fun ⟨_, h⟩ => h, fun h => ⟨(), h⟩⟩

theorem acts_validRkey_bind {rkey : Option String} {f : Unit → XrpcProg L α} :
    Acts s ((validRkey rkey : XrpcProg L Unit).bind f) ↔
      (∀ k, rkey = some k → validateRkey k = .ok ()) ∧ Acts s (f ()) := by
  cases rkey with
  | none => exact ⟨fun h => ⟨fun _ hk => (by cases hk), h⟩, fun h => h.2⟩
  | some k =>
      refine acts_valid_bind.trans (and_congr_left fun _ => ⟨fun h k' hk' => ?_, fun h => h k rfl⟩)
      obtain rfl := Option.some.inj hk'
      exact h

variable {cfg : XrpcConfig L} {did : String}

theorem acts_buildWriter_bind {f : RepoWriter L → XrpcProg L α} :
    Acts s ((buildWriter cfg did).bind f) ↔
      cfg.parseDid did = .ok () ∧ ∃ key, Acts s (f ⟨did, key⟩) := by
  unfold buildWriter
  rw [Prog.op_bind, acts_op fun _ => rfl]
  constructor
  · rintro ⟨r, h⟩
    cases r with
    | error e => exact h.elim
    | ok key =>
        cases hdid : cfg.parseDid did with
        | error e =>
            rw [hdid] at h
            exact h.elim
        | ok u =>
            rw [hdid] at h
            exact ⟨rfl, key, h⟩
  · rintro ⟨hdid, key, h⟩
    refine ⟨.ok key, ?_⟩
    rw [hdid]
    exact h

/-- A write that is reached can be made, and needs the generic scope. -/
theorem acts_write_bind {writer : RepoWriter L} {op : WriteOp L.Ipld}
    {f : WriteOutcome L.Cid → XrpcProg L α}
    (hf : ∀ o, Acts s (f o) → s = "transition:generic") :
    Acts s ((write writer op).bind f) ↔ s = "transition:generic" := by
  constructor
  · rintro ⟨r, h | h⟩
    · cases r with
      | error e => cases h
      | ok o => exact (Option.some.inj h).symm
    · cases r with
      | error e => exact h.elim
      | ok o => exact hf o h
  · rintro rfl
    exact ⟨.ok ⟨"", "", none, L.cidOf L.emptyNode, ""⟩, Or.inl rfl⟩

theorem acts_write_ret {writer : RepoWriter L} {op : WriteOp L.Ipld}
    {g : WriteOutcome L.Cid → α} :
    Acts s ((write writer op).bind fun o => .ret (g o)) ↔ s = "transition:generic" :=
  acts_write_bind fun _ h => h.elim

theorem acts_toIpld_bind {value : Json} {f : L.Ipld → XrpcProg L α} :
    Acts s ((toIpld cfg value).bind f) ↔
      ∃ x, cfg.jsonValueToIpld value = .ok x ∧ Acts s (f x) :=
  Prog.can_ofExcept_bind

theorem acts_createRecord [hkey : Nonempty L.Key] {input : CreateRecordInput} {micros : Nat} :
    Acts s (createRecord cfg did input micros) ↔ s = "transition:generic"
      ∧ OwnWrite cfg did input.repo (.create input.collection input.rkey input.record) := by
  simp only [createRecord, Prog.bind_eq, Prog.pure_eq, acts_ownRepo_bind, acts_valid_bind,
    acts_validRkey_bind, acts_buildWriter_bind, acts_toIpld_bind, acts_write_ret]
  constructor
  · rintro ⟨hrepo, hcoll, hrkey, hdid, -, x, hx, hs⟩
    exact ⟨hs, hrepo, hdid, hcoll, hrkey, x, hx⟩
  · rintro ⟨hs, hrepo, hdid, hcoll, hrkey, x, hx⟩
    exact ⟨hrepo, hcoll, hrkey, hdid, hkey.some, x, hx, hs⟩

theorem acts_putRecord [hkey : Nonempty L.Key] {input : PutRecordInput} :
    Acts s (putRecord cfg did input) ↔ s = "transition:generic"
      ∧ OwnWrite cfg did input.repo (.update input.collection input.rkey input.record) := by
  simp only [putRecord, Prog.bind_eq, Prog.pure_eq, acts_ownRepo_bind, acts_valid_bind]
  rw [acts_op fun _ => rfl]
  simp only [Prog.can_ofExcept_bind, acts_buildWriter_bind, acts_write_ret]
  constructor
  · rintro ⟨hrepo, hcoll, hrkey, -, -, -, x, hx, hdid, -, hs⟩
    exact ⟨hs, hrepo, hdid, hcoll, hrkey, x, hx⟩
  · rintro ⟨hs, hrepo, hdid, hcoll, hrkey, x, hx⟩
    exact ⟨hrepo, hcoll, hrkey, .ok none, none, rfl, x, hx, hdid, hkey.some, hs⟩

theorem acts_deleteRecord [hkey : Nonempty L.Key] {input : DeleteRecordInput} :
    Acts s (deleteRecord cfg did input) ↔ s = "transition:generic"
      ∧ OwnWrite cfg did input.repo (.delete input.collection input.rkey) := by
  simp only [deleteRecord, Prog.bind_eq, Prog.pure_eq, acts_ownRepo_bind, acts_valid_bind]
  rw [acts_op fun _ => rfl]
  constructor
  · rintro ⟨hrepo, hcoll, hrkey, r, h⟩
    obtain ⟨found, -, h⟩ := Prog.can_ofExcept_bind.mp h
    split at h
    · exact h.elim
    · obtain ⟨hdid, key, h⟩ := acts_buildWriter_bind.mp h
      exact ⟨acts_write_ret.mp h, hrepo, hdid, hcoll, hrkey⟩
  · rintro ⟨hs, hrepo, hdid, hcoll, hrkey⟩
    refine ⟨hrepo, hcoll, hrkey, .ok (some (L.cidOf L.emptyNode)), ?_⟩
    refine Prog.can_ofExcept_bind.mpr ⟨_, rfl, ?_⟩
    exact acts_buildWriter_bind.mpr ⟨hdid, hkey.some, acts_write_ret.mpr hs⟩

theorem acts_applyWrite_bind {writer : RepoWriter L} {micros : Nat} {w : ApplyWritesWrite}
    {f : WriteOutcome L.Cid × Json → XrpcProg L α}
    (hf : ∀ x, Acts s (f x) → s = "transition:generic") :
    Acts s ((applyWrite cfg did writer micros w).bind f) ↔
      s = "transition:generic" ∧ ValidWrite cfg w := by
  have hwrite : ∀ {op : WriteOp L.Ipld} {g : WriteOutcome L.Cid → WriteOutcome L.Cid × Json},
      Acts s ((write writer op).bind fun o => f (g o)) ↔ s = "transition:generic" :=
    acts_write_bind fun o => hf _
  cases w with
  | create collection rkey value =>
      simp only [applyWrite, Prog.bind_eq, Prog.pure_eq, Prog.bind_assoc, Prog.ret_bind,
        acts_valid_bind, acts_validRkey_bind, acts_toIpld_bind, hwrite]
      constructor
      · rintro ⟨hcoll, hrkey, x, hx, hs⟩
        exact ⟨hs, hcoll, hrkey, x, hx⟩
      · rintro ⟨hs, hcoll, hrkey, x, hx⟩
        exact ⟨hcoll, hrkey, x, hx, hs⟩
  | update collection rkey value =>
      simp only [applyWrite, Prog.bind_eq, Prog.pure_eq, Prog.bind_assoc, Prog.ret_bind,
        acts_valid_bind, acts_toIpld_bind, hwrite]
      constructor
      · rintro ⟨hcoll, hrkey, x, hx, hs⟩
        exact ⟨hs, hcoll, hrkey, x, hx⟩
      · rintro ⟨hs, hcoll, hrkey, x, hx⟩
        exact ⟨hcoll, hrkey, x, hx, hs⟩
  | delete collection rkey =>
      simp only [applyWrite, Prog.bind_eq, Prog.pure_eq, Prog.bind_assoc, Prog.ret_bind,
        acts_valid_bind, hwrite]
      constructor
      · rintro ⟨hcoll, hrkey, hs⟩
        exact ⟨hs, hcoll, hrkey⟩
      · rintro ⟨hs, hcoll, hrkey⟩
        exact ⟨hcoll, hrkey, hs⟩

theorem generic_of_acts_applyEach {writer : RepoWriter L} {micros : Nat → Nat}
    (ws : List ApplyWritesWrite) : ∀ {last : Option CommitMeta} {results : List Json},
    Acts s (applyEach cfg did writer micros ws last results) → s = "transition:generic" := by
  induction ws with
  | nil => exact fun h => h.elim
  | cons w ws ih => exact fun h => ((acts_applyWrite_bind fun _ h => ih h).mp h).1

theorem acts_applyWrites [hkey : Nonempty L.Key] {input : ApplyWritesInput} {micros : Nat → Nat} :
    Acts s (applyWrites cfg did input micros) ↔ s = "transition:generic"
      ∧ ∃ w ws, input.writes = w :: ws ∧ OwnWrite cfg did input.repo w := by
  simp only [applyWrites, Prog.bind_eq, Prog.pure_eq, acts_ownRepo_bind]
  cases hwrites : input.writes with
  | nil =>
      constructor
      · exact fun h => h.2.elim
      · rintro ⟨-, w, ws, hw, -⟩
        cases hw
  | cons w ws =>
      have heach : ∀ writer, Acts s (applyEach cfg did writer micros (w :: ws) none []) ↔
          s = "transition:generic" ∧ ValidWrite cfg w := fun writer =>
        acts_applyWrite_bind fun _ h => generic_of_acts_applyEach ws h
      simp only [List.isEmpty_cons, Bool.false_eq_true, if_false, acts_buildWriter_bind, heach]
      constructor
      · rintro ⟨hrepo, hdid, -, hs, hw⟩
        exact ⟨hs, w, ws, rfl, hrepo, hdid, hw⟩
      · rintro ⟨hs, w', ws', hcons, hrepo, hdid, hw⟩
        obtain ⟨rfl, rfl⟩ := List.cons.inj hcons
        exact ⟨hrepo, hdid, hkey.some, hs, hw⟩

theorem acts_uploadBlob {contentType : Option String} {body : Bytes} :
    Acts s (uploadBlob cfg did contentType body) ↔ s = "transition:generic" ∧ body ≠ [] := by
  unfold uploadBlob
  cases body with
  | nil => exact ⟨fun h => h.elim, fun h => absurd rfl h.2⟩
  | cons b bs =>
      constructor
      · rintro ⟨r, h | h⟩
        · cases r with
          | error e => cases h
          | ok u => exact ⟨(Option.some.inj h).symm, List.cons_ne_nil _ _⟩
        · obtain ⟨-, -, h⟩ := Prog.can_ofExcept_bind.mp h
          exact h.elim
      · rintro ⟨rfl, -⟩
        exact ⟨.ok (), Or.inl rfl⟩

theorem acts_proxyTarget_bind {nsid : String} {input : ProxyInput} {Q : Prop}
    {f : String × String → XrpcProg L α} (hf : ∀ target, Acts s (f target) ↔ Q) :
    Acts s ((proxyTarget cfg nsid input).bind f) ↔ Routed nsid input ∧ Q := by
  unfold proxyTarget Routed
  cases input.atprotoProxy with
  | some target =>
      dsimp only
      cases Text.splitOnce target '#' with
      | none =>
          refine ⟨fun h => h.elim, fun h => ?_⟩
          cases h.1
      | some x =>
          obtain ⟨tdid, fragment⟩ := x
          refine (acts_op (o := .resolveService tdid fragment) fun _ => rfl).trans ⟨?_, ?_⟩
          · rintro ⟨r, h⟩
            cases r with
            | error e => exact h.elim
            | ok base => exact ⟨rfl, (hf _).mp h⟩
          · rintro ⟨-, hQ⟩
            exact ⟨.ok "", (hf _).mpr hQ⟩
  | none =>
      dsimp only
      split
      · rename_i happ
        exact ⟨fun h => ⟨happ, (hf _).mp h⟩, fun h => (hf _).mpr h.2⟩
      · rename_i happ
        exact ⟨fun h => h.elim, fun h => absurd h.1 happ⟩

theorem acts_proxyFallback [hkey : Nonempty L.Key] {parts : XrpcParts} {input : ProxyInput} :
    Acts s (proxyFallback cfg did parts input) ↔ ∃ nsid, proxyNsid parts.path = some nsid
      ∧ (proxyMethod parts.method).isSome = true ∧ input.body.length ≤ maxProxyBody
      ∧ Routed nsid input ∧ s = scopeFor nsid := by
  unfold proxyFallback
  cases hnsid : proxyNsid parts.path with
  | none =>
      constructor
      · exact fun h => h.elim
      · rintro ⟨nsid, h, -⟩
        cases h
  | some nsid =>
      cases hmethod : proxyMethod parts.method with
      | none =>
          constructor
          · exact fun h => h.elim
          · rintro ⟨-, -, h, -⟩
            cases h
      | some method =>
          dsimp only
          split
          · rename_i hlen
            constructor
            · exact fun h => h.elim
            · rintro ⟨-, -, -, hle, -⟩
              omega
          · rename_i hlen
            refine (acts_proxyTarget_bind (Q := s = scopeFor nsid) fun target => ?_).trans ⟨?_, ?_⟩
            · refine (acts_op fun _ => rfl).trans ⟨?_, ?_⟩
              · rintro ⟨r, h⟩
                obtain ⟨key, -, h⟩ := Prog.can_ofExcept_bind.mp h
                obtain ⟨r', h⟩ := (acts_op fun _ => rfl).mp h
                obtain ⟨jwt, -, ⟨r'', h | h⟩⟩ := Prog.can_ofExcept_bind.mp h
                · exact (Option.some.inj h).symm
                · cases r'' with
                  | error e => exact h.elim
                  | ok upstream => exact h.elim
              · rintro rfl
                refine ⟨.ok hkey.some, Prog.can_ofExcept_bind.mpr ⟨_, rfl, ?_⟩⟩
                refine (acts_op fun _ => rfl).mpr ⟨.ok "", ?_⟩
                exact Prog.can_ofExcept_bind.mpr ⟨_, rfl, .ok ⟨200, [], none, none⟩, Or.inl rfl⟩
            · rintro ⟨hrouted, hs⟩
              exact ⟨nsid, rfl, rfl, by omega, hrouted, hs⟩
            · rintro ⟨nsid', hsome, -, -, hrouted, hs⟩
              obtain rfl := Option.some.inj hsome
              exact ⟨hrouted, hs⟩

/-! ## The theorem -/

/-- What a request can do: what it was made for, if its handler's own
checks pass. The scope of its token does not come into it. -/
theorem acts_handler [Nonempty L.Key] {q : XrpcRequest} {claims : AccessTokenClaims}
    (h : Presents cfg q.parts claims) :
    Acts s (q.handler cfg) ↔ s = q.scope ∧ Admissible cfg claims.sub q := by
  have hauth : Acts s (q.handler cfg) ↔ Acts s (match q.call with
      | .createRecord input => createRecord cfg claims.sub input (q.micros 0)
      | .putRecord input => putRecord cfg claims.sub input
      | .deleteRecord input => deleteRecord cfg claims.sub input
      | .applyWrites input => applyWrites cfg claims.sub input q.micros
      | .uploadBlob contentType body => uploadBlob cfg claims.sub contentType body
      | .proxyFallback input => proxyFallback cfg claims.sub q.parts input) := by
    unfold XrpcRequest.handler
    refine Prog.can_bind.trans ⟨?_, ?_⟩
    · rintro (hacc | ⟨did, hdid, hacts⟩)
      · exact (not_acts_accessAuth cfg q.parts hacc).elim
      · rw [(returns_accessAuth h).mp hdid] at hacts
        exact hacts
    · exact fun hacts => Or.inr ⟨_, (returns_accessAuth h).mpr rfl, hacts⟩
  rw [hauth, XrpcRequest.scope, Admissible]
  cases q.call with
  | createRecord input => exact acts_createRecord
  | putRecord input => exact acts_putRecord
  | deleteRecord input => exact acts_deleteRecord
  | applyWrites input => exact acts_applyWrites
  | uploadBlob contentType body => exact acts_uploadBlob
  | proxyFallback input =>
      refine acts_proxyFallback.trans ⟨?_, ?_⟩
      · rintro ⟨nsid, hnsid, hmethod, hlen, hrouted, hs⟩
        refine ⟨?_, nsid, hnsid, hmethod, hlen, hrouted⟩
        rw [hs, hnsid]
        rfl
      · rintro ⟨hs, nsid, hnsid, hmethod, hlen, hrouted⟩
        refine ⟨nsid, hnsid, hmethod, hlen, hrouted, ?_⟩
        rw [hs, hnsid]
        rfl

/-- A request is within the scope of its token exactly if the token has
the scope the request needs, or no token would get it past its handler.
The handlers look at whose token it is and not at what it was granted for.
-/
theorem scopeEnforced_iff [Nonempty L.Key] {q : XrpcRequest} {claims : AccessTokenClaims}
    (h : Presents cfg q.parts claims) :
    ScopeEnforced cfg q claims ↔
      (claims.hasScope q.scope = true ∨ ¬ Admissible cfg claims.sub q) := by
  constructor
  · intro henf
    by_cases hadm : Admissible cfg claims.sub q
    · exact Or.inl (henf _ ((acts_handler h).mpr ⟨rfl, hadm⟩))
    · exact Or.inr hadm
  · intro hcond s hacts
    obtain ⟨rfl, hadm⟩ := (acts_handler h).mp hacts
    rcases hcond with hscope | hnot
    · exact hscope
    · exact absurd hadm hnot

end

/-! ## A token for signing in only -/

def sampleClaims (scope : String) : AccessTokenClaims where
  iss := "https://pds.test"
  sub := "did:plc:alice"
  aud := "did:web:pds.test"
  clientId := "https://app.test/client.json"
  scope := scope
  jti := "j"
  iat := 1000
  exp := 4600
  cnfJkt := sampleJwk.thumbprint sampleJose

/-- A proof of `sampleJwk` for the token, or for the token endpoint. -/
def sampleProof (token : Option String) : DpopClaims where
  jti := "p"
  htm := "POST"
  htu := if token.isSome then "https://pds.test/xrpc/com.atproto.repo.createRecord"
    else "https://pds.test/oauth/token"
  iat := 1000
  nonce := some (String.ofList ((toBeBytes 3).map fun x => Char.ofUInt8 x))
  ath := token

/-- The payload of a token is its scope, and that of a proof the scope of
the token it is for, or `refresh`. -/
def scopeJose : JoseLib :=
  { sampleJose with
    parseJson := fun b => some (.obj (if b = Text.bytes "d"
      then [("typ", .str "dpop+jwt"), ("alg", .str "ES256"), ("jwk", .obj [])]
      else [("typ", .str "at+jwt"), ("alg", .str "ES256")]))
    parseDpopClaims := fun b => .ok (sampleProof (if b = Text.bytes "refresh" then none
      else some s!"a.{String.ofList (b.map fun x => Char.ofUInt8 x)}.s"))
    parseAccessTokenClaims := fun b =>
      .ok (sampleClaims (String.ofList (b.map fun x => Char.ofUInt8 x))) }

def scopeServer : XrpcConfig sampleRepo where
  oauth := {
    dpop := ⟨scopeJose, []⟩
    issuerUrl := "https://pds.test"
    audience := "did:web:pds.test"
    signAccessToken := fun claims => .ok s!"a.{claims.scope}.s"
    hashSecret := id }
  tokenKey := sampleJwk
  decodeJwt _ := .error .invalidToken
  parseDid _ := .ok ()
  jsonValueToIpld _ := .ok (7 : Nat)
  cidText _ := "cid"
  blobCid _ := "cid"
  headerValue _ := true
  appviewDid := "did:web:api.bsky.app"
  appviewUrl := "https://api.bsky.app"

/-- The request for a token with the scope that was granted. -/
def sampleTokenRequest : TokenRequest where
  form := {
    grantType := "refresh_token", clientId := "https://app.test/client.json", code := none
    redirectUri := none, codeVerifier := none, refreshToken := some "t", scope := none }
  dpopHeaders := [some "d.refresh.s"]
  dpopNow := 1000
  nonceNow := 1000
  redeemNow := 1000
  accessNow := 1000
  refreshNow := 1000
  newRefreshToken := "t'"
  newSessionId := "s"
  newJti := "j"

def sampleGrant : RefreshTokenRecord where
  tokenHash := "t"
  sessionId := "s"
  did := "did:plc:alice"
  clientId := "https://app.test/client.json"
  scope := "atproto"
  dpopJkt := sampleJwk.thumbprint sampleJose
  issuedAt := 900
  expiresAt := 5000

/-- A post to the caller's own repository. -/
def sampleCreate (scope : String) : XrpcRequest where
  parts := {
    authorization := some (some s!"DPoP a.{scope}.s")
    dpopHeaders := [some s!"d.{scope}.s"]
    method := "POST"
    path := "/xrpc/com.atproto.repo.createRecord"
    tokenNow := 1000
    dpopNow := 1000
    nonceNow := 1000 }
  call := .createRecord {
    repo := "did:plc:alice", collection := "app.bsky.feed.post", record := .null, rkey := none }
  micros _ := 0

theorem presents_atproto :
    Presents scopeServer (sampleCreate "atproto").parts (sampleClaims "atproto") :=
  ⟨"a.atproto.s", "d.atproto.s", sampleJwk, sampleProof (some "a.atproto.s"),
    by rfl, by rfl, by rfl, by rfl, by rfl, by rfl⟩

theorem presents_generic :
    Presents scopeServer (sampleCreate "atproto transition:generic").parts
      (sampleClaims "atproto transition:generic") :=
  ⟨"a.atproto transition:generic.s", "d.atproto transition:generic.s", sampleJwk,
    sampleProof (some "a.atproto transition:generic.s"),
    by rfl, by rfl, by rfl, by rfl, by rfl, by rfl⟩

theorem returns_sampleTokenRequest : (tokenHandle scopeServer.oauth sampleTokenRequest).Returns
    ⟨"a.atproto.s", "DPoP", 3600, "t'", "atproto", "did:plc:alice"⟩ := by
  have hread : scopeServer.oauth.dpop.readProof "d.refresh.s"
      = .ok (sampleJwk, sampleProof none) := by rfl
  have hcheck : scopeServer.oauth.dpop.checkClaims (sampleProofAt "d.refresh.s" 1000)
      (sampleProof none) = .ok () := by rfl
  have hscope : Scope.parse sampleGrant.scope = .ok ⟨["atproto"]⟩ := by rfl
  have hverify := (returns_verify _ (sampleProofAt "d.refresh.s" 1000) hread hcheck).mpr rfl
  refine Prog.returns_bind.mpr ⟨_, hverify, .ok (.consumed sampleGrant), ?_⟩
  refine Prog.returns_bind.mpr ⟨_, rfl, ?_⟩
  refine Prog.returns_bind.mpr ⟨_, (Prog.returns_ofExcept _ _ _).mpr hscope, ?_⟩
  exact Prog.returns_bind.mpr ⟨_, (Prog.returns_ofExcept _ _ _).mpr rfl, .ok (), by rfl⟩

theorem admissible_sampleCreate (scope : String) :
    Admissible scopeServer "did:plc:alice" (sampleCreate scope) :=
  ⟨rfl, rfl, by rfl, fun _ hk => (by cases hk), (7 : Nat), rfl⟩

/-- A token that only says who the account is writes a record. -/
theorem unscoped_token_writes :
    ¬ ∀ (cfg : XrpcConfig sampleRepo) (tq : TokenRequest) (response : TokenResponse)
      (q : XrpcRequest) (claims : AccessTokenClaims),
      (tokenHandle cfg.oauth tq).Returns response →
      authorization q.parts = .ok (.dpop, response.accessToken) →
      Presents cfg q.parts claims → ScopeEnforced cfg q claims := by
  intro h
  have henf := h scopeServer sampleTokenRequest _ (sampleCreate "atproto")
    (sampleClaims "atproto") returns_sampleTokenRequest (by rfl) presents_atproto
  have : Nonempty sampleRepo.Key := ⟨()⟩
  have hscope := henf "transition:generic"
    ((acts_handler presents_atproto).mpr ⟨rfl, admissible_sampleCreate _⟩)
  exact absurd hscope (by decide)

/-- With the generic scope, the same request is within its scope. -/
theorem generic_token_writes_in_scope :
    ScopeEnforced scopeServer (sampleCreate "atproto transition:generic")
      (sampleClaims "atproto transition:generic") := by
  have : Nonempty sampleRepo.Key := ⟨()⟩
  exact (scopeEnforced_iff presents_generic).mpr (Or.inl (by decide))

end Stelyph
