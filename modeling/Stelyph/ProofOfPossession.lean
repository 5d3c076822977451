import Stelyph.Lib.Base64url
import Stelyph.ScopeEnforcement
import Stelyph.TokenRuns

/-!
# Requests authenticated by a DPoP proof

What a DID handed out by `authenticate_dpop` stands for, in terms of the
strings of the request: an access token signed by the server's own key, a
proof signed by the key in its own header, made for this token, method and
URL, and a key that is the one the token is bound to. The binding goes
through the hash of a JSON text put together by hand (`thumbprintPreimage`);
of two keys that can verify anything, that text is the same only if they are
the same key.
-/

namespace Stelyph

/-! ## Keys -/

/-- The curve of an algorithm. -/
def Alg.curve : Alg → String
  | .es256 => "P-256"
  | .es256k => "secp256k1"

namespace PublicJwk

/-- An EC key of a known curve with two coordinates of 32 bytes: `alg` is
the algorithm of the curve and `point` the uncompressed point. -/
structure Usable (jose : JoseLib) (key : PublicJwk) (alg : Alg) (point : Bytes) : Prop where
  kty : key.kty = "EC"
  curve : key.crv = alg.curve
  declared : ∀ d, key.alg = some d → d = alg.asStr
  coordinates : ∃ x y, jose.base64urlDecode key.x = some x ∧ jose.base64urlDecode key.y = some y
    ∧ x.length = 32 ∧ y.length = 32 ∧ point = 0x04 :: x ++ y

/-- The canonical JSON of the required members. -/
def thumbprintPreimage (key : PublicJwk) : String :=
  "\x7b\"crv\":\"" ++ key.crv ++ "\",\"kty\":\"" ++ key.kty
    ++ "\",\"x\":\"" ++ key.x ++ "\",\"y\":\"" ++ key.y ++ "\"\x7d"

/-- The same curve and the same coordinates. -/
def SameKey (key key' : PublicJwk) : Prop :=
  key.crv = key'.crv ∧ key.x = key'.x ∧ key.y = key'.y

end PublicJwk

theorem Alg.parse_ok {s : String} {a : Alg} (h : Alg.parse s = .ok a) : s = a.asStr := by
  unfold Alg.parse at h
  split_ifs at h with h1 h2
  · obtain rfl := Except.ok.inj h
    exact h1
  · obtain rfl := Except.ok.inj h
    exact h2

/-- What the base64url codec promises: it reads back what it writes, and
reads nothing outside its alphabet. -/
structure JoseLib.Base64Laws (jose : JoseLib) : Prop where
  decode_encode : ∀ bs, jose.base64urlDecode (jose.base64urlEncode bs) = some bs
  alphabet : ∀ s bs, jose.base64urlDecode s = some bs →
    ∀ c ∈ s.toList, c.isAlphanum = true ∨ c = '-' ∨ c = '_'

section

variable {jose : JoseLib} {key key' : PublicJwk} {alg alg' : Alg} {point point' : Bytes}

namespace PublicJwk

/-- An algorithm the key declares is the one of its curve. -/
theorem declared_ok {c : Alg} {e : Alg → OAuthError}
    (h : (match key.alg with
      | none => (.ok c : Except OAuthError Alg)
      | some d => do
          let declared ← Alg.parse d
          if declared ≠ c then .error (e declared) else .ok c) = .ok alg) :
    c = alg ∧ ∀ d, key.alg = some d → d = alg.asStr := by
  cases hdeclared : key.alg with
  | none =>
      rw [hdeclared] at h
      exact ⟨Except.ok.inj h, fun d hd => by cases hd⟩
  | some d =>
      rw [hdeclared] at h
      obtain ⟨declared, hparse, h⟩ := Prog.except_bind_ok h
      split_ifs at h with heq
      refine ⟨Except.ok.inj h, fun d' hd' => ?_⟩
      rw [← Option.some.inj hd', Alg.parse_ok hparse, ← Except.ok.inj h, not_not.mp heq]

theorem algorithm_ok (h : key.algorithm = .ok alg) :
    key.kty = "EC" ∧ key.crv = alg.curve ∧ ∀ d, key.alg = some d → d = alg.asStr := by
  unfold algorithm at h
  split_ifs at h with hkty hp hs
  · obtain ⟨rfl, hdeclared⟩ := declared_ok h
    exact ⟨not_not.mp hkty, hp, hdeclared⟩
  · obtain ⟨rfl, hdeclared⟩ := declared_ok h
    exact ⟨not_not.mp hkty, hs, hdeclared⟩
  · cases h

theorem elim_ok {α ε : Type} {x : Option α} {e : ε} {a : α}
    (h : x.elim (.error e) .ok = (.ok a : Except ε α)) : x = some a := by
  cases x with
  | none => cases h
  | some b => exact congrArg some (Except.ok.inj h)

theorem sec1Uncompressed_ok (h : key.sec1Uncompressed jose = .ok point) :
    ∃ x y, jose.base64urlDecode key.x = some x ∧ jose.base64urlDecode key.y = some y
      ∧ x.length = 32 ∧ y.length = 32 ∧ point = 0x04 :: x ++ y := by
  obtain ⟨x, hx, h⟩ := Prog.except_bind_ok h
  obtain ⟨y, hy, h⟩ := Prog.except_bind_ok h
  split_ifs at h with hlen
  obtain ⟨hxlen, hylen⟩ := not_or.mp hlen
  exact ⟨x, y, elim_ok hx, elim_ok hy, not_not.mp hxlen, not_not.mp hylen,
    (Except.ok.inj h).symm⟩

/-- A signature is checked against the point of a usable key, by the
algorithm of its curve. -/
theorem verify_ok {message signature : Bytes} (h : key.verify jose message signature = .ok ()) :
    ∃ alg point, key.algorithm = .ok alg ∧ key.Usable jose alg point
      ∧ jose.ecdsaVerify alg point message signature = .ok () := by
  obtain ⟨point, hpoint, h⟩ := Prog.except_bind_ok h
  obtain ⟨alg, halg, h⟩ := Prog.except_bind_ok h
  obtain ⟨hkty, hcurve, hdeclared⟩ := algorithm_ok halg
  refine ⟨alg, point, halg, ⟨hkty, hcurve, hdeclared, sec1Uncompressed_ok hpoint⟩, ?_⟩
  cases hverify : jose.ecdsaVerify alg point message signature with
  | ok u => rfl
  | error e =>
      rw [hverify] at h
      cases h

/-! ### Thumbprints -/

theorem thumbprint_eq (key : PublicJwk) :
    key.thumbprint jose
      = jose.base64urlEncode (jose.sha256 (Text.bytes key.thumbprintPreimage)) := rfl

/-- A coordinate holds no character that would have to be escaped. -/
theorem quote_not_mem (laws : jose.Base64Laws) {s : String} {bs : Bytes}
    (h : jose.base64urlDecode s = some bs) : '"' ∉ s.toList := by
  intro hmem
  rcases laws.alphabet s bs h _ hmem with hc | hc | hc <;> exact absurd hc (by decide)

/-- Of two usable keys with one preimage, the curves and the coordinates
are the same. -/
theorem sameKey_of_preimage (laws : jose.Base64Laws) (hk : key.Usable jose alg point)
    (hk' : key'.Usable jose alg' point')
    (h : key.thumbprintPreimage = key'.thumbprintPreimage) : key.SameKey key' := by
  obtain ⟨x, y, hx, hy, -⟩ := hk.coordinates
  obtain ⟨x', y', hx', hy', -⟩ := hk'.coordinates
  have hlist := congrArg String.toList h
  unfold thumbprintPreimage at hlist
  simp only [hk.kty, hk'.kty, hk.curve, hk'.curve, String.toList_append,
    List.append_assoc] at hlist
  have hcurve := List.append_cancel_left hlist
  -- the first character of the curve tells the two curves apart
  have halg : alg = alg' := by
    cases alg <;> cases alg' <;>
      first | rfl | exact absurd (List.cons.inj hcurve).1 (by decide)
  subst halg
  have htail := List.append_cancel_left (List.append_cancel_left (List.append_cancel_left
    (List.append_cancel_left hcurve)))
  obtain ⟨hxeq, hrest⟩ := Text.of_append_cons (quote_not_mem laws hx) (quote_not_mem laws hx')
    htail
  obtain ⟨hyeq, -⟩ := Text.of_append_cons (quote_not_mem laws hy) (quote_not_mem laws hy')
    (List.append_cancel_left hrest)
  exact ⟨hk.curve.trans hk'.curve.symm, String.toList_inj.mp hxeq, String.toList_inj.mp hyeq⟩

end PublicJwk

/-! ## Compact JWS -/

/-- `token` is three segments of base64url, and `u` what they hold. -/
structure Compact (jose : JoseLib) (token : String) (u : Unverified) : Prop where
  segments : ∃ h p s headerBytes, token = h ++ "." ++ p ++ "." ++ s
    ∧ jose.base64urlDecode h = some headerBytes ∧ jose.parseJson headerBytes = some u.header
    ∧ jose.base64urlDecode p = some u.payloadBytes
    ∧ jose.base64urlDecode s = some u.signature ∧ u.signingInput = h ++ "." ++ p

/-- The header names the type and the algorithm of the key's curve, and
the signature is one of the key. -/
structure SignedBy (jose : JoseLib) (key : PublicJwk) (typ : String) (u : Unverified) : Prop where
  typ : u.header.get "typ" = some (.str typ)
  signature : ∃ alg point, key.Usable jose alg point
    ∧ u.header.get "alg" = some (.str alg.asStr)
    ∧ jose.ecdsaVerify alg point (Text.bytes u.signingInput) u.signature = .ok ()

namespace Unverified

variable {u : Unverified} {token : String}

theorem parse_ok (h : Unverified.parse jose token = .ok u) : Compact jose token u := by
  unfold Unverified.parse at h
  split at h
  · rename_i hd pl sg hsplit
    obtain ⟨headerBytes, hheader, h⟩ := Prog.except_bind_ok h
    obtain ⟨payloadBytes, hpayload, h⟩ := Prog.except_bind_ok h
    obtain ⟨signature, hsignature, h⟩ := Prog.except_bind_ok h
    obtain ⟨header, hjson, h⟩ := Prog.except_bind_ok h
    obtain rfl := Except.ok.inj h
    refine ⟨hd, pl, sg, headerBytes, ?_, PublicJwk.elim_ok hheader, PublicJwk.elim_ok hjson,
      PublicJwk.elim_ok hpayload, PublicJwk.elim_ok hsignature, rfl⟩
    have hwhole := Text.intercalate_split token '.'
    rw [hsplit] at hwhole
    rw [← String.toList_inj, ← hwhole]
    simp [String.toList_append, List.intercalate]
  · cases h

/-- Three segments put together are read back. -/
theorem parse_compact (laws : jose.Base64Laws) {a b c : Bytes} {header : Json}
    (h : jose.parseJson a = some header) :
    Unverified.parse jose (jose.base64urlEncode a ++ "." ++ jose.base64urlEncode b ++ "."
        ++ jose.base64urlEncode c)
      = .ok { header := header, payloadBytes := b, signature := c
              signingInput := jose.base64urlEncode a ++ "." ++ jose.base64urlEncode b } := by
  have hno : ∀ bs : Bytes, '.' ∉ (jose.base64urlEncode bs).toList := by
    intro bs hmem
    rcases laws.alphabet _ bs (laws.decode_encode bs) _ hmem with hc | hc | hc <;>
      exact absurd hc (by decide)
  have hjoin : jose.base64urlEncode a ++ "." ++ jose.base64urlEncode b ++ "."
        ++ jose.base64urlEncode c
      = (String.singleton '.').intercalate [jose.base64urlEncode a, jose.base64urlEncode b,
          jose.base64urlEncode c] := by
    rw [← String.toList_inj]
    simp [String.toList_append]
  have hsplit := Text.split_intercalate (c := '.') (List.cons_ne_nil (jose.base64urlEncode a)
    [jose.base64urlEncode b, jose.base64urlEncode c]) (by simpa using ⟨hno a, hno b, hno c⟩)
  unfold Unverified.parse
  rw [hjoin, hsplit]
  simp only [laws.decode_encode, Option.elim_some, bind, Except.bind, h]
  rfl

theorem headerStr_eq {k v : String} (h : u.headerStr k = some v) :
    u.header.get k = some (.str v) := by
  obtain ⟨j, hj, hv⟩ := Option.bind_eq_some_iff.mp h
  rw [hj]
  cases j with
  | str w => exact congrArg (fun w => some (Json.str w)) (Option.some.inj hv)
  | null => cases hv
  | bool b => cases hv
  | num n => cases hv
  | frac w => cases hv
  | arr xs => cases hv
  | obj kvs => cases hv

theorem alg_ok {alg : Alg} (h : u.alg = .ok alg) :
    u.header.get "alg" = some (.str alg.asStr) := by
  unfold Unverified.alg at h
  split at h
  · cases h
  · rename_i a ha
    rw [headerStr_eq ha, Alg.parse_ok h]

theorem verifyWith_ok {T : Type} {decode : Bytes → Except String T} {claims : T} {typ : String}
    (htyp : u.headerStr "typ" = some typ) (h : u.verifyWith jose decode key = .ok claims) :
    SignedBy jose key typ u ∧ decode u.payloadBytes = .ok claims := by
  obtain ⟨keyAlg, hkey, hrest⟩ := Prog.except_bind_ok h
  obtain ⟨alg, halg, hrest⟩ := Prog.except_bind_ok hrest
  split_ifs at hrest with heq
  have hkey' : key.algorithm = .ok alg := hkey.trans (congrArg _ (not_not.mp heq).symm)
  obtain ⟨_, hverify, hdecode⟩ := Prog.except_bind_ok hrest
  obtain ⟨alg', point, halg', husable, hsig⟩ := PublicJwk.verify_ok hverify
  obtain rfl := Except.ok.inj (hkey'.symm.trans halg')
  exact ⟨⟨headerStr_eq htyp, alg, point, husable, alg_ok halg, hsig⟩,
    Prog.except_mapError_ok hdecode⟩

end Unverified

end

/-! ## The two tokens of a request -/

/-- The access token: signed by the server's key, for this server, and
not expired at `now`. -/
structure AccessTokenFor {L : RepoLib} (cfg : XrpcConfig L) (token : String) (now : Nat)
    (claims : AccessTokenClaims) : Prop where
  signed : ∃ u, Compact cfg.oauth.dpop.jose token u
    ∧ SignedBy cfg.oauth.dpop.jose cfg.tokenKey "at+jwt" u
    ∧ cfg.oauth.dpop.jose.parseAccessTokenClaims u.payloadBytes = .ok claims
  iss : claims.iss = cfg.oauth.issuerUrl
  aud : claims.aud = cfg.oauth.audience
  exp : now < claims.exp

/-- The proof: signed by the key its header embeds, for the method and the
URL up to their normal forms, made at a time within the window, and for
this access token. -/
structure ProofFor (v : DpopVerifier) (req : DpopRequest) (key : PublicJwk)
    (claims : DpopClaims) : Prop where
  signed : ∃ u value, Compact v.jose req.proof u ∧ u.header.get "jwk" = some value
    ∧ v.jose.parseJwk value = .ok key ∧ SignedBy v.jose key "dpop+jwt" u
    ∧ v.jose.parseDpopClaims u.payloadBytes = .ok claims
  htm : Text.toAsciiLowercase claims.htm = Text.toAsciiLowercase req.method
  htu : normalizeHtu claims.htu = normalizeHtu req.uri
  iat : claims.iat ≤ req.now + maxProofAgeSecs ∧ req.now ≤ claims.iat + maxProofAgeSecs
  ath : ∀ token, req.accessToken = some token →
    claims.ath = some (v.jose.base64urlEncode (v.jose.sha256 (Text.bytes token)))

section

variable {L : RepoLib} {cfg : XrpcConfig L}

theorem verifyAccessToken_ok {token : String} {now : Nat} {claims : AccessTokenClaims}
    (h : verifyAccessToken cfg token now = .ok claims) : AccessTokenFor cfg token now claims := by
  obtain ⟨claims', hjws, h⟩ := Prog.except_bind_ok h
  split_ifs at h with hexp hiss haud
  obtain rfl := Except.ok.inj h
  obtain ⟨u, hparse, hjws⟩ := Prog.except_bind_ok hjws
  split_ifs at hjws with htyp
  obtain ⟨hsigned, hpayload⟩ :=
    Unverified.verifyWith_ok (not_not.mp htyp) (Prog.except_mapError_ok hjws)
  exact ⟨⟨u, Unverified.parse_ok (Prog.except_mapError_ok hparse), hsigned, hpayload⟩,
    not_not.mp hiss, not_not.mp haud, Nat.lt_of_not_le hexp⟩

variable {v : DpopVerifier} {req : DpopRequest} {key : PublicJwk} {claims : DpopClaims}

theorem checkAth_ok {token : String} (h : v.checkAth req claims = .ok ())
    (htoken : req.accessToken = some token) :
    claims.ath = some (v.jose.base64urlEncode (v.jose.sha256 (Text.bytes token))) := by
  unfold DpopVerifier.checkAth at h
  rw [htoken] at h
  cases hath : claims.ath with
  | none =>
      rw [hath] at h
      cases h
  | some ath =>
      rw [hath] at h
      by_cases hne : ath = v.jose.base64urlEncode (v.jose.sha256 (Text.bytes token))
      · rw [hne]
      · simp [constantTimeEq, hne] at h

theorem readProof_of_parts {proof : String} {u : Unverified} {value : Json}
    (hparse : Unverified.parse v.jose proof = .ok u)
    (htyp : u.headerStr "typ" = some "dpop+jwt") (hjwk : u.header.get "jwk" = some value)
    (hprivate : PublicJwk.rejectIfPrivate value = .ok ()) (hkey : v.jose.parseJwk value = .ok key)
    (hclaims : u.verifyWith v.jose v.jose.parseDpopClaims key = .ok claims) :
    v.readProof proof = .ok (key, claims) := by
  simp only [DpopVerifier.readProof, hparse, htyp, hjwk, hprivate, hkey, hclaims, bind,
    Except.bind, Except.mapError, ne_eq, not_true_eq_false, if_false]
  rfl

theorem checkClaims_of_parts
    (hhtm : Text.eqIgnoreAsciiCase claims.htm req.method = true)
    (hhtu : normalizeHtu claims.htu = normalizeHtu req.uri)
    (hiat : DpopVerifier.absDiff req.now claims.iat ≤ maxProofAgeSecs)
    (hnonce : ∀ n, claims.nonce = some n → v.nonceIsValid n req.nonceNow = true)
    (hcarries : claims.nonce.isSome = true)
    (hath : ∀ token, req.accessToken = some token →
      claims.ath = some (v.jose.base64urlEncode (v.jose.sha256 (Text.bytes token)))) :
    v.checkClaims req claims = .ok () := by
  have hn : v.checkNonce req claims = .ok () := by
    obtain ⟨n, hn⟩ := Option.isSome_iff_exists.mp hcarries
    simp [DpopVerifier.checkNonce, hn, hnonce n hn]
  have ha : v.checkAth req claims = .ok () := by
    cases htoken : req.accessToken with
    | none => simp [DpopVerifier.checkAth, htoken]
    | some token => simp [DpopVerifier.checkAth, htoken, hath token htoken, constantTimeEq]
  simp [DpopVerifier.checkClaims, hhtm, hhtu, Nat.not_lt.mpr hiat, hn, ha, bind, Except.bind]

theorem proofFor_of_checks (hread : v.readProof req.proof = .ok (key, claims))
    (hcheck : v.checkClaims req claims = .ok ()) : ProofFor v req key claims := by
  obtain ⟨u, hparse, hread⟩ := Prog.except_bind_ok hread
  split_ifs at hread with htyp
  cases hjwk : u.header.get "jwk" with
  | none =>
      rw [hjwk] at hread
      cases hread
  | some value =>
      rw [hjwk] at hread
      obtain ⟨_, -, hread⟩ := Prog.except_bind_ok hread
      obtain ⟨key', hkey, hread⟩ := Prog.except_bind_ok hread
      obtain ⟨claims', hverify, hread⟩ := Prog.except_bind_ok hread
      obtain ⟨rfl, rfl⟩ := Prod.mk.injEq .. |>.mp (Except.ok.inj hread)
      obtain ⟨hsigned, hpayload⟩ := Unverified.verifyWith_ok (not_not.mp htyp) hverify
      unfold DpopVerifier.checkClaims at hcheck
      split_ifs at hcheck with hhtm hhtu hiat
      obtain ⟨_, -, hath⟩ := Prog.except_bind_ok hcheck
      have hdiff : DpopVerifier.absDiff req.now claims'.iat ≤ maxProofAgeSecs := Nat.le_of_not_lt hiat
      unfold DpopVerifier.absDiff at hdiff
      refine ⟨⟨u, value, Unverified.parse_ok hparse, hjwk, Prog.except_mapError_ok hkey, hsigned,
        hpayload⟩, ?_, not_not.mp hhtu, ⟨by omega, by omega⟩, fun token => checkAth_ok hath⟩
      rw [Text.toAsciiLowercase, Text.toAsciiLowercase]
      exact congrArg String.ofList (by simpa [Text.eqIgnoreAsciiCase] using hhtm)

/-! ## The request -/

/-- The store of a request that is only authenticated: it calls no other. -/
def oauthOnly (c : StoreOutcome) (s : OauthStore) :
    (o : XrpcOp L) → Option (o.Ret × OauthStore)
  | .oauth o => some (OauthOp.exec s o c)
  | _ => none

theorem alone_liftOauth {α : Type} (c : StoreOutcome) (p : OauthProg α) (s : OauthStore) :
    (liftOauth p : XrpcProg L α).alone (oauthOnly c) s
      = (p.alone (fun t o => some (OauthOp.exec t o c)) s).map fun r =>
          (r.1.mapError fun _ => XrpcError.invalidToken, r.2) := by
  induction p generalizing s with
  | ret a => rfl
  | fail e => rfl
  | op o k ih => exact ih _ _

/-- The request is what it claims to be: `did` is the subject of the token,
the proof is one for the token and the request, its `jti` is new to the
store, and its key is the one the token names. No other usable key has the
same preimage, and none has the thumbprint in the token unless the hash
takes two preimages to one value. -/
def DpopAuthenticated (cfg : XrpcConfig L) (parts : XrpcParts) (token : String)
    (s : OauthStore) (did : String) : Prop :=
  ∃ access proof key claims, AccessTokenFor cfg token parts.tokenNow access ∧ access.sub = did
    ∧ parts.dpopHeaders = [some proof]
    ∧ ProofFor cfg.oauth.dpop (dpopRequest cfg parts proof token) key claims
    ∧ s.jti.get claims.jti = none
    ∧ access.cnfJkt = key.thumbprint cfg.oauth.dpop.jose
    ∧ ∀ (key' : PublicJwk) alg point, key'.Usable cfg.oauth.dpop.jose alg point →
      (key'.thumbprintPreimage = key.thumbprintPreimage → key'.SameKey key)
      ∧ (key'.thumbprint cfg.oauth.dpop.jose = access.cnfJkt → key'.SameKey key
        ∨ key'.thumbprintPreimage ≠ key.thumbprintPreimage
          ∧ cfg.oauth.dpop.jose.sha256 (Text.bytes key'.thumbprintPreimage)
            = cfg.oauth.dpop.jose.sha256 (Text.bytes key.thumbprintPreimage))

/-- The key of a proof can verify signatures. -/
theorem ProofFor.usable (h : ProofFor v req key claims) :
    ∃ alg point, key.Usable v.jose alg point := by
  obtain ⟨u, -, -, -, -, hsigned, -⟩ := h.signed
  obtain ⟨alg, point, husable, -, -⟩ := hsigned.signature
  exact ⟨alg, point, husable⟩

theorem authenticateDpop_of_parts {parts : XrpcParts} {token proof : String}
    {access : AccessTokenClaims} {verified : DpopProof} {c : StoreOutcome} {s s' : OauthStore}
    (hheaders : parts.dpopHeaders = [some proof])
    (htoken : verifyAccessToken cfg token parts.tokenNow = .ok access)
    (hverify : (liftOauth (cfg.oauth.dpop.verify (dpopRequest cfg parts proof token)) :
      XrpcProg L DpopProof).alone (oauthOnly c) s = some (.ok verified, s'))
    (hjkt : verified.jkt = access.cnfJkt) :
    (authenticateDpop cfg parts token).alone (oauthOnly c) s = some (.ok access.sub, s') := by
  simp only [authenticateDpop, hheaders, htoken, Prog.bind_eq, Prog.ofExcept_ok, Prog.ret_bind,
    Prog.alone_bind_ok hverify, if_neg (not_not_intro hjkt)]
  rfl

/-- **Proof of possession.** Whatever the store, the clock and the strings
of the request are, a request that is let through has a token this server
signed for the DID, and one fresh proof for this very method, URL and
token by the key the token is bound to. -/
theorem dpop_authenticated (laws : cfg.oauth.dpop.jose.Base64Laws) {parts : XrpcParts}
    {token did : String} {c : StoreOutcome} {s s' : OauthStore}
    (h : (authenticateDpop cfg parts token).alone (oauthOnly c) s = some (.ok did, s')) :
    DpopAuthenticated cfg parts token s did := by
  unfold authenticateDpop at h
  split at h
  · cases h
  · cases h
  · rename_i proof hheaders
    cases haccess : verifyAccessToken cfg token parts.tokenNow with
    | error e =>
        rw [haccess] at h
        cases h
    | ok access =>
        rw [haccess] at h
        simp only [Prog.bind_eq, Prog.ofExcept_ok, Prog.ret_bind, Prog.alone_bind,
          alone_liftOauth] at h
        obtain ⟨r, hr, h⟩ := Option.bind_eq_some_iff.mp h
        obtain ⟨⟨x, t⟩, hverify, rfl⟩ := Option.map_eq_some_iff.mp hr
        rcases verify_cases _ hverify with ⟨hfailed, -⟩ | ⟨key, claims, hread, hcheck, hnew, -, rfl⟩
        · cases x with
          | ok p => cases hfailed
          | error e => cases h
        · have hproof : ProofFor cfg.oauth.dpop (dpopRequest cfg parts proof token) key claims :=
            proofFor_of_checks hread hcheck
          obtain ⟨alg, point, husable⟩ := hproof.usable
          simp only [Except.mapError] at h
          split_ifs at h with hjkt
          · cases h
          · obtain ⟨hdid, -⟩ := Prod.mk.injEq .. |>.mp (Option.some.inj h)
            refine ⟨access, proof, key, claims, verifyAccessToken_ok haccess,
              Except.ok.inj hdid, hheaders, hproof, hnew, (not_not.mp hjkt).symm,
              fun key' alg' point' husable' => ⟨fun heq => ?_, fun hthumb => ?_⟩⟩
            · exact PublicJwk.sameKey_of_preimage laws husable' husable heq
            · by_cases heq : key'.thumbprintPreimage = key.thumbprintPreimage
              · exact Or.inl (PublicJwk.sameKey_of_preimage laws husable' husable heq)
              · refine Or.inr ⟨heq, ?_⟩
                have henc := hthumb.trans (not_not.mp hjkt).symm
                rw [PublicJwk.thumbprint_eq, PublicJwk.thumbprint_eq] at henc
                have hdec := congrArg cfg.oauth.dpop.jose.base64urlDecode henc
                rw [laws.decode_encode, laws.decode_encode] at hdec
                exact Option.some.inj hdec
  · cases h

end

/-! ## A request with its proof -/

def segment (text : String) : String := Base64url.encode (Text.bytes text)

def jwtHeader : String := "\x7b\"alg\":\"ES256\",\"typ\":\"at+jwt\"\x7d"

/-- A coordinate of 32 zero bytes. -/
def zeroCoordinate : String := "AAAAAAAAAAAAAAAAAAAAAAAAAAAAAAAAAAAAAAAAAAA"

def zeroJwk : PublicJwk :=
  { sampleJwk with x := zeroCoordinate, y := zeroCoordinate }

def zeroJwkJson : Json :=
  .obj [("kty", .str "EC"), ("crv", .str "P-256"), ("x", .str zeroCoordinate),
    ("y", .str zeroCoordinate)]

def dpopHeader : String :=
  "\x7b\"alg\":\"ES256\",\"typ\":\"dpop+jwt\",\"jwk\":\x7b\"kty\":\"EC\",\"crv\":\"P-256\",\"x\":\""
    ++ zeroCoordinate ++ "\",\"y\":\"" ++ zeroCoordinate ++ "\"\x7d\x7d"

def zeroJkt : String := Base64url.encode ((Text.bytes zeroJwk.thumbprintPreimage).take 32)

def accessPayload : String :=
  "\x7b\"iss\":\"https://pds.test\",\"sub\":\"did:plc:alice\",\"aud\":\"did:web:pds.test\","
    ++ "\"client_id\":\"https://app.test/client.json\",\"scope\":\"atproto\",\"jti\":\"j\","
    ++ "\"iat\":1000,\"exp\":4600,\"cnf\":\x7b\"jkt\":\"" ++ zeroJkt ++ "\"\x7d\x7d"

def possessionToken : String :=
  segment jwtHeader ++ "." ++ segment accessPayload ++ "." ++ segment "s"

def possessionAth : String := Base64url.encode ((Text.bytes possessionToken).take 32)

def possessionClaims : DpopClaims where
  jti := "p1"
  htm := "POST"
  htu := "https://pds.test/xrpc/com.atproto.repo.createRecord"
  iat := 1000
  nonce := some "AAAAAAAAAAM"
  ath := some possessionAth

def proofPayload : String :=
  "\x7b\"jti\":\"p1\",\"htm\":\"POST\","
    ++ "\"htu\":\"https://pds.test/xrpc/com.atproto.repo.createRecord\",\"iat\":1000,"
    ++ "\"nonce\":\"AAAAAAAAAAM\",\"ath\":\"" ++ possessionAth ++ "\"\x7d"

def possessionProof : String :=
  segment dpopHeader ++ "." ++ segment proofPayload ++ "." ++ segment "s"

def jwtHeaderJson : Json := .obj [("alg", .str "ES256"), ("typ", .str "at+jwt")]

def dpopHeaderJson : Json :=
  .obj [("alg", .str "ES256"), ("typ", .str "dpop+jwt"), ("jwk", zeroJwkJson)]

def possessionAccess : AccessTokenClaims := { sampleClaims "atproto" with cnfJkt := zeroJkt }

/-- Base64url is the real one; of JSON, the library reads the headers and
payloads of the one request. -/
def possessionJose : JoseLib where
  base64urlDecode := Base64url.decode
  base64urlEncode := Base64url.encode
  sha256 b := b.take 32
  parseJson b :=
    if b = Text.bytes jwtHeader then some jwtHeaderJson
    else if b = Text.bytes dpopHeader then some dpopHeaderJson
    else none
  parseJwk _ := .ok zeroJwk
  parseDpopClaims b :=
    if b = Text.bytes proofPayload then .ok possessionClaims else .error "not a proof"
  parseAccessTokenClaims b :=
    if b = Text.bytes accessPayload then .ok possessionAccess else .error "not a token"
  ecdsaVerify _ _ _ _ := .ok ()

theorem possessionJose_laws : possessionJose.Base64Laws where
  decode_encode := Base64url.decode_encode
  alphabet _ _ h := Base64url.alphabet_of_decode h

def possessionVerifier : DpopVerifier := ⟨possessionJose, []⟩

def possessionServer : XrpcConfig sampleRepo :=
  { scopeServer with
    oauth := { scopeServer.oauth with dpop := possessionVerifier }
    tokenKey := zeroJwk }

theorem possessionServer_laws : possessionServer.oauth.dpop.jose.Base64Laws :=
  possessionJose_laws

def possessionParts : XrpcParts :=
  { (sampleCreate "atproto").parts with dpopHeaders := [some possessionProof] }

theorem zeroJwk_verify (message signature : Bytes) :
    zeroJwk.verify possessionJose message signature = .ok () := by
  have hpoint : zeroJwk.sec1Uncompressed possessionJose = .ok (0x04 :: List.replicate 64 0) := by
    rfl
  rw [PublicJwk.verify, hpoint]
  rfl

theorem verifyWith_zeroJwk {T : Type} {decode : Bytes → Except String T} {header : Json}
    {payload signature : Bytes} {input : String} {claims : T}
    (halg : header.get "alg" = some (.str "ES256")) (hpayload : decode payload = .ok claims) :
    Unverified.verifyWith possessionJose decode ⟨header, payload, input, signature⟩ zeroJwk
      = .ok claims := by
  have hkey : zeroJwk.algorithm = .ok .es256 := rfl
  have hu : Unverified.alg ⟨header, payload, input, signature⟩ = .ok .es256 := by
    simp only [Unverified.alg, Unverified.headerStr, halg]
    rfl
  rw [Unverified.verifyWith, hkey, hu]
  simp only [bind, Except.bind, zeroJwk_verify, hpayload, Except.mapError, ne_eq,
    not_true_eq_false, if_false]

theorem possession_token :
    verifyAccessToken possessionServer possessionToken 1000 = .ok possessionAccess := by
  have hheader : possessionJose.parseJson (Text.bytes jwtHeader) = some jwtHeaderJson := by
    simp only [possessionJose, if_true]
  have hpayload : possessionJose.parseAccessTokenClaims (Text.bytes accessPayload)
      = .ok possessionAccess := by
    simp only [possessionJose, if_true]
  have hparse : Unverified.parse possessionJose possessionToken = _ :=
    Unverified.parse_compact possessionJose_laws
      (b := Text.bytes accessPayload) (c := Text.bytes "s") hheader
  have halg : jwtHeaderJson.get "alg" = some (.str "ES256") := rfl
  have htyp : ∀ p i s, Unverified.headerStr ⟨jwtHeaderJson, p, i, s⟩ "typ" = some "at+jwt" :=
    fun _ _ _ => rfl
  have hjws : jwsVerify possessionJose possessionJose.parseAccessTokenClaims zeroJwk "at+jwt"
      possessionToken = .ok possessionAccess := by
    rw [jwsVerify, hparse]
    simp only [Except.mapError, bind, Except.bind, htyp, verifyWith_zeroJwk halg hpayload, ne_eq,
      not_true_eq_false, if_false]
  rw [verifyAccessToken]
  change (jwsVerify possessionJose possessionJose.parseAccessTokenClaims zeroJwk "at+jwt"
    possessionToken >>= _) = _
  rw [hjws]
  rfl

theorem possession_proof :
    possessionVerifier.readProof possessionProof = .ok (zeroJwk, possessionClaims) := by
  have hheader : possessionJose.parseJson (Text.bytes dpopHeader) = some dpopHeaderJson := by
    have hne : Text.bytes dpopHeader ≠ Text.bytes jwtHeader := by decide +kernel
    simp only [possessionJose, if_neg hne, if_true]
  have hpayload : possessionJose.parseDpopClaims (Text.bytes proofPayload)
      = .ok possessionClaims := by
    simp only [possessionJose, if_true]
  have hparse : Unverified.parse possessionJose possessionProof = _ :=
    Unverified.parse_compact possessionJose_laws
      (b := Text.bytes proofPayload) (c := Text.bytes "s") hheader
  have halg : dpopHeaderJson.get "alg" = some (.str "ES256") := rfl
  have hjwk : dpopHeaderJson.get "jwk" = some zeroJwkJson := rfl
  have htyp : ∀ p i s, Unverified.headerStr ⟨dpopHeaderJson, p, i, s⟩ "typ" = some "dpop+jwt" :=
    fun _ _ _ => rfl
  have hprivate : PublicJwk.rejectIfPrivate zeroJwkJson = .ok () := rfl
  have hparsed : possessionJose.parseJwk zeroJwkJson = .ok zeroJwk := rfl
  exact readProof_of_parts hparse (htyp _ _ _) hjwk hprivate hparsed
    (verifyWith_zeroJwk halg hpayload)

def possessionRequest : DpopRequest :=
  dpopRequest possessionServer possessionParts possessionProof possessionToken

theorem possession_checks :
    possessionVerifier.checkClaims possessionRequest possessionClaims = .ok () := by
  have hhtu : possessionClaims.htu = possessionRequest.uri := by decide
  refine checkClaims_of_parts (by decide) (congrArg normalizeHtu hhtu) (by decide) ?_ rfl ?_
  · rintro n hn
    obtain rfl := Option.some.inj hn
    decide +kernel
  · rintro token htoken
    obtain rfl := Option.some.inj htoken
    rfl

def possessionVerified : DpopProof where
  jkt := zeroJwk.thumbprint possessionJose
  jti := possessionClaims.jti
  htm := possessionClaims.htm
  htu := possessionClaims.htu
  iat := possessionClaims.iat
  ath := possessionClaims.ath

/-- The store after the request. -/
def possessionStore : OauthStore :=
  { OauthStore.empty with jti := OauthStore.empty.jti.insert "p1" 1300 }

theorem possession_authenticated :
    (authenticateDpop possessionServer possessionParts possessionToken).alone
      (oauthOnly .done) .empty = some (.ok "did:plc:alice", possessionStore)
    ∧ DpopAuthenticated possessionServer possessionParts possessionToken .empty
        "did:plc:alice" := by
  have haccepts : possessionVerifier.Accepts possessionRequest .empty possessionVerified :=
    ⟨zeroJwk, possessionClaims, possession_proof, possession_checks, rfl, rfl⟩
  have hverify : (liftOauth (possessionVerifier.verify possessionRequest) :
      XrpcProg sampleRepo DpopProof).alone (oauthOnly .done) .empty
        = some (.ok possessionVerified, possessionStore) :=
    (alone_liftOauth .done _ _).trans
      (congrArg (Option.map _) (DpopVerifier.alone_verify haccepts))
  have hheaders : possessionParts.dpopHeaders = [some possessionProof] := rfl
  have htoken : verifyAccessToken possessionServer possessionToken possessionParts.tokenNow
      = .ok possessionAccess := possession_token
  have hrun := authenticateDpop_of_parts hheaders htoken hverify rfl
  exact ⟨hrun, dpop_authenticated possessionServer_laws hrun⟩

end Stelyph
