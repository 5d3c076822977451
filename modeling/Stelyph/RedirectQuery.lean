import Stelyph.Authorize
import Stelyph.LiveToken
import Stelyph.Lib.Form
import Stelyph.Lib.Rfc3986

/-!
# Authorization responses in the redirect

`append_query` and `urlencode` of `xrpc/oauth/authorize.rs`. What is
appended is read back as exactly the parameters, whatever characters they
hold (`decode_urlencode`, `parse_encodedParams`). The registered redirect
URI is a string that is compared and never parsed: where it has a
fragment, the parameters are appended to that, and the client's query has
none of them (`responses_intact_iff`).
-/

namespace Stelyph

/-! ## One parameter -/

/-- What one octet becomes. -/
def urlencodeOctet (b : UInt8) : List Char :=
  if unreserved b then [Char.ofUInt8 b] else Percent.encodeOctet b

theorem toList_urlencode (s : String) :
    (urlencode s).toList = (Text.bytes s).flatMap urlencodeOctet := by
  rw [urlencode, String.toList_ofList]
  congr 1
  funext b
  have hlt := b.toNat_lt
  have hdigits : '%' :: Text.digits (fun n => "0123456789ABCDEF".toList.getD n '0') 16 2 b.toNat
      = Percent.encodeOctet b := by
    simp only [Text.digits, Percent.encodeOctet, Percent.digit, List.nil_append, List.cons_append]
    rw [Nat.mod_eq_of_lt (show b.toNat / 16 < 16 by omega)]
  rw [urlencodeOctet, hdigits]

theorem toNat_unreserved {b : UInt8} (h : unreserved b = true) :
    (Char.ofUInt8 b).toNat = b.toNat ∧ b.toNat < 128 := by
  have hall : ∀ n : Fin 256, unreserved (UInt8.ofNat n.val) = true →
      (Char.ofUInt8 (UInt8.ofNat n.val)).toNat = n.val ∧ n.val < 128 := by decide +kernel
  have := hall ⟨b.toNat, b.toNat_lt⟩
  simp only [UInt8.ofNat_toNat] at this
  exact this h

/-- The characters that separate the parts of a query. -/
def delimiter (c : Char) : Bool := c == '&' || c == '=' || c == '+' || c == '#' || c == '?'

theorem urlencodeOctet_plain (b : UInt8) :
    ∀ c ∈ urlencodeOctet b, c.toNat < 128 ∧ delimiter c = false := by
  have hall : ∀ n : Fin 256, ((urlencodeOctet (UInt8.ofNat n.val)).all fun c =>
      decide (c.toNat < 128 ∧ delimiter c = false)) = true := by decide +kernel
  have := Text.forall_mem_of_all (hall ⟨b.toNat, b.toNat_lt⟩)
  simp only [UInt8.ofNat_toNat] at this
  exact this

theorem urlencode_plain (s : String) :
    ∀ c ∈ (urlencode s).toList, c.toNat < 128 ∧ delimiter c = false := by
  intro c hc
  rw [toList_urlencode] at hc
  obtain ⟨b, -, hb⟩ := List.mem_flatMap.mp hc
  exact urlencodeOctet_plain b c hb

theorem decode_urlencodeOctet (b : UInt8) (rest : List UInt8) :
    Percent.decode ((urlencodeOctet b).map (fun c => UInt8.ofNat c.toNat) ++ rest)
      = b :: Percent.decode rest := by
  unfold urlencodeOctet
  split
  · rename_i hb
    have hne : b ≠ 0x25 := by
      rintro rfl
      cases hb
    show Percent.decode (UInt8.ofNat (Char.ofUInt8 b).toNat :: rest) = _
    rw [(toNat_unreserved hb).1, UInt8.ofNat_toNat]
    exact Percent.decodeWith_cons hne rest
  · exact Percent.decode_encodeOctet b rest

theorem bytes_urlencode (s : String) :
    Text.bytes (urlencode s)
      = (Text.bytes s).flatMap fun b => (urlencodeOctet b).map fun c => UInt8.ofNat c.toNat := by
  have h := Utf8.bytes_ofList_ascii fun c hc => (urlencode_plain s c hc).1
  rw [String.ofList_toList] at h
  rw [h, toList_urlencode, List.map_flatMap]

/-- Decoding gives the text back. -/
theorem decode_urlencode (s : String) :
    Percent.decode (Text.bytes (urlencode s)) = Text.bytes s := by
  rw [bytes_urlencode]
  induction Text.bytes s with
  | nil => rfl
  | cons b bs ih => rw [List.flatMap_cons, decode_urlencodeOctet, ih]

theorem not_mem_urlencode {c : Char} (hc : delimiter c = true) (s : String) :
    c ∉ (urlencode s).toList := by
  intro hmem
  rw [(urlencode_plain s c hmem).2] at hc
  cases hc

theorem form_decode_urlencode (s : String) : Form.decode (urlencode s) = s := by
  have hkept : ∀ b ∈ Text.bytes (urlencode s), Form.plusToSpace b = b := by
    intro b hb
    rw [bytes_urlencode, ← List.map_flatMap, ← toList_urlencode] at hb
    obtain ⟨c, hc, rfl⟩ := List.mem_map.mp hb
    obtain ⟨hlt, hplain⟩ := urlencode_plain s c hc
    refine if_neg fun hplus => ?_
    have hnat := congrArg UInt8.toNat hplus
    rw [UInt8.toNat_ofNat', Nat.mod_eq_of_lt (by omega)] at hnat
    have hc' : c = '+' := Char.toNat_inj.mp hnat
    rw [hc'] at hplain
    cases hplain
  rw [Form.decode, List.map_congr_left hkept, List.map_id', decode_urlencode, Utf8.lossy_bytes]

/-! ## All parameters -/

def encodedParam (p : String × String) : List Char :=
  (urlencode p.1).toList ++ '=' :: (urlencode p.2).toList

/-- The parameters with ampersands between them. -/
def encodedParams : List (String × String) → List Char
  | [] => []
  | [p] => encodedParam p
  | p :: ps => encodedParam p ++ '&' :: encodedParams ps

theorem not_mem_encodedParam {c : Char} (hc : delimiter c = true) (hne : c ≠ '=')
    (p : String × String) : c ∉ encodedParam p := by
  rw [encodedParam, List.mem_append, List.mem_cons, not_or, not_or]
  exact ⟨not_mem_urlencode hc p.1, hne, not_mem_urlencode hc p.2⟩

theorem parse_encodedParam (p : String × String) : Form.parse (String.ofList (encodedParam p)) = [p] := by
  have hne : encodedParam p ≠ [] := by
    rw [encodedParam]
    exact List.append_ne_nil_of_right_ne_nil _ (List.cons_ne_nil _ _)
  rw [Form.parse, Form.pieces_single hne (not_mem_encodedParam rfl (by decide) p), List.map_singleton,
    encodedParam, Form.pair_of_eq (not_mem_urlencode rfl p.1), String.ofList_toList,
    String.ofList_toList, form_decode_urlencode, form_decode_urlencode]

/-- The parameters are read back, in order. -/
theorem parse_encodedParams : ∀ ps : List (String × String),
    Form.parse (String.ofList (encodedParams ps)) = ps
  | [] => rfl
  | [p] => parse_encodedParam p
  | p :: q :: ps => by
      show Form.parse (String.ofList (encodedParam p ++ '&' :: encodedParams (q :: ps))) = _
      rw [Form.parse_append, parse_encodedParam, parse_encodedParams (q :: ps)]
      rfl

theorem toList_appendParams (url : String) (sep : Char) (p : String × String)
    (ps : List (String × String)) :
    (appendParams url sep (p :: ps)).toList = url.toList ++ sep :: encodedParams (p :: ps) := by
  induction ps generalizing url sep p with
  | nil => simp [appendParams, encodedParams, encodedParam, String.toList_push]
  | cons q ps ih =>
      rw [appendParams, ih]
      simp [encodedParams, encodedParam, String.toList_push]

theorem toList_appendQuery (base : String) (p : String × String) (ps : List (String × String)) :
    (appendQuery base (p :: ps)).toList
      = base.toList ++ (if '?' ∈ base.toList then '&' else '?') :: encodedParams (p :: ps) := by
  rw [appendQuery, toList_appendParams]
  simp only [List.contains_iff_mem]

theorem not_mem_encodedParams {c : Char} (hc : delimiter c = true) (heq : c ≠ '=') (hamp : c ≠ '&') :
    ∀ ps : List (String × String), c ∉ encodedParams ps
  | [] => by simp [encodedParams]
  | [p] => not_mem_encodedParam hc heq p
  | p :: q :: ps => by
      show c ∉ encodedParam p ++ '&' :: encodedParams (q :: ps)
      rw [List.mem_append, List.mem_cons, not_or, not_or]
      exact ⟨not_mem_encodedParam hc heq p, hamp, not_mem_encodedParams hc heq hamp (q :: ps)⟩

/-! ## The response -/

/-- The pairs of the query. -/
def queryPairs (url : String) : List (String × String) :=
  ((Uri.split url).query.map Form.parse).getD []

/-- The client is sent where it asked to be, with its own pairs and the
parameters behind them. -/
structure ResponseIntact (base : String) (params : List (String × String)) : Prop where
  scheme : (Uri.split (appendQuery base params)).scheme = (Uri.split base).scheme
  authority : (Uri.split (appendQuery base params)).authority = (Uri.split base).authority
  path : (Uri.split (appendQuery base params)).path = (Uri.split base).path
  pairs : queryPairs (appendQuery base params) = queryPairs base ++ params

/-- Scheme, authority and path are read off what stands before the query. -/
theorem ResponseIntact.of_hierarchy {base : String} {params : List (String × String)}
    (h : (Uri.hierarchy (appendQuery base params)).1 = (Uri.hierarchy base).1)
    (hpairs : queryPairs (appendQuery base params) = queryPairs base ++ params) :
    ResponseIntact base params := by
  refine ⟨?_, ?_, ?_, hpairs⟩ <;> simp only [Uri.split, h]

theorem hierarchy_of_no_hash {s : String} {cs : List Char} (hs : s.toList = cs) (h : '#' ∉ cs) :
    Uri.hierarchy s = Uri.cut '?' cs := by
  rw [Uri.hierarchy, hs, Uri.cut_of_not_mem h]

theorem queryPairs_eq {s : String} {hier : List Char} {query : Option (List Char)}
    (h : Uri.hierarchy s = (hier, query)) :
    queryPairs s = (query.map fun q => Form.parse (String.ofList q)).getD [] := by
  simp only [queryPairs, Uri.split, h]
  cases query <;> rfl

/-- Without a fragment the parameters are behind the pairs that are
there. -/
theorem intact_of_no_hash {base : String} (h : '#' ∉ base.toList) (p : String × String)
    (ps : List (String × String)) : ResponseIntact base (p :: ps) := by
  have htail : '#' ∉ encodedParams (p :: ps) :=
    not_mem_encodedParams rfl (by decide) (by decide) _
  have hlist := toList_appendQuery base p ps
  have hwhole : '#' ∉ base.toList
      ++ (if '?' ∈ base.toList then '&' else '?') :: encodedParams (p :: ps) := by
    rw [List.mem_append, List.mem_cons, not_or, not_or]
    refine ⟨h, ?_, htail⟩
    split <;> decide
  have hresult := hierarchy_of_no_hash hlist hwhole
  have hbase := hierarchy_of_no_hash rfl h
  by_cases hq : '?' ∈ base.toList
  · obtain ⟨hier, query, hsplit, hfirst⟩ := List.eq_append_cons_of_mem hq
    rw [if_pos hq, hsplit, List.append_assoc, List.cons_append, Uri.cut_append_cons hfirst] at hresult
    rw [hsplit, Uri.cut_append_cons hfirst] at hbase
    refine .of_hierarchy (by rw [hresult, hbase]) ?_
    rw [queryPairs_eq hresult, queryPairs_eq hbase]
    show Form.parse (String.ofList (query ++ '&' :: encodedParams (p :: ps))) = _
    rw [Form.parse_append, parse_encodedParams]
    rfl
  · rw [if_neg hq, Uri.cut_append_cons hq] at hresult
    rw [Uri.cut_of_not_mem hq] at hbase
    refine .of_hierarchy (by rw [hresult, hbase]) ?_
    rw [queryPairs_eq hresult, queryPairs_eq hbase]
    show Form.parse (String.ofList (encodedParams (p :: ps))) = _
    rw [parse_encodedParams]
    rfl

/-- What is appended to a fragment is fragment. -/
theorem hierarchy_of_hash {base : String} (h : '#' ∈ base.toList) (p : String × String)
    (ps : List (String × String)) :
    Uri.hierarchy (appendQuery base (p :: ps)) = Uri.hierarchy base := by
  obtain ⟨before, fragment, hsplit, hfirst⟩ := List.eq_append_cons_of_mem h
  rw [Uri.hierarchy, Uri.hierarchy, toList_appendQuery, hsplit, List.append_assoc,
    List.cons_append, Uri.cut_append_cons hfirst, Uri.cut_append_cons hfirst]

/-- Every parameter is encoded so that it decodes to what it was. The
response reaches the client as it was built unless the redirect URI has a
fragment: then what is appended goes behind the `#`. -/
theorem responses_intact_iff (base : String) (params : List (String × String)) :
    (∀ s : String, Percent.decode (Text.bytes (urlencode s)) = Text.bytes s)
    ∧ (ResponseIntact base params ↔ '#' ∉ base.toList ∨ params = []) := by
  refine ⟨decode_urlencode, ?_⟩
  cases params with
  | nil =>
      refine ⟨fun _ => Or.inr rfl, fun _ => .of_hierarchy rfl ?_⟩
      rw [List.append_nil]
      rfl
  | cons p ps =>
      constructor
      · intro hintact
        refine Or.inl fun hhash => ?_
        have hsame : queryPairs (appendQuery base (p :: ps)) = queryPairs base := by
          simp only [queryPairs, Uri.split, hierarchy_of_hash hhash p ps]
        have hpairs := hintact.pairs
        rw [hsame, List.self_eq_append_right] at hpairs
        cases hpairs
      · rintro (hhash | hnil)
        · exact intact_of_no_hash hhash p ps
        · cases hnil

theorem plainCallback_intact :
    ResponseIntact "https://app.test/callback?x=1" [("code", "a&b"), ("state", "s #1")] :=
  (responses_intact_iff _ _).2.mpr (Or.inl (by decide))

/-! ### A redirect URI with a fragment -/

def fragmentMetadata : ClientMetadata where
  clientId := "https://app.test/client"
  clientName := none
  redirectUris := ["https://app.test/callback#signin"]
  grantTypes := ["authorization_code", "refresh_token"]
  responseTypes := ["code"]
  scope := "atproto"
  tokenEndpointAuthMethod := "none"
  dpopBoundAccessTokens := true
  jwksUri := none
  jwks := none

def fragmentClient : ClientId := .web {
  text := "https://app.test/client", scheme := "https", username := "", password := none
  host := some (.domain "app.test"), port := none, path := "/client", query := none
  queryPairs := [], fragment := none }

def fragmentRequest : PushedRequest where
  clientId := "https://app.test/client"
  responseType := "code"
  redirectUri := some "https://app.test/callback#signin"
  scope := some "atproto"
  state := some "s1"
  codeChallenge := some sampleCodeVerifier
  codeChallengeMethod := some "S256"
  loginHint := none

/-- It is registered, asked for and stored, and the code is not in its
query. -/
theorem code_in_fragment :
    fragmentMetadata.validate fragmentClient = .ok ()
    ∧ ((fragmentRequest.validate sampleOauth.dpop.jose sampleOauth.hashSecret fragmentClient
        fragmentMetadata none "p0" 1000).toOption.map fun r => r.stored.redirectUri)
      = some "https://app.test/callback#signin"
    ∧ ¬ ResponseIntact "https://app.test/callback#signin"
        [("code", "c0"), ("state", "s1"), ("iss", "https://pds.test")] := by
  refine ⟨by decide +kernel, by decide +kernel, fun h => ?_⟩
  have hpairs := h.pairs
  have hnone : queryPairs (appendQuery "https://app.test/callback#signin"
      [("code", "c0"), ("state", "s1"), ("iss", "https://pds.test")]) = [] := by
    simp only [queryPairs, Uri.split, hierarchy_of_hash (show
      '#' ∈ "https://app.test/callback#signin".toList by decide)]
    decide
  rw [hnone] at hpairs
  exact List.append_ne_nil_of_right_ne_nil _ (List.cons_ne_nil _ _) hpairs.symm

end Stelyph
