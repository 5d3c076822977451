import Stelyph.AppviewGuard
import Stelyph.Lib.Memo

/-!
# Which URL a service DID names

`identity/service.rs`, and the resolvers of the axum server
(`rust-pds/src/xrpc/appview/resolver.rs`) and of the embedded server
(`resolve_target`). A `did:web` is its own address, a `did:plc` is looked
up in the PLC directory under a service fragment, and what was found is
kept for the life of the process.
-/

namespace Stelyph

open WhatwgUrl

/-! ## The address of a DID -/

def didHostChar (c : Char) : Bool := c.isAlphanum || c == '.' || c == '-'

/-- The service of a host that is its own DID: every character has to be
one of a host's, and the URL is made of the rest. -/
def didWebEndpoint (did : String) : Except String String :=
  match Text.stripPrefix did "did:web:" with
  | none => .error "not a did:web"
  | some host =>
      if host.isEmpty || !(host.toList.all didHostChar) then
        .error s!"unsupported did:web host: {host}"
      else .ok s!"https://{host}"

/-- The first service under the fragment that has a text for its endpoint. -/
def serviceEndpointFromDoc (doc : Json) (did fragment : String) : Option String := do
  let services ← (doc.field "service").asArr
  services.findSome? fun svc => do
    let ident ← (svc.field "id").asStr
    if ident = s!"#{fragment}" ∨ ident = s!"{did}#{fragment}" then
      (svc.field "serviceEndpoint").asStr
    else none

/-! ## Operations -/

/-- The two ways in which a document is not there. -/
inductive FetchFault where
  | send (e : String)
  | decode (e : String)
deriving DecidableEq, Repr

/-- A request that leaves the server, with the token it carries; a GET has no body. -/
structure SentRequest where
  method : ProxyMethod
  url : String
  body : Option Bytes
  contentType : Option String
  bearer : String
  acceptLabelers : Option String
deriving DecidableEq, Repr

inductive SendFault where
  | send (e : String)
  | body (e : String)
deriving DecidableEq, Repr

inductive ForwardOp (L : RepoLib) where
  /-- Every call of a handler but the resolver's and the client's. -/
  | call (o : XrpcOp L)
  | fetchDoc (url : String)
  | send (r : SentRequest)

abbrev ForwardOp.Ret {L : RepoLib} : ForwardOp L → Type
  | .call o => o.Ret
  | .fetchDoc _ => Except FetchFault Json
  | .send _ => Except SendFault UpstreamResponse

abbrev forwardSig (L : RepoLib) : Sig := ⟨ForwardOp L, ForwardOp.Ret⟩

/-- With the table of the endpoints found so far. -/
abbrev resolverSig (L : RepoLib) : Sig := cachedSig (forwardSig L) String String

/-! ## The resolvers -/

section

variable {L : RepoLib} {ε : Type}

/-- The lookup behind the table; the errors are each server's own. -/
def fetchEndpoint (invalid : String → ε) (upstream : FetchFault → ε)
    (plcUrl did fragment : String) : Prog (forwardSig L) ε String :=
  .op (S := forwardSig L) (.fetchDoc s!"{plcUrl}/{did}") fun r => do
    let doc ← Prog.ofExcept upstream r
    match serviceEndpointFromDoc doc did fragment with
    | none => .fail (invalid s!"no #{fragment} service on {did}")
    | some endpoint => return endpoint

def resolveDid (invalid : String → ε) (upstream : FetchFault → ε)
    (plcUrl did fragment : String) : Prog (resolverSig L) ε String :=
  if Text.startsWith did "did:web:" then Prog.ofExcept invalid (didWebEndpoint did)
  else if !Text.startsWith did "did:plc:" then
    .fail (invalid s!"unsupported proxy DID method: {did}")
  else memo s!"{did}#{fragment}" (fetchEndpoint invalid upstream plcUrl did fragment)

def plcError : FetchFault → XrpcError
  | .send e => .upstreamFailure s!"plc fetch failed: {e}"
  | .decode e => .upstreamFailure s!"plc doc decode failed: {e}"

/-- `ReqwestServiceDidResolver::resolve`. -/
def resolve (plcUrl did fragment : String) : Prog (resolverSig L) XrpcError String :=
  resolveDid .invalidRequest plcError plcUrl did fragment

end

/-! ## What an address is -/

theorem didHostChar_plain {c : Char} (h : didHostChar c = true) :
    endsAuthority c = false ∧ isBlank c = false := by
  have hne : ∀ d, didHostChar d = false → c ≠ d := fun d hd heq => by
    rw [heq, hd] at h
    cases h
  refine ⟨?_, ?_⟩
  · simp [endsAuthority, isSlash, hne '/' (by decide), hne '\\' (by decide), hne '?' (by decide),
      hne '#' (by decide)]
  · simp only [didHostChar, Bool.or_eq_true, beq_iff_eq] at h
    rcases h with (h | rfl) | rfl
    · rw [Text.isAlphanum_iff, Text.isUpper_iff, Text.isLower_iff, Text.isDigit_iff] at h
      simp only [isBlank, decide_eq_false_iff_not]
      omega
    · decide
    · decide

theorem eq_append_of_stripPrefix {s p t : String} (h : Text.stripPrefix s p = some t) :
    s = p ++ t := by
  rw [Text.stripPrefix] at h
  split_ifs at h with hpre
  obtain ⟨rest, hrest⟩ := List.isPrefixOf_iff_prefix.mp hpre
  obtain rfl := Option.some.inj h
  rw [← String.toList_inj, String.toList_append, String.toList_ofList, ← hrest, List.drop_left]

/-- A `did:web` that is taken is a host of plain characters, to be asked
over `https`. -/
theorem didWebEndpoint_eq_ok_iff {did base : String} : didWebEndpoint did = .ok base
    ↔ ∃ host : String, did = "did:web:" ++ host ∧ host.toList ≠ []
      ∧ (∀ c ∈ host.toList, didHostChar c = true) ∧ base = "https://" ++ host := by
  have hempty : ∀ host : String, host.isEmpty = true ↔ host.toList = [] := fun host => by
    rw [String.isEmpty_iff, String.toList_eq_nil_iff]
  constructor
  · intro h
    rw [didWebEndpoint] at h
    cases hstrip : Text.stripPrefix did "did:web:" with
    | none =>
        rw [hstrip] at h
        cases h
    | some host =>
        rw [hstrip] at h
        dsimp only at h
        split_ifs at h with hcond
        rw [Bool.or_eq_true, not_or, hempty, Bool.not_eq_true', Bool.not_eq_false,
          List.all_eq_true] at hcond
        exact ⟨host, eq_append_of_stripPrefix hstrip, hcond.1, hcond.2, (Except.ok.inj h).symm⟩
  · rintro ⟨host, rfl, hne, hchars, rfl⟩
    rw [didWebEndpoint, Text.stripPrefix_append]
    dsimp only
    rw [if_neg]
    · rfl
    · rw [Bool.or_eq_true, not_or, hempty, Bool.not_eq_true', Bool.not_eq_false, List.all_eq_true]
      exact ⟨hne, hchars⟩

theorem PlainHost.of_didHost {host : List Char} (hne : host ≠ [])
    (h : ∀ c ∈ host, didHostChar c = true) : PlainHost host :=
  ⟨hne, fun c hc => ⟨(didHostChar_plain (h c hc)).1,
    not_isTabOrNewline (didHostChar_plain (h c hc)).2⟩⟩

theorem upstreamUrl_web (host nsid query : String) :
    upstreamUrl ("https://" ++ host) nsid query
      = String.ofList ("https".toList ++ ':' :: '/' :: '/' :: (host.toList ++ '/' ::
          (("xrpc".toList ++ '/' :: nsid.toList)
            ++ if query.toList.isEmpty then [] else '?' :: query.toList))) := by
  have hempty : query.isEmpty = query.toList.isEmpty := by
    rw [Bool.eq_iff_iff, String.isEmpty_iff, List.isEmpty_iff, String.toList_eq_nil_iff]
  have hscheme : "https://".toList = "https".toList ++ [':', '/', '/'] := by decide
  have hxrpc : "/xrpc/".toList = '/' :: ("xrpc".toList ++ ['/']) := by decide
  have hmark : "?".toList = ['?'] := by decide
  rw [← String.toList_inj, String.toList_ofList, upstreamUrl, hempty]
  split
  · simp only [toString, String.toList_append, hscheme, hxrpc, List.append_assoc, List.cons_append,
      List.nil_append, List.append_nil]
  · simp only [toString, String.toList_append, hscheme, hxrpc, hmark, List.append_assoc,
      List.cons_append, List.nil_append]

/-- What the HTTP library promises of a path, and of a query. -/
structure UriText (nsid query : String) : Prop where
  nsid : ∀ c ∈ nsid.toList, isBlank c = false ∧ endsPath c = false
  query : ∀ c ∈ query.toList, isBlank c = false ∧ c ≠ '#'

theorem parseInput_upstream_web {host : String} (hne : host.toList ≠ [])
    (hhost : ∀ c ∈ host.toList, didHostChar c = true) {nsid query : String}
    (huri : UriText nsid query) :
    parseInput (upstreamUrl ("https://" ++ host) nsid query)
      = some { scheme := "https", authority := host.toList
               path := parsePath (serializePath (["xrpc".toList] ++ [nsid.toList]))
               query := if query.toList.isEmpty then none else some (encode querySet query.toList)
               fragment := none } := by
  have hpath : ∀ c ∈ "xrpc".toList ++ '/' :: nsid.toList,
      isBlank c = false ∧ endsPath c = false := by
    have hxrpc : ∀ c ∈ "xrpc".toList, isBlank c = false ∧ endsPath c = false :=
      Text.forall_mem_of_all (by decide)
    intro c hc
    rcases List.mem_append.mp hc with hc | hc
    · exact hxrpc c hc
    · rcases List.mem_cons.mp hc with rfl | hc
      · decide
      · exact huri.nsid c hc
  have hserial : '/' :: ("xrpc".toList ++ '/' :: nsid.toList)
      = serializePath (["xrpc".toList] ++ [nsid.toList]) := by
    simp [serializePath]
  rw [upstreamUrl_web, parseInput_path_query (PlainHost.of_didHost hne hhost) hpath huri.query,
    hserial]

/-- **A `did:web` is asked at its own host.** Whatever the method's name,
the authority of the URL is the DID's host and nothing else; the path is
the one of the method exactly where the name is one plain segment. -/
theorem upstream_web_iff {did base : String} (h : didWebEndpoint did = .ok base)
    {nsid query : String} (huri : UriText nsid query) :
    (∃ url, parseInput (upstreamUrl base nsid query) = some url ∧ url.scheme = "https"
        ∧ did.toList = "did:web:".toList ++ url.authority)
      ∧ (parseInput (upstreamUrl base nsid query) = some
          { scheme := "https", authority := did.toList.drop 8
            path := ["xrpc".toList, nsid.toList].map (encode pathSet)
            query := if query.toList.isEmpty then none
              else some (encode querySet query.toList)
            fragment := none }
        ↔ PlainSegment nsid.toList) := by
  obtain ⟨host, rfl, hne, hchars, rfl⟩ := didWebEndpoint_eq_ok_iff.mp h
  have hparse := parseInput_upstream_web hne hchars huri
  have hxrpc : ∀ seg ∈ ["xrpc".toList], PlainSegment seg := by
    intro seg hseg
    rw [List.mem_singleton.mp hseg]
    exact ⟨Text.forall_mem_of_all (by decide), by decide⟩
  have hdrop : ("did:web:" ++ host).toList.drop 8 = host.toList := by
    rw [String.toList_append]
    rfl
  refine ⟨⟨_, hparse, rfl, String.toList_append⟩, ?_⟩
  rw [hparse, hdrop, Option.some.injEq, WebUrl.mk.injEq]
  have hpath : parsePath (serializePath (["xrpc".toList] ++ [nsid.toList]))
      = ["xrpc".toList, nsid.toList].map (encode pathSet) ↔ PlainSegment nsid.toList := by
    refine (parsePath_append_iff hxrpc nsid.toList).trans (Iff.intro ?_ fun hplain => ?_)
    · rintro ⟨hslash, hdown⟩
      exact ⟨fun c hc => ⟨hslash c hc, (huri.nsid c hc).2, not_isTabOrNewline (huri.nsid c hc).1⟩,
        hdown⟩
    · exact ⟨fun c hc => (hplain.chars c hc).1, hplain.down⟩
  rw [hpath]
  exact ⟨fun hall => hall.2.2.1, fun hplain => ⟨rfl, rfl, hplain, rfl, rfl⟩⟩

/-- A backslash in the name leads to another path, at the same host. -/
theorem upstream_web_backslash :
    ¬ parseInput (upstreamUrl "https://api.bsky.app" "a\\..\\b" "") = some
      { scheme := "https", authority := "did:web:api.bsky.app".toList.drop 8
        path := ["xrpc".toList, "a\\..\\b".toList].map (encode pathSet)
        query := if "".toList.isEmpty then none else some (encode querySet "".toList)
        fragment := none } := by
  have hdid : didWebEndpoint "did:web:api.bsky.app" = .ok "https://api.bsky.app" := by rfl
  have huri : UriText "a\\..\\b" "" :=
    ⟨Text.forall_mem_of_all (by decide), Text.forall_mem_of_all (by decide)⟩
  rw [(upstream_web_iff hdid huri).2]
  exact fun h => absurd (h.chars '\\' (by decide)).1 (by decide)

end Stelyph
