import Stelyph.CrawlGuard
import Stelyph.Lib.UrlBase
import Stelyph.XrpcAuth

/-!
# The guard in front of another service

`validate_appview_url` (`rust-pds/src/xrpc/appview/client.rs`) looks at a
service's base URL before a request is sent to it. It has more to say
about IPv6 addresses than the guard in front of a relay, and says it of
no URL: the two guards pass the same ones (`validateAppviewUrl_iff`).

What is requested is not the base but a longer text. The guard speaks for
that text too (`guard_covers_request`).
-/

namespace Stelyph

open WhatwgUrl

/-! ## The guard -/

def blockedV4 (ip : Ipv4Addr) : Bool :=
  ip.isLoopback || ip.isPrivate || ip.isLinkLocal || (ip.a == 169 && ip.b == 254)

def blockedUpstreamIp : IpAddr → Bool
  | .v4 ip => blockedV4 ip
  | .v6 ip =>
      match ip.toIpv4Mapped with
      | some v4 => blockedV4 v4
      | none => ip.isLoopback || ip.isUnspecified || ip.isUniqueLocal || ip.isUnicastLinkLocal

/-- The guard on a URL that another service's document names: https, a
host, and none that leads inside, by its address or by its name. -/
def validateAppviewUrl (parseUrl : String → Except String RelayUrl) (url : String) :
    Except XrpcError Unit := do
  let parsed ← (parseUrl url).mapError fun e => .upstreamFailure s!"invalid upstream url: {e}"
  if parsed.scheme ≠ "https" then
    .error (.upstreamFailure s!"upstream url must be an https:// URL, got: {url}")
  else match parsed.host with
    | none => .error (.upstreamFailure "upstream url missing host")
    | some host =>
      match parseIpAddr host.text with
      | some ip =>
        if blockedUpstreamIp ip then .error (.upstreamFailure "upstream host not allowed")
        else .ok ()
      | none =>
        if blockedName host.text then .error (.upstreamFailure "upstream host not allowed")
        else .ok ()

/-- **One guard.** A service's URL passes exactly where a relay's would:
no host is read as an IPv6 address, so nothing more is blocked here. -/
theorem validateAppviewUrl_iff (parseUrl : String → Except String RelayUrl) (url : String) :
    validateAppviewUrl parseUrl url = .ok () ↔ validateRelayUrl parseUrl url = .ok () := by
  have hguard : ∀ {c : Bool} {e e' : XrpcError},
      (if c then (.error e : Except XrpcError Unit) else .ok ()) = .ok ()
        ↔ (if c then (.error e' : Except XrpcError Unit) else .ok ()) = .ok () := by
    intro c e e'
    cases c <;> simp
  rw [validateAppviewUrl, validateRelayUrl]
  cases parseUrl url with
  | error e => exact iff_of_false (fun h => by cases h) fun h => by cases h
  | ok parsed =>
      obtain ⟨scheme, host⟩ := parsed
      change (if scheme ≠ "https" then _ else _) = _ ↔ (if scheme ≠ "https" then _ else _) = _
      by_cases hscheme : scheme = "https"
      · rw [if_neg (not_not_intro hscheme), if_neg (not_not_intro hscheme)]
        cases host with
        | none => exact iff_of_false (fun h => by cases h) fun h => by cases h
        | some host =>
            dsimp only
            rw [parseIpAddr_host]
            cases host with
            | domain name => exact hguard
            | ipv4 ip => exact hguard
            | ipv6 ip => exact hguard
      · rw [if_pos hscheme, if_pos hscheme]
        exact iff_of_false (fun h => by cases h) fun h => by cases h

/-! ## The text that is requested -/

/-- The URL `proxy_request` sends to: base, method and the client's query
pasted together as text. -/
def upstreamUrl (baseUrl nsid query : String) : String :=
  let url := s!"{baseUrl}/xrpc/{nsid}"
  if query.isEmpty then url else url ++ "?" ++ query

/-- What the guard relies on of `Url::parse`: the scheme of an http or
https URL and its authority are those of its text, an https URL has a
host, that is a matter of its authority alone, and the host or the port
at the end of the authority ends in no blank. -/
structure UrlLaws (parseUrl : String → Except String RelayUrl)
    (hostOf : List Char → Option Host) : Prop where
  scheme : ∀ {s u w}, parseUrl s = .ok u → parseInput s = some w → u.scheme = w.scheme
  https : ∀ {s u}, parseUrl s = .ok u → u.scheme = "https" →
    ∃ w, parseInput s = some w ∧ w.authority ≠ [] ∧ hostOf w.authority = u.host
      ∧ ∀ c, w.authority.getLast? = some c → isBlank c = false

theorem upstreamUrl_eq (baseUrl nsid query : String) :
    ∃ t, upstreamUrl baseUrl nsid query = String.ofList (baseUrl.toList ++ '/' :: t) := by
  have hxrpc : "/xrpc/".toList = '/' :: "xrpc/".toList := by decide
  have happend : ∀ s t : String, (s ++ t).toList = s.toList ++ t.toList := fun _ _ =>
    String.toList_append
  have hbase : s!"{baseUrl}/xrpc/{nsid}"
      = String.ofList (baseUrl.toList ++ '/' :: ("xrpc/".toList ++ nsid.toList)) := by
    rw [← String.toList_inj, String.toList_ofList]
    simp only [toString, happend, hxrpc, List.append_assoc, List.cons_append]
  rw [upstreamUrl, hbase]
  split
  · exact ⟨_, rfl⟩
  · refine ⟨"xrpc/".toList ++ nsid.toList ++ "?".toList ++ query.toList, ?_⟩
    rw [← String.toList_inj]
    simp only [happend, String.toList_ofList, List.append_assoc, List.cons_append]

/-- **The guard covers the request.** Where the base passes, the URL that
is requested has the base's host if it is a URL at all, and passes as
well, whatever the method's name and the query are. -/
theorem guard_covers_request {parseUrl : String → Except String RelayUrl}
    {hostOf : List Char → Option Host} (laws : UrlLaws parseUrl hostOf)
    {baseUrl nsid query : String} {url : RelayUrl}
    (hguard : validateAppviewUrl parseUrl baseUrl = .ok ())
    (hrequest : parseUrl (upstreamUrl baseUrl nsid query) = .ok url) :
    parseUrl baseUrl = .ok url
      ∧ validateAppviewUrl parseUrl (upstreamUrl baseUrl nsid query) = .ok () := by
  rw [validateAppviewUrl_iff, validateRelayUrl_eq_ok_iff] at hguard
  obtain ⟨host, hbase, hstop⟩ := hguard
  obtain ⟨w, hw, hne, hhost, -⟩ := laws.https hbase rfl
  have hscheme := laws.scheme hbase hw
  obtain ⟨t, ht⟩ := upstreamUrl_eq baseUrl nsid query
  obtain ⟨v, hv, hvscheme, hauth⟩ := parseInput_append hw hne t
  rw [← ht] at hv
  have hurl : url.scheme = "https" := by rw [laws.scheme hrequest hv, hvscheme, ← hscheme]
  obtain ⟨v', hv', -, hvhost, hlast⟩ := laws.https hrequest hurl
  obtain rfl := Option.some.inj (hv.symm.trans hv')
  have hsame : v.authority = w.authority := by
    rcases hauth with h | ⟨-, c, hc, hblank⟩
    · exact h
    · rw [hlast c hc] at hblank
      cases hblank
  obtain ⟨scheme, host'⟩ := url
  obtain rfl : scheme = "https" := hurl
  obtain rfl : host' = some host := hvhost.symm.trans (hsame ▸ hhost)
  refine ⟨hbase, ?_⟩
  rw [validateAppviewUrl_iff, validateRelayUrl_eq_ok_iff]
  exact ⟨host, hrequest, hstop⟩

/-! ## A base with a host -/

def feedsDomain : Domain where
  text := "feeds.test"
  chars := Text.forall_mem_of_all (by decide)
  name := by decide

def feedsHost (authority : List Char) : Option Host :=
  if authority = "feeds.test".toList then some (.domain feedsDomain) else none

/-- A parser for URLs on one host. -/
def parseFeedsUrl (url : String) : Except String RelayUrl :=
  match parseInput url with
  | none => .error "relative URL without a base"
  | some w =>
      if w.authority = "feeds.test".toList then .ok ⟨w.scheme, some (.domain feedsDomain)⟩
      else .error "invalid domain character"

theorem parseFeedsUrl_eq_ok {s : String} {u : RelayUrl} (h : parseFeedsUrl s = .ok u) :
    ∃ w, parseInput s = some w ∧ w.authority = "feeds.test".toList
      ∧ u = ⟨w.scheme, some (.domain feedsDomain)⟩ := by
  rw [parseFeedsUrl] at h
  cases hw : parseInput s with
  | none =>
      rw [hw] at h
      cases h
  | some w =>
      rw [hw] at h
      dsimp only at h
      split_ifs at h with hauth
      exact ⟨w, rfl, hauth, (Except.ok.inj h).symm⟩

theorem parseFeedsUrl_laws : UrlLaws parseFeedsUrl feedsHost where
  scheme := by
    intro s u w hu hw
    obtain ⟨w', hw', -, rfl⟩ := parseFeedsUrl_eq_ok hu
    obtain rfl := Option.some.inj (hw.symm.trans hw')
    rfl
  https := by
    intro s u hu _
    obtain ⟨w, hw, hauth, rfl⟩ := parseFeedsUrl_eq_ok hu
    refine ⟨w, hw, ?_, ?_, ?_⟩
    · rw [hauth]
      decide
    · rw [feedsHost, if_pos hauth]
    · intro c hc
      rw [hauth] at hc
      obtain rfl := Option.some.inj hc
      decide

/-- An `@` in the method's name leads to no other host. -/
theorem guard_covers_feeds :
    parseFeedsUrl "https://feeds.test/base" = .ok ⟨"https", some (.domain feedsDomain)⟩
      ∧ validateAppviewUrl parseFeedsUrl
        (upstreamUrl "https://feeds.test/base" "a.b@evil.test" "x=1") = .ok () :=
  guard_covers_request parseFeedsUrl_laws (by rfl) (by rfl)

end Stelyph
