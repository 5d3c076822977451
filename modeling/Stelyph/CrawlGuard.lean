import Stelyph.Errors
import Stelyph.Lib.Host

/-!
# The guard in front of a relay

`validate_relay_url` (`firehose/crawl.rs`) reads the host of a URL a
second time, as an address of the standard library. A host that is an
IPv4 address is read as that address, every other host is not read as an
address at all (`parseIpAddr_host`), and the branch for IPv6 is never
taken. `validateRelayUrl_eq_ok_iff` is the whole guard; which hosts that
lead into a network of its own it stops is `validateRelayUrl_stops_iff`.
-/

namespace Stelyph

/-- What the guard asks of a parsed URL: its scheme, and the host where it has one. -/
structure RelayUrl where
  scheme : String
  host : Option Host

def blockedIp : IpAddr → Bool
  | .v4 ip =>
      ip.isLoopback || ip.isPrivate || ip.isLinkLocal || (ip.a == 169 && ip.b == 254)
  | .v6 ip => ip.isLoopback || ip.isUnspecified

def blockedName (host : String) : Bool :=
  host == "localhost" || Text.endsWith host ".local" || Text.endsWith host ".internal"

/-- The guard on the URL of a relay: https, a host, and none that leads
inside. The host's text is tried as an address first, and is taken for a
name where it is none. -/
def validateRelayUrl (parseUrl : String → Except String RelayUrl) (relayUrl : String) :
    Except XrpcError Unit := do
  let url ← (parseUrl relayUrl).mapError fun e => .internal s!"invalid relay_url: {e}"
  if url.scheme ≠ "https" then
    .error (.internal s!"relay_url must be an https:// URL, got: {relayUrl}")
  else match url.host with
    | none => .error (.internal "relay_url missing host")
    | some host =>
      match parseIpAddr host.text with
      | some ip =>
        if blockedIp ip then .error (.internal "relay_url host not allowed") else .ok ()
      | none =>
        if blockedName host.text then .error (.internal "relay_url host not allowed") else .ok ()

/-! ## What the guard reads -/

/-- The host is an address again only where it is an IPv4 address. -/
theorem parseIpAddr_host (host : Host) : parseIpAddr host.text = match host with
    | .ipv4 ip => some (.v4 ip)
    | _ => none := by
  cases host with
  | domain name => exact name.parseIpAddr_text
  | ipv4 ip => exact parseIpAddr_text ip
  | ipv6 ip => exact parseIpAddr_bracket (Host.text_ipv6 ip)

theorem getLast?_of_endsWith {s p : String} {c : Char} (hp : p.toList.getLast? = some c)
    (h : Text.endsWith s p = true) : s.toList.getLast? = some c := by
  obtain ⟨pre, hpre⟩ := List.isSuffixOf_iff_suffix.mp h
  rw [← hpre, List.getLast?_append, hp]
  rfl

/-- Every name that is blocked ends in a letter. -/
theorem getLast?_of_blockedName {host : String} (h : blockedName host = true) :
    host.toList.getLast? = some 't' ∨ host.toList.getLast? = some 'l' := by
  simp only [blockedName, Bool.or_eq_true, beq_iff_eq] at h
  rcases h with (rfl | h) | h
  · exact Or.inl (by decide)
  · exact Or.inr (getLast?_of_endsWith (by decide) h)
  · exact Or.inr (getLast?_of_endsWith (by decide) h)

theorem blockedName_ipv6 (ip : Ipv6Addr) : blockedName (Host.ipv6 ip).text = false := by
  rw [← Bool.not_eq_true]
  intro h
  have hlast : (Host.ipv6 ip).text.toList.getLast? = some ']' := by
    rw [Host.text_ipv6, ← List.cons_append, List.getLast?_concat]
  rcases getLast?_of_blockedName h with h | h
  · cases hlast.symm.trans h
  · cases hlast.symm.trans h

/-- The hosts that the guard stops. -/
def Host.Stopped : Host → Prop
  | .domain name => blockedName name.text = true
  | .ipv4 ip => ip.isLoopback = true ∨ ip.isPrivate = true ∨ ip.isLinkLocal = true
  | .ipv6 _ => False

theorem blockedIp_v4_iff (ip : Ipv4Addr) : blockedIp (.v4 ip) = true
    ↔ ip.isLoopback = true ∨ ip.isPrivate = true ∨ ip.isLinkLocal = true := by
  have hlink : (ip.a == 169 && ip.b == 254) = ip.isLinkLocal := rfl
  simp only [blockedIp, hlink, Bool.or_eq_true, or_assoc, or_self]

/-- A URL passes when it is https and its host is not stopped. -/
theorem validateRelayUrl_eq_ok_iff (parseUrl : String → Except String RelayUrl)
    (relayUrl : String) : validateRelayUrl parseUrl relayUrl = .ok ()
      ↔ ∃ host, parseUrl relayUrl = .ok ⟨"https", some host⟩ ∧ ¬ host.Stopped := by
  rw [validateRelayUrl]
  cases hparse : parseUrl relayUrl with
  | error e =>
      refine iff_of_false (fun h => by cases h) ?_
      rintro ⟨host, h, -⟩
      cases h
  | ok url =>
      obtain ⟨scheme, host⟩ := url
      change (if scheme ≠ "https" then _ else _) = _ ↔ _
      by_cases hscheme : scheme = "https"
      · rw [if_neg (not_not_intro hscheme)]
        subst hscheme
        cases host with
        | none =>
            refine iff_of_false (fun h => by cases h) ?_
            rintro ⟨host, h, -⟩
            cases h
        | some host =>
            have hhost : (∃ host', (Except.ok ⟨"https", some host⟩ : Except String RelayUrl)
                = .ok ⟨"https", some host'⟩ ∧ ¬ host'.Stopped) ↔ ¬ host.Stopped := by
              refine ⟨?_, fun hstop => ⟨host, rfl, hstop⟩⟩
              rintro ⟨host', h, hstop⟩
              obtain ⟨-, h⟩ := RelayUrl.mk.injEq .. |>.mp (Except.ok.inj h)
              rwa [Option.some.inj h]
            rw [hhost]
            dsimp only
            rw [parseIpAddr_host]
            cases host with
            | domain name =>
                dsimp only
                rw [Host.Stopped, Host.text]
                cases blockedName name.text <;> simp
            | ipv4 ip =>
                dsimp only
                rw [Host.Stopped, ← blockedIp_v4_iff]
                cases blockedIp (.v4 ip) <;> simp
            | ipv6 ip =>
                dsimp only
                rw [Host.Stopped, blockedName_ipv6]
                simp
      · rw [if_pos hscheme]
        refine iff_of_false (fun h => by cases h) ?_
        rintro ⟨host', h, -⟩
        exact hscheme (RelayUrl.mk.injEq .. |>.mp (Except.ok.inj h)).1

/-! ## Hosts inside -/

/-- An address that no request of the server should go to. -/
def Ipv4Addr.Internal (ip : Ipv4Addr) : Prop :=
  ip.isLoopback = true ∨ ip.isPrivate = true ∨ ip.isLinkLocal = true ∨ ip.isUnspecified = true

/-- An address that no request of the server should go to. The mapped form
of an address leads where the address leads. -/
def Ipv6Addr.Internal (ip : Ipv6Addr) : Prop :=
  ip.isLoopback = true ∨ ip.isUniqueLocal = true ∨ ip.isUnicastLinkLocal = true
    ∨ ip.isUnspecified = true ∨ ∃ ip₄, ip.toIpv4Mapped = some ip₄ ∧ ip₄.Internal

/-- A name that leads inside, by itself or by its ending. A dot at the end
of a name changes nothing about where it leads. -/
def Domain.Internal (name : Domain) : Prop :=
  name.text ∈ ["localhost", "localhost."]
    ∨ ∃ suffix ∈ [".local", ".internal"],
      Text.endsWith name.text suffix = true ∨ Text.endsWith name.text (suffix ++ ".") = true

/-- The host is inside, as a name or as an address. -/
def Host.Internal : Host → Prop
  | .domain name => name.Internal
  | .ipv4 ip => ip.Internal
  | .ipv6 ip => ip.Internal

/-- The hosts inside that the guard can tell: no IPv6 address, not the
unspecified IPv4 address, and no name with a dot at its end. -/
def Host.Known : Host → Prop
  | .domain name => Text.endsWith name.text "." = false
  | .ipv4 ip => ip.isUnspecified = false
  | .ipv6 _ => False

theorem Domain.stopped_iff_known {name : Domain} (h : name.Internal) :
    (Host.domain name).Stopped ↔ (Host.domain name).Known := by
  rw [Host.Stopped, Host.Known]
  constructor
  · intro hblocked
    rw [← Bool.not_eq_true]
    intro hdot
    have hlast : name.text.toList.getLast? = some '.' := getLast?_of_endsWith (by decide) hdot
    rcases getLast?_of_blockedName hblocked with h' | h'
    · cases hlast.symm.trans h'
    · cases hlast.symm.trans h'
  · intro hdot
    rw [blockedName]
    rcases h with h | ⟨suffix, hsuffix, h | h⟩
    · simp only [List.mem_cons, List.not_mem_nil, or_false] at h
      rcases h with h | h
      · rw [h]
        decide
      · have hend : Text.endsWith "localhost." "." = true := by decide
        rw [h, hend] at hdot
        cases hdot
    · simp only [List.mem_cons, List.not_mem_nil, or_false] at hsuffix
      rcases hsuffix with rfl | rfl
      · rw [h, Bool.or_true, Bool.true_or]
      · rw [h, Bool.or_true]
    · have hdot' : Text.endsWith name.text "." = true := by
        rw [Text.endsWith, List.isSuffixOf_iff_suffix] at h ⊢
        rw [String.toList_append] at h
        exact (List.suffix_append _ _).trans h
      rw [hdot'] at hdot
      cases hdot

theorem Ipv4Addr.stopped_iff_known {ip : Ipv4Addr} (h : ip.Internal) :
    (Host.ipv4 ip).Stopped ↔ (Host.ipv4 ip).Known := by
  rw [Host.Stopped, Host.Known]
  constructor
  · intro hstop
    rw [← Bool.not_eq_true]
    intro hzero
    obtain rfl : ip = .unspecified := beq_iff_eq.mp hzero
    revert hstop
    decide
  · intro hzero
    rcases h with h | h | h | h
    · exact Or.inl h
    · exact Or.inr (Or.inl h)
    · exact Or.inr (Or.inr h)
    · cases hzero.symm.trans h

theorem Host.stopped_iff_known {host : Host} (h : host.Internal) : host.Stopped ↔ host.Known := by
  cases host with
  | domain name => exact Domain.stopped_iff_known h
  | ipv4 ip => exact Ipv4Addr.stopped_iff_known h
  | ipv6 ip => exact Iff.rfl

theorem stops_iff {parseUrl : String → Except String RelayUrl} {relayUrl : String} {url : RelayUrl}
    {host : Host} (hparse : parseUrl relayUrl = .ok url) (hhost : url.host = some host) :
    (∃ e, validateRelayUrl parseUrl relayUrl = .error e) ↔ url.scheme ≠ "https" ∨ host.Stopped := by
  have hok : (∃ e, validateRelayUrl parseUrl relayUrl = .error e)
      ↔ ¬ validateRelayUrl parseUrl relayUrl = .ok () := by
    cases validateRelayUrl parseUrl relayUrl with
    | error e => exact iff_of_true ⟨e, rfl⟩ fun h => by cases h
    | ok u =>
        refine iff_of_false ?_ (not_not_intro rfl)
        rintro ⟨e, h⟩
        cases h
  obtain ⟨scheme, host'⟩ := url
  obtain rfl : host' = some host := hhost
  rw [hok, validateRelayUrl_eq_ok_iff, hparse]
  constructor
  · intro hno
    by_contra hboth
    rw [not_or, not_not] at hboth
    obtain ⟨hscheme, hstop⟩ := hboth
    obtain rfl : scheme = "https" := hscheme
    exact hno ⟨host, rfl, hstop⟩
  · rintro hor ⟨host', heq, hstop⟩
    obtain ⟨hscheme, hsome⟩ := RelayUrl.mk.injEq .. |>.mp (Except.ok.inj heq)
    obtain rfl := Option.some.inj hsome
    exact hor.elim (fun h => h hscheme) hstop

/-- Of the https URLs with a host inside the guard stops those whose host
it can tell, which are names and addresses of the fourth version. An
address of the sixth is never tried, since its text still has its
brackets. -/
theorem validateRelayUrl_stops_iff (parseUrl : String → Except String RelayUrl) (relayUrl : String)
    {url : RelayUrl} {host : Host} (hparse : parseUrl relayUrl = .ok url)
    (hhost : url.host = some host) (hinternal : host.Internal) :
    (∃ e, validateRelayUrl parseUrl relayUrl = .error e)
      ↔ url.scheme ≠ "https" ∨ host.Known := by
  rw [stops_iff hparse hhost, Host.stopped_iff_known hinternal]

/-- The loopback address of four. -/
theorem validateRelayUrl_stops_loopback :
    ∃ e, validateRelayUrl (fun _ => .ok ⟨"https", some (.ipv4 ⟨127, 0, 0, 1⟩)⟩)
      "https://127.0.0.1/" = .error e :=
  (validateRelayUrl_stops_iff (fun _ => .ok ⟨"https", some (.ipv4 ⟨127, 0, 0, 1⟩)⟩)
    "https://127.0.0.1/" rfl rfl (Or.inl rfl)).mpr (Or.inr rfl)

/-- The loopback address of six. -/
theorem validateRelayUrl_passes_loopback :
    (Host.ipv6 ⟨[0, 0, 0, 0, 0, 0, 0, 1], rfl⟩).Internal
      ∧ validateRelayUrl (fun _ => .ok ⟨"https", some (.ipv6 ⟨[0, 0, 0, 0, 0, 0, 0, 1], rfl⟩)⟩)
        "https://[::1]/" = .ok () :=
  ⟨Or.inl rfl, (validateRelayUrl_eq_ok_iff _ _).mpr ⟨_, rfl, id⟩⟩

end Stelyph
