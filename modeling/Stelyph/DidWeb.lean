import Stelyph.Errors
import Stelyph.PercentDecode
import Stelyph.Lib.TableRel
import Stelyph.Lib.WebUrl

/-!
# did:web resolution

The URL that `identity/web_resolver.rs` fetches the document of a did:web
identifier from. The segments of the identifier are decoded first and put
into the URL after, so what one of them decodes to may be more than a
segment: `Steady` is what a segment has to be, and `leadsTo_iff` says that
the URL leads where the identifier says exactly then.
-/

namespace Stelyph

open WhatwgUrl

def didWebScheme (httpDev : Bool) : String := if httpDev then "http" else "https"

/-- The identifier is split at its colons, each part is decoded, and the
parts are put together with slashes. What was decoded is not encoded
again. -/
def didWebToUrl (did : String) (httpDev : Bool) : Except CoreError String :=
  match Text.stripPrefix did "did:web:" with
  | none => .error (.internal s!"did_web_to_url: not a did:web DID: {did}")
  | some rest =>
    if rest.isEmpty then .error (.internal "did_web_to_url: empty did:web identifier")
    else
      let scheme := didWebScheme httpDev
      match (Text.split rest ':').map percentDecode with
      | [] => .error (.internal "did_web_to_url: no host in did:web DID")
      | host :: segments =>
        if host.isEmpty then .error (.internal "did_web_to_url: empty host in did:web DID")
        else if segments.isEmpty then .ok s!"{scheme}://{host}/.well-known/did.json"
        else
          let path := "/".intercalate segments
          .ok s!"{scheme}://{host}/{path}/did.json"

/-! ## Where the identifier leads -/

/-- The segments of the identifier, as it is written. -/
def didSegments (did : String) : List String :=
  ((Text.stripPrefix did "did:web:").map (Text.split · ':')).getD []

/-- Every `%HH` is its octet, and the other bytes are as they were. -/
def DecodesTo (raw seg : String) : Prop := Text.bytes seg = Percent.decode (Text.bytes raw)

/-- The directory of the document. -/
def didDirectory (segments : List String) : List String :=
  if segments = [] then [".well-known"] else segments

/-- A URL of the host and the path that the identifier names, and of
nothing else. -/
structure LeadsTo (takesHost : List Char → Bool) (httpDev : Bool) (raws : List String)
    (url : String) : Prop where
  decoded : ∀ raw ∈ raws, DecodesTo raw (percentDecode raw)
  parts : ∃ host segments, List.Forall₂ DecodesTo raws (host :: segments)
    ∧ HostPort takesHost host.toList
    ∧ parseWeb url = some
        { scheme := didWebScheme httpDev
          authority := host.toList
          path := (didDirectory segments ++ ["did.json"]).map fun s => encode pathSet s.toList
          query := none
          fragment := none }
    ∧ ∀ s ∈ segments, (∀ c ∈ ['/', '?', '#', '@'], c ∉ s.toList) ∧ move s.toList = .down

/-- Segments that are one component each when they are decoded: nothing in
them ends a component or begins another, and the first is a host. -/
structure Steady (takesHost : List Char → Bool) (raws : List String) : Prop where
  unsigned : ∀ raw ∈ raws, ¬ SignedTriplet (Text.bytes raw)
  parts : ∃ host segments, List.Forall₂ DecodesTo raws (host :: segments)
    ∧ HostPort takesHost host.toList
    ∧ ∀ s ∈ segments, PlainSegment s.toList ∧ '@' ∉ s.toList

theorem decodesTo_percentDecode_iff (s : String) :
    DecodesTo s (percentDecode s) ↔ ¬ SignedTriplet (Text.bytes s) ∧ ∃ t, DecodesTo s t :=
  percentDecode_right_iff s

theorem DecodesTo.unique {raw s t : String} (hs : DecodesTo raw s) (ht : DecodesTo raw t) : s = t :=
  Utf8.bytes_injective (hs.trans ht.symm)

theorem eq_map_of_decodesTo {raws segs : List String}
    (hdec : ∀ raw ∈ raws, DecodesTo raw (percentDecode raw))
    (h : List.Forall₂ DecodesTo raws segs) : segs = raws.map percentDecode := by
  induction h with
  | nil => rfl
  | cons hraw _ ih =>
      obtain ⟨hhead, htail⟩ := List.forall_mem_cons.mp hdec
      rw [List.map_cons, ← ih htail, hraw.unique hhead]

theorem forall_decodesTo_of_forall₂ {raws segs : List String}
    (hsigned : ∀ raw ∈ raws, ¬ SignedTriplet (Text.bytes raw))
    (h : List.Forall₂ DecodesTo raws segs) : ∀ raw ∈ raws, DecodesTo raw (percentDecode raw) := by
  intro raw hraw
  have hmem : ∃ seg ∈ segs, DecodesTo raw seg := forall₂_right_of_mem h.flip hraw
  obtain ⟨seg, -, hseg⟩ := hmem
  exact (decodesTo_percentDecode_iff raw).mpr ⟨hsigned raw hraw, seg, hseg⟩

theorem serializePath_map_toList (segs : List String) (hne : segs ≠ []) :
    '/' :: ("/".intercalate segs).toList = serializePath (segs.map String.toList) := by
  obtain ⟨seg, rest, rfl⟩ := List.exists_cons_of_ne_nil hne
  rw [String.toList_intercalate, List.map_cons, serializePath_eq]
  rfl

/-- The text of a URL by its parts. -/
def urlText (scheme host : String) (segments : List String) : String :=
  String.ofList (scheme.toList ++ ':' :: '/' :: '/' :: (host.toList
    ++ serializePath ((didDirectory segments).map String.toList ++ ["did.json".toList])))

theorem urlText_eq (scheme host : String) {segments : List String} (path : String)
    (hpath : '/' :: path.toList = serializePath ((didDirectory segments).map String.toList)) :
    s!"{scheme}://{host}/{path}/did.json" = urlText scheme host segments := by
  have hsep : "://".toList = [':', '/', '/'] := by decide
  have hslash : "/".toList = ['/'] := by decide
  have hfile : "/did.json".toList = '/' :: "did.json".toList := by decide
  have happend : ∀ xs : List (List Char), serializePath (xs ++ ["did.json".toList])
      = serializePath xs ++ '/' :: "did.json".toList := fun xs => by
    rw [serializePath, List.flatMap_append, List.flatMap_singleton, ← serializePath]
  rw [urlText, happend, ← hpath, ← String.toList_inj, String.toList_ofList]
  simp only [String.toList_append, hsep, hslash, hfile, List.append_assoc, List.cons_append,
    List.nil_append, toString]

/-- The URL is a host and a path of segments. -/
theorem didWebToUrl_ok {did url : String} {httpDev : Bool}
    (h : didWebToUrl did httpDev = .ok url) :
    ∃ host segments, (didSegments did).map percentDecode = host :: segments
      ∧ url = urlText (didWebScheme httpDev) host segments := by
  rw [didWebToUrl] at h
  rw [didSegments]
  cases hrest : Text.stripPrefix did "did:web:" with
  | none => rw [hrest] at h; cases h
  | some rest =>
      rw [hrest] at h
      dsimp only at h
      split_ifs at h with hempty
      cases hsegs : (Text.split rest ':').map percentDecode with
      | nil => rw [hsegs] at h; cases h
      | cons host segments =>
          rw [hsegs] at h
          dsimp only at h
          split_ifs at h with hhost hnil
          · refine ⟨host, segments, hsegs, ?_⟩
            obtain rfl := List.isEmpty_iff.mp hnil
            obtain rfl := Except.ok.inj h
            have hpath : '/' :: ".well-known".toList
                = serializePath ((didDirectory []).map String.toList) := by
              decide
            rw [← urlText_eq _ _ _ hpath]
            have htail : "/.well-known/did.json" = "/" ++ ".well-known" ++ "/did.json" := by
              decide
            simp only [htail, String.append_assoc, toString]
          · have hne : segments ≠ [] := fun heq => hnil (by rw [heq]; rfl)
            refine ⟨host, segments, hsegs, ?_⟩
            obtain rfl := Except.ok.inj h
            refine urlText_eq _ _ _ ?_
            rw [didDirectory, if_neg hne, serializePath_map_toList segments hne]

theorem plainSegment_didJson : PlainSegment "did.json".toList :=
  ⟨Text.forall_mem_of_all (by decide), by decide⟩

theorem plainSegment_wellKnown : PlainSegment ".well-known".toList :=
  ⟨Text.forall_mem_of_all (by decide), by decide⟩

theorem forall_didDirectory_iff (segments : List String) :
    (∀ seg ∈ (didDirectory segments).map String.toList, PlainSegment seg)
      ↔ ∀ s ∈ segments, PlainSegment s.toList := by
  rw [List.forall_mem_map, didDirectory]
  split_ifs with hnil
  · subst hnil
    refine iff_of_true (fun s hs => ?_) fun s hs => by cases hs
    rw [List.mem_singleton.mp hs]
    exact plainSegment_wellKnown
  · exact Iff.rfl

/-- A URL with these parts is read as these parts. -/
theorem parseWeb_urlText_iff {takesHost : List Char → Bool} (httpDev : Bool) {host : String}
    (hhost : HostPort takesHost host.toList) (segments : List String) :
    parseWeb (urlText (didWebScheme httpDev) host segments) = some
        { scheme := didWebScheme httpDev
          authority := host.toList
          path := (didDirectory segments ++ ["did.json"]).map fun s => encode pathSet s.toList
          query := none
          fragment := none }
      ↔ ∀ s ∈ segments, PlainSegment s.toList := by
  have hscheme : didWebScheme httpDev = "http" ∨ didWebScheme httpDev = "https" := by
    cases httpDev
    · exact Or.inr rfl
    · exact Or.inl rfl
  have hpath : (didDirectory segments ++ ["did.json"]).map (fun s => encode pathSet s.toList)
      = ((didDirectory segments).map String.toList ++ ["did.json".toList]).map (encode pathSet) := by
    rw [List.map_append, List.map_append, List.map_map]
    rfl
  rw [urlText, hpath, parseWeb_iff hscheme hhost.plain _ plainSegment_didJson,
    forall_didDirectory_iff]

theorem plainSegment_apart {seg : List Char} (h : PlainSegment seg) (hat : '@' ∉ seg) :
    ∀ c ∈ ['/', '?', '#', '@'], c ∉ seg := by
  intro c hc hmem
  obtain ⟨hslash, hends, -⟩ := h.chars c hmem
  simp only [List.mem_cons, List.not_mem_nil, or_false] at hc
  rcases hc with rfl | rfl | rfl | rfl
  · cases hslash
  · cases hends
  · cases hends
  · exact hat hmem

/-- The document is fetched from where the identifier says exactly when
its segments are segments still when they are decoded. -/
theorem leadsTo_iff (takesHost : List Char → Bool) {did url : String} {httpDev : Bool}
    (h : didWebToUrl did httpDev = .ok url) :
    LeadsTo takesHost httpDev (didSegments did) url ↔ Steady takesHost (didSegments did) := by
  obtain ⟨host, segments, hsegs, rfl⟩ := didWebToUrl_ok h
  constructor
  · rintro ⟨hdec, host', segments', hall, hhost, hparse, hplain⟩
    obtain ⟨rfl, rfl⟩ := List.cons.inj ((eq_map_of_decodesTo hdec hall).trans hsegs)
    refine ⟨fun raw hraw => ((decodesTo_percentDecode_iff raw).mp (hdec raw hraw)).1,
      host', segments', hall, hhost, fun s hs => ⟨?_, (hplain s hs).1 '@' (by simp)⟩⟩
    exact (parseWeb_urlText_iff httpDev hhost segments').mp hparse s hs
  · rintro ⟨hsigned, host', segments', hall, hhost, hplain⟩
    have hdec := forall_decodesTo_of_forall₂ hsigned hall
    obtain ⟨rfl, rfl⟩ := List.cons.inj ((eq_map_of_decodesTo hdec hall).trans hsegs)
    refine ⟨hdec, host', segments', hall, hhost, ?_, fun s hs => ?_⟩
    · exact (parseWeb_urlText_iff httpDev hhost segments').mpr fun s hs => (hplain s hs).1
    · exact ⟨plainSegment_apart (hplain s hs).1 (hplain s hs).2, (hplain s hs).1.down⟩

/-- What `percent_decode` and `did_web_to_url` do with an escape, and when
it is what they should do: the decoder unless it meets a sign where a
digit belongs, and the URL where no decoded segment has a character that
changes how it is read. -/
theorem didWebToUrl_steady (takesHost : List Char → Bool) {did url : String} {httpDev : Bool}
    (h : didWebToUrl did httpDev = .ok url) :
    (∀ s, DecodesTo s (percentDecode s)
      ↔ ¬ SignedTriplet (Text.bytes s) ∧ ∃ t, DecodesTo s t)
    ∧ (LeadsTo takesHost httpDev (didSegments did) url
      ↔ Steady takesHost (didSegments did)) :=
  ⟨decodesTo_percentDecode_iff, leadsTo_iff takesHost h⟩

/-- The identifier of a user of a host. -/
theorem didWebToUrl_user_steady :
    LeadsTo (· == "a.test".toList) false (didSegments "did:web:a.test:u")
      "https://a.test/u/did.json" := by
  have hok : didWebToUrl "did:web:a.test:u" false = .ok "https://a.test/u/did.json" := by
    decide +kernel
  have hsegs : didSegments "did:web:a.test:u" = ["a.test", "u"] := by decide +kernel
  have hplain : ∀ s ∈ ["a.test", "u"], Percent.decode (Text.bytes s) = Text.bytes s ∧
      0x25 ∉ Text.bytes s := by
    decide +kernel
  have hhost : HostPort (· == "a.test".toList) "a.test".toList :=
    ⟨"a.test".toList, [], rfl, Or.inl ⟨by decide, Text.forall_mem_of_all (by decide)⟩, by decide, Or.inl rfl⟩
  refine (didWebToUrl_steady (· == "a.test".toList) hok).2.mpr ⟨?_, ?_⟩
  · rw [hsegs]
    rintro raw hraw ⟨pre, d, post, heq, -⟩
    exact (hplain raw hraw).2 (heq ▸ List.mem_append_right _ List.mem_cons_self)
  · rw [hsegs]
    refine ⟨"a.test", ["u"], ?_, hhost, ?_⟩
    · exact .cons (hplain "a.test" (by simp)).1.symm (.cons (hplain "u" (by simp)).1.symm .nil)
    · intro s hs
      rw [List.mem_singleton.mp hs]
      exact ⟨⟨Text.forall_mem_of_all (by decide), by decide⟩, by decide⟩

/-- One segment, and a path and a query of its own in it. -/
theorem didWebToUrl_steered :
    didWebToUrl "did:web:a.test%2Fadmin%3Fx%3D" false
        = .ok "https://a.test/admin?x=/.well-known/did.json"
      ∧ ∀ takesHost, ¬ LeadsTo takesHost false (didSegments "did:web:a.test%2Fadmin%3Fx%3D")
        "https://a.test/admin?x=/.well-known/did.json" := by
  have hok : didWebToUrl "did:web:a.test%2Fadmin%3Fx%3D" false
      = .ok "https://a.test/admin?x=/.well-known/did.json" := by
    decide +kernel
  have hsegs : didSegments "did:web:a.test%2Fadmin%3Fx%3D" = ["a.test%2Fadmin%3Fx%3D"] := by
    decide +kernel
  have hdec : DecodesTo "a.test%2Fadmin%3Fx%3D" "a.test/admin?x=" := by
    rw [DecodesTo]
    decide +kernel
  refine ⟨hok, fun takesHost hleads => ?_⟩
  obtain ⟨-, host, segments, hall, hhost, -⟩ := (leadsTo_iff takesHost hok).mp hleads
  rw [hsegs] at hall
  cases hall with
  | cons hhead _ =>
      obtain rfl := hhead.unique hdec
      exact absurd (hhost.plain.chars '/' (by decide)).1 (by decide)

end Stelyph
