import Stelyph.Lib.WhatwgUrl

/-!
# The parts of an http URL

The parser of the URL Standard for an http or https URL without blanks at
its ends, the host left as the text of the authority: tabs and newlines
go, the slashes after the scheme are as many as there are, and a
backslash is one of them.

`parseWeb_iff` says which URLs that were put together from a host and the
segments of a path come apart into these again.
-/

namespace Stelyph

namespace DotSegments

variable {α : Type} {kind : α → Move}

/-- The walk is as deep as it has gone down at most. -/
theorem length_walk_le (segs : List α) : (walk kind segs).length ≤ downs kind segs := by
  rw [length_walk_le_iff]
  intro t ht
  have := List.Sublist.countP_le (p := fun s => decide (kind s = .down)) ht.sublist
  rw [downs, downs]
  omega

theorem walk_of_downs {segs : List α} (h : ∀ s ∈ segs, kind s = .down) : walk kind segs = segs := by
  induction segs using List.reverseRecOn with
  | nil => rfl
  | append_singleton segs s ih =>
      rw [walk_snoc, ih fun x hx => h x (List.mem_append_left _ hx), step,
        h s (List.mem_append_right _ List.mem_cons_self)]

/-- A walk that loses nothing has only gone down. -/
theorem downs_of_length_walk {segs : List α} (h : (walk kind segs).length = segs.length) :
    ∀ s ∈ segs, kind s = .down := by
  have hle : (walk kind segs).length ≤ downs kind segs := length_walk_le segs
  have hcount : downs kind segs = segs.length :=
    Nat.le_antisymm List.countP_le_length (h ▸ hle)
  intro s hs
  exact of_decide_eq_true (List.countP_eq_length.mp hcount s hs)

end DotSegments

namespace WhatwgUrl

def isTabOrNewline (c : Char) : Bool := c == '\t' || c == '\n' || c == '\r'

/-- The path is its segments. -/
structure WebUrl where
  scheme : String
  authority : List Char
  path : List (List Char)
  query : Option (List Char)
  fragment : Option (List Char)
deriving DecidableEq, Repr

/-- From the end of the authority on. -/
def parseRest (scheme : String) (authority rest : List Char) : WebUrl where
  scheme := scheme
  authority := authority
  path := parsePath (rest.takeWhile (!endsPath ·))
  query := match rest.dropWhile (!endsPath ·) with
    | '?' :: query => some (encode querySet (query.takeWhile (· != '#')))
    | _ => none
  fragment := (rest.dropWhile (· != '#')).tail?

def parseWeb (s : String) : Option WebUrl :=
  let cs := s.toList.filter (!isTabOrNewline ·)
  let scheme := Text.toAsciiLowercase (String.ofList (cs.takeWhile (· != ':')))
  if cs.contains ':' && (scheme == "http" || scheme == "https") then
    let text := ((cs.dropWhile (· != ':')).drop 1).dropWhile isSlash
    some (parseRest scheme (text.takeWhile (!endsAuthority ·)) (text.dropWhile (!endsAuthority ·)))
  else none

/-- A segment that is one component of a path and stays where it is. -/
structure PlainSegment (seg : List Char) : Prop where
  chars : ∀ c ∈ seg, isSlash c = false ∧ endsPath c = false ∧ isTabOrNewline c = false
  down : move seg = .down

/-! ## What the parser makes of segments -/

theorem serializePath_eq (seg : List Char) (segs : List (List Char)) :
    serializePath (seg :: segs) = '/' :: ['/'].intercalate (seg :: segs) := by
  induction segs generalizing seg with
  | nil => simp [serializePath]
  | cons next segs ih =>
      rw [List.intercalate_cons_cons]
      have hcons : serializePath (seg :: next :: segs) = '/' :: (seg ++ serializePath (next :: segs)) :=
        rfl
      rw [hcons, ih]
      simp

theorem filter_serializePath {p : Char → Bool} (hp : p '/' = true) (segs : List (List Char)) :
    (serializePath segs).filter p = serializePath (segs.map (List.filter p)) := by
  rw [serializePath, serializePath, List.filter_flatMap, List.flatMap_map]
  refine List.flatMap_congr fun seg _ => ?_
  rw [List.filter_cons_of_pos hp]

theorem segments_serializePath {segs : List (List Char)} (hne : segs ≠ [])
    (h : ∀ seg ∈ segs, ∀ c ∈ seg, isSlash c = false) : segments (serializePath segs) = segs := by
  obtain ⟨seg, rest, rfl⟩ := List.exists_cons_of_ne_nil hne
  rw [serializePath_eq, segments, List.drop_one, List.tail_cons,
    Text.splitOnP_intercalate (by decide) hne h]

theorem mem_encode_of_isSlash {c : Char} (h : isSlash c = true) {cs : List Char} :
    c ∈ encode pathSet cs ↔ c ∈ cs := by
  have hc : c = '/' ∨ c = '\\' := by simpa [isSlash] using h
  rcases hc with rfl | rfl
  · exact mem_encode_iff rfl (not_mem_encodeOctet (by decide))
  · exact mem_encode_iff rfl (not_mem_encodeOctet (by decide))

/-- No segment of a parsed path has a slash, either way. -/
theorem isSlash_of_mem_encode {cs seg : List Char} (h : encode pathSet seg ∈ parsePath cs) {c : Char}
    (hc : c ∈ seg) : isSlash c = false := by
  rw [← Bool.not_eq_true]
  intro hslash
  obtain ⟨raw, hraw, heq⟩ := List.mem_map.mp h
  have hmem : c ∈ raw := by
    rw [← mem_encode_of_isSlash hslash, heq, mem_encode_of_isSlash hslash]
    exact hc
  have hsegs : ∀ x ∈ segments cs, c ∉ x := by
    intro x hx hcx
    rw [not_mem_of_mem_splitOnP hx c hcx] at hslash
    cases hslash
  rcases DotSegments.mem_finish hraw with hraw | rfl | rfl
  · exact hsegs raw (List.dropLast_subset _ (DotSegments.mem_walk hraw)) hmem
  · rw [List.getLast?_eq_some_getLast (segments_ne_nil cs)] at hmem
    exact hsegs _ (List.getLast_mem _) hmem
  · cases hmem

theorem length_encodeChar_pos (set : Char → Bool) (c : Char) : 0 < (encodeChar set c).length := by
  have hne : encodeChar set c ≠ [] := by
    have hnil : encode set [c] = [] ↔ [c] = [] := encode_eq_nil_iff
    rw [encode, List.flatMap_singleton] at hnil
    exact fun h => absurd (hnil.mp h) (List.cons_ne_nil c [])
  exact List.length_pos_iff.mpr hne

theorem length_encode_filter_le (set p : Char → Bool) (cs : List Char) :
    (encode set (cs.filter p)).length ≤ (encode set cs).length := by
  induction cs with
  | nil => exact Nat.le_refl _
  | cons c cs ih =>
      have hcons : ∀ ds, encode set (c :: ds) = encodeChar set c ++ encode set ds := fun _ =>
        List.flatMap_cons
      rw [hcons, List.length_append]
      cases hc : p c with
      | true =>
          rw [List.filter_cons_of_pos hc, hcons, List.length_append]
          omega
      | false =>
          rw [List.filter_cons_of_neg (by rw [hc]; decide)]
          omega

/-- What was left out is missed, also where it would be encoded. -/
theorem filter_eq_of_encode {set p : Char → Bool} {cs : List Char}
    (h : encode set (cs.filter p) = encode set cs) : ∀ c ∈ cs, p c = true := by
  induction cs with
  | nil => exact fun _ hc => by cases hc
  | cons c cs ih =>
      have hcons : ∀ ds, encode set (c :: ds) = encodeChar set c ++ encode set ds := fun _ =>
        List.flatMap_cons
      cases hc : p c with
      | true =>
          rw [List.filter_cons_of_pos hc, hcons, hcons, List.append_cancel_left_eq] at h
          exact List.forall_mem_cons.mpr ⟨hc, ih h⟩
      | false =>
          rw [List.filter_cons_of_neg (by rw [hc]; decide), hcons] at h
          have hlen := congrArg List.length h
          rw [List.length_append] at hlen
          have hle := length_encode_filter_le set p cs
          have hpos := length_encodeChar_pos set c
          omega

/-- A path of plain segments comes apart into these. -/
theorem parsePath_serializePath {segs : List (List Char)} (hne : segs ≠ [])
    (hslash : ∀ seg ∈ segs, ∀ c ∈ seg, isSlash c = false) (hdown : ∀ seg ∈ segs, move seg = .down) :
    parsePath (serializePath segs) = segs.map (encode pathSet) := by
  have hlast : segs.dropLast ++ [segs.getLast hne] = segs := List.dropLast_append_getLast hne
  rw [parsePath, segments_serializePath hne hslash, List.getLast?_eq_some_getLast hne,
    Option.getD_some, DotSegments.walk_of_downs fun s hs => hdown s (List.dropLast_subset _ hs),
    DotSegments.finish, hdown _ (List.getLast_mem hne)]
  dsimp only
  rw [hlast]

/-- A path with a name at its end keeps its length only where there are no
dot segments. -/
theorem down_of_length_parsePath {segs : List (List Char)} {last : List Char}
    (hslash : ∀ seg ∈ segs ++ [last], ∀ c ∈ seg, isSlash c = false) (hlast : move last = .down)
    (h : (parsePath (serializePath (segs ++ [last]))).length = (segs ++ [last]).length) :
    ∀ seg ∈ segs, move seg = .down := by
  have hne : segs ++ [last] ≠ [] := List.append_ne_nil_of_right_ne_nil _ (List.cons_ne_nil _ _)
  rw [parsePath, segments_serializePath hne hslash, List.getLast?_concat, List.dropLast_concat,
    Option.getD_some, DotSegments.finish, hlast, List.length_map] at h
  dsimp only at h
  rw [List.length_append, List.length_append] at h
  exact DotSegments.downs_of_length_walk (by omega)

/-! ## A URL put together -/

/-- A host that ends where the path begins. -/
structure PlainHost (host : List Char) : Prop where
  nonempty : host ≠ []
  chars : ∀ c ∈ host, endsAuthority c = false ∧ isTabOrNewline c = false

/-- What may not stand in a domain, the percent sign of an escape included. -/
def forbiddenInDomain (c : Char) : Bool :=
  c.toNat ≤ 0x1f || c.toNat == 0x7f
    || [' ', '#', '/', ':', '<', '>', '?', '@', '[', '\\', ']', '^', '|', '%'].contains c

/-- A domain or an address, an IPv6 address in its brackets. -/
def HostText (host : List Char) : Prop :=
  (host ≠ [] ∧ ∀ c ∈ host, forbiddenInDomain c = false)
    ∨ ∃ inner, host = '[' :: (inner ++ [']']) ∧ ∀ c ∈ inner, c ∈ "0123456789abcdefABCDEF:.".toList

/-- A host, and a port that may be missing. -/
def HostPort (takesHost : List Char → Bool) (authority : List Char) : Prop :=
  ∃ host port, authority = host ++ port ∧ HostText host ∧ takesHost host = true
    ∧ (port = [] ∨ ∃ ds, port = ':' :: ds
      ∧ (ds = [] ∨ ∃ n, Text.parseDigits ds = some n ∧ n < 2 ^ 16))

theorem plain_of_not_forbidden {c : Char} (h : forbiddenInDomain c = false) :
    endsAuthority c = false ∧ isTabOrNewline c = false := by
  have hne : ∀ d, forbiddenInDomain d = true → c ≠ d := fun d hd heq => by
    rw [heq, hd] at h
    cases h
  simp [endsAuthority, isSlash, isTabOrNewline, hne '/' rfl, hne '\\' rfl, hne '?' rfl, hne '#' rfl,
    hne '\t' rfl, hne '\n' rfl, hne '\r' rfl]

theorem HostText.plain {host : List Char} (h : HostText host) :
    host ≠ [] ∧ ∀ c ∈ host, endsAuthority c = false ∧ isTabOrNewline c = false := by
  rcases h with ⟨hne, h⟩ | ⟨inner, rfl, h⟩
  · exact ⟨hne, fun c hc => plain_of_not_forbidden (h c hc)⟩
  · refine ⟨List.cons_ne_nil _ _, fun c hc => ?_⟩
    have hinner : ∀ d ∈ "0123456789abcdefABCDEF:.".toList,
        endsAuthority d = false ∧ isTabOrNewline d = false :=
      Text.forall_mem_of_all (by decide)
    rcases List.mem_cons.mp hc with rfl | hc
    · exact ⟨rfl, rfl⟩
    · rcases List.mem_append.mp hc with hc | hc
      · exact hinner c (h c hc)
      · rw [List.mem_singleton.mp hc]
        exact ⟨rfl, rfl⟩

theorem plain_of_isDigit {c : Char} (h : c.isDigit = true) :
    endsAuthority c = false ∧ isTabOrNewline c = false := by
  have hne : ∀ d : Char, d.isDigit = false → c ≠ d := fun d hd heq => by
    rw [heq, hd] at h
    cases h
  simp [endsAuthority, isSlash, isTabOrNewline, hne '/' rfl, hne '\\' rfl, hne '?' rfl, hne '#' rfl,
    hne '\t' rfl, hne '\n' rfl, hne '\r' rfl]

/-- A host with its port ends where the path begins. -/
theorem HostPort.plain {takesHost : List Char → Bool} {authority : List Char}
    (h : HostPort takesHost authority) : PlainHost authority := by
  obtain ⟨host, port, rfl, hhost, -, hport⟩ := h
  obtain ⟨hne, hchars⟩ := hhost.plain
  refine ⟨List.append_ne_nil_of_left_ne_nil hne _, fun c hc => ?_⟩
  rcases List.mem_append.mp hc with hc | hc
  · exact hchars c hc
  · rcases hport with rfl | ⟨ds, rfl, hds⟩
    · cases hc
    · rcases List.mem_cons.mp hc with rfl | hc
      · exact ⟨rfl, rfl⟩
      · rcases hds with rfl | ⟨n, hn, -⟩
        · cases hc
        · exact plain_of_isDigit (Text.isDigit_of_parseDigits hn c hc)

/-- The text without what the parser leaves out. -/
def keep (cs : List Char) : List Char := cs.filter (!isTabOrNewline ·)

theorem keep_of_forall {cs : List Char} (h : ∀ c ∈ cs, isTabOrNewline c = false) : keep cs = cs :=
  List.filter_eq_self.mpr fun c hc => by rw [h c hc]; rfl

theorem head_serializePath {segs : List (List Char)} :
    ∀ c, (serializePath segs).head? = some c → endsAuthority c = true := by
  intro c hc
  cases segs with
  | nil => cases hc
  | cons seg segs =>
      obtain rfl := Option.some.inj hc
      rfl

theorem parseWeb_text {scheme : String} (hscheme : scheme = "http" ∨ scheme = "https")
    {host : List Char} (hhost : PlainHost host) (segs : List (List Char)) :
    parseWeb (String.ofList (scheme.toList ++ ':' :: '/' :: '/' :: (host ++ serializePath segs)))
      = some (parseRest scheme host (serializePath (segs.map keep))) := by
  have hplain : (∀ c ∈ scheme.toList, isTabOrNewline c = false) ∧ ':' ∉ scheme.toList
      ∧ Text.toAsciiLowercase scheme = scheme
      ∧ (scheme == "http" || scheme == "https") = true := by
    rcases hscheme with rfl | rfl
    · exact ⟨Text.forall_mem_of_all (by decide), by decide, by decide, by decide⟩
    · exact ⟨Text.forall_mem_of_all (by decide), by decide, by decide, by decide⟩
  obtain ⟨hkeep, hcolon, hlower, hknown⟩ := hplain
  have hcs : keep (scheme.toList ++ ':' :: '/' :: '/' :: (host ++ serializePath segs))
      = scheme.toList ++ ':' :: '/' :: '/' :: (host ++ serializePath (segs.map keep)) := by
    have hsep : keep [':', '/', '/'] = [':', '/', '/'] := rfl
    have hsplit : scheme.toList ++ ':' :: '/' :: '/' :: (host ++ serializePath segs)
        = scheme.toList ++ ([':', '/', '/'] ++ (host ++ serializePath segs)) := rfl
    have hpath : keep (serializePath segs) = serializePath (segs.map keep) :=
      filter_serializePath rfl segs
    rw [hsplit, keep, List.filter_append, List.filter_append, List.filter_append, ← keep, ← keep,
      ← keep, ← keep, keep_of_forall hkeep, hsep, keep_of_forall fun c hc => (hhost.chars c hc).2,
      hpath]
    rfl
  obtain ⟨h, host', rfl⟩ := List.exists_cons_of_ne_nil hhost.nonempty
  have hhead : isSlash h = false := by
    have := (hhost.chars h List.mem_cons_self).1
    simp only [endsAuthority, Bool.or_eq_false_iff] at this
    exact this.1.1
  have hslashes : ('/' :: '/' :: (h :: host' ++ serializePath (segs.map keep))).dropWhile isSlash
      = h :: host' ++ serializePath (segs.map keep) := by
    rw [List.dropWhile_cons_of_pos rfl, List.dropWhile_cons_of_pos rfl, List.cons_append,
      List.dropWhile_cons_of_neg (by rw [hhead]; decide)]
  have hends : ∀ c ∈ h :: host', (!endsAuthority c) = true := fun c hc => by
    rw [(hhost.chars c hc).1]
    rfl
  have htake : (h :: host' ++ serializePath (segs.map keep)).takeWhile (!endsAuthority ·)
      = h :: host' := by
    rw [List.takeWhile_append_of_pos hends]
    cases hrest : serializePath (segs.map keep) with
    | nil => exact List.append_nil _
    | cons c rest =>
        rw [List.takeWhile_cons_of_neg, List.append_nil]
        rw [head_serializePath c (by rw [hrest]; rfl)]
        decide
  have hdrop : (h :: host' ++ serializePath (segs.map keep)).dropWhile (!endsAuthority ·)
      = serializePath (segs.map keep) := by
    rw [List.dropWhile_append_of_pos hends]
    cases hrest : serializePath (segs.map keep) with
    | nil => rfl
    | cons c rest =>
        rw [List.dropWhile_cons_of_neg]
        rw [head_serializePath c (by rw [hrest]; rfl)]
        decide
  have hcontains : (scheme.toList ++ ':' :: '/' :: '/' ::
      (h :: host' ++ serializePath (segs.map keep))).contains ':' = true :=
    List.contains_iff_mem.mpr (List.mem_append_right _ List.mem_cons_self)
  rw [parseWeb, String.toList_ofList, ← keep, hcs, hcontains,
    Text.takeWhile_append_cons hcolon, Text.dropWhile_append_cons hcolon, String.ofList_toList,
    hlower, hknown, List.drop_one, List.tail_cons, hslashes]
  simp only [htake, hdrop, Bool.and_self, if_true]

theorem keep_append_singleton {segs : List (List Char)} {last : List Char}
    (hlast : PlainSegment last) : (segs ++ [last]).map keep = segs.map keep ++ [last] := by
  rw [List.map_append, List.map_singleton, keep_of_forall fun c hc => (hlast.chars c hc).2.2]

theorem mem_serializePath {segs : List (List Char)} {seg : List Char} (h : seg ∈ segs) {c : Char}
    (hc : c ∈ seg) : c ∈ serializePath segs :=
  List.mem_flatMap.mpr ⟨seg, h, List.mem_cons_of_mem '/' hc⟩

/-- Without query and fragment the path goes to the end. -/
theorem endsPath_of_parseRest {scheme : String} {host rest : List Char}
    (hquery : (parseRest scheme host rest).query = none)
    (hfragment : (parseRest scheme host rest).fragment = none) :
    ∀ c ∈ rest, endsPath c = false := by
  have hhash : '#' ∉ rest := by
    intro hmem
    obtain ⟨xs, ys, rfl, hxs⟩ := List.eq_append_cons_of_mem hmem
    rw [parseRest, Text.dropWhile_append_cons hxs] at hfragment
    cases hfragment
  have hmark : '?' ∉ rest := by
    intro hmem
    obtain ⟨xs, ys, rfl, hxs⟩ := List.eq_append_cons_of_mem hmem
    have hdrop : (xs ++ '?' :: ys).dropWhile (!endsPath ·) = '?' :: ys := by
      rw [List.dropWhile_append_of_pos fun c hc => ?_, List.dropWhile_cons_of_neg (by decide)]
      have h₁ : c ≠ '?' := fun h => hxs (h ▸ hc)
      have h₂ : c ≠ '#' := fun h => hhash (h ▸ List.mem_append_left _ hc)
      simp [endsPath, h₁, h₂]
    rw [parseRest, hdrop] at hquery
    cases hquery
  intro c hc
  have h₁ : c ≠ '?' := fun h => hmark (h ▸ hc)
  have h₂ : c ≠ '#' := fun h => hhash (h ▸ hc)
  simp [endsPath, h₁, h₂]

theorem parseRest_of_endsPath {scheme : String} {host rest : List Char}
    (h : ∀ c ∈ rest, endsPath c = false) :
    parseRest scheme host rest = ⟨scheme, host, parsePath rest, none, none⟩ := by
  have hall : ∀ c ∈ rest, (!endsPath c) = true := fun c hc => by rw [h c hc]; rfl
  have htake : rest.takeWhile (!endsPath ·) = rest := by
    rw [← List.append_nil rest, List.takeWhile_append_of_pos (by simpa using hall),
      List.takeWhile_nil]
  have hdrop : rest.dropWhile (!endsPath ·) = [] := by
    rw [← List.append_nil rest, List.dropWhile_append_of_pos (by simpa using hall),
      List.dropWhile_nil]
  have hhash : '#' ∉ rest := fun hmem => by
    have := h '#' hmem
    revert this
    decide
  rw [parseRest, htake, hdrop, Text.dropWhile_of_not_mem hhash]
  rfl

/-- A URL put together comes apart again exactly where its segments are
plain. -/
theorem parseWeb_iff {scheme : String} (hscheme : scheme = "http" ∨ scheme = "https")
    {host : List Char} (hhost : PlainHost host) (segs : List (List Char)) {last : List Char}
    (hlast : PlainSegment last) :
    parseWeb (String.ofList (scheme.toList ++ ':' :: '/' :: '/' ::
        (host ++ serializePath (segs ++ [last]))))
      = some ⟨scheme, host, (segs ++ [last]).map (encode pathSet), none, none⟩
      ↔ ∀ seg ∈ segs, PlainSegment seg := by
  have hne : ∀ xs : List (List Char), xs ++ [last] ≠ [] := fun xs =>
    List.append_ne_nil_of_right_ne_nil _ (List.cons_ne_nil _ _)
  rw [parseWeb_text hscheme hhost, Option.some.injEq, keep_append_singleton hlast]
  constructor
  · intro h
    have hquery : (parseRest scheme host (serializePath (segs.map keep ++ [last]))).query = none := by
      rw [h]
    have hfragment : (parseRest scheme host (serializePath (segs.map keep ++ [last]))).fragment
        = none := by
      rw [h]
    have hrest := endsPath_of_parseRest hquery hfragment
    rw [parseRest_of_endsPath hrest] at h
    obtain ⟨-, -, hpath, -, -⟩ := WebUrl.mk.injEq .. |>.mp h
    have hslash : ∀ seg ∈ segs, ∀ c ∈ seg, isSlash c = false := by
      intro seg hseg c hc
      have hparsed : encode pathSet seg ∈ parsePath (serializePath (segs.map keep ++ [last])) := by
        rw [hpath]
        exact List.mem_map_of_mem (List.mem_append_left _ hseg)
      exact isSlash_of_mem_encode hparsed hc
    have hslash' : ∀ seg ∈ segs.map keep ++ [last], ∀ c ∈ seg, isSlash c = false := by
      intro seg hseg c hc
      rcases List.mem_append.mp hseg with hseg | hseg
      · obtain ⟨raw, hraw, rfl⟩ := List.mem_map.mp hseg
        exact hslash raw hraw c (List.mem_of_mem_filter hc)
      · rw [List.mem_singleton.mp hseg] at hc
        exact (hlast.chars c hc).1
    have hdown := down_of_length_parsePath hslash' hlast.down (by rw [hpath]; simp)
    have hdown' : ∀ seg ∈ segs.map keep ++ [last], move seg = .down := by
      intro seg hseg
      rcases List.mem_append.mp hseg with hseg | hseg
      · exact hdown seg hseg
      · rw [List.mem_singleton.mp hseg]
        exact hlast.down
    rw [parsePath_serializePath (hne _) hslash' hdown', List.map_append, List.map_append,
      List.append_cancel_right_eq, List.map_map] at hpath
    intro seg hseg
    have hkept := filter_eq_of_encode (List.map_inj_left.mp hpath seg hseg)
    have htab : ∀ c ∈ seg, isTabOrNewline c = false := fun c hc => by simpa using hkept c hc
    have hsame : keep seg = seg := keep_of_forall htab
    have hmem : seg ∈ segs.map keep ++ [last] :=
      List.mem_append_left _ (List.mem_map.mpr ⟨seg, hseg, hsame⟩)
    exact ⟨fun c hc => ⟨hslash seg hseg c hc, hrest c (mem_serializePath hmem hc), htab c hc⟩,
      hdown' seg hmem⟩
  · intro h
    have hkeep : segs.map keep = segs := by
      refine (List.map_congr_left fun seg hseg => ?_).trans (List.map_id segs)
      exact keep_of_forall fun c hc => ((h seg hseg).chars c hc).2.2
    have hall : ∀ seg ∈ segs ++ [last], PlainSegment seg := by
      intro seg hseg
      rcases List.mem_append.mp hseg with hseg | hseg
      · exact h seg hseg
      · rw [List.mem_singleton.mp hseg]
        exact hlast
    rw [hkeep, parseRest_of_endsPath, parsePath_serializePath (hne segs)
      (fun seg hseg c hc => ((hall seg hseg).chars c hc).1) fun seg hseg => (hall seg hseg).down]
    intro c hc
    obtain ⟨seg, hseg, hmem⟩ := List.mem_flatMap.mp hc
    rcases List.mem_cons.mp hmem with rfl | hmem
    · decide
    · exact ((hall seg hseg).chars c hmem).2.1

end WhatwgUrl

end Stelyph
