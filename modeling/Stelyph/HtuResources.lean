import Stelyph.Dpop

/-!
# The resource a DPoP proof is for

`normalize_htu` compares `htu` with the URI of the request. It works by
string searches, first for the fragment, then for the query, the scheme
and the first slash; on absolute http and https URIs these find the
components, so that it identifies exactly the URIs of one resource.
-/

namespace Stelyph

/-! ## The URIs -/

/-- A character of a registered name or an address. -/
def hostChar (c : Char) : Bool :=
  !([':', '/', '?', '#', '@', '[', ']'].contains c)

/-- A name, or an address in brackets. -/
def IsHost (host : List Char) : Prop :=
  (host ≠ [] ∧ ∀ c ∈ host, hostChar c = true)
    ∨ ∃ address, address ≠ [] ∧ host = '[' :: (address ++ [']'])
      ∧ ∀ c ∈ address, hostChar c = true ∨ c = ':'

/-- An absolute http or https URI without userinfo. A port is a number in
decimal. -/
structure ResourceUri where
  scheme : String
  host : List Char
  port : Option Nat
  path : List Char
  query : Option (List Char)
  fragment : Option (List Char)
  isHttp : Text.toAsciiLowercase scheme = "http" ∨ Text.toAsciiLowercase scheme = "https"
  isHost : IsHost host
  isPath : (path = [] ∨ ∃ rest, path = '/' :: rest) ∧ '?' ∉ path ∧ '#' ∉ path
  isQuery : ∀ q, query = some q → '#' ∉ q

namespace ResourceUri

def portText : Option Nat → List Char
  | none => []
  | some n => ':' :: n.repr.toList

def authority (u : ResourceUri) : List Char := u.host ++ portText u.port

/-- Without query and fragment. -/
def target (u : ResourceUri) : List Char :=
  u.scheme.toList ++ ':' :: '/' :: '/' :: (u.authority ++ u.path)

def component (c : Char) : Option (List Char) → List Char
  | none => []
  | some cs => c :: cs

/-- The text of a URL with all its parts. -/
def text (u : ResourceUri) : String :=
  String.ofList (u.target ++ component '?' u.query ++ component '#' u.fragment)

def lowerScheme (u : ResourceUri) : String := Text.toAsciiLowercase u.scheme

def defaultPort (scheme : String) : Nat := if scheme = "https" then 443 else 80

def effectivePort (u : ResourceUri) : Nat := u.port.getD (defaultPort u.lowerScheme)

/-- The empty path is that of the root. -/
def rooted (path : List Char) : List Char := if path = [] then ['/'] else path

/-- Two URLs that name one resource: scheme and host up to the case of
their letters, the port that is meant, and the path, where an empty one is
the root. -/
structure SameResource (u v : ResourceUri) : Prop where
  scheme : u.lowerScheme = v.lowerScheme
  host : u.host.map Char.toLower = v.host.map Char.toLower
  port : u.effectivePort = v.effectivePort
  path : rooted u.path = rooted v.path

variable {u v : ResourceUri}

/-! ## Nothing of one component is taken for another -/

theorem digit_of_mem_repr {n : Nat} {c : Char} (h : c ∈ n.repr.toList) : c.isDigit = true := by
  rw [Nat.toList_repr] at h
  exact Nat.isDigit_of_mem_toDigits (by decide) (by decide) h

theorem repr_inj {n m : Nat} (h : n.repr.toList = m.repr.toList) : n = m := by
  rw [Nat.toList_repr, Nat.toList_repr] at h
  rw [← Nat.ofDigitChars_ten_toDigits (n := n), h, Nat.ofDigitChars_ten_toDigits]

theorem not_mem_repr {n : Nat} {c : Char} (hc : c.isDigit = false) : c ∉ n.repr.toList := by
  intro h
  rw [digit_of_mem_repr h] at hc
  cases hc

theorem not_mem_portText {port : Option Nat} {c : Char} (hc : c.isDigit = false) (hcolon : c ≠ ':') :
    c ∉ portText port := by
  cases port with
  | none => exact List.not_mem_nil
  | some n => exact fun h => (List.mem_cons.mp h).elim hcolon (not_mem_repr hc)

theorem not_mem_scheme (u : ResourceUri) {c : Char} (hlow : c.toLower = c)
    (hc : c ∉ "https".toList) : c ∉ u.scheme.toList := by
  intro hmem
  have hlower : c ∈ u.lowerScheme.toList := by
    rw [lowerScheme, Text.toAsciiLowercase, String.toList_ofList, List.mem_map]
    exact ⟨c, hmem, hlow⟩
  rcases u.isHttp with h | h
  · rw [lowerScheme, h] at hlower
    exact hc (List.mem_append_left ['s'] hlower)
  · rw [lowerScheme, h] at hlower
    exact hc hlower

theorem not_mem_host (u : ResourceUri) {c : Char} (hc : hostChar c = false)
    (hpunct : c ∉ [':', '[', ']']) : c ∉ u.host := by
  intro hmem
  rcases u.isHost with ⟨-, hall⟩ | ⟨address, -, heq, hall⟩
  · rw [hall c hmem] at hc
    cases hc
  · rw [heq] at hmem
    have hcases : c = '[' ∨ c ∈ address ∨ c = ']' := by simpa using hmem
    rcases hcases with rfl | h | rfl
    · exact hpunct (by decide)
    · rcases hall c h with h | rfl
      · rw [h] at hc
        cases hc
      · exact hpunct (by decide)
    · exact hpunct (by decide)

theorem not_mem_authority (u : ResourceUri) {c : Char} (hc : c ∈ ['/', '?', '#']) :
    c ∉ u.authority := by
  have hfacts : ∀ d ∈ ['/', '?', '#'],
      hostChar d = false ∧ d ∉ [':', '[', ']'] ∧ d.isDigit = false ∧ d ≠ ':' :=
    Text.forall_mem_of_all (by decide)
  obtain ⟨hhost, hpunct, hdigit, hcolon⟩ := hfacts c hc
  intro h
  rcases List.mem_append.mp h with h | h
  · exact not_mem_host u hhost hpunct h
  · exact not_mem_portText hdigit hcolon h

theorem not_mem_target (u : ResourceUri) {c : Char} (hc : c ∈ ['?', '#']) : c ∉ u.target := by
  have hfacts : ∀ d ∈ ['?', '#'],
      d.toLower = d ∧ d ∉ "https".toList ∧ d ∉ [':', '/'] ∧ d ∈ ['/', '?', '#'] :=
    Text.forall_mem_of_all (by decide)
  obtain ⟨hlow, hscheme, hsep, hauth⟩ := hfacts c hc
  have hpath : c ∉ u.path := by
    rcases List.mem_cons.mp hc with rfl | hc
    · exact u.isPath.2.1
    · rw [List.mem_singleton.mp hc]
      exact u.isPath.2.2
  intro h
  rcases List.mem_append.mp h with h | h
  · exact not_mem_scheme u hlow hscheme h
  · have hcases : c = ':' ∨ c = '/' ∨ c ∈ u.authority ∨ c ∈ u.path := by simpa using h
    rcases hcases with rfl | rfl | h | h
    · exact hsep (by decide)
    · exact hsep (by decide)
    · exact not_mem_authority u hauth h
    · exact hpath h

/-! ## The components found -/

theorem takeWhile_component {c : Char} {cs : List Char} (h : c ∉ cs) (o : Option (List Char)) :
    (cs ++ component c o).takeWhile (· != c) = cs := by
  cases o with
  | none =>
      rw [component, List.append_nil]
      exact Text.takeWhile_of_not_mem h
  | some ds => exact Text.takeWhile_append_cons h ds

theorem upTo_text (u : ResourceUri) :
    Text.upTo (Text.upTo u.text '#') '?' = String.ofList u.target := by
  have hquery : '#' ∉ component '?' u.query := by
    cases hq : u.query with
    | none => exact List.not_mem_nil
    | some q => exact fun h => (List.mem_cons.mp h).elim (by decide) (u.isQuery q hq)
  have hfragment : '#' ∉ u.target ++ component '?' u.query := by
    intro h
    rcases List.mem_append.mp h with h | h
    · exact not_mem_target u (by decide) h
    · exact hquery h
  rw [text, Text.upTo, Text.upTo, String.toList_ofList, String.toList_ofList,
    takeWhile_component hfragment, takeWhile_component (not_mem_target u (by decide))]

theorem splitScheme_append {scheme rest : List Char} (h : ':' ∉ scheme) :
    splitScheme (scheme ++ ':' :: '/' :: '/' :: rest) = some (scheme, rest) := by
  induction scheme with
  | nil => rfl
  | cons c cs ih =>
      obtain ⟨hc, hcs⟩ := List.ne_and_not_mem_of_not_mem_cons h
      rw [List.cons_append, splitScheme, ih hcs]
      · rfl
      · exact fun _ heq => absurd heq.symm hc

theorem split_path {authority path : List Char} (h : '/' ∉ authority)
    (hpath : path = [] ∨ ∃ rest, path = '/' :: rest) :
    (authority ++ path).takeWhile (· != '/') = authority
      ∧ (authority ++ path).dropWhile (· != '/') = path := by
  rcases hpath with rfl | ⟨rest, rfl⟩
  · rw [List.append_nil]
    exact ⟨Text.takeWhile_of_not_mem h, Text.dropWhile_of_not_mem h⟩
  · exact ⟨Text.takeWhile_append_cons h rest, Text.dropWhile_append_cons h rest⟩

/-! ## The port -/

theorem map_toLower_portText (port : Option Nat) :
    (portText port).map Char.toLower = portText port := by
  have hdigit : ∀ c : Char, c.isDigit = true → c.toLower = c := by
    intro c hc
    refine Text.toLower_of_not_isUpper ?_
    rw [← Bool.not_eq_true, Text.isUpper_iff]
    have := Text.isDigit_iff.mp hc
    omega
  cases port with
  | none => rfl
  | some n =>
      refine (List.map_congr_left fun c hc => ?_).trans (List.map_id _)
      rcases List.mem_cons.mp hc with rfl | hc
      · rfl
      · exact hdigit c (digit_of_mem_repr hc)

/-- The last colon is the port's. -/
theorem of_append_portText {l l' : List Char} {n m : Nat}
    (h : l ++ portText (some n) = l' ++ portText (some m)) : l = l' ∧ n = m := by
  have hrev := congrArg List.reverse h
  simp only [portText, List.reverse_append, List.reverse_cons, List.append_assoc,
    List.singleton_append] at hrev
  have hcolon : ∀ k : Nat, ':' ∉ k.repr.toList.reverse := fun k hk =>
    not_mem_repr (by decide) (List.mem_reverse.mp hk)
  obtain ⟨hdigits, hl⟩ := Text.of_append_cons (hcolon n) (hcolon m) hrev
  exact ⟨List.reverse_inj.mp hl, repr_inj (List.reverse_inj.mp hdigits)⟩

/-- A host does not end with a port, brackets or not. -/
theorem host_ne_append_portText (u : ResourceUri) (l : List Char) (n : Nat) :
    u.host.map Char.toLower ≠ l ++ portText (some n) := by
  intro h
  rcases u.isHost with ⟨-, hall⟩ | ⟨address, -, heq, -⟩
  · have hmem : ':' ∈ u.host.map Char.toLower := by
      rw [h]
      exact List.mem_append_right _ List.mem_cons_self
    obtain ⟨c, hc, hlow⟩ := List.mem_map.mp hmem
    rw [Text.toLower_eq_iff (by decide) (by decide)] at hlow
    have hcolon := hall c hc
    rw [hlow] at hcolon
    revert hcolon
    decide
  · -- the closing bracket is not a digit
    have hlast : u.host.map Char.toLower = ('[' :: address).map Char.toLower ++ [']'] := by
      rw [heq]
      simp
    obtain hnil | ⟨init, d, hdigits⟩ := List.eq_nil_or_concat n.repr.toList
    · rw [Nat.toList_repr] at hnil
      exact Nat.toDigits_ne_nil hnil
    · have hd : d.isDigit = true := digit_of_mem_repr (n := n) (by simp [hdigits])
      have hends : ('[' :: address).map Char.toLower ++ [']'] = (l ++ ':' :: init) ++ [d] := by
        rw [← hlast, h, portText, hdigits]
        simp
      have hbracket := List.append_inj_right' hends rfl
      rw [← (List.cons.inj hbracket).1] at hd
      revert hd
      decide

/-- The port written after a normalized host. -/
def keptPort (u : ResourceUri) : Option Nat :=
  u.port.filter (· ≠ defaultPort u.lowerScheme)

theorem stripSuffix_of_append (l t : List Char) :
    stripSuffix (String.ofList (l ++ t)) (String.ofList t) = String.ofList l := by
  rw [stripSuffix, Text.endsWith, String.toList_ofList, String.toList_ofList, if_pos]
  · rw [List.length_append, Nat.add_sub_cancel, List.take_left]
  · exact List.isSuffixOf_iff_suffix.mpr (List.suffix_append l t)

theorem stripSuffix_of_ne {s t : List Char} (h : ∀ l, s ≠ l ++ t) :
    stripSuffix (String.ofList s) (String.ofList t) = String.ofList s := by
  rw [stripSuffix, Text.endsWith, String.toList_ofList, String.toList_ofList, if_neg]
  intro hsuf
  obtain ⟨l, hl⟩ := List.isSuffixOf_iff_suffix.mp hsuf
  exact h l hl.symm

/-- Exactly the default port is taken away. -/
theorem stripSuffix_authority (u : ResourceUri) (d : Nat) :
    stripSuffix (String.ofList (u.authority.map Char.toLower)) (String.ofList (portText (some d)))
      = String.ofList (u.host.map Char.toLower ++ portText (u.port.filter (· ≠ d))) := by
  rw [authority, List.map_append, map_toLower_portText]
  cases hport : u.port with
  | none =>
      rw [portText, List.append_nil, stripSuffix_of_ne (fun l => host_ne_append_portText u l d)]
      simp [portText]
  | some n =>
      by_cases hn : n = d
      · have hgone : (some n).filter (· ≠ d) = none := by simp [hn]
        rw [hgone, hn, stripSuffix_of_append, portText, List.append_nil]
      · have hkept : (some n).filter (· ≠ d) = some n := by simp [Option.filter, hn]
        rw [hkept, stripSuffix_of_ne]
        exact fun l h => hn (of_append_portText h).2

/-! ## The normalized URI -/

/-- The path of the root is left out. -/
def shortened (path : List Char) : List Char := if path = ['/'] then [] else path

theorem normalizeHtu_text (u : ResourceUri) :
    normalizeHtu u.text = String.ofList (u.lowerScheme.toList ++ ':' :: '/' :: '/' ::
      ((u.host.map Char.toLower ++ portText u.keptPort) ++ shortened u.path)) := by
  have hsplit : splitScheme (u.scheme.toList ++ ':' :: '/' :: '/' :: (u.authority ++ u.path))
      = some (u.scheme.toList, u.authority ++ u.path) :=
    splitScheme_append (not_mem_scheme u (c := ':') (by decide) (by decide))
  obtain ⟨htake, hdrop⟩ := split_path (not_mem_authority u (c := '/') (by decide)) u.isPath.1
  have hscheme : Text.toAsciiLowercase (String.ofList u.scheme.toList) = u.lowerScheme := by
    rw [String.ofList_toList, lowerScheme]
  have hauthority : Text.toAsciiLowercase (String.ofList u.authority)
      = String.ofList (u.authority.map Char.toLower) := by
    rw [Text.toAsciiLowercase, String.toList_ofList]
  have hpath : (if String.ofList u.path = "/" then "" else String.ofList u.path)
      = String.ofList (shortened u.path) := by
    have hroot : String.ofList u.path = "/" ↔ u.path = ['/'] := by
      rw [← String.toList_inj, String.toList_ofList]
      rfl
    by_cases h : u.path = ['/']
    · rw [if_pos (hroot.mpr h), shortened, if_pos h]
    · rw [if_neg (fun hs => h (hroot.mp hs)), shortened, if_neg h]
  have hport : (if u.lowerScheme = "https" then
        stripSuffix (String.ofList (u.authority.map Char.toLower)) ":443"
      else if u.lowerScheme = "http" then
        stripSuffix (String.ofList (u.authority.map Char.toLower)) ":80"
      else String.ofList (u.authority.map Char.toLower))
      = String.ofList (u.host.map Char.toLower ++ portText u.keptPort) := by
    rcases u.isHttp with h | h
    · rw [← lowerScheme] at h
      have hne : u.lowerScheme ≠ "https" := by
        rw [h]
        decide
      rw [if_neg hne, if_pos h, keptPort, defaultPort, if_neg hne]
      exact stripSuffix_authority u 80
    · rw [← lowerScheme] at h
      rw [if_pos h, keptPort, defaultPort, if_pos h]
      exact stripSuffix_authority u 443
  rw [normalizeHtu, upTo_text, String.toList_ofList, target, hsplit]
  simp only [htake, hdrop, hscheme, hauthority, hpath, hport]
  have hsep : "://".toList = [':', '/', '/'] := by decide
  change u.lowerScheme ++ "://" ++ String.ofList _ ++ String.ofList _ = _
  rw [← String.toList_inj, String.toList_append, String.toList_append, String.toList_append, hsep]
  simp only [String.toList_ofList, List.append_assoc, List.cons_append, List.nil_append]

theorem shortened_inj {path path' : List Char} :
    shortened path = shortened path' ↔ rooted path = rooted path' := by
  unfold shortened rooted
  by_cases h : path = ['/'] <;> by_cases h' : path' = ['/'] <;> by_cases hn : path = [] <;>
    by_cases hn' : path' = [] <;> simp_all [eq_comm]

theorem keptPort_inj (h : u.lowerScheme = v.lowerScheme) :
    u.keptPort = v.keptPort ↔ u.effectivePort = v.effectivePort := by
  rw [keptPort, keptPort, effectivePort, effectivePort, h]
  cases u.port <;> cases v.port <;> simp [Option.filter] <;> grind

/-- Host and port are told apart. -/
theorem host_port_inj
    (h : u.host.map Char.toLower ++ portText u.keptPort
      = v.host.map Char.toLower ++ portText v.keptPort) :
    u.host.map Char.toLower = v.host.map Char.toLower ∧ u.keptPort = v.keptPort := by
  cases hu : u.keptPort with
  | none =>
      cases hv : v.keptPort with
      | none => simpa [hu, hv, portText] using h
      | some m =>
          rw [hu, hv, portText, List.append_nil] at h
          exact absurd h (host_ne_append_portText u _ m)
  | some n =>
      cases hv : v.keptPort with
      | none =>
          rw [hu, hv, portText.eq_1, List.append_nil] at h
          exact absurd h.symm (host_ne_append_portText v _ n)
      | some m =>
          rw [hu, hv] at h
          obtain ⟨hhost, rfl⟩ := of_append_portText h
          exact ⟨hhost, rfl⟩

end ResourceUri

open ResourceUri

/-- A DPoP proof's `htu` is taken for exactly the resource that it names:
two texts have one normal form just where they differ in the case of
scheme and host, in a default port, in an empty path, or behind the path.
-/
theorem normalizeHtu_eq_iff (u v : ResourceUri) :
    normalizeHtu u.text = normalizeHtu v.text ↔ SameResource u v := by
  have hcolon : ∀ w : ResourceUri, ':' ∉ w.lowerScheme.toList := by
    intro w
    rcases w.isHttp with h | h <;> rw [lowerScheme, h] <;> decide
  have hslash : ∀ w : ResourceUri, '/' ∉ w.host.map Char.toLower ++ portText w.keptPort := by
    intro w hmem
    rcases List.mem_append.mp hmem with hmem | hmem
    · obtain ⟨c, hc, hlow⟩ := List.mem_map.mp hmem
      rw [Text.toLower_eq_iff (by decide) (by decide)] at hlow
      rw [hlow] at hc
      exact not_mem_host w (by decide) (by decide) hc
    · exact not_mem_portText (by decide) (by decide) hmem
  have hrooted : ∀ w : ResourceUri,
      shortened w.path = [] ∨ ∃ rest, shortened w.path = '/' :: rest := by
    intro w
    unfold shortened
    split
    · exact Or.inl rfl
    · exact w.isPath.1
  rw [normalizeHtu_text, normalizeHtu_text, String.ofList_inj]
  constructor
  · intro h
    obtain ⟨hscheme, hrest⟩ := Text.of_append_cons (hcolon u) (hcolon v) h
    have hscheme : u.lowerScheme = v.lowerScheme := String.toList_inj.mp hscheme
    have hrest := (List.cons.inj (List.cons.inj hrest).2).2
    obtain ⟨hau, hpu⟩ := split_path (hslash u) (hrooted u)
    obtain ⟨hav, hpv⟩ := split_path (hslash v) (hrooted v)
    rw [hrest] at hau hpu
    obtain ⟨hhost, hport⟩ := host_port_inj (hau.symm.trans hav)
    exact ⟨hscheme, hhost, (keptPort_inj hscheme).mp hport,
      shortened_inj.mp (hpu.symm.trans hpv)⟩
  · rintro ⟨hscheme, hhost, hport, hpath⟩
    rw [hscheme, hhost, (keptPort_inj hscheme).mpr hport, shortened_inj.mpr hpath]

example : normalizeHtu "HTTPS://A.test:443/p?x=1#f" = normalizeHtu "https://a.test/p" := by
  decide +kernel

end Stelyph
