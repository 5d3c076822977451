import Mathlib.Data.List.DropRight
import Stelyph.Lib.WebUrl

/-!
# A URL written on top of another

A client has a base and appends `/` and a path to its text. The base was
looked at as a URL of its own; what is requested is the whole text. Where
the base has an authority the whole text keeps its scheme, and its
authority as well: only blanks at the end of the base, which its own
parse left out, end up inside the authority then (`parseInput_append`).
Whether a name that is appended to a directory is its last segment is
`parsePath_append_iff`.
-/

namespace Stelyph

namespace WhatwgUrl

/-! ## Blanks around a text -/

/-- A C0 control, or a space. -/
def isBlank (c : Char) : Bool := c.toNat ≤ 0x20

/-- The parser's input: blanks and controls around it are taken off before
anything is read. -/
def parseInput (s : String) : Option WebUrl :=
  parseWeb (String.ofList ((s.toList.dropWhile isBlank).rdropWhile isBlank))

theorem ne_of_isBlank {c : Char} (h : isBlank c = true) {d : Char} (hd : isBlank d = false) :
    c ≠ d := fun heq => by
  rw [heq, hd] at h
  cases h

theorem not_endsAuthority_of_isBlank {c : Char} (h : isBlank c = true) :
    endsAuthority c = false := by
  simp [endsAuthority, isSlash, ne_of_isBlank h (d := '/') (by decide),
    ne_of_isBlank h (d := '\\') (by decide), ne_of_isBlank h (d := '?') (by decide),
    ne_of_isBlank h (d := '#') (by decide)]

theorem not_isTabOrNewline {c : Char} (h : isBlank c = false) : isTabOrNewline c = false := by
  have hne : ∀ d, isBlank d = true → c ≠ d := fun d hd heq => by
    rw [heq, hd] at h
    cases h
  simp [isTabOrNewline, hne '\t' (by decide), hne '\n' (by decide), hne '\r' (by decide)]

theorem rdropWhile_append_cons {p : Char → Bool} {c : Char} (hc : p c = false) (xs t : List Char) :
    (xs ++ c :: t).rdropWhile p = xs ++ c :: t.rdropWhile p := by
  rw [List.rdropWhile, List.rdropWhile, List.reverse_append, List.reverse_cons,
    List.append_assoc, List.dropWhile_append]
  split
  · rename_i hempty
    rw [List.isEmpty_iff.mp hempty, List.singleton_append,
      List.dropWhile_cons_of_neg (by rw [hc]; decide)]
    simp
  · simp

/-- A text with something in it keeps that, and the blanks behind it,
where it goes on. -/
theorem trim_append {cs : List Char} (h : (cs.dropWhile isBlank).rdropWhile isBlank ≠ [])
    (t : List Char) :
    ∃ blanks t', (∀ c ∈ blanks, isBlank c = true)
      ∧ (blanks ≠ [] → ∃ c, cs.getLast? = some c ∧ isBlank c = true)
      ∧ ((cs ++ '/' :: t).dropWhile isBlank).rdropWhile isBlank
        = (cs.dropWhile isBlank).rdropWhile isBlank ++ (blanks ++ '/' :: t') := by
  have hne : cs.dropWhile isBlank ≠ [] := fun h0 => h (by rw [h0]; rfl)
  have hlead : (cs ++ '/' :: t).dropWhile isBlank = cs.dropWhile isBlank ++ '/' :: t := by
    rw [List.dropWhile_append, if_neg (by rwa [List.isEmpty_iff])]
  refine ⟨(cs.dropWhile isBlank).rtakeWhile isBlank, t.rdropWhile isBlank,
    fun c hc => List.mem_rtakeWhile_imp hc, fun hblanks => ?_, ?_⟩
  · have hlast : isBlank ((cs.dropWhile isBlank).getLast hne) = true := by
      by_contra hno
      exact hblanks (List.rtakeWhile_eq_nil_iff.mpr fun _ => hno)
    have hcs : cs.getLast? = (cs.dropWhile isBlank).getLast? := by
      conv_lhs => rw [← List.takeWhile_append_dropWhile (p := isBlank) (l := cs)]
      rw [List.getLast?_append_of_ne_nil _ hne]
    exact ⟨_, by rw [hcs, List.getLast?_eq_some_getLast hne], hlast⟩
  rw [hlead, rdropWhile_append_cons (by decide), ← List.append_assoc,
    List.rdropWhile_append_rtakeWhile]

/-! ## The text from the authority on -/

def afterScheme (cs : List Char) : List Char :=
  ((cs.dropWhile (· != ':')).drop 1).dropWhile isSlash

theorem afterScheme_append {cs : List Char} (hcolon : ':' ∈ cs) (h : afterScheme cs ≠ [])
    (t : List Char) : afterScheme (cs ++ t) = afterScheme cs ++ t := by
  obtain ⟨xs, ys, rfl, hxs⟩ := List.eq_append_cons_of_mem hcolon
  rw [afterScheme, Text.dropWhile_append_cons hxs, List.drop_one, List.tail_cons] at h
  rw [afterScheme, afterScheme, List.append_assoc, List.cons_append,
    Text.dropWhile_append_cons hxs, Text.dropWhile_append_cons hxs, List.drop_one, List.tail_cons,
    List.drop_one, List.tail_cons, List.dropWhile_append, if_neg (by rwa [List.isEmpty_iff])]

theorem takeWhile_scheme_append {cs : List Char} (hcolon : ':' ∈ cs) (t : List Char) :
    (cs ++ t).takeWhile (· != ':') = cs.takeWhile (· != ':') := by
  obtain ⟨xs, ys, rfl, hxs⟩ := List.eq_append_cons_of_mem hcolon
  rw [List.append_assoc, List.cons_append, Text.takeWhile_append_cons hxs,
    Text.takeWhile_append_cons hxs]

/-- What the parser reads off a text. -/
theorem parseWeb_eq_some {s : String} {u : WebUrl} (h : parseWeb s = some u) :
    ':' ∈ keep s.toList
      ∧ u.scheme = Text.toAsciiLowercase (String.ofList ((keep s.toList).takeWhile (· != ':')))
      ∧ (u.scheme == "http" || u.scheme == "https") = true
      ∧ u.authority = (afterScheme (keep s.toList)).takeWhile (!endsAuthority ·) := by
  rw [parseWeb, ← keep] at h
  dsimp only at h
  split_ifs at h with hcond
  obtain ⟨hcolon, hscheme⟩ := Bool.and_eq_true _ _ ▸ hcond
  obtain rfl := Option.some.inj h
  exact ⟨List.contains_iff_mem.mp hcolon, rfl, hscheme, rfl⟩

theorem parseWeb_of_scheme {s : String} (hcolon : ':' ∈ keep s.toList) {scheme : String}
    (hscheme :
      Text.toAsciiLowercase (String.ofList ((keep s.toList).takeWhile (· != ':'))) = scheme)
    (hknown : (scheme == "http" || scheme == "https") = true) :
    ∃ u, parseWeb s = some u ∧ u.scheme = scheme
      ∧ u.authority = (afterScheme (keep s.toList)).takeWhile (!endsAuthority ·) := by
  refine ⟨parseRest scheme ((afterScheme (keep s.toList)).takeWhile (!endsAuthority ·))
    ((afterScheme (keep s.toList)).dropWhile (!endsAuthority ·)), ?_, rfl, rfl⟩
  rw [parseWeb, ← keep]
  dsimp only
  rw [List.contains_iff_mem.mpr hcolon, hscheme, hknown]
  rfl

theorem keep_append (xs ys : List Char) : keep (xs ++ ys) = keep xs ++ keep ys :=
  List.filter_append ..

/-- **On top of a base.** The scheme stays, and so does the authority
unless the base ends in a blank, which the authority then does too. -/
theorem parseInput_append {base : String} {u : WebUrl} (h : parseInput base = some u)
    (hauthority : u.authority ≠ []) (t : List Char) :
    ∃ v, parseInput (String.ofList (base.toList ++ '/' :: t)) = some v ∧ v.scheme = u.scheme
      ∧ (v.authority = u.authority
        ∨ (∃ c, base.toList.getLast? = some c ∧ isBlank c = true)
          ∧ ∃ c, v.authority.getLast? = some c ∧ isBlank c = true) := by
  rw [parseInput] at h
  obtain ⟨hcolon, hscheme, hknown, hauth⟩ := parseWeb_eq_some h
  rw [String.toList_ofList] at hcolon hscheme hauth
  generalize hcore : (base.toList.dropWhile isBlank).rdropWhile isBlank = core
    at hcolon hscheme hauth
  have hafter : afterScheme (keep core) ≠ [] := by
    intro h0
    rw [h0] at hauth
    exact hauthority hauth
  have hne : core ≠ [] := fun h0 => by
    rw [h0] at hcolon
    cases hcolon
  obtain ⟨blanks, t', hblanks, hend, htrim⟩ := trim_append (t := t) (hcore ▸ hne)
  rw [hcore] at htrim
  have hkeep : keep (core ++ (blanks ++ '/' :: t'))
      = keep core ++ (keep blanks ++ '/' :: keep t') := by
    rw [keep_append, keep_append]
    rfl
  have hcolon' : ':' ∈ keep (String.ofList (core ++ (blanks ++ '/' :: t'))).toList := by
    rw [String.toList_ofList, hkeep]
    exact List.mem_append_left _ hcolon
  obtain ⟨v, hv, hvscheme, hvauth⟩ := parseWeb_of_scheme hcolon'
    (by rw [String.toList_ofList, hkeep, takeWhile_scheme_append hcolon, hscheme]) hknown
  refine ⟨v, by rw [parseInput, String.toList_ofList, htrim]; exact hv, hvscheme, ?_⟩
  rw [String.toList_ofList, hkeep, afterScheme_append hcolon hafter,
    List.takeWhile_append] at hvauth
  by_cases hall : ((afterScheme (keep core)).takeWhile (!endsAuthority ·)).length
      = (afterScheme (keep core)).length
  · have hkept : ∀ c ∈ keep blanks, isBlank c = true := fun c hc =>
      hblanks c (List.mem_of_mem_filter hc)
    have htake : (keep blanks ++ '/' :: keep t').takeWhile (!endsAuthority ·) = keep blanks := by
      rw [List.takeWhile_append_of_pos fun c hc => ?_, List.takeWhile_cons_of_neg (by decide),
        List.append_nil]
      rw [not_endsAuthority_of_isBlank (hkept c hc)]
      rfl
    have hwhole :
        (afterScheme (keep core)).takeWhile (!endsAuthority ·) = afterScheme (keep core) :=
      (List.takeWhile_prefix _).eq_of_length hall
    rw [if_pos hall, htake, ← hwhole, ← hauth] at hvauth
    rcases List.eq_nil_or_concat (keep blanks) with hnil | ⟨init, c, hconcat⟩
    · rw [hnil, List.append_nil] at hvauth
      exact Or.inl hvauth
    · rw [List.concat_eq_append] at hconcat
      have hc : c ∈ keep blanks := by
        rw [hconcat]
        exact List.mem_append_right _ List.mem_cons_self
      have hsome : blanks ≠ [] := List.ne_nil_of_mem (List.mem_of_mem_filter hc)
      refine Or.inr ⟨hend hsome, c, ?_, hkept c hc⟩
      rw [hvauth, hconcat, ← List.append_assoc, List.getLast?_concat]
  · rw [if_neg hall, ← hauth] at hvauth
    exact Or.inl hvauth

/-! ## A name in a directory -/

/-- A name is the last segment of a path of plain directories where it has
no separator and is not a dot segment. -/
theorem parsePath_append_iff {segs : List (List Char)} (hsegs : ∀ seg ∈ segs, PlainSegment seg)
    (last : List Char) :
    parsePath (serializePath (segs ++ [last])) = (segs ++ [last]).map (encode pathSet)
      ↔ (∀ c ∈ last, isSlash c = false) ∧ move last = .down := by
  have hne : segs ++ [last] ≠ [] := List.append_ne_nil_of_right_ne_nil _ (List.cons_ne_nil _ _)
  constructor
  · intro h
    have hparsed : encode pathSet last ∈ parsePath (serializePath (segs ++ [last])) := by
      rw [h]
      exact List.mem_map_of_mem (List.mem_append_right _ List.mem_cons_self)
    have hlast : ∀ c ∈ last, isSlash c = false := fun c hc => isSlash_of_mem_encode hparsed hc
    have hall : ∀ seg ∈ segs ++ [last], ∀ c ∈ seg, isSlash c = false := by
      intro seg hseg c hc
      rcases List.mem_append.mp hseg with hseg | hseg
      · exact ((hsegs seg hseg).chars c hc).1
      · exact hlast c (List.mem_singleton.mp hseg ▸ hc)
    rw [parsePath, segments_serializePath hne hall, List.getLast?_concat, List.dropLast_concat,
      Option.getD_some, DotSegments.walk_of_downs fun s hs => (hsegs s hs).down,
      DotSegments.finish] at h
    refine ⟨hlast, ?_⟩
    cases hmove : move last with
    | down => rfl
    | stay =>
        rw [hmove, List.map_append, List.map_append, List.append_cancel_left_eq] at h
        have hnil : encode pathSet last = [] := (List.cons.inj h).1.symm
        rw [encode_eq_nil_iff] at hnil
        rw [hnil] at hmove
        revert hmove
        decide
    | up =>
        rw [hmove] at h
        have hlen := congrArg List.length h
        rw [List.length_map, List.length_map, List.length_append, List.length_append,
          List.length_dropLast, List.length_singleton, List.length_singleton] at hlen
        have hnil : segs.length = 0 := by omega
        rw [List.length_eq_zero_iff.mp hnil] at h
        have hempty : encode pathSet last = [] := (List.cons.inj h).1.symm
        rw [encode_eq_nil_iff] at hempty
        rw [hempty] at hmove
        revert hmove
        decide
  · rintro ⟨hlast, hdown⟩
    refine parsePath_serializePath hne ?_ ?_
    · intro seg hseg c hc
      rcases List.mem_append.mp hseg with hseg | hseg
      · exact ((hsegs seg hseg).chars c hc).1
      · exact hlast c (List.mem_singleton.mp hseg ▸ hc)
    · intro seg hseg
      rcases List.mem_append.mp hseg with hseg | hseg
      · exact (hsegs seg hseg).down
      · exact List.mem_singleton.mp hseg ▸ hdown

/-- A host, a path and a query, and no fragment. -/
theorem parseInput_path_query {host : List Char} (hhost : PlainHost host) {path query : List Char}
    (hpath : ∀ c ∈ path, isBlank c = false ∧ endsPath c = false)
    (hquery : ∀ c ∈ query, isBlank c = false ∧ c ≠ '#') :
    parseInput (String.ofList ("https".toList ++ ':' :: '/' :: '/' :: (host ++ '/' :: (path
        ++ if query.isEmpty then [] else '?' :: query))))
      = some { scheme := "https", authority := host, path := parsePath ('/' :: path)
               query := if query.isEmpty then none else some (encode querySet query)
               fragment := none } := by
  generalize htail : (if query.isEmpty then [] else '?' :: query) = tail
  have hplain : ∀ c ∈ path ++ tail, isBlank c = false := by
    intro c hc
    rcases List.mem_append.mp hc with hc | hc
    · exact (hpath c hc).1
    · rw [← htail] at hc
      split at hc
      · cases hc
      · rcases List.mem_cons.mp hc with rfl | hc
        · decide
        · exact (hquery c hc).1
  have htrim : ∀ xs : List Char, ((('h' :: xs) ++ '/' :: (path ++ tail)).dropWhile
      isBlank).rdropWhile isBlank = ('h' :: xs) ++ '/' :: (path ++ tail) := by
    intro xs
    rw [List.cons_append, List.dropWhile_cons_of_neg (by decide), ← List.cons_append,
      rdropWhile_append_cons (by decide), List.rdropWhile_eq_self_iff.mpr]
    intro hne
    rw [hplain _ (List.getLast_mem hne)]
    decide
  have htext : "https".toList ++ ':' :: '/' :: '/' :: (host ++ '/' :: (path ++ tail))
      = ('h' :: ("ttps".toList ++ ':' :: '/' :: '/' :: host)) ++ '/' :: (path ++ tail) := by
    have hhttps : "https".toList = 'h' :: "ttps".toList := by decide
    rw [hhttps]
    simp only [List.cons_append, List.append_assoc]
  have hparse := parseWeb_text (Or.inr rfl : "https" = "http" ∨ "https" = "https") hhost
    [path ++ tail]
  have hserial : ∀ cs, serializePath [cs] = '/' :: cs := fun cs => List.append_nil _
  rw [List.map_singleton, hserial, hserial,
    keep_of_forall fun c hc => not_isTabOrNewline (hplain c hc)] at hparse
  rw [parseInput, String.toList_ofList, htext, htrim, ← htext, hparse, parseRest]
  have hends : ∀ c ∈ '/' :: path, (!endsPath c) = true := by
    intro c hc
    rcases List.mem_cons.mp hc with rfl | hc
    · decide
    · rw [(hpath c hc).2]
      rfl
  have hpathHash : '#' ∉ '/' :: path := fun hmem => by
    have := hends '#' hmem
    revert this
    decide
  rw [← List.cons_append, List.takeWhile_append_of_pos hends, List.dropWhile_append_of_pos hends]
  by_cases hempty : query.isEmpty = true
  · rw [if_pos hempty] at htail
    subst htail
    rw [if_pos hempty, List.takeWhile_nil, List.append_nil, List.dropWhile_nil,
      Text.dropWhile_of_not_mem hpathHash]
    rfl
  · rw [if_neg hempty] at htail
    subst htail
    have hhash : '#' ∉ '/' :: path ++ '?' :: query := by
      rintro hmem
      rcases List.mem_append.mp hmem with hmem | hmem
      · exact hpathHash hmem
      · rcases List.mem_cons.mp hmem with h | hmem
        · revert h
          decide
        · exact (hquery _ hmem).2 rfl
    have htake : query.takeWhile (· != '#') = query :=
      Text.takeWhile_of_not_mem fun hmem => (hquery _ hmem).2 rfl
    rw [if_neg hempty, List.takeWhile_cons_of_neg (by decide), List.append_nil,
      List.dropWhile_cons_of_neg (by decide), Text.dropWhile_of_not_mem hhash]
    simp only [htake]
    rfl

end WhatwgUrl

end Stelyph
