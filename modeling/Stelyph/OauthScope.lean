import Mathlib.Data.String.Basic
import Stelyph.TokenEndpoint

/-!
# Scopes travel as text

A scope is printed into a record, read back from it, narrowed and printed
again. Reading gives back what was printed, so "asks for no more than" is
a relation on the strings (`Scope.Within`), and it composes along the
records of a session.
-/

namespace Stelyph

namespace Scope

/-- What a scope keeps its tokens in: sorted, without repetition, and all
of them known. -/
structure Canonical (tokens : List String) : Prop where
  sorted : tokens.Pairwise (· < ·)
  known : ∀ t ∈ tokens, t ∈ supported

theorem mem_insertToken {x y : String} : ∀ {l : List String},
    y ∈ insertToken x l ↔ y = x ∨ y ∈ l
  | [] => by simp [insertToken]
  | z :: zs => by
      simp only [insertToken]
      split
      · simp
      · split
        · rename_i _ heq
          simp [heq]
        · rw [List.mem_cons, mem_insertToken, List.mem_cons]
          tauto

theorem Canonical.insertToken {x : String} (hx : x ∈ supported) :
    ∀ {l : List String}, Canonical l → Canonical (insertToken x l)
  | [], _ => ⟨List.pairwise_singleton .., by simpa [Scope.insertToken] using hx⟩
  | y :: ys, h => by
      obtain ⟨hsorted, hknown⟩ := h
      have hys := List.pairwise_cons.mp hsorted
      simp only [Scope.insertToken]
      split
      · rename_i hlt
        refine ⟨List.pairwise_cons.mpr ⟨fun z hz => ?_, hsorted⟩, fun z hz => ?_⟩
        · rcases List.mem_cons.mp hz with rfl | hz
          · exact hlt
          · exact hlt.trans (hys.1 z hz)
        · rcases List.mem_cons.mp hz with rfl | hz
          · exact hx
          · exact hknown z hz
      · split
        · exact ⟨hsorted, hknown⟩
        · rename_i hle hne
          have ih := Canonical.insertToken hx
            ⟨hys.2, fun z hz => hknown z (List.mem_cons_of_mem _ hz)⟩
          refine ⟨List.pairwise_cons.mpr ⟨fun z hz => ?_, ih.sorted⟩, fun z hz => ?_⟩
          · rcases mem_insertToken.mp hz with rfl | hz
            · exact lt_of_le_of_ne (not_lt.mp hle) (Ne.symm hne)
            · exact hys.1 z hz
          · rcases List.mem_cons.mp hz with rfl | hz
            · exact hknown _ List.mem_cons_self
            · exact ih.known z hz

theorem canonical_parseTokens : ∀ {ts acc set : List String}, Canonical acc →
    parseTokens acc ts = .ok set → Canonical set
  | [], acc, set, hacc, h => by
      obtain rfl := Except.ok.inj h
      exact hacc
  | t :: ts, acc, set, hacc, h => by
      rw [parseTokens] at h
      split at h
      · rename_i hknown
        exact canonical_parseTokens (hacc.insertToken (List.contains_iff_mem.mp hknown)) h
      · cases h

/-- A token that comes after all the others is put last. -/
theorem insertToken_of_lt {x : String} : ∀ {l : List String}, (∀ y ∈ l, y < x) →
    insertToken x l = l ++ [x]
  | [], _ => rfl
  | y :: ys, h => by
      have hy := h y List.mem_cons_self
      rw [insertToken, if_neg (not_lt_of_gt hy), if_neg (ne_of_gt hy),
        insertToken_of_lt fun z hz => h z (List.mem_cons_of_mem _ hz)]
      rfl

theorem parseTokens_canonical : ∀ {ts acc : List String}, Canonical (acc ++ ts) →
    parseTokens acc ts = .ok (acc ++ ts)
  | [], acc, _ => by rw [parseTokens, List.append_nil]
  | t :: ts, acc, h => by
      have hlast : ∀ y ∈ acc, y < t := fun y hy =>
        (List.pairwise_append.mp h.sorted).2.2 y hy t List.mem_cons_self
      have hknown : supported.contains t = true :=
        List.contains_iff_mem.mpr (h.known t (List.mem_append_right _ List.mem_cons_self))
      rw [parseTokens, if_pos hknown, insertToken_of_lt hlast]
      have happ : acc ++ t :: ts = (acc ++ [t]) ++ ts := by simp
      rw [happ] at h ⊢
      exact parseTokens_canonical h

theorem parse_cases {raw : String} {s : Scope} (h : parse raw = .ok s) :
    parseTokens [] (Text.splitAsciiWhitespace raw) = .ok s.tokens
      ∧ s.contains atproto = true := by
  rw [parse] at h
  cases hset : parseTokens [] (Text.splitAsciiWhitespace raw) with
  | error e =>
      rw [hset] at h
      cases h
  | ok set =>
      rw [hset] at h
      simp only [bind, Except.bind] at h
      split at h
      · cases h
      · split at h
        · cases h
        · rename_i hat
          obtain rfl := Except.ok.inj h
          exact ⟨rfl, by simpa [contains] using hat⟩

theorem canonical_of_parse {raw : String} {s : Scope} (h : parse raw = .ok s) :
    Canonical s.tokens :=
  canonical_parseTokens ⟨List.Pairwise.nil, fun _ ht => (List.not_mem_nil ht).elim⟩
    (parse_cases h).1

theorem supported_is_word : ∀ t ∈ supported,
    t ≠ "" ∧ ∀ c ∈ t.toList, Text.isAsciiWhitespace c = false := by
  have h : (supported.all fun t =>
      t != "" && t.toList.all fun c => !Text.isAsciiWhitespace c) = true := by
    decide +kernel
  simpa [List.all_eq_true] using h

/-- **A scope is read back as it was printed.** -/
theorem parse_display {raw : String} {s : Scope} (h : parse raw = .ok s) :
    parse s.display = .ok s := by
  have hcan := canonical_of_parse h
  have hat := (parse_cases h).2
  have hne : s.tokens ≠ [] := by
    intro hnil
    rw [contains, hnil] at hat
    cases hat
  rw [parse, display, Text.splitAsciiWhitespace_intercalate
    fun w hw => supported_is_word w (hcan.known w hw), parseTokens_canonical (by simpa using hcan)]
  simp only [bind, Except.bind, List.nil_append]
  rw [if_neg (by simpa using hne), if_neg (by simpa [contains] using hat)]

/-! ## Subsets -/

theorem isSubsetOf_iff {s t : Scope} : s.isSubsetOf t = true ↔ ∀ x ∈ s.tokens, x ∈ t.tokens := by
  simp [isSubsetOf]

/-- One scope string asks for no more than another: both can be read, and
the tokens of the one are among the other's. -/
def Within (a b : String) : Prop :=
  ∃ s t, parse a = .ok s ∧ parse b = .ok t ∧ s.isSubsetOf t = true

theorem within_self {a : String} {s : Scope} (h : parse a = .ok s) : Within a a :=
  ⟨s, s, h, h, isSubsetOf_iff.mpr fun _ hx => hx⟩

theorem Within.trans {a b c : String} (hab : Within a b) (hbc : Within b c) : Within a c := by
  obtain ⟨s, t, hs, ht, hst⟩ := hab
  obtain ⟨t', u, ht', hu, htu⟩ := hbc
  obtain rfl := Except.ok.inj (ht.symm.trans ht')
  exact ⟨s, u, hs, hu, isSubsetOf_iff.mpr fun x hx =>
    isSubsetOf_iff.mp htu x (isSubsetOf_iff.mp hst x hx)⟩

theorem Within.display {raw b : String} {s t : Scope} (hs : parse raw = .ok s)
    (ht : parse b = .ok t) (h : s.isSubsetOf t = true) : Within s.display b :=
  ⟨s, t, parse_display hs, ht, h⟩

theorem Within.atproto {a b : String} (h : Within a b) :
    ∃ s, parse a = .ok s ∧ s.contains Scope.atproto = true := by
  obtain ⟨s, t, hs, -, -⟩ := h
  exact ⟨s, hs, (parse_cases hs).2⟩

end Scope

/-- A refresh may only narrow. -/
theorem narrowScope_within {raw : String} {granted s : Scope} {requested : Option String}
    (hgranted : Scope.parse raw = .ok granted) (h : narrowScope granted requested = .ok s) :
    Scope.Within s.display raw := by
  cases requested with
  | none =>
      obtain rfl := Except.ok.inj h
      exact Scope.Within.display hgranted hgranted (Scope.isSubsetOf_iff.mpr fun _ hx => hx)
  | some requested =>
      rw [narrowScope] at h
      cases hparse : Scope.parse requested with
      | error e =>
          rw [hparse] at h
          cases h
      | ok asked =>
          rw [hparse] at h
          simp only [bind, Except.bind] at h
          split at h
          · cases h
          · rename_i hsub
            obtain rfl := Except.ok.inj h
            exact Scope.Within.display hparse hgranted (by simpa using hsub)

end Stelyph
