import Mathlib.Algebra.Group.Int.Defs
import Mathlib.Algebra.Group.Nat.Defs
import Mathlib.Data.List.Basic

/-!
# String operations

The string functions of the modelled language's standard library that
the servers use, over the list of characters of a string. Lengths are
in bytes of the UTF-8 encoding (`String.utf8ByteSize`), and the case
functions change ASCII letters only.
-/

namespace Stelyph

namespace Text

/-- The text with the letters of ASCII in lower case and all else as it is. -/
def toAsciiLowercase (s : String) : String :=
  String.ofList (s.toList.map Char.toLower)

def eqIgnoreAsciiCase (s t : String) : Bool :=
  s.toList.map Char.toLower == t.toList.map Char.toLower

theorem isUpper_iff {c : Char} : c.isUpper = true ↔ 65 ≤ c.toNat ∧ c.toNat ≤ 90 := by
  unfold Char.isUpper
  rw [decide_eq_true_eq, ge_iff_le, UInt32.le_iff_toNat_le, UInt32.le_iff_toNat_le]
  exact Iff.rfl

theorem isLower_iff {c : Char} : c.isLower = true ↔ 97 ≤ c.toNat ∧ c.toNat ≤ 122 := by
  unfold Char.isLower
  rw [Bool.and_eq_true, decide_eq_true_eq, decide_eq_true_eq, ge_iff_le, UInt32.le_iff_toNat_le,
    UInt32.le_iff_toNat_le]
  exact Iff.rfl

theorem isDigit_iff {c : Char} : c.isDigit = true ↔ 48 ≤ c.toNat ∧ c.toNat ≤ 57 := by
  unfold Char.isDigit
  rw [Bool.and_eq_true, decide_eq_true_eq, decide_eq_true_eq, ge_iff_le, UInt32.le_iff_toNat_le,
    UInt32.le_iff_toNat_le]
  exact Iff.rfl

theorem isAlphanum_iff {c : Char} :
    c.isAlphanum = true ↔ (c.isUpper = true ∨ c.isLower = true) ∨ c.isDigit = true := by
  unfold Char.isAlphanum Char.isAlpha
  rw [Bool.or_eq_true, Bool.or_eq_true]

theorem toNat_of_isAlphanum {c : Char} (h : c.isAlphanum = true) : c.toNat < 128 := by
  rw [isAlphanum_iff, isUpper_iff, isLower_iff, isDigit_iff] at h
  omega

theorem toLower_of_not_isUpper {c : Char} (h : c.isUpper = false) : c.toLower = c := by
  unfold Char.toLower
  rw [dif_neg]
  intro hup
  exact of_decide_eq_false h hup

/-- Only a letter becomes a letter. -/
theorem toLower_eq_iff {c x : Char} (hx : x.isLower = false) (hx' : x.isUpper = false) :
    c.toLower = x ↔ c = x := by
  constructor
  · intro h
    cases hc : c.isUpper with
    | true =>
        have hlt : c.toNat < 128 := by
          have := isUpper_iff.mp hc
          omega
        have hall : ∀ n : Fin 128, (Char.ofNat n.val).isUpper = true →
            (Char.ofNat n.val).toLower.isLower = true := by decide +kernel
        have hlower := hall ⟨c.toNat, hlt⟩
        rw [Char.ofNat_toNat] at hlower
        rw [← h, hlower hc] at hx
        cases hx
    | false => rwa [toLower_of_not_isUpper hc] at h
  · rintro rfl
    exact toLower_of_not_isUpper hx'

def startsWith (s p : String) : Bool := p.toList.isPrefixOf s.toList

def endsWith (s p : String) : Bool := p.toList.isSuffixOf s.toList

/-- Characters are checked where they stand, not all that there are. -/
theorem forall_mem_of_all {p : Char → Prop} [DecidablePred p] {cs : List Char}
    (h : (cs.all fun c => decide (p c)) = true) : ∀ c ∈ cs, p c := fun c hc =>
  of_decide_eq_true (List.all_eq_true.mp h c hc)

/-- The pieces between the separators: one more than there are of them. -/
def split (s : String) (c : Char) : List String :=
  (s.toList.splitOn c).map String.ofList

def isAsciiWhitespace (c : Char) : Bool :=
  c == ' ' || c == '\t' || c == '\n' || c == '\x0c' || c == '\r'

/-- The non-empty pieces between runs of ASCII white space. -/
def splitAsciiWhitespace (s : String) : List String :=
  ((s.toList.splitOnP isAsciiWhitespace).filter fun p => !p.isEmpty).map String.ofList

/-- The pieces are read back, where none of them holds a separator. -/
theorem splitOnP_intercalate {α : Type} {p : α → Bool} {sep : α} (hsep : p sep = true) :
    ∀ {ws : List (List α)}, ws ≠ [] → (∀ w ∈ ws, ∀ c ∈ w, p c = false) →
      ([sep].intercalate ws).splitOnP p = ws
  | [w], _, h => by
      rw [List.intercalate_singleton]
      exact List.splitOnP_eq_singleton (h w List.mem_cons_self)
  | w :: w' :: ws, _, h => by
      have ih := splitOnP_intercalate hsep (List.cons_ne_nil w' ws)
        fun x hx => h x (List.mem_cons_of_mem _ hx)
      rw [List.intercalate_cons_cons, List.append_assoc, List.singleton_append,
        List.splitOnP_append_cons_of_forall_mem (h w List.mem_cons_self) sep hsep, ih]

theorem split_intercalate {c : Char} {ws : List String} (hne : ws ≠ [])
    (h : ∀ w ∈ ws, c ∉ w.toList) : split ((String.singleton c).intercalate ws) c = ws := by
  have hsplit : ([c].intercalate (ws.map String.toList)).splitOn c = ws.map String.toList := by
    refine splitOnP_intercalate (by simp) (by simpa using hne) fun w hw d hd => ?_
    obtain ⟨s, hs, rfl⟩ := List.mem_map.mp hw
    rw [beq_eq_false_iff_ne]
    rintro rfl
    exact h s hs hd
  rw [split, String.toList_intercalate, String.toList_singleton, hsplit, List.map_map]
  simp [Function.comp_def]

/-- Words are read back from a printed line. -/
theorem splitAsciiWhitespace_intercalate {ws : List String}
    (h : ∀ w ∈ ws, w ≠ "" ∧ ∀ c ∈ w.toList, isAsciiWhitespace c = false) :
    splitAsciiWhitespace (" ".intercalate ws) = ws := by
  by_cases hnil : ws = []
  · rw [hnil]
    rfl
  · have hsplit : ([' '].intercalate (ws.map String.toList)).splitOnP isAsciiWhitespace
        = ws.map String.toList := by
      refine splitOnP_intercalate rfl (by simpa using hnil) fun w hw => ?_
      obtain ⟨s, hs, rfl⟩ := List.mem_map.mp hw
      exact (h s hs).2
    have hkeep : (ws.map String.toList).filter (fun p => !p.isEmpty) = ws.map String.toList := by
      rw [List.filter_eq_self]
      intro w hw
      obtain ⟨s, hs, rfl⟩ := List.mem_map.mp hw
      simpa using (h s hs).1
    rw [splitAsciiWhitespace, String.toList_intercalate]
    change ((([' '].intercalate (ws.map String.toList)).splitOnP isAsciiWhitespace).filter _).map _
      = ws
    rw [hsplit, hkeep, List.map_map]
    simp [Function.comp_def]

/-- The part before the first separator is determined, and so is the rest. -/
theorem of_append_cons {α : Type} {c : α} {r r' : List α} :
    ∀ {l l' : List α}, c ∉ l → c ∉ l' → l ++ c :: r = l' ++ c :: r' → l = l' ∧ r = r'
  | [], [], _, _, h => ⟨rfl, (List.cons.inj h).2⟩
  | [], b :: l', _, hl', h => absurd ((List.cons.inj h).1 ▸ List.mem_cons_self) hl'
  | a :: l, [], hl, _, h => absurd ((List.cons.inj h).1 ▸ List.mem_cons_self) hl
  | a :: l, b :: l', hl, hl', h => by
      obtain ⟨rfl, htail⟩ := List.cons.inj h
      obtain ⟨rfl, hr⟩ := of_append_cons (List.not_mem_of_not_mem_cons hl)
        (List.not_mem_of_not_mem_cons hl') htail
      exact ⟨rfl, hr⟩

/-- The text is its pieces with the separator between them. -/
theorem intercalate_split (s : String) (c : Char) :
    [c].intercalate ((split s c).map String.toList) = s.toList := by
  rw [split, List.map_map]
  simp [Function.comp_def, List.intercalate_splitOn]

/-- What is not a separator is in a piece. -/
theorem mem_splitOn {sep c : Char} {cs : List Char} (hne : c ≠ sep) (h : c ∈ cs) :
    ∃ seg ∈ cs.splitOn sep, c ∈ seg := by
  have hmem : ∀ segs : List (List Char), c ∈ [sep].intercalate segs → ∃ seg ∈ segs, c ∈ seg := by
    intro segs
    induction segs with
    | nil => exact fun h => by cases h
    | cons seg segs ih =>
        cases segs with
        | nil =>
            rw [List.intercalate_singleton]
            exact fun h => ⟨seg, List.mem_cons_self, h⟩
        | cons seg' segs =>
            rw [List.intercalate_cons_of_ne_nil (List.cons_ne_nil _ _)]
            intro h
            rcases List.mem_append.mp h with h | h
            · rcases List.mem_append.mp h with h | h
              · exact ⟨seg, List.mem_cons_self, h⟩
              · exact absurd (List.mem_singleton.mp h) hne
            · obtain ⟨s, hs, hc⟩ := ih h
              exact ⟨s, List.mem_cons_of_mem _ hs, hc⟩
  have hsplit : [sep].intercalate (cs.splitOn sep) = cs := List.intercalate_splitOn sep
  exact hmem _ (hsplit.symm ▸ h)

/-! ## Up to a separator, and from there on -/

section

variable {α : Type} [BEq α] [LawfulBEq α] {c : α} {xs : List α}

theorem ne_of_not_mem (h : c ∉ xs) : ∀ d ∈ xs, (d != c) = true := by
  intro d hd
  rw [bne_iff_ne]
  rintro rfl
  exact h hd

theorem takeWhile_append_cons (h : c ∉ xs) (ys : List α) :
    (xs ++ c :: ys).takeWhile (· != c) = xs := by
  rw [List.takeWhile_append_of_pos (ne_of_not_mem h), List.takeWhile_cons_of_neg (by simp),
    List.append_nil]

theorem dropWhile_append_cons (h : c ∉ xs) (ys : List α) :
    (xs ++ c :: ys).dropWhile (· != c) = c :: ys := by
  rw [List.dropWhile_append_of_pos (ne_of_not_mem h), List.dropWhile_cons_of_neg (by simp)]

theorem takeWhile_of_not_mem (h : c ∉ xs) : xs.takeWhile (· != c) = xs := by
  have htake : (xs ++ []).takeWhile (· != c) = xs ++ [] :=
    List.takeWhile_append_of_pos (ne_of_not_mem h)
  rwa [List.append_nil] at htake

theorem dropWhile_of_not_mem (h : c ∉ xs) : xs.dropWhile (· != c) = [] := by
  have hdrop : (xs ++ []).dropWhile (· != c) = [] :=
    List.dropWhile_append_of_pos (ne_of_not_mem h)
  rwa [List.append_nil] at hdrop

end

/-- The text up to the first separator, all of it if there is none. -/
def upTo (s : String) (c : Char) : String :=
  String.ofList (s.toList.takeWhile (· != c))

/-- The text in UTF-8. -/
def bytes (s : String) : List UInt8 := s.toUTF8.data.toList

/-- The text whose UTF-8 these bytes are. -/
def ofBytes (bs : List UInt8) : Option String := String.fromUTF8? bs.toByteArray

theorem ofBytes_bytes (s : String) : ofBytes (bytes s) = some s := by
  have hbytes : (bytes s).toByteArray = s.toByteArray :=
    ByteArray.ext (Array.toList_inj.mp List.toList_data_toByteArray)
  rw [ofBytes, hbytes, String.fromUTF8?, dif_pos s.isValidUTF8]
  rfl

def takeChars (s : String) (n : Nat) : String := String.ofList (s.toList.take n)

/-- The text before the suffix, if `s` ends with it. -/
def stripSuffix (s p : String) : Option String :=
  if p.toList.isSuffixOf s.toList then
    some (String.ofList (s.toList.take (s.toList.length - p.toList.length)))
  else none

theorem stripSuffix_eq_some {s p t : String} (h : stripSuffix s p = some t) : s = t ++ p := by
  unfold stripSuffix at h
  split at h
  · rename_i hsuf
    obtain ⟨l, hl⟩ := List.isSuffixOf_iff_suffix.mp hsuf
    obtain rfl := Option.some.inj h
    rw [← String.toList_inj, String.toList_append, String.toList_ofList, ← hl]
    simp
  · cases h

def replaceChar (s : String) (c d : Char) : String :=
  String.ofList (s.toList.map fun x => if x = c then d else x)

/-- The text before and after the first separator, or nothing where there is none. -/
def splitOnce (s : String) (c : Char) : Option (String × String) :=
  match s.toList.dropWhile (· != c) with
  | [] => none
  | _ :: rest => some (upTo s c, String.ofList rest)

theorem splitOnce_append (n v : List Char) {c : Char} (h : c ∉ n) :
    splitOnce (String.ofList (n ++ c :: v)) c = some (String.ofList n, String.ofList v) := by
  rw [splitOnce, upTo, String.toList_ofList, dropWhile_append_cons h, takeWhile_append_cons h]

theorem splitOnce_of_not_mem {s : String} {c : Char} (h : c ∉ s.toList) : splitOnce s c = none := by
  rw [splitOnce, dropWhile_of_not_mem h]

def stripPrefix (s p : String) : Option String :=
  if p.toList.isPrefixOf s.toList then some (String.ofList (s.toList.drop p.toList.length))
  else none

theorem stripPrefix_append (p t : String) : stripPrefix (p ++ t) p = some t := by
  rw [stripPrefix, if_pos]
  · rw [String.toList_append, List.drop_left, String.ofList_toList]
  · rw [List.isPrefixOf_iff_prefix, String.toList_append]
    exact List.prefix_append _ _

/-- The value of a non-empty run of decimal digits. -/
def parseDigits (cs : List Char) : Option Nat :=
  if cs.isEmpty || !cs.all Char.isDigit then none
  else some (cs.foldl (fun n c => 10 * n + (c.toNat - '0'.toNat)) 0)

theorem isDigit_of_parseDigits {cs : List Char} {n : Nat} (h : parseDigits cs = some n) :
    ∀ c ∈ cs, c.isDigit = true := by
  rw [parseDigits] at h
  split_ifs at h with hcond
  rw [Bool.or_eq_true, not_or, Bool.not_eq_true, Bool.not_eq_true', Bool.not_eq_false] at hcond
  exact List.all_eq_true.mp hcond.2

/-- A signed 64-bit number in decimal, with an optional sign. -/
def parseI64 (s : String) : Option Int := do
  let n ← match s.toList with
    | '-' :: cs => (parseDigits cs).map fun n => -(n : Int)
    | '+' :: cs => (parseDigits cs).map fun n => (n : Int)
    | cs => (parseDigits cs).map fun n => (n : Int)
  if -2 ^ 63 ≤ n ∧ n < 2 ^ 63 then some n else none

/-- An unsigned 64-bit number in decimal; a plus sign may come first. -/
def parseU64 (s : String) : Option Nat :=
  (match s.toList with
    | '+' :: cs => parseDigits cs
    | cs => parseDigits cs).filter fun n => n < 2 ^ 64

/-- The `White_Space` property of Unicode. -/
def isWhitespace (c : Char) : Bool :=
  (9 ≤ c.toNat && c.toNat ≤ 13) || c.toNat == 0x20 || c.toNat == 0x85 || c.toNat == 0xa0
    || c.toNat == 0x1680 || (0x2000 ≤ c.toNat && c.toNat ≤ 0x200a) || c.toNat == 0x2028
    || c.toNat == 0x2029 || c.toNat == 0x202f || c.toNat == 0x205f || c.toNat == 0x3000

def trim (s : String) : String :=
  String.ofList
    (((s.toList.dropWhile isWhitespace).reverse.dropWhile isWhitespace).reverse)

/-- The last `width` digits of a number, most significant first. -/
def digits (digit : Nat → Char) (base : Nat) : Nat → Nat → List Char
  | 0, _ => []
  | width + 1, n => digits digit base width (n / base) ++ [digit (n % base)]

theorem length_digits (digit : Nat → Char) (base width n : Nat) :
    (digits digit base width n).length = width := by
  induction width generalizing n with
  | zero => rfl
  | succ width ih => simp [digits, ih]

theorem digits_eq_map (digit : Nat → Char) (base width n : Nat) :
    digits digit base width n
      = (List.range width).map fun i => digit (n / base ^ (width - 1 - i) % base) := by
  induction width generalizing n with
  | zero => rfl
  | succ width ih =>
      rw [digits, ih, List.range_succ, List.map_append]
      congr 1
      · refine List.map_congr_left fun i hi => ?_
        have hlt := List.mem_range.mp hi
        rw [Nat.div_div_eq_div_mul, ← Nat.pow_succ']
        congr 4
        omega
      · simp

theorem append_lt_append {l₁ l₂ : List Char} (r₁ r₂ : List Char) (hlen : l₁.length = l₂.length)
    (h : l₁ < l₂) : l₁ ++ r₁ < l₂ ++ r₂ := by
  induction l₁ generalizing l₂ with
  | nil =>
      cases l₂ with
      | nil => exact absurd h (List.lt_irrefl _)
      | cons b l₂ => cases hlen
  | cons a l₁ ih =>
      cases l₂ with
      | nil => cases hlen
      | cons b l₂ =>
          rcases List.cons_lt_cons_iff.mp h with hlt | ⟨rfl, hlt⟩
          · exact List.cons_lt_cons_iff.mpr (Or.inl hlt)
          · exact List.cons_lt_cons_iff.mpr (Or.inr ⟨rfl, ih (Nat.succ.inj hlen) hlt⟩)

/-- With digits in order, numerals of one width are in the order of their
numbers. -/
theorem digits_lt {digit : Nat → Char} {base : Nat}
    (hdigit : ∀ a b, a < b → b < base → digit a < digit b) {width a b : Nat} (h : a < b)
    (hb : b < base ^ width) : digits digit base width a < digits digit base width b := by
  induction width generalizing a b with
  | zero =>
      rw [Nat.pow_zero] at hb
      omega
  | succ width ih =>
      have hbase : 0 < base := Nat.pos_of_ne_zero fun h0 => by simp [h0] at hb
      have hhigh : b / base < base ^ width := by
        rw [Nat.div_lt_iff_lt_mul hbase, ← Nat.pow_succ]
        exact hb
      by_cases hlt : a / base < b / base
      · exact append_lt_append _ _ (by rw [length_digits, length_digits]) (ih hlt hhigh)
      · have hle : a / base ≤ b / base := Nat.div_le_div_right (Nat.le_of_lt h)
        have heq : a / base = b / base := by omega
        have hlow : a % base < b % base := by
          have ha := Nat.div_add_mod a base
          have hb := Nat.div_add_mod b base
          rw [heq] at ha
          omega
        rw [digits, digits, heq]
        refine List.append_left_lt (List.cons_lt_cons_iff.mpr (Or.inl ?_))
        exact hdigit _ _ hlow (Nat.mod_lt b hbase)

end Text

end Stelyph
