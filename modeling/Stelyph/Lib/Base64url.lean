import Mathlib.Data.List.Basic

/-!
# Base64url without padding

The encoding of octets by 64 characters that need no escaping in a URL,
three octets to four characters, with no `=` at the end. A decoder in
canonical form refuses every other character, a single left-over
character, and left-over bits that are not zero.
-/

namespace Stelyph

namespace Base64url

/-- The character of a value below 64. -/
def digit (n : Nat) : Char :=
  if n < 26 then Char.ofNat ('A'.toNat + n)
  else if n < 52 then Char.ofNat ('a'.toNat + (n - 26))
  else if n < 62 then Char.ofNat ('0'.toNat + (n - 52))
  else if n = 62 then '-'
  else '_'

def value (c : Char) : Option Nat :=
  if c.isUpper then some (c.toNat - 'A'.toNat)
  else if c.isLower then some (c.toNat - 'a'.toNat + 26)
  else if c.isDigit then some (c.toNat - '0'.toNat + 52)
  else if c = '-' then some 62
  else if c = '_' then some 63
  else none

theorem value_digit {n : Nat} (h : n < 64) : value (digit n) = some n := by
  have hall : ∀ i : Fin 64, value (digit i) = some i.val := by decide
  exact hall ⟨n, h⟩

theorem alphabet_of_value {c : Char} {n : Nat} (h : value c = some n) :
    c.isAlphanum = true ∨ c = '-' ∨ c = '_' := by
  unfold value at h
  split_ifs at h with hupper hlower hdigit hdash hline
  · refine Or.inl (show (c.isUpper || c.isLower || c.isDigit) = true from ?_)
    rw [show c.isUpper = true from hupper, Bool.true_or, Bool.true_or]
  · refine Or.inl (show (c.isUpper || c.isLower || c.isDigit) = true from ?_)
    rw [show c.isLower = true from hlower, Bool.or_true, Bool.true_or]
  · refine Or.inl (show (c.isUpper || c.isLower || c.isDigit) = true from ?_)
    rw [show c.isDigit = true from hdigit, Bool.or_true]
  · exact Or.inr (Or.inl hdash)
  · exact Or.inr (Or.inr hline)

/-- Six bits at a time; the last of them filled up with zeros. -/
def sextets : List UInt8 → List Nat
  | [] => []
  | [a] => [a.toNat / 4, a.toNat % 4 * 16]
  | [a, b] => [a.toNat / 4, a.toNat % 4 * 16 + b.toNat / 16, b.toNat % 16 * 4]
  | a :: b :: c :: rest =>
      a.toNat / 4 :: (a.toNat % 4 * 16 + b.toNat / 16) :: (b.toNat % 16 * 4 + c.toNat / 64)
        :: c.toNat % 64 :: sextets rest

/-- Four digits are three octets; two or three at the end are one or two,
and the bits left over have to be zero. One digit alone is none. -/
def octets : List Nat → Option (List UInt8)
  | [] => some []
  | [_] => none
  | [p, q] => if q % 16 = 0 then some [UInt8.ofNat (p * 4 + q / 16)] else none
  | [p, q, r] =>
      if r % 4 = 0 then some [UInt8.ofNat (p * 4 + q / 16), UInt8.ofNat (q % 16 * 16 + r / 4)]
      else none
  | p :: q :: r :: s :: rest =>
      (octets rest).map fun bs =>
        UInt8.ofNat (p * 4 + q / 16) :: UInt8.ofNat (q % 16 * 16 + r / 4)
          :: UInt8.ofNat (r % 4 * 64 + s) :: bs

def encode (bs : List UInt8) : String := String.ofList ((sextets bs).map digit)

/-- The octets a text stands for, without padding: every character is a
digit of the alphabet and the digits fill octets. -/
def decode (s : String) : Option (List UInt8) := (s.toList.mapM value).bind octets

/-- A text that decodes is made of the alphabet. -/
theorem alphabet_of_decode {s : String} {bs : List UInt8} (h : decode s = some bs) :
    ∀ c ∈ s.toList, c.isAlphanum = true ∨ c = '-' ∨ c = '_' := by
  obtain ⟨vs, hvs, -⟩ := Option.bind_eq_some_iff.mp h
  clear h
  generalize s.toList = cs at hvs
  induction cs generalizing vs with
  | nil => exact fun c hc => (List.not_mem_nil hc).elim
  | cons c cs ih =>
      rw [List.mapM_cons] at hvs
      obtain ⟨v, hv, hrest⟩ := Option.bind_eq_some_iff.mp hvs
      obtain ⟨vs', hvs', -⟩ := Option.bind_eq_some_iff.mp hrest
      rintro d (_ | ⟨_, hd⟩)
      · exact alphabet_of_value hv
      · exact ih vs' hvs' d hd

theorem sextets_lt (bs : List UInt8) : ∀ n ∈ sextets bs, n < 64 := by
  induction bs using sextets.induct with
  | case1 => simp [sextets]
  | case2 a =>
      have := a.toNat_lt
      simp only [sextets, List.forall_mem_cons]
      exact ⟨by omega, by omega, by simp⟩
  | case3 a b =>
      have := a.toNat_lt
      have := b.toNat_lt
      simp only [sextets, List.forall_mem_cons]
      exact ⟨by omega, by omega, by omega, by simp⟩
  | case4 a b c rest ih =>
      have := a.toNat_lt
      have := b.toNat_lt
      have := c.toNat_lt
      simp only [sextets, List.forall_mem_cons]
      exact ⟨by omega, by omega, by omega, by omega, ih⟩

theorem octet_eq {a : UInt8} {n : Nat} (h : n = a.toNat) : UInt8.ofNat n = a := by
  rw [h, UInt8.ofNat_toNat]

theorem octets_sextets (bs : List UInt8) : octets (sextets bs) = some bs := by
  induction bs using sextets.induct with
  | case1 => rfl
  | case2 a =>
      have := a.toNat_lt
      rw [sextets, octets, if_pos (by omega), octet_eq (a := a) (by omega)]
  | case3 a b =>
      have := a.toNat_lt
      have := b.toNat_lt
      rw [sextets, octets, if_pos (by omega), octet_eq (a := a) (by omega),
        octet_eq (a := b) (by omega)]
  | case4 a b c rest ih =>
      have := a.toNat_lt
      have := b.toNat_lt
      have := c.toNat_lt
      rw [sextets, octets, ih, Option.map_some, octet_eq (a := a) (by omega),
        octet_eq (a := b) (by omega), octet_eq (a := c) (by omega)]

theorem mapM_value_digit {ns : List Nat} (h : ∀ n ∈ ns, n < 64) :
    (ns.map digit).mapM value = some ns := by
  induction ns with
  | nil => rfl
  | cons n ns ih =>
      rw [List.map_cons, List.mapM_cons, value_digit (h n List.mem_cons_self),
        ih fun m hm => h m (List.mem_cons_of_mem _ hm)]
      rfl

theorem decode_encode (bs : List UInt8) : decode (encode bs) = some bs := by
  rw [decode, encode, String.toList_ofList, mapM_value_digit (sextets_lt bs), Option.bind_some,
    octets_sextets]

end Base64url

end Stelyph
