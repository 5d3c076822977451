import Stelyph.Lib.Form

/-!
# percent_decode

The same function twice: in the front Worker (`rust-worker/src/lib.rs`)
and in the did:web resolver (`identity/web_resolver.rs`). The two
characters behind a percent sign go to `u8::from_str_radix`, which takes
a plus sign in front of the digits: `%+a` is decoded too, and nothing
else that the RFC would not decode (`decodeWith_radix_iff`).
-/

namespace Stelyph

/-- `u8::from_str_radix` with base 16, of two bytes. Bytes that are not
UTF-8 are no digits. -/
def fromStrRadix (h l : UInt8) : Option UInt8 :=
  if h = 0x2b then (Percent.hexValue l).map UInt8.ofNat else Percent.triplet h l

def percentDecode (s : String) : String :=
  Utf8.lossy (Percent.decodeWith fromStrRadix (Text.bytes s))

theorem fromStrRadix_of_ne {h : UInt8} (hh : h ≠ 0x2b) (l : UInt8) :
    fromStrRadix h l = Percent.triplet h l := if_neg hh

theorem triplet_plus (l : UInt8) : Percent.triplet 0x2b l = none := rfl

/-- A signed digit somewhere behind a percent sign: `from_str_radix` takes
the plus sign, where the standard takes digits alone. -/
def SignedTriplet (bs : List UInt8) : Prop :=
  ∃ pre d post, bs = pre ++ 0x25 :: 0x2b :: d :: post ∧ (Percent.hexValue d).isSome

theorem SignedTriplet.cons {b : UInt8} {bs : List UInt8} (h : SignedTriplet bs) :
    SignedTriplet (b :: bs) := by
  obtain ⟨pre, d, post, rfl, hd⟩ := h
  exact ⟨b :: pre, d, post, rfl, hd⟩

/-- It starts the text, or is in the rest. -/
theorem signedTriplet_cons {b : UInt8} {bs : List UInt8} (h : SignedTriplet (b :: bs)) :
    (b = 0x25 ∧ ∃ d post, bs = 0x2b :: d :: post ∧ (Percent.hexValue d).isSome)
      ∨ SignedTriplet bs := by
  obtain ⟨pre, d, post, heq, hd⟩ := h
  cases pre with
  | nil =>
      obtain ⟨rfl, rfl⟩ := List.cons.inj heq
      exact Or.inl ⟨rfl, d, post, rfl, hd⟩
  | cons x pre =>
      obtain ⟨-, rfl⟩ := List.cons.inj heq
      exact Or.inr ⟨pre, d, post, rfl, hd⟩

theorem hexValue_lt {b : UInt8} {n : Nat} (h : Percent.hexValue b = some n) : n < 16 := by
  unfold Percent.hexValue at h
  split_ifs at h with h1 h2 h3
  · obtain rfl := Option.some.inj h
    simp only [Bool.and_eq_true, decide_eq_true_eq, UInt8.le_iff_toNat_le] at h1
    have : (0x39 : UInt8).toNat = 0x39 := rfl
    omega
  · obtain rfl := Option.some.inj h
    simp only [Bool.and_eq_true, decide_eq_true_eq, UInt8.le_iff_toNat_le] at h2
    have : (0x46 : UInt8).toNat = 0x46 := rfl
    omega
  · obtain rfl := Option.some.inj h
    simp only [Bool.and_eq_true, decide_eq_true_eq, UInt8.le_iff_toNat_le] at h3
    have : (0x66 : UInt8).toNat = 0x66 := rfl
    omega

theorem SignedTriplet.length {bs : List UInt8} (h : SignedTriplet bs) : 3 ≤ bs.length := by
  obtain ⟨pre, d, post, rfl, -⟩ := h
  simp only [List.length_append, List.length_cons]
  omega

/-- A percent sign is no digit. -/
theorem triplet_percent {h l octet : UInt8} (hv : Percent.triplet h l = some octet) :
    h ≠ 0x25 ∧ l ≠ 0x25 := by
  constructor
  · rintro rfl
    cases hv
  · rintro rfl
    rw [Percent.triplet] at hv
    cases hh : Percent.hexValue h <;> rw [hh] at hv <;> cases hv

/-- The signed triplets are the whole difference. -/
theorem decodeWith_radix_iff (bs : List UInt8) :
    Percent.decodeWith fromStrRadix bs = Percent.decode bs ↔ ¬ SignedTriplet bs := by
  induction bs using Percent.decodeWith.induct fromStrRadix with
  | case1 => exact iff_of_true rfl fun h => absurd h.length (by simp)
  | case2 b => exact iff_of_true rfl fun h => absurd h.length (by simp)
  | case3 b h => exact iff_of_true rfl fun h => absurd h.length (by simp)
  | case4 h l rest octet hv ih =>
      rw [Percent.decodeWith_some hv]
      by_cases hplus : h = 0x2b
      · subst hplus
        obtain ⟨n, hn, rfl⟩ := Option.map_eq_some_iff.mp hv
        refine iff_of_false ?_ (not_not_intro ⟨[], l, rest, rfl, by rw [hn]; rfl⟩)
        rw [Percent.decode, Percent.decodeWith_none (triplet_plus l)]
        intro heq
        have hnat := congrArg UInt8.toNat (List.cons.inj heq).1
        have hlt := hexValue_lt hn
        rw [UInt8.toNat_ofNat', Nat.mod_eq_of_lt (by omega)] at hnat
        have : (0x25 : UInt8).toNat = 0x25 := rfl
        omega
      · have htriplet : Percent.triplet h l = some octet := by
          rw [← fromStrRadix_of_ne hplus, hv]
        obtain ⟨hh, hl⟩ := triplet_percent htriplet
        rw [Percent.decode, Percent.decodeWith_some htriplet, List.cons_inj_right]
        refine ih.trans (not_congr ⟨fun hsig => hsig.cons.cons.cons, fun hsig => ?_⟩)
        rcases signedTriplet_cons hsig with ⟨-, d, post, heq, -⟩ | hsig
        · exact absurd (List.cons.inj heq).1 hplus
        · rcases signedTriplet_cons hsig with ⟨h25, -⟩ | hsig
          · exact absurd h25 hh
          · rcases signedTriplet_cons hsig with ⟨h25, -⟩ | hsig
            · exact absurd h25 hl
            · exact hsig
  | case5 h l rest hv ih =>
      have htriplet : Percent.triplet h l = none := by
        by_cases hplus : h = 0x2b
        · rw [hplus]
          exact triplet_plus l
        · rw [← fromStrRadix_of_ne hplus, hv]
      rw [Percent.decodeWith_none hv, Percent.decode, Percent.decodeWith_none htriplet,
        List.cons_inj_right]
      refine ih.trans (not_congr ⟨fun hsig => hsig.cons, fun hsig => ?_⟩)
      rcases signedTriplet_cons hsig with ⟨-, d, post, heq, hd⟩ | hsig
      · obtain ⟨hplus, heq⟩ := List.cons.inj heq
        obtain ⟨rfl, -⟩ := List.cons.inj heq
        rw [fromStrRadix, if_pos hplus, Option.map_eq_none_iff] at hv
        rw [hv] at hd
        cases hd
      · exact hsig
  | case6 b h l rest hb ih =>
      rw [Percent.decodeWith_cons hb, Percent.decode, Percent.decodeWith_cons hb,
        List.cons_inj_right]
      refine ih.trans (not_congr ⟨fun hsig => hsig.cons, fun hsig => ?_⟩)
      rcases signedTriplet_cons hsig with ⟨h25, -⟩ | hsig
      · exact absurd h25 hb
      · exact hsig

/-- A signed triplet takes a plus sign away, and nothing adds one. -/
theorem count_plus_decodeWith_radix (bs : List UInt8) :
    (Percent.decodeWith fromStrRadix bs).count 0x2b ≤ (Percent.decode bs).count 0x2b
    ∧ ((Percent.decodeWith fromStrRadix bs).count 0x2b = (Percent.decode bs).count 0x2b →
      Percent.decodeWith fromStrRadix bs = Percent.decode bs) := by
  have hcons : ∀ {b : UInt8} {xs ys : List UInt8},
      (xs.count 0x2b ≤ ys.count 0x2b ∧ (xs.count 0x2b = ys.count 0x2b → xs = ys)) →
      (b :: xs).count 0x2b ≤ (b :: ys).count 0x2b
        ∧ ((b :: xs).count 0x2b = (b :: ys).count 0x2b → b :: xs = b :: ys) := by
    intro b xs ys h
    rw [List.count_cons, List.count_cons, Nat.add_le_add_iff_right, Nat.add_right_cancel_iff]
    exact ⟨h.1, fun heq => congrArg (b :: ·) (h.2 heq)⟩
  induction bs using Percent.decodeWith.induct fromStrRadix with
  | case1 => exact ⟨Nat.le_refl _, fun _ => rfl⟩
  | case2 b => exact ⟨Nat.le_refl _, fun _ => rfl⟩
  | case3 b h => exact ⟨Nat.le_refl _, fun _ => rfl⟩
  | case4 h l rest octet hv ih =>
      rw [Percent.decodeWith_some hv]
      by_cases hplus : h = 0x2b
      · subst hplus
        obtain ⟨n, hn, rfl⟩ := Option.map_eq_some_iff.mp hv
        have hlt := hexValue_lt hn
        have hl : l ≠ 0x25 := by
          rintro rfl
          cases hn
        have hoctet : UInt8.ofNat n ≠ 0x2b := by
          intro heq
          have hnat := congrArg UInt8.toNat heq
          rw [UInt8.toNat_ofNat', Nat.mod_eq_of_lt (by omega)] at hnat
          have : (0x2b : UInt8).toNat = 43 := rfl
          omega
        have hdecode : Percent.decode (0x25 :: 0x2b :: l :: rest)
            = 0x25 :: 0x2b :: l :: Percent.decode rest := by
          rw [Percent.decode, Percent.decodeWith_none (triplet_plus l),
            Percent.decodeWith_cons (by decide), Percent.decodeWith_cons hl]
          rfl
        have hcount : (0x25 :: 0x2b :: l :: Percent.decode rest).count 0x2b
            = (l :: Percent.decode rest).count 0x2b + 1 := by
          rw [List.count_cons_of_ne (by decide), List.count_cons_self]
        have hle := List.count_le_count_cons (a := 0x2b) (b := l) (l := Percent.decode rest)
        rw [hdecode, List.count_cons_of_ne hoctet, hcount]
        have := ih.1
        exact ⟨by omega, fun heq => by omega⟩
      · have htriplet : Percent.triplet h l = some octet := by
          rw [← fromStrRadix_of_ne hplus, hv]
        rw [Percent.decode, Percent.decodeWith_some htriplet]
        exact hcons ih
  | case5 h l rest hv ih =>
      have htriplet : Percent.triplet h l = none := by
        by_cases hplus : h = 0x2b
        · rw [hplus]
          exact triplet_plus l
        · rw [← fromStrRadix_of_ne hplus, hv]
      rw [Percent.decodeWith_none hv, Percent.decode, Percent.decodeWith_none htriplet]
      exact hcons ih
  | case6 b h l rest hb ih =>
      rw [Percent.decodeWith_cons hb, Percent.decode, Percent.decodeWith_cons hb]
      exact hcons ih

/-- `percent_decode` decodes as the RFC does: where no signed digit stands
behind a percent sign, and the result is UTF-8. -/
theorem percentDecode_right_iff (s : String) :
    Text.bytes (percentDecode s) = Percent.decode (Text.bytes s)
      ↔ ¬ SignedTriplet (Text.bytes s) ∧ ∃ t, Text.bytes t = Percent.decode (Text.bytes s) := by
  rw [← decodeWith_radix_iff, percentDecode]
  constructor
  · intro h
    have hle := Utf8.count_bytes_lossy (b := 0x2b) (by decide)
      (Percent.decodeWith fromStrRadix (Text.bytes s))
    rw [h] at hle
    obtain ⟨hge, heq⟩ := count_plus_decodeWith_radix (Text.bytes s)
    exact ⟨heq (Nat.le_antisymm hge hle), _, h⟩
  · rintro ⟨heq, t, ht⟩
    rw [heq, ← ht, Utf8.lossy_bytes]

end Stelyph
