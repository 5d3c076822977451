import Stelyph.Lib.Paging
import Mathlib.Data.Finset.Card

/-!
# Pages of a listing that changes

A reader who goes from page to page while others write: the `n`-th request
is answered from the listing as it is then. The cursors only rise, so
nothing comes twice. What is listed was there when its page was cut, and
what was there all the time is listed (`Walked`). The walk ends if only
finitely many keys ever turn up.
-/

namespace Stelyph

namespace Paging

section

variable {α κ : Type} [LinearOrder κ] {key : α → κ}

/-- What a reader may rely on who starts at the request `n`, behind the
cursor. -/
structure Walked (key : α → κ) (present : Nat → List α) (n : Nat) (cursor : Option κ)
    (all : List α) : Prop where
  ordered : all.Pairwise fun a b => key a < key b
  behind : ∀ c, cursor = some c → ∀ e ∈ all, c < key e
  seen : ∀ e ∈ all, ∃ m, n ≤ m ∧ e ∈ present m
  kept : ∀ k, (∀ c, cursor = some c → c < k) → (∀ m, n ≤ m → ∃ e ∈ present m, key e = k) →
    ∃ e ∈ all, key e = k

theorem mem_after {cursor : Option κ} {es : List α} {e : α} :
    e ∈ after key cursor es ↔ e ∈ es ∧ ∀ c, cursor = some c → c < key e := by
  cases cursor with
  | none => exact ⟨fun h => ⟨h, fun _ hc => nomatch hc⟩, And.left⟩
  | some c => simp [after, List.mem_filter]

theorem after_sorted (cursor : Option κ) {es : List α}
    (hsorted : es.Pairwise fun a b => key a < key b) :
    (after key cursor es).Pairwise fun a b => key a < key b := by
  cases cursor with
  | none => exact hsorted
  | some c => exact hsorted.filter _

/-- What one page comes to: the rest behind the cursor, or the part of it
up to the next cursor. -/
theorem page_split {limit : Nat} (hlimit : 0 < limit) (cursor : Option κ) (es : List α) :
    page key limit cursor es = (after key cursor es, none)
    ∨ ∃ front x rest, page key limit cursor es = (front ++ [x], some (key x))
      ∧ after key cursor es = front ++ [x] ++ rest := by
  have htake : (after key cursor es).take limit ++ (after key cursor es).drop limit
      = after key cursor es := List.take_append_drop _ _
  by_cases hlen : limit ≤ (after key cursor es).length
  · have hfull : ((after key cursor es).take limit).length = limit := List.length_take_of_le hlen
    obtain ⟨front, x, hx⟩ : ∃ front x, (after key cursor es).take limit = front ++ [x] := by
      refine ⟨_, _, (List.dropLast_append_getLast ?_).symm⟩
      intro hnil
      rw [hnil] at hfull
      exact absurd hfull (Nat.ne_of_lt hlimit)
    refine Or.inr ⟨front, x, (after key cursor es).drop limit, ?_, by rw [← hx, htake]⟩
    rw [page, if_pos hfull, hx]
    simp
  · have hshort : (after key cursor es).take limit = after key cursor es :=
      List.take_of_length_le (Nat.le_of_not_le hlen)
    refine Or.inl ?_
    rw [page, hshort, if_neg fun h => hlen (Nat.le_of_eq h.symm)]

variable {present : Nat → List α} {limit : Nat → Nat}
  {fetch : Nat → Option κ → Option (List α × Option κ)}

/-- The last page. -/
theorem Walked.last {n : Nat} {cursor : Option κ}
    (hsorted : (present n).Pairwise fun a b => key a < key b) :
    Walked key present n cursor (after key cursor (present n)) where
  ordered := after_sorted cursor hsorted
  behind c hc e he := (mem_after.mp he).2 c hc
  seen e he := ⟨n, Nat.le_refl n, (mem_after.mp he).1⟩
  kept k hk hpresent := by
    obtain ⟨e, he, rfl⟩ := hpresent n (Nat.le_refl n)
    exact ⟨e, mem_after.mpr ⟨he, hk⟩, rfl⟩

/-- A full page, and what comes behind its last entry. -/
theorem Walked.cons {n : Nat} {cursor : Option κ} {front rest tail : List α} {x : α}
    (hsorted : (present n).Pairwise fun a b => key a < key b)
    (hafter : after key cursor (present n) = front ++ [x] ++ rest)
    (h : Walked key present (n + 1) (some (key x)) tail) :
    Walked key present n cursor (front ++ [x] ++ tail) := by
  have hrest := after_sorted cursor hsorted
  rw [hafter] at hrest
  obtain ⟨hfront, -, hbefore⟩ := List.pairwise_append.mp hrest
  obtain ⟨-, -, hlast⟩ := List.pairwise_append.mp hfront
  have hle : ∀ e ∈ front ++ [x], key e ≤ key x := by
    intro e he
    rcases List.mem_append.mp he with he | he
    · exact (hlast e he x List.mem_cons_self).le
    · rw [List.mem_singleton.mp he]
  have hmem : ∀ e ∈ front ++ [x], e ∈ after key cursor (present n) := fun e he => by
    rw [hafter]
    exact List.mem_append_left _ he
  have hx : ∀ c, cursor = some c → c < key x := fun c hc =>
    (mem_after.mp (hmem x (List.mem_append_right _ List.mem_cons_self))).2 c hc
  refine ⟨?_, fun c hc e he => ?_, fun e he => ?_, fun k hk hpresent => ?_⟩
  · refine List.pairwise_append.mpr ⟨hfront, h.ordered, fun a ha b hb => ?_⟩
    exact (hle a ha).trans_lt (h.behind _ rfl b hb)
  · rcases List.mem_append.mp he with he | he
    · exact (mem_after.mp (hmem e he)).2 c hc
    · exact (hx c hc).trans (h.behind _ rfl e he)
  · rcases List.mem_append.mp he with he | he
    · exact ⟨n, Nat.le_refl n, (mem_after.mp (hmem e he)).1⟩
    · obtain ⟨m, hm, hem⟩ := h.seen e he
      exact ⟨m, Nat.le_of_succ_le hm, hem⟩
  · -- a key that is there is on this page, or behind its last entry
    by_cases hkx : key x < k
    · obtain ⟨e, he, rfl⟩ := h.kept k (fun c hc => Option.some.inj hc ▸ hkx)
        fun m hm => hpresent m (Nat.le_of_succ_le hm)
      exact ⟨e, List.mem_append_right _ he, rfl⟩
    · obtain ⟨e, he, rfl⟩ := hpresent n (Nat.le_refl n)
      have hin : e ∈ front ++ [x] ++ rest := hafter ▸ mem_after.mpr ⟨he, hk⟩
      rcases List.mem_append.mp hin with hin | hin
      · exact ⟨e, List.mem_append_left _ hin, rfl⟩
      · exact absurd (hbefore x (List.mem_append_right _ List.mem_cons_self) e hin) hkx

omit [LinearOrder κ] in
/-- A walk that has come to its end stays there. -/
theorem through_mono {fuel fuel' n : Nat} {cursor : Option κ} {all : List α} (hle : fuel ≤ fuel')
    (h : through fetch fuel n cursor = some all) : through fetch fuel' n cursor = some all := by
  induction fuel generalizing fuel' n cursor all with
  | zero => cases h
  | succ fuel ih =>
      obtain ⟨more, rfl⟩ := Nat.exists_eq_add_of_le' hle
      rw [through] at h
      rw [← Nat.add_assoc, through]
      rcases hpage : fetch n cursor with _ | ⟨records, _ | c⟩
      · rw [hpage] at h
        cases h
      · rw [hpage] at h
        exact h
      · rw [hpage] at h
        obtain ⟨tail, htail, rfl⟩ := Option.map_eq_some_iff.mp h
        exact Option.map_eq_some_iff.mpr ⟨tail, ih (Nat.le_add_left fuel more) htail, rfl⟩

variable
  (hfetch : ∀ n cursor, fetch n cursor = some (page key (limit n) cursor (present n)))
  (hlimit : ∀ n, 0 < limit n)
  (hsorted : ∀ n, (present n).Pairwise fun a b => key a < key b)

include hfetch hlimit

/-- The cursors rise through the keys that turn up. -/
theorem walk_ends {keys : Finset κ} (hkeys : ∀ n, ∀ e ∈ present n, key e ∈ keys) {fuel n : Nat}
    {cursor : Option κ}
    (hfuel : (keys.filter fun k => ∀ c, cursor = some c → c < k).card < fuel) :
    ∃ all, through fetch fuel n cursor = some all := by
  induction fuel generalizing n cursor with
  | zero => exact absurd hfuel (Nat.not_lt_zero _)
  | succ fuel ih =>
      rw [through, hfetch]
      rcases page_split (hlimit n) cursor (present n)
        with hlast | ⟨front, x, rest, hpage, hafter⟩
      · rw [hlast]
        exact ⟨_, rfl⟩
      · have hx : x ∈ after key cursor (present n) := by
          rw [hafter]
          simp
        obtain ⟨hxmem, hxbehind⟩ := mem_after.mp hx
        have hfewer : (keys.filter fun k => ∀ c, some (key x) = some c → c < k).card < fuel := by
          refine lt_of_lt_of_le (Finset.card_lt_card ?_) (Nat.le_of_lt_succ hfuel)
          refine Finset.ssubset_iff_of_subset (fun k hk => ?_) |>.mpr ⟨key x, ?_, ?_⟩
          · obtain ⟨hk, hlt⟩ := Finset.mem_filter.mp hk
            exact Finset.mem_filter.mpr ⟨hk, fun c hc => (hxbehind c hc).trans (hlt _ rfl)⟩
          · exact Finset.mem_filter.mpr ⟨hkeys n x hxmem, hxbehind⟩
          · exact fun h => lt_irrefl _ ((Finset.mem_filter.mp h).2 _ rfl)
        rw [hpage]
        obtain ⟨tail, htail⟩ := ih (n := n + 1) hfewer
        exact ⟨front ++ [x] ++ tail, Option.map_eq_some_iff.mpr ⟨tail, htail, rfl⟩⟩

include hsorted

/-- **A walk beside writers**, to its end. -/
theorem walked_of_through {fuel n : Nat} {cursor : Option κ} {all : List α}
    (h : through fetch fuel n cursor = some all) : Walked key present n cursor all := by
  induction fuel generalizing n cursor all with
  | zero => cases h
  | succ fuel ih =>
      rw [through, hfetch] at h
      rcases page_split (hlimit n) cursor (present n)
        with hlast | ⟨front, x, rest, hpage, hafter⟩
      · rw [hlast] at h
        obtain rfl := Option.some.inj h
        exact .last (hsorted n)
      · rw [hpage] at h
        obtain ⟨tail, htail, rfl⟩ := Option.map_eq_some_iff.mp h
        exact .cons (hsorted n) hafter (ih htail)

/-- Both, from the first page on. -/
theorem walk (h : ∃ keys : Finset κ, ∀ n, ∀ e ∈ present n, key e ∈ keys) :
    ∃ requests all, Walked key present 0 none all
      ∧ ∀ fuel, requests ≤ fuel → through fetch fuel 0 none = some all := by
  obtain ⟨keys, hkeys⟩ := h
  obtain ⟨all, hall⟩ : ∃ all, through fetch _ 0 none = some all :=
    walk_ends hfetch hlimit hkeys (Nat.lt_succ_self _)
  exact ⟨_, all, walked_of_through hfetch hlimit hsorted hall, fun _ hle => through_mono hle hall⟩

end

end Paging

end Stelyph
