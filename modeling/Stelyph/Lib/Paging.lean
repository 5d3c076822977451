import Mathlib.Data.List.Basic
import Mathlib.Order.Lattice

/-!
# Listings cut into pages

A listing in strictly increasing key order, and a reader who asks for it
page by page: each request carries a limit, and the last key of the page
before as a cursor. A page that is full comes with a cursor, and a page
that is not is the last one. Whatever limits the reader chooses, the
pages put together are the listing.
-/

namespace Stelyph

namespace Paging

section

variable {α κ : Type} [LinearOrder κ] (key : α → κ)

/-- What comes after the cursor. -/
def after : Option κ → List α → List α
  | none, es => es
  | some c, es => es.filter fun e => c < key e

/-- A listing in the order of its keys is determined by its entries. -/
theorem eq_of_mem_iff {es es' : List α} (hes : es.Pairwise fun a b => key a < key b)
    (hes' : es'.Pairwise fun a b => key a < key b) (h : ∀ e, e ∈ es ↔ e ∈ es') : es = es' := by
  have hnodup : ∀ {xs : List α}, (xs.Pairwise fun a b => key a < key b) → xs.Nodup := by
    refine fun {xs} hxs => hxs.imp fun {a b} hlt heq => ?_
    rw [heq] at hlt
    exact lt_irrefl _ hlt
  have hperm : es.Perm es' := (List.perm_ext_iff_of_nodup (hnodup hes) (hnodup hes')).mpr h
  exact hperm.eq_of_pairwise (fun _ _ _ _ hab hba => absurd hba (lt_asymm hab)) hes hes'

/-- A page: some entries, and the cursor of the next if this one is full. -/
def page (limit : Nat) (cursor : Option κ) (es : List α) : List α × Option κ :=
  let records := (after key cursor es).take limit
  (records, if records.length = limit then records.getLast?.map key else none)

/-- All pages from a cursor on, as long as the requests are answered and
`fuel` lasts; `fetch n` is the `n`-th request. -/
def through (fetch : Nat → Option κ → Option (List α × Option κ)) :
    Nat → Nat → Option κ → Option (List α)
  | 0, _, _ => none
  | fuel + 1, n, cursor =>
      match fetch n cursor with
      | none => none
      | some (records, none) => some records
      | some (records, some c) =>
          (through fetch fuel (n + 1) (some c)).map fun rest => records ++ rest

variable {key} {fetch : Nat → Option κ → Option (List α × Option κ)} {limit : Nat → Nat}
  {es : List α}

omit [LinearOrder κ] in
theorem through_of_none (h : ∀ n cursor, fetch n cursor = none) (fuel n : Nat)
    (cursor : Option κ) : through fetch fuel n cursor = none := by
  cases fuel with
  | zero => rfl
  | succ fuel => rw [through, h]

theorem after_map {β : Type} (f : β → α) (cursor : Option κ) (es : List β) :
    after key cursor (es.map f) = (after (fun e => key (f e)) cursor es).map f := by
  cases cursor with
  | none => rfl
  | some c => rw [after, after, List.filter_map, Function.comp_def]

/-- After the key of an entry come the entries behind it. -/
theorem after_key {l r : List α} {x : α}
    (hsorted : (l ++ x :: r).Pairwise fun a b => key a < key b) :
    after key (some (key x)) (l ++ x :: r) = r := by
  obtain ⟨-, hr, hlr⟩ := List.pairwise_append.mp hsorted
  obtain ⟨hx, -⟩ := List.pairwise_cons.mp hr
  have hl : l.filter (fun e => decide (key x < key e)) = [] := by
    rw [List.filter_eq_nil_iff]
    intro e he
    simpa using (hlr e he x List.mem_cons_self).le
  have hr : r.filter (fun e => decide (key x < key e)) = r := by
    rw [List.filter_eq_self]
    intro e he
    simpa using hx e he
  rw [after, List.filter_append, hl, List.filter_cons_of_neg (by simp), hr, List.nil_append]

/-- Behind a cursor there is a rest of the listing. A page is either that
rest, or a part of it, and then the next cursor leads behind that part. -/
theorem page_cases {limit : Nat} (hlimit : 0 < limit) {l r : List α} {cursor : Option κ}
    (hsorted : (l ++ r).Pairwise fun a b => key a < key b)
    (hafter : after key cursor (l ++ r) = r) :
    (page key limit cursor (l ++ r) = (r, none))
    ∨ ∃ c, page key limit cursor (l ++ r) = (r.take limit, some c) ∧ limit ≤ r.length
      ∧ after key (some c) (l ++ r) = r.drop limit := by
  by_cases hlen : limit ≤ r.length
  · have htake : (r.take limit).length = limit := List.length_take_of_le hlen
    obtain ⟨front, x, hx⟩ : ∃ front x, r.take limit = front ++ [x] := by
      refine ⟨_, _, (List.dropLast_append_getLast ?_).symm⟩
      intro hnil
      rw [hnil] at htake
      exact absurd htake (Nat.ne_of_lt hlimit)
    have hsplit : l ++ r = (l ++ front) ++ x :: r.drop limit := by
      conv_lhs => rw [← List.take_append_drop limit r, hx]
      simp
    refine Or.inr ⟨key x, ?_, hlen, ?_⟩
    · rw [page, hafter, if_pos htake, hx]
      simp
    · rw [hsplit] at hsorted ⊢
      exact after_key hsorted
  · have htake : r.take limit = r := List.take_of_length_le (Nat.le_of_not_le hlen)
    refine Or.inl ?_
    rw [page, hafter, htake, if_neg (fun h => hlen (Nat.le_of_eq h.symm))]

variable (hfetch : ∀ n cursor, fetch n cursor = some (page key (limit n) cursor es))
  (hlimit : ∀ n, 0 < limit n) (hsorted : es.Pairwise fun a b => key a < key b)

include hfetch hlimit hsorted

/-- What the pages come to is the rest behind the cursor. -/
theorem through_rest {fuel n : Nat} {cursor : Option κ} {l r all : List α} (hes : es = l ++ r)
    (hafter : after key cursor es = r) (h : through fetch fuel n cursor = some all) : all = r := by
  induction fuel generalizing n cursor l r all with
  | zero => cases h
  | succ fuel ih =>
      rw [through, hfetch] at h
      subst hes
      rcases page_cases (hlimit n) hsorted hafter with hlast | ⟨c, hpage, -, hnext⟩
      · rw [hlast] at h
        exact (Option.some.inj h).symm
      · rw [hpage] at h
        obtain ⟨rest, hrest, rfl⟩ := Option.map_eq_some_iff.mp h
        have hes : l ++ r = (l ++ r.take (limit n)) ++ r.drop (limit n) := by
          rw [List.append_assoc, List.take_append_drop]
        rw [ih hes hnext hrest, List.take_append_drop]

/-- The pages come to an end. -/
theorem through_ends {fuel n : Nat} {cursor : Option κ} {l r : List α} (hes : es = l ++ r)
    (hafter : after key cursor es = r) (hfuel : r.length < fuel) :
    ∃ all, through fetch fuel n cursor = some all := by
  induction fuel generalizing n cursor l r with
  | zero => exact absurd hfuel (Nat.not_lt_zero _)
  | succ fuel ih =>
      rw [through, hfetch]
      subst hes
      rcases page_cases (hlimit n) hsorted hafter with hlast | ⟨c, hpage, hlen, hnext⟩
      · rw [hlast]
        exact ⟨r, rfl⟩
      · rw [hpage]
        have hes : l ++ r = (l ++ r.take (limit n)) ++ r.drop (limit n) := by
          rw [List.append_assoc, List.take_append_drop]
        have hshort : (r.drop (limit n)).length < fuel := by
          have hpos := hlimit n
          rw [List.length_drop]
          omega
        obtain ⟨rest, hrest⟩ := ih (n := n + 1) hes hnext hshort
        exact ⟨r.take (limit n) ++ rest, Option.map_eq_some_iff.mpr ⟨rest, hrest, rfl⟩⟩

/-- Whatever the limits, the pages put together are the listing. -/
theorem through_iff (P : List α → Prop) :
    (∃ fuel all, through fetch fuel 0 none = some all ∧ P all) ↔ P es := by
  constructor
  · intro ⟨fuel, all, hall, hP⟩
    rwa [through_rest hfetch hlimit hsorted (List.nil_append es).symm rfl hall] at hP
  · intro hP
    obtain ⟨all, hall⟩ := through_ends (n := 0) hfetch hlimit hsorted (List.nil_append es).symm
      (rfl : after key none es = es) (Nat.lt_succ_self es.length)
    refine ⟨_, all, hall, ?_⟩
    rwa [through_rest hfetch hlimit hsorted (List.nil_append es).symm rfl hall]

/-- With enough requests the reader is given the whole listing. -/
theorem through_all {fuel : Nat} (hfuel : es.length < fuel) :
    through fetch fuel 0 none = some es := by
  obtain ⟨all, hall⟩ := through_ends (n := 0) hfetch hlimit hsorted (List.nil_append es).symm
    (rfl : after key none es = es) hfuel
  rw [hall, through_rest hfetch hlimit hsorted (List.nil_append es).symm rfl hall]

end

/-- The last page comes, and the pages put together are `es`. -/
def Complete {α κ : Type} (fetch : Nat → Option κ → Option (List α × Option κ)) (es : List α) :
    Prop :=
  ∃ requests, ∀ fuel, requests ≤ fuel → through fetch fuel 0 none = some es

theorem complete_of_pages {α κ : Type} [LinearOrder κ] (key : α → κ) (limit : Nat → Nat)
    {fetch : Nat → Option κ → Option (List α × Option κ)} {es : List α}
    (hfetch : ∀ n cursor, fetch n cursor = some (page key (limit n) cursor es))
    (hlimit : ∀ n, 0 < limit n) (hsorted : es.Pairwise fun a b => key a < key b) :
    Complete fetch es :=
  ⟨es.length + 1, fun _ hfuel => through_all hfetch hlimit hsorted hfuel⟩

end Paging

end Stelyph
