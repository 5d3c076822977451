import Mathlib.Data.List.Basic
import Mathlib.Order.Defs.LinearOrder

/-!
# Repetitions in a row

To leave out an element that equals the one before it leaves out every
repetition where equal elements stand together. They do in the image of a
sorted list under a function whose fibres have no gaps.
-/

namespace Stelyph

namespace Adjacent

variable {α : Type} [DecidableEq α] {a : α} {xs out : List α}

/-- Append an element unless it is the last already. -/
def push (out : List α) (a : α) : List α := if out.getLast? = some a then out else out ++ [a]

theorem mem_foldl_push : a ∈ xs.foldl push out ↔ a ∈ out ∨ a ∈ xs := by
  induction xs generalizing out with
  | nil => simp
  | cons x xs ih =>
      rw [List.foldl_cons, ih, push]
      split
      · rename_i hlast
        have hx := List.mem_of_getLast? hlast
        constructor
        · rintro (h | h)
          · exact Or.inl h
          · exact Or.inr (List.mem_cons_of_mem x h)
        · rintro (h | h)
          · exact Or.inl h
          · rcases List.mem_cons.mp h with rfl | h
            · exact Or.inl hx
            · exact Or.inr h
      · simp only [List.mem_append, List.mem_cons, List.not_mem_nil, or_false, or_assoc]

/-- Where an element comes again, it comes next. -/
def Together : List α → Prop
  | [] => True
  | a :: xs => (a ∈ xs → xs.head? = some a) ∧ Together xs

/-- What is left out of a list whose equal elements stand together is
exactly the repetitions. -/
theorem nodup_foldl_push (hxs : Together xs) (hout : out.Nodup)
    (hseam : ∀ a ∈ out, a ∈ xs → out.getLast? = some a ∧ xs.head? = some a) :
    (xs.foldl push out).Nodup := by
  induction xs generalizing out with
  | nil => exact hout
  | cons x xs ih =>
      obtain ⟨hnext, hrest⟩ := hxs
      rw [List.foldl_cons, push]
      split
      · rename_i hlast
        refine ih hrest hout fun a ha hmem => ?_
        have hsame := (hseam a ha (List.mem_cons_of_mem x hmem)).1
        obtain rfl := Option.some.inj (hlast.symm.trans hsame)
        exact ⟨hlast, hnext hmem⟩
      · rename_i hlast
        have hfresh : x ∉ out := fun hx => hlast (hseam x hx List.mem_cons_self).1
        refine ih hrest ?_ fun a ha hmem => ?_
        · refine List.nodup_append.mpr ⟨hout, by simp, fun a ha b hb heq => hfresh ?_⟩
          rwa [← List.mem_singleton.mp hb, ← heq]
        · rcases List.mem_append.mp ha with ha | ha
          · have hhead := (hseam a ha (List.mem_cons_of_mem x hmem)).2
            obtain rfl := Option.some.inj hhead
            exact absurd ha hfresh
          · obtain rfl := List.mem_singleton.mp ha
            exact ⟨List.getLast?_concat, hnext hmem⟩

omit [DecidableEq α] in
/-- In a sorted list, the elements of a fibre without gaps stand together. -/
theorem together_map {κ : Type} [Preorder κ] {f : κ → α} {keys : List κ}
    (hsorted : keys.Pairwise (· < ·))
    (hgaps : ∀ a ∈ keys, ∀ x ∈ keys, ∀ b ∈ keys, a < x → x < b → f a = f b → f x = f a) :
    Together (keys.map f) := by
  induction keys with
  | nil => trivial
  | cons key keys ih =>
      obtain ⟨hfirst, hrest⟩ := List.pairwise_cons.mp hsorted
      refine ⟨fun hmem => ?_, ih hrest fun a ha x hx b hb =>
        hgaps a (List.mem_cons_of_mem key ha) x (List.mem_cons_of_mem key hx) b
          (List.mem_cons_of_mem key hb)⟩
      obtain ⟨b, hb, hfb⟩ := List.mem_map.mp hmem
      cases keys with
      | nil => cases hb
      | cons next keys =>
          rw [List.map_cons, List.head?_cons]
          rcases List.mem_cons.mp hb with rfl | hb
          · rw [hfb]
          · have hlt : next < b := (List.pairwise_cons.mp hrest).1 b hb
            rw [hgaps key List.mem_cons_self next (List.mem_cons_of_mem key List.mem_cons_self) b
              (List.mem_cons_of_mem key (List.mem_cons_of_mem next hb))
              (hfirst next List.mem_cons_self) hlt hfb.symm]

theorem nodup_push_map {κ : Type} [Preorder κ] {f : κ → α} {keys : List κ}
    (hsorted : keys.Pairwise (· < ·))
    (hgaps : ∀ a ∈ keys, ∀ x ∈ keys, ∀ b ∈ keys, a < x → x < b → f a = f b → f x = f a) :
    ((keys.map f).foldl push []).Nodup :=
  nodup_foldl_push (together_map hsorted hgaps) List.nodup_nil fun _ ha => by cases ha

/-- Between two lists with a prefix in common all have that prefix. -/
theorem prefix_between {β : Type} [Preorder β] {p a x b : List β} (ha : p <+: a) (hb : p <+: b)
    (hax : a < x) (hxb : x < b) : p <+: x := by
  induction p generalizing a x b with
  | nil => exact List.nil_prefix
  | cons c p ih =>
      obtain ⟨a', rfl⟩ := ha
      obtain ⟨b', rfl⟩ := hb
      rw [List.cons_append] at hax hxb
      cases x with
      | nil => exact absurd hax (List.not_lt_nil _)
      | cons y x =>
          rcases List.cons_lt_cons_iff.mp hax with hcy | ⟨rfl, hlow⟩
          · rcases List.cons_lt_cons_iff.mp hxb with hyc | ⟨rfl, -⟩
            · exact absurd hyc (lt_asymm hcy)
            · exact absurd hcy (lt_irrefl _)
          · rcases List.cons_lt_cons_iff.mp hxb with hyc | ⟨-, hhigh⟩
            · exact absurd hyc (lt_irrefl _)
            · exact List.cons_prefix_cons.mpr
                ⟨rfl, ih (List.prefix_append p a') (List.prefix_append p b') hlow hhigh⟩

end Adjacent

end Stelyph
