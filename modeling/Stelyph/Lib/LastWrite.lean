import Mathlib.Data.List.Basic

/-!
# What was cleared since it was set

A log of what happened, some entries of which set something and some of
which clear it. `ClearedSince` says that nothing is set at its end.
-/

namespace Stelyph

variable {α : Type} {sets clears : α → Prop}

/-- Behind every entry that sets there is one that clears. -/
def ClearedSince (sets clears : α → Prop) (log : List α) : Prop :=
  ∀ l a l', log = l ++ a :: l' → sets a → ∃ b ∈ l', clears b

/-- Where an entry of a log that has grown by one stands. -/
theorem snoc_eq_append_cons {log l l' : List α} {a b : α} (h : log ++ [b] = l ++ a :: l') :
    (l' = [] ∧ a = b ∧ log = l) ∨ ∃ l'', l' = l'' ++ [b] ∧ log = l ++ a :: l'' := by
  rcases List.eq_nil_or_concat l' with rfl | ⟨l'', c, rfl⟩
  · obtain ⟨hlog, hlast⟩ := List.append_inj' h rfl
    exact Or.inl ⟨rfl, (List.singleton_inj.mp hlast).symm, hlog⟩
  · rw [List.concat_eq_append, ← List.cons_append, ← List.append_assoc] at h
    obtain ⟨hlog, hlast⟩ := List.append_inj' h rfl
    exact Or.inr ⟨l'', by rw [List.concat_eq_append, List.singleton_inj.mp hlast], hlog⟩

theorem clearedSince_nil : ClearedSince sets clears [] := fun l a l' h => by
  cases l <;> cases h

/-- An entry that does not set. -/
theorem ClearedSince.snoc {log : List α} {b : α} (h : ClearedSince sets clears log)
    (hb : ¬ sets b) : ClearedSince sets clears (log ++ [b]) := by
  intro l a l' hlog ha
  rcases snoc_eq_append_cons hlog with ⟨-, rfl, -⟩ | ⟨l'', rfl, hlog'⟩
  · exact absurd ha hb
  · obtain ⟨c, hc, hclears⟩ := h l a l'' hlog' ha
    exact ⟨c, List.mem_append_left _ hc, hclears⟩

/-- An entry that clears, whatever was before. -/
theorem clearedSince_of_clears (log : List α) {b : α} (hclears : clears b) (hb : ¬ sets b) :
    ClearedSince sets clears (log ++ [b]) := by
  intro l a l' hlog ha
  rcases snoc_eq_append_cons hlog with ⟨-, rfl, -⟩ | ⟨l'', rfl, -⟩
  · exact absurd ha hb
  · exact ⟨b, List.mem_append_right _ List.mem_cons_self, hclears⟩

end Stelyph
