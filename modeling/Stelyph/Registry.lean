import Stelyph.Lib.Table

/-!
# The registry object

`rust-worker/src/registry.rs`: one object for the whole deployment, with
a row for each claimed label and a row for each invite code. Every
operation is await-free in the source, hence one step here.

A claim is `reserved` from the claim until the DID is bound to it and
`active` from then on, and remembers the invite it cost.
-/

namespace Stelyph

/-- A label is reserved until the account it was claimed for exists. -/
inductive ClaimState where
  | reserved
  | active
deriving DecidableEq, Repr

/-- Who has a label, and the invite it was claimed with. -/
structure ClaimRow where
  did : Option String
  state : ClaimState
  inviteCode : Option String
deriving DecidableEq, Repr

/-- A code with the uses that are left of it. -/
structure InviteRow where
  availableUses : Int
  disabled : Bool
deriving DecidableEq, Repr

/-- The tables of the one object that all signups go through: who has
claimed a label, and what is left of each code. -/
structure Registry where
  claims : Table String ClaimRow
  invites : Table String InviteRow

/-- A claim is granted or refused for one of two reasons. -/
inductive ClaimAnswer where
  | ok
  | handleNotAvailable
  | invalidInviteCode
deriving DecidableEq, Repr

namespace Registry

def isTaken (g : Registry) (label : String) : Bool := g.claims.contains label

/-- The row of a claim, without a DID as yet. -/
def reserve (g : Registry) (label : String) (inviteCode : Option String) : Registry :=
  { g with claims := g.claims.insert label ⟨none, .reserved, inviteCode⟩ }

/-- `UPDATE invites SET available_uses = available_uses + n WHERE code = ?`. -/
def addUses (g : Registry) (code : String) (n : Int) : Registry :=
  match g.invites.get code with
  | none => g
  | some row =>
      { g with invites := g.invites.insert code { row with availableUses := row.availableUses + n } }

/-- A label that is free, and where registration is closed a use of a
code: both are taken in one turn of the object. -/
def claim (g : Registry) (label : String) (inviteCode : Option String) (isOpen : Bool) :
    ClaimAnswer × Registry :=
  if g.isTaken label then (.handleNotAvailable, g)
  else if isOpen then (.ok, g.reserve label none)
  else
    match inviteCode with
    | none => (.invalidInviteCode, g)
    | some code =>
        match g.invites.get code with
        | none => (.invalidInviteCode, g)
        | some row =>
            if row.disabled = false ∧ row.availableUses > 0 then
              (.ok, (g.addUses code (-1)).reserve label (some code))
            else (.invalidInviteCode, g)

/-- Undo a reservation; an active row stays, and nothing is refunded for it. -/
def release (g : Registry) (label : String) : Registry :=
  match g.claims.get label with
  | none => g
  | some row =>
      match row.state with
      | .active => g
      | .reserved =>
          let refunded := match row.inviteCode with
            | none => g
            | some code => g.addUses code 1
          { refunded with claims := refunded.claims.remove label }

/-- The account that was made for a label gets its row: the claim is
active from here on. A label that was released meanwhile has none, and
nothing is done. -/
def bind (g : Registry) (label did : String) : Registry :=
  match g.claims.get label with
  | none => g
  | some row =>
      { g with claims := g.claims.insert label { row with did := some did, state := .active } }

/-- The row goes whatever its state is, and no use is paid back. -/
def forceRelease (g : Registry) (label : String) : Registry :=
  { g with claims := g.claims.remove label }

/-- A code is minted, and one that was minted before starts anew. -/
def seedInvite (g : Registry) (code : String) (uses : Int) : Registry :=
  { g with invites := g.invites.insert code ⟨uses, false⟩ }

/-! ## Which labels have a row -/

@[simp] theorem addUses_claims (g : Registry) (code : String) (n : Int) :
    (g.addUses code n).claims = g.claims := by
  unfold addUses
  split <;> rfl

theorem isTaken_reserve (g : Registry) (label l : String) (code : Option String) :
    (g.reserve label code).isTaken l = (decide (l = label) || g.isTaken l) := by
  rw [Bool.eq_iff_iff]
  simp only [isTaken, reserve, Table.contains_iff, Table.get_insert_eq_some, Bool.or_eq_true,
    decide_eq_true_eq]
  constructor
  · rintro ⟨v, ⟨rfl, -⟩ | ⟨-, hv⟩⟩
    · exact Or.inl rfl
    · exact Or.inr ⟨v, hv⟩
  · rintro (rfl | ⟨v, hv⟩)
    · exact ⟨_, Or.inl ⟨rfl, rfl⟩⟩
    · by_cases hl : l = label
      · exact ⟨_, Or.inl ⟨hl, rfl⟩⟩
      · exact ⟨v, Or.inr ⟨hl, hv⟩⟩

/-- A claim that succeeds takes the label, which was free, and no other;
a claim that fails changes nothing. -/
theorem claim_cases (g : Registry) (label : String) (code : Option String) (isOpen : Bool) :
    ((g.claim label code isOpen).1 ≠ .ok ∧ (g.claim label code isOpen).2 = g) ∨
    ((g.claim label code isOpen).1 = .ok ∧ g.isTaken label = false
      ∧ ∀ l, (g.claim label code isOpen).2.isTaken l = (decide (l = label) || g.isTaken l)) := by
  unfold claim
  split
  · exact Or.inl ⟨by simp, rfl⟩
  · rename_i htaken
    have hfree : g.isTaken label = false := by simpa using htaken
    split
    · exact Or.inr ⟨rfl, hfree, fun l => isTaken_reserve g label l none⟩
    · split
      · exact Or.inl ⟨by simp, rfl⟩
      · split
        · exact Or.inl ⟨by simp, rfl⟩
        · split
          · refine Or.inr ⟨rfl, hfree, fun l => ?_⟩
            rw [isTaken_reserve]
            simp only [isTaken, addUses_claims]
          · exact Or.inl ⟨by simp, rfl⟩

theorem isTaken_remove (g : Registry) {label l : String} (h : l ≠ label) :
    ({ g with claims := g.claims.remove label } : Registry).isTaken l = g.isTaken l := by
  rw [Bool.eq_iff_iff]
  simp [isTaken, Table.contains_iff, Table.remove, Table.get_retain_eq_some, h]

/-- Neither way to release touches another label. -/
theorem isTaken_release (g : Registry) {label l : String} (h : l ≠ label) :
    (g.release label).isTaken l = g.isTaken l := by
  unfold release
  split
  · rfl
  · split
    · rfl
    · rw [isTaken_remove _ h]
      split
      · rfl
      · simp only [isTaken, addUses_claims]

theorem isTaken_forceRelease (g : Registry) {label l : String} (h : l ≠ label) :
    (g.forceRelease label).isTaken l = g.isTaken l :=
  isTaken_remove g h

@[simp] theorem isTaken_bind (g : Registry) (label did l : String) :
    (g.bind label did).isTaken l = g.isTaken l := by
  unfold bind
  split
  · rfl
  · rename_i row hrow
    rw [Bool.eq_iff_iff]
    simp only [isTaken, Table.contains_iff, Table.get_insert_eq_some]
    constructor
    · rintro ⟨v, ⟨rfl, -⟩ | ⟨-, hv⟩⟩
      · exact ⟨row, hrow⟩
      · exact ⟨v, hv⟩
    · rintro ⟨v, hv⟩
      by_cases hl : l = label
      · exact ⟨_, Or.inl ⟨hl, rfl⟩⟩
      · exact ⟨v, Or.inr ⟨hl, hv⟩⟩

end Registry

end Stelyph
