import Stelyph.Lib.Steps
import Stelyph.Registry

/-!
# Invite accounting

An invite's uses are spread over two tables: what is left of them in
`invites`, and a row in `claims` for each use that was spent. A run of
the registry is a list of operations, each of them one step. The ledger
remembers the codes of the rows that `force_release` took away, since
those are spent for good.

Minting a code again with no uses overwrites the counter and leaves the
rows. A reservation that is then released pays its use back into the
overwritten counter, so a revocation is final exactly when nothing is
reserved with the code at the time.
-/

namespace Stelyph

/-- The calls of the registry. Each is one turn of its object, so that a
run is a list of them. -/
inductive RegistryOp where
  | claim (label : String) (inviteCode : Option String) (isOpen : Bool)
  | release (label : String)
  | bind (label did : String)
  | forceRelease (label : String)
  | seedInvite (code : String) (uses : Int)
deriving DecidableEq, Repr

namespace RegistryOp

def apply (g : Registry) : RegistryOp → Registry
  | .claim label inviteCode isOpen => (g.claim label inviteCode isOpen).2
  | .release label => g.release label
  | .bind label did => g.bind label did
  | .forceRelease label => g.forceRelease label
  | .seedInvite code uses => g.seedInvite code uses

def seeds (code : String) : RegistryOp → Bool
  | .seedInvite c _ => c == code
  | _ => false

/-- A claim that goes through on the strength of the code. An open
registration looks at no code. -/
def admittedBy (code : String) (g : Registry) : RegistryOp → Bool
  | .claim label (some c) false =>
      c == code && decide ((g.claim label (some c) false).1 = .ok)
  | _ => false

end RegistryOp

/-- None of them is refused a turn. -/
def registryStep (g : Registry) (o : RegistryOp) : Option Registry := some (o.apply g)

/-- The registry, and the codes of the rows `force_release` has removed.
No table keeps these, and the account would not balance without them. -/
structure InviteLedger where
  registry : Registry
  forced : List String

namespace Registry

def carries (code : String) (row : ClaimRow) : Bool := row.inviteCode == some code

/-- The rows of `claims` that carry a code. -/
def carrying (g : Registry) (code : String) : Nat := g.claims.count (carries code)

/-- The code on the row of a label, where it has one. -/
def codeOf (g : Registry) (label : String) : Option String :=
  (g.claims.get label).bind fun row => row.inviteCode

end Registry

/-- A call, with its entry in the ledger: the code that a forced release
took away with the row that carried it. -/
def ledgerStep (s : InviteLedger) (o : RegistryOp) : Option InviteLedger :=
  some {
    registry := o.apply s.registry
    forced := match o with
      | .forceRelease label => (s.registry.codeOf label).toList ++ s.forced
      | _ => s.forced }

/-! ## What each operation does to a counter and to the rows -/

namespace Registry

variable {g : Registry} {code : String}

@[simp] theorem addUses_invites_of_ne {c : String} (h : c ≠ code) (n : Int) :
    (g.addUses c n).invites.get code = g.invites.get code := by
  unfold addUses
  split
  · rfl
  · exact Table.get_insert_of_ne h.symm

theorem addUses_invites_self {row : InviteRow} (h : g.invites.get code = some row) (n : Int) :
    (g.addUses code n).invites.get code
      = some { row with availableUses := row.availableUses + n } := by
  unfold addUses
  rw [h]
  exact Table.get_insert_self _ _ _

/-- What is left of a code and what its rows have spent make `total`. -/
structure Balanced (code : String) (total : Int) (g : Registry) : Prop where
  row : ∃ row, g.invites.get code = some row ∧ 0 ≤ row.availableUses
    ∧ row.availableUses + g.carrying code = total

variable {total : Int}

theorem carrying_reserve (code : String) {label : String} (hfree : g.isTaken label = false)
    (c : Option String) :
    (g.reserve label c).carrying code = g.carrying code + if c == some code then 1 else 0 := by
  have hnone : g.claims.get label = none := by simpa [isTaken, Table.contains] using hfree
  exact Table.count_insert_of_get_none hnone _ _

@[simp] theorem carrying_addUses (c : String) (n : Int) :
    (g.addUses c n).carrying code = g.carrying code := by
  rw [carrying, addUses_claims, carrying]

@[simp] theorem isTaken_addUses (c : String) (n : Int) (label : String) :
    (g.addUses c n).isTaken label = g.isTaken label := by
  rw [isTaken, addUses_claims, isTaken]

theorem Balanced.reserve_other (h : g.Balanced code total) {label : String}
    (hfree : g.isTaken label = false) {c : Option String} (hc : c ≠ some code) :
    (g.reserve label c).Balanced code total := by
  obtain ⟨row, hrow, hnonneg, hsum⟩ := h.row
  have hcarry := carrying_reserve code hfree c
  rw [if_neg (by simpa using hc), Nat.add_zero] at hcarry
  exact ⟨row, hrow, hnonneg, by rw [hcarry]; exact hsum⟩

theorem Balanced.addUses_other (h : g.Balanced code total) {c : String} (hc : c ≠ code)
    (n : Int) : (g.addUses c n).Balanced code total := by
  obtain ⟨row, hrow, hnonneg, hsum⟩ := h.row
  exact ⟨row, by rw [addUses_invites_of_ne hc, hrow], hnonneg, by rw [carrying_addUses]; exact hsum⟩

/-- A claim takes one use for the row it adds, or leaves both alone. -/
theorem Balanced.claim (h : g.Balanced code total) (label : String) (c : Option String)
    (isOpen : Bool) : (g.claim label c isOpen).2.Balanced code total := by
  unfold Registry.claim
  split
  · exact h
  · rename_i htaken
    have hfree : g.isTaken label = false := by simpa using htaken
    split
    · exact h.reserve_other hfree (by simp)
    · split
      · exact h
      · rename_i c
        split
        · exact h
        · rename_i row hrow
          split
          · rename_i hvalid
            by_cases hc : c = code
            · subst hc
              obtain ⟨row', hrow', -, hsum⟩ := h.row
              obtain rfl := Option.some.inj (hrow.symm.trans hrow')
              have hfree' : (g.addUses c (-1)).isTaken label = false := by simpa using hfree
              have hcarry := carrying_reserve c hfree' (some c)
              rw [carrying_addUses, beq_self_eq_true, if_pos rfl] at hcarry
              refine ⟨_, addUses_invites_self hrow (-1), ?_, ?_⟩
              · have := hvalid.2
                dsimp only
                omega
              · rw [hcarry]
                push_cast
                omega
            · exact (h.addUses_other hc (-1)).reserve_other (by simpa using hfree) (by simpa using hc)
          · exact h

theorem carrying_remove (code : String) {label : String} {row : ClaimRow} (h : g.claims.get label = some row) :
    ({ g with claims := g.claims.remove label } : Registry).carrying code
      + (if carries code row then 1 else 0) = g.carrying code :=
  Table.count_remove_of_get h _

/-- A release pays back the use of the row it removes. -/
theorem Balanced.release (h : g.Balanced code total) (label : String) :
    (g.release label).Balanced code total := by
  unfold Registry.release
  split
  · exact h
  · rename_i row hrow
    split
    · exact h
    · have hcarry := carrying_remove code hrow
      obtain ⟨inv, hinv, hnonneg, hsum⟩ := h.row
      cases hcode : row.inviteCode with
      | none =>
          rw [carries, hcode] at hcarry
          exact ⟨inv, hinv, hnonneg, by rw [← hcarry] at hsum; simpa using hsum⟩
      | some c =>
          dsimp only
          have hkeep : ({ g.addUses c 1 with claims := (g.addUses c 1).claims.remove label }
              : Registry).carrying code
              = ({ g with claims := g.claims.remove label } : Registry).carrying code := by
            simp only [carrying, addUses_claims]
          by_cases hc : c = code
          · subst hc
            rw [carries, hcode, beq_self_eq_true, if_pos rfl] at hcarry
            refine ⟨_, addUses_invites_self hinv 1, ?_, ?_⟩
            · dsimp only
              omega
            · rw [hkeep]
              dsimp only
              omega
          · rw [carries, hcode, if_neg (by simpa using hc), Nat.add_zero] at hcarry
            refine ⟨inv, ?_, hnonneg, ?_⟩
            · exact (addUses_invites_of_ne hc 1).trans hinv
            · rw [hkeep, hcarry]
              exact hsum

theorem Balanced.bind (h : g.Balanced code total) (label did : String) :
    (g.bind label did).Balanced code total := by
  unfold Registry.bind
  split
  · exact h
  · rename_i row hrow
    obtain ⟨inv, hinv, hnonneg, hsum⟩ := h.row
    have hcarry : (g.claims.insert label { row with did := some did, state := .active }).count
        (carries code) = g.claims.count (carries code) := Table.count_insert_of_get hrow rfl
    exact ⟨inv, hinv, hnonneg, by rw [carrying, hcarry]; exact hsum⟩

/-- What a forced release removes is spent for good. -/
theorem Balanced.forceRelease (h : g.Balanced code total) (label : String) :
    (g.forceRelease label).Balanced code (total - ((g.codeOf label).toList.count code : Nat)) := by
  obtain ⟨inv, hinv, hnonneg, hsum⟩ := h.row
  refine ⟨inv, hinv, hnonneg, ?_⟩
  cases hrow : g.claims.get label with
  | none =>
      have hsame : (g.forceRelease label).carrying code = g.carrying code := by
        rw [carrying, Registry.forceRelease, Table.count, Table.remove_of_get_none hrow]
        rfl
      simp [hsame, codeOf, hrow, hsum]
  | some row =>
      have hcarry : (g.forceRelease label).carrying code + _ = _ := carrying_remove code hrow
      have hcount : (g.codeOf label).toList.count code = if carries code row then 1 else 0 := by
        rw [codeOf, hrow, Option.bind_some, carries]
        cases row.inviteCode <;> simp [List.count_cons]
      rw [hcount]
      omega

theorem Balanced.seedInvite (h : g.Balanced code total) {c : String} (hc : c ≠ code)
    (uses : Int) : (g.seedInvite c uses).Balanced code total := by
  obtain ⟨inv, hinv, hnonneg, hsum⟩ := h.row
  exact ⟨inv, (Table.get_insert_of_ne hc.symm).trans hinv, hnonneg, hsum⟩

/-- Releasing twice is releasing once. -/
theorem release_release (g : Registry) (label : String) :
    (g.release label).release label = g.release label := by
  cases hrow : g.claims.get label with
  | none => simp only [Registry.release, hrow]
  | some row =>
      cases hstate : row.state with
      | active => simp only [Registry.release, hrow, hstate]
      | reserved =>
          have hnone : (g.release label).claims.get label = none := by
            simp only [Registry.release, hrow, hstate]
            exact Table.get_remove_self _ _
          rw [Registry.release, hnone]

theorem release_of_active {label : String} {row : ClaimRow} (h : g.claims.get label = some row)
    (hrow : row.state = .active) : g.release label = g := by
  rw [Registry.release, h]
  simp only [hrow]

end Registry

/-! ## The account of a code -/

/-- A code that was never minted. -/
structure Unminted (code : String) (g : Registry) : Prop where
  invites : g.invites.get code = none
  claims : g.carrying code = 0

/-- What the ledger says of a code minted once, with that many uses. -/
def Accounted (code : String) (uses : Int) (s : InviteLedger) : Prop :=
  s.registry.Balanced code (uses - (s.forced.count code : Nat))

section

variable {code : String} {uses : Int}

theorem Unminted.claim {g : Registry} (h : Unminted code g) (label : String)
    (c : Option String) (isOpen : Bool) : Unminted code (g.claim label c isOpen).2 := by
  have hreserve : ∀ {g : Registry} {c : Option String}, Unminted code g →
      g.isTaken label = false → c ≠ some code → Unminted code (g.reserve label c) := by
    intro g c h hfree hc
    refine ⟨h.invites, ?_⟩
    rw [Registry.carrying_reserve code hfree, h.claims, if_neg (by simpa using hc)]
  unfold Registry.claim
  split
  · exact h
  · rename_i htaken
    have hfree : g.isTaken label = false := by simpa using htaken
    split
    · exact hreserve h hfree (by simp)
    · split
      · exact h
      · rename_i c
        split
        · exact h
        · rename_i row hrow
          have hc : c ≠ code := by
            rintro rfl
            exact Option.some_ne_none _ (hrow.symm.trans h.invites)
          split
          · refine hreserve ⟨?_, ?_⟩ (by simpa using hfree) (by simpa using hc)
            · rw [Registry.addUses_invites_of_ne hc]
              exact h.invites
            · rw [Registry.carrying_addUses]
              exact h.claims
          · exact h

theorem unminted_remove {g : Registry} (h : Unminted code g) (label : String) :
    Unminted code { g with claims := g.claims.remove label } := by
  refine ⟨h.invites, ?_⟩
  cases hrow : g.claims.get label with
  | none =>
      rw [Registry.carrying, Table.count, Table.remove_of_get_none hrow]
      exact h.claims
  | some row =>
      have hcarry := Registry.carrying_remove code hrow
      rw [h.claims] at hcarry
      omega

theorem Unminted.codeOf_ne {g : Registry} (h : Unminted code g) (label : String) :
    g.codeOf label ≠ some code := by
  intro hcode
  obtain ⟨row, hrow, hcode⟩ := Option.bind_eq_some_iff.mp hcode
  have := Table.count_eq_zero.mp h.claims label row hrow
  simp [Registry.carries, hcode] at this

theorem Unminted.release {g : Registry} (h : Unminted code g) (label : String) :
    Unminted code (g.release label) := by
  unfold Registry.release
  split
  · exact h
  · rename_i row hrow
    split
    · exact h
    · cases hc : row.inviteCode with
      | none => exact unminted_remove h label
      | some c =>
          have hne : c ≠ code := by
            rintro rfl
            exact h.codeOf_ne label (by simp [Registry.codeOf, hrow, hc])
          refine unminted_remove (g := g.addUses c 1) ⟨?_, ?_⟩ label
          · rw [Registry.addUses_invites_of_ne hne]
            exact h.invites
          · rw [Registry.carrying_addUses]
            exact h.claims

theorem Unminted.bind {g : Registry} (h : Unminted code g) (label did : String) :
    Unminted code (g.bind label did) := by
  unfold Registry.bind
  split
  · exact h
  · rename_i row hrow
    have hcarry : (g.claims.insert label { row with did := some did, state := .active }).count
        (Registry.carries code) = g.claims.count (Registry.carries code) :=
      Table.count_insert_of_get hrow rfl
    exact ⟨h.invites, hcarry.trans h.claims⟩

/-- Before it is minted a code has no row anywhere. -/
theorem unminted_step {s s' : InviteLedger} {o : RegistryOp}
    (h : Unminted code s.registry ∧ s.forced.count code = 0) (ho : o.seeds code = false)
    (hstep : ledgerStep s o = some s') :
    Unminted code s'.registry ∧ s'.forced.count code = 0 := by
  obtain rfl := Option.some.inj hstep
  obtain ⟨hnew, hforced⟩ := h
  cases o with
  | claim label c isOpen => exact ⟨hnew.claim label c isOpen, hforced⟩
  | release label => exact ⟨hnew.release label, hforced⟩
  | bind label did => exact ⟨hnew.bind label did, hforced⟩
  | forceRelease label =>
      refine ⟨unminted_remove hnew label, ?_⟩
      have hne := hnew.codeOf_ne label
      rw [List.count_append, hforced, List.count_eq_zero.mpr]
      simpa [Option.mem_toList] using hne
  | seedInvite c uses =>
      have hc : c ≠ code := by simpa [RegistryOp.seeds] using ho
      exact ⟨⟨(Table.get_insert_of_ne hc.symm).trans hnew.invites, hnew.claims⟩, hforced⟩

theorem accounted_step {s s' : InviteLedger} {o : RegistryOp} (h : Accounted code uses s)
    (ho : o.seeds code = false) (hstep : ledgerStep s o = some s') : Accounted code uses s' := by
  obtain rfl := Option.some.inj hstep
  cases o with
  | claim label c isOpen => exact Registry.Balanced.claim h label c isOpen
  | release label => exact Registry.Balanced.release h label
  | bind label did => exact Registry.Balanced.bind h label did
  | forceRelease label =>
      have hforce := Registry.Balanced.forceRelease h label
      have htotal : uses - ((((s.registry.codeOf label).toList ++ s.forced).count code : Nat) : Int)
          = uses - (s.forced.count code : Nat)
            - ((s.registry.codeOf label).toList.count code : Nat) := by
        rw [List.count_append]
        omega
      rw [Accounted, htotal]
      exact hforce
  | seedInvite c n =>
      have hc : c ≠ code := by simpa [RegistryOp.seeds] using ho
      exact Registry.Balanced.seedInvite h hc n

theorem accounted_seed {s : InviteLedger} (h : Unminted code s.registry)
    (hforced : s.forced.count code = 0) (huses : 0 ≤ uses) :
    Accounted code uses ⟨s.registry.seedInvite code uses, s.forced⟩ := by
  refine ⟨⟨⟨uses, false⟩, Table.get_insert_self _ _ _, huses, ?_⟩⟩
  have hcarry : (s.registry.seedInvite code uses).carrying code = 0 := h.claims
  simp [hcarry, hforced]

/-- A code is minted once. From then on, whatever is claimed, released,
bound, removed or minted besides, what is left of it is what it was
minted with, less the rows that carry it, less those that a forced
release took away. A label has one row at most, and a release pays back
once, and never for a bound row. -/
theorem invite_accounting {g : Registry} {pre post : List RegistryOp} {s : InviteLedger}
    (hnew : Unminted code g) (huses : 0 ≤ uses) (hpre : ∀ o ∈ pre, o.seeds code = false)
    (hpost : ∀ o ∈ post, o.seeds code = false)
    (hrun : Steps.run ledgerStep ⟨g, []⟩ (pre ++ .seedInvite code uses :: post) = some s) :
    (∃ row, s.registry.invites.get code = some row
        ∧ row.availableUses = uses - s.registry.carrying code - s.forced.count code
        ∧ 0 ≤ row.availableUses)
      ∧ (∀ label, (s.registry.claims.rows.countP fun r => r.1 = label) ≤ 1)
      ∧ (∀ label, (s.registry.release label).release label = s.registry.release label)
      ∧ (∀ label row, s.registry.claims.get label = some row → row.state = .active →
        s.registry.release label = s.registry) := by
  obtain ⟨s₁, hrun₁, hrest⟩ := Steps.run_append_eq_some.mp hrun
  obtain ⟨s₂, hseed, hrun₂⟩ := Steps.run_cons_eq_some.mp hrest
  have h₁ : Unminted code s₁.registry ∧ s₁.forced.count code = 0 :=
    Steps.run_inv_along (I := fun s => Unminted code s.registry ∧ s.forced.count code = 0)
      (fun _ _ _ => unminted_step) ⟨hnew, rfl⟩ (Steps.along_of_mem fun _ o ho => hpre o ho) hrun₁
  obtain rfl := Option.some.inj hseed
  have hs : Accounted code uses s :=
    Steps.run_inv_along (I := Accounted code uses) (fun _ _ _ => accounted_step)
      (accounted_seed h₁.1 h₁.2 huses) (Steps.along_of_mem fun _ o ho => hpost o ho) hrun₂
  obtain ⟨row, hrow, hnonneg, hsum⟩ := hs.row
  exact ⟨⟨row, hrow, by omega, hnonneg⟩, fun label => s.registry.claims.countP_key_le_one label,
    fun label => s.registry.release_release label,
    fun label row hrow hstate => s.registry.release_of_active hrow hstate⟩

end

/-- Two uses: one bound, one reserved and released twice, a third claim,
and the bound row removed by force. -/
def sampleInviteRun : List RegistryOp :=
  [.claim "early" (some "x") false, .bind "never" "did:plc:n"]
    ++ .seedInvite "x" 2 ::
  [.claim "alice" (some "x") false, .bind "alice" "did:plc:a", .claim "bob" (some "x") false,
    .release "bob", .release "bob", .release "alice", .claim "carol" (some "x") false,
    .claim "dave" (some "x") true, .forceRelease "alice"]

theorem sampleInviteRun_accounted : ∃ s, Steps.run ledgerStep ⟨⟨.empty, .empty⟩, []⟩
      sampleInviteRun = some s
    ∧ (s.registry.invites.get "x").map (fun row => row.availableUses) = some 0
    ∧ s.registry.carrying "x" = 1 ∧ s.forced.count "x" = 1
    ∧ ∃ row, s.registry.invites.get "x" = some row
        ∧ row.availableUses = 2 - s.registry.carrying "x" - s.forced.count "x" := by
  have hrun : (Steps.run ledgerStep ⟨⟨.empty, .empty⟩, []⟩ sampleInviteRun).map (fun s =>
      ((s.registry.invites.get "x").map (fun row => row.availableUses),
        s.registry.carrying "x", s.forced.count "x")) = some (some 0, 1, 1) := by decide
  obtain ⟨s, hs, hval⟩ := Option.map_eq_some_iff.mp hrun
  obtain ⟨huses, hval⟩ := Prod.mk.injEq .. |>.mp hval
  obtain ⟨hcarry, hforced⟩ := Prod.mk.injEq .. |>.mp hval
  have hnew : Unminted "x" ⟨.empty, .empty⟩ := ⟨rfl, rfl⟩
  obtain ⟨row, hrow, hsum, -⟩ :=
    (invite_accounting hnew (by decide) (by decide) (by decide) hs).1
  exact ⟨s, hs, huses, hcarry, hforced, row, hrow, hsum⟩

/-! ## Revoking a code -/

/-- Nothing is reserved with the code. A reservation that is undone would
pay its use back. -/
def NoneReserved (code : String) (g : Registry) : Prop :=
  ∀ label row, g.claims.get label = some row → row.state = .reserved → row.inviteCode ≠ some code

/-- The code admits nobody, and nothing is left that could pay it back. -/
structure Withdrawn (code : String) (g : Registry) : Prop where
  spent : ∀ row, g.invites.get code = some row → row.availableUses ≤ 0
  reserved : NoneReserved code g

section

variable {code : String} {g : Registry}

theorem Withdrawn.not_admittedBy (h : Withdrawn code g) (o : RegistryOp) :
    o.admittedBy code g = false := by
  cases o with
  | claim label c isOpen =>
      cases c with
      | none => rfl
      | some c =>
          cases isOpen with
          | true => rfl
          | false =>
              by_cases hc : c = code
              · subst hc
                have hrefused : (g.claim label (some c) false).1 ≠ .ok := by
                  simp only [Registry.claim]
                  split
                  · simp
                  · rw [if_neg (by simp)]
                    split
                    · simp
                    · rename_i row hrow
                      have hspent := h.spent row hrow
                      rw [if_neg (by omega)]
                      simp
                simp [RegistryOp.admittedBy, hrefused]
              · simp [RegistryOp.admittedBy, hc]
  | _ => rfl

theorem NoneReserved.remove (h : NoneReserved code g) (label : String) :
    NoneReserved code { g with claims := g.claims.remove label } :=
  fun l row hrow => h l row (Table.get_retain_eq_some.mp hrow).1

theorem NoneReserved.reserve (h : NoneReserved code g) (label : String) {c : Option String}
    (hc : c ≠ some code) : NoneReserved code (g.reserve label c) := by
  intro l row hrow hstate
  rcases Table.get_insert_eq_some.mp hrow with ⟨-, rfl⟩ | ⟨-, hrow⟩
  · exact hc
  · exact h l row hrow hstate

theorem Withdrawn.addUses_other (h : Withdrawn code g) {c : String} (hc : c ≠ code) (n : Int) :
    Withdrawn code (g.addUses c n) := by
  refine ⟨fun row hrow => h.spent row ?_, ?_⟩
  · rwa [Registry.addUses_invites_of_ne hc] at hrow
  · rw [NoneReserved, Registry.addUses_claims]
    exact h.reserved

theorem Withdrawn.claim (h : Withdrawn code g) (label : String) (c : Option String)
    (isOpen : Bool) : Withdrawn code (g.claim label c isOpen).2 := by
  unfold Registry.claim
  split
  · exact h
  · split
    · exact ⟨h.spent, h.reserved.reserve label (by simp)⟩
    · split
      · exact h
      · rename_i c
        split
        · exact h
        · rename_i row hrow
          split
          · rename_i hvalid
            have hc : c ≠ code := by
              rintro rfl
              have hspent := h.spent row hrow
              omega
            have hother := h.addUses_other hc (-1)
            exact ⟨hother.spent, hother.reserved.reserve label (by simpa using hc)⟩
          · exact h

theorem Withdrawn.release (h : Withdrawn code g) (label : String) :
    Withdrawn code (g.release label) := by
  unfold Registry.release
  split
  · exact h
  · rename_i row hrow
    split
    · exact h
    · rename_i hstate
      cases hcode : row.inviteCode with
      | none => exact ⟨h.spent, h.reserved.remove label⟩
      | some c =>
          have hc : c ≠ code := by
            rintro rfl
            exact h.reserved label row hrow hstate hcode
          have hother := h.addUses_other hc 1
          exact ⟨hother.spent, hother.reserved.remove label⟩

theorem Withdrawn.bind (h : Withdrawn code g) (label did : String) :
    Withdrawn code (g.bind label did) := by
  unfold Registry.bind
  split
  · exact h
  · refine ⟨h.spent, fun l row hrow hstate => ?_⟩
    rcases Table.get_insert_eq_some.mp hrow with ⟨-, rfl⟩ | ⟨-, hrow⟩
    · cases hstate
    · exact h.reserved l row hrow hstate

theorem withdrawn_step {g' : Registry} {o : RegistryOp} (h : Withdrawn code g)
    (ho : o.seeds code = false) (hstep : registryStep g o = some g') : Withdrawn code g' := by
  obtain rfl := Option.some.inj hstep
  cases o with
  | claim label c isOpen => exact h.claim label c isOpen
  | release label => exact h.release label
  | bind label did => exact h.bind label did
  | forceRelease label => exact ⟨h.spent, h.reserved.remove label⟩
  | seedInvite c uses =>
      have hc : c ≠ code := by simpa [RegistryOp.seeds] using ho
      refine ⟨fun row hrow => h.spent row ?_, h.reserved⟩
      exact (Table.get_insert_of_ne hc.symm).symm.trans hrow

theorem withdrawn_revoked (h : NoneReserved code g) : Withdrawn code (g.seedInvite code 0) := by
  refine ⟨fun row hrow => ?_, h⟩
  obtain rfl := Option.some.inj ((Table.get_insert_self _ _ _).symm.trans hrow)
  exact Int.le_refl 0

theorem Withdrawn.along : ∀ {ops : List RegistryOp} {g : Registry}, Withdrawn code g →
    (∀ o ∈ ops, o.seeds code = false) →
      Steps.Along registryStep (fun g o => o.admittedBy code g = false) g ops
  | [], _, _, _ => trivial
  | o :: _, _, h, hops => ⟨h.not_admittedBy o, fun _ hstep =>
      (withdrawn_step h (hops o List.mem_cons_self) hstep).along
        fun o' ho' => hops o' (List.mem_cons_of_mem _ ho')⟩

/-- A reservation made with the code, released after the revocation,
admits a claim. -/
theorem admittedBy_after_release {label : String} {row : ClaimRow}
    (hrow : g.claims.get label = some row) (hstate : row.state = .reserved)
    (hcode : row.inviteCode = some code) :
    (RegistryOp.claim label (some code) false).admittedBy code
      ((g.seedInvite code 0).release label) = true := by
  have hrow' : (g.seedInvite code 0).claims.get label = some row := hrow
  have hseed : (g.seedInvite code 0).invites.get code = some ⟨0, false⟩ :=
    Table.get_insert_self _ _ _
  have hfree : ((g.seedInvite code 0).release label).isTaken label = false := by
    simp only [Registry.release, hrow', hstate, Registry.isTaken]
    exact Table.contains_remove_self _ _
  have hback : ((g.seedInvite code 0).release label).invites.get code = some ⟨1, false⟩ := by
    simp only [Registry.release, hrow', hstate, hcode]
    exact Registry.addUses_invites_self hseed 1
  simp [RegistryOp.admittedBy, Registry.claim, hfree, hback]

/-- **When a revocation is final.** After the code is minted again with
no uses, and until it is minted once more, no run admits a claim with
it, exactly if nothing is reserved with it at the time. -/
theorem revocation_final_iff (g : Registry) (code : String) :
    (∀ ops, (∀ o ∈ ops, RegistryOp.seeds code o = false) →
      Steps.Along registryStep (fun g o => o.admittedBy code g = false) (g.seedInvite code 0) ops)
      ↔ NoneReserved code g := by
  constructor
  · intro h label row hrow hstate hcode
    have hal := h [.release label, .claim label (some code) false] (by simp [RegistryOp.seeds])
    have hrefused : (RegistryOp.claim label (some code) false).admittedBy code
        ((g.seedInvite code 0).release label) = false := (hal.2 _ rfl).1
    rw [admittedBy_after_release hrow hstate hcode] at hrefused
    cases hrefused
  · exact fun h _ => (withdrawn_revoked h).along

end

/-- One use, taken by a signup that then fails. -/
theorem revoked_code_admits :
    ¬ ∀ (g : Registry) (code : String) (ops : List RegistryOp),
      (∀ o ∈ ops, o.seeds code = false) →
      Steps.Along registryStep (fun g o => o.admittedBy code g = false)
        (g.seedInvite code 0) ops := by
  intro h
  have hal := h (((⟨.empty, .empty⟩ : Registry).seedInvite "x" 1).claim "alice" (some "x") false).2
    "x" [.release "alice", .claim "bob" (some "x") false] (by decide)
  revert hal
  decide

end Stelyph
