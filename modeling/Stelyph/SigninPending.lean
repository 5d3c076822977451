import Stelyph.SigninDecided
import Stelyph.SqlTables

/-!
# What counts as pending

Three endpoints decide whether a sign-in is still open. The list for the
phone asks SQLite for rows with `expires_at > now`, both as signed 64-bit
integers. The poll and the approval read the column `as u64` and call the
row expired if `expires_at < now`. So they part at the deadline itself, and
wherever one of the two numbers does not fit in 63 bits and the other does.

The rows of the model hold the deadline as the handlers read it, `as u64`;
the column is that number `as i64`.
-/

namespace Stelyph

open Backend.Sql (asI64)

/-- `list_pending_signins` with the comparison the database makes. -/
def DoStore.listPendingColumns (s : DoStore) (now : Nat) : List PendingSignin :=
  ((s.signins.rows.filter fun r =>
      r.2.status = .pending ∧ asI64 r.2.expiresAt > asI64 now).map fun r =>
    { requestId := r.1, userCode := r.2.userCode, clientName := r.2.clientName
      createdAt := r.2.createdAt }).insertionSort fun a b => b.createdAt ≤ a.createdAt

/-- Of 63-bit numbers it is the comparison of the numbers. -/
theorem DoStore.listPendingColumns_eq {s : DoStore} {now : Nat} (hnow : now < 2 ^ 63)
    (hrows : ∀ r ∈ s.signins.rows, r.2.expiresAt < 2 ^ 63) :
    s.listPendingColumns now = s.listPendingSignins now := by
  have hfilter : (s.signins.rows.filter fun r =>
      r.2.status = .pending ∧ asI64 r.2.expiresAt > asI64 now)
        = s.signins.rows.filter fun r => r.2.status = .pending ∧ r.2.expiresAt > now := by
    refine List.filter_congr fun r hr => ?_
    rw [Backend.Sql.asI64_of_lt hnow, Backend.Sql.asI64_of_lt (hrows r hr)]
    simp
  rw [listPendingColumns, listPendingSignins, hfilter]

/-- JSON web tokens with a shared secret are always made: nothing in an
approval fails after its checks. -/
def SigninLib.Mints (lib : SigninLib) : Prop :=
  ∀ did now, (∃ access, lib.encodeAccessJwtAt did now = .ok access)
    ∧ ∃ refresh, lib.encodeRefreshJwtAt did now = .ok refresh

section

variable (lib : SigninLib) (s : DoStore) (now : Nat) (requestId : String)

def ListsPending : Prop := ∃ p ∈ s.listPendingColumns now, p.requestId = requestId

def PollsPending : Prop := (reported s now requestId).map Prod.fst = some .pending

/-- The approval goes through, and the request is approved. -/
def Approves (deviceId : String) (signature : Bytes) : Prop :=
  (deviceApprove lib s now requestId deviceId signature).1 = .ok
  ∧ ∃ row, (deviceApprove lib s now requestId deviceId signature).2.signins.get requestId
      = some row ∧ row.status = .approved

/-- A signature of an enrolled device over the request, on an object that
holds an account. -/
structure MayApprove (deviceId : String) (signature : Bytes) : Prop where
  account : s.accounts ≠ []
  enrolled : ∃ didKey, s.deviceKeys.get deviceId = some didKey
    ∧ ∀ row, s.signins.get requestId = some row →
      verifyApproval lib didKey requestId row.userCode signature = true

/-- The three endpoints agree on the request at that time: it is listed
exactly if a poll finds it pending, and whoever may approve it can,
exactly then. -/
structure PendingAgrees : Prop where
  list_poll : ListsPending s now requestId ↔ PollsPending s now requestId
  poll_approve : ∀ deviceId signature, MayApprove lib s requestId deviceId signature →
    (PollsPending s now requestId ↔ Approves lib s now requestId deviceId signature)

end

section

variable {lib : SigninLib} {s : DoStore} {now : Nat} {requestId : String}

/-! ## Each endpoint -/

theorem listsPending_iff : ListsPending s now requestId ↔
    ∃ row, s.signins.get requestId = some row ∧ row.status = .pending
      ∧ asI64 now < asI64 row.expiresAt := by
  unfold ListsPending DoStore.listPendingColumns
  constructor
  · rintro ⟨p, hp, rfl⟩
    rw [List.mem_insertionSort] at hp
    obtain ⟨⟨r, row⟩, hr, rfl⟩ := List.mem_map.mp hp
    obtain ⟨hmem, hopen⟩ := List.mem_filter.mp hr
    obtain ⟨hstatus, hlt⟩ := of_decide_eq_true hopen
    exact ⟨row, Table.get_eq_some_iff.mpr hmem, hstatus, hlt⟩
  · rintro ⟨row, hget, hstatus, hlt⟩
    refine ⟨_, (List.mem_insertionSort _).mpr (List.mem_map.mpr ⟨(requestId, row), ?_, rfl⟩), rfl⟩
    exact List.mem_filter.mpr ⟨Table.get_eq_some_iff.mp hget, decide_eq_true ⟨hstatus, hlt⟩⟩

theorem pollsPending_iff : PollsPending s now requestId ↔
    ∃ row, s.signins.get requestId = some row ∧ row.status = .pending
      ∧ now ≤ row.expiresAt := by
  unfold PollsPending
  constructor
  · intro h
    obtain ⟨x, hx, hpending⟩ := Option.map_eq_some_iff.mp h
    obtain ⟨row, hget, rfl⟩ := get_of_reported hx
    have hstatus : row.statusAt now = .pending := hpending
    unfold SigninRow.statusAt at hstatus
    split_ifs at hstatus with hexpired
    exact ⟨row, hget, hstatus, Nat.le_of_not_lt fun hlt => hexpired ⟨hstatus, hlt⟩⟩
  · rintro ⟨row, hget, hstatus, hle⟩
    rw [reported_of_get hget]
    have hopen : ¬ (row.status = .pending ∧ row.expiresAt < now) := fun h => by omega
    rw [Option.map_some, SigninRow.report, SigninRow.statusAt, if_neg hopen, hstatus]

theorem approves_iff (hmints : lib.Mints) {deviceId : String} {signature : Bytes}
    (hmay : MayApprove lib s requestId deviceId signature) :
    Approves lib s now requestId deviceId signature ↔
      ∃ row, s.signins.get requestId = some row ∧ row.status = .pending
        ∧ now ≤ row.expiresAt := by
  unfold Approves deviceApprove
  cases hget : s.signins.get requestId with
  | none => simp
  | some row =>
      simp only [Option.some.injEq, exists_eq_left']
      by_cases hstatus : row.status = .pending
      · by_cases hexpired : row.expiresAt < now
        · simp [hstatus, hexpired]
        · obtain ⟨didKey, hdevice, hvalid⟩ := hmay.enrolled
          obtain ⟨a, rest, haccounts⟩ := List.exists_cons_of_ne_nil hmay.account
          obtain ⟨⟨access, haccess⟩, refresh, hrefresh⟩ := hmints a.did now
          have happroved : (s.approveSignin requestId a.did (a.handle.getD "") access
              refresh).signins.get requestId = some { row with
                status := .approved, did := some a.did, handle := some (a.handle.getD "")
                accessJwt := some access, refreshJwt := some refresh } :=
            DoStore.get_decideSignin_of_pending hget hstatus
          simp [hstatus, hexpired, hdevice, hvalid row hget, haccounts, haccess, hrefresh,
            happroved, Nat.le_of_not_lt hexpired]
      · simp [hstatus]

/-! ## Where they agree -/

/-- Signed and unsigned comparison of two 64-bit numbers. -/
theorem asI64_lt_iff {a b : Nat} (ha : a < 2 ^ 64) (hb : b < 2 ^ 64) :
    (asI64 a < asI64 b ↔ a ≤ b) ↔ a ≠ b ∧ (a < 2 ^ 63 ↔ b < 2 ^ 63) := by
  have hsigned : ∀ {n : Nat}, n < 2 ^ 64 →
      asI64 n = if n < 2 ^ 63 then (n : Int) else (n : Int) - 2 ^ 64 := by
    intro n hn
    by_cases hlt : n < 2 ^ 63
    · rw [if_pos hlt, Backend.Sql.asI64_of_lt hlt]
    · unfold asI64
      rw [if_neg hlt, Int.bmod_eq_iff (by omega)]
      omega
  rw [hsigned ha, hsigned hb]
  split_ifs <;> omega

/-- The list, the poll and the approval agree on whether a pending request
is over, but in the second of its deadline, when only the list leaves it
out, and with times beyond what a signed column holds. -/
theorem pendingAgrees_iff (hmints : lib.Mints) (hnow : now < 2 ^ 64)
    (hrows : ∀ row, s.signins.get requestId = some row → row.expiresAt < 2 ^ 64) :
    PendingAgrees lib s now requestId ↔
      ∀ row, s.signins.get requestId = some row → row.status = .pending →
        now ≠ row.expiresAt ∧ (now < 2 ^ 63 ↔ row.expiresAt < 2 ^ 63) := by
  constructor
  · intro h row hget hstatus
    refine (asI64_lt_iff hnow (hrows row hget)).mp ?_
    have hagree := h.list_poll
    rw [listsPending_iff, pollsPending_iff] at hagree
    simpa [hget, hstatus] using hagree
  · intro h
    refine ⟨?_, fun deviceId signature hmay =>
      pollsPending_iff.trans (approves_iff hmints hmay).symm⟩
    rw [listsPending_iff, pollsPending_iff]
    refine exists_congr fun row => and_congr_right fun hget => and_congr_right fun hstatus => ?_
    exact (asI64_lt_iff hnow (hrows row hget)).mpr (h row hget hstatus)

end

/-! ## The second of the deadline -/

/-- A request that is open until 401. -/
def openUntil401 : DoStore where
  accounts := [sampleAccount]
  deviceKeys := sampleDevices
  signins := Table.empty.insert "req" {
    userCode := "WXYZ-1234", clientName := "app", status := .pending, did := none, handle := none
    accessJwt := none, refreshJwt := none, createdAt := 101, expiresAt := 401 }

/-- At 401 the poll reports it as pending, and the list leaves it out. -/
theorem parted_at_the_deadline : ¬ ∀ (lib : SigninLib) (s : DoStore) (now : Nat)
    (requestId : String), lib.Mints → now < 2 ^ 64 →
    (∀ row, s.signins.get requestId = some row → row.expiresAt < 2 ^ 64) →
    PendingAgrees lib s now requestId := by
  intro h
  have hrow : ∀ row, openUntil401.signins.get "req" = some row → row.expiresAt < 2 ^ 64 := by
    intro row hget
    obtain rfl := Option.some.inj hget
    decide
  have hagree := (h sampleSignin openUntil401 401 "req" (fun _ _ => ⟨⟨_, rfl⟩, _, rfl⟩)
    (by decide) hrow).list_poll
  obtain ⟨row, hget, -, hlt⟩ := listsPending_iff.mp
    (hagree.mpr (pollsPending_iff.mpr ⟨_, rfl, rfl, Nat.le_refl 401⟩))
  obtain rfl := Option.some.inj hget
  exact Int.lt_irrefl _ hlt

/-- A second earlier all three take it for pending. -/
theorem agree_before_the_deadline :
    PendingAgrees sampleSignin openUntil401 400 "req" ∧ PollsPending openUntil401 400 "req" := by
  have hrow : ∀ row, openUntil401.signins.get "req" = some row → row.expiresAt = 401 := by
    intro row hget
    obtain rfl := Option.some.inj hget
    rfl
  refine ⟨(pendingAgrees_iff (fun _ _ => ⟨⟨_, rfl⟩, _, rfl⟩) (by decide) fun row hget => ?_).mpr
    fun row hget _ => ?_, rfl⟩
  · rw [hrow row hget]
    decide
  · rw [hrow row hget]
    decide

end Stelyph
