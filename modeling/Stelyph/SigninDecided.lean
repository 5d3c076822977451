import Stelyph.SigninRefusal

/-!
# A sign-in is decided once

A decision is stored with the request; its expiry is not, and every poll
computes it from the clock. So whether an expired request stays expired
depends on each endpoint that writes a decision, and of the two only the
approving one looks at the deadline. What a poll would report just before
and just after every call says when a request is decided once: exactly as
long as no verified denial reaches it after its deadline.
-/

namespace Stelyph

/-- A call of the sign-in endpoints with what it draws: tokens and the instant. -/
structure SigninCall where
  request : SigninRequest
  rnd : SigninDraw

/-- What a poll reports of a request: its status and its session. -/
abbrev SigninReport := SigninStatus × Option Session

/-- The report of a poll, `none` for a request it does not know. -/
def reported (s : DoStore) (now : Nat) (requestId : String) : Option SigninReport :=
  match signinPoll s now requestId with
  | .status status session => some (status, session)
  | _ => none

section

variable (lib : SigninLib)

/-- One call. The object serves one at a time, so that a run is a list of calls. -/
def signinStep (s : DoStore) (a : SigninCall) : Option DoStore :=
  some (signinHandle lib s a.rnd a.request).2

/-- What polls report just before and just after each call, which is all
that a client can see of a request. -/
def reports (requestId : String) : DoStore → List SigninCall → List SigninReport
  | _, [] => []
  | s, a :: as =>
      let t := (signinHandle lib s a.rnd a.request).2
      (reported s a.rnd.now requestId).toList ++ (reported t a.rnd.now requestId).toList
        ++ reports requestId t as

/-- No verified denial of the request arrives after its deadline while it
is undecided. -/
def deniedInTime (requestId : String) (s : DoStore) (a : SigninCall) : Bool :=
  match a.request with
  | .deviceDeny r deviceId (some sig) =>
      match s.signins.get r, s.deviceKeys.get deviceId with
      | some row, some didKey =>
          r != requestId || row.status != .pending || a.rnd.now ≤ row.expiresAt
            || !verifyApproval lib didKey r row.userCode sig
      | _, _ => true
  | _ => true

end

/-- Once it is not pending a report never changes, and there is a session,
with both its tokens, exactly where the request is approved. -/
structure DecidedOnce (l : List SigninReport) : Prop where
  final : l.Pairwise fun x y => x.1 ≠ .pending → y = x
  session : ∀ x ∈ l, (x.1 = .approved ↔ x.2.isSome)
    ∧ ∀ session ∈ x.2, session.accessJwt.isSome ∧ session.refreshJwt.isSome

/-! ## What a row reports -/

def SigninRow.statusAt (row : SigninRow) (now : Nat) : SigninStatus :=
  if row.status = .pending ∧ row.expiresAt < now then .expired else row.status

def SigninRow.report (row : SigninRow) (now : Nat) : SigninReport :=
  (row.statusAt now, if row.statusAt now = .approved then
    some ⟨row.did, row.handle, row.accessJwt, row.refreshJwt⟩ else none)

/-- Decided, or past its deadline. -/
def SigninRow.Final (row : SigninRow) (now : Nat) : Prop :=
  row.status ≠ .pending ∨ row.expiresAt < now

/-- An approved row has both tokens. -/
def SigninRow.Minted (row : SigninRow) : Prop :=
  row.status = .approved → row.accessJwt.isSome ∧ row.refreshJwt.isSome

section

variable {row : SigninRow} {now now' : Nat}

theorem SigninRow.final_of_statusAt (h : row.statusAt now ≠ .pending) : row.Final now := by
  by_cases hexp : row.status = .pending ∧ row.expiresAt < now
  · exact Or.inr hexp.2
  · rw [statusAt, if_neg hexp] at h
    exact Or.inl h

theorem SigninRow.Final.mono (h : row.Final now) (hle : now ≤ now') : row.Final now' :=
  h.imp_right fun hlt => hlt.trans_le hle

theorem SigninRow.Final.report_eq (h : row.Final now) (hle : now ≤ now') :
    row.report now' = row.report now := by
  have hstatus : row.statusAt now' = row.statusAt now := by
    unfold statusAt
    rcases h with hne | hlt
    · simp [hne]
    · simp [hlt, hlt.trans_le hle]
  simp only [report, hstatus]

theorem SigninRow.Minted.report (h : row.Minted) :
    ((row.report now).1 = .approved ↔ (row.report now).2.isSome)
      ∧ ∀ session ∈ (row.report now).2,
        session.accessJwt.isSome ∧ session.refreshJwt.isSome := by
  by_cases happ : row.statusAt now = .approved
  · simp only [SigninRow.report, happ, if_true, Option.isSome_some, true_and, Option.mem_some_iff]
    rintro session rfl
    refine h ?_
    unfold statusAt at happ
    split_ifs at happ
    exact happ
  · simp [SigninRow.report, happ]

end

section

variable {lib : SigninLib} {s : DoStore} {requestId : String} {now : Nat}

theorem reported_of_get {row : SigninRow} (h : s.signins.get requestId = some row) :
    reported s now requestId = some (row.report now) := by
  rw [reported, signinPoll, h]
  rfl

theorem get_of_reported {x : SigninReport} (h : reported s now requestId = some x) :
    ∃ row, s.signins.get requestId = some row ∧ x = row.report now := by
  cases hget : s.signins.get requestId with
  | none => simp [reported, signinPoll, hget] at h
  | some row =>
      rw [reported_of_get hget] at h
      exact ⟨row, rfl, (Option.some.inj h).symm⟩

/-! ## What a call does to a row -/

theorem DoStore.get_decideSignin_of_pending {f : SigninRow → SigninRow} {row : SigninRow}
    (hget : s.signins.get requestId = some row) (hst : row.status = .pending) :
    (s.decideSignin requestId f).signins.get requestId = some (f row) := by
  simp [decideSignin, hget, hst]

theorem DoStore.get_decideSignin_of_ne {f : SigninRow → SigninRow} {r : String}
    (h : requestId ≠ r) :
    (s.decideSignin r f).signins.get requestId = s.signins.get requestId := by
  unfold decideSignin
  split
  · split_ifs
    · exact Table.get_insert_of_ne h
    · rfl
  · rfl

/-- Either nothing happens, or the row is pending and the signature
verifies under the device's key. -/
theorem deviceDeny_cases (lib : SigninLib) (s : DoStore) (requestId deviceId : String)
    (sig : Bytes) :
    (deviceDeny lib s requestId deviceId sig).2 = s ∨
    (∃ row didKey, s.signins.get requestId = some row ∧ row.status = .pending
      ∧ s.deviceKeys.get deviceId = some didKey
      ∧ verifyApproval lib didKey requestId row.userCode sig = true
      ∧ (deviceDeny lib s requestId deviceId sig).2 = s.denySignin requestId) := by
  unfold deviceDeny
  cases hrow : s.signins.get requestId with
  | none => exact Or.inl rfl
  | some row =>
      dsimp only
      split_ifs with hstatus
      · exact Or.inl rfl
      cases hdev : s.deviceKeys.get deviceId with
      | none => exact Or.inl rfl
      | some didKey =>
          dsimp only
          split_ifs with hverify
          · exact Or.inl rfl
          · exact Or.inr ⟨row, didKey, rfl, by simpa using hstatus, rfl, by simpa using hverify,
              rfl⟩

/-- A row is made pending, approved before its deadline, or denied. -/
theorem row_cases {rnd : SigninDraw} {req : SigninRequest} (hkeep : req ≠ .deleteAccount)
    (requestId : String) :
    (signinHandle lib s rnd req).2.signins.get requestId = s.signins.get requestId
    ∨ (∃ row, s.signins.get requestId = none
      ∧ (signinHandle lib s rnd req).2.signins.get requestId = some row
      ∧ row.status = .pending)
    ∨ (∃ row did handle access refresh, s.signins.get requestId = some row
      ∧ row.status = .pending ∧ ¬ row.expiresAt < rnd.now
      ∧ (signinHandle lib s rnd req).2.signins.get requestId
        = some { row with status := .approved, did := some did, handle := some handle
                          accessJwt := some access, refreshJwt := some refresh })
    ∨ (∃ row deviceId sig didKey, req = .deviceDeny requestId deviceId (some sig)
      ∧ s.signins.get requestId = some row ∧ row.status = .pending
      ∧ s.deviceKeys.get deviceId = some didKey
      ∧ verifyApproval lib didKey requestId row.userCode sig = true
      ∧ (signinHandle lib s rnd req).2.signins.get requestId
        = some { row with status := .denied }) := by
  cases req with
  | deviceRegister handle password deviceDidKey label =>
      left
      simp only [signinHandle, deviceRegister]
      repeat' split
      all_goals rfl
  | signinStart clientName =>
      simp only [signinHandle, signinStart, DoStore.createSignin]
      by_cases hused : s.signins.contains rnd.token = true
      · simp [hused]
      · simp only [hused, Bool.false_eq_true, if_false]
        by_cases hr : requestId = rnd.token
        · refine Or.inr (Or.inl ⟨_, ?_, by rw [hr, Table.get_insert_self], rfl⟩)
          rw [hr]
          simpa [Table.contains] using hused
        · exact Or.inl (Table.get_insert_of_ne hr)
  | signinPoll r => exact Or.inl rfl
  | signinPending => exact Or.inl rfl
  | deviceApprove r deviceId signature =>
      cases signature with
      | none => exact Or.inl rfl
      | some sig =>
          simp only [signinHandle]
          rcases deviceApprove_cases lib s rnd.now r deviceId sig with
            ⟨-, heq⟩ | ⟨row, _, did, handle, access, refresh, hget, hst, hexp, -, -, heq⟩
          · exact Or.inl (by rw [heq])
          · rw [heq]
            by_cases hr : requestId = r
            · subst hr
              exact Or.inr (Or.inr (Or.inl ⟨row, did, handle, access, refresh, hget, hst, hexp,
                DoStore.get_decideSignin_of_pending hget hst⟩))
            · exact Or.inl (DoStore.get_decideSignin_of_ne hr)
  | deviceDeny r deviceId signature =>
      cases signature with
      | none => exact Or.inl rfl
      | some sig =>
          simp only [signinHandle]
          rcases deviceDeny_cases lib s r deviceId sig with
            heq | ⟨row, didKey, hget, hst, hdev, hverify, heq⟩
          · exact Or.inl (by rw [heq])
          · rw [heq]
            by_cases hr : requestId = r
            · subst hr
              exact Or.inr (Or.inr (Or.inr ⟨row, deviceId, sig, didKey, rfl, hget, hst, hdev,
                hverify, DoStore.get_decideSignin_of_pending hget hst⟩))
            · exact Or.inl (DoStore.get_decideSignin_of_ne hr)
  | deleteAccount => exact absurd rfl hkeep

/-- A call keeps both tokens with every approved row. -/
theorem minted_step {a : SigninCall} (hkeep : a.request ≠ .deleteAccount)
    (hs : ∀ row, s.signins.get requestId = some row → row.Minted) {row : SigninRow}
    (h : (signinHandle lib s a.rnd a.request).2.signins.get requestId = some row) :
    row.Minted := by
  rcases row_cases hkeep requestId with heq | ⟨row', -, hget, hst⟩
    | ⟨row', _, _, _, _, -, -, -, hget⟩ | ⟨row', _, _, _, -, -, -, -, -, hget⟩
  · exact hs row (heq ▸ h)
  · obtain rfl := Option.some.inj (hget.symm.trans h)
    intro happ
    exact absurd (hst.symm.trans happ) (by decide)
  · obtain rfl := Option.some.inj (hget.symm.trans h)
    exact fun _ => ⟨rfl, rfl⟩
  · obtain rfl := Option.some.inj (hget.symm.trans h)
    intro happ
    cases happ

/-- A verified denial makes a pending row denied. -/
theorem deny_of_not_inTime {a : SigninCall} (h : deniedInTime lib requestId s a = false) :
    ∃ row, s.signins.get requestId = some row ∧ row.status = .pending
      ∧ row.expiresAt < a.rnd.now
      ∧ (signinHandle lib s a.rnd a.request).2.signins.get requestId
        = some { row with status := .denied } := by
  obtain ⟨req, rnd⟩ := a
  unfold deniedInTime at h
  dsimp only at h
  split at h
  · rename_i r deviceId sig
    split at h
    · rename_i row didKey hget hdev
      simp only [Bool.or_eq_false_iff, bne_eq_false_iff_eq, decide_eq_false_iff_not,
        Bool.not_eq_false'] at h
      obtain ⟨⟨⟨rfl, hst⟩, hlate⟩, hverify⟩ := h
      refine ⟨row, hget, hst, by simpa using hlate, ?_⟩
      have hdeny : (deviceDeny lib s r deviceId sig).2 = s.denySignin r := by
        simp [deviceDeny, hget, hst, hdev, hverify]
      simp only [signinHandle, hdeny]
      exact DoStore.get_decideSignin_of_pending hget hst
    · cases h
  · cases h

/-- A final row stays as it is. -/
theorem final_step {a : SigninCall} {row : SigninRow} (hkeep : a.request ≠ .deleteAccount)
    (hget : s.signins.get requestId = some row) (hfinal : row.Final a.rnd.now)
    (hcond : deniedInTime lib requestId s a = true) :
    (signinHandle lib s a.rnd a.request).2.signins.get requestId = some row := by
  rcases @row_cases lib s a.rnd a.request hkeep requestId with
    heq | ⟨_, hnone, -⟩ | ⟨row', _, _, _, _, hget', hst, hexp, -⟩
    | ⟨row', deviceId, sig, didKey, hreq, hget', hst, hdev, hverify, -⟩
  · rw [heq, hget]
  · cases hnone.symm.trans hget
  · obtain rfl := Option.some.inj (hget'.symm.trans hget)
    rcases hfinal with hne | hlt
    · exact absurd hst hne
    · exact absurd hlt hexp
  · obtain rfl := Option.some.inj (hget'.symm.trans hget)
    rcases hfinal with hne | hlt
    · exact absurd hst hne
    · simp [deniedInTime, hreq, hget', hdev, hst, hverify] at hcond
      omega

/-! ## Runs -/

theorem mem_reports_cons {a : SigninCall} {as : List SigninCall} {x : SigninReport} :
    x ∈ reports lib requestId s (a :: as) ↔ reported s a.rnd.now requestId = some x
      ∨ reported (signinHandle lib s a.rnd a.request).2 a.rnd.now requestId = some x
      ∨ x ∈ reports lib requestId (signinHandle lib s a.rnd a.request).2 as := by
  simp only [reports, List.mem_append, Option.mem_toList, or_assoc]

/-- A final row is reported the same way from then on. -/
theorem final_reports {as : List SigninCall} {row : SigninRow}
    (hget : s.signins.get requestId = some row) (hfinal : row.Final now)
    (htimes : ∀ a ∈ as, now ≤ a.rnd.now) (hkeep : ∀ a ∈ as, a.request ≠ .deleteAccount)
    (hcond : Steps.Along (signinStep lib) (fun s a => deniedInTime lib requestId s a = true) s as) :
    ∀ x ∈ reports lib requestId s as, x = row.report now := by
  induction as generalizing s with
  | nil => exact fun x hx => absurd hx List.not_mem_nil
  | cons a as ih =>
      intro x hx
      have hle := htimes a List.mem_cons_self
      have hnext := final_step (hkeep a List.mem_cons_self) hget (hfinal.mono hle) hcond.1
      rcases mem_reports_cons.mp hx with hx | hx | hx
      · obtain rfl := Option.some.inj ((reported_of_get hget).symm.trans hx)
        exact hfinal.report_eq hle
      · obtain rfl := Option.some.inj ((reported_of_get hnext).symm.trans hx)
        exact hfinal.report_eq hle
      · exact ih hnext (fun b hb => htimes b (List.mem_cons_of_mem _ hb))
          (fun b hb => hkeep b (List.mem_cons_of_mem _ hb)) (hcond.2 _ rfl) x hx

theorem minted_reports {as : List SigninCall} (hkeep : ∀ a ∈ as, a.request ≠ .deleteAccount)
    (hs : ∀ row, s.signins.get requestId = some row → row.Minted) :
    ∀ x ∈ reports lib requestId s as, (x.1 = .approved ↔ x.2.isSome)
      ∧ ∀ session ∈ x.2, session.accessJwt.isSome ∧ session.refreshJwt.isSome := by
  induction as generalizing s with
  | nil => exact fun x hx => absurd hx List.not_mem_nil
  | cons a as ih =>
      intro x hx
      have hnext : ∀ row, (signinHandle lib s a.rnd a.request).2.signins.get requestId = some row →
          row.Minted := fun _ => minted_step (hkeep a List.mem_cons_self) hs
      rcases mem_reports_cons.mp hx with hx | hx | hx
      · obtain ⟨row, hget, rfl⟩ := get_of_reported hx
        exact (hs row hget).report
      · obtain ⟨row, hget, rfl⟩ := get_of_reported hx
        exact (hnext row hget).report
      · exact ih (fun b hb => hkeep b (List.mem_cons_of_mem _ hb)) hnext x hx

theorem final_pairwise {as : List SigninCall}
    (htimes : as.Pairwise fun a b => a.rnd.now ≤ b.rnd.now)
    (hkeep : ∀ a ∈ as, a.request ≠ .deleteAccount)
    (hcond : Steps.Along (signinStep lib) (fun s a => deniedInTime lib requestId s a = true) s as) :
    (reports lib requestId s as).Pairwise fun x y => x.1 ≠ .pending → y = x := by
  induction as generalizing s with
  | nil => exact List.Pairwise.nil
  | cons a as ih =>
      obtain ⟨hle, htimes⟩ := List.pairwise_cons.mp htimes
      have hkeep' : ∀ b ∈ as, b.request ≠ .deleteAccount :=
        fun b hb => hkeep b (List.mem_cons_of_mem _ hb)
      have hafter := hcond.2 _ rfl
      simp only [reports, List.append_assoc, List.pairwise_append]
      refine ⟨?_, ⟨?_, ih htimes hkeep' hafter, ?_⟩, ?_⟩
      · cases reported s a.rnd.now requestId <;> simp
      · cases reported _ a.rnd.now requestId <;> simp
      · -- what is reported just after the call, and later
        intro x hx y hy hne
        obtain ⟨row, hget, rfl⟩ := get_of_reported (Option.mem_toList.mp hx)
        exact final_reports hget (SigninRow.final_of_statusAt hne) hle hkeep' hafter y hy
      · -- what is reported just before the call, and from then on
        intro x hx y hy hne
        obtain ⟨row, hget, rfl⟩ := get_of_reported (Option.mem_toList.mp hx)
        have hfinal := SigninRow.final_of_statusAt hne
        have hle' : ∀ b ∈ a :: as, a.rnd.now ≤ b.rnd.now :=
          List.forall_mem_cons.mpr ⟨le_rfl, hle⟩
        refine final_reports hget hfinal hle' hkeep hcond y (mem_reports_cons.mpr ?_)
        rcases List.mem_append.mp hy with hy | hy
        · exact Or.inr (Or.inl (Option.mem_toList.mp hy))
        · exact Or.inr (Or.inr hy)

/-- Where the reports are final, no denial came too late. -/
theorem inTime_of_pairwise {as : List SigninCall}
    (h : (reports lib requestId s as).Pairwise fun x y => x.1 ≠ .pending → y = x) :
    Steps.Along (signinStep lib) (fun s a => deniedInTime lib requestId s a = true) s as := by
  induction as generalizing s with
  | nil => trivial
  | cons a as ih =>
      simp only [reports, List.append_assoc, List.pairwise_append] at h
      obtain ⟨-, ⟨-, hrest, -⟩, hcross⟩ := h
      refine ⟨?_, fun t ht => ?_⟩
      · by_contra hlate
        obtain ⟨row, hget, hst, hexp, hnext⟩ := deny_of_not_inTime (by simpa using hlate)
        have heq := hcross (row.report a.rnd.now)
          (Option.mem_toList.mpr (reported_of_get hget)) _
          (List.mem_append_left _ (Option.mem_toList.mpr (reported_of_get hnext)))
          (by simp [SigninRow.report, SigninRow.statusAt, hst, hexp])
        simp [SigninRow.report, SigninRow.statusAt, hst, hexp] at heq
      · obtain rfl := Option.some.inj ht
        exact ih hrest

/-- Along a run at nondecreasing times in which the account is not erased,
a sign-in request is decided once if and only if no verified denial
reaches it undecided and past its deadline. -/
theorem decidedOnce_iff {accounts : List Account} {deviceKeys : Table String String}
    {as : List SigninCall} (htimes : as.Pairwise fun a b => a.rnd.now ≤ b.rnd.now)
    (hkeep : ∀ a ∈ as, a.request ≠ .deleteAccount) (requestId : String) :
    DecidedOnce (reports lib requestId ⟨accounts, deviceKeys, .empty⟩ as) ↔
      Steps.Along (signinStep lib) (fun s a => deniedInTime lib requestId s a = true)
        ⟨accounts, deviceKeys, .empty⟩ as := by
  constructor
  · exact fun h => inTime_of_pairwise h.final
  · intro hcond
    refine ⟨final_pairwise htimes hkeep hcond, minted_reports hkeep fun row hget => ?_⟩
    cases hget

end

/-! ## A denial after the deadline -/

def pollAt (now : Nat) : SigninCall := ⟨.signinPoll "req", "", "", now⟩

def denyAt (now : Nat) : SigninCall := ⟨.deviceDeny "req" "dev" (some sampleDenial), "", "", now⟩

/-- A request that expires at 401. -/
def startAt101 : SigninCall := ⟨.signinStart "app", "req", "WXYZ-1234", 101⟩

/-- Polled at 402 the request is expired, at 404 it is denied. -/
theorem expired_then_denied :
    ¬ ∀ (lib : SigninLib) (accounts : List Account) (deviceKeys : Table String String)
      (as : List SigninCall) (requestId : String),
      (as.Pairwise fun a b => a.rnd.now ≤ b.rnd.now) →
      (∀ a ∈ as, a.request ≠ .deleteAccount) →
      DecidedOnce (reports lib requestId ⟨accounts, deviceKeys, .empty⟩ as) := by
  intro h
  have hfinal := (h sampleSignin [sampleAccount] sampleDevices
    [startAt101, pollAt 402, denyAt 403, pollAt 404] "req" (by decide) (by decide)).final
  exact absurd hfinal (by decide)

/-- Before the deadline a denial is the decision. -/
theorem denied_in_time :
    DecidedOnce (reports sampleSignin "req" ⟨[sampleAccount], sampleDevices, .empty⟩
      [startAt101, denyAt 401, pollAt 402]) :=
  (decidedOnce_iff (by decide) (by decide) "req").mpr (by decide)

end Stelyph
