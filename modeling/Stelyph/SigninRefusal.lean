import Stelyph.Lib.Steps
import Stelyph.SigninSecrecy

/-!
# A refusal that becomes an approval

A device decides a sign-in by signing its challenge. Both endpoints
check the same signature over the same bytes, so nothing in a signature
says which decision it is. In the system of this module devices sign
challenges with an intent that only they know, and the network delivers
any request at any time. Signatures are unforgeable: what verifies was
signed. A request that was only ever signed in order to deny it stays
unapproved as long as no such signature reaches the approving endpoint
while the request can still be decided.
-/

namespace Stelyph

inductive Intent where
  | approve
  | deny
deriving DecidableEq, Repr

structure SignedMessage where
  didKey : String
  message : Bytes
  signature : Bytes
  intent : Intent
deriving DecidableEq, Repr

/-- The object's store, and what has been signed and minted so far. -/
structure RefusalState where
  store : DoStore
  /-- Every signature a device has made. -/
  signed : List SignedMessage
  /-- Every request a session was minted for. -/
  minted : List String

/-- A device signs a message, or a request is delivered; by whom is left open. -/
inductive RefusalAct where
  | sign (m : SignedMessage)
  | deliver (request : SigninRequest) (rnd : SigninDraw)

section

variable (lib : SigninLib)

/-- Signing changes nothing at the object. Delivery does, and is on record
where a session is minted. -/
def refusalStep (s : RefusalState) : RefusalAct → Option RefusalState
  | .sign m => some { s with signed := s.signed ++ [m] }
  | .deliver request rnd =>
      let (answer, store) := signinHandle lib s.store rnd request
      some { s with
        store := store
        minted := match request, answer with
          | .deviceApprove requestId _ _, .ok => s.minted ++ [requestId]
          | _, _ => s.minted }

def refusalInit (accounts : List Account) (deviceKeys : Table String String) : RefusalState where
  store := ⟨accounts, deviceKeys, .empty⟩
  signed := []
  minted := []

/-- A signature that verifies for a pending request was made by the key. -/
def unforged (s : RefusalState) : RefusalAct → Bool
  | .deliver (.deviceApprove requestId deviceId (some sig)) _ =>
      match s.store.signins.get requestId, s.store.deviceKeys.get deviceId with
      | some row, some didKey =>
          !verifyApproval lib didKey requestId row.userCode sig
            || s.signed.any fun m => m.didKey == didKey
              && m.message == approvalChallenge requestId row.userCode && m.signature == sig
      | _, _ => true
  | _ => true

end

/-- The message is a challenge of the request, for whatever user code. -/
def challengeOf (requestId : String) (message : Bytes) : Bool :=
  (approvalChallenge requestId "").isPrefixOf message

/-- Devices sign challenges of the request only in order to deny it. The
challenge itself does not say which. -/
def denyOnly (requestId : String) (_ : RefusalState) : RefusalAct → Bool
  | .sign m => !challengeOf requestId m.message || m.intent == .deny
  | .deliver _ _ => true

/-- No signature made in order to deny is delivered to the approving
endpoint while its request is pending and not expired. -/
def notRedirected (s : RefusalState) : RefusalAct → Bool
  | .deliver (.deviceApprove requestId deviceId (some sig)) rnd =>
      match s.store.signins.get requestId, s.store.deviceKeys.get deviceId with
      | some row, some didKey =>
          row.status != .pending || row.expiresAt < rnd.now
            || s.signed.all fun m => m.didKey != didKey
              || m.message != approvalChallenge requestId row.userCode
              || m.signature != sig || m.intent != .deny
      | _, _ => true
  | _ => true

/-- The request is not approved and no session was minted for it. -/
def Unapproved (requestId : String) (s : RefusalState) : Prop :=
  (∀ row, s.store.signins.get requestId = some row → row.status ≠ .approved)
    ∧ requestId ∉ s.minted

theorem challengeOf_approvalChallenge (requestId userCode : String) :
    challengeOf requestId (approvalChallenge requestId userCode) = true := by
  have hnil : Text.bytes "" = [] := rfl
  rw [challengeOf, List.isPrefixOf_iff_prefix]
  refine ⟨Text.bytes userCode, ?_⟩
  simp only [approvalChallenge, hnil, List.append_nil]

/-! ## What an approval needs -/

section

variable {lib : SigninLib} {t : DoStore} {now : Nat} {requestId deviceId : String}

theorem DoStore.get_decideSignin {f : SigninRow → SigninRow} {r : String} {row : SigninRow}
    (h : (t.decideSignin requestId f).signins.get r = some row) :
    t.signins.get r = some row ∨
      (r = requestId ∧ ∃ row₀, t.signins.get requestId = some row₀ ∧ row = f row₀) := by
  unfold decideSignin at h
  split at h
  · rename_i row₀ hget
    split_ifs at h
    · rcases Table.get_insert_eq_some.mp h with ⟨rfl, rfl⟩ | ⟨-, h⟩
      · exact Or.inr ⟨rfl, row₀, hget, rfl⟩
      · exact Or.inl h
    · exact Or.inl h
  · exact Or.inl h

/-- Either nothing happens, or the row is pending and not expired and the
signature verifies under the device's key. -/
theorem deviceApprove_cases (lib : SigninLib) (t : DoStore) (now : Nat)
    (requestId deviceId : String) (sig : Bytes) :
    ((deviceApprove lib t now requestId deviceId sig).1 ≠ .ok
      ∧ (deviceApprove lib t now requestId deviceId sig).2 = t) ∨
    (∃ row didKey did handle access refresh, t.signins.get requestId = some row
      ∧ row.status = .pending ∧ ¬ row.expiresAt < now
      ∧ t.deviceKeys.get deviceId = some didKey
      ∧ verifyApproval lib didKey requestId row.userCode sig = true
      ∧ deviceApprove lib t now requestId deviceId sig
        = (.ok, t.approveSignin requestId did handle access refresh)) := by
  unfold deviceApprove
  cases hrow : t.signins.get requestId with
  | none => exact Or.inl ⟨by simp, rfl⟩
  | some row =>
      dsimp only
      split_ifs with hstatus hexp
      · exact Or.inl ⟨by simp, rfl⟩
      · exact Or.inl ⟨by simp, rfl⟩
      cases hdev : t.deviceKeys.get deviceId with
      | none => exact Or.inl ⟨by simp, rfl⟩
      | some didKey =>
          dsimp only
          split_ifs with hverify
          · exact Or.inl ⟨by simp, rfl⟩
          repeat' split
          · exact Or.inl ⟨by simp, rfl⟩
          · exact Or.inl ⟨by simp, rfl⟩
          · exact Or.inl ⟨by simp, rfl⟩
          · exact Or.inr ⟨row, didKey, _, _, _, _, rfl, by simpa using hstatus, hexp, rfl,
              by simpa using hverify, rfl⟩

/-- Only the approving endpoint makes a request approved. -/
theorem approved_cases {rnd : SigninDraw} {req : SigninRequest} {r : String} {row : SigninRow}
    (hrow : (signinHandle lib t rnd req).2.signins.get r = some row)
    (hst : row.status = .approved) :
    (∃ row₀, t.signins.get r = some row₀ ∧ row₀.status = .approved) ∨
    (∃ dev sig, req = .deviceApprove r dev (some sig)
      ∧ (deviceApprove lib t rnd.now r dev sig).1 = .ok) := by
  cases req with
  | deviceRegister handle password deviceDidKey label =>
      refine Or.inl ⟨row, ?_, hst⟩
      simp only [signinHandle, deviceRegister] at hrow
      repeat' split at hrow
      all_goals exact hrow
  | signinStart clientName =>
      simp only [signinHandle, signinStart, DoStore.createSignin] at hrow
      split_ifs at hrow
      · exact Or.inl ⟨row, hrow, hst⟩
      · rcases Table.get_insert_eq_some.mp hrow with ⟨rfl, rfl⟩ | ⟨-, hrow⟩
        · cases hst
        · exact Or.inl ⟨row, hrow, hst⟩
  | signinPoll requestId => exact Or.inl ⟨row, hrow, hst⟩
  | signinPending => exact Or.inl ⟨row, hrow, hst⟩
  | deviceApprove requestId deviceId signature =>
      cases signature with
      | none => exact Or.inl ⟨row, hrow, hst⟩
      | some sig =>
          simp only [signinHandle] at hrow
          rcases deviceApprove_cases lib t rnd.now requestId deviceId sig with
            ⟨-, heq⟩ | ⟨row₀, _, _, _, _, _, -, -, -, -, -, heq⟩
          · rw [heq] at hrow
            exact Or.inl ⟨row, hrow, hst⟩
          · rw [heq] at hrow
            rcases DoStore.get_decideSignin hrow with hrow | ⟨rfl, -⟩
            · exact Or.inl ⟨row, hrow, hst⟩
            · exact Or.inr ⟨deviceId, sig, rfl, by rw [heq]⟩
  | deviceDeny requestId deviceId signature =>
      cases signature with
      | none => exact Or.inl ⟨row, hrow, hst⟩
      | some sig =>
          simp only [signinHandle, deviceDeny] at hrow
          repeat' split at hrow
          all_goals first
            | exact Or.inl ⟨row, hrow, hst⟩
            | skip
          rcases DoStore.get_decideSignin hrow with hrow | ⟨rfl, row₀, -, rfl⟩
          · exact Or.inl ⟨row, hrow, hst⟩
          · cases hst
  | deleteAccount =>
      simp only [signinHandle, deleteAccount] at hrow
      split at hrow
      · exact Or.inl ⟨row, hrow, hst⟩
      · cases hrow

/-! ## Runs -/

/-- Nothing but denials has been signed for the request, and it is not
approved. -/
structure Refused (requestId : String) (s : RefusalState) : Prop where
  unapproved : Unapproved requestId s
  signed : ∀ m ∈ s.signed, challengeOf requestId m.message = true → m.intent = .deny

/-- An approval of the request would carry a redirected denial. -/
theorem Refused.not_approved {s : RefusalState} {rnd : SigninDraw} {sig : Bytes}
    (hs : Refused requestId s)
    (hunf : unforged lib s (.deliver (.deviceApprove requestId deviceId (some sig)) rnd) = true)
    (hdir : notRedirected s (.deliver (.deviceApprove requestId deviceId (some sig)) rnd) = true) :
    (deviceApprove lib s.store rnd.now requestId deviceId sig).1 ≠ .ok := by
  rcases deviceApprove_cases lib s.store rnd.now requestId deviceId sig with
    ⟨hne, -⟩ | ⟨row, didKey, _, _, _, _, hrow, hstatus, hexp, hdev, hverify, -⟩
  · exact hne
  · simp only [unforged, notRedirected, hrow, hdev, hverify, hstatus] at hunf hdir
    simp only [Bool.not_true, Bool.false_or, List.any_eq_true, Bool.and_eq_true,
      beq_iff_eq] at hunf
    obtain ⟨m, hm, ⟨hkey, hmsg⟩, hsig⟩ := hunf
    have hdeny := hs.signed m hm (hmsg ▸ challengeOf_approvalChallenge _ _)
    simp only [bne_self_eq_false, Bool.false_or, Bool.or_eq_true, decide_eq_true_eq,
      List.all_eq_true, bne_iff_ne, ne_eq] at hdir
    rcases hdir with hlt | hall
    · exact absurd hlt hexp
    · rcases hall m hm with ((hne | hne) | hne) | hne
      · exact absurd hkey hne
      · exact absurd hmsg hne
      · exact absurd hsig hne
      · exact absurd hdeny hne

theorem refused_step {s s' : RefusalState} {a : RefusalAct} (hs : Refused requestId s)
    (hunf : unforged lib s a = true) (hdeny : denyOnly requestId s a = true)
    (hdir : notRedirected s a = true) (h : refusalStep lib s a = some s') :
    Refused requestId s' := by
  cases a with
  | sign m =>
      obtain rfl := Option.some.inj h
      refine ⟨hs.unapproved, fun m' hm' => ?_⟩
      rcases List.mem_append.mp hm' with hm' | hm'
      · exact hs.signed m' hm'
      · rw [List.mem_singleton.mp hm']
        intro hm
        simpa [denyOnly, hm] using hdeny
  | deliver request rnd =>
      obtain rfl := Option.some.inj h
      refine ⟨⟨fun row hrow hst => ?_, fun hmem => ?_⟩, hs.signed⟩
      · have hcases := approved_cases hrow hst
        rcases hcases with
          ⟨row₀, hrow₀, hst₀⟩ | ⟨dev, sig, rfl, hok⟩
        · exact hs.unapproved.1 row₀ hrow₀ hst₀
        · exact hs.not_approved hunf hdir hok
      · dsimp only at hmem
        split at hmem
        · rename_i r dev signature heq
          rcases List.mem_append.mp hmem with hmem | hmem
          · exact hs.unapproved.2 hmem
          · obtain rfl := List.mem_singleton.mp hmem
            cases signature with
            | none => cases heq
            | some sig => exact hs.not_approved hunf hdir heq
        · exact hs.unapproved.2 hmem

/-- In every run in which devices sign the request's challenge only in
order to deny it, signatures are not forged, and no such signature is
delivered to the approving endpoint while the request can be decided,
the request is never approved and no session is minted for it. -/
theorem unapproved_of_notRedirected {accounts : List Account}
    {deviceKeys : Table String String} {as : List RefusalAct} {s : RefusalState}
    (hrun : Steps.run (refusalStep lib) (refusalInit accounts deviceKeys) as = some s)
    (hunf : Steps.Along (refusalStep lib) (fun s a => unforged lib s a = true)
      (refusalInit accounts deviceKeys) as)
    (hdeny : Steps.Along (refusalStep lib) (fun s a => denyOnly requestId s a = true)
      (refusalInit accounts deviceKeys) as)
    (hdir : Steps.Along (refusalStep lib) (fun s a => notRedirected s a = true)
      (refusalInit accounts deviceKeys) as) :
    Unapproved requestId s := by
  refine (Steps.run_inv_along (I := Refused requestId)
    (fun s a s' hs hc h => refused_step hs hc.1.1 hc.1.2 hc.2 h) ?_
    ((hunf.and hdeny).and hdir) hrun).unapproved
  refine ⟨⟨fun row hrow => ?_, List.not_mem_nil⟩, fun m hm => (List.not_mem_nil hm).elim⟩
  cases hrow

end

/-! ## A denial delivered to the wrong endpoint -/

def sampleDenial : Bytes := Text.bytes sampleKey ++ approvalChallenge "req" "WXYZ-1234"

/-- A client starts a request and the phone signs its challenge in order
to deny it. -/
def startAndRefuse : List RefusalAct :=
  [.deliver (.signinStart "app") ⟨"req", "WXYZ-1234", 101⟩,
    .sign ⟨sampleKey, approvalChallenge "req" "WXYZ-1234", sampleDenial, .deny⟩]

def sampleDevices : Table String String := Table.empty.insert "dev" sampleKey

/-- The network sends the signed denial to `/oauth/device/approve`. -/
theorem denial_approves :
    ¬ ∀ (lib : SigninLib) (accounts : List Account) (deviceKeys : Table String String)
      (as : List RefusalAct) (s : RefusalState) (requestId : String),
      Steps.run (refusalStep lib) (refusalInit accounts deviceKeys) as = some s →
      Steps.Along (refusalStep lib) (fun s a => unforged lib s a = true)
        (refusalInit accounts deviceKeys) as →
      Steps.Along (refusalStep lib) (fun s a => denyOnly requestId s a = true)
        (refusalInit accounts deviceKeys) as →
      Unapproved requestId s := by
  intro h
  have hrun : (Steps.run (refusalStep sampleSignin) (refusalInit [sampleAccount] sampleDevices)
      (startAndRefuse ++ [.deliver (.deviceApprove "req" "dev" (some sampleDenial))
        ⟨"x", "", 102⟩])).map (fun s => s.minted) = some ["req"] := by decide
  obtain ⟨s, hs, hminted⟩ := Option.map_eq_some_iff.mp hrun
  have hnot := (h sampleSignin _ _ _ s "req" hs (by decide) (by decide)).2
  rw [hminted] at hnot
  exact hnot (List.mem_singleton_self _)

/-- Delivered to `/oauth/device/deny`, it denies. -/
theorem denial_denies : ∃ s,
    Steps.run (refusalStep sampleSignin) (refusalInit [sampleAccount] sampleDevices)
      (startAndRefuse ++ [.deliver (.deviceDeny "req" "dev" (some sampleDenial))
        ⟨"x", "", 102⟩]) = some s
    ∧ (s.store.signins.get "req").map (fun row => row.status) = some .denied
    ∧ Unapproved "req" s := by
  have hrun : (Steps.run (refusalStep sampleSignin) (refusalInit [sampleAccount] sampleDevices)
      (startAndRefuse ++ [.deliver (.deviceDeny "req" "dev" (some sampleDenial))
        ⟨"x", "", 102⟩])).map
          (fun s => (s.store.signins.get "req").map (fun row => row.status))
        = some (some .denied) := by decide
  obtain ⟨s, hs, hst⟩ := Option.map_eq_some_iff.mp hrun
  exact ⟨s, hs, hst, unapproved_of_notRedirected hs (by decide) (by decide) (by decide)⟩

end Stelyph
