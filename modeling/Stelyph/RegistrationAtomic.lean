import Stelyph.RegistrationGate

/-!
# What a failed registration leaves behind

One `create_account_inner` call, run alone, on any store and against any
behaviour of what it calls. The invite is consumed at step 4 and the row
inserted at step 7, and nothing undoes either, so a call that fails
changes nothing exactly when no step after its first effect fails
(`failsCleanly_iff`).
-/

namespace Stelyph

/-- What a call meets: which operations fail, and the `id` in the
document a `did:web` resolves to. -/
structure AccountEnv where
  fault : AccountOp → Option String
  documentId : String → Option String

namespace AccountEnv

variable (env : AccountEnv)

def outcome (o : AccountOp) : Outcome :=
  match env.fault o with
  | some msg => .fault msg
  | none =>
      match o with
      | .resolveDidWeb did => .document (env.documentId did)
      | _ => .done

def exec (s : AccountStore) (o : AccountOp) : Option (o.Ret × AccountStore) :=
  o.exec s (env.outcome o)

end AccountEnv

section

variable {Keypair : Type} (cfg : ServerConfig Keypair) (env : AccountEnv)

/-- A call that fails leaves accounts, invites, invite uses and keys as
it found them. -/
def FailsCleanly (s : AccountStore) (input : CreateAccountInput) (rnd : Entropy Keypair) : Prop :=
  ∀ e s', (createAccountInner cfg input rnd).alone env.exec s = some (.error e, s') → s' = s

/-! ## What each step needs in order to pass -/

def handleAsked (input : CreateAccountInput) : String := Text.toAsciiLowercase input.handle

/-- Steps 1 to 3. -/
def HandleFree (s : AccountStore) (handle : String) : Prop :=
  validateHandle handle = .ok ()
    ∧ (handle = cfg.hostname ∨ Text.endsWith handle s!".{cfg.hostname}")
    ∧ env.fault (.getAccountByHandle handle) = none ∧ s.getAccountByHandle handle = none

def NoInviteNeeded (s : AccountStore) : Prop :=
  env.fault .countAccounts = none ∧ (s.countAccounts = 0 ∨ cfg.openRegistration = true)

/-- The gate takes a use of the invite code. -/
def InviteTaken (s : AccountStore) (handle : String) (inviteCode : Option String) : Prop :=
  env.fault .countAccounts = none ∧ s.countAccounts ≠ 0 ∧ cfg.openRegistration = false
    ∧ ∃ code, inviteCode = some code ∧ env.fault (.consumeInvite code handle) = none
      ∧ (s.consumeInvite code handle).1 = true

def plcDidOf (handle : String) (rnd : Entropy Keypair) : Option String :=
  match signGenesis cfg.plc handle cfg.pdsEndpoint rnd.signing rnd.rotation with
  | .error _ => none
  | .ok (did, signed) => if env.fault (.postOperation did signed) = none then some did else none

/-- The DID the account gets: the caller's own, where it resolves to
itself, or the one the directory accepts. -/
def identityOf (handle : String) (did : Option String) (rnd : Entropy Keypair) : Option String :=
  match did with
  | none => plcDidOf cfg env handle rnd
  | some d =>
      if Text.startsWith d "did:web:" then
        if env.fault (.resolveDidWeb d) = none ∧ env.documentId d = some d then some d else none
      else plcDidOf cfg env handle rnd

def passwordHashOf (password : Option String) (salt : String) : Option String :=
  match checkPassword password with
  | .error _ => none
  | .ok p => (cfg.hashPassword salt p).toOption

def RowFits (s : AccountStore) (did handle : String) (email : Option String) (phc : String) : Prop :=
  env.fault (.countAndInsertAccount did handle email phc) = none
    ∧ (s.insertAccountLocked did handle email phc).isOk = true

def KeyStored (id : String) (nonce plaintext : Bytes) : Prop :=
  ∃ blob, cfg.encryptKey nonce plaintext = .ok blob ∧ env.fault (.putKeyBlob id blob) = none

/-- Both keys are stored and both tokens signed. -/
def Finishes (did : String) (rnd : Entropy Keypair) : Prop :=
  KeyStored cfg env s!"{did}#signing" rnd.signingNonce (cfg.plc.exportKey rnd.signing)
    ∧ KeyStored cfg env s!"{did}#rotation" rnd.rotationNonce (cfg.plc.exportKey rnd.rotation)
    ∧ (cfg.encodeAccessJwt did rnd.now).isOk = true
    ∧ (cfg.encodeRefreshJwt did rnd.now).isOk = true

/-- The account's row goes in, under this DID. -/
def RowAdded (s : AccountStore) (input : CreateAccountInput) (rnd : Entropy Keypair)
    (did : String) : Prop :=
  identityOf cfg env (handleAsked input) input.did rnd = some did
    ∧ ∃ phc, passwordHashOf cfg input.password rnd.salt = some phc
      ∧ RowFits env s did (handleAsked input) input.email phc

/-- No step fails after the first one that changed the store: a call
that takes an invite use gets to its end, and so does a call that adds
its row. -/
def NoLateFailure (s : AccountStore) (input : CreateAccountInput) (rnd : Entropy Keypair) : Prop :=
  HandleFree cfg env s (handleAsked input) →
    (InviteTaken cfg env s (handleAsked input) input.inviteCode →
      ∃ did, RowAdded cfg env s input rnd did ∧ Finishes cfg env did rnd)
    ∧ (NoInviteNeeded cfg env s →
      ∀ did, RowAdded cfg env s input rnd did → Finishes cfg env did rnd)

/-! ## The steps, run alone -/

variable {cfg env}


theorem AccountEnv.exec_done {s : AccountStore} {o : AccountOp} (h : env.fault o = none)
    (hweb : ∀ did, o ≠ .resolveDidWeb did) : env.exec s o = o.exec s .done := by
  unfold AccountEnv.exec AccountEnv.outcome
  rw [h]
  cases o with
  | resolveDidWeb did => exact absurd rfl (hweb did)
  | _ => rfl

theorem AccountEnv.exec_fault {s : AccountStore} {o : AccountOp} {msg : String}
    (h : env.fault o = some msg) : env.exec s o = o.exec s (.fault msg) := by
  unfold AccountEnv.exec AccountEnv.outcome
  rw [h]

theorem ends_inviteGate (s : AccountStore) (handle : String) (inviteCode : Option String) :
    Prog.Ends env.exec (inviteGate cfg handle inviteCode) s fun x t =>
      (InviteTaken cfg env s handle inviteCode ∧ x = .ok true ∧ t.accounts = s.accounts
          ∧ t.inviteUses.length = s.inviteUses.length + 1)
        ∨ (NoInviteNeeded cfg env s ∧ x = .ok false ∧ t = s)
        ∨ (¬ InviteTaken cfg env s handle inviteCode ∧ ¬ NoInviteNeeded cfg env s
          ∧ (∃ e, x = .error e) ∧ t = s) := by
  unfold inviteGate
  cases hcount : env.fault .countAccounts with
  | some msg =>
      refine .op (AccountEnv.exec_fault hcount) (.fail (Or.inr (Or.inr ⟨?_, ?_, ⟨_, rfl⟩, rfl⟩)))
      · intro h
        cases hcount.symm.trans h.1
      · intro h
        cases hcount.symm.trans h.1
  | none =>
      refine .op (AccountEnv.exec_done hcount fun _ h => nomatch h) ?_
      change Prog.Ends (S := accountSig) env.exec (if s.countAccounts = 0 then _ else _) s _
      by_cases hzero : s.countAccounts = 0
      · rw [if_pos hzero]
        exact .ret (Or.inr (Or.inl ⟨⟨hcount, Or.inl hzero⟩, rfl, rfl⟩))
      rw [if_neg hzero]
      by_cases hopen : cfg.openRegistration = true
      · rw [if_pos hopen]
        exact .ret (Or.inr (Or.inl ⟨⟨hcount, Or.inr hopen⟩, rfl, rfl⟩))
      rw [if_neg hopen]
      have hneeded : ¬ NoInviteNeeded cfg env s := fun h => h.2.elim hzero hopen
      cases inviteCode with
      | none =>
          refine .fail (Or.inr (Or.inr ⟨?_, hneeded, ⟨_, rfl⟩, rfl⟩))
          rintro ⟨-, -, -, code, hcode, -⟩
          cases hcode
      | some code =>
          cases htake : env.fault (.consumeInvite code handle) with
          | some msg =>
              refine .op (AccountEnv.exec_fault htake)
                (.fail (Or.inr (Or.inr ⟨?_, hneeded, ⟨_, rfl⟩, rfl⟩)))
              rintro ⟨-, -, -, code', hcode, hfault, -⟩
              obtain rfl := Option.some.inj hcode
              cases htake.symm.trans hfault
          | none =>
              refine .op (AccountEnv.exec_done htake fun _ h => nomatch h) ?_
              change Prog.Ends (S := accountSig) env.exec
                (if (s.consumeInvite code handle).1 = true then _ else _)
                (s.consumeInvite code handle).2 _
              obtain hno | ⟨hyes, huses⟩ := s.consumeInvite_cases code handle
              · rw [hno, if_neg Bool.false_ne_true]
                refine .fail (Or.inr (Or.inr ⟨?_, hneeded, ⟨_, rfl⟩, rfl⟩))
                rintro ⟨-, -, -, code', hcode, -, hyes⟩
                obtain rfl := Option.some.inj hcode
                rw [hno] at hyes
                cases hyes
              · rw [if_pos hyes]
                refine .ret (Or.inl ⟨⟨hcount, hzero, eq_false_of_ne_true hopen, code, rfl, htake,
                  hyes⟩, rfl, s.consumeInvite_accounts code handle, ?_⟩)
                rw [huses, List.length_append, List.length_singleton]

theorem ends_registerDidPlc (s : AccountStore) (handle : String) (rnd : Entropy Keypair) :
    Prog.Ends env.exec (registerDidPlc cfg handle rnd) s fun x t =>
      t = s ∧ ((∃ did, plcDidOf cfg env handle rnd = some did ∧ x = .ok did)
        ∨ (plcDidOf cfg env handle rnd = none ∧ ∃ e, x = .error e)) := by
  unfold registerDidPlc plcDidOf
  cases signGenesis cfg.plc handle cfg.pdsEndpoint rnd.signing rnd.rotation with
  | error e => exact .fail ⟨rfl, Or.inr ⟨rfl, _, rfl⟩⟩
  | ok r =>
      obtain ⟨did, signed⟩ := r
      cases hpost : env.fault (.postOperation did signed) with
      | some msg =>
          exact .op (AccountEnv.exec_fault hpost)
            (.fail ⟨rfl, Or.inr ⟨if_neg (by simp [hpost]), _, rfl⟩⟩)
      | none =>
          exact .op (AccountEnv.exec_done hpost fun _ h => nomatch h)
            (.ret ⟨rfl, Or.inl ⟨did, if_pos hpost, rfl⟩⟩)

theorem ends_accountDid (s : AccountStore) (handle : String) (did : Option String)
    (rnd : Entropy Keypair) :
    Prog.Ends env.exec (accountDid cfg handle did rnd) s fun x t =>
      t = s ∧ ((∃ d, identityOf cfg env handle did rnd = some d ∧ x = .ok d)
        ∨ (identityOf cfg env handle did rnd = none ∧ ∃ e, x = .error e)) := by
  unfold accountDid identityOf
  cases did with
  | none => exact ends_registerDidPlc s handle rnd
  | some d =>
      dsimp only
      by_cases hweb : Text.startsWith d "did:web:"
      · rw [if_pos hweb, if_pos hweb]
        cases hres : env.fault (.resolveDidWeb d) with
        | some msg =>
            exact .op (AccountEnv.exec_fault hres)
              (.fail ⟨rfl, Or.inr ⟨if_neg (by simp), _, rfl⟩⟩)
        | none =>
            have hexec : env.exec s (.resolveDidWeb d) = some (.ok (env.documentId d), s) := by
              simp [AccountEnv.exec, AccountEnv.outcome, hres, AccountOp.exec]
            refine .op hexec ?_
            change Prog.Ends (S := accountSig) env.exec (if env.documentId d = some d then _ else _) s _
            by_cases hid : env.documentId d = some d
            · rw [if_pos hid]
              exact .ret ⟨rfl, Or.inl ⟨d, if_pos ⟨rfl, hid⟩, rfl⟩⟩
            · rw [if_neg hid]
              exact .fail ⟨rfl, Or.inr ⟨if_neg fun h => hid h.2, _, rfl⟩⟩
      · rw [if_neg hweb, if_neg hweb]
        exact ends_registerDidPlc s handle rnd

theorem ends_storeKey (s : AccountStore) (id : String) (nonce plaintext : Bytes) :
    Prog.Ends env.exec (storeKey cfg id nonce plaintext) s fun x t =>
      t.accounts = s.accounts ∧ t.inviteUses = s.inviteUses
        ∧ (x.isOk = true ↔ KeyStored cfg env id nonce plaintext) := by
  unfold storeKey KeyStored
  cases cfg.encryptKey nonce plaintext with
  | error e => exact .fail ⟨rfl, rfl, by simp [Except.isOk, Except.toBool]⟩
  | ok blob =>
      cases hput : env.fault (.putKeyBlob id blob) with
      | some msg =>
          exact .op (AccountEnv.exec_fault hput)
            (.fail ⟨rfl, rfl, by simp [Except.isOk, Except.toBool, hput]⟩)
      | none =>
          exact .op (AccountEnv.exec_done hput fun _ h => nomatch h)
            (.ret ⟨rfl, rfl, by simp [Except.isOk, Except.toBool, hput]⟩)

theorem ends_finishAccount (s : AccountStore) (handle did : String) (rnd : Entropy Keypair) :
    Prog.Ends env.exec (finishAccount cfg handle did rnd) s fun x t =>
      t.accounts = s.accounts ∧ t.inviteUses = s.inviteUses
        ∧ (x.isOk = true ↔ Finishes cfg env did rnd) := by
  unfold finishAccount Finishes
  refine .bind (ends_storeKey s _ _ _) ?_ ?_
  · intro _ t₁ ⟨hacc₁, huses₁, hkey₁⟩
    refine .bind (ends_storeKey t₁ _ _ _) ?_ ?_
    · intro _ t₂ ⟨hacc₂, huses₂, hkey₂⟩
      have hkeys := And.intro (hkey₁.mp rfl) (hkey₂.mp rfl)
      cases haccess : cfg.encodeAccessJwt did rnd.now with
      | error e =>
          refine .fail ⟨hacc₂.trans hacc₁, huses₂.trans huses₁, ?_⟩
          simp [Except.isOk, Except.toBool]
      | ok access =>
          cases hrefresh : cfg.encodeRefreshJwt did rnd.now with
          | error e =>
              refine .fail ⟨hacc₂.trans hacc₁, huses₂.trans huses₁, ?_⟩
              simp [Except.isOk, Except.toBool]
          | ok refresh =>
              refine .ret ⟨hacc₂.trans hacc₁, huses₂.trans huses₁, ?_⟩
              exact iff_of_true rfl ⟨hkeys.1, hkeys.2, rfl, rfl⟩
    · intro e t₂ ⟨hacc₂, huses₂, hkey₂⟩
      refine ⟨hacc₂.trans hacc₁, huses₂.trans huses₁, ?_⟩
      exact iff_of_false Bool.false_ne_true fun h => Bool.false_ne_true (hkey₂.mpr h.2.1)
  · intro e t₁ ⟨hacc₁, huses₁, hkey₁⟩
    exact ⟨hacc₁, huses₁,
      iff_of_false Bool.false_ne_true fun h => Bool.false_ne_true (hkey₁.mpr h.1)⟩

/-! ## The call after the gate -/

variable (cfg) in
/-- Steps 5 to 8. -/
def addAccount (handle : String) (input : CreateAccountInput) (rnd : Entropy Keypair)
    (inviteConsumed : Bool) : AccountProg CreateAccountResponse := do
  let did ← accountDid cfg handle input.did rnd
  let password ← Prog.ofExcept id (checkPassword input.password)
  let phc ← core (cfg.hashPassword rnd.salt password)
  let countBefore ← storage
    (← AccountOp.call (.countAndInsertAccount did handle input.email phc))
  if countBefore > 0 ∧ ¬ cfg.openRegistration ∧ ¬ inviteConsumed then
    .fail .invalidInviteCode
  else finishAccount cfg handle did rnd

variable (cfg env) in
/-- How the call ends once past the gate: with an account, with a row
nobody will finish, or as if it had stopped at the gate. -/
def Registered (s : AccountStore) (input : CreateAccountInput) (rnd : Entropy Keypair)
    (x : Except XrpcError CreateAccountResponse) (t : AccountStore) : Prop :=
  t.inviteUses = s.inviteUses
    ∧ ((x.isOk = true ∧ ∃ did, RowAdded cfg env s input rnd did ∧ Finishes cfg env did rnd)
      ∨ (x.isOk = false ∧ t.accounts.length = s.accounts.length + 1
        ∧ ∃ did, RowAdded cfg env s input rnd did ∧ ¬ Finishes cfg env did rnd)
      ∨ (x.isOk = false ∧ t = s ∧ ∀ did, ¬ RowAdded cfg env s input rnd did))

theorem countAndInsertAccount_of_isOk {s : AccountStore} {did handle phc : String}
    {email : Option String} (h : (s.insertAccountLocked did handle email phc).isOk = true) :
    ∃ t, s.countAndInsertAccount did handle email phc = .ok (s.accounts.length, t)
      ∧ t.accounts.length = s.accounts.length + 1 ∧ t.inviteUses = s.inviteUses := by
  cases hins : s.insertAccountLocked did handle email phc with
  | error e =>
      rw [hins] at h
      cases h
  | ok t =>
      refine ⟨t, ?_, AccountStore.insertAccountLocked_ok hins, ?_⟩
      · rw [AccountStore.countAndInsertAccount, hins]
        rfl
      · unfold AccountStore.insertAccountLocked at hins
        split_ifs at hins
        obtain rfl := Except.ok.inj hins
        rfl

theorem ends_insert {s : AccountStore} {input : CreateAccountInput} {rnd : Entropy Keypair}
    {did phc : String} {b : Bool} (hgate : b = false → s.accounts.length = 0 ∨ cfg.openRegistration)
    (hdid : identityOf cfg env (handleAsked input) input.did rnd = some did)
    (hphc : passwordHashOf cfg input.password rnd.salt = some phc) :
    Prog.Ends env.exec (do
      let countBefore ← storage
        (← AccountOp.call (.countAndInsertAccount did (handleAsked input) input.email phc))
      if countBefore > 0 ∧ ¬ cfg.openRegistration ∧ ¬ b then .fail .invalidInviteCode
      else finishAccount cfg (handleAsked input) did rnd) s
      (Registered cfg env s input rnd) := by
  -- The DID and the hash are the ones `RowAdded` speaks of.
  have hrow : ∀ d, RowAdded cfg env s input rnd d →
      d = did ∧ RowFits env s did (handleAsked input) input.email phc := by
    rintro d ⟨hd, phc', hphc', hfits⟩
    obtain rfl := Option.some.inj (hdid.symm.trans hd)
    obtain rfl := Option.some.inj (hphc.symm.trans hphc')
    exact ⟨rfl, hfits⟩
  have hrefused : ∀ e, ¬ RowFits env s did (handleAsked input) input.email phc →
      Registered cfg env s input rnd (.error e) s := fun e hno =>
    ⟨rfl, Or.inr (Or.inr ⟨rfl, rfl, fun d hd => hno (hrow d hd).2⟩)⟩
  cases hfault : env.fault (.countAndInsertAccount did (handleAsked input) input.email phc) with
  | some msg =>
      refine .op (AccountEnv.exec_fault hfault) (.fail (hrefused _ ?_))
      intro hfits
      cases hfault.symm.trans hfits.1
  | none =>
      have hexec := AccountEnv.exec_done (s := s) hfault (by intro _ h; cases h)
      cases hok : (s.insertAccountLocked did (handleAsked input) input.email phc).isOk with
      | false =>
          have hno : ¬ RowFits env s did (handleAsked input) input.email phc := fun h =>
            Bool.false_ne_true (hok.symm.trans h.2)
          cases hins : s.insertAccountLocked did (handleAsked input) input.email phc with
          | ok t =>
              rw [hins] at hok
              cases hok
          | error e =>
              have hins' : s.countAndInsertAccount did (handleAsked input) input.email phc
                  = .error e := by
                rw [AccountStore.countAndInsertAccount, hins]
                rfl
              exact .op (hexec.trans (by rw [AccountOp.exec, hins'])) (.fail (hrefused _ hno))
      | true =>
          obtain ⟨t, hins, hlen, huses⟩ := countAndInsertAccount_of_isOk hok
          have hadded : RowAdded cfg env s input rnd did := ⟨hdid, phc, hphc, hfault, hok⟩
          refine .op (hexec.trans (by rw [AccountOp.exec, hins])) ?_
          change Prog.Ends (S := accountSig) env.exec (if _ then _ else _) t _
          rw [if_neg]
          · refine (ends_finishAccount t (handleAsked input) did rnd).mono ?_
            rintro x u ⟨hacc, huses', hfin⟩
            refine ⟨huses'.trans huses, ?_⟩
            cases hx : x.isOk with
            | true => exact Or.inl ⟨rfl, did, hadded, hfin.mp hx⟩
            | false =>
                refine Or.inr (Or.inl ⟨rfl, by rw [hacc, hlen], did, hadded, fun h => ?_⟩)
                exact Bool.false_ne_true (hx.symm.trans (hfin.mpr h))
          · rintro ⟨hpos, hclosed, hnone⟩
            have hempty := hgate (eq_false_of_ne_true hnone)
            rcases hempty with hempty | hopen
            · omega
            · exact hclosed hopen

theorem ends_addAccount {s : AccountStore} {input : CreateAccountInput} {rnd : Entropy Keypair}
    {b : Bool} (hgate : b = false → s.accounts.length = 0 ∨ cfg.openRegistration) :
    Prog.Ends env.exec (addAccount cfg (handleAsked input) input rnd b) s
      (Registered cfg env s input rnd) := by
  unfold addAccount
  refine .bind (ends_accountDid s (handleAsked input) input.did rnd) ?_ ?_
  · rintro did t ⟨rfl, ⟨did', hdid, hok⟩ | ⟨-, e, herr⟩⟩
    · obtain rfl := Except.ok.inj hok
      cases hcheck : checkPassword input.password with
      | error e =>
          refine .fail ⟨rfl, Or.inr (Or.inr ⟨rfl, rfl, ?_⟩)⟩
          rintro d ⟨-, phc, hphc, -⟩
          rw [passwordHashOf, hcheck] at hphc
          cases hphc
      | ok password =>
          rw [Prog.bind_eq, Prog.ofExcept_ok, Prog.ret_bind]
          cases hhash : cfg.hashPassword rnd.salt password with
          | error e =>
              refine .fail ⟨rfl, Or.inr (Or.inr ⟨rfl, rfl, ?_⟩)⟩
              rintro d ⟨-, phc, hphc, -⟩
              simp only [passwordHashOf, hcheck, hhash, Except.toOption] at hphc
              cases hphc
          | ok phc =>
              refine ends_insert hgate hdid ?_
              simp only [passwordHashOf, hcheck, hhash, Except.toOption]
    · cases herr
  · rintro e t ⟨rfl, ⟨did, -, hok⟩ | ⟨hnone, -⟩⟩
    · cases hok
    · refine ⟨rfl, Or.inr (Or.inr ⟨rfl, rfl, ?_⟩)⟩
      rintro d ⟨hd, -⟩
      cases hnone.symm.trans hd

/-! ## The whole call -/

/-- Up to the gate the call only reads. -/
theorem ends_createAccountInner {s : AccountStore} {input : CreateAccountInput}
    {rnd : Entropy Keypair} {post : Except XrpcError CreateAccountResponse → AccountStore → Prop}
    (hearly : ¬ HandleFree cfg env s (handleAsked input) → ∀ e, post (.error e) s)
    (hgate : HandleFree cfg env s (handleAsked input) → Prog.Ends env.exec
      ((inviteGate cfg (handleAsked input) input.inviteCode).bind
        (addAccount cfg (handleAsked input) input rnd)) s post) :
    Prog.Ends env.exec (createAccountInner cfg input rnd) s post := by
  unfold createAccountInner
  change Prog.Ends (S := accountSig) env.exec
    ((Prog.ofExcept id (validateHandle (handleAsked input))).bind _) s _
  cases hvalid : validateHandle (handleAsked input) with
  | error e => exact .fail (hearly (fun h => nomatch hvalid.symm.trans h.1) _)
  | ok _ =>
      rw [Prog.ofExcept_ok, Prog.ret_bind]
      change Prog.Ends (S := accountSig) env.exec (if handleAsked input ≠ cfg.hostname
        ∧ ¬ Text.endsWith (handleAsked input) s!".{cfg.hostname}" then _ else _) s _
      by_cases hdomain : handleAsked input ≠ cfg.hostname
          ∧ ¬ Text.endsWith (handleAsked input) s!".{cfg.hostname}"
      · rw [if_pos hdomain]
        refine .fail (hearly (fun h => ?_) _)
        exact h.2.1.elim hdomain.1 hdomain.2
      rw [if_neg hdomain]
      cases hlook : env.fault (.getAccountByHandle (handleAsked input)) with
      | some msg =>
          refine .op (AccountEnv.exec_fault hlook) (.fail (hearly (fun h => ?_) _))
          cases hlook.symm.trans h.2.2.1
      | none =>
          refine .op (AccountEnv.exec_done hlook fun _ h => nomatch h) ?_
          change Prog.Ends (S := accountSig) env.exec
            (if (s.getAccountByHandle (handleAsked input)).isSome then _ else _) s _
          cases hfree : s.getAccountByHandle (handleAsked input) with
          | some row =>
              rw [if_pos Option.isSome_some]
              refine .fail (hearly (fun h => ?_) _)
              cases hfree.symm.trans h.2.2.2
          | none =>
              rw [Option.isSome_none, if_neg Bool.false_ne_true]
              refine hgate ⟨hvalid, ?_, hlook, hfree⟩
              by_cases hhost : handleAsked input = cfg.hostname
              · exact Or.inl hhost
              · exact Or.inr (by_contra fun hend => hdomain ⟨hhost, hend⟩)

theorem rowAdded_congr {s t : AccountStore} (h : t.accounts = s.accounts)
    {input : CreateAccountInput} {rnd : Entropy Keypair} {did : String} :
    RowAdded cfg env t input rnd did ↔ RowAdded cfg env s input rnd did := by
  have hisOk : ∀ phc, (t.insertAccountLocked did (handleAsked input) input.email phc).isOk
      = (s.insertAccountLocked did (handleAsked input) input.email phc).isOk := by
    intro phc
    unfold AccountStore.insertAccountLocked
    rw [h]
    split_ifs <;> rfl
  simp only [RowAdded, RowFits, hisOk]

theorem RowAdded.unique {s : AccountStore} {input : CreateAccountInput} {rnd : Entropy Keypair}
    {did did' : String} (h : RowAdded cfg env s input rnd did)
    (h' : RowAdded cfg env s input rnd did') : did' = did :=
  Option.some.inj (h'.1.symm.trans h.1)

theorem InviteTaken.needed {s : AccountStore} {handle : String} {code : Option String}
    (h : InviteTaken cfg env s handle code) : ¬ NoInviteNeeded cfg env s := by
  rintro ⟨-, hzero | hopen⟩
  · exact h.2.1 hzero
  · exact Bool.false_ne_true (h.2.2.1.symm.trans hopen)

variable (cfg env) in
/-- The call ended well or left no trace, and then no step failed late;
or it left one, and then one did. -/
def Verdict (s : AccountStore) (input : CreateAccountInput) (rnd : Entropy Keypair)
    (x : Except XrpcError CreateAccountResponse) (t : AccountStore) : Prop :=
  (NoLateFailure cfg env s input rnd ∧ (x.isOk = false → t = s))
    ∨ (¬ NoLateFailure cfg env s input rnd ∧ x.isOk = false ∧ t ≠ s)

theorem verdict_of_invite {s t u : AccountStore} {input : CreateAccountInput}
    {rnd : Entropy Keypair} {x : Except XrpcError CreateAccountResponse}
    (hfree : HandleFree cfg env s (handleAsked input))
    (htaken : InviteTaken cfg env s (handleAsked input) input.inviteCode)
    (hacc : t.accounts = s.accounts) (huses : t.inviteUses.length = s.inviteUses.length + 1)
    (h : Registered cfg env t input rnd x u) : Verdict cfg env s input rnd x u := by
  have hne : u ≠ s := by
    rintro rfl
    rw [h.1] at huses
    omega
  rcases h.2 with ⟨hok, did, hrow, hfin⟩ | ⟨hbad, -, did, hrow, hnot⟩ | ⟨hbad, -, hnone⟩
  · refine Or.inl ⟨fun _ => ⟨fun _ => ⟨did, (rowAdded_congr hacc).mp hrow, hfin⟩, ?_⟩, ?_⟩
    · exact fun hno => absurd hno htaken.needed
    · exact fun hbad => absurd (hok.symm.trans hbad) (by decide)
  · refine Or.inr ⟨fun hnl => ?_, hbad, hne⟩
    obtain ⟨did', hrow', hfin⟩ := (hnl hfree).1 htaken
    obtain rfl := ((rowAdded_congr hacc).mp hrow).unique hrow'
    exact hnot hfin
  · refine Or.inr ⟨fun hnl => ?_, hbad, hne⟩
    obtain ⟨did', hrow', -⟩ := (hnl hfree).1 htaken
    exact hnone did' ((rowAdded_congr hacc).mpr hrow')

theorem verdict_of_open {s u : AccountStore} {input : CreateAccountInput}
    {rnd : Entropy Keypair} {x : Except XrpcError CreateAccountResponse}
    (hfree : HandleFree cfg env s (handleAsked input)) (hopen : NoInviteNeeded cfg env s)
    (h : Registered cfg env s input rnd x u) : Verdict cfg env s input rnd x u := by
  rcases h.2 with ⟨hok, did, hrow, hfin⟩ | ⟨hbad, hlen, did, hrow, hnot⟩ | ⟨-, hsame, hnone⟩
  · refine Or.inl ⟨fun _ => ⟨fun htaken => absurd hopen htaken.needed, ?_⟩, ?_⟩
    · intro _ did' hrow'
      obtain rfl := hrow.unique hrow'
      exact hfin
    · exact fun hbad => absurd (hok.symm.trans hbad) (by decide)
  · refine Or.inr ⟨fun hnl => hnot ((hnl hfree).2 hopen did hrow), hbad, ?_⟩
    rintro rfl
    omega
  · refine Or.inl ⟨fun _ => ⟨fun htaken => absurd hopen htaken.needed, ?_⟩, fun _ => hsame⟩
    exact fun _ did hrow => absurd hrow (hnone did)

variable (cfg env) in
theorem ends_verdict (s : AccountStore) (input : CreateAccountInput) (rnd : Entropy Keypair) :
    Prog.Ends env.exec (createAccountInner cfg input rnd) s (Verdict cfg env s input rnd) := by
  refine ends_createAccountInner ?_ ?_
  · intro hnot e
    exact Or.inl ⟨fun hfree => absurd hfree hnot, fun _ => rfl⟩
  · intro hfree
    refine .bind (ends_inviteGate s (handleAsked input) input.inviteCode) ?_ ?_
    · rintro b t (⟨htaken, hb, hacc, huses⟩ | ⟨hopen, hb, rfl⟩ | ⟨-, -, ⟨e, he⟩, -⟩)
      · obtain rfl := Except.ok.inj hb
        refine (ends_addAccount (b := true) fun h => nomatch h).mono fun x u h => ?_
        exact verdict_of_invite hfree htaken hacc huses h
      · obtain rfl := Except.ok.inj hb
        refine (ends_addAccount fun _ => hopen.2).mono fun x u h => ?_
        exact verdict_of_open hfree hopen h
      · cases he
    · rintro e t (⟨-, hb, -⟩ | ⟨-, hb, -⟩ | ⟨hno, hno', -, rfl⟩)
      · cases hb
      · cases hb
      · exact Or.inl ⟨fun _ => ⟨fun h => absurd h hno, fun h => absurd h hno'⟩, fun _ => rfl⟩

variable (cfg env) in
/-- A failing call changes nothing if and only if no step fails after the
first one that changed the store. There is no step that undoes another, so
this is decided by the order of the steps alone. -/
theorem failsCleanly_iff (s : AccountStore) (input : CreateAccountInput) (rnd : Entropy Keypair) :
    FailsCleanly cfg env s input rnd ↔ NoLateFailure cfg env s input rnd := by
  obtain ⟨x, t, hrun, hverdict⟩ := ends_verdict cfg env s input rnd
  constructor
  · intro hclean
    rcases hverdict with ⟨hnl, -⟩ | ⟨-, hbad, hne⟩
    · exact hnl
    · cases x with
      | ok r => cases hbad
      | error e => exact absurd (hclean e t hrun) hne
  · intro hnl e s' hrun'
    obtain ⟨rfl, rfl⟩ := Prod.mk.injEq .. |>.mp (Option.some.inj (hrun.symm.trans hrun'))
    rcases hverdict with ⟨-, hsame⟩ | ⟨hnot, -⟩
    · exact hsame rfl
    · exact absurd hnl hnot

end

/-! ## A short password -/

/-- A server with one account and one invite, good for one use. -/
def invitedStore : AccountStore where
  accounts := [⟨"did:plc:admin", some "admin.pds.test", none, "phc", none, none⟩]
  invites := [⟨"welcome", 1, false⟩]
  inviteUses := []
  keys := []

def invitedInput (password : String) : CreateAccountInput :=
  ⟨"bob.pds.test", none, some password, some "welcome", none⟩

def sampleEntropy : Entropy Nat := ⟨3, 4, "salt", [], [], 0⟩

/-- Nothing the call depends on fails. -/
def calmEnv : AccountEnv := ⟨fun _ => none, fun _ => none⟩

/-- A password that is too short costs the invite: the call is refused
after the gate, and the same person's next call, with a good password,
is told that the code is invalid. -/
theorem shortPassword_costs_invite :
    ¬ FailsCleanly sampleServer calmEnv invitedStore (invitedInput "short") sampleEntropy
    ∧ (((createAccountInner sampleServer (invitedInput "short") sampleEntropy).alone
        calmEnv.exec invitedStore).bind fun r =>
          (createAccountInner sampleServer (invitedInput "correct horse") sampleEntropy).alone
            calmEnv.exec r.2).map (fun r => r.1.toOption.isSome) = some false := by
  constructor
  · intro h
    have hrun : ((createAccountInner sampleServer (invitedInput "short") sampleEntropy).alone
        calmEnv.exec invitedStore).map (fun r => (r.1.isOk, r.2.inviteUses.length))
          = some (false, 1) := by decide
    obtain ⟨⟨x, t⟩, hx, hr⟩ := Option.map_eq_some_iff.mp hrun
    obtain ⟨hbad, hlen⟩ := Prod.mk.injEq .. |>.mp hr
    cases x with
    | ok r => cases hbad
    | error e =>
        obtain rfl := h e t hx
        cases hlen
  · decide

end Stelyph
