import Stelyph.Registration

/-!
# The registration gate

With registration closed, an account costs an invite unless it is the
first. The code counts accounts twice: once before it decides whether an
invite is needed, and once in the transaction that inserts the row. The
second count is compared with zero after the row is in, so the gate
holds exactly as long as no call that consumed no invite gets its insert
through on a table that already has a row (`firstOnly`).

The proof is a rely-guarantee argument. A task owes at most as many
late inserts (inserts that were not the first) as it consumed invites;
the tasks' debts add up over the log, and the table is at most one row
longer than the late inserts.
-/

namespace Stelyph

abbrev AccountEvent := Event accountSig

/-- A successful `consume_invite`. -/
def consumedInvite : AccountEvent → Bool
  | ⟨_, .consumeInvite _ _, .ok b⟩ => b
  | _ => false

/-- The handle of a successful `count_and_insert_account`. -/
def insertedHandle : AccountEvent → Option String
  | ⟨_, .countAndInsertAccount _ handle _ _, .ok _⟩ => some handle
  | _ => none

/-- A successful insert on a table that was not empty. -/
def lateInsert : AccountEvent → Bool
  | ⟨_, .countAndInsertAccount _ _ _ _, .ok n⟩ => n != 0
  | _ => false

section

variable {Keypair : Type} (cfg : ServerConfig Keypair)

abbrev RegistrationPool (Keypair : Type) :=
  Pool accountSig (CreateAccountInput × Entropy Keypair) XrpcError CreateAccountResponse
    AccountStore

/-- One step of calls of `createAccount`: one comes in, or one under way
does its next operation on the shared store. -/
def registrationStep (P : RegistrationPool Keypair) :
    PoolAct (CreateAccountInput × Entropy Keypair) Outcome → Option (RegistrationPool Keypair) :=
  Pool.next accountMachine (fun q => createAccountInner cfg q.1 q.2) P

/-- Somebody can log in to an account that call `i` inserted. -/
def LeavesLogin (P : RegistrationPool Keypair) (i : Nat) : Prop :=
  ∃ e ∈ P.log, e.tid = i ∧ ∃ handle, insertedHandle e = some handle ∧
    ∃ password now session store,
      (createSession cfg handle password now).alone
        (fun s o => AccountOp.exec s o .done) P.store = some (.ok session, store)

/-- The gate: no more accounts than one and a row for each invite
consumed, and no account of a caller who was told that the invite is
invalid. -/
def GateHolds (P : RegistrationPool Keypair) : Prop :=
  P.store.accounts.length ≤ 1 + P.log.countP consumedInvite
    ∧ ∀ i q, P.tasks[i]? = some (q, .fail .invalidInviteCode) → ¬ LeavesLogin cfg P i

/-- An insert of a call that consumed no invite goes through on an empty
table only. -/
def firstOnlyAt (w : World accountSig AccountStore) (i : Nat) : AccountOp → Bool
  | .countAndInsertAccount did handle email phc =>
      w.tally consumedInvite i != 0
        || !(w.store.insertAccountLocked did handle email phc).isOk
        || w.store.accounts.isEmpty
  | _ => true

/-- The step is not the insert of a call without an invite into a table
that has a row: the count that let it pass is still right. -/
def firstOnly (P : RegistrationPool Keypair) :
    PoolAct (CreateAccountInput × Entropy Keypair) Outcome → Bool
  | .step i .done =>
      match P.tasks[i]? with
      | some (_, .op o _) => firstOnlyAt P.toWorld i o
      | _ => true
  | _ => true

end

/-! ## The contract -/

/-- The table is at most one row longer than the late inserts, and every
task paid for its own. -/
def gateInv (w : World accountSig AccountStore) : Prop :=
  w.store.accounts.length ≤ 1 + w.log.countP lateInsert
    ∧ ∀ i, w.tally lateInsert i ≤ w.tally consumedInvite i

def gate : Contract accountSig AccountStore := .logged gateInv

def inserted (e : AccountEvent) : Bool := (insertedHandle e).isSome

/-- What an operation can do in a run that meets `firstOnly`. -/
def GateExec (i : Nat) (w : World accountSig AccountStore) (o : AccountOp) (r : o.Ret)
    (s : AccountStore) : Prop :=
  ∃ c, AccountOp.exec w.store o c = some (r, s) ∧ (c = .done → firstOnlyAt w i o = true)

/-- The operations that leave the accounts table alone. -/
def AccountOp.Keeps : AccountOp → Prop
  | .countAndInsertAccount _ _ _ _ => False
  | _ => True

/-- Those that consume no invite either. -/
def AccountOp.Quiet : AccountOp → Prop
  | .countAndInsertAccount _ _ _ _ => False
  | .consumeInvite _ _ => False
  | _ => True

theorem AccountOp.Quiet.keeps {o : AccountOp} (h : o.Quiet) : o.Keeps := by
  cases o <;> trivial

theorem exec_keeps {s s' : AccountStore} {o : AccountOp} {c : Outcome} {r : o.Ret}
    (hk : o.Keeps) (h : o.exec s c = some (r, s')) : s'.accounts = s.accounts := by
  cases o <;> cases c <;> simp only [AccountOp.exec, Option.some.injEq, reduceCtorEq] at h
  all_goals first
    | exact hk.elim
    | (obtain ⟨-, rfl⟩ := h; simp)

theorem inserted_keeps {o : AccountOp} (hk : o.Keeps) (i : Nat) (r : o.Ret) :
    inserted ⟨i, o, r⟩ = false := by
  cases o <;> first | rfl | exact hk.elim

theorem consumedInvite_quiet {o : AccountOp} (hq : o.Quiet) (i : Nat) (r : o.Ret) :
    consumedInvite ⟨i, o, r⟩ = false := by
  cases o <;> first | rfl | exact hq.elim

theorem inserted_of_lateInsert (e : AccountEvent) (h : lateInsert e) : inserted e := by
  obtain ⟨i, o, r⟩ := e
  cases o <;> cases r <;> first | rfl | cases h

theorem lateInsert_keeps {o : AccountOp} (hk : o.Keeps) (i : Nat) (r : o.Ret) :
    lateInsert ⟨i, o, r⟩ = false := by
  rw [Bool.eq_false_iff]
  intro h
  have := inserted_of_lateInsert _ h
  rw [inserted_keeps hk] at this
  cases this

/-- Where a call stands before its insert: nothing inserted, and an
invite consumed exactly if `b` says so. -/
def Before (i : Nat) (b : Bool) (w : World accountSig AccountStore) : Prop :=
  w.tally inserted i = 0 ∧ (0 < w.tally consumedInvite i ↔ b = true)

theorem Before.stable {i : Nat} {b : Bool} {w w' : World accountSig AccountStore}
    (h : Before i b w) (hr : gate.rely i w w') : Before i b w' := by
  unfold Before
  rw [hr inserted, hr consumedInvite]
  exact h

theorem Before.after_quiet {i : Nat} {b : Bool} {w : World accountSig AccountStore}
    {o : AccountOp} (hq : o.Quiet) (h : Before i b w) (r : o.Ret) (s : AccountStore) :
    Before i b (w.after i o r s) := by
  unfold Before
  rw [World.tally_after_self, World.tally_after_self, inserted_keeps hq.keeps,
    consumedInvite_quiet hq]
  exact h

theorem Before.after_consumeInvite {i : Nat} {w : World accountSig AccountStore}
    {code usedBy : String} (h : Before i false w)
    (r : (AccountOp.consumeInvite code usedBy).Ret) (s : AccountStore) :
    Before i (consumedInvite ⟨i, .consumeInvite code usedBy, r⟩)
      (w.after i (.consumeInvite code usedBy) r s) := by
  have hnone : w.tally consumedInvite i = 0 := by simpa [Before] using h.2
  unfold Before
  rw [World.tally_after_self, World.tally_after_self,
    inserted_keeps (o := .consumeInvite code usedBy) trivial, hnone, h.1]
  cases consumedInvite ⟨i, .consumeInvite code usedBy, r⟩ <;> simp

/-! ## What each operation keeps -/

theorem gateInv_keeps {i : Nat} {w : World accountSig AccountStore} {o : AccountOp}
    {r : o.Ret} {s : AccountStore} (hk : o.Keeps) (hinv : gateInv w)
    (h : GateExec i w o r s) : gateInv (w.after i o r s) := by
  obtain ⟨c, hexec, -⟩ := h
  obtain ⟨hlen, hpaid⟩ := hinv
  refine ⟨?_, fun j => ?_⟩
  · simp only [World.after_store, World.after_log, exec_keeps hk hexec]
    rw [List.countP_append]
    omega
  · rcases eq_or_ne i j with rfl | hij
    · rw [World.tally_after_self, World.tally_after_self, lateInsert_keeps hk]
      have := hpaid i
      simp only [Bool.false_eq_true, if_false]
      omega
    · rw [World.tally_after_of_ne _ _ hij, World.tally_after_of_ne _ _ hij]
      exact hpaid j

/-- Everything the insert can do in a run that meets `firstOnly`. -/
theorem gateExec_insert {i : Nat} {w : World accountSig AccountStore}
    {did handle phc : String} {email : Option String} {s : AccountStore}
    {r : (AccountOp.countAndInsertAccount did handle email phc).Ret}
    (h : GateExec i w (.countAndInsertAccount did handle email phc) r s) :
    (∃ e, r = .error e ∧ s = w.store) ∨
    (∃ n, r = .ok n ∧ n = w.store.accounts.length ∧ s.accounts.length = n + 1
      ∧ (w.tally consumedInvite i = 0 → n = 0)) := by
  obtain ⟨c, hexec, hfirst⟩ := h
  cases c with
  | done =>
      simp only [AccountOp.exec] at hexec
      split at hexec
      · rename_i n s' hins
        obtain ⟨rfl, rfl⟩ := Prod.mk.injEq .. |>.mp (Option.some.inj hexec)
        obtain ⟨hn, hlen⟩ := AccountStore.countAndInsertAccount_ok hins
        refine Or.inr ⟨n, rfl, hn, hn ▸ hlen, fun hnone => ?_⟩
        have := hfirst rfl
        simp only [firstOnlyAt, hnone, AccountStore.insertAccountLocked_isOk hins] at this
        simpa [hn] using this
      · rename_i e hins
        obtain ⟨rfl, rfl⟩ := Prod.mk.injEq .. |>.mp (Option.some.inj hexec)
        exact Or.inl ⟨e, rfl, rfl⟩
  | fault msg =>
      obtain ⟨rfl, rfl⟩ := Prod.mk.injEq .. |>.mp (Option.some.inj hexec)
      exact Or.inl ⟨_, rfl, rfl⟩
  | document id => cases hexec

theorem gateInv_insert_error {i : Nat} {w : World accountSig AccountStore}
    {did handle phc : String} {email : Option String} (e : StorageError)
    (hinv : gateInv w) :
    gateInv (w.after i (.countAndInsertAccount did handle email phc) (.error e) w.store) := by
  refine ⟨?_, fun j => ?_⟩
  · simpa [List.countP_append, lateInsert] using hinv.1
  · rcases eq_or_ne i j with rfl | hij
    · simpa [lateInsert, consumedInvite] using hinv.2 i
    · rw [World.tally_after_of_ne _ _ hij, World.tally_after_of_ne _ _ hij]
      exact hinv.2 j

theorem gateInv_insert_ok {i n : Nat} {b : Bool} {w : World accountSig AccountStore}
    {did handle phc : String} {email : Option String} {s : AccountStore}
    (hw : Before i b w) (hinv : gateInv w) (hn : n = w.store.accounts.length)
    (hlen : s.accounts.length = n + 1) (hfirst : w.tally consumedInvite i = 0 → n = 0) :
    gateInv (w.after i (.countAndInsertAccount did handle email phc) (.ok n) s) := by
  have hlate : w.tally lateInsert i = 0 :=
    Nat.le_zero.mp (hw.1 ▸ World.tally_mono i inserted_of_lateInsert)
  refine ⟨?_, fun j => ?_⟩
  · have := hinv.1
    simp only [World.after_store, World.after_log, List.countP_append, List.countP_singleton,
      lateInsert, hlen]
    by_cases h0 : n = 0
    · simp only [h0, bne_self_eq_false, Bool.false_eq_true, if_false]
      omega
    · simp only [bne_iff_ne, ne_eq, h0, not_false_eq_true, if_true]
      omega
  · rcases eq_or_ne i j with rfl | hij
    · -- the first row is free, a later one was paid for
      by_cases h0 : n = 0
      · simp [lateInsert, hlate, h0]
      · have hpos : 0 < w.tally consumedInvite i :=
          Nat.pos_of_ne_zero fun h => h0 (hfirst h)
        simpa [lateInsert, hlate, h0, consumedInvite, Nat.one_le_iff_ne_zero] using hpos.ne'
    · rw [World.tally_after_of_ne _ _ hij, World.tally_after_of_ne _ _ hij]
      exact hinv.2 j

/-! ## Safety of the parts of a call -/

section

variable {Keypair : Type} {cfg : ServerConfig Keypair} {i : Nat}

/-- A part that only issues quiet operations keeps the contract whatever
else is known about the call. -/
theorem safe_quiet {α : Type} {post : Except XrpcError α → World accountSig AccountStore → Prop}
    {K : World accountSig AccountStore → Prop} {Q : XrpcError → Prop}
    (hstable : ∀ w w', K w → gate.rely i w w' → K w')
    (hafter : ∀ w (o : AccountOp), o.Quiet → K w → ∀ r s, K (w.after i o r s))
    (hok : ∀ a w, K w → post (.ok a) w)
    (herror : ∀ e w, Q e → K w → post (.error e) w) :
    ∀ {p : AccountProg α} {w : World accountSig AccountStore},
      p.Each AccountOp.Quiet → p.Fails Q → K w → Safe gate GateExec i post p w
  | .ret a, w, _, _, hK => fun w' hr _ => hok a w' (hstable w w' hK hr)
  | .fail e, w, _, hQ, hK => fun w' hr _ => herror e w' hQ (hstable w w' hK hr)
  | .op o _, w, hq, hQ, hK => fun w₁ hr hinv r s hE =>
      ⟨gateInv_keeps hq.1.keeps hinv hE,
        fun _ hj => Contract.logged_rely_after gateInv w₁ hj o r s,
        safe_quiet hstable hafter hok herror (hq.2 r) (hQ r)
          (hafter w₁ o hq.1 (hstable w w₁ hK hr) r s)⟩

/-- The postcondition of a call: one that ends in `InvalidInviteCode`
has inserted nothing. -/
def gatePost {α : Type} (i : Nat) (x : Except XrpcError α)
    (w : World accountSig AccountStore) : Prop :=
  match x with
  | .error .invalidInviteCode => w.tally inserted i = 0
  | _ => True

/-- The first half of a call, up to the insert. -/
def beforePost {α : Type} (i : Nat) (b : α → Bool) (x : Except XrpcError α)
    (w : World accountSig AccountStore) : Prop :=
  match x with
  | .ok a => Before i (b a) w
  | .error _ => w.tally inserted i = 0

theorem safe_before {α : Type} {b : Bool} {p : AccountProg α}
    {w : World accountSig AccountStore} (hq : p.Each AccountOp.Quiet)
    (h : Before i b w) : Safe gate GateExec i (beforePost i fun _ => b) p w :=
  safe_quiet (K := Before i b) (fun _ _ hK hr => hK.stable hr)
    (fun _ _ hq hK r s => hK.after_quiet hq r s)
    (fun _ _ hK => hK) (fun _ _ _ hK => hK.1) hq Prog.Fails.trivial h

/-- One operation before the insert. -/
theorem safe_op_before {α : Type} {b : Bool} {o : AccountOp} {k : o.Ret → AccountProg α}
    {post : Except XrpcError α → World accountSig AccountStore → Prop}
    {w : World accountSig AccountStore} (hq : o.Keeps) (h : Before i b w)
    (hk : ∀ w₁ r s, Before i b w₁ → Safe gate GateExec i post (k r) (w₁.after i o r s)) :
    Safe gate GateExec i post (.op o k) w :=
  fun w₁ hr hinv r s hE =>
    ⟨gateInv_keeps hq hinv hE, fun _ hj => Contract.logged_rely_after gateInv w₁ hj o r s,
      hk w₁ r s (h.stable hr)⟩

/-- The gate answers `true` only to a call that has consumed an invite. -/
theorem safe_inviteGate {handle : String} {inviteCode : Option String}
    {w : World accountSig AccountStore} (h : Before i false w) :
    Safe gate GateExec i (beforePost i id) (inviteGate cfg handle inviteCode) w := by
  have hret : ∀ {w}, Before i false w →
      Safe gate GateExec i (beforePost i id) (.ret false) w :=
    fun hw _ hr _ => hw.stable hr
  have hfail : ∀ {w} e, Before i false w →
      Safe gate GateExec i (beforePost i id) (.fail e) w :=
    fun _ hw _ hr _ => (hw.stable hr).1
  simp only [inviteGate, Prog.bind_eq, Prog.pure_eq, Prog.ask, Prog.op_bind, Prog.ret_bind]
  refine safe_op_before trivial h fun w₁ r s hw₁ => ?_
  have hw₂ := hw₁.after_quiet (o := .countAccounts) trivial r s
  rcases r with e | n
  · exact hfail _ hw₂
  simp only [storage, Prog.ofExcept_ok, Prog.ret_bind]
  split_ifs
  · exact hret hw₂
  · exact hret hw₂
  cases inviteCode with
  | none => exact hfail _ hw₂
  | some code =>
      refine safe_op_before trivial hw₂ fun w₃ r s hw₃ => ?_
      have hw₄ := hw₃.after_consumeInvite r s
      rcases r with e | consumed
      · exact hfail _ hw₄
      cases consumed with
      | false => exact hfail _ hw₄
      | true => exact fun w' hr _ => hw₄.stable hr

theorem each_registerDidPlc {handle : String} {rnd : Entropy Keypair} :
    (registerDidPlc cfg handle rnd).Each AccountOp.Quiet := by
  refine Prog.Each.bind (Prog.each_ofExcept ..) fun x => ?_
  refine (Prog.Each.ask trivial).bind fun r => ?_
  exact (Prog.each_ofExcept ..).bind fun _ => trivial

theorem each_accountDid {handle : String} {did : Option String} {rnd : Entropy Keypair} :
    (accountDid cfg handle did rnd).Each AccountOp.Quiet := by
  unfold accountDid
  split
  · exact each_registerDidPlc
  · split_ifs
    · refine (Prog.Each.ask trivial).bind fun r => ?_
      refine (Prog.each_ofExcept ..).bind fun docId => ?_
      split_ifs <;> trivial
    · exact each_registerDidPlc

theorem each_storeKey {id : String} {nonce plaintext : Bytes} :
    (storeKey cfg id nonce plaintext).Each AccountOp.Quiet :=
  Prog.Each.bind (Prog.each_ofExcept ..) fun _ =>
    (Prog.Each.ask trivial).bind fun _ => Prog.each_ofExcept ..

theorem each_finishAccount {handle did : String} {rnd : Entropy Keypair} :
    (finishAccount cfg handle did rnd).Each AccountOp.Quiet := by
  refine each_storeKey.bind fun _ => each_storeKey.bind fun _ => ?_
  exact Prog.Each.bind (Prog.each_ofExcept ..) fun _ =>
    Prog.Each.bind (Prog.each_ofExcept ..) fun _ => trivial

def NotTheGate (e : XrpcError) : Prop := e ≠ .invalidInviteCode

theorem ofStorage_ne (e : StorageError) : NotTheGate (.ofStorage e) := by
  intro h
  cases h

theorem ofCore_ne (e : CoreError) : NotTheGate (.ofCore e) := by
  cases e <;> (intro h; cases h)

theorem fails_finishAccount {handle did : String} {rnd : Entropy Keypair} :
    (finishAccount cfg handle did rnd).Fails NotTheGate := by
  have hkey : ∀ {id nonce plaintext},
      (storeKey cfg id nonce plaintext).Fails NotTheGate := by
    refine (Prog.fails_ofExcept ofStorage_ne _).bind fun _ => ?_
    exact (Prog.fails_ask _).bind fun r => Prog.fails_ofExcept ofStorage_ne r
  refine hkey.bind fun _ => hkey.bind fun _ => ?_
  refine (Prog.fails_ofExcept ofCore_ne _).bind fun _ => ?_
  exact (Prog.fails_ofExcept ofCore_ne _).bind fun _ => trivial

theorem safe_finishAccount {handle did : String} {rnd : Entropy Keypair}
    {w : World accountSig AccountStore} :
    Safe gate GateExec i (gatePost i) (finishAccount cfg handle did rnd) w := by
  refine safe_quiet (K := fun _ => True) (fun _ _ _ _ => trivial) (fun _ _ _ _ _ _ => trivial)
    (fun _ _ _ => trivial) (fun e w he _ => ?_) each_finishAccount fails_finishAccount trivial
  unfold gatePost
  split
  · rename_i heq
    cases heq
    exact absurd rfl he
  · trivial

/-- The insert, and what follows it. -/
theorem safe_insert {b : Bool} {did handle phc : String} {email : Option String}
    {rnd : Entropy Keypair} {w : World accountSig AccountStore}
    (h : Before i b w) :
    Safe gate GateExec i (gatePost i)
      ((AccountOp.call (.countAndInsertAccount did handle email phc)).bind fun r =>
        (storage r).bind fun countBefore =>
          if countBefore > 0 ∧ ¬ cfg.openRegistration ∧ ¬ b then .fail .invalidInviteCode
          else finishAccount cfg handle did rnd) w := by
  intro w₁ hr hinv r s hE
  have hw₁ := h.stable hr
  rcases gateExec_insert hE with ⟨e, rfl, rfl⟩ | ⟨n, rfl, hn, hlen, hfirst⟩
  · refine ⟨gateInv_insert_error e hinv,
      fun j hj => Contract.logged_rely_after gateInv w₁ hj _ _ _, fun w' _ _ => ?_⟩
    exact trivial
  · refine ⟨gateInv_insert_ok hw₁ hinv hn hlen hfirst,
      fun j hj => Contract.logged_rely_after gateInv w₁ hj _ _ _, ?_⟩
    have hgate : ¬ (n > 0 ∧ ¬ cfg.openRegistration ∧ ¬ b) := by
      rintro ⟨hpos, -, hb⟩
      have hnone : w₁.tally consumedInvite i = 0 :=
        Nat.eq_zero_of_not_pos fun hp => hb (hw₁.2.mp hp)
      have := hfirst hnone
      omega
    simp only [Prog.ret_bind, storage, Prog.ofExcept_ok, if_neg hgate]
    exact safe_finishAccount

theorem safe_bind_before {α β : Type} {p : AccountProg α} {f : α → AccountProg β}
    {b : α → Bool} {w : World accountSig AccountStore}
    (hp : Safe gate GateExec i (beforePost i b) p w) (hinv : gateInv w)
    (hf : ∀ a w', Before i (b a) w' → gateInv w' →
      Safe gate GateExec i (gatePost i) (f a) w') :
    Safe gate GateExec i (gatePost i) (p.bind f) w := by
  refine Safe.bind (hp.mono fun x w' hinv' hx => ?_) hinv
  cases x with
  | ok a => exact hf a w' hx hinv'
  | error e => cases e <;> trivial

/-- A call that starts in a state that meets the contract keeps to it. -/
theorem safe_createAccountInner {input : CreateAccountInput} {rnd : Entropy Keypair}
    {w : World accountSig AccountStore} (hinv : gateInv w)
    (hfresh : ∀ e ∈ w.log, e.tid < i) :
    Safe gate GateExec i (gatePost i) (createAccountInner cfg input rnd) w := by
  have h0 : Before i false w := by
    refine ⟨World.tally_eq_zero_of_fresh _ hfresh, ?_⟩
    rw [World.tally_eq_zero_of_fresh _ hfresh]
    simp
  have hquiet : ∀ {α : Type} {x : Except XrpcError α},
      (Prog.ofExcept id x : AccountProg α).Each AccountOp.Quiet := Prog.each_ofExcept ..
  refine safe_bind_before (safe_before hquiet h0) hinv fun _ w₁ h₁ hinv₁ => ?_
  split_ifs
  · exact fun _ _ _ => trivial
  refine safe_bind_before (safe_before (Prog.Each.ask trivial) h₁) hinv₁
    fun r w₂ h₂ hinv₂ => ?_
  refine safe_bind_before (safe_before (Prog.each_ofExcept ..) h₂) hinv₂
    fun existing w₃ h₃ hinv₃ => ?_
  split_ifs
  · exact fun _ _ _ => trivial
  refine safe_bind_before (safe_inviteGate h₃) hinv₃ fun b w₄ h₄ hinv₄ => ?_
  refine safe_bind_before (safe_before each_accountDid h₄) hinv₄ fun did w₅ h₅ hinv₅ => ?_
  refine safe_bind_before (safe_before hquiet h₅) hinv₅ fun password w₆ h₆ hinv₆ => ?_
  refine safe_bind_before (safe_before (Prog.each_ofExcept ..) h₆) hinv₆
    fun phc w₇ h₇ _ => ?_
  exact safe_insert h₇

/-! ## The theorem -/

theorem gateExec_of_firstOnly {P : RegistrationPool Keypair}
    {a : PoolAct (CreateAccountInput × Entropy Keypair) Outcome} (h : firstOnly P a = true) :
    Pool.Allowed accountMachine GateExec P a := by
  cases a with
  | start q => trivial
  | step i c =>
      intro q o k r s htask hexec
      refine ⟨c, hexec, ?_⟩
      rintro rfl
      simpa only [firstOnly, htask] using h

/-- In every run in which no call that consumed no invite gets its insert
through on a table that has a row, the gate holds in every state. -/
theorem gateHolds_of_firstOnly {invites : List Invite}
    {as : List (PoolAct (CreateAccountInput × Entropy Keypair) Outcome)}
    {P : RegistrationPool Keypair}
    (hrun : Steps.run (registrationStep cfg) (Pool.init ⟨[], invites, [], []⟩) as = some P)
    (hfirst : Steps.Along (registrationStep cfg) (fun P a => firstOnly P a = true)
      (Pool.init ⟨[], invites, [], []⟩) as) :
    GateHolds cfg P := by
  have hgood : Pool.Good gate GateExec (fun _ i => gatePost i) P := by
    refine Pool.good_run (fun q i w hinv hfresh => safe_createAccountInner hinv hfresh)
      ?_ (hfirst.imp fun _ _ => gateExec_of_firstOnly) hrun
    exact ⟨Nat.zero_le _, fun _ => Nat.zero_le _⟩
  refine ⟨?_, ?_⟩
  · have hsum := World.countP_log_le hgood.2.1 hgood.1.2
    have := hgood.1.1
    omega
  · rintro i q htask ⟨e, he, rfl, handle, hhandle, -⟩
    have hnone : P.toWorld.tally inserted e.tid = 0 := hgood.post_error htask
    rw [World.tally, List.countP_eq_zero] at hnone
    exact hnone e he (by simp [inserted, hhandle])

end

/-! ## A server with closed registration -/

def sampleServer : ServerConfig Nat where
  hostname := "pds.test"
  openRegistration := false
  pdsEndpoint := "https://pds.test"
  plc := samplePlc
  hashPassword salt p := .ok s!"{salt}${p}"
  verifyPassword p phc := .ok (Text.endsWith phc s!"${p}")
  encryptKey nonce plaintext := .ok (nonce ++ plaintext)
  encodeAccessJwt did now := .ok s!"access:{did}:{now}"
  encodeRefreshJwt did now := .ok s!"refresh:{did}:{now}"

def sampleCall (name : String) (n : Nat) : CreateAccountInput × Entropy Nat :=
  ({ handle := s!"{name}.pds.test", email := none, password := some "correct horse"
     inviteCode := none, did := none },
   { signing := n, rotation := n + 1, salt := name, signingNonce := [], rotationNonce := []
     now := 0 })

/-- One call to its end, then a second one that still counts no account
when the first has not inserted its row. -/
def twoFirstCalls : List (PoolAct (CreateAccountInput × Entropy Nat) Outcome) :=
  [.start (sampleCall "alice" 1), .start (sampleCall "bob" 3),
    .step 0 .done, .step 0 .done, .step 1 .done, .step 1 .done,
    .step 0 .done, .step 0 .done, .step 1 .done, .step 1 .done]

/-- Two calls that both counted no account: the second is told its
invite code is invalid, but its row is in and its password works. -/
theorem twoFirstCalls_break_gate :
    ¬ ∀ (cfg : ServerConfig Nat) (as : List (PoolAct (CreateAccountInput × Entropy Nat) Outcome))
      (P : RegistrationPool Nat), cfg.openRegistration = false →
      Steps.run (registrationStep cfg) (Pool.init ⟨[], [], [], []⟩) as = some P →
      GateHolds cfg P := by
  intro h
  have hlen : (Steps.run (registrationStep sampleServer) (Pool.init ⟨[], [], [], []⟩)
      twoFirstCalls).map (fun P => (P.store.accounts.length, P.log.countP consumedInvite))
        = some (2, 0) := by decide
  obtain ⟨P, hrun, hP⟩ := Option.map_eq_some_iff.mp hlen
  obtain ⟨hacc, hcons⟩ := Prod.mk.injEq .. |>.mp hP
  have := (h sampleServer twoFirstCalls P rfl hrun).1
  omega

/-- What becomes of the second call, and of a login with its password. -/
example : (Steps.run (registrationStep sampleServer) (Pool.init ⟨[], [], [], []⟩)
    twoFirstCalls).map (fun P =>
      ((P.tasks[1]?.bind fun t => t.2.outcome).map fun r => r.toOption.isSome,
        ((createSession sampleServer "bob.pds.test" "correct horse" 0).alone
          (fun s o => AccountOp.exec s o .done) P.store).map fun r => r.1.toOption.isSome))
    = some (some false, some true) := by decide

/-- Both calls are under way before either has a row. The second counts the
accounts once the first has its own, and spends an invite. -/
def overlappingCalls : List (PoolAct (CreateAccountInput × Entropy Nat) Outcome) :=
  let invited := sampleCall "bob" 3
  [.start (sampleCall "alice" 1), .start ({ invited.1 with inviteCode := some "i0" }, invited.2),
    .step 0 .done, .step 1 .done, .step 0 .done, .step 0 .done, .step 0 .done, .step 1 .done,
    .step 1 .done, .step 0 .done, .step 1 .done, .step 1 .done, .step 0 .done, .step 1 .done,
    .step 1 .done]

/-- They meet the condition, and the gate holds with two accounts. -/
theorem gateHolds_overlapping : ∃ P : RegistrationPool Nat,
    Steps.run (registrationStep sampleServer) (Pool.init ⟨[], [⟨"i0", 1, false⟩], [], []⟩)
      overlappingCalls = some P
    ∧ (P.store.accounts.length, P.log.countP consumedInvite) = (2, 1)
    ∧ (P.tasks.all fun t => t.2.outcome.any fun r => r.toOption.isSome) = true
    ∧ GateHolds sampleServer P := by
  have hend : (Steps.run (registrationStep sampleServer)
      (Pool.init ⟨[], [⟨"i0", 1, false⟩], [], []⟩) overlappingCalls).map
        (fun P => ((P.store.accounts.length, P.log.countP consumedInvite),
          P.tasks.all fun t => t.2.outcome.any fun r => r.toOption.isSome))
      = some ((2, 1), true) := by decide
  obtain ⟨P, hrun, hP⟩ := Option.map_eq_some_iff.mp hend
  obtain ⟨hcounts, hended⟩ := Prod.mk.injEq .. |>.mp hP
  exact ⟨P, hrun, hcounts, hended, gateHolds_of_firstOnly hrun (by decide)⟩

end Stelyph
