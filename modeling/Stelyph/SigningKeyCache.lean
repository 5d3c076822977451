import Stelyph.KeyEnvelope
import Stelyph.Lib.Budget
import Stelyph.Lib.Expand
import Stelyph.Lib.Memo
import Stelyph.RegistrationGate

/-!
# The signing keys that are kept in memory

`load_signing_key_cached` (`rust-pds/src/xrpc/repo.rs`) keeps a decrypted
key for the life of the process and looks at the store no more. What it
keeps cannot become stale: an account's key is written once, by the call
that has put its row in, and rows stay. So whatever is interleaved,
everything that is ever signed for a DID is signed with the key that its
registration drew (`one_signing_key`).
-/

namespace Stelyph

/-! ## Operations -/

/-- Store calls of the account, key reads, and the decryption that runs on
a blocking thread. -/
inductive KeyedOp where
  | account (o : AccountOp)
  | getKeyBlob (id : String)
  | blocking (task : Crypto.KeyTask)

abbrev KeyedOp.Ret : KeyedOp → Type
  | .account o => o.Ret
  | .getKeyBlob _ => Except StorageError (Option Bytes)
  | .blocking _ => Bool

abbrev keyedSig : Sig := ⟨KeyedOp, KeyedOp.Ret⟩

def AccountStore.getKeyBlob (s : AccountStore) (id : String) : Option Bytes :=
  (s.keys.find? fun e => e.1 == id).map Prod.snd

/-- One of them with its outcome. A store call that fails has changed
nothing, and a blocking task may panic. -/
def KeyedOp.exec (s : AccountStore) : (o : KeyedOp) → Outcome → Option (o.Ret × AccountStore)
  | .account o, c => o.exec s c
  | .getKeyBlob id, .done => some (.ok (s.getKeyBlob id), s)
  | .getKeyBlob _, .fault msg => some (.error (.backend msg), s)
  | .blocking _, .done => some (true, s)
  | .blocking _, .fault _ => some (false, s)
  | _, .document _ => none

/-- The account store with its keys, below the cache. -/
def keyedMachine : Machine keyedSig AccountStore Outcome where
  exec _ s o c := KeyedOp.exec s o c

/-- With the table of the keys that were opened, by their ids. -/
abbrev signingSig : Sig := cachedSig keyedSig String Bytes

/-- The key store's calls among the others. -/
def KeyedOp.ofKey : Crypto.KeyOp → KeyedOp
  | .store (.getKeyBlob id) => .getKeyBlob id
  | .store (.putKeyBlob id blob) => .account (.putKeyBlob id blob)
  | .blocking task => .blocking task

def KeyedOp.ofKeyRet : (o : Crypto.KeyOp) → (KeyedOp.ofKey o).Ret → o.Ret
  | .store (.getKeyBlob _), r => r
  | .store (.putKeyBlob _ _), r => r
  | .blocking _, r => r

/-! ## Programs -/

section

variable {Keypair κ : Type} (cfg : ServerConfig Keypair) (C : Crypto.KeyCrypto)
  (passphrase : Bytes) (importKey : Bytes → Except String κ)

/-- The id under which the key of an account is stored. -/
def signingKeyId (did : String) : String := s!"{did}#signing"

/-- `load_key`, with the error of its caller. -/
def openKey (id : String) : Prog keyedSig XrpcError Bytes :=
  (Crypto.loadKey C .native id passphrase).hoist (T := keyedSig) KeyedOp.ofKey KeyedOp.ofKeyRet
    fun e => .internal s!"failed to load signing key: {e.display}"

/-- A key that was decrypted before is taken from the cache; else it is
read, decrypted and put there. -/
def loadSigningKeyCached (did : String) : Prog signingSig XrpcError κ := do
  let bytes ← memo (signingKeyId did) (openKey C passphrase (signingKeyId did))
  Prog.ofExcept (fun e => .internal s!"failed to import signing key: {e}") (importKey bytes)

/-- A signup, or whatever needs the key of an account. -/
inductive KeyedRequest (Keypair : Type) where
  | create (input : CreateAccountInput) (rnd : Entropy Keypair)
  /-- Any request that signs for the DID. -/
  | sign (did : String)

inductive KeyedAnswer (κ : Type) where
  | created (r : CreateAccountResponse)
  | key (k : κ)

/-- Their handlers over cache and store. -/
def keyedHandler : KeyedRequest Keypair → Prog signingSig XrpcError (KeyedAnswer κ)
  | .create input rnd =>
      ((createAccountInner cfg input rnd).hoist (T := signingSig) (fun o => .inner (.account o))
        (fun _ r => r) id).bind fun r => .ret (.created r)
  | .sign did => (loadSigningKeyCached C passphrase importKey did).bind fun k => .ret (.key k)

abbrev KeyedPool (Keypair κ : Type) :=
  Pool signingSig (KeyedRequest Keypair) XrpcError (KeyedAnswer κ)
    (Table String Bytes × AccountStore)

/-- One step of requests that share cache and store: one comes in, or one
under way does its next operation. -/
def keyedStep (P : KeyedPool Keypair κ) (a : PoolAct (KeyedRequest Keypair) Outcome) :
    Option (KeyedPool Keypair κ) :=
  Pool.next (cachedMachine keyedMachine) (keyedHandler cfg C passphrase importKey) P a

end

/-! ## Ids of keys -/

theorem signingKeyId_inj {did did' : String} (h : signingKeyId did = signingKeyId did') :
    did = did' := by
  have happend : ∀ d, (signingKeyId d).toList = d.toList ++ "#signing".toList := fun d => by
    simp only [signingKeyId, toString, String.toList_append]
  have htext := congrArg String.toList h
  rw [happend, happend, List.append_cancel_right_eq] at htext
  exact String.toList_inj.mp htext

theorem rotation_ne_signing (did did' : String) : s!"{did}#rotation" ≠ signingKeyId did' := by
  have hlast : ∀ xs ys : List Char, ys ≠ [] → (xs ++ ys).getLast? = ys.getLast? := fun xs ys hne =>
    List.getLast?_append_of_ne_nil xs hne
  intro h
  have htext := congrArg (fun s : String => s.toList.getLast?) h
  simp only [signingKeyId, toString, String.toList_append] at htext
  rw [hlast _ "#rotation".toList (by decide), hlast _ "#signing".toList (by decide)] at htext
  revert htext
  decide

/-! ## What is in the table, and in the store -/

abbrev SigningLog := List (Event signingSig)

/-- Some request has stored this blob under this id. -/
def PutBlob (log : SigningLog) (id : String) (blob : Bytes) : Prop :=
  ∃ i, (⟨i, .inner (.account (.putKeyBlob id blob)), .ok ()⟩ : Event signingSig) ∈ log

/-- The plaintext of a blob that was put under the id. -/
def KeyEntry (C : Crypto.KeyCrypto) (passphrase : Bytes) (log : SigningLog) (id : String)
    (bytes : Bytes) : Prop :=
  ∃ blob, PutBlob log id blob ∧ Crypto.decryptKey C blob passphrase = .ok bytes

/-- The signing keys in the store are those that were put. -/
def KeysPut (s : AccountStore) (log : SigningLog) : Prop :=
  ∀ did blob, s.getKeyBlob (signingKeyId did) = some blob → PutBlob log (signingKeyId did) blob

theorem PutBlob.mono {log log' : SigningLog} (h : ∀ e ∈ log, e ∈ log') {id : String} {blob : Bytes}
    (hp : PutBlob log id blob) : PutBlob log' id blob := by
  obtain ⟨i, hi⟩ := hp
  exact ⟨i, h _ hi⟩

theorem lasting_keyEntry {C : Crypto.KeyCrypto} {passphrase : Bytes} :
    Lasting (KeyEntry C passphrase) := by
  rintro l l' h id bytes ⟨blob, hput, hopen⟩
  exact ⟨blob, hput.mono h, hopen⟩

theorem getKeyBlob_putKeyBlob (s : AccountStore) (id id' : String) (blob : Bytes) :
    (s.putKeyBlob id blob).getKeyBlob id' = if id' = id then some blob else s.getKeyBlob id' := by
  rw [AccountStore.getKeyBlob, AccountStore.getKeyBlob, AccountStore.putKeyBlob, List.find?_append,
    List.find?_filter]
  by_cases h : id' = id
  · subst h
    rw [if_pos rfl, List.find?_eq_none.mpr fun e _ => by simp]
    simp
  · have hsame : (fun e : String × Bytes => decide ((e.1 != id) = true ∧ (e.1 == id') = true))
        = fun e => e.1 == id' := by
      funext e
      by_cases he : e.1 = id'
      · simp [he, h]
      · simp [he]
    have hid : (id == id') = false := beq_eq_false_iff_ne.mpr fun heq => h heq.symm
    rw [if_neg h, hsame, List.find?_singleton, hid]
    simp

theorem getKeyBlob_read {s s' : AccountStore} {id : String} {c : Outcome} {blob : Bytes}
    (h : KeyedOp.exec s (.getKeyBlob id) c = some (.ok (some blob), s')) :
    s.getKeyBlob id = some blob := by
  cases c <;> simp only [KeyedOp.exec, Option.some.injEq, reduceCtorEq, Prod.mk.injEq] at h
  · exact Except.ok.inj h.1
  · cases h.1

theorem KeysPut.mono {s s' : AccountStore} {log log' : SigningLog} (h : KeysPut s log)
    (hkeys : s'.keys = s.keys) (hlog : ∀ e ∈ log, e ∈ log') : KeysPut s' log' := by
  intro did blob hblob
  rw [AccountStore.getKeyBlob, hkeys] at hblob
  exact (h did blob hblob).mono hlog

theorem consumeInvite_keys (s : AccountStore) (code usedBy : String) :
    (s.consumeInvite code usedBy).2.keys = s.keys := by
  unfold AccountStore.consumeInvite
  split
  · rfl
  · split_ifs <;> rfl

/-- A row that went in: nothing else changed, and the DID had none. -/
theorem countAndInsertAccount_row {s s' : AccountStore} {did handle phc : String}
    {email : Option String} {n : Nat}
    (h : s.countAndInsertAccount did handle email phc = .ok (n, s')) :
    s'.keys = s.keys ∧ (∀ a ∈ s.accounts, a.did ≠ did)
      ∧ ∃ a, a.did = did ∧ s'.accounts = s.accounts ++ [a] := by
  unfold AccountStore.countAndInsertAccount AccountStore.insertAccountLocked at h
  split_ifs at h with hdid hhandle
  · cases h
  · cases h
  · obtain ⟨-, rfl⟩ := Prod.mk.injEq .. |>.mp (Except.ok.inj h)
    refine ⟨rfl, fun a ha heq => hdid ?_, _, rfl, rfl⟩
    exact List.any_eq_true.mpr ⟨a, ha, beq_iff_eq.mpr heq⟩

/-- An operation that is no put leaves the keys alone. -/
theorem exec_keys {s s' : AccountStore} {o : AccountOp} {c : Outcome} {r : o.Ret}
    (ho : ∀ id blob, o ≠ .putKeyBlob id blob) (h : o.exec s c = some (r, s')) :
    s'.keys = s.keys := by
  cases o with
  | putKeyBlob id blob => exact absurd rfl (ho id blob)
  | consumeInvite code usedBy =>
      cases c <;> simp only [AccountOp.exec, Option.some.injEq, reduceCtorEq] at h
      · rw [← (Prod.mk.injEq .. |>.mp h).2, consumeInvite_keys]
      · rw [← (Prod.mk.injEq .. |>.mp h).2]
  | countAndInsertAccount did handle email phc =>
      cases c <;> simp only [AccountOp.exec, reduceCtorEq] at h
      · cases hins : s.countAndInsertAccount did handle email phc with
        | error e =>
            rw [hins] at h
            rw [← (Prod.mk.injEq .. |>.mp (Option.some.inj h)).2]
        | ok ns =>
            rw [hins] at h
            rw [← (Prod.mk.injEq .. |>.mp (Option.some.inj h)).2]
            exact (countAndInsertAccount_row hins).1
      · rw [← (Prod.mk.injEq .. |>.mp (Option.some.inj h)).2]
  | _ =>
      cases c <;> simp only [AccountOp.exec, Option.some.injEq, reduceCtorEq] at h
      all_goals rw [← (Prod.mk.injEq .. |>.mp h).2]

/-- What is in the store after an operation was put there before, or by it. -/
theorem KeysPut.after {s s' : AccountStore} {log : SigningLog} (h : KeysPut s log) {i : Nat}
    {o : KeyedOp} {c : Outcome} {r : o.Ret} (hexec : KeyedOp.exec s o c = some (r, s')) :
    KeysPut s' (log ++ [⟨i, .inner o, r⟩]) := by
  have hlog : ∀ e ∈ log, e ∈ log ++ [(⟨i, .inner o, r⟩ : Event signingSig)] := fun e he =>
    List.mem_append_left _ he
  cases o with
  | getKeyBlob id =>
      cases c <;> simp only [KeyedOp.exec, Option.some.injEq, reduceCtorEq] at hexec
      all_goals exact h.mono (by rw [← (Prod.mk.injEq .. |>.mp hexec).2]) hlog
  | blocking task =>
      cases c <;> simp only [KeyedOp.exec, Option.some.injEq, reduceCtorEq] at hexec
      all_goals exact h.mono (by rw [← (Prod.mk.injEq .. |>.mp hexec).2]) hlog
  | account o =>
      by_cases ho : ∀ id blob, o ≠ .putKeyBlob id blob
      · exact h.mono (exec_keys ho hexec) hlog
      · rw [not_forall] at ho
        obtain ⟨id, ho⟩ := ho
        rw [not_forall] at ho
        obtain ⟨blob, ho⟩ := ho
        obtain rfl := not_not.mp ho
        cases c with
        | document d => cases hexec
        | fault msg =>
            exact h.mono (by rw [← (Prod.mk.injEq .. |>.mp (Option.some.inj hexec)).2]) hlog
        | done =>
            obtain ⟨rfl, rfl⟩ := Prod.mk.injEq .. |>.mp (Option.some.inj hexec)
            intro did blob' hblob
            rw [getKeyBlob_putKeyBlob] at hblob
            split_ifs at hblob with hid
            · obtain rfl := Option.some.inj hblob
              rw [hid]
              exact ⟨i, List.mem_append_right _ List.mem_cons_self⟩
            · exact (h did blob' hblob).mono hlog

/-! ## What a signing request gets -/

section

variable {Keypair κ : Type} {cfg : ServerConfig Keypair} {C : Crypto.KeyCrypto}
  {passphrase : Bytes} {importKey : Bytes → Except String κ} {i : Nat}

abbrev SigningWorld := World signingSig (Table String Bytes × AccountStore)

/-- Each entry of the cache is the decryption of a blob that was stored. -/
abbrev keyedInv (C : Crypto.KeyCrypto) (passphrase : Bytes) : SigningWorld → Prop :=
  MemoInv (KeyEntry C passphrase) KeysPut

abbrev KeyedExec (i : Nat) (w : SigningWorld) (o : signingSig.Op) (r : signingSig.Ret o)
    (s : Table String Bytes × AccountStore) : Prop :=
  CachedExec keyedMachine i w o r s

theorem ignoresTable_keysPut : IgnoresTable KeysPut := fun _ _ _ _ _ _ h =>
  h.mono rfl fun _ he => List.mem_append_left _ he

theorem keyedInv_inner {w : SigningWorld} (hinv : keyedInv C passphrase w) {o : KeyedOp}
    {r : o.Ret} {s : Table String Bytes × AccountStore} (hE : KeyedExec i w (.inner o) r s) :
    keyedInv C passphrase (w.after i (.inner o) r s)
      ∧ ∃ c, KeyedOp.exec w.store.2 o c = some (r, s.2) := by
  obtain ⟨c, hc⟩ := hE
  have hjust := hinv.1.after lasting_keyEntry hc fun _ _ h => by cases h
  obtain ⟨rs, hexec, hrs⟩ := Option.map_eq_some_iff.mp hc
  obtain ⟨rfl, rfl⟩ := Prod.mk.injEq .. |>.mp hrs
  exact ⟨⟨hjust, hinv.2.after hexec⟩, c, hexec⟩

/-- What is loaded from the store was put there. -/
theorem safe_openKey {did : String} (w : SigningWorld) :
    Safe (.growing (keyedInv C passphrase)) KeyedExec i
      (fun x u => ∀ v, x = .ok v → KeyEntry C passphrase u.log (signingKeyId did) v)
      (openKey C passphrase (signingKeyId did)).uncached w := by
  refine Safe.op_growing fun w₁ _ hinv₁ r s hE => ?_
  obtain ⟨hinv₂, c, hexec⟩ := keyedInv_inner hinv₁ hE
  refine ⟨hinv₂, ?_⟩
  rcases r with e | _ | blob
  · exact fun _ _ _ _ h => by cases h
  · exact fun _ _ _ _ h => by cases h
  have hput := hinv₁.2 did blob (getKeyBlob_read hexec)
  refine Safe.op_growing fun w₃ hr₃ hinv₃ finished s₃ hE₃ => ?_
  refine ⟨(keyedInv_inner hinv₃ hE₃).1, ?_⟩
  cases finished with
  | false => exact fun _ _ _ _ h => by cases h
  | true =>
      cases hopen : Crypto.decryptKey C blob passphrase with
      | error e => exact fun _ _ _ _ h => by cases h
      | ok bytes =>
          intro u hu _ v hv
          obtain rfl := Except.ok.inj hv
          refine ⟨blob, hput.mono fun e he => hu e ?_, hopen⟩
          exact World.mem_after_log.mpr (Or.inl (hr₃ e (World.mem_after_log.mpr (Or.inl he))))

/-- What a completed request has got, by the log. -/
def keyedPost (C : Crypto.KeyCrypto) (passphrase : Bytes) (importKey : Bytes → Except String κ) :
    KeyedRequest Keypair → Except XrpcError (KeyedAnswer κ) → SigningWorld → Prop
  | .sign did, .ok (.key k), w =>
      ∃ bytes, KeyEntry C passphrase w.log (signingKeyId did) bytes ∧ importKey bytes = .ok k
  | .sign _, .ok (.created _), _ => False
  | _, _, _ => True

theorem safe_sign (did : String) (w : SigningWorld) (hinv : keyedInv C passphrase w) :
    Safe (.growing (keyedInv C passphrase)) KeyedExec i
      (keyedPost C passphrase importKey (.sign did : KeyedRequest Keypair))
      (keyedHandler cfg C passphrase importKey (.sign did)) w := by
  have hmemo : Safe (.growing (keyedInv C passphrase)) KeyedExec i
      (fun x u => ∀ v, x = .ok v → KeyEntry C passphrase u.log (signingKeyId did) v)
      (memo (signingKeyId did) (openKey C passphrase (signingKeyId did))) w :=
    Safe.memo lasting_keyEntry ignoresTable_keysPut fun w' _ _ => safe_openKey w'
  change Safe _ _ _ _ ((Prog.bind (memo _ _) _).bind _) w
  rw [Prog.bind_assoc]
  refine Safe.bind (hmemo.mono ?_) hinv
  rintro (e | bytes) u _ hentry
  · trivial
  cases himport : importKey bytes with
  | error e =>
      simp only [himport, Prog.ofExcept_error, Prog.fail_bind]
      intro u' _ _
      trivial
  | ok k =>
      simp only [himport, Prog.ofExcept_ok, Prog.ret_bind]
      intro u' hu' _
      exact ⟨bytes, lasting_keyEntry _ _ hu' _ _ (hentry bytes rfl), himport⟩

/-- Nothing an operation of a registration does harms the table. -/
theorem safe_registering {α : Type} {p : Prog accountSig XrpcError α}
    {post : Except XrpcError α → SigningWorld → Prop} (hpost : ∀ x w, post x w) (w : SigningWorld) :
    Safe (.growing (keyedInv C passphrase)) KeyedExec i post
      (p.hoist (T := signingSig) (fun o => .inner (.account o)) (fun _ r => r) id) w := by
  induction p generalizing w with
  | ret a => exact fun w' _ _ => hpost _ w'
  | fail e => exact fun w' _ _ => hpost _ w'
  | op o k ih => exact Safe.op_growing fun w₁ _ hinv r s hE => ⟨(keyedInv_inner hinv hE).1, ih r _⟩

theorem safe_keyed (q : KeyedRequest Keypair) (w : SigningWorld)
    (hinv : keyedInv C passphrase w) :
    Safe (.growing (keyedInv C passphrase)) KeyedExec i (keyedPost C passphrase importKey q)
      (keyedHandler cfg C passphrase importKey q) w := by
  cases q with
  | sign did => exact safe_sign did w hinv
  | create input rnd =>
      have hinner : Safe (.growing (keyedInv C passphrase)) KeyedExec i (fun _ _ => True)
          ((createAccountInner cfg input rnd).hoist (T := signingSig) (fun o => .inner (.account o))
            (fun _ r => r) id) w := safe_registering (fun _ _ => trivial) w
      refine Safe.bind (hinner.mono ?_) hinv
      rintro (e | r) u _ _
      · trivial
      · intro u' _ _
        trivial

end

/-! ## A registration, cut where its row goes in -/

section

variable {Keypair : Type} (cfg : ServerConfig Keypair)

/-- A registration up to its row: the DID, the password's hash, and
whether an invite was consumed. -/
def beforeRow (input : CreateAccountInput) (rnd : Entropy Keypair) :
    AccountProg (String × String × Bool) := do
  let handle := Text.toAsciiLowercase input.handle
  Prog.ofExcept id (validateHandle handle)
  if handle ≠ cfg.hostname ∧ ¬ Text.endsWith handle s!".{cfg.hostname}" then
    .fail .unsupportedDomain
  else
    let existing ← storage (← AccountOp.call (.getAccountByHandle handle))
    if existing.isSome then .fail .handleNotAvailable
    else
      let inviteConsumed ← inviteGate cfg handle input.inviteCode
      let did ← accountDid cfg handle input.did rnd
      let password ← Prog.ofExcept id (checkPassword input.password)
      let phc ← core (cfg.hashPassword rnd.salt password)
      return (did, phc, inviteConsumed)

/-- What is left of it then. -/
def fromRow (input : CreateAccountInput) (rnd : Entropy Keypair) (did phc : String)
    (inviteConsumed : Bool) : AccountProg CreateAccountResponse := do
  let handle := Text.toAsciiLowercase input.handle
  let countBefore ← storage
    (← AccountOp.call (.countAndInsertAccount did handle input.email phc))
  if countBefore > 0 ∧ ¬ cfg.openRegistration ∧ ¬ inviteConsumed then
    .fail .invalidInviteCode
  else finishAccount cfg handle did rnd

theorem createAccountInner_eq (input : CreateAccountInput) (rnd : Entropy Keypair) :
    createAccountInner cfg input rnd
      = (beforeRow cfg input rnd).bind fun x => fromRow cfg input rnd x.1 x.2.1 x.2.2 := by
  simp only [createAccountInner, beforeRow, Prog.bind_eq, Prog.bind_assoc, Prog.bind_ite_fail,
    Prog.pure_eq, Prog.ret_bind]
  rfl

end

/-! ## One key for each row -/

def OpPred.account (P : OpPred accountSig) : OpPred signingSig
  | .inner (.account o), r => P o r
  | _, _ => false

def putsKey (did : String) : OpPred accountSig
  | .putKeyBlob id _, .ok () => id == signingKeyId did
  | _, _ => false

def insertsRow (did : String) : OpPred accountSig
  | .countAndInsertAccount did' _ _ _, .ok _ => did' == did
  | _, _ => false

section

variable {Keypair κ : Type} {cfg : ServerConfig Keypair} {C : Crypto.KeyCrypto}
  {passphrase : Bytes} {importKey : Bytes → Except String κ}

/-- What a registration does before its row is in. -/
def EarlyOp (cfg : ServerConfig Keypair) (rnd : Entropy Keypair) : AccountOp → Prop
  | .putKeyBlob _ _ => False
  | .postOperation _ op => op.verificationMethods = [("atproto", cfg.plc.keyDid rnd.signing)]
  | _ => True

/-- And at any time. -/
def RegisterOp (cfg : ServerConfig Keypair) (rnd : Entropy Keypair) : AccountOp → Prop
  | .putKeyBlob id blob => ∀ did, id = signingKeyId did →
      cfg.encryptKey rnd.signingNonce (cfg.plc.exportKey rnd.signing) = .ok blob
  | .postOperation _ op => op.verificationMethods = [("atproto", cfg.plc.keyDid rnd.signing)]
  | _ => True

theorem EarlyOp.registerOp {rnd : Entropy Keypair} {o : AccountOp} (h : EarlyOp cfg rnd o) :
    RegisterOp cfg rnd o := by
  cases o with
  | putKeyBlob id blob => exact h.elim
  | _ => exact h

theorem EarlyOp.free {rnd : Entropy Keypair} {o : AccountOp} (h : EarlyOp cfg rnd o)
    (did : String) : Prog.Free (putsKey did) o := by
  cases o with
  | putKeyBlob id blob => exact h.elim
  | _ => exact fun _ => rfl

theorem signGenesis_verificationMethods {crypto : PlcCrypto Keypair}
    {handle pdsEndpoint did : String} {signingKey rotationKey : Keypair} {op : PlcGenesisOpSigned}
    (h : signGenesis crypto handle pdsEndpoint signingKey rotationKey = .ok (did, op)) :
    op.verificationMethods = [("atproto", crypto.keyDid signingKey)] := by
  obtain ⟨_, -, h⟩ := Prog.except_bind_ok h
  obtain ⟨_, -, h⟩ := Prog.except_bind_ok h
  obtain ⟨_, -, h⟩ := Prog.except_bind_ok h
  rw [← (Prod.mk.injEq .. |>.mp (Except.ok.inj h)).2]
  rfl

theorem early_registerDidPlc {handle : String} {rnd : Entropy Keypair} :
    (registerDidPlc cfg handle rnd).Each (EarlyOp cfg rnd) := by
  refine Prog.Each.bind_returns (Prog.each_ofExcept ..) fun x hx => ?_
  obtain ⟨did, op⟩ := x
  have hsign := signGenesis_verificationMethods ((Prog.returns_ofExcept ..).mp hx)
  refine (Prog.Each.ask hsign).bind fun r => ?_
  exact (Prog.each_ofExcept ..).bind fun _ => trivial

theorem early_accountDid {handle : String} {did : Option String} {rnd : Entropy Keypair} :
    (accountDid cfg handle did rnd).Each (EarlyOp cfg rnd) := by
  unfold accountDid
  split
  · exact early_registerDidPlc
  · split_ifs
    · refine (Prog.Each.ask trivial).bind fun r => ?_
      refine (Prog.each_ofExcept ..).bind fun docId => ?_
      split_ifs <;> trivial
    · exact early_registerDidPlc

theorem early_inviteGate {handle : String} {inviteCode : Option String} {rnd : Entropy Keypair} :
    (inviteGate cfg handle inviteCode).Each (EarlyOp cfg rnd) := by
  refine (Prog.Each.ask trivial).bind fun r => ?_
  refine (Prog.each_ofExcept ..).bind fun n => ?_
  split_ifs
  · trivial
  · trivial
  · cases inviteCode with
    | none => trivial
    | some code =>
        refine (Prog.Each.ask trivial).bind fun r => ?_
        refine (Prog.each_ofExcept ..).bind fun consumed => ?_
        split_ifs <;> trivial

theorem early_beforeRow {input : CreateAccountInput} {rnd : Entropy Keypair} :
    (beforeRow cfg input rnd).Each (EarlyOp cfg rnd) := by
  refine Prog.Each.bind (Prog.each_ofExcept ..) fun _ => ?_
  split_ifs
  · trivial
  refine (Prog.Each.ask trivial).bind fun r => ?_
  refine (Prog.each_ofExcept ..).bind fun existing => ?_
  split_ifs
  · trivial
  refine early_inviteGate.bind fun consumed => early_accountDid.bind fun did => ?_
  refine Prog.Each.bind (Prog.each_ofExcept ..) fun password => ?_
  exact Prog.Each.bind (Prog.each_ofExcept ..) fun phc => trivial

theorem each_createAccountInner {input : CreateAccountInput} {rnd : Entropy Keypair} :
    (createAccountInner cfg input rnd).Each (RegisterOp cfg rnd) := by
  have hkey : ∀ {id : String} {nonce plaintext : Bytes},
      (∀ blob, cfg.encryptKey nonce plaintext = .ok blob →
        RegisterOp cfg rnd (.putKeyBlob id blob)) →
      (storeKey cfg id nonce plaintext).Each (RegisterOp cfg rnd) := fun h =>
    Prog.Each.bind_returns (Prog.each_ofExcept ..) fun blob hblob =>
      (Prog.Each.ask (h blob ((Prog.returns_ofExcept ..).mp hblob))).bind fun _ =>
        Prog.each_ofExcept ..
  rw [createAccountInner_eq]
  refine (early_beforeRow.mono fun _ => EarlyOp.registerOp).bind fun x => ?_
  refine (Prog.Each.ask trivial).bind fun r => ?_
  refine (Prog.each_ofExcept ..).bind fun countBefore => ?_
  split_ifs
  · trivial
  refine (hkey fun blob h _ _ => h).bind fun _ => (hkey fun blob _ did h => ?_).bind fun _ => ?_
  · exact absurd h (rotation_ne_signing _ did)
  · exact Prog.Each.bind (Prog.each_ofExcept ..) fun _ =>
      Prog.Each.bind (Prog.each_ofExcept ..) fun _ => trivial

theorem signingKeyId_beq (did did' : String) :
    (signingKeyId did' == signingKeyId did) = (did' == did) := by
  rw [Bool.eq_iff_iff, beq_iff_eq, beq_iff_eq]
  exact ⟨signingKeyId_inj, fun h => h ▸ rfl⟩

theorem within_finishAccount (did : String) {handle other : String} {rnd : Entropy Keypair} :
    (finishAccount cfg handle other rnd).Within (putsKey did) (insertsRow did)
      (other == did).toNat := by
  have hfree : ∀ blob, Prog.Free (putsKey did) (.putKeyBlob s!"{other}#rotation" blob) := by
    rintro blob (e | u)
    · rfl
    · exact beq_eq_false_iff_ne.mpr (rotation_ne_signing other did)
  have hrest : ∀ n, (do
      storeKey cfg s!"{other}#rotation" rnd.rotationNonce (cfg.plc.exportKey rnd.rotation)
      let access ← core (cfg.encodeAccessJwt other rnd.now)
      let refresh ← core (cfg.encodeRefreshJwt other rnd.now)
      return { accessJwt := access, refreshJwt := refresh, handle := handle, did := other :
        CreateAccountResponse }).Within (putsKey did) (insertsRow did) n := fun n => by
    refine Prog.Each.within (Prog.Each.bind (Prog.Each.bind (Prog.each_ofExcept ..) fun blob =>
      (Prog.Each.ask (hfree blob)).bind fun _ => Prog.each_ofExcept ..) fun _ => ?_)
    exact Prog.Each.bind (Prog.each_ofExcept ..) fun _ =>
      Prog.Each.bind (Prog.each_ofExcept ..) fun _ => trivial
  unfold finishAccount storeKey
  cases cfg.encryptKey rnd.signingNonce (cfg.plc.exportKey rnd.signing) with
  | error e => exact trivial
  | ok blob =>
      rintro (e | u)
      · exact ⟨Nat.zero_le _, trivial⟩
      · refine ⟨?_, hrest _⟩
        exact le_of_eq_of_le (congrArg Bool.toNat (signingKeyId_beq did other))
          (Nat.le_add_right _ _)

/-- **A registration stores a signing key only for the row it put in**, and
once. -/
theorem within_createAccountInner (did : String) (input : CreateAccountInput)
    (rnd : Entropy Keypair) :
    (createAccountInner cfg input rnd).Within (putsKey did) (insertsRow did) 0 := by
  rw [createAccountInner_eq]
  refine Prog.Within.bind_free (fun x => ?_) (early_beforeRow.mono fun _ h => h.free did)
  obtain ⟨did', phc, consumed⟩ := x
  rintro (e | n)
  · exact ⟨Nat.zero_le _, trivial⟩
  refine ⟨Nat.zero_le _,
    Prog.Within.mono (n := (did' == did).toNat) (by simp [insertsRow, putsKey]) ?_⟩
  change Prog.Within _ _ _ (if _ then _ else _)
  split_ifs
  · trivial
  · exact within_finishAccount did

/-! ## Whole runs -/

variable {s : AccountStore} {as : List (PoolAct (KeyedRequest Keypair) Outcome)}
  {P : KeyedPool Keypair κ}

abbrev keyedStart (s : AccountStore) : KeyedPool Keypair κ := Pool.init (Table.empty, s)

/-- What a request may do to the accounts. -/
def KeyedRequest.May (cfg : ServerConfig Keypair) : KeyedRequest Keypair → signingSig.Op → Prop
  | .create _ rnd, .inner (.account o) => RegisterOp cfg rnd o
  | .sign _, .inner (.account _) => False
  | _, _ => True

/-- The operations of a signing request: none on the accounts. -/
def KeyedOp.Reads : KeyedOp → Prop
  | .account _ => False
  | _ => True

def ReadsOnly : signingSig.Op → Prop
  | .inner o => KeyedOp.Reads o
  | _ => True

theorem each_openKey (id : String) : (openKey C passphrase id).Each KeyedOp.Reads := by
  have hload : (Crypto.loadKey C .native id passphrase).Each fun o => (KeyedOp.ofKey o).Reads := by
    refine ⟨trivial, fun r => ?_⟩
    rcases r with e | _ | blob
    · trivial
    · trivial
    · refine ⟨trivial, fun finished => ?_⟩
      cases finished with
      | false => trivial
      | true => exact Prog.each_ofExcept ..
  exact Prog.Each.hoist hload

theorem each_loadSigningKeyCached (did : String) :
    (loadSigningKeyCached C passphrase importKey did).Each ReadsOnly := by
  have hmemo : (memo (signingKeyId did) (openKey C passphrase (signingKeyId did))).Each ReadsOnly :=
    Prog.Each.memo (P := ReadsOnly) trivial (fun _ => trivial) (each_openKey _)
  exact hmemo.bind fun _ => Prog.each_ofExcept ..

theorem ReadsOnly.may {o : signingSig.Op} (h : ReadsOnly o) (did : String) :
    KeyedRequest.May cfg (.sign did) o := by
  match o with
  | .inner (.account a) => exact h.elim
  | .inner (.getKeyBlob _) => trivial
  | .inner (.blocking _) => trivial
  | .get _ => trivial
  | .insert _ _ => trivial

theorem ReadsOnly.free {o : signingSig.Op} (h : ReadsOnly o) (P : OpPred accountSig) :
    Prog.Free P.account o := by
  match o with
  | .inner (.account a) => exact h.elim
  | .inner (.getKeyBlob _) => exact fun _ => rfl
  | .inner (.blocking _) => exact fun _ => rfl
  | .get _ => exact fun _ => rfl
  | .insert _ _ => exact fun _ => rfl

theorem each_keyed (q : KeyedRequest Keypair) :
    (keyedHandler cfg C passphrase importKey q).Each (q.May cfg) := by
  cases q with
  | create input rnd =>
      have hinner : ((createAccountInner cfg input rnd).hoist (T := signingSig)
          (fun o => .inner (.account o)) (fun _ r => r) id).Each
          ((KeyedRequest.create input rnd).May cfg) := Prog.Each.hoist each_createAccountInner
      exact hinner.bind fun _ => trivial
  | sign did =>
      exact ((each_loadSigningKeyCached did).mono fun _ h => h.may did).bind fun _ => trivial

/-- A row comes in where the DID has none, and rows stay. -/
theorem exec_rows {s s' : AccountStore} {o : KeyedOp} {c : Outcome} {r : o.Ret} (did : String)
    (h : KeyedOp.exec s o c = some (r, s')) :
    (∀ a ∈ s.accounts, a ∈ s'.accounts)
      ∧ ((insertsRow did).account (.inner o) r = true →
        (∀ a ∈ s.accounts, a.did ≠ did) ∧ ∃ a ∈ s'.accounts, a.did = did) := by
  have hsame : ∀ {o : KeyedOp} {r : o.Ret}, s'.accounts = s.accounts →
      (insertsRow did).account (.inner o) r = false →
      (∀ a ∈ s.accounts, a ∈ s'.accounts)
        ∧ ((insertsRow did).account (.inner o) r = true →
          (∀ a ∈ s.accounts, a.did ≠ did) ∧ ∃ a ∈ s'.accounts, a.did = did) :=
    fun hacc hno => ⟨fun a ha => hacc ▸ ha, fun hyes => Bool.noConfusion (hno.symm.trans hyes)⟩
  cases o with
  | getKeyBlob id =>
      cases c <;> simp only [KeyedOp.exec, Option.some.injEq, reduceCtorEq] at h
      all_goals exact hsame (by rw [← (Prod.mk.injEq .. |>.mp h).2]) rfl
  | blocking task =>
      cases c <;> simp only [KeyedOp.exec, Option.some.injEq, reduceCtorEq] at h
      all_goals exact hsame (by rw [← (Prod.mk.injEq .. |>.mp h).2]) rfl
  | account o =>
      by_cases hkeeps : o.Keeps
      · refine hsame (exec_keeps hkeeps h) ?_
        cases o <;> first | rfl | exact hkeeps.elim
      · match o with
        | .countAndInsertAccount did' handle email phc =>
            cases c <;> simp only [KeyedOp.exec, AccountOp.exec, reduceCtorEq] at h
            · cases hins : s.countAndInsertAccount did' handle email phc with
              | error e =>
                  rw [hins] at h
                  obtain ⟨rfl, rfl⟩ := Prod.mk.injEq .. |>.mp (Option.some.inj h)
                  exact hsame rfl rfl
              | ok ns =>
                  rw [hins] at h
                  obtain ⟨rfl, rfl⟩ := Prod.mk.injEq .. |>.mp (Option.some.inj h)
                  obtain ⟨-, hnone, a, hdid, hacc⟩ := countAndInsertAccount_row hins
                  rw [hacc]
                  refine ⟨fun b hb => List.mem_append_left _ hb, fun hyes => ?_⟩
                  obtain rfl : did' = did := beq_iff_eq.mp hyes
                  exact ⟨hnone, a, List.mem_append_right _ List.mem_cons_self, hdid⟩
            · obtain ⟨rfl, rfl⟩ := Prod.mk.injEq .. |>.mp (Option.some.inj h)
              exact hsame rfl rfl
        | .getAccountByHandle _ => exact absurd trivial hkeeps
        | .countAccounts => exact absurd trivial hkeeps
        | .consumeInvite _ _ => exact absurd trivial hkeeps
        | .resolveDidWeb _ => exact absurd trivial hkeeps
        | .postOperation _ _ => exact absurd trivial hkeeps
        | .putKeyBlob _ _ => exact absurd trivial hkeeps

/-- What went in is still there. -/
def RowsHeld (did : String) (w : SigningWorld) : Prop :=
  w.log.countP (insertsRow did).account.happened ≤ 1
    ∧ (0 < w.log.countP (insertsRow did).account.happened → ∃ a ∈ w.store.2.accounts, a.did = did)

theorem RowsHeld.after {did : String} {w : SigningWorld} (h : RowsHeld did w) {i : Nat}
    {o : signingSig.Op} {c : Outcome} {r : signingSig.Ret o} {s : Table String Bytes × AccountStore}
    (hexec : (cachedMachine keyedMachine).exec i w.store o c = some (r, s)) :
    RowsHeld did (w.after i o r s) := by
  obtain ⟨hone, hheld⟩ := h
  have htable : (insertsRow did).account o r = false → s.2 = w.store.2 →
      RowsHeld did (w.after i o r s) := fun hno hs => by
    rw [RowsHeld, World.countP_after_happened, hno, World.after_store, hs]
    exact ⟨hone, hheld⟩
  match o with
  | .get k =>
      obtain ⟨rfl, rfl⟩ := Prod.mk.injEq .. |>.mp (Option.some.inj hexec)
      exact htable rfl rfl
  | .insert k v =>
      obtain ⟨rfl, rfl⟩ := Prod.mk.injEq .. |>.mp (Option.some.inj hexec)
      exact htable rfl rfl
  | .inner o =>
      obtain ⟨rs, hinner, hrs⟩ := Option.map_eq_some_iff.mp hexec
      obtain ⟨rfl, rfl⟩ := Prod.mk.injEq .. |>.mp hrs
      obtain ⟨hstay, hcomes⟩ := exec_rows did hinner
      rw [RowsHeld, World.countP_after_happened, World.after_store]
      cases hyes : (insertsRow did).account (.inner o) rs.1 with
      | false =>
          refine ⟨hone, fun hpos => ?_⟩
          obtain ⟨a, ha, hdid⟩ := hheld hpos
          exact ⟨a, hstay a ha, hdid⟩
      | true =>
          obtain ⟨hnone, hthere⟩ := hcomes hyes
          have hzero : w.log.countP (insertsRow did).account.happened = 0 := by
            by_contra hne
            obtain ⟨a, ha, hdid⟩ := hheld (Nat.pos_of_ne_zero hne)
            exact hnone a ha hdid
          rw [hzero]
          exact ⟨Nat.le_refl _, fun _ => hthere⟩

theorem inserts_le_one
    (hrun : Steps.run (keyedStep cfg C passphrase importKey) (keyedStart s) as = some P)
    (did : String) : P.log.countP (insertsRow did).account.happened ≤ 1 :=
  (Pool.tasks_inv_run (G := RowsHeld did) (T := fun _ _ _ _ => True)
    (fun _ _ _ _ _ => trivial) (fun _ _ _ _ _ _ _ _ hG _ hexec => ⟨hG.after hexec, trivial⟩)
    (fun _ _ _ _ _ _ _ _ _ _ => trivial)
    ⟨Nat.zero_le _, fun h => absurd h (Nat.lt_irrefl _)⟩ hrun).1.1

theorem puts_le_inserts
    (hrun : Steps.run (keyedStep cfg C passphrase importKey) (keyedStart s) as = some P)
    (did : String) (i : Nat) {q : KeyedRequest Keypair}
    {p : Prog signingSig XrpcError (KeyedAnswer κ)} (hi : P.tasks[i]? = some (q, p)) :
    P.tally (putsKey did).account.happened i ≤ P.tally (insertsRow did).account.happened i := by
  have hwithin : ∀ q, (keyedHandler cfg C passphrase importKey q).Within (putsKey did).account
      (insertsRow did).account 0 := by
    intro q
    cases q with
    | create input rnd =>
        have hinner : ((createAccountInner cfg input rnd).hoist (T := signingSig)
            (fun o => .inner (.account o)) (fun _ r => r) id).Within (putsKey did).account
            (insertsRow did).account 0 := by
          refine Prog.Within.hoist ?_ ?_ (within_createAccountInner did input rnd)
          · exact fun _ _ => rfl
          · exact fun _ _ => rfl
        exact hinner.map _
    | sign did' =>
        exact Prog.Within.map _ (Prog.Each.within
          ((each_loadSigningKeyCached did').mono fun _ h => h.free _))
  have hle := (Pool.within_run hwithin hrun).2 i q p hi
  omega

/-- The row of the DID is the work of the task: it is the one whose insert
was answered `ok`. -/
def RowBy (log : SigningLog) (i : Nat) (did : String) : Prop :=
  ∃ e ∈ log, e.tid = i ∧ (insertsRow did).account.happened e = true

theorem rowBy_of_put
    (hrun : Steps.run (keyedStep cfg C passphrase importKey) (keyedStart s) as = some P)
    {i : Nat} {did : String} {q : KeyedRequest Keypair}
    {p : Prog signingSig XrpcError (KeyedAnswer κ)} (hi : P.tasks[i]? = some (q, p)) {blob : Bytes}
    (hput : (⟨i, .inner (.account (.putKeyBlob (signingKeyId did) blob)), .ok ()⟩
      : Event signingSig) ∈ P.log) : RowBy P.log i did := by
  have hpaid : 0 < P.tally (putsKey did).account.happened i := by
    refine List.countP_pos_iff.mpr ⟨_, hput, ?_⟩
    rw [Bool.and_eq_true]
    exact ⟨beq_self_eq_true (signingKeyId did), beq_self_eq_true i⟩
  have hrow := lt_of_lt_of_le hpaid (puts_le_inserts hrun did i hi)
  obtain ⟨e, he, hprop⟩ := List.countP_pos_iff.mp hrow
  rw [Bool.and_eq_true] at hprop
  exact ⟨e, he, beq_iff_eq.mp hprop.2, hprop.1⟩

/-- Keys are sealed as `storage/crypto.rs` seals them. -/
def ServerConfig.SealsWith (cfg : ServerConfig Keypair) (C : Crypto.KeyCrypto)
    (passphrase : Bytes) : Prop :=
  ∀ nonce plaintext, ∃ draw,
    cfg.encryptKey nonce plaintext = Crypto.encryptKey C draw plaintext passphrase

/-- Where a key that was loaded comes from. -/
theorem signed_with
    (hrun : Steps.run (keyedStep cfg C passphrase importKey) (keyedStart s) as = some P)
    (hkeys : ∀ did, s.getKeyBlob (signingKeyId did) = none) (hC : C.Laws)
    (hcfg : cfg.SealsWith C passphrase) {i : Nat} {did : String} {k : κ}
    (hi : P.tasks[i]? = some (.sign did, .ret (.key k))) :
    ∃ j input rnd p, P.tasks[j]? = some (.create input rnd, p) ∧ RowBy P.log j did
      ∧ importKey (cfg.plc.exportKey rnd.signing) = .ok k := by
  have hgood : Pool.Good (.growing (keyedInv C passphrase)) KeyedExec
      (fun q _ => keyedPost C passphrase importKey q) P := by
    refine Pool.good_run (fun q i w hinv _ => safe_keyed q w hinv) ⟨?_, ?_⟩ ?_ hrun
    · exact fun _ _ h => by cases h
    · exact fun did blob h => nomatch (hkeys did).symm.trans h
    · exact Steps.along_of_forall fun P a => by
        cases a with
        | start q => trivial
        | step i c => exact fun _ _ _ _ _ _ h => ⟨c, h⟩
  obtain ⟨bytes, ⟨blob, ⟨j, hput⟩, hopen⟩, himport⟩ := hgood.post_ok hi
  obtain ⟨q, p, hj, hmay⟩ := (Pool.obeys_run (each_keyed (C := C)) hrun).2 _ hput
  match q with
  | .sign did' => exact hmay.elim
  | .create input rnd =>
      refine ⟨j, input, rnd, p, hj, rowBy_of_put hrun hj hput, ?_⟩
      obtain ⟨draw, hdraw⟩ := hcfg rnd.signingNonce (cfg.plc.exportKey rnd.signing)
      have hseal := Crypto.decryptKey_encryptKey hC (hdraw.symm.trans (hmay did rfl))
      obtain rfl := Except.ok.inj (hopen.symm.trans hseal)
      exact himport

/-- **One signing key for each account.** Whatever is interleaved, and
whether a request found the key in the table or in the store, all that is
signed for a DID is signed with the key its registration drew, which is
the one that registration has published. -/
theorem one_signing_key
    (hrun : Steps.run (keyedStep cfg C passphrase importKey) (keyedStart s) as = some P)
    (hkeys : ∀ did, s.getKeyBlob (signingKeyId did) = none) (hC : C.Laws)
    (hcfg : cfg.SealsWith C passphrase) {i : Nat} {did : String} {k : κ}
    (hi : P.tasks[i]? = some (.sign did, .ret (.key k))) :
    ∃ j input rnd p, P.tasks[j]? = some (.create input rnd, p)
      ∧ (∀ j', RowBy P.log j' did ↔ j' = j)
      ∧ (∀ (i' : Nat) k', P.tasks[i']? = some (.sign did, .ret (.key k')) →
        importKey (cfg.plc.exportKey rnd.signing) = .ok k')
      ∧ ∀ did' op r, (⟨j, .inner (.account (.postOperation did' op)), r⟩ : Event signingSig)
        ∈ P.log → op.verificationMethods = [("atproto", cfg.plc.keyDid rnd.signing)] := by
  have hunique : ∀ {j j'}, RowBy P.log j did → RowBy P.log j' did → j' = j := by
    rintro j j' ⟨e, he, rfl, hprop⟩ ⟨e', he', rfl, hprop'⟩
    rw [eq_of_countP_le_one (inserts_le_one hrun did) he he' hprop hprop']
  obtain ⟨j, input, rnd, p, hj, hreg, -⟩ := signed_with hrun hkeys hC hcfg hi
  refine ⟨j, input, rnd, p, hj, fun j' => ⟨hunique hreg, fun h => h ▸ hreg⟩, fun i' k' hi' => ?_,
    fun did' op r hpost => ?_⟩
  · obtain ⟨j', input', rnd', p', hj', hreg', himport⟩ := signed_with hrun hkeys hC hcfg hi'
    obtain rfl := hunique hreg hreg'
    obtain ⟨hq, -⟩ := Prod.mk.injEq .. |>.mp (Option.some.inj (hj.symm.trans hj'))
    obtain ⟨rfl, rfl⟩ := KeyedRequest.create.inj hq
    exact himport
  · obtain ⟨q, p', hj', hmay⟩ := (Pool.obeys_run (each_keyed (C := C)) hrun).2 _ hpost
    obtain ⟨rfl, -⟩ := Prod.mk.injEq .. |>.mp (Option.some.inj (hj.symm.trans hj'))
    exact hmay

end

/-! ## One account, asked twice -/

def sealingServer : ServerConfig Nat :=
  { sampleServer with
    encryptKey := fun _ plaintext =>
      Crypto.encryptKey Crypto.plainCrypto (Crypto.sealDraw 7) plaintext [1, 2] }

def bareImport (bytes : Bytes) : Except String Bytes := .ok bytes

/-- A registration, a request that opens the key, and one that finds it. -/
def aliceSigns : Option (KeyedPool Nat Bytes) :=
  Steps.run (keyedStep sealingServer Crypto.plainCrypto [1, 2] bareImport)
    (keyedStart ⟨[], [], [], []⟩)
    (.start (.create (sampleCall "alice" 1).1 (sampleCall "alice" 1).2)
      :: List.replicate 6 (.step 0 .done)
      ++ .start (.sign "did:plc:at://alice.pds.test") :: List.replicate 4 (.step 1 .done)
      ++ [.start (.sign "did:plc:at://alice.pds.test"), .step 2 .done])

theorem alice_signs_with_one_key : ∃ P, aliceSigns = some P
    ∧ ∃ j input rnd p, P.tasks[j]? = some (.create input rnd, p)
      ∧ (∀ j', RowBy P.log j' "did:plc:at://alice.pds.test" ↔ j' = j)
      ∧ (∀ (i' : Nat) k',
        P.tasks[i']? = some (.sign "did:plc:at://alice.pds.test", .ret (.key k')) →
        bareImport (sealingServer.plc.exportKey rnd.signing) = .ok k')
      ∧ ∀ did' op r, (⟨j, .inner (.account (.postOperation did' op)), r⟩ : Event signingSig)
        ∈ P.log →
          op.verificationMethods = [("atproto", sealingServer.plc.keyDid rnd.signing)] := by
  have hasked : (aliceSigns.bind fun P => P.tasks[2]?.map fun t => (t.1, t.2.outcome))
      = some (.sign "did:plc:at://alice.pds.test", some (.ok (.key [1]))) := by rfl
  obtain ⟨P, hP, htask⟩ := Option.bind_eq_some_iff.mp hasked
  obtain ⟨t, ht, heq⟩ := Option.map_eq_some_iff.mp htask
  obtain ⟨q, p⟩ := t
  obtain ⟨rfl, hend⟩ := Prod.mk.injEq .. |>.mp heq
  cases p with
  | fail e => cases hend
  | op o k => cases hend
  | ret a =>
      obtain rfl := Except.ok.inj (Option.some.inj hend)
      exact ⟨P, hP, one_signing_key hP (fun _ => rfl) Crypto.plainCrypto_laws
        (fun _ _ => ⟨_, rfl⟩) ht⟩

end Stelyph
