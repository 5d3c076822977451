import Stelyph.HandleHeld

/-!
# One object, one account

An account object looks at its accounts before it has the directory
register an identity, and inserts the row after. Any number of calls can
be between the two. That only one of them gets its row is then up to the
insert: all of them carry the handle of the object, and a handle is
unique. A call whose insert is refused ends there, before it has stored a
key.
-/

namespace Stelyph

/-- What an account object is called for here: to be provisioned, or to be emptied. -/
inductive ObjectCall (Keypair : Type) where
  | provision (email : Option String) (password : String) (rnd : Entropy Keypair)
  | deleteAccount

inductive ObjectReply where
  | provisioned (outcome : ProvisionOutcome)
  | deleted (did : Option String)

section

variable {Keypair : Type} (lib : FrontLib Keypair) (issuer host : String)

/-- The handle comes from the front, which has it from the hostname. -/
def objectHandle : ObjectCall Keypair → FrontProg ObjectReply
  | .provision email password rnd => do
      let outcome ← provisionAccount lib issuer host host email password rnd
      return .provisioned outcome
  | .deleteAccount => do
      let did ← FrontOp.call (.wipe host) id
      return .deleted did

abbrev ObjectCallPool (Keypair : Type) :=
  Pool frontSig (ObjectCall Keypair) String ObjectReply FrontStore

/-- One step of calls of one object. It may take up another call wherever
one waits, so that they interleave at every operation. -/
def objectCallStep (P : ObjectCallPool Keypair) :
    PoolAct (ObjectCall Keypair) Fate → Option (ObjectCallPool Keypair) :=
  Pool.next (frontMachine lib) (objectHandle lib issuer host) P

/-! ## Where a call can be -/

/-- An insert was not answered `ok`. -/
def lostInsert : FrontEvent → Bool
  | ⟨_, .countAndInsertAccount _ _ _ _ _, .error _⟩ => true
  | _ => false

/-- A key was stored, or was tried to be. -/
def storedKey : FrontEvent → Bool
  | ⟨_, .storeKey _ _ _ _, _⟩ => true
  | _ => false

def FrontOp.NoInsert : FrontOp → Prop
  | .countAndInsertAccount _ _ _ _ _ => False
  | _ => True

variable {lib issuer host} {α β : Type}

/-- What is left of a call that has not come to its insert: it stores no
key before, and a refused insert ends it. -/
def Unplaced (host : String) : FrontProg α → Prop
  | .ret _ => True
  | .fail _ => True
  | .op (.countAndInsertAccount h _ handle _ _) k =>
      h = host ∧ handle = host ∧ (∀ e, ∃ msg, k (.error e) = .fail msg)
        ∧ ∀ n, Prog.Each FrontOp.NoInsert (k (.ok n))
  | .op (.storeKey _ _ _ _) _ => False
  | .op _ k => ∀ r, Unplaced host (k r)

theorem Unplaced.bind {f : α → FrontProg β} {p : FrontProg α} (h : Unplaced host p)
    (hf : ∀ a, Prog.Each (S := frontSig) FrontOp.NoInsert (f a) ∧ Unplaced host (f a)) :
    Unplaced host (p.bind f) := by
  induction p with
  | ret a => exact (hf a).2
  | fail e => trivial
  | op o k ih =>
      cases o with
      | countAndInsertAccount h' did handle email phc =>
          obtain ⟨hh, hhandle, herr, hok⟩ := h
          refine ⟨hh, hhandle, fun e => ?_, fun n => (hok n).bind fun a => (hf a).1⟩
          obtain ⟨msg, hmsg⟩ := herr e
          exact ⟨msg, congrArg (fun p => Prog.bind p f) hmsg⟩
      | storeKey h' id nonce plaintext => exact h.elim
      | _ => exact fun r => ih r (h r)

theorem noInsert_call {o : FrontOp} (ho : o.NoInsert) (f : o.Err → String) :
    Prog.Each (S := frontSig) FrontOp.NoInsert (FrontOp.call o f) :=
  ⟨ho, fun _ => Prog.each_ofExcept _ _ _⟩

theorem unplaced_finishProvision (email : Option String) (password did : String)
    (rnd : Entropy Keypair) :
    Unplaced host (finishProvision lib host host email password did rnd) := by
  intro r
  cases r with
  | error e => trivial
  | ok phc =>
      refine ⟨rfl, rfl, fun e => ⟨_, rfl⟩, fun n => ?_⟩
      refine .bind (Prog.each_ofExcept _ _ _) fun _ => ?_
      refine .bind (noInsert_call (o := .storeKey _ _ _ _) trivial _) fun _ => ?_
      refine .bind (noInsert_call (o := .storeKey _ _ _ _) trivial _) fun _ => ?_
      refine .bind (noInsert_call (o := .encodeAccessJwt _ _) trivial _) fun _ => ?_
      exact .bind (noInsert_call (o := .encodeRefreshJwt _ _) trivial _) fun _ => trivial

theorem unplaced_objectHandle (q : ObjectCall Keypair) :
    Unplaced host (objectHandle lib issuer host q) := by
  cases q with
  | provision email password rnd =>
      refine Unplaced.bind ?_ fun outcome => ⟨trivial, trivial⟩
      rw [provisionAccount]
      split
      · trivial
      · intro r
        cases r with
        | error e => trivial
        | ok n =>
            simp only [Prog.ofExcept_ok, Prog.ret_bind]
            split
            · trivial
            · split
              · trivial
              · intro r
                cases r with
                | error e => trivial
                | ok u => exact unplaced_finishProvision email password _ rnd
  | deleteAccount =>
      intro r
      cases r <;> trivial

/-! ## The object -/

/-- At most one row, with the handle of the object. -/
structure Single (host : String) (s : FrontStore) : Prop where
  one : (s.objects host).accounts.length ≤ 1
  handle : ∀ r ∈ (s.objects host).accounts, r.handle = some host

/-- An insert is refused where there is a row, and only then. -/
theorem Single.insert {s : FrontStore} (h : Single host s) (did : String) (email : Option String)
    (phc : String) :
    (s.objects host).accounts = [] ∨ ∃ e, (s.objects host).countAndInsertAccount did host email phc
      = .error e := by
  cases hacc : (s.objects host).accounts with
  | nil => exact Or.inl rfl
  | cons r rest =>
      have hr : r.handle = some host := h.handle r (hacc ▸ List.mem_cons_self)
      have htaken : (s.objects host).accounts.any (fun a => a.handle == some host) = true :=
        List.any_eq_true.mpr ⟨r, hacc ▸ List.mem_cons_self, by simp [hr]⟩
      refine Or.inr ?_
      unfold AccountStore.countAndInsertAccount AccountStore.insertAccountLocked
      simp only [htaken, if_true]
      split <;> exact ⟨_, rfl⟩

theorem single_of_empty {s : FrontStore} (h : (s.objects host).accounts = []) : Single host s :=
  ⟨by simp [h], by simp [h]⟩

theorem Single.congr {s s' : FrontStore} (h : Single host s)
    (hacc : (s'.objects host).accounts = (s.objects host).accounts) : Single host s' :=
  ⟨hacc ▸ h.one, hacc ▸ h.handle⟩

/-- What an insert for the object's own handle does. -/
theorem Single.exec_insert {s s' : FrontStore} (h : Single host s) {did : String}
    {email : Option String} {phc : String} {c : Fate}
    {r : FrontOp.Ret (.countAndInsertAccount host did host email phc)}
    (hexec : FrontOp.exec lib s (.countAndInsertAccount host did host email phc) c = (r, s')) :
    Single host s' ∧ ((s.objects host).accounts ≠ [] → s' = s ∧ ∃ e, r = .error e) := by
  have heffect : Single host
      (FrontOp.effect lib s (.countAndInsertAccount host did host email phc)).2 := by
    rcases h.insert did email phc with hnil | ⟨e, he⟩
    · simp only [FrontOp.effect, AccountStore.countAndInsertAccount,
        AccountStore.insertAccountLocked, hnil]
      refine ⟨?_, ?_⟩ <;> simp [Except.map, FrontStore.setObject]
    · simp only [FrontOp.effect, he]
      exact h
  refine ⟨?_, fun hne => ?_⟩
  · rcases FrontOp.exec_store hexec with rfl | rfl
    · exact h
    · exact heffect
  · obtain ⟨e, he⟩ := (h.insert did email phc).resolve_left hne
    have hsame : FrontOp.effect lib s (.countAndInsertAccount host did host email phc)
        = (.error e, s) := by
      simp only [FrontOp.effect, he]
    cases c with
    | done =>
        obtain ⟨rfl, rfl⟩ := Prod.mk.injEq .. |>.mp (hsame.symm.trans hexec)
        exact ⟨rfl, e, rfl⟩
    | failsBefore msg =>
        obtain ⟨rfl, rfl⟩ := Prod.mk.injEq .. |>.mp hexec
        exact ⟨rfl, _, rfl⟩
    | failsAfter msg =>
        obtain ⟨rfl, rfl⟩ := Prod.mk.injEq .. |>.mp hexec
        exact ⟨congrArg Prod.snd hsame, _, rfl⟩

theorem Single.exec {s s' : FrontStore} (h : Single host s) {o : FrontOp} (ho : o.NoInsert)
    {c : Fate} {r : o.Ret} (hexec : FrontOp.exec lib s o c = (r, s')) : Single host s' := by
  rcases FrontOp.exec_store hexec with rfl | rfl
  · exact h
  · cases o with
    | countAndInsertAccount _ _ _ _ _ => exact ho.elim
    | wipe host' =>
        by_cases hh : host = host'
        · subst hh
          refine single_of_empty ?_
          have hnil := deleteAccount_accounts h.one
          simpa [FrontOp.effect, FrontStore.record, FrontStore.setObject] using hnil
        · refine h.congr ?_
          simp [FrontOp.effect, FrontStore.record, FrontStore.setObject, hh]
    | storeKey host' id nonce plaintext =>
        refine h.congr ?_
        simp only [FrontOp.effect, FrontStore.setObject]
        split
        · rename_i hh
          rw [hh, AccountStore.putKeyBlob_accounts]
        · rfl
    | _ => exact h.congr rfl

/-! ## The run -/

/-- A call that has not inserted yet, one whose row is in, and one whose
insert was refused. -/
inductive Stage (host : String) (w : FrontWorld) (i : Nat) (p : FrontProg α) : Prop where
  | unplaced (hp : Unplaced host p) (hlost : w.tally lostInsert i = 0)
      (hrow : w.tally insertedRow i = 0) (hkey : w.tally storedKey i = 0)
  | placed (hp : Prog.Each (S := frontSig) FrontOp.NoInsert p) (hlost : w.tally lostInsert i = 0)
  | lost (hp : ∃ msg, p = .fail msg) (hrow : w.tally insertedRow i = 0)
      (hkey : w.tally storedKey i = 0)

variable {w : FrontWorld} {i : Nat}

theorem Stage.after_of_ne {p : FrontProg α} (h : Stage host w i p) {j : Nat} (hne : j ≠ i)
    (o : FrontOp) (r : o.Ret) (s : FrontStore) : Stage host (w.after j o r s) i p := by
  have hsame : ∀ e, (w.after j o r s).tally e i = w.tally e i := fun e =>
    World.tally_after_of_ne w e hne o r s
  cases h with
  | unplaced hp hlost hrow hkey =>
      exact .unplaced hp ((hsame _).trans hlost) ((hsame _).trans hrow) ((hsame _).trans hkey)
  | placed hp hlost => exact .placed hp ((hsame _).trans hlost)
  | lost hp hrow hkey => exact .lost hp ((hsame _).trans hrow) ((hsame _).trans hkey)

/-- One operation of a call: the object keeps its one row, and the call
goes from one stage to the next. -/
theorem Stage.next {o : FrontOp} {k : o.Ret → FrontProg α} (h : Stage host w i (.op o k))
    (hs : Single host w.store) {c : Fate} {r : o.Ret} {s : FrontStore}
    (hexec : FrontOp.exec lib w.store o c = (r, s)) :
    Single host s ∧ Stage host (w.after i o r s) i (k r) := by
  cases h with
  | unplaced hp hlost hrow hkey =>
      cases o with
      | countAndInsertAccount h' did handle email phc =>
          obtain ⟨rfl, rfl, herr, hok⟩ := hp
          refine ⟨(hs.exec_insert hexec).1, ?_⟩
          cases r with
          | error e =>
              obtain ⟨msg, hmsg⟩ := herr e
              exact .lost ⟨msg, hmsg⟩ (by simp [hrow, insertedRow]) (by simp [hkey, storedKey])
          | ok n => exact .placed (hok n) (by simp [hlost, lostInsert])
      | storeKey h' id nonce plaintext => exact hp.elim
      | _ =>
          refine ⟨hs.exec ?_ hexec, .unplaced (hp r) (by simp [hlost, lostInsert])
            (by simp [hrow, insertedRow]) (by simp [hkey, storedKey])⟩
          trivial
  | placed hp hlost =>
      refine ⟨hs.exec hp.1 hexec, .placed (hp.2 r) ?_⟩
      have hquiet : lostInsert ⟨i, o, r⟩ = false := by
        cases o with
        | countAndInsertAccount _ _ _ _ _ => exact hp.1.elim
        | _ => rfl
      simp [hlost, hquiet]
  | lost hp hrow hkey =>
      obtain ⟨msg, hmsg⟩ := hp
      cases hmsg

/-- The object has one row at most, and every call is at its stage. -/
structure ObjectCallsInv (host : String) (P : ObjectCallPool Keypair) : Prop where
  single : Single host P.store
  tids : ∀ e ∈ P.log, e.tid < P.tasks.length
  stage : ∀ (i : Nat) q p, P.tasks[i]? = some (q, p) → Stage host P.toWorld i p

theorem objectCallsInv_init {s : FrontStore} (h : (s.objects host).accounts = []) :
    ObjectCallsInv host (Pool.init s : ObjectCallPool Keypair) :=
  ⟨single_of_empty h, fun _ he => (List.not_mem_nil he).elim, fun i q p h => by
    simp [Pool.init] at h⟩

theorem objectCallsInv_step (P : ObjectCallPool Keypair) (a : PoolAct (ObjectCall Keypair) Fate)
    (P' : ObjectCallPool Keypair) (hP : ObjectCallsInv host P)
    (h : objectCallStep lib issuer host P a = some P') : ObjectCallsInv host P' := by
  rcases Pool.next_cases h with ⟨q, rfl, rfl⟩ | ⟨i, c, q, o, k, r, s, rfl, htask, hexec, rfl⟩
  · refine ⟨hP.single, fun e he => ?_, fun j q' p hj => ?_⟩
    · have := hP.tids e he
      simp only [List.length_append, List.length_singleton]
      omega
    · rcases Pool.getElem?_append_cases hj with ⟨rfl, heq⟩ | hj
      · obtain ⟨rfl, rfl⟩ := Prod.mk.injEq .. |>.mp heq
        exact .unplaced (unplaced_objectHandle _) (World.tally_eq_zero_of_fresh _ hP.tids)
          (World.tally_eq_zero_of_fresh _ hP.tids) (World.tally_eq_zero_of_fresh _ hP.tids)
      · exact hP.stage j q' p hj
  · have hi : i < P.tasks.length := (List.getElem?_eq_some_iff.mp htask).1
    obtain ⟨hsingle, hstage⟩ := (hP.stage i q _ htask).next hP.single (Option.some.inj hexec)
    refine ⟨hsingle, fun e he => ?_, fun j q' p hj => ?_⟩
    · simp only [List.length_set]
      rcases List.mem_append.mp he with he | he
      · exact hP.tids e he
      · rw [List.mem_singleton.mp he]
        exact hi
    · rcases Pool.getElem?_set_cases hj with ⟨rfl, heq⟩ | ⟨hne, hj⟩
      · obtain ⟨rfl, rfl⟩ := Prod.mk.injEq .. |>.mp heq
        exact hstage
      · exact (hP.stage j q' p hj).after_of_ne (Ne.symm hne) o r s

end

/-- The losers of the race: a call that comes to its insert while there
is an account changes nothing and ends in an error. -/
def LosersEnd {Keypair : Type} (lib : FrontLib Keypair) (issuer host : String)
    (P : ObjectCallPool Keypair) : Prop :=
  ∀ (i : Nat) q did handle email phc k, P.tasks[i]?
      = some (q, .op (.countAndInsertAccount host did handle email phc) k) →
    (P.store.objects host).accounts ≠ [] →
    ∀ c P', objectCallStep lib issuer host P (.step i c) = some P' →
      P'.store = P.store ∧ ∃ msg, P'.tasks[i]? = some (q, .fail msg)

/-- **One object, one account.** Whatever the order of the calls, the
object never has two rows. A call whose insert is refused because there
is one leaves the store as it was and ends in an error, and no call whose
insert was not answered `ok` ever stores a key. -/
theorem one_account_per_object {Keypair : Type} (lib : FrontLib Keypair) (issuer host : String)
    (s : FrontStore) (hs : (s.objects host).accounts = [])
    (as : List (PoolAct (ObjectCall Keypair) Fate)) (P : ObjectCallPool Keypair)
    (hrun : Steps.run (objectCallStep lib issuer host) (Pool.init s) as = some P) :
    (P.store.objects host).accounts.length ≤ 1 ∧ LosersEnd lib issuer host P
      ∧ ∀ (i : Nat) q p, P.tasks[i]? = some (q, p) → 0 < P.tally lostInsert i →
        (∃ msg, p = .fail msg) ∧ P.tally insertedRow i = 0 ∧ P.tally storedKey i = 0 := by
  have hP : ObjectCallsInv host P := Steps.run_inv objectCallsInv_step (objectCallsInv_init hs) hrun
  refine ⟨hP.single.one, ?_, fun i q p htask hlost => ?_⟩
  · intro i q did handle email phc k htask hacc c P' hstep
    rcases Pool.next_cases hstep with ⟨q', hbad, -⟩
      | ⟨i', c', q', o, k', r, s', ha, htask', hexec, rfl⟩
    · cases hbad
    · obtain ⟨rfl, rfl⟩ := PoolAct.step.injEq .. |>.mp ha
      obtain ⟨rfl, hop⟩ := Prod.mk.injEq .. |>.mp (Option.some.inj (htask.symm.trans htask'))
      obtain ⟨rfl, hk⟩ := Prog.op.injEq .. |>.mp hop
      obtain rfl := eq_of_heq hk
      cases hP.stage i q _ htask with
      | unplaced hp _ _ _ =>
          obtain ⟨-, rfl, herr, -⟩ := hp
          obtain ⟨hsame, e, rfl⟩ := (hP.single.exec_insert (Option.some.inj hexec)).2 hacc
          obtain ⟨msg, hmsg⟩ := herr e
          refine ⟨hsame, msg, ?_⟩
          rw [← hmsg]
          exact List.getElem?_set_self (List.getElem?_eq_some_iff.mp htask).1
      | placed hp _ => exact hp.1.elim
      | lost hp _ _ =>
          obtain ⟨msg, hmsg⟩ := hp
          cases hmsg
  · cases hP.stage i q p htask with
    | unplaced _ h _ _ => exact absurd h (Nat.ne_of_gt hlost)
    | placed _ h => exact absurd h (Nat.ne_of_gt hlost)
    | lost hp hrow hkey => exact ⟨hp, hrow, hkey⟩

def sampleProvision (n : Nat) : ObjectCall Nat :=
  .provision none "correct horse"
    { signing := n, rotation := n + 1, salt := "salt", signingNonce := [], rotationNonce := []
      now := 0 }

/-- Two calls are answered by the directory before either has inserted. -/
def provisionRace : List (PoolAct (ObjectCall Nat) Fate) :=
  [.start (sampleProvision 1), .start (sampleProvision 3), .step 0 .done, .step 1 .done,
    .step 0 .done, .step 1 .done, .step 0 .done, .step 1 .done, .step 0 .done, .step 1 .done]

theorem one_account_provisionRace : ∃ P : ObjectCallPool Nat,
    Steps.run (objectCallStep sampleFrontLib "https://pds.test" "alice.pds.test")
      (Pool.init (newFront .empty)) provisionRace = some P
    ∧ P.tally lostInsert 1 = 1
    ∧ (P.store.objects "alice.pds.test").accounts.length ≤ 1
    ∧ LosersEnd sampleFrontLib "https://pds.test" "alice.pds.test" P
    ∧ ∀ (i : Nat) q p, P.tasks[i]? = some (q, p) → 0 < P.tally lostInsert i →
        (∃ msg, p = .fail msg) ∧ P.tally insertedRow i = 0 ∧ P.tally storedKey i = 0 := by
  have hend : (Steps.run (objectCallStep sampleFrontLib "https://pds.test" "alice.pds.test")
      (Pool.init (newFront .empty)) provisionRace).map (fun P => P.tally lostInsert 1)
        = some 1 := by decide
  obtain ⟨P, hrun, hlost⟩ := Option.map_eq_some_iff.mp hend
  exact ⟨P, hrun, hlost, one_account_per_object sampleFrontLib "https://pds.test"
    "alice.pds.test" (newFront .empty) rfl provisionRace P hrun⟩

end Stelyph
