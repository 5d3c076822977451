import Stelyph.LiveToken
import Stelyph.RegistrationGate
import Stelyph.ServerStages

/-!
# One code for one pushed request

A submission loads the request, stores a code and deletes the request, in
three store calls. It is single-use as long as no submission is between
its load and its deletion while another one stores a code or denies the
request; two that overlap both store one.
-/

namespace Stelyph

/-! ## The store -/

theorem OauthStore.par_exec {s : OauthStore} {o : OauthOp} {c : StoreOutcome} {k : String}
    {req : StoredPushedRequest} (h : (o.exec s c).2.par.get k = some req) :
    s.par.get k = some req
      ∨ (o = .putPushedRequest req ∧ c = .done ∧ k = req.requestUriHash) := by
  cases c with
  | fault msg => exact Or.inl h
  | done =>
      cases o with
      | putPushedRequest stored =>
          rcases Table.get_insert_eq_some.mp h with ⟨rfl, rfl⟩ | ⟨-, h⟩
          · exact Or.inr ⟨rfl, rfl, rfl⟩
          · exact Or.inl h
      | deletePushedRequest hash => exact Or.inl (Table.get_retain_eq_some.mp h).1
      | purgeExpired now => exact Or.inl (Table.get_retain_eq_some.mp h).1
      | consumeRefreshToken hash now =>
          refine Or.inl ?_
          simp only [OauthOp.exec, OauthOp.apply, consumeRefreshToken] at h
          split at h
          · exact h
          · split_ifs at h <;> exact h
      | revokeRefreshToken hash =>
          refine Or.inl ?_
          simp only [OauthOp.exec, OauthOp.apply, revokeRefreshToken] at h
          split at h <;> exact h
      | recordDpopJti jti expiresAt =>
          refine Or.inl ?_
          simp only [OauthOp.exec, OauthOp.apply, recordDpopJti] at h
          split at h <;> exact h
      | _ => exact Or.inl h

/-- What an executed operation did to the OAuth store. -/
theorem ServerOp.exec_cases {s s' : ServerStore} {o : ServerOp} {c : ServerOutcome} {r : o.Ret}
    (h : o.exec s c = some (r, s')) : s'.oauth = s.oauth ∨ ∃ o' c', o = .oauth o'
      ∧ c.store = some c' ∧ s'.oauth = (o'.exec s.oauth c').2 := by
  cases o with
  | oauth o =>
      obtain ⟨c', hc, heq⟩ := Option.map_eq_some_iff.mp h
      obtain ⟨-, rfl⟩ := Prod.mk.injEq .. |>.mp heq
      exact Or.inr ⟨o, c', rfl, hc, rfl⟩
  | account o =>
      obtain ⟨x, -, heq⟩ := Option.map_eq_some_iff.mp h
      obtain ⟨-, rfl⟩ := Prod.mk.injEq .. |>.mp heq
      exact Or.inl rfl
  | getDidByHandle _ | getHandleByDid _ | updatePassword _ _ | setTakedown _ _ _
  | clearTakedown _ | joinBlocking | fetch _ =>
      cases c <;> cases h <;> exact Or.inl rfl

theorem ServerOp.exec_oauth {s s' : ServerStore} {o : OauthOp} {c : ServerOutcome}
    {r : Except StorageError o.Value} (h : ServerOp.exec s (.oauth o) c = some (r, s')) :
    ∃ c', c.store = some c' ∧ r = (o.exec s.oauth c').1 ∧ s'.oauth = (o.exec s.oauth c').2 := by
  obtain ⟨c', hc, heq⟩ := Option.map_eq_some_iff.mp h
  obtain ⟨rfl, rfl⟩ := Prod.mk.injEq .. |>.mp heq
  exact ⟨c', hc, rfl, rfl⟩

def ServerOutcome.isDone : ServerOutcome → Bool
  | .done => true
  | _ => false

/-! ## The request and its submissions -/

/-- A code is stored. -/
def storesCode : OpPred serverSig
  | .oauth (.putAuthCode _), .ok _ => true
  | _, _ => false

/-- The request of hash `h` is stored. -/
def pushes (h : String) : OpPred serverSig
  | .oauth (.putPushedRequest stored), .ok _ => stored.requestUriHash == h
  | _, _ => false

section

variable {Keypair : Type} (state : AppState Keypair) (h : String)

/-- The request is a submission of the consent page for the pushed request of hash `h`. -/
def submits : ServerRequest Keypair → Bool
  | .authorizeSubmit q => state.oauth.hashSecret q.requestUri == h
  | _ => false

/-- A submission that accepts it. -/
def accepts : ServerRequest Keypair → Bool
  | .authorizeSubmit q => state.oauth.hashSecret q.requestUri == h && q.action == "accept"
  | _ => false

/-- The codes stored so far for the request, by whichever submissions of it. -/
def codesFor (P : ServerPool Keypair) : Nat :=
  P.log.countP fun e => storesCode.happened e
    && (P.tasks[e.tid]?.any fun t => submits state h t.1)

/-- The request was pushed at some time, whether or not it is still there. -/
def pushed (P : ServerPool Keypair) : Bool := P.log.any (pushes h).happened

/-- A submission that denies the request was answered so, with the
redirect that tells the client. -/
def Denied (P : ServerPool Keypair) : Prop :=
  ∃ (i : Nat) (q : AuthorizeForm) (location : String),
    P.tasks[i]? = some (.authorizeSubmit q, .ret (.authorize (.redirect location)))
      ∧ state.oauth.hashSecret q.requestUri = h ∧ q.action ≠ "accept"

namespace ServerStage

/-- Has loaded the request and may store a code for it. -/
def deciding : ServerStage → Bool
  | .loaded q _ => state.oauth.hashSecret q.requestUri == h && q.action == "accept"
  | .authenticated q _ _ => state.oauth.hashSecret q.requestUri == h
  | _ => false

/-- Has stored a code and is about to delete the request. -/
def closing : ServerStage → Bool
  | .minted q _ _ => state.oauth.hashSecret q.requestUri == h
  | _ => false

/-- The request a submission has loaded and not yet done with. -/
def holds : ServerStage → Option (AuthorizeForm × StoredPushedRequest)
  | .loaded q stored => some (q, stored)
  | .authenticated q stored _ => some (q, stored)
  | .minted q stored _ => some (q, stored)
  | _ => none

/-- The submission has the request loaded. -/
def touches (t : ServerStage) : Bool :=
  t.holds.any fun x => state.oauth.hashSecret x.1.requestUri == h

end ServerStage

/-- Where a task has got to, by what it has asked of the store so far. -/
def stageOf (P : ServerPool Keypair) (i : Nat) : Option ServerStage :=
  Pool.stageAt (serverStages state) (startStage state) P i

/-- Some task other than `i` is in a stage that `p` holds of. -/
def others (P : ServerPool Keypair) (i : Nat) (p : ServerStage → Bool) : Bool :=
  (List.range P.tasks.length).any fun j => j != i && (stageOf state P j).any p

/-- An operation of task `i` that no other submission of the request is
in the way of: the request is not found by a submission that accepts it
while another one has stored its code, no code is stored and no denial
carried out while another submission may store one, and the request's
deletion does not fail. And the request is pushed once. -/
def exclusiveOp (P : ServerPool Keypair) (i : Nat) (q : ServerRequest Keypair)
    (c : ServerOutcome) : ServerOp → Bool
  | .oauth (.putPushedRequest stored) => !(stored.requestUriHash == h && pushed h P)
  | .oauth (.getPushedRequest hash now) =>
      !(accepts state h q && (P.store.oauth.getPushedRequest hash now).isSome
        && others state P i (ServerStage.closing state h))
  | .oauth (.putAuthCode _) =>
      !(submits state h q && c.isDone && others state P i (ServerStage.deciding state h))
  | .oauth (.deletePushedRequest _) =>
      !submits state h q
        || ((c.isDone || !P.store.oauth.par.contains h)
          && (accepts state h q || !others state P i (ServerStage.deciding state h)))
  | _ => true

/-- The condition on a step, read off the state before it and the
operation that is next. -/
def exclusive (P : ServerPool Keypair) : ServerAct Keypair → Bool
  | .start _ => true
  | .step i c =>
      match P.tasks[i]? with
      | some (q, .op o _) => exclusiveOp state h P i q c o
      | _ => true

end

/-! ## What a run keeps -/

section

variable {Keypair : Type} {state : AppState Keypair} {h : String} {P P' : ServerPool Keypair}

theorem others_eq_true {i : Nat} {p : ServerStage → Bool} {j : Nat} {t : ServerStage}
    (hj : stageOf state P j = some t) (hne : j ≠ i) (hp : p t = true) :
    others state P i p = true := by
  have hlt : j < P.tasks.length := by
    by_contra hge
    rw [stageOf, Pool.stageAt, List.getElem?_eq_none (Nat.le_of_not_lt hge)] at hj
    cases hj
  refine List.any_eq_true.mpr ⟨j, List.mem_range.mpr hlt, ?_⟩
  simp [hne, hj, hp]

/-- The form a stage is about. -/
def ServerStage.form : ServerStage → Option AuthorizeForm
  | .loading q => some q
  | .loaded q _ => some q
  | .authenticated q _ _ => some q
  | .minted q _ _ => some q
  | _ => none

theorem Moves.form {t t' : ServerStage} {o : ServerOp} {r : o.Ret} {q : AuthorizeForm}
    (hmoves : Moves state t o r t') (hq : t'.form = some q) : t.form = some q := by
  cases hmoves with
  | load | authenticate | mint => exact hq
  | fetch | push | deny | close | redeem | rotate | issueRedeemed | issueRotated => cases hq
  | rest hinert hend =>
      rcases hend with rfl | rfl | ⟨rfl, -⟩
      · cases hq
      · cases hq
      · exact hq

theorem startStage_form {q : ServerRequest Keypair} {form : AuthorizeForm}
    (hq : (startStage state q).form = some form) : q = .authorizeSubmit form := by
  cases q with
  | authorizeSubmit q => exact congrArg _ (Option.some.inj hq)
  | _ => cases hq

theorem startStage_holds (q : ServerRequest Keypair) : (startStage state q).holds = none := by
  cases q <;> rfl

theorem touches_of_deciding {t : ServerStage} (ht : t.deciding state h = true) :
    t.touches state h = true := by
  cases t with
  | loaded q stored =>
      simp only [ServerStage.deciding, Bool.and_eq_true] at ht
      exact ht.1
  | authenticated q stored did => exact ht
  | _ => cases ht

theorem not_touches_of_holds {t : ServerStage} (ht : t.holds = none) :
    t.touches state h = false := by
  rw [ServerStage.touches, ht]
  rfl

/-- A code was stored for the request, or it was denied. -/
def UsedUp (state : AppState Keypair) (h : String) (P : ServerPool Keypair) : Prop :=
  0 < codesFor state h P ∨ Denied state h P

/-- What carries the result. The request goes through three phases, not
yet pushed, open, and spent, and a code may be stored only as it goes from
the second to the third; that it cannot be stored again rests on `spent`.
-/
structure SingleInv (state : AppState Keypair) (h : String) (P : ServerPool Keypair) : Prop where
  forms : ∀ i t q, stageOf state P i = some t → t.form = some q →
    ∃ p, P.tasks[i]? = some (.authorizeSubmit q, p)
  filed : ∀ k req, P.store.oauth.par.get k = some req → req.requestUriHash = k
  held : ∀ i t q stored, stageOf state P i = some t → t.holds = some (q, stored) →
    stored.requestUriHash = state.oauth.hashSecret q.requestUri
  /-- Nothing is known of a request that was not pushed. -/
  fresh : pushed h P = false → P.store.oauth.par.get h = none
    ∧ (∀ i t, stageOf state P i = some t → t.touches state h = false) ∧ ¬ UsedUp state h P
  once : codesFor state h P ≤ 1
  /-- Once spent, the request is there only until its code's submission
  deletes it, and no submission may store another. -/
  spent : UsedUp state h P →
    (∀ i t, stageOf state P i = some t → t.deciding state h = false)
      ∧ ∀ req, P.store.oauth.par.get h = some req →
        ∃ i t, stageOf state P i = some t ∧ t.closing state h = true

/-! ### A request starts -/

theorem codesFor_start (htids : ∀ e ∈ P.log, e.tid < P.tasks.length) (q : ServerRequest Keypair)
    (p : AnswerProg) : codesFor state h ⟨P.toWorld, P.tasks ++ [(q, p)]⟩ = codesFor state h P := by
  refine List.countP_congr fun e he => ?_
  rw [List.getElem?_append_left (htids e he)]

theorem denied_start {q : ServerRequest Keypair}
    (hP' : Pool.Followed (serverStages state) (startStage state) (EndsAs state)
      ⟨P.toWorld, P.tasks ++ [(q, serverHandler state q)]⟩)
    (htids : ∀ e ∈ P.log, e.tid < P.tasks.length)
    (hden : Denied state h ⟨P.toWorld, P.tasks ++ [(q, serverHandler state q)]⟩) :
    Denied state h P := by
  obtain ⟨i, form, location, htask, hhash, hdeny⟩ := hden
  rcases Pool.getElem?_append_cases htask with ⟨rfl, -⟩ | hold
  · -- it would have been answered before it loaded anything
    have hends := hP'.tasks _ _ _ htask form rfl
    rw [World.stage_fresh htids] at hends
    rcases hends with ⟨hstage, -⟩ | ⟨hstage, -⟩ <;> cases hstage
  · exact ⟨i, form, location, hold, hhash, hdeny⟩

theorem singleInv_start {q : ServerRequest Keypair}
    (hP' : Pool.Followed (serverStages state) (startStage state) (EndsAs state)
      ⟨P.toWorld, P.tasks ++ [(q, serverHandler state q)]⟩)
    (htids : ∀ e ∈ P.log, e.tid < P.tasks.length) (hI : SingleInv state h P) :
    SingleInv state h ⟨P.toWorld, P.tasks ++ [(q, serverHandler state q)]⟩ := by
  have hstage : ∀ j t, stageOf state ⟨P.toWorld, P.tasks ++ [(q, serverHandler state q)]⟩ j
      = some t → (j = P.tasks.length ∧ t = startStage state q) ∨ stageOf state P j = some t := by
    intro j t hj
    rw [stageOf, Pool.stageAt_start htids] at hj
    split at hj
    · rename_i hlen
      exact Or.inl ⟨hlen, (Option.some.inj hj).symm⟩
    · exact Or.inr hj
  have hspent : UsedUp state h ⟨P.toWorld, P.tasks ++ [(q, serverHandler state q)]⟩ →
      UsedUp state h P := by
    rintro (hcodes | hden)
    · rw [codesFor_start htids] at hcodes
      exact Or.inl hcodes
    · exact Or.inr (denied_start hP' htids hden)
  have hnew : (startStage state q).holds = none := startStage_holds q
  refine ⟨fun j t form hj hform => ?_, hI.filed, fun j t form stored hj hholds => ?_,
    fun hpushed => ?_, ?_, fun hsp => ?_⟩
  · rcases hstage j t hj with ⟨rfl, rfl⟩ | hold
    · obtain rfl := startStage_form hform
      exact ⟨_, List.getElem?_concat_length⟩
    · obtain ⟨p, hp⟩ := hI.forms j t form hold hform
      exact ⟨p, List.getElem?_append_left (List.getElem?_eq_some_iff.mp hp).1 ▸ hp⟩
  · rcases hstage j t hj with ⟨-, rfl⟩ | hold
    · rw [hnew] at hholds
      cases hholds
    · exact hI.held j t form stored hold hholds
  · obtain ⟨hpar, htouches, hnot⟩ := hI.fresh hpushed
    refine ⟨hpar, fun j t hj => ?_, fun hsp => hnot (hspent hsp)⟩
    rcases hstage j t hj with ⟨-, rfl⟩ | hold
    · exact not_touches_of_holds hnew
    · exact htouches j t hold
  · rw [codesFor_start htids]
    exact hI.once
  · obtain ⟨hdec, hpar⟩ := hI.spent (hspent hsp)
    refine ⟨fun j t hj => ?_, fun req hreq => ?_⟩
    · rcases hstage j t hj with ⟨-, rfl⟩ | hold
      · by_contra htrue
        have := touches_of_deciding (Bool.eq_true_of_not_eq_false htrue)
        rw [not_touches_of_holds hnew] at this
        cases this
      · exact hdec j t hold
    · obtain ⟨j, t, hj, hclosing⟩ := hpar req hreq
      refine ⟨j, t, ?_, hclosing⟩
      rw [stageOf, Pool.stageAt_start htids, if_neg]
      · exact hj
      · rintro rfl
        rw [stageOf, Pool.stageAt, List.getElem?_eq_none (Nat.le_refl _)] at hj
        cases hj

/-! ### An operation is executed -/

/-- Task `i` executes `o`. -/
structure Executes (state : AppState Keypair) (P P' : ServerPool Keypair) (i : Nat)
    (q : ServerRequest Keypair) (o : ServerOp) (r : o.Ret) : Prop where
  before : ∃ k, P.tasks[i]? = some (q, .op o k)
    ∧ P' = ⟨P.toWorld.after i o r P'.store, P.tasks.set i (q, k r)⟩
  follows : Pool.Followed (serverStages state) (startStage state) (EndsAs state) P'

variable {i : Nat} {q : ServerRequest Keypair} {o : ServerOp} {r : o.Ret}

/-- Where the task stood. -/
def stageBefore (state : AppState Keypair) (P : ServerPool Keypair) (i : Nat)
    (q : ServerRequest Keypair) : ServerStage :=
  P.stage (serverStages state) (startStage state q) i

theorem Executes.stageOf_self (hE : Executes state P P' i q o r) :
    stageOf state P i = some (stageBefore state P i q) := by
  obtain ⟨k, htask, -⟩ := hE.before
  exact Pool.stageAt_of_task htask

theorem Executes.stageOf (hE : Executes state P P' i q o r) (j : Nat) :
    stageOf state P' j = if j = i then
      some (ServerOp.nextStage state (stageBefore state P i q) o r) else stageOf state P j := by
  obtain ⟨k, htask, heq⟩ := hE.before
  rw [heq]
  exact Pool.stageAt_step htask o r _ j

theorem Executes.codesFor (hE : Executes state P P' i q o r) : codesFor state h P'
    = codesFor state h P + (storesCode o r && submits state h q).toNat := by
  obtain ⟨k, htask, heq⟩ := hE.before
  have hlt : i < P.tasks.length := (List.getElem?_eq_some_iff.mp htask).1
  have hsame : ∀ n : Nat, ((P.tasks.set i (q, k r))[n]?.any fun t => submits state h t.1)
      = (P.tasks[n]?.any fun t => submits state h t.1) := by
    intro n
    by_cases hn : n = i
    · subst hn
      rw [List.getElem?_set_self hlt, htask]
      rfl
    · rw [List.getElem?_set_ne (Ne.symm hn)]
  rw [heq, Stelyph.codesFor, Stelyph.codesFor]
  simp only [World.after_log, List.countP_append, List.countP_singleton, hsame]
  rw [htask]
  cases hb : storesCode o r && submits state h q <;> simp [OpPred.happened, hb]

theorem Executes.pushed (hE : Executes state P P' i q o r) :
    pushed h P' = (pushed h P || pushes h o r) := by
  obtain ⟨k, -, heq⟩ := hE.before
  rw [heq]
  simp [Stelyph.pushed, OpPred.happened]

theorem Executes.denied (hE : Executes state P P' i q o r) (hden : Denied state h P') :
    Denied state h P ∨ (ServerOp.nextStage state (stageBefore state P i q) o r = .denied
      ∧ submits state h q = true) := by
  obtain ⟨j, form, location, htask', hhash, hdeny⟩ := hden
  have hstage := hE.stageOf j
  have hends := hE.follows.tasks _ _ _ htask' form rfl
  rw [Stelyph.stageOf, Pool.stageAt_of_task htask'] at hstage
  obtain ⟨k, htask, heq⟩ := hE.before
  rw [heq] at htask'
  rcases Pool.getElem?_set_cases htask' with ⟨rfl, heq'⟩ | ⟨-, hold⟩
  · obtain ⟨rfl, -⟩ := Prod.mk.injEq .. |>.mp heq'
    rw [if_pos rfl] at hstage
    rcases hends with ⟨hden, -⟩ | ⟨-, haccept⟩
    · exact Or.inr ⟨(Option.some.inj hstage).symm.trans hden, by simp [submits, hhash]⟩
    · exact absurd haccept hdeny
  · exact Or.inl ⟨j, form, location, hold, hhash, hdeny⟩

theorem Executes.usedUp (hE : Executes state P P' i q o r) (hused : UsedUp state h P') :
    UsedUp state h P ∨ (storesCode o r = true ∧ submits state h q = true)
      ∨ (ServerOp.nextStage state (stageBefore state P i q) o r = .denied
        ∧ submits state h q = true) := by
  rcases hused with hcodes | hden
  · rw [hE.codesFor] at hcodes
    cases hb : storesCode o r && submits state h q with
    | false =>
        rw [hb, Bool.toNat_false, Nat.add_zero] at hcodes
        exact Or.inl (Or.inl hcodes)
    | true => exact Or.inr (Or.inl ((Bool.and_eq_true _ _).mp hb))
  · rcases hE.denied hden with hold | hnew
    · exact Or.inl (Or.inr hold)
    · exact Or.inr (Or.inr hnew)

/-- What every step keeps, whatever it does to the request. -/
theorem Executes.forms (hE : Executes state P P' i q o r) (hI : SingleInv state h P)
    (hmoves : Moves state (stageBefore state P i q) o r
      (ServerOp.nextStage state (stageBefore state P i q) o r)) :
    ∀ j t form, Stelyph.stageOf state P' j = some t → t.form = some form →
      ∃ p, P'.tasks[j]? = some (.authorizeSubmit form, p) := by
  intro j t form hj hform
  rw [hE.stageOf] at hj
  obtain ⟨k, htask, heq⟩ := hE.before
  split at hj
  · rename_i hji
    subst hji
    obtain rfl := Option.some.inj hj
    obtain ⟨p, hp⟩ := hI.forms j _ form hE.stageOf_self (hmoves.form hform)
    obtain ⟨rfl, -⟩ := Prod.mk.injEq .. |>.mp (Option.some.inj (htask.symm.trans hp))
    rw [heq]
    exact ⟨_, List.getElem?_set_self (List.getElem?_eq_some_iff.mp htask).1⟩
  · rename_i hji
    obtain ⟨p, hp⟩ := hI.forms j t form hj hform
    rw [heq]
    exact ⟨p, (List.getElem?_set_ne (Ne.symm hji)).trans hp⟩

/-- A step that does not store a code for the request, deny it or push it. -/
theorem singleInv_quiet (hE : Executes state P P' i q o r) (hI : SingleInv state h P)
    {t t' : ServerStage} (ht : stageBefore state P i q = t)
    (ht' : ServerOp.nextStage state t o r = t') (hmoves : Moves state t o r t')
    (hfiled : ∀ k req, P'.store.oauth.par.get k = some req → req.requestUriHash = k)
    (hpar : ∀ req, P'.store.oauth.par.get h = some req → P.store.oauth.par.get h = some req)
    (hheld : ∀ form stored, t'.holds = some (form, stored) →
      stored.requestUriHash = state.oauth.hashSecret form.requestUri)
    (hcode : (storesCode o r && submits state h q) = false)
    (hdenied : t' = .denied → submits state h q = false)
    (htouches : t'.touches state h = true → t.touches state h = true)
    (hdeciding : t'.deciding state h = true → t.deciding state h = true)
    (hclosing : t.closing state h = true → P'.store.oauth.par.get h = none) :
    SingleInv state h P' := by
  subst ht
  have hused : UsedUp state h P' → UsedUp state h P := by
    intro hused
    rcases hE.usedUp hused with hold | ⟨hstores, hsub⟩ | ⟨hden, hsub⟩
    · exact hold
    · rw [hstores, hsub] at hcode
      cases hcode
    · rw [hdenied (ht'.symm.trans hden)] at hsub
      cases hsub
  have hstage : ∀ j u, stageOf state P' j = some u →
      (j = i ∧ u = t') ∨ stageOf state P j = some u := by
    intro j u hj
    rw [hE.stageOf, ht'] at hj
    split at hj
    · rename_i hji
      exact Or.inl ⟨hji, (Option.some.inj hj).symm⟩
    · exact Or.inr hj
  refine ⟨hE.forms hI (ht' ▸ hmoves), hfiled, fun j u form stored hj hholds => ?_,
    fun hpushed => ?_, ?_, fun hsp => ?_⟩
  · rcases hstage j u hj with ⟨-, rfl⟩ | hold
    · exact hheld form stored hholds
    · exact hI.held j u form stored hold hholds
  · rw [hE.pushed, Bool.or_eq_false_iff] at hpushed
    obtain ⟨hnone, hno, hnot⟩ := hI.fresh hpushed.1
    refine ⟨?_, fun j u hj => ?_, fun hsp => hnot (hused hsp)⟩
    · cases hget : P'.store.oauth.par.get h with
      | none => rfl
      | some req =>
          rw [hpar req hget] at hnone
          cases hnone
    · rcases hstage j u hj with ⟨rfl, rfl⟩ | hold
      · by_contra htrue
        have := htouches (Bool.eq_true_of_not_eq_false htrue)
        rw [hno _ _ hE.stageOf_self] at this
        cases this
      · exact hno j u hold
  · rw [hE.codesFor, hcode, Bool.toNat_false, Nat.add_zero]
    exact hI.once
  · obtain ⟨hdec, hclose⟩ := hI.spent (hused hsp)
    refine ⟨fun j u hj => ?_, fun req hreq => ?_⟩
    · rcases hstage j u hj with ⟨rfl, rfl⟩ | hold
      · by_contra htrue
        have := hdeciding (Bool.eq_true_of_not_eq_false htrue)
        rw [hdec _ _ hE.stageOf_self] at this
        cases this
      · exact hdec j u hold
    · obtain ⟨j, u, hj, hu⟩ := hclose req (hpar req hreq)
      refine ⟨j, u, ?_, hu⟩
      rw [hE.stageOf, if_neg]
      · exact hj
      · rintro rfl
        obtain rfl := Option.some.inj (hE.stageOf_self.symm.trans hj)
        rw [hclosing hu] at hreq
        cases hreq

/-- A request that is there after an operation was there, or is pushed by it. -/
theorem par_exec {s s' : ServerStore} {c : ServerOutcome} {k : String}
    {req : StoredPushedRequest} (hexec : o.exec s c = some (r, s'))
    (hget : s'.oauth.par.get k = some req) : s.oauth.par.get k = some req
      ∨ (o = .oauth (.putPushedRequest req) ∧ pushes k o r = true ∧ k = req.requestUriHash) := by
  rcases ServerOp.exec_cases hexec with hsame | ⟨o', c', rfl, hc, hs'⟩
  · rw [hsame] at hget
    exact Or.inl hget
  · rw [hs'] at hget
    rcases OauthStore.par_exec hget with hold | ⟨rfl, rfl, rfl⟩
    · exact Or.inl hold
    · obtain ⟨c'', hc'', rfl, -⟩ := ServerOp.exec_oauth hexec
      obtain rfl := Option.some.inj (hc.symm.trans hc'')
      exact Or.inr ⟨rfl, beq_self_eq_true _, rfl⟩

theorem par_exec_of_not_push {s s' : ServerStore} {c : ServerOutcome}
    (hpush : ∀ stored, o ≠ .oauth (.putPushedRequest stored))
    (hexec : o.exec s c = some (r, s')) (k : String) (req : StoredPushedRequest)
    (hget : s'.oauth.par.get k = some req) : s.oauth.par.get k = some req :=
  (par_exec hexec hget).resolve_right fun h => hpush req h.1

theorem par_exec_delete {s s' : ServerStore} {c : ServerOutcome} {hash : String}
    {r : Except StorageError Unit}
    (hexec : ServerOp.exec s (.oauth (.deletePushedRequest hash)) c = some (r, s'))
    (hc : (c.isDone || !s.oauth.par.contains hash) = true) : s'.oauth.par.get hash = none := by
  obtain ⟨c', hc', -, hs'⟩ := ServerOp.exec_oauth hexec
  rw [hs']
  cases c' with
  | done => exact Table.get_remove_self _ _
  | fault msg =>
      cases c with
      | fault _ =>
          change s.oauth.par.get hash = none
          simpa [ServerOutcome.isDone, Table.contains] using hc
      | _ => cases hc'

theorem par_exec_load {s s' : ServerStore} {c : ServerOutcome} {hash : String} {now : Nat}
    {stored : StoredPushedRequest}
    (hexec : ServerOp.exec s (.oauth (.getPushedRequest hash now)) c
      = some (.ok (some stored), s')) :
    s.oauth.getPushedRequest hash now = some stored ∧ s.oauth.par.get hash = some stored
      ∧ s'.oauth = s.oauth := by
  obtain ⟨c', -, hr, hs'⟩ := ServerOp.exec_oauth hexec
  cases c' with
  | fault msg => cases hr
  | done =>
      have hget : s.oauth.getPushedRequest hash now = some stored := (Except.ok.inj hr).symm
      exact ⟨hget, (Option.filter_eq_some_iff.mp hget).1, hs'⟩

theorem isDone_of_ok {s s' : ServerStore} {c : ServerOutcome} {o : OauthOp} {v : o.Value}
    (hexec : ServerOp.exec s (.oauth o) c = some (.ok v, s')) : c.isDone = true := by
  obtain ⟨c', hc', hr, -⟩ := ServerOp.exec_oauth hexec
  cases c with
  | done => rfl
  | fault msg =>
      obtain rfl := Option.some.inj hc'
      cases hr
  | _ => cases hc'

/-! ### Steps that concern the request -/

theorem Executes.submits_iff (hE : Executes state P P' i q o r) (hI : SingleInv state h P)
    {form : AuthorizeForm} (hform : (stageBefore state P i q).form = some form) :
    q = .authorizeSubmit form := by
  obtain ⟨k, htask, -⟩ := hE.before
  obtain ⟨p, hp⟩ := hI.forms i _ form hE.stageOf_self hform
  exact (Prod.mk.injEq .. |>.mp (Option.some.inj (htask.symm.trans hp))).1

theorem singleInv_push (hE : Executes state P P' i q o r) (hI : SingleInv state h P)
    {c : ServerOutcome} {stored : StoredPushedRequest}
    (hexec : o.exec P.store c = some (r, P'.store)) (ho : o = .oauth (.putPushedRequest stored))
    (hmoves : Moves state (stageBefore state P i q) o r .idle)
    (hnext : ServerOp.nextStage state (stageBefore state P i q) o r = .idle)
    (hpush : pushes h o r = true) (hcond : pushed h P = false) : SingleInv state h P' := by
  obtain ⟨hnone, hno, hnot⟩ := hI.fresh hcond
  have hstores : storesCode o r = false := by
    subst ho
    rfl
  have hnot' : ¬ UsedUp state h P' := by
    intro hused
    rcases hE.usedUp hused with hold | ⟨hcode, -⟩ | ⟨hden, -⟩
    · exact hnot hold
    · rw [hstores] at hcode
      cases hcode
    · rw [hnext] at hden
      cases hden
  refine ⟨hE.forms hI (hnext.symm ▸ hmoves), fun k req hget => ?_,
    fun j u form stored' hj hholds => ?_, fun hpushed => ?_, ?_, fun hused => absurd hused hnot'⟩
  · rcases par_exec hexec hget with hold | ⟨-, -, rfl⟩
    · exact hI.filed k req hold
    · rfl
  · rw [hE.stageOf, hnext] at hj
    split at hj
    · obtain rfl := Option.some.inj hj
      cases hholds
    · exact hI.held j u form stored' hj hholds
  · rw [hE.pushed, hpush, Bool.or_true] at hpushed
    cases hpushed
  · by_contra hgt
    exact hnot' (Or.inl (by omega))

theorem singleInv_load (hE : Executes state P P' i q o r) (hI : SingleInv state h P)
    {form : AuthorizeForm} {stored : StoredPushedRequest}
    (hstart : stageBefore state P i q = .loading form)
    (hnext : ServerOp.nextStage state (stageBefore state P i q) o r = .loaded form stored)
    (hmoves : Moves state (stageBefore state P i q) o r (.loaded form stored))
    (hstores : storesCode o r = false) (hhash : state.oauth.hashSecret form.requestUri = h)
    (hget : P.store.oauth.par.get h = some stored) (hstore : P'.store.oauth = P.store.oauth)
    (hcond : accepts state h q = true →
      others state P i (ServerStage.closing state h) = false) : SingleInv state h P' := by
  obtain rfl := hE.submits_iff hI (congrArg ServerStage.form hstart)
  have hused : UsedUp state h P' → UsedUp state h P := by
    intro hused
    rcases hE.usedUp hused with hold | ⟨hcode, -⟩ | ⟨hden, -⟩
    · exact hold
    · rw [hstores] at hcode
      cases hcode
    · rw [hnext] at hden
      cases hden
  refine ⟨hE.forms hI (hnext.symm ▸ hmoves), hstore ▸ hI.filed,
    fun j u form' stored' hj hholds => ?_, fun hpushed => ?_, ?_, fun hsp => ?_⟩
  · rw [hE.stageOf, hnext] at hj
    split at hj
    · obtain rfl := Option.some.inj hj
      obtain ⟨rfl, rfl⟩ := Prod.mk.injEq .. |>.mp (Option.some.inj hholds)
      exact (hI.filed h stored hget).trans hhash.symm
    · exact hI.held j u form' stored' hj hholds
  · rw [hE.pushed, Bool.or_eq_false_iff] at hpushed
    rw [(hI.fresh hpushed.1).1] at hget
    cases hget
  · rw [hE.codesFor, hstores, Bool.false_and, Bool.toNat_false, Nat.add_zero]
    exact hI.once
  · obtain ⟨hdec, hclose⟩ := hI.spent (hused hsp)
    obtain ⟨j, u, hj, hu⟩ := hclose stored hget
    have hne : j ≠ i := by
      rintro rfl
      obtain rfl := Option.some.inj (hE.stageOf_self.symm.trans hj)
      rw [hstart] at hu
      cases hu
    refine ⟨fun j' u' hj' => ?_, fun req hreq => ⟨j, u, ?_, hu⟩⟩
    · rw [hE.stageOf, hnext] at hj'
      split at hj'
      · obtain rfl := Option.some.inj hj'
        -- only a denial may have found it
        by_contra htrue
        have hothers := hcond (Bool.eq_true_of_not_eq_false htrue)
        rw [others_eq_true hj hne hu] at hothers
        cases hothers
      · exact hdec j' u' hj'
    · rw [hE.stageOf, if_neg hne]
      exact hj

/-- From here on no submission may store a code. -/
theorem not_deciding_after (hE : Executes state P P' i q o r)
    (hself : (ServerOp.nextStage state (stageBefore state P i q) o r).deciding state h = false)
    (hothers : others state P i (ServerStage.deciding state h) = false) (j : Nat)
    (u : ServerStage) (hj : stageOf state P' j = some u) : u.deciding state h = false := by
  rw [hE.stageOf] at hj
  split at hj
  · obtain rfl := Option.some.inj hj
    exact hself
  · rename_i hne
    by_contra htrue
    rw [others_eq_true hj hne (Bool.eq_true_of_not_eq_false htrue)] at hothers
    cases hothers

theorem singleInv_deny (hE : Executes state P P' i q o r) (hI : SingleInv state h P)
    {form : AuthorizeForm} {stored : StoredPushedRequest}
    (hstart : stageBefore state P i q = .loaded form stored)
    (hnext : ServerOp.nextStage state (stageBefore state P i q) o r = .denied)
    (hmoves : Moves state (stageBefore state P i q) o r .denied)
    (hstores : storesCode o r = false) (hhash : state.oauth.hashSecret form.requestUri = h)
    (hfiled : ∀ k req, P'.store.oauth.par.get k = some req → req.requestUriHash = k)
    (hnone : P'.store.oauth.par.get h = none)
    (hothers : others state P i (ServerStage.deciding state h) = false) :
    SingleInv state h P' := by
  refine ⟨hE.forms hI (hnext.symm ▸ hmoves), hfiled, fun j u form' stored' hj hholds => ?_,
    fun hpushed => ?_, ?_, fun _ => ⟨?_, fun req hreq => ?_⟩⟩
  · rw [hE.stageOf, hnext] at hj
    split at hj
    · obtain rfl := Option.some.inj hj
      cases hholds
    · exact hI.held j u form' stored' hj hholds
  · rw [hE.pushed, Bool.or_eq_false_iff] at hpushed
    have := (hI.fresh hpushed.1).2.1 i _ hE.stageOf_self
    rw [hstart] at this
    simp [ServerStage.touches, ServerStage.holds, hhash] at this
  · rw [hE.codesFor, hstores, Bool.false_and, Bool.toNat_false, Nat.add_zero]
    exact hI.once
  · exact not_deciding_after hE (by rw [hnext]; rfl) hothers
  · rw [hnone] at hreq
    cases hreq

theorem singleInv_mint (hE : Executes state P P' i q o r) (hI : SingleInv state h P)
    {form : AuthorizeForm} {stored : StoredPushedRequest} {did : String} {code : AuthCode}
    (hstart : stageBefore state P i q = .authenticated form stored did)
    (hnext : ServerOp.nextStage state (stageBefore state P i q) o r = .minted form stored code)
    (hmoves : Moves state (stageBefore state P i q) o r (.minted form stored code))
    (hhash : state.oauth.hashSecret form.requestUri = h)
    (hfiled : ∀ k req, P'.store.oauth.par.get k = some req → req.requestUriHash = k)
    (hothers : others state P i (ServerStage.deciding state h) = false) :
    SingleInv state h P' := by
  have hdeciding : (stageBefore state P i q).deciding state h = true := by
    rw [hstart]
    exact beq_iff_eq.mpr hhash
  have hnot : ¬ UsedUp state h P := by
    intro hused
    rw [(hI.spent hused).1 i _ hE.stageOf_self] at hdeciding
    cases hdeciding
  have hzero : codesFor state h P = 0 := by
    by_contra hne
    exact hnot (Or.inl (Nat.pos_of_ne_zero hne))
  have hnow : stageOf state P' i = some (.minted form stored code) := by
    rw [hE.stageOf, if_pos rfl, hnext]
  refine ⟨hE.forms hI (hnext.symm ▸ hmoves), hfiled, fun j u form' stored' hj hholds => ?_,
    fun hpushed => ?_, ?_, fun _ => ⟨?_, fun req hreq => ?_⟩⟩
  · rw [hE.stageOf, hnext] at hj
    split at hj
    · obtain rfl := Option.some.inj hj
      refine hI.held i _ form' stored' hE.stageOf_self ?_
      rw [hstart]
      exact hholds
    · exact hI.held j u form' stored' hj hholds
  · rw [hE.pushed, Bool.or_eq_false_iff] at hpushed
    have := (hI.fresh hpushed.1).2.1 i _ hE.stageOf_self
    rw [touches_of_deciding hdeciding] at this
    cases this
  · rw [hE.codesFor, hzero, Nat.zero_add]
    exact Bool.toNat_le _
  · exact not_deciding_after hE (by rw [hnext]; rfl) hothers
  · exact ⟨i, _, hnow, beq_iff_eq.mpr hhash⟩

theorem holds_of_waiting {t : ServerStage} (ht : t.waiting = true) : t.holds = none := by
  cases t <;> first | rfl | cases ht

theorem not_push_of_inert (hinert : Inert o r) (stored : StoredPushedRequest) :
    o ≠ .oauth (.putPushedRequest stored) := by
  rintro rfl
  exact hinert

theorem storesCode_of_inert (hinert : Inert o r) : storesCode o r = false := by
  by_contra hne
  rw [Bool.not_eq_false] at hne
  cases o with
  | oauth o =>
      cases o with
      | putAuthCode code =>
          cases r with
          | error e => cases hne
          | ok u => exact hinert
      | _ => cases hne
  | _ => cases hne

theorem deciding_of_stores {t t' : ServerStage} (hmoves : Moves state t o r t')
    (hstores : storesCode o r = true)
    (hq : ∀ {form}, t.form = some form → q = .authorizeSubmit form)
    (hsub : submits state h q = true) : t.deciding state h = true := by
  cases hmoves with
  | mint =>
      obtain rfl := hq rfl
      exact hsub
  | rest hinert hend =>
      rw [storesCode_of_inert hinert] at hstores
      cases hstores
  | _ => cases hstores

theorem not_inert_of_closing {t : ServerStage} (ht : t.closing state h = true)
    (hallowed : o.allowedIn state t) : ¬ Inert o r := by
  cases t with
  | minted q stored code =>
      cases o with
      | oauth o => cases o <;> first | exact id | exact hallowed.elim
      | account o => cases o <;> exact hallowed.elim
      | _ => exact hallowed.elim
  | _ => cases ht

/-- A step after which its task has no request loaded. -/
theorem singleInv_released (hE : Executes state P P' i q o r) (hI : SingleInv state h P)
    {c : ServerOutcome} (hexec : o.exec P.store c = some (r, P'.store)) {t t' : ServerStage}
    (ht : stageBefore state P i q = t) (ht' : ServerOp.nextStage state t o r = t')
    (hmoves : Moves state t o r t') (hpush : ∀ stored, o ≠ .oauth (.putPushedRequest stored))
    (hholds : t'.holds = none) (hcode : (storesCode o r && submits state h q) = false)
    (hdenied : t' = .denied → submits state h q = false)
    (hclosing : t.closing state h = true → P'.store.oauth.par.get h = none) :
    SingleInv state h P' := by
  have hkept := par_exec_of_not_push hpush hexec
  have hnot : t'.touches state h = false := not_touches_of_holds hholds
  refine singleInv_quiet hE hI ht ht' hmoves
    (fun key req hget => hI.filed key req (hkept key req hget)) (hkept h) (fun _ _ h' => ?_)
    hcode hdenied (fun h' => ?_) (fun h' => ?_) hclosing
  · rw [hholds] at h'
    cases h'
  · rw [hnot] at h'
    cases h'
  · rw [touches_of_deciding h'] at hnot
    cases hnot

/-- A step after which its task has the request of `t` loaded still. -/
theorem singleInv_retained (hE : Executes state P P' i q o r) (hI : SingleInv state h P)
    {c : ServerOutcome} (hexec : o.exec P.store c = some (r, P'.store)) {t t' : ServerStage}
    (ht : stageBefore state P i q = t) (ht' : ServerOp.nextStage state t o r = t')
    (hmoves : Moves state t o r t') (hpush : ∀ stored, o ≠ .oauth (.putPushedRequest stored))
    (hholds : t'.holds = t.holds) (hcode : (storesCode o r && submits state h q) = false)
    (hdenied : t' ≠ .denied)
    (hdeciding : t'.deciding state h = true → t.deciding state h = true)
    (hclosing : t.closing state h = false) : SingleInv state h P' := by
  have hkept := par_exec_of_not_push hpush hexec
  refine singleInv_quiet hE hI ht ht' hmoves
    (fun key req hget => hI.filed key req (hkept key req hget)) (hkept h)
    (fun form stored h' => ?_) hcode (fun h' => absurd h' hdenied) (fun h' => ?_) hdeciding
    (fun h' => ?_)
  · exact hI.held i t form stored (ht ▸ hE.stageOf_self) (hholds ▸ h')
  · rw [ServerStage.touches, ← hholds]
    exact h'
  · rw [hclosing] at h'
    cases h'

/-- A stage about the form `form` is that of a submission of it. -/
theorem Executes.submits_of_form (hE : Executes state P P' i q o r) (hI : SingleInv state h P)
    {t : ServerStage} {form : AuthorizeForm} (ht : stageBefore state P i q = t)
    (hform : t.form = some form) :
    submits state h q = (state.oauth.hashSecret form.requestUri == h) := by
  rw [hE.submits_iff hI (ht ▸ hform)]
  rfl

theorem singleInv_step_push {stored : StoredPushedRequest} {r : Except StorageError Unit}
    (hE : Executes state P P' i q (.oauth (.putPushedRequest stored)) r) (hI : SingleInv state h P)
    {c : ServerOutcome} (hexec : ServerOp.exec P.store (.oauth (.putPushedRequest stored)) c
      = some (r, P'.store)) {t : ServerStage} (ht : stageBefore state P i q = t)
    (ht' : ServerOp.nextStage state t (.oauth (.putPushedRequest stored)) r = .idle)
    (hmoves : Moves state t (.oauth (.putPushedRequest stored)) r .idle)
    (hclosing : t.closing state h = false)
    (hcond : exclusiveOp state h P i q c (.oauth (.putPushedRequest stored)) = true) :
    SingleInv state h P' := by
  subst ht
  cases hpush : pushes h (.oauth (.putPushedRequest stored)) r with
  | true =>
      refine singleInv_push hE hI hexec rfl hmoves ht' hpush ?_
      cases r with
      | error e => cases hpush
      | ok u =>
          have hhash : (stored.requestUriHash == h) = true := hpush
          simp only [exclusiveOp, hhash] at hcond
          simpa using hcond
  | false =>
      refine singleInv_quiet hE hI rfl ht' hmoves (fun key req hget => ?_) (fun req hget => ?_)
        (by intro _ _ h; cases h) rfl (by intro h; cases h) (by intro h; cases h)
        (by intro h; cases h) fun h' => ?_
      · rcases par_exec hexec hget with hold | ⟨-, -, rfl⟩
        · exact hI.filed key req hold
        · rfl
      · rcases par_exec hexec hget with hold | ⟨heq, hnew, -⟩
        · exact hold
        · rw [hpush] at hnew
          cases hnew
      · rw [hclosing] at h'
        cases h'

theorem singleInv_step_load {form : AuthorizeForm} {stored : StoredPushedRequest}
    (hE : Executes state P P' i q
      (.oauth (.getPushedRequest (state.oauth.hashSecret form.requestUri) form.loadNow))
      (.ok (some stored))) (hI : SingleInv state h P) {c : ServerOutcome}
    (hexec : ServerOp.exec P.store
      (.oauth (.getPushedRequest (state.oauth.hashSecret form.requestUri) form.loadNow)) c
      = some (.ok (some stored), P'.store)) (ht : stageBefore state P i q = .loading form)
    (hcond : exclusiveOp state h P i q c
      (.oauth (.getPushedRequest (state.oauth.hashSecret form.requestUri) form.loadNow)) = true) :
    SingleInv state h P' := by
  obtain ⟨hfound, hget, hstore⟩ := par_exec_load hexec
  by_cases hhash : state.oauth.hashSecret form.requestUri = h
  · refine singleInv_load hE hI ht (ht ▸ rfl) (ht ▸ .load) rfl hhash (hhash ▸ hget) hstore ?_
    intro haccepts
    simp only [exclusiveOp, haccepts, hfound] at hcond
    simpa using hcond
  · have htouches : (ServerStage.loaded form stored).touches state h = false :=
      beq_eq_false_iff_ne.mpr hhash
    have hnext : ServerOp.nextStage state (.loading form)
        (.oauth (.getPushedRequest (state.oauth.hashSecret form.requestUri) form.loadNow))
        (.ok (some stored)) = .loaded form stored := rfl
    refine singleInv_quiet hE hI ht hnext .load (hstore ▸ hI.filed) (fun req hreq => hstore ▸ hreq)
      ?_ rfl (by intro h; cases h) (fun h' => ?_) (fun h' => ?_) (by intro h; cases h)
    · intro form' stored' hholds
      obtain ⟨rfl, rfl⟩ := Prod.mk.injEq .. |>.mp (Option.some.inj hholds)
      exact hI.filed _ _ hget
    · rw [htouches] at h'
      cases h'
    · rw [touches_of_deciding h'] at htouches
      cases htouches

/-- The deletion a submission carries out is that of its own request. -/
theorem par_after_delete (hI : SingleInv state h P) {t : ServerStage} {form : AuthorizeForm}
    {stored : StoredPushedRequest} (hstage : stageOf state P i = some t)
    (hholds : t.holds = some (form, stored))
    (hhash : state.oauth.hashSecret form.requestUri = h) {s : ServerStore} {c : ServerOutcome}
    {r : Except StorageError Unit}
    (hexec : ServerOp.exec P.store (.oauth (.deletePushedRequest stored.requestUriHash)) c
      = some (r, s)) (hc : (c.isDone || !P.store.oauth.par.contains h) = true) :
    s.oauth.par.get h = none := by
  have hstored : stored.requestUriHash = h := (hI.held i t form stored hstage hholds).trans hhash
  rw [hstored] at hexec
  exact par_exec_delete hexec hc

theorem singleInv_step_deny {form : AuthorizeForm} {stored : StoredPushedRequest}
    {r : Except StorageError Unit}
    (hE : Executes state P P' i q (.oauth (.deletePushedRequest stored.requestUriHash)) r)
    (hI : SingleInv state h P) {c : ServerOutcome}
    (hexec : ServerOp.exec P.store (.oauth (.deletePushedRequest stored.requestUriHash)) c
      = some (r, P'.store)) (ht : stageBefore state P i q = .loaded form stored)
    (hdeny : form.action ≠ "accept")
    (hcond : exclusiveOp state h P i q c (.oauth (.deletePushedRequest stored.requestUriHash))
      = true) : SingleInv state h P' := by
  have hsubmits := hE.submits_of_form hI ht rfl
  have hnot : accepts state h q = false := by
    rw [hE.submits_iff hI (congrArg ServerStage.form ht)]
    simp [accepts, hdeny]
  have hpush : ∀ stored', ServerOp.oauth (.deletePushedRequest stored.requestUriHash)
      ≠ .oauth (.putPushedRequest stored') := fun _ hp => by cases hp
  simp only [exclusiveOp, hsubmits, hnot] at hcond
  by_cases hhash : state.oauth.hashSecret form.requestUri = h
  · simp only [hhash, beq_self_eq_true, Bool.not_true, Bool.false_or, Bool.and_eq_true] at hcond
    refine singleInv_deny hE hI ht (ht ▸ rfl) (ht ▸ .deny hdeny) rfl hhash ?_ ?_
      (by simpa using hcond.2)
    · exact fun key req hget => hI.filed key req (par_exec_of_not_push hpush hexec key req hget)
    · exact par_after_delete hI (ht ▸ hE.stageOf_self) rfl hhash hexec hcond.1
  · refine singleInv_released hE hI hexec ht rfl (.deny hdeny) hpush rfl rfl (fun _ => ?_)
      (by intro h; cases h)
    rw [hsubmits]
    exact beq_eq_false_iff_ne.mpr hhash

theorem singleInv_step_mint {form : AuthorizeForm} {stored : StoredPushedRequest} {did : String}
    (hE : Executes state P P' i q (.oauth (.putAuthCode (state.authCode stored did form))) (.ok ()))
    (hI : SingleInv state h P) {c : ServerOutcome}
    (hexec : ServerOp.exec P.store (.oauth (.putAuthCode (state.authCode stored did form))) c
      = some (.ok (), P'.store)) (ht : stageBefore state P i q = .authenticated form stored did)
    (hcond : exclusiveOp state h P i q c (.oauth (.putAuthCode (state.authCode stored did form)))
      = true) : SingleInv state h P' := by
  have hsubmits := hE.submits_of_form hI ht rfl
  have hpush : ∀ stored', ServerOp.oauth (.putAuthCode (state.authCode stored did form))
      ≠ .oauth (.putPushedRequest stored') := fun _ hp => by cases hp
  simp only [exclusiveOp, hsubmits, isDone_of_ok hexec] at hcond
  by_cases hhash : state.oauth.hashSecret form.requestUri = h
  · have hmoves : Moves state (stageBefore state P i q)
        (.oauth (.putAuthCode (state.authCode stored did form))) (.ok ())
        (.minted form stored (state.authCode stored did form)) := ht ▸ .mint
    refine singleInv_mint hE hI ht (ht ▸ rfl) hmoves hhash ?_ (by simpa [hhash] using hcond)
    exact fun key req hget => hI.filed key req (par_exec_of_not_push hpush hexec key req hget)
  · refine singleInv_retained hE hI hexec ht rfl .mint hpush rfl ?_ (by intro h; cases h)
      (by intro h; cases h) rfl
    rw [hsubmits, beq_eq_false_iff_ne.mpr hhash, Bool.and_false]

theorem singleInv_step_close {form : AuthorizeForm} {stored : StoredPushedRequest}
    {code : AuthCode} {r : Except StorageError Unit}
    (hE : Executes state P P' i q (.oauth (.deletePushedRequest stored.requestUriHash)) r)
    (hI : SingleInv state h P) {c : ServerOutcome}
    (hexec : ServerOp.exec P.store (.oauth (.deletePushedRequest stored.requestUriHash)) c
      = some (r, P'.store)) (ht : stageBefore state P i q = .minted form stored code)
    (hcond : exclusiveOp state h P i q c (.oauth (.deletePushedRequest stored.requestUriHash))
      = true) : SingleInv state h P' := by
  refine singleInv_released hE hI hexec ht rfl .close (fun _ hp => by cases hp) rfl rfl
    (by intro h; cases h) fun hclosing => ?_
  have hhash : state.oauth.hashSecret form.requestUri = h := beq_iff_eq.mp hclosing
  simp only [exclusiveOp, hE.submits_of_form hI ht rfl, hhash, beq_self_eq_true, Bool.not_true,
    Bool.false_or, Bool.and_eq_true] at hcond
  exact par_after_delete hI (ht ▸ hE.stageOf_self) rfl hhash hexec hcond.1

theorem singleInv_step_rest (hE : Executes state P P' i q o r) (hI : SingleInv state h P)
    {c : ServerOutcome} (hexec : o.exec P.store c = some (r, P'.store)) {t t' : ServerStage}
    (ht : stageBefore state P i q = t) (ht' : ServerOp.nextStage state t o r = t')
    (hallowed : o.allowedIn state t) (hinert : Inert o r)
    (hend : t' = .idle ∨ t' = .refused ∨ (t' = t ∧ t.waiting = true)) : SingleInv state h P' := by
  have hholds : t'.holds = none := by
    rcases hend with rfl | rfl | ⟨rfl, hwaiting⟩
    · rfl
    · rfl
    · exact holds_of_waiting hwaiting
  refine singleInv_released hE hI hexec ht ht' (.rest hinert hend) (not_push_of_inert hinert)
    hholds ?_ (fun hden => ?_) fun hclosing => ?_
  · rw [storesCode_of_inert hinert, Bool.false_and]
  · rcases hend with rfl | rfl | ⟨rfl, hwaiting⟩
    · cases hden
    · cases hden
    · rw [hden] at hwaiting
      cases hwaiting
  · exact absurd hinert (not_inert_of_closing hclosing hallowed)

/-- Every executed operation keeps the invariant, as long as it is exclusive. -/
theorem singleInv_step {k : o.Ret → AnswerProg} {s : ServerStore} {c : ServerOutcome}
    (hP : Pool.Followed (serverStages state) (startStage state) (EndsAs state) P)
    (hI : SingleInv state h P) (htask : P.tasks[i]? = some (q, .op o k))
    (hexec : o.exec P.store c = some (r, s)) (hcond : exclusive state h P (.step i c) = true)
    (hP' : Pool.Followed (serverStages state) (startStage state) (EndsAs state)
      ⟨P.toWorld.after i o r s, P.tasks.set i (q, k r)⟩) :
    SingleInv state h ⟨P.toWorld.after i o r s, P.tasks.set i (q, k r)⟩ := by
  have hE : Executes state P ⟨P.toWorld.after i o r s, P.tasks.set i (q, k r)⟩ i q o r :=
    ⟨⟨k, htask, rfl⟩, hP'⟩
  have hallowed : o.allowedIn state (stageBefore state P i q) := (hP.tasks i q _ htask).1
  have hmoves := moves_of_allowed hallowed r
  obtain ⟨t, ht⟩ : ∃ t, stageBefore state P i q = t := ⟨_, rfl⟩
  obtain ⟨t', ht'⟩ : ∃ t', ServerOp.nextStage state t o r = t' := ⟨_, rfl⟩
  rw [ht] at hmoves hallowed
  rw [ht'] at hmoves
  simp only [exclusive, htask] at hcond
  have hreleased := singleInv_released hE hI hexec ht ht' hmoves
  have hretained := singleInv_retained hE hI hexec ht ht' hmoves
  cases hmoves with
  | fetch | redeem | rotate | issueRedeemed | issueRotated =>
      exact hreleased (fun _ hp => by cases hp) rfl rfl (by intro h; cases h) (by intro h; cases h)
  | push haccepts => exact singleInv_step_push hE hI hexec ht ht' (.push haccepts) rfl hcond
  | load => exact singleInv_step_load hE hI hexec ht hcond
  | deny hdeny => exact singleInv_step_deny hE hI hexec ht hdeny hcond
  | authenticate haccept hverify =>
      refine hretained (fun _ hp => by cases hp) rfl rfl (by intro h; cases h) (fun h' => ?_) rfl
      simp only [ServerStage.deciding, haccept, beq_self_eq_true, Bool.and_true]
      exact h'
  | mint => exact singleInv_step_mint hE hI hexec ht hcond
  | close => exact singleInv_step_close hE hI hexec ht hcond
  | rest hinert hend => exact singleInv_step_rest hE hI hexec ht ht' hallowed hinert hend

/-! ## The system -/

/-- What a run whose steps are exclusive keeps. -/
structure OnceOnly (state : AppState Keypair) (h : String) (P : ServerPool Keypair) : Prop where
  followed : Pool.Followed (serverStages state) (startStage state) (EndsAs state) P
  inv : SingleInv state h P

theorem onceOnly_step {a : ServerAct Keypair} (hP : OnceOnly state h P)
    (hcond : exclusive state h P a = true) (hnext : serverStep state P a = some P') :
    OnceOnly state h P' := by
  have hP' := Pool.followed_next serverHandler_follows hP.followed hnext
  refine ⟨hP', ?_⟩
  rcases Pool.next_cases hnext with
    ⟨q, rfl, rfl⟩ | ⟨i, c, q, o, k, r, s, rfl, htask, hexec, rfl⟩
  · exact singleInv_start hP' hP.followed.tids hP.inv
  · exact singleInv_step hP.followed hP.inv htask hexec hcond hP'

theorem onceOnly_init {accounts : AccountStore} :
    OnceOnly state h (Pool.init ⟨accounts, OauthStore.empty⟩) := by
  have hnot : ¬ UsedUp state h (Pool.init ⟨accounts, OauthStore.empty⟩) := by
    rintro (hcodes | ⟨i, q, location, htask, -⟩)
    · exact absurd hcodes (by simp [Stelyph.codesFor, Pool.init])
    · simp [Pool.init] at htask
  have hstage : ∀ i t,
      Stelyph.stageOf state (Pool.init ⟨accounts, OauthStore.empty⟩) i ≠ some t := by
    intro i t hi
    simp [Stelyph.stageOf, Pool.stageAt, Pool.init] at hi
  refine ⟨⟨fun _ he => (List.not_mem_nil he).elim, fun i q p hi => by simp [Pool.init] at hi⟩,
    fun i t q hi => absurd hi (hstage i t), fun k req hget => ?_,
    fun i t q stored hi => absurd hi (hstage i t),
    fun _ => ⟨rfl, fun i t hi => absurd hi (hstage i t), hnot⟩, ?_,
    fun hused => absurd hused hnot⟩
  · cases hget
  · simp [Stelyph.codesFor, Pool.init]

/-- After a denial, no code is stored. -/
theorem codesFor_of_denied {a : ServerAct Keypair} (hP : OnceOnly state h P)
    (hden : Denied state h P) (hnext : serverStep state P a = some P') :
    Stelyph.codesFor state h P' = Stelyph.codesFor state h P ∧ Denied state h P' := by
  have hP' := Pool.followed_next serverHandler_follows hP.followed hnext
  obtain ⟨j, form, location, hj, hhash, hdeny⟩ := hden
  rcases Pool.next_cases hnext with
    ⟨q, rfl, rfl⟩ | ⟨i, c, q, o, k, r, s, rfl, htask, hexec, rfl⟩
  · refine ⟨codesFor_start hP.followed.tids q _, j, form, location, ?_, hhash, hdeny⟩
    exact List.getElem?_append_left (List.getElem?_eq_some_iff.mp hj).1 ▸ hj
  · have hE : Executes state P ⟨P.toWorld.after i o r s, P.tasks.set i (q, k r)⟩ i q o r :=
      ⟨⟨k, htask, rfl⟩, hP'⟩
    have hne : i ≠ j := by
      rintro rfl
      rw [htask] at hj
      cases hj
    refine ⟨?_, j, form, location, (List.getElem?_set_ne hne).trans hj, hhash, hdeny⟩
    rw [hE.codesFor]
    cases hb : storesCode o r && submits state h q with
    | false => rfl
    | true =>
        obtain ⟨hstores, hsub⟩ := (Bool.and_eq_true _ _).mp hb
        have hdec := (hP.inv.spent (Or.inr ⟨j, form, location, hj, hhash, hdeny⟩)).1 i _
          hE.stageOf_self
        have hmoves : Moves state (stageBefore state P i q) o r _ :=
          moves_of_allowed (hP.followed.tasks i q _ htask).1 r
        rw [deciding_of_stores hmoves hstores (hE.submits_iff hP.inv) hsub] at hdec
        cases hdec

/-- **One code for one pushed request.** In every run all of whose steps
are exclusive, at most one code is stored for the request, and none after
a denial was answered. A submission that may still store a code is found
by its stage, so what has to be kept out is another one between its load
and its deletion. -/
theorem single_code {state : AppState Keypair} {accounts : AccountStore} {h : String}
    {as : List (ServerAct Keypair)} {P : ServerPool Keypair}
    (hcond : Steps.Along (serverStep state) (fun P a => exclusive state h P a = true)
      (Pool.init ⟨accounts, OauthStore.empty⟩) as)
    (hrun : Steps.run (serverStep state) (Pool.init ⟨accounts, OauthStore.empty⟩) as = some P) :
    codesFor state h P ≤ 1 ∧ ∀ pre post Q, as = pre ++ post →
      Steps.run (serverStep state) (Pool.init ⟨accounts, OauthStore.empty⟩) pre = some Q →
      Denied state h Q → codesFor state h P = codesFor state h Q := by
  refine ⟨(Steps.run_inv_along (fun _ _ _ => onceOnly_step) onceOnly_init hcond hrun).inv.once,
    fun pre post Q has hpre hden => ?_⟩
  subst has
  obtain ⟨hcondPre, hcondPost⟩ := Steps.along_append.mp hcond
  obtain ⟨Q', hpre', hpost⟩ := Steps.run_append_eq_some.mp hrun
  obtain rfl := Option.some.inj (hpre.symm.trans hpre')
  have hQ := Steps.run_inv_along (fun _ _ _ => onceOnly_step) onceOnly_init hcondPre hpre
  have hkeep := Steps.run_inv_along (I := fun R => OnceOnly state h R ∧ Denied state h R
    ∧ codesFor state h R = codesFor state h Q) ?_ ⟨hQ, hden, rfl⟩ (hcondPost Q hpre) hpost
  · exact hkeep.2.2
  · rintro R a R' ⟨hR, hdenR, hcodes⟩ ha hnext
    obtain ⟨hsame, hden'⟩ := codesFor_of_denied hR hdenR hnext
    exact ⟨onceOnly_step hR ha hnext, hden', hsame.trans hcodes⟩

end

/-! ### Two submissions at once -/

def sampleApp : AppState Nat where
  server := sampleServer
  oauth := sampleOauth
  parseUrl raw := .ok {
    text := raw, scheme := "https", username := "", password := none
    host := some (.domain "app.test"), port := none, path := "/client", query := none
    queryPairs := [], fragment := none }
  parseMetadata _ := .ok {
    clientId := "https://app.test/client", clientName := none
    redirectUris := ["https://app.test/callback"]
    grantTypes := ["authorization_code", "refresh_token"], responseTypes := ["code"]
    scope := "atproto", tokenEndpointAuthMethod := "none", dpopBoundAccessTokens := true
    jwksUri := none, jwks := none }
  decodeJwt token := .ok ⟨token, "com.atproto.refresh"⟩

def sampleMembers : AccountStore where
  accounts := [{
    did := "did:plc:alice", handle := some "alice.pds.test", email := none
    passwordPhc := "salt$correct horse", deactivatedAt := none, takedownRef := none }]
  invites := []
  inviteUses := []
  keys := []

def samplePar : ServerRequest Nat :=
  .par {
    form := {
      clientId := "https://app.test/client", responseType := "code"
      redirectUri := some "https://app.test/callback", scope := some "atproto"
      state := some "s1", codeChallenge := some sampleCodeVerifier
      codeChallengeMethod := some "S256", loginHint := none }
    dpopHeader := none, dpopNow := 1000, handle := "p0", validateNow := 1000
    expiresNow := 1000 }

def sampleSubmit (action code : String) : ServerRequest Nat :=
  .authorizeSubmit {
    requestUri := "urn:ietf:params:oauth:request_uri:p0", username := "@Alice.pds.test"
    password := "correct horse", action := action, loadNow := 1010, code := code
    codeNow := 1010 }

/-- The client's document is fetched and the request stored. -/
def samplePushed : List (ServerAct Nat) :=
  [.start samplePar, .step 0 (.response ⟨200, "OK", none, .ok []⟩), .step 0 .done]

/-- Two submissions that both load the request before either stores its
code. -/
def sampleOverlap : List (ServerAct Nat) :=
  samplePushed ++ [.start (sampleSubmit "accept" "c0"), .start (sampleSubmit "accept" "c1"),
    .step 1 .done, .step 2 .done, .step 1 .done, .step 2 .done, .step 1 .done, .step 2 .done,
    .step 1 .done, .step 2 .done]

def samplePushedHash : String := "hash:urn:ietf:params:oauth:request_uri:p0"

/-- An acceptance that loads the request before a denial deletes it. -/
def sampleDenied : List (ServerAct Nat) :=
  samplePushed ++ [.start (sampleSubmit "accept" "c0"), .start (sampleSubmit "deny" "c1"),
    .step 1 .done, .step 2 .done, .step 2 .done]

def sampleStart : ServerPool Nat := Pool.init ⟨sampleMembers, OauthStore.empty⟩

/-- Whether a task has answered a denial of the pushed request. -/
def answeredDenial : ServerRequest Nat × AnswerProg → Bool
  | (.authorizeSubmit q, .ret (.authorize (.redirect _))) =>
      sampleApp.oauth.hashSecret q.requestUri == samplePushedHash && q.action != "accept"
  | _ => false

/-- Two codes for one request, and a code after a denial. -/
theorem overlap_mints_twice :
    (¬ ∀ (state : AppState Nat) (accounts : AccountStore) (h : String)
      (as : List (ServerAct Nat)) (P : ServerPool Nat),
      Steps.run (serverStep state) (Pool.init ⟨accounts, OauthStore.empty⟩) as = some P →
        codesFor state h P ≤ 1)
    ∧ ¬ ∀ (state : AppState Nat) (accounts : AccountStore) (h : String)
      (pre post : List (ServerAct Nat)) (Q P : ServerPool Nat),
      Steps.run (serverStep state) (Pool.init ⟨accounts, OauthStore.empty⟩) pre = some Q →
      Steps.run (serverStep state) (Pool.init ⟨accounts, OauthStore.empty⟩) (pre ++ post)
        = some P → Denied state h Q → codesFor state h P = codesFor state h Q := by
  constructor
  · intro h
    have htwo : (Steps.run (serverStep sampleApp) sampleStart sampleOverlap).map
        (codesFor sampleApp samplePushedHash) = some 2 := by decide +kernel
    obtain ⟨P, hrun, hP⟩ := Option.map_eq_some_iff.mp htwo
    have := h sampleApp sampleMembers samplePushedHash sampleOverlap P hrun
    omega
  · intro h
    have hnone : (Steps.run (serverStep sampleApp) sampleStart sampleDenied).map
        (fun P => (codesFor sampleApp samplePushedHash P,
          P.tasks[2]?.map answeredDenial)) = some (0, some true) := by decide +kernel
    have hone : (Steps.run (serverStep sampleApp) sampleStart
        (sampleDenied ++ [.step 1 .done, .step 1 .done])).map
          (codesFor sampleApp samplePushedHash) = some 1 := by decide +kernel
    obtain ⟨Q, hQ, heq⟩ := Option.map_eq_some_iff.mp hnone
    obtain ⟨hzero, htask⟩ := Prod.mk.injEq .. |>.mp heq
    obtain ⟨P, hrun, hP⟩ := Option.map_eq_some_iff.mp hone
    obtain ⟨t, hget, hdenied⟩ := Option.map_eq_some_iff.mp htask
    have hden : Denied sampleApp samplePushedHash Q := by
      unfold answeredDenial at hdenied
      split at hdenied
      · rename_i form location
        simp only [Bool.and_eq_true, beq_iff_eq, bne_iff_ne] at hdenied
        exact ⟨2, form, location, hget, hdenied.1, hdenied.2⟩
      · cases hdenied
    have := h sampleApp sampleMembers samplePushedHash sampleDenied _ Q P hQ hrun hden
    omega

/-- One submission after the other: the second one finds nothing. -/
def sampleInTurn : List (ServerAct Nat) :=
  samplePushed ++ [.start (sampleSubmit "accept" "c0"), .step 1 .done, .step 1 .done,
    .step 1 .done, .step 1 .done, .start (sampleSubmit "accept" "c1"), .step 2 .done]

theorem sampleInTurn_single : ∃ P : ServerPool Nat,
    Steps.run (serverStep sampleApp) sampleStart sampleInTurn = some P
    ∧ codesFor sampleApp samplePushedHash P = 1
    ∧ codesFor sampleApp samplePushedHash P ≤ 1 := by
  have hone : (Steps.run (serverStep sampleApp) sampleStart sampleInTurn).map
      (codesFor sampleApp samplePushedHash) = some 1 := by decide +kernel
  obtain ⟨P, hrun, hP⟩ := Option.map_eq_some_iff.mp hone
  exact ⟨P, hrun, hP, (single_code (by decide +kernel) hrun).1⟩

end Stelyph
