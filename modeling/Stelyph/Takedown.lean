import Stelyph.Lib.Budget
import Stelyph.RefreshHolder
import Stelyph.SingleCode

/-!
# Takedown

The lookups by handle and by DID do not find an account that is taken
down, and every session and every authorization begins with one of them.
The token endpoint never looks: a code or a refresh token of the account
is redeemed as before. And a request that found the account before the
takedown may be answered after it.

So a takedown is as good as the store and the requests let it be: no
request may present a code or refresh token of the account that is still
there and that it passes the checks of, and none that has found the
account may be unanswered when the takedown takes effect. In every run
that keeps to this the account is silent (`takedown_silences`).
-/

namespace Stelyph

/-! ## The accounts table -/

/-- The account is there, and hidden. -/
def AccountStore.TakenDown (did : String) (s : AccountStore) : Prop :=
  (∃ a ∈ s.accounts, a.did = did) ∧ ∀ a ∈ s.accounts, a.did = did → a.takedownRef.isSome = true

/-- The operator's command has hidden the account. -/
def takesDown (did : String) : OpPred serverSig
  | .setTakedown d _ _, .ok n => d == did && n != 0
  | _, _ => false

def clears (did : String) : OpPred serverSig
  | .clearTakedown d, .ok _ => d == did
  | _, _ => false

/-- A lookup that found the account. -/
def looksUp (did : String) : OpPred serverSig
  | .account (.getAccountByHandle _), .ok (some (d, _)) => d == did
  | .getHandleByDid d, .ok (some _) => d == did
  | _, _ => false

/-- The request passes what is checked of it once it has redeemed the code:
client, redirect URI, verifier, key and scope. -/
def TokenRequest.fitsCode (cfg : OauthConfig) (q : TokenRequest) (code : AuthCode) : Bool :=
  code.clientId == q.form.clientId && q.form.redirectUri == some code.redirectUri
    && (q.form.codeVerifier.any fun v =>
      (verifyChallenge cfg.dpop.jose code.codeChallenge v).isOk)
    && (code.dpopJkt.all fun jkt => q.proofKey cfg == some jkt)
    && (Scope.parse code.scope).isOk

/-- The same of a refresh token: client, key and scope. -/
def TokenRequest.fitsToken (cfg : OauthConfig) (q : TokenRequest) (rec : RefreshTokenRecord) :
    Bool :=
  rec.clientId == q.form.clientId && q.proofKey cfg == some rec.dpopJkt
    && (refreshedScope q rec).isOk

section

variable {Keypair : Type} (cfg : OauthConfig) (did : String)

/-- A code or a refresh token of the account is redeemed by a request that
passes its checks. -/
def redeems (q : ServerRequest Keypair) : OpPred serverSig := fun o r =>
  match q, o, r with
  | .token q, .oauth (.consumeAuthCode _ _), .ok (some code) =>
      code.did == did && q.fitsCode cfg code
  | .token q, .oauth (.consumeRefreshToken _ _), .ok (.consumed rec) =>
      rec.did == did && q.fitsToken cfg rec
  | _, _, _ => false

/-- All the ways a request comes upon the account. -/
def finds (q : ServerRequest Keypair) : OpPred serverSig :=
  fun o r => looksUp did o r || redeems cfg did q o r

/-- The account of the code or the refresh token that an operation is about
to redeem: one that is there and live, and that the request passes the
checks of. -/
def spends (s : OauthStore) (q : ServerRequest Keypair) (o : ServerOp) : Option String :=
  match q, o with
  | .token q, .oauth (.consumeAuthCode hash now) =>
      ((s.liveCode hash now).filter fun code => q.fitsCode cfg code).map fun code => code.did
  | .token q, .oauth (.consumeRefreshToken hash now) =>
      ((s.liveToken hash now).filter fun rec => q.fitsToken cfg rec).map fun rec => rec.did
  | _, _ => none

variable {cfg} {did}

theorem spends_of_redeems {q : ServerRequest Keypair} {o : ServerOp} {c : ServerOutcome}
    {r : o.Ret} {s s' : ServerStore} (hexec : o.exec s c = some (r, s'))
    (h : redeems cfg did q o r = true) : c.isDone = true ∧ spends cfg s.oauth q o = some did := by
  cases q with
  | token q =>
      cases o with
      | oauth o =>
          obtain ⟨c', hc, rfl, -⟩ := ServerOp.exec_oauth hexec
          have hdone : c' = .done := by
            cases c' with
            | done => rfl
            | fault msg => cases o <;> cases h
          subst hdone
          have hdone : c.isDone = true := by
            cases c <;> first | rfl | cases hc
          refine ⟨hdone, ?_⟩
          cases o with
          | consumeAuthCode hash now =>
              cases hlive : s.oauth.liveCode hash now with
              | none =>
                  have hnone : (s.oauth.consumeAuthCode hash now).1 = none := hlive
                  simp [redeems, OauthOp.exec, OauthOp.apply, hnone] at h
              | some code =>
                  have hsome : (s.oauth.consumeAuthCode hash now).1 = some code := hlive
                  simp only [redeems, OauthOp.exec, OauthOp.apply, hsome, Bool.and_eq_true,
                    beq_iff_eq] at h
                  simp [spends, hlive, Option.filter, h.1, h.2]
          | consumeRefreshToken hash now =>
              cases hconsumed : (s.oauth.consumeRefreshToken hash now).1 with
              | consumed rec =>
                  have hlive := OauthStore.liveToken_of_consumeRefreshToken hconsumed
                  simp only [redeems, OauthOp.exec, OauthOp.apply, hconsumed, Bool.and_eq_true,
                    beq_iff_eq] at h
                  simp [spends, hlive, Option.filter, h.1, h.2]
              | reused sessionId => simp [redeems, OauthOp.exec, OauthOp.apply, hconsumed] at h
              | notFound => simp [redeems, OauthOp.exec, OauthOp.apply, hconsumed] at h
          | _ => cases h
      | account o => cases o <;> cases h
      | _ => cases h
  | _ => cases h

end

namespace AccountStore

theorem not_active_of_takenDown {s : AccountStore} {did : String} (h : s.TakenDown did)
    {a : Account} (ha : a ∈ s.accounts) (hactive : a.takedownRef.isNone = true) : a.did ≠ did := by
  intro hdid
  have := h.2 a ha hdid
  cases href : a.takedownRef <;> simp [href] at this hactive

theorem did_of_getAccountByHandle {s : AccountStore} {did d handle phc : String}
    (h : s.TakenDown did) (hget : s.getAccountByHandle handle = some (d, phc)) : d ≠ did := by
  obtain ⟨a, hactive, heq⟩ := Option.map_eq_some_iff.mp hget
  obtain ⟨rfl, -⟩ := Prod.mk.injEq .. |>.mp heq
  obtain ⟨hfind, hfilter⟩ := Option.filter_eq_some_iff.mp hactive
  exact not_active_of_takenDown h (List.mem_of_find?_eq_some hfind)
    ((Bool.and_eq_true _ _).mp hfilter).2

theorem did_of_getHandleByDid {s : AccountStore} {did d handle : String} (h : s.TakenDown did)
    (hget : s.getHandleByDid d = some handle) : d ≠ did := by
  obtain ⟨a, hactive, -⟩ := Option.bind_eq_some_iff.mp hget
  obtain ⟨hfind, hfilter⟩ := Option.filter_eq_some_iff.mp hactive
  have hdid : a.did = d :=
    beq_iff_eq.mp (List.find?_some (p := fun a : Account => a.did == d) hfind)
  rw [← hdid]
  exact not_active_of_takenDown h (List.mem_of_find?_eq_some hfind)
    ((Bool.and_eq_true _ _).mp hfilter).2

theorem takenDown_modifyAccount {s : AccountStore} {did d : String} {f : Account → Account}
    (h : s.TakenDown did) (hdid : ∀ a, (f a).did = a.did)
    (hdown : d = did → ∀ a, a.takedownRef.isSome = true → (f a).takedownRef.isSome = true) :
    (s.modifyAccount d f).2.TakenDown did := by
  obtain ⟨⟨a, ha, hadid⟩, hall⟩ := h
  refine ⟨⟨_, List.mem_map_of_mem ha, ?_⟩, fun b hb hbdid => ?_⟩
  · split
    · exact (hdid a).trans hadid
    · exact hadid
  · obtain ⟨a', ha', rfl⟩ := List.mem_map.mp hb
    split at hbdid
    · rename_i hd
      rw [if_pos hd]
      rw [hdid] at hbdid
      refine hdown ?_ a' (hall a' ha' hbdid)
      exact (beq_iff_eq.mp hd).symm.trans hbdid
    · rename_i hd
      rw [if_neg hd]
      exact hall a' ha' hbdid

theorem takenDown_setTakedown {s : AccountStore} {did reference now : String}
    (h : (s.setTakedown did reference now).1 ≠ 0) :
    (s.setTakedown did reference now).2.TakenDown did := by
  obtain ⟨a, ha, hadid⟩ := List.countP_pos_iff.mp (Nat.pos_of_ne_zero h)
  refine ⟨⟨_, List.mem_map_of_mem ha, ?_⟩, fun b hb hbdid => ?_⟩
  · rw [if_pos hadid]
    exact beq_iff_eq.mp hadid
  · obtain ⟨a', -, rfl⟩ := List.mem_map.mp hb
    split
    · rfl
    · rename_i hd
      rw [if_neg hd] at hbdid
      exact absurd (beq_iff_eq.mpr hbdid) hd

/-- A new row is of another account. -/
theorem takenDown_countAndInsertAccount {s t : AccountStore} {did d handle phc : String}
    {email : Option String} {n : Nat} (h : s.TakenDown did)
    (hins : s.countAndInsertAccount d handle email phc = .ok (n, t)) : t.TakenDown did := by
  unfold countAndInsertAccount at hins
  unfold insertAccountLocked at hins
  split at hins
  · cases hins
  · rename_i hfresh
    split at hins
    · cases hins
    · obtain ⟨-, rfl⟩ := Prod.mk.injEq .. |>.mp (Except.ok.inj hins)
      obtain ⟨⟨a, ha, hadid⟩, hall⟩ := h
      refine ⟨⟨a, List.mem_append_left _ ha, hadid⟩, fun b hb hbdid => ?_⟩
      rcases List.mem_append.mp hb with hb | hb
      · exact hall b hb hbdid
      · rw [List.mem_singleton.mp hb] at hbdid
        have hd : d = did := hbdid
        refine absurd (List.any_eq_true.mpr ⟨a, ha, ?_⟩) hfresh
        exact beq_iff_eq.mpr (hadid.trans hd.symm)

end AccountStore

/-- No account call but the operator's changes who is hidden. -/
theorem AccountOp.takenDown_exec {s s' : AccountStore} {o : AccountOp} {c : Outcome} {r : o.Ret}
    {did : String} (h : s.TakenDown did) (hexec : AccountOp.exec s o c = some (r, s')) :
    s'.TakenDown did := by
  have hsame : s'.accounts = s.accounts → s'.TakenDown did := by
    intro heq
    rw [AccountStore.TakenDown, heq]
    exact h
  cases o with
  | countAndInsertAccount d handle email phc =>
      cases c with
      | done =>
          simp only [AccountOp.exec] at hexec
          split at hexec
          · rename_i n t hins
            obtain ⟨-, rfl⟩ := Prod.mk.injEq .. |>.mp (Option.some.inj hexec)
            exact AccountStore.takenDown_countAndInsertAccount h hins
          · obtain ⟨-, rfl⟩ := Prod.mk.injEq .. |>.mp (Option.some.inj hexec)
            exact h
      | fault msg => cases hexec; exact h
      | document id => cases hexec
  | consumeInvite code usedBy =>
      cases c <;> cases hexec
      · exact hsame (s.consumeInvite_accounts code usedBy)
      · exact h
  | _ => cases c <;> cases hexec <;> exact hsame rfl

theorem ServerOp.takenDown_exec {s s' : ServerStore} {o : ServerOp} {c : ServerOutcome} {r : o.Ret}
    {did : String} (h : s.accounts.TakenDown did) (hexec : o.exec s c = some (r, s'))
    (hclears : clears did o r = false) : s'.accounts.TakenDown did := by
  cases o with
  | oauth o =>
      obtain ⟨c', -, heq⟩ := Option.map_eq_some_iff.mp hexec
      obtain ⟨-, rfl⟩ := Prod.mk.injEq .. |>.mp heq
      exact h
  | account o =>
      obtain ⟨⟨r', t⟩, hacc, heq⟩ := Option.map_eq_some_iff.mp hexec
      obtain ⟨rfl, rfl⟩ := Prod.mk.injEq .. |>.mp heq
      obtain ⟨c', -, hacc⟩ := Option.bind_eq_some_iff.mp hacc
      exact AccountOp.takenDown_exec h hacc
  | updatePassword d phc =>
      cases c <;> cases hexec
      · exact AccountStore.takenDown_modifyAccount h (fun _ => rfl) fun _ _ ha => ha
      · exact h
  | setTakedown d reference now =>
      cases c <;> cases hexec
      · exact AccountStore.takenDown_modifyAccount h (fun _ => rfl) fun _ _ _ => rfl
      · exact h
  | clearTakedown d =>
      cases c <;> cases hexec
      · refine AccountStore.takenDown_modifyAccount h (fun _ => rfl) fun hd => ?_
        exact absurd (beq_iff_eq.mpr hd) (Bool.eq_false_iff.mp hclears)
      · exact h
  | getDidByHandle _ | getHandleByDid _ | joinBlocking | fetch _ =>
      cases c <;> cases hexec <;> exact h

theorem ServerOp.takenDown_of_takesDown {s s' : ServerStore} {o : ServerOp} {c : ServerOutcome}
    {r : o.Ret} {did : String} (htakes : takesDown did o r = true)
    (hexec : o.exec s c = some (r, s')) : s'.accounts.TakenDown did := by
  cases o with
  | setTakedown d reference now =>
      cases c <;> cases hexec
      · obtain ⟨hd, hn⟩ := (Bool.and_eq_true _ _).mp htakes
        obtain rfl := beq_iff_eq.mp hd
        exact AccountStore.takenDown_setTakedown (bne_iff_ne.mp hn)
      · cases htakes
  | oauth o => cases o <;> cases htakes
  | account o => cases o <;> cases htakes
  | _ => cases htakes

/-- The lookups do not find a hidden account. -/
theorem ServerOp.not_looksUp {s s' : ServerStore} {o : ServerOp} {c : ServerOutcome}
    {r : o.Ret} {did : String} (h : s.accounts.TakenDown did) (hexec : o.exec s c = some (r, s')) :
    looksUp did o r = false := by
  cases o with
  | account o =>
      obtain ⟨⟨r', t⟩, hacc, heq⟩ := Option.map_eq_some_iff.mp hexec
      obtain ⟨rfl, rfl⟩ := Prod.mk.injEq .. |>.mp heq
      obtain ⟨c', -, hacc⟩ := Option.bind_eq_some_iff.mp hacc
      cases o with
      | getAccountByHandle handle =>
          cases c' with
          | done =>
              obtain ⟨rfl, rfl⟩ := Prod.mk.injEq .. |>.mp (Option.some.inj hacc)
              cases hget : s.accounts.getAccountByHandle handle with
              | none => simp [looksUp]
              | some row =>
                  simp only [looksUp, beq_eq_false_iff_ne]
                  exact AccountStore.did_of_getAccountByHandle h hget
          | fault msg => cases hacc; rfl
          | document id => cases hacc
      | _ => rfl
  | getHandleByDid d =>
      cases c <;> cases hexec
      · cases hget : s.accounts.getHandleByDid d with
        | none => simp [looksUp]
        | some handle =>
            simp only [looksUp, beq_eq_false_iff_ne]
            exact AccountStore.did_of_getHandleByDid h hget
      · rfl
  | _ => rfl

theorem setTakedown_of_takesDown {s s' : ServerStore} {o : ServerOp} {c : ServerOutcome}
    {r : o.Ret} {did : String} (hexec : o.exec s c = some (r, s')) (h : takesDown did o r = true) :
    c.isDone = true ∧ ∃ reference now, o = .setTakedown did reference now := by
  cases o with
  | setTakedown d reference now =>
      cases c <;> cases hexec
      · obtain rfl := beq_iff_eq.mp ((Bool.and_eq_true _ _).mp h).1
        exact ⟨rfl, reference, now, rfl⟩
      · cases h
  | oauth o => cases o <;> cases h
  | account o => cases o <;> cases h
  | _ => cases h

theorem not_finds_setTakedown {Keypair : Type} {cfg : OauthConfig} {did d reference now : String}
    {q : ServerRequest Keypair} {r : (ServerOp.setTakedown d reference now).Ret} :
    finds cfg did q (.setTakedown d reference now) r = false := by
  cases q <;> rfl

/-! ## Credentials -/

/-- A new session, new tokens or a new code of the account. -/
def ServerAnswer.credentialsFor (did : String) : ServerAnswer → Bool
  | .session r => r.did == did
  | .tokens r => r.sub == did
  | .authorize (.granted _ record) => record.did == did
  | _ => false

/-- The request will not be answered with credentials of the account,
unless it finds the account. -/
def Clear {Keypair : Type} (state : AppState Keypair) (did : String) (req : ServerRequest Keypair)
    (p : AnswerProg) : Prop :=
  p.Always (fun o r => finds state.oauth did req o r = false)
    fun x => ∀ a, x = .ok a → a.credentialsFor did = false

section

variable {Keypair : Type} {state : AppState Keypair} {did : String} {req : ServerRequest Keypair}
  {ε α : Type}

/-- An answer that is about some other account. -/
abbrev Unfound (state : AppState Keypair) (did : String) (req : ServerRequest Keypair)
    (post : Except ε α → Prop) (p : ServerProg ε α) : Prop :=
  p.Always (fun o r => finds state.oauth did req o r = false) post

theorem clear_answer {p : ServerProg ε α} {wrap : α → ServerAnswer} {f : ε → ServerError}
    (h : Unfound state did req (fun x => ∀ a, x = .ok a → (wrap a).credentialsFor did = false) p) :
    Clear state did req (answer wrap f p) := by
  refine Prog.Always.bind (Prog.Always.mapError (h.mono fun x hx => ?_))
  cases x with
  | error e => exact fun _ h => nomatch h
  | ok a =>
      intro b hb
      obtain rfl := Except.ok.inj hb
      exact hx a rfl

theorem unfound_error {e : ε} {post : α → Prop} : ∀ a, (.error e : Except ε α) = .ok a → post a :=
  fun _ h => nomatch h

theorem unfound_bind {β : Type} {f : α → ServerProg ε β} {mid : α → Prop} {post : β → Prop}
    {p : ServerProg ε α} (hp : Unfound state did req (fun x => ∀ a, x = .ok a → mid a) p)
    (hf : ∀ a, mid a → Unfound state did req (fun x => ∀ b, x = .ok b → post b) (f a)) :
    Unfound state did req (fun x => ∀ b, x = .ok b → post b) (p.bind f) := by
  refine Prog.Always.bind (hp.mono fun x hx => ?_)
  cases x with
  | error e => exact unfound_error
  | ok a => exact hf a (hx a rfl)

theorem unfound_ofExcept_bind {β ε' : Type} {g : ε' → ε} {x : Except ε' α}
    {f : α → ServerProg ε β} {post : β → Prop}
    (hf : ∀ a, Unfound state did req (fun x => ∀ b, x = .ok b → post b) (f a)) :
    Unfound state did req (fun x => ∀ b, x = .ok b → post b)
      ((Prog.ofExcept g x : ServerProg ε α).bind f) := by
  cases x with
  | error e => exact unfound_error
  | ok a => exact hf a

/-! ### Sessions -/

theorem ne_of_not_finds_handle {identifier d phc : String}
    (h : finds state.oauth did req (.account (.getAccountByHandle identifier))
      (.ok (some (d, phc))) = false) :
    (d == did) = false :=
  (Bool.or_eq_false_iff.mp h).1

theorem clear_createSession (identifier password : String) (now : Nat) :
    Clear state did req (serverHandler state (.createSession identifier password now)) := by
  refine clear_answer fun found hfound => ?_
  rcases found with e | (_ | ⟨d, phc⟩)
  · exact unfound_error
  · exact unfound_error
  · intro joined _
    refine unfound_ofExcept_bind fun _ => unfound_ofExcept_bind fun verified => ?_
    split
    · exact unfound_error
    · refine unfound_ofExcept_bind fun access => unfound_ofExcept_bind fun refresh => ?_
      intro r hr
      obtain rfl := Except.ok.inj hr
      exact ne_of_not_finds_handle hfound

theorem clear_refreshSession (parts : XrpcParts) (now : Nat) :
    Clear state did req (serverHandler state (.refreshSession parts now)) := by
  refine clear_answer (unfound_ofExcept_bind fun d found hfound => ?_)
  rcases found with e | (_ | handle)
  · exact unfound_error
  · exact unfound_error
  · have hd : (d == did) = false := (Bool.or_eq_false_iff.mp hfound).1
    change Unfound state did req _ (Prog.bind (Prog.ofExcept XrpcError.ofCore
      (state.server.encodeAccessJwt d now)) _)
    refine unfound_ofExcept_bind fun access => unfound_ofExcept_bind fun refresh => ?_
    intro r hr
    obtain rfl := Except.ok.inj hr
    exact hd

/-! ### Authorization -/

theorem unfound_loadRequest (requestUri : String) (now : Nat) :
    Unfound state did req (fun x => ∀ loaded, x = .ok loaded →
      ∀ page, loaded = .error page → (ServerAnswer.authorize page).credentialsFor did = false)
      (state.loadRequest requestUri now) := by
  rw [AppState.loadRequest]
  split
  · rintro loaded hloaded page rfl
    cases hloaded
    rfl
  · intro found _
    rcases found with e | (_ | stored) <;>
    · rintro loaded hloaded page rfl
      cases hloaded
      try rfl

theorem unfound_renderPage (requestUri : String) (stored : StoredPushedRequest)
    (error : Option String) :
    Unfound state did req
      (fun x => ∀ r, x = .ok r → (ServerAnswer.authorize r).credentialsFor did = false)
      (state.renderPage requestUri stored error) := by
  have hname : Unfound state did req (fun x => ∀ name : String, x = .ok name → True)
      (state.clientName stored) := Prog.always_of_forall (fun _ _ _ => trivial) _
  refine unfound_bind hname fun name _ r hr => ?_
  obtain rfl := Except.ok.inj hr
  rfl

theorem clear_authorizePage (q : AuthorizeQuery) :
    Clear state did req (serverHandler state (.authorizePage q)) := by
  refine clear_answer (unfound_bind (unfound_loadRequest q.requestUri q.now) fun loaded hpage => ?_)
  rcases loaded with page | stored
  · intro r hr
    obtain rfl := Except.ok.inj hr
    exact hpage page rfl
  · simp only
    split
    · intro r hr
      obtain rfl := Except.ok.inj hr
      rfl
    · exact unfound_renderPage q.requestUri stored none

theorem unfound_authenticate (username password : String) :
    Unfound state did req
      (fun x => ∀ answer, x = .ok answer → ∀ d, answer = .ok d → (d == did) = false)
      (state.authenticate username password) := by
  intro found hfound
  rcases found with e | (_ | ⟨d, phc⟩)
  · rintro answer hanswer d rfl
    cases hanswer
  · rintro answer hanswer d rfl
    cases hanswer
  · simp only [Prog.bind]
    split <;>
    · rintro answer hanswer d' rfl
      cases hanswer
      try exact ne_of_not_finds_handle hfound

theorem unfound_issueCode (stored : StoredPushedRequest) (q : AuthorizeForm) {d : String}
    (hd : (d == did) = false) :
    Unfound state did req
      (fun x => ∀ r, x = .ok r → (ServerAnswer.authorize r).credentialsFor did = false)
      (state.issueCode stored d q) := by
  intro put _
  rcases put with e | ⟨⟩
  · exact unfound_error
  · intro deleted _
    rcases deleted with e | ⟨⟩
    · exact unfound_error
    · intro r hr
      obtain rfl := Except.ok.inj hr
      exact hd

theorem clear_authorizeSubmit (q : AuthorizeForm) :
    Clear state did req (serverHandler state (.authorizeSubmit q)) := by
  refine clear_answer
    (unfound_bind (unfound_loadRequest q.requestUri q.loadNow) fun loaded hpage => ?_)
  rcases loaded with page | stored
  · intro r hr
    obtain rfl := Except.ok.inj hr
    exact hpage page rfl
  · simp only
    split
    · intro deleted _ r hr
      obtain rfl := Except.ok.inj hr
      rfl
    · refine unfound_bind (unfound_authenticate q.username q.password) fun answer hd => ?_
      rcases answer with message | d
      · exact unfound_renderPage q.requestUri stored (some message)
      · have hissue : Unfound state did req
            (fun x => ∀ issued, x = .ok issued → ∀ r, issued = .ok r →
              (ServerAnswer.authorize r).credentialsFor did = false)
            ((state.issueCode stored d q).attempt : ServerProg OAuthError _) := by
          refine Prog.Always.attempt ((unfound_issueCode stored q (hd d rfl)).mono fun x hx => ?_)
          intro issued hissued
          obtain rfl := Except.ok.inj hissued
          exact hx
        refine unfound_bind hissue fun issued hok => ?_
        rcases issued with e | redirect
        · intro r hr
          obtain rfl := Except.ok.inj hr
          rfl
        · intro r hr
          obtain rfl := Except.ok.inj hr
          exact hok redirect rfl

/-! ### Tokens -/

/-- What the store's own requests are told about the account. -/
abbrev UnfoundToken (Keypair : Type) (cfg : OauthConfig) (did : String) (q : TokenRequest)
    (p : OauthProg TokenResponse) : Prop :=
  p.Always (fun o r => redeems cfg did (.token q : ServerRequest Keypair) (.oauth o) r = false)
    fun x => ∀ r, x = .ok r → (r.sub == did) = false

section

variable (cfg : OauthConfig) (q : TokenRequest)

theorem unfound_issue {d : String} (clientId : String) (scope : Scope) (jkt : String)
    (sessionId : Option String) (hd : (d == did) = false) :
    UnfoundToken Keypair cfg did q (issue cfg d clientId scope jkt sessionId q) := by
  rw [issue]
  rcases issueAccessToken cfg d clientId scope jkt q with e | ⟨token, expiresIn⟩
  · exact unfound_error
  · intro put _
    rcases put with e | ⟨⟩
    · exact unfound_error
    · intro r hr
      obtain rfl := Except.ok.inj hr
      exact hd

/-- The key of an accepted proof is the one of the request's header. -/
theorem always_verifyDpop (E : (o : OauthOp) → Except StorageError o.Value → Prop) :
    (verifyDpop cfg q).Always E fun x => ∀ proof, x = .ok proof →
      q.proofKey cfg = some proof.jkt := by
  unfold verifyDpop
  split
  · exact unfound_error
  · exact unfound_error
  · rename_i proof hheaders
    rw [DpopVerifier.verify]
    cases hread : cfg.dpop.readProof proof with
    | error e => exact unfound_error
    | ok x =>
        obtain ⟨jwk, claims⟩ := x
        have hkey : q.proofKey cfg = some (jwk.thumbprint cfg.dpop.jose) := by
          simp only [TokenRequest.proofKey, hheaders, hread]
        refine Prog.Always.bind (Prog.always_ofExcept ?_)
        dsimp only [Except.mapError]
        refine Prog.Always.bind (Prog.always_ofExcept ?_)
        generalize cfg.dpop.checkClaims _ claims = checked
        cases checked with
        | error e => exact unfound_error
        | ok u =>
            intro recorded _
            rcases recorded with e | fresh
            · exact unfound_error
            · cases fresh with
              | false => exact unfound_error
              | true =>
                  intro p hp
                  obtain rfl := Except.ok.inj hp
                  exact hkey
  · exact unfound_error

variable {cfg} {q}

theorem unfound_authorizationCodeGrant {proof : DpopProof}
    (hkey : q.proofKey cfg = some proof.jkt) :
    UnfoundToken Keypair cfg did q (authorizationCodeGrant cfg q proof) := by
  rw [authorizationCodeGrant]
  split
  · exact unfound_error
  · intro redeemed hredeemed
    rcases redeemed with e | (_ | record)
    · exact unfound_error
    · exact unfound_error
    · have hunfit : (record.did == did && q.fitsCode cfg record) = false := hredeemed
      simp only [Prog.ofExcept, Prog.bind]
      split
      · exact unfound_error
      · rename_i hclient
        split
        · exact unfound_error
        · rename_i redirectUri huri
          split
          · exact unfound_error
          · rename_i hredirect
            split
            · exact unfound_error
            · rename_i verifier hverifier
              cases hverify : verifyChallenge cfg.dpop.jose record.codeChallenge verifier with
              | error e => exact unfound_error
              | ok u =>
                  simp only
                  split
                  · exact unfound_error
                  · rename_i hbound
                    cases hscope : Scope.parse record.scope with
                    | error e => exact unfound_error
                    | ok scope =>
                        -- every check was passed, so the code is another account's
                        have hfits : q.fitsCode cfg record = true := by
                          simp only [ne_eq, not_not] at hclient hredirect
                          cases hjkt : record.dpopJkt <;> rw [hjkt] at hbound <;>
                            simp_all [TokenRequest.fitsCode, Except.isOk, Except.toBool]
                        rw [hfits, Bool.and_true] at hunfit
                        exact unfound_issue cfg q record.clientId scope proof.jkt none hunfit

theorem unfound_refreshTokenGrant {proof : DpopProof} (hkey : q.proofKey cfg = some proof.jkt) :
    UnfoundToken Keypair cfg did q (refreshTokenGrant cfg q proof) := by
  rw [refreshTokenGrant]
  split
  · exact unfound_error
  · intro redeemed hredeemed
    rcases redeemed with e | record | sessionId | _
    · exact unfound_error
    · have hunfit : (record.did == did && q.fitsToken cfg record) = false := hredeemed
      change UnfoundToken Keypair cfg did q (refreshChecks cfg q proof record)
      rw [refreshChecks]
      split
      · exact unfound_error
      · rename_i hclient
        split
        · exact unfound_error
        · rename_i hbound
          cases hgranted : Scope.parse record.scope with
          | error e => exact unfound_error
          | ok granted =>
              change UnfoundToken Keypair cfg did q
                (Prog.bind (Prog.ofExcept id (narrowScope granted q.form.scope)) _)
              cases hscope : narrowScope granted q.form.scope with
              | error e => exact unfound_error
              | ok scope =>
                  have hrefreshed : refreshedScope q record = .ok scope := by
                    rw [refreshedScope, hgranted]
                    exact hscope
                  have hfits : q.fitsToken cfg record = true := by
                    simp_all [TokenRequest.fitsToken, Except.isOk, Except.toBool]
                  rw [hfits, Bool.and_true] at hunfit
                  exact unfound_issue cfg q record.clientId scope proof.jkt _ hunfit
    · intro revoked _
      rcases revoked with e | n <;> exact unfound_error
    · exact unfound_error

theorem unfound_tokenHandle : UnfoundToken Keypair cfg did q (tokenHandle cfg q) := by
  refine Prog.Always.bind ((always_verifyDpop cfg q _).mono fun x hx => ?_)
  rcases x with e | proof
  · exact unfound_error
  · simp only
    split
    · exact unfound_authorizationCodeGrant (hx proof rfl)
    · split
      · exact unfound_refreshTokenGrant (hx proof rfl)
      · exact unfound_error

end

theorem clear_token (q : TokenRequest) :
    Clear state did (.token q) (serverHandler state (.token q)) := by
  refine clear_answer ?_
  apply Prog.Always.hoist
  · exact fun _ _ h => (Bool.or_eq_false_iff.mp h).2
  · exact unfound_tokenHandle.mono fun x hx => by cases x <;> exact hx

/-- Every request begins without the account. -/
theorem clear_serverHandler (state : AppState Keypair) (did : String) (q : ServerRequest Keypair) :
    Clear state did q (serverHandler state q) := by
  have hother {ε α : Type} {p : ServerProg ε α} {wrap : α → ServerAnswer} {f : ε → ServerError}
      (h : ∀ a, (wrap a).credentialsFor did = false) : Clear state did q (answer wrap f p) :=
    clear_answer (Prog.always_of_forall (fun _ a _ => h a) p)
  cases q with
  | authorizePage q => exact clear_authorizePage q
  | authorizeSubmit q => exact clear_authorizeSubmit q
  | token q => exact clear_token q
  | createSession identifier password now => exact clear_createSession identifier password now
  | refreshSession parts now => exact clear_refreshSession parts now
  | _ => exact hother fun _ => rfl

/-! ## Runs -/

/-- The last of the operator's commands that took effect hid the account. -/
def isDown (did : String) (log : List (Event serverSig)) : Bool :=
  log.foldl (fun down e =>
    takesDown did e.op e.ans || (down && !clears did e.op e.ans)) false

theorem isDown_append (log : List (Event serverSig)) (e : Event serverSig) :
    isDown did (log ++ [e])
      = (takesDown did e.op e.ans || (isDown did log && !clears did e.op e.ans)) := by
  simp [isDown, List.foldl_append]

/-- What a step answers. -/
def responseOf (state : AppState Keypair) (P : ServerPool Keypair) :
    ServerAct Keypair → Option ServerAnswer
  | .start q =>
      match serverHandler state q with
      | .ret ans => some ans
      | _ => none
  | .step i c =>
      match (serverStep state P (.step i c)).bind fun P' => P'.tasks[i]? with
      | some (_, .ret ans) => some ans
      | _ => none

/-- While the account is hidden, nothing is answered that lets anybody act
for it. -/
def Silent (state : AppState Keypair) (did : String) (P : ServerPool Keypair)
    (a : ServerAct Keypair) : Prop :=
  isDown did P.log = true → ∀ ans, responseOf state P a = some ans → ans.credentialsFor did = false

/-- The request of task `i` has come upon the account. -/
def Found (state : AppState Keypair) (did : String) (P : ServerPool Keypair) (i : Nat)
    (q : ServerRequest Keypair) : Prop :=
  ∃ e ∈ P.log, e.tid = i ∧ finds state.oauth did q e.op e.ans = true

/-- While the account is hidden, no code or refresh token of it that is
still live is redeemed by a request that passes its checks; and where the
account is being hidden, every request that has come upon it has been
answered. -/
def Guarded (state : AppState Keypair) (did : String) (P : ServerPool Keypair) :
    ServerAct Keypair → Prop
  | .start _ => True
  | .step i c => c.isDone = true → ∀ q o k, P.tasks[i]? = some (q, .op o k) →
      (isDown did P.log = true → spends state.oauth P.store.oauth q o ≠ some did)
      ∧ ∀ reference now, o = .setTakedown did reference now → ∀ (j : Nat) q' p,
        P.tasks[j]? = some (q', p) → p.outcome = none → ¬ Found state did P j q'

/-- What a takedown leaves. -/
structure DownInv (state : AppState Keypair) (did : String) (P : ServerPool Keypair) : Prop where
  hidden : isDown did P.log = true → P.store.accounts.TakenDown did
  fresh : ∀ (i : Nat) q p, P.tasks[i]? = some (q, p) → ¬ Found state did P i q →
    Clear state did q p
  down : isDown did P.log = true → ∀ (i : Nat) q p, P.tasks[i]? = some (q, p) →
    p.outcome = none → Clear state did q p

theorem downInv_init (s : ServerStore) :
    DownInv state did (Pool.init s : ServerPool Keypair) where
  hidden h := by cases h
  fresh i q p h := by simp [Pool.init] at h
  down h := by cases h

theorem downInv_start {P : ServerPool Keypair} (hI : DownInv state did P)
    (q : ServerRequest Keypair) :
    DownInv state did ⟨P.toWorld, P.tasks ++ [(q, serverHandler state q)]⟩ where
  hidden := hI.hidden
  fresh i q' p h hnot := by
    rcases Pool.getElem?_append_cases h with ⟨-, heq⟩ | h
    · obtain ⟨rfl, rfl⟩ := Prod.mk.injEq .. |>.mp heq
      exact clear_serverHandler state did q'
    · exact hI.fresh i q' p h hnot
  down hdown i q' p h hout := by
    rcases Pool.getElem?_append_cases h with ⟨-, heq⟩ | h
    · obtain ⟨rfl, rfl⟩ := Prod.mk.injEq .. |>.mp heq
      exact clear_serverHandler state did q'
    · exact hI.down hdown i q' p h hout

section

variable {P : ServerPool Keypair} {i : Nat} {c : ServerOutcome} {q : ServerRequest Keypair}
  {o : ServerOp} {k : o.Ret → AnswerProg} {r : o.Ret} {s : ServerStore}

/-- What a step leaves hidden was clear when the step was taken. -/
theorem clear_before (hI : DownInv state did P) (htask : P.tasks[i]? = some (q, .op o k))
    (hcond : Guarded state did P (.step i c))
    (hexec : serverMachine.exec i P.store o c = some (r, s))
    (hdown : isDown did (P.log ++ [⟨i, o, r⟩]) = true) (j : Nat) (q' : ServerRequest Keypair)
    (p : AnswerProg) (hj : P.tasks[j]? = some (q', p)) (hout : p.outcome = none) :
    Clear state did q' p := by
  rw [isDown_append, Bool.or_eq_true] at hdown
  rcases hdown with htakes | hold
  · obtain ⟨hdone, reference, now, ho⟩ := setTakedown_of_takesDown hexec htakes
    exact hI.fresh j q' p hj ((hcond hdone q o k htask).2 reference now ho j q' p hj hout)
  · exact hI.down ((Bool.and_eq_true _ _).mp hold).1 j q' p hj hout

/-- While the account is hidden, no request comes upon it. -/
theorem clear_after (hI : DownInv state did P) (htask : P.tasks[i]? = some (q, .op o k))
    (hcond : Guarded state did P (.step i c))
    (hexec : serverMachine.exec i P.store o c = some (r, s))
    (hdown : isDown did P.log = true) : Clear state did q (k r) := by
  refine hI.down hdown i q _ htask rfl r ?_
  have hlook := ServerOp.not_looksUp (hI.hidden hdown) hexec
  simp only [finds, hlook, Bool.false_or, Bool.eq_false_iff]
  intro hredeems
  obtain ⟨hdone, hspends⟩ := spends_of_redeems hexec hredeems
  exact (hcond hdone q o k htask).1 hdown hspends

theorem downInv_step (hI : DownInv state did P) (htask : P.tasks[i]? = some (q, .op o k))
    (hcond : Guarded state did P (.step i c))
    (hexec : serverMachine.exec i P.store o c = some (r, s)) :
    DownInv state did ⟨P.toWorld.after i o r s, P.tasks.set i (q, k r)⟩ where
  hidden hdown := by
    rw [World.after_log, isDown_append, Bool.or_eq_true] at hdown
    rcases hdown with htakes | hold
    · exact ServerOp.takenDown_of_takesDown htakes hexec
    · obtain ⟨hdown, hclears⟩ := (Bool.and_eq_true _ _).mp hold
      exact ServerOp.takenDown_exec (hI.hidden hdown) hexec (Bool.not_eq_true' _ |>.mp hclears)
  fresh j q' p hj hnot := by
    have hbefore : ¬ Found state did P j q' := by
      rintro ⟨e, he, htid, hfinds⟩
      exact hnot ⟨e, List.mem_append_left _ he, htid, hfinds⟩
    rcases Pool.getElem?_set_cases hj with ⟨rfl, heq⟩ | ⟨-, hj⟩
    · obtain ⟨rfl, rfl⟩ := Prod.mk.injEq .. |>.mp heq
      refine hI.fresh j _ _ htask hbefore r (Bool.eq_false_iff.mpr fun hfinds => ?_)
      exact hnot ⟨⟨j, o, r⟩, List.mem_append_right _ List.mem_cons_self, rfl, hfinds⟩
    · exact hI.fresh j q' p hj hbefore
  down hdown j q' p hj hout := by
    have hclear := clear_before hI htask hcond hexec hdown
    rcases Pool.getElem?_set_cases hj with ⟨rfl, heq⟩ | ⟨-, hj⟩
    · obtain ⟨rfl, rfl⟩ := Prod.mk.injEq .. |>.mp heq
      rw [World.after_log, isDown_append, Bool.or_eq_true] at hdown
      rcases hdown with htakes | hold
      · obtain ⟨-, reference, now, rfl⟩ := setTakedown_of_takesDown hexec htakes
        exact hclear j q' _ htask rfl r not_finds_setTakedown
      · exact clear_after hI htask hcond hexec ((Bool.and_eq_true _ _).mp hold).1
    · exact hclear j q' p hj hout

end

theorem downInv_next {P P' : ServerPool Keypair} {a : ServerAct Keypair} (hI : DownInv state did P)
    (hcond : Guarded state did P a) (hnext : serverStep state P a = some P') :
    DownInv state did P' := by
  rcases Pool.next_cases hnext with ⟨q, rfl, rfl⟩ | ⟨i, c, q, o, k, r, s, rfl, htask, hexec, rfl⟩
  · exact downInv_start hI q
  · exact downInv_step hI htask hcond hexec

/-- What is answered while the account is hidden was clear before. -/
theorem silent_of_guarded {P : ServerPool Keypair} {a : ServerAct Keypair}
    (hI : DownInv state did P) (hcond : Guarded state did P a) : Silent state did P a := by
  intro hdown ans hans
  cases a with
  | start q =>
      simp only [responseOf] at hans
      split at hans
      · rename_i ans' hret
        obtain rfl := Option.some.inj hans
        have hclear := clear_serverHandler state did q
        rw [hret] at hclear
        exact hclear ans' rfl
      · cases hans
  | step i c =>
      simp only [responseOf] at hans
      split at hans
      · rename_i q' ans' hbind
        obtain rfl := Option.some.inj hans
        obtain ⟨P', hnext, htask'⟩ := Option.bind_eq_some_iff.mp hbind
        rcases Pool.next_cases hnext with ⟨q, h, -⟩ | ⟨j, c', q, o, k, r, s, h, htask, hexec, rfl⟩
        · cases h
        · obtain ⟨rfl, rfl⟩ := PoolAct.step.injEq .. |>.mp h
          have hi : i < P.tasks.length := (List.getElem?_eq_some_iff.mp htask).1
          rw [List.getElem?_set_self hi] at htask'
          obtain ⟨-, hret⟩ := Prod.mk.injEq .. |>.mp (Option.some.inj htask')
          have hclear := clear_after hI htask hcond hexec hdown
          rw [hret] at hclear
          exact hclear ans' rfl
      · cases hans

/-- **A takedown stops new credentials.** In every run all of whose steps
are guarded, whatever sessions, codes and refresh tokens the store holds
when it begins, nothing is answered with credentials of the account while
it is hidden. -/
theorem takedown_silences {state : AppState Keypair} {did : String} {s : ServerStore}
    {as : List (ServerAct Keypair)}
    (hcond : Steps.Along (serverStep state) (Guarded state did) (Pool.init s) as) :
    Steps.Along (serverStep state) (Silent state did) (Pool.init s) as :=
  hcond.of_inv (fun _ _ _ => downInv_next) (fun _ _ => silent_of_guarded) (downInv_init s)

end

/-! ### A code that outlives the account -/

def sampleAlice : String := "did:plc:alice"

def sampleTakedown : ServerRequest Nat := .takedown sampleAlice "ref" "now"

def sampleLogin : ServerRequest Nat := .createSession "alice.pds.test" "correct horse" 1000

def sampleRedeem : ServerRequest Nat :=
  .token {
    form := sampleCodeForm, dpopHeaders := [some "h.p1.s"], dpopNow := 1000, nonceNow := 1000
    redeemNow := 1020, accessNow := 1020, refreshNow := 1020
    newRefreshToken := "t0", newSessionId := "s0", newJti := "j" }

/-- A code is minted, the account taken down, and the code redeemed. -/
def sampleOutlived : List (ServerAct Nat) :=
  samplePushed ++ [.start (sampleSubmit "accept" "c0"), .step 1 .done, .step 1 .done,
    .step 1 .done, .step 1 .done, .start sampleTakedown, .step 2 .done, .start sampleRedeem,
    .step 3 .done, .step 3 .done]

/-- A sign-in that found the account before it was taken down. -/
def sampleOvertaken : List (ServerAct Nat) :=
  [.start sampleLogin, .step 0 .done, .start sampleTakedown, .step 1 .done]

/-- Tokens of a hidden account. -/
theorem outlived_is_answered :
    (¬ ∀ (state : AppState Nat) (did : String) (s : ServerStore) (as : List (ServerAct Nat))
      (P : ServerPool Nat) (a : ServerAct Nat),
      Steps.run (serverStep state) (Pool.init s) as = some P → Silent state did P a)
    ∧ (Steps.run (serverStep sampleApp) sampleStart sampleOutlived).map (fun P =>
        (isDown sampleAlice P.log,
          (responseOf sampleApp P (.step 3 .done)).map (ServerAnswer.credentialsFor sampleAlice)))
      = some (true, some true)
    ∧ (Steps.run (serverStep sampleApp) sampleStart sampleOvertaken).map (fun P =>
        (isDown sampleAlice P.log,
          (responseOf sampleApp P (.step 0 .done)).map (ServerAnswer.credentialsFor sampleAlice)))
      = some (true, some true) := by
  have hout : (Steps.run (serverStep sampleApp) sampleStart sampleOutlived).map (fun P =>
      (isDown sampleAlice P.log,
        (responseOf sampleApp P (.step 3 .done)).map (ServerAnswer.credentialsFor sampleAlice)))
      = some (true, some true) := by decide +kernel
  refine ⟨fun h => ?_, hout, by decide +kernel⟩
  obtain ⟨P, hrun, heq⟩ := Option.map_eq_some_iff.mp hout
  obtain ⟨hdown, hcred⟩ := Prod.mk.injEq .. |>.mp heq
  obtain ⟨ans, hans, htrue⟩ := Option.map_eq_some_iff.mp hcred
  have := h sampleApp sampleAlice _ sampleOutlived P (.step 3 .done) hrun hdown ans hans
  rw [htrue] at this
  cases this

/-- A check that `Guarded` holds: nothing of the account that passes its
checks is redeemed, and whoever found it has been answered when it is
hidden. -/
def guards (did : String) (P : ServerPool Nat) : ServerAct Nat → Bool
  | .start _ => true
  | .step i _ =>
      match P.tasks[i]? with
      | some (q, .op o _) =>
          spends sampleApp.oauth P.store.oauth q o != some did
            && (match o with
              | .setTakedown _ _ _ => P.log.all fun e => (P.tasks[e.tid]?.all fun t =>
                  t.2.outcome.isSome || !finds sampleApp.oauth did t.1 e.op e.ans)
              | _ => true)
      | _ => true

theorem guarded_of_guards {did : String} {P : ServerPool Nat} {a : ServerAct Nat}
    (h : guards did P a = true) : Guarded sampleApp did P a := by
  cases a with
  | start q => trivial
  | step i c =>
      intro _ q o k htask
      simp only [guards, htask, Bool.and_eq_true, bne_iff_ne] at h
      refine ⟨fun _ => h.1, ?_⟩
      rintro reference now rfl j q' p hj hout ⟨e, he, rfl, hfinds⟩
      have := List.all_eq_true.mp h.2 e he
      simp [hj, hout, hfinds] at this

/-- The code, presented for another redirect URI. -/
def sampleMisfit : ServerRequest Nat :=
  .token {
    form := { sampleCodeForm with redirectUri := some "https://other.test/callback" }
    dpopHeaders := [some "h.p1.s"], dpopNow := 1000, nonceNow := 1000, redeemNow := 1020
    accessNow := 1020, refreshNow := 1020, newRefreshToken := "t0", newSessionId := "s0"
    newJti := "j" }

/-- A code is minted and a sign-in answered, the account is taken down, the
next sign-in is refused, and so is a request that presents the code for
another redirect URI. -/
def sampleHidden : List (ServerAct Nat) :=
  samplePushed ++ [.start (sampleSubmit "accept" "c0"), .step 1 .done, .step 1 .done,
    .step 1 .done, .step 1 .done, .start sampleLogin, .step 2 .done, .step 2 .done,
    .start sampleTakedown, .step 3 .done, .start sampleLogin, .step 4 .done, .start sampleMisfit,
    .step 5 .done, .step 5 .done]

theorem sampleHidden_silent :
    (Steps.run (serverStep sampleApp) sampleStart sampleHidden).map (fun P =>
        (isDown sampleAlice P.log, P.tasks.map fun t => t.2.outcome.map fun x =>
          x.toOption.map (ServerAnswer.credentialsFor sampleAlice)))
      = some (true, [some (some false), some (some true), some (some true), some (some false),
        some none, some none])
    ∧ Steps.Along (serverStep sampleApp) (Silent sampleApp sampleAlice) sampleStart
      sampleHidden := by
  have hguards : Steps.Along (serverStep sampleApp) (fun P a => guards sampleAlice P a = true)
      sampleStart sampleHidden := by decide +kernel
  exact ⟨by decide +kernel, takedown_silences (hguards.imp fun _ _ => guarded_of_guards)⟩

end Stelyph
