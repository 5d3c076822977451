import Stelyph.Lib.Steps
import Stelyph.WorkerSignin

/-!
# Who learns a sign-in's session

Any party may send any request to an account's object. Request ids are
random, so a party can only name one it was sent in an answer, and the
session of a request is handed to whoever names its id in a poll. Ids
are sent by two endpoints: to the party that starts a request, and to
every caller of `/oauth/signin/pending`, which asks for no credential.
The session stays with those who may have it exactly as long as the
second endpoint only tells a caller what the caller already knows or
holds a device key for.
-/

namespace Stelyph

abbrev Party := Nat

/-- A session that went out in a poll's answer. -/
structure SentSession where
  party : Party
  requestId : String
  /-- The device keys that were enrolled when it was sent. -/
  deviceKeys : List String
deriving DecidableEq

/-- The object, and what has gone over the wire so far. -/
structure SecrecyState where
  store : DoStore
  /-- Every random token drawn. -/
  drawn : List String
  /-- Which party called `signin_start` for which request. -/
  started : List (String × Party)
  /-- Request ids by the party that received them. -/
  known : List (Party × String)
  sessions : List SentSession

/-- A party's call of one of the sign-in endpoints, or of any other
endpoint of the object: of the tables of sign-in those write none but the
account's row. -/
inductive SecrecyAct where
  | call (party : Party) (request : SigninRequest) (rnd : SigninDraw)
  | other (accounts : List Account)

/-- The request id a request names. -/
def SigninRequest.names : SigninRequest → Option String
  | .signinPoll requestId => some requestId
  | .deviceApprove requestId _ _ => some requestId
  | .deviceDeny requestId _ _ => some requestId
  | _ => none

/-- The request ids an answer carries. -/
def SigninAnswer.requestIds : SigninAnswer → List String
  | .started requestId _ _ _ => [requestId]
  | .pending rows => rows.map fun r => r.requestId
  | _ => []

/-- The answer carries an access or a refresh token. -/
def SigninAnswer.carriesSession : SigninAnswer → Bool
  | .status _ (some session) => session.accessJwt.isSome || session.refreshJwt.isSome
  | _ => false

/-- The device keys that are enrolled. -/
def DoStore.enrolledKeys (s : DoStore) : List String := s.deviceKeys.rows.map Prod.snd

/-- One call. A party can only name a request it was sent the id of, and
no random token is drawn twice. -/
def secrecyStep (lib : SigninLib) (s : SecrecyState) : SecrecyAct → Option SecrecyState
  | .other accounts => some { s with store := { s.store with accounts := accounts } }
  | .call party request rnd =>
      if (request.names.all fun r => s.known.contains (party, r))
          && !s.drawn.contains rnd.token then
        let (answer, store) := signinHandle lib s.store rnd request
        some {
          store := store
          drawn := s.drawn ++ [rnd.token]
          started := match answer with
            | .started requestId _ _ _ => s.started ++ [(requestId, party)]
            | _ => s.started
          known := s.known ++ answer.requestIds.map fun r => (party, r)
          sessions := if answer.carriesSession then
            s.sessions ++ request.names.toList.map fun r => ⟨party, r, store.enrolledKeys⟩
            else s.sessions }
      else none

/-- Nothing was drawn, started or shown as yet. -/
def secrecyInit (accounts : List Account) : SecrecyState where
  store := ⟨accounts, .empty, .empty⟩
  drawn := []
  started := []
  known := []
  sessions := []

section

variable (holder : String → Party)

/-- Who holds one of these keys: `holder` says which party has the private
half of a device key. -/
def holdsKey (keys : List String) (p : Party) : Bool := keys.any fun k => holder k == p

/-- Every session went to the party that started its request, or to one
that held an enrolled device key when the session was sent. -/
def SessionsKept (s : SecrecyState) : Prop :=
  ∀ x ∈ s.sessions,
    (x.requestId, x.party) ∈ s.started ∨ holdsKey holder x.deviceKeys x.party = true

/-- A caller of `/oauth/signin/pending` holds an enrolled device key, or
started every request that is listed: it is shown nothing that it could
not know. -/
def listsOwn (s : SecrecyState) : SecrecyAct → Bool
  | .call party .signinPending rnd =>
      holdsKey holder s.store.enrolledKeys party
        || (s.store.listPendingSignins rnd.now).all fun row =>
          s.started.contains (row.requestId, party)
  | _ => true

/-! ## The invariant: ids stay where the sessions may go

A device's key leaves its table in one way only, the deletion of the
account, and that takes every sign-in request with it. So a party that
was told an id because of a key it held still holds one for as long as
the request is there to be polled. -/

structure IdsKept (s : SecrecyState) : Prop where
  known : ∀ p r, (p, r) ∈ s.known → s.store.signins.contains r = true →
    (r, p) ∈ s.started ∨ holdsKey holder s.store.enrolledKeys p = true
  knownDrawn : ∀ p r, (p, r) ∈ s.known → r ∈ s.drawn
  requestDrawn : ∀ r, s.store.signins.contains r = true → r ∈ s.drawn
  deviceDrawn : ∀ d, s.store.deviceKeys.contains d = true → d ∈ s.drawn

variable {holder} {lib : SigninLib} {s s' : SecrecyState}

theorem holdsKey_enrolled_iff {t : DoStore} {p : Party} :
    holdsKey holder t.enrolledKeys p = true ↔
      ∃ d k, t.deviceKeys.get d = some k ∧ holder k = p := by
  simp only [holdsKey, DoStore.enrolledKeys, List.any_eq_true, List.mem_map, beq_iff_eq]
  constructor
  · rintro ⟨_, ⟨⟨d, k⟩, hmem, rfl⟩, hp⟩
    exact ⟨d, k, Table.get_eq_some_iff.mpr hmem, hp⟩
  · rintro ⟨d, k, hget, hp⟩
    exact ⟨k, ⟨(d, k), Table.get_eq_some_iff.mp hget, rfl⟩, hp⟩

theorem contains_insert_iff {t : Table String SigninRow} {k r : String} {v : SigninRow} :
    (t.insert k v).contains r = true ↔ r = k ∨ t.contains r = true := by
  simp only [Table.contains_iff, Table.get_insert_eq_some]
  constructor
  · rintro ⟨_, ⟨rfl, rfl⟩ | ⟨-, h⟩⟩
    · exact Or.inl rfl
    · exact Or.inr ⟨_, h⟩
  · rintro (rfl | ⟨w, h⟩)
    · exact ⟨v, Or.inl ⟨rfl, rfl⟩⟩
    · by_cases heq : r = k
      · exact ⟨v, Or.inl ⟨heq, rfl⟩⟩
      · exact ⟨w, Or.inr ⟨heq, h⟩⟩

/-- A decision concerns a request that is there and touches no device. -/
theorem decideSignin_tables (t : DoStore) (requestId : String) (f : SigninRow → SigninRow) :
    (t.decideSignin requestId f).deviceKeys = t.deviceKeys
    ∧ ∀ r, (t.decideSignin requestId f).signins.contains r = true →
        t.signins.contains r = true := by
  unfold DoStore.decideSignin
  split
  · rename_i row hrow
    split_ifs
    · refine ⟨rfl, fun r hr => ?_⟩
      rcases contains_insert_iff.mp hr with rfl | hold
      · exact Table.contains_iff.mpr ⟨row, hrow⟩
      · exact hold
    · exact ⟨rfl, fun _ hr => hr⟩
  · exact ⟨rfl, fun _ hr => hr⟩

/-- What one call leaves in the tables: a request is added by
`signin_start`, a device by its registration, each under the token drawn,
and a device is only removed together with every request. -/
structure TablesAfter (t t' : DoStore) (token : String) (answer : SigninAnswer) : Prop where
  request : ∀ r, t'.signins.contains r = true → t.signins.contains r = true ∨
    (r = token ∧ ∃ userCode challenge expiresAt, answer = .started r userCode challenge expiresAt)
  device : ∀ d, t'.deviceKeys.contains d = true → t.deviceKeys.contains d = true ∨ d = token
  kept : (∀ r, t'.signins.contains r = false) ∨
    ∀ d k, t.deviceKeys.get d = some k → d ≠ token → t'.deviceKeys.get d = some k

theorem TablesAfter.of_same {t t' : DoStore} {token : String} {answer : SigninAnswer}
    (hkeys : t'.deviceKeys = t.deviceKeys)
    (hsignins : ∀ r, t'.signins.contains r = true → t.signins.contains r = true) :
    TablesAfter t t' token answer where
  request r hr := Or.inl (hsignins r hr)
  device d hd := Or.inl (hkeys ▸ hd)
  kept := Or.inr fun d k hk _ => by rw [hkeys, hk]

theorem TablesAfter.refl {t : DoStore} {token : String} {answer : SigninAnswer} :
    TablesAfter t t token answer :=
  .of_same rfl fun _ hr => hr

theorem deviceRegister_tables (t : DoStore) (rnd : SigninDraw)
    (handle password deviceDidKey : String) :
    TablesAfter t (deviceRegister lib t rnd handle password deviceDidKey).2 rnd.token
      (deviceRegister lib t rnd handle password deviceDidKey).1 := by
  unfold deviceRegister
  split_ifs
  · exact .refl
  · split
    · exact .refl
    · split
      · refine ⟨fun r hr => Or.inl hr, fun d hd => ?_, Or.inr fun d k hk hne => ?_⟩
        · obtain ⟨k, hk⟩ := Table.contains_iff.mp hd
          rcases Table.get_insert_eq_some.mp hk with ⟨rfl, -⟩ | ⟨-, hold⟩
          · exact Or.inr rfl
          · exact Or.inl (Table.contains_iff.mpr ⟨k, hold⟩)
        · exact (Table.get_insert_of_ne hne).trans hk
      · exact .refl

theorem signinStart_tables (t : DoStore) (rnd : SigninDraw) (clientName : String) :
    TablesAfter t (signinStart t rnd clientName).2 rnd.token
      (signinStart t rnd clientName).1 := by
  unfold signinStart DoStore.createSignin
  by_cases hc : t.signins.contains rnd.token = true
  · rw [if_pos hc]
    exact .refl
  · rw [if_neg hc]
    refine ⟨fun r hr => ?_, fun d hd => Or.inl hd, Or.inr fun d k hk _ => hk⟩
    rcases contains_insert_iff.mp hr with rfl | hold
    · exact Or.inr ⟨rfl, _, _, _, rfl⟩
    · exact Or.inl hold

theorem deviceApprove_tables (t : DoStore) (now : Nat) (token requestId deviceId : String)
    (sig : Bytes) :
    TablesAfter t (deviceApprove lib t now requestId deviceId sig).2 token
      (deviceApprove lib t now requestId deviceId sig).1 := by
  unfold deviceApprove
  repeat' split
  all_goals first
    | exact .refl
    | exact .of_same (decideSignin_tables t requestId _).1 (decideSignin_tables t requestId _).2

theorem deviceDeny_tables (t : DoStore) (token requestId deviceId : String) (sig : Bytes) :
    TablesAfter t (deviceDeny lib t requestId deviceId sig).2 token
      (deviceDeny lib t requestId deviceId sig).1 := by
  unfold deviceDeny
  repeat' split
  all_goals first
    | exact .refl
    | exact .of_same (decideSignin_tables t requestId _).1 (decideSignin_tables t requestId _).2

theorem deleteAccount_tables (t : DoStore) (token : String) :
    TablesAfter t (deleteAccount t).2 token (deleteAccount t).1 := by
  unfold deleteAccount
  split
  · exact .refl
  · exact ⟨fun r hr => absurd hr Bool.false_ne_true, fun d hd => absurd hd Bool.false_ne_true,
      Or.inl fun _ => rfl⟩

theorem signinHandle_tables (t : DoStore) (rnd : SigninDraw) (req : SigninRequest) :
    TablesAfter t (signinHandle lib t rnd req).2 rnd.token (signinHandle lib t rnd req).1 := by
  cases req with
  | deviceRegister handle password deviceDidKey label =>
      exact deviceRegister_tables t rnd handle password deviceDidKey
  | signinStart clientName => exact signinStart_tables t rnd clientName
  | signinPoll requestId => exact .refl
  | signinPending => exact .refl
  | deviceApprove requestId deviceId signature =>
      cases signature with
      | none => exact .refl
      | some sig => exact deviceApprove_tables t rnd.now rnd.token requestId deviceId sig
  | deviceDeny requestId deviceId signature =>
      cases signature with
      | none => exact .refl
      | some sig => exact deviceDeny_tables t rnd.token requestId deviceId sig
  | deleteAccount => exact deleteAccount_tables t rnd.token

/-- A party that holds a key of the table holds it afterwards, unless the
call emptied the table of requests. -/
theorem TablesAfter.holdsKey {t t' : DoStore} {token : String} {answer : SigninAnswer}
    (h : TablesAfter t t' token answer) (hfresh : t.deviceKeys.contains token = false)
    {r : String} (hr : t'.signins.contains r = true) {p : Party}
    (hp : holdsKey holder t.enrolledKeys p = true) :
    Stelyph.holdsKey holder t'.enrolledKeys p = true := by
  obtain ⟨d, k, hget, hk⟩ := holdsKey_enrolled_iff.mp hp
  rcases h.kept with hnone | hkept
  · rw [hnone r] at hr
    cases hr
  · refine holdsKey_enrolled_iff.mpr ⟨d, k, hkept d k hget ?_, hk⟩
    rintro rfl
    rw [Table.contains_iff.mpr ⟨k, hget⟩] at hfresh
    cases hfresh

/-- Only two endpoints send request ids: one the id it draws, the other
those of the rows that are pending. -/
theorem requestIds_cases {t : DoStore} {rnd : SigninDraw} {req : SigninRequest} {r : String}
    (h : r ∈ (signinHandle lib t rnd req).1.requestIds) :
    (r = rnd.token ∧ ∃ userCode challenge expiresAt,
      (signinHandle lib t rnd req).1 = .started r userCode challenge expiresAt)
    ∨ (req = .signinPending ∧ ∃ row ∈ t.listPendingSignins rnd.now, row.requestId = r) := by
  cases req with
  | signinPending => exact Or.inr ⟨rfl, by simpa [signinHandle, signinPending,
      SigninAnswer.requestIds] using h⟩
  | signinStart clientName =>
      simp only [signinHandle, signinStart] at h ⊢
      split at h
      · cases h
      · obtain rfl := List.mem_singleton.mp h
        exact Or.inl ⟨rfl, _, _, _, rfl⟩
  | deviceRegister handle password deviceDidKey label =>
      simp only [signinHandle, deviceRegister] at h
      repeat' split at h
      all_goals cases h
  | signinPoll requestId =>
      simp only [signinHandle, signinPoll] at h
      split at h <;> cases h
  | deviceApprove requestId deviceId signature =>
      simp only [signinHandle, deviceApprove] at h
      repeat' split at h
      all_goals cases h
  | deviceDeny requestId deviceId signature =>
      simp only [signinHandle, deviceDeny] at h
      repeat' split at h
      all_goals cases h
  | deleteAccount =>
      simp only [signinHandle, deleteAccount] at h
      split at h <;> cases h

/-- A listed request has a row. -/
theorem contains_of_listed {t : DoStore} {now : Nat} {row : PendingSignin}
    (h : row ∈ t.listPendingSignins now) : t.signins.contains row.requestId = true := by
  obtain ⟨x, hx, rfl⟩ := List.mem_map.mp (((List.perm_insertionSort ..).mem_iff).mp h)
  exact Table.contains_iff.mpr ⟨x.2, Table.get_eq_some_iff.mpr (List.mem_filter.mp hx).1⟩

/-- A session answers the poll of a request that is there, and a poll
writes nothing. -/
theorem polled_of_carriesSession {t : DoStore} {rnd : SigninDraw} {req : SigninRequest}
    {r : String} (h : (signinHandle lib t rnd req).1.carriesSession = true)
    (hr : req.names = some r) :
    t.signins.contains r = true ∧ (signinHandle lib t rnd req).2 = t := by
  cases req with
  | signinPoll requestId =>
      obtain rfl := Option.some.inj hr
      refine ⟨?_, rfl⟩
      simp only [signinHandle, signinPoll] at h
      split at h
      · cases h
      · rename_i row hrow
        exact Table.contains_iff.mpr ⟨row, hrow⟩
  | deviceApprove requestId deviceId signature =>
      simp only [signinHandle, deviceApprove] at h
      repeat' split at h
      all_goals cases h
  | deviceDeny requestId deviceId signature =>
      simp only [signinHandle, deviceDeny] at h
      repeat' split at h
      all_goals cases h
  | deviceRegister | signinStart | signinPending | deleteAccount => cases hr

/-! ## One step -/

section

variable {party : Party} {request : SigninRequest} {rnd : SigninDraw}

/-- What a call that was taken knew, and what it adds to the histories. -/
theorem secrecyStep_call (h : secrecyStep lib s (.call party request rnd) = some s') :
    (∀ r, request.names = some r → (party, r) ∈ s.known)
    ∧ rnd.token ∉ s.drawn
    ∧ s'.store = (signinHandle lib s.store rnd request).2
    ∧ s'.drawn = s.drawn ++ [rnd.token]
    ∧ (∀ x ∈ s.started, x ∈ s'.started)
    ∧ (∀ r userCode challenge expiresAt, (signinHandle lib s.store rnd request).1
        = .started r userCode challenge expiresAt → (r, party) ∈ s'.started)
    ∧ (∀ p r, (p, r) ∈ s'.known → (p, r) ∈ s.known ∨
        (p = party ∧ r ∈ (signinHandle lib s.store rnd request).1.requestIds))
    ∧ (∀ x ∈ s'.sessions, x ∈ s.sessions ∨
        (x.party = party ∧ request.names = some x.requestId ∧ x.deviceKeys = s'.store.enrolledKeys
          ∧ (signinHandle lib s.store rnd request).1.carriesSession = true)) := by
  simp only [secrecyStep] at h
  generalize signinHandle lib s.store rnd request = res at h ⊢
  obtain ⟨answer, store⟩ := res
  by_cases hguard : ((request.names.all fun r => s.known.contains (party, r))
    && !s.drawn.contains rnd.token) = true
  case neg => rw [if_neg hguard] at h; cases h
  rw [if_pos hguard] at h
  rw [Bool.and_eq_true] at hguard
  obtain rfl := Option.some.inj h
  refine ⟨fun r hr => ?_, by simpa using hguard.2, rfl, rfl, fun x hx => ?_, ?_,
    fun p r hpr => ?_, fun x hx => ?_⟩
  · rw [hr] at hguard
    simpa using hguard.1
  · dsimp only
    split
    · exact List.mem_append_left _ hx
    · exact hx
  · rintro r userCode challenge expiresAt rfl
    exact List.mem_append_right _ (List.mem_singleton_self _)
  · rcases List.mem_append.mp hpr with hpr | hpr
    · exact Or.inl hpr
    · obtain ⟨r', hr', heq⟩ := List.mem_map.mp hpr
      obtain ⟨rfl, rfl⟩ := Prod.mk.injEq .. |>.mp heq
      exact Or.inr ⟨rfl, hr'⟩
  · dsimp only at hx
    split_ifs at hx with hcarries
    · rcases List.mem_append.mp hx with hx | hx
      · exact Or.inl hx
      · obtain ⟨r', hr', rfl⟩ := List.mem_map.mp hx
        exact Or.inr ⟨rfl, Option.mem_toList.mp hr', rfl, hcarries⟩
    · exact Or.inl hx

/-- One call that tells a caller of the list nothing new. -/
theorem kept_call (hids : IdsKept holder s) (hses : SessionsKept holder s)
    (hown : listsOwn holder s (.call party request rnd) = true)
    (h : secrecyStep lib s (.call party request rnd) = some s') :
    IdsKept holder s' ∧ SessionsKept holder s' := by
  obtain ⟨hnames, hfresh, hstore, hdrawn, hstarted, hnew, hknown, hsessions⟩ := secrecyStep_call h
  have htables : TablesAfter s.store (signinHandle lib s.store rnd request).2 rnd.token
      (signinHandle lib s.store rnd request).1 := signinHandle_tables s.store rnd request
  have hdevice : s.store.deviceKeys.contains rnd.token = false :=
    Bool.eq_false_iff.mpr fun hc => hfresh (hids.deviceDrawn _ hc)
  -- an id the caller may know stays one, for as long as its request is there
  have hmono : ∀ p r, s'.store.signins.contains r = true →
      ((r, p) ∈ s.started ∨ holdsKey holder s.store.enrolledKeys p = true) →
      (r, p) ∈ s'.started ∨ holdsKey holder s'.store.enrolledKeys p = true :=
    fun p r hr hk => hk.imp (hstarted _) fun hkey => by
      rw [hstore] at hr ⊢
      exact htables.holdsKey hdevice hr hkey
  refine ⟨⟨fun p r hpr hr => ?_, fun p r hpr => ?_, fun r hr => ?_, fun d hd => ?_⟩,
    fun x hx => ?_⟩
  · rcases hknown p r hpr with hpr | ⟨rfl, hid⟩
    · rcases htables.request r (hstore ▸ hr) with hold | ⟨rfl, -⟩
      · exact hmono p r hr (hids.known p r hpr hold)
      · exact absurd (hids.knownDrawn p _ hpr) hfresh
    · rcases requestIds_cases hid with ⟨-, _, _, _, hans⟩ | ⟨rfl, row, hrow, rfl⟩
      · exact Or.inl (hnew _ _ _ _ hans)
      · -- the list only names requests the caller may know
        simp only [listsOwn, Bool.or_eq_true, List.all_eq_true] at hown
        exact hmono p _ hr (hown.symm.imp (fun hall => by simpa using hall row hrow) id)
  · rw [hdrawn]
    rcases hknown p r hpr with hpr | ⟨rfl, hid⟩
    · exact List.mem_append_left _ (hids.knownDrawn p r hpr)
    · rcases requestIds_cases hid with ⟨rfl, -⟩ | ⟨-, row, hrow, rfl⟩
      · exact List.mem_append_right _ (List.mem_singleton_self _)
      · exact List.mem_append_left _ (hids.requestDrawn _ (contains_of_listed hrow))
  · rw [hdrawn]
    rcases htables.request r (hstore ▸ hr) with hold | ⟨rfl, -⟩
    · exact List.mem_append_left _ (hids.requestDrawn r hold)
    · exact List.mem_append_right _ (List.mem_singleton_self _)
  · rw [hdrawn]
    rcases htables.device d (hstore ▸ hd) with hold | rfl
    · exact List.mem_append_left _ (hids.deviceDrawn d hold)
    · exact List.mem_append_right _ (List.mem_singleton_self _)
  · rcases hsessions x hx with hx | ⟨hparty, hname, hkeys, hcarries⟩
    · exact (hses x hx).imp_left (hstarted _)
    · obtain ⟨hpolled, hsame⟩ := polled_of_carriesSession hcarries hname
      rw [hkeys, hstore, hsame, hparty]
      exact (hids.known party _ (hnames _ hname) hpolled).imp_left (hstarted _)

end

theorem kept_step {a : SecrecyAct} (hids : IdsKept holder s) (hses : SessionsKept holder s)
    (hown : listsOwn holder s a = true) (h : secrecyStep lib s a = some s') :
    IdsKept holder s' ∧ SessionsKept holder s' := by
  cases a with
  | call party request rnd => exact kept_call hids hses hown h
  | other accounts =>
      obtain rfl := Option.some.inj h
      exact ⟨⟨hids.known, hids.knownDrawn, hids.requestDrawn, hids.deviceDrawn⟩, hses⟩

theorem idsKept_init (accounts : List Account) : IdsKept holder (secrecyInit accounts) where
  known _ _ hpr := (List.not_mem_nil hpr).elim
  knownDrawn _ _ hpr := (List.not_mem_nil hpr).elim
  requestDrawn _ hr := absurd hr Bool.false_ne_true
  deviceDrawn _ hd := absurd hd Bool.false_ne_true

/-- In every run in which each caller of `/oauth/signin/pending` holds an
enrolled device key or started every request it is shown, each session
goes to the party that started its request or to one that holds an
enrolled device key when it is sent. -/
theorem sessionsKept_of_listsOwn {accounts : List Account} {as : List SecrecyAct}
    (hrun : Steps.run (secrecyStep lib) (secrecyInit accounts) as = some s)
    (hown : Steps.Along (secrecyStep lib) (fun s a => listsOwn holder s a = true)
      (secrecyInit accounts) as) :
    SessionsKept holder s :=
  (Steps.run_inv_along (I := fun s => IdsKept holder s ∧ SessionsKept holder s)
    (fun _ _ _ hs hc h => kept_step hs.1 hs.2 hc h)
    ⟨idsKept_init accounts, fun _ hx => (List.not_mem_nil hx).elim⟩ hown hrun).2

end

/-! ## A bystander who asks for the list -/

/-- Signatures that name their key and message. -/
def sampleSignin : SigninLib where
  verifySignature didKey message signature := signature == Text.bytes didKey ++ message
  verifyPassword password phc := .ok (phc == s!"phc:{password}")
  encodeAccessJwtAt did now := .ok s!"access:{did}:{now}"
  encodeRefreshJwtAt did now := .ok s!"refresh:{did}:{now}"

def sampleAccount : Account where
  did := "did:plc:alice"
  handle := some "alice.pds.test"
  email := none
  passwordPhc := "phc:correct horse"
  deactivatedAt := none
  takedownRef := none

def sampleKey : String := "did:key:zPhone"

/-- The phone is party 0 and enrols its key; the client is party 1. -/
def enrolAndStart : List SecrecyAct :=
  [.call 0 (.deviceRegister "alice.pds.test" "correct horse" sampleKey "phone") ⟨"dev", "", 100⟩,
    .call 1 (.signinStart "app") ⟨"req", "WXYZ-1234", 101⟩,
    .call 0 .signinPending ⟨"x1", "", 102⟩]

def approveReq : SecrecyAct :=
  .call 0 (.deviceApprove "req" "dev"
    (some (Text.bytes sampleKey ++ approvalChallenge "req" "WXYZ-1234"))) ⟨"x2", "", 104⟩

/-- Party 2, which started nothing and holds no key, lists the pending
requests and polls the one it sees. -/
theorem bystander_gets_session :
    ¬ ∀ (lib : SigninLib) (holder : String → Party) (accounts : List Account)
      (as : List SecrecyAct) (s : SecrecyState),
      Steps.run (secrecyStep lib) (secrecyInit accounts) as = some s →
      SessionsKept holder s := by
  intro h
  have hrun : (Steps.run (secrecyStep sampleSignin) (secrecyInit [sampleAccount])
      (enrolAndStart ++ [.call 2 .signinPending ⟨"x3", "", 103⟩, approveReq,
        .call 2 (.signinPoll "req") ⟨"x4", "", 105⟩])).map
          (fun s => (s.sessions, s.started))
        = some ([⟨2, "req", [sampleKey]⟩], [("req", 1)]) := by decide
  obtain ⟨s, hs, heq⟩ := Option.map_eq_some_iff.mp hrun
  obtain ⟨hses, hst⟩ := Prod.mk.injEq .. |>.mp heq
  have := h sampleSignin (fun _ => 0) _ _ s hs ⟨2, "req", [sampleKey]⟩ (by rw [hses]; decide)
  rw [hst] at this
  exact absurd this (by decide)

/-- Without the bystander's list the session goes to the client only; the
phone deletes the account, and its key is no longer one. -/
theorem sessionsKept_without_bystander : ∃ s,
    Steps.run (secrecyStep sampleSignin) (secrecyInit [sampleAccount])
      (enrolAndStart ++ [approveReq, .call 1 (.signinPoll "req") ⟨"x4", "", 105⟩,
        .call 0 .deleteAccount ⟨"x5", "", 106⟩, .other [sampleAccount],
        .call 2 .signinPending ⟨"x6", "", 107⟩]) = some s
    ∧ s.sessions = [⟨1, "req", [sampleKey]⟩] ∧ s.store.enrolledKeys = []
    ∧ SessionsKept (fun _ => 0) s := by
  have hrun : (Steps.run (secrecyStep sampleSignin) (secrecyInit [sampleAccount])
      (enrolAndStart ++ [approveReq, .call 1 (.signinPoll "req") ⟨"x4", "", 105⟩,
        .call 0 .deleteAccount ⟨"x5", "", 106⟩, .other [sampleAccount],
        .call 2 .signinPending ⟨"x6", "", 107⟩])).map
        (fun s => (s.sessions, s.store.enrolledKeys))
      = some ([⟨1, "req", [sampleKey]⟩], []) := by decide
  obtain ⟨s, hs, heq⟩ := Option.map_eq_some_iff.mp hrun
  obtain ⟨hses, hkeys⟩ := Prod.mk.injEq .. |>.mp heq
  exact ⟨s, hs, hses, hkeys, sessionsKept_of_listsOwn hs (by decide)⟩

end Stelyph
