import Stelyph.ApplyWrites
import Stelyph.Lib.Expand
import Stelyph.ServiceDid
import Stelyph.XrpcHandlers

/-!
# A service token goes to its audience

The router's fallback with its calls taken apart: the resolver with the
table it keeps its answers in, and the client with its guard. Requests
are interleaved at every operation, the directory answers what it likes
and as often as it likes, and any other call may answer anything. What
leaves the server carries a token that was minted for the subject of the
session, and goes where the token's audience leads
(`token_to_its_audience`).
-/

namespace Stelyph

section

variable {L : RepoLib} {σ χ : Type} (cfg : XrpcConfig L)
  (parseUrl : String → Except String RelayUrl) (plcUrl : String)

/-! ## The client -/

def sendError : SendFault → XrpcError
  | .send e => .upstreamFailure s!"upstream request failed: {e}"
  | .body e => .upstreamFailure s!"upstream body read: {e}"

def sentRequest (req : UpstreamRequest) : SentRequest where
  method := req.method
  url := upstreamUrl req.baseUrl req.nsid req.query
  body := match req.method with
    | .get => none
    | .post => some req.body
  contentType := req.contentType
  bearer := req.jwt
  acceptLabelers := req.acceptLabelers

/-- `ReqwestAppViewClient::proxy_request`. -/
def proxyRequest (req : UpstreamRequest) : Prog (resolverSig L) XrpcError UpstreamResponse := do
  Prog.ofExcept id (validateAppviewUrl parseUrl req.baseUrl)
  .op (S := resolverSig L) (.inner (.send (sentRequest req))) fun r => Prog.ofExcept sendError r

/-- The calls of a handler, the two that reach other servers as the
programs they are. -/
def calls : (o : XrpcOp L) → Prog (resolverSig L) XrpcError o.Ret
  | .resolveService did fragment => (resolve plcUrl did fragment).attempt
  | .proxyRequest req => (proxyRequest parseUrl req).attempt
  | o => Prog.ask (S := resolverSig L) (.inner (.call o))

/-- A request with the steps of the resolver in place of the call of it. -/
def forwardHandler (q : XrpcRequest) : Prog (resolverSig L) XrpcError XrpcResponse :=
  (q.handler cfg).expand (calls parseUrl plcUrl)

/-- The server with the requests that it forwards, and the table of
endpoints they share. -/
abbrev ForwardPool (L : RepoLib) (σ : Type) :=
  Pool (resolverSig L) XrpcRequest XrpcError XrpcResponse (Table String String × σ)

/-! ## What is in the table -/

abbrev ForwardLog (L : RepoLib) := List (Event (resolverSig L))

/-- The directory named the endpoint for the service, at some time. -/
def NamedBy (plcUrl : String) (log : ForwardLog L) (did fragment endpoint : String) : Prop :=
  ∃ i doc, (⟨i, .inner (.fetchDoc s!"{plcUrl}/{did}"), .ok doc⟩ : Event (resolverSig L)) ∈ log
    ∧ serviceEndpointFromDoc doc did fragment = some endpoint

def TableEntry (plcUrl : String) (log : ForwardLog L) (key endpoint : String) : Prop :=
  ∃ did fragment, key = s!"{did}#{fragment}" ∧ '#' ∉ did.toList
    ∧ NamedBy plcUrl log did fragment endpoint

variable {plcUrl}

theorem NamedBy.mono {log log' : ForwardLog L} (h : ∀ e ∈ log, e ∈ log')
    {did fragment endpoint : String} (hn : NamedBy plcUrl log did fragment endpoint) :
    NamedBy plcUrl log' did fragment endpoint := by
  obtain ⟨i, doc, hmem, hdoc⟩ := hn
  exact ⟨i, doc, h _ hmem, hdoc⟩

theorem lasting_tableEntry : Lasting (TableEntry (L := L) plcUrl) := by
  rintro l l' h k v ⟨did, fragment, hkey, hdid, hn⟩
  exact ⟨did, fragment, hkey, hdid, hn.mono h⟩

/-- A key is of one service. -/
theorem cacheKey_inj {did other fragment part : String} (h : '#' ∉ did.toList)
    (h' : '#' ∉ other.toList) (heq : s!"{did}#{fragment}" = s!"{other}#{part}") :
    did = other ∧ fragment = part := by
  have hkey : ∀ d f : String, s!"{d}#{f}" = String.ofList (d.toList ++ '#' :: f.toList) := by
    intro d f
    have hsep : "#".toList = ['#'] := by decide
    rw [← String.toList_inj, String.toList_ofList]
    simp only [toString, String.toList_append, hsep, List.append_assoc, List.cons_append,
      List.nil_append]
  rw [hkey, hkey] at heq
  have hsplit := congrArg (Text.splitOnce · '#') heq
  simp only [Text.splitOnce_append _ _ h, Text.splitOnce_append _ _ h', String.ofList_toList,
    Option.some.injEq, Prod.mk.injEq] at hsplit
  exact hsplit

theorem TableEntry.named {log : ForwardLog L} {did fragment endpoint : String}
    (hdid : '#' ∉ did.toList)
    (h : TableEntry plcUrl log s!"{did}#{fragment}" endpoint) :
    NamedBy plcUrl log did fragment endpoint := by
  obtain ⟨did', fragment', hkey, hdid', hn⟩ := h
  obtain ⟨rfl, rfl⟩ := cacheKey_inj hdid hdid' hkey
  exact hn

/-! ## What is sent -/

/-- Where a token for the audience may go: to the configured service, to
the host that the audience is, or where a document for it has said. -/
inductive ServedAt (cfg : XrpcConfig L) (plcUrl : String) (log : ForwardLog L) :
    (aud base : String) → Prop
  | configured : ServedAt cfg plcUrl log cfg.appviewDid cfg.appviewUrl
  | web {aud base : String} (h : didWebEndpoint aud = .ok base) : ServedAt cfg plcUrl log aud base
  | plc {aud base fragment : String} (h : NamedBy plcUrl log aud fragment base) :
      ServedAt cfg plcUrl log aud base

theorem ServedAt.mono {log log' : ForwardLog L} (h : ∀ e ∈ log, e ∈ log') {aud base : String}
    (hl : ServedAt cfg plcUrl log aud base) : ServedAt cfg plcUrl log' aud base := by
  cases hl with
  | configured => exact .configured
  | web hweb => exact .web hweb
  | plc hplc => exact .plc (hplc.mono h)

/-- A request that is justified by what task `i` did before. -/
def SentFor (cfg : XrpcConfig L) (parseUrl : String → Except String RelayUrl) (plcUrl : String)
    (log : ForwardLog L) (i : Nat) (r : SentRequest) : Prop :=
  ∃ key iss aud lxm base query,
    (⟨i, .inner (.call (.mintServiceAuthJwt key iss aud lxm)), .ok r.bearer⟩ :
        Event (resolverSig L)) ∈ log
      ∧ r.url = upstreamUrl base lxm query ∧ validateAppviewUrl parseUrl base = .ok ()
      ∧ ServedAt cfg plcUrl log aud base

/-- Everything that was sent is justified. -/
def AllSentFor (cfg : XrpcConfig L) (parseUrl : String → Except String RelayUrl) (plcUrl : String)
    (log : ForwardLog L) : Prop :=
  ∀ e ∈ log, ∀ r, e.op = .inner (.send r) → SentFor cfg parseUrl plcUrl log e.tid r

variable {cfg parseUrl} {M : Machine (forwardSig L) σ χ}
  {w : World (resolverSig L) (Table String String × σ)} {i : Nat}

theorem SentFor.mono {log log' : ForwardLog L} (h : ∀ e ∈ log, e ∈ log') {r : SentRequest}
    (hs : SentFor cfg parseUrl plcUrl log i r) : SentFor cfg parseUrl plcUrl log' i r := by
  obtain ⟨key, iss, aud, lxm, base, query, hmint, hurl, hguard, hserved⟩ := hs
  exact ⟨key, iss, aud, lxm, base, query, h _ hmint, hurl, hguard, hserved.mono cfg h⟩

theorem AllSentFor.append {log : ForwardLog L} (h : AllSentFor cfg parseUrl plcUrl log)
    (e : Event (resolverSig L))
    (he : ∀ r, e.op = .inner (.send r) → SentFor cfg parseUrl plcUrl (log ++ [e]) e.tid r) :
    AllSentFor cfg parseUrl plcUrl (log ++ [e]) := by
  intro e' he' r hr
  rcases List.mem_append.mp he' with hmem | hmem
  · exact (h e' hmem r hr).mono fun e he => List.mem_append_left _ he
  · obtain rfl := List.mem_singleton.mp hmem
    exact he r hr

theorem ignoresTable_allSentFor :
    IgnoresTable (fun _ : σ => AllSentFor cfg parseUrl plcUrl) := by
  intro s l i o r ho h
  exact h.append _ fun r hr => absurd hr (ho _)

/-- The contract of the whole server. -/
abbrev ForwardInv (cfg : XrpcConfig L) (parseUrl : String → Except String RelayUrl)
    (plcUrl : String) : World (resolverSig L) (Table String String × σ) → Prop :=
  MemoInv (TableEntry plcUrl) fun _ => AllSentFor cfg parseUrl plcUrl

abbrev ForwardSafe {α : Type} (cfg : XrpcConfig L) (parseUrl : String → Except String RelayUrl)
    (plcUrl : String) (M : Machine (forwardSig L) σ χ) (i : Nat)
    (post : Except XrpcError α → World (resolverSig L) (Table String String × σ) → Prop)
    (p : Prog (resolverSig L) XrpcError α) (w : World (resolverSig L) (Table String String × σ)) :
    Prop :=
  Safe (.growing (ForwardInv cfg parseUrl plcUrl)) (CachedExec M) i post p w

/-! ## Operation by operation -/

/-- The rule for an operation below the table. -/
theorem safe_inner {α : Type}
    {post : Except XrpcError α → World (resolverSig L) (Table String String × σ) → Prop}
    {o : ForwardOp L} {k : o.Ret → Prog (resolverSig L) XrpcError α}
    (ho : ∀ r, o = .send r → ∀ log : ForwardLog L, (∀ e ∈ w.log, e ∈ log) →
      SentFor cfg parseUrl plcUrl log i r)
    (hk : ∀ w' r, (∀ e ∈ w.log, e ∈ w'.log) →
      (⟨i, .inner o, r⟩ : Event (resolverSig L)) ∈ w'.log → ForwardInv cfg parseUrl plcUrl w' →
      ForwardSafe cfg parseUrl plcUrl M i post (k r) w') :
    ForwardSafe cfg parseUrl plcUrl M i post (.op (S := resolverSig L) (.inner o) k) w := by
  refine Safe.op_growing fun w₁ hr hinv r s hE => ?_
  obtain ⟨c, hc⟩ := hE
  have hlog : ∀ e ∈ w.log, e ∈ (w₁.after i (.inner o) r s).log := fun e he =>
    World.mem_after_log.mpr (Or.inl (hr e he))
  have hinv' : ForwardInv cfg parseUrl plcUrl (w₁.after i (.inner o) r s) := by
    refine ⟨hinv.1.after lasting_tableEntry hc fun _ _ h => ?_, hinv.2.append _ fun req hreq => ?_⟩
    · cases h
    · exact ho req (CachedOp.inner.inj hreq) _ hlog
  exact ⟨hinv', hk _ r hlog (World.mem_after_log.mpr (Or.inr rfl)) hinv'⟩

/-- A call that reaches no other server. -/
def XrpcOp.Local : XrpcOp L → Prop
  | .resolveService _ _ => False
  | .proxyRequest _ => False
  | _ => True

theorem calls_of_local {o : XrpcOp L} (ho : o.Local) :
    calls parseUrl plcUrl o = Prog.ask (S := resolverSig L) (.inner (.call o)) := by
  cases o with
  | resolveService did fragment => exact ho.elim
  | proxyRequest req => exact ho.elim
  | _ => rfl

/-- The rule for such a call. -/
theorem safe_local {α : Type}
    {post : Except XrpcError α → World (resolverSig L) (Table String String × σ) → Prop}
    {o : XrpcOp L} (ho : o.Local) {k : o.Ret → XrpcProg L α}
    (hk : ∀ w' r, (∀ e ∈ w.log, e ∈ w'.log) →
      (⟨i, .inner (.call o), r⟩ : Event (resolverSig L)) ∈ w'.log →
      ForwardInv cfg parseUrl plcUrl w' →
      ForwardSafe cfg parseUrl plcUrl M i post ((k r).expand (calls parseUrl plcUrl)) w') :
    ForwardSafe cfg parseUrl plcUrl M i post
      ((Prog.op (S := xrpcSig L) o k).expand (calls parseUrl plcUrl)) w := by
  rw [Prog.expand, calls_of_local ho]
  exact safe_inner (fun r hr => by cases hr) hk

/-! ## The resolver -/

theorem safe_fetchEndpoint (did fragment : String) (hdid : '#' ∉ did.toList) :
    ForwardSafe cfg parseUrl plcUrl M i
      (fun x u => ∀ v, x = .ok v → TableEntry plcUrl u.log s!"{did}#{fragment}" v)
      (fetchEndpoint (L := L) .invalidRequest plcError plcUrl did fragment).uncached w := by
  refine safe_inner (fun r hr => by cases hr) fun w' r _ hmem _ => ?_
  cases r with
  | error e => exact fun _ _ _ _ h => by cases h
  | ok doc =>
      simp only [Prog.ofExcept_ok, Prog.bind_eq, Prog.ret_bind]
      cases hdoc : serviceEndpointFromDoc doc did fragment with
      | none => exact fun _ _ _ _ h => by cases h
      | some endpoint =>
          intro w'' hlog _ v hv
          obtain rfl := Except.ok.inj hv
          exact ⟨did, fragment, rfl, hdid, _, doc, hlog _ hmem, hdoc⟩

/-- What the resolver answers is where the DID leads. -/
theorem safe_resolve (did fragment : String) (hdid : '#' ∉ did.toList) :
    ForwardSafe cfg parseUrl plcUrl M i
      (fun x u => ∀ v, x = .ok v → ServedAt cfg plcUrl u.log did v)
      (resolve (L := L) plcUrl did fragment) w := by
  rw [resolve, resolveDid]
  split_ifs with hweb hplc
  · cases hend : didWebEndpoint did with
    | error e => exact fun _ _ _ _ h => by cases h
    | ok base =>
        intro w' _ _ v hv
        obtain rfl := Except.ok.inj hv
        exact .web hend
  · exact fun _ _ _ _ h => by cases h
  · refine Safe.mono (fun x u _ h v hv => ?_) (Safe.memo lasting_tableEntry ignoresTable_allSentFor
      fun w' _ _ => safe_fetchEndpoint did fragment hdid)
    exact .plc ((h v hv).named hdid)

/-! ## The fallback -/

theorem not_mem_of_splitOnce {s a b : String} {c : Char} (h : Text.splitOnce s c = some (a, b)) :
    c ∉ a.toList := by
  rw [Text.splitOnce] at h
  split at h
  · cases h
  · obtain ⟨rfl, -⟩ := Prod.mk.injEq .. |>.mp (Option.some.inj h)
    rw [Text.upTo, String.toList_ofList]
    intro hmem
    have := List.mem_takeWhile_imp hmem
    simp at this

theorem safe_proxyTarget (nsid : String) (input : ProxyInput)
    (hinv : ForwardInv cfg parseUrl plcUrl w) :
    ForwardSafe cfg parseUrl plcUrl M i
      (fun x u => ∀ t, x = .ok t → ServedAt cfg plcUrl u.log t.1 t.2)
      ((proxyTarget cfg nsid input).expand (calls parseUrl plcUrl)) w := by
  rw [proxyTarget]
  cases input.atprotoProxy with
  | none =>
      dsimp only
      split_ifs
      · intro w' _ _ t ht
        obtain rfl := Except.ok.inj ht
        exact .configured
      · exact fun _ _ _ _ h => by cases h
  | some target =>
      dsimp only
      cases hsplit : Text.splitOnce target '#' with
      | none => exact fun _ _ _ _ h => by cases h
      | some parts =>
          obtain ⟨did, fragment⟩ := parts
          have hcall : ForwardSafe cfg parseUrl plcUrl M i
              (fun x u => ∀ v, x = .ok (.ok v) → ServedAt cfg plcUrl u.log did v)
              (calls (L := L) parseUrl plcUrl (.resolveService did fragment)) w :=
            Safe.attempt (Safe.mono (fun x u _ h v hv => h v (Except.ok.inj hv))
              (safe_resolve did fragment (not_mem_of_splitOnce hsplit)))
          refine Safe.bind (Safe.mono (fun x u _ h => ?_) hcall) hinv
          cases x with
          | error e => exact fun t ht => by cases ht
          | ok r =>
              cases r with
              | error e => exact fun _ _ _ _ ht => by cases ht
              | ok base =>
                  intro w' hlog _ t ht
                  obtain rfl := Except.ok.inj ht
                  exact (h base rfl).mono cfg hlog

/-- The guarded request, where the token and the way are settled. -/
theorem safe_proxyRequest {α : Type} {req : UpstreamRequest} {key : L.Key} {iss aud : String}
    (hmint : (⟨i, .inner (.call (.mintServiceAuthJwt key iss aud req.nsid)), .ok req.jwt⟩ :
      Event (resolverSig L)) ∈ w.log) (hserved : ServedAt cfg plcUrl w.log aud req.baseUrl)
    (hinv : ForwardInv cfg parseUrl plcUrl w) (f : UpstreamResponse → α) :
    ForwardSafe cfg parseUrl plcUrl M i (fun _ _ => True)
      ((Prog.op (S := xrpcSig L) (.proxyRequest req) fun r =>
        (Prog.ofExcept id r : XrpcProg L UpstreamResponse).bind fun u => .ret (f u)).expand
          (calls parseUrl plcUrl)) w := by
  have hrest : ∀ (x : Except XrpcError UpstreamResponse)
      (w' : World (resolverSig L) (Table String String × σ)),
      ForwardSafe cfg parseUrl plcUrl M i (fun _ _ => True)
        (((Prog.ofExcept id x : XrpcProg L UpstreamResponse).bind fun u => .ret (f u)).expand
          (calls parseUrl plcUrl)) w' := by
    intro x w'
    cases x <;> exact fun _ _ _ => trivial
  have hcall : ForwardSafe cfg parseUrl plcUrl M i (fun x u => match x with
      | .ok r => ForwardSafe cfg parseUrl plcUrl M i (fun _ _ => True)
          (((Prog.ofExcept id r : XrpcProg L UpstreamResponse).bind fun u => .ret (f u)).expand
            (calls parseUrl plcUrl)) u
      | .error _ => True) (calls (L := L) parseUrl plcUrl (.proxyRequest req)) w := by
    refine Safe.attempt (p := proxyRequest (L := L) parseUrl req) ?_
    rw [proxyRequest]
    cases hguard : validateAppviewUrl parseUrl req.baseUrl with
    | error e => exact fun w' _ _ => hrest _ w'
    | ok _ =>
        refine safe_inner (fun r hr log hlog => ?_) fun w' r _ _ _ => ?_
        · obtain rfl := ForwardOp.send.inj hr
          exact ⟨key, iss, aud, req.nsid, req.baseUrl, req.query, hlog _ hmint, rfl, hguard,
            hserved.mono cfg hlog⟩
        · cases r <;> exact fun w'' _ _ => hrest _ w''
  refine Safe.bind (Safe.mono (fun x u _ h => ?_) hcall) hinv
  cases x <;> exact h

theorem safe_proxyFallback (did : String) (parts : XrpcParts) (input : ProxyInput)
    (hinv : ForwardInv cfg parseUrl plcUrl w) :
    ForwardSafe cfg parseUrl plcUrl M i (fun _ _ => True)
      ((proxyFallback cfg did parts input).expand (calls parseUrl plcUrl)) w := by
  rw [proxyFallback]
  cases proxyNsid parts.path with
  | none => exact fun _ _ _ => trivial
  | some nsid =>
      cases proxyMethod parts.method with
      | none => exact fun _ _ _ => trivial
      | some method =>
          dsimp only
          split_ifs
          · exact fun _ _ _ => trivial
          · rw [Prog.bind_eq, Prog.expand_bind]
            refine Safe.bind (Safe.mono (fun x u hu h => ?_)
              (safe_proxyTarget nsid input hinv)) hinv
            cases x with
            | error e => trivial
            | ok target =>
                obtain ⟨aud, base⟩ := target
                have hserved := h _ rfl
                refine safe_local (o := .loadSigningKey did) trivial fun w₁ r₁ hlog₁ _ _ => ?_
                cases r₁ with
                | error e => exact fun _ _ _ => trivial
                | ok key =>
                    refine safe_local (o := .mintServiceAuthJwt key did aud nsid) trivial
                      fun w₂ r₂ hlog₂ hmint hinv₂ => ?_
                    cases r₂ with
                    | error e => exact fun _ _ _ => trivial
                    | ok jwt =>
                        exact safe_proxyRequest hmint
                          ((hserved.mono cfg hlog₁).mono cfg hlog₂) hinv₂ _

/-! ## The other handlers -/

/-- A call that neither reaches another server nor mints a token for one. -/
def XrpcOp.Plain (o : XrpcOp L) : Prop :=
  o.Local ∧ ∀ key iss aud lxm, o ≠ .mintServiceAuthJwt key iss aud lxm

theorem each_liftOauth {α : Type} :
    ∀ p : OauthProg α, (liftOauth p : XrpcProg L α).Each XrpcOp.Plain
  | .ret _ => trivial
  | .fail _ => trivial
  | .op _ k => ⟨⟨trivial, fun _ _ _ _ h => by cases h⟩, fun r => each_liftOauth (k r)⟩

theorem each_accessAuth (parts : XrpcParts) : (accessAuth cfg parts).Each XrpcOp.Plain := by
  unfold accessAuth
  refine Prog.Each.bind (Prog.each_ofExcept ..) fun st => ?_
  obtain ⟨scheme, token⟩ := st
  cases scheme with
  | bearer => exact Prog.each_ofExcept ..
  | dpop =>
      dsimp only
      unfold authenticateDpop
      split
      · trivial
      · trivial
      · refine Prog.Each.bind (Prog.each_ofExcept ..) fun claims => ?_
        refine Prog.Each.bind (each_liftOauth _) fun verified => ?_
        split_ifs <;> trivial
      · trivial

theorem each_buildWriter (did : String) : (buildWriter cfg did).Each XrpcOp.Plain := by
  refine ⟨⟨trivial, fun _ _ _ _ h => by cases h⟩, fun r => ?_⟩
  exact Prog.Each.bind (Prog.each_ofExcept ..) fun key =>
    Prog.Each.bind (Prog.each_ofExcept ..) fun _ => trivial

theorem each_write (writer : RepoWriter L) (op : WriteOp L.Ipld) :
    (write writer op).Each XrpcOp.Plain :=
  ⟨⟨trivial, fun _ _ _ _ h => by cases h⟩, fun _ => Prog.each_ofExcept ..⟩

theorem each_ownRepo (repo did : String) :
    (ownRepo repo did : XrpcProg L Unit).Each XrpcOp.Plain := by
  unfold ownRepo
  split_ifs <;> trivial

theorem each_validRkey (rkey : Option String) :
    (validRkey rkey : XrpcProg L Unit).Each XrpcOp.Plain := by
  cases rkey with
  | none => trivial
  | some rkey => exact Prog.each_ofExcept ..

theorem each_createRecord (did : String) (input : CreateRecordInput) (micros : Nat) :
    (createRecord cfg did input micros).Each XrpcOp.Plain :=
  (each_ownRepo _ _).bind fun _ => (Prog.each_ofExcept ..).bind fun _ =>
    (each_validRkey _).bind fun _ => (each_buildWriter did).bind fun _ =>
    (Prog.each_ofExcept ..).bind fun _ => (each_write _ _).bind fun _ => trivial

theorem each_putRecord (did : String) (input : PutRecordInput) :
    (putRecord cfg did input).Each XrpcOp.Plain := by
  refine (each_ownRepo _ _).bind fun _ => (Prog.each_ofExcept ..).bind fun _ =>
    (Prog.each_ofExcept ..).bind fun _ => ⟨⟨trivial, fun _ _ _ _ h => by cases h⟩, fun _ => ?_⟩
  exact (Prog.each_ofExcept ..).bind fun _ => (Prog.each_ofExcept ..).bind fun _ =>
    (each_buildWriter did).bind fun _ => (each_write _ _).bind fun _ => trivial

theorem each_deleteRecord (did : String) (input : DeleteRecordInput) :
    (deleteRecord cfg did input).Each XrpcOp.Plain := by
  refine (each_ownRepo _ _).bind fun _ => (Prog.each_ofExcept ..).bind fun _ =>
    (Prog.each_ofExcept ..).bind fun _ => ⟨⟨trivial, fun _ _ _ _ h => by cases h⟩, fun _ => ?_⟩
  refine (Prog.each_ofExcept ..).bind fun found => ?_
  split_ifs
  · trivial
  · exact (each_buildWriter did).bind fun _ => (each_write _ _).bind fun _ => trivial

theorem each_applyWrite (did : String) (writer : RepoWriter L) (micros : Nat)
    (w : ApplyWritesWrite) : (applyWrite cfg did writer micros w).Each XrpcOp.Plain := by
  cases w with
  | create collection rkey value =>
      exact (Prog.each_ofExcept ..).bind fun _ => (each_validRkey _).bind fun _ =>
        (Prog.each_ofExcept ..).bind fun _ => (each_write _ _).bind fun _ => trivial
  | update collection rkey value =>
      exact (Prog.each_ofExcept ..).bind fun _ => (Prog.each_ofExcept ..).bind fun _ =>
        (Prog.each_ofExcept ..).bind fun _ => (each_write _ _).bind fun _ => trivial
  | delete collection rkey =>
      exact (Prog.each_ofExcept ..).bind fun _ => (Prog.each_ofExcept ..).bind fun _ =>
        (each_write _ _).bind fun _ => trivial

theorem each_applyEach (did : String) (writer : RepoWriter L) (micros : Nat → Nat) :
    ∀ (ws : List ApplyWritesWrite) (last : Option CommitMeta) (results : List Json),
      (applyEach cfg did writer micros ws last results).Each XrpcOp.Plain
  | [], _, _ => trivial
  | w :: ws, _, _ =>
      (each_applyWrite did writer _ w).bind fun _ => each_applyEach did writer micros ws _ _

theorem each_applyWrites (did : String) (input : ApplyWritesInput) (micros : Nat → Nat) :
    (applyWrites cfg did input micros).Each XrpcOp.Plain := by
  refine (each_ownRepo _ _).bind fun _ => ?_
  split_ifs
  · trivial
  · exact (each_buildWriter did).bind fun _ => each_applyEach did _ micros _ _ _

theorem each_uploadBlob (did : String) (contentType : Option String) (body : Bytes) :
    (uploadBlob cfg did contentType body).Each XrpcOp.Plain := by
  unfold uploadBlob
  split_ifs
  · trivial
  · exact ⟨⟨trivial, fun _ _ _ _ h => by cases h⟩, fun _ =>
      (Prog.each_ofExcept ..).bind fun _ => trivial⟩

theorem safe_plain {α : Type} {p : XrpcProg L α} (hp : p.Each XrpcOp.Plain)
    (hinv : ForwardInv cfg parseUrl plcUrl w) :
    ForwardSafe cfg parseUrl plcUrl M i (fun x _ => ∀ a, x = .ok a → p.Returns a)
      (p.expand (calls parseUrl plcUrl)) w := by
  refine Safe.expand (fun o ho w hinv => ?_) hp hinv
  rw [calls_of_local ho.1]
  exact safe_inner (fun r hr => by cases hr) fun w' r _ _ _ _ _ _ => ⟨r, rfl⟩

theorem safe_forwardHandler (q : XrpcRequest) (hinv : ForwardInv cfg parseUrl plcUrl w) :
    ForwardSafe cfg parseUrl plcUrl M i (fun _ _ => True)
      (forwardHandler cfg parseUrl plcUrl q) w := by
  rw [forwardHandler, XrpcRequest.handler, Prog.bind_eq, Prog.expand_bind]
  refine Safe.bind (Safe.mono (fun x u hu _ => ?_) (safe_plain (each_accessAuth q.parts) hinv)) hinv
  cases x with
  | error e => trivial
  | ok did =>
      have hplain : ∀ {p : XrpcProg L XrpcResponse}, p.Each XrpcOp.Plain →
          ForwardSafe cfg parseUrl plcUrl M i (fun _ _ => True)
            (p.expand (calls parseUrl plcUrl)) u := fun hp =>
        Safe.mono (fun _ _ _ _ => trivial) (safe_plain hp hu)
      dsimp only
      cases q.call with
      | createRecord input => exact hplain (each_createRecord did input _)
      | putRecord input => exact hplain (each_putRecord did input)
      | deleteRecord input => exact hplain (each_deleteRecord did input)
      | applyWrites input => exact hplain (each_applyWrites did input _)
      | uploadBlob contentType body => exact hplain (each_uploadBlob did contentType body)
      | proxyFallback input => exact safe_proxyFallback did q.parts input hu

/-! ## For whom a token is minted -/

/-- A token for another service is minted for one of these only. -/
def XrpcOp.MintsFor (D : String → Prop) : XrpcOp L → Prop
  | .mintServiceAuthJwt _ iss _ _ => D iss
  | _ => True

theorem XrpcOp.Plain.mintsFor {D : String → Prop} {o : XrpcOp L} (ho : o.Plain) : o.MintsFor D := by
  cases o with
  | mintServiceAuthJwt key iss aud lxm => exact absurd rfl (ho.2 key iss aud lxm)
  | _ => trivial

theorem mintsFor_proxyFallback {D : String → Prop} {did : String} (hdid : D did)
    (parts : XrpcParts) (input : ProxyInput) :
    (proxyFallback cfg did parts input).Each (XrpcOp.MintsFor D) := by
  rw [proxyFallback]
  cases proxyNsid parts.path with
  | none => trivial
  | some nsid =>
      cases proxyMethod parts.method with
      | none => trivial
      | some method =>
          dsimp only
          split_ifs
          · trivial
          · have htarget : (proxyTarget cfg nsid input).Each (XrpcOp.MintsFor D) := by
              unfold proxyTarget
              split
              · split
                · trivial
                · exact ⟨trivial, fun _ => (Prog.each_ofExcept ..).bind fun _ => trivial⟩
              · split_ifs <;> trivial
            refine htarget.bind fun target =>
              ⟨trivial, fun _ => (Prog.each_ofExcept ..).bind fun _ => ?_⟩
            refine ⟨hdid, fun _ => (Prog.each_ofExcept ..).bind fun _ => ?_⟩
            exact ⟨trivial, fun _ => (Prog.each_ofExcept ..).bind fun _ => trivial⟩

theorem mintsFor_handler (q : XrpcRequest) :
    (q.handler cfg).Each (XrpcOp.MintsFor fun did => (accessAuth cfg q.parts).Returns did) := by
  refine Prog.Each.bind_returns ((each_accessAuth q.parts).mono fun _ ho => ho.mintsFor)
    fun did hdid => ?_
  have hplain : ∀ {p : XrpcProg L XrpcResponse}, p.Each XrpcOp.Plain →
      p.Each (XrpcOp.MintsFor fun did => (accessAuth cfg q.parts).Returns did) := fun hp =>
    hp.mono fun _ ho => ho.mintsFor
  cases q.call with
  | createRecord input => exact hplain (each_createRecord did input _)
  | putRecord input => exact hplain (each_putRecord did input)
  | deleteRecord input => exact hplain (each_deleteRecord did input)
  | applyWrites input => exact hplain (each_applyWrites did input _)
  | uploadBlob contentType body => exact hplain (each_uploadBlob did contentType body)
  | proxyFallback input => exact mintsFor_proxyFallback hdid q.parts input

/-- The same below the calls. -/
def ForwardMintsFor (D : String → Prop) : (resolverSig L).Op → Prop
  | .inner (.call o) => o.MintsFor D
  | _ => True

theorem mintsFor_calls {D : String → Prop} {o : XrpcOp L} (ho : o.MintsFor D) :
    (calls parseUrl plcUrl o).Each (ForwardMintsFor D) := by
  cases o with
  | resolveService did fragment =>
      refine Prog.Each.attempt ?_
      rw [resolve, resolveDid]
      split_ifs
      · exact Prog.each_ofExcept ..
      · trivial
      · refine Prog.Each.memo trivial (fun _ => trivial) ⟨trivial, fun r => ?_⟩
        refine (Prog.each_ofExcept ..).bind fun doc => ?_
        split <;> trivial
  | proxyRequest req =>
      exact Prog.Each.attempt ((Prog.each_ofExcept ..).bind fun _ =>
        ⟨trivial, fun _ => Prog.each_ofExcept ..⟩)
  | _ => exact ⟨ho, fun _ => trivial⟩

/-! ## The run -/

/-- **A service token goes to its audience.** In every run of the server,
whatever is interleaved with what and whatever the directory and the
other calls answer, a request that was sent carries a token that its own
task had minted: for the subject of the task's session and for one
audience. It went to a base the guard passes, and that is the configured
service's, the host of the audience's `did:web`, or an endpoint that the
directory named for the audience and not for another service. -/
theorem token_to_its_audience (cfg : XrpcConfig L) (parseUrl : String → Except String RelayUrl)
    (plcUrl : String) (M : Machine (forwardSig L) σ χ) {s : σ}
    {as : List (PoolAct XrpcRequest χ)} {P : ForwardPool L σ}
    (hrun : Steps.run (Pool.next (cachedMachine M) (forwardHandler cfg parseUrl plcUrl))
      (Pool.init (Table.empty, s)) as = some P) {e : Event (resolverSig L)} (he : e ∈ P.log)
    {r : SentRequest} (hsend : e.op = .inner (.send r)) :
    ∃ q p key iss aud lxm base query, P.tasks[e.tid]? = some (q, p)
      ∧ (accessAuth cfg q.parts).Returns iss
      ∧ (⟨e.tid, .inner (.call (.mintServiceAuthJwt key iss aud lxm)), .ok r.bearer⟩ :
          Event (resolverSig L)) ∈ P.log
      ∧ r.url = upstreamUrl base lxm query ∧ validateAppviewUrl parseUrl base = .ok ()
      ∧ ServedAt cfg plcUrl P.log aud base := by
  have hinit : ForwardInv (σ := σ) cfg parseUrl plcUrl ⟨(Table.empty, s), []⟩ := by
    refine ⟨fun k v h => ?_, fun e he => ?_⟩
    · cases h
    · cases he
  have hallowed : ∀ (P : ForwardPool L σ) (a : PoolAct XrpcRequest χ),
      Pool.Allowed (cachedMachine M) (CachedExec M) P a := by
    intro P a
    cases a with
    | start q => trivial
    | step i c => exact fun q o k r s _ hexec => ⟨c, hexec⟩
  have hgood : Pool.Good (.growing (ForwardInv cfg parseUrl plcUrl)) (CachedExec M)
      (fun _ _ _ _ => True) P :=
    Pool.good_run (fun q i w hinv _ => safe_forwardHandler q hinv) hinit
      (Steps.along_of_forall hallowed) hrun
  obtain ⟨key, iss, aud, lxm, base, query, hmint, hurl, hguard, hserved⟩ :=
    hgood.1.2 e he r hsend
  have hobeys := Pool.obeys_run (Q := fun q => ForwardMintsFor fun did =>
      (accessAuth cfg q.parts).Returns did)
    (fun q => (mintsFor_handler q).expand fun o ho => mintsFor_calls ho) hrun
  obtain ⟨q, p, htask, hiss⟩ := hobeys.2 _ hmint
  exact ⟨q, p, key, iss, aud, lxm, base, query, htask, hiss, hmint, hurl, hguard, hserved⟩

end

/-! ## A feed generator that is asked -/

def forwardServer : XrpcConfig sampleRepo :=
  { batchServer with
    decodeJwt := fun token => if token = "session"
      then .ok ⟨"did:plc:alice", "com.atproto.access"⟩ else .error .invalidToken }

/-- A directory with one service in every document. -/
def feedMachine : Machine (forwardSig sampleRepo) Unit Unit where
  exec _ _ o _ := match o with
    | .fetchDoc _ => some (.ok (.obj [("service", .arr [.obj [("id", .str "#bsky_fg"),
        ("serviceEndpoint", .str "https://feeds.test")]])]), ())
    | .call (.loadSigningKey _) => some (.ok (), ())
    | .call (.mintServiceAuthJwt _ _ _ _) => some (.ok "minted", ())
    | .send _ => some (.ok ⟨200, [], none, none⟩, ())
    | _ => none

def feedQuery : XrpcRequest where
  parts := {
    authorization := some (some "Bearer session"), dpopHeaders := [], method := "GET"
    path := "/xrpc/app.bsky.feed.getFeedSkeleton", tokenNow := 0, dpopNow := 0, nonceNow := 0 }
  call := .proxyFallback {
    query := "", atprotoProxy := some "did:plc:feeds#bsky_fg", contentType := none
    acceptLabelers := none, body := [] }
  micros _ := 0

/-- A first lookup: the table is asked, then the directory. -/
def feedRun : Option (ForwardPool sampleRepo Unit) :=
  Steps.run (Pool.next (cachedMachine feedMachine)
      (forwardHandler forwardServer parseFeedsUrl "https://plc.test"))
    (Pool.init (Table.empty, ()))
    (.start feedQuery :: List.replicate 6 (.step 0 ()))

theorem feed_token_sent : ∃ P e r, feedRun = some P ∧ e ∈ P.log ∧ e.op = .inner (.send r)
    ∧ ∃ q p key iss aud lxm base query, P.tasks[e.tid]? = some (q, p)
      ∧ (accessAuth forwardServer q.parts).Returns iss
      ∧ (⟨e.tid, .inner (.call (.mintServiceAuthJwt key iss aud lxm)), .ok r.bearer⟩ :
          Event (resolverSig sampleRepo)) ∈ P.log
      ∧ r.url = upstreamUrl base lxm query ∧ validateAppviewUrl parseFeedsUrl base = .ok ()
      ∧ ServedAt forwardServer "https://plc.test" P.log aud base := by
  have hsent : (feedRun.bind fun P => P.log.getLast?.map Event.op) = some (.inner (.send {
      method := .get, url := "https://feeds.test/xrpc/app.bsky.feed.getFeedSkeleton", body := none
      contentType := none, bearer := "minted", acceptLabelers := none })) := by rfl
  obtain ⟨P, hP, hlast⟩ := Option.bind_eq_some_iff.mp hsent
  obtain ⟨e, he, hop⟩ := Option.map_eq_some_iff.mp hlast
  exact ⟨P, e, _, hP, List.mem_of_getLast? he, hop,
    token_to_its_audience forwardServer parseFeedsUrl "https://plc.test" feedMachine hP
      (List.mem_of_getLast? he) hop⟩

end Stelyph
