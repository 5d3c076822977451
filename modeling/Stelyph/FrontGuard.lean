import Stelyph.Lib.WhatwgUrl

/-!
# What the front Worker forwards

`dispatch` of `rust-worker/src/lib.rs`, as far as it decides where a
request goes. Paths that begin with `/_stelyph/` are refused before
anything is forwarded, because the account object serves provisioning and
wiping under them without authentication (`durable.rs`).

The guard reads the path as the client wrote it; the object matches the
path of the URL it was forwarded with, once that is parsed. Dot segments
and backslashes lead to the same place by other ways (`LeadsInside`).
-/

namespace Stelyph

open WhatwgUrl (segments move)

/-! ## Requests -/

/-- The path and query of a request: an absolute path, a query alone, or
the asterisk. -/
structure PathAndQuery where
  text : String
  start : text.toList.head? = some '/' ∨ text.toList.head? = some '?' ∨ text = "*"
  /-- No blank, no control character, and no fragment. -/
  visible : ∀ c ∈ text.toList, 0x20 < c.toNat ∧ c ≠ '#'

/-- What the front looks at before it forwards a request: the host header,
the method, and path and query as they were written. -/
structure HttpRequest where
  hostHeader : Option String
  method : String
  path : PathAndQuery

/-- The two settings that the dispatch depends on. -/
structure DispatchEnv where
  zoneSuffix : String
  signupHost : Option String

/-- Where a request goes. -/
inductive Dispatched where
  | missingHost
  | registration
  | notFound
  | sequencer (url : String)
  | account (url : String)
deriving DecidableEq

namespace HttpRequest

/-- The host the request is dispatched by: the header without its port, in lower case. -/
def host (q : HttpRequest) : String :=
  Text.toAsciiLowercase (Text.upTo (q.hostHeader.getD "") ':')

def route (q : HttpRequest) : String := Text.upTo q.path.text '?'

def registrationRoutes : List (String × String) :=
  [("GET", "/"), ("POST", "/register/check"), ("POST", "/xrpc/com.atproto.server.createAccount"),
    ("POST", "/_stelyph/admin/invite"), ("POST", "/_stelyph/admin/delete-account"),
    ("POST", "/_stelyph/admin/firehose-inject")]

end HttpRequest

namespace DispatchEnv

def isSignupHost (env : DispatchEnv) (host : String) : Bool :=
  host == env.zoneSuffix || env.signupHost == some host || Text.endsWith host ".workers.dev"

/-- Where a request goes: to the registration pages, to the sequencer, to
the object of its host, or nowhere, where its path is one of the internal
endpoints. It is the text of the path that is compared, before anything
resolves it. -/
def dispatch (env : DispatchEnv) (q : HttpRequest) : Dispatched :=
  if q.host = "" then .missingHost
  else if env.isSignupHost q.host && HttpRequest.registrationRoutes.contains (q.method, q.route) then
    .registration
  else if Text.startsWith q.path.text "/_stelyph/" then .notFound
  else if Text.endsWith q.route "/xrpc/com.atproto.sync.subscribeRepos" then
    .sequencer s!"https://stelyph.internal{q.path.text}"
  else .account s!"https://stelyph.internal{q.path.text}"

end DispatchEnv

/-! ## What the object sees -/

/-- `url.path()`. -/
def objectPath (url : String) : String :=
  ((Text.stripPrefix url "https://").map fun text => (WhatwgUrl.parseHttps text).path).getD ""

/-- The URL that the object is given has the path of an internal endpoint,
which only other objects are to call. -/
def Internal (url : String) : Prop := Text.startsWith (objectPath url) "/_stelyph/" = true

/-- One segment, before the last, is `_stelyph`; the segments before it
cancel out, and those behind it never climb higher than they go down. -/
def LeadsInside (path : String) : Prop :=
  ∃ a b, segments (path.toList.takeWhile (· != '?')) = a ++ "_stelyph".toList :: b ∧ b ≠ []
    ∧ DotSegments.Cancels move a ∧ DotSegments.Inside move b

/-! ## The path of the forwarded URL -/

theorem PathAndQuery.takeWhile_path (p : PathAndQuery) :
    p.text.toList.takeWhile (!WhatwgUrl.endsPath ·) = p.text.toList.takeWhile (· != '?') := by
  have hcongr : ∀ cs : List Char, '#' ∉ cs →
      cs.takeWhile (!WhatwgUrl.endsPath ·) = cs.takeWhile (· != '?') := by
    intro cs hcs
    induction cs with
    | nil => rfl
    | cons c cs ih =>
        obtain ⟨hne, hcs⟩ := not_or.mp (mt List.mem_cons.mpr hcs)
        have hhash : (c == '#') = false := beq_eq_false_iff_ne.mpr (Ne.symm hne)
        rw [List.takeWhile_cons, List.takeWhile_cons, ih hcs, WhatwgUrl.endsPath, hhash,
          Bool.or_false]
        rfl
  exact hcongr _ fun hmem => (p.visible _ hmem).2 rfl

/-- The object's segments are those of the path as it was written. -/
theorem objectPath_forwarded (p : PathAndQuery) :
    ∃ cs, segments cs = segments (p.text.toList.takeWhile (· != '?'))
      ∧ objectPath s!"https://stelyph.internal{p.text}"
        = String.ofList (WhatwgUrl.serializePath (WhatwgUrl.parsePath cs)) := by
  have hstrip : Text.stripPrefix s!"https://stelyph.internal{p.text}" "https://"
      = some (String.ofList ("stelyph.internal".toList ++ p.text.toList)) := by
    have hsplit : s!"https://stelyph.internal{p.text}"
        = "https://" ++ String.ofList ("stelyph.internal".toList ++ p.text.toList) := by
      rw [String.ofList_append, String.ofList_toList, String.ofList_toList, ← String.append_assoc]
      rfl
    rw [hsplit, Text.stripPrefix_append]
  rw [objectPath, hstrip, ← p.takeWhile_path]
  by_cases hstar : p.text = "*"
  · refine ⟨[], by rw [hstar]; decide, ?_⟩
    -- The asterisk becomes part of the authority.
    have hpath : (WhatwgUrl.parseHttps (String.ofList ("stelyph.internal*".toList ++ []))).path
        = String.ofList (WhatwgUrl.serializePath (WhatwgUrl.parsePath [])) :=
      WhatwgUrl.path_parseHttps (Text.forall_mem_of_all (by decide)) fun c hc => by cases hc
    rw [hstar]
    exact hpath
  · refine ⟨_, rfl, ?_⟩
    refine WhatwgUrl.path_parseHttps (Text.forall_mem_of_all (by decide)) fun c hc => ?_
    rcases p.start with h | h | h
    · rw [h] at hc
      cases hc
      rfl
    · rw [h] at hc
      cases hc
      rfl
    · exact absurd h hstar

theorem internal_forwarded_iff (p : PathAndQuery) :
    Internal s!"https://stelyph.internal{p.text}" ↔ LeadsInside p.text := by
  obtain ⟨cs, hsegs, hpath⟩ := objectPath_forwarded p
  have hprefix : "/_stelyph/".toList = '/' :: ("_stelyph".toList ++ ['/']) := by decide
  rw [Internal, hpath, Text.startsWith, List.isPrefixOf_iff_prefix, hprefix,
    String.toList_ofList (l := WhatwgUrl.serializePath _), LeadsInside, ← hsegs]
  have hplain : ∀ c ∈ "_stelyph".toList, WhatwgUrl.pathSet c = false :=
    Text.forall_mem_of_all (by decide)
  exact WhatwgUrl.prefix_parsePath_iff (by decide) hplain (by decide) (by decide)

theorem dispatch_account {env : DispatchEnv} {q : HttpRequest} {url : String}
    (h : env.dispatch q = .account url) : url = s!"https://stelyph.internal{q.path.text}" := by
  unfold DispatchEnv.dispatch at h
  split at h
  · cases h
  · split at h
    · cases h
    · split at h
      · cases h
      · split at h
        · cases h
        · exact (Dispatched.account.inj h).symm

/-- A forwarded request stays out of the internal endpoints exactly where
its path does not lead inside. The guard compares the text of the path,
and the runtime resolves the dots in it afterwards: a path that climbs
passes the one and arrives where the other did not look. -/
theorem forwarded_outside_iff (env : DispatchEnv) (q : HttpRequest) (url : String)
    (h : env.dispatch q = .account url) : ¬ Internal url ↔ ¬ LeadsInside q.path.text := by
  rw [dispatch_account h]
  exact not_congr (internal_forwarded_iff q.path)

def sampleDispatch : DispatchEnv := { zoneSuffix := "pds.test", signupHost := none }

def HttpRequest.toAlice (method : String) (path : PathAndQuery) : HttpRequest :=
  { hostHeader := some "alice.pds.test:8787", method := method, path := path }

def headQuery : PathAndQuery :=
  { text := "/xrpc/com.atproto.sync.getHead?did=/_stelyph/"
    start := by decide
    visible := Text.forall_mem_of_all (by decide) }

theorem headQuery_outside :
    ¬ Internal "https://stelyph.internal/xrpc/com.atproto.sync.getHead?did=/_stelyph/"
      ↔ ¬ LeadsInside "/xrpc/com.atproto.sync.getHead?did=/_stelyph/" :=
  forwarded_outside_iff sampleDispatch (.toAlice "GET" headQuery) _ (by decide +kernel)

/-- Out of `x` and into the internal endpoints. -/
def climbingPath : PathAndQuery :=
  { text := "/x/.%2E/_stelyph\\delete-account"
    start := by decide
    visible := Text.forall_mem_of_all (by decide) }

theorem climbingPath_reaches_delete :
    sampleDispatch.dispatch (.toAlice "POST" climbingPath)
        = .account "https://stelyph.internal/x/.%2E/_stelyph\\delete-account"
      ∧ objectPath "https://stelyph.internal/x/.%2E/_stelyph\\delete-account"
        = "/_stelyph/delete-account"
      ∧ ¬ ∀ env q url, DispatchEnv.dispatch env q = .account url → ¬ Internal url := by
  have hdispatch : sampleDispatch.dispatch (.toAlice "POST" climbingPath)
      = .account "https://stelyph.internal/x/.%2E/_stelyph\\delete-account" := by decide +kernel
  have hpath : objectPath "https://stelyph.internal/x/.%2E/_stelyph\\delete-account"
      = "/_stelyph/delete-account" := by decide +kernel
  refine ⟨hdispatch, hpath, fun h => h _ _ _ hdispatch ?_⟩
  rw [Internal, hpath]
  decide

end Stelyph
