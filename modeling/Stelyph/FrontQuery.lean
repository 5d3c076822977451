import Stelyph.PercentDecode
import Stelyph.Lib.WhatwgUrl

/-!
# The query of a request, read twice

The front Worker routes a request of the shared host by one parameter of
its query, with a splitter of its own (`query_param` in
`rust-worker/src/lib.rs`); the account object parses the URL the request
is forwarded with and asks `url.query_pairs()` (`durable.rs`).

The two decode values alike (`percentDecode_value`). They differ in the
pairs they look at: the front compares the name as it is written and
skips a pair without an equals sign, the standard parser decodes the name
first and takes such a pair for an empty value.
-/

namespace Stelyph

namespace Worker

/-! ## The front -/

/-- What the front reads: the first pair with that very name, and its
value decoded. The names themselves are not decoded. -/
def queryParam (query key : String) : Option String :=
  (Text.split query '&').findSome? fun pair =>
    match Text.splitOnce pair '=' with
    | none => none
    | some (k, v) =>
        if k = key then some (percentDecode (Text.replaceChar v '+' ' ')) else none

def repoScoped : List String :=
  ["/xrpc/com.atproto.repo.getRecord", "/xrpc/com.atproto.repo.listRecords",
    "/xrpc/com.atproto.repo.describeRepo", "/xrpc/com.atproto.sync.getRepo",
    "/xrpc/com.atproto.sync.getLatestCommit", "/xrpc/com.atproto.sync.getBlob",
    "/xrpc/com.atproto.sync.listBlobs"]

/-- `resolveDid` is the registry's answer: a label, if it has one. -/
def repoScopedTarget (resolveDid : String → Option String) (path zoneSuffix : String) :
    Option String := do
  let (route, query) ← Text.splitOnce path '?'
  if !repoScoped.contains route then none
  else
    let ident ← (queryParam query "repo").or (queryParam query "did")
    if Text.startsWith ident "did:" then
      (resolveDid ident).map fun label => s!"{label}.{zoneSuffix}"
    else
      let h := Text.toAsciiLowercase ident
      if Text.endsWith h s!".{zoneSuffix}" then some h else none

def resolveHandleTarget (path zoneSuffix : String) : Option String := do
  let (route, query) ← Text.splitOnce path '?'
  if route ≠ "/xrpc/com.atproto.identity.resolveHandle" then none
  else
    let handle := Text.toAsciiLowercase (← queryParam query "handle")
    if Text.endsWith handle s!".{zoneSuffix}" then some handle else none

/-! ## The object -/

/-- What the object reads: `url.query_pairs().find(key)` of the URL the
request is forwarded with, names and values decoded. -/
def objectParam (query key : String) : Option String :=
  Form.find (String.ofList (WhatwgUrl.encode WhatwgUrl.querySet query.toList)) key

theorem objectParam_eq (query key : String) : objectParam query key = Form.find query key := by
  rw [objectParam, Form.find, WhatwgUrl.form_parse_encode, String.ofList_toList]
  rfl

/-! ## Values -/

theorem bytes_replacePlus (v : String) :
    Text.bytes (Text.replaceChar v '+' ' ') = (Text.bytes v).map Form.plusToSpace := by
  rw [Text.replaceChar, Utf8.bytes_eq_flatMap, Utf8.bytes_eq_flatMap, String.toList_ofList]
  induction v.toList with
  | nil => rfl
  | cons c cs ih =>
      rw [List.map_cons, List.flatMap_cons, List.flatMap_cons, List.map_append, ih]
      congr 1
      by_cases hc : c = '+'
      · subst hc
        rfl
      · rw [if_neg hc]
        have hkept : ∀ b ∈ String.utf8EncodeChar c, Form.plusToSpace b = b := by
          intro b hb
          refine if_neg ?_
          rintro rfl
          by_cases hascii : c.toNat < 128
          · rw [Utf8.encode_ascii hascii] at hb
            have hnat := congrArg UInt8.toNat (List.mem_singleton.mp hb)
            rw [UInt8.toNat_ofNat', Nat.mod_eq_of_lt (by omega)] at hnat
            exact hc (Char.toNat_inj.mp hnat.symm)
          · exact absurd (Utf8.encode_high (Nat.not_lt.mp hascii) hb) (by decide)
        rw [List.map_congr_left hkept, List.map_id']

/-- Without plus signs there is no signed number, so the two decoders are
the same. -/
theorem percentDecode_value (v : String) :
    percentDecode (Text.replaceChar v '+' ' ') = Form.decode v := by
  have hno : ∀ b ∈ (Text.bytes v).map Form.plusToSpace, ∀ l,
      fromStrRadix b l = Percent.triplet b l := by
    intro b hb l
    obtain ⟨x, -, rfl⟩ := List.mem_map.mp hb
    refine fromStrRadix_of_ne ?_ l
    unfold Form.plusToSpace
    split
    · decide
    · assumption
  rw [percentDecode, bytes_replacePlus, Percent.decodeWith_congr hno]
  rfl

/-! ## The pairs looked at -/

/-- The pair is called `key` once its name is decoded. -/
def names (key pair : String) : Bool := Form.decode (Form.name pair) == key

/-- The pair is written `key=`. -/
def plain (key pair : String) : Bool := pair.toList.contains '=' && Form.name pair == key

theorem findSome?_ite {α β : Type} (c : α → Bool) (f : α → β) (xs : List α) :
    xs.findSome? (fun x => if c x then some (f x) else none) = (xs.find? c).map f := by
  induction xs with
  | nil => rfl
  | cons x xs ih =>
      rw [List.findSome?_cons, List.find?_cons]
      cases c x with
      | true => rfl
      | false => exact ih

/-- What is before and after the first equals sign. -/
theorem splitOnce_eq (p : String) :
    Text.splitOnce p '='
      = if p.toList.contains '=' then some (Form.name p, Form.value p) else none := by
  by_cases h : '=' ∈ p.toList
  · rw [if_pos (List.contains_iff_mem.mpr h)]
    obtain ⟨n, v, hp, hn⟩ := List.eq_append_cons_of_mem h
    rw [← String.ofList_toList (s := p), hp, Text.splitOnce_append n v hn, Form.name_of_eq hn,
      Form.value_of_eq hn]
  · rw [if_neg (mt List.contains_iff_mem.mp h), Text.splitOnce_of_not_mem h]

theorem queryParam_eq (query key : String) :
    queryParam query key
      = ((Text.split query '&').find? (plain key)).map fun p => Form.decode (Form.value p) := by
  rw [← findSome?_ite, queryParam]
  refine congrArg (fun f => List.findSome? f (Text.split query '&')) (funext fun p => ?_)
  rw [splitOnce_eq, plain]
  cases p.toList.contains '=' with
  | false => rfl
  | true => simp only [if_true, Bool.true_and, percentDecode_value, beq_iff_eq]

theorem objectParam_eq_find {key : String} (hkey : key ≠ "") (query : String) :
    objectParam query key
      = ((Text.split query '&').find? (names key)).map fun p => Form.decode (Form.value p) := by
  have hpred : (fun p => decide (decide (p ≠ "") = true ∧ (Form.decode (Form.name p) == key) = true))
      = names key := by
    funext p
    by_cases hp : p = ""
    · have hno : names key "" = false := beq_eq_false_iff_ne.mpr (Ne.symm hkey)
      rw [hp, hno]
      rfl
    · rw [Bool.eq_iff_iff, decide_eq_true_eq, decide_eq_true_eq]
      exact and_iff_right hp
  rw [objectParam_eq, Form.find, Form.parse, Form.pieces, List.find?_map, Option.map_map,
    List.find?_filter, ← hpred]
  rfl

/-- The front and the object look at the same pair, or at two with the
same value. -/
def ReadAlike (key query : String) : Prop :=
  (Text.split query '&').find? (names key) = none
  ∨ ∃ p q, (Text.split query '&').find? (names key) = some p
    ∧ (Text.split query '&').find? (plain key) = some q
    ∧ Form.decode (Form.value p) = Form.decode (Form.value q)

/-- The parameters that select an account are written as they are
decoded. -/
theorem decode_key {key : String} (h : key ∈ ["repo", "did", "handle"]) :
    key ≠ "" ∧ Form.decode key = key := by
  simp only [List.mem_cons, List.not_mem_nil, or_false] at h
  rcases h with rfl | rfl | rfl <;> decide +kernel

theorem names_of_plain {key : String} (hkey : Form.decode key = key) {p : String}
    (h : plain key p = true) : names key p = true := by
  rw [plain, Bool.and_eq_true, beq_iff_eq] at h
  rw [names, h.2, hkey, beq_self_eq_true]

theorem param_alike_iff (query : String) {key : String} (hne : key ≠ "")
    (hdecode : Form.decode key = key) :
    queryParam query key = objectParam query key ↔ ReadAlike key query := by
  rw [queryParam_eq, objectParam_eq_find hne, ReadAlike]
  cases hn : (Text.split query '&').find? (names key) with
  | none =>
      have hno : (Text.split query '&').find? (plain key) = none := by
        rw [List.find?_eq_none] at hn ⊢
        exact fun p hp hplain => hn p hp (names_of_plain hdecode hplain)
      rw [hno]
      exact iff_of_true rfl (Or.inl rfl)
  | some p =>
      cases hq : (Text.split query '&').find? (plain key) with
      | none => simp
      | some q => simp [eq_comm]

theorem splitOnce_route {route : String} (h : '?' ∉ route.toList) (query : String) :
    Text.splitOnce (route ++ "?" ++ query) '?' = some (route, query) := by
  have hsplit := Text.splitOnce_append route.toList query.toList h
  rwa [String.ofList_toList, String.ofList_toList, List.append_cons, String.ofList_append,
    String.ofList_append, String.ofList_toList, String.ofList_toList] at hsplit

/-- Where they read alike, a handle is resolved by the object it names. -/
theorem resolveHandleTarget_eq {query : String} (h : ReadAlike "handle" query)
    (zoneSuffix : String) :
    resolveHandleTarget ("/xrpc/com.atproto.identity.resolveHandle" ++ "?" ++ query) zoneSuffix
      = (objectParam query "handle").bind fun handle =>
          if Text.endsWith (Text.toAsciiLowercase handle) s!".{zoneSuffix}"
          then some (Text.toAsciiLowercase handle) else none := by
  obtain ⟨hne, hdecode⟩ := @decode_key "handle" (by decide)
  rw [resolveHandleTarget, splitOnce_route (by decide), ← (param_alike_iff query hne hdecode).mpr h]
  rfl

/-- Where they read alike, a read of a repository goes to the object of the
account that this object finds in the query. -/
theorem repoScopedTarget_eq {route query : String} (hroute : route ∈ repoScoped)
    (hrepo : ReadAlike "repo" query) (hdid : ReadAlike "did" query)
    (resolveDid : String → Option String) (zoneSuffix : String) :
    repoScopedTarget resolveDid (route ++ "?" ++ query) zoneSuffix
      = ((objectParam query "repo").or (objectParam query "did")).bind fun ident =>
          if Text.startsWith ident "did:" then
            (resolveDid ident).map fun label => s!"{label}.{zoneSuffix}"
          else if Text.endsWith (Text.toAsciiLowercase ident) s!".{zoneSuffix}"
          then some (Text.toAsciiLowercase ident) else none := by
  have hmark : ∀ r ∈ repoScoped, '?' ∉ r.toList := by decide
  obtain ⟨hne, hdecode⟩ := @decode_key "repo" (by decide)
  obtain ⟨hne', hdecode'⟩ := @decode_key "did" (by decide)
  rw [repoScopedTarget, splitOnce_route (hmark route hroute),
    ← (param_alike_iff query hne hdecode).mpr hrepo,
    ← (param_alike_iff query hne' hdecode').mpr hdid]
  have hin : repoScoped.contains route = true := List.contains_iff_mem.mpr hroute
  simp only [Option.bind_eq_bind, Option.bind_some, hin, Bool.not_true, Bool.false_eq_true, if_false]

/-- The front extracts what the object finds exactly where they look at
the same pair. The front takes the first one under the very name; the
object decodes the names first, so that an escaped one comes before it. -/
theorem query_read_alike_iff (query key : String) (h : key ∈ ["repo", "did", "handle"]) :
    queryParam query key = objectParam query key ↔ ReadAlike key query := by
  obtain ⟨hne, hdecode⟩ := decode_key h
  exact param_alike_iff query hne hdecode

theorem plainHandle_alike :
    queryParam "x&handle=Alice%2Epds.test&handle=bob" "handle"
      = objectParam "x&handle=Alice%2Epds.test&handle=bob" "handle" :=
  (query_read_alike_iff _ _ (by decide)).mpr
    (Or.inr ⟨"handle=Alice%2Epds.test", "handle=Alice%2Epds.test", by decide +kernel,
      by decide +kernel, rfl⟩)

/-- The name of the first pair is encoded: the front takes the second. -/
theorem encodedName_parts :
    queryParam "%68andle=alice.pds.test&handle=bob.pds.test" "handle" = some "bob.pds.test"
    ∧ objectParam "%68andle=alice.pds.test&handle=bob.pds.test" "handle" = some "alice.pds.test"
    ∧ ¬ ∀ query, ∀ key ∈ ["repo", "did", "handle"],
      queryParam query key = objectParam query key := by
  have hfront : queryParam "%68andle=alice.pds.test&handle=bob.pds.test" "handle"
      = some "bob.pds.test" := by
    rw [queryParam_eq]
    decide +kernel
  have hobject : objectParam "%68andle=alice.pds.test&handle=bob.pds.test" "handle"
      = some "alice.pds.test" := by
    rw [objectParam_eq]
    decide +kernel
  refine ⟨hfront, hobject, fun h => ?_⟩
  have heq := h "%68andle=alice.pds.test&handle=bob.pds.test" "handle" (by decide)
  rw [hfront, hobject] at heq
  exact absurd heq (by decide)

end Worker

end Stelyph
