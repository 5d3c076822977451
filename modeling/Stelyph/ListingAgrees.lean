import Mathlib.Data.List.Sort
import Mathlib.Data.String.Basic
import Stelyph.ApplyWrites
import Stelyph.RecordReads
import Stelyph.RepoListed
import Stelyph.WorkerHistory

/-!
# Point reads and listings

For a DID, `getRecord` answers a record exactly when the pages of
`listRecords`, put together, have it with the same CID and value. That
needs every record that a tree points to to be readable: one that is not
would end every listing of its collection with an error. It holds because
what a write puts into the tree was JSON.

For a handle the two differ. `getRecord` resolves it; `listRecords` looks
for a root under the handle, finds none, and lists nothing.
-/

namespace Stelyph

section

variable {L : RepoLib} {view : TreeView L} {K : TreeLinks L} {s t u : RepoStore L}

/-! ## Calls of the handlers -/

/-- The record of a write was JSON. -/
def WriteOp.OfJson (toIpld : Json → Except String L.Ipld) : WriteOp L.Ipld → Prop
  | .create _ record | .update _ record => ∃ v, toIpld v = .ok record
  | .delete _ => True

def RepoCall.writes : RepoCall L → List (WriteOp L.Ipld)
  | .applyOne op | .applyOneParts op => [op]
  | .applyMany ops => ops

/-- A handler builds its writer for a DID that parses, and makes its
records of JSON. -/
structure ServedCall.OfHandler (cfg : XrpcConfig L) (c : ServedCall L) : Prop where
  did : cfg.parseDid c.request.writer.did = .ok ()
  records : ∀ op ∈ c.request.call.writes, op.OfJson cfg.jsonValueToIpld

/-- What the library does: a DID starts with its scheme, the JSON of a
record is read back as JSON, `get` answers what the tree holds, and the
entries under a prefix are what the tree holds there, in key order. -/
structure ReadLaws (view : TreeView L) (cfg : XrpcConfig L) (X : ReadLib L) : Prop where
  parseDid : ∀ did, cfg.parseDid did = .ok () → Text.startsWith did "did:" = true
  decodes : ∀ v r b, cfg.jsonValueToIpld v = .ok r → L.encodeRecord r = .ok b →
    ∃ v', X.decodeRecord b = .ok v'
  get : TreeGetLaws view X.treeGet
  entries : ∀ f root m p, view f root = some m →
    ∃ es, X.treeEntries f root p = (es, none) ∧ (es.Pairwise fun a b => a.1 < b.1)
      ∧ ∀ key cid, (key, cid) ∈ es ↔ (∃ rest, key = p ++ rest) ∧ m key = some cid

/-! ## Every record can be read -/

/-- The records of the map are there, and decode. -/
def MapLegible (X : ReadLib L) (s : RepoStore L) (m : RecordMap L) : Prop :=
  ∀ key cid, m key = some cid → Worker.Legible X.decodeRecord s cid

/-- What handlers keep: roots belong to DIDs, and records can be read. -/
structure ReadInv (view : TreeView L) (K : TreeLinks L) (X : ReadLib L) (s : RepoStore L) :
    Prop where
  calls : CallsInv view K s
  dids : ∀ did root, s.roots.get did = some root → Text.startsWith did "did:" = true
  legible : ∀ did m, mapOf view s did = some m → MapLegible X s m

variable {X : ReadLib L} {cfg : XrpcConfig L}

theorem MapLegible.mono {m : RecordMap L} (h : MapLegible X s m)
    (hle : BlocksLe s.blocks.get t.blocks.get) : MapLegible X t m := by
  intro key cid hkey
  obtain ⟨block, value, hblock, hvalue⟩ := h key cid hkey
  exact ⟨block, value, hle _ _ hblock, hvalue⟩

theorem apply_eq_some {m : RecordMap L} {o : RepoOp L.Cid} {key : String} {cid : L.Cid}
    (h : o.apply m key = some cid) : m key = some cid ∨ o.cid = some cid := by
  by_cases hkey : key = o.path
  · subst hkey
    rw [RepoOp.apply] at h
    split at h
    · rw [Function.update_self] at h
      cases h
    · rw [Function.update_self] at h
      exact Or.inr h
  · left
    rw [RepoOp.apply] at h
    split at h
    · rwa [Function.update_of_ne hkey] at h
    · rwa [Function.update_of_ne hkey] at h

/-- What listed operations leave in the map was there or is listed. -/
theorem applyOps_eq_some {m : RecordMap L} {ops : List (RepoOp L.Cid)} {key : String}
    {cid : L.Cid} (h : applyOps m ops key = some cid) :
    m key = some cid ∨ ∃ o ∈ ops, o.cid = some cid := by
  induction ops generalizing m with
  | nil => exact Or.inl h
  | cons o ops ih =>
      rcases ih h with hm | ⟨o', ho', hcid⟩
      · rcases apply_eq_some hm with hm | hcid
        · exact Or.inl hm
        · exact Or.inr ⟨o, List.mem_cons_self, hcid⟩
      · exact Or.inr ⟨o', List.mem_cons_of_mem _ ho', hcid⟩

theorem legible_of_ofJson (hX : ReadLaws view cfg X) {op : WriteOp L.Ipld} {o : RepoOp L.Cid}
    (hop : op.OfJson cfg.jsonValueToIpld) (h : op.Lists t o) {cid : L.Cid}
    (hcid : o.cid = some cid) : Worker.Legible X.decodeRecord t cid := by
  cases op with
  | create key record | update key record =>
      obtain ⟨v, hv⟩ := hop
      obtain ⟨block, hblock, hlisted, hget⟩ := h
      obtain rfl := Option.some.inj (hlisted.symm.trans hcid)
      obtain ⟨v', hv'⟩ := hX.decodes v record block hv hblock
      exact ⟨block, v', hget, hv'⟩
  | delete key => cases h.symm.trans hcid

/-- How a call ends, and what it lists if it goes through. -/
def CallListed {α : Type} (view : TreeView L) (K : TreeLinks L) (w : RepoWriter L)
    (rnd : WriteDraw) (s : RepoStore L) (m : RecordMap L) (ops : List (WriteOp L.Ipld))
    (x : Except RepoError α) (t : RepoStore L) : Prop :=
  match x with
  | .error _ => Unmoved s t
  | .ok _ => ∃ o data blocks body, Wrote view K w rnd s t m o data blocks body
      ∧ Listing w ops t body

theorem CallListed.of_done {α : Type} {w : RepoWriter L} {rnd : WriteDraw} {m : RecordMap L}
    {ops : List (WriteOp L.Ipld)} {g : α → CommitBody L.Cid L.Car} {x : Except RepoError α}
    (hdone : CallDone view K w rnd s m g x t) (hlisting : ∀ a, x = .ok a → Listing w ops t (g a)) :
    CallListed view K w rnd s m ops x t := by
  cases x with
  | error e => exact hdone
  | ok a =>
      obtain ⟨o, data, blocks, hwrote⟩ := hdone
      exact ⟨o, data, blocks, g a, hwrote, hlisting a rfl⟩

theorem CallListed.map {α β : Type} {w : RepoWriter L} {rnd : WriteDraw} {m : RecordMap L}
    {ops : List (WriteOp L.Ipld)} {p : RepoProg L α} {f : α → RepoProg L β}
    (hp : RepoYields p s (CallListed view K w rnd s m ops)) (hf : ∀ a, ∃ b, f a = .ret b) :
    RepoYields (p.bind f) s (CallListed view K w rnd s m ops) := by
  refine Prog.Yields.bind ?_ ?_ hp
  · intro a u h
    obtain ⟨b, hb⟩ := hf a
    rw [hb]
    exact h
  · exact fun e u h => h

theorem yields_listed (hL : RepoLaws L) (hV : TreeLaws L view) (hK : LinkLaws K)
    (hs : WellAddressed s.blocks) (q : RepoRequest L) {m : RecordMap L}
    (hm : Standing view K s q.writer.did m) :
    RepoYields q.handler s (CallListed view K q.writer q.rnd s m q.call.writes) := by
  have hone : ∀ op broadcast, RepoYields (commitOp q.writer op broadcast q.rnd) s
      (CallListed view K q.writer q.rnd s m [op]) := fun op broadcast =>
    ((done_commitOp hL hV hK hs hm op broadcast q.rnd).and
      (listing_commitOp hL hs q.writer op broadcast q.rnd)).mono
        fun _ _ h => CallListed.of_done h.1 h.2
  rw [RepoRequest.handler]
  split
  · rename_i op hcall
    rw [hcall]
    exact CallListed.map (CallListed.map (hone op true) fun _ => ⟨_, rfl⟩) fun _ => ⟨_, rfl⟩
  · rename_i op hcall
    rw [hcall]
    exact CallListed.map (hone op false) fun _ => ⟨_, rfl⟩
  · rename_i ops hcall
    rw [hcall]
    exact CallListed.map (((done_applyManyParts hL hV hK hs hm ops q.rnd).and
      (listing_applyManyParts hL hs q.writer ops q.rnd)).mono
        fun _ _ h => CallListed.of_done h.1 h.2) fun _ => ⟨_, rfl⟩

theorem readInv_empty (X : ReadLib L) : ReadInv view K X (RepoStore.empty L) where
  calls := callsInv_empty
  dids _ _ h := by cases h
  legible _ m hm key cid hkey := by
    obtain rfl := Option.some.inj hm
    cases hkey

/-- A call that fails leaves blocks, and nothing becomes unreadable. -/
theorem ReadInv.unmoved (hV : TreeLaws L view) (h : ReadInv view K X s) (hu : Unmoved s t) :
    ReadInv view K X t where
  calls := h.calls.unmoved hV hu
  dids did root hroot := h.dids did root (hu.roots ▸ hroot)
  legible did m hm := by
    obtain ⟨m', hstanding⟩ := h.calls.standing did
    have hm' := hu.mapOf hV hstanding.mapOf
    obtain rfl := Option.some.inj (hm'.symm.trans hm)
    exact (h.legible did m' hstanding.mapOf).mono hu.blocks

/-- A call that goes through puts in records that were JSON. -/
theorem ReadInv.wrote (hV : TreeLaws L view) (hK : LinkLaws K) (hX : ReadLaws view cfg X)
    (h : ReadInv view K X s) {w : RepoWriter L} {rnd : WriteDraw} {m : RecordMap L} {o : Opened L}
    {data : L.Cid} {blocks : List (L.Cid × L.Block)} {body : CommitBody L.Cid L.Car}
    {ops : List (WriteOp L.Ipld)} (hm : Standing view K s w.did m)
    (hw : Wrote view K w rnd s t m o data blocks body) (hlisting : Listing w ops t body)
    (hdid : cfg.parseDid w.did = .ok ()) (hops : ∀ op ∈ ops, op.OfJson cfg.jsonValueToIpld) :
    ReadInv view K X t where
  calls := h.calls.wrote hV hK hw
  dids did root hroot := by
    rw [hw.roots] at hroot
    rcases Table.get_insert_eq_some.mp hroot with ⟨rfl, -⟩ | ⟨-, hold⟩
    · exact hX.parseDid _ hdid
    · exact h.dids did root hold
  legible did m' hm' := by
    by_cases heq : did = w.did
    · subst heq
      obtain rfl := Option.some.inj (hw.standing.mapOf.symm.trans hm')
      intro key cid hkey
      rcases applyOps_eq_some hkey with hold | ⟨o', ho', hcid⟩
      · exact (h.legible _ m hm.mapOf).mono hw.grown key cid hold
      · obtain ⟨op, hop, hlists⟩ := forall₂_right_of_mem hlisting.lists ho'
        exact legible_of_ofJson hX (hops op hop) hlists hcid
    · obtain ⟨m₀, hstanding⟩ := h.calls.standing did
      have hstill := hstanding.mono hV hw.grown
        (by rw [hw.roots, Table.get_insert_of_ne heq] : t.roots.get did = s.roots.get did)
      obtain rfl := Option.some.inj (hstill.mapOf.symm.trans hm')
      exact (h.legible did m₀ hstanding.mapOf).mono hw.grown

theorem readInv_step (hL : RepoLaws L) (hV : TreeLaws L view) (hK : LinkLaws K)
    (hX : ReadLaws view cfg X) {c : ServedCall L} (hc : c.OfHandler cfg)
    (hs : ReadInv view K X s) (h : callStep s c = some t) : ReadInv view K X t := by
  obtain ⟨⟨x, t'⟩, hrun, rfl⟩ := Option.map_eq_some_iff.mp h
  obtain ⟨m, hm⟩ := hs.calls.standing c.request.writer.did
  have hend := (yields_listed hL hV hK hs.calls.addressed c.request hm).of_against hrun
  cases x with
  | error e => exact hs.unmoved hV hend
  | ok a =>
      obtain ⟨o, data, blocks, body, hwrote, hlisting⟩ := hend
      exact hs.wrote hV hK hX hm hwrote hlisting hc.did hc.records

/-- In every state that the handlers' calls reach, records can be read. -/
theorem readInv_run (hL : RepoLaws L) (hV : TreeLaws L view) (hK : LinkLaws K)
    (hX : ReadLaws view cfg X) {cs : List (ServedCall L)} (hcs : ∀ c ∈ cs, c.OfHandler cfg)
    (hrun : Steps.run callStep (RepoStore.empty L) cs = some s) : ReadInv view K X s := by
  have halong : Steps.Along callStep (fun _ c => c.OfHandler cfg) (RepoStore.empty L) cs :=
    Steps.along_of_mem fun _ => hcs
  exact Steps.run_inv_along (fun _ _ _ hs hc h => readInv_step hL hV hK hX hc hs h)
    (readInv_empty X) halong hrun

/-! ## What the handlers answer -/

/-- The entry of a record, as either method shows it: URI, CID, and the
value that is stored under the CID. -/
def entryOf (X : ReadLib L) (s : RepoStore L) (did : String) (e : String × L.Cid) :
    RecordEntry where
  uri := s!"at://{did}/{e.1}"
  cid := X.cidText e.2
  value := ((s.blocks.get e.2).bind fun b => (X.decodeRecord b).toOption).getD .null

/-- The key in the URI of an entry. -/
def keyOf (did : String) (r : RecordEntry) : String :=
  (Text.stripPrefix r.uri s!"at://{did}/").getD ""

theorem keyOf_entryOf (did : String) (e : String × L.Cid) : keyOf did (entryOf X s did e) = e.1 := by
  have huri : s!"at://{did}/{e.1}" = s!"at://{did}/" ++ e.1 := rfl
  rw [keyOf, entryOf, huri, Text.stripPrefix_append]
  rfl

theorem axum_readRecord_eq {did key : String} {cid : L.Cid}
    (h : Worker.Legible X.decodeRecord s cid) :
    Axum.readRecord X s s!"at://{did}/{key}" cid = .ok (entryOf X s did (key, cid)) := by
  obtain ⟨block, value, hblock, hvalue⟩ := h
  simp [Axum.readRecord, readBlockBytes, entryOf, hblock, hvalue, Except.mapError, bind,
    Except.bind, pure, Except.pure, Except.toOption]

theorem embedded_readRecord_eq {did key : String} {cid : L.Cid}
    (h : Worker.Legible X.decodeRecord s cid) :
    Embedded.readRecord X s s!"at://{did}/{key}" cid = .ok (entryOf X s did (key, cid)) := by
  obtain ⟨block, value, hblock, hvalue⟩ := h
  simp [Embedded.readRecord, readBlockBytes, entryOf, hblock, hvalue, Except.mapError, bind,
    Except.bind, pure, Except.pure, Except.toOption]

/-- The loop reads what comes after the cursor, up to the limit. -/
theorem readPage_eq {ε β : Type} {read : String → L.Cid → Except ε β}
    {streamErr : String → ε} {limit : Nat} {cursor : Option String} {f : String × L.Cid → β}
    {es : List (String × L.Cid)} (hread : ∀ e ∈ es, read e.1 e.2 = .ok (f e))
    {page : List (String × β)} (hroom : page.length < limit) :
    readPage read streamErr limit cursor es none page
      = .ok (page ++ ((Paging.after Prod.fst cursor es).map fun e => (e.1, f e)).take
          (limit - page.length)) := by
  induction es generalizing page with
  | nil => cases cursor <;> simp [readPage, Paging.after]
  | cons e es ih =>
      have hrest := fun x hx => hread x (List.mem_cons_of_mem e hx)
      rw [readPage]
      by_cases hskip : (cursor.any fun c => decide (e.1 ≤ c)) = true
      · rw [if_pos hskip, ih hrest hroom]
        cases cursor with
        | none => cases hskip
        | some c =>
            have hle : e.1 ≤ c := of_decide_eq_true hskip
            rw [Paging.after, Paging.after, List.filter_cons_of_neg]
            exact fun h => absurd (of_decide_eq_true h) (not_lt_of_ge hle)
      · have hafter : Paging.after Prod.fst cursor (e :: es)
            = e :: Paging.after Prod.fst cursor es := by
          cases cursor with
          | none => rfl
          | some c =>
              have hlt : c < e.1 := lt_of_not_ge fun hle => hskip (decide_eq_true hle)
              rw [Paging.after, Paging.after, List.filter_cons, if_pos (decide_eq_true hlt)]
        rw [if_neg hskip, hread e List.mem_cons_self, hafter, List.map_cons]
        obtain ⟨n, hn⟩ : ∃ n, limit - page.length = n + 1 :=
          ⟨limit - page.length - 1, by omega⟩
        simp only [bind, Except.bind, List.length_append, List.length_singleton]
        by_cases hfull : limit ≤ page.length + 1
        · obtain rfl : n = 0 := by omega
          rw [if_pos hfull, hn]
          simp [pure, Except.pure]
        · have hroom' : (page ++ [(e.1, f e)]).length < limit := by
            rw [List.length_append, List.length_singleton]
            omega
          have hleft : limit - (page ++ [(e.1, f e)]).length = n := by
            rw [List.length_append, List.length_singleton]
            omega
          rw [if_neg hfull, ih hrest hroom', hleft, hn]
          simp

theorem readPage_start {ε β : Type} {read : String → L.Cid → Except ε β}
    {streamErr : String → ε} {limit : Nat} (hlimit : 0 < limit) {cursor : Option String}
    {f : String × L.Cid → β} {es : List (String × L.Cid)}
    (hread : ∀ e ∈ es, read e.1 e.2 = .ok (f e)) :
    readPage read streamErr limit cursor es none []
      = .ok (((Paging.after Prod.fst cursor es).map fun e => (e.1, f e)).take limit) :=
  readPage_eq hread (show ([] : List (String × β)).length < limit from hlimit)

theorem pageLimit_pos (limit : Option Nat) : 0 < pageLimit limit := by
  cases limit with
  | none => decide
  | some l =>
      rw [pageLimit, Option.map_some, Option.getD_some]
      omega

/-- The listing of a collection, in the order of its keys. -/
structure Listed (m : RecordMap L) (collection : String) (es : List (String × L.Cid)) : Prop where
  sorted : es.Pairwise fun a b => a.1 < b.1
  mem : ∀ key cid, (key, cid) ∈ es ↔ (∃ rest, key = s!"{collection}/" ++ rest) ∧ m key = some cid

/-- What the loop reads for a page: the entries behind the cursor, as many
as the limit says. -/
def rowsOf (X : ReadLib L) (s : RepoStore L) (did : String) (limit : Nat) (cursor : Option String)
    (es : List (String × L.Cid)) : List (String × RecordEntry) :=
  ((Paging.after Prod.fst cursor es).map fun e => (e.1, entryOf X s did e)).take limit

/-- The page without the keys is one of the listing. -/
theorem rowsOf_snd {did : String} {limit : Nat} {cursor : Option String}
    {es : List (String × L.Cid)} :
    (rowsOf X s did limit cursor es).map Prod.snd
      = (Paging.after (keyOf did) cursor (es.map (entryOf X s did))).take limit := by
  have hkey : (fun e => keyOf did (entryOf X s did e)) = Prod.fst := funext (keyOf_entryOf did)
  rw [Paging.after_map, hkey, rowsOf, List.map_take, List.map_map]
  rfl

/-- And its keys are those in the URIs. -/
theorem rowsOf_fst {did : String} {limit : Nat} {cursor : Option String}
    {es : List (String × L.Cid)} :
    (rowsOf X s did limit cursor es).getLast?.map Prod.fst
      = ((rowsOf X s did limit cursor es).map Prod.snd).getLast?.map (keyOf did) := by
  have hkeys : ((rowsOf X s did limit cursor es).map Prod.snd).map (keyOf did)
      = (rowsOf X s did limit cursor es).map Prod.fst := by
    rw [List.map_map]
    refine List.map_congr_left fun e he => ?_
    obtain ⟨e', -, rfl⟩ := List.mem_map.mp (List.mem_of_mem_take he)
    exact keyOf_entryOf did e'
  rw [← List.getLast?_map, ← List.getLast?_map, hkeys]

/-- The axum server answers with the pages of the listing. -/
theorem axum_listRecords_eq (hX : ReadLaws view cfg X) {did : String} {root : L.Cid}
    {m : RecordMap L} (hroot : s.roots.get did = some root) (hm : mapOf view s did = some m)
    (hlegible : MapLegible X s m) (collection : String) :
    ∃ es, Listed m collection es ∧ ∀ limit cursor,
      (Axum.listRecords X s ⟨did, collection, limit, cursor⟩).map
          (fun o => (o.records, o.cursor))
        = .ok (Paging.page (keyOf did) (pageLimit limit) cursor (es.map (entryOf X s did))) := by
  rw [mapOf, hroot] at hm
  obtain ⟨cm, hcm, hview⟩ := Option.bind_eq_some_iff.mp hm
  obtain ⟨es, hes, hsorted, hmem⟩ := hX.entries _ _ m s!"{collection}/" hview
  refine ⟨es, ⟨hsorted, hmem⟩, fun limit cursor => ?_⟩
  have hloop : readPage (fun key cid => Axum.readRecord X s s!"at://{did}/{key}" cid)
      (fun e => .internal s!"MST stream error: {e}") (pageLimit limit) cursor es none []
        = .ok (rowsOf X s did (pageLimit limit) cursor es) :=
    readPage_start (pageLimit_pos limit)
      fun e he => axum_readRecord_eq (hlegible e.1 e.2 ((hmem e.1 e.2).mp he).2)
  rw [Paging.page, ← rowsOf_snd]
  simp only [Axum.listRecords, hroot, openAt_eq hcm, hes, Except.mapError, bind, Except.bind,
    hloop, pure, Except.pure, Except.map]
  rfl

/-- And so does the embedded server. -/
theorem embedded_listRecords_eq (hX : ReadLaws view cfg X) {did : String} {root : L.Cid}
    {m : RecordMap L} (hroot : s.roots.get did = some root) (hm : mapOf view s did = some m)
    (hlegible : MapLegible X s m) (collection : String) :
    ∃ es, Listed m collection es ∧ ∀ limit cursor,
      (Embedded.listRecords X s ⟨some did, some collection, limit, cursor⟩).map
          (fun o => (o.records, o.cursor))
        = .ok (Paging.page (keyOf did) (pageLimit (limit.bind Text.parseU64)) cursor
            (es.map (entryOf X s did))) := by
  rw [mapOf, hroot] at hm
  obtain ⟨cm, hcm, hview⟩ := Option.bind_eq_some_iff.mp hm
  obtain ⟨es, hes, hsorted, hmem⟩ := hX.entries _ _ m s!"{collection}/" hview
  refine ⟨es, ⟨hsorted, hmem⟩, fun limit cursor => ?_⟩
  have hloop : readPage (fun key cid => Embedded.readRecord X s s!"at://{did}/{key}" cid)
      (fun _ => .internal "MST stream error") (pageLimit (limit.bind Text.parseU64)) cursor es
      none [] = .ok (rowsOf X s did (pageLimit (limit.bind Text.parseU64)) cursor es) :=
    readPage_start (pageLimit_pos _)
      fun e he => embedded_readRecord_eq (hlegible e.1 e.2 ((hmem e.1 e.2).mp he).2)
  rw [Paging.page, ← rowsOf_snd, List.length_map, ← rowsOf_fst]
  simp only [Embedded.listRecords, hroot, openAt_eq hcm, hes, Except.mapError, bind, Except.bind,
    hloop, pure, Except.pure, Except.map]

/-- What `getRecord` answers for a map. -/
def recordIn (X : ReadLib L) (s : RepoStore L) (did key : String) (m : RecordMap L) :
    Except XrpcError RecordEntry :=
  match m key with
  | none => .error (.invalidRequest "record not found")
  | some cid => .ok (entryOf X s did (key, cid))

theorem axum_getRecord_eq (hX : ReadLaws view cfg X) (hs : ReadInv view K X s)
    {accounts : AccountStore} {repo did : String} (hrepo : resolveRepoDid accounts repo = .ok did)
    {m : RecordMap L} (hm : mapOf view s did = some m) (collection rkey : String) :
    Axum.getRecord X accounts s ⟨repo, collection, rkey⟩
      = recordIn X s did s!"{collection}/{rkey}" m := by
  have hlookup : Axum.lookupRecordCid X s did s!"{collection}/{rkey}"
      = .ok (m s!"{collection}/{rkey}") := treeLookup_eq hX.get hm _ _ _
  have huri : s!"at://{did}/{collection}/{rkey}" = s!"at://{did}/" ++ s!"{collection}/{rkey}" := by
    simp [toString, String.append_assoc]
  simp only [Axum.getRecord, hrepo, hlookup, bind, Except.bind, recordIn]
  cases hkey : m s!"{collection}/{rkey}" with
  | none => rfl
  | some cid =>
      rw [huri]
      exact axum_readRecord_eq (hs.legible did m hm _ cid hkey)

theorem embedded_getRecord_eq (hX : ReadLaws view cfg X) (hs : ReadInv view K X s)
    {accounts : AccountStore} {repo did : String} (hrepo : resolveRepoDid accounts repo = .ok did)
    {m : RecordMap L} (hm : mapOf view s did = some m) (collection rkey : String) :
    Embedded.getRecord X accounts s ⟨some repo, some collection, some rkey⟩
      = recordIn X s did s!"{collection}/{rkey}" m := by
  have hlookup : Embedded.lookupRecordCid X s did s!"{collection}/{rkey}"
      = .ok (m s!"{collection}/{rkey}") := treeLookup_eq hX.get hm _ _ _
  have huri : s!"at://{did}/{collection}/{rkey}" = s!"at://{did}/" ++ s!"{collection}/{rkey}" := by
    simp [toString, String.append_assoc]
  simp only [Embedded.getRecord, hrepo, hlookup, bind, Except.bind, recordIn]
  cases hkey : m s!"{collection}/{rkey}" with
  | none => rfl
  | some cid =>
      rw [huri]
      exact embedded_readRecord_eq (hs.legible did m hm _ cid hkey)

/-! ## Agreement -/

/-- A reader of the axum server who asks for each page with a limit of
its own. -/
def Axum.fetch (X : ReadLib L) (s : RepoStore L) (repo collection : String)
    (limits : Nat → Option Nat) (n : Nat) (cursor : Option String) :
    Option (List RecordEntry × Option String) :=
  ((Axum.listRecords X s ⟨repo, collection, limits n, cursor⟩).map
    fun o => (o.records, o.cursor)).toOption

def Embedded.fetch (X : ReadLib L) (s : RepoStore L) (repo collection : String)
    (limits : Nat → Option String) (n : Nat) (cursor : Option String) :
    Option (List RecordEntry × Option String) :=
  ((Embedded.listRecords X s ⟨some repo, some collection, limits n, cursor⟩).map
    fun o => (o.records, o.cursor)).toOption

/-- `get` answers an entry exactly when the pages, read to the end, have
it under the URI. -/
def ReadsAgree (get : Except XrpcError RecordEntry)
    (fetch : Nat → Option String → Option (List RecordEntry × Option String)) (uri : String) :
    Prop :=
  ∀ e, get = .ok e ↔ ∃ fuel all, Paging.through fetch fuel 0 none = some all ∧ e ∈ all ∧ e.uri = uri

/-- The two servers agree with themselves, however the listing is cut
into pages. -/
def PointReadsAgree (X : ReadLib L) (accounts : AccountStore) (s : RepoStore L)
    (repo did collection rkey : String) : Prop :=
  (∀ limits, ReadsAgree (Axum.getRecord X accounts s ⟨repo, collection, rkey⟩)
    (Axum.fetch X s repo collection limits) s!"at://{did}/{collection}/{rkey}")
  ∧ ∀ limits, ReadsAgree (Embedded.getRecord X accounts s ⟨some repo, some collection, some rkey⟩)
      (Embedded.fetch X s repo collection limits) s!"at://{did}/{collection}/{rkey}"

/-- An entry of the listing under the URI of a key is the record at the key. -/
theorem mem_listed_iff {m : RecordMap L} {collection rkey did : String}
    {es : List (String × L.Cid)} (h : Listed m collection es) (e : RecordEntry) :
    (e ∈ es.map (entryOf X s did) ∧ e.uri = s!"at://{did}/{collection}/{rkey}")
      ↔ recordIn X s did s!"{collection}/{rkey}" m = .ok e := by
  have huri : s!"at://{did}/{collection}/{rkey}" = s!"at://{did}/" ++ s!"{collection}/{rkey}" := by
    simp [toString, String.append_assoc]
  rw [recordIn]
  constructor
  · intro ⟨he, heq⟩
    obtain ⟨⟨key, cid⟩, hin, rfl⟩ := List.mem_map.mp he
    have hkey : key = s!"{collection}/{rkey}" := by
      rw [huri] at heq
      exact String.append_right_inj _ |>.mp heq
    rw [← hkey, ((h.mem key cid).mp hin).2]
  · intro hget
    split at hget
    · cases hget
    · rename_i cid hcid
      obtain rfl := Except.ok.inj hget
      refine ⟨List.mem_map_of_mem ((h.mem _ cid).mpr ⟨⟨rkey, ?_⟩, hcid⟩), ?_⟩
      · simp [toString, String.append_assoc]
      · rw [huri]
        rfl

/-- Pages of the listing agree with the map it lists. -/
theorem readsAgree_of_listed {m : RecordMap L} {collection rkey did : String}
    {es : List (String × L.Cid)} (h : Listed m collection es)
    {fetch : Nat → Option String → Option (List RecordEntry × Option String)} {limit : Nat → Nat}
    (hlimit : ∀ n, 0 < limit n)
    (hfetch : ∀ n cursor, fetch n cursor
      = some (Paging.page (keyOf did) (limit n) cursor (es.map (entryOf X s did)))) :
    ReadsAgree (recordIn X s did s!"{collection}/{rkey}" m) fetch
      s!"at://{did}/{collection}/{rkey}" := by
  have hsorted : (es.map (entryOf X s did)).Pairwise fun a b => keyOf did a < keyOf did b := by
    rw [List.pairwise_map]
    refine h.sorted.imp fun {a b} hlt => ?_
    rwa [keyOf_entryOf, keyOf_entryOf]
  intro e
  rw [Paging.through_iff hfetch hlimit hsorted
    fun all => e ∈ all ∧ e.uri = s!"at://{did}/{collection}/{rkey}"]
  exact (mem_listed_iff h e).symm

/-- Where nothing is fetched, there is agreement where nothing is there. -/
theorem readsAgree_none_iff {m : RecordMap L} {key did uri : String}
    {fetch : Nat → Option String → Option (List RecordEntry × Option String)}
    (hfetch : ∀ n cursor, fetch n cursor = none) :
    ReadsAgree (recordIn X s did key m) fetch uri ↔ m key = none := by
  have hnothing := fun fuel => Paging.through_of_none hfetch fuel 0 none
  rw [recordIn]
  constructor
  · intro h
    cases hkey : m key with
    | none => rfl
    | some cid =>
        rw [hkey] at h
        obtain ⟨fuel, all, hall, -⟩ := (h _).mp rfl
        cases (hnothing fuel).symm.trans hall
  · intro hkey e
    rw [hkey]
    constructor
    · intro h
      cases h
    · intro ⟨fuel, all, hall, _⟩
      cases (hnothing fuel).symm.trans hall

/-- Without a root nothing is fetched. -/
theorem axum_fetch_none {repo : String} (hroot : s.roots.get repo = none) (collection : String)
    (limits : Nat → Option Nat) (n : Nat) (cursor : Option String) :
    Axum.fetch X s repo collection limits n cursor = none := by
  simp [Axum.fetch, Axum.listRecords, hroot, Except.map, Except.toOption]

theorem embedded_fetch_none {repo : String} (hroot : s.roots.get repo = none)
    (collection : String) (limits : Nat → Option String) (n : Nat) (cursor : Option String) :
    Embedded.fetch X s repo collection limits n cursor = none := by
  simp [Embedded.fetch, Embedded.listRecords, hroot, Except.map, Except.toOption]

/-- In every state that the handlers' calls reach, and for every `repo`
that `getRecord` takes, every collection and every key: the two methods
agree if and only if `repo` is a DID, or its account has no such record. -/
theorem pointReads_agree_iff (hL : RepoLaws L) (hV : TreeLaws L view) (hK : LinkLaws K)
    (hX : ReadLaws view cfg X) (cs : List (ServedCall L)) (hcs : ∀ c ∈ cs, c.OfHandler cfg)
    (s : RepoStore L) (hrun : Steps.run callStep (RepoStore.empty L) cs = some s)
    (accounts : AccountStore) (repo did : String)
    (hrepo : resolveRepoDid accounts repo = .ok did) (collection rkey : String) :
    PointReadsAgree X accounts s repo did collection rkey
      ↔ (Text.startsWith repo "did:" = true
        ∨ ∀ m, mapOf view s did = some m → m s!"{collection}/{rkey}" = none) := by
  have hs : ReadInv view K X s := readInv_run hL hV hK hX hcs hrun
  obtain ⟨m, hstanding⟩ := hs.calls.standing did
  have hm := hstanding.mapOf
  have hnone : (∀ m, mapOf view s did = some m → m s!"{collection}/{rkey}" = none)
      ↔ m s!"{collection}/{rkey}" = none := by
    constructor
    · exact fun h => h m hm
    · intro h m' hm'
      rwa [← Option.some.inj (hm.symm.trans hm')]
  rw [PointReadsAgree, axum_getRecord_eq hX hs hrepo hm, embedded_getRecord_eq hX hs hrepo hm, hnone]
  cases hroot : s.roots.get repo with
  | none =>
      have haxum : ∀ limits, ReadsAgree (recordIn X s did s!"{collection}/{rkey}" m)
          (Axum.fetch X s repo collection limits) s!"at://{did}/{collection}/{rkey}"
            ↔ m s!"{collection}/{rkey}" = none :=
        fun limits => readsAgree_none_iff (axum_fetch_none hroot collection limits)
      have hembedded : ∀ limits, ReadsAgree (recordIn X s did s!"{collection}/{rkey}" m)
          (Embedded.fetch X s repo collection limits) s!"at://{did}/{collection}/{rkey}"
            ↔ m s!"{collection}/{rkey}" = none :=
        fun limits => readsAgree_none_iff (embedded_fetch_none hroot collection limits)
      simp only [haxum, hembedded, forall_const, and_self]
      refine ⟨Or.inr, fun h => ?_⟩
      rcases h with hdid | h
      · -- a DID without a root has no records
        rw [resolveRepoDid, if_pos hdid] at hrepo
        obtain rfl := Except.ok.inj hrepo
        rw [mapOf, hroot] at hm
        rw [← Option.some.inj hm]
      · exact h
  | some root =>
      have hdid := hs.dids repo root hroot
      rw [resolveRepoDid, if_pos hdid] at hrepo
      obtain rfl := Except.ok.inj hrepo
      refine ⟨fun _ => Or.inl hdid, fun _ => ⟨fun limits => ?_, fun limits => ?_⟩⟩
      · obtain ⟨es, hes, hpages⟩ := axum_listRecords_eq hX hroot hm
          (hs.legible repo m hm) collection
        refine readsAgree_of_listed hes (fun n => pageLimit_pos (limits n)) fun n cursor => ?_
        rw [Axum.fetch, hpages]
        rfl
      · obtain ⟨es, hes, hpages⟩ := embedded_listRecords_eq hX hroot hm
          (hs.legible repo m hm) collection
        refine readsAgree_of_listed hes (fun n => pageLimit_pos ((limits n).bind Text.parseU64))
          fun n cursor => ?_
        rw [Embedded.fetch, hpages]
        rfl

end

/-! ## The small library -/

def sampleEntries : TreeEntries sampleRepo := fun f root p =>
  match f root with
  | none => ([], some "CidNotFound")
  | some node =>
      (((node.keys.dedup.filter fun k => Text.startsWith k p).insertionSort (· ≤ ·)).filterMap
        fun k => (SampleBlock.lookup k node).map fun c => (k, c), none)

def sampleReads : ReadLib sampleRepo where
  treeGet := sampleTreeGet
  treeEntries := sampleEntries
  decodeRecord
    | .record n => .ok (.num n)
    | _ => .error "not a record"
  cidText _ := "cid"

def readServer : XrpcConfig sampleRepo :=
  { batchServer with
    parseDid := fun did => if Text.startsWith did "did:" then .ok () else .error "not a DID"
    jsonValueToIpld := fun v =>
      match v with
      | .num n => .ok n.toNat
      | _ => .error "not a number" }

theorem startsWith_iff (s p : String) : Text.startsWith s p = true ↔ ∃ rest, s = p ++ rest := by
  rw [Text.startsWith, List.isPrefixOf_iff_prefix]
  constructor
  · intro ⟨l, hl⟩
    refine ⟨String.ofList l, ?_⟩
    rw [← String.toList_inj, String.toList_append, String.toList_ofList, hl]
  · intro ⟨rest, hrest⟩
    rw [hrest, String.toList_append]
    exact List.prefix_append _ _

theorem sampleReads_laws : ReadLaws sampleView readServer sampleReads where
  parseDid did h := by
    by_contra hdid
    simp [readServer, hdid] at h
  decodes v r b _ hb := by
    obtain rfl := Except.ok.inj hb
    exact ⟨_, rfl⟩
  get := sampleTreeGet_laws
  entries f root m p hview := by
    obtain ⟨node, hnode, rfl⟩ := Option.map_eq_some_iff.mp hview
    let keys := (node.keys.dedup.filter fun k => Text.startsWith k p).insertionSort (· ≤ ·)
    have hnodup : keys.Nodup :=
      (List.perm_insertionSort _ _).nodup_iff.mpr ((List.nodup_dedup _).filter _)
    have hsorted : keys.Pairwise (· < ·) :=
      ((List.pairwise_insertionSort (· ≤ ·) _).and hnodup).imp fun h => lt_of_le_of_ne h.1 h.2
    have hmem : ∀ k, k ∈ keys ↔ (SampleBlock.lookup k node).isSome = true
        ∧ ∃ rest, k = p ++ rest := by
      intro k
      rw [List.mem_insertionSort, List.mem_filter, List.mem_dedup, SampleBlock.mem_keys,
        startsWith_iff]
    refine ⟨keys.filterMap fun k => (SampleBlock.lookup k node).map fun c => (k, c), ?_, ?_, ?_⟩
    · simp only [sampleReads, sampleEntries, hnode, keys]
    · rw [List.pairwise_filterMap]
      refine hsorted.imp fun {k k'} hlt b hb b' hb' => ?_
      obtain ⟨c, -, rfl⟩ := Option.map_eq_some_iff.mp hb
      obtain ⟨c', -, rfl⟩ := Option.map_eq_some_iff.mp hb'
      exact hlt
    · intro key cid
      rw [List.mem_filterMap]
      constructor
      · intro ⟨k, hk, hkey⟩
        obtain ⟨c, hc, heq⟩ := Option.map_eq_some_iff.mp hkey
        obtain ⟨rfl, rfl⟩ := Prod.mk.injEq .. |>.mp heq
        exact ⟨((hmem k).mp hk).2, hc⟩
      · intro ⟨hrest, hcid⟩
        refine ⟨key, (hmem key).mpr ⟨?_, hrest⟩, ?_⟩
        · exact Option.isSome_iff_exists.mpr ⟨cid, hcid⟩
        · exact Option.map_eq_some_iff.mpr ⟨cid, hcid, rfl⟩

theorem sampleCalls_ofHandler : ∀ c ∈ sampleCalls, c.OfHandler readServer := by
  intro c hc
  rcases List.mem_cons.mp hc with rfl | hc
  · refine ⟨by decide, fun op hop => ?_⟩
    rw [List.mem_singleton.mp hop]
    exact ⟨.num 7, rfl⟩
  · rw [List.mem_singleton.mp hc]
    refine ⟨by decide, fun op hop => ?_⟩
    rw [List.mem_singleton.mp hop]
    exact ⟨.num 8, rfl⟩

def sampleHandles : AccountStore where
  accounts := [⟨"did:plc:alice", some "alice.test", none, "phc", none, none⟩]
  invites := []
  inviteUses := []
  keys := []

/-- Read by its DID, the record is found in the listing. -/
theorem reads_agree_for_did : ∃ s,
    Steps.run callStep (RepoStore.empty sampleRepo) sampleCalls = some s
    ∧ (Axum.getRecord sampleReads sampleHandles s
        ⟨"did:plc:alice", "app.bsky.feed.post", "1"⟩).isOk = true
    ∧ PointReadsAgree sampleReads sampleHandles s "did:plc:alice" "did:plc:alice"
        "app.bsky.feed.post" "1" := by
  have hrun : ((Steps.run callStep (RepoStore.empty sampleRepo) sampleCalls).map fun s =>
      (Axum.getRecord sampleReads sampleHandles s
        ⟨"did:plc:alice", "app.bsky.feed.post", "1"⟩).isOk) = some true := by decide +kernel
  obtain ⟨s, hs, hget⟩ := Option.map_eq_some_iff.mp hrun
  exact ⟨s, hs, hget, (pointReads_agree_iff sampleRepo_laws sampleRepo_treeLaws
    sampleRepo_linkLaws sampleReads_laws sampleCalls sampleCalls_ofHandler s hs sampleHandles
    "did:plc:alice" "did:plc:alice" rfl "app.bsky.feed.post" "1").mpr (Or.inl (by decide))⟩

/-- Read by its handle, the record is found, and not listed. -/
theorem reads_differ_for_handle : ∃ s,
    Steps.run callStep (RepoStore.empty sampleRepo) sampleCalls = some s
    ∧ resolveRepoDid sampleHandles "alice.test" = .ok "did:plc:alice"
    ∧ ¬ PointReadsAgree sampleReads sampleHandles s "alice.test" "did:plc:alice"
        "app.bsky.feed.post" "1" := by
  have hrun : ((Steps.run callStep (RepoStore.empty sampleRepo) sampleCalls).map fun s =>
      ((Axum.getRecord sampleReads sampleHandles s
        ⟨"alice.test", "app.bsky.feed.post", "1"⟩).toOption.isSome,
        (s.roots.get "alice.test").isNone)) = some (true, true) := by decide +kernel
  obtain ⟨s, hs, hlook⟩ := Option.map_eq_some_iff.mp hrun
  obtain ⟨hget, hroot⟩ := Prod.mk.injEq .. |>.mp hlook
  refine ⟨s, hs, rfl, fun h => ?_⟩
  cases hrecord : Axum.getRecord sampleReads sampleHandles s
      ⟨"alice.test", "app.bsky.feed.post", "1"⟩ with
  | error e =>
      rw [hrecord] at hget
      cases hget
  | ok e =>
      obtain ⟨fuel, all, hall, -⟩ := (h.1 (fun _ => none) e).mp hrecord
      have hnone := Paging.through_of_none (axum_fetch_none (X := sampleReads)
        (Option.isNone_iff_eq_none.mp hroot) "app.bsky.feed.post" fun _ => none) fuel 0 none
      cases hnone.symm.trans hall

end Stelyph
