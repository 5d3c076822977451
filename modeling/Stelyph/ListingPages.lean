import Stelyph.DurableBackend
import Stelyph.ListingAgrees
import Stelyph.WorkerRepo

/-!
# Listings read to the end

Four listings are cut into pages: `list_records` of the library, of the
axum server and of the embedded one, and the Worker's `listBlobs`. Each
clamps the limit of a request, so that a page has at least one entry, and
hands back a cursor on a full page. A reader who follows the cursors comes
to an end, and has been given everything once, in order, whatever limits
the requests named.
-/

namespace Stelyph

/-! ## Records -/

section

variable {L : RepoLib} {view : TreeView L} {K : TreeLinks L} {cfg : XrpcConfig L} {X : ReadLib L}
  {s : RepoStore L}

/-- A repository that can be read: it has a root, what the root points to
is there, and every record decodes. -/
structure ReadableRepo (view : TreeView L) (X : ReadLib L) (s : RepoStore L) (did : String)
    (m : RecordMap L) : Prop where
  root : ∃ root, s.roots.get did = some root
  map : mapOf view s did = some m
  legible : MapLegible X s m

/-- Every repository that the handlers have written to is one. -/
theorem readableRepo_of_run (hL : RepoLaws L) (hV : TreeLaws L view) (hK : LinkLaws K)
    (hX : ReadLaws view cfg X) {cs : List (ServedCall L)} (hcs : ∀ c ∈ cs, c.OfHandler cfg)
    (hrun : Steps.run callStep (RepoStore.empty L) cs = some s) {did : String} {root : L.Cid}
    (hroot : s.roots.get did = some root) : ∃ m, ReadableRepo view X s did m := by
  have hs : ReadInv view K X s := readInv_run hL hV hK hX hcs hrun
  obtain ⟨m, hstanding⟩ := hs.calls.standing did
  exact ⟨m, ⟨root, hroot⟩, hstanding.mapOf, hs.legible did m hstanding.mapOf⟩

/-- The library's listing as a reader's call: the `n`-th page, with the
limit chosen for it and the cursor of the one before. -/
def Core.fetch (X : ReadLib L) (s : RepoStore L) (did collection : String) (limits : Nat → Nat)
    (n : Nat) (cursor : Option String) : Option (List (Core.RecordEntry L) × Option String) :=
  ((Core.listRecords X s did collection (limits n) cursor).map
    fun o => (o.records, o.cursor)).toOption

/-- The entry of a record, as the library shows it. -/
def coreEntry (X : ReadLib L) (s : RepoStore L) (e : String × L.Cid) : Core.RecordEntry L where
  key := e.1
  cid := e.2
  value := ((s.blocks.get e.2).bind fun b => (X.decodeRecord b).toOption).getD .null

theorem core_readRecord_eq {key : String} {cid : L.Cid}
    (h : Worker.Legible X.decodeRecord s cid) :
    Core.readRecord X s key cid = .ok (coreEntry X s (key, cid)) := by
  obtain ⟨block, value, hblock, hvalue⟩ := h
  simp [Core.readRecord, readBlockBytes, coreEntry, hblock, hvalue, Except.mapError, bind,
    Except.bind, pure, Except.pure, Except.toOption]

/-- The library answers with the pages of the listing. -/
theorem core_listRecords_eq (hX : ReadLaws view cfg X) {did : String} {root : L.Cid}
    {m : RecordMap L} (hroot : s.roots.get did = some root) (hm : mapOf view s did = some m)
    (hlegible : MapLegible X s m) (collection : String) :
    ∃ es, Listed m collection es ∧ ∀ limit cursor,
      (Core.listRecords X s did collection limit cursor).map (fun o => (o.records, o.cursor))
        = .ok (Paging.page Core.RecordEntry.key (max 1 (min limit 100)) cursor
            (es.map (coreEntry X s))) := by
  rw [mapOf, hroot] at hm
  obtain ⟨cm, hcm, hview⟩ := Option.bind_eq_some_iff.mp hm
  obtain ⟨es, hes, hsorted, hmem⟩ := hX.entries _ _ m s!"{collection}/" hview
  refine ⟨es, ⟨hsorted, hmem⟩, fun limit cursor => ?_⟩
  let rows := ((Paging.after Prod.fst cursor es).map fun e => (e.1, coreEntry X s e)).take
    (max 1 (min limit 100))
  have hloop : readPage (Core.readRecord X s) RepoError.repo (max 1 (min limit 100)) cursor es
      none [] = .ok rows :=
    readPage_start (by omega)
      fun e he => core_readRecord_eq (hlegible e.1 e.2 ((hmem e.1 e.2).mp he).2)
  have hrecords : rows.map Prod.snd = (Paging.after Core.RecordEntry.key cursor
      (es.map (coreEntry X s))).take (max 1 (min limit 100)) := by
    have hkey : (fun e => (coreEntry X s e).key) = Prod.fst := rfl
    rw [Paging.after_map, hkey, List.map_take, List.map_map]
    rfl
  have hkeys : rows.getLast?.map Prod.fst
      = (rows.map Prod.snd).getLast?.map Core.RecordEntry.key := by
    have hsame : rows.map Prod.fst = (rows.map Prod.snd).map Core.RecordEntry.key := by
      simp only [rows, List.map_take, List.map_map]
      rfl
    rw [← List.getLast?_map, ← List.getLast?_map, hsame]
  rw [Paging.page, ← hrecords, List.length_map, ← hkeys]
  simp only [Core.listRecords, hroot, openAt_eq hcm, hes, Except.mapError, bind, Except.bind,
    hloop, pure, Except.pure, Except.map]

/-- Read through any of the three methods, a collection is read whole:
each record once, in the order of the keys. -/
def RecordsPaged (X : ReadLib L) (s : RepoStore L) (did : String) (m : RecordMap L)
    (collection : String) : Prop :=
  ∃ es, Listed m collection es
    ∧ (∀ limits, Paging.Complete (Core.fetch X s did collection limits) (es.map (coreEntry X s)))
    ∧ (∀ limits, Paging.Complete (Axum.fetch X s did collection limits)
        (es.map (entryOf X s did)))
    ∧ ∀ limits, Paging.Complete (Embedded.fetch X s did collection limits)
        (es.map (entryOf X s did))

/-- No record comes twice. -/
theorem Listed.nodup {m : RecordMap L} {collection : String} {es : List (String × L.Cid)}
    (h : Listed m collection es) : es.Nodup := by
  refine h.sorted.imp fun {a b} hlt heq => ?_
  rw [heq] at hlt
  exact lt_irrefl _ hlt

theorem Listed.unique {m : RecordMap L} {collection : String} {es es' : List (String × L.Cid)}
    (h : Listed m collection es) (h' : Listed m collection es') : es = es' := by
  have hmem : ∀ e, e ∈ es ↔ e ∈ es' := fun e => (h.mem e.1 e.2).trans (h'.mem e.1 e.2).symm
  have hperm : es.Perm es' := (List.perm_ext_iff_of_nodup h.nodup h'.nodup).mpr hmem
  exact hperm.eq_of_pairwise (fun _ _ _ _ hab hba => absurd hba (lt_asymm hab)) h.sorted h'.sorted

theorem recordsPaged (hX : ReadLaws view cfg X) {did : String} {m : RecordMap L}
    (h : ReadableRepo view X s did m) (collection : String) :
    RecordsPaged X s did m collection := by
  obtain ⟨⟨root, hroot⟩, hm, hlegible⟩ := h
  obtain ⟨es, hes, hcore⟩ := core_listRecords_eq hX hroot hm hlegible collection
  obtain ⟨es₁, hes₁, haxum⟩ := axum_listRecords_eq hX hroot hm hlegible collection
  obtain ⟨es₂, hes₂, hembedded⟩ := embedded_listRecords_eq hX hroot hm hlegible collection
  obtain rfl := hes.unique hes₁
  obtain rfl := hes.unique hes₂
  have hsorted : (es.map (entryOf X s did)).Pairwise fun a b => keyOf did a < keyOf did b := by
    rw [List.pairwise_map]
    refine hes.sorted.imp fun {a b} hlt => ?_
    rwa [keyOf_entryOf, keyOf_entryOf]
  refine ⟨es, hes, fun limits => ?_, fun limits => ?_, fun limits => ?_⟩
  · refine Paging.complete_of_pages Core.RecordEntry.key
      (fun n => max 1 (min (limits n) 100)) (fun n cursor => ?_) (fun n => by omega)
      (List.pairwise_map.mpr hes.sorted)
    rw [Core.fetch, hcore]
    rfl
  · refine Paging.complete_of_pages _ _ (fun n cursor => ?_)
      (fun n => pageLimit_pos (limits n)) hsorted
    rw [Axum.fetch, haxum]
    rfl
  · refine Paging.complete_of_pages _ _ (fun n cursor => ?_)
      (fun n => pageLimit_pos ((limits n).bind Text.parseU64)) hsorted
    rw [Embedded.fetch, hembedded]
    rfl

end

/-! ## Blobs of the Worker -/

namespace Worker

open Backend

structure BlobListing where
  cids : List String
  cursor : Option String
deriving DecidableEq, Repr

/-- The first account is the only one. -/
def soleAccountDid (O : Durable.Object) : Option String :=
  (Durable.listAccounts O.accounts).head?.map AccountSummary.did

/-- `sync.listBlobs`. -/
def listBlobs (O : Durable.Object) (limit : Option Nat) (cursor : Option String) :
    Except RepoFailure BlobListing :=
  match soleAccountDid O with
  | none => .error (.response 404 "RepoNotFound" "No account on this host.")
  | some did =>
      let limit := max 1 (min (limit.getD 500) 1000)
      let cids := O.blobs.listBlobs did limit cursor
      .ok ⟨cids, if cids.length = limit then cids.getLast? else none⟩

def fetchBlobs (O : Durable.Object) (limits : Nat → Option Nat) (n : Nat)
    (cursor : Option String) : Option (List String × Option String) :=
  ((listBlobs O (limits n) cursor).map fun o => (o.cids, o.cursor)).toOption

/-- The CIDs of the blobs of an account, in order. -/
def blobCids (O : Durable.Object) (did : String) : List String :=
  orderBy id ((O.blobs.blobRefs.rows.filter fun r => decide (r.1.1 = did)).map fun r => r.1.2)

theorem mem_blobCids {O : Durable.Object} {did cid : String} :
    cid ∈ blobCids O did ↔ O.blobs.blobRefs.contains (did, cid) = true := by
  rw [blobCids, (orderBy_perm _ _).mem_iff, Table.contains_iff]
  constructor
  · intro h
    obtain ⟨⟨⟨did', cid'⟩, row⟩, hr, rfl⟩ := List.mem_map.mp h
    obtain ⟨hmem, hdid⟩ := List.mem_filter.mp hr
    obtain rfl : did' = did := of_decide_eq_true hdid
    exact ⟨row, Table.get_eq_some_iff.mpr hmem⟩
  · intro ⟨row, hrow⟩
    refine List.mem_map.mpr ⟨((did, cid), row), List.mem_filter.mpr ⟨?_, by simp⟩, rfl⟩
    exact Table.get_eq_some_iff.mp hrow

/-- The key of a row is an account and a CID: no CID comes twice. -/
theorem blobCids_sorted (O : Durable.Object) (did : String) :
    (blobCids O did).Pairwise (· < ·) := by
  have hnodup : ((O.blobs.blobRefs.rows.filter fun r => decide (r.1.1 = did)).map
      fun r => r.1.2).Nodup := by
    have hkeys := (O.blobs.blobRefs.retain fun k _ => decide (k.1 = did)).nodup
    rw [List.Nodup, List.pairwise_map] at hkeys ⊢
    refine hkeys.imp_of_mem fun {r r'} hr hr' hne heq => hne (Prod.ext ?_ heq)
    rw [of_decide_eq_true (List.mem_filter.mp hr).2, of_decide_eq_true (List.mem_filter.mp hr').2]
  have hnodup' : (blobCids O did).Nodup := (orderBy_perm _ _).nodup_iff.mpr hnodup
  exact ((pairwise_orderBy id _).and hnodup').imp fun h => lt_of_le_of_ne h.1 h.2

theorem listBlobs_eq {O : Durable.Object} {did : String} (hdid : soleAccountDid O = some did)
    (limit : Option Nat) (cursor : Option String) :
    (listBlobs O limit cursor).map (fun o => (o.cids, o.cursor))
      = .ok (Paging.page id (max 1 (min (limit.getD 500) 1000)) cursor (blobCids O did)) := by
  have hrange : max 1 (min (limit.getD 500) 1000) < 2 ^ 63 := by omega
  have hcids : O.blobs.listBlobs did (max 1 (min (limit.getD 500) 1000)) cursor
      = (Paging.after id cursor (blobCids O did)).take (max 1 (min (limit.getD 500) 1000)) := by
    rw [Durable.Blobs.listBlobs.eq_def, Sql.sqlLimit_asI64 hrange]
    cases cursor with
    | none => rfl
    | some cur =>
        have hfilter : (O.blobs.blobRefs.rows.filter fun r =>
            decide (r.1.1 = did) && decide (cur < r.1.2)).map (fun r => r.1.2)
            = ((O.blobs.blobRefs.rows.filter fun r => decide (r.1.1 = did)).map
                fun r => r.1.2).filter fun c => decide (cur < c) := by
          rw [List.filter_map, List.filter_filter]
          congr 2
          funext r
          exact Bool.and_comm _ _
        simp only [hfilter, Paging.after, blobCids, filter_orderBy Function.injective_id, id_eq]
  simp only [listBlobs, hdid, hcids, Except.map, Paging.page, Option.map_id, id_eq]

/-- Each blob of the account once, in the order of the CIDs. -/
def BlobsPaged (O : Durable.Object) (did : String) : Prop :=
  ∃ cids : List String, cids.Pairwise (· < ·)
    ∧ (∀ cid, cid ∈ cids ↔ O.blobs.blobRefs.contains (did, cid) = true)
    ∧ ∀ limits, Paging.Complete (fetchBlobs O limits) cids

theorem blobsPaged {O : Durable.Object} {did : String} (hdid : soleAccountDid O = some did) :
    BlobsPaged O did := by
  refine ⟨blobCids O did, blobCids_sorted O did, fun cid => mem_blobCids, fun limits => ?_⟩
  refine Paging.complete_of_pages id
    (fun n => max 1 (min ((limits n).getD 500) 1000)) (fun n cursor => ?_)
    (fun n => by omega) (blobCids_sorted O did)
  rw [fetchBlobs, listBlobs_eq hdid]
  rfl

end Worker

/-! ## All four -/

section

variable {L : RepoLib} {view : TreeView L} {K : TreeLinks L} {cfg : XrpcConfig L} {X : ReadLib L}

/-- The records of a repository that can be read, which those are that the
handlers have written, and the blobs of the Worker's account: a reader who
follows the cursors comes to the end and has been given each once, in order. -/
theorem listings_complete (hL : RepoLaws L) (hV : TreeLaws L view) (hK : LinkLaws K)
    (hX : ReadLaws view cfg X) :
    (∀ s did m, ReadableRepo view X s did m → ∀ collection, RecordsPaged X s did m collection)
    ∧ (∀ cs s, (∀ c ∈ cs, c.OfHandler cfg) →
        Steps.run callStep (RepoStore.empty L) cs = some s →
        ∀ did root, s.roots.get did = some root → ∃ m, ReadableRepo view X s did m)
    ∧ ∀ O did, Worker.soleAccountDid O = some did → Worker.BlobsPaged O did := by
  refine ⟨fun s did m h collection => recordsPaged hX h collection, ?_, ?_⟩
  · intro cs s hcs hrun did root hroot
    exact readableRepo_of_run hL hV hK hX hcs hrun hroot
  · exact fun O did hdid => Worker.blobsPaged hdid

end

/-- An object with an account and two blobs. -/
def sampleObject : Backend.Durable.Object :=
  { Backend.Durable.Object.migrated with
    accounts := ⟨Table.empty.insert "did:plc:alice"
      ⟨"did:plc:alice", some "alice.test", none, "phc", "t", none, none⟩, .empty, .empty, .empty⟩
    blobs := (Backend.Durable.Object.migrated.blobs.putBlob "did:plc:alice" "b" "text/plain" 1
      [1]).putBlob "did:plc:alice" "a" "text/plain" 1 [2] }

theorem sampleObject_account :
    Worker.soleAccountDid sampleObject = some "did:plc:alice" := by
  have hrows : sampleObject.accounts.accounts.selectAll (fun _ _ => true)
      = [⟨"did:plc:alice", some "alice.test", none, "phc", "t", none, none⟩] := rfl
  rw [Worker.soleAccountDid, Backend.Durable.listAccounts, hrows, orderBy,
    List.mergeSort_singleton]
  rfl

/-- Both listings at work. -/
theorem sample_listings_complete :
    (∃ s m, Steps.run callStep (RepoStore.empty sampleRepo) sampleCalls = some s
      ∧ ReadableRepo sampleView sampleReads s "did:plc:alice" m
      ∧ RecordsPaged sampleReads s "did:plc:alice" m "app.bsky.feed.post")
    ∧ Worker.BlobsPaged sampleObject "did:plc:alice" := by
  obtain ⟨hpaged, hreadable, hblobs⟩ := listings_complete sampleRepo_laws sampleRepo_treeLaws
    sampleRepo_linkLaws sampleReads_laws
  have hrun : ((Steps.run callStep (RepoStore.empty sampleRepo) sampleCalls).map fun s =>
      (s.roots.get "did:plc:alice").isSome) = some true := by decide +kernel
  obtain ⟨s, hs, hroot⟩ := Option.map_eq_some_iff.mp hrun
  obtain ⟨root, hroot⟩ := Option.isSome_iff_exists.mp hroot
  obtain ⟨m, hm⟩ := hreadable sampleCalls s sampleCalls_ofHandler hs "did:plc:alice" root hroot
  exact ⟨⟨s, m, hs, hm, hpaged s _ m hm _⟩, hblobs sampleObject _ sampleObject_account⟩

end Stelyph
