import Stelyph.MemorySqlite
import Stelyph.SqliteDurable

/-!
# The three backends are one

`storage/conformance.rs` runs a few scripts against each backend. Here
every run is compared: `MemoryStore` and `SqliteStore` answer alike to
any calls at all, and `DoStore` answers as they do unless two blobs of
the run share a key of its bucket, `{did}/{cid}`. No two do where the
DIDs are DIDs, which have no slash.
-/

namespace Stelyph

namespace Backend

variable {C : CidLib}

/-! ## Blobs that share a key -/

/-- The blob that an operation stores. -/
def StorageOp.storesBlob : StorageOp C → Option (String × String)
  | .blob (.putBlob did cid _ _ _) => some (did, cid)
  | _ => none

def storedBlobs (calls : List (Call C)) : Set (String × String) :=
  {k | ∃ c ∈ calls, c.op.storesBlob = some k}

/-- No two blobs that a run stores share a key of the bucket. -/
def BlobsApart (calls : List (Call C)) : Prop := SqliteDurable.KeysApart (storedBlobs calls)

theorem storesIn_storedBlobs {calls : List (Call C)} {c : Call C} (hc : c ∈ calls) :
    SqliteDurable.StoresIn (storedBlobs calls) c.op := by
  cases hop : c.op with
  | blob o =>
      cases o with
      | putBlob did cid mimeType size bytes => exact ⟨c, hc, by rw [hop]; rfl⟩
      | getBlob did cid => trivial
      | listBlobs did limit cursor => trivial
  | _ => trivial

theorem takeWhile_upTo {did rest : List Char} (h : '/' ∉ did) :
    (did ++ '/' :: rest).takeWhile (fun c => decide (c ≠ '/')) = did := by
  have hkeep : ∀ c ∈ did, decide (c ≠ '/') = true := by
    intro c hc
    refine decide_eq_true ?_
    rintro rfl
    exact h hc
  rw [List.takeWhile_append_of_pos hkeep]
  simp

/-- Up to the first slash is the DID. -/
theorem blobKey_inj {did did' cid cid' : String} (h : '/' ∉ did.toList) (h' : '/' ∉ did'.toList)
    (heq : Durable.blobKey did cid = Durable.blobKey did' cid') : did = did' ∧ cid = cid' := by
  have hkey : did ++ "/" ++ cid = did' ++ "/" ++ cid' := heq
  have hchars : did.toList ++ '/' :: cid.toList = did'.toList ++ '/' :: cid'.toList := by
    simpa using congrArg String.toList hkey
  have hdid : did.toList = did'.toList := by
    rw [← takeWhile_upTo h, hchars, takeWhile_upTo h']
  have hcid : cid.toList = cid'.toList := by
    rw [hdid] at hchars
    exact (List.cons.inj (List.append_cancel_left hchars)).2
  exact ⟨String.toList_inj.mp hdid, String.toList_inj.mp hcid⟩

/-- Where no DID has a slash, no two blobs share a key. -/
theorem blobsApart_of_no_slash {calls : List (Call C)}
    (h : ∀ k ∈ storedBlobs calls, '/' ∉ k.1.toList) : BlobsApart calls := by
  intro k hk k' hk' heq
  obtain ⟨hdid, hcid⟩ := blobKey_inj (h k hk) (h k' hk') heq
  exact Prod.ext hdid hcid

/-! ## Every run -/

theorem memory_sqlite_alike (hC : C.Laws) {calls : List (Call C)}
    (hrange : ∀ c ∈ calls, c.op.InRange) :
    Service.Alike Alike (memoryStore C) (sqliteStore C) calls :=
  (MemorySqlite.simulates hC).alikeOn hrange

theorem sqlite_durable_alike {calls : List (Call C)} (hrange : ∀ c ∈ calls, c.op.InRange)
    (hapart : BlobsApart calls) : Service.Alike Alike (sqliteStore C) (doStore C) calls :=
  (SqliteDurable.simulates C hapart).alikeOn fun c hc => ⟨hrange c hc, storesIn_storedBlobs hc⟩

/-- **One trait, three stores.** `MemoryStore` and `SqliteStore` answer
alike to every run of calls, and `DoStore` answers as they do unless two
of the blobs share a key in the bucket. Each pair is a simulation between
their tables. -/
theorem backends_answer_alike (hC : C.Laws) {calls : List (Call C)}
    (hrange : ∀ c ∈ calls, c.op.InRange) :
    Service.Alike Alike (memoryStore C) (sqliteStore C) calls
      ∧ (BlobsApart calls →
          Service.Alike Alike (sqliteStore C) (doStore C) calls
            ∧ Service.Alike Alike (memoryStore C) (doStore C) calls) := by
  have hmemory := memory_sqlite_alike hC hrange
  refine ⟨hmemory, fun hapart => ?_⟩
  have hdurable := sqlite_durable_alike hrange hapart
  exact ⟨hdurable, Service.AlikeFrom.trans alike_trans hmemory hdurable⟩

/-! ## Text for CIDs -/

/-- CIDs that are their text. -/
def textCids : CidLib where
  Cid := String
  decEq := inferInstance
  toString := id
  fromStr := .ok

theorem textCids_laws : textCids.Laws := fun _ => rfl

/-- An account, its blob, and a page of the log. -/
def oneAccountRun : List (Call textCids) :=
  [⟨.account (.insertAccount "did:plc:a" "alice.test" none "phc"), "t"⟩,
    ⟨.blob (.putBlob "did:plc:a" "b" "text/plain" 1 [1]), "t"⟩,
    ⟨.blob (.getBlob "did:plc:a" "b"), "t"⟩,
    ⟨.repo (.backfillPage 0 10), "t"⟩]

/-- Any two backends answer alike to that run. -/
theorem oneAccountRun_alike :
    Service.Alike Alike (memoryStore textCids) (sqliteStore textCids) oneAccountRun
      ∧ Service.Alike Alike (memoryStore textCids) (doStore textCids) oneAccountRun := by
  have hrange : ∀ c ∈ oneAccountRun, c.op.InRange := by
    intro c hc
    simp only [oneAccountRun, List.mem_cons, List.not_mem_nil, or_false] at hc
    rcases hc with rfl | rfl | rfl | rfl
    · trivial
    · trivial
    · trivial
    · exact Int.zero_le_ofNat 10
  have hapart : BlobsApart oneAccountRun := by
    refine blobsApart_of_no_slash ?_
    rintro k ⟨c, hc, hk⟩
    simp only [oneAccountRun, List.mem_cons, List.not_mem_nil, or_false] at hc
    rcases hc with rfl | rfl | rfl | rfl
    · cases hk
    · cases hk
      decide
    · cases hk
    · cases hk
  obtain ⟨hmemory, hdurable⟩ := backends_answer_alike textCids_laws hrange
  exact ⟨hmemory, (hdurable hapart).2⟩

/-- One blob is stored for each of two accounts, and the first one is read. -/
def sharedKeyRun : List (Call textCids) :=
  [⟨.blob (.putBlob "a" "b/c" "text/plain" 1 [1]), "t"⟩,
    ⟨.blob (.putBlob "a/b" "c" "text/plain" 1 [2]), "t"⟩,
    ⟨.blob (.getBlob "a" "b/c"), "t"⟩]

theorem sharedKeyRun_inRange : ∀ c ∈ sharedKeyRun, c.op.InRange := by
  intro c hc
  simp only [sharedKeyRun, List.mem_cons, List.not_mem_nil, or_false] at hc
  rcases hc with rfl | rfl | rfl <;> trivial

/-- Two accounts with a slash in their names share an object of the bucket. -/
theorem backends_answer_apart :
    ¬ ∀ C : CidLib, C.Laws → ∀ calls : List (Call C), (∀ c ∈ calls, c.op.InRange) →
      Service.Alike Alike (memoryStore C) (doStore C) calls := by
  intro h
  obtain ⟨-, -, hread, -⟩ := h textCids textCids_laws sharedKeyRun sharedKeyRun_inRange
  have hbytes : (some ("text/plain", [1]) : Option (String × Bytes)) = some ("text/plain", [2]) :=
    hread
  revert hbytes
  decide

end Backend

end Stelyph
