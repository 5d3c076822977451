import Stelyph.Lib.Adjacent
import Stelyph.ListingPages
import Stelyph.RecordNames

/-!
# Collections

A key of the tree is a collection, a slash and a record key. Neither part
has a slash, so that the collections part the keys. Three functions list
the collections of a repository: `list_collections` of the library
(`repo/read.rs`), which compares each with the last one only, that of the
axum server (`xrpc/repo.rs`), and `describe_repo` of the embedded one
(`server/repo.rs`).

In the order of the keys a hyphen or a dot comes before the slash, so that
the collections do not come in their own order. Those of one collection
are together all the same: they are the keys with one prefix.
-/

namespace Stelyph

/-! ## Keys -/

/-- A key that went through both validators. -/
def IsRecordKey (key : String) : Prop :=
  ∃ collection rkey, validateCollection collection = .ok () ∧ validateRkey rkey = .ok ()
    ∧ key = s!"{collection}/{rkey}"

theorem toList_recordKey (collection rkey : String) :
    s!"{collection}/{rkey}".toList = collection.toList ++ '/' :: rkey.toList := by
  have hslash : "/".toList = ['/'] := by decide
  simp only [toString, String.toList_append, hslash, List.append_assoc, List.singleton_append]

theorem slash_not_mem_collection {collection : String}
    (h : validateCollection collection = .ok ()) : '/' ∉ collection.toList := by
  intro hmem
  have := (collection_not_delimiter h hmem).1
  revert this
  decide

variable {c d k m : String}

theorem recordKey_inj (hc : validateCollection c = .ok ()) (hd : validateCollection d = .ok ())
    (h : s!"{c}/{k}" = s!"{d}/{m}") : c = d ∧ k = m := by
  have hlist := congrArg String.toList h
  rw [toList_recordKey, toList_recordKey] at hlist
  obtain ⟨hcd, hkm⟩ := Text.of_append_cons (slash_not_mem_collection hc)
    (slash_not_mem_collection hd) hlist
  exact ⟨String.toList_inj.mp hcd, String.toList_inj.mp hkm⟩

theorem splitOnce_recordKey (hc : validateCollection c = .ok ()) (k : String) :
    Text.splitOnce s!"{c}/{k}" '/' = some (c, k) := by
  have h := Text.splitOnce_append c.toList k.toList (slash_not_mem_collection hc)
  rw [String.ofList_toList, String.ofList_toList, ← toList_recordKey, String.ofList_toList] at h
  exact h

/-- The prefix of a collection is on its own keys only. -/
theorem prefix_recordKey_iff (hc : validateCollection c = .ok ())
    (hd : validateCollection d = .ok ()) :
    (∃ rest, s!"{d}/{m}" = s!"{c}/" ++ rest) ↔ c = d := by
  constructor
  · rintro ⟨rest, h⟩
    have hkey : s!"{c}/" ++ rest = s!"{c}/{rest}" := rfl
    exact (recordKey_inj hc hd (hkey.symm.trans h.symm)).1
  · rintro rfl
    exact ⟨m, rfl⟩

/-- The part of a key before its first slash. -/
def collectionOf (key : String) : Option String := (Text.splitOnce key '/').map Prod.fst

theorem collectionOf_recordKey (hc : validateCollection c = .ok ()) (k : String) :
    collectionOf s!"{c}/{k}" = some c := by
  rw [collectionOf, splitOnce_recordKey hc]
  rfl

/-- Between two keys of a collection there are only keys of the collection. -/
theorem collectionOf_between {a x b : String} (ha : IsRecordKey a) (hx : IsRecordKey x)
    (hb : IsRecordKey b) (hax : a < x) (hxb : x < b) (h : collectionOf a = collectionOf b) :
    collectionOf x = collectionOf a := by
  obtain ⟨c, k, hc, -, rfl⟩ := ha
  obtain ⟨d, m, hd, -, rfl⟩ := hx
  obtain ⟨e, n, he, -, rfl⟩ := hb
  rw [collectionOf_recordKey hc, collectionOf_recordKey he] at h
  obtain rfl := Option.some.inj h
  have hpre : ∀ k : String, s!"{c}/".toList <+: s!"{c}/{k}".toList := by
    exact fun k => ⟨k.toList, (String.toList_append (s := s!"{c}/") (t := k)).symm⟩
  obtain ⟨rest, hrest⟩ := Adjacent.prefix_between (hpre k) (hpre n)
    (String.lt_iff.mp hax) (String.lt_iff.mp hxb)
  have hkey : s!"{d}/{m}" = s!"{c}/" ++ String.ofList rest := by
    refine String.toList_inj.mp (hrest.symm.trans ?_)
    exact ((String.toList_append (s := s!"{c}/")).trans (by rw [String.toList_ofList])).symm
  rw [collectionOf_recordKey hd, collectionOf_recordKey hc,
    (prefix_recordKey_iff hc hd).mp ⟨_, hkey⟩]

/-! ## The three enumerations -/

/-- `Tree::entries` besides `Tree::entries_prefixed`: all entries, and the
error that ends the stream if one does. -/
structure WalkLib (L : RepoLib) extends ReadLib L where
  allEntries : (L.Cid → Option L.Block) → L.Cid → List (String × L.Cid) × Option String

section

variable {L : RepoLib} (X : WalkLib L)

/-- Only the last collection is looked at. -/
def Core.addCollection (out : List String) (key : String) : List String :=
  match Text.splitOnce key '/' with
  | none => out
  | some (collection, _) => if out.getLast? ≠ some collection then out ++ [collection] else out

def Core.listCollections (s : RepoStore L) (did : String) : Except RepoError (List String) :=
  match s.roots.get did with
  | none => .ok []
  | some root => do
      let commit ← (openAt s root).mapError .repo
      match X.allEntries s.blocks.get commit.data with
      | (_, some e) => .error (.repo e)
      | (entries, none) => .ok ((entries.map Prod.fst).foldl Core.addCollection [])

/-- What `describe_repo` reports. -/
def Embedded.listCollections (s : RepoStore L) (did : String) : Except XrpcError (List String) :=
  match s.roots.get did with
  | none => .ok []
  | some root => do
      let commit ← (openAt s root).mapError fun _ => .internal "failed to open repo"
      match X.treeEntries s.blocks.get commit.data "" with
      | (_, some _) => .error (.internal "MST stream error")
      | (entries, none) => .ok (Axum.collectionsOf (entries.map Prod.fst))

/-- `signingKey` is the `did:key` of an account's signing key. -/
def Embedded.describeRepo (signingKey : String → Except XrpcError String) (hostname : String)
    (accounts : AccountStore) (s : RepoStore L) (repo : Option String) :
    Except XrpcError Axum.DescribeRepoOutput :=
  match repo with
  | none => .error (.invalidRequest "repo is required")
  | some repo => do
      let did ← resolveRepoDid accounts repo
      match accounts.getHandleByDid did with
      | none => .error (.invalidRequest s!"repo not found: {repo}")
      | some handle =>
          let collections ← Embedded.listCollections X s did
          let keyDid ← signingKey did
          return { handle := handle, did := did
                   didDoc := Axum.buildDidDoc keyDid s!"https://{hostname}" did handle
                   collections := collections, handleIsCorrect := true }

end

/-! ## What they come to -/

theorem foldl_addCollection (keys out : List String) :
    keys.foldl Core.addCollection out = (keys.filterMap collectionOf).foldl Adjacent.push out := by
  induction keys generalizing out with
  | nil => rfl
  | cons key keys ih =>
      rw [List.foldl_cons, ih, Core.addCollection]
      cases h : Text.splitOnce key '/' with
      | none =>
          rw [List.filterMap_cons_none]
          rw [collectionOf, h]
          rfl
      | some parts =>
          have hkey : collectionOf key = some parts.1 := by
            rw [collectionOf, h]
            rfl
          rw [List.filterMap_cons_some hkey, List.foldl_cons, Adjacent.push]
          by_cases hlast : out.getLast? = some parts.1
          · simp only [hlast, ne_eq, not_true_eq_false, if_false, if_true]
          · simp only [hlast, ne_eq, not_false_eq_true, if_false, if_true]

/-- One step of the `BTreeSet` versions. -/
def insertCollection (set : List String) (key : String) : List String :=
  match collectionOf key with
  | none => set
  | some collection =>
      if set.contains collection then set else set.orderedInsert (· ≤ ·) collection

theorem collectionsOf_eq (keys : List String) :
    Axum.collectionsOf keys = keys.foldl insertCollection [] := by
  rw [Axum.collectionsOf]
  congr 1
  funext set key
  rw [insertCollection, collectionOf]
  cases Text.splitOnce key '/' <;> rfl

theorem mem_insertCollection {set : List String} {key : String} :
    c ∈ insertCollection set key ↔ c ∈ set ∨ collectionOf key = some c := by
  rw [insertCollection]
  cases collectionOf key with
  | none => simp
  | some collection =>
      dsimp only
      split
      · rename_i hin
        rw [List.contains_iff_mem] at hin
        constructor
        · exact Or.inl
        · rintro (h | h)
          · exact h
          · rwa [← Option.some.inj h]
      · rw [List.mem_orderedInsert, or_comm, eq_comm, Option.some.injEq]

theorem mem_collectionsOf {keys : List String} :
    c ∈ Axum.collectionsOf keys ↔ ∃ key ∈ keys, collectionOf key = some c := by
  have hfold : ∀ set : List String, c ∈ keys.foldl insertCollection set
      ↔ c ∈ set ∨ ∃ key ∈ keys, collectionOf key = some c := by
    induction keys with
    | nil => simp
    | cons key keys ih =>
        intro set
        rw [List.foldl_cons, ih, mem_insertCollection, List.exists_mem_cons_iff, or_assoc]
  rw [collectionsOf_eq, hfold]
  simp

/-- Keys in order that went through the validators: each collection is
listed once. -/
theorem nodup_foldl_addCollection {keys : List String} (hsorted : keys.Pairwise (· < ·))
    (hkeys : ∀ key ∈ keys, IsRecordKey key) : (keys.foldl Core.addCollection []).Nodup := by
  have hsome : ∀ key ∈ keys, collectionOf key = some ((collectionOf key).getD "") := by
    intro key hkey
    obtain ⟨c, k, hc, -, rfl⟩ := hkeys key hkey
    rw [collectionOf_recordKey hc, Option.getD_some]
  have hmap : keys.filterMap collectionOf = keys.map fun key => (collectionOf key).getD "" := by
    rw [← List.filterMap_eq_map]
    exact List.filterMap_congr hsome
  rw [foldl_addCollection, hmap]
  refine Adjacent.nodup_push_map hsorted fun a ha x hx b hb hax hxb h => ?_
  have heq : collectionOf a = collectionOf b := by rw [hsome a ha, hsome b hb, h]
  rw [collectionOf_between (hkeys a ha) (hkeys x hx) (hkeys b hb) hax hxb heq]

theorem mem_foldl_addCollection {keys : List String} :
    c ∈ keys.foldl Core.addCollection [] ↔ ∃ key ∈ keys, collectionOf key = some c := by
  rw [foldl_addCollection, Adjacent.mem_foldl_push, List.mem_filterMap]
  simp

/-! ## Keys written through the validators -/

section

variable {L : RepoLib} {view : TreeView L} {K : TreeLinks L} {s t : RepoStore L} {w : RepoWriter L}

def WriteOp.key {Ipld : Type} : WriteOp Ipld → String
  | .create key _ | .update key _ | .delete key => key

/-- A handler has checked the keys of the call: all that it writes is a
collection and a record key, with one slash between them. -/
def ServedCall.Validated (c : ServedCall L) : Prop :=
  ∀ op ∈ c.request.call.writes, IsRecordKey op.key

/-- Every key of the repository is a collection and a record key. -/
def KeysValid (m : RecordMap L) : Prop := ∀ key cid, m key = some cid → IsRecordKey key

theorem returns_applyRaw_key {data : L.Cid} {op : WriteOp L.Ipld}
    {a : String × String × Option L.Cid × L.Cid × List L.Cid}
    (h : (applyRaw data op).Returns a) : a.2.1 = op.key := by
  cases op with
  | create key record | update key record =>
      obtain ⟨cid, -, h⟩ := Prog.returns_bind.mp h
      obtain ⟨⟨root, nodes⟩, -, h⟩ := Prog.returns_bind.mp h
      obtain rfl := h
      rfl
  | delete key =>
      obtain ⟨⟨root, nodes⟩, -, h⟩ := Prog.returns_bind.mp h
      obtain rfl := h
      rfl

theorem returns_prepare_keys {ops : List (WriteOp L.Ipld)} {ps : List (Prepared L)}
    (h : (prepare ops).Returns ps) : ps.map Prepared.key = ops.map WriteOp.key := by
  induction ops generalizing ps with
  | nil =>
      obtain rfl := h
      rfl
  | cons op ops ih =>
      cases op with
      | create key record | update key record =>
          obtain ⟨cid, -, h⟩ := Prog.returns_bind.mp h
          obtain ⟨rest, hrest, h⟩ := Prog.returns_bind.mp h
          obtain rfl := h
          rw [List.map_cons, List.map_cons, ih hrest, WriteOp.key]
      | delete key =>
          obtain ⟨rest, hrest, h⟩ := Prog.returns_bind.mp h
          obtain rfl := h
          rw [List.map_cons, List.map_cons, ih hrest, WriteOp.key]

theorem returns_commitOp_paths {op : WriteOp L.Ipld} {broadcast : Bool} {rnd : WriteDraw}
    {a : WriteOutcome L.Cid × CommitBody L.Cid L.Car}
    (h : (commitOp w op broadcast rnd).Returns a) : a.2.ops.map RepoOp.path = [op.key] := by
  obtain ⟨r, h⟩ := h
  obtain ⟨opened, -, h⟩ := Prog.returns_bind.mp (Prog.returns_of_ensuring h)
  obtain ⟨⟨action, key, recordCid, data, written⟩, hraw, h⟩ := Prog.returns_bind.mp h
  have hkey : key = op.key := returns_applyRaw_key hraw
  obtain ⟨commitCid, -, h⟩ := Prog.returns_bind.mp h
  obtain ⟨blocks, -, h⟩ := Prog.returns_bind.mp h
  obtain ⟨car, -, h⟩ := Prog.returns_bind.mp h
  obtain ⟨block, -, h⟩ := Prog.returns_bind.mp h
  obtain ⟨rev, -, h⟩ := Prog.returns_bind.mp h
  obtain ⟨since, -, h⟩ := Prog.returns_bind.mp h
  obtain ⟨body, hbody, h⟩ := Prog.returns_bind.mp h
  obtain ⟨seq, rfl⟩ := returns_storeCommit hbody
  cases broadcast with
  | false =>
      obtain rfl := h
      rw [hkey]
      rfl
  | true =>
      obtain ⟨-, rfl⟩ := h
      rw [hkey]
      rfl

theorem returns_applyManyParts_paths {ops : List (WriteOp L.Ipld)} {rnd : WriteDraw}
    {a : List (WriteOutcome L.Cid) × CommitBody L.Cid L.Car}
    (h : (applyManyParts w ops rnd).Returns a) :
    a.2.ops.map RepoOp.path = ops.map WriteOp.key := by
  rw [applyManyParts] at h
  split at h
  · cases h
  · obtain ⟨r, h⟩ := h
    obtain ⟨opened, -, h⟩ := Prog.returns_bind.mp (Prog.returns_of_ensuring h)
    obtain ⟨prepared, hprepared, h⟩ := Prog.returns_bind.mp h
    obtain ⟨⟨data, nodes⟩, -, h⟩ := Prog.returns_bind.mp h
    obtain ⟨commitCid, -, h⟩ := Prog.returns_bind.mp h
    obtain ⟨blocks, -, h⟩ := Prog.returns_bind.mp h
    obtain ⟨car, -, h⟩ := Prog.returns_bind.mp h
    obtain ⟨since, -, h⟩ := Prog.returns_bind.mp h
    obtain ⟨body, hbody, h⟩ := Prog.returns_bind.mp h
    obtain ⟨seq, rfl⟩ := returns_storeCommit hbody
    obtain rfl := h
    rw [← returns_prepare_keys hprepared, commitBody, List.map_map]
    rfl

/-- How a call ends, and at which keys it has written. -/
def CallKeyed {α : Type} (view : TreeView L) (K : TreeLinks L) (w : RepoWriter L)
    (rnd : WriteDraw) (s : RepoStore L) (m : RecordMap L) (ops : List (WriteOp L.Ipld))
    (x : Except RepoError α) (t : RepoStore L) : Prop :=
  match x with
  | .error _ => Unmoved s t
  | .ok _ => ∃ o data blocks body, Wrote view K w rnd s t m o data blocks body
      ∧ body.ops.map RepoOp.path = ops.map WriteOp.key

theorem CallKeyed.of_done {α : Type} {rnd : WriteDraw} {m : RecordMap L}
    {ops : List (WriteOp L.Ipld)} {g : α → CommitBody L.Cid L.Car} {x : Except RepoError α}
    (hdone : CallDone view K w rnd s m g x t)
    (hpaths : ∀ a, x = .ok a → (g a).ops.map RepoOp.path = ops.map WriteOp.key) :
    CallKeyed view K w rnd s m ops x t := by
  cases x with
  | error e => exact hdone
  | ok a =>
      obtain ⟨o, data, blocks, hwrote⟩ := hdone
      exact ⟨o, data, blocks, g a, hwrote, hpaths a rfl⟩

theorem CallKeyed.map {α β : Type} {rnd : WriteDraw} {m : RecordMap L}
    {ops : List (WriteOp L.Ipld)} {p : RepoProg L α} {f : α → RepoProg L β}
    (hp : RepoYields p s (CallKeyed view K w rnd s m ops)) (hf : ∀ a, ∃ b, f a = .ret b) :
    RepoYields (p.bind f) s (CallKeyed view K w rnd s m ops) := by
  refine Prog.Yields.bind ?_ ?_ hp
  · intro a u h
    obtain ⟨b, hb⟩ := hf a
    rw [hb]
    exact h
  · exact fun e u h => h

theorem yields_keyed (hL : RepoLaws L) (hV : TreeLaws L view) (hK : LinkLaws K)
    (hs : WellAddressed s.blocks) (q : RepoRequest L) {m : RecordMap L}
    (hm : Standing view K s q.writer.did m) :
    RepoYields q.handler s (CallKeyed view K q.writer q.rnd s m q.call.writes) := by
  have hone : ∀ op broadcast, RepoYields (commitOp q.writer op broadcast q.rnd) s
      (CallKeyed view K q.writer q.rnd s m [op]) := fun op broadcast =>
    ((done_commitOp hL hV hK hs hm op broadcast q.rnd).and Prog.yields_returns).mono
      fun _ _ h => CallKeyed.of_done h.1 fun a ha => returns_commitOp_paths (h.2 a ha)
  rw [RepoRequest.handler]
  split
  · rename_i op hcall
    rw [hcall]
    exact CallKeyed.map (CallKeyed.map (hone op true) fun _ => ⟨_, rfl⟩) fun _ => ⟨_, rfl⟩
  · rename_i op hcall
    rw [hcall]
    exact CallKeyed.map (hone op false) fun _ => ⟨_, rfl⟩
  · rename_i ops hcall
    rw [hcall]
    exact CallKeyed.map (((done_applyManyParts hL hV hK hs hm ops q.rnd).and
      Prog.yields_returns).mono
        fun _ _ h => CallKeyed.of_done h.1 fun a ha => returns_applyManyParts_paths (h.2 a ha))
      fun _ => ⟨_, rfl⟩

theorem KeysValid.applyOps {m : RecordMap L} (h : KeysValid m) {ops : List (RepoOp L.Cid)}
    (hops : ∀ o ∈ ops, IsRecordKey o.path) : KeysValid (applyOps m ops) := by
  induction ops generalizing m with
  | nil => exact h
  | cons o ops ih =>
      refine ih (fun key cid hkey => ?_) fun o' ho' => hops o' (List.mem_cons_of_mem o ho')
      by_cases hpath : key = o.path
      · rw [hpath]
        exact hops o List.mem_cons_self
      · refine h key cid ?_
        rw [RepoOp.apply] at hkey
        split at hkey
        · rwa [Function.update_of_ne hpath] at hkey
        · rwa [Function.update_of_ne hpath] at hkey

/-- What calls with checked keys keep. -/
structure CheckedKeysInv (view : TreeView L) (K : TreeLinks L) (s : RepoStore L) : Prop where
  calls : CallsInv view K s
  keys : ∀ did m, mapOf view s did = some m → KeysValid m

theorem checkedKeysInv_step (hL : RepoLaws L) (hV : TreeLaws L view) (hK : LinkLaws K)
    {c : ServedCall L} (hc : c.Validated) (hs : CheckedKeysInv view K s) (h : callStep s c = some t) :
    CheckedKeysInv view K t := by
  refine ⟨callsInv_step hL hV hK hs.calls h, fun did m hm => ?_⟩
  obtain ⟨⟨x, t'⟩, hrun, rfl⟩ := Option.map_eq_some_iff.mp h
  obtain ⟨m₀, hstanding⟩ := hs.calls.standing c.request.writer.did
  obtain ⟨m₁, hold⟩ := hs.calls.standing did
  have hend := (yields_keyed hL hV hK hs.calls.addressed c.request hstanding).of_against hrun
  cases x with
  | error e =>
      obtain rfl := Option.some.inj ((hend.mapOf hV hold.mapOf).symm.trans hm)
      exact hs.keys did m₁ hold.mapOf
  | ok a =>
      obtain ⟨o, data, blocks, body, hwrote, hpaths⟩ := hend
      by_cases heq : did = c.request.writer.did
      · subst heq
        obtain rfl := Option.some.inj (hwrote.standing.mapOf.symm.trans hm)
        refine (hs.keys _ m₀ hstanding.mapOf).applyOps fun o ho => ?_
        have hpath : o.path ∈ c.request.call.writes.map WriteOp.key :=
          hpaths ▸ List.mem_map_of_mem ho
        obtain ⟨op, hop, hkey⟩ := List.mem_map.mp hpath
        rw [← hkey]
        exact hc op hop
      · have hstill := hold.mono hV hwrote.grown
          (by rw [hwrote.roots, Table.get_insert_of_ne heq] :
            t'.roots.get did = s.roots.get did)
        obtain rfl := Option.some.inj (hstill.mapOf.symm.trans hm)
        exact hs.keys did m₁ hold.mapOf

/-- In every state that calls with checked keys reach. -/
theorem checkedKeysInv_run (hL : RepoLaws L) (hV : TreeLaws L view) (hK : LinkLaws K)
    {cs : List (ServedCall L)} (hcs : ∀ c ∈ cs, c.Validated)
    (hrun : Steps.run callStep (RepoStore.empty L) cs = some s) : CheckedKeysInv view K s := by
  have halong : Steps.Along callStep (fun _ c => c.Validated) (RepoStore.empty L) cs :=
    Steps.along_of_mem fun _ => hcs
  have hempty : CheckedKeysInv view K (RepoStore.empty L) := by
    refine ⟨callsInv_empty, fun did m hm key cid hkey => ?_⟩
    obtain rfl := Option.some.inj hm
    cases hkey
  exact Steps.run_inv_along (fun _ _ _ hs hc h => checkedKeysInv_step hL hV hK hc hs h) hempty halong hrun

end

/-! ## The partition -/

section

variable {L : RepoLib} {view : TreeView L} {K : TreeLinks L} {cfg : XrpcConfig L} {X : WalkLib L}
  {s : RepoStore L}

/-- What the code relies on in a walk of a tree: the entries are those of
the tree, each once, in the order of their keys. -/
structure WalkLaws (view : TreeView L) (cfg : XrpcConfig L) (X : WalkLib L) : Prop
    extends ReadLaws view cfg X.toReadLib where
  all : ∀ f root m, view f root = some m →
    ∃ es, X.allEntries f root = (es, none) ∧ (es.Pairwise fun a b => a.1 < b.1)
      ∧ ∀ key cid, (key, cid) ∈ es ↔ m key = some cid

/-- The keys of a map, in order. -/
structure KeysOf (m : RecordMap L) (keys : List String) : Prop where
  sorted : keys.Pairwise (· < ·)
  mem : ∀ key, key ∈ keys ↔ ∃ cid, m key = some cid

theorem KeysOf.of_entries {m : RecordMap L} {es : List (String × L.Cid)}
    (hsorted : es.Pairwise fun a b => a.1 < b.1)
    (hmem : ∀ key cid, (key, cid) ∈ es ↔ m key = some cid) : KeysOf m (es.map Prod.fst) where
  sorted := List.pairwise_map.mpr hsorted
  mem key := by
    rw [List.mem_map]
    constructor
    · rintro ⟨⟨key, cid⟩, he, rfl⟩
      exact ⟨cid, (hmem key cid).mp he⟩
    · rintro ⟨cid, h⟩
      exact ⟨(key, cid), (hmem key cid).mpr h, rfl⟩

theorem keysOf_nil : KeysOf (fun _ => none : RecordMap L) [] where
  sorted := .nil
  mem key := by simp

theorem KeysOf.unique {m : RecordMap L} {keys keys' : List String} (h : KeysOf m keys)
    (h' : KeysOf m keys') : keys = keys' := by
  have hnodup : ∀ ks : List String, ks.Pairwise (· < ·) → ks.Nodup := fun ks hks =>
    hks.imp fun hlt => ne_of_lt hlt
  have hperm : keys.Perm keys' :=
    (List.perm_ext_iff_of_nodup (hnodup _ h.sorted) (hnodup _ h'.sorted)).mpr
      fun key => (h.mem key).trans (h'.mem key).symm
  exact hperm.eq_of_pairwise (fun _ _ _ _ hab hba => absurd hba (lt_asymm hab)) h.sorted h'.sorted

/-- Each of the three goes over the keys of the map. -/
theorem listCollections_eq (hX : WalkLaws view cfg X) {did : String} {m : RecordMap L}
    (hm : mapOf view s did = some m) :
    ∃ keys, KeysOf m keys
      ∧ Core.listCollections X s did = .ok (keys.foldl Core.addCollection [])
      ∧ Axum.listCollections X.toReadLib s did = .ok (Axum.collectionsOf keys)
      ∧ Embedded.listCollections X s did = .ok (Axum.collectionsOf keys) := by
  rw [mapOf] at hm
  cases hroot : s.roots.get did with
  | none =>
      rw [hroot] at hm
      obtain rfl := Option.some.inj hm
      refine ⟨[], keysOf_nil, ?_, ?_, ?_⟩
      · rw [Core.listCollections, hroot]
        rfl
      · rw [Axum.listCollections, hroot]
        rfl
      · rw [Embedded.listCollections, hroot]
        rfl
  | some root =>
      rw [hroot] at hm
      obtain ⟨cm, hcm, hview⟩ := Option.bind_eq_some_iff.mp hm
      obtain ⟨es, hes, hsorted, hmem⟩ := hX.all _ _ m hview
      obtain ⟨es', hes', hsorted', hmem'⟩ := hX.entries _ _ m "" hview
      have hmem'' : ∀ key cid, (key, cid) ∈ es' ↔ m key = some cid := fun key cid =>
        (hmem' key cid).trans (and_iff_right ⟨key, String.empty_append.symm⟩)
      have hkeys := KeysOf.of_entries hsorted hmem
      have hsame := (KeysOf.of_entries hsorted' hmem'').unique hkeys
      refine ⟨_, hkeys, ?_, ?_, ?_⟩
      · simp only [Core.listCollections, hroot, openAt_eq hcm, hes, Except.mapError, bind,
          Except.bind]
      · simp only [Axum.listCollections, hroot, openAt_eq hcm, hes', Except.mapError, bind,
          Except.bind, hsame]
      · simp only [Embedded.listCollections, hroot, openAt_eq hcm, hes', Except.mapError, bind,
          Except.bind, hsame]

/-- The collection has a record. -/
def HasCollection (m : RecordMap L) (c : String) : Prop :=
  validateCollection c = .ok ()
    ∧ ∃ rkey cid, validateRkey rkey = .ok () ∧ m s!"{c}/{rkey}" = some cid

theorem collectionOf_keysOf {m : RecordMap L} {keys : List String} (hkeys : KeysOf m keys)
    (hm : KeysValid m) : (∃ key ∈ keys, collectionOf key = some c) ↔ HasCollection m c := by
  constructor
  · rintro ⟨key, hkey, hc⟩
    obtain ⟨cid, hcid⟩ := (hkeys.mem key).mp hkey
    obtain ⟨d, k, hd, hk, rfl⟩ := hm key cid hcid
    rw [collectionOf_recordKey hd] at hc
    obtain rfl := Option.some.inj hc
    exact ⟨hd, k, cid, hk, hcid⟩
  · rintro ⟨hc, rkey, cid, -, hcid⟩
    exact ⟨_, (hkeys.mem _).mpr ⟨cid, hcid⟩, collectionOf_recordKey hc rkey⟩

/-- The library lists each collection once, and the same collections as
the servers do. -/
def CollectionsListed (X : WalkLib L) (s : RepoStore L) (did : String) (m : RecordMap L) : Prop :=
  ∃ cs cs', Core.listCollections X s did = .ok cs
    ∧ Axum.listCollections X.toReadLib s did = .ok cs'
    ∧ Embedded.listCollections X s did = .ok cs'
    ∧ cs.Nodup ∧ (∀ c, c ∈ cs ↔ HasCollection m c) ∧ ∀ c, c ∈ cs ↔ c ∈ cs'

theorem collectionsListed (hX : WalkLaws view cfg X) {did : String} {m : RecordMap L}
    (hm : mapOf view s did = some m) (hvalid : KeysValid m) : CollectionsListed X s did m := by
  obtain ⟨keys, hkeys, hcore, haxum, hembedded⟩ := listCollections_eq hX hm
  refine ⟨_, _, hcore, haxum, hembedded, ?_, fun c => ?_, fun c => ?_⟩
  · refine nodup_foldl_addCollection hkeys.sorted fun key hkey => ?_
    obtain ⟨cid, hcid⟩ := (hkeys.mem key).mp hkey
    exact hvalid key cid hcid
  · rw [mem_foldl_addCollection, collectionOf_keysOf hkeys hvalid]
  · rw [mem_foldl_addCollection, mem_collectionsOf]

/-- The records of a collection, each once. -/
structure RecordsOf (m : RecordMap L) (c : String) (es : List (String × L.Cid)) : Prop where
  nodup : es.Nodup
  mem : ∀ key cid, (key, cid) ∈ es
    ↔ (∃ rkey, validateRkey rkey = .ok () ∧ key = s!"{c}/{rkey}") ∧ m key = some cid

theorem Listed.recordsOf {m : RecordMap L} {es : List (String × L.Cid)} (h : Listed m c es)
    (hc : validateCollection c = .ok ()) (hvalid : KeysValid m) : RecordsOf m c es where
  nodup := h.nodup
  mem key cid := by
    rw [h.mem]
    refine and_congr_left fun hcid => ?_
    constructor
    · obtain ⟨d, k, hd, hk, rfl⟩ := hvalid key cid hcid
      intro hpre
      obtain rfl := (prefix_recordKey_iff hc hd).mp hpre
      exact ⟨k, hk, rfl⟩
    · rintro ⟨rkey, -, rfl⟩
      exact ⟨rkey, rfl⟩

/-- Read to the end, the listing of a collection is its records. -/
def RecordsListed (X : WalkLib L) (s : RepoStore L) (did : String) (m : RecordMap L)
    (c : String) : Prop :=
  ∃ es, RecordsOf m c es
    ∧ (∀ limits, Paging.Complete (Core.fetch X.toReadLib s did c limits)
        (es.map (coreEntry X.toReadLib s)))
    ∧ (∀ limits, Paging.Complete (Axum.fetch X.toReadLib s did c limits)
        (es.map (entryOf X.toReadLib s did)))
    ∧ ∀ limits, Paging.Complete (Embedded.fetch X.toReadLib s did c limits)
        (es.map (entryOf X.toReadLib s did))

/-- The keys that the validators let through are parted by their
collections, and so are the listings of a repository that has only such
keys, which those are that calls with checked keys have written. -/
theorem collections_partition (hL : RepoLaws L) (hV : TreeLaws L view) (hK : LinkLaws K)
    (hX : WalkLaws view cfg X) :
    (∀ c d k m, validateCollection c = .ok () → validateCollection d = .ok () →
      validateRkey k = .ok () → validateRkey m = .ok () →
        (s!"{c}/{k}" = s!"{d}/{m}" → c = d ∧ k = m)
        ∧ Text.splitOnce s!"{c}/{k}" '/' = some (c, k)
        ∧ (Text.startsWith s!"{d}/{m}" s!"{c}/" = true ↔ c = d))
    ∧ (∀ s did m, ReadableRepo view X.toReadLib s did m → KeysValid m →
        (∀ c, validateCollection c = .ok () → RecordsListed X s did m c)
        ∧ CollectionsListed X s did m)
    ∧ ∀ cs s, (∀ c ∈ cs, c.OfHandler cfg ∧ c.Validated) →
        Steps.run callStep (RepoStore.empty L) cs = some s →
        ∀ did root, s.roots.get did = some root →
          ∃ m, ReadableRepo view X.toReadLib s did m ∧ KeysValid m := by
  refine ⟨?_, ?_, ?_⟩
  · intro c d k m hc hd _ _
    refine ⟨recordKey_inj hc hd, splitOnce_recordKey hc k, ?_⟩
    rw [startsWith_iff]
    exact prefix_recordKey_iff hc hd
  · intro s did m h hvalid
    refine ⟨fun c hc => ?_, collectionsListed hX h.map hvalid⟩
    obtain ⟨es, hes, hpages⟩ := recordsPaged hX.toReadLaws h c
    exact ⟨es, hes.recordsOf hc hvalid, hpages⟩
  · intro cs s hcs hrun did root hroot
    obtain ⟨m, hm⟩ := readableRepo_of_run hL hV hK hX.toReadLaws (fun c hc => (hcs c hc).1) hrun
      hroot
    exact ⟨m, hm, (checkedKeysInv_run hL hV hK (fun c hc => (hcs c hc).2) hrun).keys did m hm.map⟩

end

def sampleWalk : WalkLib sampleRepo where
  toReadLib := sampleReads
  allEntries f root := sampleEntries f root ""

theorem sampleWalk_laws : WalkLaws sampleView readServer sampleWalk where
  toReadLaws := sampleReads_laws
  all f root m hview := by
    obtain ⟨es, hes, hsorted, hmem⟩ := sampleReads_laws.entries f root m "" hview
    exact ⟨es, hes, hsorted, fun key cid =>
      (hmem key cid).trans (and_iff_right ⟨key, String.empty_append.symm⟩)⟩

theorem samplePost_valid : validateCollection "app.bsky.feed.post" = .ok () := by rfl

theorem sampleCalls_validated : ∀ c ∈ sampleCalls, c.Validated := by
  intro c hc op hop
  rcases List.mem_cons.mp hc with rfl | hc
  · rw [List.mem_singleton.mp hop]
    exact ⟨"app.bsky.feed.post", "1", samplePost_valid, by rfl, rfl⟩
  · rw [List.mem_singleton.mp hc] at hop
    rw [List.mem_singleton.mp hop]
    exact ⟨"app.bsky.feed.post", "2", samplePost_valid, by rfl, rfl⟩

/-- A repository with a record, written through the validators. -/
theorem sample_collections_partition : ∃ s m,
    Steps.run callStep (RepoStore.empty sampleRepo) sampleCalls = some s
    ∧ HasCollection m "app.bsky.feed.post"
    ∧ RecordsListed sampleWalk s "did:plc:alice" m "app.bsky.feed.post"
    ∧ CollectionsListed sampleWalk s "did:plc:alice" m := by
  obtain ⟨-, hlisted, hwritten⟩ := collections_partition sampleRepo_laws sampleRepo_treeLaws
    sampleRepo_linkLaws sampleWalk_laws
  have hrun : ((Steps.run callStep (RepoStore.empty sampleRepo) sampleCalls).map fun s =>
      ((s.roots.get "did:plc:alice").isSome,
        (mapOf sampleView s "did:plc:alice").map fun m => (m "app.bsky.feed.post/1").isSome))
      = some (true, some true) := by decide +kernel
  obtain ⟨s, hs, hfacts⟩ := Option.map_eq_some_iff.mp hrun
  obtain ⟨hroot, hrecord⟩ := Prod.mk.injEq .. |>.mp hfacts
  obtain ⟨root, hroot⟩ := Option.isSome_iff_exists.mp hroot
  obtain ⟨m, hm, hvalid⟩ := hwritten sampleCalls s
    (fun c hc => ⟨sampleCalls_ofHandler c hc, sampleCalls_validated c hc⟩) hs "did:plc:alice" root
    hroot
  obtain ⟨hrecords, hcollections⟩ := hlisted s _ m hm hvalid
  rw [hm.map, Option.map_some, Option.some.injEq] at hrecord
  obtain ⟨cid, hcid⟩ := Option.isSome_iff_exists.mp hrecord
  exact ⟨s, m, hs, ⟨samplePost_valid, "1", cid, by rfl, hcid⟩, hrecords _ samplePost_valid,
    hcollections⟩

end Stelyph
