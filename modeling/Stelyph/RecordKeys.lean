import Stelyph.WorkerHistory

/-!
# The record keys the Worker makes up

A create without a record key is given the TID of the clock. The clock of
an object stands still while a request is served, and it counts in
milliseconds: two such creates of one batch get the same key, and so do
two requests of the same millisecond. The tree does not take a key twice.
-/

namespace Stelyph

namespace Worker

section

variable {L : RepoLib} {cfg : RepoConfig L} {m m' : RecordMap L}

/-! ## The keys of a batch -/

/-- The collection of a create that leaves its key to the server. -/
def keylessIn (w : Json) : Option String :=
  if (w.field "rkey").asStr.isNone
      && Text.endsWith ((w.field "$type").asStr.getD "") "#create" then
    (w.field "collection").asStr
  else none

/-- The key a write has in the tree. -/
def treeKey {R : Type} : WriteOp R → String
  | .create key _ | .update key _ | .delete key => key

/-- The keys made up for creates in one collection of the batch differ. -/
def MadeUpApart (writes : List Json) (ops : List (WriteOp L.Ipld)) : Prop :=
  (writes.zip ops).Pairwise fun x y => ∀ c, keylessIn x.1 = some c → keylessIn y.1 = some c →
    treeKey x.2 ≠ treeKey y.2

/-- A batch that fails on a key because it has made the same key up
before. -/
def OwnKeyTaken (m : RecordMap L) (writes : List Json) (ops : List (WriteOp L.Ipld)) : Prop :=
  ∃ before x between y after c m', writes.zip ops = before ++ x :: (between ++ y :: after)
    ∧ keylessIn x.1 = some c ∧ keylessIn y.1 = some c ∧ treeKey x.2 = treeKey y.2
    ∧ foldWrites m ((before ++ x :: between).map Prod.snd) = some m'
    ∧ (m' (treeKey y.2)).isSome

theorem endsWith_unique {s p q : String} (hp : Text.endsWith s p = true)
    (hq : Text.endsWith s q = true) (hlen : p.toList.length = q.toList.length) : p = q := by
  have hsuffix : p.toList <:+ q.toList :=
    List.suffix_of_suffix_length_le (List.isSuffixOf_iff_suffix.mp hp)
      (List.isSuffixOf_iff_suffix.mp hq) hlen.le
  exact String.ext (hsuffix.eq_of_length hlen)

/-- What becomes of a create without a key. -/
theorem keyless_batchEntry {did : String} {micros : Nat} {w : Json}
    {entry : WriteOp L.Ipld × String × Option Json}
    (h : (batchEntry cfg did micros w).Returns entry) {c : String} (hw : keylessIn w = some c) :
    ∃ ipld, entry.1 = .create s!"{c}/{tidFromMicros micros}" ipld := by
  unfold keylessIn at hw
  split at hw
  · rename_i hkind
    obtain ⟨hrkey, hcreate⟩ := Bool.and_eq_true .. |>.mp hkind
    have hnot : ∀ kind', kind'.toList.length = "#create".toList.length → kind' ≠ "#create" →
        ¬ Text.endsWith ((w.field "$type").asStr.getD "") kind' = true :=
      fun kind' hlen hne h => hne (endsWith_unique h hcreate hlen)
    obtain ⟨collection, hcollection, h⟩ := Prog.returns_bind.mp h
    obtain rfl : collection = c := by
      obtain ⟨found, hfound, hcollection⟩ := Prog.returns_bind.mp hcollection
      obtain ⟨u, -, rfl⟩ := Prog.returns_bind.mp hcollection
      rw [hw] at hfound
      exact hfound.symm
    obtain ⟨rkey, hmade, h⟩ := Prog.returns_bind.mp h
    obtain rfl : tidFromMicros micros = rkey := by
      rw [Option.isNone_iff_eq_none.mp hrkey, rkeyOr, if_pos hcreate] at hmade
      exact hmade
    dsimp only at h
    rw [if_neg (hnot "#delete" (by decide) (by decide))] at h
    obtain ⟨ipld, -, h⟩ := Prog.returns_bind.mp h
    rw [if_neg (hnot "#update" (by decide) (by decide)), if_pos hcreate] at h
    obtain rfl := h
    exact ⟨ipld, rfl⟩
  · cases hw

/-- The clock stands still. -/
theorem keyless_batchEntries {did : String} {micros : Nat} :
    ∀ {ws : List Json} {n : Nat} {entries : List (WriteOp L.Ipld × String × Option Json)},
      (batchEntries cfg did (fun _ => micros) n ws).Returns entries →
        List.Forall₂ (fun w op => ∀ c, keylessIn w = some c →
          ∃ ipld, op = WriteOp.create s!"{c}/{tidFromMicros micros}" ipld)
          ws (entries.map fun e => e.1)
  | [], n, entries, h => by
      obtain rfl := h
      exact .nil
  | w :: ws, n, entries, h => by
      obtain ⟨entry, hentry, h⟩ := Prog.returns_bind.mp h
      obtain ⟨rest, hrest, rfl⟩ := Prog.returns_bind.mp h
      exact .cons (fun c hc => keyless_batchEntry hentry hc) (keyless_batchEntries hrest)

theorem exists_zip_of_mem {α β : Type} {R : α → β → Prop} {l : List α} {l' : List β}
    (h : List.Forall₂ R l l') {a : α} (ha : a ∈ l) : ∃ b, (a, b) ∈ l.zip l' ∧ R a b := by
  induction h with
  | nil => cases ha
  | cons hab _ ih =>
      rcases List.mem_cons.mp ha with rfl | ha
      · exact ⟨_, List.mem_cons_self, hab⟩
      · obtain ⟨b, hb, hR⟩ := ih ha
        exact ⟨b, List.mem_cons_of_mem _ hb, hR⟩

/-- Creates of one collection share the key, so that there may be one of
them only. -/
theorem madeUpApart_iff {micros : Nat} {writes : List Json} {ops : List (WriteOp L.Ipld)}
    (h : List.Forall₂ (fun w op => ∀ c, keylessIn w = some c →
      ∃ ipld, op = WriteOp.create s!"{c}/{tidFromMicros micros}" ipld) writes ops) :
    MadeUpApart writes ops ↔ (writes.filterMap keylessIn).Nodup := by
  induction h with
  | nil => simp [MadeUpApart]
  | @cons w op writes ops hop hrest ih =>
      have hcons : MadeUpApart (w :: writes) (op :: ops) ↔
          (∀ c, keylessIn w = some c → c ∉ writes.filterMap keylessIn)
            ∧ MadeUpApart writes ops := by
        rw [MadeUpApart, List.zip_cons_cons, List.pairwise_cons]
        refine and_congr_left fun _ => ⟨fun hall c hc hmem => ?_, fun hnone y hy c hc hyc => ?_⟩
        · obtain ⟨w', hw', hc'⟩ := List.mem_filterMap.mp hmem
          obtain ⟨op', hzip, hop'⟩ := exists_zip_of_mem hrest hw'
          obtain ⟨ipld, rfl⟩ := hop c hc
          obtain ⟨ipld', rfl⟩ := hop' c hc'
          exact hall _ hzip c hc hc' rfl
        · exact absurd (List.mem_filterMap.mpr ⟨y.1, (List.of_mem_zip hy).1, hyc⟩) (hnone c hc)
      rw [hcons, ih]
      cases hw : keylessIn w with
      | none => simp [hw]
      | some c => simp [hw]

theorem exists_pair_of_not_pairwise {α : Type} {R : α → α → Prop} :
    ∀ {l : List α}, ¬ l.Pairwise R →
      ∃ before x between y after, l = before ++ x :: (between ++ y :: after) ∧ ¬ R x y
  | [], h => absurd List.Pairwise.nil h
  | a :: l, h => by
      by_cases hl : l.Pairwise R
      · obtain ⟨b, hb, hab⟩ : ∃ b ∈ l, ¬ R a b := by
          by_contra hall
          push Not at hall
          exact h (List.pairwise_cons.mpr ⟨hall, hl⟩)
        obtain ⟨between, after, rfl⟩ := List.append_of_mem hb
        exact ⟨[], a, between, b, after, rfl, hab⟩
      · obtain ⟨before, x, between, y, after, rfl, hxy⟩ := exists_pair_of_not_pairwise hl
        exact ⟨a :: before, x, between, y, after, rfl, hxy⟩

/-! ## What folds over the map -/

theorem foldWrites_append (ops ops' : List (WriteOp L.Ipld)) :
    foldWrites m (ops ++ ops') = (foldWrites m ops).bind fun m' => foldWrites m' ops' := by
  induction ops generalizing m with
  | nil => rfl
  | cons op ops ih =>
      rw [List.cons_append, foldWrites, foldWrites, Option.bind_assoc]
      exact Option.bind_congr fun m' _ => ih

theorem isSome_update {key key' : String} {cid : L.Cid} (hkey : (m key).isSome) :
    (Function.update m key' (some cid) key).isSome := by
  rw [Function.update_apply]
  split
  · rfl
  · exact hkey

/-- A record stays until it is deleted. -/
theorem onMap_kept {op : WriteOp L.Ipld} {key : String} (hop : op ≠ .delete key)
    (h : op.onMap m = some m') (hkey : (m key).isSome) : (m' key).isSome := by
  cases op with
  | create key' record =>
      obtain ⟨cid, -, h⟩ := Option.bind_eq_some_iff.mp h
      split at h
      · cases h
      · obtain rfl := Option.some.inj h
        exact isSome_update hkey
  | update key' record =>
      obtain ⟨cid, -, h⟩ := Option.bind_eq_some_iff.mp h
      split at h
      · obtain rfl := Option.some.inj h
        exact isSome_update hkey
      · cases h
  | delete key' =>
      rw [WriteOp.onMap] at h
      split at h
      · obtain rfl := Option.some.inj h
        rw [Function.update_of_ne fun heq => hop (congrArg WriteOp.delete heq.symm)]
        exact hkey
      · cases h

theorem foldWrites_kept {key : String} :
    ∀ {ops : List (WriteOp L.Ipld)} {m m' : RecordMap L}, (∀ op ∈ ops, op ≠ .delete key) →
      foldWrites m ops = some m' → (m key).isSome → (m' key).isSome
  | [], m, m', _, h, hkey => by
      obtain rfl := Option.some.inj h
      exact hkey
  | op :: ops, m, m', hops, h, hkey => by
      obtain ⟨m₁, hop, h⟩ := Option.bind_eq_some_iff.mp h
      exact foldWrites_kept (fun op' hop' => hops op' (List.mem_cons_of_mem _ hop')) h
        (onMap_kept (hops op List.mem_cons_self) hop hkey)

theorem create_taken {key : String} (hkey : (m key).isSome) (record : L.Ipld) :
    (WriteOp.create key record).onMap m = none := by
  rw [WriteOp.onMap, Option.bind_eq_none_iff]
  intro cid _
  rw [if_pos hkey]

theorem create_fits {key : String} {record : L.Ipld}
    (h : (WriteOp.create key record).onMap m = some m') : (m' key).isSome := by
  obtain ⟨cid, -, h⟩ := Option.bind_eq_some_iff.mp h
  split at h
  · cases h
  · obtain rfl := Option.some.inj h
    rw [Function.update_self]
    rfl

/-- Two creates of one key do not fold, unless a delete comes between. -/
theorem foldWrites_two_creates {key : String} {record record' : L.Ipld}
    {before between after : List (WriteOp L.Ipld)} (hdel : ∀ op ∈ between, op ≠ .delete key) :
    foldWrites m (before ++ .create key record :: (between ++ .create key record' :: after))
      = none := by
  rw [foldWrites_append, Option.bind_eq_none_iff]
  intro m₁ _
  rw [foldWrites, Option.bind_eq_none_iff]
  intro m₂ hfirst
  rw [foldWrites_append, Option.bind_eq_none_iff]
  intro m₃ hbetween
  rw [foldWrites, create_taken (foldWrites_kept hdel hbetween (create_fits hfirst))]
  rfl

end

/-! ## Served alone -/

section

variable {L : RepoLib} {cfg : RepoConfig L} {keys : String → Except String L.Key}
  {treeGet : TreeGet L} {decodeRecord : L.Block → Except String Json} {view : TreeView L}
  {K : TreeLinks L} {s t : RepoStore L} {m : RecordMap L}

/-- A call of `applyWrites` that passes every check, and its checked
writes. -/
structure BatchPasses (cfg : RepoConfig L) (keys : String → Except String L.Key)
    (bearer : Option String) (input : Json) (micros : Nat) (did : String) (key : L.Key)
    (writes : List Json) (entries : List (WriteOp L.Ipld × String × Option Json)) : Prop where
  token : ∃ t claims, bearer = some t ∧ cfg.decodeJwt t = .ok claims ∧ claims.sub = did
  own : (input.field "repo").asStr = some did
  hasWrites : (input.field "writes").asArr = some writes
  nonempty : writes ≠ []
  checked : (batchEntries cfg did (fun _ => micros) 0 writes).Returns entries
  hasKey : keys did = .ok key
  didOk : cfg.parseDid did = .ok ()

/-- A call of `createRecord` without a record key that passes every
check. -/
structure KeylessPasses (cfg : RepoConfig L) (keys : String → Except String L.Key)
    (bearer : Option String) (input : Json) (did : String) (key : L.Key) (collection : String)
    (ipld : L.Ipld) : Prop where
  token : ∃ t claims, bearer = some t ∧ cfg.decodeJwt t = .ok claims ∧ claims.sub = did
  own : (input.field "repo").asStr = some did
  hasCollection : (input.field "collection").asStr = some collection
  collectionOk : validateCollection collection = .ok ()
  noRkey : (input.field "rkey").asStr = none
  hasRecord : (input.field "record").isNull = false
  encodes : cfg.jsonValueToIpld (input.field "record") = .ok ipld
  hasKey : keys did = .ok key
  didOk : cfg.parseDid did = .ok ()

def madeUpKey (collection : String) (micros : Nat) : String :=
  s!"{collection}/{tidFromMicros micros}"

variable {bearer : Option String} {input : Json} {did collection : String} {key : L.Key}
  {ipld : L.Ipld} {micros : Nat}

/-- Past the checks. -/
theorem createRecord_eq (h : KeylessPasses cfg keys bearer input did key collection ipld)
    (rnd : WriteDraw) :
    createRecord cfg bearer (some input) micros rnd
      = (loadKey did).bind fun key => (writerFor cfg key did).bind fun writer =>
          (applyOneParts writer (.create (madeUpKey collection micros) ipld) rnd
            "repo write failed").bind fun commit =>
          (firstCid commit "create op yielded no record cid").bind fun cid =>
            .ret ⟨atUri did collection (tidFromMicros micros), cfg.cidText cid, commit,
              [some (input.field "record")]⟩ := by
  obtain ⟨t, claims, rfl, hclaims, rfl⟩ := h.token
  simp only [createRecord, authenticated, Option.bind_some, hclaims, Except.toOption, parsed,
    ownRepo, h.own, collectionOf, h.hasCollection, required, check, h.collectionOk, h.noRkey,
    rkeyOr, recordOf, ipldOf, h.hasRecord, h.encodes, Prog.pure_eq, Prog.bind_eq, Prog.ret_bind,
    Prog.ofExcept_ok, ne_eq, not_true_eq_false, if_false, Bool.false_eq_true]
  rfl

/-- The key is there, and the writer can be built. -/
theorem alone_keyed {α : Type} (hkey : keys did = .ok key) (hdid : cfg.parseDid did = .ok ())
    {f : RepoWriter L → RepoProg L α} :
    ((loadKey did).bind fun key => (writerFor cfg key did).bind f).alone
        (S := recordSig L RepoError) (quietExec (env cfg keys treeGet decodeRecord)) s
      = (f ⟨did, key⟩).alone (S := recordSig L RepoError)
          (quietExec (env cfg keys treeGet decodeRecord)) s := by
  have hload : quietExec (env cfg keys treeGet decodeRecord) s (.loadSigningKey did)
      = some (.ok key, s) := congrArg (fun r => some (r, s)) hkey
  refine (Prog.alone_op hload).trans ?_
  simp only [Prog.ofExcept_ok, Prog.ret_bind, writerFor, hdid, Prog.pure_eq, Prog.bind_eq]

/-- A write that does not fit the map fails. -/
theorem alone_applyOneParts_taken (hL : RepoLaws L) (hT : RepoTotal L) (hV : TreeLaws L view)
    (hs : WellAddressed s.blocks) (hfree : s.locks.contains did = false)
    (hm : mapOf view s did = some m) {op : WriteOp L.Ipld} (hop : op.onMap m = none)
    (env : RecordEnv L RepoError) (key : L.Key) (rnd : WriteDraw) (text : String) :
    ∃ e t, (applyOneParts ⟨did, key⟩ op rnd text).alone (S := recordSig L RepoError)
      (quietExec env) s = some (.error e, t) := by
  obtain ⟨x, t, halone, hpost, -, -⟩ :=
    solo_commitOp (w := ⟨did, key⟩) hL hT hV hs hfree hm op false rnd
  have hfold : foldWrites m [op] = none := by rw [foldWrites, hop, Option.bind_none]
  rw [BatchPost, hfold] at hpost
  obtain ⟨⟨e, he⟩, -, -, -⟩ := hpost
  cases x with
  | error e' => exact ⟨_, t, alone_liftWriter halone⟩
  | ok a => cases he

theorem create_fits_iff (hJ : RecordLaws cfg decodeRecord) {v : Json}
    (hipld : cfg.jsonValueToIpld v = .ok ipld) (k : String) :
    (WriteOp.create k ipld).onMap m ≠ none ↔ m k = none := by
  obtain ⟨block, hblock⟩ := hJ.encodes v ipld hipld
  have hcid : recordCid ipld = some (L.cidOf block) := by
    rw [recordCid, hblock]
    rfl
  rw [WriteOp.onMap, hcid, Option.bind_some]
  cases m k with
  | none => simp
  | some c => simp

variable (treeGet) in
/-- With nothing failing it succeeds just in case the key it makes up is
free. -/
theorem alone_createRecord_iff (hL : RepoLaws L) (hT : RepoTotal L) (hV : TreeLaws L view)
    (hJ : RecordLaws cfg decodeRecord) (hs : WellAddressed s.blocks)
    (hfree : s.locks.contains did = false) (hm : mapOf view s did = some m)
    (h : KeylessPasses cfg keys bearer input did key collection ipld) (rnd : WriteDraw) :
    (∃ a t, (createRecord cfg bearer (some input) micros rnd).alone (S := recordSig L RepoError)
        (quietExec (env cfg keys treeGet decodeRecord)) s = some (.ok a, t))
      ↔ m (madeUpKey collection micros) = none := by
  have hfits := create_fits_iff (m := m) hJ h.encodes (madeUpKey collection micros)
  rw [createRecord_eq h, alone_keyed h.hasKey h.didOk]
  constructor
  · rintro ⟨a, t, halone⟩
    by_contra htaken
    obtain ⟨e, u, hfail⟩ := alone_applyOneParts_taken hL hT hV hs hfree hm
      (not_not.mp (mt hfits.mp htaken)) (env cfg keys treeGet decodeRecord) key rnd
      "repo write failed"
    rw [Prog.alone_bind_error hfail] at halone
    cases halone
  · intro hnone
    obtain ⟨commit, t, halone, hops⟩ := alone_applyOneParts hL hT hV hs hfree hm
      (hfits.mpr hnone) (env cfg keys treeGet decodeRecord) key rnd "repo write failed"
    obtain ⟨block, hblock⟩ := hJ.encodes _ _ h.encodes
    have hfirst : firstCid commit "create op yielded no record cid"
        = (.ret (L.cidOf block) : RepoProg L L.Cid) := by
      rw [firstCid, hops]
      simp only [List.head?_cons, Option.bind_some, WriteOp.listed, recordCid, hblock]
      rfl
    rw [Prog.alone_bind_ok halone, hfirst]
    exact ⟨_, t, rfl⟩

/-- A program without operations that can return has returned. -/
theorem ret_of_returns {α : Type} {p : RepoProg L α} {a : α} (hp : p.Each fun _ => False)
    (h : p.Returns a) : p = .ret a := by
  cases p with
  | ret b => exact congrArg Prog.ret h
  | fail e => exact h.elim
  | op o k => exact hp.1.elim

theorem applyWrites_eq {writes : List Json} {entries : List (WriteOp L.Ipld × String × Option Json)}
    (h : BatchPasses cfg keys bearer input micros did key writes entries) (rnd : WriteDraw) :
    applyWrites cfg bearer (some input) (fun _ => micros) rnd
      = (loadKey did).bind fun key => (writerFor cfg key did).bind fun writer =>
          (liftWriter (applyManyParts writer (entries.map fun e => e.1) rnd)).attempt.bind fun r =>
          (Prog.ofExcept (fun e => .thrown s!"batch write failed: {e.display}") r).bind fun a =>
            .ret ⟨List.zipWith (fun o e => batchResult cfg o e.2.1) a.1 entries, a.2,
              entries.map fun e => e.2.2⟩ := by
  obtain ⟨t, claims, rfl, hclaims, rfl⟩ := h.token
  have hchecked := ret_of_returns (each_batchEntries cfg claims.sub (fun _ => micros) writes 0)
    h.checked
  have hnonempty : writes.isEmpty = false := by
    rw [List.isEmpty_eq_false_iff]
    exact h.nonempty
  simp only [applyWrites, authenticated, Option.bind_some, hclaims, Except.toOption, parsed,
    ownRepo, h.own, h.hasWrites, hnonempty, hchecked, Prog.pure_eq, Prog.bind_eq, Prog.ret_bind,
    ne_eq, not_true_eq_false, if_false, Bool.false_eq_true]

variable (treeGet decodeRecord) in
/-- With nothing failing a batch succeeds just in case its writes fold over
the map. -/
theorem alone_applyWrites_iff (hL : RepoLaws L) (hT : RepoTotal L) (hV : TreeLaws L view)
    (hs : WellAddressed s.blocks) (hfree : s.locks.contains did = false)
    (hm : mapOf view s did = some m) {writes : List Json}
    {entries : List (WriteOp L.Ipld × String × Option Json)}
    (h : BatchPasses cfg keys bearer input micros did key writes entries) (rnd : WriteDraw) :
    (∃ a t, (applyWrites cfg bearer (some input) (fun _ => micros) rnd).alone
        (S := recordSig L RepoError) (quietExec (env cfg keys treeGet decodeRecord)) s
          = some (.ok a, t))
      ↔ foldWrites m (entries.map fun e => e.1) ≠ none := by
  have hne : (entries.map fun e => e.1) ≠ [] := by
    intro hnil
    have hlen := (keyless_batchEntries h.checked).length_eq
    rw [hnil] at hlen
    exact h.nonempty (List.eq_nil_of_length_eq_zero hlen)
  obtain ⟨x, t, halone, hpost⟩ :=
    solo_applyManyParts (w := ⟨did, key⟩) hL hT hV hs hfree hm hne rnd
  rw [applyWrites_eq h, alone_keyed h.hasKey h.didOk, alone_liftWriter halone]
  rw [BatchPost] at hpost
  cases hfold : foldWrites m (entries.map fun e => e.1) with
  | none =>
      rw [hfold] at hpost
      obtain ⟨⟨e, rfl⟩, -⟩ := hpost
      refine ⟨?_, fun hne => absurd rfl hne⟩
      rintro ⟨a, u, hrun⟩
      cases hrun
  | some m' =>
      rw [hfold] at hpost
      obtain ⟨body, -, -, rfl⟩ := hpost
      exact ⟨fun _ => Option.some_ne_none m', fun _ => ⟨_, t, rfl⟩⟩

/-! ## What a served create leaves -/

theorem returns_applyRaw_create {data : L.Cid} {k : String}
    {a : String × String × Option L.Cid × L.Cid × List L.Cid}
    (h : (applyRaw data (.create k ipld)).Returns a) :
    ∃ c, (a.1, a.2.1, a.2.2.1) = ("create", k, some c) := by
  obtain ⟨cid, -, h⟩ := Prog.returns_bind.mp h
  obtain ⟨⟨root, nodes⟩, -, h⟩ := Prog.returns_bind.mp h
  obtain rfl := h
  exact ⟨cid, rfl⟩

theorem returns_commitOp_create {w : RepoWriter L} {k : String} {broadcast : Bool}
    {rnd : WriteDraw} {a : WriteOutcome L.Cid × CommitBody L.Cid L.Car}
    (h : (commitOp w (.create k ipld) broadcast rnd).Returns a) :
    a.2.repo = w.did ∧ ∃ c, a.2.ops = [⟨"create", k, some c⟩] := by
  obtain ⟨r, h⟩ := h
  obtain ⟨opened, -, h⟩ := Prog.returns_bind.mp (Prog.returns_of_ensuring h)
  obtain ⟨⟨action, k', recordCid, data, written⟩, hraw, h⟩ := Prog.returns_bind.mp h
  obtain ⟨c, hraw⟩ := returns_applyRaw_create hraw
  obtain ⟨rfl, rfl, rfl⟩ : action = "create" ∧ k' = k ∧ recordCid = some c := by
    simpa using hraw
  obtain ⟨commitCid, -, h⟩ := Prog.returns_bind.mp h
  obtain ⟨blocks, -, h⟩ := Prog.returns_bind.mp h
  obtain ⟨car, -, h⟩ := Prog.returns_bind.mp h
  obtain ⟨block, -, h⟩ := Prog.returns_bind.mp h
  obtain ⟨rev, -, h⟩ := Prog.returns_bind.mp h
  obtain ⟨since, -, h⟩ := Prog.returns_bind.mp h
  obtain ⟨body, hbody, h⟩ := Prog.returns_bind.mp h
  obtain ⟨seq, rfl⟩ := returns_storeCommit hbody
  cases broadcast with
  | false =>
      obtain rfl := h
      exact ⟨rfl, c, rfl⟩
  | true =>
      obtain ⟨-, rfl⟩ := h
      exact ⟨rfl, c, rfl⟩

/-- The commit of a create under the key that was made up. -/
def CreatesMadeUp (did collection : String) (micros : Nat) (body : CommitBody L.Cid L.Car) : Prop :=
  body.repo = did ∧ ∃ c, body.ops = [⟨"create", madeUpKey collection micros, some c⟩]

theorem creates_createRecord {env : RecordEnv L RepoError}
    (h : KeylessPasses cfg keys bearer input did key collection ipld) (rnd : WriteDraw) :
    RecordYields env (createRecord cfg bearer (some input) micros rnd) s
      fun x _ => ∀ a, x = .ok a → CreatesMadeUp did collection micros a.body := by
  rw [createRecord_eq h]
  refine yields_front (reading_loadKey did) (fun key _ => ?_) fun e a ha => nomatch ha
  refine yields_front (reading_writerFor key did) (fun writer hwriter => ?_)
    fun e a ha => nomatch ha
  obtain rfl : ⟨did, key⟩ = writer := by
    obtain ⟨u, -, hwriter⟩ := Prog.returns_bind.mp hwriter
    exact hwriter
  have hcommit : RecordYields env (applyOneParts ⟨did, key⟩
      (.create (madeUpKey collection micros) ipld) rnd "repo write failed") s
      fun x _ => ∀ body, x = .ok body → CreatesMadeUp did collection micros body := by
    refine yields_liftWriter ?_ Prog.yields_returns
    intro x t hx
    cases x with
    | error e => exact fun body hbody => nomatch hbody
    | ok a =>
        intro body hbody
        obtain rfl := Except.ok.inj hbody
        exact returns_commitOp_create (hx a rfl)
  refine Prog.Yields.bind_ok hcommit fun commit t hmade => ?_
  refine (Prog.yields_returns (p := (firstCid commit _).bind _)).mono fun x u hx a ha => ?_
  obtain ⟨cid, -, hret⟩ := Prog.returns_bind.mp (hx a ha)
  obtain rfl := hret
  exact hmade

/-! ## The map over a run -/

/-- What the commits on one repository list, oldest first. -/
def opsOn (sequenced : List (Nat × CommitBody L.Cid L.Car)) (did : String) :
    List (RepoOp L.Cid) :=
  (sequenced.filter fun e => e.2.repo = did).flatMap fun e => e.2.ops

/-- The map of a repository is what its commits list. -/
def Replayed (view : TreeView L) (K : TreeLinks L)
    (sequenced : List (Nat × CommitBody L.Cid L.Car)) (s : RepoStore L) : Prop :=
  ∀ did, Standing view K s did (applyOps (fun _ => none) (opsOn sequenced did))

/-- A request without a record key that passes every check, so that
nothing but the made-up key can make it fail. -/
def Keyless (cfg : RepoConfig L) (keys : String → Except String L.Key) (q : WriteRequest)
    (did collection : String) (micros : Nat) : Prop :=
  ∃ input key ipld rnd, q.body = some input ∧ q.call = .createRecord micros rnd
    ∧ KeylessPasses cfg keys q.bearer input did key collection ipld

/-- The commits of such requests. -/
def KeylessListed (cfg : RepoConfig L) (keys : String → Except String L.Key) (O : Object L) :
    Prop :=
  ∀ i q p body did collection micros, O.tasks[i]? = some (q, p) → (i, body) ∈ O.sequenced →
    Keyless cfg keys q did collection micros → CreatesMadeUp did collection micros body

variable {sequenced : List (Nat × CommitBody L.Cid L.Car)} {body : CommitBody L.Cid L.Car}

theorem opsOn_append {i : Nat} (did : String) :
    opsOn (sequenced ++ [(i, body)]) did
      = opsOn sequenced did ++ if body.repo = did then body.ops else [] := by
  by_cases h : body.repo = did
  · simp [opsOn, List.filter_append, h]
  · simp [opsOn, List.filter_append, h]

theorem Replayed.unmoved (hV : TreeLaws L view) (h : Replayed view K sequenced s)
    (hu : Unmoved s t) : Replayed view K sequenced t := fun did =>
  (h did).mono hV hu.blocks (by rw [hu.roots])

theorem Replayed.committed (hV : TreeLaws L view) (h : Replayed view K sequenced s)
    (hc : Committed view K decodeRecord s t body) (i : Nat) :
    Replayed view K (sequenced ++ [(i, body)]) t := by
  obtain ⟨w, rnd, m, o, data, blocks, hrepo, hm, hw⟩ := hc.wrote
  intro did
  rw [opsOn_append]
  by_cases hdid : body.repo = did
  · rw [if_pos hdid, applyOps, List.foldl_append, ← hdid, ← hrepo]
    have hsame := Option.some.inj ((h w.did).mapOf.symm.trans hm.mapOf)
    rw [applyOps] at hsame
    rw [hsame]
    exact hw.standing
  · rw [if_neg hdid, List.append_nil]
    refine (h did).mono hV hw.grown ?_
    rw [hw.roots, Table.get_insert_of_ne fun heq => hdid (hrepo.symm.trans heq.symm)]

theorem creates_serve {env : RecordEnv L RepoError} {q : WriteRequest}
    (hq : Keyless cfg keys q did collection micros) {cs : List WriterFate} {reply : WriteReply}
    {commit : Commit L}
    (hserve : (serve cfg q.bearer q.body q.call).against (RecordOp.exec env 0) s cs
      = some (.ok (reply, some commit), t)) : CreatesMadeUp did collection micros commit.1 := by
  obtain ⟨input, key, ipld, rnd, hbody, hcall, hpasses⟩ := hq
  rw [hbody, hcall] at hserve
  have hyields : RecordYields env (serve cfg q.bearer (some input) (.createRecord micros rnd)) s
      fun x _ => ∀ reply commit, x = .ok (reply, some commit) →
        CreatesMadeUp did collection micros commit.1 := by
    refine Prog.Yields.bind ?_ (fun e t h reply commit hx => nomatch hx)
      (creates_createRecord hpasses rnd)
    intro a u hmade reply commit hx
    obtain ⟨-, hcommit⟩ := Prod.mk.injEq .. |>.mp (Except.ok.inj hx)
    obtain rfl := Option.some.inj hcommit
    exact hmade a rfl
  exact hyields.of_against hserve reply commit rfl

theorem KeylessListed.set {O : Object L} (h : KeylessListed cfg keys O) {i : Nat} {q : WriteRequest}
    {p p' : ObjectProg L WriteReply} (htask : O.tasks[i]? = some (q, p)) (u : RepoStore L) :
    KeylessListed cfg keys ⟨u, O.tasks.set i (q, p'), O.sequenced⟩ := by
  intro j q' p'' body did collection micros hj hmem hq
  rcases Pool.getElem?_set_cases hj with ⟨rfl, heq⟩ | ⟨-, hj⟩
  · obtain ⟨rfl, -⟩ := Prod.mk.injEq .. |>.mp heq
    exact h j q' p body did collection micros htask hmem hq
  · exact h j q' p'' body did collection micros hj hmem hq

/-- What is kept over a run, besides the chain. -/
structure KeysInv (view : TreeView L) (K : TreeLinks L)
    (decodeRecord : L.Block → Except String Json) (cfg : RepoConfig L)
    (keys : String → Except String L.Key) (O : Object L) : Prop where
  object : ObjectInv view K decodeRecord cfg O
  replayed : Replayed view K O.sequenced O.store
  listed : KeylessListed cfg keys O

theorem keysInv_step (hL : RepoLaws L) (hV : TreeLaws L view) (hK : LinkLaws K)
    (hJ : RecordLaws cfg decodeRecord) {O O' : Object L} {a : ObjectAct}
    (h : KeysInv view K decodeRecord cfg keys O)
    (hstep : O.step cfg (env cfg keys treeGet decodeRecord) a = some O') :
    KeysInv view K decodeRecord cfg keys O' := by
  have hobject := objectInv_step hL hV hK hJ h.object hstep
  have hfresh := h.object.store.unmoved hV (unmoved_fresh O)
  have hreplayed := h.replayed.unmoved hV (unmoved_fresh O)
  have hserved : ∀ q : WriteRequest, RecordYields (env cfg keys treeGet decodeRecord)
      (serve cfg q.bearer q.body q.call) O.fresh
      (Settled view K decodeRecord O.fresh q.call) := fun q =>
    settled_serve hL hV hK hJ hfresh.calls q.bearer q.body q.call
  refine ⟨hobject, ?_, ?_⟩
  · cases moves_of_step h.object.stages hstep with
    | arrives q => exact h.replayed
    | unread htask hi msg part => exact hreplayed
    | refused htask hi hserve => exact hreplayed.unmoved hV ((hserved _).of_against hserve)
    | absent htask hi hserve =>
        obtain ⟨rfl, -⟩ := (hserved _).of_against hserve
        exact hreplayed
    | wrote htask hi hserve =>
        exact hreplayed.committed hV ((hserved _).of_against hserve) _
    | told htask hi c => exact hreplayed
  · cases moves_of_step h.object.stages hstep with
    | arrives q =>
        intro i q' p body did collection micros htask hmem hq
        rcases Pool.getElem?_append_cases htask with ⟨rfl, -⟩ | htask
        · exact absurd (h.object.known _ hmem) (Nat.lt_irrefl _)
        · exact h.listed i q' p body did collection micros htask hmem hq
    | unread htask => exact h.listed.set htask _
    | refused htask => exact h.listed.set htask _
    | absent htask => exact h.listed.set htask _
    | told htask => exact h.listed.set htask _
    | @wrote j q htask hi cs reply commit u hserve =>
        intro i q' p body did collection micros hi' hmem hq
        rcases List.mem_append.mp hmem with hold | hnew
        · rcases Pool.getElem?_set_cases hi' with ⟨rfl, -⟩ | ⟨-, hi'⟩
          · exact absurd (List.mem_map_of_mem (f := Prod.fst) hold) hi
          · exact h.listed i q' p body did collection micros hi' hold hq
        · obtain ⟨rfl, rfl⟩ := Prod.mk.injEq .. |>.mp (List.mem_singleton.mp hnew)
          rcases Pool.getElem?_set_cases hi' with ⟨-, heq⟩ | ⟨hne, -⟩
          · obtain ⟨rfl, -⟩ := Prod.mk.injEq .. |>.mp heq
            exact creates_serve hq hserve
          · exact absurd rfl hne

theorem keysInv_run (hL : RepoLaws L) (hV : TreeLaws L view) (hK : LinkLaws K)
    (hJ : RecordLaws cfg decodeRecord) {O : Object L} {acts : List ObjectAct}
    (hrun : Steps.run (Object.step cfg (env cfg keys treeGet decodeRecord)) (Object.init L) acts
      = some O) : KeysInv view K decodeRecord cfg keys O :=
  Steps.run_inv (fun _ _ _ h hstep => keysInv_step hL hV hK hJ h hstep)
    ⟨objectInv_init, fun _ => rfl, fun _ _ _ _ _ _ _ h => by cases h⟩ hrun

/-! ## Two creates of one key -/

/-- The log of an object has the record and not its deletion. -/
def Recorded (sequenced : List (Nat × CommitBody L.Cid L.Car)) (did k : String) : Prop :=
  (applyOps (fun _ => none) (opsOn sequenced did) k).isSome

def Removes (k : String) (o : RepoOp L.Cid) : Prop :=
  o.path = k ∧ (o.action = "delete" ∨ o.cid = none)

theorem apply_kept {o : RepoOp L.Cid} {k : String} (ho : ¬ Removes k o) (hk : (m k).isSome) :
    (o.apply m k).isSome := by
  rw [RepoOp.apply]
  split
  · rename_i hdel
    rw [Function.update_of_ne fun heq => ho ⟨heq.symm, Or.inl hdel⟩]
    exact hk
  · rw [Function.update_apply]
    split
    · rename_i hpath
      exact Option.isSome_iff_ne_none.mpr fun hnone => ho ⟨hpath.symm, Or.inr hnone⟩
    · exact hk

theorem applyOps_kept {k : String} :
    ∀ {ops : List (RepoOp L.Cid)} {m : RecordMap L}, (∀ o ∈ ops, ¬ Removes k o) →
      (m k).isSome → (applyOps m ops k).isSome
  | [], _, _, hk => hk
  | o :: ops, m, hops, hk => by
      have hrest : (applyOps (o.apply m) ops k).isSome :=
        applyOps_kept (fun o' ho => hops o' (List.mem_cons_of_mem o ho))
          (apply_kept (hops o List.mem_cons_self) hk)
      exact hrest

/-- What was created is there until a commit removes it. -/
theorem recorded_of_created {i : Nat} (hmem : (i, body) ∈ sequenced)
    (hmade : CreatesMadeUp did collection micros body)
    (hkept : ∀ e ∈ sequenced, e.2.repo = did →
      ∀ o ∈ e.2.ops, ¬ Removes (madeUpKey collection micros) o) :
    Recorded sequenced did (madeUpKey collection micros) := by
  obtain ⟨hrepo, c, hops⟩ := hmade
  obtain ⟨before, after, rfl⟩ := List.append_of_mem hmem
  have hafter : ∀ o ∈ opsOn after did, ¬ Removes (madeUpKey collection micros) o := by
    intro o ho
    obtain ⟨e, he, ho⟩ := List.mem_flatMap.mp ho
    obtain ⟨he, hdid⟩ := List.mem_filter.mp he
    exact hkept e (List.mem_append_right _ (List.mem_cons_of_mem _ he)) (by simpa using hdid) o ho
  have hlog : opsOn (before ++ (i, body) :: after) did
      = opsOn before did ++ body.ops ++ opsOn after did := by
    simp [opsOn, List.filter_append, hrepo]
  rw [Recorded, hlog, applyOps, List.foldl_append, List.foldl_append]
  refine applyOps_kept hafter ?_
  have hcreate : "create" ≠ "delete" := by decide
  rw [hops, List.foldl_cons, List.foldl_nil, RepoOp.apply, if_neg hcreate, Function.update_self]
  rfl

theorem alone_serve_keyless_iff (hL : RepoLaws L) (hT : RepoTotal L) (hV : TreeLaws L view)
    (hJ : RecordLaws cfg decodeRecord) (hs : WellAddressed s.blocks)
    (hfree : s.locks.contains did = false) (hm : mapOf view s did = some m) {q : WriteRequest}
    (hq : Keyless cfg keys q did collection micros) :
    (∃ a t, (serve cfg q.bearer q.body q.call).alone (S := recordSig L RepoError)
        (quietExec (env cfg keys treeGet decodeRecord)) s = some (.ok a, t))
      ↔ m (madeUpKey collection micros) = none := by
  obtain ⟨input, key, ipld, rnd, hbody, hcall, hpasses⟩ := hq
  rw [hbody, hcall, ← alone_createRecord_iff treeGet hL hT hV hJ hs hfree hm hpasses
    rnd, serve, Prog.bind_eq]
  constructor
  · rintro ⟨a, t, halone⟩
    rw [Prog.alone_bind] at halone
    obtain ⟨⟨x, u⟩, hrun, hrest⟩ := Option.bind_eq_some_iff.mp halone
    cases x with
    | error e => cases hrest
    | ok b => exact ⟨b, u, hrun⟩
  · rintro ⟨b, t, halone⟩
    rw [Prog.alone_bind_ok halone]
    exact ⟨_, t, rfl⟩

/-- A batch that makes a key up twice, and deletes nothing, does not fold. -/
theorem foldWrites_of_made_up_twice {writes : List Json} {ops : List (WriteOp L.Ipld)}
    (hkeyless : List.Forall₂ (fun w op => ∀ c, keylessIn w = some c →
      ∃ ipld, op = WriteOp.create (madeUpKey c micros) ipld) writes ops)
    (htwice : ¬ MadeUpApart writes ops) (hdel : ∀ op ∈ ops, ∀ k, op ≠ .delete k) :
    foldWrites m ops = none := by
  obtain ⟨before, x, between, y, after, hzip, hxy⟩ := exists_pair_of_not_pairwise htwice
  push Not at hxy
  obtain ⟨c, hx, hy, -⟩ := hxy
  have hmade : ∀ z ∈ writes.zip ops, keylessIn z.1 = some c →
      ∃ ipld, z.2 = WriteOp.create (madeUpKey c micros) ipld := fun z hz =>
    List.forall₂_zip hkeyless hz c
  obtain ⟨ipld, hx⟩ := hmade x (by simp [hzip]) hx
  obtain ⟨ipld', hy⟩ := hmade y (by simp [hzip]) hy
  have hops : ops = before.map Prod.snd ++ x.2 :: (between.map Prod.snd ++ y.2
      :: after.map Prod.snd) := by
    rw [← List.map_snd_zip hkeyless.length_eq.ge, hzip]
    simp
  rw [hops, hx, hy]
  refine foldWrites_two_creates fun op hop => hdel op ?_ _
  rw [hops]
  exact List.mem_append_right _ (List.mem_cons_of_mem _ (List.mem_append_left _ hop))

/-- The request is answered with success, when it runs alone and nothing fails. -/
def Succeeds (cfg : RepoConfig L) (keys : String → Except String L.Key) (treeGet : TreeGet L)
    (decodeRecord : L.Block → Except String Json) (s : RepoStore L) (q : WriteRequest) : Prop :=
  ∃ a t, (serve cfg q.bearer q.body q.call).alone (S := recordSig L RepoError)
    (quietExec (env cfg keys treeGet decodeRecord)) s = some (.ok a, t)

/-- The keys made up for a batch differ, and none is the reason of a
failure, exactly where no two creates without a key are in one collection;
otherwise a batch that deletes nothing fails. Of two requests without a
key, of one collection and one millisecond, the second succeeds exactly
where the record of the first is gone. -/
theorem made_up_keys_apart_iff (hL : RepoLaws L) (hT : RepoTotal L) (hV : TreeLaws L view)
    (hK : LinkLaws K) (hJ : RecordLaws cfg decodeRecord) {acts : List ObjectAct} {O : Object L}
    (hrun : Steps.run (Object.step cfg (env cfg keys treeGet decodeRecord)) (Object.init L) acts
      = some O) :
    (∀ bearer input micros did key writes entries rnd,
      BatchPasses cfg keys bearer input micros did key writes entries →
      ((MadeUpApart writes (entries.map fun e => e.1)
          ∧ ∀ m, ¬ OwnKeyTaken m writes (entries.map fun e => e.1))
        ↔ (writes.filterMap keylessIn).Nodup)
      ∧ (¬ (writes.filterMap keylessIn).Nodup → (∀ e ∈ entries, ∀ k, e.1 ≠ .delete k) →
        ¬ Succeeds cfg keys treeGet decodeRecord O.fresh
          ⟨bearer, some input, .applyWrites (fun _ => micros) rnd⟩))
    ∧ ∀ i q p body q' did collection micros, O.tasks[i]? = some (q, p) →
        (i, body) ∈ O.sequenced → Keyless cfg keys q did collection micros →
        Keyless cfg keys q' did collection micros →
        (Succeeds cfg keys treeGet decodeRecord O.fresh q'
          ↔ ¬ Recorded O.sequenced did (madeUpKey collection micros))
        ∧ ((∀ e ∈ O.sequenced, e.2.repo = did →
            ∀ o ∈ e.2.ops, ¬ Removes (madeUpKey collection micros) o) →
          Recorded O.sequenced did (madeUpKey collection micros)) := by
  have hinv : KeysInv view K decodeRecord cfg keys O := keysInv_run hL hV hK hJ hrun
  have hfresh := hinv.object.store.unmoved hV (unmoved_fresh O)
  have hreplayed := hinv.replayed.unmoved hV (unmoved_fresh O)
  refine ⟨?_, ?_⟩
  · intro bearer input micros did key writes entries rnd hpasses
    have hkeyless := keyless_batchEntries hpasses.checked
    have hapart := madeUpApart_iff hkeyless
    refine ⟨⟨fun h => hapart.mp h.1, fun h => ⟨hapart.mpr h, ?_⟩⟩, ?_⟩
    · rintro m ⟨before, x, between, y, after, c, m', hzip, hx, hy, heq, -, -⟩
      have hpair := hapart.mpr h
      rw [MadeUpApart, hzip] at hpair
      have hcons := (List.pairwise_append.mp hpair).2.1
      exact (List.pairwise_cons.mp hcons).1 y (by simp) c hx hy heq
    · rintro hdup hdel ⟨a, t, halone⟩
      have hfold := foldWrites_of_made_up_twice
        (m := applyOps (fun _ => none) (opsOn O.sequenced did)) hkeyless (mt hapart.mp hdup) (by
          intro op hop
          obtain ⟨e, he, rfl⟩ := List.mem_map.mp hop
          exact hdel e he)
      refine (alone_applyWrites_iff treeGet decodeRecord hL hT hV
        hfresh.calls.addressed (unlocked_fresh O did) (hreplayed did).mapOf hpasses rnd).mp ?_ hfold
      rw [serve, Prog.bind_eq, Prog.alone_bind] at halone
      obtain ⟨⟨x, u⟩, hrun, hrest⟩ := Option.bind_eq_some_iff.mp halone
      cases x with
      | error e => cases hrest
      | ok b => exact ⟨b, u, hrun⟩
  · intro i q p body q' did collection micros htask hmem hq hq'
    have hmade := hinv.listed i q p body did collection micros htask hmem hq
    refine ⟨?_, fun hkept => recorded_of_created hmem hmade hkept⟩
    refine (alone_serve_keyless_iff hL hT hV hJ hfresh.calls.addressed (unlocked_fresh O did)
      (hreplayed did).mapOf hq').trans ?_
    rw [Recorded, Option.not_isSome_iff_eq_none]

end

/-! ### One millisecond -/

def keylessInput : Json :=
  .obj [("repo", .str "did:plc:alice"), ("collection", .str "app.bsky.feed.post"),
    ("record", .obj [])]

def keylessRequest : WriteRequest :=
  ⟨some "alice", some keylessInput, .createRecord 1000 sampleDraw⟩

def keylessWrite : Json :=
  .obj [("$type", .str "com.atproto.repo.applyWrites#create"),
    ("collection", .str "app.bsky.feed.post"), ("value", .obj [])]

def twoPosts : Json :=
  .obj [("repo", .str "did:plc:alice"), ("writes", .arr [keylessWrite, keylessWrite])]

abbrev sampleKeys : String → Except String sampleRepo.Key := fun _ => .ok ()

abbrev sampleEnv : RecordEnv sampleRepo RepoError :=
  env sampleConfig sampleKeys sampleTreeGet fun _ => .ok .null

/-- Answered, failed, or not yet done. -/
def answers (O : Object sampleRepo) : List (Option Bool) :=
  O.tasks.map fun t =>
    match t.2 with
    | .ret _ => some true
    | .fail _ => some false
    | .op _ _ => none

theorem keylessRequest_keyless : Keyless sampleConfig sampleKeys keylessRequest "did:plc:alice"
    "app.bsky.feed.post" 1000 := by
  refine ⟨keylessInput, (), (7 : Nat), sampleDraw, rfl, rfl, ?_⟩
  exact ⟨⟨"alice", _, rfl, rfl, rfl⟩, rfl, rfl, by decide +kernel, rfl, rfl, rfl, rfl, rfl⟩

theorem twoPosts_passes : ∃ entries, BatchPasses sampleConfig sampleKeys (some "alice") twoPosts 1000
    "did:plc:alice" () [keylessWrite, keylessWrite] entries :=
  ⟨_, ⟨"alice", _, rfl, rfl, rfl⟩, rfl, rfl, List.cons_ne_nil _ _, rfl, rfl, rfl⟩

/-- Two creates of one batch share their key, and the batch fails; two
requests of one millisecond share it, and the second fails. -/
theorem frozen_clock_repeats_keys :
    (¬ ∀ bearer input micros did key writes entries,
      BatchPasses sampleConfig sampleKeys bearer input micros did key writes entries →
      MadeUpApart writes (entries.map fun e => e.1))
    ∧ (Steps.run (Object.step sampleConfig sampleEnv) (Object.init sampleRepo)
        [.arrive ⟨some "alice", some twoPosts, .applyWrites (fun _ => 1000) sampleDraw⟩,
          .turn 0 (List.replicate 11 .done)]).map answers = some [some false]
    ∧ (Steps.run (Object.step sampleConfig sampleEnv) (Object.init sampleRepo)
        [.arrive keylessRequest, .arrive keylessRequest, .turn 0 (List.replicate 17 .done),
          .turn 0 [.done], .turn 1 (List.replicate 8 .done)]).map answers
      = some [some true, some false] := by
  refine ⟨fun h => ?_, rfl, rfl⟩
  obtain ⟨entries, hpasses⟩ := twoPosts_passes
  have hapart := h (some "alice") twoPosts 1000 _ _ _ entries hpasses
  rw [madeUpApart_iff (keyless_batchEntries hpasses.checked)] at hapart
  exact absurd hapart (by decide +kernel)

/-- The same request again is refused. -/
theorem keylessRequest_again : ∃ O,
    Steps.run (Object.step sampleConfig sampleEnv) (Object.init sampleRepo)
      [.arrive keylessRequest, .turn 0 (List.replicate 17 .done)] = some O
    ∧ ¬ Succeeds sampleConfig sampleKeys sampleTreeGet (fun _ => .ok .null) O.fresh
      keylessRequest := by
  have hview : (Steps.run (Object.step sampleConfig sampleEnv) (Object.init sampleRepo)
      [.arrive keylessRequest, .turn 0 (List.replicate 17 .done)]).map (fun O =>
        (O.tasks[0]?.map Prod.fst, O.sequenced.map Prod.fst, O.sequenced.flatMap fun e =>
          e.2.ops.map fun o => (o.action, o.cid.isSome)))
      = some (some keylessRequest, [0], [("create", true)]) := rfl
  obtain ⟨O, hO, hP⟩ := Option.map_eq_some_iff.mp hview
  obtain ⟨htask, hP⟩ := Prod.mk.injEq .. |>.mp hP
  obtain ⟨hseq, hops⟩ := Prod.mk.injEq .. |>.mp hP
  obtain ⟨⟨q, p⟩, htask, rfl⟩ := Option.map_eq_some_iff.mp htask
  obtain ⟨⟨i, body⟩, hmem, rfl⟩ : ∃ e ∈ O.sequenced, e.1 = 0 := by
    rw [← List.mem_map (f := Prod.fst), hseq]
    exact List.mem_singleton_self 0
  have hall := (made_up_keys_apart_iff sampleRepo_laws sampleRepo_total sampleRepo_treeLaws
    sampleRepo_linkLaws sampleConfig_laws hO).2 0 _ p body keylessRequest _ _ _ htask hmem
    keylessRequest_keyless keylessRequest_keyless
  refine ⟨O, hO, fun hok => hall.1.mp hok (hall.2 fun e he _ o ho hremoves => ?_)⟩
  have hlisted : (o.action, o.cid.isSome) ∈ O.sequenced.flatMap fun e =>
      e.2.ops.map fun o => (o.action, o.cid.isSome) :=
    List.mem_flatMap.mpr ⟨e, he, List.mem_map_of_mem ho⟩
  rw [hops, List.mem_singleton, Prod.mk.injEq] at hlisted
  rcases hremoves.2 with hdel | hnone
  · exact absurd (hdel.symm.trans hlisted.1) (by decide)
  · rw [hnone] at hlisted
    cases hlisted.2

end Worker

end Stelyph
