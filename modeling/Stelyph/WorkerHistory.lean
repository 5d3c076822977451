import Stelyph.JsonIpld
import Stelyph.RepoAtRest
import Stelyph.RepoChain
import Stelyph.Lib.TableRel
import Stelyph.RepoListed
import Stelyph.WorkerObject

/-!
# Linear history without a lock

The requests of an object never share a lock. Still their commits form
one chain, because a request that is served has the store to itself from
its first look at it to the commit (`turn_route`). What one served request
does (`Settled`) is put together over all turns; and since a request that
is served meets a store at rest, a put or a delete has nothing to fail on
but itself.
-/

namespace Stelyph

namespace Worker

section

variable {L : RepoLib} {α : Type} {view : TreeView L} {K : TreeLinks L} {s t : RepoStore L}
  {env : RecordEnv L RepoError} {cfg : RepoConfig L}
  {decodeRecord : L.Block → Except String Json}

/-! ## What one request does -/

/-- What the JSON of a record is encoded to is decoded to JSON. -/
structure RecordLaws (cfg : RepoConfig L) (decodeRecord : L.Block → Except String Json) :
    Prop where
  encodes : ∀ v r, cfg.jsonValueToIpld v = .ok r → ∃ b, L.encodeRecord r = .ok b
  decodes : ∀ v r b, cfg.jsonValueToIpld v = .ok r → L.encodeRecord r = .ok b →
    ∃ v', decodeRecord b = .ok v'

/-- A repository whose records are converted by `json_value_to_ipld`
(`repo/util.rs`), whose blocks are DAG-CBOR, and whose records are read as
JSON from that. -/
structure RecordFormat (D : DagCborLib) (readJson : Bytes → Except String Json)
    (cfg : RepoConfig L) (decodeRecord : L.Block → Except String Json) where
  ofIpld : Ipld D.Cid → L.Ipld
  ofBytes : Bytes → L.Block
  converts : ∀ v, cfg.jsonValueToIpld v = (jsonValueToIpld D v).map ofIpld
  encodes : ∀ x, L.encodeRecord (ofIpld x) = (D.toVec x).map ofBytes
  decodes : ∀ bytes, decodeRecord (ofBytes bytes) = readJson bytes

/-- What was written and read is written as it was, and what JSON was
written as can be read as JSON. -/
structure CborJsonLaws (D : DagCborLib)
    (readJson : Bytes → Except String Json) : Prop where
  rewrites : ∀ {x y : Ipld D.Cid} {bytes : Bytes},
    D.toVec x = .ok bytes → D.fromSlice bytes = .ok y → D.toVec y = .ok bytes
  reads : ∀ {v : Json} {bytes : Bytes},
    D.toVec (v.serialize D) = .ok bytes → ∃ v', readJson bytes = .ok v'

/-- The bridge converts to what the JSON was written as. -/
theorem written_of_jsonValueToIpld {D : DagCborLib} {readJson : Bytes → Except String Json}
    (hD : CborJsonLaws D readJson) {v : Json} {x : Ipld D.Cid} (h : jsonValueToIpld D v = .ok x) :
    ∃ bytes v', D.toVec x = .ok bytes ∧ readJson bytes = .ok v' := by
  obtain ⟨bytes, hwrite, hread⟩ := Prog.except_bind_ok h
  have hwrite := Prog.except_mapError_ok hwrite
  obtain ⟨v', hv'⟩ := hD.reads hwrite
  exact ⟨bytes, v', hD.rewrites hwrite (Prog.except_mapError_ok hread), hv'⟩

/-- With the bridge of the source, records are as they have to be. -/
theorem RecordFormat.laws {D : DagCborLib} {readJson : Bytes → Except String Json}
    (F : RecordFormat D readJson cfg decodeRecord) (hD : CborJsonLaws D readJson) :
    RecordLaws cfg decodeRecord := by
  have hwritten : ∀ v r, cfg.jsonValueToIpld v = .ok r → ∃ bytes v',
      L.encodeRecord r = .ok (F.ofBytes bytes) ∧ readJson bytes = .ok v' := by
    intro v r h
    rw [F.converts] at h
    cases hx : jsonValueToIpld D v with
    | error e =>
        rw [hx] at h
        cases h
    | ok x =>
        rw [hx] at h
        obtain rfl := Except.ok.inj h
        obtain ⟨bytes, v', hwrite, hread⟩ := written_of_jsonValueToIpld hD hx
        exact ⟨bytes, v', by rw [F.encodes, hwrite]; rfl, hread⟩
  refine ⟨fun v r h => ?_, fun v r b h hb => ?_⟩
  · obtain ⟨bytes, v', hencode, -⟩ := hwritten v r h
    exact ⟨_, hencode⟩
  · obtain ⟨bytes, v', hencode, hread⟩ := hwritten v r h
    obtain rfl := Except.ok.inj (hencode.symm.trans hb)
    exact ⟨v', (F.decodes bytes).trans hread⟩

def Legible (decodeRecord : L.Block → Except String Json) (s : RepoStore L) (c : L.Cid) : Prop :=
  ∃ block value, s.blocks.get c = some block ∧ decodeRecord block = .ok value

/-- A commit on the repository its event names, of records that can be
read. -/
structure Committed (view : TreeView L) (K : TreeLinks L)
    (decodeRecord : L.Block → Except String Json) (s t : RepoStore L)
    (body : CommitBody L.Cid L.Car) : Prop where
  wrote : ∃ w rnd m o data blocks, w.did = body.repo ∧ Standing view K s w.did m
    ∧ Wrote view K w rnd s t m o data blocks body
  legible : ∀ o ∈ body.ops, ∀ c, o.cid = some c → Legible decodeRecord t c

/-- An answer of `α` comes with a commit. -/
def CommitsTo (view : TreeView L) (K : TreeLinks L) (decodeRecord : L.Block → Except String Json)
    (s : RepoStore L) (body : α → CommitBody L.Cid L.Car) (x : Except RepoFailure α)
    (t : RepoStore L) : Prop :=
  match x with
  | .error _ => Unmoved s t
  | .ok a => Committed view K decodeRecord s t (body a)

/-- The record of a write was JSON. -/
def FromJson (cfg : RepoConfig L) : WriteOp L.Ipld → Prop
  | .create _ record | .update _ record => ∃ v, cfg.jsonValueToIpld v = .ok record
  | .delete _ => True

theorem legible_of_lists (hJ : RecordLaws cfg decodeRecord) {op : WriteOp L.Ipld}
    {o : RepoOp L.Cid} (hop : FromJson cfg op) (h : op.Lists t o) {c : L.Cid}
    (hc : o.cid = some c) : Legible decodeRecord t c := by
  cases op with
  | create key record | update key record =>
      obtain ⟨v, hv⟩ := hop
      obtain ⟨block, hblock, hcid, hget⟩ := h
      obtain rfl := Option.some.inj (hcid.symm.trans hc)
      obtain ⟨v', hv'⟩ := hJ.decodes v record block hv hblock
      exact ⟨block, v', hget, hv'⟩
  | delete key => cases h.symm.trans hc

theorem committed_of_wrote (hJ : RecordLaws cfg decodeRecord) {w : RepoWriter L} {rnd : WriteDraw}
    {m : RecordMap L} {body : CommitBody L.Cid L.Car} {ops : List (WriteOp L.Ipld)}
    (hm : Standing view K s w.did m) (hops : ∀ op ∈ ops, FromJson cfg op)
    (hwrote : ∃ o data blocks, Wrote view K w rnd s t m o data blocks body)
    (hlisting : Listing w ops t body) : Committed view K decodeRecord s t body where
  wrote := by
    obtain ⟨o, data, blocks, hwrote⟩ := hwrote
    exact ⟨w, rnd, m, o, data, blocks, hlisting.repo.symm, hm, hwrote⟩
  legible o ho c hc := by
    obtain ⟨op, hop, hlists⟩ := forall₂_right_of_mem hlisting.lists ho
    exact legible_of_lists hJ (hops op hop) hlists hc

/-- The first entry of the event, where the write has a record. -/
theorem firstCid_of_listing {w : RepoWriter L} {op : WriteOp L.Ipld}
    {body : CommitBody L.Cid L.Car} (h : Listing w [op] t body) (hop : ∀ key, op ≠ .delete key)
    (text : String) : ∃ cid, firstCid body text = (.ret cid : RepoProg L L.Cid) := by
  obtain ⟨o, rest, ho, -, hbody⟩ := List.forall₂_cons_left_iff.mp h.lists
  cases op with
  | delete key => exact absurd rfl (hop key)
  | create key record | update key record =>
      obtain ⟨block, -, hcid, -⟩ := ho
      refine ⟨L.cidOf block, ?_⟩
      rw [firstCid, hbody]
      simp only [List.head?_cons, Option.bind_some, hcid]
      rfl

theorem commits_applyOneParts (hL : RepoLaws L) (hV : TreeLaws L view) (hK : LinkLaws K)
    (hJ : RecordLaws cfg decodeRecord) (hs : CallsInv view K s) (writer : RepoWriter L)
    {op : WriteOp L.Ipld} (hop : FromJson cfg op) (rnd : WriteDraw) (text : String) :
    RecordYields env (applyOneParts writer op rnd text) s fun x t =>
      CommitsTo view K decodeRecord s id x t
        ∧ ∀ body, x = .ok body → Listing writer [op] t body := by
  obtain ⟨m, hm⟩ := hs.standing writer.did
  refine yields_liftWriter ?_ ((done_commitOp hL hV hK hs.addressed hm op false rnd).and
    (listing_commitOp hL hs.addressed writer op false rnd))
  rintro x t ⟨hdone, hlisting⟩
  cases x with
  | error e => exact ⟨hdone, fun _ h => nomatch h⟩
  | ok a =>
      have hlist := hlisting a rfl
      refine ⟨committed_of_wrote hJ hm ?_ hdone hlist, ?_⟩
      · intro op' hop'
        rw [List.mem_singleton.mp hop']
        exact hop
      · intro body hbody
        obtain rfl := Except.ok.inj hbody
        exact hlist

theorem commits_applyManyParts (hL : RepoLaws L) (hV : TreeLaws L view) (hK : LinkLaws K)
    (hJ : RecordLaws cfg decodeRecord) (hs : CallsInv view K s) (writer : RepoWriter L)
    {ops : List (WriteOp L.Ipld)} (hops : ∀ op ∈ ops, FromJson cfg op) (rnd : WriteDraw) :
    RepoYields (applyManyParts writer ops rnd) s fun x t =>
      match x with
      | .error _ => Unmoved s t
      | .ok a => Committed view K decodeRecord s t a.2 := by
  obtain ⟨m, hm⟩ := hs.standing writer.did
  refine ((done_applyManyParts hL hV hK hs.addressed hm ops rnd).and
    (listing_applyManyParts hL hs.addressed writer ops rnd)).mono ?_
  rintro x t ⟨hdone, hlisting⟩
  cases x with
  | error e => exact hdone
  | ok a => exact committed_of_wrote hJ hm hops hdone (hlisting a rfl)

/-- A write with a record, and the answer made of its CID. -/
theorem commits_written (hL : RepoLaws L) (hV : TreeLaws L view) (hK : LinkLaws K)
    (hJ : RecordLaws cfg decodeRecord) (hs : CallsInv view K s) (writer : RepoWriter L)
    {op : WriteOp L.Ipld} (hop : FromJson cfg op) (hdel : ∀ key, op ≠ .delete key)
    (rnd : WriteDraw) (text text' : String)
    (answer : CommitBody L.Cid L.Car → L.Cid → Sequenced L)
    (hanswer : ∀ commit cid, (answer commit cid).body = commit) :
    RecordYields env ((applyOneParts writer op rnd text).bind fun commit =>
        (firstCid commit text').bind fun cid => .ret (answer commit cid)) s
      (CommitsTo view K decodeRecord s Sequenced.body) := by
  refine Prog.Yields.bind ?_ ?_ (commits_applyOneParts hL hV hK hJ hs writer hop rnd text)
  · rintro commit t ⟨hcommitted, hlisting⟩
    obtain ⟨cid, hcid⟩ := firstCid_of_listing (hlisting commit rfl) hdel text'
    rw [hcid]
    show Committed view K decodeRecord s t (answer commit cid).body
    rw [hanswer]
    exact hcommitted
  · exact fun e t h => h.1

theorem returns_ipldOf {value : Json} {missing unencodable : String} {ipld : L.Ipld}
    (h : (ipldOf cfg value missing unencodable).Returns ipld) :
    cfg.jsonValueToIpld value = .ok ipld := by
  rw [ipldOf] at h
  split at h
  · exact h.elim
  · exact (Prog.returns_ofExcept _ _ _).mp h

theorem reading_writerFor (key : L.Key) (did : String) :
    (writerFor cfg key did).Each RecordOp.Reading :=
  (Prog.each_ofExcept _ _ _).bind fun _ => trivial

theorem reading_writePreamble (bearer : Option String) (input : Json) :
    (writePreamble cfg bearer input).Each RecordOp.Reading := by
  refine (each_authenticated cfg bearer).bind fun did => ?_
  refine (each_ownRepo input did).bind fun _ => ?_
  refine (each_collectionOf input _).bind fun collection => ?_
  refine (each_required _ _).bind fun rkey => ?_
  refine (Prog.each_ofExcept _ _ _).bind fun _ => ?_
  exact (reading_loadKey did).bind fun key => trivial

theorem commits_createRecord (hL : RepoLaws L) (hV : TreeLaws L view) (hK : LinkLaws K)
    (hJ : RecordLaws cfg decodeRecord) (hs : CallsInv view K s) (bearer : Option String)
    (body : Option Json) (micros : Nat) (rnd : WriteDraw) :
    RecordYields env (createRecord cfg bearer body micros rnd) s
      (CommitsTo view K decodeRecord s Sequenced.body) := by
  have hfail : ∀ e, CommitsTo view K decodeRecord s Sequenced.body (.error e) s :=
    fun _ => Unmoved.refl s
  refine yields_front (each_authenticated cfg bearer) (fun did _ => ?_) hfail
  refine yields_front (each_parsed body) (fun input _ => ?_) hfail
  refine yields_front (each_ownRepo input did) (fun _ _ => ?_) hfail
  refine yields_front (each_collectionOf input _) (fun collection _ => ?_) hfail
  refine yields_front (each_rkeyOr _ trivial) (fun rkey _ => ?_) hfail
  refine yields_front (each_ipldOf cfg _ _ _) (fun ipld hipld => ?_) hfail
  refine yields_front (reading_loadKey did) (fun key _ => ?_) hfail
  refine yields_front (reading_writerFor key did) (fun writer _ => ?_) hfail
  refine commits_written hL hV hK hJ hs writer ?_ ?_ rnd _ _ (fun commit cid =>
    ⟨atUri did collection rkey, cfg.cidText cid, commit, [some (input.field "record")]⟩)
    fun _ _ => rfl
  · exact ⟨_, returns_ipldOf hipld⟩
  · exact fun key' h => nomatch h

theorem commits_putRecord (hL : RepoLaws L) (hV : TreeLaws L view) (hK : LinkLaws K)
    (hJ : RecordLaws cfg decodeRecord) (hs : CallsInv view K s) (bearer : Option String)
    (body : Option Json) (rnd : WriteDraw) :
    RecordYields env (putRecord cfg bearer body rnd) s
      (CommitsTo view K decodeRecord s Sequenced.body) := by
  have hfail : ∀ e, CommitsTo view K decodeRecord s Sequenced.body (.error e) s :=
    fun _ => Unmoved.refl s
  refine yields_front (each_parsed body) (fun input _ => ?_) hfail
  refine yields_front (reading_writePreamble bearer input) ?_ hfail
  rintro ⟨did, key, collection, rkey⟩ -
  refine yields_front (each_ipldOf cfg _ _ _) (fun ipld hipld => ?_) hfail
  intro c r t hexec
  obtain rfl := RecordOp.Reading.kept (o := .lookupRecordCid _ _) trivial hexec
  refine yields_front (Prog.each_ofExcept _ _ _) (fun found _ => ?_) hfail
  refine yields_front (reading_writerFor key did) (fun writer _ => ?_) hfail
  refine commits_written hL hV hK hJ hs writer ?_ ?_ rnd _ _ (fun commit cid =>
    ⟨atUri did collection rkey, cfg.cidText cid, commit, [some (input.field "record")]⟩)
    fun _ _ => rfl
  · split_ifs
    · exact ⟨_, returns_ipldOf hipld⟩
    · exact ⟨_, returns_ipldOf hipld⟩
  · intro key'
    split_ifs
    · exact fun h => nomatch h
    · exact fun h => nomatch h

/-- A delete that finds nothing leaves the store alone. -/
theorem commits_deleteRecord (hL : RepoLaws L) (hV : TreeLaws L view) (hK : LinkLaws K)
    (hJ : RecordLaws cfg decodeRecord) (hs : CallsInv view K s) (bearer : Option String)
    (body : Option Json) (rnd : WriteDraw) :
    RecordYields env (deleteRecord cfg bearer body rnd) s fun x t =>
      match x with
      | .error _ => Unmoved s t
      | .ok none => t = s
      | .ok (some sequenced) => Committed view K decodeRecord s t sequenced.body := by
  have hfail : ∀ e : RepoFailure, Unmoved s s := fun _ => Unmoved.refl s
  refine yields_front (each_parsed body) (fun input _ => ?_) hfail
  refine yields_front (reading_writePreamble bearer input) ?_ hfail
  rintro ⟨did, key, collection, rkey⟩ -
  intro c r t hexec
  obtain rfl := RecordOp.Reading.kept (o := .lookupRecordCid _ _) trivial hexec
  refine yields_front (Prog.each_ofExcept _ _ _) (fun found _ => ?_) hfail
  split_ifs
  · rfl
  · refine yields_front (reading_writerFor key did) (fun writer _ => ?_) hfail
    have hop : FromJson cfg (.delete s!"{collection}/{rkey}") := trivial
    refine Prog.Yields.bind ?_ ?_ (commits_applyOneParts hL hV hK hJ hs writer hop rnd _)
    · exact fun commit t h => h.1
    · exact fun e t h => h.1

theorem returns_batchEntry {did : String} {micros : Nat} {w : Json}
    {entry : WriteOp L.Ipld × String × Option Json}
    (h : (batchEntry cfg did micros w).Returns entry) : FromJson cfg entry.1 := by
  obtain ⟨collection, -, h⟩ := Prog.returns_bind.mp h
  obtain ⟨rkey, -, h⟩ := Prog.returns_bind.mp h
  dsimp only at h
  split_ifs at h
  · obtain rfl := h
    trivial
  all_goals
    obtain ⟨ipld, hipld, h⟩ := Prog.returns_bind.mp h
    first
      | exact h.elim
      | obtain rfl := h
        exact ⟨_, returns_ipldOf hipld⟩

theorem returns_batchEntries {did : String} {micros : Nat → Nat} :
    ∀ {ws : List Json} {n : Nat} {entries : List (WriteOp L.Ipld × String × Option Json)},
      (batchEntries cfg did micros n ws).Returns entries →
        ∀ op ∈ entries.map fun e => e.1, FromJson cfg op
  | [], n, entries, h => by
      obtain rfl := h
      exact fun op hop => nomatch hop
  | w :: ws, n, entries, h => by
      obtain ⟨entry, hentry, h⟩ := Prog.returns_bind.mp h
      obtain ⟨rest, hrest, rfl⟩ := Prog.returns_bind.mp h
      intro op hop
      rcases List.mem_cons.mp hop with rfl | hop
      · exact returns_batchEntry hentry
      · exact returns_batchEntries hrest op hop

theorem commits_applyWrites (hL : RepoLaws L) (hV : TreeLaws L view) (hK : LinkLaws K)
    (hJ : RecordLaws cfg decodeRecord) (hs : CallsInv view K s) (bearer : Option String)
    (body : Option Json) (micros : Nat → Nat) (rnd : WriteDraw) :
    RecordYields env (applyWrites cfg bearer body micros rnd) s
      (CommitsTo view K decodeRecord s BatchSequenced.body) := by
  have hfail : ∀ e, CommitsTo view K decodeRecord s BatchSequenced.body (.error e) s :=
    fun _ => Unmoved.refl s
  refine yields_front (each_authenticated cfg bearer) (fun did _ => ?_) hfail
  refine yields_front (each_parsed body) (fun input _ => ?_) hfail
  refine yields_front (each_ownRepo input did) (fun _ _ => ?_) hfail
  dsimp only
  split
  · exact hfail _
  · rename_i writes _
    split_ifs
    · exact hfail _
    · refine yields_front (each_batchEntries cfg did micros writes 0) (fun entries hentries => ?_)
        hfail
      refine yields_front (reading_loadKey did) (fun key _ => ?_) hfail
      refine yields_front (reading_writerFor key did) (fun writer _ => ?_) hfail
      refine yields_liftWriter ?_
        (commits_applyManyParts hL hV hK hJ hs writer (returns_batchEntries hentries) rnd)
      intro x t hx
      cases x with
      | error e => exact hx
      | ok a => exact hx

/-- How a served request leaves the store. -/
def Settled (view : TreeView L) (K : TreeLinks L) (decodeRecord : L.Block → Except String Json)
    (s : RepoStore L) (call : WriteCall)
    (x : Except RepoFailure (WriteReply × Option (Commit L))) (t : RepoStore L) : Prop :=
  match x with
  | .error _ => Unmoved s t
  | .ok (_, none) => t = s ∧ ∃ rnd, call = .deleteRecord rnd
  | .ok (_, some commit) => Committed view K decodeRecord s t commit.1

theorem settled_serve (hL : RepoLaws L) (hV : TreeLaws L view) (hK : LinkLaws K)
    (hJ : RecordLaws cfg decodeRecord) (hs : CallsInv view K s) (bearer : Option String)
    (body : Option Json) (call : WriteCall) :
    RecordYields env (serve cfg bearer body call) s (Settled view K decodeRecord s call) := by
  cases call with
  | createRecord micros rnd =>
      refine Prog.Yields.bind ?_ ?_ (commits_createRecord hL hV hK hJ hs bearer body micros rnd)
      · exact fun _ _ h => h
      · exact fun _ _ h => h
  | putRecord rnd =>
      refine Prog.Yields.bind ?_ ?_ (commits_putRecord hL hV hK hJ hs bearer body rnd)
      · exact fun _ _ h => h
      · exact fun _ _ h => h
  | deleteRecord rnd =>
      refine Prog.Yields.bind ?_ ?_ (commits_deleteRecord hL hV hK hJ hs bearer body rnd)
      · intro found t h
        cases found with
        | none => exact ⟨h, rnd, rfl⟩
        | some sequenced => exact h
      · exact fun _ _ h => h
  | applyWrites micros rnd =>
      refine Prog.Yields.bind ?_ ?_ (commits_applyWrites hL hV hK hJ hs bearer body micros rnd)
      · exact fun _ _ h => h
      · exact fun _ _ h => h

/-! ## Chains -/

/-- The commits on one repository, oldest first. -/
def commitsOf (sequenced : List (Nat × CommitBody L.Cid L.Car)) (did : String) : List L.Cid :=
  (sequenced.filter fun e => e.2.repo = did).map fun e => e.2.commit

/-- From the root back, through all commits and the one the repository was
created with. -/
def Chained (f : L.Cid → Option L.Block) (root : Option L.Cid) (commits : List L.Cid) : Prop :=
  match root with
  | none => commits = []
  | some root => ∃ genesis, PrevChain f root (commits.reverse ++ [genesis])
      ∧ (commits.reverse ++ [genesis]).Nodup

theorem chained_mono {f g : L.Cid → Option L.Block} (hle : BlocksLe f g) {root : Option L.Cid}
    {commits : List L.Cid} (h : Chained f root commits) : Chained g root commits := by
  cases root with
  | none => exact h
  | some root =>
      obtain ⟨genesis, hchain, hnodup⟩ := h
      exact ⟨genesis, hchain.mono hle, hnodup⟩

/-- A commit chains from the root, or is the first. -/
theorem chained_wrote {w : RepoWriter L} {rnd : WriteDraw} {m : RecordMap L} {o : Opened L}
    {data : L.Cid} {blocks : List (L.Cid × L.Block)} {body : CommitBody L.Cid L.Car}
    (hw : Wrote view K w rnd s t m o data blocks body) {commits : List L.Cid}
    (h : Chained s.blocks.get (s.roots.get w.did) commits) :
    Chained t.blocks.get (t.roots.get w.did) (commits ++ [body.commit]) := by
  obtain ⟨sig, hcommit⟩ := hw.commit
  rw [hw.roots, Table.get_insert_self, Chained, List.reverse_append]
  cases hw.starts with
  | stored cm hroot _ _ _ =>
      rw [hroot] at h
      obtain ⟨genesis, hchain, hnodup⟩ := chained_mono hw.grown h
      refine ⟨genesis, .step hcommit rfl hchain, ?_⟩
      exact List.nodup_cons.mpr ⟨hchain.not_mem hnodup hcommit rfl, hnodup⟩
  | created sig' hroot hgenesis _ _ _ _ =>
      rw [hroot] at h
      obtain rfl : commits = [] := h
      have hstop := PrevChain.stop hgenesis rfl
      refine ⟨o.prev, .step hcommit rfl hstop, ?_⟩
      exact List.nodup_cons.mpr
        ⟨hstop.not_mem (List.nodup_singleton _) hcommit rfl, List.nodup_singleton _⟩

/-! ## Records that can be read -/

/-- Every repository stands, and every record in it can be read, which is
what `get_record` asks of the store before a write. -/
def Readable (view : TreeView L) (K : TreeLinks L) (decodeRecord : L.Block → Except String Json)
    (s : RepoStore L) : Prop :=
  ∀ did, ∃ m, Standing view K s did m ∧ ∀ key c, m key = some c → Legible decodeRecord s c

theorem Legible.mono {c : L.Cid} (h : Legible decodeRecord s c)
    (hle : BlocksLe s.blocks.get t.blocks.get) : Legible decodeRecord t c := by
  obtain ⟨block, value, hget, hdec⟩ := h
  exact ⟨block, value, hle _ _ hget, hdec⟩

theorem Readable.mono (hV : TreeLaws L view) (h : Readable view K decodeRecord s)
    (hle : BlocksLe s.blocks.get t.blocks.get) {did : String}
    (hroot : t.roots.get did = s.roots.get did) :
    ∃ m, Standing view K t did m ∧ ∀ key c, m key = some c → Legible decodeRecord t c := by
  obtain ⟨m, hm, hread⟩ := h did
  exact ⟨m, hm.mono hV hle hroot, fun key c hc => (hread key c hc).mono hle⟩

theorem applyOps_eq_some {key : String} {c : L.Cid} :
    ∀ {ops : List (RepoOp L.Cid)} {m : RecordMap L}, applyOps m ops key = some c →
      m key = some c ∨ ∃ o ∈ ops, o.cid = some c
  | [], m, h => Or.inl h
  | o :: ops, m, h => by
      have happly : applyOps (o.apply m) ops key = some c := h
      rcases applyOps_eq_some happly with hm | ⟨o', ho', hc⟩
      · by_cases hkey : key = o.path
        · rw [hkey, RepoOp.apply] at hm
          split_ifs at hm
          · simp at hm
          · exact Or.inr ⟨o, List.mem_cons_self, by simpa using hm⟩
        · rw [RepoOp.apply] at hm
          split_ifs at hm
          · exact Or.inl (by simpa [hkey] using hm)
          · exact Or.inl (by simpa [hkey] using hm)
      · exact Or.inr ⟨o', List.mem_cons_of_mem o ho', hc⟩

/-! ## The store between turns -/

structure StoreInv (view : TreeView L) (K : TreeLinks L)
    (decodeRecord : L.Block → Except String Json)
    (sequenced : List (Nat × CommitBody L.Cid L.Car)) (s : RepoStore L) : Prop where
  calls : CallsInv view K s
  readable : Readable view K decodeRecord s
  chained : ∀ did, Chained s.blocks.get (s.roots.get did) (commitsOf sequenced did)

variable {sequenced : List (Nat × CommitBody L.Cid L.Car)}

theorem storeInv_empty : StoreInv view K decodeRecord [] (RepoStore.empty L) where
  calls := callsInv_empty
  readable _ := ⟨fun _ => none, rfl, fun _ _ h => nomatch h⟩
  chained _ := rfl

theorem StoreInv.unmoved (hV : TreeLaws L view) (h : StoreInv view K decodeRecord sequenced s)
    (hu : Unmoved s t) : StoreInv view K decodeRecord sequenced t where
  calls := h.calls.unmoved hV hu
  readable did := h.readable.mono hV hu.blocks (by rw [hu.roots])
  chained did := by
    rw [hu.roots]
    exact chained_mono hu.blocks (h.chained did)

theorem commitsOf_append {i : Nat} {body : CommitBody L.Cid L.Car} (did : String) :
    commitsOf (sequenced ++ [(i, body)]) did
      = commitsOf sequenced did ++ if body.repo = did then [body.commit] else [] := by
  by_cases h : body.repo = did
  · simp [commitsOf, List.filter_append, h]
  · simp [commitsOf, List.filter_append, h]

theorem StoreInv.committed (hV : TreeLaws L view) (hK : LinkLaws K)
    (h : StoreInv view K decodeRecord sequenced s) {body : CommitBody L.Cid L.Car}
    (hc : Committed view K decodeRecord s t body) (i : Nat) :
    StoreInv view K decodeRecord (sequenced ++ [(i, body)]) t := by
  obtain ⟨w, rnd, m, o, data, blocks, hrepo, hm, hw⟩ := hc.wrote
  have hother : ∀ did, did ≠ w.did → t.roots.get did = s.roots.get did := by
    intro did hdid
    rw [hw.roots, Table.get_insert_of_ne hdid]
  refine ⟨h.calls.wrote hV hK hw, ?_, ?_⟩
  · intro did
    by_cases hdid : did = w.did
    · subst hdid
      refine ⟨_, hw.standing, fun key c hkey => ?_⟩
      rcases applyOps_eq_some hkey with hold | ⟨o', ho', hcid⟩
      · obtain ⟨m', hm', hread⟩ := h.readable w.did
        obtain rfl := Option.some.inj (hm'.mapOf.symm.trans hm.mapOf)
        exact (hread key c hold).mono hw.grown
      · exact hc.legible o' ho' c hcid
    · exact h.readable.mono hV hw.grown (hother did hdid)
  · intro did
    rw [commitsOf_append]
    by_cases hdid : did = w.did
    · subst hdid
      rw [if_pos hrepo.symm]
      exact chained_wrote hw (h.chained w.did)
    · rw [if_neg (fun hd => hdid (hd.symm.trans hrepo.symm)), List.append_nil, hother did hdid]
      exact chained_mono hw.grown (h.chained did)

/-! ## Where the requests are -/

/-- A request and its commit, if it has made one. -/
inductive Stage (cfg : RepoConfig L) (sequenced : List (Nat × CommitBody L.Cid L.Car)) (i : Nat)
    (q : WriteRequest) : ObjectProg L WriteReply → Prop where
  | waiting (hi : i ∉ sequenced.map Prod.fst) : Stage cfg sequenced i q (route cfg q)
  | telling (reply : WriteReply) (commit : Commit L) (hi : (i, commit.1) ∈ sequenced) :
      Stage cfg sequenced i q (tell reply (some commit))
  | written (reply : WriteReply) (body : CommitBody L.Cid L.Car) (hi : (i, body) ∈ sequenced) :
      Stage cfg sequenced i q (.ret reply)
  | nothing (reply : WriteReply) (rnd : WriteDraw) (hcall : q.call = .deleteRecord rnd)
      (hi : i ∉ sequenced.map Prod.fst) : Stage cfg sequenced i q (.ret reply)
  | failed (e : RepoFailure) (hi : i ∉ sequenced.map Prod.fst) :
      Stage cfg sequenced i q (.fail e)

structure ObjectInv (view : TreeView L) (K : TreeLinks L)
    (decodeRecord : L.Block → Except String Json) (cfg : RepoConfig L) (O : Object L) : Prop where
  store : StoreInv view K decodeRecord O.sequenced O.store
  once : (O.sequenced.map Prod.fst).Nodup
  known : ∀ e ∈ O.sequenced, e.1 < O.tasks.length
  stages : ∀ i q p, O.tasks[i]? = some (q, p) → Stage cfg O.sequenced i q p

/-- Commits of others do not matter. -/
theorem Stage.append {i j : Nat} {q : WriteRequest} {p : ObjectProg L WriteReply}
    (h : Stage cfg sequenced i q p) (hij : i ≠ j) (body : CommitBody L.Cid L.Car) :
    Stage cfg (sequenced ++ [(j, body)]) i q p := by
  have hnot : i ∉ sequenced.map Prod.fst → i ∉ (sequenced ++ [(j, body)]).map Prod.fst := by
    intro hi
    simp only [List.map_append, List.map_cons, List.map_nil, List.mem_append, List.mem_singleton]
    exact fun h => h.elim hi hij
  cases h with
  | waiting hi => exact .waiting (hnot hi)
  | telling reply commit hi => exact .telling reply commit (List.mem_append_left _ hi)
  | written reply body' hi => exact .written reply body' (List.mem_append_left _ hi)
  | nothing reply rnd hcall hi => exact .nothing reply rnd hcall (hnot hi)
  | failed e hi => exact .failed e (hnot hi)

/-- What a turn finds: the store, and no lock taken. -/
abbrev Object.fresh (O : Object L) : RepoStore L := { O.store with locks := .empty }

/-- All that can happen to an object. -/
inductive Moves (cfg : RepoConfig L) (env : RecordEnv L RepoError) (O : Object L) :
    ObjectAct → Object L → Prop where
  | arrives (q : WriteRequest) :
      Moves cfg env O (.arrive q) { O with tasks := O.tasks ++ [(q, route cfg q)] }
  | unread {i : Nat} {q : WriteRequest} (htask : O.tasks[i]? = some (q, route cfg q))
      (hi : i ∉ O.sequenced.map Prod.fst) (msg : String) (part : Nat) :
      Moves cfg env O (.turn i [.fault msg part])
        ⟨O.fresh, O.tasks.set i (q, .fail (.thrown msg)), O.sequenced⟩
  | refused {i : Nat} {q : WriteRequest} (htask : O.tasks[i]? = some (q, route cfg q))
      (hi : i ∉ O.sequenced.map Prod.fst) {cs : List WriterFate} {e : RepoFailure}
      {t : RepoStore L}
      (hserve : (serve cfg q.bearer q.body q.call).against (RecordOp.exec env 0) O.fresh cs
        = some (.error e, t)) :
      Moves cfg env O (.turn i (.done :: cs)) ⟨t, O.tasks.set i (q, .fail e), O.sequenced⟩
  | absent {i : Nat} {q : WriteRequest} (htask : O.tasks[i]? = some (q, route cfg q))
      (hi : i ∉ O.sequenced.map Prod.fst) {cs : List WriterFate} {reply : WriteReply}
      {t : RepoStore L}
      (hserve : (serve cfg q.bearer q.body q.call).against (RecordOp.exec env 0) O.fresh cs
        = some (.ok (reply, none), t)) :
      Moves cfg env O (.turn i (.done :: cs)) ⟨t, O.tasks.set i (q, .ret reply), O.sequenced⟩
  | wrote {i : Nat} {q : WriteRequest} (htask : O.tasks[i]? = some (q, route cfg q))
      (hi : i ∉ O.sequenced.map Prod.fst) {cs : List WriterFate} {reply : WriteReply}
      {commit : Commit L} {t : RepoStore L}
      (hserve : (serve cfg q.bearer q.body q.call).against (RecordOp.exec env 0) O.fresh cs
        = some (.ok (reply, some commit), t)) :
      Moves cfg env O (.turn i (.done :: cs))
        ⟨t, O.tasks.set i (q, tell reply (some commit)), O.sequenced ++ [(i, commit.1)]⟩
  | told {i : Nat} {q : WriteRequest} {reply : WriteReply} {commit : Commit L}
      (htask : O.tasks[i]? = some (q, tell reply (some commit)))
      (hi : (i, commit.1) ∈ O.sequenced) (c : WriterFate) :
      Moves cfg env O (.turn i [c]) ⟨O.fresh, O.tasks.set i (q, .ret reply), O.sequenced⟩

theorem moves_of_step {O O' : Object L} {a : ObjectAct}
    (hstages : ∀ i q p, O.tasks[i]? = some (q, p) → Stage cfg O.sequenced i q p)
    (h : O.step cfg env a = some O') : Moves cfg env O a O' := by
  cases a with
  | arrive q =>
      obtain rfl := Option.some.inj h
      exact .arrives q
  | turn i fates =>
      simp only [Object.step] at h
      split at h
      · cases h
      · rename_i q p htask
        obtain ⟨⟨p', t⟩, hturn, rfl⟩ := Option.map_eq_some_iff.mp h
        cases hstages i q p htask with
        | written | nothing | failed => cases hturn
        | telling reply commit hi =>
            obtain ⟨⟨c, rfl⟩, rfl, rfl⟩ := turn_tell.mp hturn
            simp only [toTell, Option.map_none, Option.toList_none, List.append_nil]
            exact .told htask hi c
        | waiting hi =>
            obtain ⟨msg, part, rfl, rfl, rfl⟩ | ⟨cs, x, rfl, rfl, hserve⟩ := turn_route.mp hturn
            · simp only [toTell, Option.map_none, Option.toList_none, List.append_nil]
              exact .unread htask hi msg part
            · rcases x with e | ⟨reply, _ | commit⟩
              · simp only [answered, toTell, Option.map_none, Option.toList_none, List.append_nil]
                exact .refused htask hi hserve
              · simp only [answered, tell, Prog.pure_eq, toTell, Option.map_none,
                  Option.toList_none, List.append_nil]
                exact .absent htask hi hserve
              · exact .wrote htask hi hserve

theorem unmoved_fresh (O : Object L) : Unmoved O.store O.fresh :=
  ⟨rfl, rfl, rfl, BlocksLe.refl _, fun _ _ h => Or.inl h⟩

/-- A task that moves on without a commit. -/
theorem ObjectInv.idle {O : Object L} (h : ObjectInv view K decodeRecord cfg O) {i : Nat}
    {q : WriteRequest} {p : ObjectProg L WriteReply}
    (ht : StoreInv view K decodeRecord O.sequenced t) (hp : Stage cfg O.sequenced i q p) :
    ObjectInv view K decodeRecord cfg ⟨t, O.tasks.set i (q, p), O.sequenced⟩ where
  store := ht
  once := h.once
  known e he := by
    rw [List.length_set]
    exact h.known e he
  stages j q' p' hj := by
    rcases Pool.getElem?_set_cases hj with ⟨rfl, heq⟩ | ⟨-, hj⟩
    · obtain ⟨rfl, rfl⟩ := Prod.mk.injEq .. |>.mp heq
      exact hp
    · exact h.stages j q' p' hj

theorem ObjectInv.wrote {O : Object L} (h : ObjectInv view K decodeRecord cfg O) {i : Nat}
    {q : WriteRequest} (htask : O.tasks[i]? = some (q, route cfg q))
    (hi : i ∉ O.sequenced.map Prod.fst) {reply : WriteReply} {commit : Commit L}
    (ht : StoreInv view K decodeRecord (O.sequenced ++ [(i, commit.1)]) t) :
    ObjectInv view K decodeRecord cfg
      ⟨t, O.tasks.set i (q, tell reply (some commit)), O.sequenced ++ [(i, commit.1)]⟩ where
  store := ht
  once := by
    rw [List.map_append]
    exact h.once.append (List.nodup_singleton i) (List.disjoint_singleton.mpr hi)
  known e he := by
    rw [List.length_set]
    rcases List.mem_append.mp he with he | he
    · exact h.known e he
    · rw [List.mem_singleton.mp he]
      exact (List.getElem?_eq_some_iff.mp htask).1
  stages j q' p' hj := by
    rcases Pool.getElem?_set_cases hj with ⟨rfl, heq⟩ | ⟨hne, hj⟩
    · obtain ⟨rfl, rfl⟩ := Prod.mk.injEq .. |>.mp heq
      exact .telling reply commit (List.mem_append_right _ List.mem_cons_self)
    · exact (h.stages j q' p' hj).append hne commit.1

theorem objectInv_step (hL : RepoLaws L) (hV : TreeLaws L view) (hK : LinkLaws K)
    (hJ : RecordLaws cfg decodeRecord) {O O' : Object L} {a : ObjectAct}
    (h : ObjectInv view K decodeRecord cfg O) (hstep : O.step cfg env a = some O') :
    ObjectInv view K decodeRecord cfg O' := by
  have hfresh := h.store.unmoved hV (unmoved_fresh O)
  have hserved : ∀ q : WriteRequest, RecordYields env (serve cfg q.bearer q.body q.call) O.fresh
      (Settled view K decodeRecord O.fresh q.call) := fun q =>
    settled_serve hL hV hK hJ hfresh.calls q.bearer q.body q.call
  cases moves_of_step h.stages hstep with
  | arrives q =>
      refine ⟨h.store, h.once, ?_, ?_⟩
      · intro e he
        rw [List.length_append]
        exact Nat.lt_add_right _ (h.known e he)
      · intro j q' p' hj
        rcases Pool.getElem?_append_cases hj with ⟨rfl, heq⟩ | hj
        · obtain ⟨rfl, rfl⟩ := Prod.mk.injEq .. |>.mp heq
          refine .waiting fun hmem => ?_
          obtain ⟨e, he, hlen⟩ := List.mem_map.mp hmem
          exact Nat.lt_irrefl _ (hlen ▸ h.known e he)
        · exact h.stages j q' p' hj
  | unread htask hi msg part => exact h.idle hfresh (.failed _ hi)
  | refused htask hi hserve =>
      exact h.idle (hfresh.unmoved hV ((hserved _).of_against hserve)) (.failed _ hi)
  | absent htask hi hserve =>
      obtain ⟨rfl, rnd, hcall⟩ := (hserved _).of_against hserve
      exact h.idle hfresh (.nothing _ rnd hcall hi)
  | wrote htask hi hserve =>
      exact h.wrote htask hi (hfresh.committed hV hK ((hserved _).of_against hserve) _)
  | told htask hi c => exact h.idle hfresh (.written _ _ hi)

theorem objectInv_init : ObjectInv view K decodeRecord cfg (Object.init L) where
  store := storeInv_empty
  once := List.nodup_nil
  known _ h := by cases h
  stages _ _ _ h := by cases h

theorem objectInv_run (hL : RepoLaws L) (hV : TreeLaws L view) (hK : LinkLaws K)
    (hJ : RecordLaws cfg decodeRecord) {O : Object L} {acts : List ObjectAct}
    (hrun : Steps.run (Object.step cfg env) (Object.init L) acts = some O) :
    ObjectInv view K decodeRecord cfg O :=
  Steps.run_inv (fun _ _ _ h hstep => objectInv_step hL hV hK hJ h hstep) objectInv_init hrun

end

/-! ## Nothing to fail on -/

section

variable {L : RepoLib} {view : TreeView L} {K : TreeLinks L} {s t : RepoStore L}
  {cfg : RepoConfig L} {decodeRecord : L.Block → Except String Json}

/-- The checks that need no repository: token, repo, collection, key, and
the account's signing key. -/
structure Passes (cfg : RepoConfig L) (keys : String → Except String L.Key)
    (bearer : Option String) (input : Json) (did : String) (key : L.Key)
    (collection rkey : String) : Prop where
  token : ∃ t claims, bearer = some t ∧ cfg.decodeJwt t = .ok claims ∧ claims.sub = did
  own : (input.field "repo").asStr = some did
  hasCollection : (input.field "collection").asStr = some collection
  collectionOk : validateCollection collection = .ok ()
  hasRkey : (input.field "rkey").asStr = some rkey
  rkeyOk : validateRkey rkey = .ok ()
  hasKey : keys did = .ok key
  didOk : cfg.parseDid did = .ok ()

/-- A put or a delete with nothing wrong about it: a put has a record that
can be encoded. -/
def Admitted (cfg : RepoConfig L) (keys : String → Except String L.Key) (q : WriteRequest) :
    Prop :=
  ∃ input did key collection rkey, q.body = some input
    ∧ Passes cfg keys q.bearer input did key collection rkey
    ∧ match q.call with
      | .putRecord _ => (input.field "record").isNull = false
          ∧ ∃ ipld, cfg.jsonValueToIpld (input.field "record") = .ok ipld
      | .deleteRecord _ => True
      | .createRecord _ _ | .applyWrites _ _ => False

variable {keys : String → Except String L.Key} {treeGet : TreeGet L} {bearer : Option String}
  {input : Json} {did collection rkey : String} {key : L.Key}
  {sequenced : List (Nat × CommitBody L.Cid L.Car)}

/-- The handler of a request that passes, once it has its key. -/
theorem alone_writePreamble {α : Type} (h : Passes cfg keys bearer input did key collection rkey)
    {f : String × L.Key × String × String → RepoProg L α} :
    ((writePreamble cfg bearer input).bind f).alone (S := recordSig L RepoError)
      (quietExec (env cfg keys treeGet decodeRecord)) s
        = (f (did, key, collection, rkey)).alone (S := recordSig L RepoError)
          (quietExec (env cfg keys treeGet decodeRecord)) s := by
  obtain ⟨t, claims, rfl, hclaims, rfl⟩ := h.token
  have hload : quietExec (env cfg keys treeGet decodeRecord) s (.loadSigningKey claims.sub)
      = some (.ok key, s) := congrArg (fun r => some (r, s)) h.hasKey
  simp only [writePreamble, authenticated, Option.bind_some, hclaims, Except.toOption, ownRepo,
    h.own, collectionOf, h.hasCollection, required, check, h.collectionOk, h.hasRkey, h.rkeyOk,
    Prog.pure_eq, Prog.bind_eq, Prog.ret_bind, Prog.ofExcept_ok, ne_eq, not_true_eq_false, if_false,
    loadKey, Prog.op_bind]
  rw [Prog.alone_op hload]
  rfl

theorem Passes.writerFor_eq (h : Passes cfg keys bearer input did key collection rkey) :
    writerFor cfg key did = (.ret ⟨did, key⟩ : RepoProg L (RepoWriter L)) := by
  rw [writerFor, h.didOk]
  rfl

/-- The lookup answers what the map holds, because what it holds can be
read. -/
theorem getRecord_eq (hG : TreeGetLaws view treeGet) {m : RecordMap L}
    (hm : mapOf view s did = some m) (hread : ∀ key c, m key = some c → Legible decodeRecord s c)
    (mstKey : String) :
    getRecord treeGet decodeRecord cfg.cidText s did mstKey = .ok (m mstKey) := by
  rw [getRecord, treeLookup_eq hG hm]
  cases hkey : m mstKey with
  | none => rfl
  | some cid =>
      obtain ⟨block, value, hget, hdec⟩ := hread mstKey cid hkey
      simp only [bind, Except.bind, hget, hdec]
      rfl

/-- A write that fits the map goes through. -/
theorem alone_applyOneParts (hL : RepoLaws L) (hT : RepoTotal L) (hV : TreeLaws L view)
    (hs : WellAddressed s.blocks) (hfree : s.locks.contains did = false) {m : RecordMap L}
    (hm : mapOf view s did = some m) {op : WriteOp L.Ipld} (hop : op.onMap m ≠ none)
    (env : RecordEnv L RepoError) (key : L.Key) (rnd : WriteDraw) (text : String) :
    ∃ body t, (applyOneParts ⟨did, key⟩ op rnd text).alone (S := recordSig L RepoError)
        (quietExec env) s = some (.ok body, t) ∧ body.ops = [op.listed] := by
  obtain ⟨m', hm'⟩ := Option.ne_none_iff_exists'.mp hop
  obtain ⟨x, t, halone, hpost, -, -⟩ :=
    solo_commitOp (w := ⟨did, key⟩) hL hT hV hs hfree hm op false rnd
  have hfold : foldWrites m [op] = some m' := by simp [foldWrites, hm']
  rw [BatchPost, hfold] at hpost
  obtain ⟨body, -, hops, hx⟩ := hpost
  cases x with
  | error e => cases hx
  | ok a =>
      refine ⟨a.2, t, alone_liftWriter halone, ?_⟩
      have ha : a.2 = body := congrArg Prod.snd (Except.ok.inj hx)
      rw [ha, hops]
      rfl

theorem alone_putRecord (hL : RepoLaws L) (hT : RepoTotal L) (hV : TreeLaws L view)
    (hG : TreeGetLaws view treeGet) (hJ : RecordLaws cfg decodeRecord)
    (hs : StoreInv view K decodeRecord sequenced s) (hfree : s.locks.contains did = false)
    (h : Passes cfg keys bearer input did key collection rkey)
    (hnull : (input.field "record").isNull = false) {ipld : L.Ipld}
    (hipld : cfg.jsonValueToIpld (input.field "record") = .ok ipld) (rnd : WriteDraw) :
    ∃ a t, (putRecord cfg bearer (some input) rnd).alone (S := recordSig L RepoError)
      (quietExec (env cfg keys treeGet decodeRecord)) s = some (.ok a, t) := by
  obtain ⟨m, hm, hread⟩ := hs.readable did
  obtain ⟨block, hblock⟩ := hJ.encodes _ _ hipld
  have hcid : recordCid ipld = some (L.cidOf block) := by
    rw [recordCid, hblock]
    rfl
  have hrecord : recordOf cfg input = (.ret ipld : RepoProg L L.Ipld) := by
    rw [recordOf, ipldOf, hnull, hipld]
    rfl
  have hlook : quietExec (env cfg keys treeGet decodeRecord) s
      (.lookupRecordCid did s!"{collection}/{rkey}")
      = some (.ok (m s!"{collection}/{rkey}"), s) :=
    congrArg (fun r => some (r, s)) (getRecord_eq hG hm.mapOf hread _)
  have hwriter := h.writerFor_eq
  -- the lookup has chosen the write that fits
  have hop : (if (m s!"{collection}/{rkey}").isSome then WriteOp.update s!"{collection}/{rkey}" ipld
      else .create s!"{collection}/{rkey}" ipld).onMap m ≠ none := by
    split_ifs with hfound
    · simp [WriteOp.onMap, hcid, hfound]
    · simp [WriteOp.onMap, hcid, hfound]
  obtain ⟨body, t, halone, hops⟩ := alone_applyOneParts hL hT hV hs.calls.addressed hfree
    hm.mapOf hop (env cfg keys treeGet decodeRecord) key rnd "repo write failed"
  have hfirst : firstCid body "write yielded no record cid"
      = (.ret (L.cidOf block) : RepoProg L L.Cid) := by
    rw [firstCid, hops]
    split_ifs
    · simp only [List.head?_cons, Option.bind_some, WriteOp.listed, hcid]
      rfl
    · simp only [List.head?_cons, Option.bind_some, WriteOp.listed, hcid]
      rfl
  refine ⟨⟨atUri did collection rkey, cfg.cidText (L.cidOf block), body,
    [some (input.field "record")]⟩, t, ?_⟩
  simp only [putRecord, parsed, Prog.pure_eq, Prog.bind_eq, Prog.ret_bind]
  rw [alone_writePreamble h]
  simp only [hrecord, Prog.ret_bind]
  rw [Prog.alone_op hlook]
  simp only [Prog.ofExcept_ok, Prog.ret_bind, hwriter]
  rw [Prog.alone_bind_ok halone]
  simp only [hfirst, Prog.ret_bind]
  rfl

theorem alone_deleteRecord (hL : RepoLaws L) (hT : RepoTotal L) (hV : TreeLaws L view)
    (hG : TreeGetLaws view treeGet) (hs : StoreInv view K decodeRecord sequenced s)
    (hfree : s.locks.contains did = false)
    (h : Passes cfg keys bearer input did key collection rkey) (rnd : WriteDraw) :
    ∃ a t, (deleteRecord cfg bearer (some input) rnd).alone (S := recordSig L RepoError)
      (quietExec (env cfg keys treeGet decodeRecord)) s = some (.ok a, t) := by
  obtain ⟨m, hm, hread⟩ := hs.readable did
  have hlook : quietExec (env cfg keys treeGet decodeRecord) s
      (.lookupRecordCid did s!"{collection}/{rkey}")
      = some (.ok (m s!"{collection}/{rkey}"), s) :=
    congrArg (fun r => some (r, s)) (getRecord_eq hG hm.mapOf hread _)
  have hwriter := h.writerFor_eq
  simp only [deleteRecord, parsed, Prog.pure_eq, Prog.bind_eq, Prog.ret_bind]
  rw [alone_writePreamble h, Prog.alone_op hlook, Prog.ofExcept_ok, Prog.ret_bind]
  cases hfound : m s!"{collection}/{rkey}" with
  | none => exact ⟨none, s, rfl⟩
  | some cid =>
      have hop : (WriteOp.delete s!"{collection}/{rkey}" : WriteOp L.Ipld).onMap m ≠ none := by
        simp [WriteOp.onMap, hfound]
      obtain ⟨body, t, halone, -⟩ := alone_applyOneParts hL hT hV hs.calls.addressed hfree
        hm.mapOf hop (env cfg keys treeGet decodeRecord) key rnd "repo delete failed"
      refine ⟨some ⟨atUri did collection rkey, "", body, [none]⟩, t, ?_⟩
      simp only [Option.isNone_some, Bool.false_eq_true, if_false, hwriter, Prog.ret_bind]
      rw [Prog.alone_bind_ok halone]
      rfl

theorem alone_serve (hL : RepoLaws L) (hT : RepoTotal L) (hV : TreeLaws L view)
    (hG : TreeGetLaws view treeGet) (hJ : RecordLaws cfg decodeRecord)
    (hs : StoreInv view K decodeRecord sequenced s) (hfree : Unlocked s) {q : WriteRequest}
    (hq : Admitted cfg keys q) :
    ∃ a t, (serve cfg q.bearer q.body q.call).alone (S := recordSig L RepoError)
      (quietExec (env cfg keys treeGet decodeRecord)) s = some (.ok a, t) := by
  obtain ⟨input, did, key, collection, rkey, hbody, hpasses, hcall⟩ := hq
  rw [hbody]
  cases hq : q.call with
  | createRecord micros rnd | applyWrites micros rnd =>
      rw [hq] at hcall
      exact hcall.elim
  | putRecord rnd =>
      rw [hq] at hcall
      obtain ⟨hnull, ipld, hipld⟩ := hcall
      obtain ⟨a, t, halone⟩ :=
        alone_putRecord hL hT hV hG hJ hs (hfree did) hpasses hnull hipld rnd
      exact ⟨_, t, Prog.alone_bind_ok halone⟩
  | deleteRecord rnd =>
      obtain ⟨a, t, halone⟩ := alone_deleteRecord hL hT hV hG hs (hfree did) hpasses rnd
      cases a with
      | none => exact ⟨_, t, Prog.alone_bind_ok halone⟩
      | some sequenced => exact ⟨_, t, Prog.alone_bind_ok halone⟩

/-! ## Every run -/

/-- The commits of the requests that were answered with success, and of
those that are about to be, are the chain. -/
structure Linear (O : Object L) : Prop where
  chain : ∀ did root, O.store.roots.get did = some root → ∃ genesis,
    PrevChain O.store.blocks.get root ((commitsOf O.sequenced did).reverse ++ [genesis])
      ∧ ((commitsOf O.sequenced did).reverse ++ [genesis]).Nodup
  started : ∀ did, O.store.roots.get did = none → commitsOf O.sequenced did = []
  once : (O.sequenced.map Prod.fst).Nodup
  answered : ∀ i q reply, O.tasks[i]? = some (q, .ret reply) →
    (∃ body, (i, body) ∈ O.sequenced) ∨ ∃ rnd, q.call = .deleteRecord rnd
  failed : ∀ i q e, O.tasks[i]? = some (q, .fail e) → i ∉ O.sequenced.map Prod.fst
  sequenced : ∀ i body, (i, body) ∈ O.sequenced → ∃ q p, O.tasks[i]? = some (q, p)
    ∧ ((∃ reply, p = .ret reply) ∨ ∃ reply commit, p = tell reply (some commit))

/-- No store call fails while request `i` is served. Others may fail, and
the sequencer may fail. -/
def Undisturbed (cfg : RepoConfig L) (i : Nat) (O : Object L) (a : ObjectAct) : Prop :=
  ∀ q fates, O.tasks[i]? = some (q, route cfg q) → a = .turn i fates → ∀ c ∈ fates, c = .done

theorem ObjectInv.linear {O : Object L} (h : ObjectInv view K decodeRecord cfg O) : Linear O where
  chain did root hroot := by
    have hchained := h.store.chained did
    rw [hroot] at hchained
    exact hchained
  started did hroot := by
    have hchained := h.store.chained did
    rw [hroot] at hchained
    exact hchained
  once := h.once
  answered i q reply htask := by
    cases h.stages i q _ htask with
    | written _ body hi => exact Or.inl ⟨body, hi⟩
    | nothing _ rnd hcall _ => exact Or.inr ⟨rnd, hcall⟩
  failed i q e htask := by
    cases h.stages i q _ htask with
    | failed _ hi => exact hi
  sequenced i body hi := by
    obtain ⟨⟨q, p⟩, htask⟩ : ∃ x, O.tasks[i]? = some x :=
      ⟨_, List.getElem?_eq_getElem (h.known _ hi)⟩
    have hmem : i ∈ O.sequenced.map Prod.fst := List.mem_map_of_mem hi
    refine ⟨q, p, htask, ?_⟩
    cases h.stages i q p htask with
    | waiting hnot => exact absurd hmem hnot
    | telling reply commit _ => exact Or.inr ⟨reply, commit, rfl⟩
    | written reply _ _ => exact Or.inl ⟨reply, rfl⟩
    | nothing _ _ _ hnot => exact absurd hmem hnot
    | failed _ hnot => exact absurd hmem hnot

theorem unlocked_fresh (O : Object L) : Unlocked O.fresh := fun _ => rfl

/-- A request with nothing wrong about it is served with success. -/
theorem served_admitted (hL : RepoLaws L) (hT : RepoTotal L) (hV : TreeLaws L view)
    (hG : TreeGetLaws view treeGet) (hJ : RecordLaws cfg decodeRecord) {O : Object L}
    (h : ObjectInv view K decodeRecord cfg O) {q : WriteRequest} (hq : Admitted cfg keys q)
    {cs : List WriterFate} (hcs : ∀ c ∈ cs, c = .done)
    {x : Except RepoFailure (WriteReply × Option (Commit L))}
    (hserve : (serve cfg q.bearer q.body q.call).against
      (RecordOp.exec (env cfg keys treeGet decodeRecord) 0) O.fresh cs = some (x, t)) :
    ∃ a, x = .ok a := by
  obtain ⟨a, u, halone⟩ := alone_serve hL hT hV hG hJ (h.store.unmoved hV (unmoved_fresh O))
    (unlocked_fresh O) hq
  have halone' := Prog.alone_of_against hcs hserve
  obtain ⟨rfl, -⟩ := Prod.mk.injEq .. |>.mp (Option.some.inj (halone'.symm.trans halone))
  exact ⟨a, rfl⟩

theorem succeeds_step (hL : RepoLaws L) (hT : RepoTotal L) (hV : TreeLaws L view)
    (hG : TreeGetLaws view treeGet) (hJ : RecordLaws cfg decodeRecord) {O O' : Object L}
    {a : ObjectAct} {i : Nat} (h : ObjectInv view K decodeRecord cfg O)
    (hi : ∀ q e, O.tasks[i]? = some (q, .fail e) → ¬ Admitted cfg keys q)
    (ha : Undisturbed cfg i O a)
    (hstep : O.step cfg (env cfg keys treeGet decodeRecord) a = some O') :
    ∀ q e, O'.tasks[i]? = some (q, .fail e) → ¬ Admitted cfg keys q := by
  intro q e hfail hq
  -- the task that moves is another one, or has not failed
  have hset : ∀ {j : Nat} {q' : WriteRequest} {p : ObjectProg L WriteReply},
      (O.tasks.set j (q', p))[i]? = some (q, .fail e) → j = i ∧ q' = q ∧ p = .fail e := by
    intro j q' p hj
    rcases Pool.getElem?_set_cases hj with ⟨rfl, heq⟩ | ⟨-, hj⟩
    · obtain ⟨rfl, rfl⟩ := Prod.mk.injEq .. |>.mp heq
      exact ⟨rfl, rfl, rfl⟩
    · exact absurd hq (hi q e hj)
  cases moves_of_step h.stages hstep with
  | arrives q' =>
      rcases Pool.getElem?_append_cases hfail with ⟨-, heq⟩ | hold
      · cases heq
      · exact hi q e hold hq
  | unread htask _ msg part =>
      obtain ⟨rfl, rfl, -⟩ := hset hfail
      cases ha _ _ htask rfl _ List.mem_cons_self
  | refused htask _ hserve =>
      obtain ⟨rfl, rfl, -⟩ := hset hfail
      obtain ⟨b, hb⟩ := served_admitted hL hT hV hG hJ h hq
        (fun c hc => ha _ _ htask rfl c (List.mem_cons_of_mem _ hc)) hserve
      cases hb
  | absent =>
      obtain ⟨-, -, hp⟩ := hset hfail
      cases hp
  | wrote =>
      obtain ⟨-, -, hp⟩ := hset hfail
      cases hp
  | told =>
      obtain ⟨-, -, hp⟩ := hset hfail
      cases hp

/-- A request that is not answered can take its turn. -/
theorem turn_enabled (hL : RepoLaws L) (hT : RepoTotal L) (hV : TreeLaws L view)
    (hG : TreeGetLaws view treeGet) (hJ : RecordLaws cfg decodeRecord) {O : Object L}
    (h : ObjectInv view K decodeRecord cfg O) {i : Nat} {q : WriteRequest}
    {p : ObjectProg L WriteReply} (htask : O.tasks[i]? = some (q, p)) (hq : Admitted cfg keys q)
    (hp : p.outcome = none) : ∃ fates O', (∀ c ∈ fates, c = .done)
      ∧ O.step cfg (env cfg keys treeGet decodeRecord) (.turn i fates) = some O' := by
  have hgo : ∀ {fates : List WriterFate} {p' : ObjectProg L WriteReply} {u : RepoStore L},
      p.turn (S := objectSig L) ObjectOp.parks (ObjectOp.exec (env cfg keys treeGet decodeRecord))
        O.fresh fates = some (p', u) →
      ∃ O', O.step cfg (env cfg keys treeGet decodeRecord) (.turn i fates) = some O' := by
    intro fates p' u hturn
    refine ⟨⟨u, O.tasks.set i (q, p'),
      O.sequenced ++ ((toTell p').map fun body => (i, body)).toList⟩, ?_⟩
    simp only [Object.step, htask]
    exact Option.map_eq_some_iff.mpr ⟨(p', u), hturn, rfl⟩
  cases h.stages i q p htask with
  | written | nothing | failed => cases hp
  | telling reply commit _ =>
      obtain ⟨O', hO'⟩ := hgo (turn_tell.mpr ⟨⟨.done, rfl⟩, rfl, rfl⟩)
      exact ⟨[.done], O', by simp, hO'⟩
  | waiting _ =>
      obtain ⟨a, u, halone⟩ := alone_serve hL hT hV hG hJ
        (h.store.unmoved hV (unmoved_fresh O)) (unlocked_fresh O) hq
      obtain ⟨cs, hall, hserve⟩ : ∃ cs, (∀ c ∈ cs, c = WriterFate.done)
          ∧ (serve cfg q.bearer q.body q.call).against
            (RecordOp.exec (env cfg keys treeGet decodeRecord) 0) O.fresh cs = some (.ok a, u) :=
        Prog.exists_against_of_alone WriterFate.done halone
      obtain ⟨O', hO'⟩ := hgo (turn_route.mpr (Or.inr ⟨cs, .ok a, rfl, rfl, hserve⟩))
      refine ⟨.done :: cs, O', ?_, hO'⟩
      intro c hc
      rcases List.mem_cons.mp hc with rfl | hc
      · rfl
      · exact hall c hc

/-- In every run of an object the commits of the requests that succeeded
form one chain from the root, each of them once, and a put or a delete
with nothing wrong about it never fails, whatever the other requests do. -/
theorem object_writes_linear (hL : RepoLaws L) (hT : RepoTotal L) (hV : TreeLaws L view)
    (hK : LinkLaws K) (hG : TreeGetLaws view treeGet) (hJ : RecordLaws cfg decodeRecord)
    {acts : List ObjectAct} {O : Object L}
    (hrun : Steps.run (Object.step cfg (env cfg keys treeGet decodeRecord)) (Object.init L) acts
      = some O) :
    Linear O
    ∧ ∀ i q p, O.tasks[i]? = some (q, p) → Admitted cfg keys q →
      (Steps.Along (Object.step cfg (env cfg keys treeGet decodeRecord)) (Undisturbed cfg i)
        (Object.init L) acts → ∀ e, p ≠ .fail e)
      ∧ (p.outcome = none → ∃ fates O', (∀ c ∈ fates, c = .done)
        ∧ O.step cfg (env cfg keys treeGet decodeRecord) (.turn i fates) = some O') := by
  have hinv : ObjectInv view K decodeRecord cfg O := objectInv_run hL hV hK hJ hrun
  refine ⟨hinv.linear, fun i q p htask hq => ⟨fun halong e => ?_, fun hp => ?_⟩⟩
  · have hboth := Steps.run_inv_along
      (I := fun O => ObjectInv view K decodeRecord cfg O
        ∧ ∀ q e, O.tasks[i]? = some (q, .fail e) → ¬ Admitted cfg keys q)
      (fun _ _ _ h ha hstep => ⟨objectInv_step hL hV hK hJ h.1 hstep,
        succeeds_step hL hT hV hG hJ h.1 h.2 ha hstep⟩)
      ⟨objectInv_init, fun _ _ h => by cases h⟩ halong hrun
    rintro rfl
    exact hboth.2 q e htask hq
  · exact turn_enabled hL hT hV hG hJ hinv htask hq hp

end

/-! ## Three writes of one record -/

def sampleConfig : RepoConfig sampleRepo where
  decodeJwt t := if t = "alice" then .ok ⟨"did:plc:alice", ""⟩ else .error .invalidToken
  parseDid _ := .ok ()
  jsonValueToIpld _ := .ok (7 : Nat)
  cidText _ := "cid"

def sampleInput : Json :=
  .obj [("repo", .str "did:plc:alice"), ("collection", .str "app.bsky.feed.post"),
    ("rkey", .str "1"), ("record", .obj [])]

def sampleRequest (call : WriteCall) : WriteRequest := ⟨some "alice", some sampleInput, call⟩

/-- A put, a delete and a create that are all there before the first is
served. The sequencer fails once. -/
def sampleWrites : List ObjectAct :=
  [.arrive (sampleRequest (.putRecord sampleDraw)),
    .arrive (sampleRequest (.deleteRecord sampleDraw)),
    .arrive (sampleRequest (.createRecord 0 sampleDraw)),
    .turn 0 (List.replicate 18 .done), .turn 1 (List.replicate 14 .done),
    .turn 2 (List.replicate 15 .done), .turn 1 [.fault "down" 0], .turn 2 [.done],
    .turn 0 [.done]]

/-- Every value is written as the same empty text. -/
def blankCbor : DagCborLib where
  Cid := Unit
  f64 _ := 0
  toVec _ := .ok []
  fromSlice _ := .ok .null

theorem sampleConfig_laws : RecordLaws sampleConfig fun _ => .ok .null :=
  (⟨fun _ => (7 : Nat), fun _ => .record 7, fun _ => rfl, fun _ => rfl, fun _ => rfl⟩ :
    RecordFormat blankCbor (fun _ => .ok .null) sampleConfig fun _ => .ok .null).laws
    ⟨fun h _ => h, fun _ => ⟨_, rfl⟩⟩

theorem samplePut_admitted :
    Admitted sampleConfig (fun _ => .ok ()) (sampleRequest (.putRecord sampleDraw)) := by
  refine ⟨sampleInput, "did:plc:alice", (), "app.bsky.feed.post", "1", rfl, ?_, rfl, _, rfl⟩
  exact ⟨⟨"alice", _, rfl, rfl, rfl⟩, rfl, rfl, by decide +kernel, rfl, by decide +kernel, rfl, rfl⟩

theorem sampleWrites_undisturbed (O : Object sampleRepo) :
    ∀ a ∈ sampleWrites, Undisturbed sampleConfig 0 O a := by
  rintro a ha q fates - rfl c hc
  have hfates : fates = List.replicate 18 .done ∨ fates = [.done] := by
    simpa [sampleWrites] using ha
  rcases hfates with rfl | rfl
  · exact List.eq_of_mem_replicate hc
  · exact List.mem_singleton.mp hc

theorem sampleWrites_linear : ∃ O,
    Steps.run (Object.step sampleConfig
        (env sampleConfig (fun _ => .ok ()) sampleTreeGet fun _ => .ok .null))
      (Object.init sampleRepo) sampleWrites = some O
    ∧ (commitsOf O.sequenced "did:plc:alice").length = 3 ∧ Linear O
    ∧ ∃ p, O.tasks[0]? = some (sampleRequest (.putRecord sampleDraw), p) ∧ ∀ e, p ≠ .fail e := by
  have hrun : ((Steps.run (Object.step sampleConfig
      (env sampleConfig (fun _ => .ok ()) sampleTreeGet fun _ => .ok .null))
      (Object.init sampleRepo) sampleWrites).map fun O =>
        ((commitsOf O.sequenced "did:plc:alice").length, O.tasks[0]?.map Prod.fst))
        = some (3, some (sampleRequest (.putRecord sampleDraw))) := rfl
  obtain ⟨O, hO, hlook⟩ := Option.map_eq_some_iff.mp hrun
  obtain ⟨hlen, htask⟩ := Prod.mk.injEq .. |>.mp hlook
  obtain ⟨⟨q, p⟩, htask, rfl⟩ := Option.map_eq_some_iff.mp htask
  obtain ⟨hlinear, hputs⟩ := object_writes_linear sampleRepo_laws sampleRepo_total
    sampleRepo_treeLaws sampleRepo_linkLaws sampleTreeGet_laws sampleConfig_laws hO
  refine ⟨O, hO, hlen, hlinear, p, htask, ?_⟩
  exact (hputs 0 _ p htask samplePut_admitted).1 (Steps.along_of_mem sampleWrites_undisturbed)

end Worker

end Stelyph
