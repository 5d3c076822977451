import Stelyph.RepoHistory
import Stelyph.RepoReach

/-!
# One call after another

Calls on any writers, each run to its end before the next, with store
calls that fail anywhere. A call that returns an error has only added
blocks. A call that returns `Ok` has added one commit: `Wrote` says what
that commit chains from, what tree it points to, what its event lists and
which blocks its event carries.

Unlike the lemmas on undisturbed batches, those here allow every failure
(`Prog.Yields`), and follow the links of the tree.
-/

namespace Stelyph

section

variable {L : RepoLib} {α β : Type}

/-- A writer by itself, as task zero. -/
def writerExec (s : RepoStore L) (o : WriterOp L) (c : WriterFate) :
    Option (o.Ret × RepoStore L) := o.exec 0 s c

abbrev RepoYields (p : RepoProg L α) (s : RepoStore L)
    (post : Except RepoError α → RepoStore L → Prop) : Prop :=
  Prog.Yields (S := writerSig L) writerExec p s post

/-- The program has only added blocks, and what it returned is good. -/
def Adds (s : RepoStore L) (good : α → RepoStore L → Prop) (x : Except RepoError α)
    (t : RepoStore L) : Prop :=
  Grown s t ∧ ∀ a, x = .ok a → good a t

theorem Adds.ret {s : RepoStore L} (hs : WellAddressed s.blocks) {a : α}
    {good : α → RepoStore L → Prop} (h : good a s) : RepoYields (.ret a) s (Adds s good) := by
  refine ⟨Grown.refl hs, fun a' ha => ?_⟩
  obtain rfl := Except.ok.inj ha
  exact h

theorem Adds.fail {s : RepoStore L} (hs : WellAddressed s.blocks) {e : RepoError}
    {good : α → RepoStore L → Prop} : RepoYields (.fail e) s (Adds s good) :=
  ⟨Grown.refl hs, fun _ ha => nomatch ha⟩

/-- The rule for what comes before the transaction. -/
theorem Adds.finish {p : RepoProg L α} {f : α → RepoProg L β} {s : RepoStore L}
    {good : α → RepoStore L → Prop} {post : Except RepoError β → RepoStore L → Prop}
    (hp : RepoYields p s (Adds s good))
    (hok : ∀ a t, Grown s t → good a t → RepoYields (f a) t post)
    (herr : ∀ e t, Grown s t → post (.error e) t) : RepoYields (p.bind f) s post :=
  Prog.Yields.bind (fun a t h => hok a t h.1 (h.2 a rfl)) (fun e t h => herr e t h.1) hp

theorem Adds.bind {p : RepoProg L α} {f : α → RepoProg L β} {s : RepoStore L}
    {good : α → RepoStore L → Prop} {good' : β → RepoStore L → Prop}
    (hp : RepoYields p s (Adds s good))
    (hf : ∀ a t, Grown s t → good a t → RepoYields (f a) t (Adds t good')) :
    RepoYields (p.bind f) s (Adds s good') := by
  refine Adds.finish hp (fun a t ht hgood => ?_) fun e t ht => ⟨ht, fun _ hb => nomatch hb⟩
  exact (hf a t ht hgood).mono fun x u hu => ⟨ht.trans hu.1, hu.2⟩

theorem Adds.ofExcept {ε : Type} {s : RepoStore L} (hs : WellAddressed s.blocks)
    {g : ε → RepoError} {x : Except ε α} {f : α → RepoProg L β}
    {good : β → RepoStore L → Prop} (hf : ∀ a, x = .ok a → RepoYields (f a) s (Adds s good)) :
    RepoYields ((Prog.ofExcept g x : RepoProg L α).bind f) s (Adds s good) := by
  cases x with
  | ok a => exact hf a rfl
  | error e => exact Adds.fail hs

/-! ## The store calls -/

variable {s : RepoStore L}

/-- A call that answers an error or what it should. -/
theorem adds_op {o : WriterOp L} (hq : o.Quiet) (hs : WellAddressed s.blocks)
    {k : o.Ret → RepoProg L α} {good : α → RepoStore L → Prop}
    (hk : ∀ c r t, o.exec 0 s c = some (r, t) → Grown s t →
      (∃ a, k r = .ret a ∧ good a t) ∨ ∃ e, k r = .fail e) :
    RepoYields (.op o k) s (Adds s good) := by
  intro c r t hexec
  have hgrown := hq.grown hs hexec
  rcases hk c r t hexec hgrown with ⟨a, hka, hgood⟩ | ⟨e, hke⟩
  · show RepoYields (k r) t (Adds s good)
    rw [hka]
    refine ⟨hgrown, fun a' ha => ?_⟩
    obtain rfl := Except.ok.inj ha
    exact hgood
  · show RepoYields (k r) t (Adds s good)
    rw [hke]
    exact ⟨hgrown, fun _ ha => nomatch ha⟩

theorem adds_write (hL : RepoLaws L) (hs : WellAddressed s.blocks) (b : L.Block) :
    RepoYields (writeRepo b) s (Adds s fun c t => c = L.cidOf b ∧ t.blocks.get c = some b) := by
  refine adds_op (o := .writeBlock b) trivial hs fun c r t hexec _ => ?_
  cases c with
  | done =>
      obtain ⟨rfl, rfl⟩ := Prod.mk.injEq .. |>.mp (Option.some.inj hexec)
      exact Or.inl ⟨_, rfl, rfl, get_putBlock hL hs b⟩
  | fault msg part =>
      obtain ⟨rfl, rfl⟩ := Prod.mk.injEq .. |>.mp (Option.some.inj hexec)
      exact Or.inr ⟨_, rfl⟩

theorem adds_read (hs : WellAddressed s.blocks) (g : StorageError → RepoError) (cid : L.Cid) :
    RepoYields (.op (.readBlock cid) fun r => Prog.ofExcept g r) s
      (Adds s fun b t => t = s ∧ s.blocks.get cid = some b) := by
  refine adds_op (o := .readBlock cid) trivial hs fun c r t hexec _ => ?_
  cases c with
  | done =>
      simp only [WriterOp.exec] at hexec
      split at hexec
      · rename_i b hb
        obtain ⟨rfl, rfl⟩ := Prod.mk.injEq .. |>.mp (Option.some.inj hexec)
        exact Or.inl ⟨b, rfl, rfl, hb⟩
      · obtain ⟨rfl, rfl⟩ := Prod.mk.injEq .. |>.mp (Option.some.inj hexec)
        exact Or.inr ⟨_, rfl⟩
  | fault msg part =>
      obtain ⟨rfl, rfl⟩ := Prod.mk.injEq .. |>.mp (Option.some.inj hexec)
      exact Or.inr ⟨_, rfl⟩

/-- A tree that is complete in the store and holds a map. -/
structure TreeAt (view : TreeView L) (K : TreeLinks L) (s : RepoStore L) (root : L.Cid)
    (m : RecordMap L) : Prop where
  map : view s.blocks.get root = some m
  closed : TreeClosed K s.blocks.get root

/-- From the tree at `root` in `s` to the one at `root'` in `t`. What is
new in it is listed, and in the store. -/
structure Stretch (view : TreeView L) (K : TreeLinks L) (s : RepoStore L) (root : L.Cid)
    (t : RepoStore L) (root' : L.Cid) (m' : RecordMap L) (new : List L.Cid) : Prop where
  tree : TreeAt view K t root' m'
  moved : Moved K s.blocks.get root t.blocks.get root' new
  present : ∀ c ∈ new, t.blocks.contains c = true

section

variable {view : TreeView L} {K : TreeLinks L} {root root' : L.Cid} {m m' : RecordMap L}

theorem TreeAt.mono (hV : TreeLaws L view) (h : TreeAt view K s root m) {t : RepoStore L}
    (hle : BlocksLe s.blocks.get t.blocks.get) : TreeAt view K t root m :=
  ⟨hV.mono _ _ _ _ hle h.map, h.closed.mono hle⟩

theorem Stretch.refl (hV : TreeLaws L view) {t : RepoStore L} (h : TreeAt view K s root m)
    (ht : Grown s t) : Stretch view K s root t root m [] :=
  ⟨h.mono hV ht.blocks, .refl h.closed ht.blocks, fun _ hc => by cases hc⟩

theorem Stretch.grown (hV : TreeLaws L view) {t u : RepoStore L} {new : List L.Cid}
    (h : Stretch view K s root t root' m' new) (hu : Grown t u) :
    Stretch view K s root u root' m' new :=
  ⟨h.tree.mono hV hu.blocks, h.moved.mono hu.blocks, fun c hc => hu.contains (h.present c hc)⟩

theorem Stretch.trans {t u : RepoStore L} {new new' : List L.Cid} {root'' : L.Cid}
    {m'' : RecordMap L} (h : Stretch view K s root t root' m' new) (hu : Grown t u)
    (h' : Stretch view K t root' u root'' m'' new') :
    Stretch view K s root u root'' m'' (new ++ new') := by
  refine ⟨h'.tree, h.moved.trans h'.moved, fun c hc => ?_⟩
  rcases List.mem_append.mp hc with hc | hc
  · exact hu.contains (h.present c hc)
  · exact h'.present c hc

theorem adds_tree (hL : RepoLaws L) (hV : TreeLaws L view) (hK : LinkLaws K)
    (hs : WellAddressed s.blocks) (hm : TreeAt view K s root m) (op : TreeOp L.Cid)
    (hrec : ∀ c ∈ op.inserted, s.blocks.contains c = true) (err : String → String) :
    RepoYields (treeRepo root op err) s (Adds s fun a t =>
      ∃ m', op.onMap m = some m' ∧ Stretch view K s root t a.1 m' (a.2 ++ op.inserted)) := by
  refine adds_op (o := .tree root op) trivial hs fun c r t hexec hgrown => ?_
  cases htree : L.tree s.blocks.get root op with
  | error e =>
      cases c with
      | done | fault =>
          simp only [WriterOp.exec, htree] at hexec
          obtain ⟨rfl, rfl⟩ := Prod.mk.injEq .. |>.mp (Option.some.inj hexec)
          exact Or.inr ⟨_, rfl⟩
  | ok res =>
      obtain ⟨root', ns⟩ := res
      cases c with
      | fault msg part =>
          simp only [WriterOp.exec, htree] at hexec
          obtain ⟨rfl, rfl⟩ := Prod.mk.injEq .. |>.mp (Option.some.inj hexec)
          exact Or.inr ⟨_, rfl⟩
      | done =>
          simp only [WriterOp.exec, htree] at hexec
          obtain ⟨rfl, rfl⟩ := Prod.mk.injEq .. |>.mp (Option.some.inj hexec)
          refine Or.inl ⟨_, rfl, ?_⟩
          have hns : ∀ n ∈ ns, (putBlocks s.blocks ns).get (L.cidOf n) = some n :=
            fun n hn => get_putBlocks hL hs hn
          cases hop : op.onMap m with
          | none =>
              obtain ⟨e, he⟩ := hV.tree_error _ _ _ _ hm.map hop
              cases htree.symm.trans he
          | some m' =>
              obtain ⟨root'', ns'', htree'', hview⟩ := hV.tree_ok _ _ _ _ _ hm.map hop
              obtain ⟨rfl, rfl⟩ := Prod.mk.injEq .. |>.mp
                (Except.ok.inj (htree.symm.trans htree''))
              have hle := blocksLe_putBlocks s.blocks ns
              have hrec' : ∀ c ∈ op.inserted, (putBlocks s.blocks ns).contains c = true :=
                fun c hc => hgrown.contains (hrec c hc)
              have hmoved := moved_tree hK hm.closed htree hle hns hrec'
              refine ⟨m', rfl, ⟨hview _ hle hns, hmoved.closed⟩, hmoved, fun c hc => ?_⟩
              rcases List.mem_append.mp hc with hc | hc
              · obtain ⟨n, hn, rfl⟩ := List.mem_map.mp hc
                exact Table.contains_iff.mpr ⟨n, hns n hn⟩
              · exact hrec' c hc

end

theorem adds_signCommit (hL : RepoLaws L) (hs : WellAddressed s.blocks) (w : RepoWriter L)
    (u : UnsignedCommit L.Cid) (e₁ e₂ : String → String) :
    RepoYields (signCommit w u e₁ e₂) s (Adds s fun c t =>
      ∃ sig, commitAt t.blocks.get c = some ⟨u, sig⟩) := by
  refine Adds.ofExcept hs fun preimage _ => Adds.ofExcept hs fun sig _ =>
    Adds.ofExcept hs fun block hblock => ?_
  refine (adds_write hL hs block).mono fun x t ht => ⟨ht.1, fun c hc => ?_⟩
  obtain ⟨-, hget⟩ := ht.2 c hc
  exact ⟨sig, commitAt_of_decode hget (hL.decode_commit _ _ hblock)⟩

/-! ## Opening -/

/-- The repository of `did` stands on a complete tree that holds `m`. -/
def Standing (view : TreeView L) (K : TreeLinks L) (s : RepoStore L) (did : String)
    (m : RecordMap L) : Prop :=
  match s.roots.get did with
  | none => m = fun _ => none
  | some root => ∃ cm, commitAt s.blocks.get root = some cm ∧ TreeAt view K s cm.data m

/-- Where a call starts from: the stored commit, or one it has just made
of the empty tree. -/
inductive StartsFrom (w : RepoWriter L) (genesisRev : String) (s t : RepoStore L)
    (o : Opened L) : Prop where
  | stored (cm : SignedCommit L.Cid) (hroot : s.roots.get w.did = some o.prev)
      (hcm : commitAt s.blocks.get o.prev = some cm) (hdata : cm.data = o.data)
      (hprior : o.hadPriorRoot = true)
  | created (sig : Bytes) (hroot : s.roots.get w.did = none)
      (hcm : commitAt t.blocks.get o.prev = some ⟨⟨w.did, 3, o.data, genesisRev, none⟩, sig⟩)
      (hdata : t.blocks.get o.data = some L.emptyNode) (hprior : o.hadPriorRoot = false)
      (hcid : o.data = L.cidOf L.emptyNode) (hwritten : o.data ∈ o.written)

variable {view : TreeView L} {K : TreeLinks L}

theorem StartsFrom.mono {w : RepoWriter L} {genesisRev : String} {t u : RepoStore L}
    {o : Opened L} (h : StartsFrom w genesisRev s t o)
    (hle : BlocksLe t.blocks.get u.blocks.get) : StartsFrom w genesisRev s u o := by
  cases h with
  | stored cm hroot hcm hdata hprior => exact .stored cm hroot hcm hdata hprior
  | created sig hroot hcm hdata hprior hcid hwritten =>
      exact .created sig hroot (commitAt_mono hle hcm) (hle _ _ hdata) hprior hcid hwritten

theorem adds_openRepo (hL : RepoLaws L) (hV : TreeLaws L view) (hK : LinkLaws K)
    (hs : WellAddressed s.blocks) {w : RepoWriter L} {m : RecordMap L}
    (hm : Standing view K s w.did m) (rev : String) :
    RepoYields (openRepo w rev) s (Adds s fun o t =>
      StartsFrom w rev s t o ∧ TreeAt view K t o.data m
        ∧ ∀ c ∈ o.written, t.blocks.contains c = true) := by
  unfold Standing at hm
  intro c r t hexec
  cases c with
  | fault msg part =>
      obtain ⟨rfl, rfl⟩ := Prod.mk.injEq .. |>.mp (Option.some.inj hexec)
      exact Adds.fail hs
  | done =>
      obtain ⟨rfl, rfl⟩ := Prod.mk.injEq .. |>.mp (Option.some.inj hexec)
      cases hroot : s.roots.get w.did with
      | some root =>
          rw [hroot] at hm
          obtain ⟨cm, hcm, htree⟩ := hm
          show RepoYields ((readRepo root).bind _) s _
          refine Adds.bind (adds_read hs _ root) fun b t _ hb => ?_
          obtain ⟨rfl, hget⟩ := hb
          refine Adds.ofExcept hs fun commit hdec => Adds.ret hs ?_
          obtain rfl := Option.some.inj (hcm.symm.trans (commitAt_of_decode hget hdec))
          exact ⟨.stored cm hroot hcm rfl rfl, htree, fun c hc => by cases hc⟩
      | none =>
          rw [hroot] at hm
          subst hm
          show RepoYields ((writeRepo L.emptyNode).bind _) s _
          refine Adds.bind (adds_write hL hs L.emptyNode) fun data t ht hd => ?_
          obtain ⟨rfl, hget⟩ := hd
          refine Adds.bind (adds_signCommit hL ht.addressed w _ id id) fun commit u hu hc => ?_
          obtain ⟨sig, hcommit⟩ := hc
          have hget' := hu.blocks _ _ hget
          refine Adds.ret hu.addressed ⟨?_, ⟨hV.empty _ hget', treeClosed_empty hK hget'⟩, ?_⟩
          · exact .created sig hroot hcommit hget' rfl rfl List.mem_cons_self
          · intro c hc
            rcases List.mem_cons.mp hc with rfl | hc
            · exact Table.contains_iff.mpr ⟨_, hget'⟩
            · rw [List.mem_singleton.mp hc]
              obtain ⟨b, hb, -⟩ := Option.bind_eq_some_iff.mp hcommit
              exact Table.contains_iff.mpr ⟨b, hb⟩

/-! ## The writes -/

/-- A listed operation on the map: create and update set the path, a
delete removes it. -/
def RepoOp.apply (m : RecordMap L) (o : RepoOp L.Cid) : RecordMap L :=
  if o.action = "delete" then Function.update m o.path none
  else Function.update m o.path o.cid

def applyOps (m : RecordMap L) (ops : List (RepoOp L.Cid)) : RecordMap L :=
  ops.foldl RepoOp.apply m

theorem adds_encodeAndWrite (hL : RepoLaws L) (hs : WellAddressed s.blocks) (record : L.Ipld)
    (err : String → String) :
    RepoYields (encodeAndWrite record err) s (Adds s fun c t =>
      ∃ block, L.encodeRecord record = .ok block ∧ c = L.cidOf block
        ∧ t.blocks.get c = some block) := by
  refine Adds.ofExcept hs fun block hblock => ?_
  refine (adds_write hL hs block).mono fun x t ht => ⟨ht.1, fun c hc => ?_⟩
  obtain ⟨rfl, hget⟩ := ht.2 c hc
  exact ⟨block, hblock, rfl, hget⟩

/-- What a single write leaves: the listed operation is what it did to the
map, and what it wrote has all that is new in the tree. -/
def RawDone (view : TreeView L) (K : TreeLinks L) (s : RepoStore L) (data : L.Cid)
    (m : RecordMap L) (a : String × String × Option L.Cid × L.Cid × List L.Cid)
    (t : RepoStore L) : Prop :=
  ∃ new, Stretch view K s data t a.2.2.2.1 (applyOps m [⟨a.1, a.2.1, a.2.2.1⟩]) new
    ∧ ∀ c, c ∈ a.2.2.2.2 ↔ c ∈ new

/-- Putting a record into the tree, after the record was written. -/
theorem adds_putRaw (hL : RepoLaws L) (hV : TreeLaws L view) (hK : LinkLaws K)
    (hs : WellAddressed s.blocks) {data : L.Cid} {m : RecordMap L}
    (hm : TreeAt view K s data m) (record : L.Ipld) {action key : String}
    (put : L.Cid → TreeOp L.Cid) (hin : ∀ cid, (put cid).inserted = [cid])
    (hput : ∀ cid m', (put cid).onMap m = some m' →
      m' = applyOps m [⟨action, key, some cid⟩]) :
    RepoYields ((encodeAndWrite record id).bind fun cid =>
      (treeRepo data (put cid) id).bind fun r =>
        .ret (action, key, some cid, r.1, cid :: r.2)) s (Adds s (RawDone view K s data m)) := by
  refine Adds.bind (adds_encodeAndWrite hL hs record id) fun cid t ht hcid => ?_
  obtain ⟨block, -, -, hget⟩ := hcid
  refine Adds.bind (adds_tree hL hV hK ht.addressed (hm.mono hV ht.blocks) (put cid) ?_ id)
    fun r u hu hr => ?_
  · rw [hin]
    intro c hc
    rw [List.mem_singleton.mp hc]
    exact Table.contains_iff.mpr ⟨block, hget⟩
  · obtain ⟨m', hop, hstretch⟩ := hr
    obtain rfl := hput cid m' hop
    refine Adds.ret hu.addressed ⟨_, (Stretch.refl hV hm ht).trans hu hstretch, fun c => ?_⟩
    rw [hin, List.nil_append, List.mem_append, List.mem_singleton, List.mem_cons]
    exact or_comm

theorem adds_applyRaw (hL : RepoLaws L) (hV : TreeLaws L view) (hK : LinkLaws K)
    (hs : WellAddressed s.blocks) {data : L.Cid} {m : RecordMap L}
    (hm : TreeAt view K s data m) (op : WriteOp L.Ipld) :
    RepoYields (applyRaw data op) s (Adds s (RawDone view K s data m)) := by
  cases op with
  | create key record =>
      refine adds_putRaw hL hV hK hs hm record (.add key) (fun _ => rfl) fun cid m' h => ?_
      simp only [TreeOp.onMap, Option.ite_none_left_eq_some] at h
      exact (Option.some.inj h.2).symm
  | update key record =>
      refine adds_putRaw hL hV hK hs hm record (.update key) (fun _ => rfl) fun cid m' h => ?_
      simp only [TreeOp.onMap, Option.ite_none_right_eq_some] at h
      exact (Option.some.inj h.2).symm
  | delete key =>
      refine Adds.bind (adds_tree hL hV hK hs hm (.delete key) (fun c hc => by cases hc) id)
        fun r t ht hr => ?_
      obtain ⟨m', hop, hstretch⟩ := hr
      simp only [TreeOp.onMap, Option.ite_none_right_eq_some] at hop
      obtain rfl := Option.some.inj hop.2
      refine Adds.ret ht.addressed ⟨_, hstretch, fun c => ?_⟩
      simp [TreeOp.inserted]

/-- What `prepare` makes: a delete without a record, or a create or update
with a record that is in the store. -/
def Prepared.Sound (t : RepoStore L) (p : Prepared L) : Prop :=
  (p.action = "delete" ∧ p.cid = none)
    ∨ ((p.action = "create" ∨ p.action = "update")
      ∧ ∃ c, p.cid = some c ∧ t.blocks.contains c = true)

def Prepared.listed (p : Prepared L) : RepoOp L.Cid := ⟨p.action, p.key, p.cid⟩

theorem Prepared.Sound.grown {t u : RepoStore L} {p : Prepared L} (h : p.Sound t)
    (hu : Grown t u) : p.Sound u := by
  rcases h with h | ⟨haction, c, hc, hin⟩
  · exact Or.inl h
  · exact Or.inr ⟨haction, c, hc, hu.contains hin⟩

theorem Prepared.Sound.inserted {t : RepoStore L} {p : Prepared L} (h : p.Sound t) :
    p.treeOp.inserted = p.cid.toList
      ∧ ∀ c ∈ p.treeOp.inserted, t.blocks.contains c = true := by
  obtain ⟨action, key, cid⟩ := p
  rcases h with ⟨rfl, rfl⟩ | ⟨rfl | rfl, c, rfl, hin⟩
  · exact ⟨rfl, fun c hc => by cases hc⟩
  · exact ⟨rfl, fun c' hc' => List.mem_singleton.mp hc' ▸ hin⟩
  · exact ⟨rfl, fun c' hc' => List.mem_singleton.mp hc' ▸ hin⟩

theorem Prepared.Sound.onMap {t : RepoStore L} {p : Prepared L} (h : p.Sound t)
    {m m' : RecordMap L} (hop : p.treeOp.onMap m = some m') : m' = RepoOp.apply m p.listed := by
  obtain ⟨action, key, cid⟩ := p
  rcases h with ⟨rfl, rfl⟩ | ⟨rfl | rfl, c, rfl, -⟩
  · have hdel : (TreeOp.delete key : TreeOp L.Cid).onMap m = some m' := hop
    simp only [TreeOp.onMap, Option.ite_none_right_eq_some] at hdel
    exact (Option.some.inj hdel.2).symm
  · simp only [Prepared.treeOp, TreeOp.onMap, Option.ite_none_left_eq_some] at hop
    exact (Option.some.inj hop.2).symm
  · simp only [Prepared.treeOp, TreeOp.onMap, Option.ite_none_right_eq_some] at hop
    exact (Option.some.inj hop.2).symm

theorem adds_prepare (hL : RepoLaws L) (ops : List (WriteOp L.Ipld)) :
    ∀ {s : RepoStore L}, WellAddressed s.blocks →
      RepoYields (prepare ops) s (Adds s fun ps t => ∀ p ∈ ps, p.Sound t) := by
  -- What is left of the batch, once the first record of it is stored.
  have hrest : ∀ {ops : List (WriteOp L.Ipld)} {p : Prepared L} {t : RepoStore L},
      RepoYields (prepare ops) t (Adds t fun ps u => ∀ p ∈ ps, p.Sound u) → p.Sound t →
      RepoYields ((prepare ops).bind fun rest => .ret (p :: rest)) t
        (Adds t fun ps u => ∀ p ∈ ps, p.Sound u) := by
    intro ops p t hops hp
    refine Adds.bind hops fun ps u hu hps => Adds.ret hu.addressed fun q hq => ?_
    rcases List.mem_cons.mp hq with rfl | hq
    · exact hp.grown hu
    · exact hps q hq
  induction ops with
  | nil => exact fun hs => Adds.ret hs fun p hp => by cases hp
  | cons op ops ih =>
      intro s hs
      cases op with
      | create key record =>
          refine Adds.bind (adds_encodeAndWrite hL hs record _) fun cid t ht hcid => ?_
          obtain ⟨block, -, -, hget⟩ := hcid
          exact hrest (ih ht.addressed)
            (Or.inr ⟨Or.inl rfl, cid, rfl, Table.contains_iff.mpr ⟨block, hget⟩⟩)
      | update key record =>
          refine Adds.bind (adds_encodeAndWrite hL hs record _) fun cid t ht hcid => ?_
          obtain ⟨block, -, -, hget⟩ := hcid
          exact hrest (ih ht.addressed)
            (Or.inr ⟨Or.inr rfl, cid, rfl, Table.contains_iff.mpr ⟨block, hget⟩⟩)
      | delete key => exact hrest (ih hs) (Or.inl ⟨rfl, rfl⟩)

theorem adds_applyTree (hL : RepoLaws L) (hV : TreeLaws L view) (hK : LinkLaws K)
    (ps : List (Prepared L)) :
    ∀ {s : RepoStore L} {data : L.Cid} {m : RecordMap L}, WellAddressed s.blocks →
      TreeAt view K s data m → (∀ p ∈ ps, p.Sound s) →
      RepoYields (applyTree data ps) s (Adds s fun a t =>
        ∃ new, Stretch view K s data t a.1 (applyOps m (ps.map Prepared.listed)) new
          ∧ ∀ c, c ∈ new ↔ c ∈ a.2 ∨ c ∈ ps.filterMap fun p => p.cid) := by
  induction ps with
  | nil =>
      intro s data m hs hm _
      exact Adds.ret hs ⟨[], Stretch.refl hV hm (Grown.refl hs), fun c => by simp⟩
  | cons p ps ih =>
      intro s data m hs hm hps
      have hp := hps p List.mem_cons_self
      refine Adds.bind (adds_tree hL hV hK hs hm p.treeOp hp.inserted.2 _) fun a t ht ha => ?_
      obtain ⟨m', hop, hstretch⟩ := ha
      obtain rfl := hp.onMap hop
      refine Adds.bind (ih ht.addressed hstretch.tree fun q hq =>
        (hps q (List.mem_cons_of_mem p hq)).grown ht) fun a' u hu ha' => ?_
      obtain ⟨new, hstretch', hnew⟩ := ha'
      refine Adds.ret hu.addressed ⟨_, hstretch.trans hu hstretch', fun c => ?_⟩
      rw [hp.inserted.1, List.filterMap_cons]
      cases p.cid with
      | none => simp [hnew, or_assoc]
      | some cid => simp [hnew, or_assoc, or_left_comm]

/-! ## Reading back and committing -/

theorem adds_readBlocks (hs : WellAddressed s.blocks) (cids : List L.Cid) :
    RepoYields (readBlocks cids) s (Adds s fun bs t =>
      t = s ∧ bs.map Prod.fst = cids ∧ ∀ x ∈ bs, s.blocks.get x.1 = some x.2) := by
  induction cids with
  | nil => exact Adds.ret hs ⟨rfl, rfl, fun x hx => by cases hx⟩
  | cons c cids ih =>
      refine Adds.bind (adds_read hs .storage c) fun b t _ hb => ?_
      obtain ⟨rfl, hget⟩ := hb
      refine Adds.bind ih fun bs u _ hbs => ?_
      obtain ⟨rfl, hcids, hbs⟩ := hbs
      refine Adds.ret hs ⟨rfl, by rw [List.map_cons, hcids], fun x hx => ?_⟩
      rcases List.mem_cons.mp hx with rfl | hx
      · exact hget
      · exact hbs x hx

theorem adds_sinceOf (hs : WellAddressed s.blocks) (o : Opened L) (err : String → String) :
    RepoYields (sinceOf o err) s
      (Adds s fun since t => t = s ∧ SinceOf o since s.blocks.get) := by
  unfold sinceOf SinceOf
  split_ifs with hprior
  · refine Adds.bind (adds_read hs .storage o.prev) fun b t _ hb => ?_
    obtain ⟨rfl, hget⟩ := hb
    refine Adds.ofExcept hs fun rev hrev => Adds.ret hs ⟨rfl, ?_⟩
    cases hdec : L.decodeCommit b with
    | error e =>
        rw [hdec] at hrev
        cases hrev
    | ok cm =>
        rw [hdec] at hrev
        obtain rfl := Except.ok.inj hrev
        exact ⟨cm, commitAt_of_decode hget hdec, rfl⟩
  · exact Adds.ret hs ⟨rfl, rfl⟩

/-- A commit that is ready to be stored: it is made on the tree at `data`,
chains from where the call started, and its event carries all that is new. -/
structure Ready (view : TreeView L) (K : TreeLinks L) (w : RepoWriter L) (rnd : WriteDraw)
    (s t : RepoStore L) (m : RecordMap L) (o : Opened L) (data : L.Cid)
    (blocks : List (L.Cid × L.Block)) (body : CommitBody L.Cid L.Car) : Prop where
  starts : StartsFrom w rnd.genesisRev s t o
  old : TreeAt view K t o.data m
  tree : TreeAt view K t data (applyOps m body.ops)
  moved : Moved K t.blocks.get o.data t.blocks.get data (blocks.map Prod.fst)
  commit : ∃ sig, commitAt t.blocks.get body.commit
    = some ⟨⟨w.did, 3, data, rnd.rev, some o.prev⟩, sig⟩
  rev : body.rev = rnd.rev
  since : SinceOf o body.since t.blocks.get
  car : L.writeCar body.commit blocks = .ok body.blocks
  stored : ∀ x ∈ blocks, t.blocks.get x.1 = some x.2
  opened : ∀ c ∈ o.written, c ∈ blocks.map Prod.fst
  self : body.commit ∈ blocks.map Prod.fst

/-- What a call that returned `Ok` has done. -/
structure Wrote (view : TreeView L) (K : TreeLinks L) (w : RepoWriter L) (rnd : WriteDraw)
    (s t : RepoStore L) (m : RecordMap L) (o : Opened L) (data : L.Cid)
    (blocks : List (L.Cid × L.Block)) (body : CommitBody L.Cid L.Car) : Prop
    extends Ready view K w rnd s t m o data blocks body where
  grown : BlocksLe s.blocks.get t.blocks.get
  addressed : WellAddressed t.blocks
  roots : t.roots = s.roots.insert w.did body.commit
  row : ∃ event, L.decodeBody event = .ok { body with seq := 0 }
    ∧ t.rows = s.rows ++ [⟨s.lastSeq + 1, w.did, event, false⟩]
  lastSeq : t.lastSeq = s.lastSeq + 1

/-- How a call ends: with one commit, or with nothing but blocks added. -/
def CallPost (view : TreeView L) (K : TreeLinks L) (w : RepoWriter L) (rnd : WriteDraw)
    (s : RepoStore L) (m : RecordMap L) (body : α → CommitBody L.Cid L.Car)
    (x : Except RepoError α) (t : RepoStore L) : Prop :=
  match x with
  | .error _ => Grown s t
  | .ok a => ∃ o data blocks, Wrote view K w rnd s t m o data blocks (body a)

variable {w : RepoWriter L} {rnd : WriteDraw} {t u : RepoStore L} {m : RecordMap L}
  {o : Opened L} {data : L.Cid} {blocks : List (L.Cid × L.Block)} {body : CommitBody L.Cid L.Car}

theorem Ready.mono (hV : TreeLaws L view) (h : Ready view K w rnd s t m o data blocks body)
    (hle : BlocksLe t.blocks.get u.blocks.get) :
    Ready view K w rnd s u m o data blocks body where
  starts := h.starts.mono hle
  old := h.old.mono hV hle
  tree := h.tree.mono hV hle
  moved := (h.moved.mono hle).rebase hle
  commit := by
    obtain ⟨sig, hcommit⟩ := h.commit
    exact ⟨sig, commitAt_mono hle hcommit⟩
  rev := h.rev
  since := h.since.mono hle
  car := h.car
  stored x hx := hle _ _ (h.stored x hx)
  opened := h.opened
  self := h.self

/-- A call does not depend on the locks and the channel. -/
theorem Wrote.same (hV : TreeLaws L view) {s' u : RepoStore L}
    (h : Wrote view K w rnd s' t m o data blocks body) (hs : { s' with locks := s.locks } = s)
    (hblocks : u.blocks = t.blocks) (hroots : u.roots = t.roots) (hrows : u.rows = t.rows)
    (hlast : u.lastSeq = t.lastSeq) : Wrote view K w rnd s u m o data blocks body := by
  have hle : BlocksLe t.blocks.get u.blocks.get := hblocks ▸ BlocksLe.refl _
  have hready := h.toReady.mono hV hle
  rw [← hs]
  refine ⟨{ hready with starts := ?_ }, h.grown.trans hle, hblocks ▸ h.addressed,
    hroots.trans h.roots, ?_, hlast.trans h.lastSeq⟩
  · cases hready.starts with
    | stored cm hroot hcm hdata hprior => exact .stored cm hroot hcm hdata hprior
    | created sig hroot hcm hdata hprior hcid hwritten =>
        exact .created sig hroot hcm hdata hprior hcid hwritten
  · obtain ⟨event, hdec, hrow⟩ := h.row
    exact ⟨event, hdec, hrows.trans hrow⟩

/-- The seq is only known afterwards, and nothing depends on it. -/
theorem Ready.numbered (h : Ready view K w rnd s t m o data blocks body) (seq : Nat) :
    Ready view K w rnd s t m o data blocks { body with seq := seq } := { h with }

theorem yields_storeCommit (hL : RepoLaws L) (hV : TreeLaws L view) (hst : Grown s t)
    (hseq : body.seq = 0) (h : Ready view K w rnd s t m o data blocks body) :
    RepoYields (storeCommit w blocks body) t (CallPost view K w rnd s m id) := by
  rw [storeCommit]
  cases hevent : L.encodeBody body with
  | error e => exact hst
  | ok event =>
      intro c r u hexec
      cases c with
      | fault msg part =>
          obtain ⟨rfl, rfl⟩ := Prod.mk.injEq .. |>.mp (Option.some.inj hexec)
          exact hst
      | done =>
          obtain ⟨rfl, rfl⟩ := Prod.mk.injEq .. |>.mp (Option.some.inj hexec)
          have hle := blocksLe_commitBlocks t blocks w.did body.commit event
          have haddr := wellAddressed_commitBlocks hst.addressed
            (fun x hx => hst.addressed _ _ (h.stored x hx)) w.did body.commit event
          refine ⟨o, data, blocks, ⟨(h.mono hV hle).numbered (t.lastSeq + 1),
            hst.blocks.trans hle, haddr, ?_, ⟨event, ?_, ?_⟩, ?_⟩⟩
          · simp only [RepoStore.commitBlocks, hst.roots, id]
          · rw [hL.decode_body _ _ hevent, ← hseq]
            rfl
          · simp only [RepoStore.commitBlocks, hst.rows, hst.lastSeq]
          · simp only [RepoStore.commitBlocks, hst.lastSeq]

/-! ## The two ways to commit -/

theorem CallPost.map {p : RepoProg L α} {f : α → RepoProg L β} {g : α → CommitBody L.Cid L.Car}
    {g' : β → CommitBody L.Cid L.Car} (hp : RepoYields p t (CallPost view K w rnd s m g))
    (hf : ∀ a, ∃ b, f a = .ret b ∧ g' b = g a) :
    RepoYields (p.bind f) t (CallPost view K w rnd s m g') := by
  refine Prog.Yields.bind ?_ ?_ hp
  · rintro a u ⟨o, data, blocks, hwrote⟩
    obtain ⟨b, hb, hg⟩ := hf a
    rw [hb]
    exact ⟨o, data, blocks, hg ▸ hwrote⟩
  · exact fun e u h => h

/-- What both do once the tree is changed and the commit signed. -/
theorem Ready.of_parts (hV : TreeLaws L view) {t₁ t₂ t₃ : RepoStore L} (h₂ : Grown t₁ t₂)
    (h₃ : Grown t₂ t₃) (hstart : StartsFrom w rnd.genesisRev s t₁ o)
    (hold : TreeAt view K t₁ o.data m) {new : List L.Cid}
    (hstretch : Stretch view K t₁ o.data t₂ data (applyOps m body.ops) new)
    (hcommit : ∃ sig, commitAt t₃.blocks.get body.commit
      = some ⟨⟨w.did, 3, data, rnd.rev, some o.prev⟩, sig⟩)
    (hrev : body.rev = rnd.rev) (hsince : SinceOf o body.since t₃.blocks.get)
    (hcar : L.writeCar body.commit blocks = .ok body.blocks)
    (hstored : ∀ x ∈ blocks, t₃.blocks.get x.1 = some x.2)
    (hlisted : ∀ c, c ∈ o.written ∨ c ∈ new ∨ c = body.commit → c ∈ blocks.map Prod.fst) :
    Ready view K w rnd s t₃ m o data blocks body := by
  have hle := (h₂.trans h₃).blocks
  have hmoved := ((hstretch.moved.mono h₃.blocks).rebase hle).weaken
    fun c hc => hlisted c (Or.inr (Or.inl hc))
  exact ⟨hstart.mono hle, hold.mono hV hle, hstretch.tree.mono hV h₃.blocks, hmoved, hcommit, hrev,
    hsince, hcar, hstored, fun c hc => hlisted c (Or.inl hc), hlisted _ (Or.inr (Or.inr rfl))⟩

theorem yields_applyManyLocked (hL : RepoLaws L) (hV : TreeLaws L view) (hK : LinkLaws K)
    (hs : WellAddressed s.blocks) (hm : Standing view K s w.did m)
    (ops : List (WriteOp L.Ipld)) (rnd : WriteDraw) :
    RepoYields (applyManyLocked w ops rnd) s (CallPost view K w rnd s m Prod.snd) := by
  refine Adds.finish (adds_openRepo hL hV hK hs hm rnd.genesisRev) ?_ fun _ _ h => h
  rintro o t₁ h₁ ⟨hstart, hold, hwritten⟩
  refine Adds.finish (adds_prepare hL ops h₁.addressed) ?_ fun _ _ h => h₁.trans h
  intro ps t₂ h₂ hps
  refine Adds.finish (adds_applyTree hL hV hK ps h₂.addressed (hold.mono hV h₂.blocks) hps) ?_
    fun _ _ h => (h₁.trans h₂).trans h
  rintro ⟨data, nodes⟩ t₃ h₃ ⟨new, hstretch, hnew⟩
  refine Adds.finish (adds_signCommit hL h₃.addressed w _ _ _) ?_
    fun _ _ h => ((h₁.trans h₂).trans h₃).trans h
  intro commitCid t₄ h₄ hcommit
  have h₀ := ((h₁.trans h₂).trans h₃).trans h₄
  refine Adds.finish (adds_readBlocks h₄.addressed _) ?_ fun _ _ h => h₀.trans h
  rintro blocks _ - ⟨rfl, hcids, hstored⟩
  show RepoYields ((Prog.ofExcept RepoError.repo (L.writeCar commitCid blocks)).bind _) _ _
  cases hcar : L.writeCar commitCid blocks with
  | error e => exact h₀
  | ok car =>
      show RepoYields ((sinceOf o _).bind _) _ _
      refine Adds.finish (adds_sinceOf h₄.addressed o _) ?_ fun _ _ h => h₀.trans h
      rintro since _ - ⟨rfl, hsince⟩
      refine CallPost.map (yields_storeCommit hL hV h₀ rfl
        (Ready.of_parts hV (h₂.trans h₃) h₄ hstart hold
          ((Stretch.refl hV hold h₂).trans h₃ hstretch) hcommit rfl hsince hcar hstored ?_))
        fun body => ⟨_, rfl, rfl⟩
      intro c hc
      rw [hcids, List.mem_dedup, List.mem_append, List.mem_append, List.mem_append,
        List.mem_singleton]
      rcases hc with hc | hc | hc
      · exact Or.inl (Or.inl (Or.inl hc))
      · rcases (hnew c).mp hc with hc | hc
        · exact Or.inl (Or.inr hc)
        · exact Or.inl (Or.inl (Or.inr hc))
      · exact Or.inr hc

theorem yields_commitOpLocked (hL : RepoLaws L) (hV : TreeLaws L view) (hK : LinkLaws K)
    (hs : WellAddressed s.blocks) (hm : Standing view K s w.did m) (op : WriteOp L.Ipld)
    (broadcast : Bool) (rnd : WriteDraw) :
    RepoYields (commitOpLocked w op broadcast rnd) s (CallPost view K w rnd s m Prod.snd) := by
  refine Adds.finish (adds_openRepo hL hV hK hs hm rnd.genesisRev) ?_ fun _ _ h => h
  rintro o t₁ h₁ ⟨hstart, hold, hwritten⟩
  refine Adds.finish (adds_applyRaw hL hV hK h₁.addressed hold op) ?_ fun _ _ h => h₁.trans h
  rintro ⟨action, key, recordCid, data, written⟩ t₂ h₂ ⟨new, hstretch, hnew⟩
  refine Adds.finish (adds_signCommit hL h₂.addressed w _ _ _) ?_
    fun _ _ h => (h₁.trans h₂).trans h
  intro commitCid t₃ h₃ hcommit
  have h₀ := (h₁.trans h₂).trans h₃
  refine Adds.finish (adds_readBlocks h₃.addressed _) ?_ fun _ _ h => h₀.trans h
  rintro blocks _ - ⟨rfl, hcids, hstored⟩
  show RepoYields ((Prog.ofExcept RepoError.repo (L.writeCar commitCid blocks)).bind _) _ _
  cases hcar : L.writeCar commitCid blocks with
  | error e => exact h₀
  | ok car =>
      show RepoYields ((readStore commitCid).bind _) _ _
      refine Adds.finish (adds_read h₃.addressed .storage commitCid) ?_ fun _ _ h => h₀.trans h
      rintro block _ - ⟨rfl, hget⟩
      show RepoYields ((revOf _ block).bind _) _ _
      rw [revOf]
      cases hdec : L.decodeCommit block with
      | error e => exact h₀
      | ok cm =>
          have hrev : cm.rev = rnd.rev := by
            obtain ⟨sig, hcommit⟩ := hcommit
            rw [Option.some.inj ((commitAt_of_decode hget hdec).symm.trans hcommit)]
          show RepoYields ((sinceOf o _).bind _) _ _
          refine Adds.finish (adds_sinceOf h₃.addressed o _) ?_ fun _ _ h => h₀.trans h
          rintro since t₄ - ⟨rfl, hsince⟩
          have hready : Ready view K w rnd s t₄ m o data blocks (commitBody w commitCid cm.rev since
              car [⟨action, key, recordCid⟩] rnd.time) := by
            refine Ready.of_parts hV h₂ h₃ hstart hold hstretch hcommit hrev hsince hcar hstored ?_
            intro c hc
            rw [hcids, List.mem_dedup, List.mem_append, List.mem_append, List.mem_singleton]
            rcases hc with hc | hc | hc
            · exact Or.inl (Or.inl hc)
            · exact Or.inl (Or.inr ((hnew c).mpr hc))
            · exact Or.inr hc
          refine Prog.Yields.bind ?_ ?_ (yields_storeCommit hL hV h₀ rfl hready)
          · rintro body u ⟨o', data', blocks', hwrote⟩
            dsimp only
            split_ifs
            · -- the broadcast changes nothing a call is about
              intro c r v hexec
              obtain ⟨rfl, rfl⟩ := Prod.mk.injEq .. |>.mp (Option.some.inj hexec)
              exact ⟨o', data', blocks', hwrote.same hV rfl rfl rfl rfl rfl⟩
            · exact ⟨o', data', blocks', hwrote⟩
          · exact fun e u h => h

/-! ## The calls -/

/-- Roots and log are as before, and the table has at most more blocks,
each under its own CID. -/
structure Unmoved (s t : RepoStore L) : Prop where
  roots : t.roots = s.roots
  rows : t.rows = s.rows
  lastSeq : t.lastSeq = s.lastSeq
  blocks : BlocksLe s.blocks.get t.blocks.get
  pairs : ∀ c b, t.blocks.get c = some b → s.blocks.get c = some b ∨ L.cidOf b = c

theorem Unmoved.addressed (h : Unmoved s t) (hs : WellAddressed s.blocks) :
    WellAddressed t.blocks := by
  intro c b hb
  rcases h.pairs c b hb with hold | hnew
  · exact hs c b hold
  · exact hnew

theorem Unmoved.trans (h : Unmoved s t) (h' : Unmoved t u) : Unmoved s u where
  roots := h'.roots.trans h.roots
  rows := h'.rows.trans h.rows
  lastSeq := h'.lastSeq.trans h.lastSeq
  blocks := h.blocks.trans h'.blocks
  pairs c b hb := by
    rcases h'.pairs c b hb with hold | hnew
    · exact h.pairs c b hold
    · exact Or.inr hnew

/-- How a call ends: an error has moved nothing, and an answer carries the
body of the one commit. -/
def CallDone (view : TreeView L) (K : TreeLinks L) (w : RepoWriter L) (rnd : WriteDraw)
    (s : RepoStore L) (m : RecordMap L) (body : α → CommitBody L.Cid L.Car)
    (x : Except RepoError α) (t : RepoStore L) : Prop :=
  match x with
  | .error _ => Unmoved s t
  | .ok a => ∃ o data blocks, Wrote view K w rnd s t m o data blocks (body a)

theorem done_locked (hV : TreeLaws L view) {p : RepoProg L α} {g : α → CommitBody L.Cid L.Car}
    (hp : ∀ s', s'.blocks = s.blocks → s'.roots = s.roots → { s' with locks := s.locks } = s →
      RepoYields p s' (CallPost view K w rnd s' m g)) :
    RepoYields (.op (.lock w.did) fun _ => p.ensuring (.unlock w.did)) s
      (CallDone view K w rnd s m g) := by
  intro c r s' hexec
  cases c with
  | fault => cases hexec
  | done =>
      simp only [writerExec, WriterOp.exec] at hexec
      split at hexec
      · cases hexec
      · obtain ⟨-, rfl⟩ := Prod.mk.injEq .. |>.mp (Option.some.inj hexec)
        refine Prog.Yields.ensuring ?_ (hp _ rfl rfl rfl)
        intro x t c r u hx hunlock
        obtain ⟨-, rfl⟩ := Prod.mk.injEq .. |>.mp (Option.some.inj hunlock)
        cases x with
        | error e =>
            have hgrown : Grown _ t := hx
            exact ⟨hgrown.roots, hgrown.rows, hgrown.lastSeq, hgrown.blocks,
              fun c b hb => Or.inr (hgrown.addressed c b hb)⟩
        | ok a =>
            obtain ⟨o, data, blocks, hwrote⟩ := hx
            exact ⟨o, data, blocks, hwrote.same hV rfl rfl rfl rfl rfl⟩

/-- How a call ends, whatever it answers. -/
def CallEnd (view : TreeView L) (K : TreeLinks L) (w : RepoWriter L) (rnd : WriteDraw)
    (s : RepoStore L) (m : RecordMap L) (x : Except RepoError α) (t : RepoStore L) : Prop :=
  match x with
  | .error _ => Unmoved s t
  | .ok _ => ∃ o data blocks body, Wrote view K w rnd s t m o data blocks body

theorem CallDone.callEnd {g : α → CommitBody L.Cid L.Car} {x : Except RepoError α}
    (h : CallDone view K w rnd s m g x t) : CallEnd view K w rnd s m x t := by
  cases x with
  | error e => exact h
  | ok a =>
      obtain ⟨o, data, blocks, hwrote⟩ := h
      exact ⟨o, data, blocks, g a, hwrote⟩

theorem CallEnd.map {p : RepoProg L α} {f : α → RepoProg L β}
    (hp : RepoYields p s (CallEnd view K w rnd s m)) (hf : ∀ a, ∃ b, f a = .ret b) :
    RepoYields (p.bind f) s (CallEnd view K w rnd s m) := by
  refine Prog.Yields.bind ?_ ?_ hp
  · intro a u h
    obtain ⟨b, hb⟩ := hf a
    rw [hb]
    exact h
  · exact fun e u h => h

theorem standing_of_eq {s' : RepoStore L} (hblocks : s'.blocks = s.blocks)
    (hroots : s'.roots = s.roots) {did : String} (h : Standing view K s did m) :
    Standing view K s' did m := by
  unfold Standing at h ⊢
  rw [hroots]
  split at h
  · exact h
  · obtain ⟨cm, hcm, htree⟩ := h
    exact ⟨cm, hblocks ▸ hcm, ⟨hblocks ▸ htree.map, hblocks ▸ htree.closed⟩⟩

theorem done_commitOp (hL : RepoLaws L) (hV : TreeLaws L view) (hK : LinkLaws K)
    (hs : WellAddressed s.blocks) (hm : Standing view K s w.did m) (op : WriteOp L.Ipld)
    (broadcast : Bool) (rnd : WriteDraw) :
    RepoYields (commitOp w op broadcast rnd) s (CallDone view K w rnd s m Prod.snd) :=
  done_locked hV fun _ hblocks hroots _ =>
    yields_commitOpLocked hL hV hK (hblocks ▸ hs) (standing_of_eq hblocks hroots hm) op broadcast
      rnd

theorem done_applyManyParts (hL : RepoLaws L) (hV : TreeLaws L view) (hK : LinkLaws K)
    (hs : WellAddressed s.blocks) (hm : Standing view K s w.did m) (ops : List (WriteOp L.Ipld))
    (rnd : WriteDraw) :
    RepoYields (applyManyParts w ops rnd) s (CallDone view K w rnd s m Prod.snd) := by
  rw [applyManyParts]
  split_ifs
  · exact ⟨rfl, rfl, rfl, BlocksLe.refl _, fun _ _ hb => Or.inl hb⟩
  · exact done_locked hV fun _ hblocks hroots _ =>
      yields_applyManyLocked hL hV hK (hblocks ▸ hs) (standing_of_eq hblocks hroots hm) ops rnd

theorem yields_handler (hL : RepoLaws L) (hV : TreeLaws L view) (hK : LinkLaws K)
    (hs : WellAddressed s.blocks) (q : RepoRequest L) (hm : Standing view K s q.writer.did m) :
    RepoYields q.handler s (CallEnd view K q.writer q.rnd s m) := by
  have hone : ∀ op broadcast, RepoYields (commitOp q.writer op broadcast q.rnd) s
      (CallEnd view K q.writer q.rnd s m) := fun op broadcast =>
    (done_commitOp hL hV hK hs hm op broadcast q.rnd).mono fun _ _ h => h.callEnd
  rw [RepoRequest.handler]
  split
  · exact CallEnd.map (CallEnd.map (hone _ true) fun _ => ⟨_, rfl⟩) fun _ => ⟨_, rfl⟩
  · exact CallEnd.map (hone _ false) fun _ => ⟨_, rfl⟩
  · rename_i ops _
    exact CallEnd.map ((done_applyManyParts hL hV hK hs hm ops q.rnd).mono fun _ _ h => h.callEnd)
      fun _ => ⟨_, rfl⟩

end

end Stelyph
