import Stelyph.RepoBlocks

/-!
# A batch is one step

`apply_many_parts` against its purpose: a batch of writes is one
transition of the map from keys to record CIDs. `foldWrites` is that
transition. A batch that runs undisturbed succeeds exactly when the fold
does, then leaves the folded map under a new root with one more event;
otherwise it leaves the root and the event log as they were. The single
write (`apply_one_parts`) is the same step for a batch of one.

Each helper of the writer gets one total-correctness lemma (`Prog.Ends`);
until the transaction, a call does nothing but add blocks (`Grown`).
-/

namespace Stelyph

section

variable {L : RepoLib}

/-! ## What a batch is for -/

def recordCid (record : L.Ipld) : Option L.Cid :=
  (L.encodeRecord record).toOption.map L.cidOf

/-- One write on the map: a create needs the key absent, an update and a
delete need it present, and a record that has no encoding has no CID. -/
def WriteOp.onMap (m : RecordMap L) : WriteOp L.Ipld → Option (RecordMap L)
  | .create key record =>
      (recordCid record).bind fun cid =>
        if (m key).isSome then none else some (Function.update m key (some cid))
  | .update key record =>
      (recordCid record).bind fun cid =>
        if (m key).isSome then some (Function.update m key (some cid)) else none
  | .delete key => if (m key).isSome then some (Function.update m key none) else none

def foldWrites (m : RecordMap L) : List (WriteOp L.Ipld) → Option (RecordMap L)
  | [] => some m
  | op :: ops => (op.onMap m).bind fun m' => foldWrites m' ops

/-- How a write is listed in the event. -/
def WriteOp.listed : WriteOp L.Ipld → RepoOp L.Cid
  | .create key record => ⟨"create", key, recordCid record⟩
  | .update key record => ⟨"update", key, recordCid record⟩
  | .delete key => ⟨"delete", key, none⟩

/-- The map of the repository of `did`, empty before its first commit. -/
def mapOf (view : TreeView L) (s : RepoStore L) (did : String) : Option (RecordMap L) :=
  match s.roots.get did with
  | none => some fun _ => none
  | some root => (commitAt s.blocks.get root).bind fun c => view s.blocks.get c.data

/-- The store calls of a writer that nothing disturbs. -/
def soloExec (s : RepoStore L) (o : WriterOp L) : Option (o.Ret × RepoStore L) :=
  WriterOp.exec 0 s o .done

/-- Run alone, the program ends in `post`. -/
abbrev Solo {α : Type} (p : RepoProg L α) (s : RepoStore L)
    (post : Except RepoError α → RepoStore L → Prop) : Prop :=
  Prog.Ends (S := writerSig L) soloExec p s post

theorem solo_op {α : Type} {o : WriterOp L} {k : o.Ret → RepoProg L α} {s t : RepoStore L}
    {r : o.Ret} {post : Except RepoError α → RepoStore L → Prop}
    (h : o.exec 0 s .done = some (r, t)) (hk : Solo (k r) t post) : Solo (.op o k) s post :=
  Prog.Ends.op h hk

/-! ## Before the transaction -/

variable {α β : Type}

/-- The program does what `spec` says: it only adds blocks, and ends with
an error exactly where `spec` has no value. -/
def Meets (s : RepoStore L) (spec : Option β) (good : β → α → RepoStore L → Prop)
    (x : Except RepoError α) (t : RepoStore L) : Prop :=
  Grown s t ∧
    match spec with
    | some b => ∃ a, x = .ok a ∧ good b a t
    | none => ∃ e, x = .error e

theorem Meets.ret {s : RepoStore L} (hs : WellAddressed s.blocks) {b : β} {a : α}
    {good : β → α → RepoStore L → Prop} (h : good b a s) :
    Solo (.ret a) s (Meets s (some b) good) :=
  .ret ⟨Grown.refl hs, a, rfl, h⟩

/-- Two halves that do what their specifications say, do what the
composed specification says. -/
theorem Meets.bind {α' β' : Type} {p : RepoProg L α} {f : α → RepoProg L α'} {s : RepoStore L}
    {spec : Option β} {spec' : β → Option β'} {good : β → α → RepoStore L → Prop}
    {good' : β' → α' → RepoStore L → Prop} (hp : Solo p s (Meets s spec good))
    (hf : ∀ b a t, spec = some b → Grown s t → good b a t →
      Solo (f a) t (Meets t (spec' b) good')) :
    Solo (p.bind f) s (Meets s (spec.bind spec') good') := by
  refine Prog.Ends.bind hp ?_ ?_
  · rintro a t ⟨ht, hx⟩
    cases hspec : spec with
    | none =>
        rw [hspec] at hx
        obtain ⟨e, he⟩ := hx
        cases he
    | some b =>
        rw [hspec] at hx
        obtain ⟨a', hok, hgood⟩ := hx
        obtain rfl := Except.ok.inj hok
        exact (hf b a t hspec ht hgood).mono fun x u hu => ⟨ht.trans hu.1, hu.2⟩
  · rintro e t ⟨ht, hx⟩
    cases spec with
    | none => exact ⟨ht, e, rfl⟩
    | some b =>
        obtain ⟨a, hok, -⟩ := hx
        cases hok

/-- A first half that cannot fail leaves the specification to the second. -/
theorem Meets.then {α' β' : Type} {p : RepoProg L α} {f : α → RepoProg L α'} {s : RepoStore L}
    {b : β} {spec : Option β'} {good : β → α → RepoStore L → Prop}
    {good' : β' → α' → RepoStore L → Prop} (hp : Solo p s (Meets s (some b) good))
    (hf : ∀ a t, Grown s t → good b a t → Solo (f a) t (Meets t spec good')) :
    Solo (p.bind f) s (Meets s spec good') := by
  show Solo (p.bind f) s (Meets s ((some b).bind fun _ => spec) good')
  exact Meets.bind hp fun _ a t hb ht hgood => hf a t ht (Option.some.inj hb ▸ hgood)

theorem Meets.weaken {p : RepoProg L α} {s : RepoStore L} {spec : Option β}
    {good good' : β → α → RepoStore L → Prop} (hp : Solo p s (Meets s spec good))
    (h : ∀ b a t, good b a t → good' b a t) : Solo p s (Meets s spec good') := by
  refine hp.mono fun x t ⟨ht, hx⟩ => ⟨ht, ?_⟩
  cases spec with
  | none => exact hx
  | some b =>
      obtain ⟨a, hok, hgood⟩ := hx
      exact ⟨a, hok, h b a t hgood⟩

/-! ## The store calls -/

theorem meets_write (hL : RepoLaws L) {s : RepoStore L} (hs : WellAddressed s.blocks)
    (b : L.Block) :
    Solo (writeRepo b) s (Meets s (some (L.cidOf b)) fun c a t =>
      a = c ∧ t.blocks.get c = some b) :=
  solo_op rfl (.ret ⟨⟨blocksLe_insertOrIgnore _ _ _, hs.insertOrIgnore rfl, rfl, rfl, rfl, rfl⟩,
    _, rfl, rfl, get_putBlock hL hs b⟩)

theorem solo_read {s : RepoStore L} {c : L.Cid} {b : L.Block} (hb : s.blocks.get c = some b)
    {k : Except StorageError L.Block → RepoProg L α}
    {post : Except RepoError α → RepoStore L → Prop} (hk : Solo (k (.ok b)) s post) :
    Solo (.op (.readBlock c) k) s post := by
  refine solo_op (o := .readBlock c) (r := .ok b) ?_ hk
  simp only [WriterOp.exec, hb]

theorem meets_tree (hL : RepoLaws L) {view : TreeView L} (hV : TreeLaws L view)
    {s : RepoStore L} (hs : WellAddressed s.blocks) {root : L.Cid} {m : RecordMap L}
    (hm : view s.blocks.get root = some m) (op : TreeOp L.Cid) (err : String → String) :
    Solo (treeRepo root op err) s (Meets s (op.onMap m) fun m' a t =>
      view t.blocks.get a.1 = some m' ∧ ∀ c ∈ a.2, t.blocks.contains c = true) := by
  cases hop : op.onMap m with
  | none =>
      obtain ⟨e, he⟩ := hV.tree_error _ _ _ _ hm hop
      refine solo_op (o := .tree root op) (r := .error e) (t := s) ?_ ?_
      · simp only [WriterOp.exec, he]
      · exact .fail ⟨Grown.refl hs, _, rfl⟩
  | some m' =>
      obtain ⟨root', nodes, htree, hview⟩ := hV.tree_ok _ _ _ _ _ hm hop
      refine solo_op (o := .tree root op) (r := .ok (root', nodes.map L.cidOf))
        (t := { s with blocks := putBlocks s.blocks nodes }) ?_ ?_
      · simp only [WriterOp.exec, htree]
      · refine .ret ⟨⟨blocksLe_putBlocks _ _, hs.putBlocks _, rfl, rfl, rfl, rfl⟩, _, rfl,
          hview _ (blocksLe_putBlocks _ _) fun n hn => get_putBlocks hL hs hn, ?_⟩
        intro c hc
        obtain ⟨n, hn, rfl⟩ := List.mem_map.mp hc
        exact Table.contains_iff.mpr ⟨n, get_putBlocks hL hs hn⟩

/-- Signing stores the commit it was given, under its own CID. -/
theorem meets_signCommit (hL : RepoLaws L) (hT : RepoTotal L) {s : RepoStore L}
    (hs : WellAddressed s.blocks) (w : RepoWriter L) (u : UnsignedCommit L.Cid)
    (e₁ e₂ : String → String) :
    Solo (signCommit w u e₁ e₂) s (Meets s (some ()) fun _ c t =>
      ∃ sig b, t.blocks.get c = some b ∧ L.decodeCommit b = .ok ⟨u, sig⟩) := by
  obtain ⟨preimage, hpre⟩ := hT.unsigned u
  obtain ⟨sig, hsig⟩ := hT.sign w.signingKey preimage
  obtain ⟨b, hb⟩ := hT.signed ⟨u, sig⟩
  have hprog : signCommit w u e₁ e₂ = writeRepo b := by
    simp [signCommit, hpre, hsig, hb]
  rw [hprog]
  refine (meets_write hL hs b).mono ?_
  rintro x t ⟨ht, c, hx, rfl, hget⟩
  exact ⟨ht, _, hx, sig, b, hget, hL.decode_commit _ _ hb⟩

/-! ## Opening -/

/-- What opening the repository hands on. -/
structure OpenedAt (view : TreeView L) (m : RecordMap L) (o : Opened L) (s : RepoStore L) :
    Prop where
  data : view s.blocks.get o.data = some m
  prev : ∃ b c, s.blocks.get o.prev = some b ∧ L.decodeCommit b = .ok c
  written : ∀ c ∈ o.written, s.blocks.contains c = true

theorem OpenedAt.grown {view : TreeView L} (hV : TreeLaws L view) {m : RecordMap L}
    {o : Opened L} {s t : RepoStore L} (h : OpenedAt view m o s) (ht : Grown s t) :
    OpenedAt view m o t := by
  obtain ⟨b, c, hb, hc⟩ := h.prev
  exact ⟨hV.mono _ _ _ _ ht.blocks h.data, ⟨b, c, ht.blocks _ _ hb, hc⟩,
    fun c hc => ht.contains (h.written c hc)⟩

theorem meets_openRepo (hL : RepoLaws L) (hT : RepoTotal L) {view : TreeView L}
    (hV : TreeLaws L view) {s : RepoStore L} (hs : WellAddressed s.blocks) {w : RepoWriter L}
    {m : RecordMap L} (hm : mapOf view s w.did = some m) (rev : String) :
    Solo (openRepo w rev) s (Meets s (some ()) fun _ => OpenedAt view m) := by
  unfold mapOf at hm
  refine solo_op rfl ?_
  split at hm
  · rename_i hroot
    obtain rfl := Option.some.inj hm
    rw [hroot]
    show Solo ((writeRepo L.emptyNode).bind _) s _
    refine Meets.then (meets_write hL hs L.emptyNode) ?_
    rintro _ t ht ⟨rfl, hget⟩
    refine Meets.then (meets_signCommit hL hT ht.addressed w _ id id) ?_
    rintro c u hu ⟨sig, b, hb, hdec⟩
    refine Meets.ret hu.addressed ⟨hV.empty _ (hu.blocks _ _ hget), ⟨b, _, hb, hdec⟩, ?_⟩
    intro c' hc'
    rcases List.mem_cons.mp hc' with rfl | hc'
    · exact Table.contains_iff.mpr ⟨_, hu.blocks _ _ hget⟩
    · exact List.mem_singleton.mp hc' ▸ Table.contains_iff.mpr ⟨b, hb⟩
  · rename_i root hroot
    obtain ⟨c, hc, hview⟩ := Option.bind_eq_some_iff.mp hm
    obtain ⟨b, hb, hdec⟩ := Option.bind_eq_some_iff.mp hc
    have hdec' : L.decodeCommit b = .ok c := by
      cases h : L.decodeCommit b with
      | error e => rw [h] at hdec; cases hdec
      | ok c' => rw [h] at hdec; exact congrArg _ (Option.some.inj hdec)
    rw [hroot]
    refine solo_read hb ?_
    show Solo ((Prog.ofExcept RepoError.repo (L.decodeCommit b)).bind _) s _
    rw [hdec']
    exact Meets.ret hs ⟨hview, ⟨b, c, hb, hdec'⟩, fun _ h => by cases h⟩

/-! ## The writes -/

theorem meets_encodeAndWrite (hL : RepoLaws L) {s : RepoStore L} (hs : WellAddressed s.blocks)
    (record : L.Ipld) (err : String → String) :
    Solo (encodeAndWrite record err) s (Meets s (recordCid record) fun c a t =>
      a = c ∧ t.blocks.contains c = true) := by
  unfold encodeAndWrite recordCid
  cases henc : L.encodeRecord record with
  | error e => exact .fail ⟨Grown.refl hs, _, rfl⟩
  | ok b =>
      refine Meets.weaken (meets_write hL hs b) fun c a t h => ⟨h.1, ?_⟩
      exact Table.contains_iff.mpr ⟨b, h.2⟩

/-- What `prepare` makes of a write. -/
def prepareOne : WriteOp L.Ipld → Option (Prepared L)
  | .create key record => (recordCid record).bind fun c => some ⟨"create", key, some c⟩
  | .update key record => (recordCid record).bind fun c => some ⟨"update", key, some c⟩
  | .delete key => some ⟨"delete", key, none⟩

def preparedOf : List (WriteOp L.Ipld) → Option (List (Prepared L))
  | [] => some []
  | op :: ops => (prepareOne op).bind fun p => (preparedOf ops).bind fun ps => some (p :: ps)

def foldTree (m : RecordMap L) : List (Prepared L) → Option (RecordMap L)
  | [] => some m
  | p :: ps => (p.treeOp.onMap m).bind fun m' => foldTree m' ps

theorem onMap_prepareOne (m : RecordMap L) (op : WriteOp L.Ipld) :
    op.onMap m = (prepareOne op).bind fun p => p.treeOp.onMap m := by
  cases op with
  | create key record =>
      cases h : recordCid record <;>
        simp [WriteOp.onMap, prepareOne, h, Prepared.treeOp, TreeOp.onMap]
  | update key record =>
      cases h : recordCid record <;>
        simp [WriteOp.onMap, prepareOne, h, Prepared.treeOp, TreeOp.onMap]
  | delete key => simp [WriteOp.onMap, prepareOne, Prepared.treeOp, TreeOp.onMap]

/-- The records are encoded before the tree is opened; the fold does both
in turn, and comes to the same. -/
theorem foldWrites_eq (m : RecordMap L) (ops : List (WriteOp L.Ipld)) :
    foldWrites m ops = (preparedOf ops).bind (foldTree m) := by
  induction ops generalizing m with
  | nil => rfl
  | cons op ops ih =>
      simp only [foldWrites, preparedOf, onMap_prepareOne, ih]
      cases prepareOne op with
      | none => rfl
      | some p =>
          cases hps : preparedOf ops with
          | none =>
              simp only [Option.bind_some, Option.bind_none]
              cases p.treeOp.onMap m <;> rfl
          | some ps => simp [foldTree]

theorem prepareOne_listed {op : WriteOp L.Ipld} {p : Prepared L} (h : prepareOne op = some p) :
    (⟨p.action, p.key, p.cid⟩ : RepoOp L.Cid) = op.listed := by
  cases op with
  | create key record =>
      obtain ⟨c, hc, hp⟩ := Option.bind_eq_some_iff.mp h
      obtain rfl := Option.some.inj hp
      simp [WriteOp.listed, hc]
  | update key record =>
      obtain ⟨c, hc, hp⟩ := Option.bind_eq_some_iff.mp h
      obtain rfl := Option.some.inj hp
      simp [WriteOp.listed, hc]
  | delete key =>
      obtain rfl := Option.some.inj h
      rfl

theorem preparedOf_listed {ops : List (WriteOp L.Ipld)} {ps : List (Prepared L)}
    (h : preparedOf ops = some ps) :
    (ps.map fun p => (⟨p.action, p.key, p.cid⟩ : RepoOp L.Cid)) = ops.map WriteOp.listed := by
  induction ops generalizing ps with
  | nil =>
      obtain rfl := Option.some.inj h
      rfl
  | cons op ops ih =>
      obtain ⟨p, hp, hrest⟩ := Option.bind_eq_some_iff.mp h
      obtain ⟨ps', hps', heq⟩ := Option.bind_eq_some_iff.mp hrest
      obtain rfl := Option.some.inj heq
      rw [List.map_cons, List.map_cons, ih hps', prepareOne_listed hp]

/-- Every record CID in the list is in the table. -/
def RecordsIn (s : RepoStore L) (ps : List (Prepared L)) : Prop :=
  ∀ p ∈ ps, ∀ c, p.cid = some c → s.blocks.contains c = true

theorem RecordsIn.cons {s : RepoStore L} {p : Prepared L} {ps : List (Prepared L)}
    (hp : ∀ c, p.cid = some c → s.blocks.contains c = true) (h : RecordsIn s ps) :
    RecordsIn s (p :: ps) := by
  intro q hq c hc
  rcases List.mem_cons.mp hq with rfl | hq
  · exact hp c hc
  · exact h q hq c hc

/-- A batch is prepared record by record. -/
theorem meets_prepare (hL : RepoLaws L) (ops : List (WriteOp L.Ipld)) :
    ∀ {s : RepoStore L}, WellAddressed s.blocks →
      Solo (prepare ops) s (Meets s (preparedOf ops) fun ps a t => a = ps ∧ RecordsIn t ps) := by
  -- What is left of the batch, once the first record of it is stored.
  have hrest : ∀ {ops : List (WriteOp L.Ipld)} {p : Prepared L} {t : RepoStore L},
      Solo (prepare ops) t (Meets t (preparedOf ops) fun ps a t => a = ps ∧ RecordsIn t ps) →
      (∀ c, p.cid = some c → t.blocks.contains c = true) →
      Solo ((prepare ops).bind fun rest => .ret (p :: rest)) t
        (Meets t ((preparedOf ops).bind fun ps => some (p :: ps))
          fun ps a t => a = ps ∧ RecordsIn t ps) := by
    intro ops p t ih hp
    refine Meets.bind ih fun ps a u _ hu h => Meets.ret hu.addressed ⟨by rw [h.1], ?_⟩
    exact h.2.cons fun c hc => hu.contains (hp c hc)
  induction ops with
  | nil => exact fun hs => Meets.ret hs ⟨rfl, fun _ h => by cases h⟩
  | cons op ops ih =>
      intro s hs
      cases op with
      | create key record =>
          simp only [preparedOf, prepareOne, Option.bind_assoc]
          refine Meets.bind (meets_encodeAndWrite hL hs record _) ?_
          rintro c _ t _ ht ⟨rfl, hcon⟩
          refine hrest (ih ht.addressed) fun c' hc' => ?_
          obtain rfl := Option.some.inj hc'
          exact hcon
      | update key record =>
          simp only [preparedOf, prepareOne, Option.bind_assoc]
          refine Meets.bind (meets_encodeAndWrite hL hs record _) ?_
          rintro c _ t _ ht ⟨rfl, hcon⟩
          refine hrest (ih ht.addressed) fun c' hc' => ?_
          obtain rfl := Option.some.inj hc'
          exact hcon
      | delete key => exact hrest (ih hs) fun c hc => by cases hc

/-- The tree operations of a batch fold over the map. -/
theorem meets_applyTree (hL : RepoLaws L) {view : TreeView L} (hV : TreeLaws L view)
    (ps : List (Prepared L)) :
    ∀ {s : RepoStore L} {root : L.Cid} {m : RecordMap L}, WellAddressed s.blocks →
      view s.blocks.get root = some m →
      Solo (applyTree root ps) s (Meets s (foldTree m ps) fun m' a t =>
        view t.blocks.get a.1 = some m' ∧ ∀ c ∈ a.2, t.blocks.contains c = true) := by
  induction ps with
  | nil => exact fun hs hm => Meets.ret hs ⟨hm, fun _ h => by cases h⟩
  | cons p ps ih =>
      intro s root m hs hm
      refine Meets.bind (meets_tree hL hV hs hm p.treeOp _) ?_
      rintro m₁ ⟨root₁, nodes₁⟩ t _ ht ⟨hview, hnodes⟩
      have hbind : foldTree m₁ ps = (foldTree m₁ ps).bind some := by simp
      rw [hbind]
      refine Meets.bind (ih ht.addressed hview) ?_
      rintro m₂ ⟨root₂, nodes₂⟩ u _ hu ⟨hview₂, hnodes₂⟩
      refine Meets.ret hu.addressed ⟨hview₂, fun c hc => ?_⟩
      rcases List.mem_append.mp hc with hc | hc
      · exact hu.contains (hnodes c hc)
      · exact hnodes₂ c hc

theorem meets_applyRaw (hL : RepoLaws L) {view : TreeView L} (hV : TreeLaws L view)
    {s : RepoStore L} (hs : WellAddressed s.blocks) {root : L.Cid} {m : RecordMap L}
    (hm : view s.blocks.get root = some m) (op : WriteOp L.Ipld) :
    Solo (applyRaw root op) s (Meets s (op.onMap m) fun m' a t =>
      (⟨a.1, a.2.1, a.2.2.1⟩ : RepoOp L.Cid) = op.listed
        ∧ view t.blocks.get a.2.2.2.1 = some m'
        ∧ ∀ c ∈ a.2.2.2.2, t.blocks.contains c = true) := by
  -- A record is stored, then the tree points to it.
  have hrecord : ∀ (action key : String) (record : L.Ipld) (top : L.Cid → TreeOp L.Cid),
      Solo (do
          let cid ← encodeAndWrite record id
          let tree ← treeRepo root (top cid) id
          return (action, key, some cid, tree.1, cid :: tree.2)) s
        (Meets s ((recordCid record).bind fun c => (top c).onMap m) fun m' a t =>
          (⟨a.1, a.2.1, a.2.2.1⟩ : RepoOp L.Cid) = ⟨action, key, recordCid record⟩
            ∧ view t.blocks.get a.2.2.2.1 = some m'
            ∧ ∀ c ∈ a.2.2.2.2, t.blocks.contains c = true) := by
    intro action key record top
    refine Meets.bind (meets_encodeAndWrite hL hs record id) ?_
    rintro _ c t hc ht ⟨rfl, hcon⟩
    have hview := hV.mono _ _ _ _ ht.blocks hm
    have hbind : (top c).onMap m = ((top c).onMap m).bind some := by simp
    rw [hbind]
    refine Meets.bind (meets_tree hL hV ht.addressed hview (top c) id) ?_
    rintro m' ⟨root', nodes⟩ u _ hu ⟨hview', hnodes⟩
    refine Meets.ret hu.addressed ⟨by rw [hc], hview', fun c' hc' => ?_⟩
    rcases List.mem_cons.mp hc' with rfl | hc'
    · exact hu.contains hcon
    · exact hnodes c' hc'
  cases op with
  | create key record => exact hrecord "create" key record (.add key)
  | update key record => exact hrecord "update" key record (.update key)
  | delete key =>
      have hbind : (WriteOp.delete key : WriteOp L.Ipld).onMap m
          = ((TreeOp.delete key : TreeOp L.Cid).onMap m).bind some := by
        simp [WriteOp.onMap, TreeOp.onMap]
      rw [hbind]
      refine Meets.bind (meets_tree hL hV hs hm (.delete key) id) ?_
      rintro m' ⟨root', nodes⟩ u _ hu ⟨hview', hnodes⟩
      exact Meets.ret hu.addressed ⟨rfl, hview', hnodes⟩

/-! ## Reading back and committing -/

theorem meets_readBlocks {s : RepoStore L} (hs : WellAddressed s.blocks) (cids : List L.Cid)
    (h : ∀ c ∈ cids, s.blocks.contains c = true) :
    Solo (readBlocks cids) s (Meets s (some ()) fun _ bs t =>
      t = s ∧ ∀ x ∈ bs, L.cidOf x.2 = x.1) := by
  induction cids with
  | nil => exact Meets.ret hs ⟨rfl, fun _ h => by cases h⟩
  | cons c cids ih =>
      obtain ⟨b, hb⟩ := Table.contains_iff.mp (h c List.mem_cons_self)
      refine solo_read hb ?_
      show Solo ((readBlocks cids).bind _) s _
      refine Meets.then (ih fun c' hc' => h c' (List.mem_cons_of_mem c hc')) ?_
      rintro bs _ _ ⟨rfl, hbs⟩
      refine Meets.ret hs ⟨rfl, fun x hx => ?_⟩
      rcases List.mem_cons.mp hx with rfl | hx
      · exact hs _ _ hb
      · exact hbs x hx

theorem meets_sinceOf {s : RepoStore L} (hs : WellAddressed s.blocks) {o : Opened L}
    (h : ∃ b c, s.blocks.get o.prev = some b ∧ L.decodeCommit b = .ok c)
    (err : String → String) :
    Solo (sinceOf o err) s (Meets s (some ()) fun _ _ t => t = s) := by
  obtain ⟨b, c, hb, hdec⟩ := h
  unfold sinceOf
  split
  · refine solo_read hb ?_
    show Solo ((revOf err b).bind _) s _
    rw [revOf, hdec]
    exact Meets.ret hs rfl
  · exact Meets.ret hs rfl

/-- One step of the repository of `did`: a new root whose map is `m'`,
one event more, and nothing else but blocks. -/
structure Stepped (view : TreeView L) (did : String) (s t : RepoStore L) (m' : RecordMap L)
    (body : CommitBody L.Cid L.Car) : Prop where
  root : t.roots.get did = some body.commit
  map : mapOf view t did = some m'
  others : ∀ d, d ≠ did → t.roots.get d = s.roots.get d
  row : ∃ row, t.rows = s.rows ++ [row] ∧ row.did = did ∧ row.seq = body.seq
    ∧ row.invalidated = false ∧ L.decodeBody row.event = .ok { body with seq := 0 }

theorem solo_storeCommit (hL : RepoLaws L) (hT : RepoTotal L) {view : TreeView L}
    (hV : TreeLaws L view) {s t : RepoStore L} (ht : Grown s t) {w : RepoWriter L}
    {m' : RecordMap L} {body : CommitBody L.Cid L.Car} (hseq : body.seq = 0)
    {blocks : List (L.Cid × L.Block)} {b : L.Block} {c : SignedCommit L.Cid}
    (hb : t.blocks.get body.commit = some b) (hdec : L.decodeCommit b = .ok c)
    (hview : view t.blocks.get c.data = some m') (hblocks : ∀ x ∈ blocks, L.cidOf x.2 = x.1) :
    Solo (storeCommit w blocks body) t fun x u =>
      ∃ seq, x = .ok { body with seq := seq }
        ∧ Stepped view w.did s u m' { body with seq := seq } ∧ WellAddressed u.blocks := by
  obtain ⟨event, hevent⟩ := hT.body body
  have hprog : storeCommit w blocks body
      = .op (.commitBlocks blocks w.did body.commit event) fun r =>
          (Prog.ofExcept .storage r).bind fun seq => .ret { body with seq := seq } := by
    simp [storeCommit, hevent]
  rw [hprog]
  refine solo_op (o := .commitBlocks blocks w.did body.commit event) rfl
    (.ret ⟨t.lastSeq + 1, rfl, ⟨?_, ?_, ?_, ?_⟩, wellAddressed_commitBlocks ht.addressed hblocks _ _ _⟩)
  · simp [RepoStore.commitBlocks]
  · have hle := blocksLe_commitBlocks t blocks w.did body.commit event
    have hroot : (t.commitBlocks blocks w.did body.commit event).roots.get w.did
        = some body.commit := by
      simp [RepoStore.commitBlocks]
    rw [mapOf, hroot]
    exact Option.bind_eq_some_iff.mpr
      ⟨c, commitAt_of_decode (hle _ _ hb) hdec, hV.mono _ _ _ _ hle hview⟩
  · intro d hd
    simp only [RepoStore.commitBlocks, ht.roots]
    exact Table.get_insert_of_ne hd
  · refine ⟨⟨t.lastSeq + 1, w.did, event, false⟩, ?_, rfl, rfl, rfl, ?_⟩
    · simp only [RepoStore.commitBlocks, ht.rows]
    · rw [hL.decode_body _ _ hevent]
      simp [← hseq]

/-- The rule for the last stretch: what does not meet its specification
has only added blocks. -/
theorem Meets.finish {α' : Type} {p : RepoProg L α} {f : α → RepoProg L α'} {s : RepoStore L}
    {spec : Option β} {good : β → α → RepoStore L → Prop}
    {post : Except RepoError α' → RepoStore L → Prop} (hp : Solo p s (Meets s spec good))
    (hok : ∀ b a t, spec = some b → Grown s t → good b a t → Solo (f a) t post)
    (herr : ∀ e t, spec = none → Grown s t → post (.error e) t) : Solo (p.bind f) s post := by
  refine Prog.Ends.bind hp ?_ ?_
  · rintro a t ⟨ht, hx⟩
    cases hspec : spec with
    | none =>
        rw [hspec] at hx
        obtain ⟨e, he⟩ := hx
        cases he
    | some b =>
        rw [hspec] at hx
        obtain ⟨a', hx', hgood⟩ := hx
        obtain rfl := Except.ok.inj hx'
        exact hok b a t hspec ht hgood
  · rintro e t ⟨ht, hx⟩
    cases hspec : spec with
    | none => exact herr e t hspec ht
    | some b =>
        rw [hspec] at hx
        obtain ⟨a, hx', -⟩ := hx
        cases hx'

/-! ## The two commits -/

/-- What a batch does: one step of the map if the writes fold over it,
and otherwise nothing to the roots and the log. -/
def BatchPost (view : TreeView L) (did : String) (s : RepoStore L) (m : RecordMap L)
    (ops : List (WriteOp L.Ipld))
    (x : Except RepoError (List (WriteOutcome L.Cid) × CommitBody L.Cid L.Car))
    (t : RepoStore L) : Prop :=
  match foldWrites m ops with
  | some m' => ∃ body, Stepped view did s t m' body ∧ body.ops = ops.map WriteOp.listed
      ∧ x = .ok ((ops.map WriteOp.listed).map fun o =>
          ⟨o.action, o.path, o.cid, body.commit, body.rev⟩, body)
  | none => (∃ e, x = .error e) ∧ t.roots = s.roots ∧ t.rows = s.rows
      ∧ mapOf view t did = some m

theorem Grown.mapOf {view : TreeView L} (hV : TreeLaws L view) {s t : RepoStore L}
    (ht : Grown s t) {did : String} {m : RecordMap L} (hm : mapOf view s did = some m) :
    mapOf view t did = some m := by
  unfold Stelyph.mapOf at hm ⊢
  rw [ht.roots]
  split at hm
  · exact hm
  · obtain ⟨c, hc, hview⟩ := Option.bind_eq_some_iff.mp hm
    exact Option.bind_eq_some_iff.mpr
      ⟨c, commitAt_mono ht.blocks hc, hV.mono _ _ _ _ ht.blocks hview⟩

theorem BatchPost.of_error {view : TreeView L} (hV : TreeLaws L view) {did : String}
    {s t : RepoStore L} {m : RecordMap L} (hm : mapOf view s did = some m)
    {ops : List (WriteOp L.Ipld)} (h : foldWrites m ops = none)
    (ht : Grown s t) (e : RepoError) : BatchPost view did s m ops (.error e) t := by
  rw [BatchPost, h]
  exact ⟨⟨e, rfl⟩, ht.roots, ht.rows, ht.mapOf hV hm⟩

theorem BatchPost.of_stepped {view : TreeView L} {did : String} {s t : RepoStore L}
    {m m' : RecordMap L} {ops : List (WriteOp L.Ipld)} (h : foldWrites m ops = some m')
    {body : CommitBody L.Cid L.Car} (hstep : Stepped view did s t m' body)
    (hops : body.ops = ops.map WriteOp.listed)
    {x : Except RepoError (List (WriteOutcome L.Cid) × CommitBody L.Cid L.Car)}
    (hx : x = .ok ((ops.map WriteOp.listed).map fun o =>
      ⟨o.action, o.path, o.cid, body.commit, body.rev⟩, body)) :
    BatchPost view did s m ops x t := by
  rw [BatchPost, h]
  exact ⟨body, hstep, hops, hx⟩

section

variable {view : TreeView L} {s : RepoStore L} {w : RepoWriter L} {m : RecordMap L}

/-- The channel is not part of it. -/
theorem BatchPost.sent {did : String} {t : RepoStore L} {ops : List (WriteOp L.Ipld)}
    {x : Except RepoError (List (WriteOutcome L.Cid) × CommitBody L.Cid L.Car)}
    (h : BatchPost view did s m ops x t) (sent : List (FirehoseEvent L.Frame)) :
    BatchPost view did s m ops x { t with sent := sent } := by
  unfold BatchPost at h ⊢
  split at h
  · obtain ⟨body, hstep, hrest⟩ := h
    exact ⟨body, ⟨hstep.root, hstep.map, hstep.others, hstep.row⟩, hrest⟩
  · exact h

theorem solo_applyManyLocked (hL : RepoLaws L) (hT : RepoTotal L) (hV : TreeLaws L view)
    (hs : WellAddressed s.blocks) (hm : mapOf view s w.did = some m)
    (ops : List (WriteOp L.Ipld)) (rnd : WriteDraw) :
    Solo (applyManyLocked w ops rnd) s (BatchPost view w.did s m ops) := by
  refine Meets.finish (meets_openRepo hL hT hV hs hm rnd.genesisRev) ?_ fun _ _ h => by cases h
  intro _ opened t₁ _ h₁ hopen
  refine Meets.finish (meets_prepare hL ops h₁.addressed) ?_ ?_
  · rintro _ prepared t₂ hps h₂ ⟨rfl, hrecs⟩
    have hopen₂ := hopen.grown hV h₂
    refine Meets.finish (meets_applyTree hL hV _ h₂.addressed hopen₂.data) ?_ ?_
    · rintro m' ⟨data, nodes⟩ t₃ hfold h₃ ⟨hview, hnodes⟩
      have hfold' : foldWrites m ops = some m' := by rw [foldWrites_eq, hps]; exact hfold
      refine Meets.finish (meets_signCommit hL hT h₃.addressed w _ _ _) ?_ fun _ _ h => by cases h
      rintro _ commitCid t₄ _ h₄ ⟨sig, b, hb, hdec⟩
      have hwritten : ∀ c ∈ (opened.written ++ prepared.filterMap (fun p => p.cid) ++ nodes
          ++ [commitCid]).dedup, t₄.blocks.contains c = true := by
        intro c hc
        rcases List.mem_append.mp (List.mem_dedup.mp hc) with hc | hc
        · rcases List.mem_append.mp hc with hc | hc
          · rcases List.mem_append.mp hc with hc | hc
            · exact ((h₂.trans h₃).trans h₄).contains (hopen.written c hc)
            · obtain ⟨p, hp, hpc⟩ := List.mem_filterMap.mp hc
              exact (h₃.trans h₄).contains (hrecs p hp c hpc)
          · exact h₄.contains (hnodes c hc)
        · exact List.mem_singleton.mp hc ▸ Table.contains_iff.mpr ⟨b, hb⟩
      refine Meets.finish (meets_readBlocks h₄.addressed _ hwritten) ?_ fun _ _ h => by cases h
      rintro _ blocks _ _ _ ⟨rfl, hblocks⟩
      obtain ⟨car, hcar⟩ := hT.car commitCid blocks
      show Solo ((Prog.ofExcept RepoError.repo (L.writeCar commitCid blocks)).bind _) _ _
      rw [hcar]
      show Solo ((sinceOf opened _).bind _) _ _
      have hprev := ((hopen₂.grown hV h₃).grown hV h₄).prev
      refine Meets.finish (meets_sinceOf h₄.addressed hprev _) ?_ fun _ _ h => by cases h
      rintro _ since _ _ _ rfl
      have hall := ((h₁.trans h₂).trans h₃).trans h₄
      refine (solo_storeCommit hL hT hV hall rfl hb hdec (hV.mono _ _ _ _ h₄.blocks hview)
        hblocks).bind ?_ ?_
      · rintro body u ⟨seq, hok, hstep, -⟩
        obtain rfl := Except.ok.inj hok
        have hlisted := preparedOf_listed hps
        refine .ret (BatchPost.of_stepped hfold' hstep hlisted ?_)
        rw [← hlisted, List.map_map]
        rfl
      · rintro e u ⟨seq, hok, -⟩
        cases hok
    · intro e t₃ hfold h₃
      refine BatchPost.of_error hV hm ?_ ((h₁.trans h₂).trans h₃) e
      rw [foldWrites_eq, hps]
      exact hfold
  · intro e t₂ hps h₂
    refine BatchPost.of_error hV hm ?_ (h₁.trans h₂) e
    rw [foldWrites_eq, hps]
    rfl

theorem solo_commitOpLocked (hL : RepoLaws L) (hT : RepoTotal L) (hV : TreeLaws L view)
    (hs : WellAddressed s.blocks) (hm : mapOf view s w.did = some m)
    (op : WriteOp L.Ipld) (broadcast : Bool) (rnd : WriteDraw) :
    Solo (commitOpLocked w op broadcast rnd) s fun x t =>
      BatchPost view w.did s m [op] (x.map fun a => ([a.1], a.2)) t
        ∧ WellAddressed t.blocks := by
  refine Meets.finish (meets_openRepo hL hT hV hs hm rnd.genesisRev) ?_ fun _ _ h => by cases h
  intro _ opened t₁ _ h₁ hopen
  refine Meets.finish (meets_applyRaw hL hV h₁.addressed hopen.data op) ?_ ?_
  · rintro m' ⟨action, key, recordCid, data, written⟩ t₃ hop h₃ ⟨hlisted, hview, hnodes⟩
    have hfold : foldWrites m [op] = some m' := by simp [foldWrites, hop]
    refine Meets.finish (meets_signCommit hL hT h₃.addressed w _ _ _) ?_ fun _ _ h => by cases h
    rintro _ commitCid t₄ _ h₄ ⟨sig, b, hb, hdec⟩
    have hwritten : ∀ c ∈ (opened.written ++ written ++ [commitCid]).dedup,
        t₄.blocks.contains c = true := by
      intro c hc
      rcases List.mem_append.mp (List.mem_dedup.mp hc) with hc | hc
      · rcases List.mem_append.mp hc with hc | hc
        · exact (h₃.trans h₄).contains (hopen.written c hc)
        · exact h₄.contains (hnodes c hc)
      · exact List.mem_singleton.mp hc ▸ Table.contains_iff.mpr ⟨b, hb⟩
    refine Meets.finish (meets_readBlocks h₄.addressed _ hwritten) ?_ fun _ _ h => by cases h
    rintro _ blocks _ _ _ ⟨rfl, hblocks⟩
    obtain ⟨car, hcar⟩ := hT.car commitCid blocks
    show Solo ((Prog.ofExcept RepoError.repo (L.writeCar commitCid blocks)).bind _) _ _
    rw [hcar]
    refine solo_read hb ?_
    show Solo ((revOf _ b).bind _) _ _
    rw [revOf, hdec]
    show Solo ((sinceOf opened _).bind _) _ _
    have hprev := ((hopen.grown hV h₃).grown hV h₄).prev
    refine Meets.finish (meets_sinceOf h₄.addressed hprev _) ?_ fun _ _ h => by cases h
    rintro _ since _ _ _ rfl
    have hall := (h₁.trans h₃).trans h₄
    refine (solo_storeCommit hL hT hV hall rfl hb hdec (hV.mono _ _ _ _ h₄.blocks hview)
      hblocks).bind ?_ ?_
    · rintro body u ⟨seq, hok, hstep, haddr⟩
      obtain rfl := Except.ok.inj hok
      have hlist : [op].map WriteOp.listed = [⟨action, key, recordCid⟩] := by
        rw [List.map_cons, List.map_nil, ← hlisted]
      dsimp only
      split_ifs
      · refine solo_op rfl (.ret ⟨(BatchPost.of_stepped hfold hstep hlist.symm ?_).sent _, haddr⟩)
        rw [hlist]
        rfl
      · refine .ret ⟨BatchPost.of_stepped hfold hstep hlist.symm ?_, haddr⟩
        rw [hlist]
        rfl
    · rintro e u ⟨seq, hok, -⟩
      cases hok
  · intro e t₂ hop h₂
    refine ⟨BatchPost.of_error hV hm ?_ (h₁.trans h₂) e, h₂.addressed⟩
    simp [foldWrites, hop]

/-! ## The theorem -/

/-- Only the lock is given back. -/
theorem BatchPost.unlock {did : String} {t : RepoStore L} {ops : List (WriteOp L.Ipld)}
    {x : Except RepoError (List (WriteOutcome L.Cid) × CommitBody L.Cid L.Car)}
    {locks locks' : Table String Nat}
    (h : BatchPost view did { s with locks := locks } m ops x t) :
    BatchPost view did s m ops x { t with locks := locks' } := by
  unfold BatchPost at h ⊢
  split at h
  · obtain ⟨body, hstep, hrest⟩ := h
    exact ⟨body, ⟨hstep.root, hstep.map, hstep.others, hstep.row⟩, hrest⟩
  · exact h

theorem solo_locked {α : Type} {p : RepoProg L α} {did : String}
    {post post' : Except RepoError α → RepoStore L → Prop}
    (hfree : s.locks.contains did = false)
    (hp : Solo p { s with locks := s.locks.insert did 0 } post)
    (hpost : ∀ x t, post x t → post' x { t with locks := t.locks.remove did }) :
    Solo (.op (.lock did) fun _ => p.ensuring (.unlock did)) s post' := by
  refine solo_op (o := .lock did) (r := ()) (t := { s with locks := s.locks.insert did 0 }) ?_ ?_
  · simp [WriterOp.exec, hfree]
  · exact Prog.Ends.ensuring hp fun x t hx => ⟨(), _, rfl, hpost x t hx⟩

theorem solo_applyManyParts (hL : RepoLaws L) (hT : RepoTotal L) (hV : TreeLaws L view)
    (hs : WellAddressed s.blocks) (hfree : s.locks.contains w.did = false)
    (hm : mapOf view s w.did = some m) {ops : List (WriteOp L.Ipld)} (hne : ops ≠ [])
    (rnd : WriteDraw) :
    Solo (applyManyParts w ops rnd) s (BatchPost view w.did s m ops) := by
  unfold applyManyParts
  rw [if_neg (by simpa using hne)]
  exact solo_locked hfree
    (solo_applyManyLocked (s := { s with locks := s.locks.insert w.did 0 }) hL hT hV hs hm ops rnd)
    fun _ _ h => h.unlock

theorem solo_commitOp (hL : RepoLaws L) (hT : RepoTotal L) (hV : TreeLaws L view)
    (hs : WellAddressed s.blocks) (hfree : s.locks.contains w.did = false)
    (hm : mapOf view s w.did = some m) (op : WriteOp L.Ipld) (broadcast : Bool)
    (rnd : WriteDraw) :
    Solo (commitOp w op broadcast rnd) s fun x t =>
      BatchPost view w.did s m [op] (x.map fun a => ([a.1], a.2)) t
        ∧ WellAddressed t.blocks ∧ t.locks.contains w.did = false :=
  solo_locked hfree
    (solo_commitOpLocked (s := { s with locks := s.locks.insert w.did 0 }) hL hT hV hs hm op
      broadcast rnd)
    fun _ t h => ⟨BatchPost.unlock h.1, h.2, t.locks.contains_remove_self w.did⟩

theorem solo_applyOneParts (hL : RepoLaws L) (hT : RepoTotal L) (hV : TreeLaws L view)
    (hs : WellAddressed s.blocks) (hfree : s.locks.contains w.did = false)
    (hm : mapOf view s w.did = some m) (op : WriteOp L.Ipld) (rnd : WriteDraw) :
    Solo (applyOneParts w op rnd) s fun x t =>
      BatchPost view w.did s m [op] (x.map fun a => ([a.1], a.2)) t :=
  (solo_commitOp hL hT hV hs hfree hm op false rnd).mono fun _ _ h => h.1

/-- The two ways to write one record agree: on success, on the map that
is left, and on the listed operations. -/
def Agree (view : TreeView L) (did : String)
    (x : Except RepoError (List (WriteOutcome L.Cid) × CommitBody L.Cid L.Car)) (t : RepoStore L)
    (y : Except RepoError (WriteOutcome L.Cid × CommitBody L.Cid L.Car)) (u : RepoStore L) :
    Prop :=
  ((∃ a, x = .ok a) ↔ ∃ b, y = .ok b) ∧ mapOf view t did = mapOf view u did
    ∧ ∀ a b, x = .ok a → y = .ok b → a.2.ops = b.2.ops

theorem BatchPost.agree {did : String} {t u : RepoStore L} {op : WriteOp L.Ipld}
    {x : Except RepoError (List (WriteOutcome L.Cid) × CommitBody L.Cid L.Car)}
    {y : Except RepoError (WriteOutcome L.Cid × CommitBody L.Cid L.Car)}
    (hx : BatchPost view did s m [op] x t)
    (hy : BatchPost view did s m [op] (y.map fun a => ([a.1], a.2)) u) :
    Agree view did x t y u := by
  unfold BatchPost at hx hy
  split at hx
  · rename_i m' hfold
    rw [hfold] at hy
    obtain ⟨body, hstep, hops, rfl⟩ := hx
    obtain ⟨body', hstep', hops', hy'⟩ := hy
    cases y with
    | error e => cases hy'
    | ok b =>
        have hbody : b.2 = body' := congrArg Prod.snd (Except.ok.inj hy')
        refine ⟨⟨fun _ => ⟨b, rfl⟩, fun _ => ⟨_, rfl⟩⟩, hstep.map.trans hstep'.map.symm, ?_⟩
        intro a b₁ ha hb
        obtain rfl := Except.ok.inj ha
        obtain rfl := Except.ok.inj hb
        rw [hbody, hops']
        exact hops
  · rename_i hfold
    rw [hfold] at hy
    obtain ⟨⟨e, rfl⟩, -, -, hmap⟩ := hx
    obtain ⟨⟨e', hy'⟩, -, -, hmap'⟩ := hy
    refine ⟨⟨?_, ?_⟩, hmap.trans hmap'.symm, ?_⟩
    · rintro ⟨a, ha⟩
      cases ha
    · rintro ⟨b, rfl⟩
      cases hy'
    · intro a b ha
      cases ha

/-- Every batch, on every repository: it succeeds exactly when the writes
fold over the map, and is then one step to the folded map with one event;
otherwise roots and log stay. A batch of one agrees with the single write. -/
theorem batch_is_one_step (hL : RepoLaws L) (hT : RepoTotal L) (hV : TreeLaws L view)
    (hs : WellAddressed s.blocks) (hfree : s.locks.contains w.did = false)
    (hm : mapOf view s w.did = some m) {ops : List (WriteOp L.Ipld)} (hne : ops ≠ [])
    (rnd rnd' : WriteDraw) :
    ∃ x t, (applyManyParts w ops rnd).alone (S := writerSig L) soloExec s = some (x, t)
      ∧ BatchPost view w.did s m ops x t
      ∧ ∀ op, ops = [op] → ∃ y u,
          (applyOneParts w op rnd').alone (S := writerSig L) soloExec s = some (y, u)
            ∧ Agree view w.did x t y u := by
  obtain ⟨x, t, hrun, hx⟩ := solo_applyManyParts hL hT hV hs hfree hm hne rnd
  refine ⟨x, t, hrun, hx, ?_⟩
  rintro op rfl
  obtain ⟨y, u, hrun', hy⟩ := solo_applyOneParts hL hT hV hs hfree hm op rnd'
  exact ⟨y, u, hrun', hx.agree hy⟩

end

end

def sampleWriter : RepoWriter sampleRepo := ⟨"did:plc:alice", ()⟩

def sampleDraw : WriteDraw := ⟨"3kaaaaaaaaa22", "3kaaaaaaaab22", "2026-06-17T00:00:00Z"⟩

/-- The second write changes the record the first one created. -/
def sampleBatch : List (WriteOp sampleRepo.Ipld) :=
  [.create "app.bsky.feed.post/1" (7 : Nat), .update "app.bsky.feed.post/1" (8 : Nat),
    .create "app.bsky.feed.post/2" (7 : Nat)]

theorem batch_is_one_step_sample :
    (foldWrites (L := sampleRepo) (fun _ => none) sampleBatch).isSome = true
    ∧ ∃ x t, (applyManyParts sampleWriter sampleBatch sampleDraw).alone
          (S := writerSig sampleRepo) soloExec (RepoStore.empty sampleRepo) = some (x, t)
        ∧ BatchPost sampleView "did:plc:alice" (RepoStore.empty sampleRepo) (fun _ => none)
          sampleBatch x t := by
  obtain ⟨x, t, hrun, hx, -⟩ := batch_is_one_step (s := RepoStore.empty sampleRepo)
    (w := sampleWriter) (m := fun _ => none) sampleRepo_laws sampleRepo_total sampleRepo_treeLaws
    wellAddressed_empty rfl rfl (List.cons_ne_nil _ _ : sampleBatch ≠ []) sampleDraw sampleDraw
  exact ⟨by decide, x, t, hrun, hx⟩

end Stelyph
