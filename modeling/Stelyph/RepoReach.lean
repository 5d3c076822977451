import Stelyph.RepoBlocks

/-!
# What a root reaches

The nodes of a tree, the records they point to, and the commits before a
commit, all by following links through a block table. `TreeClosed` says
that a tree is complete in the table; a complete tree is not changed by
blocks that are added.

What the library does with links is `LinkLaws`: a tree operation writes
every node of the new tree that the old one does not have, and a node it
writes points to records of the old tree or to the one it puts in.
-/

namespace Stelyph

/-- The subtrees and the records a tree node points to, which is what a
block has to be closed under. -/
structure TreeLinks (L : RepoLib) where
  children : L.Block → List L.Cid
  leaves : L.Block → List L.Cid

section

variable {L : RepoLib} (K : TreeLinks L)

/-- The nodes of the tree at `root`. -/
inductive NodeIn (f : L.Cid → Option L.Block) (root : L.Cid) : L.Cid → Prop where
  | root : NodeIn f root root
  | child {n c : L.Cid} {b : L.Block} (hn : NodeIn f root n) (hb : f n = some b)
      (hc : c ∈ K.children b) : NodeIn f root c

/-- The records the tree at `root` points to. -/
def RecordIn (f : L.Cid → Option L.Block) (root r : L.Cid) : Prop :=
  ∃ n b, NodeIn K f root n ∧ f n = some b ∧ r ∈ K.leaves b

/-- A commit of the history: the root, and what the `prev` of one before leads to. -/
inductive CommitIn (f : L.Cid → Option L.Block) (root : L.Cid) : L.Cid → Prop where
  | root : CommitIn f root root
  | prev {c p : L.Cid} {cm : SignedCommit L.Cid} (hc : CommitIn f root c)
      (hcm : commitAt f c = some cm) (hp : cm.prev = some p) : CommitIn f root p

/-- What a commit reaches without following `prev`: itself, the nodes of
its tree, and the records. -/
def ReachedBy (f : L.Cid → Option L.Block) (commit c : L.Cid) : Prop :=
  c = commit ∨ ∃ cm, commitAt f commit = some cm
    ∧ (NodeIn K f cm.data c ∨ RecordIn K f cm.data c)

/-- Every node and every record of the tree is in the table. -/
def TreeClosed (f : L.Cid → Option L.Block) (root : L.Cid) : Prop :=
  ∀ c, NodeIn K f root c → ∃ b, f c = some b ∧ ∀ r ∈ K.leaves b, (f r).isSome = true

/-- The record an operation puts into the tree. -/
def TreeOp.inserted : TreeOp L.Cid → List L.Cid
  | .add _ cid | .update _ cid => [cid]
  | .delete _ => []

/-- A new tree is made of the nodes that were written and of the old
tree's, and refers to the old records and to the new one. -/
structure LinkLaws : Prop where
  empty_children : K.children L.emptyNode = []
  empty_leaves : K.leaves L.emptyNode = []
  nodes : ∀ f root op root' ns g, TreeClosed K f root → L.tree f root op = .ok (root', ns) →
    BlocksLe f g → (∀ n ∈ ns, g (L.cidOf n) = some n) →
    ∀ c, NodeIn K g root' c → NodeIn K f root c ∨ ∃ n ∈ ns, L.cidOf n = c
  leaves : ∀ f root op root' ns, TreeClosed K f root → L.tree f root op = .ok (root', ns) →
    ∀ n ∈ ns, ∀ r ∈ K.leaves n, RecordIn K f root r ∨ r ∈ op.inserted

variable {K} {f g h : L.Cid → Option L.Block} {root root' root'' : L.Cid}

/-! ## Adding blocks to a complete tree -/

theorem NodeIn.mono (hle : BlocksLe f g) {c : L.Cid} (h : NodeIn K f root c) :
    NodeIn K g root c := by
  induction h with
  | root => exact .root
  | child _ hb hc ih => exact .child ih (hle _ _ hb) hc

theorem NodeIn.of_le (hle : BlocksLe f g) (hclosed : TreeClosed K f root) {c : L.Cid}
    (h : NodeIn K g root c) : NodeIn K f root c := by
  induction h with
  | root => exact .root
  | child _ hb hc ih =>
      obtain ⟨b', hb', -⟩ := hclosed _ ih
      obtain rfl := Option.some.inj ((hle _ _ hb').symm.trans hb)
      exact .child ih hb' hc

theorem RecordIn.of_le (hle : BlocksLe f g) (hclosed : TreeClosed K f root) {r : L.Cid}
    (h : RecordIn K g root r) : RecordIn K f root r := by
  obtain ⟨n, b, hn, hb, hr⟩ := h
  have hn' := hn.of_le hle hclosed
  obtain ⟨b', hb', -⟩ := hclosed n hn'
  obtain rfl := Option.some.inj ((hle _ _ hb').symm.trans hb)
  exact ⟨n, b', hn', hb', hr⟩

theorem TreeClosed.mono (hclosed : TreeClosed K f root) (hle : BlocksLe f g) :
    TreeClosed K g root := by
  intro c hc
  obtain ⟨b, hb, hleaves⟩ := hclosed c (hc.of_le hle hclosed)
  refine ⟨b, hle c b hb, fun r hr => ?_⟩
  obtain ⟨rec, hrec⟩ := Option.isSome_iff_exists.mp (hleaves r hr)
  exact Option.isSome_iff_exists.mpr ⟨rec, hle r rec hrec⟩

theorem TreeClosed.isSome_of_recordIn (hclosed : TreeClosed K f root) {r : L.Cid}
    (h : RecordIn K f root r) : (f r).isSome = true := by
  obtain ⟨n, b, hn, hb, hr⟩ := h
  obtain ⟨b', hb', hleaves⟩ := hclosed n hn
  obtain rfl := Option.some.inj (hb'.symm.trans hb)
  exact hleaves r hr

theorem treeClosed_empty (hK : LinkLaws K) (hf : f (L.cidOf L.emptyNode) = some L.emptyNode) :
    TreeClosed K f (L.cidOf L.emptyNode) := by
  intro c hc
  have heq : c = L.cidOf L.emptyNode := by
    induction hc with
    | root => rfl
    | child _ hb hc ih =>
        subst ih
        obtain rfl := Option.some.inj (hf.symm.trans hb)
        rw [hK.empty_children] at hc
        cases hc
  subst heq
  refine ⟨_, hf, fun r hr => ?_⟩
  rw [hK.empty_leaves] at hr
  cases hr

/-! ## From one tree to the next -/

/-- The new tree is complete, and all it has that the old one did not
have is listed. -/
structure Moved (K : TreeLinks L) (f : L.Cid → Option L.Block) (root : L.Cid)
    (g : L.Cid → Option L.Block) (root' : L.Cid) (new : List L.Cid) : Prop where
  closed : TreeClosed K g root'
  nodes : ∀ c, NodeIn K g root' c → NodeIn K f root c ∨ c ∈ new
  records : ∀ r, RecordIn K g root' r → RecordIn K f root r ∨ r ∈ new

theorem Moved.refl (hclosed : TreeClosed K f root) (hle : BlocksLe f g) :
    Moved K f root g root [] where
  closed := hclosed.mono hle
  nodes _ hc := Or.inl (hc.of_le hle hclosed)
  records _ hr := Or.inl (hr.of_le hle hclosed)

theorem Moved.mono {new : List L.Cid} (hm : Moved K f root g root' new) (hle : BlocksLe g h) :
    Moved K f root h root' new where
  closed := hm.closed.mono hle
  nodes c hc := hm.nodes c (hc.of_le hle hm.closed)
  records r hr := hm.records r (hr.of_le hle hm.closed)

theorem Moved.weaken {new new' : List L.Cid} (hm : Moved K f root g root' new)
    (hsub : ∀ c ∈ new, c ∈ new') : Moved K f root g root' new' where
  closed := hm.closed
  nodes c hc := (hm.nodes c hc).imp_right (hsub c)
  records r hr := (hm.records r hr).imp_right (hsub r)

/-- The old tree, seen in a table with more blocks. -/
theorem Moved.rebase {new : List L.Cid} (hm : Moved K f root g root' new) (hle : BlocksLe f h) :
    Moved K h root g root' new where
  closed := hm.closed
  nodes c hc := (hm.nodes c hc).imp_left fun hold => hold.mono hle
  records r hr := (hm.records r hr).imp_left fun ⟨n, b, hn, hb, hin⟩ =>
    ⟨n, b, hn.mono hle, hle n b hb, hin⟩

theorem Moved.trans {new new' : List L.Cid} (hm : Moved K f root g root' new)
    (hm' : Moved K g root' h root'' new') : Moved K f root h root'' (new ++ new') where
  closed := hm'.closed
  nodes c hc := by
    rcases hm'.nodes c hc with hc | hc
    · exact (hm.nodes c hc).imp_right (List.mem_append_left _)
    · exact Or.inr (List.mem_append_right _ hc)
  records r hr := by
    rcases hm'.records r hr with hr | hr
    · exact (hm.records r hr).imp_right (List.mem_append_left _)
    · exact Or.inr (List.mem_append_right _ hr)

/-- One operation on a complete tree leaves a complete tree, if the record
it puts in is there. -/
theorem moved_tree (hK : LinkLaws K) (hclosed : TreeClosed K f root) {op : TreeOp L.Cid}
    {ns : List L.Block} (htree : L.tree f root op = .ok (root', ns)) (hle : BlocksLe f g)
    (hns : ∀ n ∈ ns, g (L.cidOf n) = some n)
    (hrec : ∀ r ∈ op.inserted, (g r).isSome = true) :
    Moved K f root g root' (ns.map L.cidOf ++ op.inserted) := by
  have hnode : ∀ c, NodeIn K g root' c → NodeIn K f root c ∨ ∃ n ∈ ns, L.cidOf n = c :=
    hK.nodes f root op root' ns g hclosed htree hle hns
  have hleaf : ∀ c b, NodeIn K g root' c → g c = some b → ∀ r ∈ K.leaves b,
      RecordIn K f root r ∨ r ∈ op.inserted := by
    intro c b hc hb r hr
    rcases hnode c hc with hold | ⟨n, hn, rfl⟩
    · obtain ⟨b', hb', -⟩ := hclosed c hold
      obtain rfl := Option.some.inj ((hle _ _ hb').symm.trans hb)
      exact Or.inl ⟨c, b', hold, hb', hr⟩
    · obtain rfl := Option.some.inj ((hns n hn).symm.trans hb)
      exact hK.leaves f root op root' ns hclosed htree n hn r hr
  refine ⟨fun c hc => ?_, fun c hc => ?_, fun r hr => ?_⟩
  · have hb : ∃ b, g c = some b := by
      rcases hnode c hc with hold | ⟨n, hn, rfl⟩
      · obtain ⟨b, hb, -⟩ := hclosed c hold
        exact ⟨b, hle c b hb⟩
      · exact ⟨n, hns n hn⟩
    obtain ⟨b, hb⟩ := hb
    refine ⟨b, hb, fun r hr => ?_⟩
    rcases hleaf c b hc hb r hr with hold | hin
    · obtain ⟨rec, hrec'⟩ := Option.isSome_iff_exists.mp (hclosed.isSome_of_recordIn hold)
      exact Option.isSome_iff_exists.mpr ⟨rec, hle r rec hrec'⟩
    · exact hrec r hin
  · rcases hnode c hc with hold | ⟨n, hn, rfl⟩
    · exact Or.inl hold
    · exact Or.inr (List.mem_append_left _ (List.mem_map_of_mem hn))
  · obtain ⟨c, b, hc, hb, hin⟩ := hr
    exact (hleaf c b hc hb r hin).imp_right (List.mem_append_right _)

end

/-! ## The small library -/

namespace SampleBlock

def records : SampleBlock → List SampleBlock
  | .entry _ cid rest => cid :: records rest
  | _ => []

theorem mem_records_of_erase {key : String} {b r : SampleBlock} (h : r ∈ records (erase key b)) :
    r ∈ records b := by
  induction b with
  | entry k c rest _ ih =>
      rw [erase] at h
      split at h
      · exact List.mem_cons_of_mem _ (ih h)
      · rcases List.mem_cons.mp h with rfl | h
        · exact List.mem_cons_self
        · exact List.mem_cons_of_mem _ (ih h)
  | _ => exact h

/-- An operation writes one node, the new root. -/
theorem tree_ok {f : SampleBlock → Option SampleBlock} {root root' : SampleBlock}
    {op : TreeOp SampleBlock} {ns : List SampleBlock} (h : tree f root op = .ok (root', ns)) :
    ns = [root'] ∧ ∃ node, f root = some node
      ∧ ∀ r ∈ records root', r ∈ records node ∨ r ∈ TreeOp.inserted (L := sampleRepo) op := by
  cases op with
  | add key cid =>
      simp only [tree] at h
      split at h
      · cases h
      · rename_i node hnode
        split at h
        · cases h
        · obtain ⟨rfl, rfl⟩ := Prod.mk.injEq .. |>.mp (Except.ok.inj h)
          refine ⟨rfl, node, hnode, fun r hr => ?_⟩
          rcases List.mem_cons.mp hr with rfl | hr
          · exact Or.inr (List.mem_singleton_self _)
          · exact Or.inl hr
  | update key cid =>
      simp only [tree] at h
      split at h
      · cases h
      · rename_i node hnode
        split at h
        · obtain ⟨rfl, rfl⟩ := Prod.mk.injEq .. |>.mp (Except.ok.inj h)
          refine ⟨rfl, node, hnode, fun r hr => ?_⟩
          rcases List.mem_cons.mp hr with rfl | hr
          · exact Or.inr (List.mem_singleton_self _)
          · exact Or.inl hr
        · cases h
  | delete key =>
      simp only [tree] at h
      split at h
      · cases h
      · rename_i node hnode
        split at h
        · obtain ⟨rfl, rfl⟩ := Prod.mk.injEq .. |>.mp (Except.ok.inj h)
          exact ⟨rfl, node, hnode, fun r hr => Or.inl (mem_records_of_erase hr)⟩
        · cases h

end SampleBlock

/-- A tree is one node with all its entries. -/
def sampleLinks : TreeLinks sampleRepo where
  children _ := []
  leaves := SampleBlock.records

theorem sampleLinks_nodeIn {f : sampleRepo.Cid → Option sampleRepo.Block}
    {root c : sampleRepo.Cid}
    (h : NodeIn sampleLinks f root c) : c = root := by
  cases h with
  | root => rfl
  | child _ _ hc => cases hc

theorem sampleRepo_linkLaws : LinkLaws sampleLinks where
  empty_children := rfl
  empty_leaves := rfl
  nodes f root op root' ns g _ htree _ _ c hc := by
    obtain ⟨rfl, -⟩ := SampleBlock.tree_ok htree
    rw [sampleLinks_nodeIn hc]
    exact Or.inr ⟨root', List.mem_singleton_self _, rfl⟩
  leaves f root op root' ns _ htree n hn r hr := by
    obtain ⟨rfl, node, hnode, hrec⟩ := SampleBlock.tree_ok htree
    rw [List.mem_singleton.mp hn] at hr
    rcases hrec r hr with hold | hin
    · exact Or.inl ⟨root, node, .root, hnode, hold⟩
    · exact Or.inr hin

end Stelyph
