import Stelyph.RepoWriter

/-!
# Blocks and the maps they hold

What the proofs about the writer assume of the library (`RepoLaws`,
`TreeLaws`), and what the block table gives in return: every block sits
under its own CID, and blocks are only ever added, so what a CID says is
said once and for all.

A tree is a map: `TreeLaws` says that the library's tree at a root holds
a map from keys to record CIDs that only depends on blocks already
there, and that its operations act on that map and fail where the map
has the key already, or does not have it.
-/

namespace Stelyph

/-- What the code relies on in hash and codecs: the hash is injective, and
what was encoded is decoded again. -/
structure RepoLaws (L : RepoLib) : Prop where
  cid_injective : ∀ b b', L.cidOf b = L.cidOf b' → b = b'
  decode_commit : ∀ c b, L.encodeSigned c = .ok b → L.decodeCommit b = .ok c
  decode_body : ∀ b e, L.encodeBody b = .ok e → L.decodeBody e = .ok b

/-- The encoders of commits and events, the signature and the CAR writer
have no inputs they fail on. -/
structure RepoTotal (L : RepoLib) : Prop where
  unsigned : ∀ u, ∃ b, L.encodeUnsigned u = .ok b
  sign : ∀ k b, ∃ sig, L.sign k b = .ok sig
  signed : ∀ c, ∃ b, L.encodeSigned c = .ok b
  car : ∀ c bs, ∃ car, L.writeCar c bs = .ok car
  body : ∀ b, ∃ e, L.encodeBody b = .ok e

/-! ## Trees as maps -/

/-- What a repository is for its users: a CID under each of some keys. -/
abbrev RecordMap (L : RepoLib) := String → Option L.Cid

/-- What a tree operation does to the map: `none` where it must fail. -/
def TreeOp.onMap {L : RepoLib} (m : RecordMap L) : TreeOp L.Cid → Option (RecordMap L)
  | .add key cid => if (m key).isSome then none else some (Function.update m key (some cid))
  | .update key cid => if (m key).isSome then some (Function.update m key (some cid)) else none
  | .delete key => if (m key).isSome then some (Function.update m key none) else none

/-- The blocks that `f` finds, `g` finds too. -/
def BlocksLe {L : RepoLib} (f g : L.Cid → Option L.Block) : Prop :=
  ∀ c b, f c = some b → g c = some b

/-- A view of the tree at a root as a map. The tree itself is another
crate's, and all that is asked of it is said by its view. -/
abbrev TreeView (L : RepoLib) := (L.Cid → Option L.Block) → L.Cid → Option (RecordMap L)

/-- The tree does to its view what the operation says, and fails where
that is not defined. It reads blocks only, so more of them change nothing.
-/
structure TreeLaws (L : RepoLib) (view : TreeView L) : Prop where
  mono : ∀ f g root m, BlocksLe f g → view f root = some m → view g root = some m
  empty : ∀ f, f (L.cidOf L.emptyNode) = some L.emptyNode →
    view f (L.cidOf L.emptyNode) = some fun _ => none
  tree_error : ∀ f root m op, view f root = some m → op.onMap m = none →
    ∃ e, L.tree f root op = .error e
  tree_ok : ∀ f root m op m', view f root = some m → op.onMap m = some m' →
    ∃ root' nodes, L.tree f root op = .ok (root', nodes)
      ∧ ∀ g, BlocksLe f g → (∀ n ∈ nodes, g (L.cidOf n) = some n) → view g root' = some m'

section

variable {L : RepoLib}

/-! ## The block table -/

/-- Every block sits under its own CID, so that two stores agree on a CID
wherever both have it. -/
def WellAddressed (t : Table L.Cid L.Block) : Prop :=
  ∀ c b, t.get c = some b → L.cidOf b = c

theorem BlocksLe.refl (f : L.Cid → Option L.Block) : BlocksLe f f := fun _ _ h => h

theorem BlocksLe.trans {f g h : L.Cid → Option L.Block} (hfg : BlocksLe f g)
    (hgh : BlocksLe g h) : BlocksLe f h := fun c b hb => hgh c b (hfg c b hb)

theorem wellAddressed_empty : WellAddressed (.empty : Table L.Cid L.Block) := by
  intro c b h
  cases h

theorem blocksLe_insertOrIgnore (t : Table L.Cid L.Block) (c : L.Cid) (b : L.Block) :
    BlocksLe t.get (t.insertOrIgnore c b).get :=
  fun _ _ h => Table.get_insertOrIgnore_of_get h

theorem WellAddressed.insertOrIgnore {t : Table L.Cid L.Block} (h : WellAddressed t)
    {c : L.Cid} {b : L.Block} (hc : L.cidOf b = c) : WellAddressed (t.insertOrIgnore c b) := by
  intro c' b' hb'
  rcases Table.get_insertOrIgnore_cases hb' with hold | ⟨rfl, rfl⟩
  · exact h c' b' hold
  · exact hc

/-- In a well-addressed table a CID that is there has its block. -/
theorem WellAddressed.get_of_contains (hL : RepoLaws L) {t : Table L.Cid L.Block}
    (h : WellAddressed t) {b : L.Block} (hb : t.contains (L.cidOf b) = true) :
    t.get (L.cidOf b) = some b := by
  obtain ⟨b', hb'⟩ := Table.contains_iff.mp hb
  rw [hb', hL.cid_injective b' b (h _ _ hb')]

theorem get_putBlock (hL : RepoLaws L) {t : Table L.Cid L.Block} (h : WellAddressed t)
    (b : L.Block) : (putBlock t b).get (L.cidOf b) = some b :=
  (h.insertOrIgnore rfl).get_of_contains hL (Table.contains_insertOrIgnore_self t _ b)

theorem blocksLe_putBlocks (t : Table L.Cid L.Block) (bs : List L.Block) :
    BlocksLe t.get (putBlocks t bs).get := by
  induction bs generalizing t with
  | nil => exact BlocksLe.refl _
  | cons b bs ih => exact (blocksLe_insertOrIgnore t _ b).trans (ih (putBlock t b))

theorem WellAddressed.putBlocks {t : Table L.Cid L.Block} (h : WellAddressed t)
    (bs : List L.Block) : WellAddressed (putBlocks t bs) := by
  induction bs generalizing t with
  | nil => exact h
  | cons b bs ih => exact ih (h.insertOrIgnore rfl)

theorem get_putBlocks (hL : RepoLaws L) {t : Table L.Cid L.Block} (h : WellAddressed t)
    {bs : List L.Block} {b : L.Block} (hb : b ∈ bs) :
    (putBlocks t bs).get (L.cidOf b) = some b := by
  induction bs generalizing t with
  | nil => cases hb
  | cons b' bs ih =>
      rcases List.mem_cons.mp hb with rfl | hb
      · exact blocksLe_putBlocks _ bs _ _ (get_putBlock hL h b)
      · exact ih (h.insertOrIgnore rfl) hb

theorem blocksLe_commitBlocks (s : RepoStore L) (blocks : List (L.Cid × L.Block))
    (did : String) (root : L.Cid) (event : L.Event) :
    BlocksLe s.blocks.get (s.commitBlocks blocks did root event).blocks.get := by
  have h : ∀ (bs : List (L.Cid × L.Block)) (t : Table L.Cid L.Block),
      BlocksLe t.get (bs.foldl (fun t b => t.insertOrIgnore b.1 b.2) t).get := by
    intro bs
    induction bs with
    | nil => exact fun t => BlocksLe.refl _
    | cons b bs ih => exact fun t => (blocksLe_insertOrIgnore t _ _).trans (ih _)
  exact h blocks s.blocks

theorem wellAddressed_commitBlocks {s : RepoStore L} (hs : WellAddressed s.blocks)
    {blocks : List (L.Cid × L.Block)} (hb : ∀ x ∈ blocks, L.cidOf x.2 = x.1)
    (did : String) (root : L.Cid) (event : L.Event) :
    WellAddressed (s.commitBlocks blocks did root event).blocks := by
  have h : ∀ (bs : List (L.Cid × L.Block)) (t : Table L.Cid L.Block), WellAddressed t →
      (∀ x ∈ bs, L.cidOf x.2 = x.1) →
      WellAddressed (bs.foldl (fun t b => t.insertOrIgnore b.1 b.2) t) := by
    intro bs
    induction bs with
    | nil => exact fun t ht _ => ht
    | cons b bs ih =>
        exact fun t ht hbs => ih _ (ht.insertOrIgnore (hbs b List.mem_cons_self))
          fun x hx => hbs x (List.mem_cons_of_mem b hx)
  exact h blocks s.blocks hs hb

/-- All that happened is that blocks were added. -/
structure Grown (s s' : RepoStore L) : Prop where
  blocks : BlocksLe s.blocks.get s'.blocks.get
  addressed : WellAddressed s'.blocks
  roots : s'.roots = s.roots
  rows : s'.rows = s.rows
  lastSeq : s'.lastSeq = s.lastSeq
  locks : s'.locks = s.locks

theorem Grown.refl {s : RepoStore L} (h : WellAddressed s.blocks) : Grown s s :=
  ⟨BlocksLe.refl _, h, rfl, rfl, rfl, rfl⟩

theorem Grown.trans {s t u : RepoStore L} (h : Grown s t) (h' : Grown t u) : Grown s u :=
  ⟨h.blocks.trans h'.blocks, h'.addressed, h'.roots.trans h.roots, h'.rows.trans h.rows,
    h'.lastSeq.trans h.lastSeq, h'.locks.trans h.locks⟩

theorem Grown.contains {s t : RepoStore L} (h : Grown s t) {c : L.Cid}
    (hc : s.blocks.contains c = true) : t.blocks.contains c = true := by
  obtain ⟨b, hb⟩ := Table.contains_iff.mp hc
  exact Table.contains_iff.mpr ⟨b, h.blocks c b hb⟩

/-- The commit stored under a CID. -/
def commitAt (f : L.Cid → Option L.Block) (c : L.Cid) : Option (SignedCommit L.Cid) :=
  (f c).bind fun b => (L.decodeCommit b).toOption

theorem commitAt_mono {f g : L.Cid → Option L.Block} (h : BlocksLe f g) {c : L.Cid}
    {cm : SignedCommit L.Cid} (hc : commitAt f c = some cm) : commitAt g c = some cm := by
  obtain ⟨b, hb, hdec⟩ := Option.bind_eq_some_iff.mp hc
  exact Option.bind_eq_some_iff.mpr ⟨b, h c b hb, hdec⟩

theorem commitAt_of_decode {f : L.Cid → Option L.Block} {c : L.Cid} {b : L.Block}
    {cm : SignedCommit L.Cid} (hb : f c = some b) (hdec : L.decodeCommit b = .ok cm) :
    commitAt f c = some cm := by
  rw [commitAt, hb, Option.bind_some, hdec]
  rfl

end

/-! ## A small library

CIDs are the blocks themselves, and a tree is one node with the list of
its entries. -/

inductive SampleBlock where
  | record (n : Nat)
  | leaf
  | entry (key : String) (cid rest : SampleBlock)
  | first (did : String) (version : Nat) (data : SampleBlock) (rev : String) (sig : Bytes)
  | next (did : String) (version : Nat) (data : SampleBlock) (rev : String) (prev : SampleBlock)
      (sig : Bytes)
deriving DecidableEq, Repr

namespace SampleBlock

def lookup (key : String) : SampleBlock → Option SampleBlock
  | .entry k c rest => if key = k then some c else lookup key rest
  | _ => none

def erase (key : String) : SampleBlock → SampleBlock
  | .entry k c rest => if key = k then erase key rest else .entry k c (erase key rest)
  | b => b

theorem lookup_erase (key k : String) (b : SampleBlock) :
    lookup k (erase key b) = if k = key then none else lookup k b := by
  induction b with
  | entry k' c rest _ ih =>
      simp only [erase]
      split
      · rename_i hk
        rw [ih]
        simp only [lookup]
        split
        · rfl
        · rename_i hne
          rw [if_neg (hk ▸ hne)]
      · rename_i hk
        simp only [lookup, ih]
        split
        · rename_i hk'
          rw [if_neg (hk' ▸ Ne.symm hk)]
        · rfl
  | _ => simp [erase, lookup]

theorem lookup_entry_eq (key : String) (cid node : SampleBlock) :
    (fun k => lookup k (.entry key cid node))
      = Function.update (fun k => lookup k node) key (some cid) := by
  funext k
  simp [lookup, Function.update_apply]

theorem lookup_erase_eq (key : String) (node : SampleBlock) :
    (fun k => lookup k (erase key node)) = Function.update (fun k => lookup k node) key none := by
  funext k
  simp [lookup_erase, Function.update_apply]

def tree (f : SampleBlock → Option SampleBlock) (root : SampleBlock) :
    TreeOp SampleBlock → Except String (SampleBlock × List SampleBlock)
  | .add key cid =>
      match f root with
      | none => .error "CidNotFound"
      | some node =>
          if (lookup key node).isSome then .error "KeyAlreadyExists"
          else .ok (.entry key cid node, [.entry key cid node])
  | .update key cid =>
      match f root with
      | none => .error "CidNotFound"
      | some node =>
          if (lookup key node).isSome then .ok (.entry key cid node, [.entry key cid node])
          else .error "KeyNotFound"
  | .delete key =>
      match f root with
      | none => .error "CidNotFound"
      | some node =>
          if (lookup key node).isSome then .ok (erase key node, [erase key node])
          else .error "KeyNotFound"

end SampleBlock

def sampleRepo : RepoLib where
  Cid := SampleBlock
  Ipld := Nat
  Block := SampleBlock
  Car := SampleBlock × List (SampleBlock × SampleBlock)
  Event := CommitBody SampleBlock (SampleBlock × List (SampleBlock × SampleBlock))
  Frame := CommitBody SampleBlock (SampleBlock × List (SampleBlock × SampleBlock))
  Key := Unit
  cidOf b := b
  encodeRecord n := .ok (.record n)
  encodeUnsigned _ := .ok []
  encodeSigned c := .ok (match c.prev with
    | none => .first c.did c.version c.data c.rev c.sig
    | some p => .next c.did c.version c.data c.rev p c.sig)
  decodeCommit
    | .first did version data rev sig => .ok ⟨⟨did, version, data, rev, none⟩, sig⟩
    | .next did version data rev prev sig => .ok ⟨⟨did, version, data, rev, some prev⟩, sig⟩
    | _ => .error "not a commit"
  sign _ _ := .ok []
  emptyNode := .leaf
  tree := SampleBlock.tree
  writeCar root blocks := .ok (root, blocks)
  encodeBody b := .ok b
  decodeBody b := .ok b
  encodeFrame b := b

theorem sampleRepo_laws : RepoLaws sampleRepo where
  cid_injective _ _ h := h
  decode_commit := by
    rintro ⟨⟨did, version, data, rev, prev⟩, sig⟩ b h
    obtain rfl := Except.ok.inj h
    cases prev <;> rfl
  decode_body b e h := by
    obtain rfl := Except.ok.inj h
    rfl

theorem sampleRepo_total : RepoTotal sampleRepo where
  unsigned _ := ⟨_, rfl⟩
  sign _ _ := ⟨_, rfl⟩
  signed _ := ⟨_, rfl⟩
  car _ _ := ⟨_, rfl⟩
  body _ := ⟨_, rfl⟩

def sampleView : TreeView sampleRepo := fun f root =>
  (f root).map fun node key => SampleBlock.lookup key node

theorem sampleRepo_treeLaws : TreeLaws sampleRepo sampleView where
  mono f g root m hle h := by
    obtain ⟨node, hnode, rfl⟩ := Option.map_eq_some_iff.mp h
    exact Option.map_eq_some_iff.mpr ⟨node, hle root node hnode, rfl⟩
  empty f h := Option.map_eq_some_iff.mpr ⟨_, h, rfl⟩
  tree_error f root m op hview hop := by
    obtain ⟨node, hnode, rfl⟩ := Option.map_eq_some_iff.mp hview
    cases op with
    | add key cid =>
        simp only [TreeOp.onMap, ite_eq_left_iff, reduceCtorEq, imp_false, not_not] at hop
        refine ⟨"KeyAlreadyExists", ?_⟩
        simp only [sampleRepo, SampleBlock.tree, hnode]
        exact if_pos hop
    | update key cid =>
        simp only [TreeOp.onMap, ite_eq_right_iff, reduceCtorEq, imp_false] at hop
        refine ⟨"KeyNotFound", ?_⟩
        simp only [sampleRepo, SampleBlock.tree, hnode]
        exact if_neg hop
    | delete key =>
        simp only [TreeOp.onMap, ite_eq_right_iff, reduceCtorEq, imp_false] at hop
        refine ⟨"KeyNotFound", ?_⟩
        simp only [sampleRepo, SampleBlock.tree, hnode]
        exact if_neg hop
  tree_ok f root m op m' hview hop := by
    obtain ⟨node, hnode, rfl⟩ := Option.map_eq_some_iff.mp hview
    have hview' : ∀ (g : SampleBlock → Option SampleBlock) (b : SampleBlock),
        (∀ n ∈ [b], g n = some n) → sampleView g b = some fun key => SampleBlock.lookup key b :=
      fun g b hg => Option.map_eq_some_iff.mpr ⟨b, hg b List.mem_cons_self, rfl⟩
    cases op with
    | add key cid =>
        simp only [TreeOp.onMap, Option.ite_none_left_eq_some] at hop
        refine ⟨.entry key cid node, [.entry key cid node], ?_, fun g _ hg => ?_⟩
        · simp only [sampleRepo, SampleBlock.tree, hnode]
          exact if_neg hop.1
        · rw [hview' g _ hg, ← hop.2]
          exact congrArg some (SampleBlock.lookup_entry_eq key cid node)
    | update key cid =>
        simp only [TreeOp.onMap, Option.ite_none_right_eq_some] at hop
        refine ⟨.entry key cid node, [.entry key cid node], ?_, fun g _ hg => ?_⟩
        · simp only [sampleRepo, SampleBlock.tree, hnode]
          exact if_pos hop.1
        · rw [hview' g _ hg, ← hop.2]
          exact congrArg some (SampleBlock.lookup_entry_eq key cid node)
    | delete key =>
        simp only [TreeOp.onMap, Option.ite_none_right_eq_some] at hop
        refine ⟨SampleBlock.erase key node, [SampleBlock.erase key node], ?_, fun g _ hg => ?_⟩
        · simp only [sampleRepo, SampleBlock.tree, hnode]
          exact if_pos hop.1
        · rw [hview' g _ hg, ← hop.2]
          exact congrArg some (SampleBlock.lookup_erase_eq key node)

end Stelyph
