import Mathlib.Data.List.Dedup
import Stelyph.RepoAtRest
import Stelyph.RepoReplay

/-!
# Exporting a repository

`getRepo` is written three times: `export_car`, which the Worker calls,
and the `get_repo` of the axum and of the embedded server. All three
open the repository at its stored root, take the CIDs that the library's
`export` yields, and write the block of each into a CAR.

`export` walks the tree and yields a CID each time it meets a reference
to it. `export_car` puts the CIDs into a set first, as a CAR must not
carry a block twice. The two servers write what they get, so their CAR
is right exactly where the repository refers to each of its blocks once.
-/

namespace Stelyph

/-! ## The three exports -/

/-- `Repository::export` on the repository at a commit, the CAR writer,
and what is shown and compared of a CID. -/
structure ExportLib (L : RepoLib) where
  exportCids : (L.Cid → Option L.Block) → L.Cid → Except String (List L.Cid)
  CarWriter : Type
  carNew : List L.Cid → CarWriter
  carWrite : CarWriter → L.Cid → L.Block → Except String CarWriter
  carFinish : CarWriter → Except String L.Car
  cidLe : L.Cid → L.Cid → Bool
  cidText : L.Cid → String

structure RepoExport (L : RepoLib) where
  root : L.Cid
  rev : String
  car : L.Car

section

variable {L : RepoLib} {ε : Type}

/-- `Repository::open`, as far as it can fail. -/
def openAt (s : RepoStore L) (root : L.Cid) : Except String (SignedCommit L.Cid) :=
  match s.blocks.get root with
  | none => .error StorageError.blockNotFound.display
  | some block => L.decodeCommit block

def readBlockBytes (s : RepoStore L) (cid : L.Cid) : Except StorageError L.Block :=
  match s.blocks.get cid with
  | none => .error .blockNotFound
  | some block => .ok block

variable (X : ExportLib L)

/-- Each block is read and written in turn. -/
def writeBlocks (s : RepoStore L) (readErr : L.Cid → StorageError → ε)
    (writeErr : L.Cid → String → ε) : List L.Cid → X.CarWriter → Except ε X.CarWriter
  | [], w => .ok w
  | cid :: cids, w => do
      let block ← (readBlockBytes s cid).mapError (readErr cid)
      let w ← (X.carWrite w cid block).mapError (writeErr cid)
      writeBlocks s readErr writeErr cids w

/-- The CAR with the given root and the blocks of the given CIDs. -/
def buildCar (s : RepoStore L) (root : L.Cid) (cids : List L.Cid)
    (readErr : L.Cid → StorageError → ε) (writeErr : L.Cid → String → ε)
    (finishErr : String → ε) : Except ε L.Car := do
  let w ← writeBlocks X s readErr writeErr cids (X.carNew [root])
  (X.carFinish w).mapError finishErr

def commitRev (s : RepoStore L) (commit : L.Cid) : Except RepoError String := do
  let block ← (readBlockBytes s commit).mapError .storage
  let header ← (L.decodeCommit block).mapError
    fun e => .repo s!"decode commit {X.cidText commit}: {e}"
  return header.rev

def exportCar (s : RepoStore L) (did : String) : Except RepoError (Option (RepoExport L)) :=
  match s.roots.get did with
  | none => .ok none
  | some root => do
      let rev ← commitRev X s root
      let _ ← (openAt s root).mapError .repo
      let cids ← (X.exportCids s.blocks.get root).mapError .repo
      -- collected through a `BTreeSet`
      let car ← buildCar X s root (cids.dedup.mergeSort X.cidLe) (fun _ e => .storage e)
        (fun cid e => .repo s!"car write {X.cidText cid}: {e}") fun e => .repo s!"car finish: {e}"
      return some ⟨root, rev, car⟩

def Axum.getRepo (s : RepoStore L) : Option String → Except XrpcError L.Car
  | none => .error (.invalidRequest "missing required query param: did")
  | some did =>
      match s.roots.get did with
      | none => .error (.invalidRequest s!"repo not found for did: {did}")
      | some root => do
          let _ ← (openAt s root).mapError fun e => .internal s!"failed to open repo: {e}"
          let cids ← (X.exportCids s.blocks.get root).mapError
            fun e => .internal s!"repo export failed: {e}"
          buildCar X s root cids
            (fun cid e =>
              .internal s!"read_block_bytes failed for {X.cidText cid}: {e.display}")
            (fun _ e => .internal s!"CarWriter::write failed: {e}")
            fun e => .internal s!"CarWriter::finish failed: {e}"

def Embedded.getRepo (s : RepoStore L) : Option String → Except XrpcError L.Car
  | none => .error (.invalidRequest "missing required query param: did")
  | some did =>
      match s.roots.get did with
      | none => .error (.invalidRequest s!"repo not found for did: {did}")
      | some root => do
          let _ ← (openAt s root).mapError fun _ => .internal "failed to open repo"
          let cids ← (X.exportCids s.blocks.get root).mapError
            fun _ => .internal "repo export failed"
          buildCar X s root cids (fun _ _ => .internal "read_block_bytes failed")
            (fun _ _ => .internal "CAR write failed") fun _ => .internal "CAR finish failed"

end

/-! ## Walking a tree -/

/-- The trees at the roots of `work`, walked one after another: the nodes
that are met and the records pointed to, as often as they are. -/
inductive Walk {L : RepoLib} (K : TreeLinks L) (f : L.Cid → Option L.Block) :
    List L.Cid → List L.Cid → List L.Cid → Prop where
  | done : Walk K f [] [] []
  | node {c : L.Cid} {b : L.Block} {work nodes leaves : List L.Cid} (hb : f c = some b)
      (hrest : Walk K f (K.children b ++ work) nodes leaves) :
      Walk K f (c :: work) (c :: nodes) (K.leaves b ++ leaves)

section

variable {L : RepoLib} {K : TreeLinks L} {f : L.Cid → Option L.Block}
  {work nodes leaves : List L.Cid} {c root : L.Cid}

/-- A node below a child is below the node. -/
theorem NodeIn.of_child {n : L.Cid} {b : L.Block} (hb : f n = some b) (hc : c ∈ K.children b)
    {x : L.Cid} (h : NodeIn K f c x) : NodeIn K f n x := by
  induction h with
  | root => exact .child .root hb hc
  | child _ hb' hc' ih => exact .child ih hb' hc'

/-- Every node is the root or below one of its children. -/
theorem NodeIn.cases_root {n x : L.Cid} {b : L.Block} (hb : f n = some b)
    (h : NodeIn K f n x) : x = n ∨ ∃ c ∈ K.children b, NodeIn K f c x := by
  induction h with
  | root => exact Or.inl rfl
  | child hn hb' hc' ih =>
      rcases ih with rfl | ⟨c, hc, hin⟩
      · obtain rfl := Option.some.inj (hb.symm.trans hb')
        exact Or.inr ⟨_, hc', .root⟩
      · exact Or.inr ⟨c, hc, .child hin hb' hc'⟩

/-- There is one walk from the same roots. -/
theorem Walk.unique (h : Walk K f work nodes leaves) {nodes' leaves' : List L.Cid}
    (h' : Walk K f work nodes' leaves') : nodes = nodes' ∧ leaves = leaves' := by
  induction h generalizing nodes' leaves' with
  | done =>
      cases h'
      exact ⟨rfl, rfl⟩
  | node hb _ ih =>
      cases h' with
      | node hb' hrest' =>
          obtain rfl := Option.some.inj (hb.symm.trans hb')
          obtain ⟨rfl, rfl⟩ := ih hrest'
          exact ⟨rfl, rfl⟩

/-- A walk meets the nodes of its trees. -/
theorem Walk.mem_nodes (h : Walk K f work nodes leaves) (x : L.Cid) :
    x ∈ nodes ↔ ∃ r ∈ work, NodeIn K f r x := by
  induction h with
  | done => simp
  | @node c b work nodes leaves hb _ ih =>
      rw [List.mem_cons, ih]
      constructor
      · rintro (rfl | ⟨r, hr, hin⟩)
        · exact ⟨_, List.mem_cons_self, .root⟩
        · rcases List.mem_append.mp hr with hr | hr
          · exact ⟨c, List.mem_cons_self, hin.of_child hb hr⟩
          · exact ⟨r, List.mem_cons_of_mem _ hr, hin⟩
      · rintro ⟨r, hr, hin⟩
        rcases List.mem_cons.mp hr with rfl | hr
        · rcases hin.cases_root hb with rfl | ⟨c, hc, hin⟩
          · exact Or.inl rfl
          · exact Or.inr ⟨c, List.mem_append_left _ hc, hin⟩
        · exact Or.inr ⟨r, List.mem_append_right _ hr, hin⟩

/-- And the records they point to. -/
theorem Walk.mem_leaves (h : Walk K f work nodes leaves) (x : L.Cid) :
    x ∈ leaves ↔ ∃ r ∈ work, RecordIn K f r x := by
  induction h with
  | done => simp
  | @node c b work nodes leaves hb _ ih =>
      rw [List.mem_append, ih]
      constructor
      · rintro (hx | ⟨r, hr, n, b', hn, hb', hx⟩)
        · exact ⟨c, List.mem_cons_self, c, b, .root, hb, hx⟩
        · rcases List.mem_append.mp hr with hr | hr
          · exact ⟨c, List.mem_cons_self, n, b', hn.of_child hb hr, hb', hx⟩
          · exact ⟨r, List.mem_cons_of_mem _ hr, n, b', hn, hb', hx⟩
      · rintro ⟨r, hr, n, b', hn, hb', hx⟩
        rcases List.mem_cons.mp hr with rfl | hr
        · rcases hn.cases_root hb with rfl | ⟨c, hc, hin⟩
          · obtain rfl := Option.some.inj (hb.symm.trans hb')
            exact Or.inl hx
          · exact Or.inr ⟨c, List.mem_append_left _ hc, n, b', hin, hb', hx⟩
        · exact Or.inr ⟨r, List.mem_append_right _ hr, n, b', hn, hb', hx⟩

end

/-! ## What an export has to be -/

section

variable {L : RepoLib} {ε : Type}

/-- The sections are the blocks that the root reaches, each once. -/
structure ExactSections (K : TreeLinks L) (s : RepoStore L) (root : L.Cid)
    (sections : List (L.Cid × L.Block)) : Prop where
  blocks : ∀ c b, (c, b) ∈ sections
    ↔ ReachedBy K s.blocks.get root c ∧ s.blocks.get c = some b
  once : (sections.map Prod.fst).Nodup

/-- The CAR has one root, and the blocks that the root reaches, each once. -/
def ExactCar (K : TreeLinks L) (read : CarReader L) (s : RepoStore L) (root : L.Cid)
    (car : L.Car) : Prop :=
  ∃ sections, read car = some ([root], sections) ∧ ExactSections K s root sections

/-- All three exports answer with a CAR that has exactly the blocks of the
repository, each once, under its root. -/
def ExportsExactly (K : TreeLinks L) (X : ExportLib L) (read : CarReader L) (s : RepoStore L)
    (did : String) (root : L.Cid) : Prop :=
  (∃ e, exportCar X s did = .ok (some e) ∧ e.root = root ∧ ExactCar K read s root e.car)
  ∧ (∃ car, Axum.getRepo X s (some did) = .ok car ∧ ExactCar K read s root car)
  ∧ ∃ car, Embedded.getRepo X s (some did) = .ok car ∧ ExactCar K read s root car

/-- The repository refers to each of its blocks once: no two keys hold
the same record, no node is pointed to twice, no record is a node, and
the commit is neither. -/
structure RefersOnce (view : TreeView L) (K : TreeLinks L) (s : RepoStore L) (did : String)
    (root : L.Cid) : Prop where
  records : ∀ m k k' c, mapOf view s did = some m → m k = some c → m k' = some c → k = k'
  nodes : ∀ cm nodes leaves, commitAt s.blocks.get root = some cm →
    Walk K s.blocks.get [cm.data] nodes leaves → nodes.Nodup
  apart : ∀ cm c, commitAt s.blocks.get root = some cm → NodeIn K s.blocks.get cm.data c →
    ¬ RecordIn K s.blocks.get cm.data c
  commit : ∀ cm, commitAt s.blocks.get root = some cm →
    ¬ NodeIn K s.blocks.get cm.data root ∧ ¬ RecordIn K s.blocks.get cm.data root

/-- A tree that is a map is finite, and points to a record for each key.
`export` yields the commit, each node and each leaf entry of such a tree.
And what the CAR writer writes reads back. -/
structure ExportLaws (view : TreeView L) (K : TreeLinks L) (X : ExportLib L)
    (read : CarReader L) : Prop where
  walks : ∀ f root m, TreeClosed K f root → view f root = some m →
    ∃ nodes leaves, ∃ keys : List String, Walk K f [root] nodes leaves ∧ keys.Nodup
      ∧ (∀ k, k ∈ keys ↔ (m k).isSome = true) ∧ leaves.Perm (keys.filterMap m)
  exports : ∀ f root cm nodes leaves, commitAt f root = some cm →
    Walk K f [cm.data] nodes leaves →
    ∃ cids, X.exportCids f root = .ok cids ∧ cids.Perm (root :: (nodes ++ leaves))
  writes : ∀ root sections, ∃ w car,
    sections.foldlM (fun w b => X.carWrite w b.1 b.2) (X.carNew [root]) = .ok w
      ∧ X.carFinish w = .ok car ∧ read car = some ([root], sections)

/-! ## Building a CAR -/

variable {X : ExportLib L} {K : TreeLinks L} {view : TreeView L} {read : CarReader L}
  {s : RepoStore L} {did : String} {root : L.Cid}

/-- A stored commit can be opened. -/
theorem openAt_eq {cm : SignedCommit L.Cid} (h : commitAt s.blocks.get root = some cm) :
    openAt s root = .ok cm := by
  obtain ⟨block, hblock, hdec⟩ := Option.bind_eq_some_iff.mp h
  rw [openAt, hblock]
  cases hd : L.decodeCommit block with
  | error e =>
      rw [hd] at hdec
      cases hdec
  | ok cm' =>
      rw [hd] at hdec
      obtain rfl := Option.some.inj hdec
      rw [← hd]

theorem writeBlocks_eq (readErr : L.Cid → StorageError → ε) (writeErr : L.Cid → String → ε)
    {sections : List (L.Cid × L.Block)} (hget : ∀ b ∈ sections, s.blocks.get b.1 = some b.2)
    {w w' : X.CarWriter}
    (hw : sections.foldlM (fun w b => X.carWrite w b.1 b.2) w = .ok w') :
    writeBlocks X s readErr writeErr (sections.map Prod.fst) w = .ok w' := by
  induction sections generalizing w with
  | nil => exact congrArg Except.ok (Except.ok.inj hw)
  | cons b sections ih =>
      rw [List.foldlM_cons] at hw
      cases hb : X.carWrite w b.1 b.2 with
      | error e =>
          rw [hb] at hw
          cases hw
      | ok w₁ =>
          rw [hb] at hw
          have hrest := ih (fun x hx => hget x (List.mem_cons_of_mem b hx)) hw
          have hread : readBlockBytes s b.1 = .ok b.2 := by
            rw [readBlockBytes, hget b List.mem_cons_self]
          rw [List.map_cons, writeBlocks, hread]
          simpa [Except.mapError, bind, Except.bind, hb] using hrest

/-- The blocks of some CIDs, as the sections of a CAR. -/
def sectionsOf (s : RepoStore L) (cids : List L.Cid) : List (L.Cid × L.Block) :=
  cids.filterMap fun c => (s.blocks.get c).map fun b => (c, b)

theorem mem_sectionsOf {cids : List L.Cid} {c : L.Cid} {b : L.Block} :
    (c, b) ∈ sectionsOf s cids ↔ c ∈ cids ∧ s.blocks.get c = some b := by
  simp only [sectionsOf, List.mem_filterMap, Option.map_eq_some_iff, Prod.mk.injEq]
  constructor
  · rintro ⟨c', hc', b', hb', rfl, rfl⟩
    exact ⟨hc', hb'⟩
  · rintro ⟨hc, hb⟩
    exact ⟨c, hc, b, hb, rfl, rfl⟩

theorem sectionsOf_fst {cids : List L.Cid} (hget : ∀ c ∈ cids, (s.blocks.get c).isSome = true) :
    (sectionsOf s cids).map Prod.fst = cids := by
  induction cids with
  | nil => rfl
  | cons c cids ih =>
      obtain ⟨b, hb⟩ := Option.isSome_iff_exists.mp (hget c List.mem_cons_self)
      have hrest := ih fun x hx => hget x (List.mem_cons_of_mem c hx)
      rw [sectionsOf] at hrest ⊢
      simp [hb, hrest]

/-- Where all the blocks are there, the CAR has them in the order given. -/
theorem buildCar_eq (hX : ExportLaws view K X read) {cids : List L.Cid}
    (hget : ∀ c ∈ cids, (s.blocks.get c).isSome = true) (root : L.Cid)
    (readErr : L.Cid → StorageError → ε) (writeErr : L.Cid → String → ε)
    (finishErr : String → ε) :
    ∃ car, buildCar X s root cids readErr writeErr finishErr = .ok car
      ∧ read car = some ([root], sectionsOf s cids) := by
  obtain ⟨w, car, hw, hfinish, hread⟩ := hX.writes root (sectionsOf s cids)
  have hwrite := writeBlocks_eq readErr writeErr
    (fun b hb => (mem_sectionsOf.mp hb).2) hw
  rw [sectionsOf_fst hget] at hwrite
  refine ⟨car, ?_, hread⟩
  rw [buildCar, hwrite]
  simp [bind, Except.bind, hfinish, Except.mapError]

/-- Such a CAR is exact where the CIDs are what the root reaches, each once. -/
theorem exactCar_iff {car : L.Car} {cids : List L.Cid}
    (hread : read car = some ([root], sectionsOf s cids))
    (hcids : ∀ c, c ∈ cids ↔ ReachedBy K s.blocks.get root c)
    (hget : ∀ c ∈ cids, (s.blocks.get c).isSome = true) :
    ExactCar K read s root car ↔ cids.Nodup := by
  constructor
  · intro ⟨sections, hsections, hexact⟩
    rw [hread] at hsections
    obtain ⟨-, rfl⟩ := Prod.mk.injEq .. |>.mp (Option.some.inj hsections)
    have honce := hexact.once
    rwa [sectionsOf_fst hget] at honce
  · intro hnodup
    refine ⟨sectionsOf s cids, hread, fun c b => ?_, ?_⟩
    · rw [mem_sectionsOf, hcids]
    · rwa [sectionsOf_fst hget]

/-! ## Once or more than once -/

/-- The values of a map are different where no two keys share one. -/
theorem nodup_values_iff {m : RecordMap L} {keys : List String} (hkeys : keys.Nodup)
    (hdom : ∀ k, k ∈ keys ↔ (m k).isSome = true) :
    (keys.filterMap m).Nodup ↔ ∀ k k' c, m k = some c → m k' = some c → k = k' := by
  have hmem : ∀ {k c}, m k = some c → k ∈ keys := by
    intro k c hk
    rw [hdom, hk]
    rfl
  rw [List.Nodup, List.pairwise_filterMap]
  constructor
  · intro h k k' c hk hk'
    by_contra hne
    have hsymm : Std.Symm fun k k' => ∀ c, m k = some c → ∀ c', m k' = some c' → c ≠ c' :=
      ⟨fun a b hab c hc c' hc' => (hab c' hc' c hc).symm⟩
    exact h.forall (hmem hk) (hmem hk') hne c hk c hk' rfl
  · intro h
    refine hkeys.imp fun {k k'} hne c hk c' hk' heq => ?_
    exact hne (h k k' c hk (heq ▸ hk'))

/-- What the tree of a commit is made of is met once, where the
repository refers to each of its blocks once. -/
theorem nodup_walk_iff {cm : SignedCommit L.Cid} {m : RecordMap L}
    {nodes leaves : List L.Cid} {keys : List String}
    (hcm : commitAt s.blocks.get root = some cm) (hm : mapOf view s did = some m)
    (hwalk : Walk K s.blocks.get [cm.data] nodes leaves) (hkeys : keys.Nodup)
    (hdom : ∀ k, k ∈ keys ↔ (m k).isSome = true) (hperm : leaves.Perm (keys.filterMap m)) :
    (root :: (nodes ++ leaves)).Nodup ↔ RefersOnce view K s did root := by
  have hnode : ∀ c, c ∈ nodes ↔ NodeIn K s.blocks.get cm.data c := by
    intro c
    simpa using hwalk.mem_nodes c
  have hleaf : ∀ c, c ∈ leaves ↔ RecordIn K s.blocks.get cm.data c := by
    intro c
    simpa using hwalk.mem_leaves c
  have hvalues : leaves.Nodup ↔ ∀ k k' c, m k = some c → m k' = some c → k = k' :=
    hperm.nodup_iff.trans (nodup_values_iff hkeys hdom)
  rw [List.nodup_cons, List.mem_append, not_or, List.nodup_append, hnode, hleaf]
  constructor
  · rintro ⟨⟨hroot, hroot'⟩, hnodes, hleaves, hapart⟩
    refine ⟨?_, ?_, ?_, ?_⟩
    · intro m' k k' c hm' hk hk'
      obtain rfl := Option.some.inj (hm.symm.trans hm')
      exact hvalues.mp hleaves k k' c hk hk'
    · intro cm' nodes' leaves' hcm' hwalk'
      obtain rfl := Option.some.inj (hcm.symm.trans hcm')
      rwa [← (hwalk.unique hwalk').1]
    · intro cm' c hcm' hc hc'
      obtain rfl := Option.some.inj (hcm.symm.trans hcm')
      exact hapart c ((hnode c).mpr hc) c ((hleaf c).mpr hc') rfl
    · intro cm' hcm'
      obtain rfl := Option.some.inj (hcm.symm.trans hcm')
      exact ⟨hroot, hroot'⟩
  · intro h
    refine ⟨h.commit cm hcm, h.nodes cm nodes leaves hcm hwalk, ?_, ?_⟩
    · exact hvalues.mpr fun k k' c => h.records m k k' c hm
    · intro c hc c' hc' heq
      exact h.apart cm c hcm ((hnode c).mp hc) ((hleaf c).mp (heq ▸ hc'))

/-- In every state that calls reach, `export` yields what the root
reaches, and each of it once where the repository refers to it once. -/
theorem exports_run (hL : RepoLaws L) (hV : TreeLaws L view) (hK : LinkLaws K)
    (hX : ExportLaws view K X read) {cs : List (ServedCall L)}
    (hrun : Steps.run callStep (RepoStore.empty L) cs = some s)
    (hroot : s.roots.get did = some root) :
    ∃ cm cids, openAt s root = .ok cm ∧ X.exportCids s.blocks.get root = .ok cids
      ∧ (∀ c, c ∈ cids ↔ ReachedBy K s.blocks.get root c)
      ∧ (∀ c ∈ cids, (s.blocks.get c).isSome = true)
      ∧ (cids.Nodup ↔ RefersOnce view K s did root) := by
  have hinv : CallsInv view K s :=
    Steps.run_inv (fun _ _ _ hs h => callsInv_step hL hV hK hs h) callsInv_empty hrun
  obtain ⟨m, hstanding⟩ := hinv.standing did
  have hm := hstanding.mapOf
  rw [Standing, hroot] at hstanding
  obtain ⟨cm, hcm, htree⟩ := hstanding
  obtain ⟨nodes, leaves, keys, hwalk, hkeys, hdom, hperm⟩ :=
    hX.walks _ _ m htree.closed htree.map
  obtain ⟨cids, hcids, hlist⟩ := hX.exports _ root cm nodes leaves hcm hwalk
  have hmem : ∀ c, c ∈ cids ↔ ReachedBy K s.blocks.get root c := by
    intro c
    rw [hlist.mem_iff, List.mem_cons, List.mem_append, hwalk.mem_nodes, hwalk.mem_leaves]
    constructor
    · rintro (rfl | hin)
      · exact Or.inl rfl
      · exact Or.inr ⟨cm, hcm, by simpa using hin⟩
    · rintro (rfl | ⟨cm', hcm', hin⟩)
      · exact Or.inl rfl
      · obtain rfl := Option.some.inj (hcm.symm.trans hcm')
        exact Or.inr (by simpa using hin)
  refine ⟨cm, cids, openAt_eq hcm, hcids, hmem, ?_, ?_⟩
  · intro c hc
    exact (hinv.rooted did root hroot).isSome ((hmem c).mp hc)
  · exact hlist.nodup_iff.trans (nodup_walk_iff hcm hm hwalk hkeys hdom hperm)

/-! ## The three CARs -/

theorem commitRev_eq {cm : SignedCommit L.Cid} (h : openAt s root = .ok cm) :
    commitRev X s root = .ok cm.rev := by
  rw [openAt] at h
  split at h
  · cases h
  · rename_i block hblock
    rw [commitRev, readBlockBytes, hblock]
    simp [bind, Except.bind, Except.mapError, h, pure, Except.pure]

/-- `export_car` puts the CIDs into a set, so that its CAR is exact. -/
theorem exportCar_exact {cm : SignedCommit L.Cid} {cids : List L.Cid}
    (hX : ExportLaws view K X read) (hroot : s.roots.get did = some root)
    (hopen : openAt s root = .ok cm) (hcids : X.exportCids s.blocks.get root = .ok cids)
    (hmem : ∀ c, c ∈ cids ↔ ReachedBy K s.blocks.get root c)
    (hget : ∀ c ∈ cids, (s.blocks.get c).isSome = true) :
    ∃ e, exportCar X s did = .ok (some e) ∧ e.root = root ∧ ExactCar K read s root e.car := by
  have hset : ∀ c, c ∈ cids.dedup.mergeSort X.cidLe ↔ c ∈ cids := by
    intro c
    rw [List.mem_mergeSort, List.mem_dedup]
  have hget' : ∀ c ∈ cids.dedup.mergeSort X.cidLe, (s.blocks.get c).isSome = true := by
    intro c hc
    exact hget c ((hset c).mp hc)
  have honce : (cids.dedup.mergeSort X.cidLe).Nodup :=
    (List.mergeSort_perm _ _).nodup_iff.mpr (List.nodup_dedup cids)
  obtain ⟨car, hcar, hread⟩ := buildCar_eq (ε := RepoError) hX hget' root (fun _ e => .storage e)
    (fun cid e => .repo s!"car write {X.cidText cid}: {e}") fun e => .repo s!"car finish: {e}"
  refine ⟨⟨root, cm.rev, car⟩, ?_, rfl, ?_⟩
  · rw [exportCar, hroot]
    simp [bind, Except.bind, commitRev_eq hopen, hopen, hcids, Except.mapError, hcar, pure,
      Except.pure]
  · exact (exactCar_iff hread (fun c => (hset c).trans (hmem c)) hget').mpr honce

/-- The axum server's CAR has every CID as often as it is yielded. -/
theorem axum_getRepo_eq {cm : SignedCommit L.Cid} {cids : List L.Cid}
    (hX : ExportLaws view K X read) (hroot : s.roots.get did = some root)
    (hopen : openAt s root = .ok cm) (hcids : X.exportCids s.blocks.get root = .ok cids)
    (hget : ∀ c ∈ cids, (s.blocks.get c).isSome = true) :
    ∃ car, Axum.getRepo X s (some did) = .ok car ∧ read car = some ([root], sectionsOf s cids) := by
  obtain ⟨car, hcar, hread⟩ := buildCar_eq (ε := XrpcError) hX hget root
    (fun cid e => .internal s!"read_block_bytes failed for {X.cidText cid}: {e.display}")
    (fun _ e => .internal s!"CarWriter::write failed: {e}")
    fun e => .internal s!"CarWriter::finish failed: {e}"
  refine ⟨car, ?_, hread⟩
  rw [Axum.getRepo, hroot]
  simp [bind, Except.bind, hopen, hcids, Except.mapError, hcar]

/-- And so has the embedded server's. -/
theorem embedded_getRepo_eq {cm : SignedCommit L.Cid} {cids : List L.Cid}
    (hX : ExportLaws view K X read) (hroot : s.roots.get did = some root)
    (hopen : openAt s root = .ok cm) (hcids : X.exportCids s.blocks.get root = .ok cids)
    (hget : ∀ c ∈ cids, (s.blocks.get c).isSome = true) :
    ∃ car, Embedded.getRepo X s (some did) = .ok car
      ∧ read car = some ([root], sectionsOf s cids) := by
  obtain ⟨car, hcar, hread⟩ := buildCar_eq (ε := XrpcError) hX hget root
    (fun _ _ => .internal "read_block_bytes failed") (fun _ _ => .internal "CAR write failed")
    fun _ => .internal "CAR finish failed"
  refine ⟨car, ?_, hread⟩
  rw [Embedded.getRepo, hroot]
  simp [bind, Except.bind, hopen, hcids, Except.mapError, hcar]

/-- Exact or not, all three CARs have the stored root as their only root
and the same blocks, and those are the ones it reaches. -/
theorem exports_same_blocks (hL : RepoLaws L) (hV : TreeLaws L view) (hK : LinkLaws K)
    (hX : ExportLaws view K X read) {cs : List (ServedCall L)}
    (hrun : Steps.run callStep (RepoStore.empty L) cs = some s)
    (hroot : s.roots.get did = some root) :
    ∃ e car car' sections sections', exportCar X s did = .ok (some e)
      ∧ Axum.getRepo X s (some did) = .ok car ∧ Embedded.getRepo X s (some did) = .ok car'
      ∧ read e.car = some ([root], sections) ∧ ExactSections K s root sections
      ∧ read car = some ([root], sections') ∧ read car' = some ([root], sections')
      ∧ ∀ b, b ∈ sections' ↔ b ∈ sections := by
  obtain ⟨cm, cids, hopen, hcids, hmem, hget, -⟩ := exports_run hL hV hK hX hrun hroot
  obtain ⟨e, he, -, sections, hsections, hexact⟩ := exportCar_exact hX hroot hopen hcids hmem hget
  obtain ⟨car, hcar, hread⟩ := axum_getRepo_eq hX hroot hopen hcids hget
  obtain ⟨car', hcar', hread'⟩ := embedded_getRepo_eq hX hroot hopen hcids hget
  refine ⟨e, car, car', sections, sectionsOf s cids, he, hcar, hcar', hsections, hexact, hread,
    hread', ?_⟩
  intro ⟨c, b⟩
  rw [hexact.blocks, mem_sectionsOf, hmem]

/-- In every state that calls reach and for every DID with a root, the
three exports are exact, each block once, if and only if the repository
refers to each of its blocks once. -/
theorem getRepo_exact_iff (hL : RepoLaws L) (hV : TreeLaws L view) (hK : LinkLaws K)
    (hX : ExportLaws view K X read) (cs : List (ServedCall L)) (s : RepoStore L)
    (hrun : Steps.run callStep (RepoStore.empty L) cs = some s) (did : String) (root : L.Cid)
    (hroot : s.roots.get did = some root) :
    ExportsExactly K X read s did root ↔ RefersOnce view K s did root := by
  obtain ⟨cm, cids, hopen, hcids, hmem, hget, honce⟩ := exports_run hL hV hK hX hrun hroot
  obtain ⟨car, hcar, hread⟩ := axum_getRepo_eq hX hroot hopen hcids hget
  obtain ⟨car', hcar', hread'⟩ := embedded_getRepo_eq hX hroot hopen hcids hget
  rw [← honce]
  constructor
  · rintro ⟨-, ⟨car₁, hcar₁, hexact⟩, -⟩
    obtain rfl := Except.ok.inj (hcar.symm.trans hcar₁)
    exact (exactCar_iff hread hmem hget).mp hexact
  · intro hnodup
    exact ⟨exportCar_exact hX hroot hopen hcids hmem hget,
      ⟨car, hcar, (exactCar_iff hread hmem hget).mpr hnodup⟩,
      ⟨car', hcar', (exactCar_iff hread' hmem hget).mpr hnodup⟩⟩

end

/-! ## The small library -/

namespace SampleBlock

def keys : SampleBlock → List String
  | .entry key _ rest => key :: keys rest
  | _ => []

/-- The records a node still points to: an update leaves the old entry
under the new one. -/
def live (b : SampleBlock) : List SampleBlock := b.keys.dedup.filterMap fun k => lookup k b

theorem mem_keys (b : SampleBlock) (k : String) : k ∈ b.keys ↔ (lookup k b).isSome = true := by
  induction b with
  | entry key cid rest _ ih =>
      rw [keys, List.mem_cons, ih, lookup]
      by_cases hk : key = k
      · simp [hk]
      · simp [Ne.symm hk]
  | _ => simp [keys, lookup]

theorem mem_live {b r : SampleBlock} : r ∈ b.live ↔ ∃ k, lookup k b = some r := by
  rw [live, List.mem_filterMap]
  constructor
  · intro ⟨k, _, hk⟩
    exact ⟨k, hk⟩
  · intro ⟨k, hk⟩
    refine ⟨k, ?_, hk⟩
    rw [List.mem_dedup, mem_keys, hk]
    rfl

/-- A node that an operation writes holds records of the old one, or the
one put in. -/
theorem lookup_tree_ok {f : SampleBlock → Option SampleBlock} {root root' : SampleBlock}
    {op : TreeOp SampleBlock} {ns : List SampleBlock} (h : tree f root op = .ok (root', ns)) :
    ∃ node, f root = some node ∧ ∀ k r, lookup k root' = some r →
      lookup k node = some r ∨ r ∈ TreeOp.inserted (L := sampleRepo) op := by
  cases op with
  | add key cid | update key cid =>
      simp only [tree] at h
      split at h
      · cases h
      · rename_i node hnode
        split at h
        all_goals first
          | cases h
            done
          | obtain ⟨rfl, rfl⟩ := Prod.mk.injEq .. |>.mp (Except.ok.inj h)
            refine ⟨node, hnode, fun k r hr => ?_⟩
            rw [lookup] at hr
            split at hr
            · exact Or.inr (List.mem_singleton.mpr (Option.some.inj hr).symm)
            · exact Or.inl hr
  | delete key =>
      simp only [tree] at h
      split at h
      · cases h
      · rename_i node hnode
        split at h
        · obtain ⟨rfl, rfl⟩ := Prod.mk.injEq .. |>.mp (Except.ok.inj h)
          refine ⟨node, hnode, fun k r hr => Or.inl ?_⟩
          rw [lookup_erase] at hr
          split at hr
          · cases hr
          · exact hr
        · cases h

end SampleBlock

/-- A tree is one node, and points to a record for each of its keys. -/
def exportLinks : TreeLinks sampleRepo where
  children _ := []
  leaves := SampleBlock.live

theorem exportLinks_nodeIn {f : sampleRepo.Cid → Option sampleRepo.Block}
    {root c : sampleRepo.Cid} (h : NodeIn exportLinks f root c) : c = root := by
  cases h with
  | root => rfl
  | child _ _ hc => cases hc

theorem exportLinks_laws : LinkLaws exportLinks where
  empty_children := rfl
  empty_leaves := rfl
  nodes f root op root' ns g _ htree _ _ c hc := by
    obtain ⟨rfl, -⟩ := SampleBlock.tree_ok htree
    rw [exportLinks_nodeIn hc]
    exact Or.inr ⟨root', List.mem_singleton_self _, rfl⟩
  leaves f root op root' ns _ htree n hn r hr := by
    obtain ⟨rfl, -⟩ := SampleBlock.tree_ok htree
    obtain ⟨node, hnode, hlook⟩ := SampleBlock.lookup_tree_ok htree
    rw [List.mem_singleton.mp hn] at hr
    obtain ⟨k, hk⟩ := SampleBlock.mem_live.mp hr
    rcases hlook k r hk with hold | hin
    · exact Or.inl ⟨root, node, .root, hnode, SampleBlock.mem_live.mpr ⟨k, hold⟩⟩
    · exact Or.inr hin

def sampleExport : ExportLib sampleRepo where
  exportCids f root :=
    match f root with
    | none => .error "CidNotFound"
    | some block =>
        match sampleRepo.decodeCommit block with
        | .error e => .error e
        | .ok commit =>
            match f commit.data with
            | none => .error "CidNotFound"
            | some node => .ok (root :: commit.data :: node.live)
  CarWriter := List sampleRepo.Cid × List (sampleRepo.Cid × sampleRepo.Block)
  carNew roots := (roots, [])
  carWrite w cid block := .ok (w.1, w.2 ++ [(cid, block)])
  carFinish
    | ([root], sections) => .ok (root, sections)
    | _ => .error "one root"
  cidLe _ _ := true
  cidText _ := "cid"

theorem sampleExport_writes (roots : List sampleRepo.Cid)
    (written sections : List (sampleRepo.Cid × sampleRepo.Block)) :
    sections.foldlM (fun w b => sampleExport.carWrite w b.1 b.2) (roots, written)
      = .ok (roots, written ++ sections) := by
  induction sections generalizing written with
  | nil =>
      rw [List.append_nil]
      rfl
  | cons b sections ih =>
      have hrest := ih (written ++ [b])
      rw [List.append_assoc] at hrest
      exact hrest

/-- The one node of a tree, and its records. -/
theorem exportLinks_walk {f : sampleRepo.Cid → Option sampleRepo.Block} {root : sampleRepo.Cid}
    {node : sampleRepo.Block} (h : f root = some node) :
    Walk exportLinks f [root] [root] (exportLinks.leaves node) := by
  have hwalk : Walk exportLinks f [root] [root] (exportLinks.leaves node ++ []) := .node h .done
  rwa [List.append_nil] at hwalk

theorem exportLinks_walk_eq {f : sampleRepo.Cid → Option sampleRepo.Block}
    {root : sampleRepo.Cid} {nodes leaves : List sampleRepo.Cid}
    (h : Walk exportLinks f [root] nodes leaves) :
    ∃ node, f root = some node ∧ nodes = [root] ∧ leaves = exportLinks.leaves node := by
  obtain ⟨node, hnode⟩ : ∃ node, f root = some node := by
    cases h with
    | node hb _ => exact ⟨_, hb⟩
  exact ⟨node, hnode, h.unique (exportLinks_walk hnode)⟩

theorem sampleExport_laws : ExportLaws sampleView exportLinks sampleExport sampleReader where
  walks f root m hclosed hview := by
    obtain ⟨node, hnode, rfl⟩ := Option.map_eq_some_iff.mp hview
    refine ⟨[root], exportLinks.leaves node, node.keys.dedup, exportLinks_walk hnode,
      List.nodup_dedup _, ?_, List.Perm.refl _⟩
    intro k
    exact List.mem_dedup.trans (SampleBlock.mem_keys node k)
  exports f root cm nodes leaves hcm hwalk := by
    obtain ⟨block, hblock, hdec⟩ := Option.bind_eq_some_iff.mp hcm
    cases hd : sampleRepo.decodeCommit block with
    | error e =>
        rw [hd] at hdec
        cases hdec
    | ok cm' =>
        rw [hd] at hdec
        obtain rfl := Option.some.inj hdec
        obtain ⟨node, hnode, rfl, rfl⟩ := exportLinks_walk_eq hwalk
        refine ⟨root :: cm'.data :: node.live, ?_, List.Perm.refl _⟩
        simp only [sampleExport, hblock, hd, hnode]
  writes root sections :=
    ⟨([root], sections), (root, sections), sampleExport_writes [root] [] sections, rfl, rfl⟩

def sampleNode : SampleBlock := .entry "app.bsky.feed.post/1" (.record 7) .leaf

def sampleHead : SampleBlock :=
  .next "did:plc:alice" 3 sampleNode "3kaaaaaaaab22"
    (.first "did:plc:alice" 3 .leaf "3kaaaaaaaaa22" []) []

theorem sampleNode_lookup {k : String} {c : SampleBlock}
    (h : SampleBlock.lookup k sampleNode = some c) : k = "app.bsky.feed.post/1" := by
  rw [sampleNode, SampleBlock.lookup] at h
  split at h
  · assumption
  · cases h

/-- One record is exported once. -/
theorem single_record_exported_exactly : ∃ s root,
    Steps.run callStep (RepoStore.empty sampleRepo) sampleCalls = some s
    ∧ s.roots.get "did:plc:alice" = some root
    ∧ ExportsExactly exportLinks sampleExport sampleReader s "did:plc:alice" root := by
  have hrun : ((Steps.run callStep (RepoStore.empty sampleRepo) sampleCalls).map fun s =>
      ((s.roots.get "did:plc:alice", s.blocks.get sampleHead, s.blocks.get sampleNode) :
        Option SampleBlock × Option SampleBlock × Option SampleBlock))
        = some (some sampleHead, some sampleHead, some sampleNode) := by decide
  obtain ⟨s, hs, hlook⟩ := Option.map_eq_some_iff.mp hrun
  obtain ⟨hroot, hlook⟩ := Prod.mk.injEq .. |>.mp hlook
  obtain ⟨hget, hnode⟩ := Prod.mk.injEq .. |>.mp hlook
  have hcm : commitAt s.blocks.get sampleHead
      = some ⟨⟨"did:plc:alice", 3, sampleNode, "3kaaaaaaaab22",
        some (.first "did:plc:alice" 3 .leaf "3kaaaaaaaaa22" [])⟩, []⟩ :=
    commitAt_of_decode hget rfl
  have hview : mapOf sampleView s "did:plc:alice"
      = some fun key => SampleBlock.lookup key sampleNode := by
    rw [mapOf, hroot]
    exact Option.bind_eq_some_iff.mpr
      ⟨_, hcm, Option.map_eq_some_iff.mpr ⟨_, hnode, rfl⟩⟩
  have hleaf : ∀ c, RecordIn exportLinks s.blocks.get sampleNode c → c = .record 7 := by
    rintro c ⟨n, b, hn, hb, hc⟩
    rw [exportLinks_nodeIn hn] at hb
    obtain rfl := Option.some.inj (hnode.symm.trans hb)
    exact List.mem_singleton.mp (show c ∈ [SampleBlock.record 7] from hc)
  refine ⟨s, sampleHead, hs, hroot, (getRepo_exact_iff sampleRepo_laws sampleRepo_treeLaws
    exportLinks_laws sampleExport_laws sampleCalls s hs _ sampleHead hroot).mpr ⟨?_, ?_, ?_, ?_⟩⟩
  · intro m k k' c hm hk hk'
    obtain rfl := Option.some.inj (hview.symm.trans hm)
    exact (sampleNode_lookup hk).trans (sampleNode_lookup hk').symm
  · intro cm nodes leaves _ hwalk
    obtain ⟨-, -, rfl, -⟩ := exportLinks_walk_eq hwalk
    exact List.nodup_singleton _
  · intro cm c hcommit hc hrec
    obtain rfl := Option.some.inj (hcm.symm.trans hcommit)
    have heq : sampleNode = .record 7 := (exportLinks_nodeIn hc).symm.trans (hleaf c hrec)
    exact absurd heq (by decide)
  · intro cm hcommit
    obtain rfl := Option.some.inj (hcm.symm.trans hcommit)
    constructor
    · intro hc
      have heq : sampleHead = sampleNode := exportLinks_nodeIn hc
      exact absurd heq (by decide)
    · intro hrec
      have heq : sampleHead = .record 7 := hleaf sampleHead hrec
      exact absurd heq (by decide)

/-- The same record under two keys. -/
def sampleEchoes : List (ServedCall sampleRepo) :=
  [⟨⟨sampleWriter, .applyOne (.create "app.bsky.feed.post/1" (7 : Nat)), sampleDraw⟩,
      List.replicate 16 .done⟩,
    ⟨⟨sampleWriter, .applyOne (.create "app.bsky.feed.post/2" (7 : Nat)), sampleDraw⟩,
      List.replicate 14 .done⟩]

/-- The record is in the axum server's CAR twice. -/
theorem shared_record_exported_twice : ∃ s root,
    Steps.run callStep (RepoStore.empty sampleRepo) sampleEchoes = some s
    ∧ s.roots.get "did:plc:alice" = some root
    ∧ ¬ ExportsExactly exportLinks sampleExport sampleReader s "did:plc:alice" root := by
  have hrun : ((Steps.run callStep (RepoStore.empty sampleRepo) sampleEchoes).map fun s =>
      ((s.roots.get "did:plc:alice").isSome,
        (Axum.getRepo sampleExport s (some "did:plc:alice")).toOption.map fun car =>
          (sampleReader car).map fun read => decide (read.2.map Prod.fst).Nodup))
        = some (true, some (some false)) := by decide
  obtain ⟨s, hs, hlook⟩ := Option.map_eq_some_iff.mp hrun
  obtain ⟨hroot, htwice⟩ := Prod.mk.injEq .. |>.mp hlook
  obtain ⟨root, hroot⟩ := Option.isSome_iff_exists.mp hroot
  refine ⟨s, root, hs, hroot, ?_⟩
  intro ⟨_, ⟨car, hcar, sections, hsections, hexact⟩, _⟩
  simp only [hcar, Except.toOption, Option.map_some, hsections] at htwice
  exact of_decide_eq_false (Option.some.inj (Option.some.inj htwice)) hexact.once

end Stelyph
