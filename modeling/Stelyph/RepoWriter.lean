import Stelyph.Repo

/-!
# The repository writer

`commit_op` and `apply_many_parts` of `rust-core/src/repo/writer.rs`,
suspended at every store call. Both run under the write lock of the DID,
which is released on every way out, and both are the same cycle: open
the repository at its stored root (or create one, whose first commit is
never stored as a root), change the tree, sign a commit that chains from
the one opened, read the new blocks back, build the event, and commit
blocks, event and root in one transaction.

They differ in how the tree changes. The single write goes through the
library's repository, which opens the tree at the last commit; the batch
opens it once and applies its writes in turn.

The CIDs a call wrote (`written`) are what the library's diff store
reports; its order is not specified there, and is the order of writing
here. The revs and the time a call reads from the clock are in its
`WriteDraw`.
-/

namespace Stelyph

variable (L : RepoLib)

/-- A piece of the writer, over the store and the event channel. -/
abbrev RepoProg := Prog (writerSig L) RepoError

/-- Who writes: the DID, with the key that signs its commits. The store
and the lock are the operations'. -/
structure RepoWriter where
  did : String
  signingKey : L.Key

/-- What a write draws besides what it is given: the revs of a genesis
commit and of its own, and the time of its event. -/
structure WriteDraw where
  genesisRev : String
  rev : String
  time : String

/-- The commit to chain from, and the tree to start from. -/
structure Opened where
  prev : L.Cid
  data : L.Cid
  hadPriorRoot : Bool
  written : List L.Cid

variable {L}

/-- A block call of the library, whose errors are its own text. -/
abbrev readRepo (cid : L.Cid) : RepoProg L L.Block :=
  .op (.readBlock cid) fun r => Prog.ofExcept (fun e => .repo e.display) r

/-- A block is stored for good as soon as it is written, whatever becomes
of the commit. -/
abbrev writeRepo (b : L.Block) : RepoProg L L.Cid :=
  .op (.writeBlock b) fun r => Prog.ofExcept (fun e => .repo e.display) r

/-- `read_block_bytes` of the store itself. -/
abbrev readStore (cid : L.Cid) : RepoProg L L.Block :=
  .op (.readBlock cid) fun r => Prog.ofExcept .storage r

/-- One operation on the tree of a root: the new root and the nodes it wrote. -/
abbrev treeRepo (root : L.Cid) (op : TreeOp L.Cid) (err : String → String) :
    RepoProg L (L.Cid × List L.Cid) :=
  .op (.tree root op) fun r => Prog.ofExcept (fun e => .repo (err e)) r

/-- Sign a commit and store it; the two texts are of the encoder's errors. -/
def signCommit (w : RepoWriter L) (unsigned : UnsignedCommit L.Cid)
    (encodeErr signedErr : String → String) : RepoProg L L.Cid := do
  let preimage ← Prog.ofExcept (fun e => .repo (encodeErr e)) (L.encodeUnsigned unsigned)
  let sig ← Prog.ofExcept .crypto (L.sign w.signingKey preimage)
  let block ← Prog.ofExcept (fun e => .repo (signedErr e))
    (L.encodeSigned { unsigned with sig := sig })
  writeRepo block

/-- `Repository::open` at the stored root, or `Repository::create`. -/
def openRepo (w : RepoWriter L) (genesisRev : String) : RepoProg L (Opened L) :=
  .op (.loadRepoRoot w.did) fun r => do
    match ← Prog.ofExcept .storage r with
    | some root =>
        let block ← readRepo root
        let commit ← Prog.ofExcept .repo (L.decodeCommit block)
        return ⟨root, commit.data, true, []⟩
    | none =>
        let data ← writeRepo L.emptyNode
        let root ← signCommit w ⟨w.did, 3, data, genesisRev, none⟩ id id
        return ⟨root, data, false, [data, root]⟩

/-- The blocks for the CAR, read back from the store in this order. -/
def readBlocks : List L.Cid → RepoProg L (List (L.Cid × L.Block))
  | [] => return []
  | cid :: cids => do
      let b ← readStore cid
      let rest ← readBlocks cids
      return (cid, b) :: rest

/-- The rev of the commit in a block, and the text of a failure to decode it. -/
def revOf (err : String → String) (b : L.Block) : RepoProg L String :=
  Prog.ofExcept (fun e => .repo (err e)) ((L.decodeCommit b).map fun c => c.rev)

/-- The rev of the commit before this one, and none for the first. -/
def sinceOf (opened : Opened L) (err : String → String) : RepoProg L (Option String) :=
  if opened.hadPriorRoot then do
    let b ← readStore opened.prev
    let rev ← revOf err b
    return some rev
  else return none

/-- The event of a commit, before the transaction gives it its number. -/
def commitBody (w : RepoWriter L) (commit : L.Cid) (rev : String) (since : Option String)
    (car : L.Car) (ops : List (RepoOp L.Cid)) (time : String) : CommitBody L.Cid L.Car where
  seq := 0
  rebase := false
  tooBig := false
  repo := w.did
  commit := commit
  rev := rev
  since := since
  blocks := car
  ops := ops
  blobs := []
  time := time
  prevData := none

/-- Encode the event and commit; the body that comes back has its seq. -/
def storeCommit (w : RepoWriter L) (blocks : List (L.Cid × L.Block))
    (body : CommitBody L.Cid L.Car) : RepoProg L (CommitBody L.Cid L.Car) := do
  let event ← Prog.ofExcept (fun e => .repo s!"encode event body: {e}") (L.encodeBody body)
  .op (.commitBlocks blocks w.did body.commit event) fun r => do
    let seq ← Prog.ofExcept .storage r
    return { body with seq := seq }

/-! ## One write -/

def encodeAndWrite (record : L.Ipld) (err : String → String) : RepoProg L L.Cid := do
  let block ← Prog.ofExcept (fun e => .repo (err e)) (L.encodeRecord record)
  writeRepo block

/-- `add_raw`, `update_raw` and `delete_raw`: action, key, record CID, the
new tree, and what was written. -/
def applyRaw (data : L.Cid) :
    WriteOp L.Ipld → RepoProg L (String × String × Option L.Cid × L.Cid × List L.Cid)
  | .create key record => do
      let cid ← encodeAndWrite record id
      let (root, nodes) ← treeRepo data (.add key cid) id
      return ("create", key, some cid, root, cid :: nodes)
  | .update key record => do
      let cid ← encodeAndWrite record id
      let (root, nodes) ← treeRepo data (.update key cid) id
      return ("update", key, some cid, root, cid :: nodes)
  | .delete key => do
      let (root, nodes) ← treeRepo data (.delete key) id
      return ("delete", key, none, root, nodes)

/-- One write from the root it finds to the row of its event: tree,
commit, blocks, transaction, and at last the broadcast. The rev of the
event is the one read back from the commit's own block. -/
def commitOpLocked (w : RepoWriter L) (op : WriteOp L.Ipld) (broadcast : Bool)
    (rnd : WriteDraw) : RepoProg L (WriteOutcome L.Cid × CommitBody L.Cid L.Car) := do
  let opened ← openRepo w rnd.genesisRev
  let (action, key, recordCid, data, written) ← applyRaw opened.data op
  let commitCid ← signCommit w ⟨w.did, 3, data, rnd.rev, some opened.prev⟩ id id
  let blocks ← readBlocks (opened.written ++ written ++ [commitCid]).dedup
  let car ← Prog.ofExcept .repo (L.writeCar commitCid blocks)
  let commitBlock ← readStore commitCid
  let rev ← revOf (fun e => s!"decode commit block for rev/prev: {e}") commitBlock
  let since ← sinceOf opened fun e => s!"decode prev commit block for since: {e}"
  let body ← storeCommit w blocks
    (commitBody w commitCid rev since car [⟨action, key, recordCid⟩] rnd.time)
  let answer := (⟨action, key, recordCid, commitCid, rev⟩, body)
  if broadcast then .op (.send ⟨body.seq, L.encodeFrame body⟩) fun _ => return answer
  else return answer

/-- One write under the lock of its DID, which is given back however it ends. -/
def commitOp (w : RepoWriter L) (op : WriteOp L.Ipld) (broadcast : Bool) (rnd : WriteDraw) :
    RepoProg L (WriteOutcome L.Cid × CommitBody L.Cid L.Car) :=
  .op (.lock w.did) fun _ => (commitOpLocked w op broadcast rnd).ensuring (.unlock w.did)

/-- A write that is broadcast by the writer itself. -/
def applyOne (w : RepoWriter L) (op : WriteOp L.Ipld) (rnd : WriteDraw) :
    RepoProg L (WriteOutcome L.Cid) := do
  return (← commitOp w op true rnd).1

/-- A write whose event the caller passes on. -/
def applyOneParts (w : RepoWriter L) (op : WriteOp L.Ipld) (rnd : WriteDraw) :
    RepoProg L (WriteOutcome L.Cid × CommitBody L.Cid L.Car) :=
  commitOp w op false rnd

/-! ## A batch -/

/-- A write of a batch after its record was stored. -/
structure Prepared (L : RepoLib) where
  action : String
  key : String
  cid : Option L.Cid

/-- Encode and store the records of a batch, in one pass. -/
def prepare : List (WriteOp L.Ipld) → RepoProg L (List (Prepared L))
  | [] => return []
  | .create key record :: ops => do
      let cid ← encodeAndWrite record fun e => s!"encode record: {e}"
      let rest ← prepare ops
      return ⟨"create", key, some cid⟩ :: rest
  | .update key record :: ops => do
      let cid ← encodeAndWrite record fun e => s!"encode record: {e}"
      let rest ← prepare ops
      return ⟨"update", key, some cid⟩ :: rest
  | .delete key :: ops => do
      let rest ← prepare ops
      return ⟨"delete", key, none⟩ :: rest

/-- What it does to the tree; whatever is neither a create nor an update
with a CID deletes. -/
def Prepared.treeOp (p : Prepared L) : TreeOp L.Cid :=
  match p.action, p.cid with
  | "create", some cid => .add p.key cid
  | "update", some cid => .update p.key cid
  | _, _ => .delete p.key

/-- One tree, every write applied in order. -/
def applyTree (data : L.Cid) : List (Prepared L) → RepoProg L (L.Cid × List L.Cid)
  | [] => return (data, [])
  | p :: ps => do
      let (root, nodes) ← treeRepo data p.treeOp fun e => s!"mst {p.action} {p.key}: {e}"
      let (root', nodes') ← applyTree root ps
      return (root', nodes ++ nodes')

/-- All writes of a batch on one tree, one after the other, and one commit
over the last: one row and one event with all the ops. -/
def applyManyLocked (w : RepoWriter L) (ops : List (WriteOp L.Ipld)) (rnd : WriteDraw) :
    RepoProg L (List (WriteOutcome L.Cid) × CommitBody L.Cid L.Car) := do
  let opened ← openRepo w rnd.genesisRev
  let prepared ← prepare ops
  let (data, nodes) ← applyTree opened.data prepared
  let commitCid ← signCommit w ⟨w.did, 3, data, rnd.rev, some opened.prev⟩
    (fun e => s!"encode commit: {e}") (fun e => s!"encode signed commit: {e}")
  let blocks ← readBlocks
    (opened.written ++ prepared.filterMap (fun p => p.cid) ++ nodes ++ [commitCid]).dedup
  let car ← Prog.ofExcept .repo (L.writeCar commitCid blocks)
  let since ← sinceOf opened fun e => s!"decode prev commit: {e}"
  let body ← storeCommit w blocks (commitBody w commitCid rnd.rev since car
    (prepared.map fun p => ⟨p.action, p.key, p.cid⟩) rnd.time)
  return (prepared.map fun p => ⟨p.action, p.key, p.cid, commitCid, rnd.rev⟩, body)

/-- A batch under the lock of its DID. The empty batch is refused before the lock. -/
def applyManyParts (w : RepoWriter L) (ops : List (WriteOp L.Ipld)) (rnd : WriteDraw) :
    RepoProg L (List (WriteOutcome L.Cid) × CommitBody L.Cid L.Car) :=
  if ops.isEmpty then .fail (.repo "applyWrites with no writes")
  else .op (.lock w.did) fun _ => (applyManyLocked w ops rnd).ensuring (.unlock w.did)

/-! ## What the parts touch

Everything but the lock, the transaction and the broadcast reads a root
or works on blocks. -/

/-- Operations that neither the lock nor the transaction nor the channel sees. -/
def WriterOp.Local : WriterOp L → Prop
  | .loadRepoRoot _ | .readBlock _ | .writeBlock _ | .tree _ _ => True
  | .lock _ | .unlock _ | .commitBlocks _ _ _ _ | .send _ => False

abbrev RepoProg.Local {α : Type} (p : RepoProg L α) : Prop :=
  Prog.Each (S := writerSig L) WriterOp.Local p

section

variable {α β ε : Type}

theorem local_ofExcept_bind {f : ε → RepoError} {x : Except ε α} {k : α → RepoProg L β}
    (hk : ∀ a, RepoProg.Local (k a)) :
    RepoProg.Local ((Prog.ofExcept f x : RepoProg L α).bind k) :=
  .bind (Prog.each_ofExcept _ _ _) hk

theorem local_read (f : StorageError → RepoError) (cid : L.Cid) :
    RepoProg.Local (.op (.readBlock cid) fun r => Prog.ofExcept f r) :=
  ⟨trivial, fun _ => Prog.each_ofExcept _ _ _⟩

theorem local_write (b : L.Block) : RepoProg.Local (writeRepo b) :=
  ⟨trivial, fun _ => Prog.each_ofExcept _ _ _⟩

theorem local_tree (data : L.Cid) (op : TreeOp L.Cid) (err : String → String) :
    RepoProg.Local (treeRepo data op err) :=
  ⟨trivial, fun _ => Prog.each_ofExcept _ _ _⟩

theorem local_signCommit (w : RepoWriter L) (u : UnsignedCommit L.Cid)
    (e₁ e₂ : String → String) : RepoProg.Local (signCommit w u e₁ e₂) :=
  local_ofExcept_bind fun _ => local_ofExcept_bind fun _ => local_ofExcept_bind fun _ =>
    local_write _

theorem local_openRepo (w : RepoWriter L) (rev : String) : RepoProg.Local (openRepo w rev) := by
  refine ⟨trivial, fun _ => local_ofExcept_bind fun root => ?_⟩
  cases root with
  | some root => exact .bind (local_read _ root) fun _ => local_ofExcept_bind fun _ => trivial
  | none => exact .bind (local_write _) fun _ => .bind (local_signCommit _ _ _ _) fun _ => trivial

theorem local_readBlocks (cids : List L.Cid) : RepoProg.Local (readBlocks cids) := by
  induction cids with
  | nil => trivial
  | cons cid cids ih => exact .bind (local_read _ cid) fun _ => .bind ih fun _ => trivial

theorem local_revOf (err : String → String) (b : L.Block) : RepoProg.Local (revOf err b) :=
  Prog.each_ofExcept _ _ _

theorem local_sinceOf (o : Opened L) (err : String → String) :
    RepoProg.Local (sinceOf o err) := by
  rw [sinceOf]
  split
  · exact .bind (local_read _ _) fun _ => .bind (local_revOf _ _) fun _ => trivial
  · trivial

theorem local_encodeAndWrite (record : L.Ipld) (err : String → String) :
    RepoProg.Local (encodeAndWrite record err) :=
  local_ofExcept_bind fun _ => local_write _

theorem local_applyRaw (data : L.Cid) (op : WriteOp L.Ipld) :
    RepoProg.Local (applyRaw data op) := by
  cases op with
  | create key record | update key record =>
      exact .bind (local_encodeAndWrite _ _) fun _ => .bind (local_tree _ _ _) fun _ => trivial
  | delete key => exact .bind (local_tree _ _ _) fun _ => trivial

theorem local_prepare (ops : List (WriteOp L.Ipld)) : RepoProg.Local (prepare ops) := by
  induction ops with
  | nil => trivial
  | cons op ops ih =>
      cases op with
      | create key record | update key record =>
          exact .bind (local_encodeAndWrite _ _) fun _ => .bind ih fun _ => trivial
      | delete key => exact .bind ih fun _ => trivial

theorem local_applyTree (ps : List (Prepared L)) :
    ∀ data, RepoProg.Local (applyTree data ps) := by
  induction ps with
  | nil => exact fun _ => trivial
  | cons p ps ih =>
      exact fun data => .bind (local_tree _ _ _) fun _ => .bind (ih _) fun _ => trivial

end

end Stelyph
