import Stelyph.Errors
import Stelyph.Lib.Pool
import Stelyph.Lib.Table

/-!
# Repositories: data, store and operations

A repository is a chain of signed commits. Each commit points to the one
before it (`prev`) and to the root of a Merkle search tree (`data`) that
maps keys to record CIDs. Commits, tree nodes and records are blocks in
one content-addressed table that all repositories share; the current
commit of a repository is its row in `repo_roots`, and every commit has
a row in `repo_seq` with the body of its firehose event.

The codecs, the hash, the signature and the tree are library code: a
`RepoLib` is what the writer calls of it. A byte string is as abstract
as the codec that reads it, so blocks, CAR files, stored events and
frames are types of the library too.
-/

namespace Stelyph

/-! ## Commits, events, writes -/

/-- What the key of the account signs: the root of its records and the commit before. -/
structure UnsignedCommit (Cid : Type) where
  did : String
  version : Nat
  data : Cid
  rev : String
  prev : Option Cid
deriving DecidableEq, Repr

/-- A commit with its signature, as it is stored in a block. -/
structure SignedCommit (Cid : Type) extends UnsignedCommit Cid where
  sig : Bytes
deriving DecidableEq, Repr

/-- One write in the event of a commit. A deletion has no CID. -/
structure RepoOp (Cid : Type) where
  action : String
  path : String
  cid : Option Cid
deriving DecidableEq, Repr

/-- The body of a `#commit` frame, with the blocks that are new in this commit. -/
structure CommitBody (Cid Car : Type) where
  seq : Nat
  rebase : Bool
  tooBig : Bool
  repo : String
  commit : Cid
  rev : String
  since : Option String
  blocks : Car
  ops : List (RepoOp Cid)
  blobs : List Cid
  time : String
  prevData : Option Cid
deriving DecidableEq, Repr

/-- A write to one key of the repository; an update needs the key to be
there, a creation needs it not to be. -/
inductive WriteOp (Ipld : Type) where
  | create (key : String) (record : Ipld)
  | update (key : String) (record : Ipld)
  | delete (key : String)

/-- What the caller of a write is answered. -/
structure WriteOutcome (Cid : Type) where
  action : String
  key : String
  recordCid : Option Cid
  commitCid : Cid
  rev : String
deriving DecidableEq, Repr

/-- The store failed, the repository was not as it should be, or the key
could not sign. -/
inductive RepoError where
  | storage (e : StorageError)
  | repo (msg : String)
  | crypto (msg : String)
deriving DecidableEq, Repr

/-! ## The libraries -/

/-- One mutation of an open tree. -/
inductive TreeOp (Cid : Type) where
  | add (key : String) (cid : Cid)
  | update (key : String) (cid : Cid)
  | delete (key : String)

/-- The formats of a repository: blocks under their CIDs, commits,
records, trees and frames. The writer is modelled over any of them. -/
structure RepoLib where
  Cid : Type
  Ipld : Type
  Block : Type
  Car : Type
  Event : Type
  Frame : Type
  Key : Type
  [cidEq : DecidableEq Cid]
  /-- CIDv1 of a dag-cbor block. -/
  cidOf : Block → Cid
  encodeRecord : Ipld → Except String Block
  /-- The signing preimage. -/
  encodeUnsigned : UnsignedCommit Cid → Except String Bytes
  encodeSigned : SignedCommit Cid → Except String Block
  decodeCommit : Block → Except String (SignedCommit Cid)
  sign : Key → Bytes → Except String Bytes
  emptyNode : Block
  /-- An operation on the tree at a root, reading the given blocks: the
  new root and the nodes it writes. -/
  tree : (Cid → Option Block) → Cid → TreeOp Cid → Except String (Cid × List Block)
  writeCar : Cid → List (Cid × Block) → Except String Car
  encodeBody : CommitBody Cid Car → Except String Event
  decodeBody : Event → Except String (CommitBody Cid Car)
  encodeFrame : CommitBody Cid Car → Frame

instance (L : RepoLib) : DecidableEq L.Cid := L.cidEq

/-! ## The store -/

/-- A row of the event log. -/
structure SeqRow (Event : Type) where
  seq : Nat
  did : String
  event : Event
  invalidated : Bool
deriving DecidableEq, Repr

/-- One broadcast unit. -/
structure FirehoseEvent (Frame : Type) where
  seq : Nat
  frame : Frame
deriving DecidableEq, Repr

/-- `sent` is everything the broadcast channel was ever given, and
`locks` says which task holds the write lock of a DID. -/
structure RepoStore (L : RepoLib) where
  blocks : Table L.Cid L.Block
  roots : Table String L.Cid
  rows : List (SeqRow L.Event)
  lastSeq : Nat
  sent : List (FirehoseEvent L.Frame)
  locks : Table String Nat

def RepoStore.empty (L : RepoLib) : RepoStore L := ⟨.empty, .empty, [], 0, [], .empty⟩

section

variable {L : RepoLib}

/-- The log of one repository, in the order of the whole log. -/
def RepoStore.rowsOf (s : RepoStore L) (did : String) : List (SeqRow L.Event) :=
  s.rows.filter fun r => r.did == did

/-- `put_block` under the block's own CID. -/
def putBlock (blocks : Table L.Cid L.Block) (b : L.Block) : Table L.Cid L.Block :=
  blocks.insertOrIgnore (L.cidOf b) b

def putBlocks (blocks : Table L.Cid L.Block) (bs : List L.Block) : Table L.Cid L.Block :=
  bs.foldl putBlock blocks

/-- `commit_blocks`: blocks, event row and root in one transaction, which
assigns the seq. Blocks that are there already stay. -/
def RepoStore.commitBlocks (s : RepoStore L) (blocks : List (L.Cid × L.Block)) (did : String)
    (newRoot : L.Cid) (event : L.Event) : RepoStore L :=
  { s with
    blocks := blocks.foldl (fun t b => t.insertOrIgnore b.1 b.2) s.blocks
    rows := s.rows ++ [⟨s.lastSeq + 1, did, event, false⟩]
    lastSeq := s.lastSeq + 1
    roots := s.roots.insert did newRoot }

end

/-! ## Operations -/

/-- What the writer asks of the world. `commitBlocks` is the transaction
that stores blocks, root and event together; the lock is held from one
call to another. -/
inductive WriterOp (L : RepoLib) where
  | lock (did : String)
  | unlock (did : String)
  | loadRepoRoot (did : String)
  | readBlock (cid : L.Cid)
  | writeBlock (b : L.Block)
  | tree (root : L.Cid) (op : TreeOp L.Cid)
  | commitBlocks (blocks : List (L.Cid × L.Block)) (did : String) (newRoot : L.Cid)
      (event : L.Event)
  | send (e : FirehoseEvent L.Frame)

/-- `tree` answers the new root and the CIDs of the nodes it wrote. -/
abbrev WriterOp.Ret {L : RepoLib} : WriterOp L → Type
  | .lock _ | .unlock _ | .send _ => Unit
  | .loadRepoRoot _ => Except StorageError (Option L.Cid)
  | .readBlock _ => Except StorageError L.Block
  | .writeBlock _ => Except StorageError L.Cid
  | .tree _ _ => Except String (L.Cid × List L.Cid)
  | .commitBlocks _ _ _ _ => Except StorageError Nat

abbrev writerSig (L : RepoLib) : Sig := ⟨WriterOp L, WriterOp.Ret⟩

/-- A store call can fail. A tree operation that fails may have written
some of its nodes by then. -/
inductive WriterFate where
  | done
  | fault (msg : String) (part : Nat)
deriving DecidableEq

/-- A lock is taken when it is free, and only taking it waits. -/
def WriterOp.exec {L : RepoLib} (i : Nat) (s : RepoStore L) :
    (o : WriterOp L) → WriterFate → Option (o.Ret × RepoStore L)
  | .lock did, .done =>
      if s.locks.contains did then none else some ((), { s with locks := s.locks.insert did i })
  | .lock _, .fault _ _ => none
  | .unlock did, _ => some ((), { s with locks := s.locks.remove did })
  | .send e, _ => some ((), { s with sent := s.sent ++ [e] })
  | .loadRepoRoot did, .done => some (.ok (s.roots.get did), s)
  | .loadRepoRoot _, .fault msg _ => some (.error (.backend msg), s)
  | .readBlock cid, .done =>
      match s.blocks.get cid with
      | some b => some (.ok b, s)
      | none => some (.error .blockNotFound, s)
  | .readBlock _, .fault msg _ => some (.error (.backend msg), s)
  | .writeBlock b, .done => some (.ok (L.cidOf b), { s with blocks := putBlock s.blocks b })
  | .writeBlock _, .fault msg _ => some (.error (.backend msg), s)
  | .tree root op, .done =>
      match L.tree s.blocks.get root op with
      | .ok (root', nodes) =>
          some (.ok (root', nodes.map L.cidOf), { s with blocks := putBlocks s.blocks nodes })
      | .error e => some (.error e, s)
  | .tree root op, .fault msg part =>
      match L.tree s.blocks.get root op with
      | .ok (_, nodes) =>
          some (.error msg, { s with blocks := putBlocks s.blocks (nodes.take part) })
      | .error e => some (.error e, s)
  | .commitBlocks blocks did newRoot event, .done =>
      some (.ok (s.lastSeq + 1), s.commitBlocks blocks did newRoot event)
  | .commitBlocks _ _ _ _, .fault msg _ => some (.error (.backend msg), s)

/-- The machine that runs the writers of all repositories over one store. -/
def writerMachine (L : RepoLib) : Machine (writerSig L) (RepoStore L) WriterFate where
  exec i s o c := WriterOp.exec i s o c

end Stelyph
