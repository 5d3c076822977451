import Stelyph.Lib.Format
import Stelyph.RepoBlocks

/-!
# Frames, and what a subscriber makes of them

`rust-core/src/firehose/frame.rs` and `tail.rs`. A frame is the dag-cbor
of its header followed by the dag-cbor of its body, with nothing in
between: a reader takes one value off the front, looks at `op` and `t`,
and reads the body from what is left. `verify_commit_sig` then finds the
commit block in the CAR file of the body, encodes its fields but the
signature again, and checks the signature over those bytes.
-/

namespace Stelyph

/-- A dag-cbor value, as far as a header is looked at. -/
inductive IpldValue where
  | integer (n : Int)
  | string (s : String)
  | map (fields : List (String × IpldValue))
  | other

/-- The first of the two values of a frame: what kind of message follows. -/
structure MessageHeader where
  op : Int
  t : String
deriving DecidableEq, Repr

/-- Why a frame is not an event to be believed. -/
inductive TailError where
  | notCommit
  | decode (msg : String)
  | car (msg : String)
  | commitDecode (msg : String)
  | sig (msg : String)
deriving DecidableEq, Repr

/-- The codec of frames. Its readers take one value off the front. -/
structure FrameLib (Cid Car : Type) where
  encodeHeader : MessageHeader → Bytes
  encodeBody : CommitBody Cid Car → Bytes
  readIpld : Bytes → Except String (IpldValue × Bytes)
  readBody : Bytes → Except String (CommitBody Cid Car × Bytes)

namespace FrameLib

variable {Cid Car : Type} (F : FrameLib Cid Car)

/-- A frame of the stream: the header with the type of the message, and
the body behind it, with nothing to part them. -/
def encodeMessageFrame (t : String) (body : CommitBody Cid Car) : Bytes :=
  F.encodeHeader ⟨1, t⟩ ++ F.encodeBody body

/-- `op` and `t` of a header. -/
def headerOf : IpldValue → Except TailError (Int × Option String)
  | .map fields =>
      match fields.lookup "op" with
      | some (.integer op) =>
          match fields.lookup "t" with
          | some (.string t) => .ok (op, some t)
          | _ => .ok (op, none)
      | _ => .error .notCommit
  | _ => .error (.decode "header not a map")

/-- The body of a `#commit` frame. What follows the body is not looked at. -/
def decodeCommitFrame (frame : Bytes) : Except TailError (CommitBody Cid Car) :=
  match F.readIpld frame with
  | .error e => .error (.decode s!"header: {e}")
  | .ok (header, rest) => do
      let (op, t) ← headerOf header
      if op ≠ 1 ∨ t ≠ some "#commit" then .error .notCommit
      else
        match F.readBody rest with
        | .error e => .error (.decode s!"body: {e}")
        | .ok (body, _) => .ok body

/-- What the code relies on in the codec: what is encoded is read back,
whatever bytes follow it, and the rest is what followed. -/
structure Laws : Prop where
  readIpld_header : ∀ header rest, F.readIpld (F.encodeHeader header ++ rest)
    = .ok (.map [("op", .integer header.op), ("t", .string header.t)], rest)
  readBody_body : ∀ body rest, F.readBody (F.encodeBody body ++ rest) = .ok (body, rest)

variable {F}

theorem Laws.decode_encode (hF : F.Laws) (body : CommitBody Cid Car) :
    F.decodeCommitFrame (F.encodeMessageFrame "#commit" body) = .ok body := by
  have hbody := hF.readBody_body body []
  rw [List.append_nil] at hbody
  rw [decodeCommitFrame, encodeMessageFrame, hF.readIpld_header]
  simp [headerOf, List.lookup_cons, hbody, bind, Except.bind]

end FrameLib

/-! ### A codec -/

/-- An op as its three members. -/
def opFormat {Cid : Type} (cid : Format Cid) : Format (RepoOp Cid) :=
  (Format.string.pair (Format.string.pair cid.option)).along
    (fun o => (o.action, o.path, o.cid)) (fun p => ⟨p.1, p.2.1, p.2.2⟩) fun _ => rfl

/-- The members of a body, over any format of CIDs and CARs. -/
def bodyFormat {Cid Car : Type} (cid : Format Cid) (car : Format Car) :
    Format (CommitBody Cid Car) :=
  ((((Format.nat.pair Format.bool).pair Format.bool).pair
      (Format.string.pair (cid.pair Format.string))).pair
    ((Format.string.option.pair (car.pair (opFormat cid).list)).pair
      (cid.list.pair (Format.string.pair cid.option)))).along
    (fun b => ((((b.seq, b.rebase), b.tooBig), (b.repo, b.commit, b.rev)),
      ((b.since, b.blocks, b.ops), (b.blobs, b.time, b.prevData))))
    (fun p => ⟨p.1.1.1.1, p.1.1.1.2, p.1.1.2, p.1.2.1, p.1.2.2.1, p.1.2.2.2, p.2.1.1, p.2.1.2.1,
      p.2.1.2.2, p.2.2.1, p.2.2.2.1, p.2.2.2.2⟩)
    fun _ => rfl

/-- The header as a sign, a number and a text. -/
def headerFormat : Format MessageHeader :=
  ((Format.bool.pair Format.nat).pair Format.string).along
    (fun h => ((decide (0 ≤ h.op), h.op.natAbs), h.t))
    (fun p => ⟨if p.1.1 then p.1.2 else -p.1.2, p.2⟩)
    (by
      rintro ⟨op, t⟩
      by_cases h : 0 ≤ op
      · have habs : (op.natAbs : Int) = op := by omega
        simp [h, habs]
      · have habs : -(op.natAbs : Int) = op := by omega
        simpa [h] using habs)

/-- Formats of CIDs and CAR files make a codec of frames. -/
def FrameLib.ofFormats {Cid Car : Type} (cid : Format Cid) (car : Format Car) :
    FrameLib Cid Car where
  encodeHeader := headerFormat.write
  encodeBody := (bodyFormat cid car).write
  readIpld bytes :=
    match headerFormat.read bytes with
    | none => .error "end of input"
    | some (h, rest) => .ok (.map [("op", .integer h.op), ("t", .string h.t)], rest)
  readBody bytes :=
    match (bodyFormat cid car).read bytes with
    | none => .error "end of input"
    | some r => .ok r

theorem FrameLib.laws_ofFormats {Cid Car : Type} (cid : Format Cid) (car : Format Car) :
    (FrameLib.ofFormats cid car).Laws where
  readIpld_header h rest := by
    simp only [FrameLib.ofFormats, headerFormat.read_write]
  readBody_body b rest := by
    simp only [FrameLib.ofFormats, (bodyFormat cid car).read_write]

/-! ### Blocks of the small library as bytes -/

/-- A block in postfix order. -/
inductive SampleToken where
  | record (n : Nat)
  | leaf
  | entry (key : String)
  | first (did : String) (version : Nat) (rev : String) (sig : Bytes)
  | next (did : String) (version : Nat) (rev : String) (sig : Bytes)

def SampleToken.format : Format SampleToken :=
  (Format.nat.pair (Format.string.list.pair (Format.nat.pair Format.bytes))).along
    (fun
      | .record n => (0, [], n, [])
      | .leaf => (1, [], 0, [])
      | .entry key => (2, [key], 0, [])
      | .first did version rev sig => (3, [did, rev], version, sig)
      | .next did version rev sig => (4, [did, rev], version, sig))
    (fun
      | (0, _, n, _) => .record n
      | (2, [key], _) => .entry key
      | (3, [did, rev], version, sig) => .first did version rev sig
      | (4, [did, rev], version, sig) => .next did version rev sig
      | _ => .leaf)
    (by intro t; cases t <;> rfl)

namespace SampleBlock

def tokens : SampleBlock → List SampleToken
  | .record n => [.record n]
  | .leaf => [.leaf]
  | .entry key cid rest => tokens cid ++ tokens rest ++ [.entry key]
  | .first did version data rev sig => tokens data ++ [.first did version rev sig]
  | .next did version data rev prev sig =>
      tokens data ++ tokens prev ++ [.next did version rev sig]

def push : List SampleBlock → SampleToken → List SampleBlock
  | stack, .record n => .record n :: stack
  | stack, .leaf => .leaf :: stack
  | rest :: cid :: stack, .entry key => .entry key cid rest :: stack
  | data :: stack, .first did version rev sig => .first did version data rev sig :: stack
  | prev :: data :: stack, .next did version rev sig =>
      .next did version data rev prev sig :: stack
  | stack, _ => stack

theorem foldl_tokens (b : SampleBlock) (stack : List SampleBlock) :
    b.tokens.foldl push stack = b :: stack := by
  induction b generalizing stack with
  | record n => rfl
  | leaf => rfl
  | entry key cid rest ihcid ihrest => simp [tokens, push, ihcid, ihrest]
  | first did version data rev sig ih => simp [tokens, push, ih]
  | next did version data rev prev sig ihdata ihprev => simp [tokens, push, ihdata, ihprev]

def format : Format SampleBlock :=
  SampleToken.format.list.along tokens (fun ts => (ts.foldl push []).headD .leaf)
    (fun b => by rw [foldl_tokens]; rfl)

def carFormat : Format sampleRepo.Car := format.pair (format.pair format).list

end SampleBlock

/-! ## Signatures -/

/-- What the verifier calls: the CAR reader, which hands out the roots and
then block after block, the decoder of a commit block, and the signature
check against a did:key. -/
structure TailLib (L : RepoLib) where
  carRoots : L.Car → Except String (List L.Cid)
  carBlocks : L.Car → List (Except String (L.Cid × L.Block))
  decodeSigned : L.Block → Except String (SignedCommit L.Cid)
  verifySignature : String → Bytes → Bytes → Except String Unit
  displayCid : L.Cid → String

namespace TailLib

variable {L : RepoLib} (T : TailLib L)

/-- The first block under the expected CID. -/
def nextBlocks (expected : L.Cid) :
    List (Except String (L.Cid × L.Block)) → Except TailError L.Block
  | [] => .error (.car "commit block not found in CAR")
  | .error e :: _ => .error (.car s!"next_block: {e}")
  | .ok (cid, block) :: rest => if cid = expected then .ok block else nextBlocks expected rest

/-- The block of the commit: the CAR has to name it as its root, and holds
it under its own CID. -/
def extractCommitBlock (car : L.Car) (expected : L.Cid) : Except TailError L.Block :=
  match T.carRoots car with
  | .error e => .error (.car s!"CarReader::new: {e}")
  | .ok roots =>
      if roots.head? ≠ some expected then
        .error (.car s!"CAR root != commit CID {T.displayCid expected}")
      else nextBlocks expected (T.carBlocks car)

/-- The bytes that were signed, made again from the commit that carries
the signature: all of its fields but that one. -/
def reconstructUnsigned (signed : SignedCommit L.Cid) : Except String Bytes :=
  L.encodeUnsigned ⟨signed.did, signed.version, signed.data, signed.rev, signed.prev⟩

/-- `none` is the panic on a commit that does not encode again. -/
def verifyCommitSig (body : CommitBody L.Cid L.Car) (signerDidKey : String) :
    Option (Except TailError Unit) :=
  match T.extractCommitBlock body.blocks body.commit with
  | .error e => some (.error e)
  | .ok block =>
      match T.decodeSigned block with
      | .error e => some (.error (.commitDecode e))
      | .ok signed =>
          match reconstructUnsigned signed with
          | .error _ => none
          | .ok unsigned =>
              some ((T.verifySignature signerDidKey unsigned signed.sig).mapError .sig)

end TailLib

end Stelyph
