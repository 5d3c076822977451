import Stelyph.FirehoseEmbedded
import Stelyph.Lib.ByteReader
import Stelyph.Lib.Rfc6455
import Stelyph.Lib.Usize

/-!
# The frames of the embedded WebSocket host

`write_frame` and `read_frame` of `rust-core/src/server/firehose_ws.rs`.
A server frame is final and unmasked; a client frame is whatever the base
framing allows, up to a cap on its payload. Reading a frame is a chain of
`read_exact`s over the socket.

Both sides are compared with the framing of RFC 6455 and not with each
other: what is written is a frame (`wire_writeFrame`), and of any frame
the reader takes exactly its octets (`readFrame_wire`).
-/

namespace Stelyph

open Rfc6455 (Wire PayloadLength transform)

inductive IoError where
  | unexpectedEof
  | other (message : String)
deriving DecidableEq

/-! ## Writing -/

def frameHeader (opcode : UInt8) (len : Nat) : Bytes :=
  (0x80 ||| (opcode &&& 0x0f)) ::
    if len < 126 then [UInt8.ofNat len]
    else if len ≤ 0xffff then 126 :: Octets.big 2 len
    else 127 :: Octets.big 8 len

/-- One unmasked server frame, FIN set: the header for the length of the
payload, and the payload. -/
def writeFrame (opcode : UInt8) (payload : Bytes) : Bytes :=
  frameHeader opcode payload.length ++ payload

/-! ## Reading -/

/-- The largest payload that is read. -/
def maxClientFrame : Nat := 64 * 1024

/-- The seven bits of length, or the number they announce. -/
def readLength (len : Nat) : Reader IoError Nat := do
  if len = 126 then
    let ext ← Reader.exactly 2
    return Octets.ofBig ext
  else if len = 127 then
    let ext ← Reader.exactly 8
    return Octets.ofBig ext
  else return len

def readMask (masked : Bool) : Reader IoError Bytes :=
  if masked then Reader.exactly 4 else return [0, 0, 0, 0]

def unmask (mask payload : Bytes) : Bytes :=
  payload.mapIdx fun i b => b ^^^ mask.getD (i % 4) 0

/-- The host's `read_frame`: two bytes, what they say of the length, the
mask, and a payload that is not too long, unmasked where there was a mask.
-/
def readFrame : Reader IoError ClientFrame := do
  let head ← Reader.exactly 2
  let opcode := head.getD 0 0 &&& 0x0f
  let masked := head.getD 1 0 &&& 0x80 != 0
  let len ← readLength (head.getD 1 0 &&& 0x7f).toNat
  if len > maxClientFrame then Reader.raise (.other "client frame too large")
  else
    let mask ← readMask masked
    let payload ← Reader.exactly len
    return ⟨opcode, if masked then unmask mask payload else payload⟩

/-! ## Bits of an octet -/

theorem and_0x7f (b : UInt8) : (b &&& 0x7f).toNat = b.toNat % 128 := by
  rw [UInt8.toNat_and]
  exact Nat.and_two_pow_sub_one_eq_mod b.toNat 7

theorem and_0x0f (b : UInt8) : (b &&& 0x0f).toNat = b.toNat % 16 := by
  rw [UInt8.toNat_and]
  exact Nat.and_two_pow_sub_one_eq_mod b.toNat 4

theorem or_0x80 {b : UInt8} (h : b.toNat < 128) : (0x80 ||| b).toNat = 128 + b.toNat := by
  rw [UInt8.toNat_or]
  exact (Nat.two_pow_add_eq_or_of_lt (i := 7) h 1).symm

theorem and_0x80 (b : UInt8) : (b &&& 0x80 != 0) = decide (128 ≤ b.toNat) := by
  have hall : ∀ n : Fin 256, n.val &&& 128 = 0 ↔ ¬ 128 ≤ n.val := by decide +kernel
  have hzero : b &&& 0x80 = 0 ↔ ¬ 128 ≤ b.toNat := by
    rw [← UInt8.toNat_inj, UInt8.toNat_and]
    exact hall ⟨b.toNat, b.toNat_lt⟩
  by_cases h : 128 ≤ b.toNat
  · rw [decide_eq_true h, bne_iff_ne, ne_eq, hzero]
    exact not_not_intro h
  · rw [decide_eq_false h, bne_eq_false_iff_eq, hzero]
    exact h

/-! ## What is written -/

/-- A final frame without extension bits. -/
def singleFrame (opcode : Fin 16) (maskingKey : Option (Vector UInt8 4)) (payload : Bytes) :
    Rfc6455.Frame :=
  ⟨true, 0, opcode, maskingKey, payload⟩

/-- The three lengths of the header are those of the framing. -/
theorem frameHeader_cases (opcode : UInt8) {len : Nat} (hlen : len < 2 ^ 63) :
    ∃ (second : UInt8) (ext : Bytes),
      frameHeader opcode len = (0x80 ||| (opcode &&& 0x0f)) :: second :: ext
        ∧ PayloadLength len second.toNat ext := by
  unfold frameHeader
  split_ifs with hseven hsixteen
  · refine ⟨UInt8.ofNat len, [], rfl, ?_⟩
    rw [UInt8.toNat_ofNat', Nat.mod_eq_of_lt (by omega)]
    exact .seven hseven
  · exact ⟨126, _, rfl, .sixteen (by omega) (by omega)⟩
  · exact ⟨127, _, rfl, .sixtyFour (by omega) hlen⟩

theorem toNat_first (opcode : Fin 16) :
    (0x80 ||| (UInt8.ofNat opcode.val &&& 0x0f)).toNat = 128 + opcode.val := by
  have hop : (UInt8.ofNat opcode.val &&& 0x0f).toNat = opcode.val := by
    rw [and_0x0f, UInt8.toNat_ofNat']
    omega
  rw [or_0x80 (by rw [hop]; omega), hop]

theorem wire_writeFrame {T : Target} (opcode : Fin 16) (payload : T.Slice) :
    Wire (singleFrame opcode none payload.bytes)
      (writeFrame (UInt8.ofNat opcode.val) payload.bytes) := by
  obtain ⟨second, ext, hheader, hlen⟩ := frameHeader_cases (UInt8.ofNat opcode.val)
    (Nat.lt_of_le_of_lt payload.bound Target.isizeMax_lt)
  rw [writeFrame, hheader]
  refine .mk ?_ ?_ hlen
  · rw [toNat_first]
    simp [singleFrame]
  · simp [singleFrame]

/-- The layout of `write_frame` with the mask bit set, and with the mask
and the masked payload after the header. -/
def maskedLayout (opcode : UInt8) (mask : Vector UInt8 4) (payload : Bytes) : Bytes :=
  match frameHeader opcode payload.length with
  | first :: second :: ext =>
      first :: (0x80 ||| second) :: (ext ++ (mask.toList ++ transform mask payload))
  | header => header

theorem wire_maskedLayout (opcode : Fin 16) (mask : Vector UInt8 4) {payload : Bytes}
    (h : payload.length < 2 ^ 63) :
    Wire (singleFrame opcode (some mask) payload)
      (maskedLayout (UInt8.ofNat opcode.val) mask payload) := by
  obtain ⟨second, ext, hheader, hlen⟩ := frameHeader_cases (UInt8.ofNat opcode.val) h
  rw [maskedLayout, hheader]
  refine .mk ?_ ?_ hlen
  · rw [toNat_first]
    simp [singleFrame]
  · rw [or_0x80 hlen.field_lt]
    simp [singleFrame]

/-! ## What is read -/

theorem poll_readLength {α : Type} {n field : Nat} {ext : Bytes} (h : PayloadLength n field ext)
    (f : Nat → Reader IoError α) (rest : Bytes) :
    ((readLength field).bind f).poll (ext ++ rest) = (f n).poll rest := by
  cases h with
  | seven hn =>
      rw [readLength, if_neg (by omega), if_neg (by omega)]
      rfl
  | sixteen hge hlt =>
      rw [readLength, if_pos rfl]
      show ((Reader.exactly 2).bind fun bs => f (Octets.ofBig bs)).poll _ = _
      rw [Reader.poll_exactly_bind (Octets.length_big ..), Octets.ofBig_big hlt]
  | sixtyFour hge hlt =>
      rw [readLength, if_neg (by omega), if_pos rfl]
      show ((Reader.exactly 8).bind fun bs => f (Octets.ofBig bs)).poll _ = _
      rw [Reader.poll_exactly_bind (Octets.length_big ..), Octets.ofBig_big (by omega)]

theorem unmask_toList (key : Vector UInt8 4) (xs : Bytes) :
    unmask key.toList xs = transform key xs := by
  unfold unmask transform
  congr 1
  funext i b
  have hlt : i % 4 < 4 := by omega
  simp [List.getD, hlt]

/-- What `read_frame` makes of a frame. -/
def readResult (f : Rfc6455.Frame) : Except IoError ClientFrame :=
  if f.payload.length ≤ maxClientFrame then .ok ⟨UInt8.ofNat f.opcode.val, f.payload⟩
  else .error (.other "client frame too large")

/-- The mask, the payload, and the mask taken off again. -/
theorem poll_readBody (f : Rfc6455.Frame) (opcode : UInt8) (rest : Bytes) :
    ((readMask f.maskingKey.isSome).bind fun mask =>
      (Reader.exactly f.payload.length).bind fun payload =>
        (Reader.done (.ok ⟨opcode, if f.maskingKey.isSome then unmask mask payload else payload⟩)
          : Reader IoError ClientFrame)).poll (f.body ++ rest)
      = (.done (.ok ⟨opcode, f.payload⟩), rest) := by
  unfold Rfc6455.Frame.body
  cases f.maskingKey with
  | none =>
      show ((Reader.exactly f.payload.length).bind _).poll _ = _
      rw [Reader.poll_exactly_bind rfl]
      rfl
  | some key =>
      show ((Reader.exactly 4).bind _).poll (key.toList ++ transform key f.payload ++ rest) = _
      rw [List.append_assoc, Reader.poll_exactly_bind (Vector.length_toList ..),
        Reader.poll_exactly_bind (Rfc6455.length_transform ..), Reader.poll_done]
      simp only [Option.isSome_some, if_true, unmask_toList, Rfc6455.transform_transform]

/-- It takes the octets of one frame, or gives up at the length. -/
theorem readFrame_wire {f : Rfc6455.Frame} {bs : Bytes} (h : Wire f bs) (rest : Bytes) :
    readFrame.poll (bs ++ rest)
      = (.done (readResult f), if f.payload.length ≤ maxClientFrame then rest
          else f.body ++ rest) := by
  obtain @⟨first, second, field, ext, hfirst, hsecond, hlen⟩ := h
  have hlt := hlen.field_lt
  have hop : first &&& 0x0f = UInt8.ofNat f.opcode.val := by
    apply UInt8.toNat_inj.mp
    rw [and_0x0f, UInt8.toNat_ofNat']
    omega
  have hmasked : (second &&& 0x80 != 0) = f.maskingKey.isSome := by
    rw [and_0x80]
    cases hkey : f.maskingKey.isSome <;> rw [hkey] at hsecond <;> simp at hsecond ⊢ <;> omega
  have hfield : (second &&& 0x7f).toNat = field := by
    rw [and_0x7f]
    omega
  show ((Reader.exactly 2).bind _).poll ([first, second] ++ (ext ++ f.body) ++ rest) = _
  rw [List.append_assoc, List.append_assoc, Reader.poll_exactly_bind (show [_, _].length = 2 from rfl)]
  simp only [List.getD_cons_zero, List.getD_cons_succ, hop, hmasked, hfield]
  refine (poll_readLength hlen _ _).trans ?_
  by_cases hcap : f.payload.length ≤ maxClientFrame
  · rw [if_neg (by omega), readResult, if_pos hcap, if_pos hcap]
    exact poll_readBody f _ rest
  · rw [if_pos (by omega), readResult, if_neg hcap, if_neg hcap]
    rfl

theorem poll_maskedLayout (opcode : Fin 16) (mask : Vector UInt8 4) {payload : Bytes}
    (h : payload.length ≤ maxClientFrame) (rest : Bytes) :
    readFrame.poll (maskedLayout (UInt8.ofNat opcode.val) mask payload ++ rest)
      = (.done (.ok ⟨UInt8.ofNat opcode.val, payload⟩), rest) := by
  have hlen : payload.length < 2 ^ 63 := by
    unfold maxClientFrame at h
    omega
  have hcap : (singleFrame opcode (some mask) payload).payload.length ≤ maxClientFrame := h
  have hread := readFrame_wire (wire_maskedLayout opcode mask hlen) rest
  rw [readResult, if_pos hcap, if_pos hcap] at hread
  exact hread

/-! ## Back to back -/

/-- So many frames, one after the other. -/
def readFrames : Nat → Reader IoError (List ClientFrame)
  | 0 => return []
  | n + 1 => do
      let frame ← readFrame
      let frames ← readFrames n
      return frame :: frames

/-- A frame a client sends: its opcode, its mask and its payload. -/
structure MaskedFrame where
  opcode : Fin 16
  mask : Vector UInt8 4
  payload : Bytes

namespace MaskedFrame

def layout (m : MaskedFrame) : Bytes := maskedLayout (UInt8.ofNat m.opcode.val) m.mask m.payload

def frame (m : MaskedFrame) : ClientFrame := ⟨UInt8.ofNat m.opcode.val, m.payload⟩

end MaskedFrame

theorem poll_readFrames {ms : List MaskedFrame}
    (h : ∀ m ∈ ms, m.payload.length ≤ maxClientFrame) (rest : Bytes) :
    (readFrames ms.length).poll (ms.flatMap MaskedFrame.layout ++ rest)
      = (.done (.ok (ms.map MaskedFrame.frame)), rest) := by
  induction ms with
  | nil => rfl
  | cons m ms ih =>
      have hm := poll_maskedLayout m.opcode m.mask (h m List.mem_cons_self)
        (ms.flatMap MaskedFrame.layout ++ rest)
      have hms := ih fun m' hm' => h m' (List.mem_cons_of_mem _ hm')
      rw [List.flatMap_cons, List.append_assoc]
      refine (Reader.poll_bind hm _).trans ?_
      exact Reader.poll_bind hms _

/-- What the host writes is one whole frame, with its length as short as
it can be, and what it reads of a client's frame is that frame and its
octets. -/
theorem frames_round_trip :
    (∀ (T : Target) (opcode : Fin 16) (payload : T.Slice),
      Wire (singleFrame opcode none payload.bytes)
        (writeFrame (UInt8.ofNat opcode.val) payload.bytes))
    ∧ (∀ (opcode : Fin 16) (mask : Vector UInt8 4) (payload : Bytes),
      payload.length ≤ maxClientFrame → ∀ rest : Bytes,
        readFrame.poll (maskedLayout (UInt8.ofNat opcode.val) mask payload ++ rest)
          = (.done (.ok ⟨UInt8.ofNat opcode.val, payload⟩), rest))
    ∧ ∀ ms : List MaskedFrame, (∀ m ∈ ms, m.payload.length ≤ maxClientFrame) → ∀ rest : Bytes,
        (readFrames ms.length).poll (ms.flatMap MaskedFrame.layout ++ rest)
          = (.done (.ok (ms.map MaskedFrame.frame)), rest) :=
  ⟨fun _ opcode payload => wire_writeFrame opcode payload,
    fun opcode mask _ h rest => poll_maskedLayout opcode mask h rest,
    fun _ h rest => poll_readFrames h rest⟩

def samplePing : MaskedFrame := ⟨9, #v[0x12, 0x34, 0x56, 0x78], [0x68, 0x69]⟩

def sampleClose : MaskedFrame := ⟨8, #v[0xff, 0x00, 0xff, 0x00], [0x03, 0xe8]⟩

/-- A ping and the close behind it. -/
theorem ping_then_close :
    (readFrames 2).poll ([0x89, 0x82, 0x12, 0x34, 0x56, 0x78, 0x7a, 0x5d]
        ++ [0x88, 0x82, 0xff, 0x00, 0xff, 0x00, 0xfc, 0xe8])
      = (.done (.ok [⟨9, [0x68, 0x69]⟩, ⟨8, [0x03, 0xe8]⟩]), []) :=
  frames_round_trip.2.2 [samplePing, sampleClose] (by decide) []

end Stelyph
