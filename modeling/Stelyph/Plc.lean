import Stelyph.Errors
import Stelyph.Lib.Text

/-!
# Genesis operations of the PLC directory

`identity/plc.rs`: the operation is built unsigned, its dag-cbor signed
with the rotation key, and the DID is a hash of the signed operation.
The codec, the hash and the signature are the crates'; the model takes
them as `PlcCrypto`.
-/

namespace Stelyph

structure PlcService where
  serviceType : String
  endpoint : String
deriving DecidableEq, Repr

structure PlcGenesisOpUnsigned where
  opType : String
  rotationKeys : List String
  verificationMethods : List (String × String)
  alsoKnownAs : List String
  services : List (String × PlcService)
  prev : Option String
deriving DecidableEq, Repr

structure PlcGenesisOpSigned extends PlcGenesisOpUnsigned where
  sig : String
deriving DecidableEq, Repr

/-- Keypairs, dag-cbor, base64url, and the lower-case base32 of a
SHA-256 digest. -/
structure PlcCrypto (Keypair : Type) where
  keyDid : Keypair → String
  exportKey : Keypair → Bytes
  encodeUnsigned : PlcGenesisOpUnsigned → Except String Bytes
  encodeSigned : PlcGenesisOpSigned → Except String Bytes
  sign : Keypair → Bytes → Except String Bytes
  base64url : Bytes → String
  digestBase32 : Bytes → String

section

variable {Keypair : Type} (crypto : PlcCrypto Keypair)

def genesisUnsigned (handle pdsEndpoint : String) (signingKey rotationKey : Keypair) :
    PlcGenesisOpUnsigned where
  opType := "plc_operation"
  rotationKeys := [crypto.keyDid rotationKey]
  verificationMethods := [("atproto", crypto.keyDid signingKey)]
  alsoKnownAs := [s!"at://{handle}"]
  services := [("atproto_pds", ⟨"AtprotoPersonalDataServer", pdsEndpoint⟩)]
  prev := none

/-- Steps 1 to 5 of `register_did_plc`: the signed operation and the DID
it derives. -/
def signGenesis (handle pdsEndpoint : String) (signingKey rotationKey : Keypair) :
    Except CoreError (String × PlcGenesisOpSigned) := do
  let unsigned := genesisUnsigned crypto handle pdsEndpoint signingKey rotationKey
  let unsignedCbor ← (crypto.encodeUnsigned unsigned).mapError fun e =>
    .internal s!"dag-cbor encode unsigned: {e}"
  let sigBytes ← (crypto.sign rotationKey unsignedCbor).mapError fun e =>
    .internal s!"secp256k1 sign error: {e}"
  let signed := { unsigned with sig := crypto.base64url sigBytes }
  let signedCbor ← (crypto.encodeSigned signed).mapError fun e =>
    .internal s!"dag-cbor encode signed: {e}"
  let didSuffix := Text.takeChars (crypto.digestBase32 signedCbor) 24
  return (s!"did:plc:{didSuffix}", signed)

variable {crypto}

/-- The operation names the handle it was built for, and no other. -/
theorem signGenesis_alsoKnownAs {handle pdsEndpoint did : String}
    {signingKey rotationKey : Keypair} {op : PlcGenesisOpSigned}
    (h : signGenesis crypto handle pdsEndpoint signingKey rotationKey = .ok (did, op)) :
    op.alsoKnownAs = [s!"at://{handle}"] := by
  unfold signGenesis at h
  simp only [bind, Except.bind] at h
  split at h
  · cases h
  · split at h
    · cases h
    · split at h
      · cases h
      · obtain ⟨-, rfl⟩ := Prod.mk.injEq .. |>.mp (Except.ok.inj h)
        rfl

end

/-- Keys that are numbers, and codecs that keep the handle readable. -/
def samplePlc : PlcCrypto Nat where
  keyDid k := s!"did:key:{k}"
  exportKey k := [UInt8.ofNat k]
  encodeUnsigned op := .ok (op.alsoKnownAs.flatMap fun a => a.toList.map fun c => c.toUInt8)
  encodeSigned op := .ok (op.alsoKnownAs.flatMap fun a => a.toList.map fun c => c.toUInt8)
  sign _ b := .ok b
  base64url b := String.ofList (b.map fun x => Char.ofUInt8 x)
  digestBase32 b := String.ofList (b.map fun x => Char.ofUInt8 x)

end Stelyph
