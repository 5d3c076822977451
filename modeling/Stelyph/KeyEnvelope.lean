import Stelyph.Lib.Prog
import Stelyph.SqlTables

/-!
# Keys at rest

`storage/crypto.rs`: a key is sealed under a passphrase and its blob is
kept in a `KeyStore`, which moves ciphertext only. The key derivation runs
on a blocking thread where the platform has one, and that thread can be
lost.
-/

namespace Stelyph

open Backend (KeyStoreOp)
open Backend.Sql (serveKey)

namespace Crypto

/-- argon2id and AES-256-GCM, as the functions the envelope calls: each
may fail, and decryption does where the tag does not fit. -/
structure KeyCrypto where
  hashPasswordInto : (passphrase salt : Bytes) → Except String Bytes
  encrypt : (key nonce plaintext : Bytes) → Option Bytes
  decrypt : (key nonce ciphertext : Bytes) → Option Bytes

/-- What was encrypted under a key and a nonce is decrypted under them. -/
structure KeyCrypto.Laws (C : KeyCrypto) : Prop where
  decrypt_encrypt : ∀ {key nonce plaintext ciphertext},
    C.encrypt key nonce plaintext = some ciphertext →
      C.decrypt key nonce ciphertext = some plaintext

/-- What one sealing draws from the system. -/
structure SealDraw where
  salt : Bytes
  nonce : Bytes
  length_salt : salt.length = 16
  length_nonce : nonce.length = 12

section

variable (C : KeyCrypto)

/-- The layout is `salt(16) ++ nonce(12) ++ ciphertext`. -/
def encryptKey (draw : SealDraw) (plaintext passphrase : Bytes) : Except StorageError Bytes := do
  let key ← (C.hashPasswordInto passphrase draw.salt).mapError .crypto
  match C.encrypt key draw.nonce plaintext with
  | none => .error (.crypto "AES-GCM encrypt failed")
  | some ciphertext => .ok (draw.salt ++ (draw.nonce ++ ciphertext))

/-- Salt, nonce and ciphertext, one behind the other. A wrong passphrase
is told by the tag alone. -/
def decryptKey (blob passphrase : Bytes) : Except StorageError Bytes := do
  if blob.length < 28 then .error (.crypto "blob too short")
  else
    let salt := blob.take 16
    let rest := blob.drop 16
    let key ← (C.hashPasswordInto passphrase salt).mapError .crypto
    match C.decrypt key (rest.take 12) (rest.drop 12) with
    | none => .error (.crypto "wrong passphrase or corrupted key")
    | some plaintext => .ok plaintext

variable {C}

/-- Under the passphrase it was sealed with, a blob opens to what was sealed. -/
theorem decryptKey_encryptKey (laws : C.Laws) {draw : SealDraw}
    {plaintext passphrase blob : Bytes} (h : encryptKey C draw plaintext passphrase = .ok blob) :
    decryptKey C blob passphrase = .ok plaintext := by
  obtain ⟨key, hkey, hseal⟩ := Prog.except_bind_ok h
  have hderived := Prog.except_mapError_ok hkey
  cases hciphertext : C.encrypt key draw.nonce plaintext with
  | none =>
      rw [hciphertext] at hseal
      cases hseal
  | some ciphertext =>
      rw [hciphertext] at hseal
      cases hseal
      have hlength : ¬ (draw.salt ++ (draw.nonce ++ ciphertext)).length < 28 := by
        simp only [List.length_append, draw.length_salt, draw.length_nonce]
        omega
      have htake : (draw.salt ++ (draw.nonce ++ ciphertext)).take 16 = draw.salt :=
        List.take_left' draw.length_salt
      have hdrop : (draw.salt ++ (draw.nonce ++ ciphertext)).drop 16 = draw.nonce ++ ciphertext :=
        List.drop_left' draw.length_salt
      rw [decryptKey, if_neg hlength, htake, hdrop]
      simp only [List.take_left' draw.length_nonce, List.drop_left' draw.length_nonce, hderived,
        Except.mapError, Except.bind, bind, laws.decrypt_encrypt hciphertext]

end

/-! ## The store, and what can go wrong with it -/

inductive KeyTask where
  | encrypt
  | decrypt
deriving DecidableEq, Repr

/-- A blocking task answers whether it ran to its end. -/
inductive KeyOp where
  | store (o : KeyStoreOp)
  | blocking (task : KeyTask)

abbrev KeyOp.Ret : KeyOp → Type
  | .store o => Except StorageError o.Value
  | .blocking _ => Bool

abbrev keySig : Sig := ⟨KeyOp, KeyOp.Ret⟩

abbrev KeyProg := Prog keySig

def KeyOp.call {ε : Type} (o : KeyStoreOp) : KeyProg ε (Except StorageError o.Value) :=
  Prog.ask (S := keySig) (.store o)

/-- What a call meets: which operations of the store fail, and with which
error, and which blocking tasks are lost. -/
structure KeyEnv where
  fault : KeyStoreOp → Option StorageError
  finishes : KeyTask → Bool

/-- One operation on the key store. One that fails has left the store as
it was; a blocking task ends or panics, and changes nothing either way. -/
def KeyEnv.exec (env : KeyEnv) (keys : Table String Bytes) :
    (o : KeyOp) → Option (o.Ret × Table String Bytes)
  | .store o =>
      match env.fault o with
      | some e => some (.error e, keys)
      | none => some (serveKey keys o)
  | .blocking task => some (env.finishes task, keys)

/-- Where there are no threads a task runs inline. -/
inductive Platform where
  | native
  | wasm32
deriving DecidableEq, Repr

def runBlocking {ε α : Type} (P : Platform) (task : KeyTask) (a : α) : KeyProg ε (Option α) :=
  match P with
  | .native => Prog.op (S := keySig) (.blocking task) fun finished =>
      .ret (if finished then some a else none)
  | .wasm32 => .ret (some a)

/-- The task comes back with its result. -/
def KeyEnv.Joins (env : KeyEnv) (P : Platform) (task : KeyTask) : Prop :=
  P = .native → env.finishes task = true

/-! ## Storing and loading -/

section

variable (C : KeyCrypto) (P : Platform)

def storeKey (draw : SealDraw) (ident : String) (plaintext passphrase : Bytes) :
    KeyProg StorageError Unit := do
  match ← runBlocking P .encrypt (encryptKey C draw plaintext passphrase) with
  | none => .fail (.crypto "key-encrypt task failed")
  | some sealed => do
      let blob ← Prog.ofExcept id sealed
      Prog.ofExcept id (← KeyOp.call (.putKeyBlob ident blob))

def loadKey (ident : String) (passphrase : Bytes) : KeyProg StorageError Bytes := do
  match ← Prog.ofExcept id (← KeyOp.call (.getKeyBlob ident)) with
  | none => .fail (.crypto "key not found")
  | some blob => do
      match ← runBlocking P .decrypt (decryptKey C blob passphrase) with
      | none => .fail (.crypto "key-decrypt task failed")
      | some opened => Prog.ofExcept id opened

end

/-! ## The runs -/

section

variable {C : KeyCrypto} {P : Platform} {env : KeyEnv} {keys : Table String Bytes}

theorem KeyEnv.exec_store_none {o : KeyStoreOp} (h : env.fault o = none) :
    env.exec keys (.store o) = some (serveKey keys o) := by
  rw [KeyEnv.exec, h]

theorem KeyEnv.exec_store_some {o : KeyStoreOp} {e : StorageError} (h : env.fault o = some e) :
    env.exec keys (.store o) = some (.error e, keys) := by
  rw [KeyEnv.exec, h]

theorem alone_runBlocking {ε α : Type} {task : KeyTask} (a : α) (h : env.Joins P task) :
    (runBlocking P task a : KeyProg ε (Option α)).alone env.exec keys
      = some (.ok (some a), keys) := by
  cases P with
  | wasm32 => rfl
  | native => simp [runBlocking, Prog.alone, KeyEnv.exec, h rfl]

theorem alone_runBlocking_lost {ε α : Type} {task : KeyTask} (a : α) (h : ¬ env.Joins P task) :
    (runBlocking P task a : KeyProg ε (Option α)).alone env.exec keys = some (.ok none, keys) := by
  cases P with
  | wasm32 => exact absurd (fun hP => by cases hP) h
  | native =>
      have hlost : env.finishes task = false :=
        Bool.eq_false_iff.mpr fun hfinished => h fun _ => hfinished
      simp [runBlocking, Prog.alone, KeyEnv.exec, hlost]

theorem alone_call {ε : Type} {o : KeyStoreOp} (h : env.fault o = none) :
    (KeyOp.call o : KeyProg ε _).alone env.exec keys
      = some (.ok (serveKey keys o).1, (serveKey keys o).2) := by
  rw [KeyOp.call, Prog.ask, Prog.alone, KeyEnv.exec_store_none h]
  rfl

theorem alone_call_fault {ε : Type} {o : KeyStoreOp} {e : StorageError} (h : env.fault o = some e) :
    (KeyOp.call o : KeyProg ε _).alone env.exec keys = some (.ok (.error e), keys) := by
  rw [KeyOp.call, Prog.ask, Prog.alone, KeyEnv.exec_store_some h]
  rfl

variable {ident : String} {passphrase : Bytes}

theorem alone_loadKey {blob plaintext : Bytes} (hblob : keys.get ident = some blob)
    (hopens : decryptKey C blob passphrase = .ok plaintext)
    (hread : env.fault (.getKeyBlob ident) = none) (hjoins : env.Joins P .decrypt) :
    (loadKey C P ident passphrase).alone env.exec keys = some (.ok plaintext, keys) := by
  refine (Prog.alone_bind_ok (alone_call hread)).trans ?_
  rw [serveKey, hblob]
  refine (Prog.alone_bind_ok (alone_runBlocking _ hjoins)).trans ?_
  rw [hopens]
  rfl

/-- A blob is there, and the load ends with an error all the same. -/
theorem alone_loadKey_lost {blob : Bytes} (hblob : keys.get ident = some blob)
    (hlost : ¬ (env.fault (.getKeyBlob ident) = none ∧ env.Joins P .decrypt)) :
    ∃ e, (loadKey C P ident passphrase).alone env.exec keys = some (.error e, keys) := by
  cases hread : env.fault (.getKeyBlob ident) with
  | some e => exact ⟨e, Prog.alone_bind_ok (alone_call_fault hread)⟩
  | none =>
      have hjoins : ¬ env.Joins P .decrypt := fun h => hlost ⟨hread, h⟩
      refine ⟨.crypto "key-decrypt task failed", (Prog.alone_bind_ok (alone_call hread)).trans ?_⟩
      rw [serveKey, hblob]
      exact Prog.alone_bind_ok (alone_runBlocking_lost _ hjoins)

/-- The plaintext is sealed into this blob, and the store takes it. -/
def Stores (C : KeyCrypto) (P : Platform) (env : KeyEnv) (draw : SealDraw) (ident : String)
    (plaintext passphrase blob : Bytes) : Prop :=
  env.Joins P .encrypt ∧ encryptKey C draw plaintext passphrase = .ok blob
    ∧ env.fault (.putKeyBlob ident blob) = none

variable {draw : SealDraw} {plaintext : Bytes}

theorem alone_storeKey {blob : Bytes} (h : Stores C P env draw ident plaintext passphrase blob) :
    (storeKey C P draw ident plaintext passphrase).alone env.exec keys
      = some (.ok (), keys.insert ident blob) := by
  obtain ⟨hjoins, hseal, hput⟩ := h
  refine (Prog.alone_bind_ok (alone_runBlocking _ hjoins)).trans ?_
  rw [hseal]
  exact Prog.alone_bind_ok (alone_call hput)

theorem alone_storeKey_error (h : ∀ blob, ¬ Stores C P env draw ident plaintext passphrase blob) :
    ∃ e, (storeKey C P draw ident plaintext passphrase).alone env.exec keys
      = some (.error e, keys) := by
  by_cases hjoins : env.Joins P .encrypt
  · cases hseal : encryptKey C draw plaintext passphrase with
    | error e =>
        refine ⟨e, (Prog.alone_bind_ok (alone_runBlocking _ hjoins)).trans ?_⟩
        rw [hseal]
        rfl
    | ok blob =>
        cases hput : env.fault (.putKeyBlob ident blob) with
        | none => exact absurd ⟨hjoins, hseal, hput⟩ (h blob)
        | some e =>
            refine ⟨e, (Prog.alone_bind_ok (alone_runBlocking _ hjoins)).trans ?_⟩
            rw [hseal]
            exact Prog.alone_bind_ok (alone_call_fault hput)
  · exact ⟨.crypto "key-encrypt task failed",
      Prog.alone_bind_ok (alone_runBlocking_lost _ hjoins)⟩

end

/-! ## A cipher in the clear -/

/-- A cipher that carries its key and nonce in front of the plaintext. -/
def plainCrypto : KeyCrypto where
  hashPasswordInto passphrase salt := .ok (passphrase ++ salt)
  encrypt key nonce plaintext := some (key ++ (nonce ++ plaintext))
  decrypt key nonce ciphertext :=
    if (key ++ nonce).isPrefixOf ciphertext then some (ciphertext.drop (key ++ nonce).length)
    else none

theorem plainCrypto_laws : plainCrypto.Laws where
  decrypt_encrypt := by
    rintro key nonce plaintext _ ⟨⟩
    have hprefix : (key ++ nonce).isPrefixOf (key ++ (nonce ++ plaintext)) = true := by
      rw [← List.append_assoc, List.isPrefixOf_iff_prefix]
      exact List.prefix_append _ _
    simp only [plainCrypto]
    rw [if_pos hprefix, ← List.append_assoc, List.drop_left]

def sealDraw (b : UInt8) : SealDraw where
  salt := List.replicate 16 b
  nonce := List.replicate 12 b
  length_salt := List.length_replicate
  length_nonce := List.length_replicate

/-- What the plaintext is sealed into with this draw. -/
def sealedBlob (b : UInt8) (passphrase plaintext : Bytes) : Bytes :=
  List.replicate 16 b ++ (List.replicate 12 b
    ++ (passphrase ++ List.replicate 16 b ++ (List.replicate 12 b ++ plaintext)))

theorem encryptKey_sealedBlob (b : UInt8) (passphrase plaintext : Bytes) :
    encryptKey plainCrypto (sealDraw b) plaintext passphrase
      = .ok (sealedBlob b passphrase plaintext) := rfl

def calmKeyEnv : KeyEnv where
  fault _ := none
  finishes _ := true

end Crypto

end Stelyph
