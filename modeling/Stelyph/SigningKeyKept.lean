import Stelyph.KeyEnvelope
import Stelyph.OauthStore

/-!
# The authorization server's key over a failing store

`load_or_create_signing_key` makes a key on the first start. It takes any
failure of the load for a first start: no blob, another passphrase, but
also a read that failed and, on the axum server, a decryption task that
was lost. A usable key is then written over, unless the write fails too.
-/

namespace Stelyph

open Crypto

/-- P-256 keys and their 32-byte scalars. -/
structure SigningKeyLib where
  Key : Type
  importKey : Bytes → Option Key
  exportKey : Key → Bytes

/-- A key that was exported is imported again as it was. -/
structure SigningKeyLib.Laws (K : SigningKeyLib) : Prop where
  import_export : ∀ key, K.importKey (K.exportKey key) = some key

/-- What one call draws: a key, and the salt and nonce it is sealed with. -/
structure SigningKeyDraw (K : SigningKeyLib) where
  key : K.Key
  sealing : SealDraw

/-- The id of the server's own key. -/
def asSigningKeyId : String := "oauth#as-signing"

section

variable (C : KeyCrypto) (K : SigningKeyLib)

def importSigningKey (scalar : Bytes) : Except OAuthError K.Key :=
  match K.importKey scalar with
  | none => .error (.internal "invalid P-256 signing key scalar")
  | some key => .ok key

/-- Generate a key, store it and answer it. -/
def createSigningKey {ε : Type} (P : Platform) (wrap : StorageError → ε) (rnd : SigningKeyDraw K)
    (passphrase : Bytes) : KeyProg ε K.Key := do
  (Crypto.storeKey C P rnd.sealing asSigningKeyId (K.exportKey rnd.key) passphrase).mapError wrap
  pure rnd.key

def persistError (e : StorageError) : OAuthError :=
  .internal s!"could not persist the OAuth signing key: {e.display}"

/-- The stored key, or a new one in its place where it cannot be loaded,
for whatever reason that is. -/
def loadOrCreateSigningKey (rnd : SigningKeyDraw K) (passphrase : Bytes) :
    KeyProg OAuthError K.Key := do
  match ← (Crypto.loadKey C .native asSigningKeyId passphrase).attempt with
  | .ok scalar => Prog.ofExcept id (importSigningKey K scalar)
  | .error _ => createSigningKey C K .native persistError rnd passphrase

def Worker.persistError (e : StorageError) : String := s!"persist OAuth signing key: {e.display}"

/-- On the Worker a scalar that is no key is replaced as well. -/
def Worker.loadOrCreateSigningKey (rnd : SigningKeyDraw K) (passphrase : Bytes) :
    KeyProg String K.Key := do
  let create := createSigningKey C K .wasm32 Worker.persistError rnd passphrase
  match ← (Crypto.loadKey C .wasm32 asSigningKeyId passphrase).attempt with
  | .ok scalar =>
      match importSigningKey K scalar with
      | .ok key => pure key
      | .error _ => create
  | .error _ => create

/-- After the call the store holds this blob, and an answered key is this
one. -/
def KeepsKey {ε : Type} (p : KeyProg ε K.Key) (env : KeyEnv) (keys : Table String Bytes)
    (blob : Bytes) (key : K.Key) : Prop :=
  ∃ r keys', p.alone env.exec keys = some (r, keys') ∧ keys'.get asSigningKeyId = some blob
    ∧ ∀ key', r = .ok key' → key' = key

/-- The store reads the blob, and the task that opens it is not lost. -/
def ReadsKey (P : Platform) (env : KeyEnv) : Prop :=
  env.fault (.getKeyBlob asSigningKeyId) = none ∧ env.Joins P .decrypt

/-- The generated key is sealed into another blob, and the store takes it. -/
def Overwrites (P : Platform) (env : KeyEnv) (rnd : SigningKeyDraw K) (passphrase blob : Bytes) :
    Prop :=
  ∃ blob', blob' ≠ blob
    ∧ Stores C P env rnd.sealing asSigningKeyId (K.exportKey rnd.key) passphrase blob'

/-! ## The runs from a usable blob -/

variable {C K} {P : Platform} {env : KeyEnv} {keys : Table String Bytes} {rnd : SigningKeyDraw K}
  {passphrase blob scalar : Bytes} {key : K.Key}

theorem alone_attempt_loadKey {ε : Type} (hblob : keys.get asSigningKeyId = some blob)
    (hopens : decryptKey C blob passphrase = .ok scalar) (hreads : ReadsKey P env) :
    ((Crypto.loadKey C P asSigningKeyId passphrase).attempt : KeyProg ε _).alone env.exec keys
      = some (.ok (.ok scalar), keys) := by
  rw [Prog.alone_attempt, alone_loadKey hblob hopens hreads.1 hreads.2]
  rfl

theorem alone_attempt_loadKey_lost {ε : Type} (hblob : keys.get asSigningKeyId = some blob)
    (hreads : ¬ ReadsKey P env) :
    ∃ e, ((Crypto.loadKey C P asSigningKeyId passphrase).attempt : KeyProg ε _).alone env.exec keys
      = some (.ok (.error e), keys) := by
  obtain ⟨e, hload⟩ : ∃ e, (Crypto.loadKey C P asSigningKeyId passphrase).alone env.exec keys
      = some (.error e, keys) := alone_loadKey_lost hblob hreads
  exact ⟨e, by rw [Prog.alone_attempt, hload]; rfl⟩

theorem alone_createSigningKey {ε : Type} {wrap : StorageError → ε} {blob' : Bytes}
    (h : Stores C P env rnd.sealing asSigningKeyId (K.exportKey rnd.key) passphrase blob') :
    (createSigningKey C K P wrap rnd passphrase).alone env.exec keys
      = some (.ok rnd.key, keys.insert asSigningKeyId blob') := by
  refine (Prog.alone_bind_ok (a := ()) ?_).trans rfl
  rw [Prog.alone_mapError, alone_storeKey h]
  rfl

theorem alone_createSigningKey_error {ε : Type} {wrap : StorageError → ε}
    (h : ∀ blob', ¬ Stores C P env rnd.sealing asSigningKeyId (K.exportKey rnd.key) passphrase blob') :
    ∃ e, (createSigningKey C K P wrap rnd passphrase).alone env.exec keys
      = some (.error e, keys) := by
  obtain ⟨e, hstore⟩ : ∃ e, (Crypto.storeKey C P rnd.sealing asSigningKeyId (K.exportKey rnd.key)
      passphrase).alone env.exec keys = some (.error e, keys) := alone_storeKey_error h
  refine ⟨wrap e, Prog.alone_bind_error ?_⟩
  rw [Prog.alone_mapError, hstore]
  rfl

theorem keepsKey_congr {ε : Type} {p q : KeyProg ε K.Key}
    (h : p.alone env.exec keys = q.alone env.exec keys) :
    KeepsKey K p env keys blob key ↔ KeepsKey K q env keys blob key := by
  rw [KeepsKey, KeepsKey, h]

/-- A call that generates a key keeps the old one exactly when the store
takes no other blob. -/
theorem keepsKey_createSigningKey {ε : Type} {wrap : StorageError → ε} (crypto : C.Laws)
    (laws : K.Laws) (hblob : keys.get asSigningKeyId = some blob)
    (hopens : decryptKey C blob passphrase = .ok scalar) (hkey : K.importKey scalar = some key) :
    KeepsKey K (createSigningKey C K P wrap rnd passphrase) env keys blob key
      ↔ ¬ Overwrites C K P env rnd passphrase blob := by
  constructor
  · rintro ⟨r, keys', hrun, hget, -⟩ ⟨blob', hne, hstores⟩
    obtain ⟨-, rfl⟩ := Prod.mk.inj
      (Option.some.inj (hrun.symm.trans (alone_createSigningKey hstores)))
    rw [Table.get_insert_self] at hget
    exact hne (Option.some.inj hget)
  · intro hkept
    by_cases hstores : ∃ blob',
        Stores C P env rnd.sealing asSigningKeyId (K.exportKey rnd.key) passphrase blob'
    · obtain ⟨blob', hstores⟩ := hstores
      have heq : blob' = blob := by
        by_contra hne
        exact hkept ⟨blob', hne, hstores⟩
      subst heq
      -- a blob that comes out the same holds the same key
      have hscalar : K.exportKey rnd.key = scalar :=
        Except.ok.inj ((decryptKey_encryptKey crypto hstores.2.1).symm.trans hopens)
      have hsame : rnd.key = key := by
        rw [← hscalar, laws.import_export] at hkey
        exact Option.some.inj hkey
      refine ⟨_, _, alone_createSigningKey hstores, Table.get_insert_self _ _ _, ?_⟩
      intro key' h
      exact (Except.ok.inj h).symm.trans hsame
    · obtain ⟨e, hrun⟩ : ∃ e, (createSigningKey C K P wrap rnd passphrase).alone env.exec keys
          = some (.error e, keys) := alone_createSigningKey_error (not_exists.mp hstores)
      exact ⟨_, _, hrun, hblob, fun key' h => by cases h⟩

/-- A server that answers the key it read, and generates one where it
could not read it. -/
theorem keepsKey_iff {ε : Type} {p : KeyProg ε K.Key} (wrap : StorageError → ε) (crypto : C.Laws)
    (laws : K.Laws) (hblob : keys.get asSigningKeyId = some blob)
    (hopens : decryptKey C blob passphrase = .ok scalar) (hkey : K.importKey scalar = some key)
    (hread : ReadsKey P env → p.alone env.exec keys = some (.ok key, keys))
    (hlost : ¬ ReadsKey P env → p.alone env.exec keys
      = (createSigningKey C K P wrap rnd passphrase).alone env.exec keys) :
    KeepsKey K p env keys blob key
      ↔ ReadsKey P env ∨ ¬ Overwrites C K P env rnd passphrase blob := by
  by_cases hreads : ReadsKey P env
  · exact iff_of_true ⟨.ok key, keys, hread hreads, hblob, fun key' h => (Except.ok.inj h).symm⟩
      (Or.inl hreads)
  · rw [or_iff_right hreads]
    exact (keepsKey_congr (hlost hreads)).trans
      (keepsKey_createSigningKey crypto laws hblob hopens hkey)

theorem importSigningKey_of_some (hkey : K.importKey scalar = some key) :
    importSigningKey K scalar = .ok key := by
  unfold importSigningKey
  rw [hkey]

theorem keepsKey_axum (crypto : C.Laws) (laws : K.Laws)
    (hblob : keys.get asSigningKeyId = some blob)
    (hopens : decryptKey C blob passphrase = .ok scalar) (hkey : K.importKey scalar = some key) :
    KeepsKey K (loadOrCreateSigningKey C K rnd passphrase) env keys blob key
      ↔ ReadsKey .native env ∨ ¬ Overwrites C K .native env rnd passphrase blob := by
  refine keepsKey_iff persistError crypto laws hblob hopens hkey ?_ ?_
  · intro hreads
    refine (Prog.alone_bind_ok (alone_attempt_loadKey hblob hopens hreads)).trans ?_
    simp only [importSigningKey_of_some hkey]
    rfl
  · intro hreads
    obtain ⟨e, hload⟩ := alone_attempt_loadKey_lost hblob hreads
    exact Prog.alone_bind_ok hload

theorem keepsKey_worker (crypto : C.Laws) (laws : K.Laws)
    (hblob : keys.get asSigningKeyId = some blob)
    (hopens : decryptKey C blob passphrase = .ok scalar) (hkey : K.importKey scalar = some key) :
    KeepsKey K (Worker.loadOrCreateSigningKey C K rnd passphrase) env keys blob key
      ↔ ReadsKey .wasm32 env ∨ ¬ Overwrites C K .wasm32 env rnd passphrase blob := by
  refine keepsKey_iff Worker.persistError crypto laws hblob hopens hkey ?_ ?_
  · intro hreads
    refine (Prog.alone_bind_ok (alone_attempt_loadKey hblob hopens hreads)).trans ?_
    simp only [importSigningKey_of_some hkey]
    rfl
  · intro hreads
    obtain ⟨e, hload⟩ := alone_attempt_loadKey_lost hblob hreads
    exact Prog.alone_bind_ok hload

/-- From a usable blob, whatever the operations of the store and the
blocking tasks come to: a server keeps blob and key exactly when it can
read them, or cannot store what it generates in their place. -/
theorem signing_key_kept_iff (crypto : C.Laws) (laws : K.Laws) (env : KeyEnv)
    (rnd : SigningKeyDraw K) (hblob : keys.get asSigningKeyId = some blob)
    (hopens : decryptKey C blob passphrase = .ok scalar) (hkey : K.importKey scalar = some key) :
    (KeepsKey K (loadOrCreateSigningKey C K rnd passphrase) env keys blob key
      ↔ ReadsKey .native env ∨ ¬ Overwrites C K .native env rnd passphrase blob)
    ∧ (KeepsKey K (Worker.loadOrCreateSigningKey C K rnd passphrase) env keys blob key
      ↔ ReadsKey .wasm32 env ∨ ¬ Overwrites C K .wasm32 env rnd passphrase blob) :=
  ⟨keepsKey_axum crypto laws hblob hopens hkey, keepsKey_worker crypto laws hblob hopens hkey⟩

end

/-! ## A read that fails once -/

/-- Any 32 octets are a key. -/
def scalarKeys : SigningKeyLib where
  Key := { bytes : Bytes // bytes.length = 32 }
  importKey scalar := if h : scalar.length = 32 then some ⟨scalar, h⟩ else none
  exportKey key := key.1

theorem scalarKeys_laws : scalarKeys.Laws where
  import_export key := dif_pos key.2

def scalarKey (b : UInt8) : scalarKeys.Key := ⟨List.replicate 32 b, List.length_replicate⟩

def keyDraw (b : UInt8) : SigningKeyDraw scalarKeys := ⟨scalarKey b, sealDraw b⟩

/-- The blob a call with this draw stores. -/
def sealedKey (b : UInt8) (passphrase : Bytes) : Bytes :=
  sealedBlob b passphrase (List.replicate 32 b)

def oneKeyTable (blob : Bytes) : Table String Bytes := Table.empty.insert asSigningKeyId blob

/-- Reads of the key table fail, writes go through. -/
def lockedEnv : KeyEnv where
  fault
    | .getKeyBlob _ => some (.backend "database is locked")
    | .putKeyBlob _ _ => none
  finishes _ := true

theorem sealedKey_kept :
    KeepsKey scalarKeys (loadOrCreateSigningKey plainCrypto scalarKeys (keyDraw 2) [7]) calmKeyEnv
        (oneKeyTable (sealedKey 1 [7])) (sealedKey 1 [7]) (scalarKey 1)
      ∧ KeepsKey scalarKeys (Worker.loadOrCreateSigningKey plainCrypto scalarKeys (keyDraw 2) [7])
        calmKeyEnv (oneKeyTable (sealedKey 1 [7])) (sealedKey 1 [7]) (scalarKey 1) := by
  have hkept := signing_key_kept_iff plainCrypto_laws scalarKeys_laws calmKeyEnv (keyDraw 2)
    (Table.get_insert_self Table.empty asSigningKeyId (sealedKey 1 [7]))
    (decryptKey_encryptKey plainCrypto_laws (encryptKey_sealedBlob 1 [7] (List.replicate 32 1)))
    (scalarKeys_laws.import_export (scalarKey 1))
  exact ⟨hkept.1.mpr (Or.inl ⟨rfl, fun _ => rfl⟩), hkept.2.mpr (Or.inl ⟨rfl, fun _ => rfl⟩)⟩

theorem sealedKey_overwritten (P : Platform) :
    Overwrites plainCrypto scalarKeys P lockedEnv (keyDraw 2) [7] (sealedKey 1 [7]) :=
  ⟨sealedKey 2 [7], by decide, fun _ => rfl, encryptKey_sealedBlob 2 [7] (List.replicate 32 2), rfl⟩

/-- Both servers lose a usable key to one read that failed. -/
theorem sealedKey_replaced :
    ¬ KeepsKey scalarKeys (loadOrCreateSigningKey plainCrypto scalarKeys (keyDraw 2) [7]) lockedEnv
        (oneKeyTable (sealedKey 1 [7])) (sealedKey 1 [7]) (scalarKey 1)
      ∧ ¬ KeepsKey scalarKeys (Worker.loadOrCreateSigningKey plainCrypto scalarKeys (keyDraw 2) [7])
        lockedEnv (oneKeyTable (sealedKey 1 [7])) (sealedKey 1 [7]) (scalarKey 1) := by
  have hblob := Table.get_insert_self Table.empty asSigningKeyId (sealedKey 1 [7])
  have hopens := decryptKey_encryptKey plainCrypto_laws (encryptKey_sealedBlob 1 [7] (List.replicate 32 1))
  have hkey := scalarKeys_laws.import_export (scalarKey 1)
  have hread : ∀ P, ¬ ReadsKey P lockedEnv := by
    rintro P ⟨hread, -⟩
    cases hread
  constructor
  · intro hkept
    rcases (keepsKey_axum plainCrypto_laws scalarKeys_laws hblob hopens hkey).mp hkept with h | h
    · exact hread _ h
    · exact h (sealedKey_overwritten .native)
  · intro hkept
    rcases (keepsKey_worker plainCrypto_laws scalarKeys_laws hblob hopens hkey).mp hkept with h | h
    · exact hread _ h
    · exact h (sealedKey_overwritten .wasm32)

end Stelyph
