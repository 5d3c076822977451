import Stelyph.KeyEnvelope
import Stelyph.Lib.Octets
import Stelyph.Lib.Usize

/-!
# Export and import of keys

`export_keys` and `import_keys` of `storage/crypto.rs`. The exported blob
is `[ id_len: u32 le ] [ id ] [ cipher_len: u32 le ] [ ciphertext ]`, and
an import adds the two lengths to offsets as the platform's `usize`. Two
of the additions are checked. `id_end + 4` is not, and on 32 bits four
values of `id_len` pass the check before it and overflow there.
-/

namespace Stelyph

open Backend (KeyStoreOp)
open Backend.Sql (serveKey)

namespace Crypto

/-- How a call stops without a value: a Rust panic, or its error. -/
inductive Stop where
  | panic
  | error (e : StorageError)
deriving DecidableEq, Repr

/-- An overflow, a slice out of bounds or an allocation that is too large. -/
def orPanic {α : Type} : Option α → Except Stop α
  | none => .error .panic
  | some a => .ok a

def orCrypto {α : Type} (msg : String) : Option α → Except Stop α
  | none => .error (.error (.crypto msg))
  | some a => .ok a

section

variable {α β : Type} (a : α) (f : α → Except Stop β) (msg : String)

@[simp] theorem orPanic_some_bind : (orPanic (some a) >>= f) = f a := rfl

@[simp] theorem orPanic_none_bind : (orPanic none >>= f) = .error .panic := rfl

@[simp] theorem orCrypto_some_bind : (orCrypto msg (some a) >>= f) = f a := rfl

@[simp] theorem orCrypto_none_bind :
    (orCrypto msg none >>= f) = .error (.error (.crypto msg)) := rfl

end

section

variable (T : Target) (C : KeyCrypto)

/-- A length is cast to `u32`. -/
def portable (ident : String) (ciphertext : Bytes) : Bytes :=
  Octets.little 4 (Text.bytes ident).length ++ (Text.bytes ident
    ++ (Octets.little 4 ciphertext.length ++ ciphertext))

/-- The buffer is made with its capacity, and grows where that is too small. -/
def exportBlob (ident : String) (ciphertext : Bytes) : Except Stop Bytes := do
  let capacity ← orPanic (T.add 4 (Text.bytes ident).length)
  let capacity ← orPanic (T.add capacity 4)
  let capacity ← orPanic (T.add capacity ciphertext.length)
  let _ ← orPanic (T.alloc capacity)
  let _ ← orPanic (T.alloc (portable ident ciphertext).length)
  .ok (portable ident ciphertext)

/-- The bounds-checked parse of an exported blob. -/
def exportedCiphertext (blob : Bytes) : Except Stop Bytes := do
  if blob.length < 8 then .error (.error (.crypto "export blob too short"))
  else
    let idLen := Octets.ofLittle (← orPanic (Target.slice blob 0 4))
    let idEnd ← orCrypto "export blob id length overflows" (T.checkedAdd 4 idLen)
    let need ← orPanic (T.add idEnd 4)
    if blob.length < need then .error (.error (.crypto "export blob truncated at id"))
    else
      let stop ← orPanic (T.add idEnd 4)
      let cipherLen := Octets.ofLittle (← orPanic (Target.slice blob idEnd stop))
      let cipherStart ← orPanic (T.add idEnd 4)
      let cipherEnd ← orCrypto "export blob cipher length overflows"
        (T.checkedAdd cipherStart cipherLen)
      if blob.length < cipherEnd then
        .error (.error (.crypto "export blob truncated at ciphertext"))
      else orPanic (Target.slice blob cipherStart cipherEnd)

def exportKeys (ident : String) (passphrase : Bytes) : KeyProg Stop Bytes := do
  match ← Prog.ofExcept Stop.error (← KeyOp.call (.getKeyBlob ident)) with
  | none => .fail (.error (.crypto "key not found"))
  | some ciphertext => do
      let _ ← Prog.ofExcept Stop.error (decryptKey C ciphertext passphrase)
      Prog.ofExcept id (exportBlob T ident ciphertext)

/-- The blob is opened with the passphrase before it is stored, so that
one that cannot be used is refused. The id in the blob is not looked at.
-/
def importKeys (ident : String) (blob passphrase : Bytes) : KeyProg Stop Unit := do
  let ciphertext ← Prog.ofExcept id (exportedCiphertext T blob)
  let _ ← Prog.ofExcept Stop.error (decryptKey C ciphertext passphrase)
  Prog.ofExcept Stop.error (← KeyOp.call (.putKeyBlob ident ciphertext))

end

/-! ## The round trip -/

section

variable {T : Target} {ident : String} {ciphertext : Bytes}

theorem length_portable (ident : String) (ciphertext : Bytes) :
    (portable ident ciphertext).length = 8 + (Text.bytes ident).length + ciphertext.length := by
  simp only [portable, List.length_append, Octets.length_little]
  omega

theorem exportBlob_ok (h : 8 + (Text.bytes ident).length + ciphertext.length ≤ T.isizeMax) :
    exportBlob T ident ciphertext = .ok (portable ident ciphertext) := by
  have hsize := Target.isizeMax_lt_size (T := T)
  have hportable : (portable ident ciphertext).length ≤ T.isizeMax := by
    rw [length_portable]
    exact h
  simp only [exportBlob, Target.add_of_lt (show 4 + (Text.bytes ident).length < T.size by omega),
    Target.add_of_lt (show 4 + (Text.bytes ident).length + 4 < T.size by omega),
    Target.add_of_lt (show 4 + (Text.bytes ident).length + 4 + ciphertext.length < T.size by omega),
    Target.alloc_of_le (show 4 + (Text.bytes ident).length + 4 + ciphertext.length ≤ T.isizeMax by
      omega), Target.alloc_of_le hportable, orPanic_some_bind]

/-- An export that returns fits in one allocation, and is the blob. -/
theorem exportBlob_eq_ok {blob : Bytes} (h : exportBlob T ident ciphertext = .ok blob) :
    blob = portable ident ciphertext
      ∧ 8 + (Text.bytes ident).length + ciphertext.length ≤ T.isizeMax := by
  unfold exportBlob at h
  obtain ⟨_, -, h⟩ := Prog.except_bind_ok h
  obtain ⟨_, -, h⟩ := Prog.except_bind_ok h
  obtain ⟨_, -, h⟩ := Prog.except_bind_ok h
  obtain ⟨_, -, h⟩ := Prog.except_bind_ok h
  obtain ⟨_, hgrown, h⟩ := Prog.except_bind_ok h
  refine ⟨(Except.ok.inj h).symm, ?_⟩
  rw [← length_portable]
  by_contra hlarge
  rw [Target.alloc_of_lt (by omega)] at hgrown
  cases hgrown

/-- What stands in an exported blob is what a parse gets out of it. -/
theorem exportedCiphertext_portable (hident : (Text.bytes ident).length < 2 ^ 32)
    (hciphertext : ciphertext.length < 2 ^ 32)
    (h : 8 + (Text.bytes ident).length + ciphertext.length < T.size) :
    exportedCiphertext T (portable ident ciphertext) = .ok ciphertext := by
  have hlength := length_portable ident ciphertext
  have hfirst : Target.slice (portable ident ciphertext) 0 4
      = some (Octets.little 4 (Text.bytes ident).length) :=
    Target.slice_append [] (Octets.little 4 (Text.bytes ident).length) _ rfl (by simp)
  have hsecond : Target.slice (portable ident ciphertext) (4 + (Text.bytes ident).length)
      (4 + (Text.bytes ident).length + 4) = some (Octets.little 4 ciphertext.length) := by
    rw [portable, ← List.append_assoc]
    exact Target.slice_append _ _ _ (by simp) (by simp)
  have hthird : Target.slice (portable ident ciphertext) (4 + (Text.bytes ident).length + 4)
      (4 + (Text.bytes ident).length + 4 + ciphertext.length) = some ciphertext := by
    have hparts : portable ident ciphertext = (Octets.little 4 (Text.bytes ident).length
        ++ (Text.bytes ident ++ Octets.little 4 ciphertext.length)) ++ (ciphertext ++ []) := by
      simp only [portable, List.append_assoc, List.append_nil]
    rw [hparts]
    refine Target.slice_append _ _ _ ?_ ?_
    · simp only [List.length_append, Octets.length_little]
      omega
    · simp only [List.length_append, Octets.length_little]
      omega
  unfold exportedCiphertext
  rw [if_neg (by omega), hfirst, orPanic_some_bind, Octets.ofLittle_little_four hident]
  simp only [Target.checkedAdd_of_lt (show 4 + (Text.bytes ident).length < T.size by omega),
    Target.add_of_lt (show 4 + (Text.bytes ident).length + 4 < T.size by omega),
    orPanic_some_bind, orCrypto_some_bind, hsecond, Octets.ofLittle_little_four hciphertext,
    Target.checkedAdd_of_lt
      (show 4 + (Text.bytes ident).length + 4 + ciphertext.length < T.size by omega), hthird]
  rw [if_neg (by omega), if_neg (by omega)]
  rfl

end

/-! ## Every other byte string -/

def idLen (blob : Bytes) : Nat := Octets.ofLittle (blob.take 4)

/-- The length that the blob gives for its id is one of the few whose end
is a `usize` and the end of the field behind it is not. -/
def IdOverflows (T : Target) (blob : Bytes) : Prop :=
  8 ≤ blob.length ∧ 4 + idLen blob < T.size ∧ T.size ≤ 4 + idLen blob + 4

section

variable {T : Target} {blob : Bytes}

theorem slice_idLen (h : 8 ≤ blob.length) : Target.slice blob 0 4 = some (blob.take 4) := by
  rw [Target.slice_of_le (by omega) (by omega), List.drop_zero]

/-- Checked, the sum stops the call; wrapped, it passes the length check
and is then the end of a range that starts behind it. -/
theorem exportedCiphertext_of_overflow (h : IdOverflows T blob) :
    exportedCiphertext T blob = .error .panic := by
  obtain ⟨hlength, hfits, hover⟩ := h
  unfold exportedCiphertext
  rw [if_neg (by omega), slice_idLen hlength, orPanic_some_bind]
  change (orCrypto _ (T.checkedAdd 4 (idLen blob)) >>= _) = _
  rw [Target.checkedAdd_of_lt hfits, orCrypto_some_bind]
  cases hchecks : T.overflowChecks with
  | true => rw [Target.add_of_le_checked hover hchecks, orPanic_none_bind]
  | false =>
      have hsize := Target.lt_size_of_lt (T := T) (show 8 < 2 ^ 32 by decide)
      have hwrap : (4 + idLen blob + 4) % T.size = 4 + idLen blob + 4 - T.size := by
        rw [Nat.mod_eq_sub_mod hover, Nat.mod_eq_of_lt (by omega)]
      simp only [Target.add_of_le_wrapping hover hchecks, orPanic_some_bind, hwrap]
      rw [if_neg (by omega), Target.slice_of_lt (by omega), orPanic_none_bind]

theorem exportedCiphertext_ne_panic (h : ¬ IdOverflows T blob) :
    exportedCiphertext T blob ≠ .error .panic := by
  unfold exportedCiphertext
  split_ifs with hshort
  · decide
  · rw [slice_idLen (by omega), orPanic_some_bind]
    change (orCrypto _ (T.checkedAdd 4 (idLen blob)) >>= _) ≠ _
    by_cases hfits : 4 + idLen blob < T.size
    · have hneed : 4 + idLen blob + 4 < T.size := by
        by_contra hover
        exact h ⟨by omega, hfits, by omega⟩
      rw [Target.checkedAdd_of_lt hfits, orCrypto_some_bind]
      simp only [Target.add_of_lt hneed, orPanic_some_bind]
      split_ifs with hid
      · decide
      · rw [Target.slice_of_le (by omega) (by omega), orPanic_some_bind]
        generalize Octets.ofLittle _ = cipherLen
        by_cases hend : 4 + idLen blob + 4 + cipherLen < T.size
        · rw [Target.checkedAdd_of_lt hend, orCrypto_some_bind]
          split_ifs with hcipher
          · decide
          · rw [Target.slice_of_le (by omega) (by omega)]
            exact fun hpanic => by cases hpanic
        · rw [Target.checkedAdd_of_le (by omega), orCrypto_none_bind]
          decide
    · rw [Target.checkedAdd_of_le (by omega), orCrypto_none_bind]
      decide

/-- Every length of 32 bits has room on 64. -/
theorem not_idOverflows (h : T.width = .w64) : ¬ IdOverflows T blob := by
  rintro ⟨hlength, -, hover⟩
  have hidLen := Octets.ofLittle_lt (blob.take 4)
  rw [List.length_take_of_le (by omega)] at hidLen
  rw [Target.size, h] at hover
  simp only [Width.bits, idLen] at hover
  omega

end

/-! ## The calls -/

section

variable (T : Target) (C : KeyCrypto)

/-- A key goes out under one id and comes back in under another, as the
two commands do it. -/
def transfer (i j : String) (passphrase : Bytes) : KeyProg Stop Unit := do
  let blob ← exportKeys T C i passphrase
  importKeys T C j blob passphrase

/-- The call returns, and a store it returns an error on is as it was. -/
def ReturnsCleanly (p : KeyProg Stop Unit) (env : KeyEnv) (keys : Table String Bytes) : Prop :=
  ∃ r keys', p.alone env.exec keys = some (r, keys') ∧ r ≠ .error .panic
    ∧ ∀ e, r = .error e → keys' = keys

variable {T C} {env : KeyEnv} {keys : Table String Bytes} {i j : String}
  {passphrase ciphertext plaintext blob : Bytes}

theorem alone_exportKeys (hread : env.fault (.getKeyBlob i) = none)
    (hciphertext : keys.get i = some ciphertext)
    (hopens : decryptKey C ciphertext passphrase = .ok plaintext) :
    (exportKeys T C i passphrase).alone env.exec keys
      = some (exportBlob T i ciphertext, keys) := by
  refine (Prog.alone_bind_ok (alone_call hread)).trans ?_
  rw [serveKey, hciphertext]
  refine (Prog.alone_bind_ok (a := plaintext) (by rw [hopens]; rfl)).trans ?_
  cases exportBlob T i ciphertext with
  | ok blob => rfl
  | error stop => rfl

theorem alone_importKeys (hwrite : env.fault (.putKeyBlob j ciphertext) = none)
    (hparse : exportedCiphertext T blob = .ok ciphertext)
    (hopens : decryptKey C ciphertext passphrase = .ok plaintext) :
    (importKeys T C j blob passphrase).alone env.exec keys
      = some (.ok (), keys.insert j ciphertext) := by
  refine (Prog.alone_bind_ok (a := ciphertext) (by rw [hparse]; rfl)).trans ?_
  refine (Prog.alone_bind_ok (a := plaintext) (by rw [hopens]; rfl)).trans ?_
  exact Prog.alone_bind_ok (alone_call hwrite)

theorem alone_transfer_iff (hread : env.fault (.getKeyBlob i) = none)
    (hwrite : env.fault (.putKeyBlob j ciphertext) = none)
    (hciphertext : keys.get i = some ciphertext)
    (hopens : decryptKey C ciphertext passphrase = .ok plaintext)
    (hi : (Text.bytes i).length < 2 ^ 32) (hlength : ciphertext.length < 2 ^ 32) :
    (transfer T C i j passphrase).alone env.exec keys = some (.ok (), keys.insert j ciphertext)
      ↔ 8 + (Text.bytes i).length + ciphertext.length ≤ T.isizeMax := by
  have hexport := alone_exportKeys (T := T) hread hciphertext hopens
  constructor
  · intro hrun
    by_contra hlarge
    cases hblob : exportBlob T i ciphertext with
    | ok blob => exact hlarge (exportBlob_eq_ok hblob).2
    | error stop =>
        rw [hblob] at hexport
        rw [transfer, Prog.bind_eq, Prog.alone_bind_error hexport] at hrun
        cases hrun
  · intro hfits
    have hsize := Target.isizeMax_lt_size (T := T)
    rw [exportBlob_ok hfits] at hexport
    refine (Prog.alone_bind_ok hexport).trans ?_
    exact alone_importKeys hwrite (exportedCiphertext_portable hi hlength (by omega)) hopens

theorem returnsCleanly_importKeys :
    ReturnsCleanly (importKeys T C j blob passphrase) env keys ↔ ¬ IdOverflows T blob := by
  constructor
  · rintro ⟨r, keys', hrun, hreturns, -⟩ hover
    have hpanic : (importKeys T C j blob passphrase).alone env.exec keys
        = some (.error .panic, keys) :=
      Prog.alone_bind_error (by rw [exportedCiphertext_of_overflow hover]; rfl)
    rw [hpanic] at hrun
    exact hreturns (Prod.mk.inj (Option.some.inj hrun)).1.symm
  · intro hfits
    have hparse := exportedCiphertext_ne_panic hfits
    cases hciphertext : exportedCiphertext T blob with
    | error stop =>
        rw [hciphertext] at hparse
        exact ⟨.error stop, keys, Prog.alone_bind_error (by rw [hciphertext]; rfl),
          fun h => hparse (by rw [Except.error.inj h]), fun _ _ => rfl⟩
    | ok ciphertext =>
        cases hopens : decryptKey C ciphertext passphrase with
        | error e =>
            refine ⟨.error (.error e), keys, ?_, by simp, fun _ _ => rfl⟩
            refine (Prog.alone_bind_ok (a := ciphertext) (by rw [hciphertext]; rfl)).trans ?_
            exact Prog.alone_bind_error (by rw [hopens]; rfl)
        | ok plaintext =>
            cases hwrite : env.fault (.putKeyBlob j ciphertext) with
            | none =>
                exact ⟨.ok (), keys.insert j ciphertext, alone_importKeys hwrite hciphertext hopens,
                  by decide, fun e h => by cases h⟩
            | some e =>
                refine ⟨.error (.error e), keys, ?_, by simp, fun _ _ => rfl⟩
                refine (Prog.alone_bind_ok (a := ciphertext) (by rw [hciphertext]; rfl)).trans ?_
                refine (Prog.alone_bind_ok (a := plaintext) (by rw [hopens]; rfl)).trans ?_
                exact Prog.alone_bind_ok (alone_call_fault hwrite)

/-- On 64 bits every blob of two such lengths fits. -/
theorem fits_isizeMax (hT : T.width = .w64) (hi : (Text.bytes i).length < 2 ^ 32)
    (hlength : ciphertext.length < 2 ^ 32) :
    8 + (Text.bytes i).length + ciphertext.length ≤ T.isizeMax := by
  rw [Target.isizeMax, hT]
  simp only [Width.bits]
  omega

/-- Export and import are inverse where the blob fits in one allocation,
and an import of any byte string returns unless its id length is one of
those that overflow. -/
theorem keys_transfer_iff (T : Target) (C : KeyCrypto) (env : KeyEnv) (keys : Table String Bytes)
    (passphrase : Bytes) :
    (∀ i j ciphertext plaintext, env.fault (.getKeyBlob i) = none →
      env.fault (.putKeyBlob j ciphertext) = none → keys.get i = some ciphertext →
      decryptKey C ciphertext passphrase = .ok plaintext → (Text.bytes i).length < 2 ^ 32 →
      ciphertext.length < 2 ^ 32 →
        ((transfer T C i j passphrase).alone env.exec keys
            = some (.ok (), keys.insert j ciphertext)
          ↔ 8 + (Text.bytes i).length + ciphertext.length ≤ T.isizeMax))
      ∧ ∀ j blob, ReturnsCleanly (importKeys T C j blob passphrase) env keys
          ↔ ¬ IdOverflows T blob :=
  ⟨fun _ _ _ _ hread hwrite hciphertext hopens hi hlength =>
    alone_transfer_iff hread hwrite hciphertext hopens hi hlength,
    fun _ _ => returnsCleanly_importKeys⟩

/-- A sealed key goes from one slot to another. -/
theorem slot_moved :
    (transfer ⟨.w32, true⟩ plainCrypto "a" "b" [7]).alone calmKeyEnv.exec
        (Table.empty.insert "a" (sealedBlob 1 [7] [5]))
      = some (.ok (), (Table.empty.insert "a" (sealedBlob 1 [7] [5])).insert "b"
          (sealedBlob 1 [7] [5])) := by
  have hiff := (keys_transfer_iff ⟨.w32, true⟩ plainCrypto calmKeyEnv
    (Table.empty.insert "a" (sealedBlob 1 [7] [5])) [7]).1 "a" "b" (sealedBlob 1 [7] [5]) [5] rfl rfl
    (Table.get_insert_self _ _ _)
    (decryptKey_encryptKey plainCrypto_laws (encryptKey_sealedBlob 1 [7] [5])) (by decide)
    (by decide)
  exact hiff.mpr (by decide)

/-- `id_len = 2 ^ 32 - 8`, and nothing behind it: with overflow checks and
without. -/
theorem eight_short_panics :
    ¬ ReturnsCleanly (importKeys ⟨.w32, true⟩ plainCrypto "signing"
        [0xf8, 0xff, 0xff, 0xff, 0, 0, 0, 0] [7]) calmKeyEnv Table.empty
      ∧ ¬ ReturnsCleanly (importKeys ⟨.w32, false⟩ plainCrypto "signing"
        [0xf8, 0xff, 0xff, 0xff, 0, 0, 0, 0] [7]) calmKeyEnv Table.empty := by
  constructor
  · intro hreturns
    exact returnsCleanly_importKeys.mp hreturns (by unfold IdOverflows; decide)
  · intro hreturns
    exact returnsCleanly_importKeys.mp hreturns (by unfold IdOverflows; decide)

end

end Crypto

end Stelyph
