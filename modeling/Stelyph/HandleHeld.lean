import Stelyph.WorkerFront

/-!
# A label is held as long as its identity exists

Whoever has a genesis operation on the ledger, or an account in an
object, must have a row in the registry's claims, or a second person can
claim a handle that already resolves. The front releases the label on
every provisioning that does not answer `ok`, which includes the ones
that failed after the directory had accepted the operation, and
delete-account frees the label whether or not a signup is using it.

So the property needs two things of a run (`unbroken`): nothing fails
between an accepted genesis operation and the front's reading the `ok`,
and delete-account does not overlap a signup for the same handle.

The proof is a rely-guarantee argument over the log. A signup *holds*
its host from a successful claim until it releases the label or reads
the `ok`; the invariant `HeldInv` says what holding a host means.
-/

namespace Stelyph

abbrev FrontEvent := Event frontSig

abbrev FrontWorld := World frontSig FrontStore

section

variable (cfg : FrontConfig)

/-- The handle that a label stands for in the zone. -/
def handleOf (label : String) : String := label ++ s!".{cfg.zone}"

/-! ## The history of a request -/

/-- A successful claim of the label of `host`. -/
def claimedHost (host : String) : FrontEvent → Bool
  | ⟨_, .claim label _ _, .ok .ok⟩ => handleOf cfg label == host
  | _ => false

/-- The signup gave its label back, or read that the account exists. -/
def settled : FrontEvent → Bool
  | ⟨_, .release _, _⟩ => true
  | ⟨_, .reply (.created _ _ _), .ok _⟩ => true
  | _ => false

/-- The directory has the identity from here on, whoever is told of it. -/
def postedOp : FrontEvent → Bool
  | ⟨_, .postOperation _ _, .ok _⟩ => true
  | _ => false

/-- An account got its row. -/
def insertedRow : FrontEvent → Bool
  | ⟨_, .countAndInsertAccount _ _ _ _ _, .ok _⟩ => true
  | _ => false

/-- The object of `host` was erased. -/
def wipedHost (host : String) : FrontEvent → Bool
  | ⟨_, .wipe h, .ok _⟩ => h == host
  | _ => false

/-- A label was given back by force. -/
def freed : FrontEvent → Bool
  | ⟨_, .forceRelease _, _⟩ => true
  | _ => false

/-- Some signup is past its claim of `host` and not settled. -/
def heldIn (w : FrontWorld) (host : String) : Bool :=
  w.log.any fun e => claimedHost cfg host e && w.tally settled e.tid == 0

/-- Some delete-account has wiped `host` and not freed its label yet. -/
def deletingIn (w : FrontWorld) (host : String) : Bool :=
  w.log.any fun e => wipedHost host e && w.tally freed e.tid == 0

/-! ## The property and the condition -/

/-- An identity for `host` exists. -/
def identityAt (s : FrontStore) (host : String) : Bool :=
  liveIn host s.history || !(s.objects host).accounts.isEmpty

/-- No identity in public use has a label that somebody else could claim. -/
def HandlesHeld (s : FrontStore) : Prop :=
  ∀ label, identityAt s (handleOf cfg label) = true → s.registry.isTaken label = true

/-- The answer to a genesis operation is not lost, what follows an
accepted one does not fail, an object is wiped only while no signup
holds its host, and a label is claimed only while no delete-account is
about to free it. -/
def unbrokenAt (w : FrontWorld) (c : Fate) : FrontOp → Bool
  | .postOperation _ _ => !c.isAfter
  | .hashPassword _ _ | .countAndInsertAccount _ _ _ _ _ | .storeKey _ _ _ _
  | .encodeAccessJwt _ _ | .encodeRefreshJwt _ _ | .reply (.created _ _ _) => c.isDone
  | .wipe host => !heldIn cfg w host
  | .claim label _ _ => w.store.registry.isTaken label || !deletingIn w (handleOf cfg label)
  | _ => true

variable {Keypair : Type} (lib : FrontLib Keypair)

/-- The deployment with the signups and deletions it has begun. -/
abbrev FrontPool (Keypair : Type) :=
  Pool frontSig (FrontRequest Keypair) String FrontResponse FrontStore

/-- One step of the deployment: a request comes in, or one of those under
way does its next operation. Every interleaving of them is a run. -/
def frontStep (P : FrontPool Keypair) :
    PoolAct (FrontRequest Keypair) Fate → Option (FrontPool Keypair) :=
  Pool.next (frontMachine lib) (frontHandle lib cfg) P

/-- The step does not break a signup where its identity is already public,
and erases nothing that a signup for the same handle is making. -/
def unbroken (P : FrontPool Keypair) : PoolAct (FrontRequest Keypair) Fate → Bool
  | .start _ => true
  | .step i c =>
      match P.tasks[i]? with
      | some (_, .op o _) => unbrokenAt cfg P.toWorld c o
      | _ => true

/-- A deployment before its first signup. -/
def newFront (invites : Table String InviteRow) : FrontStore :=
  ⟨⟨.empty, invites⟩, fun _ => ⟨[], [], [], []⟩, []⟩

end

/-! ## The invariant -/

section

variable {cfg : FrontConfig}

theorem handleOf_injective {l l' : String} (h : handleOf cfg l = handleOf cfg l') : l = l' := by
  have hl := congrArg String.toList h
  rw [handleOf, handleOf, String.toList_append, String.toList_append (s := l')] at hl
  exact String.toList_inj.mp (List.append_cancel_right hl)

/-- Task `i` holds `host`. -/
def Holding (cfg : FrontConfig) (w : FrontWorld) (i : Nat) (host : String) : Prop :=
  0 < w.tally (claimedHost cfg host) i ∧ w.tally settled i = 0

theorem eq_false_of_imp {a b : Bool} (h : a = true → b = true) (hb : b = false) : a = false :=
  Bool.eq_false_iff.mpr fun ha => Bool.false_ne_true (hb.symm.trans (h ha))

/-- What holding a host means: the label has its row, nobody else holds
the host, and there is no identity but the one the holder made. -/
structure HeldInv (cfg : FrontConfig) (w : FrontWorld) : Prop where
  held : HandlesHeld cfg w.store
  row : ∀ i label, Holding cfg w i (handleOf cfg label) → w.store.registry.isTaken label = true
  unique : ∀ i j host, Holding cfg w i host → Holding cfg w j host → i = j
  unpublished : ∀ i host, Holding cfg w i host → w.tally postedOp i = 0 →
    liveIn host w.store.history = false
  empty : ∀ i host, Holding cfg w i host → w.tally insertedRow i = 0 →
    (w.store.objects host).accounts = []
  deleting : ∀ host, deletingIn w host = true →
    identityAt w.store host = false ∧ heldIn cfg w host = false
  single : ∀ host, (w.store.objects host).accounts.length ≤ 1

theorem Holding.heldIn {w : FrontWorld} {i : Nat} {host : String} (h : Holding cfg w i host) :
    heldIn cfg w host = true := by
  obtain ⟨e, he, hp⟩ := List.countP_pos_iff.mp h.1
  simp only [Bool.and_eq_true, beq_iff_eq] at hp
  obtain ⟨hclaim, rfl⟩ := hp
  exact List.any_eq_true.mpr ⟨e, he, by simp [hclaim, h.2]⟩

section After

variable {w : FrontWorld} {i : Nat} {o : FrontOp} {r : o.Ret} {s : FrontStore} {host : String}

/-- Only a claim makes anybody a holder. -/
theorem Holding.of_after {j : Nat} (hc : claimedHost cfg host ⟨i, o, r⟩ = false)
    (h : Holding cfg (w.after i o r s) j host) : Holding cfg w j host := by
  refine ⟨?_, World.tally_eq_zero_of_after h.2⟩
  have hpos := h.1
  rwa [World.tally, World.after_log, List.countP_append, List.countP_singleton,
    if_neg (by simp [hc]), Nat.add_zero] at hpos

theorem heldIn_of_after (hc : claimedHost cfg host ⟨i, o, r⟩ = false)
    (h : heldIn cfg (w.after i o r s) host = true) : heldIn cfg w host = true := by
  obtain ⟨e, he, hp⟩ := List.any_eq_true.mp h
  simp only [Bool.and_eq_true, beq_iff_eq] at hp
  rcases List.mem_append.mp he with he | he
  · exact List.any_eq_true.mpr ⟨e, he, by simp [hp.1, World.tally_eq_zero_of_after hp.2]⟩
  · rw [List.mem_singleton.mp he, hc] at hp
    cases hp.1

theorem deletingIn_of_after (hd : wipedHost host ⟨i, o, r⟩ = false)
    (h : deletingIn (w.after i o r s) host = true) : deletingIn w host = true := by
  obtain ⟨e, he, hp⟩ := List.any_eq_true.mp h
  simp only [Bool.and_eq_true, beq_iff_eq] at hp
  rcases List.mem_append.mp he with he | he
  · exact List.any_eq_true.mpr ⟨e, he, by simp [hp.1, World.tally_eq_zero_of_after hp.2]⟩
  · rw [List.mem_singleton.mp he, hd] at hp
    cases hp.1

/-- What neither makes a holder nor wipes an object keeps the invariant
if it frees no label and makes no identity. -/
theorem HeldInv.mono (hw : HeldInv cfg w) (hc : ∀ host, claimedHost cfg host ⟨i, o, r⟩ = false)
    (hd : ∀ host, wipedHost host ⟨i, o, r⟩ = false)
    (htaken : ∀ l, w.store.registry.isTaken l = true → s.registry.isTaken l = true)
    (hlive : ∀ host, liveIn host s.history = true → liveIn host w.store.history = true)
    (hacc : ∀ host, (s.objects host).accounts.length ≤ (w.store.objects host).accounts.length) :
    HeldInv cfg (w.after i o r s) := by
  have hnil : ∀ host, (w.store.objects host).accounts = [] → (s.objects host).accounts = [] := by
    intro host h
    have := hacc host
    rw [h] at this
    exact List.length_eq_zero_iff.mp (Nat.le_zero.mp this)
  have hdead : ∀ host, liveIn host w.store.history = false → liveIn host s.history = false :=
    fun host => eq_false_of_imp (hlive host)
  have hid : ∀ host, identityAt w.store host = false → identityAt s host = false := by
    intro host h
    simp only [identityAt, Bool.or_eq_false_iff, Bool.not_eq_false', List.isEmpty_iff] at h ⊢
    exact ⟨hdead host h.1, hnil host h.2⟩
  refine ⟨fun label h => ?_, fun j label h => ?_, fun j k host hj hk => ?_,
    fun j host hj hp => ?_, fun j host hj hp => ?_, fun host h => ⟨?_, ?_⟩, fun host => ?_⟩
  · refine htaken label (hw.held label ?_)
    by_contra hne
    exact Bool.false_ne_true ((hid _ (Bool.eq_false_iff.mpr hne)).symm.trans h)
  · exact htaken label (hw.row j label (h.of_after (hc _)))
  · exact hw.unique j k host (hj.of_after (hc _)) (hk.of_after (hc _))
  · exact hdead host
      (hw.unpublished j host (hj.of_after (hc _)) (World.tally_eq_zero_of_after hp))
  · exact hnil host (hw.empty j host (hj.of_after (hc _)) (World.tally_eq_zero_of_after hp))
  · exact hid host (hw.deleting host (deletingIn_of_after (hd _) h)).1
  · exact eq_false_of_imp (heldIn_of_after (hc _))
      (hw.deleting host (deletingIn_of_after (hd _) h)).2
  · exact (hacc host).trans (hw.single host)

/-- A call that failed before its effect. -/
theorem HeldInv.same (hw : HeldInv cfg w) (hc : ∀ host, claimedHost cfg host ⟨i, o, r⟩ = false)
    (hd : ∀ host, wipedHost host ⟨i, o, r⟩ = false) : HeldInv cfg (w.after i o r w.store) :=
  hw.mono hc hd (fun _ => id) (fun _ => id) fun _ => Nat.le_refl _

end After

/-! ## The operations that matter -/

theorem HeldInv.no_identity {w : FrontWorld} {label : String} (hw : HeldInv cfg w)
    (hfree : w.store.registry.isTaken label = false) :
    identityAt w.store (handleOf cfg label) = false :=
  eq_false_of_imp (hw.held label) hfree

theorem identityAt_eq_false {s : FrontStore} {host : String} :
    identityAt s host = false ↔
      liveIn host s.history = false ∧ (s.objects host).accounts = [] := by
  simp [identityAt]

/-- A successful claim: the label was free, so nothing is known by it yet. -/
theorem HeldInv.claim {w : FrontWorld} {i : Nat} {label : String} {code : Option String}
    {isOpen : Bool} {g : Registry} (hw : HeldInv cfg w)
    (hfree : w.store.registry.isTaken label = false)
    (hg : ∀ l, g.isTaken l = (decide (l = label) || w.store.registry.isTaken l))
    (hdel : deletingIn w (handleOf cfg label) = false) :
    HeldInv cfg (w.after i (.claim label code isOpen) (.ok .ok)
      { w.store with registry := g }) := by
  obtain ⟨hdead, hnil⟩ := identityAt_eq_false.mp (hw.no_identity hfree)
  have hother : ∀ host, host ≠ handleOf cfg label →
      claimedHost cfg host ⟨i, .claim label code isOpen, .ok .ok⟩ = false := by
    intro host hne
    simpa [claimedHost] using Ne.symm hne
  -- A second holder of the label would have its row.
  have hself : ∀ j, Holding cfg (w.after i (.claim label code isOpen) (.ok .ok)
      { w.store with registry := g }) j (handleOf cfg label) → j = i := by
    intro j hj
    by_contra hne
    have hold : Holding cfg w j (handleOf cfg label) := by
      refine ⟨?_, World.tally_eq_zero_of_after hj.2⟩
      have hpos := hj.1
      rwa [World.tally_after_of_ne _ _ (Ne.symm hne)] at hpos
    rw [hw.row j label hold] at hfree
    cases hfree
  refine ⟨fun l h => ?_, fun j l h => ?_, fun j k host hj hk => ?_, fun j host hj hp => ?_,
    fun j host hj hp => ?_, fun host h => ?_, hw.single⟩
  · show g.isTaken l = true
    rw [hg, hw.held l h, Bool.or_true]
  · show g.isTaken l = true
    rw [hg]
    by_cases hl : l = label
    · simp [hl]
    · have hhost : handleOf cfg l ≠ handleOf cfg label := fun h => hl (handleOf_injective h)
      rw [hw.row j l (h.of_after (hother _ hhost)), Bool.or_true]
  · by_cases hhost : host = handleOf cfg label
    · rw [hhost] at hj hk
      rw [hself j hj, hself k hk]
    · exact hw.unique j k host (hj.of_after (hother _ hhost)) (hk.of_after (hother _ hhost))
  · by_cases hhost : host = handleOf cfg label
    · exact hhost ▸ hdead
    · exact hw.unpublished j host (hj.of_after (hother _ hhost)) (World.tally_eq_zero_of_after hp)
  · by_cases hhost : host = handleOf cfg label
    · exact hhost ▸ hnil
    · exact hw.empty j host (hj.of_after (hother _ hhost)) (World.tally_eq_zero_of_after hp)
  · have hdel' := deletingIn_of_after rfl h
    refine ⟨(hw.deleting host hdel').1, ?_⟩
    have hhost : host ≠ handleOf cfg label := by
      rintro rfl
      rw [hdel'] at hdel
      cases hdel
    exact eq_false_of_imp (heldIn_of_after (hother _ hhost)) (hw.deleting host hdel').2

/-- A step of a holder that touches nothing but the identity of its host. -/
theorem HeldInv.own {w : FrontWorld} {i : Nat} {o : FrontOp} {r : o.Ret} {s : FrontStore}
    {label : String} (hw : HeldInv cfg w) (hold : Holding cfg w i (handleOf cfg label))
    (hc : ∀ host, claimedHost cfg host ⟨i, o, r⟩ = false)
    (hd : ∀ host, wipedHost host ⟨i, o, r⟩ = false)
    (hreg : s.registry = w.store.registry)
    (hlive : ∀ host, host ≠ handleOf cfg label →
      liveIn host s.history = liveIn host w.store.history)
    (hacc : ∀ host, host ≠ handleOf cfg label →
      (s.objects host).accounts = (w.store.objects host).accounts)
    (hpub : (w.after i o r s).tally postedOp i = 0 →
      liveIn (handleOf cfg label) s.history = false)
    (hnil : (w.after i o r s).tally insertedRow i = 0 →
      (s.objects (handleOf cfg label)).accounts = [])
    (hone : (s.objects (handleOf cfg label)).accounts.length ≤ 1) :
    HeldInv cfg (w.after i o r s) := by
  have hid : ∀ host, host ≠ handleOf cfg label → identityAt s host = identityAt w.store host := by
    intro host hhost
    rw [identityAt, identityAt, hlive host hhost, hacc host hhost]
  have hrow := hw.row i label hold
  refine ⟨fun l h => ?_, fun j l h => ?_, fun j k host hj hk => ?_, fun j host hj hp => ?_,
    fun j host hj hp => ?_, fun host h => ?_, fun host => ?_⟩
  · rw [World.after_store, hreg]
    by_cases hl : l = label
    · rw [hl, hrow]
    · have hhost : handleOf cfg l ≠ handleOf cfg label := fun h => hl (handleOf_injective h)
      rw [World.after_store, hid _ hhost] at h
      exact hw.held l h
  · rw [World.after_store, hreg]
    exact hw.row j l (h.of_after (hc _))
  · exact hw.unique j k host (hj.of_after (hc _)) (hk.of_after (hc _))
  · have hj' := hj.of_after (hc _)
    by_cases hhost : host = handleOf cfg label
    · rw [hhost] at hj' ⊢
      rw [hw.unique j i _ hj' hold] at hp
      exact hpub hp
    · rw [World.after_store, hlive host hhost]
      exact hw.unpublished j host hj' (World.tally_eq_zero_of_after hp)
  · have hj' := hj.of_after (hc _)
    by_cases hhost : host = handleOf cfg label
    · rw [hhost] at hj' ⊢
      rw [hw.unique j i _ hj' hold] at hp
      exact hnil hp
    · rw [World.after_store, hacc host hhost]
      exact hw.empty j host hj' (World.tally_eq_zero_of_after hp)
  · have hdel := hw.deleting host (deletingIn_of_after (hd _) h)
    have hhost : host ≠ handleOf cfg label := by
      rintro rfl
      rw [hold.heldIn] at hdel
      cases hdel.2
    refine ⟨?_, eq_false_of_imp (heldIn_of_after (hc _)) hdel.2⟩
    rw [World.after_store, hid host hhost]
    exact hdel.1
  · by_cases hhost : host = handleOf cfg label
    · rw [hhost]
      exact hone
    · rw [World.after_store, hacc host hhost]
      exact hw.single host

/-- A label is freed while nobody holds it and no identity goes by it. -/
theorem HeldInv.free {w : FrontWorld} {i : Nat} {o : FrontOp} {r : o.Ret} {g : Registry}
    {label : String} (hw : HeldInv cfg w)
    (hid : identityAt w.store (handleOf cfg label) = false)
    (hc : ∀ host, claimedHost cfg host ⟨i, o, r⟩ = false)
    (hd : ∀ host, wipedHost host ⟨i, o, r⟩ = false)
    (hno : ∀ j, ¬ Holding cfg (w.after i o r { w.store with registry := g }) j
      (handleOf cfg label))
    (hg : ∀ l, l ≠ label → g.isTaken l = w.store.registry.isTaken l) :
    HeldInv cfg (w.after i o r { w.store with registry := g }) := by
  refine ⟨fun l h => ?_, fun j l h => ?_, fun j k host hj hk => ?_, fun j host hj hp => ?_,
    fun j host hj hp => ?_, fun host h => ?_, hw.single⟩
  · have hl : l ≠ label := by
      rintro rfl
      exact Bool.false_ne_true (hid.symm.trans h)
    exact (hg l hl).trans (hw.held l h)
  · have hl : l ≠ label := by
      rintro rfl
      exact hno j h
    exact (hg l hl).trans (hw.row j l (h.of_after (hc _)))
  · exact hw.unique j k host (hj.of_after (hc _)) (hk.of_after (hc _))
  · exact hw.unpublished j host (hj.of_after (hc _)) (World.tally_eq_zero_of_after hp)
  · exact hw.empty j host (hj.of_after (hc _)) (World.tally_eq_zero_of_after hp)
  · have hdel := hw.deleting host (deletingIn_of_after (hd _) h)
    exact ⟨hdel.1, eq_false_of_imp (heldIn_of_after (hc _)) hdel.2⟩

/-- An object is wiped while no signup holds its host. -/
theorem HeldInv.wipe {w : FrontWorld} {i : Nat} {host : String} {did : Option String}
    {s : FrontStore} (hw : HeldInv cfg w) (hno : heldIn cfg w host = false)
    (hreg : s.registry = w.store.registry)
    (hlive : ∀ h, liveIn h s.history = (host != h && liveIn h w.store.history))
    (hacc : ∀ h, (s.objects h).accounts
      = if h = host then [] else (w.store.objects h).accounts) :
    HeldInv cfg (w.after i (.wipe host) (.ok did) s) := by
  have hself : identityAt s host = false := by
    rw [identityAt_eq_false, hlive, hacc]
    simp
  have hid : ∀ h, identityAt s h = true → identityAt w.store h = true := by
    intro h hs
    simp only [identityAt, hlive, hacc, Bool.or_eq_true, Bool.and_eq_true] at hs ⊢
    rcases hs with hs | hs
    · exact Or.inl hs.2
    · split at hs
      · cases hs
      · exact Or.inr hs
  have hgone : ∀ j h, Holding cfg (w.after i (.wipe host) (.ok did) s) j h → h ≠ host := by
    rintro j h hj rfl
    have := (hj.of_after (o := .wipe h) rfl).heldIn
    rw [this] at hno
    cases hno
  refine ⟨fun l h => ?_, fun j l h => ?_, fun j k h hj hk => ?_, fun j h hj hp => ?_,
    fun j h hj hp => ?_, fun h hdel => ?_, fun h => ?_⟩
  · rw [World.after_store, hreg]
    exact hw.held l (hid _ h)
  · rw [World.after_store, hreg]
    exact hw.row j l (h.of_after rfl)
  · exact hw.unique j k h (hj.of_after rfl) (hk.of_after rfl)
  · have hdead := hw.unpublished j h (hj.of_after rfl) (World.tally_eq_zero_of_after hp)
    rw [World.after_store, hlive, hdead, Bool.and_false]
  · have hnil := hw.empty j h (hj.of_after rfl) (World.tally_eq_zero_of_after hp)
    rw [World.after_store, hacc, if_neg (hgone j h hj), hnil]
  · by_cases hh : h = host
    · rw [hh]
      exact ⟨hself, eq_false_of_imp (heldIn_of_after rfl) hno⟩
    · have hother : wipedHost h ⟨i, .wipe host, .ok did⟩ = false := by
        simpa [wipedHost] using Ne.symm hh
      have hdel' := hw.deleting h (deletingIn_of_after hother hdel)
      exact ⟨eq_false_of_imp (hid h) hdel'.1, eq_false_of_imp (heldIn_of_after rfl) hdel'.2⟩
  · rw [World.after_store, hacc]
    split
    · exact Nat.zero_le _
    · exact hw.single h

/-! ## The contract -/

section

variable {Keypair : Type} {lib : FrontLib Keypair}

/-- What an operation can do in a run that meets `unbroken`. -/
def HeldExec (cfg : FrontConfig) (lib : FrontLib Keypair) (_ : Nat) (w : FrontWorld)
    (o : FrontOp) (r : o.Ret) (s : FrontStore) : Prop :=
  ∃ c, o.exec lib w.store c = (r, s) ∧ unbrokenAt cfg w c o = true

/-- The rest of a handler keeps the invariant from `w`, whatever the
others do meanwhile. -/
abbrev HeldSafe (cfg : FrontConfig) (lib : FrontLib Keypair) {ε α : Type} (i : Nat)
    (post : Except ε α → FrontWorld → Prop) (p : Prog frontSig ε α) (w : FrontWorld) : Prop :=
  Safe (.logged (HeldInv cfg)) (HeldExec cfg lib) i post p w

/-- A call leaves the store as it was or has its effect on it. -/
theorem FrontOp.exec_store {o : FrontOp} {s s' : FrontStore} {c : Fate} {r : o.Ret}
    (h : o.exec lib s c = (r, s')) : s' = s ∨ s' = (o.effect lib s).2 := by
  cases c with
  | done => exact Or.inr (congrArg Prod.snd h).symm
  | failsBefore msg => exact Or.inl (congrArg Prod.snd h).symm
  | failsAfter msg => exact Or.inr (congrArg Prod.snd h).symm

/-- The operations that change neither the claims nor an identity. -/
def FrontOp.Quiet : FrontOp → Prop
  | .claim _ _ _ | .postOperation _ _ | .countAndInsertAccount _ _ _ _ _ | .release _
  | .wipe _ | .forceRelease _ => False
  | _ => True

theorem FrontOp.Quiet.exec {o : FrontOp} (hq : o.Quiet) {s s' : FrontStore} {c : Fate}
    {r : o.Ret} (h : o.exec lib s c = (r, s')) :
    (∀ l, s'.registry.isTaken l = s.registry.isTaken l) ∧ s'.history = s.history
      ∧ ∀ host, (s'.objects host).accounts = (s.objects host).accounts := by
  rcases exec_store h with rfl | rfl
  · exact ⟨fun _ => rfl, rfl, fun _ => rfl⟩
  · cases o with
    | storeKey h id nonce plaintext =>
        refine ⟨fun _ => rfl, rfl, fun host => ?_⟩
        simp only [FrontOp.effect, FrontStore.setObject]
        split
        · rename_i hh
          rw [hh, AccountStore.putKeyBlob_accounts]
        · rfl
    | bind label did => exact ⟨fun l => Registry.isTaken_bind _ _ _ _, rfl, fun _ => rfl⟩
    | reach _ | countAccounts _ | hashPassword _ _ | encodeAccessJwt _ _
    | encodeRefreshJwt _ _ | reply _ => exact ⟨fun _ => rfl, rfl, fun _ => rfl⟩
    | claim _ _ _ | postOperation _ _ | countAndInsertAccount _ _ _ _ _ | release _
    | wipe _ | forceRelease _ => exact hq.elim

theorem HeldInv.quiet {w : FrontWorld} {i : Nat} {o : FrontOp} {r : o.Ret} {s : FrontStore}
    (hw : HeldInv cfg w) (hq : o.Quiet) (h : HeldExec cfg lib i w o r s) :
    HeldInv cfg (w.after i o r s) := by
  obtain ⟨c, hexec, -⟩ := h
  obtain ⟨htaken, hhist, hacc⟩ := hq.exec hexec
  refine hw.mono (fun host => ?_) (fun host => ?_) (fun l hl => (htaken l).trans hl)
    (fun host hl => hhist ▸ hl) (fun host => (congrArg List.length (hacc host)).le)
  · cases o <;> first | rfl | exact hq.elim
  · cases o <;> first | rfl | exact hq.elim

/-! ## A signup's own history -/

/-- Task `i` holds `host`, with this many operations posted and rows inserted. -/
structure Own (cfg : FrontConfig) (i : Nat) (host : String) (posted inserted : Nat)
    (w : FrontWorld) : Prop where
  holding : Holding cfg w i host
  posts : w.tally postedOp i = posted
  inserts : w.tally insertedRow i = inserted

variable {i posted inserted : Nat} {host : String} {w w' : FrontWorld}

theorem Own.stable (h : Own cfg i host posted inserted w)
    (hr : (Contract.logged (HeldInv cfg)).rely i w w') : Own cfg i host posted inserted w' where
  holding := ⟨(hr _).symm ▸ h.holding.1, (hr _).trans h.holding.2⟩
  posts := (hr _).trans h.posts
  inserts := (hr _).trans h.inserts

theorem Own.after (h : Own cfg i host posted inserted w) {o : FrontOp} {r : o.Ret}
    {s : FrontStore} (hs : settled ⟨i, o, r⟩ = false) :
    Own cfg i host (posted + if postedOp ⟨i, o, r⟩ then 1 else 0)
      (inserted + if insertedRow ⟨i, o, r⟩ then 1 else 0) (w.after i o r s) where
  holding := by
    refine ⟨Nat.lt_of_lt_of_le h.holding.1 (w.tally_le_after _ i i o r s), ?_⟩
    rw [World.tally_after_self, h.holding.2, hs]
    rfl
  posts := by rw [World.tally_after_self, h.posts]
  inserts := by rw [World.tally_after_self, h.inserts]

/-- A quiet operation of a holder. -/
theorem Own.safe_quiet {ε α : Type} {post : Except ε α → FrontWorld → Prop} {o : FrontOp}
    {k : o.Ret → Prog frontSig ε α} (hq : o.Quiet) (hs : ∀ r, settled ⟨i, o, r⟩ = false)
    (h : Own cfg i host posted inserted w)
    (hk : ∀ w r s, Own cfg i host posted inserted w → HeldExec cfg lib i w o r s →
      HeldInv cfg (w.after i o r s) → Own cfg i host posted inserted (w.after i o r s) →
      HeldSafe cfg lib i post (k r) (w.after i o r s)) :
    HeldSafe cfg lib i post (.op o k) w := by
  refine Safe.op_logged fun w₁ hr hinv r s hE => ?_
  have hown := h.stable hr
  have hinv' := hinv.quiet hq hE
  refine ⟨hinv', hk w₁ r s hown hE hinv' ?_⟩
  have hown' := hown.after (s := s) (hs r)
  have hp : postedOp ⟨i, o, r⟩ = false := by cases o <;> first | rfl | exact hq.elim
  have hi : insertedRow ⟨i, o, r⟩ = false := by cases o <;> first | rfl | exact hq.elim
  rwa [hp, hi] at hown'

/-! ## Provisioning -/

variable {label handle did : String} {email : Option String} {password : String}
  {rnd : Entropy Keypair}

theorem liveIn_published {host handle : String} {op : PlcGenesisOpSigned}
    (hop : op.alsoKnownAs = [s!"at://{handle}"]) (hne : host ≠ handle)
    (h : List PublicEvent) : liveIn host (.published did op :: h) = liveIn host h := by
  have hat : s!"at://{host}" ≠ s!"at://{handle}" := by
    intro heq
    have hl := congrArg String.toList heq
    rw [String.toList_append, String.toList_append (s := toString "at://")] at hl
    exact hne (String.toList_inj.mp (List.append_cancel_left hl))
  simp [liveIn, hop, hat]

/-- The row goes in: the object was empty, because its host is held by
the call that inserts. -/
theorem Own.safe_insert {ε α : Type} {post : Except ε α → FrontWorld → Prop} {phc : String}
    {k : Except StorageError Nat → Prog frontSig ε α}
    (h : Own cfg i (handleOf cfg label) 1 0 w)
    (hk : ∀ w, HeldInv cfg w → Own cfg i (handleOf cfg label) 1 1 w →
      HeldSafe cfg lib i post (k (.ok 0)) w) :
    HeldSafe cfg lib i post
      (.op (.countAndInsertAccount (handleOf cfg label) did handle email phc) k) w := by
  refine Safe.op_logged fun w₁ hr hinv r s hE => ?_
  have hown := h.stable hr
  obtain ⟨c, hexec, hc⟩ := hE
  obtain rfl : c = .done := by
    cases c <;> first | rfl | cases hc
  have hnil := hinv.empty i _ hown.holding hown.inserts
  obtain ⟨a, ha, hlen⟩ := AccountStore.countAndInsertAccount_empty hnil did handle email phc
  simp only [FrontOp.exec, FrontOp.effect, ha, Prod.mk.injEq] at hexec
  obtain ⟨rfl, rfl⟩ := hexec
  have hown' := hown.after (o := .countAndInsertAccount (handleOf cfg label) did handle email phc)
    (r := .ok 0) (s := w₁.store.setObject (handleOf cfg label) a) rfl
  have hinv' : HeldInv cfg (w₁.after i (.countAndInsertAccount (handleOf cfg label) did handle
      email phc) (.ok 0) (w₁.store.setObject (handleOf cfg label) a)) := by
    refine hinv.own hown.holding (fun _ => rfl) (fun _ => rfl) rfl (fun _ _ => rfl)
      (fun host hhost => ?_) (fun hp => ?_) (fun hp => ?_) ?_
    · simp only [FrontStore.setObject, if_neg hhost]
    · rw [hown'.posts] at hp
      cases hp
    · rw [hown'.inserts] at hp
      cases hp
    · simp only [FrontStore.setObject, if_true]
      omega
  exact ⟨hinv', hk _ hinv' hown'⟩

/-- The quiet operations that must not fail once the genesis operation is out. -/
theorem Own.safe_done {ε α : Type} {post : Except ε α → FrontWorld → Prop} {o : FrontOp}
    {k : o.Ret → Prog frontSig ε α} (hq : o.Quiet) (hs : ∀ r, settled ⟨i, o, r⟩ = false)
    (hdone : ∀ w c, unbrokenAt cfg w c o = c.isDone)
    (hok : ∀ s, ∃ v, (o.effect lib s).1 = .ok v)
    (h : Own cfg i host posted inserted w)
    (hk : ∀ w v, HeldInv cfg w → Own cfg i host posted inserted w →
      HeldSafe cfg lib i post (k (.ok v)) w) :
    HeldSafe cfg lib i post (.op o k) w := by
  refine h.safe_quiet hq hs fun w₁ r s _ hE hinv hown => ?_
  obtain ⟨c, hexec, hc⟩ := hE
  rw [hdone] at hc
  obtain rfl : c = .done := by
    cases c <;> first | rfl | cases hc
  obtain ⟨v, hv⟩ := hok w₁.store
  obtain rfl : r = .ok v := (congrArg Prod.fst hexec).symm.trans hv
  exact hk _ v hinv hown

/-- After the genesis operation everything goes through, and the call
ends with the account. -/
theorem Own.safe_finishProvision (h : Own cfg i (handleOf cfg label) 1 0 w) :
    HeldSafe cfg lib i (fun x w' => (∃ d a r, x = .ok (.created d a r))
        ∧ Own cfg i (handleOf cfg label) 1 1 w')
      (finishProvision lib (handleOf cfg label) handle email password did rnd) w := by
  refine h.safe_done trivial (fun _ => rfl) (fun _ _ => rfl) (fun _ => ⟨_, rfl⟩)
    fun w₁ phc _ h₁ => ?_
  refine h₁.safe_insert fun w₂ _ h₂ => ?_
  refine h₂.safe_done trivial (fun _ => rfl) (fun _ _ => rfl) (fun _ => ⟨_, rfl⟩)
    fun w₃ _ _ h₃ => ?_
  refine h₃.safe_done trivial (fun _ => rfl) (fun _ _ => rfl) (fun _ => ⟨_, rfl⟩)
    fun w₄ _ _ h₄ => ?_
  refine h₄.safe_done trivial (fun _ => rfl) (fun _ _ => rfl) (fun _ => ⟨_, rfl⟩)
    fun w₅ access _ h₅ => ?_
  refine h₅.safe_done trivial (fun _ => rfl) (fun _ _ => rfl) (fun _ => ⟨_, rfl⟩)
    fun w₆ refresh _ h₆ => ?_
  exact fun w₇ hr _ => ⟨⟨did, access, refresh, rfl⟩, h₆.stable hr⟩

/-- How a provisioning may end: with the account, or with nothing on the
ledger and no row. -/
def ProvisionPost (cfg : FrontConfig) (i : Nat) (host : String)
    (x : Except String ProvisionOutcome) (w : FrontWorld) : Prop :=
  (∃ d a r, x = .ok (.created d a r)) ∨ Own cfg i host 0 0 w

/-- As `ProvisionPost`, with the answer still to travel back. -/
def ProvisionEnd (cfg : FrontConfig) (i : Nat) (host : String)
    (x : Except String ProvisionOutcome) (w : FrontWorld) : Prop :=
  ((∃ d a r, x = .ok (.created d a r)) ∧ Own cfg i host 1 1 w) ∨
    ((∀ d a r, x ≠ .ok (.created d a r)) ∧ Own cfg i host 0 0 w)

theorem Own.safe_post {op : PlcGenesisOpSigned}
    (hop : op.alsoKnownAs = [s!"at://{handleOf cfg label}"])
    (h : Own cfg i (handleOf cfg label) 0 0 w) :
    HeldSafe cfg lib i (ProvisionEnd cfg i (handleOf cfg label))
      (.op (.postOperation did op) fun
        | .error e => .ret (upstreamFailure e)
        | .ok () => finishProvision lib (handleOf cfg label) handle email password did rnd) w := by
  refine Safe.op_logged fun w₁ hr hinv r s hE => ?_
  have hown := h.stable hr
  obtain ⟨c, hexec, hc⟩ := hE
  cases c with
  | done =>
      obtain ⟨rfl, rfl⟩ := Prod.mk.injEq .. |>.mp hexec
      have hown' := hown.after (o := .postOperation did op) (r := .ok ())
        (s := w₁.store.record (.published did op)) rfl
      refine ⟨?_, Own.safe_finishProvision hown' |>.mono fun x w' _ hx => Or.inl hx⟩
      refine hinv.own hown.holding (fun _ => rfl) (fun _ => rfl) rfl
        (fun host hhost => liveIn_published hop hhost _) (fun _ _ => rfl) (fun hp => ?_)
        (fun _ => hinv.empty i _ hown.holding hown.inserts) (hinv.single _)
      rw [hown'.posts] at hp
      cases hp
  | failsBefore msg =>
      obtain ⟨rfl, rfl⟩ := Prod.mk.injEq .. |>.mp hexec
      have hown' := hown.after (o := .postOperation did op) (r := .error (.internal msg))
        (s := w₁.store) rfl
      refine ⟨hinv.mono (fun _ => rfl) (fun _ => rfl) (fun _ hl => hl) (fun _ hl => hl)
        fun _ => le_rfl, fun w₂ hr₂ _ => Or.inr ⟨fun d a r hx => ?_, hown'.stable hr₂⟩⟩
      cases Except.ok.inj hx
  | failsAfter msg => cases hc

theorem Own.safe_provisionAccount (issuer : String) (h : Own cfg i (handleOf cfg label) 0 0 w) :
    HeldSafe cfg lib i (ProvisionEnd cfg i (handleOf cfg label))
      (provisionAccount lib issuer (handleOf cfg label) (handleOf cfg label) email password rnd)
      w := by
  have hreject : ∀ (w : FrontWorld) (error message : String),
      Own cfg i (handleOf cfg label) 0 0 w →
      HeldSafe cfg lib i (ProvisionEnd cfg i (handleOf cfg label))
        (.ret (.rejected error message)) w := by
    intro w error message h w' hr _
    refine Or.inr ⟨fun d a r hx => ?_, h.stable hr⟩
    cases Except.ok.inj hx
  unfold provisionAccount
  split
  · exact hreject w _ _ h
  · refine h.safe_quiet trivial (fun _ => rfl) fun w₁ r s _ _ _ h₁ => ?_
    cases r with
    | error e =>
        intro w' hr _
        exact Or.inr ⟨fun d a r hx => (by cases hx), h₁.stable hr⟩
    | ok existing =>
        show HeldSafe cfg lib i _ (ite _ _ _) _
        split
        · exact hreject _ _ _ h₁
        · split
          · exact hreject _ _ _ h₁
          · rename_i hsign
            exact h₁.safe_post (signGenesis_alsoKnownAs hsign)

theorem Own.safe_callProvision (h : Own cfg i (handleOf cfg label) 0 0 w) :
    HeldSafe cfg lib i (ProvisionPost cfg i (handleOf cfg label))
      (callProvision lib cfg.zone (handleOf cfg label) email password rnd) w := by
  refine h.safe_quiet trivial (fun _ => rfl) fun w₁ r s _ _ hinv₁ h₁ => ?_
  cases r with
  | error e => exact fun w' hr _ => Or.inr (h₁.stable hr)
  | ok _ =>
      show HeldSafe cfg lib i _ ((provisionAccount lib _ _ _ email password rnd).bind _) _
      refine Safe.bind ((h₁.safe_provisionAccount _).mono fun x w₂ hinv₂ hx => ?_) hinv₁
      rcases hx with ⟨⟨d, a, r, rfl⟩, h₂⟩ | ⟨hx, h₂⟩
      · refine Safe.op_logged fun w₃ _ hinv₃ r s hE => ⟨hinv₃.quiet trivial hE, ?_⟩
        obtain ⟨c, hexec, hc⟩ := hE
        obtain rfl : c = .done := by
          cases c <;> first | rfl | cases hc
        obtain ⟨rfl, rfl⟩ := Prod.mk.injEq .. |>.mp hexec
        exact fun _ _ _ => Or.inl ⟨d, a, _, rfl⟩
      · cases x with
        | error e => exact Or.inr h₂
        | ok outcome =>
            cases outcome with
            | created d a r => exact (hx d a r rfl).elim
            | rejected error message =>
                refine h₂.safe_quiet trivial (fun _ => rfl) fun w₃ r s _ _ _ h₃ => ?_
                cases r with
                | error e => exact fun w' hr _ => Or.inr (h₃.stable hr)
                | ok _ => exact fun w' hr _ => Or.inr (h₃.stable hr)

/-! ## The front -/

/-- Giving the label back: the holder has published nothing. -/
theorem Own.safe_release {ε α : Type} {x : α} (h : Own cfg i (handleOf cfg label) 0 0 w) :
    HeldSafe cfg lib i (fun (_ : Except ε α) _ => True) (.op (.release label) fun _ => .ret x) w := by
  refine Safe.op_logged fun w₁ hr hinv r s hE => ⟨?_, fun _ _ _ => trivial⟩
  have hown := h.stable hr
  have hid : identityAt w₁.store (handleOf cfg label) = false :=
    identityAt_eq_false.mpr ⟨hinv.unpublished i _ hown.holding hown.posts,
      hinv.empty i _ hown.holding hown.inserts⟩
  -- Nobody but the caller held the host, and the caller is settled now.
  have hno : ∀ s' : FrontStore, ∀ j,
      ¬ Holding cfg (w₁.after i (.release label) r s') j (handleOf cfg label) := by
    intro s' j hj
    obtain rfl := hinv.unique j i _ (hj.of_after rfl) hown.holding
    have := hj.2
    rw [World.tally_after_self] at this
    cases this
  obtain ⟨c, hexec, -⟩ := hE
  cases c with
  | failsBefore msg =>
      obtain ⟨rfl, rfl⟩ := Prod.mk.injEq .. |>.mp hexec
      exact hinv.mono (fun _ => rfl) (fun _ => rfl) (fun _ hl => hl) (fun _ hl => hl)
        fun _ => le_rfl
  | done =>
      obtain ⟨rfl, rfl⟩ := Prod.mk.injEq .. |>.mp hexec
      exact hinv.free hid (fun _ => rfl) (fun _ => rfl) (hno _)
        fun l hl => Registry.isTaken_release _ hl
  | failsAfter msg =>
      obtain ⟨rfl, rfl⟩ := Prod.mk.injEq .. |>.mp hexec
      exact hinv.free hid (fun _ => rfl) (fun _ => rfl) (hno _)
        fun l hl => Registry.isTaken_release _ hl

theorem Own.safe_provisionAndBind (hinv : HeldInv cfg w)
    (h : Own cfg i (handleOf cfg label) 0 0 w) :
    HeldSafe cfg lib i (fun _ _ => True)
      (provisionAndBind lib cfg label (handleOf cfg label) email password rnd) w := by
  refine Safe.bind (Safe.attempt (h.safe_callProvision.mono fun x w₁ hinv₁ hx => ?_)) hinv
  rcases hx with ⟨d, a, r, rfl⟩ | h₁
  · exact Safe.op_logged fun w₂ _ hinv₂ r s hE => ⟨hinv₂.quiet trivial hE, fun _ _ _ => trivial⟩
  · cases x with
    | error e => exact h₁.safe_release
    | ok outcome =>
        cases outcome with
        | created d a r =>
            exact Safe.op_logged fun w₂ _ hinv₂ r s hE =>
              ⟨hinv₂.quiet trivial hE, fun _ _ _ => trivial⟩
        | rejected error message => exact h₁.safe_release

/-- The claim: whoever gets the label holds its host, with nothing on the
ledger yet. -/
theorem safe_claim {ε α : Type} {post : Except ε α → FrontWorld → Prop} {code : Option String}
    {isOpen : Bool} {k : Except String ClaimAnswer → Prog frontSig ε α}
    (hfresh : ∀ p, w.tally p i = 0)
    (hno : ∀ r w, r ≠ .ok .ok → HeldSafe cfg lib i post (k r) w)
    (hyes : ∀ w, HeldInv cfg w → Own cfg i (handleOf cfg label) 0 0 w →
      HeldSafe cfg lib i post (k (.ok .ok)) w) :
    HeldSafe cfg lib i post (.op (.claim label code isOpen) k) w := by
  refine Safe.op_logged fun w₁ hr hinv r s hE => ?_
  obtain ⟨c, hexec, hc⟩ := hE
  have hcases := w₁.store.registry.claim_cases label code isOpen
  simp only [FrontOp.exec, FrontOp.effect] at hexec
  generalize w₁.store.registry.claim label code isOpen = res at hexec hcases
  obtain ⟨answer, g⟩ := res
  have hgrows : ∀ l, w₁.store.registry.isTaken l = true → g.isTaken l = true := by
    intro l hl
    rcases hcases with ⟨-, heq⟩ | ⟨-, -, hg⟩
    · rw [show g = w₁.store.registry from heq]
      exact hl
    · rw [hg, hl, Bool.or_true]
  cases c with
  | failsBefore msg =>
      obtain ⟨rfl, rfl⟩ := Prod.mk.injEq .. |>.mp hexec
      exact ⟨hinv.mono (fun _ => rfl) (fun _ => rfl) (fun _ hl => hl) (fun _ hl => hl)
        fun _ => le_rfl, hno _ _ (by simp)⟩
  | failsAfter msg =>
      obtain ⟨rfl, rfl⟩ := Prod.mk.injEq .. |>.mp hexec
      exact ⟨hinv.mono (fun _ => rfl) (fun _ => rfl) hgrows (fun _ hl => hl)
        fun _ => le_rfl, hno _ _ (by simp)⟩
  | done =>
      obtain ⟨rfl, rfl⟩ := Prod.mk.injEq .. |>.mp hexec
      rcases hcases with ⟨hne, -⟩ | ⟨rfl, hfree, hg⟩
      · have hclaim : ∀ host,
            claimedHost cfg host ⟨i, .claim label code isOpen, .ok answer⟩ = false := by
          intro host
          cases answer <;> first | rfl | exact (hne rfl).elim
        exact ⟨hinv.mono hclaim (fun _ => rfl) hgrows (fun _ hl => hl) fun _ => le_rfl,
          hno _ _ fun h => hne (Except.ok.inj h)⟩
      · have hdel : deletingIn w₁ (handleOf cfg label) = false := by
          simpa [unbrokenAt, hfree] using hc
        have hinv' : HeldInv cfg (w₁.after i (.claim label code isOpen) (.ok .ok)
            { w₁.store with registry := _ }) := hinv.claim hfree hg hdel
        refine ⟨hinv', hyes _ hinv' ⟨⟨?_, ?_⟩, ?_, ?_⟩⟩
        · simp [claimedHost]
        · rw [World.tally_after_self, hr, hfresh]
          rfl
        · rw [World.tally_after_self, hr, hfresh]
          rfl
        · rw [World.tally_after_self, hr, hfresh]
          rfl

theorem safe_createAccount {body : Option SignupInput} (hfresh : ∀ p, w.tally p i = 0) :
    HeldSafe cfg lib i (fun _ _ => True) (Front.createAccount lib cfg body rnd) w := by
  unfold Front.createAccount
  split
  · exact fun _ _ _ => trivial
  · dsimp only
    split
    · exact fun _ _ _ => trivial
    · rename_i label hstrip
      split
      · exact fun _ _ _ => trivial
      · split
        · exact fun _ _ _ => trivial
        · have hhandle := Text.stripSuffix_eq_some hstrip
          rw [hhandle]
          refine safe_claim hfresh (fun r w₁ hne => ?_)
            fun w₁ hinv h => h.safe_provisionAndBind hinv
          cases r with
          | error e => exact fun _ _ _ => trivial
          | ok answer =>
              cases answer with
              | ok => exact (hne rfl).elim
              | handleNotAvailable => exact fun _ _ _ => trivial
              | invalidInviteCode => exact fun _ _ _ => trivial

theorem deleteAccount_accounts {a : AccountStore} (h : a.accounts.length ≤ 1) :
    a.deleteAccount.2.accounts = [] := by
  unfold AccountStore.deleteAccount
  cases hacc : a.accounts with
  | nil => simp [hacc]
  | cons x xs =>
      rw [hacc, List.length_cons] at h
      obtain rfl : xs = [] := List.length_eq_zero_iff.mp (by omega)
      simp [AccountStore.deleteAccountData, hacc]

theorem safe_forceRelease {ε α : Type} {x : α}
    (hwiped : 0 < w.tally (wipedHost (handleOf cfg label)) i) (hfreed : w.tally freed i = 0) :
    HeldSafe cfg lib i (fun (_ : Except ε α) _ => True)
      (.op (.forceRelease label) fun _ => .ret x) w := by
  refine Safe.op_logged fun w₁ hr hinv₁ r s hE => ⟨?_, fun _ _ _ => trivial⟩
  have hdel : deletingIn w₁ (handleOf cfg label) = true := by
    rw [← hr] at hwiped hfreed
    obtain ⟨e, he, hp⟩ := List.countP_pos_iff.mp hwiped
    simp only [Bool.and_eq_true, beq_iff_eq] at hp
    obtain ⟨hwipe, rfl⟩ := hp
    exact List.any_eq_true.mpr ⟨e, he, by simp [hwipe, hfreed]⟩
  obtain ⟨hid, hheld⟩ := hinv₁.deleting _ hdel
  have hno : ∀ s' : FrontStore, ∀ j,
      ¬ Holding cfg (w₁.after i (.forceRelease label) r s') j (handleOf cfg label) := by
    intro s' j hj
    rw [(hj.of_after (o := .forceRelease label) rfl).heldIn] at hheld
    cases hheld
  obtain ⟨c, hexec, -⟩ := hE
  cases c with
  | failsBefore msg =>
      obtain ⟨rfl, rfl⟩ := Prod.mk.injEq .. |>.mp hexec
      exact hinv₁.mono (fun _ => rfl) (fun _ => rfl) (fun _ hl => hl) (fun _ hl => hl)
        fun _ => le_rfl
  | done =>
      obtain ⟨rfl, rfl⟩ := Prod.mk.injEq .. |>.mp hexec
      exact hinv₁.free hid (fun _ => rfl) (fun _ => rfl) (hno _)
        fun l hl => Registry.isTaken_forceRelease _ hl
  | failsAfter msg =>
      obtain ⟨rfl, rfl⟩ := Prod.mk.injEq .. |>.mp hexec
      exact hinv₁.free hid (fun _ => rfl) (fun _ => rfl) (hno _)
        fun l hl => Registry.isTaken_forceRelease _ hl

theorem safe_deleteAccount {presented : String} {body : Option String}
    (hfresh : ∀ p, w.tally p i = 0) :
    HeldSafe cfg lib i (fun _ _ => True) (Front.deleteAccount cfg presented body) w := by
  unfold Front.deleteAccount
  split
  · exact fun _ _ _ => trivial
  · split
    · exact fun _ _ _ => trivial
    · split
      · exact fun _ _ _ => trivial
      · dsimp only
        split
        · exact fun _ _ _ => trivial
        · rename_i label hstrip
          obtain hhandle : _ = handleOf cfg label := Text.stripSuffix_eq_some hstrip
          rw [hhandle]
          refine Safe.op_logged fun w₁ hr hinv r s hE => ?_
          obtain ⟨c, hexec, hc⟩ := hE
          have hacc : ∀ h, (((FrontOp.wipe (handleOf cfg label)).effect lib w₁.store).2.objects
              h).accounts = if h = handleOf cfg label then []
                else (w₁.store.objects h).accounts := by
            intro h
            simp only [FrontOp.effect, FrontStore.setObject, FrontStore.record]
            split
            · exact deleteAccount_accounts (hinv.single _)
            · rfl
          cases c with
          | failsBefore msg =>
              obtain ⟨rfl, rfl⟩ := Prod.mk.injEq .. |>.mp hexec
              exact ⟨hinv.mono (fun _ => rfl) (fun _ => rfl) (fun _ hl => hl) (fun _ hl => hl)
                fun _ => le_rfl, fun _ _ _ => trivial⟩
          | failsAfter msg =>
              obtain ⟨rfl, rfl⟩ := Prod.mk.injEq .. |>.mp hexec
              refine ⟨hinv.mono (fun _ => rfl) (fun _ => rfl) (fun _ hl => hl)
                (fun h hl => (Bool.and_eq_true_iff.mp hl).2) fun h => ?_, fun _ _ _ => trivial⟩
              rw [hacc]
              split
              · exact Nat.zero_le _
              · exact le_rfl
          | done =>
              obtain ⟨rfl, rfl⟩ := Prod.mk.injEq .. |>.mp hexec
              have hno : heldIn cfg w₁ (handleOf cfg label) = false := by
                simpa [unbrokenAt] using hc
              have hinv' : HeldInv cfg (w₁.after i (.wipe (handleOf cfg label))
                  (.ok (w₁.store.objects (handleOf cfg label)).deleteAccount.1)
                  ((FrontOp.wipe (handleOf cfg label)).effect lib w₁.store).2) :=
                hinv.wipe hno rfl (fun h => rfl) hacc
              refine ⟨hinv', safe_forceRelease ?_ ?_⟩
              · simp [wipedHost]
              · rw [World.tally_after_self, hr, hfresh]
                rfl

/-! ## The theorem -/

theorem heldExec_of_unbroken {P : FrontPool Keypair} {a : PoolAct (FrontRequest Keypair) Fate}
    (h : unbroken cfg P a = true) : Pool.Allowed (frontMachine lib) (HeldExec cfg lib) P a := by
  cases a with
  | start q => trivial
  | step i c =>
      intro q o k r s htask hexec
      refine ⟨c, Option.some.inj hexec, ?_⟩
      simpa only [unbroken, htask] using h

/-- In every run in which nothing fails between an accepted genesis
operation and its `ok`, and no delete-account overlaps a signup for the
same handle, every identity's label has its row in every state. -/
theorem handlesHeld_of_unbroken {invites : Table String InviteRow}
    {as : List (PoolAct (FrontRequest Keypair) Fate)} {P : FrontPool Keypair}
    (hrun : Steps.run (frontStep cfg lib) (Pool.init (newFront invites)) as = some P)
    (hcond : Steps.Along (frontStep cfg lib) (fun P a => unbroken cfg P a = true)
      (Pool.init (newFront invites)) as) :
    HandlesHeld cfg P.store := by
  have hinit : HeldInv cfg ⟨newFront invites, []⟩ := by
    refine ⟨fun l h => ?_, fun i l h => ?_, fun i j host h => ?_, fun _ _ _ _ => rfl,
      fun _ _ _ _ => rfl, fun host h => ?_, fun _ => Nat.zero_le _⟩
    · cases h
    · cases h.1
    · cases h.1
    · cases h
  have hgood : Pool.Good (.logged (HeldInv cfg)) (HeldExec cfg lib) (fun _ _ _ _ => True) P := by
    refine Pool.good_run (fun q i w _ hfresh => ?_) hinit
      (hcond.imp fun _ _ => heldExec_of_unbroken) hrun
    have htally : ∀ p, w.tally p i = 0 := fun p => World.tally_eq_zero_of_fresh p hfresh
    cases q with
    | createAccount body rnd => exact safe_createAccount htally
    | deleteAccount presented body => exact safe_deleteAccount htally
  exact hgood.1.held

end

end

/-! ## A deployment with open registration -/

def sampleFrontLib : FrontLib Nat where
  plc := samplePlc
  hashPassword salt p := s!"{salt}${p}"
  encryptKey nonce plaintext := nonce ++ plaintext
  encodeAccessJwt did now := s!"access:{did}:{now}"
  encodeRefreshJwt did now := s!"refresh:{did}:{now}"

def sampleFront : FrontConfig where
  zone := "pds.test"
  openRegistration := true
  adminToken := some "secret"

def sampleSignup (name : String) (n : Nat) : FrontRequest Nat :=
  .createAccount (some { handle := s!"{name}.pds.test", email := none
                         password := some "correct horse", inviteCode := none })
    { signing := n, rotation := n + 1, salt := name, signingNonce := [], rotationNonce := []
      now := 0 }

/-- The directory accepts the operation, and its answer is lost. -/
def lostAnswer : List (PoolAct (FrontRequest Nat) Fate) :=
  [.start (sampleSignup "alice" 1), .step 0 .done, .step 0 .done, .step 0 .done,
    .step 0 (.failsAfter "plc.directory POST failed"), .step 0 .done, .step 0 .done]

/-- A lost answer of the directory frees a handle that is on the ledger. -/
theorem lostAnswer_frees_handle :
    ¬ ∀ (cfg : FrontConfig) (lib : FrontLib Nat) (as : List (PoolAct (FrontRequest Nat) Fate))
      (P : FrontPool Nat),
      Steps.run (frontStep cfg lib) (Pool.init (newFront .empty)) as = some P →
      HandlesHeld cfg P.store := by
  intro h
  have hend : (Steps.run (frontStep sampleFront sampleFrontLib) (Pool.init (newFront .empty))
      lostAnswer).map (fun P => (identityAt P.store (handleOf sampleFront "alice"),
        P.store.registry.isTaken "alice")) = some (true, false) := by decide
  obtain ⟨P, hrun, hP⟩ := Option.map_eq_some_iff.mp hend
  obtain ⟨hid, hfree⟩ := Prod.mk.injEq .. |>.mp hP
  have := h sampleFront sampleFrontLib lostAnswer P hrun "alice" hid
  rw [hfree] at this
  cases this

/-- A signup to its end, a teardown of it, and the claim of a second
signup for the freed label. -/
def signupAndTeardown : List (PoolAct (FrontRequest Nat) Fate) :=
  .start (sampleSignup "alice" 1) :: List.replicate 12 (.step 0 .done)
    ++ [.start (.deleteAccount "secret" (some "alice.pds.test")), .step 1 .done, .step 1 .done,
      .start (sampleSignup "alice" 3), .step 2 .done]

theorem handlesHeld_signupAndTeardown : ∃ P : FrontPool Nat,
    Steps.run (frontStep sampleFront sampleFrontLib) (Pool.init (newFront .empty))
      signupAndTeardown = some P
    ∧ HandlesHeld sampleFront P.store := by
  obtain ⟨P, hrun⟩ := Option.isSome_iff_exists.mp (show (Steps.run
    (frontStep sampleFront sampleFrontLib) (Pool.init (newFront .empty))
      signupAndTeardown).isSome by decide)
  exact ⟨P, hrun, handlesHeld_of_unbroken hrun (by decide)⟩

end Stelyph
