import Stelyph.FirehoseTail
import Stelyph.Lib.Text

/-!
# What a verified event says

`verify_commit_sig` answers for one of the three places that name the
commit of an event. The signature covers the commit block; the CID of the
event is compared with the labels in the CAR file, which the reader hands
out as they are written; the `repo` and `rev` of the event are not read. So
an accepted event carries a commit the key did sign, and need not be the
event of that commit.
-/

namespace Stelyph

namespace TailLib

variable {L : RepoLib} {T : TailLib L}

/-- The event's CID is the first root of its CAR file, and `block` the first
block under that label. -/
def Labelled (T : TailLib L) (body : CommitBody L.Cid L.Car) (block : L.Block) : Prop :=
  (∃ roots, T.carRoots body.blocks = .ok roots ∧ roots.head? = some body.commit)
  ∧ ∃ (before : List (L.Cid × L.Block)) (rest : _), T.carBlocks body.blocks = before.map .ok ++ .ok (body.commit, block) :: rest
    ∧ ∀ entry ∈ before, entry.1 ≠ body.commit

/-- The event is the one of a commit that was signed: `repo` and `rev` are
the commit's, and the CID that of its block. -/
def EventSigned (T : TailLib L) (Signed : Bytes → Prop) (body : CommitBody L.Cid L.Car) : Prop :=
  ∃ block signed unsigned, T.decodeSigned block = .ok signed
    ∧ reconstructUnsigned signed = .ok unsigned ∧ Signed unsigned
    ∧ signed.did = body.repo ∧ signed.rev = body.rev ∧ L.cidOf block = body.commit

theorem nextBlocks_eq_ok {expected : L.Cid} {block : L.Block} :
    ∀ {blocks : List (Except String (L.Cid × L.Block))},
      nextBlocks expected blocks = .ok block ↔
        ∃ (before : List (L.Cid × L.Block)) (rest : _), blocks = before.map .ok ++ .ok (expected, block) :: rest
          ∧ ∀ entry ∈ before, entry.1 ≠ expected
  | [] => by
      constructor
      · intro h
        cases h
      · rintro ⟨before, rest, h, -⟩
        cases before <;> cases h
  | .error e :: blocks => by
      constructor
      · intro h
        cases h
      · rintro ⟨before, rest, h, -⟩
        cases before <;> cases h
  | .ok (cid, found) :: blocks => by
      rw [nextBlocks]
      by_cases hcid : cid = expected
      · rw [if_pos hcid, hcid]
        constructor
        · intro h
          obtain rfl := Except.ok.inj h
          exact ⟨[], blocks, rfl, fun _ hm => (List.not_mem_nil hm).elim⟩
        · rintro ⟨before, rest, h, hbefore⟩
          cases before with
          | nil =>
              obtain ⟨hentry, -⟩ := List.cons.inj h
              rw [(Prod.mk.injEq .. |>.mp (Except.ok.inj hentry)).2]
          | cons entry before =>
              obtain ⟨hentry, -⟩ := List.cons.inj h
              exact absurd (congrArg Prod.fst (Except.ok.inj hentry)).symm
                (hbefore entry List.mem_cons_self)
      · rw [if_neg hcid, nextBlocks_eq_ok]
        constructor
        · rintro ⟨before, rest, rfl, hbefore⟩
          refine ⟨(cid, found) :: before, rest, rfl, ?_⟩
          rintro entry (_ | ⟨_, hm⟩)
          · exact hcid
          · exact hbefore entry hm
        · rintro ⟨before, rest, h, hbefore⟩
          cases before with
          | nil =>
              obtain ⟨hentry, -⟩ := List.cons.inj h
              exact absurd (congrArg Prod.fst (Except.ok.inj hentry)) hcid
          | cons entry before =>
              obtain ⟨-, hrest⟩ := List.cons.inj h
              exact ⟨before, rest, hrest, fun e he => hbefore e (List.mem_cons_of_mem _ he)⟩

theorem extractCommitBlock_eq_ok {body : CommitBody L.Cid L.Car} {block : L.Block} :
    T.extractCommitBlock body.blocks body.commit = .ok block ↔ T.Labelled body block := by
  unfold extractCommitBlock Labelled
  cases hroots : T.carRoots body.blocks with
  | error e => simp
  | ok roots =>
      by_cases hhead : roots.head? = some body.commit
      · simp only [hhead, ne_eq, not_true_eq_false, if_false, nextBlocks_eq_ok]
        simp [hhead]
      · simp [hhead]

/-- An event is accepted exactly if the first block under its CID is a commit
that the key signed. Nothing else of the event has a part in it. -/
theorem verified_iff_signed {key : String} {Signed : Bytes → Prop}
    (unforgeable : ∀ message sig, T.verifySignature key message sig = .ok () → Signed message)
    (body : CommitBody L.Cid L.Car) :
    (T.verifyCommitSig body key = some (.ok ()) ↔
      ∃ block signed unsigned, T.Labelled body block ∧ T.decodeSigned block = .ok signed
        ∧ reconstructUnsigned signed = .ok unsigned
        ∧ T.verifySignature key unsigned signed.sig = .ok () ∧ Signed unsigned)
    ∧ ∀ body' : CommitBody L.Cid L.Car, body'.blocks = body.blocks → body'.commit = body.commit →
        T.verifyCommitSig body' key = T.verifyCommitSig body key := by
  constructor
  · unfold verifyCommitSig
    constructor
    · intro h
      split at h
      · cases Option.some.inj h
      · rename_i block hextract
        split at h
        · cases Option.some.inj h
        · rename_i signed hdecode
          split at h
          · cases h
          · rename_i unsigned hunsigned
            have hverify := Prog.except_mapError_ok (Option.some.inj h)
            exact ⟨block, signed, unsigned, extractCommitBlock_eq_ok.mp hextract, hdecode,
              hunsigned, hverify, unforgeable _ _ hverify⟩
    · rintro ⟨block, signed, unsigned, hlabelled, hdecode, hunsigned, hverify, -⟩
      rw [extractCommitBlock_eq_ok.mpr hlabelled]
      simp only [hdecode, hunsigned, hverify]
      rfl
  · intro body' hblocks hcommit
    rw [verifyCommitSig, verifyCommitSig, hblocks, hcommit]

end TailLib

/-! ## An old commit under other names -/

/-- Of a commit, the preimage names the account and the revision. -/
def namedRepo : RepoLib :=
  { sampleRepo with encodeUnsigned := fun u => .ok (Text.bytes (u.did ++ " " ++ u.rev)) }

/-- The one message that was signed. -/
def aliceSigned (message : Bytes) : Prop := message = Text.bytes "did:plc:alice 3kaa"

/-- A scheme in which one signature was made. -/
def namedTail : TailLib namedRepo where
  carRoots car := .ok [car.1]
  carBlocks car := car.2.map .ok
  decodeSigned := sampleRepo.decodeCommit
  verifySignature key message sig :=
    if key = "did:key:alice" ∧ message = Text.bytes "did:plc:alice 3kaa" ∧ sig = [5] then .ok ()
    else .error "signature mismatch"
  displayCid _ := "bafyrei"

theorem namedTail_unforgeable (key : String) (message sig : Bytes)
    (h : namedTail.verifySignature key message sig = .ok ()) : aliceSigned message := by
  by_cases hmade : key = "did:key:alice" ∧ message = Text.bytes "did:plc:alice 3kaa" ∧ sig = [5]
  · exact hmade.2.1
  · have hfails : namedTail.verifySignature key message sig = .error "signature mismatch" :=
      if_neg hmade
    cases hfails.symm.trans h

def aliceCommit : SampleBlock := .first "did:plc:alice" 3 .leaf "3kaa" [5]

/-- The signed commit under another CID, in an event of another account and
another revision. -/
def relabelledEvent : CommitBody namedRepo.Cid namedRepo.Car where
  seq := 9
  rebase := false
  tooBig := false
  repo := "did:plc:mallory"
  commit := SampleBlock.leaf
  rev := "3kzz"
  since := none
  blocks := (SampleBlock.leaf, [(SampleBlock.leaf, aliceCommit)])
  ops := []
  blobs := []
  time := "2026-06-17T00:00:00Z"
  prevData := none

theorem relabelled_verified : ¬ ∀ (T : TailLib namedRepo) (Signed : Bytes → Prop) (key : String)
    (body : CommitBody namedRepo.Cid namedRepo.Car),
    (∀ message sig, T.verifySignature key message sig = .ok () → Signed message) →
    T.verifyCommitSig body key = some (.ok ()) → T.EventSigned Signed body := by
  intro h
  obtain ⟨block, signed, unsigned, -, hunsigned, hsigned, hdid, hrev, -⟩ :=
    h namedTail aliceSigned "did:key:alice" relabelledEvent
      (namedTail_unforgeable "did:key:alice") (by rfl)
  have hmessage : unsigned = Text.bytes (signed.did ++ " " ++ signed.rev) :=
    (Except.ok.inj hunsigned).symm
  rw [hdid, hrev] at hmessage
  exact absurd (hmessage.symm.trans hsigned) (by decide)

/-- The event that was made for the commit. -/
def aliceEvent : CommitBody namedRepo.Cid namedRepo.Car :=
  { relabelledEvent with
    repo := "did:plc:alice", rev := "3kaa", commit := aliceCommit
    blocks := (aliceCommit, [(aliceCommit, aliceCommit)]) }

theorem aliceEvent_signed :
    namedTail.verifyCommitSig aliceEvent "did:key:alice" = some (.ok ())
    ∧ ∃ block signed unsigned, namedTail.Labelled aliceEvent block
      ∧ namedTail.decodeSigned block = .ok signed ∧ aliceSigned unsigned := by
  have hverified : namedTail.verifyCommitSig aliceEvent "did:key:alice" = some (.ok ()) := by rfl
  obtain ⟨block, signed, unsigned, hlabelled, hdecode, -, -, hsigned⟩ :=
    (TailLib.verified_iff_signed (namedTail_unforgeable "did:key:alice") aliceEvent).1.mp hverified
  exact ⟨hverified, block, signed, unsigned, hlabelled, hdecode, hsigned⟩

end Stelyph
