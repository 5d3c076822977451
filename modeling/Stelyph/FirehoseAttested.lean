import Stelyph.FirehosePublish
import Stelyph.FirehoseTail
import Stelyph.Lib.Text
import Stelyph.RepoHistory

/-!
# What a subscriber can check

The body of a commit is stored in a row with no seq, framed for the
channel with the seq of the transaction, and framed again for every
backfill. Its CAR file carries the commit block, which was signed as
another struct. The two ways to make a commit agree here: both read back,
under the CID they sign for, the block they signed.

A call is followed through its life (`Unmade`, `Ending`), with the
answers of the store restricted to those a content-addressed store gives.
-/

namespace Stelyph

/-- A library whose frames are bytes, those of
`encode_message_frame("#commit", _)`. With it the event of a row, a
broadcast and a frame that a subscriber gets can be compared. -/
abbrev RepoLib.withFrames (L : RepoLib) (F : FrameLib L.Cid L.Car) : RepoLib :=
  { L with
    Frame := Bytes
    encodeFrame := F.encodeMessageFrame "#commit" }

section

variable {L : RepoLib}

/-- The reader of CAR files inverts the writer, a commit block decodes to
the commit it encodes, and what a key signs its did:key verifies. -/
structure TailLib.Laws (T : TailLib L) (didKey : L.Key → String) : Prop where
  car_roots : ∀ root blocks car, L.writeCar root blocks = .ok car → T.carRoots car = .ok [root]
  car_blocks : ∀ root blocks car, L.writeCar root blocks = .ok car →
    T.carBlocks car = blocks.map .ok
  decode_signed : ∀ c b, L.encodeSigned c = .ok b → T.decodeSigned b = .ok c
  verify_sign : ∀ key preimage sig, L.sign key preimage = .ok sig →
    T.verifySignature (didKey key) preimage sig = .ok ()

/-! ## Signed commits -/

/-- The CID of a commit that the writer signed: its block is the encoding
of a commit whose signature is the key's, over the commit without it. -/
def RepoWriter.Signed (w : RepoWriter L) (c : L.Cid) : Prop :=
  ∃ unsigned preimage sig block, L.encodeUnsigned unsigned = .ok preimage
    ∧ L.sign w.signingKey preimage = .ok sig
    ∧ L.encodeSigned { unsigned with sig := sig } = .ok block ∧ c = L.cidOf block

/-- Every block of a list is under its own CID. -/
def Addressed (blocks : List (L.Cid × L.Block)) : Prop := ∀ b ∈ blocks, L.cidOf b.2 = b.1

theorem nextBlocks_of_addressed (hL : RepoLaws L) {block : L.Block}
    {blocks : List (L.Cid × L.Block)} (hblocks : Addressed blocks)
    (hmem : L.cidOf block ∈ blocks.map Prod.fst) :
    TailLib.nextBlocks (L.cidOf block) (blocks.map .ok) = .ok block := by
  induction blocks with
  | nil => cases hmem
  | cons b blocks ih =>
      simp only [List.map_cons, TailLib.nextBlocks]
      have hb : L.cidOf b.2 = b.1 := hblocks b List.mem_cons_self
      by_cases heq : b.1 = L.cidOf block
      · rw [if_pos heq, hL.cid_injective b.2 block (hb.trans heq)]
      · rw [if_neg heq]
        refine ih (fun b' hb' => hblocks b' (List.mem_cons_of_mem b hb')) ?_
        exact (List.mem_cons.mp hmem).resolve_left (Ne.symm heq)

/-- The CAR file of a signed commit verifies. -/
theorem verifyCommitSig_of_signed (hL : RepoLaws L) {T : TailLib L} {didKey : L.Key → String}
    (hT : T.Laws didKey) {w : RepoWriter L} {c : L.Cid} (hc : w.Signed c)
    {blocks : List (L.Cid × L.Block)} (hblocks : Addressed blocks)
    (hmem : c ∈ blocks.map Prod.fst) {body : CommitBody L.Cid L.Car}
    (hcar : L.writeCar c blocks = .ok body.blocks) (hcommit : body.commit = c) :
    T.verifyCommitSig body (didKey w.signingKey) = some (.ok ()) := by
  obtain ⟨unsigned, preimage, sig, block, hpre, hsig, hblock, rfl⟩ := hc
  have hextract : T.extractCommitBlock body.blocks (L.cidOf block) = .ok block := by
    simp only [TailLib.extractCommitBlock, hT.car_roots _ _ _ hcar, hT.car_blocks _ _ _ hcar,
      List.head?_cons, ne_eq, not_true_eq_false, if_false]
    exact nextBlocks_of_addressed hL hblocks hmem
  have hunsigned : TailLib.reconstructUnsigned (L := L) { unsigned with sig := sig }
      = .ok preimage := hpre
  simp only [TailLib.verifyCommitSig, hcommit, hextract, hT.decode_signed _ _ hblock, hunsigned,
    hT.verify_sign _ _ _ hsig]
  rfl

/-! ## Answers of a content-addressed store -/

/-- What an answer of the store says, whatever happened before: a block
under a CID has that CID. -/
def Answered : (o : WriterOp L) → o.Ret → Prop
  | .readBlock cid, .ok b => L.cidOf b = cid
  | .writeBlock b, .ok cid => cid = L.cidOf b
  | _, _ => True

theorem answered_of_exec {o : WriterOp L} {i : Nat} {s s' : RepoStore L} {c : WriterFate}
    {r : o.Ret} (hs : WellAddressed s.blocks) (h : o.exec i s c = some (r, s')) :
    Answered o r := by
  cases o with
  | readBlock cid =>
      cases c with
      | done =>
          simp only [WriterOp.exec] at h
          split at h
          · rename_i b hb
            obtain ⟨rfl, -⟩ := Prod.mk.injEq .. |>.mp (Option.some.inj h)
            exact hs cid b hb
          · obtain ⟨rfl, -⟩ := Prod.mk.injEq .. |>.mp (Option.some.inj h)
            trivial
      | fault msg part =>
          obtain ⟨rfl, -⟩ := Prod.mk.injEq .. |>.mp (Option.some.inj h)
          trivial
  | writeBlock b =>
      cases c with
      | done =>
          obtain ⟨rfl, -⟩ := Prod.mk.injEq .. |>.mp (Option.some.inj h)
          rfl
      | fault msg part =>
          obtain ⟨rfl, -⟩ := Prod.mk.injEq .. |>.mp (Option.some.inj h)
          trivial
  | _ => trivial

/-- What a part of a call answers, if the store answers as it should. -/
abbrev RepoProg.Finds {α : Type} (p : RepoProg L α) (post : α → Prop) : Prop :=
  p.Always (Answered (L := L)) fun x => ∀ a, x = .ok a → post a

theorem finds_bind {α β : Type} {p : RepoProg L α} {f : α → RepoProg L β} {mid : α → Prop}
    {post : β → Prop} (hp : RepoProg.Finds p mid) (hf : ∀ a, mid a → RepoProg.Finds (f a) post) :
    RepoProg.Finds (p.bind f) post := by
  refine Prog.Always.bind (hp.mono fun x hx => ?_)
  cases x with
  | ok a => exact hf a (hx a rfl)
  | error e => exact fun _ h => nomatch h

theorem finds_ofExcept_bind {α β ε : Type} {f : ε → RepoError} {x : Except ε α}
    {k : α → RepoProg L β} {post : β → Prop} (hk : ∀ a, x = .ok a → RepoProg.Finds (k a) post) :
    RepoProg.Finds ((Prog.ofExcept f x : RepoProg L α).bind k) post := by
  cases x with
  | ok a => exact hk a rfl
  | error e => exact fun _ h => nomatch h

theorem finds_signCommit (w : RepoWriter L) (unsigned : UnsignedCommit L.Cid)
    (e₁ e₂ : String → String) : RepoProg.Finds (signCommit w unsigned e₁ e₂) w.Signed := by
  refine finds_ofExcept_bind fun preimage hpre => ?_
  refine finds_ofExcept_bind fun sig hsig => ?_
  refine finds_ofExcept_bind fun block hblock => ?_
  intro r hr
  cases r with
  | error e => exact fun _ h => nomatch h
  | ok cid =>
      intro c hc
      obtain rfl := Except.ok.inj hc
      exact ⟨unsigned, preimage, sig, block, hpre, hsig, hblock, hr⟩

theorem finds_readStore (cid : L.Cid) :
    RepoProg.Finds (readStore cid) fun b => L.cidOf b = cid := by
  intro r hr
  cases r with
  | error e => exact fun _ h => nomatch h
  | ok block =>
      intro b h
      obtain rfl := Except.ok.inj h
      exact hr

theorem finds_readBlocks (cids : List L.Cid) : RepoProg.Finds (readBlocks cids) fun blocks =>
    Addressed blocks ∧ blocks.map Prod.fst = cids := by
  induction cids with
  | nil =>
      intro blocks h
      obtain rfl := Except.ok.inj h
      exact ⟨fun b hb => (List.not_mem_nil hb).elim, rfl⟩
  | cons cid cids ih =>
      refine finds_bind (finds_readStore cid) fun block hblock => ?_
      refine finds_bind ih fun rest hrest => ?_
      intro blocks h
      obtain rfl := Except.ok.inj h
      refine ⟨fun b hb => ?_, by simp [hrest.2]⟩
      rcases List.mem_cons.mp hb with rfl | hb
      · exact hblock
      · exact hrest.1 b hb

/-! ## The life of a call -/

variable {α β : Type}

/-- What is left of a call that has made its commit, or has failed: it
broadcasts the frame of the body it made, and returns no other body. -/
inductive Ending (bodyOf : α → Option (CommitBody L.Cid L.Car))
    (made : Option (CommitBody L.Cid L.Car)) : RepoProg L α → Prop where
  | ret {a : α} {body : CommitBody L.Cid L.Car} (hmade : made = some body)
      (ha : ∀ b, bodyOf a = some b → b = body) : Ending bodyOf made (.ret a)
  | fail (e : RepoError) : Ending bodyOf made (.fail e)
  | send {body : CommitBody L.Cid L.Car} {k : Unit → RepoProg L α} (hmade : made = some body)
      (hk : ∀ r, Ending bodyOf made (k r)) :
      Ending bodyOf made (.op (.send ⟨body.seq, L.encodeFrame body⟩) k)
  | unlock {did : String} {k : Unit → RepoProg L α} (hk : ∀ r, Ending bodyOf made (k r)) :
      Ending bodyOf made (.op (.unlock did) k)

/-- The calls before the transaction. -/
def WriterOp.Before : WriterOp L → Prop
  | .unlock _ | .commitBlocks _ _ _ _ | .send _ => False
  | _ => True

/-- What is left of a call of `w` that has made no commit: the commit it
will make verifies, whatever seq it is given. -/
inductive Unmade (T : TailLib L) (didKey : L.Key → String) (w : RepoWriter L)
    (bodyOf : α → Option (CommitBody L.Cid L.Car)) : RepoProg L α → Prop where
  | ending {p : RepoProg L α} (hp : Ending bodyOf none p) : Unmade T didKey w bodyOf p
  | before {o : WriterOp L} {k : o.Ret → RepoProg L α} (ho : o.Before)
      (hk : ∀ r, Answered o r → Unmade T didKey w bodyOf (k r)) : Unmade T didKey w bodyOf (.op o k)
  | commit {blocks : List (L.Cid × L.Block)} {body : CommitBody L.Cid L.Car} {event : L.Event}
      {k : Except StorageError Nat → RepoProg L α} (hblocks : Addressed blocks)
      (hseq : body.seq = 0) (hevent : L.encodeBody body = .ok event)
      (hverify : ∀ n, T.verifyCommitSig { body with seq := n } (didKey w.signingKey)
        = some (.ok ()))
      (hok : ∀ n, Ending bodyOf (some { body with seq := n }) (k (.ok n)))
      (herr : ∀ e, Ending bodyOf none (k (.error e))) :
      Unmade T didKey w bodyOf (.op (.commitBlocks blocks w.did body.commit event) k)

section

variable {bodyOf : α → Option (CommitBody L.Cid L.Car)}
  {bodyOf' : β → Option (CommitBody L.Cid L.Car)} {made : Option (CommitBody L.Cid L.Car)}
  {T : TailLib L} {didKey : L.Key → String} {w : RepoWriter L}

theorem Ending.map {p : RepoProg L α} (hp : Ending bodyOf made p) {f : α → β}
    (hf : ∀ a b, bodyOf' (f a) = some b → bodyOf a = some b) :
    Ending bodyOf' made (p.bind fun a => .ret (f a)) := by
  induction hp with
  | ret hmade ha => exact .ret hmade fun b hb => ha b (hf _ b hb)
  | fail e => exact .fail e
  | send hmade _ ih => exact .send hmade ih
  | unlock _ ih => exact .unlock ih

theorem Ending.ensuring {p : RepoProg L α} (hp : Ending bodyOf made p) (did : String) :
    Ending bodyOf made (p.ensuring (.unlock did)) := by
  induction hp with
  | ret hmade ha => exact .unlock fun _ => .ret hmade ha
  | fail e => exact .unlock fun _ => .fail e
  | send hmade _ ih => exact .send hmade ih
  | unlock _ ih => exact .unlock ih

theorem Unmade.map {p : RepoProg L α} (hp : Unmade T didKey w bodyOf p) {f : α → β}
    (hf : ∀ a b, bodyOf' (f a) = some b → bodyOf a = some b) :
    Unmade T didKey w bodyOf' (p.bind fun a => .ret (f a)) := by
  induction hp with
  | ending hp => exact .ending (hp.map hf)
  | before ho _ ih => exact .before ho ih
  | commit hblocks hseq hevent hverify hok herr =>
      exact .commit hblocks hseq hevent hverify (fun n => (hok n).map hf)
        fun e => (herr e).map hf

theorem Unmade.ensuring {p : RepoProg L α} (hp : Unmade T didKey w bodyOf p) (did : String) :
    Unmade T didKey w bodyOf (p.ensuring (.unlock did)) := by
  induction hp with
  | ending hp => exact .ending (hp.ensuring did)
  | before ho _ ih => exact .before ho ih
  | commit hblocks hseq hevent hverify hok herr =>
      exact .commit hblocks hseq hevent hverify (fun n => (hok n).ensuring did)
        fun e => (herr e).ensuring did

/-- A part of the call that reads a root or works on blocks. -/
theorem unmade_bind {p : RepoProg L β} {f : β → RepoProg L α} {post : β → Prop}
    (hp : p.Local) (hfinds : RepoProg.Finds p post)
    (hf : ∀ a, post a → Unmade T didKey w bodyOf (f a)) :
    Unmade T didKey w bodyOf (p.bind f) := by
  induction p with
  | ret a => exact hf a (hfinds a rfl)
  | fail e => exact .ending (.fail e)
  | op o k ih =>
      refine .before ?_ fun r hr => ih r (hp.2 r) (hfinds r hr)
      have ho : o.Local := hp.1
      cases o with
      | lock | unlock | commitBlocks | send => exact ho.elim
      | _ => trivial

theorem finds_anything (p : RepoProg L α) : RepoProg.Finds p fun _ => True := by
  induction p with
  | ret a => exact fun _ _ => trivial
  | fail e => exact fun _ _ => trivial
  | op o k ih => exact fun r _ => ih r

/-- A part whose answer does not matter. -/
theorem unmade_then {p : RepoProg L β} {f : β → RepoProg L α} (hp : p.Local)
    (hf : ∀ a, Unmade T didKey w bodyOf (f a)) : Unmade T didKey w bodyOf (p.bind f) :=
  unmade_bind hp (finds_anything p) fun a _ => hf a

theorem unmade_ofExcept_bind {ε : Type} {f : ε → RepoError} {x : Except ε β}
    {k : β → RepoProg L α} (hk : ∀ a, x = .ok a → Unmade T didKey w bodyOf (k a)) :
    Unmade T didKey w bodyOf ((Prog.ofExcept f x : RepoProg L β).bind k) := by
  cases x with
  | ok a => exact hk a rfl
  | error e => exact .ending (.fail _)

/-- The transaction and what follows it. -/
theorem unmade_storeCommit {blocks : List (L.Cid × L.Block)} {body : CommitBody L.Cid L.Car}
    {f : CommitBody L.Cid L.Car → RepoProg L α} (hblocks : Addressed blocks) (hseq : body.seq = 0)
    (hverify : ∀ n, T.verifyCommitSig { body with seq := n } (didKey w.signingKey)
      = some (.ok ()))
    (hf : ∀ n, Ending bodyOf (some { body with seq := n }) (f { body with seq := n })) :
    Unmade T didKey w bodyOf ((storeCommit w blocks body).bind f) := by
  rw [storeCommit]
  simp only [Prog.bind_eq, Prog.bind_assoc]
  refine unmade_ofExcept_bind fun event hevent => ?_
  exact .commit hblocks hseq hevent hverify hf fun e => .fail _

theorem unmade_commitOp (hL : RepoLaws L) (hT : T.Laws didKey) (w : RepoWriter L)
    (op : WriteOp L.Ipld) (broadcast : Bool) (rnd : WriteDraw) :
    Unmade T didKey w (fun a => some a.2) (commitOp w op broadcast rnd) := by
  refine .before (o := .lock w.did) trivial fun _ _ => .ensuring ?_ w.did
  refine unmade_then (local_openRepo w _) fun opened => ?_
  refine unmade_then (local_applyRaw _ op) fun applied => ?_
  refine unmade_bind (local_signCommit w _ _ _) (finds_signCommit w _ _ _) fun commitCid hc => ?_
  refine unmade_bind (local_readBlocks _) (finds_readBlocks _) fun blocks hblocks => ?_
  refine unmade_ofExcept_bind fun car hcar => ?_
  refine unmade_then (local_read _ _) fun block => ?_
  refine unmade_then (local_revOf _ _) fun rev => ?_
  refine unmade_then (local_sinceOf _ _) fun since => ?_
  have hmem : commitCid ∈ blocks.map Prod.fst := by simp [hblocks.2]
  refine unmade_storeCommit hblocks.1 rfl (fun n => verifyCommitSig_of_signed hL hT hc hblocks.1
    hmem hcar rfl) fun n => ?_
  have hret : ∀ o : WriteOutcome L.Cid, ∀ made : CommitBody L.Cid L.Car,
      Ending (fun a => some a.2) (some made) (.ret (o, made) : RepoProg L _) :=
    fun o made => .ret rfl fun b hb => (Option.some.inj hb).symm
  dsimp only
  split
  · exact .send rfl fun _ => hret _ _
  · exact hret _ _

theorem unmade_applyManyParts (hL : RepoLaws L) (hT : T.Laws didKey) (w : RepoWriter L)
    (ops : List (WriteOp L.Ipld)) (rnd : WriteDraw) :
    Unmade T didKey w (fun a => some a.2) (applyManyParts w ops rnd) := by
  rw [applyManyParts]
  split
  · exact .ending (.fail _)
  · refine .before (o := .lock w.did) trivial fun _ _ => .ensuring ?_ w.did
    refine unmade_then (local_openRepo w _) fun opened => ?_
    refine unmade_then (local_prepare ops) fun prepared => ?_
    refine unmade_then (local_applyTree prepared _) fun applied => ?_
    refine unmade_bind (local_signCommit w _ _ _) (finds_signCommit w _ _ _)
      fun commitCid hc => ?_
    refine unmade_bind (local_readBlocks _) (finds_readBlocks _) fun blocks hblocks => ?_
    refine unmade_ofExcept_bind fun car hcar => ?_
    refine unmade_then (local_sinceOf _ _) fun since => ?_
    have hmem : commitCid ∈ blocks.map Prod.fst := by simp [hblocks.2]
    refine unmade_storeCommit hblocks.1 rfl (fun n => verifyCommitSig_of_signed hL hT hc
      hblocks.1 hmem hcar rfl) fun n => ?_
    exact .ret rfl fun b hb => (Option.some.inj hb).symm

end

end

/-! ## The system -/

section

variable {L : RepoLib}

/-- The body a call hands back; `apply_one` keeps it. -/
def RepoAnswer.body : RepoAnswer L → Option (CommitBody L.Cid L.Car)
  | .one _ => none
  | .oneParts _ body => some body
  | .many _ body => some body

variable {T : TailLib L} {didKey : L.Key → String}

theorem unmade_handler (hL : RepoLaws L) (hT : T.Laws didKey) (q : RepoRequest L) :
    Unmade T didKey q.writer RepoAnswer.body q.handler := by
  obtain ⟨writer, call, rnd⟩ := q
  cases call with
  | applyOne op =>
      have hone : Unmade T didKey writer (fun _ => none) (applyOne writer op rnd) :=
        (unmade_commitOp hL hT writer op true rnd).map fun a b h => nomatch h
      exact hone.map fun a b h => h
  | applyOneParts op =>
      exact (unmade_commitOp hL hT writer op false rnd).map fun a b h => h
  | applyMany ops => exact (unmade_applyManyParts hL hT writer ops rnd).map fun a b h => h

/-- What a task has put into the log of commits and on the channel: the
row of the body it made, and that body's frame. -/
structure Trail (log : List (Event (writerSig L))) (did : String) (i : Nat)
    (made : Option (CommitBody L.Cid L.Car)) : Prop where
  rows : ∀ e ∈ log, e.tid = i → ∀ row, rowOf e = some row → ∃ body event, made = some body
    ∧ L.encodeBody { body with seq := 0 } = .ok event ∧ row = ⟨body.seq, did, event, false⟩
  sent : ∀ e ∈ log, e.tid = i → ∀ u, e.op = .send u →
    ∃ body, made = some body ∧ u = ⟨body.seq, L.encodeFrame body⟩
  made : ∀ body, made = some body → ∃ e ∈ log, e.tid = i ∧ committed e = true

theorem trail_fresh {log : List (Event (writerSig L))} {did : String} {i : Nat}
    (h : ∀ e ∈ log, e.tid < i) : Trail log did i none where
  rows e he hi := absurd (hi ▸ h e he) (Nat.lt_irrefl _)
  sent e he hi := absurd (hi ▸ h e he) (Nat.lt_irrefl _)
  made _ h := nomatch h

/-- One operation more: it wrote no row, and if it broadcast, then the
frame of the body. -/
theorem Trail.append {log : List (Event (writerSig L))} {did : String} {i : Nat}
    {made : Option (CommitBody L.Cid L.Car)} (h : Trail log did i made)
    {e : Event (writerSig L)} (hrow : e.tid = i → rowOf e = none)
    (hsent : e.tid = i → ∀ u, e.op = .send u →
      ∃ body, made = some body ∧ u = ⟨body.seq, L.encodeFrame body⟩) :
    Trail (log ++ [e]) did i made where
  rows e' he' hi row hr := by
    rcases List.mem_append.mp he' with he' | he'
    · exact h.rows e' he' hi row hr
    · obtain rfl := List.mem_singleton.mp he'
      rw [hrow hi] at hr
      cases hr
  sent e' he' hi u hu := by
    rcases List.mem_append.mp he' with he' | he'
    · exact h.sent e' he' hi u hu
    · obtain rfl := List.mem_singleton.mp he'
      exact hsent hi u hu
  made body hb := by
    obtain ⟨e', he', hi, hc⟩ := h.made body hb
    exact ⟨e', List.mem_append_left _ he', hi, hc⟩

/-- The transaction. -/
theorem Trail.commit {log : List (Event (writerSig L))} {did : String} {i : Nat}
    (h : Trail log did i none) {blocks : List (L.Cid × L.Block)}
    {body : CommitBody L.Cid L.Car} {event : L.Event} {n : Nat} (hseq : body.seq = 0)
    (hevent : L.encodeBody body = .ok event) :
    Trail (log ++ [⟨i, .commitBlocks blocks did body.commit event, .ok n⟩]) did i
      (some { body with seq := n }) where
  rows e he hi row hrow := by
    rcases List.mem_append.mp he with he | he
    · obtain ⟨_, _, hnone, -⟩ := h.rows e he hi row hrow
      cases hnone
    · obtain rfl := List.mem_singleton.mp he
      obtain rfl := Option.some.inj hrow
      refine ⟨_, event, rfl, ?_, rfl⟩
      rw [← hevent, ← hseq]
  sent e he hi u hu := by
    rcases List.mem_append.mp he with he | he
    · obtain ⟨_, hnone, -⟩ := h.sent e he hi u hu
      cases hnone
    · obtain rfl := List.mem_singleton.mp he
      cases hu
  made _ _ := ⟨_, List.mem_append_right _ (List.mem_singleton.mpr rfl), rfl, rfl⟩

/-- Where a call is, and what it has left in the log. -/
inductive CallAt (T : TailLib L) (didKey : L.Key → String)
    (log : List (Event (writerSig L))) (i : Nat) (q : RepoRequest L)
    (p : RepoProg L (RepoAnswer L)) : Prop where
  | unmade (hp : Unmade T didKey q.writer RepoAnswer.body p) (h : Trail log q.writer.did i none)
  | made {body : CommitBody L.Cid L.Car} (hp : Ending RepoAnswer.body (some body) p)
      (h : Trail log q.writer.did i (some body))
      (hverify : T.verifyCommitSig body (didKey q.writer.signingKey) = some (.ok ()))

theorem CallAt.other {log : List (Event (writerSig L))} {i : Nat} {q : RepoRequest L}
    {p : RepoProg L (RepoAnswer L)} (h : CallAt T didKey log i q p) {e : Event (writerSig L)}
    (hne : e.tid ≠ i) : CallAt T didKey (log ++ [e]) i q p := by
  cases h with
  | unmade hp h =>
      exact .unmade hp (h.append (fun hi => absurd hi hne) fun hi => absurd hi hne)
  | made hp h hverify =>
      exact .made hp (h.append (fun hi => absurd hi hne) fun hi => absurd hi hne) hverify

/-- One operation of a call. -/
theorem CallAt.next {log : List (Event (writerSig L))} {i : Nat} {q : RepoRequest L}
    {o : WriterOp L} {k : o.Ret → RepoProg L (RepoAnswer L)}
    (h : CallAt T didKey log i q (.op o k)) {s s' : RepoStore L} (hs : WellAddressed s.blocks)
    {c : WriterFate} {r : o.Ret} (hexec : o.exec i s c = some (r, s')) :
    WellAddressed s'.blocks ∧ CallAt T didKey (log ++ [⟨i, o, r⟩]) i q (k r) := by
  have hans : Answered o r := answered_of_exec hs hexec
  have hending : ∀ made, Ending RepoAnswer.body made (.op o k) →
      Trail log q.writer.did i made → WellAddressed s'.blocks
        ∧ Ending RepoAnswer.body made (k r) ∧ Trail (log ++ [⟨i, o, r⟩]) q.writer.did i made := by
    intro made hp htrail
    cases hp with
    | send hmade hk =>
        have hgrown := (show WriterOp.Quiet (.send _) from trivial).grown hs hexec
        refine ⟨hgrown.addressed, hk r, htrail.append (fun _ => rfl) fun _ u hu => ?_⟩
        exact ⟨_, hmade, (WriterOp.send.inj hu).symm⟩
    | unlock hk =>
        obtain ⟨-, rfl⟩ := Prod.mk.injEq .. |>.mp (Option.some.inj hexec)
        exact ⟨hs, hk r, htrail.append (fun _ => rfl) (by intro _ u hu; cases hu)⟩
  cases h with
  | made hp htrail hverify =>
      obtain ⟨hs', hp', htrail'⟩ := hending _ hp htrail
      exact ⟨hs', .made hp' htrail' hverify⟩
  | unmade hp htrail =>
      cases hp with
      | ending hp =>
          obtain ⟨hs', hp', htrail'⟩ := hending _ hp htrail
          exact ⟨hs', .unmade (.ending hp') htrail'⟩
      | before ho hk =>
          refine ⟨?_, .unmade (hk r hans) (htrail.append (fun _ => ?_) fun _ u hu => ?_)⟩
          · cases o with
            | unlock | commitBlocks | send => exact ho.elim
            | lock did =>
                cases c with
                | done =>
                    simp only [WriterOp.exec] at hexec
                    split at hexec
                    · cases hexec
                    · obtain ⟨-, rfl⟩ := Prod.mk.injEq .. |>.mp (Option.some.inj hexec)
                      exact hs
                | fault => cases hexec
            | _ => exact (WriterOp.Quiet.grown (by trivial) hs hexec).addressed
          · cases o with
            | commitBlocks => exact ho.elim
            | _ => rfl
          · obtain rfl : o = .send u := hu
            exact ho.elim
      | commit hblocks hseq hevent hverify hok herr =>
          cases c with
          | done =>
              obtain ⟨rfl, rfl⟩ := Prod.mk.injEq .. |>.mp (Option.some.inj hexec)
              refine ⟨wellAddressed_commitBlocks hs hblocks _ _ _, .made (hok _) ?_ (hverify _)⟩
              exact htrail.commit hseq hevent
          | fault msg part =>
              obtain ⟨rfl, rfl⟩ := Prod.mk.injEq .. |>.mp (Option.some.inj hexec)
              refine ⟨hs, .unmade (.ending (herr _)) (htrail.append (fun _ => rfl) ?_)⟩
              intro _ u hu
              cases hu

/-- The blocks are under their CIDs, and every call is somewhere. -/
structure AttestedInv (T : TailLib L) (didKey : L.Key → String) (P : RepoPool L) : Prop where
  addressed : WellAddressed P.store.blocks
  tids : ∀ e ∈ P.log, e.tid < P.tasks.length
  calls : ∀ (i : Nat) q p, P.tasks[i]? = some (q, p) → CallAt T didKey P.log i q p

theorem attestedInv_step (hL : RepoLaws L) (hT : T.Laws didKey) (P : RepoPool L) (a : RepoAct L)
    (P' : RepoPool L) (hP : AttestedInv T didKey P) (h : repoNext L P a = some P') :
    AttestedInv T didKey P' := by
  rcases Pool.next_cases h with ⟨q, rfl, rfl⟩ | ⟨i, c, q, o, k, r, s, rfl, htask, hexec, rfl⟩
  · refine ⟨hP.addressed, fun e he => ?_, fun j q' p hj => ?_⟩
    · have := hP.tids e he
      simp only [List.length_append, List.length_singleton]
      omega
    · rcases Pool.getElem?_append_cases hj with ⟨rfl, heq⟩ | hj
      · obtain ⟨rfl, rfl⟩ := Prod.mk.injEq .. |>.mp heq
        exact .unmade (unmade_handler hL hT _) (trail_fresh hP.tids)
      · exact hP.calls j q' p hj
  · have hi : i < P.tasks.length := (List.getElem?_eq_some_iff.mp htask).1
    obtain ⟨hs, hcall⟩ := (hP.calls i q _ htask).next hP.addressed hexec
    refine ⟨hs, fun e he => ?_, fun j q' p hj => ?_⟩
    · simp only [List.length_set]
      rcases List.mem_append.mp he with he | he
      · exact hP.tids e he
      · rw [List.mem_singleton.mp he]
        exact hi
    · rcases Pool.getElem?_set_cases hj with ⟨rfl, heq⟩ | ⟨hne, hj⟩
      · obtain ⟨rfl, rfl⟩ := Prod.mk.injEq .. |>.mp heq
        exact hcall
      · exact (hP.calls j q' p hj).other (Ne.symm hne)

theorem attestedInv_run (hL : RepoLaws L) (hT : T.Laws didKey) {as : List (RepoAct L)}
    {P : RepoPool L}
    (hrun : Steps.run (repoNext L) (Pool.init (RepoStore.empty L)) as = some P) :
    AttestedInv T didKey P :=
  Steps.run_inv (attestedInv_step hL hT) ⟨wellAddressed_empty,
    fun _ he => (List.not_mem_nil he).elim, fun i q p h => by simp [Pool.init] at h⟩ hrun

end

/-! ## What a subscriber gets -/

section

variable {L : RepoLib}

/-- The backfill puts the seq back into the body that was stored without. -/
theorem sendRow_encoded (hL : RepoLaws L) {body : CommitBody L.Cid L.Car} {event : L.Event}
    (h : L.encodeBody { body with seq := 0 } = .ok event) (u : Subscriber L)
    (rest : List (Nat × L.Event)) :
    (u.sendRow body.seq event rest .done).out
      = u.out ++ [.message ⟨body.seq, L.encodeFrame body⟩] := by
  simp only [Subscriber.sendRow, hL.decode_body _ _ h]

/-- The body of a row: its frame decodes to it, the backfill sends the
same frame, and the signature in it is of the writer's key. -/
structure Attested (F : FrameLib L.Cid L.Car) (T : TailLib (L.withFrames F))
    (didKey : L.Key → String) (signingKey : L.Key) (row : SeqRow L.Event)
    (body : CommitBody L.Cid L.Car) : Prop where
  seq : body.seq = row.seq
  decoded : F.decodeCommitFrame (F.encodeMessageFrame "#commit" body) = .ok body
  backfilled : ∀ (u : Subscriber (L.withFrames F)) rest,
    (u.sendRow row.seq row.event rest .done).out
      = u.out ++ [.message ⟨row.seq, F.encodeMessageFrame "#commit" body⟩]
  verified : T.verifyCommitSig body (didKey signingKey) = some (.ok ())

/-- **Every commit is what its frames say.** In every run of the writers,
a commit has its row in the log. What its call broadcasts is the frame of
one body, which has the seq of the transaction; that is the body the call
returns, if it returns one, and the frame that a backfill makes of the
row. The frame decodes to the body, and the body verifies under the key of
the writer. Nothing is broadcast or returned without a commit. -/
theorem commits_attested (F : FrameLib L.Cid L.Car) (hF : F.Laws)
    (hL : RepoLaws (L.withFrames F)) (T : TailLib (L.withFrames F)) (didKey : L.Key → String)
    (hT : T.Laws didKey) (as : List (RepoAct (L.withFrames F))) (P : RepoPool (L.withFrames F))
    (hrun : Steps.run (repoNext (L.withFrames F)) (Pool.init (RepoStore.empty _)) as = some P) :
    (∀ e ∈ P.log, ∀ row, rowOf e = some row → row ∈ P.store.rows
      ∧ ∃ q p body, P.tasks[e.tid]? = some (q, p)
        ∧ Attested F T didKey q.writer.signingKey row body
        ∧ (∀ e' ∈ P.log, e'.tid = e.tid → ∀ u, e'.op = .send u →
          u = ⟨row.seq, F.encodeMessageFrame "#commit" body⟩)
        ∧ ∀ a, p = .ret a → ∀ b, a.body = some b → b = body)
    ∧ (∀ e' ∈ P.log, ∀ u, e'.op = .send u → ∃ e ∈ P.log, e.tid = e'.tid ∧ committed e = true)
    ∧ ∀ (i : Nat) q a, P.tasks[i]? = some (q, .ret a) →
      ∃ e ∈ P.log, e.tid = i ∧ committed e = true := by
  have hP : AttestedInv T didKey P := attestedInv_run hL hT hrun
  have htask : ∀ e ∈ P.log, ∃ q p, P.tasks[e.tid]? = some (q, p) := fun e he =>
    ⟨_, _, List.getElem?_eq_getElem (hP.tids e he)⟩
  refine ⟨fun e he row hrow => ?_, fun e' he' u hu => ?_, fun i q a hi => ?_⟩
  · have hlogged := (repoPool_good hL hrun).1.logged
    refine ⟨hlogged ▸ List.mem_filterMap.mpr ⟨e, he, hrow⟩, ?_⟩
    obtain ⟨q, p, hq⟩ := htask e he
    cases hP.calls e.tid q p hq with
    | unmade hp htrail =>
        obtain ⟨_, _, hnone, -⟩ := htrail.rows e he rfl row hrow
        cases hnone
    | made hp htrail hverify =>
        rename_i body
        obtain ⟨_, event, hbody, hevent, rfl⟩ := htrail.rows e he rfl row hrow
        obtain rfl := Option.some.inj hbody
        refine ⟨q, p, body, hq, ⟨rfl, hF.decode_encode body, sendRow_encoded hL hevent, hverify⟩,
          fun e' he' hi u hu => ?_, fun a ha b hb => ?_⟩
        · obtain ⟨_, hbody', rfl⟩ := htrail.sent e' he' hi u hu
          obtain rfl := Option.some.inj hbody'
          rfl
        · subst ha
          cases hp with
          | ret hmade hret =>
              obtain rfl := Option.some.inj hmade
              exact hret b hb
  · obtain ⟨q, p, hq⟩ := htask e' he'
    cases hP.calls e'.tid q p hq with
    | unmade hp htrail =>
        obtain ⟨_, hnone, -⟩ := htrail.sent e' he' rfl u hu
        cases hnone
    | made hp htrail hverify => exact htrail.made _ rfl
  · cases hP.calls i q _ hi with
    | unmade hp htrail =>
        cases hp with
        | ending hp =>
            cases hp with
            | ret hnone _ => cases hnone
    | made hp htrail hverify => exact htrail.made _ rfl

end

/-! ### A run -/

/-- A library that signs: a signature is the key and what it signs. -/
def signedRepo : RepoLib :=
  { sampleRepo with
    Key := UInt8
    encodeUnsigned := fun u => .ok (Text.bytes u.rev)
    sign := fun key preimage => .ok (key :: preimage) }

def sampleFrames : FrameLib signedRepo.Cid signedRepo.Car :=
  .ofFormats SampleBlock.format SampleBlock.carFormat

theorem signedRepo_laws : RepoLaws (signedRepo.withFrames sampleFrames) :=
  ⟨sampleRepo_laws.cid_injective, sampleRepo_laws.decode_commit, sampleRepo_laws.decode_body⟩

def sampleDidKey (key : UInt8) : String := s!"did:key:{key}"

def sampleTail : TailLib (signedRepo.withFrames sampleFrames) where
  carRoots car := .ok [car.1]
  carBlocks car := car.2.map .ok
  decodeSigned := sampleRepo.decodeCommit
  verifySignature did preimage
    | [] => .error "signature too short"
    | key :: rest =>
        if did = sampleDidKey key ∧ rest = preimage then .ok () else .error "signature mismatch"
  displayCid _ := "bafyrei"

theorem sampleTail_laws : sampleTail.Laws sampleDidKey where
  car_roots root blocks car h := by
    obtain rfl := Except.ok.inj h
    rfl
  car_blocks root blocks car h := by
    obtain rfl := Except.ok.inj h
    rfl
  decode_signed := sampleRepo_laws.decode_commit
  verify_sign key preimage sig h := by
    obtain rfl := Except.ok.inj h
    exact if_pos ⟨rfl, rfl⟩

def sampleSigner : RepoWriter (signedRepo.withFrames sampleFrames) := ⟨"did:plc:alice", (5 : UInt8)⟩

/-- A write that is broadcast, and a batch that is handed back. -/
def sampleCommits : List (RepoAct (signedRepo.withFrames sampleFrames)) :=
  .start ⟨sampleSigner, .applyOne (.create "app.bsky.feed.post/1" (7 : Nat)),
      ⟨"3kaa", "3kab", "2026-06-17T00:00:00Z"⟩⟩
    :: List.replicate 16 (.step 0 .done)
  ++ .start ⟨sampleSigner, .applyMany [.update "app.bsky.feed.post/1" (9 : Nat)],
      ⟨"3kac", "3kad", "2026-06-17T00:00:01Z"⟩⟩
    :: List.replicate 12 (.step 1 .done)

theorem sampleCommits_attested : ∃ P,
    Steps.run (repoNext (signedRepo.withFrames sampleFrames)) (Pool.init (RepoStore.empty _))
      sampleCommits = some P
    ∧ P.store.rows.length = 2 ∧ P.store.sent.length = 1
    ∧ ∀ e ∈ P.log, ∀ row, rowOf e = some row → ∃ q p body, P.tasks[e.tid]? = some (q, p)
        ∧ Attested sampleFrames sampleTail sampleDidKey q.writer.signingKey row body := by
  have hend : (Steps.run (repoNext (signedRepo.withFrames sampleFrames))
      (Pool.init (RepoStore.empty _)) sampleCommits).map (fun P =>
        (P.store.rows.length, P.store.sent.length)) = some (2, 1) := by decide
  obtain ⟨P, hrun, hP⟩ := Option.map_eq_some_iff.mp hend
  obtain ⟨hrows, hsent⟩ := Prod.mk.injEq .. |>.mp hP
  obtain ⟨hall, -⟩ := commits_attested sampleFrames (FrameLib.laws_ofFormats _ _) signedRepo_laws
    sampleTail sampleDidKey sampleTail_laws sampleCommits P hrun
  refine ⟨P, hrun, hrows, hsent, fun e he row hrow => ?_⟩
  obtain ⟨-, q, p, body, htask, hbody, -⟩ := hall e he row hrow
  exact ⟨q, p, body, htask, hbody⟩

end Stelyph
