import Stelyph.RepoClosed
import Stelyph.RepoUtil

/-!
# Revs and the clock

A rev is the TID of a clock reading, and nothing compares it with the
rev before it. The clock is read once for the first commit of a new
repository and once for every commit that is stored. So revs increase
along a history exactly when these readings do: two commits in one tick
have the same rev, and the event of the second has it as its `since` too.
-/

namespace Stelyph

section

variable {L : RepoLib}

/-- TIDs are in the order of their times, which have 53 bits. -/
def TidLaws (tid : Nat → String) : Prop := ∀ a b, a < b → b < 2 ^ 53 → tid a < tid b

/-! ## Calls and their clock readings -/

/-- A call with the clock readings that its revs are made from. -/
structure TimedCall (L : RepoLib) where
  writer : RepoWriter L
  call : RepoCall L
  genesisReading : Nat
  reading : Nat
  time : String
  fates : List WriterFate

def TimedCall.request (tid : Nat → String) (c : TimedCall L) : RepoRequest L :=
  ⟨c.writer, c.call, ⟨tid c.genesisReading, tid c.reading, c.time⟩⟩

/-- The readings that went into the history of `did`: a call that failed
leaves none, and the first commit is only made where there is no root. -/
def TimedCall.readings {α : Type} (did : String) (s : RepoStore L) (c : TimedCall L) :
    Except RepoError α → List Nat
  | .error _ => []
  | .ok _ =>
      if c.writer.did = did then
        if s.roots.contains did then [c.reading] else [c.genesisReading, c.reading]
      else []

/-- A call, and the readings that went into the history so far. One that
made no commit adds none. -/
def timedStep (tid : Nat → String) (did : String) (s : RepoStore L × List Nat)
    (c : TimedCall L) : Option (RepoStore L × List Nat) :=
  ((c.request tid).handler.against writerExec s.1 c.fates).map fun r =>
    (r.2, s.2 ++ c.readings did s.1 r.1)

/-- Every commit of the history has a greater rev than the one before it,
and every event a greater one than its `since`. -/
def RevsIncrease (did : String) (s : RepoStore L) : Prop :=
  (∀ root, s.roots.get did = some root → ∀ k, CommitIn s.blocks.get root k →
    ∀ cm p, commitAt s.blocks.get k = some cm → cm.prev = some p →
      ∃ pcm, commitAt s.blocks.get p = some pcm ∧ pcm.rev < cm.rev)
  ∧ ∀ row ∈ s.rowsOf did, ∃ body, L.decodeBody row.event = .ok body
    ∧ ∀ since, body.since = some since → since < body.rev

/-! ## The revs of a history -/

/-- The revs of a commit and those before it. -/
inductive RevsFrom (f : L.Cid → Option L.Block) : L.Cid → List String → Prop where
  | first {k : L.Cid} {cm : SignedCommit L.Cid} (hcm : commitAt f k = some cm)
      (hprev : cm.prev = none) : RevsFrom f k [cm.rev]
  | next {k p : L.Cid} {cm : SignedCommit L.Cid} {revs : List String}
      (hcm : commitAt f k = some cm) (hprev : cm.prev = some p) (h : RevsFrom f p revs) :
      RevsFrom f k (cm.rev :: revs)

variable {f g : L.Cid → Option L.Block} {k : L.Cid} {revs : List String}

theorem RevsFrom.mono (hle : BlocksLe f g) (h : RevsFrom f k revs) : RevsFrom g k revs := by
  induction h with
  | first hcm hprev => exact .first (commitAt_mono hle hcm) hprev
  | next hcm hprev _ ih => exact .next (commitAt_mono hle hcm) hprev ih

theorem RevsFrom.head (h : RevsFrom f k revs) {cm : SignedCommit L.Cid}
    (hcm : commitAt f k = some cm) : ∃ older, revs = cm.rev :: older := by
  cases h with
  | first hcm' _ | next hcm' _ _ =>
      obtain rfl := Option.some.inj (hcm'.symm.trans hcm)
      exact ⟨_, rfl⟩

/-- The commits before a commit are its own and those before its `prev`. -/
theorem CommitIn.head {root p : L.Cid} {cm : SignedCommit L.Cid} (hk : CommitIn f root k)
    (hcm : commitAt f root = some cm) (hprev : cm.prev = some p) :
    k = root ∨ CommitIn f p k := by
  induction hk with
  | root => exact Or.inl rfl
  | prev _ hc hp ih =>
      rcases ih with rfl | ih
      · obtain rfl := Option.some.inj (hcm.symm.trans hc)
        obtain rfl := Option.some.inj (hprev.symm.trans hp)
        exact Or.inr .root
      · exact Or.inr (.prev ih hc hp)

theorem CommitIn.of_prev {root p : L.Cid} {cm : SignedCommit L.Cid}
    (hcm : commitAt f root = some cm) (hprev : cm.prev = some p) (hk : CommitIn f p k) :
    CommitIn f root k := by
  induction hk with
  | root => exact .prev .root hcm hprev
  | prev _ hc hp ih => exact .prev ih hc hp

theorem CommitIn.eq_of_first {root : L.Cid} {cm : SignedCommit L.Cid} (hk : CommitIn f root k)
    (hcm : commitAt f root = some cm) (hprev : cm.prev = none) : k = root := by
  induction hk with
  | root => rfl
  | prev _ hc hp ih =>
      subst ih
      rw [Option.some.inj (hcm.symm.trans hc)] at hprev
      cases hprev.symm.trans hp

theorem RevsFrom.increase_iff (h : RevsFrom f k revs) :
    (∀ c, CommitIn f k c → ∀ cm p, commitAt f c = some cm → cm.prev = some p →
      ∃ pcm, commitAt f p = some pcm ∧ pcm.rev < cm.rev)
    ↔ revs.IsChain fun newer older => older < newer := by
  induction h with
  | @first k cm hcm hprev =>
      refine ⟨fun _ => List.isChain_singleton _, fun _ c hc cm' p hcm' hp => ?_⟩
      obtain rfl := hc.eq_of_first hcm hprev
      rw [Option.some.inj (hcm.symm.trans hcm')] at hprev
      cases hprev.symm.trans hp
  | @next k p cm revs hcm hprev h ih =>
      constructor
      · intro hall
        obtain ⟨pcm, hpcm, hlt⟩ := hall k .root cm p hcm hprev
        obtain ⟨older, rfl⟩ := h.head hpcm
        have htail := ih.mp fun c hc => hall c (hc.of_prev hcm hprev)
        exact List.isChain_cons_cons.mpr ⟨hlt, htail⟩
      · intro hchain c hc cm' p' hcm' hp'
        rcases hc.head hcm hprev with rfl | hc
        · obtain rfl := Option.some.inj (hcm.symm.trans hcm')
          obtain rfl := Option.some.inj (hprev.symm.trans hp')
          cases h with
          | first hpcm _ | next hpcm _ _ =>
              exact ⟨_, hpcm, (List.isChain_cons_cons.mp hchain).1⟩
        · exact ih.mpr (hchain.tail) c hc cm' p' hcm' hp'

/-! ## Revs are TIDs of readings -/

variable {view : TreeView L} {K : TreeLinks L} {tid : Nat → String} {did : String}
  {s t : RepoStore L} {rs : List Nat}

/-- The history has the TIDs of the readings as its revs, and the `since`
and the rev of an event are TIDs of two readings that follow each other. -/
structure RevsInv (view : TreeView L) (K : TreeLinks L) (tid : Nat → String) (did : String)
    (s : RepoStore L) (rs : List Nat) : Prop where
  calls : CallsInv view K s
  unrooted : s.roots.get did = none → rs = []
  rooted : ∀ root, s.roots.get did = some root → RevsFrom s.blocks.get root (rs.reverse.map tid)
  events : ∀ row ∈ s.rowsOf did, ∃ body, L.decodeBody row.event = .ok body
    ∧ ∀ since, body.since = some since → ∃ pre a b post, rs = pre ++ a :: b :: post
      ∧ since = tid a ∧ body.rev = tid b

theorem revsInv_empty : RevsInv view K tid did (RepoStore.empty L) [] := by
  refine ⟨callsInv_empty, fun _ => rfl, ?_, ?_⟩
  · intro root hroot
    cases hroot
  · intro row hrow
    cases hrow

/-- Nothing happened to this repository. -/
theorem RevsInv.same (h : RevsInv view K tid did s rs) (ht : CallsInv view K t)
    (hle : BlocksLe s.blocks.get t.blocks.get) (hroot : t.roots.get did = s.roots.get did)
    (hrows : t.rowsOf did = s.rowsOf did) : RevsInv view K tid did t rs where
  calls := ht
  unrooted hnone := h.unrooted (hroot ▸ hnone)
  rooted root hsome := (h.rooted root (hroot ▸ hsome)).mono hle
  events := hrows ▸ h.events

/-- The readings a commit adds to the history of its repository. -/
def addedReadings (s : RepoStore L) (did : String) (genesisReading reading : Nat) : List Nat :=
  if s.roots.contains did then [reading] else [genesisReading, reading]

theorem RevsInv.wrote (hV : TreeLaws L view) (hK : LinkLaws K) {w : RepoWriter L}
    {gen reading : Nat} {time : String} {m : RecordMap L} {o : Opened L} {data : L.Cid}
    {blocks : List (L.Cid × L.Block)} {body : CommitBody L.Cid L.Car}
    (h : RevsInv view K tid w.did s rs)
    (hw : Wrote view K w ⟨tid gen, tid reading, time⟩ s t m o data blocks body) :
    RevsInv view K tid w.did t (rs ++ addedReadings s w.did gen reading) := by
  obtain ⟨sig, hcommit⟩ := hw.commit
  obtain ⟨row, hdec, hrows⟩ := hw.rowsOf_self
  have hroot : t.roots.get w.did = some body.commit := by
    rw [hw.roots, Table.get_insert_self]
  have hsince := hw.since
  -- where the call started from says which readings it adds
  have hstart : RevsFrom t.blocks.get body.commit
        ((rs ++ addedReadings s w.did gen reading).reverse.map tid)
      ∧ ∀ since, body.since = some since → ∃ pre a b post,
        rs ++ addedReadings s w.did gen reading = pre ++ a :: b :: post
          ∧ since = tid a ∧ body.rev = tid b := by
    cases hw.starts with
    | stored cm hold hcm _ hprior =>
        have hadd : addedReadings s w.did gen reading = [reading] :=
          if_pos (Table.contains_iff.mpr ⟨_, hold⟩)
        have hrevs := (h.rooted _ hold).mono hw.grown
        obtain ⟨older, holder⟩ := hrevs.head (commitAt_mono hw.grown hcm)
        rw [hadd, List.reverse_append, List.map_append]
        refine ⟨.next hcommit rfl hrevs, fun since hs => ?_⟩
        rw [SinceOf, if_pos hprior] at hsince
        obtain ⟨cm', hcm', hs'⟩ := hsince
        obtain rfl := Option.some.inj ((commitAt_mono hw.grown hcm).symm.trans hcm')
        obtain rfl := Option.some.inj (hs.symm.trans hs')
        obtain ⟨pre, a, rfl⟩ : ∃ pre a, rs = pre ++ [a] := by
          rcases List.eq_nil_or_concat rs with rfl | ⟨pre, a, rfl⟩
          · cases holder
          · exact ⟨pre, a, List.concat_eq_append⟩
        rw [List.reverse_append, List.map_append] at holder
        exact ⟨pre, a, reading, [], by simp, (List.head_eq_of_cons_eq holder).symm, hw.rev⟩
    | created sig' hnew hgenesis _ hprior _ _ =>
        have hadd : addedReadings s w.did gen reading = [gen, reading] := by
          refine if_neg fun hcontains => ?_
          obtain ⟨root, hsome⟩ := Table.contains_iff.mp hcontains
          cases hnew.symm.trans hsome
        rw [h.unrooted hnew, hadd]
        refine ⟨.next hcommit rfl (.first hgenesis rfl), fun since hs => ?_⟩
        rw [SinceOf, hprior, if_neg Bool.false_ne_true] at hsince
        cases hsince.symm.trans hs
  refine ⟨h.calls.wrote hV hK hw, fun hnone => ?_, fun root hsome => ?_, fun row' hrow => ?_⟩
  · cases hroot.symm.trans hnone
  · obtain rfl := Option.some.inj (hroot.symm.trans hsome)
    exact hstart.1
  · rw [hrows] at hrow
    rcases List.mem_append.mp hrow with hold | hnew
    · obtain ⟨body', hdec', hpair⟩ := h.events row' hold
      refine ⟨body', hdec', fun since hs => ?_⟩
      obtain ⟨pre, a, b, post, rfl, ha, hb⟩ := hpair since hs
      exact ⟨pre, a, b, post ++ addedReadings s w.did gen reading, by simp, ha, hb⟩
    · rw [List.mem_singleton.mp hnew]
      exact ⟨_, hdec, hstart.2⟩

theorem revsInv_step (hL : RepoLaws L) (hV : TreeLaws L view) (hK : LinkLaws K)
    {p q : RepoStore L × List Nat} {c : TimedCall L} (hs : RevsInv view K tid did p.1 p.2)
    (h : timedStep tid did p c = some q) : RevsInv view K tid did q.1 q.2 := by
  obtain ⟨⟨x, t⟩, hrun, rfl⟩ := Option.map_eq_some_iff.mp h
  obtain ⟨m, hm⟩ := hs.calls.standing c.writer.did
  have hend := (yields_handler hL hV hK hs.calls.addressed (c.request tid) hm).of_against hrun
  cases x with
  | error e =>
      have hu : Unmoved p.1 t := hend
      refine (List.append_nil p.2).symm ▸ hs.same (hs.calls.unmoved hV hu) hu.blocks ?_ ?_
      · rw [hu.roots]
      · rw [RepoStore.rowsOf, hu.rows, RepoStore.rowsOf]
  | ok a =>
      obtain ⟨o, data, blocks, body, hwrote⟩ := hend
      by_cases hdid : c.writer.did = did
      · subst hdid
        have hadd : c.readings c.writer.did p.1 (.ok a : Except RepoError (RepoAnswer L))
            = addedReadings p.1 c.writer.did c.genesisReading c.reading := if_pos rfl
        show RevsInv view K tid c.writer.did t (p.2 ++ c.readings c.writer.did p.1 (.ok a))
        rw [hadd]
        exact hs.wrote hV hK hwrote
      · have hnone : c.readings did p.1 (.ok a : Except RepoError (RepoAnswer L)) = [] :=
          if_neg hdid
        show RevsInv view K tid did t (p.2 ++ c.readings did p.1 (.ok a))
        rw [hnone, List.append_nil]
        refine hs.same (hs.calls.wrote hV hK hwrote) hwrote.grown ?_
          (hwrote.rowsOf_of_ne (Ne.symm hdid))
        rw [hwrote.roots]
        exact Table.get_insert_of_ne (Ne.symm hdid)

/-! ## Increasing revs -/

theorem RevsInv.increase_iff (hT : TidLaws tid) (h : RevsInv view K tid did s rs)
    (hsorted : rs.Pairwise (· ≤ ·)) (hfit : ∀ r ∈ rs, r < 2 ^ 53) :
    RevsIncrease did s ↔ rs.Pairwise (· < ·) := by
  have hchain : (rs.reverse.map tid).IsChain (fun newer older => older < newer)
      ↔ rs.IsChain fun a b => tid a < tid b := by
    rw [List.isChain_map, List.isChain_reverse]
  constructor
  · rintro ⟨hcommits, -⟩
    cases hroot : s.roots.get did with
    | none =>
        rw [h.unrooted hroot]
        exact List.Pairwise.nil
    | some root =>
        have hrevs := hchain.mp ((h.rooted root hroot).increase_iff.mp (hcommits root hroot))
        refine List.isChain_iff_pairwise.mp ?_
        rw [List.isChain_iff_forall_rel_of_append_cons_cons] at hrevs ⊢
        intro a b pre post heq
        -- readings that follow each other are equal or in order, and equal ones have one TID
        have hlt := hrevs heq
        rw [heq] at hsorted
        have hle : a ≤ b := (List.pairwise_cons.mp (List.pairwise_append.mp hsorted).2.1).1 b
          List.mem_cons_self
        refine Nat.lt_of_le_of_ne hle fun hab => ?_
        rw [hab] at hlt
        exact String.lt_irrefl _ hlt
  · intro hlt
    have hpair : ∀ {pre a b post}, rs = pre ++ a :: b :: post → tid a < tid b := by
      intro pre a b post heq
      refine hT a b ?_ (hfit b ?_)
      · rw [heq] at hlt
        exact (List.pairwise_cons.mp (List.pairwise_append.mp hlt).2.1).1 b List.mem_cons_self
      · rw [heq]
        simp
    refine ⟨fun root hroot => ?_, fun row hrow => ?_⟩
    · refine (h.rooted root hroot).increase_iff.mpr (hchain.mpr ?_)
      exact List.isChain_iff_forall_rel_of_append_cons_cons.mpr fun a b pre post heq => hpair heq
    · obtain ⟨body, hdec, hevents⟩ := h.events row hrow
      refine ⟨body, hdec, fun since hs => ?_⟩
      obtain ⟨pre, a, b, post, heq, rfl, hrev⟩ := hevents since hs
      rw [hrev]
      exact hpair heq

theorem revsInv_run (hL : RepoLaws L) (hV : TreeLaws L view) (hK : LinkLaws K)
    {cs : List (TimedCall L)}
    (hrun : Steps.run (timedStep tid did) (RepoStore.empty L, []) cs = some (s, rs)) :
    RevsInv view K tid did s rs :=
  Steps.run_inv (I := fun p => RevsInv view K tid did p.1 p.2)
    (fun _ _ _ hs h => revsInv_step hL hV hK hs h) revsInv_empty hrun

/-- Whatever calls were made, with a clock that does not run backwards:
the revs of a history increase exactly when no two readings that went
into it are the same. -/
theorem revsIncrease_iff (hL : RepoLaws L) (hV : TreeLaws L view) (hK : LinkLaws K)
    (hT : TidLaws tid) (did : String) (cs : List (TimedCall L)) (s : RepoStore L) (rs : List Nat)
    (hrun : Steps.run (timedStep tid did) (RepoStore.empty L, []) cs = some (s, rs))
    (hsorted : rs.Pairwise (· ≤ ·)) (hfit : ∀ r ∈ rs, r < 2 ^ 53) :
    RevsIncrease did s ↔ rs.Pairwise (· < ·) :=
  (revsInv_run hL hV hK hrun).increase_iff hT hsorted hfit

end

/-- The TIDs that the handlers make for record keys. -/
theorem tidFromMicros_laws : TidLaws tidFromMicros := fun _ _ => tidFromMicros_lt

/-- Two creates on a new repository, and the readings of the clock. -/
def timedCreates (gen first second : Nat) : List (TimedCall sampleRepo) :=
  [⟨sampleWriter, .applyOne (.create "app.bsky.feed.post/1" (7 : Nat)), gen, first, "",
      List.replicate 16 .done⟩,
    ⟨sampleWriter, .applyMany [.create "app.bsky.feed.post/2" (8 : Nat)], 0, second, "",
      List.replicate 12 .done⟩]

theorem revs_increase_with_clock : ∃ s,
    Steps.run (timedStep tidFromMicros "did:plc:alice") (RepoStore.empty sampleRepo, [])
      (timedCreates 5 6 7) = some (s, [5, 6, 7])
    ∧ RevsIncrease "did:plc:alice" s := by
  have hrun : (Steps.run (timedStep tidFromMicros "did:plc:alice")
      (RepoStore.empty sampleRepo, []) (timedCreates 5 6 7)).map Prod.snd = some [5, 6, 7] := by
    decide
  obtain ⟨⟨s, rs⟩, hs, rfl⟩ := Option.map_eq_some_iff.mp hrun
  refine ⟨s, hs, ?_⟩
  exact (revsIncrease_iff sampleRepo_laws sampleRepo_treeLaws sampleRepo_linkLaws tidFromMicros_laws
    "did:plc:alice" _ s _ hs (by decide) (by decide)).mpr (by decide)

/-- With a clock that stands still a second commit has the rev of the
first, and its event says that it comes after itself. -/
theorem frozen_clock_repeats_rev : ∃ s rs,
    Steps.run (timedStep tidFromMicros "did:plc:alice") (RepoStore.empty sampleRepo, [])
      (timedCreates 5 5 5) = some (s, rs)
    ∧ rs.Pairwise (· ≤ ·) ∧ ¬ RevsIncrease "did:plc:alice" s
    ∧ ∃ row ∈ s.rowsOf "did:plc:alice", ∃ body, sampleRepo.decodeBody row.event = .ok body
      ∧ body.since = some body.rev := by
  have hrun : (Steps.run (timedStep tidFromMicros "did:plc:alice")
      (RepoStore.empty sampleRepo, []) (timedCreates 5 5 5)).map (fun p =>
        (p.2, (p.1.rowsOf "did:plc:alice").map fun row =>
          (sampleRepo.decodeBody row.event).toOption.map fun body =>
            decide (body.since = some body.rev)))
      = some ([5, 5, 5], [some false, some true]) := by
    decide
  obtain ⟨⟨s, rs⟩, hs, hlook⟩ := Option.map_eq_some_iff.mp hrun
  obtain ⟨rfl, hrows⟩ := Prod.mk.injEq .. |>.mp hlook
  refine ⟨s, _, hs, by decide, ?_, ?_⟩
  · rw [(revsInv_run sampleRepo_laws sampleRepo_treeLaws sampleRepo_linkLaws hs).increase_iff
      tidFromMicros_laws (by decide) (by decide)]
    decide
  · have hmem : some true ∈ (s.rowsOf "did:plc:alice").map fun row =>
        (sampleRepo.decodeBody row.event).toOption.map fun body =>
          decide (body.since = some body.rev) := by
      rw [hrows]
      decide
    obtain ⟨row, hrow, hbody⟩ := List.mem_map.mp hmem
    exact ⟨row, hrow, row.event, rfl, of_decide_eq_true (Option.some.inj hbody)⟩

end Stelyph
