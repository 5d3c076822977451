import Stelyph.FirehoseEmbedded
import Stelyph.FirehosePublish

/-!
# Delivery

A subscriber with a cursor is sent the events of the log after it, each
once and in order, if and only if it is never handed, live, an event
that overtook a smaller one: a writer assigns a seq in its transaction
and broadcasts later, under a lock of its own DID only, so the events of
two repositories can reach the channel in the other order, and the
filter on `last_sent_seq` then drops the one that comes late.

`SubInv` holds in every state of every run. `Exact` says that nothing
was left out so far and is kept by every step but one that overtakes;
`Missed` says that something was left out for good, and is kept by every
step. The embedded server has the same stream between the frames of its
client, so it inherits both directions.
-/

namespace Stelyph

section

variable {L : RepoLib}

/-! ## A numbered log -/

theorem Numbered.filter_eq_drop {rows : List (SeqRow L.Event)} (h : Numbered rows) (c : Nat) :
    rows.filter (fun r => decide (c < r.seq)) = rows.drop c := by
  -- the rows from number `a` on, for the induction
  have hgen : ∀ (rows : List (SeqRow L.Event)) (a c : Nat),
      (∀ (k : Nat) row, rows[k]? = some row → row.seq = a + k + 1) →
      rows.filter (fun r => decide (c < r.seq)) = rows.drop (c - a) := by
    intro rows
    induction rows with
    | nil => exact fun a c _ => List.drop_nil.symm
    | cons r rows ih =>
        intro a c h
        have hr : r.seq = a + 1 := h 0 r rfl
        have hrest := ih (a + 1) c fun k row hk => by
          have hseq := h (k + 1) row hk
          omega
        rcases Nat.lt_or_ge a c with hac | hac
        · rw [List.filter_cons_of_neg (by simp; omega), hrest,
            show c - a = c - (a + 1) + 1 by omega, List.drop_succ_cons]
        · rw [List.filter_cons_of_pos (by simp; omega), hrest,
            show c - a = 0 by omega, show c - (a + 1) = 0 by omega, List.drop_zero, List.drop_zero]
  simpa using hgen rows 0 c fun k row hk => by
    have hseq := h k row hk
    omega

theorem Numbered.pairwise {rows : List (SeqRow L.Event)} (h : Numbered rows) :
    rows.Pairwise fun a b => a.seq < b.seq := by
  rw [List.pairwise_iff_getElem]
  intro i j hi hj hij
  have h₁ := h i _ (List.getElem?_eq_getElem hi)
  have h₂ := h j _ (List.getElem?_eq_getElem hj)
  omega

theorem Numbered.seq_le {rows : List (SeqRow L.Event)} (h : Numbered rows) {row : SeqRow L.Event}
    (hrow : row ∈ rows) : row.seq ≤ rows.length := by
  obtain ⟨k, hk, rfl⟩ := List.getElem_of_mem hrow
  have hseq := h k _ (List.getElem?_eq_getElem hk)
  omega

theorem Numbered.maxSeq_le {rows : List (SeqRow L.Event)} (h : Numbered rows) :
    maxSeq rows ≤ rows.length := Stelyph.maxSeq_le fun _ hr => h.seq_le hr

/-- The row after the first `n` is the one numbered `n + 1`. -/
theorem Numbered.get_of_seq {rows : List (SeqRow L.Event)} (h : Numbered rows)
    {row : SeqRow L.Event} {n : Nat} (hrow : row ∈ rows) (hseq : row.seq = n + 1) :
    rows[n]? = some row := by
  obtain ⟨k, hk, rfl⟩ := List.getElem_of_mem hrow
  have hk' := h k _ (List.getElem?_eq_getElem hk)
  obtain rfl : k = n := by omega
  exact List.getElem?_eq_getElem hk

theorem backfillPage_eq {rows : List (SeqRow L.Event)} (h : Numbered rows)
    (hvalid : ∀ row ∈ rows, row.invalidated = false) (after limit : Nat) :
    backfillPage rows after limit
      = ((rows.drop after).take limit).map fun r => (r.seq, r.event) := by
  have hfilter : rows.filter (fun r => decide (after < r.seq) && !r.invalidated)
      = rows.drop after := by
    rw [← h.filter_eq_drop after]
    refine List.filter_congr fun r hr => ?_
    rw [hvalid r hr]
    exact Bool.and_true _
  have hsorted : (rows.drop after).Pairwise fun a b => a.seq ≤ b.seq :=
    (h.pairwise.sublist (List.drop_sublist _ _)).imp Nat.le_of_lt
  rw [backfillPage, hfilter, hsorted.insertionSort_eq]

/-! ## What is to be shown -/

/-- No writer has committed and not yet broadcast: what the log has, the
channel has been given. -/
def NoneInFlight (P : ApplyPool L) : Prop :=
  ∀ (i : Nat) q e k, P.tasks[i]? ≠ some (q, .op (.send e) k)

/-- The subscriber waits on an empty channel: it has read everything it was given. -/
def Drained (s : Firehose L) : Prop :=
  s.sub.phase = .live ∧ s.sub.rx = s.pool.store.sent.length

/-- The frames sent are those of the rows after `c`, each once and in
their order, and nothing else was sent. -/
structure Delivered (c : Nat) (s : Firehose L) : Prop where
  exact : s.sub.out.map some = (s.pool.store.rows.filter fun r => decide (c < r.seq)).map
    fun row => (eventOf row).map OutFrame.message
  increasing : ((s.pool.store.rows.filter fun r => decide (c < r.seq)).map
    fun r => r.seq).Pairwise (· < ·)

/-- The subscriber is about to be handed, live, an event whose broadcast
overtook that of a smaller one: one that is committed, was not sent to
the subscriber, and is not in the channel before it. -/
def overtakes (capacity : Nat) (s : Firehose L) : FirehoseAct L → Bool
  | .subscriber .done =>
      match s.sub.phase, s.pool.store.sent[s.sub.rx]? with
      | .live, some e =>
          decide (s.pool.store.sent.length - s.sub.rx ≤ capacity)
            && decide (s.sub.lastSentSeq < e.seq)
            && s.pool.store.rows.any fun r => decide (s.sub.lastSentSeq < r.seq)
              && decide (r.seq < e.seq)
              && !(s.pool.store.sent.take s.sub.rx).any fun e' => e'.seq == r.seq
      | _, _ => false
  | _ => false

/-- The same on the embedded server; a frame of the client is no event. -/
def EmbeddedFirehose.overtakes (capacity : Nat) (s : EmbeddedFirehose L) (a : EmbeddedAct L) :
    Bool :=
  match a.served with
  | some a => Stelyph.overtakes capacity s.served a
  | none => false

/-! ## The invariant -/

/-- What holds of a subscriber that has passed the cursor check. -/
structure Caught (c : Nat) (s : RepoStore L) (u : Subscriber L) : Prop where
  start : c ≤ u.lastSentSeq
  within : u.lastSentSeq ≤ s.rows.length
  place : u.rx ≤ s.sent.length
  past : ∀ e, OutFrame.message e ∈ u.out → e.seq ≤ u.lastSentSeq

def SubInv (c : Nat) (s : RepoStore L) (u : Subscriber L) : Prop :=
  match u.phase with
  | .closed => True
  | .connecting => u.cursor = some c ∧ u.lastSentSeq = c ∧ u.out = []
  | .checking => u.rx ≤ s.sent.length ∧ u.lastSentSeq = c ∧ u.out = []
  | .fetching => Caught c s u
  | .sending page =>
      Caught c s u ∧ page <+: (s.rows.drop u.lastSentSeq).map fun r => (r.seq, r.event)
  | .live => Caught c s u ∧ ∀ e ∈ s.sent.take u.rx, e.seq ≤ u.lastSentSeq

theorem Caught.extends {c : Nat} {s s' : RepoStore L} {u : Subscriber L} (h : Caught c s u)
    (hs : Extends s s') : Caught c s' u := by
  obtain ⟨⟨rows, hrows⟩, ⟨sent, hsent⟩⟩ := hs
  refine ⟨h.start, ?_, ?_, h.past⟩
  · rw [hrows, List.length_append]
    exact Nat.le_add_right_of_le h.within
  · rw [hsent, List.length_append]
    exact Nat.le_add_right_of_le h.place

theorem SubInv.extends {c : Nat} {s s' : RepoStore L} {u : Subscriber L} (h : SubInv c s u)
    (hs : Extends s s') : SubInv c s' u := by
  obtain ⟨rows, hrows⟩ := hs.rows
  obtain ⟨sent, hsent⟩ := hs.sent
  unfold SubInv at h ⊢
  cases hphase : u.phase with
  | closed => trivial
  | connecting => simpa only [hphase] using h
  | checking =>
      simp only [hphase] at h ⊢
      refine ⟨?_, h.2⟩
      rw [hsent, List.length_append]
      exact Nat.le_add_right_of_le h.1
  | fetching =>
      simp only [hphase] at h ⊢
      exact h.extends hs
  | sending page =>
      simp only [hphase] at h ⊢
      refine ⟨h.1.extends hs, h.2.trans ?_⟩
      rw [hrows, List.drop_append_of_le_length h.1.within, List.map_append]
      exact List.prefix_append _ _
  | live =>
      simp only [hphase] at h ⊢
      refine ⟨h.1.extends hs, ?_⟩
      rw [hsent, List.take_append_of_le_length h.1.place]
      exact h.2

/-! ## One step of the subscriber -/

/-- The channel hands over `e` and the socket takes it. -/
def Handed (capacity : Nat) (s : RepoStore L) (u : Subscriber L) (fate : SubFate)
    (e : FirehoseEvent L.Frame) : Prop :=
  u.phase = .live ∧ s.sent.length - u.rx ≤ capacity ∧ s.sent[u.rx]? = some e ∧ fate = .done

/-- What a step can do to what was sent: nothing, or it sends the event of
a row that is after everything sent so far, the very next one unless the
channel handed it over. -/
inductive Move (capacity c : Nat) (s : RepoStore L) (u u' : Subscriber L) (fate : SubFate) :
    Prop where
  | close (hclosed : u'.phase = .closed)
  | quiet (hout : u'.out = u.out) (hlast : u'.lastSentSeq = u.lastSentSeq)
  | send (e : FirehoseEvent L.Frame) (row : SeqRow L.Event) (hu : Caught c s u)
      (hrow : row ∈ s.rows) (hev : eventOf row = some e) (hlt : u.lastSentSeq < e.seq)
      (hout : u'.out = u.out ++ [.message e]) (hlast : u'.lastSentSeq = e.seq)
      (hnext : e.seq = u.lastSentSeq + 1 ∨ Handed capacity s u fate e)

variable {capacity c : Nat} {P : ApplyPool L} {u u' : Subscriber L} {fate : SubFate}

theorem Caught.send {s : RepoStore L} {e : FirehoseEvent L.Frame} {rx : Nat}
    {phase : SubPhase L.Event} {recovered : Bool} (h : Caught c s u)
    (hlt : u.lastSentSeq < e.seq) (hle : e.seq ≤ s.rows.length) (hrx : rx ≤ s.sent.length) :
    Caught c s { u with
      rx := rx
      phase := phase
      recoveredFromLag := recovered
      out := u.out ++ [.message e]
      lastSentSeq := e.seq } := by
  have hstart := h.start
  refine ⟨by show c ≤ e.seq; omega, hle, hrx, fun e' he' => ?_⟩
  rcases List.mem_append.mp he' with he' | he'
  · have hpast := h.past e' he'
    show e'.seq ≤ e.seq
    omega
  · cases List.mem_singleton.mp he'
    exact Nat.le_refl _

/-- The next row of a page is the next row of the log. -/
theorem sendRow_step (hP : Published P) (hu : Caught c P.store u) {seq : Nat} {event : L.Event}
    {rest : List (Nat × L.Event)}
    (hpage : (seq, event) :: rest
      <+: (P.store.rows.drop u.lastSentSeq).map fun r => (r.seq, r.event)) :
    SubInv c P.store (u.sendRow seq event rest fate)
      ∧ Move capacity c P.store u (u.sendRow seq event rest fate) fate := by
  obtain ⟨row, hrow⟩ : ∃ row, P.store.rows[u.lastSentSeq]? = some row := by
    cases hdrop : P.store.rows.drop u.lastSentSeq with
    | nil =>
        rw [hdrop] at hpage
        cases List.prefix_nil.mp hpage
    | cons row tail =>
        refine ⟨row, ?_⟩
        rw [← List.head?_drop, hdrop]
        rfl
  have hlt : u.lastSentSeq < P.store.rows.length := (List.getElem?_eq_some_iff.mp hrow).1
  have hdrop : P.store.rows.drop u.lastSentSeq = row :: P.store.rows.drop (u.lastSentSeq + 1) := by
    rw [List.drop_eq_getElem_cons hlt, (List.getElem?_eq_some_iff.mp hrow).2]
  rw [hdrop, List.map_cons, List.cons_prefix_cons] at hpage
  obtain ⟨hhead, hrest⟩ := hpage
  obtain ⟨rfl, rfl⟩ := Prod.mk.injEq .. |>.mp hhead
  have hseq : row.seq = u.lastSentSeq + 1 := hP.numbered _ _ hrow
  have hmem := List.mem_of_getElem? hrow
  obtain ⟨-, e, he⟩ := hP.valid row hmem
  obtain ⟨body, hbody, rfl⟩ := Option.map_eq_some_iff.mp he
  have hdec : L.decodeBody row.event = .ok body := by
    cases hd : L.decodeBody row.event with
    | ok b =>
        rw [hd] at hbody
        rw [Option.some.inj hbody]
    | error msg =>
        rw [hd] at hbody
        cases hbody
  rw [Subscriber.sendRow, hdec]
  cases fate with
  | done =>
      have hafter : u.lastSentSeq < row.seq := by omega
      have hle : row.seq ≤ P.store.rows.length := by omega
      refine ⟨⟨hu.send (e := ⟨row.seq, _⟩) hafter hle hu.place, ?_⟩,
        .send _ row hu hmem he hafter rfl rfl (Or.inl hseq)⟩
      show rest <+: (P.store.rows.drop row.seq).map _
      rw [hseq]
      exact hrest
  | fails => exact ⟨trivial, .close rfl⟩

theorem receive_step (hP : Published P) (hu : Caught c P.store u)
    (hbefore : ∀ e ∈ P.store.sent.take u.rx, e.seq ≤ u.lastSentSeq) (hphase : u.phase = .live)
    (hcap : P.store.sent.length - u.rx ≤ capacity) {e : FirehoseEvent L.Frame}
    (he : P.store.sent[u.rx]? = some e) :
    SubInv c P.store (u.receive e fate) ∧ Move capacity c P.store u (u.receive e fate) fate := by
  have hlt : u.rx < P.store.sent.length := (List.getElem?_eq_some_iff.mp he).1
  have htake : P.store.sent.take (u.rx + 1) = P.store.sent.take u.rx ++ [e] := by
    rw [List.take_add_one, he]
    rfl
  unfold Subscriber.receive
  split
  · rename_i hle
    refine ⟨?_, .quiet rfl rfl⟩
    unfold SubInv
    simp only [hphase]
    refine ⟨⟨hu.start, hu.within, hlt, hu.past⟩, ?_⟩
    rw [htake]
    intro e' he'
    rcases List.mem_append.mp he' with he' | he'
    · exact hbefore e' he'
    · rw [List.mem_singleton.mp he']
      exact hle
  · rename_i hgt
    cases fate with
    | fails => exact ⟨trivial, .close rfl⟩
    | done =>
        obtain ⟨row, hrow, hev⟩ := hP.sent e (List.mem_of_getElem? he)
        have hseq := seq_of_eventOf hev
        have hlast : u.lastSentSeq < e.seq := by omega
        refine ⟨?_, .send e row hu hrow hev hlast rfl rfl (Or.inr ⟨hphase, hcap, he, rfl⟩)⟩
        unfold SubInv
        simp only [hphase]
        refine ⟨hphase ▸ hu.send hlast (hseq ▸ hP.numbered.seq_le hrow) hlt, ?_⟩
        rw [htake]
        intro e' he'
        rcases List.mem_append.mp he' with he' | he'
        · have hle := hbefore e' he'
          show e'.seq ≤ e.seq
          omega
        · rw [List.mem_singleton.mp he']

/-- A cursor that is not in the future: the replay starts at it. -/
theorem checking_step (hP : Published P) (hrx : u.rx ≤ P.store.sent.length)
    (hlast : u.lastSentSeq = c) (hout : u.out = []) (hphase : u.phase = .checking)
    (h : u.step capacity P.store fate = some u') :
    SubInv c P.store u' ∧ Move capacity c P.store u u' fate := by
  unfold Subscriber.step at h
  simp only [hphase] at h
  cases fate with
  | fails =>
      obtain rfl := Option.some.inj h
      exact ⟨trivial, .close rfl⟩
  | done =>
      simp only at h
      split at h
      · obtain rfl := Option.some.inj h
        exact ⟨trivial, .close rfl⟩
      · rename_i hmax
        obtain rfl := Option.some.inj h
        have hle := hP.numbered.maxSeq_le
        have hwithin : u.lastSentSeq ≤ P.store.rows.length := by omega
        refine ⟨⟨hlast.ge, hwithin, hrx, fun e he => ?_⟩, .quiet rfl rfl⟩
        have hmem : OutFrame.message e ∈ u.out := he
        rw [hout] at hmem
        cases hmem

/-- An empty page means that the whole log was replayed, and with it all
that the channel has. -/
theorem sent_le_of_page_nil (hP : Published P)
    (hnil : backfillPage P.store.rows u.lastSentSeq backfillLimit = []) :
    ∀ e ∈ P.store.sent, e.seq ≤ u.lastSentSeq := by
  rw [backfillPage_eq hP.numbered (fun r hr => (hP.valid r hr).1)] at hnil
  have hend : P.store.rows.length ≤ u.lastSentSeq := by
    rcases List.take_eq_nil_iff.mp (List.map_eq_nil_iff.mp hnil) with hlimit | hdrop
    · cases hlimit
    · exact List.drop_eq_nil_iff.mp hdrop
  intro e he
  obtain ⟨row, hrow, hev⟩ := hP.sent e he
  have hle := hP.numbered.seq_le hrow
  rw [seq_of_eventOf hev]
  omega

theorem fetching_step (hP : Published P) (hu : Caught c P.store u) (hphase : u.phase = .fetching)
    (h : u.step capacity P.store fate = some u') :
    SubInv c P.store u' ∧ Move capacity c P.store u u' fate := by
  have hcaught : ∀ phase, Caught c P.store { u with phase := phase } := fun phase =>
    ⟨hu.start, hu.within, hu.place, hu.past⟩
  unfold Subscriber.step at h
  simp only [hphase] at h
  cases fate with
  | fails =>
      obtain rfl := Option.some.inj h
      exact ⟨trivial, .close rfl⟩
  | done =>
      simp only at h
      split at h
      · rename_i hnil
        obtain rfl := Option.some.inj h
        have hsent := sent_le_of_page_nil hP hnil
        exact ⟨⟨hcaught _, fun e he => hsent e (List.mem_of_mem_take he)⟩, .quiet rfl rfl⟩
      · obtain rfl := Option.some.inj h
        refine ⟨⟨hcaught _, ?_⟩, .quiet rfl rfl⟩
        rw [backfillPage_eq hP.numbered (fun r hr => (hP.valid r hr).1)]
        exact (List.take_prefix _ _).map _

theorem live_step (hP : Published P) (hu : Caught c P.store u)
    (hbefore : ∀ e ∈ P.store.sent.take u.rx, e.seq ≤ u.lastSentSeq) (hphase : u.phase = .live)
    (h : u.step capacity P.store fate = some u') :
    SubInv c P.store u' ∧ Move capacity c P.store u u' fate := by
  unfold Subscriber.step at h
  simp only [hphase] at h
  split at h
  · obtain rfl := Option.some.inj h
    rw [Subscriber.lagged]
    split
    · exact ⟨trivial, .close rfl⟩
    · exact ⟨⟨hu.start, hu.within, Nat.le_refl _, hu.past⟩, .quiet rfl rfl⟩
  · rename_i hcap
    obtain ⟨e, he, rfl⟩ := Option.map_eq_some_iff.mp h
    exact receive_step hP hu hbefore hphase (by omega) he

theorem sub_step (hP : Published P) (hu : SubInv c P.store u)
    (h : u.step capacity P.store fate = some u') :
    SubInv c P.store u' ∧ Move capacity c P.store u u' fate := by
  unfold SubInv at hu
  cases hphase : u.phase with
  | closed => simp [Subscriber.step, hphase] at h
  | connecting =>
      simp only [hphase] at hu
      simp only [Subscriber.step, hphase] at h
      obtain rfl := Option.some.inj h
      obtain ⟨hcursor, hlast, hout⟩ := hu
      rw [hcursor]
      exact ⟨⟨Nat.le_refl _, hlast, hout⟩, .quiet rfl rfl⟩
  | checking =>
      simp only [hphase] at hu
      exact checking_step hP hu.1 hu.2.1 hu.2.2 hphase h
  | fetching =>
      simp only [hphase] at hu
      exact fetching_step hP hu hphase h
  | sending page =>
      simp only [hphase] at hu
      obtain ⟨hu, hpage⟩ := hu
      cases page with
      | nil =>
          simp only [Subscriber.step, hphase] at h
          obtain rfl := Option.some.inj h
          exact ⟨⟨hu.start, hu.within, hu.place, hu.past⟩, .quiet rfl rfl⟩
      | cons x rest =>
          simp only [Subscriber.step, hphase] at h
          obtain rfl := Option.some.inj h
          exact sendRow_step hP hu hpage
  | live =>
      simp only [hphase] at hu
      exact live_step hP hu.1 hu.2 hphase h

/-! ## One step of the system -/

variable {s s' : Firehose L} {a : FirehoseAct L}

def FirehoseInv (c : Nat) (s : Firehose L) : Prop :=
  Published s.pool ∧ SubInv c s.pool.store s.sub

theorem firehoseInv_init : FirehoseInv c (Firehose.init L (some c)) :=
  ⟨published_init, rfl, rfl, rfl⟩

/-- Everything a step of the system can do: the log and the channel grow,
or the subscriber moves. -/
theorem firehose_step (hL : RepoLaws L) (hs : FirehoseInv c s)
    (h : s.next capacity a = some s') :
    FirehoseInv c s' ∧
      ((Extends s.pool.store s'.pool.store ∧ s'.sub = s.sub) ∨
        ∃ fate, a = .subscriber fate ∧ s'.pool = s.pool
          ∧ Move capacity c s.pool.store s.sub s'.sub fate) := by
  obtain ⟨hP, hu⟩ := hs
  cases a with
  | write a =>
      obtain ⟨P', hnext, rfl⟩ := Option.map_eq_some_iff.mp h
      obtain ⟨hP', hext⟩ := published_next hL hP hnext
      exact ⟨⟨hP', hu.extends hext⟩, Or.inl ⟨hext, rfl⟩⟩
  | subscriber fate =>
      obtain ⟨u', hstep, rfl⟩ := Option.map_eq_some_iff.mp h
      obtain ⟨hu', hmove⟩ := sub_step hP hu hstep
      exact ⟨⟨hP, hu'⟩, Or.inr ⟨fate, rfl, rfl, hmove⟩⟩

/-! ## Nothing left out -/

/-- The frames are those of the rows after `c` up to the last one sent. -/
def Exact (c : Nat) (s : RepoStore L) (u : Subscriber L) : Prop :=
  u.out.map some = ((s.rows.take u.lastSentSeq).drop c).map
    fun row => (eventOf row).map OutFrame.message

theorem exact_of_start {r : RepoStore L} (hlast : u.lastSentSeq = c) (hout : u.out = []) :
    Exact c r u := by
  rw [Exact, hout, hlast, List.drop_eq_nil_of_le (List.length_take_le _ _)]
  rfl

theorem exact_init : Exact c (Firehose.init L (some c)).pool.store
    (Firehose.init L (some c)).sub := exact_of_start rfl rfl

theorem Exact.extends {r r' : RepoStore L} (h : Exact c r u) (hu : SubInv c r u)
    (hopen : u.phase ≠ .closed) (hr : Extends r r') : Exact c r' u := by
  obtain ⟨rows, hrows⟩ := hr.rows
  have hcaught : Caught c r u → Exact c r' u := by
    intro hu
    rw [Exact, hrows, List.take_append_of_le_length hu.within]
    exact h
  unfold SubInv at hu
  cases hphase : u.phase with
  | closed => exact absurd hphase hopen
  | connecting | checking =>
      simp only [hphase] at hu
      exact exact_of_start hu.2.1 hu.2.2
  | fetching =>
      simp only [hphase] at hu
      exact hcaught hu
  | sending page | live =>
      simp only [hphase] at hu
      exact hcaught hu.1

/-- An event that overtook nothing is the next one. -/
theorem next_of_not_overtakes (hs : FirehoseInv c s) {e : FirehoseEvent L.Frame}
    {row : SeqRow L.Event} (hrow : row ∈ s.pool.store.rows) (hev : eventOf row = some e)
    (hlt : s.sub.lastSentSeq < e.seq) (hh : Handed capacity s.pool.store s.sub fate e)
    (hno : overtakes capacity s (.subscriber fate) = false) : e.seq = s.sub.lastSentSeq + 1 := by
  obtain ⟨hphase, hcap, he, rfl⟩ := hh
  obtain ⟨hP, hu⟩ := hs
  unfold SubInv at hu
  simp only [hphase] at hu
  by_contra hne
  have hle := hP.numbered.seq_le hrow
  rw [← seq_of_eventOf hev] at hle
  -- the row right after the last one sent is there, and was overtaken
  have hidx : s.sub.lastSentSeq < s.pool.store.rows.length := by omega
  have hget := List.getElem?_eq_getElem hidx
  have hseq := hP.numbered _ _ hget
  have htrue : overtakes capacity s (.subscriber .done) = true := by
    simp only [overtakes, hphase, he, Bool.and_eq_true, decide_eq_true_eq, List.any_eq_true,
      Bool.not_eq_true', List.any_eq_false, beq_iff_eq]
    refine ⟨⟨hcap, hlt⟩, _, List.getElem_mem hidx, ⟨by omega, by omega⟩, fun e' he' heq => ?_⟩
    have hbefore := hu.2 e' he'
    omega
  rw [htrue] at hno
  cases hno

theorem Exact.move (hs : FirehoseInv c s)
    (h : Exact c s.pool.store s.sub) (hm : Move capacity c s.pool.store s.sub u' fate)
    (hopen : u'.phase ≠ .closed) (hno : overtakes capacity s (.subscriber fate) = false) :
    Exact c s.pool.store u' := by
  cases hm with
  | close hclosed => exact absurd hclosed hopen
  | quiet hout hlast =>
      rw [Exact, hout, hlast]
      exact h
  | send e row hu hrow hev hlt hout hlast hnext =>
      have hseq : e.seq = s.sub.lastSentSeq + 1 := by
        rcases hnext with hnext | hh
        · exact hnext
        · exact next_of_not_overtakes hs hrow hev hlt hh hno
      have hget : s.pool.store.rows[s.sub.lastSentSeq]? = some row :=
        hs.1.numbered.get_of_seq hrow ((seq_of_eventOf hev).symm.trans hseq)
      have hlen : c ≤ (s.pool.store.rows.take s.sub.lastSentSeq).length := by
        rw [List.length_take, Nat.min_eq_left hu.within]
        exact hu.start
      rw [Exact, hout, hlast, hseq, List.take_add_one, hget, Option.toList_some,
        List.drop_append_of_le_length hlen, List.map_append, List.map_append, h, List.map_singleton,
        List.map_singleton, hev]
      rfl

/-- A step that overtakes nothing leaves nothing out. -/
theorem exact_step (hL : RepoLaws L) (hs : FirehoseInv c s)
    (hex : s.sub.phase ≠ .closed → Exact c s.pool.store s.sub)
    (hno : overtakes capacity s a = false) (h : s.next capacity a = some s')
    (hopen : s'.sub.phase ≠ .closed) : Exact c s'.pool.store s'.sub := by
  obtain ⟨-, ⟨hext, hsub⟩ | ⟨fate, rfl, hpool, hmove⟩⟩ := firehose_step hL hs h
  · rw [hsub] at hopen ⊢
    exact (hex hopen).extends hs.2 hopen hext
  · have hopen' : s.sub.phase ≠ .closed := by
      intro hclosed
      simp [Firehose.next, Subscriber.step, hclosed] at h
    rw [hpool]
    exact (hex hopen').move hs hmove hopen hno

/-! ## Something left out -/

/-- A row after `c` was passed and its event not sent. -/
def Missed (c : Nat) (s : RepoStore L) (u : Subscriber L) : Prop :=
  ∃ row ∈ s.rows, c < row.seq ∧ row.seq ≤ u.lastSentSeq
    ∧ ∀ e, OutFrame.message e ∈ u.out → e.seq ≠ row.seq

/-- What is passed is never sent. -/
theorem missed_step (hL : RepoLaws L) (hs : FirehoseInv c s)
    (h : s.sub.phase = .closed ∨ Missed c s.pool.store s.sub)
    (hnext : s.next capacity a = some s') :
    s'.sub.phase = .closed ∨ Missed c s'.pool.store s'.sub := by
  obtain ⟨-, ⟨hext, hsub⟩ | ⟨fate, rfl, hpool, hmove⟩⟩ := firehose_step hL hs hnext
  · rw [hsub]
    obtain ⟨new, hrows⟩ := hext.rows
    rcases h with hclosed | ⟨row, hrow, hrest⟩
    · exact Or.inl hclosed
    · exact Or.inr ⟨row, hrows ▸ List.mem_append_left _ hrow, hrest⟩
  · rw [hpool]
    rcases h with hclosed | ⟨row, hrow, hc, hle, hout⟩
    · simp [Firehose.next, Subscriber.step, hclosed] at hnext
    cases hmove with
    | close hclosed => exact Or.inl hclosed
    | quiet hout' hlast => exact Or.inr ⟨row, hrow, hc, hlast ▸ hle, hout' ▸ hout⟩
    | send e row' hu hrow' hev hlt hout' hlast hnext' =>
        refine Or.inr ⟨row, hrow, hc, by omega, fun e' he' => ?_⟩
        rw [hout'] at he'
        rcases List.mem_append.mp he' with he' | he'
        · exact hout e' he'
        · cases List.mem_singleton.mp he'
          omega

theorem missed_of_overtakes (hs : FirehoseInv c s) (hov : overtakes capacity s a = true)
    (h : s.next capacity a = some s') : Missed c s'.pool.store s'.sub := by
  obtain ⟨hP, hu⟩ := hs
  unfold overtakes at hov
  split at hov
  · split at hov
    · rename_i e hphase he
      simp only [Bool.and_eq_true, decide_eq_true_eq, List.any_eq_true] at hov
      obtain ⟨⟨hcap, hlt⟩, row, hrow, ⟨hgt, hbelow⟩, -⟩ := hov
      have hstep : s' = { s with sub := s.sub.receive e .done } := by
        simp only [Firehose.next, Subscriber.step, hphase, he] at h
        rw [if_neg (by omega)] at h
        exact (Option.some.inj h).symm
      have hsend : s.sub.receive e .done = { s.sub with
          rx := s.sub.rx + 1
          out := s.sub.out ++ [.message e]
          lastSentSeq := e.seq
          recoveredFromLag := false } := by
        unfold Subscriber.receive
        exact if_neg (by omega)
      unfold SubInv at hu
      simp only [hphase] at hu
      have hstart := hu.1.start
      rw [hstep, hsend]
      refine ⟨row, hrow, by omega, Nat.le_of_lt hbelow, fun e' he' => ?_⟩
      rcases List.mem_append.mp he' with he' | he'
      · have hpast := hu.1.past e' he'
        omega
      · cases List.mem_singleton.mp he'
        omega
    · cases hov
  · cases hov

theorem not_delivered_of_missed (hP : Published s.pool)
    (h : Missed c s.pool.store s.sub) : ¬ Delivered c s := by
  rintro ⟨hexact, -⟩
  obtain ⟨row, hrow, hc, -, hout⟩ := h
  obtain ⟨-, e, he⟩ := hP.valid row hrow
  have hmem : some (OutFrame.message e) ∈ s.sub.out.map some := by
    rw [hexact]
    refine List.mem_map.mpr ⟨row, List.mem_filter.mpr ⟨hrow, decide_eq_true hc⟩, ?_⟩
    rw [he]
    rfl
  obtain ⟨o, ho, heq⟩ := List.mem_map.mp hmem
  obtain rfl := Option.some.inj heq
  exact hout e ho (seq_of_eventOf he)

/-! ## The theorem -/

/-- With nothing in flight and the channel drained, the last event sent is
the last one committed. -/
theorem delivered_of_exact (hs : FirehoseInv c s) (hflight : NoneInFlight s.pool)
    (hdrained : Drained s) (h : Exact c s.pool.store s.sub) : Delivered c s := by
  obtain ⟨hP, hu⟩ := hs
  obtain ⟨hphase, hrx⟩ := hdrained
  unfold SubInv at hu
  simp only [hphase] at hu
  obtain ⟨hcaught, hbefore⟩ := hu
  rw [hrx, List.take_length] at hbefore
  have hend : s.pool.store.rows.length ≤ s.sub.lastSentSeq := by
    by_contra hlt
    have hidx : s.sub.lastSentSeq < s.pool.store.rows.length := by omega
    have hmem := List.getElem_mem hidx
    have hseq := hP.numbered _ _ (List.getElem?_eq_getElem hidx)
    obtain ⟨-, e, he⟩ := hP.valid _ hmem
    rcases hP.pending _ hmem e he with hsent | ⟨i, q, k, hi⟩
    · have hle := hbefore e hsent
      rw [seq_of_eventOf he] at hle
      omega
    · exact hflight i q e k hi
  have hfilter := hP.numbered.filter_eq_drop c
  refine ⟨?_, ?_⟩
  · rw [hfilter, h, List.take_of_length_le hend]
  · rw [hfilter, List.pairwise_map]
    exact hP.numbered.pairwise.sublist (List.drop_sublist _ _)

theorem delivered_iff_along (hL : RepoLaws L) {as : List (FirehoseAct L)}
    (hrun : Steps.run (Firehose.next capacity) (Firehose.init L (some c)) as = some s)
    (hflight : NoneInFlight s.pool) (hdrained : Drained s) :
    Delivered c s ↔ Steps.Along (Firehose.next capacity)
      (fun s a => overtakes capacity s a = false) (Firehose.init L (some c)) as := by
  have hinv : ∀ {as : List (FirehoseAct L)} {s : Firehose L},
      Steps.run (Firehose.next capacity) (Firehose.init L (some c)) as = some s →
      FirehoseInv c s := fun hrun =>
    Steps.run_inv (fun _ _ _ hs h => (firehose_step hL hs h).1) firehoseInv_init hrun
  have hopen : s.sub.phase ≠ .closed := by
    rw [hdrained.1]
    exact fun h => by cases h
  constructor
  · intro hdel
    by_contra hnot
    obtain ⟨pre, a, post, t, rfl, hpre, -, hbreak⟩ := Steps.exists_break_of_not_along hrun hnot
    obtain ⟨t', ht', hpost⟩ := Steps.run_append_eq_some.mp hrun
    obtain rfl := Option.some.inj (hpre.symm.trans ht')
    obtain ⟨t'', hstep, hrest⟩ := Steps.run_cons_eq_some.mp hpost
    have ht := hinv hpre
    have hmissed := missed_of_overtakes ht (by simpa using hbreak) hstep
    have hlast := Steps.run_inv (I := fun s => FirehoseInv c s
        ∧ (s.sub.phase = .closed ∨ Missed c s.pool.store s.sub))
      (fun _ _ _ hs h => ⟨(firehose_step hL hs.1 h).1, missed_step hL hs.1 hs.2 h⟩)
      ⟨(firehose_step hL ht hstep).1, Or.inr hmissed⟩ hrest
    rcases hlast with ⟨hs, hclosed | hmiss⟩
    · exact hopen hclosed
    · exact not_delivered_of_missed hs.1 hmiss hdel
  · intro hno
    have hlast := Steps.run_inv_along (I := fun s => FirehoseInv c s
        ∧ (s.sub.phase ≠ .closed → Exact c s.pool.store s.sub))
      (fun _ _ _ hs hal h => ⟨(firehose_step hL hs.1 h).1, exact_step hL hs.1 hs.2 hal h⟩)
      ⟨firehoseInv_init, fun _ => exact_init⟩ hno hrun
    exact delivered_of_exact hlast.1 hflight hdrained (hlast.2 hopen)

/-- A run that ends with the stream open, without the client's frames. -/
theorem EmbeddedFirehose.along_served {as : List (EmbeddedAct L)} {s t : EmbeddedFirehose L}
    (hrun : Steps.run (EmbeddedFirehose.next capacity) s as = some t)
    (hopen : t.sub.phase ≠ .closed) :
    Steps.Along (EmbeddedFirehose.next capacity)
        (fun s a => EmbeddedFirehose.overtakes capacity s a = false) s as
      ↔ Steps.Along (Firehose.next capacity)
        (fun s a => Stelyph.overtakes capacity s a = false) s.served
        (as.filterMap EmbeddedAct.served) := by
  rw [← (EmbeddedFirehose.projects capacity).along_iff hrun hopen]
  have hiff : ∀ (s : EmbeddedFirehose L) (a : EmbeddedAct L),
      EmbeddedFirehose.overtakes capacity s a = false
        ↔ ∀ b, a.served = some b → Stelyph.overtakes capacity s.served b = false := by
    intro s a
    rw [EmbeddedFirehose.overtakes]
    cases a.served with
    | none => exact iff_of_true rfl fun b hb => nomatch hb
    | some a => exact ⟨fun h b hb => Option.some.inj hb ▸ h, fun h => h a rfl⟩
  exact ⟨Steps.Along.imp fun s a => (hiff s a).mp, Steps.Along.imp fun s a => (hiff s a).mpr⟩

/-- **Delivery.** On either server, in every run of writers and a
subscriber that ends with nothing in flight and the channel drained, the
subscriber was sent the events after its cursor, each once and in order,
exactly if no event it was handed live had overtaken another. -/
theorem delivered_iff_no_overtaking (hL : RepoLaws L) (capacity c : Nat) :
    (∀ (as : List (FirehoseAct L)) s,
      Steps.run (Firehose.next capacity) (Firehose.init L (some c)) as = some s →
      NoneInFlight s.pool → Drained s →
      (Delivered c s ↔ Steps.Along (Firehose.next capacity)
        (fun s a => overtakes capacity s a = false) (Firehose.init L (some c)) as))
    ∧ ∀ (as : List (EmbeddedAct L)) s,
      Steps.run (EmbeddedFirehose.next capacity) (EmbeddedFirehose.init L (some c)) as = some s →
      NoneInFlight s.pool → Drained s.served →
      (Delivered c s.served ↔ Steps.Along (EmbeddedFirehose.next capacity)
        (fun s a => EmbeddedFirehose.overtakes capacity s a = false)
        (EmbeddedFirehose.init L (some c)) as) := by
  refine ⟨fun as s hrun => delivered_iff_along hL hrun, fun as s hrun hflight hdrained => ?_⟩
  have hopen : s.sub.phase ≠ .closed := by
    intro hclosed
    cases hclosed.symm.trans hdrained.1
  have hserved := (EmbeddedFirehose.projects capacity).run hrun hopen
  rw [EmbeddedFirehose.served_init] at hserved
  rw [EmbeddedFirehose.along_served hrun hopen, EmbeddedFirehose.served_init]
  exact delivered_iff_along hL hserved hflight hdrained

end

/-! ## Two repositories -/

/-- A look at a state: whether every write has ended, whether the
subscriber waits on an empty channel, and what it was sent of what. -/
def Firehose.glance {L : RepoLib} (s : Firehose L) : Bool × Bool × Nat × Nat :=
  (s.pool.tasks.all fun t => t.2.outcome.isSome,
    (match s.sub.phase with | .live => true | _ => false) && s.sub.rx == s.pool.store.sent.length,
    s.sub.out.length, (s.pool.store.rows.filter fun r => decide (0 < r.seq)).length)

theorem quiet_of_glance {L : RepoLib} {s : Firehose L} {n m : Nat}
    (h : s.glance = (true, true, n, m)) : NoneInFlight s.pool ∧ Drained s := by
  simp only [Firehose.glance, Prod.mk.injEq, Bool.and_eq_true, beq_iff_eq] at h
  obtain ⟨hended, ⟨hphase, hrx⟩, -, -⟩ := h
  refine ⟨fun i q e k hi => ?_, ?_, hrx⟩
  · cases List.all_eq_true.mp hended _ (List.mem_of_getElem? hi)
  · split at hphase
    · assumption
    · cases hphase

def sampleWrite (did rev : String) : ApplyOne sampleRepo :=
  ⟨⟨did, ()⟩, .create "app.bsky.feed.post/1" (7 : Nat), ⟨s!"{rev}0", rev, "2026-06-17T00:00:00Z"⟩⟩

/-- The subscriber goes live; alice commits, bob commits and broadcasts,
and his event is relayed before alice broadcasts hers. -/
def overtakingRun : List (FirehoseAct sampleRepo) :=
  List.replicate 3 (.subscriber .done)
  ++ [.write (.start (sampleWrite "did:plc:alice" "a")),
    .write (.start (sampleWrite "did:plc:bob" "b"))]
  ++ List.replicate 14 (.write (.step 0 .done)) ++ List.replicate 16 (.write (.step 1 .done))
  ++ [.subscriber .done] ++ List.replicate 2 (.write (.step 0 .done)) ++ [.subscriber .done]

/-- The event that is broadcast late is never sent. -/
theorem overtaken_event_is_lost : ¬ ∀ (capacity c : Nat) (as : List (FirehoseAct sampleRepo))
    (s : Firehose sampleRepo),
    Steps.run (Firehose.next capacity) (Firehose.init sampleRepo (some c)) as = some s →
    NoneInFlight s.pool → Drained s → Delivered c s := by
  intro h
  have heval : (Steps.run (Firehose.next 512) (Firehose.init sampleRepo (some 0))
      overtakingRun).map Firehose.glance = some (true, true, 1, 2) := by decide
  obtain ⟨s, hrun, hs⟩ := Option.map_eq_some_iff.mp heval
  obtain ⟨hflight, hdrained⟩ := quiet_of_glance hs
  have hlen := congrArg List.length (h 512 0 overtakingRun s hrun hflight hdrained).exact
  simp only [Firehose.glance, Prod.mk.injEq] at hs
  rw [List.length_map, List.length_map, hs.2.2.1, hs.2.2.2] at hlen
  cases hlen

/-- The same two writes, with the relay after both broadcasts in turn. -/
def orderedRun : List (FirehoseAct sampleRepo) :=
  List.replicate 3 (.subscriber .done)
  ++ [.write (.start (sampleWrite "did:plc:alice" "a")),
    .write (.start (sampleWrite "did:plc:bob" "b"))]
  ++ List.replicate 14 (.write (.step 0 .done)) ++ List.replicate 14 (.write (.step 1 .done))
  ++ List.replicate 2 (.write (.step 0 .done)) ++ List.replicate 2 (.write (.step 1 .done))
  ++ List.replicate 2 (.subscriber .done)

/-- The same on the embedded server, whose client also sends a ping. -/
def orderedPinged : List (EmbeddedAct sampleRepo) :=
  List.replicate 3 (.subscriber (.stream .done))
  ++ [.write (.start (sampleWrite "did:plc:alice" "a")),
    .write (.start (sampleWrite "did:plc:bob" "b")),
    .subscriber (.client (some ⟨opPing, [1]⟩) .done)]
  ++ List.replicate 14 (.write (.step 0 .done)) ++ List.replicate 14 (.write (.step 1 .done))
  ++ List.replicate 2 (.write (.step 0 .done)) ++ List.replicate 2 (.write (.step 1 .done))
  ++ List.replicate 2 (.subscriber (.stream .done))

theorem delivered_orderedRun : ∃ s t,
    Steps.run (Firehose.next 512) (Firehose.init sampleRepo (some 0)) orderedRun = some s
    ∧ s.glance = (true, true, 2, 2) ∧ Delivered 0 s
    ∧ Steps.run (EmbeddedFirehose.next 512) (EmbeddedFirehose.init sampleRepo (some 0))
      orderedPinged = some t
    ∧ t.served.glance = (true, true, 2, 2) ∧ Delivered 0 t.served := by
  have hs : (Steps.run (Firehose.next 512) (Firehose.init sampleRepo (some 0))
      orderedRun).map Firehose.glance = some (true, true, 2, 2) := by decide
  have ht : (Steps.run (EmbeddedFirehose.next 512) (EmbeddedFirehose.init sampleRepo (some 0))
      orderedPinged).map (fun t => t.served.glance) = some (true, true, 2, 2) := by decide
  obtain ⟨s, hrun, hs⟩ := Option.map_eq_some_iff.mp hs
  obtain ⟨t, hrun', ht⟩ := Option.map_eq_some_iff.mp ht
  obtain ⟨haxum, hembedded⟩ := delivered_iff_no_overtaking sampleRepo_laws 512 0
  obtain ⟨hflight, hdrained⟩ := quiet_of_glance hs
  obtain ⟨hflight', hdrained'⟩ := quiet_of_glance ht
  exact ⟨s, t, hrun, hs, (haxum _ s hrun hflight hdrained).mpr (by decide),
    hrun', ht, (hembedded _ t hrun' hflight' hdrained').mpr (by decide)⟩

end Stelyph
