import Stelyph.FirehosePublish

/-!
# A log that may have begun before the server did

A server is started on a log another process wrote, with rows that were
invalidated or do not decode. `due c` are the events a reader with
cursor `c` has coming, and `window c n` those of them up to `n`.
`LogFrom` is what the writers of this server keep true of such a log and
of the channel, as long as they broadcast in the order of the log.
-/

namespace Stelyph

section

variable {L : RepoLib}

/-! ## The events of a range of the log -/

/-- The events of the rows with a seq in `p` that are not invalidated and
decode. -/
def eventsWhere (p : Nat → Bool) (rows : List (SeqRow L.Event)) : List (FirehoseEvent L.Frame) :=
  (rows.filter fun r => p r.seq && !r.invalidated).filterMap eventOf

def due (c : Nat) (rows : List (SeqRow L.Event)) : List (FirehoseEvent L.Frame) :=
  eventsWhere (fun q => decide (c < q)) rows

def window (c n : Nat) (rows : List (SeqRow L.Event)) : List (FirehoseEvent L.Frame) :=
  eventsWhere (fun q => decide (c < q) && decide (q ≤ n)) rows

/-- The seqs increase along the log. -/
def Ascending (rows : List (SeqRow L.Event)) : Prop := rows.Pairwise fun a b => a.seq < b.seq

theorem eventsWhere_congr {p q : Nat → Bool} {rows : List (SeqRow L.Event)}
    (h : ∀ r ∈ rows, p r.seq = q r.seq) : eventsWhere p rows = eventsWhere q rows := by
  unfold eventsWhere
  rw [List.filter_congr fun r hr => by rw [h r hr]]

theorem eventsWhere_append (p : Nat → Bool) (rows new : List (SeqRow L.Event)) :
    eventsWhere p (rows ++ new) = eventsWhere p rows ++ eventsWhere p new := by
  simp [eventsWhere]

theorem mem_eventsWhere {p : Nat → Bool} {rows : List (SeqRow L.Event)}
    {e : FirehoseEvent L.Frame} :
    e ∈ eventsWhere p rows ↔
      ∃ row ∈ rows, p row.seq = true ∧ row.invalidated = false ∧ eventOf row = some e := by
  simp [eventsWhere, and_assoc]

theorem eventsWhere_eq_nil {p : Nat → Bool} {rows : List (SeqRow L.Event)}
    (h : ∀ r ∈ rows, p r.seq = true → r.invalidated = true ∨ eventOf r = none) :
    eventsWhere p rows = [] := by
  refine List.eq_nil_iff_forall_not_mem.mpr fun e he => ?_
  obtain ⟨row, hrow, hp, hvalid, hev⟩ := mem_eventsWhere.mp he
  rcases h row hrow hp with hinv | hnone
  · rw [hvalid] at hinv
    cases hinv
  · rw [hnone] at hev
    cases hev

/-- A range cut in two, the lower part first. -/
theorem eventsWhere_split {p q r : Nat → Bool} {rows : List (SeqRow L.Event)}
    (hrows : Ascending rows) (hor : ∀ n, r n = (p n || q n))
    (hlt : ∀ a b, p a = true → q b = true → a < b) :
    eventsWhere r rows = eventsWhere p rows ++ eventsWhere q rows := by
  induction rows with
  | nil => rfl
  | cons row rows ih =>
      obtain ⟨hrow, hrows⟩ := List.pairwise_cons.mp hrows
      have hcons : ∀ t : Nat → Bool, eventsWhere t (row :: rows)
          = eventsWhere t [row] ++ eventsWhere t rows := fun t =>
        eventsWhere_append t [row] rows
      have hout : ∀ t : Nat → Bool, t row.seq = false → eventsWhere t [row] = [] := by
        intro t ht
        simp [eventsWhere, ht]
      cases hq : q row.seq with
      | false =>
          have hsame : eventsWhere r [row] = eventsWhere p [row] := by
            refine eventsWhere_congr fun x hx => ?_
            rw [List.mem_singleton.mp hx, hor, hq, Bool.or_false]
          rw [hcons r, hcons p, hcons q, hout q hq, ih hrows, hsame, List.nil_append,
            List.append_assoc]
      | true =>
          -- from here on every seq is above `row`'s, so none is in the lower part
          have hnone : ∀ x ∈ row :: rows, p x.seq = false := by
            intro x hx
            rw [Bool.eq_false_iff]
            intro hp
            have hbelow := hlt _ _ hp hq
            rcases List.mem_cons.mp hx with rfl | hx
            · omega
            · have habove := hrow x hx
              omega
          have hp : eventsWhere p (row :: rows) = [] :=
            eventsWhere_eq_nil fun x hx h => absurd (hnone x hx ▸ h) Bool.false_ne_true
          rw [hp, List.nil_append]
          refine eventsWhere_congr fun x hx => ?_
          rw [hor, hnone x hx, Bool.false_or]

theorem due_eq_window_append {rows : List (SeqRow L.Event)} (hrows : Ascending rows) {c n : Nat}
    (hcn : c ≤ n) : due c rows = window c n rows ++ due n rows := by
  refine eventsWhere_split hrows (fun q => ?_) fun a b ha hb => ?_
  · rw [← Bool.decide_and, ← Bool.decide_or]
    exact decide_eq_decide.mpr (by omega)
  · simp only [Bool.and_eq_true, decide_eq_true_eq] at ha hb
    omega

theorem window_eq_window_append {rows : List (SeqRow L.Event)} (hrows : Ascending rows)
    {c n m : Nat} (hcn : c ≤ n) (hnm : n ≤ m) :
    window c m rows = window c n rows ++ window n m rows := by
  refine eventsWhere_split hrows (fun q => ?_) fun a b ha hb => ?_
  · rw [← Bool.decide_and, ← Bool.decide_and, ← Bool.decide_and, ← Bool.decide_or]
    exact decide_eq_decide.mpr (by omega)
  · simp only [Bool.and_eq_true, decide_eq_true_eq] at ha hb
    omega

/-- Up to a row that nothing decodable lies before, the window has that
row's event and no other. -/
theorem window_eq_of_next {rows : List (SeqRow L.Event)} (hrows : Ascending rows)
    {row : SeqRow L.Event} {n : Nat} (hrow : row ∈ rows) (hlt : n < row.seq)
    (hvalid : row.invalidated = false)
    (hnext : ∀ r ∈ rows, n < r.seq → r.seq < row.seq → r.invalidated = true ∨ eventOf r = none) :
    window n row.seq rows = (eventOf row).toList := by
  obtain ⟨pre, post, rfl⟩ := List.append_of_mem hrow
  obtain ⟨-, hpost, hcross⟩ := List.pairwise_append.mp hrows
  have hpre : window n row.seq pre = [] := by
    refine eventsWhere_eq_nil fun r hr hp => ?_
    simp only [Bool.and_eq_true, decide_eq_true_eq] at hp
    exact hnext r (List.mem_append_left _ hr) hp.1 (hcross r hr row List.mem_cons_self)
  have hrest : window n row.seq post = [] := by
    refine eventsWhere_eq_nil fun r hr hp => ?_
    simp only [Bool.and_eq_true, decide_eq_true_eq] at hp
    have habove := (List.pairwise_cons.mp hpost).1 r hr
    omega
  have hone : window n row.seq [row] = (eventOf row).toList := by
    cases hev : eventOf row <;> simp [window, eventsWhere, hlt, hvalid, hev]
  calc window n row.seq (pre ++ ([row] ++ post))
      = window n row.seq pre ++ (window n row.seq [row] ++ window n row.seq post) := by
        rw [window, eventsWhere_append, eventsWhere_append]
        rfl
    _ = (eventOf row).toList := by rw [hpre, hrest, hone, List.nil_append, List.append_nil]

/-! ## The log and the channel of a server started on a log -/

/-- The event of a row this server wrote. -/
def Fresh (base : Nat) (rows : List (SeqRow L.Event)) (e : FirehoseEvent L.Frame) : Prop :=
  ∃ row ∈ rows, base < row.seq ∧ row.invalidated = false ∧ eventOf row = some e

/-- `base` is the last seq of the log the server was started on. -/
structure LogInv (base : Nat) (s : RepoStore L) : Prop where
  ascending : Ascending s.rows
  within : ∀ row ∈ s.rows, row.seq ≤ s.lastSeq
  base_le : base ≤ s.lastSeq
  sent : ∀ e ∈ s.sent, Fresh base s.rows e
  /-- What is in the channel came after all the smaller ones. -/
  ordered : ∀ (j : Nat) e, s.sent[j]? = some e → ∀ row ∈ s.rows, base < row.seq →
    row.seq < e.seq → ∃ e' ∈ s.sent.take j, e'.seq = row.seq

/-- What a step of the writers does, as a subscriber sees it. -/
structure Grows (s s' : RepoStore L) : Prop where
  rows : ∃ new, s'.rows = s.rows ++ new ∧ ∀ row ∈ new, s.lastSeq < row.seq
  lastSeq : s.lastSeq ≤ s'.lastSeq
  sent : ∃ new, s'.sent = s.sent ++ new

variable {base : Nat} {s s' : RepoStore L}

theorem Fresh.mono {rows new : List (SeqRow L.Event)} {e : FirehoseEvent L.Frame}
    (h : Fresh base rows e) : Fresh base (rows ++ new) e := by
  obtain ⟨row, hrow, hrest⟩ := h
  exact ⟨row, List.mem_append_left _ hrow, hrest⟩

theorem LogInv.same (h : LogInv base s) (hrows : s'.rows = s.rows)
    (hlast : s'.lastSeq = s.lastSeq) (hsent : s'.sent = s.sent) :
    LogInv base s' ∧ Grows s s' := by
  refine ⟨⟨hrows ▸ h.ascending, ?_, hlast ▸ h.base_le, ?_, ?_⟩, ⟨[], ?_, ?_⟩, hlast.ge, [], ?_⟩
  · rw [hrows, hlast]
    exact h.within
  · rw [hrows, hsent]
    exact h.sent
  · rw [hrows, hsent]
    exact h.ordered
  · rw [hrows, List.append_nil]
  · exact fun _ hrow => (List.not_mem_nil hrow).elim
  · rw [hsent, List.append_nil]

theorem LogInv.commit (h : LogInv base s) (blocks : List (L.Cid × L.Block)) (did : String)
    (root : L.Cid) (event : L.Event) :
    LogInv base (s.commitBlocks blocks did root event)
      ∧ Grows s (s.commitBlocks blocks did root event) := by
  have hmem : ∀ row, row ∈ (s.commitBlocks blocks did root event).rows ↔
      row ∈ s.rows ∨ row = ⟨s.lastSeq + 1, did, event, false⟩ := by
    intro row
    rw [RepoStore.commitBlocks, List.mem_append, List.mem_singleton]
  refine ⟨⟨?_, ?_, ?_, ?_, ?_⟩, ⟨_, rfl, ?_⟩, Nat.le_succ _, [], (List.append_nil _).symm⟩
  · refine List.pairwise_append.mpr ⟨h.ascending, List.pairwise_singleton _ _, ?_⟩
    intro a ha b hb
    rw [List.mem_singleton.mp hb]
    exact Nat.lt_succ_of_le (h.within a ha)
  · intro row hrow
    rcases (hmem row).mp hrow with hrow | rfl
    · exact Nat.le_succ_of_le (h.within row hrow)
    · exact Nat.le_refl _
  · exact Nat.le_succ_of_le h.base_le
  · exact fun e he => (h.sent e he).mono
  · intro j e hj row hrow hbase hlt
    rcases (hmem row).mp hrow with hrow | rfl
    · exact h.ordered j e hj row hrow hbase hlt
    · -- what was sent has the seq of an older row
      obtain ⟨old, hold, -, -, hev⟩ := h.sent e (List.mem_of_getElem? hj)
      have hle := h.within old hold
      rw [← seq_of_eventOf hev] at hle
      have hgt : s.lastSeq + 1 < e.seq := hlt
      omega
  · intro row hrow
    rw [List.mem_singleton.mp hrow]
    exact Nat.lt_succ_self _

theorem LogInv.broadcast (h : LogInv base s) {e : FirehoseEvent L.Frame}
    (hfresh : Fresh base s.rows e) (horder : ∀ row ∈ s.rows, base < row.seq → row.seq < e.seq →
      ∃ e' ∈ s.sent, e'.seq = row.seq) :
    LogInv base { s with sent := s.sent ++ [e] } ∧ Grows s { s with sent := s.sent ++ [e] } := by
  refine ⟨⟨h.ascending, h.within, h.base_le, ?_, ?_⟩,
    ⟨[], (List.append_nil _).symm, fun _ hrow => (List.not_mem_nil hrow).elim⟩,
    Nat.le_refl _, [e], rfl⟩
  · intro e' he'
    rcases List.mem_append.mp he' with he' | he'
    · exact h.sent e' he'
    · rw [List.mem_singleton.mp he']
      exact hfresh
  · intro j e' hj row hrow hbase hlt
    replace hj : (s.sent ++ [e])[j]? = some e' := hj
    show ∃ e'' ∈ (s.sent ++ [e]).take j, e''.seq = row.seq
    rcases Nat.lt_or_ge j s.sent.length with hin | hge
    · rw [List.getElem?_append_left hin] at hj
      rw [List.take_append_of_le_length (Nat.le_of_lt hin)]
      exact h.ordered j e' hj row hrow hbase hlt
    · rw [List.getElem?_append_right hge, List.getElem?_singleton] at hj
      split at hj
      · obtain rfl := Option.some.inj hj
        obtain ⟨e'', he'', hseq⟩ := horder row hrow hbase hlt
        refine ⟨e'', ?_, hseq⟩
        rw [List.take_append]
        exact List.mem_append_left _ (by rwa [List.take_of_length_le hge])
      · cases hj

/-! ## The writers -/

/-- The log and the channel are in order, and a writer is about to
broadcast the event of a row it wrote or publishes what it will commit. -/
structure LogFrom (base : Nat) (P : ApplyPool L) : Prop where
  log : LogInv base P.store
  tasks : ∀ (i : Nat) q p, P.tasks[i]? = some (q, p) → Publishes p ∨
    ∃ e k, p = .op (.send e) k ∧ (∀ r, Publishes (k r)) ∧ Fresh base P.store.rows e

/-- Broadcasts happen in seq order: what is broadcast now comes after the
broadcast of every smaller event of this server. -/
def inOrder (base : Nat) (P : ApplyPool L) : PoolAct (ApplyOne L) WriterFate → Bool
  | .start _ => true
  | .step i _ =>
      match P.tasks[i]? with
      | some (_, .op (.send e) _) =>
          P.store.rows.all fun r => !(decide (base < r.seq) && decide (r.seq < e.seq))
            || P.store.sent.any fun e' => e'.seq == r.seq
      | _ => true

variable {P P' : ApplyPool L}

/-- A writer moved on to a program that publishes, or to the broadcast of
a row of the new log. -/
theorem LogFrom.move (h : LogFrom base P) {i : Nat} {q : ApplyOne L}
    {p : RepoProg L (WriteOutcome L.Cid)} {w : World (writerSig L) (RepoStore L)}
    (hlog : LogInv base w.store) (hgrows : Grows P.store w.store)
    (hp : Publishes p ∨
      ∃ e k, p = .op (.send e) k ∧ (∀ r, Publishes (k r)) ∧ Fresh base w.store.rows e) :
    LogFrom base ⟨w, P.tasks.set i (q, p)⟩ := by
  refine ⟨hlog, fun j q' p' hj => ?_⟩
  rcases Pool.getElem?_set_cases hj with ⟨-, heq⟩ | ⟨-, hj⟩
  · obtain ⟨rfl, rfl⟩ := Prod.mk.injEq .. |>.mp heq
    exact hp
  · rcases h.tasks j q' p' hj with hp' | ⟨e, k, hop, hk, hfresh⟩
    · exact Or.inl hp'
    · obtain ⟨new, hrows, -⟩ := hgrows.rows
      exact Or.inr ⟨e, k, hop, hk, by rw [hrows]; exact hfresh.mono⟩

theorem logFrom_next (hL : RepoLaws L) {a : PoolAct (ApplyOne L) WriterFate}
    (hP : LogFrom base P) (horder : inOrder base P a = true)
    (h : Pool.next (writerMachine L) ApplyOne.handler P a = some P') :
    LogFrom base P' ∧ Grows P.store P'.store := by
  rcases Pool.next_cases h with ⟨q, rfl, rfl⟩ | ⟨i, c, q, o, k, r, s, rfl, ht, hexec, rfl⟩
  · refine ⟨⟨hP.log, fun j q' p hj => ?_⟩, (hP.log.same rfl rfl rfl).2⟩
    rcases Pool.getElem?_append_cases hj with ⟨-, heq⟩ | hj
    · obtain ⟨rfl, rfl⟩ := Prod.mk.injEq .. |>.mp heq
      exact Or.inl (publishes_applyOne hL _ _ _)
    · exact hP.tasks j q' p hj
  · replace hexec : o.exec i P.store c = some (r, s) := hexec
    rcases hP.tasks i q _ ht with hp | ⟨e, k', hop, hk, hfresh⟩
    · generalize hprog : Prog.op (S := writerSig L) o k = p at hp
      cases hp with
      | ret a => cases hprog
      | fail e => cases hprog
      | op ho hk =>
          cases hprog
          obtain ⟨hrows, hlast, hsent⟩ := ho.exec hexec
          obtain ⟨hlog, hgrows⟩ := hP.log.same hrows hlast hsent
          exact ⟨hP.move hlog hgrows (Or.inl (hk r)), hgrows⟩
      | @commit blocks did root event _ e _ herr hok he hk =>
          cases hprog
          cases c with
          | done =>
              obtain ⟨rfl, rfl⟩ := Prod.mk.injEq .. |>.mp (Option.some.inj hexec)
              obtain ⟨hlog, hgrows⟩ := hP.log.commit blocks did root event
              refine ⟨hP.move hlog hgrows (Or.inr ⟨_, _, hok _, hk _, ?_⟩), hgrows⟩
              exact ⟨_, List.mem_append_right _ (List.mem_singleton_self _),
                Nat.lt_succ_of_le hP.log.base_le, rfl, he _⟩
          | fault msg =>
              obtain ⟨rfl, rfl⟩ := Prod.mk.injEq .. |>.mp (Option.some.inj hexec)
              have hgrows : Grows P.store P.store := (hP.log.same rfl rfl rfl).2
              exact ⟨hP.move hP.log hgrows (Or.inl (herr _)), hgrows⟩
    · cases hop
      obtain ⟨rfl, rfl⟩ := Prod.mk.injEq .. |>.mp (Option.some.inj hexec)
      obtain ⟨hlog, hgrows⟩ := hP.log.broadcast hfresh fun row hrow hbase hlt => by
        simp only [inOrder, ht, List.all_eq_true, Bool.or_eq_true, Bool.not_eq_true',
          Bool.and_eq_false_iff, decide_eq_false_iff_not, List.any_eq_true, beq_iff_eq] at horder
        rcases horder row hrow with hout | hsent
        · omega
        · exact hsent
      exact ⟨hP.move hlog hgrows (Or.inl (hk ())), hgrows⟩

end

end Stelyph
