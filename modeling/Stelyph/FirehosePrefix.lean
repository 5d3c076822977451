import Stelyph.FirehoseDelivery
import Stelyph.FirehoseLog

/-!
# A stream is a prefix of the log

If broadcasts happen in the order of the log, what a subscriber was sent
is at every moment a prefix of what it has coming, on both servers:
through the pages of the replay, the cutover, any number of lag
recoveries, and wherever the stream ends.

`PrefixInv` says for each phase how far the stream got. In the live loop
the argument is about the channel: a row between the last one sent and
the one received was broadcast before it, so the receiver has passed it.
-/

namespace Stelyph

section

variable {L : RepoLib}

def messageOf {Frame : Type} : OutFrame Frame → Option (FirehoseEvent Frame)
  | .message e => some e
  | .error _ _ => none

/-- The `#commit` frames of a stream, as the events they carry. Info and
error frames are left out. -/
def commitFrames {Frame : Type} (out : List (OutFrame Frame)) : List (FirehoseEvent Frame) :=
  out.filterMap messageOf

/-- The last seq a client received, or the cursor it came with. -/
def lastReceived {Frame : Type} (c : Nat) (frames : List (FirehoseEvent Frame)) : Nat :=
  (frames.getLast?.map fun e => e.seq).getD c

/-- The frames are the first events a reader with cursor `c` has coming,
and one that comes back with the last seq it received is told the rest. -/
structure IsPrefix (c : Nat) (rows : List (SeqRow L.Event))
    (frames : List (FirehoseEvent L.Frame)) : Prop where
  first : ∃ k, frames = (due c rows).take k
  increasing : frames.Pairwise fun a b => a.seq < b.seq
  resume : due c rows = frames ++ due (lastReceived c frames) rows
  known : lastReceived c frames = c ∨ lastReceived c frames ≤ maxSeq rows

/-! ## Windows and prefixes -/

theorem window_self (c : Nat) (rows : List (SeqRow L.Event)) : window c c rows = [] := by
  refine eventsWhere_eq_nil fun r _ hp => ?_
  simp only [Bool.and_eq_true, decide_eq_true_eq] at hp
  omega

theorem window_append {c n : Nat} {rows new : List (SeqRow L.Event)}
    (h : ∀ row ∈ new, n < row.seq) : window c n (rows ++ new) = window c n rows := by
  have hnew : window c n new = [] := by
    refine eventsWhere_eq_nil fun r hr hp => ?_
    have habove := h r hr
    simp only [Bool.and_eq_true, decide_eq_true_eq] at hp
    omega
  rw [window, eventsWhere_append]
  exact (congrArg _ hnew).trans (List.append_nil _)

theorem eventsWhere_increasing {p : Nat → Bool} {rows : List (SeqRow L.Event)}
    (h : Ascending rows) : (eventsWhere p rows).Pairwise fun a b => a.seq < b.seq := by
  refine List.Pairwise.filterMap _ (fun a b hlt e he e' he' => ?_) (h.filter _)
  rw [seq_of_eventOf he, seq_of_eventOf he']
  exact hlt

/-- The events up to any point are a prefix, and the last of them marks
the point. -/
theorem isPrefix_window {rows : List (SeqRow L.Event)} (hrows : Ascending rows) {c n : Nat}
    (hcn : c ≤ n) : IsPrefix c rows (window c n rows) := by
  have hinc := eventsWhere_increasing (p := fun q => decide (c < q) && decide (q ≤ n)) hrows
  have hsplit := due_eq_window_append hrows hcn
  have hfirst : ∃ k, window c n rows = (due c rows).take k := by
    refine ⟨(window c n rows).length, ?_⟩
    rw [hsplit, List.take_left]
  cases hlast : (window c n rows).getLast? with
  | none =>
      have hnil := List.getLast?_eq_none_iff.mp hlast
      have hrecv : lastReceived c (window c n rows) = c := by rw [lastReceived, hlast]; rfl
      refine ⟨hfirst, hinc, ?_, Or.inl hrecv⟩
      rw [hrecv, hnil, List.nil_append]
  | some e =>
      have hrecv : lastReceived c (window c n rows) = e.seq := by rw [lastReceived, hlast]; rfl
      obtain ⟨row, hrow, hp, hvalid, hev⟩ := mem_eventsWhere.mp (List.mem_of_getLast? hlast)
      simp only [Bool.and_eq_true, decide_eq_true_eq] at hp
      have hseq := seq_of_eventOf hev
      refine ⟨hfirst, hinc, ?_, Or.inr ?_⟩
      · -- nothing of the window is after its last event
        have hrest : window e.seq n rows = [] := by
          refine List.eq_nil_iff_forall_not_mem.mpr fun e' he' => ?_
          obtain ⟨row', hrow', hp', hvalid', hev'⟩ := mem_eventsWhere.mp he'
          simp only [Bool.and_eq_true, decide_eq_true_eq, ← seq_of_eventOf hev'] at hp'
          have hmem : e' ∈ window c n rows := mem_eventsWhere.mpr ⟨row', hrow',
            by simp only [Bool.and_eq_true, decide_eq_true_eq, ← seq_of_eventOf hev']; omega,
            hvalid', hev'⟩
          obtain ⟨init, hinit⟩ := List.getLast?_eq_some_iff.mp hlast
          change (window c n rows).Pairwise _ at hinc
          rw [hinit] at hmem hinc
          rcases List.mem_append.mp hmem with hmem | hmem
          · have hbelow := (List.pairwise_append.mp hinc).2.2 e' hmem e (List.mem_singleton_self e)
            omega
          · rw [List.mem_singleton.mp hmem] at hp'
            omega
        rw [hrecv, due_eq_window_append hrows (show e.seq ≤ n by omega), hrest, List.nil_append,
          hsplit]
      · rw [hrecv, hseq]
        exact le_maxSeq hrow

/-! ## The pages -/

/-- What a replay after `n` has to send: the rows above it that were not
invalidated, in the order of the log. -/
def pending (n : Nat) (rows : List (SeqRow L.Event)) : List (Nat × L.Event) :=
  (rows.filter fun r => decide (n < r.seq) && !r.invalidated).map fun r => (r.seq, r.event)

theorem backfillPage_eq_take {rows : List (SeqRow L.Event)} (h : Ascending rows) (n limit : Nat) :
    backfillPage rows n limit = (pending n rows).take limit := by
  have hsorted : (rows.filter fun r => decide (n < r.seq) && !r.invalidated).Pairwise
      fun a b => a.seq ≤ b.seq := (h.filter _).imp Nat.le_of_lt
  rw [backfillPage, hsorted.insertionSort_eq, pending, List.map_take]

/-- The first row that is pending, and what is pending after it. -/
theorem pending_cons {rows : List (SeqRow L.Event)} (h : Ascending rows) {n seq : Nat}
    {event : L.Event} {rest : List (Nat × L.Event)}
    (hpending : pending n rows = (seq, event) :: rest) :
    ∃ row ∈ rows, row.seq = seq ∧ row.event = event ∧ n < seq ∧ row.invalidated = false
      ∧ (∀ r ∈ rows, n < r.seq → r.seq < seq → r.invalidated = true) ∧ pending seq rows = rest := by
  obtain ⟨row, tail, hfilter, hhead, htail⟩ := List.map_eq_cons_iff.mp hpending
  obtain ⟨rfl, rfl⟩ := Prod.mk.injEq .. |>.mp hhead
  have hsub : (row :: tail).Pairwise fun a b => a.seq < b.seq := hfilter ▸ h.filter _
  have hbelow := (List.pairwise_cons.mp hsub).1
  have hmem : ∀ r, r ∈ row :: tail ↔ r ∈ rows ∧ n < r.seq ∧ r.invalidated = false := by
    intro r
    rw [← hfilter, List.mem_filter]
    simp
  obtain ⟨hrow, hlt, hvalid⟩ := (hmem row).mp List.mem_cons_self
  refine ⟨row, hrow, rfl, rfl, hlt, hvalid, ?_, ?_⟩
  · intro r hr hn hr'
    by_contra hnot
    have hin := (hmem r).mpr ⟨hr, hn, eq_false_of_ne_true hnot⟩
    rcases List.mem_cons.mp hin with rfl | hin
    · omega
    · have habove := hbelow r hin
      omega
  · -- the rows after `row.seq` are the tail of the rows after `n`
    have hfilter' : rows.filter (fun r => decide (row.seq < r.seq) && !r.invalidated)
        = (row :: tail).filter fun r => decide (row.seq < r.seq) := by
      rw [← hfilter, List.filter_filter]
      refine List.filter_congr fun r _ => ?_
      cases r.invalidated with
      | true => simp
      | false => simp; omega
    rw [pending, hfilter', List.filter_cons_of_neg (by simp), List.filter_eq_self.mpr, htail]
    intro r hr
    exact decide_eq_true (hbelow r hr)

/-! ## The invariant -/

/-- What holds of a subscriber that has passed the cursor check. -/
structure Streaming (c : Nat) (s : RepoStore L) (u : Subscriber L) : Prop where
  frames : commitFrames u.out = window c u.lastSentSeq s.rows
  start : c ≤ u.lastSentSeq
  within : u.lastSentSeq ≤ s.lastSeq
  place : u.rx ≤ s.sent.length

/-- The stream got as far as `n`, at the cursor or within the log. -/
def GotTo (c n : Nat) (s : RepoStore L) (u : Subscriber L) : Prop :=
  commitFrames u.out = window c n s.rows ∧ c ≤ n ∧ (n = c ∨ n ≤ s.lastSeq)

def PrefixInv (base c : Nat) (s : RepoStore L) (u : Subscriber L) : Prop :=
  match u.phase with
  | .closed => ∃ n, GotTo c n s u
  | .connecting => u.cursor = some c ∧ u.lastSentSeq = c ∧ u.out = []
  | .checking => u.rx ≤ s.sent.length ∧ u.lastSentSeq = c ∧ u.out = []
  | .fetching => Streaming c s u
  | .sending page => Streaming c s u ∧ page <+: pending u.lastSentSeq s.rows
  | .live => Streaming c s u ∧ (∀ e ∈ s.sent.take u.rx, e.seq ≤ u.lastSentSeq)
      ∧ ∀ row ∈ s.rows, u.lastSentSeq < row.seq → row.invalidated = false → base < row.seq

variable {base c capacity : Nat} {s s' : RepoStore L} {u u' : Subscriber L} {fate : SubFate}

theorem Streaming.gotTo (h : Streaming c s u) : GotTo c u.lastSentSeq s u :=
  ⟨h.frames, h.start, Or.inr h.within⟩

theorem GotTo.grows {n : Nat} (h : GotTo c n s u) (hs : Grows s s') : GotTo c n s' u := by
  obtain ⟨hframes, hcn, hn⟩ := h
  obtain ⟨new, hrows, hnew⟩ := hs.rows
  have hlast := hs.lastSeq
  refine ⟨?_, hcn, by omega⟩
  rw [hframes, hrows]
  rcases hn with rfl | hn
  · rw [window_self, window_self]
  · refine (window_append fun row hrow => ?_).symm
    have habove := hnew row hrow
    omega

theorem Streaming.grows (h : Streaming c s u) (hs : Grows s s') : Streaming c s' u := by
  obtain ⟨new, hsent⟩ := hs.sent
  have hlast := hs.lastSeq
  have hwithin := h.within
  have hplace := h.place
  refine ⟨(h.gotTo.grows hs).1, h.start, by omega, ?_⟩
  rw [hsent, List.length_append]
  omega

theorem pending_prefix_grows {n : Nat} {rows new : List (SeqRow L.Event)} :
    pending n rows <+: pending n (rows ++ new) := by
  rw [pending, pending, List.filter_append, List.map_append]
  exact List.prefix_append _ _

theorem PrefixInv.grows (hlog : LogInv base s) (h : PrefixInv base c s u) (hs : Grows s s') :
    PrefixInv base c s' u := by
  obtain ⟨rows, hrows, hnew⟩ := hs.rows
  obtain ⟨sent, hsent⟩ := hs.sent
  unfold PrefixInv at h ⊢
  cases hphase : u.phase with
  | closed =>
      simp only [hphase] at h ⊢
      obtain ⟨n, hn⟩ := h
      exact ⟨n, hn.grows hs⟩
  | connecting => simpa only [hphase] using h
  | checking =>
      simp only [hphase] at h ⊢
      refine ⟨?_, h.2⟩
      rw [hsent, List.length_append]
      exact Nat.le_add_right_of_le h.1
  | fetching =>
      simp only [hphase] at h ⊢
      exact h.grows hs
  | sending page =>
      simp only [hphase] at h ⊢
      exact ⟨h.1.grows hs, h.2.trans (hrows ▸ pending_prefix_grows)⟩
  | live =>
      simp only [hphase] at h ⊢
      obtain ⟨hu, hpast, hfresh⟩ := h
      refine ⟨hu.grows hs, ?_, ?_⟩
      · rw [hsent, List.take_append_of_le_length hu.place]
        exact hpast
      · intro row hrow hlt hvalid
        rw [hrows] at hrow
        rcases List.mem_append.mp hrow with hrow | hrow
        · exact hfresh row hrow hlt hvalid
        · exact Nat.lt_of_le_of_lt hlog.base_le (hnew row hrow)

/-! ## One step of a subscriber -/

theorem commitFrames_message {Frame : Type} (out : List (OutFrame Frame))
    (e : FirehoseEvent Frame) : commitFrames (out ++ [.message e]) = commitFrames out ++ [e] := by
  simp [commitFrames, messageOf]

theorem commitFrames_error {Frame : Type} (out : List (OutFrame Frame)) (name message : String) :
    commitFrames (out ++ [.error name message]) = commitFrames out := by
  simp [commitFrames, messageOf]

/-- A stream that has sent nothing. -/
theorem gotTo_start (hout : commitFrames u.out = []) : GotTo c c s u :=
  ⟨by rw [hout, window_self], Nat.le_refl _, Or.inl rfl⟩

/-- The next row of the stream: its event is sent if it has one. -/
theorem Streaming.next (hlog : LogInv base s) (h : Streaming c s u) {row : SeqRow L.Event}
    (hrow : row ∈ s.rows) (hlt : u.lastSentSeq < row.seq) (hvalid : row.invalidated = false)
    (hnext : ∀ r ∈ s.rows, u.lastSentSeq < r.seq → r.seq < row.seq →
      r.invalidated = true ∨ eventOf r = none)
    (hframes : commitFrames u'.out = commitFrames u.out ++ (eventOf row).toList)
    (hlast : u'.lastSentSeq = row.seq) (hplace : u'.rx ≤ s.sent.length) : Streaming c s u' := by
  have hstart := h.start
  refine ⟨?_, by omega, hlast ▸ hlog.within row hrow, hplace⟩
  rw [hframes, hlast, window_eq_window_append hlog.ascending hstart (Nat.le_of_lt hlt), h.frames,
    window_eq_of_next hlog.ascending hrow hlt hvalid hnext]

theorem prefix_checking (hlog : LogInv base s) (hrx : u.rx ≤ s.sent.length)
    (hlast : u.lastSentSeq = c) (hout : u.out = []) (hphase : u.phase = .checking)
    (h : u.step capacity s fate = some u') : PrefixInv base c s u' := by
  have hnone : commitFrames u.out = [] := by rw [hout]; rfl
  simp only [Subscriber.step, hphase] at h
  cases fate with
  | fails =>
      obtain rfl := Option.some.inj h
      exact ⟨c, gotTo_start hnone⟩
  | done =>
      dsimp only at h
      split_ifs at h with hmax
      · obtain rfl := Option.some.inj h
        exact ⟨c, gotTo_start ((commitFrames_error _ _ _).trans hnone)⟩
      · obtain rfl := Option.some.inj h
        have hle := maxSeq_le hlog.within
        refine ⟨?_, hlast.ge, by show u.lastSentSeq ≤ _; omega, hrx⟩
        show commitFrames u.out = window c u.lastSentSeq s.rows
        rw [hnone, hlast, window_self]

theorem prefix_fetching (hlog : LogInv base s) (hu : Streaming c s u) (hphase : u.phase = .fetching)
    (h : u.step capacity s fate = some u') : PrefixInv base c s u' := by
  have hmoved : ∀ phase, Streaming c s { u with phase := phase } := fun phase =>
    ⟨hu.frames, hu.start, hu.within, hu.place⟩
  simp only [Subscriber.step, hphase] at h
  cases fate with
  | fails =>
      obtain rfl := Option.some.inj h
      exact ⟨_, (hmoved .closed).gotTo⟩
  | done =>
      dsimp only at h
      split at h
      · rename_i hnil
        obtain rfl := Option.some.inj h
        -- an empty page: no valid row is left after the last one sent
        have hdone : ∀ row ∈ s.rows, u.lastSentSeq < row.seq → row.invalidated = true := by
          rw [backfillPage_eq_take hlog.ascending, List.take_eq_nil_iff] at hnil
          rcases hnil with hlimit | hnil
          · cases hlimit
          · intro row hrow hlt
            by_contra hvalid
            refine List.filter_eq_nil_iff.mp (List.map_eq_nil_iff.mp hnil) row hrow ?_
            simpa [hlt] using hvalid
        refine ⟨hmoved _, fun e he => ?_, fun row hrow hlt hvalid => ?_⟩
        · obtain ⟨row, hrow, -, hvalid, hev⟩ := hlog.sent e (List.mem_of_mem_take he)
          show e.seq ≤ u.lastSentSeq
          by_contra hgt
          have hinv := hdone row hrow (by rw [← seq_of_eventOf hev]; omega)
          rw [hvalid] at hinv
          cases hinv
        · cases hvalid.symm.trans (hdone row hrow hlt)
      · obtain rfl := Option.some.inj h
        refine ⟨hmoved _, ?_⟩
        rw [backfillPage_eq_take hlog.ascending]
        exact List.take_prefix _ _

theorem prefix_sendRow (hlog : LogInv base s) (hu : Streaming c s u) {seq : Nat} {event : L.Event}
    {rest : List (Nat × L.Event)} (hpage : (seq, event) :: rest <+: pending u.lastSentSeq s.rows) :
    PrefixInv base c s (u.sendRow seq event rest fate) := by
  obtain ⟨tail, htail⟩ := hpage
  obtain ⟨row, hrow, rfl, rfl, hlt, hvalid, hnext, hrest⟩ :=
    pending_cons hlog.ascending htail.symm
  have hskip : ∀ r ∈ s.rows, u.lastSentSeq < r.seq → r.seq < row.seq →
      r.invalidated = true ∨ eventOf r = none := fun r hr h₁ h₂ => Or.inl (hnext r hr h₁ h₂)
  have hleft : rest <+: pending row.seq s.rows := hrest ▸ List.prefix_append _ _
  unfold Subscriber.sendRow
  cases hdec : L.decodeBody row.event with
  | error e =>
      have hev : eventOf row = none := by rw [eventOf, hdec]; rfl
      exact ⟨hu.next hlog hrow hlt hvalid hskip (by rw [hev]; exact (List.append_nil _).symm) rfl
        hu.place, hleft⟩
  | ok body =>
      have hev : eventOf row = some ⟨row.seq, L.encodeFrame { body with seq := row.seq }⟩ := by
        rw [eventOf, hdec]
        rfl
      cases fate with
      | done =>
          exact ⟨hu.next hlog hrow hlt hvalid hskip (by rw [hev]; exact commitFrames_message _ _)
            rfl hu.place, hleft⟩
      | fails => exact ⟨_, hu.gotTo⟩

theorem prefix_receive (hlog : LogInv base s) (hu : Streaming c s u)
    (hpast : ∀ e ∈ s.sent.take u.rx, e.seq ≤ u.lastSentSeq)
    (hfresh : ∀ row ∈ s.rows, u.lastSentSeq < row.seq → row.invalidated = false → base < row.seq)
    (hphase : u.phase = .live) {e : FirehoseEvent L.Frame} (he : s.sent[u.rx]? = some e) :
    PrefixInv base c s (u.receive e fate) := by
  have hlt : u.rx < s.sent.length := (List.getElem?_eq_some_iff.mp he).1
  have htake : s.sent.take (u.rx + 1) = s.sent.take u.rx ++ [e] := by
    rw [List.take_add_one, he]
    rfl
  unfold Subscriber.receive
  split_ifs with hle
  · unfold PrefixInv
    simp only [hphase]
    refine ⟨⟨hu.frames, hu.start, hu.within, hlt⟩, fun e' he' => ?_, hfresh⟩
    rw [htake] at he'
    rcases List.mem_append.mp he' with he' | he'
    · exact hpast e' he'
    · rw [List.mem_singleton.mp he']
      exact hle
  · cases fate with
    | fails => exact ⟨_, hu.gotTo⟩
    | done =>
        obtain ⟨row, hrow, -, hvalid, hev⟩ := hlog.sent e (List.mem_of_getElem? he)
        have hseq := seq_of_eventOf hev
        -- a row in between was broadcast before `e`, and the receiver has passed it
        have hskip : ∀ r ∈ s.rows, u.lastSentSeq < r.seq → r.seq < row.seq →
            r.invalidated = true ∨ eventOf r = none := by
          intro r hr h₁ h₂
          by_contra hgood
          rw [not_or] at hgood
          have hbase := hfresh r hr h₁ (eq_false_of_ne_true hgood.1)
          obtain ⟨e', he', hseq'⟩ := hlog.ordered _ e he r hr hbase (by omega)
          have hle' := hpast e' he'
          omega
        unfold PrefixInv
        simp only [hphase]
        refine ⟨hu.next hlog hrow (by omega) hvalid hskip
          (by rw [hev]; exact commitFrames_message _ _) hseq hlt, fun e' he' => ?_, fun r hr h₁ hv => hfresh r hr ?_ hv⟩
        · rw [htake] at he'
          rcases List.mem_append.mp he' with he' | he'
          · have hle' := hpast e' he'
            show e'.seq ≤ e.seq
            omega
          · rw [List.mem_singleton.mp he']
        · have hlast : e.seq < r.seq := h₁
          omega

/-- Every step of the handler keeps the invariant. -/
theorem prefix_step (hlog : LogInv base s) (hu : PrefixInv base c s u)
    (h : u.step capacity s fate = some u') : PrefixInv base c s u' := by
  unfold PrefixInv at hu
  cases hphase : u.phase with
  | closed => simp [Subscriber.step, hphase] at h
  | connecting =>
      simp only [hphase] at hu
      simp only [Subscriber.step, hphase] at h
      obtain rfl := Option.some.inj h
      obtain ⟨hcursor, hlast, hout⟩ := hu
      rw [hcursor]
      exact ⟨Nat.le_refl _, hlast, hout⟩
  | checking =>
      simp only [hphase] at hu
      exact prefix_checking hlog hu.1 hu.2.1 hu.2.2 hphase h
  | fetching =>
      simp only [hphase] at hu
      exact prefix_fetching hlog hu hphase h
  | sending page =>
      simp only [hphase] at hu
      simp only [Subscriber.step, hphase] at h
      cases page with
      | nil =>
          obtain rfl := Option.some.inj h
          exact ⟨hu.1.frames, hu.1.start, hu.1.within, hu.1.place⟩
      | cons x rest =>
          obtain rfl := Option.some.inj h
          exact prefix_sendRow hlog hu.1 hu.2
  | live =>
      simp only [hphase] at hu
      obtain ⟨hu, hpast, hfresh⟩ := hu
      simp only [Subscriber.step, hphase] at h
      split_ifs at h with hcap
      · obtain rfl := Option.some.inj h
        unfold Subscriber.lagged
        split_ifs
        · exact ⟨_, (commitFrames_error _ _ _).trans hu.frames, hu.start, Or.inr hu.within⟩
        · exact ⟨hu.frames, hu.start, hu.within, Nat.le_refl _⟩
      · obtain ⟨e, he, rfl⟩ := Option.map_eq_some_iff.mp h
        exact prefix_receive hlog hu hpast hfresh hphase he

/-- A stream can end anywhere. -/
theorem PrefixInv.gotTo (h : PrefixInv base c s u) : ∃ n, GotTo c n s u := by
  unfold PrefixInv at h
  split at h
  · exact h
  · exact ⟨c, gotTo_start (by rw [h.2.2]; rfl)⟩
  · exact ⟨c, gotTo_start (by rw [h.2.2]; rfl)⟩
  · exact ⟨_, h.gotTo⟩
  · exact ⟨_, h.1.gotTo⟩
  · exact ⟨_, h.1.gotTo⟩

theorem PrefixInv.isPrefix (hlog : LogInv base s) (h : PrefixInv base c s u) :
    IsPrefix c s.rows (commitFrames u.out) := by
  obtain ⟨n, hframes, hcn, -⟩ := h.gotTo
  rw [hframes]
  exact isPrefix_window hlog.ascending hcn

/-! ## The two servers -/

/-- A server started on a log, with a subscriber that comes with a
cursor. -/
def Firehose.startOn (s₀ : RepoStore L) (c : Nat) : Firehose L :=
  ⟨Pool.init s₀, Subscriber.connect L (some c)⟩

def EmbeddedFirehose.startOn (s₀ : RepoStore L) (c : Nat) : EmbeddedFirehose L :=
  ⟨Pool.init s₀, WsSubscriber.connect L (some c)⟩

/-- The steps of the writers broadcast in order. -/
def Firehose.inOrder (base : Nat) (s : Firehose L) : FirehoseAct L → Bool
  | .write a => Stelyph.inOrder base s.pool a
  | .subscriber _ => true

def EmbeddedFirehose.inOrder (base : Nat) (s : EmbeddedFirehose L) : EmbeddedAct L → Bool
  | .write a => Stelyph.inOrder base s.pool a
  | .subscriber _ => true

/-- A log some process left, before this one has broadcast anything: its
rows are in the order of their seqs and none is above the counter. -/
structure LeftLog (s₀ : RepoStore L) : Prop where
  ascending : Ascending s₀.rows
  within : ∀ row ∈ s₀.rows, row.seq ≤ s₀.lastSeq
  silent : s₀.sent = []

theorem LeftLog.logFrom {s₀ : RepoStore L} (h : LeftLog s₀) :
    LogFrom s₀.lastSeq (Pool.init s₀ : ApplyPool L) := by
  refine ⟨⟨h.ascending, h.within, Nat.le_refl _, ?_, ?_⟩, fun i q p hi => ?_⟩
  · intro e he
    rw [show (Pool.init s₀ : ApplyPool L).store.sent = [] from h.silent] at he
    cases he
  · intro j e hj
    rw [show (Pool.init s₀ : ApplyPool L).store.sent = [] from h.silent] at hj
    cases hj
  · simp [Pool.init] at hi

/-- The writers and a stream. -/
def FeedInv (base c : Nat) (P : ApplyPool L) (u : Subscriber L) : Prop :=
  LogFrom base P ∧ PrefixInv base c P.store u

variable {P P' : ApplyPool L}

theorem FeedInv.write (hL : RepoLaws L) (h : FeedInv base c P u)
    {a : PoolAct (ApplyOne L) WriterFate} (horder : Stelyph.inOrder base P a = true)
    (hnext : Pool.next (writerMachine L) ApplyOne.handler P a = some P') : FeedInv base c P' u := by
  obtain ⟨hP', hgrows⟩ := logFrom_next hL h.1 horder hnext
  exact ⟨hP', h.2.grows h.1.log hgrows⟩

theorem FeedInv.embedded (h : FeedInv base c P u) {v v' : WsSubscriber L} {ev : WsEvent}
    (hv : v.stream = u) (hstep : v.step capacity P.store ev = some v') :
    FeedInv base c P v'.stream := by
  refine ⟨h.1, ?_⟩
  rcases WsSubscriber.step_stream hstep with ⟨fate, hs⟩ | hsame | hclosed
  · rw [hv] at hs
    exact prefix_step h.1.log h.2 hs
  · rw [hsame, hv]
    exact h.2
  · rw [hclosed, hv]
    exact h.2.gotTo

theorem feedInv_start {s₀ : RepoStore L} (h₀ : LeftLog s₀) :
    FeedInv s₀.lastSeq c (Pool.init s₀) (Subscriber.connect L (some c)) :=
  ⟨h₀.logFrom, rfl, rfl, rfl⟩

theorem feedInv_run (hL : RepoLaws L) {s₀ : RepoStore L} (h₀ : LeftLog s₀)
    {as : List (FirehoseAct L)} {s : Firehose L}
    (hrun : Steps.run (Firehose.next capacity) (Firehose.startOn s₀ c) as = some s)
    (horder : Steps.Along (Firehose.next capacity)
      (fun s a => Firehose.inOrder s₀.lastSeq s a = true) (Firehose.startOn s₀ c) as) :
    FeedInv s₀.lastSeq c s.pool s.sub := by
  refine Steps.run_inv_along (I := fun s => FeedInv s₀.lastSeq c s.pool s.sub) ?_
    (feedInv_start h₀) horder hrun
  intro s a s' hs hok hnext
  cases a with
  | write a =>
      obtain ⟨P', hP', rfl⟩ := Option.map_eq_some_iff.mp hnext
      exact hs.write hL hok hP'
  | subscriber fate =>
      obtain ⟨u', hu', rfl⟩ := Option.map_eq_some_iff.mp hnext
      exact ⟨hs.1, prefix_step hs.1.log hs.2 hu'⟩

theorem feedInv_embedded_run (hL : RepoLaws L) {s₀ : RepoStore L} (h₀ : LeftLog s₀)
    {as : List (EmbeddedAct L)} {s : EmbeddedFirehose L}
    (hrun : Steps.run (EmbeddedFirehose.next capacity) (EmbeddedFirehose.startOn s₀ c) as = some s)
    (horder : Steps.Along (EmbeddedFirehose.next capacity)
      (fun s a => EmbeddedFirehose.inOrder s₀.lastSeq s a = true)
      (EmbeddedFirehose.startOn s₀ c) as) :
    FeedInv s₀.lastSeq c s.pool s.sub.stream := by
  refine Steps.run_inv_along (I := fun s => FeedInv s₀.lastSeq c s.pool s.sub.stream) ?_
    (feedInv_start h₀) horder hrun
  intro s a s' hs hok hnext
  cases a with
  | write a =>
      obtain ⟨P', hP', rfl⟩ := Option.map_eq_some_iff.mp hnext
      exact hs.write hL hok hP'
  | subscriber ev =>
      obtain ⟨v', hv', rfl⟩ := Option.map_eq_some_iff.mp hnext
      exact hs.embedded rfl hv'

/-- At every moment of every run in which broadcasts happen in seq order,
the `#commit` frames sent to a subscriber are a prefix of the events after
its cursor, on either server, and it can resume from the last one. -/
theorem stream_isPrefix (hL : RepoLaws L) {s₀ : RepoStore L} (h₀ : LeftLog s₀) (capacity c : Nat) :
    (∀ (as : List (FirehoseAct L)) s,
      Steps.run (Firehose.next capacity) (Firehose.startOn s₀ c) as = some s →
      Steps.Along (Firehose.next capacity)
        (fun s a => Firehose.inOrder s₀.lastSeq s a = true) (Firehose.startOn s₀ c) as →
      IsPrefix c s.pool.store.rows (commitFrames s.sub.out))
    ∧ ∀ (as : List (EmbeddedAct L)) s,
      Steps.run (EmbeddedFirehose.next capacity) (EmbeddedFirehose.startOn s₀ c) as = some s →
      Steps.Along (EmbeddedFirehose.next capacity)
        (fun s a => EmbeddedFirehose.inOrder s₀.lastSeq s a = true)
        (EmbeddedFirehose.startOn s₀ c) as →
      IsPrefix c s.pool.store.rows
        (commitFrames (s.sub.out.filterMap WsSubscriber.dataFrame)) := by
  constructor
  · intro as s hrun horder
    have hs := feedInv_run hL h₀ hrun horder
    exact hs.2.isPrefix hs.1.log
  · intro as s hrun horder
    have hs := feedInv_embedded_run hL h₀ hrun horder
    exact hs.2.isPrefix hs.1.log

end

/-! ## A log with an invalidated row -/

def leftEvent : sampleRepo.Event :=
  commitBody (L := sampleRepo) ⟨"did:plc:alice", ()⟩ .leaf "0" none (.leaf, []) [] ""

def leftStore : RepoStore sampleRepo :=
  { RepoStore.empty sampleRepo with
    rows := [⟨4, "did:plc:alice", leftEvent, true⟩]
    lastSeq := 4 }

theorem leftStore_left : LeftLog leftStore where
  ascending := List.pairwise_singleton _ _
  within row hrow := by
    rw [List.mem_singleton.mp hrow]
    exact Nat.le_refl 4
  silent := rfl

/-- The subscriber goes live, alice writes, and the event is relayed. -/
def relayRun : List (FirehoseAct sampleRepo) :=
  List.replicate 3 (.subscriber .done) ++ [.write (.start (sampleWrite "did:plc:alice" "a"))]
  ++ List.replicate 16 (.write (.step 0 .done)) ++ [.subscriber .done]

/-- The same on the embedded server, whose client also sends a ping. -/
def pingedRun : List (EmbeddedAct sampleRepo) :=
  List.replicate 3 (.subscriber (.stream .done))
  ++ [.write (.start (sampleWrite "did:plc:alice" "a")),
    .subscriber (.client (some ⟨opPing, []⟩) .done)]
  ++ List.replicate 16 (.write (.step 0 .done)) ++ [.subscriber (.stream .done)]

theorem stream_isPrefix_relayed : ∃ s t,
    Steps.run (Firehose.next 512) (Firehose.startOn leftStore 0) relayRun = some s
    ∧ (commitFrames s.sub.out).length = 1
    ∧ Steps.run (EmbeddedFirehose.next 512) (EmbeddedFirehose.startOn leftStore 0) pingedRun
      = some t
    ∧ t.sub.out.length = 2
    ∧ IsPrefix 0 s.pool.store.rows (commitFrames s.sub.out)
    ∧ IsPrefix 0 t.pool.store.rows
      (commitFrames (t.sub.out.filterMap WsSubscriber.dataFrame)) := by
  have hs : (Steps.run (Firehose.next 512) (Firehose.startOn leftStore 0) relayRun).map
      (fun s => (commitFrames s.sub.out).length) = some 1 := by decide
  have ht : (Steps.run (EmbeddedFirehose.next 512) (EmbeddedFirehose.startOn leftStore 0)
      pingedRun).map (fun t => t.sub.out.length) = some 2 := by decide
  obtain ⟨s, hrun, hlen⟩ := Option.map_eq_some_iff.mp hs
  obtain ⟨t, hrun', hlen'⟩ := Option.map_eq_some_iff.mp ht
  obtain ⟨haxum, hembedded⟩ := stream_isPrefix sampleRepo_laws leftStore_left 512 0
  exact ⟨s, t, hrun, hlen, hrun', hlen', haxum _ s hrun (by decide),
    hembedded _ t hrun' (by decide)⟩

end Stelyph
