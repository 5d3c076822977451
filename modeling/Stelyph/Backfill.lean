import Stelyph.Lib.Paging
import Stelyph.Lib.Prog
import Stelyph.SqliteBackend
import Stelyph.WsFraming

/-!
# The backfill loop

`run_backfill` of `rust-pds/src/firehose/subscribe.rs` and of
`rust-core/src/server/firehose_ws.rs`: page after page of the event log,
from the last number seen, until a page is empty. A row that does not
decode is passed over, and moves the cursor all the same.

The loop has no bound of its own. `runBackfill` is given fuel, and fails
only where that runs out; with one page more than the pending rows fill
it never does (`backfill_covers`).
-/

namespace Stelyph

open Backend

/-! ## The loop -/

/-- The codec of commit bodies. A stored body has no number yet; it gets
that of its row when it is sent. -/
structure BodyCodec (Body : Type) where
  fromSlice : Bytes → Except String Body
  setSeq : Int → Body → Body
  encodeMessageFrame : String → Body → Bytes

inductive BackfillOp (Message : Type) where
  | backfillPage (afterSeq limit : Int)
  | send (message : Message)

abbrev BackfillOp.Ret {Message : Type} : BackfillOp Message → Type
  | .backfillPage _ _ => Except StorageError (List (Int × Bytes))
  | .send _ => Except IoError Unit

abbrev backfillSig (Message : Type) : Sig := ⟨BackfillOp Message, BackfillOp.Ret⟩

/-- `fail` is that the fuel has run out. -/
abbrev BackfillProg (Message α : Type) := Prog (backfillSig Message) Unit α

def backfillPageSize : Int := 500

section

variable {Body Message : Type} (B : BodyCodec Body) (wrap : Bytes → Message)

/-- The loop over a page. `none` is that the client has gone. -/
def sendRows : List (Int × Bytes) → Int → BackfillProg Message (Option Int)
  | [], lastSentSeq => return some lastSentSeq
  | (seq, event) :: rows, _ =>
      match B.fromSlice event with
      | .error _ => sendRows rows seq
      | .ok body => .op (.send (wrap (B.encodeMessageFrame "#commit" (B.setSeq seq body)))) fun r =>
          match r with
          | .error _ => return none
          | .ok _ => sendRows rows seq

/-- Both servers': `wrap` is what one of them sends a frame as. -/
def backfillLoop : Nat → Int → BackfillProg Message (Option Int)
  | 0, _ => .fail ()
  | fuel + 1, lastSentSeq => .op (.backfillPage lastSentSeq backfillPageSize) fun r =>
      match r with
      | .error _ => return none
      | .ok [] => return some lastSentSeq
      | .ok page => do
          match ← sendRows B wrap page lastSentSeq with
          | none => return none
          | some lastSentSeq => backfillLoop fuel lastSentSeq

end

namespace Axum

/-- What a backfill writes to the axum server's socket. A row is a frame,
and nothing else is sent while it runs. -/
inductive Message where
  | binary (payload : Bytes)
deriving DecidableEq, Repr

/-- The axum server's `run_backfill`: the loop, with `Message::Binary` on the socket. -/
def runBackfill {Body : Type} (B : BodyCodec Body) :
    Nat → Int → BackfillProg Message (Option Int) :=
  backfillLoop B .binary

end Axum

namespace Embedded

def opBinary : UInt8 := 0x2

/-- `write_frame` on the writer: the message is the octets of the frame. -/
def runBackfill {Body : Type} (B : BodyCodec Body) :
    Nat → Int → BackfillProg Bytes (Option Int) :=
  backfillLoop B (writeFrame opBinary)

end Embedded

/-! ## Without failures -/

/-- The log, the pages that were asked for, and what was sent. -/
structure BackfillWorld (Message : Type) where
  log : Sqlite.Repo
  pages : Nat
  sent : List Message

def backfillExec {Message : Type} (w : BackfillWorld Message) :
    (o : BackfillOp Message) → Option (o.Ret × BackfillWorld Message)
  | .backfillPage afterSeq limit =>
      some (.ok (w.log.backfillPage afterSeq limit), { w with pages := w.pages + 1 })
  | .send message => some (.ok (), { w with sent := w.sent ++ [message] })

/-! ## What is pending -/

/-- The rows after a number that were not invalidated, in order. -/
def pendingRows (log : Sqlite.Repo) (a : Int) : List (Int × Bytes) :=
  (orderBy Prod.fst (log.repoSeq.rows.filter fun r =>
    decide (r.1 > a) && decide (r.2.invalidated = 0))).map fun r => (r.1, r.2.event)

/-- The log has the event under the number, and it was not invalidated. -/
def ValidRow (log : Sqlite.Repo) (seq : Int) (event : Bytes) : Prop :=
  ∃ row, log.repoSeq.get seq = some row ∧ row.event = event ∧ row.invalidated = 0

variable {log : Sqlite.Repo}

theorem mem_pendingRows {a seq : Int} {event : Bytes} :
    (seq, event) ∈ pendingRows log a ↔ a < seq ∧ ValidRow log seq event := by
  rw [pendingRows, List.mem_map]
  constructor
  · rintro ⟨⟨k, row⟩, hr, heq⟩
    obtain ⟨rfl, rfl⟩ := Prod.mk.injEq .. |>.mp heq
    rw [(orderBy_perm _ _).mem_iff, List.mem_filter, Bool.and_eq_true, decide_eq_true_eq,
      decide_eq_true_eq] at hr
    exact ⟨hr.2.1, row, Table.get_eq_some_iff.mpr hr.1, rfl, hr.2.2⟩
  · rintro ⟨hlt, row, hget, rfl, hvalid⟩
    refine ⟨(seq, row), ?_, rfl⟩
    rw [(orderBy_perm _ _).mem_iff, List.mem_filter, Bool.and_eq_true, decide_eq_true_eq,
      decide_eq_true_eq]
    exact ⟨Table.get_eq_some_iff.mp hget, hlt, hvalid⟩

/-- A number has one row. -/
theorem pendingRows_sorted (log : Sqlite.Repo) (a : Int) :
    (pendingRows log a).Pairwise fun x y => x.1 < y.1 := by
  have hnodup : ((log.repoSeq.rows.filter fun r =>
      decide (r.1 > a) && decide (r.2.invalidated = 0)).map Prod.fst).Nodup :=
    log.repoSeq.nodup.sublist ((List.filter_sublist).map Prod.fst)
  have hnodup' := ((orderBy_perm Prod.fst _).map Prod.fst).nodup_iff.mpr hnodup
  rw [pendingRows, List.pairwise_map]
  exact ((pairwise_orderBy Prod.fst _).and (List.pairwise_map.mp hnodup')).imp
    fun h => lt_of_le_of_ne h.1 h.2

theorem sqlitePage_eq (log : Sqlite.Repo) (a : Int) :
    log.backfillPage a backfillPageSize = (pendingRows log a).take 500 := by
  rw [Sqlite.Repo.backfillPage, sqlLimit, if_neg (by decide), List.map_take]
  rfl

/-- What is pending after the number of a pending row comes behind it. -/
theorem pendingRows_after {a : Int} {l r : List (Int × Bytes)} {x : Int × Bytes}
    (h : pendingRows log a = l ++ x :: r) : pendingRows log x.1 = r := by
  have hsorted := pendingRows_sorted log a
  have hx : a < x.1 := (mem_pendingRows.mp (h ▸ List.mem_append_right l List.mem_cons_self)).1
  have hafter : Paging.after Prod.fst (some x.1) (pendingRows log a) = r := by
    rw [h] at hsorted ⊢
    exact Paging.after_key hsorted
  rw [← hafter]
  refine Paging.eq_of_mem_iff Prod.fst (pendingRows_sorted log x.1) (hsorted.filter _) ?_
  rintro ⟨seq, event⟩
  rw [Paging.after, List.mem_filter, mem_pendingRows, mem_pendingRows, decide_eq_true_eq]
  constructor
  · rintro ⟨hlt, hrow⟩
    exact ⟨⟨lt_trans hx hlt, hrow⟩, hlt⟩
  · rintro ⟨⟨-, hrow⟩, hlt⟩
    exact ⟨hlt, hrow⟩

/-- The number of the last of some rows. -/
def lastSeq (a : Int) (rows : List (Int × Bytes)) : Int := (rows.getLast?.map Prod.fst).getD a

theorem lastSeq_append (a : Int) (rows rows' : List (Int × Bytes)) :
    lastSeq a (rows ++ rows') = lastSeq (lastSeq a rows) rows' := by
  rw [lastSeq, lastSeq, lastSeq, List.getLast?_append]
  cases rows'.getLast? <;> rfl

/-- After a page the rest is pending. -/
theorem pendingRows_lastSeq {a : Int} {l r : List (Int × Bytes)}
    (h : pendingRows log a = l ++ r) : pendingRows log (lastSeq a l) = r := by
  obtain rfl | ⟨l, x, rfl⟩ := List.eq_nil_or_concat l
  · exact h
  · rw [List.concat_eq_append] at h ⊢
    have hlast : lastSeq a (l ++ [x]) = x.1 := by simp [lastSeq]
    rw [hlast]
    rw [List.append_assoc, List.singleton_append] at h
    exact pendingRows_after h

/-! ## What is sent -/

section

variable {Body Message : Type} (B : BodyCodec Body) (wrap : Bytes → Message)

/-- The message of a row, if the row decodes. -/
def backfillMessage (row : Int × Bytes) : Option Message :=
  match B.fromSlice row.2 with
  | .error _ => none
  | .ok body => some (wrap (B.encodeMessageFrame "#commit" (B.setSeq row.1 body)))

theorem alone_sendRows (rows : List (Int × Bytes)) (a : Int) (w : BackfillWorld Message) :
    (sendRows B wrap rows a).alone backfillExec w
      = some (.ok (some (lastSeq a rows)),
          { w with sent := w.sent ++ rows.filterMap (backfillMessage B wrap) }) := by
  induction rows generalizing a w with
  | nil => simp [sendRows, Prog.alone, lastSeq, pure]
  | cons row rows ih =>
      obtain ⟨seq, event⟩ := row
      have hlast : lastSeq a ((seq, event) :: rows) = lastSeq seq rows :=
        lastSeq_append a [(seq, event)] rows
      rw [sendRows, hlast]
      cases hbody : B.fromSlice event with
      | error e =>
          have hnone : backfillMessage B wrap (seq, event) = none := by rw [backfillMessage, hbody]
          rw [List.filterMap_cons_none hnone]
          exact ih seq w
      | ok body =>
          have hsome : backfillMessage B wrap (seq, event)
              = some (wrap (B.encodeMessageFrame "#commit" (B.setSeq seq body))) := by
            rw [backfillMessage, hbody]
          rw [List.filterMap_cons_some hsome]
          dsimp only
          rw [Prog.alone_op rfl]
          dsimp only
          rw [ih, List.append_assoc, List.singleton_append]

/-- The pages that a number of pending rows takes, and one that is empty. -/
def pagesFor (n : Nat) : Nat := (n + 499) / 500 + 1

/-- The loop comes to its end, and is then behind the last pending row. -/
theorem alone_backfillLoop {fuel : Nat} {a : Int} {w : BackfillWorld Message}
    (hfuel : pagesFor (pendingRows w.log a).length ≤ fuel) :
    (backfillLoop B wrap fuel a).alone backfillExec w
      = some (.ok (some (lastSeq a (pendingRows w.log a))),
          { w with
            pages := w.pages + pagesFor (pendingRows w.log a).length
            sent := w.sent ++ (pendingRows w.log a).filterMap (backfillMessage B wrap) }) := by
  induction fuel generalizing a w with
  | zero => exact absurd hfuel (by rw [pagesFor]; omega)
  | succ fuel ih =>
      rw [backfillLoop, Prog.alone_op rfl, sqlitePage_eq]
      cases hpending : pendingRows w.log a with
      | nil => simp [Prog.alone, lastSeq, pagesFor, pure]
      | cons row rows =>
          have hpage : (row :: rows).take 500 = row :: rows.take 499 := rfl
          have hsplit : row :: rows = (row :: rows.take 499) ++ rows.drop 499 := by
            rw [List.cons_append, List.take_append_drop]
          have hrest := pendingRows_lastSeq (hpending.trans hsplit)
          have hlen : (rows.drop 499).length = rows.length - 499 := List.length_drop
          have hpages : pagesFor (rows.length + 1) = 1 + pagesFor (rows.drop 499).length := by
            rw [hlen, pagesFor, pagesFor]
            omega
          have hlast : lastSeq a (row :: rows)
              = lastSeq (lastSeq a (row :: rows.take 499)) (rows.drop 499) := by
            rw [← lastSeq_append, ← hsplit]
          have hsent : (row :: rows).filterMap (backfillMessage B wrap)
              = (row :: rows.take 499).filterMap (backfillMessage B wrap)
                ++ (rows.drop 499).filterMap (backfillMessage B wrap) := by
            rw [← List.filterMap_append, ← hsplit]
          rw [hpending, List.length_cons, hpages] at hfuel
          rw [hpage]
          dsimp only
          refine (Prog.alone_bind_ok (alone_sendRows B wrap _ a _)).trans ?_
          dsimp only
          rw [ih]
          · simp only [hrest]
            rw [List.length_cons, hpages, hlast, hsent, Nat.add_assoc, List.append_assoc]
          · simp only [hrest]
            omega

/-- The row is to be sent: it counts, and it decodes. -/
def ToSend (log : Sqlite.Repo) (a seq : Int) (event : Bytes) (body : Body) : Prop :=
  a < seq ∧ ValidRow log seq event ∧ B.fromSlice event = .ok body

end

/-- `run` comes to an end on every log and from every number: with some
number of pages, and with any more fuel, it has asked for that many pages,
has sent the messages of the rows that are to be sent, each once and in
order, and answers the largest number behind `a` that counts, or `a`. -/
def Covers {Body Message : Type} (B : BodyCodec Body) (wrap : Bytes → Message)
    (run : Nat → Int → BackfillProg Message (Option Int)) : Prop :=
  ∀ (log : Sqlite.Repo) (a : Int), ∃ pages last sent,
    (∀ fuel, pages ≤ fuel → (run fuel a).alone backfillExec ⟨log, 0, []⟩
      = some (.ok (some last), ⟨log, pages, sent⟩))
    ∧ (∃ rows : List (Int × Body), (rows.Pairwise fun x y => x.1 < y.1)
      ∧ (∀ seq body, (seq, body) ∈ rows ↔ ∃ event, ToSend B log a seq event body)
      ∧ sent = rows.map fun r => wrap (B.encodeMessageFrame "#commit" (B.setSeq r.1 r.2)))
    ∧ ((∀ seq event, a < seq → ¬ ValidRow log seq event) ∧ last = a
      ∨ IsGreatest {seq | a < seq ∧ ∃ event, ValidRow log seq event} last)

/-- The last pending row is the largest. -/
theorem lastSeq_pendingRows (log : Sqlite.Repo) (a : Int) :
    (∀ seq event, a < seq → ¬ ValidRow log seq event) ∧ lastSeq a (pendingRows log a) = a
      ∨ IsGreatest {seq | a < seq ∧ ∃ event, ValidRow log seq event}
        (lastSeq a (pendingRows log a)) := by
  have hsorted := pendingRows_sorted log a
  obtain hnil | ⟨l, x, hlast⟩ := List.eq_nil_or_concat (pendingRows log a)
  · refine Or.inl ⟨fun seq event hlt hrow => ?_, by rw [hnil]; rfl⟩
    have hmem := mem_pendingRows.mpr ⟨hlt, hrow⟩
    rw [hnil] at hmem
    cases hmem
  · rw [List.concat_eq_append] at hlast
    have hx : lastSeq a (pendingRows log a) = x.1 := by simp [lastSeq, hlast]
    have hrow := mem_pendingRows.mp (hlast ▸ List.mem_append_right l List.mem_cons_self)
    rw [hx]
    refine Or.inr ⟨⟨hrow.1, x.2, hrow.2⟩, ?_⟩
    rintro seq ⟨hlt, event, hvalid⟩
    have hmem := mem_pendingRows.mpr ⟨hlt, hvalid⟩
    rw [hlast] at hmem hsorted
    rcases List.mem_append.mp hmem with hmem | hmem
    · exact le_of_lt ((List.pairwise_append.mp hsorted).2.2 _ hmem x List.mem_cons_self)
    · exact le_of_eq (congrArg Prod.fst (List.mem_singleton.mp hmem))

theorem covers_backfillLoop {Body Message : Type} (B : BodyCodec Body) (wrap : Bytes → Message) :
    Covers B wrap (backfillLoop B wrap) := by
  intro log a
  let decoded : Int × Bytes → Option (Int × Body) := fun r =>
    (B.fromSlice r.2).toOption.map fun body => (r.1, body)
  have hdecoded : ∀ {r : Int × Bytes} {seq : Int} {body : Body}, decoded r = some (seq, body)
      ↔ r.1 = seq ∧ B.fromSlice r.2 = .ok body := by
    intro r seq body
    simp only [decoded]
    cases B.fromSlice r.2 <;> simp [Except.toOption]
  refine ⟨pagesFor (pendingRows log a).length, lastSeq a (pendingRows log a),
    (pendingRows log a).filterMap (backfillMessage B wrap), fun fuel hfuel => ?_,
    ⟨(pendingRows log a).filterMap decoded, ?_, fun seq body => ?_, ?_⟩, lastSeq_pendingRows log a⟩
  · rw [alone_backfillLoop B wrap hfuel, Nat.zero_add, List.nil_append]
  · rw [List.pairwise_filterMap]
    refine (pendingRows_sorted log a).imp fun {x y} hlt u hu v hv => ?_
    rw [← (hdecoded.mp hu).1, ← (hdecoded.mp hv).1]
    exact hlt
  · rw [List.mem_filterMap]
    constructor
    · rintro ⟨⟨k, event⟩, hmem, hrow⟩
      obtain ⟨rfl, hbody⟩ := hdecoded.mp hrow
      obtain ⟨hlt, hvalid⟩ := mem_pendingRows.mp hmem
      exact ⟨event, hlt, hvalid, hbody⟩
    · rintro ⟨event, hlt, hvalid, hbody⟩
      exact ⟨(seq, event), mem_pendingRows.mpr ⟨hlt, hvalid⟩, hdecoded.mpr ⟨rfl, hbody⟩⟩
  · rw [List.map_filterMap]
    refine List.filterMap_congr fun r _ => ?_
    rw [backfillMessage]
    simp only [decoded]
    cases B.fromSlice r.2 <;> rfl

/-- Both servers' backfill covers the log, whatever is in it: every row
after the cursor that decodes is sent once and in order, rows that do not
are passed over, and the loop ends, since each page takes it on by a row
at least. -/
theorem backfill_covers {Body : Type} (B : BodyCodec Body) :
    Covers B Axum.Message.binary (Axum.runBackfill B)
    ∧ Covers B (writeFrame Embedded.opBinary) (Embedded.runBackfill B) :=
  ⟨covers_backfillLoop B _, covers_backfillLoop B _⟩

end Stelyph
