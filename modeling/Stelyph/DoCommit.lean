import Stelyph.RepoBlocks

/-!
# A commit of the Worker's object, statement by statement

`DoStore::commit_blocks` of `rust-worker/src/store.rs` and the object's
`fetch` around it. A statement can fail, and then has done nothing; but
the object makes a response of every error, so what earlier statements
did stays. Where no statement fails the tables take the one step that
`RepoStore.commitBlocks` is.
-/

namespace Stelyph

namespace Worker

variable (L : RepoLib)

/-- A row of `repo_seq`, without its key. -/
structure SeqEntry where
  did : String
  eventType : String
  event : L.Event
  invalidated : Bool

/-- The tables a commit writes; `seqCounter` is the row with id 0. -/
structure CommitTables where
  blocks : Table L.Cid L.Block
  seqCounter : Option Int
  repoSeq : Table Int (SeqEntry L)
  repoRoots : Table String L.Cid

/-- The statements of `commit_blocks`, each of which may fail by itself. -/
inductive SqlOp where
  | insertBlock (cid : L.Cid) (bytes : L.Block)
  | incrementSeq
  | selectNext
  | insertSeq (seq : Int) (row : SeqEntry L)
  | replaceRoot (did : String) (cid : L.Cid)

variable {L}

/-- What a statement answers; only the query has rows. -/
abbrev SqlOp.Ret : SqlOp L → Type
  | .selectNext => Except StorageError (List Int)
  | _ => Except StorageError Unit

abbrev sqlSig (L : RepoLib) : Sig := ⟨SqlOp L, SqlOp.Ret⟩

abbrev SqlProg (L : RepoLib) := Prog (sqlSig L) StorageError

inductive SqlFate where
  | done
  | fault (msg : String)
deriving DecidableEq

def sqlErr (e : String) : StorageError := .backend s!"durable object sql: {e}"

/-- A statement on the tables. One that fails has done nothing, and those
before it stay done: there is no transaction around them. -/
def SqlOp.exec (s : CommitTables L) : (o : SqlOp L) → SqlFate → Option (o.Ret × CommitTables L)
  | .insertBlock cid bytes, .done =>
      some (.ok (), { s with blocks := s.blocks.insertOrIgnore cid bytes })
  | .insertBlock _ _, .fault msg => some (.error (sqlErr msg), s)
  | .incrementSeq, .done => some (.ok (), { s with seqCounter := s.seqCounter.map (· + 1) })
  | .incrementSeq, .fault msg => some (.error (sqlErr msg), s)
  | .selectNext, .done => some (.ok s.seqCounter.toList, s)
  | .selectNext, .fault msg => some (.error (sqlErr msg), s)
  | .insertSeq seq row, .done =>
      if s.repoSeq.contains seq then some (.error (sqlErr "UNIQUE constraint failed"), s)
      else some (.ok (), { s with repoSeq := s.repoSeq.insert seq row })
  | .insertSeq _ _, .fault msg => some (.error (sqlErr msg), s)
  | .replaceRoot did cid, .done => some (.ok (), { s with repoRoots := s.repoRoots.insert did cid })
  | .replaceRoot _ _, .fault msg => some (.error (sqlErr msg), s)

/-- A statement run for its effect. -/
def insertBlock (cid : L.Cid) (bytes : L.Block) : SqlProg L Unit :=
  .op (.insertBlock cid bytes) fun r => Prog.ofExcept id r

def incrementSeq : SqlProg L Unit := .op .incrementSeq fun r => Prog.ofExcept id r

def selectNext : SqlProg L (List Int) := .op .selectNext fun r => Prog.ofExcept id r

def insertSeq (seq : Int) (row : SeqEntry L) : SqlProg L Unit :=
  .op (.insertSeq seq row) fun r => Prog.ofExcept id r

def replaceRoot (did : String) (cid : L.Cid) : SqlProg L Unit :=
  .op (.replaceRoot did cid) fun r => Prog.ofExcept id r

/-- The blocks one by one, up to the first that fails. -/
def insertBlocks : List (L.Cid × L.Block) → SqlProg L Unit
  | [] => return ()
  | b :: bs => do
      insertBlock b.1 b.2
      insertBlocks bs

/-- What follows the increment of the counter. -/
def afterIncrement (did : String) (newRoot : L.Cid) (event : L.Event) : SqlProg L Int := do
  let rows ← selectNext
  match rows.head? with
  | none => .fail (.backend "seq_counter row is missing")
  | some seq => do
      insertSeq seq ⟨did, "append", event, false⟩
      replaceRoot did newRoot
      return seq

/-- The counter, the row of the event, the root: in this order. -/
def appendEvent (did : String) (newRoot : L.Cid) (event : L.Event) : SqlProg L Int := do
  incrementSeq
  afterIncrement did newRoot event

/-- `commit_blocks` of the object's store: blocks that are there already are kept. -/
def commitBlocks (blocks : List (L.Cid × L.Block)) (did : String) (newRoot : L.Cid)
    (event : L.Event) : SqlProg L Int := do
  insertBlocks blocks
  appendEvent did newRoot event

structure Response where
  status : Nat
  body : String
deriving DecidableEq

/-- How the runtime calls the object: every error of the handler becomes a
response, so that what was written before it stays written. -/
def fetch {S : Sig} (p : Prog S String Response) : Prog S Empty Response :=
  p.attempt.bind fun
    | .ok response => return response
    | .error e => return ⟨500, s!"durable object error: {e}"⟩

/-- What `commit_blocks` must leave alone where it fails. -/
def Unwritten (s t : CommitTables L) : Prop :=
  t.repoRoots = s.repoRoots ∧ t.repoSeq = s.repoSeq ∧ t.seqCounter = s.seqCounter

/-! ## The wrapper -/

/-- An error is no exception to the runtime: the tables stay as they are. -/
theorem against_fetch {S : Sig} {σ χ : Type} {exec : σ → (o : S.Op) → χ → Option (S.Ret o × σ)} :
    ∀ {p : Prog S String Response} {s : σ} {fates : List χ},
      ((fetch p).against exec s fates).map Prod.snd = (p.against exec s fates).map Prod.snd
  | .ret _, _, fates => by cases fates <;> rfl
  | .fail _, _, fates => by cases fates <;> rfl
  | .op o k, s, fates => by
      cases fates with
      | nil => rfl
      | cons c cs =>
          change (((exec s o c).bind fun rs => (fetch (k rs.1)).against exec rs.2 cs)).map Prod.snd
            = ((exec s o c).bind fun rs => (k rs.1).against exec rs.2 cs).map Prod.snd
          cases exec s o c with
          | none => rfl
          | some rs => exact against_fetch

/-! ## Where a failure leaves the tables -/

section

variable {s t : CommitTables L} {fates : List SqlFate} {did : String} {newRoot : L.Cid}
  {event : L.Event} {e : StorageError}

/-- Only the increment writes the counter. -/
theorem afterIncrement_keeps_counter :
    (afterIncrement did newRoot event).Yields (S := sqlSig L) SqlOp.exec s
      fun _ t => t.seqCounter = s.seqCounter := by
  refine Prog.Each.yields (P := fun o => o ≠ SqlOp.incrementSeq)
    (R := fun s t : CommitTables L => t.seqCounter = s.seqCounter) (fun _ => rfl)
    (fun _ _ _ hst htu => htu.trans hst) ?_ ?_
  · intro s o c r t ho h
    cases o with
    | incrementSeq => exact absurd rfl ho
    | insertSeq seq row =>
        cases c with
        | done =>
            simp only [SqlOp.exec] at h
            split_ifs at h <;> cases h <;> rfl
        | fault msg => cases h; rfl
    | _ => cases c <;> cases h <;> rfl
  · refine ⟨(by intro h; cases h), fun r => (Prog.each_ofExcept _ _ _).bind fun rows => ?_⟩
    cases rows.head? with
    | none => trivial
    | some seq =>
        refine Prog.Each.bind ⟨(by intro h; cases h), fun r => Prog.each_ofExcept _ _ _⟩ fun _ => ?_
        exact Prog.Each.bind ⟨(by intro h; cases h), fun r => Prog.each_ofExcept _ _ _⟩ fun _ => trivial

/-- Without the counter's row nothing is written. -/
theorem afterIncrement_of_no_counter (hnone : s.seqCounter = none) :
    (afterIncrement did newRoot event).Yields (S := sqlSig L) SqlOp.exec s fun _ t => t = s := by
  intro c r t h
  cases c with
  | done =>
      simp only [SqlOp.exec, hnone] at h
      cases h
      rfl
  | fault msg =>
      cases h
      rfl

/-- With a counter to increment, whatever fails after the increment leaves
it behind. -/
theorem appendEvent_fails_cleanly_iff
    (h : (appendEvent did newRoot event).against (S := sqlSig L) SqlOp.exec s fates
      = some (.error e, t)) :
    Unwritten s t ↔ s.seqCounter = none ∨ ∃ fate ∈ fates.take 1, fate ≠ .done := by
  cases fates with
  | nil => cases h
  | cons c cs =>
      cases c with
      | fault msg =>
          cases cs with
          | cons c cs => cases h
          | nil =>
              cases h
              exact iff_of_true ⟨rfl, rfl, rfl⟩ (Or.inr ⟨_, List.mem_cons_self, nofun⟩)
      | done =>
          have hrest : (afterIncrement did newRoot event).against (S := sqlSig L) SqlOp.exec
              { s with seqCounter := s.seqCounter.map (· + 1) } cs = some (.error e, t) := h
          have hcounter := afterIncrement_keeps_counter.of_against hrest
          cases hs : s.seqCounter with
          | none =>
              rw [hs] at hrest
              have hsame := (afterIncrement_of_no_counter rfl).of_against hrest
              exact iff_of_true ⟨hsame ▸ rfl, hsame ▸ rfl, hsame ▸ hs.symm⟩ (Or.inl rfl)
          | some next =>
              refine iff_of_false (fun hun => ?_) ?_
              · have hsome := hcounter.symm.trans hun.2.2
                rw [hs] at hsome
                simp at hsome
              · simp

/-- `commit_blocks` that fails leaves the root, the event log and the
counter as they were if and only if there is no counter row, or a
statement that fails is one of the block inserts or the increment. -/
theorem commitBlocks_fails_cleanly_iff (blocks : List (L.Cid × L.Block))
    (h : (commitBlocks blocks did newRoot event).against (S := sqlSig L) SqlOp.exec s fates
      = some (.error e, t)) :
    Unwritten s t ↔
      s.seqCounter = none ∨ ∃ fate ∈ fates.take (blocks.length + 1), fate ≠ .done := by
  induction blocks generalizing s fates with
  | nil => exact appendEvent_fails_cleanly_iff h
  | cons b bs ih =>
      cases fates with
      | nil => cases h
      | cons c cs =>
          cases c with
          | fault msg =>
              cases cs with
              | cons c cs => cases h
              | nil =>
                  cases h
                  exact iff_of_true ⟨rfl, rfl, rfl⟩ (Or.inr ⟨_, List.mem_cons_self, nofun⟩)
          | done =>
              have hrest : (commitBlocks bs did newRoot event).against (S := sqlSig L) SqlOp.exec
                  { s with blocks := s.blocks.insertOrIgnore b.1 b.2 } cs
                    = some (.error e, t) := h
              have hiff := ih hrest
              simpa [Unwritten] using hiff

/-! ## Where no statement fails -/

/-- The tables hold what the abstract store holds, and the counter is past
every row. -/
structure Represents (s : CommitTables L) (S : RepoStore L) : Prop where
  blocks : s.blocks = S.blocks
  counter : s.seqCounter = some (S.lastSeq : Int)
  rows : s.repoSeq.rows = S.rows.map fun r =>
    ((r.seq : Int), ⟨r.did, "append", r.event, r.invalidated⟩)
  roots : s.repoRoots = S.roots
  below : ∀ r ∈ S.rows, r.seq ≤ S.lastSeq

theorem Represents.fresh {S : RepoStore L} (h : Represents s S) :
    s.repoSeq.get ((S.lastSeq : Int) + 1) = none := by
  cases hget : s.repoSeq.get ((S.lastSeq : Int) + 1) with
  | none => rfl
  | some row =>
      have hmem := Table.get_eq_some_iff.mp hget
      rw [h.rows] at hmem
      obtain ⟨r, hr, heq⟩ := List.mem_map.mp hmem
      have hle := h.below r hr
      have hseq : (r.seq : Int) = S.lastSeq + 1 := congrArg Prod.fst heq
      omega

theorem Represents.insertBlocks {S : RepoStore L} (h : Represents s S)
    (blocks : List (L.Cid × L.Block)) :
    Prog.Ends (S := sqlSig L) (fun s o => SqlOp.exec s o .done) (insertBlocks blocks) s
      fun x t => x = .ok () ∧ Represents t
        { S with blocks := blocks.foldl (fun t b => t.insertOrIgnore b.1 b.2) S.blocks } := by
  induction blocks generalizing s S with
  | nil => exact .ret ⟨rfl, h⟩
  | cons b bs ih =>
      have hnext : Represents { s with blocks := s.blocks.insertOrIgnore b.1 b.2 }
          { S with blocks := S.blocks.insertOrIgnore b.1 b.2 } :=
        ⟨by rw [h.blocks], h.counter, h.rows, h.roots, h.below⟩
      exact .op rfl (ih hnext)

/-- The statements take the tables where the one step takes the store. -/
theorem commitBlocks_refines {S : RepoStore L} (h : Represents s S)
    (blocks : List (L.Cid × L.Block)) (did : String) (newRoot : L.Cid) (event : L.Event) :
    Prog.Ends (S := sqlSig L) (fun s o => SqlOp.exec s o .done)
      (commitBlocks blocks did newRoot event) s fun x t =>
        x = .ok ((S.lastSeq : Int) + 1)
          ∧ Represents t (S.commitBlocks blocks did newRoot event) := by
  refine (h.insertBlocks blocks).bind ?_ (fun _ _ he => nomatch he.1)
  rintro - t ⟨-, ht⟩
  have hfresh : t.repoSeq.contains ((S.lastSeq : Int) + 1) = false := by
    rw [Table.contains, ht.fresh]
    rfl
  have hselect : SqlOp.exec { t with seqCounter := some ((S.lastSeq : Int) + 1) } .selectNext .done
      = some (.ok [(S.lastSeq : Int) + 1],
        { t with seqCounter := some ((S.lastSeq : Int) + 1) }) := rfl
  have hincrement : SqlOp.exec t .incrementSeq .done
      = some (.ok (), { t with seqCounter := some ((S.lastSeq : Int) + 1) }) := by
    rw [SqlOp.exec, ht.counter]
    rfl
  have hinsert : SqlOp.exec { t with seqCounter := some ((S.lastSeq : Int) + 1) }
      (.insertSeq ((S.lastSeq : Int) + 1) ⟨did, "append", event, false⟩) .done
        = some (.ok (), { t with
          seqCounter := some ((S.lastSeq : Int) + 1)
          repoSeq := t.repoSeq.insert ((S.lastSeq : Int) + 1) ⟨did, "append", event, false⟩ }) := by
    simp only [SqlOp.exec, hfresh]
    rfl
  refine .op hincrement (.op hselect (.op hinsert (.op rfl (.ret ⟨rfl, ?_⟩))))
  refine ⟨ht.blocks, rfl, ?_, ?_, ?_⟩
  · simp only [RepoStore.commitBlocks, List.map_append, List.map_cons, List.map_nil,
      Table.insert, Table.remove_of_get_none ht.fresh, ht.rows]
    rfl
  · simp only [RepoStore.commitBlocks, ht.roots]
  · intro r hr
    rcases List.mem_append.mp hr with hr | hr
    · exact Nat.le_succ_of_le (ht.below r hr)
    · obtain rfl := List.mem_singleton.mp hr
      exact le_rfl

end

/-! ## A root that cannot be written -/

def freshTables : CommitTables sampleRepo := ⟨.empty, some 0, .empty, .empty⟩

def sampleEvent : sampleRepo.Event :=
  ⟨0, false, false, "did:plc:alice", .leaf, "rev", none, (.leaf, []), [], [], "time", none⟩

/-- The last statement fails: the counter and the log are ahead of a root
that was never set. -/
theorem logged_without_root :
    ¬ ∀ (L : RepoLib) (s t : CommitTables L) (blocks : List (L.Cid × L.Block)) (did : String)
      (newRoot : L.Cid) (event : L.Event) (fates : List SqlFate) (e : StorageError),
      (commitBlocks blocks did newRoot event).against (S := sqlSig L) SqlOp.exec s fates
        = some (.error e, t) → Unwritten s t := by
  intro h
  have hun := h sampleRepo freshTables _ [] "did:plc:alice" .leaf sampleEvent
    [.done, .done, .done, .fault "disk full"] _ rfl
  exact absurd hun.2.2 (by decide)

/-- A block that cannot be written fails the commit cleanly. -/
theorem first_block_fails_cleanly : ∃ t e,
    (commitBlocks (L := sampleRepo) [(.leaf, .leaf)] "did:plc:alice" .leaf sampleEvent).against
      (S := sqlSig sampleRepo) SqlOp.exec freshTables [.fault "disk full"] = some (.error e, t)
      ∧ Unwritten freshTables t := by
  have hrun : (commitBlocks (L := sampleRepo) [(.leaf, .leaf)] "did:plc:alice" .leaf
      sampleEvent).against (S := sqlSig sampleRepo) SqlOp.exec freshTables [.fault "disk full"]
        = some (.error (sqlErr "disk full"), freshTables) := rfl
  exact ⟨_, _, hrun, (commitBlocks_fails_cleanly_iff _ hrun).mpr (Or.inr ⟨.fault "disk full",
    List.mem_cons_self, by decide⟩)⟩

end Worker

end Stelyph
