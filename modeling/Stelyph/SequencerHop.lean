import Stelyph.SequencerOrder

/-!
# From an account's object to the sequencer

`enqueue_commit` of `rust-worker/src/durable.rs` writes a commit as JSON,
and the sequencer reads a struct from it. Between the two stand names of
fields, defaults, and `null`s that are read as nothing at all. What comes
out as a frame is the body that went in, but for its seq and its time.

The records of the ops go the same way, and each is one JSON value that
JavaScript parses on the way. The indexer is told of the records that
went in exactly where every number of theirs is one JavaScript keeps.
-/

namespace Stelyph

/-! ## Bodies of the writer -/

/-- The fields that neither a writer nor the sequencer ever fills. -/
def CommitBody.Plain {Cid Car : Type} (body : CommitBody Cid Car) : Prop :=
  body.rebase = false ∧ body.blobs = [] ∧ body.prevData = none

section

variable {L : RepoLib}

/-- A body that a call of the writer can hand back. Only these are told to
the sequencer. -/
def RepoWriter.Makes (w : RepoWriter L) (body : CommitBody L.Cid L.Car) : Prop :=
  (∃ op broadcast rnd o, (commitOp w op broadcast rnd).Returns (o, body))
    ∨ ∃ ops rnd os, (applyManyParts w ops rnd).Returns (os, body)

abbrev RepoProg.Answers {α : Type} (p : RepoProg L α) (post : α → Prop) : Prop :=
  p.Always (fun _ _ => True) fun x => ∀ a, x = .ok a → post a

theorem answers_after {α β : Type} {p : RepoProg L α} {f : α → RepoProg L β}
    {post : β → Prop} (hf : ∀ a, RepoProg.Answers (f a) post) :
    RepoProg.Answers (p.bind f) post := by
  induction p with
  | ret a => exact hf a
  | fail e => exact fun _ h => nomatch h
  | op o k ih => exact fun r _ => ih r

theorem answers_storeCommit (w : RepoWriter L) (blocks : List (L.Cid × L.Block))
    {body : CommitBody L.Cid L.Car} (h : body.Plain) :
    RepoProg.Answers (storeCommit w blocks body) CommitBody.Plain := by
  refine answers_after fun event => ?_
  intro r _
  refine answers_after fun seq => ?_
  intro b hb
  obtain rfl := Except.ok.inj hb
  exact h

theorem plain_of_makes {w : RepoWriter L} {body : CommitBody L.Cid L.Car} (h : w.Makes body) :
    body.Plain := by
  rcases h with ⟨op, broadcast, rnd, o, hret⟩ | ⟨ops, rnd, os, hret⟩
  · have hone : RepoProg.Answers (commitOp w op broadcast rnd) fun a => a.2.Plain := by
      refine fun _ _ => Prog.Always.ensuring ?_
      refine answers_after fun _ => answers_after fun _ => answers_after fun _ => ?_
      refine answers_after fun _ => answers_after fun _ => ?_
      refine answers_after fun _ => answers_after fun _ => answers_after fun _ => ?_
      refine Prog.Always.bind ((answers_storeCommit w _ ⟨rfl, rfl, rfl⟩).mono fun x hx => ?_)
      cases x with
      | error e => exact fun _ h => nomatch h
      | ok b =>
          have hb : b.Plain := hx b rfl
          dsimp only
          split
          · intro _ _ a ha
            obtain rfl := Except.ok.inj ha
            exact hb
          · intro a ha
            obtain rfl := Except.ok.inj ha
            exact hb
    exact hone.of_returns hret _ rfl
  · have hmany : RepoProg.Answers (applyManyParts w ops rnd) fun a => a.2.Plain := by
      rw [applyManyParts]
      split
      · exact fun _ h => nomatch h
      · refine fun _ _ => Prog.Always.ensuring ?_
        refine answers_after fun _ => answers_after fun _ => answers_after fun _ => ?_
        refine answers_after fun _ => answers_after fun _ => ?_
        refine answers_after fun _ => answers_after fun _ => ?_
        refine Prog.Always.bind ((answers_storeCommit w _ ⟨rfl, rfl, rfl⟩).mono fun x hx => ?_)
        cases x with
        | error e => exact fun _ h => nomatch h
        | ok b =>
            intro a ha
            obtain rfl := Except.ok.inj ha
            exact hx b rfl
    exact hmany.of_returns hret _ rfl

end

/-- What the two objects call for the hop between them: the texts of CIDs
and of bytes, and JSON written out and read. -/
structure HopLib (L : RepoLib) (Payload : Type) extends SequencerLib L.Cid L.Car Payload where
  cidText : L.Cid → String
  base64Encode : L.Car → String
  printJson : Json → Payload

namespace HopLib

section

variable {L : RepoLib} {Payload : Type} (X : HopLib L Payload)

/-! ## The payload -/

def opPayload (op : RepoOp L.Cid) (record : Option Json) : Json :=
  .obj [("action", .str op.action), ("path", .str op.path),
    ("cid", (op.cid.map fun c => Json.str (X.cidText c)).getD .null),
    ("record", record.getD .null)]

/-- Records go with their ops in order; where there are too few, the rest
are `None`. -/
def commitPayload (body : CommitBody L.Cid L.Car) (records : List (Option Json)) : Json :=
  .obj [("repo", .str body.repo), ("commit", .str (X.cidText body.commit)),
    ("rev", .str body.rev), ("since", (body.since.map Json.str).getD .null),
    ("blocks_b64", .str (X.base64Encode body.blocks)),
    ("ops", .arr (List.zipWith X.opPayload body.ops
      (records ++ List.replicate body.ops.length none))),
    ("too_big", .bool body.tooBig)]

/-- `call_do` of the sequencer, as it arrives there. -/
def enqueueCommit (body : CommitBody L.Cid L.Car) (records : List (Option Json)) (now : String) :
    SequencerRequest Payload :=
  ⟨"/enqueue", [], .ok (X.printJson (X.commitPayload body records)), now⟩

/-- CIDs and base64 are read as they are written, and a JSON text is that
of the document it was printed from. -/
structure Laws : Prop where
  frames : X.toFrameLib.Laws
  parse_text : ∀ c, X.parseCid (X.cidText c) = .ok c
  decode_encode : ∀ car, X.base64Decode (X.base64Encode car) = some car
  read_print : ∀ j, X.readJson (X.printJson j) = some j

/-! ## What is read from it -/

/-- A record that is `null` is no record to the sequencer, and any other
is what JavaScript keeps of it. -/
def recordRead : Option Json → Option Json
  | some .null => none
  | r => r.map X.reread

theorem recordRead_getD (record : Option Json) :
    (X.recordRead record).getD .null = (record.map X.reread).getD .null := by
  cases record with
  | none => rfl
  | some j => cases j <;> rfl

def opRead (op : RepoOp L.Cid) (record : Option Json) : EnqueueOp :=
  ⟨op.action, op.path, op.cid.map X.cidText, X.recordRead record⟩

theorem nullable_cid (cid : Option L.Cid) :
    Json.nullable Json.asStr ((cid.map fun c => Json.str (X.cidText c)).getD .null)
      = some (cid.map X.cidText) := by
  cases cid <;> rfl

theorem nullable_record (record : Option Json) :
    Json.nullable (fun v => some (X.reread v)) (record.getD .null)
      = some (X.recordRead record) := by
  cases record with
  | none => rfl
  | some j => cases j <;> rfl

theorem ofJson_opPayload (op : RepoOp L.Cid) (record : Option Json) :
    EnqueueOp.ofJson X.toJsNumbers (X.opPayload op record) = some (X.opRead op record) := by
  simp [EnqueueOp.ofJson, opPayload, Json.member, Json.orDefault, Json.asStr, nullable_cid,
    nullable_record, opRead]

theorem ofJson_opPayloads : ∀ (ops : List (RepoOp L.Cid)) (records : List (Option Json)),
    (List.zipWith X.opPayload ops records).mapM (EnqueueOp.ofJson X.toJsNumbers)
      = some (List.zipWith X.opRead ops records)
  | [], _ => rfl
  | _ :: _, [] => rfl
  | op :: ops, record :: records => by
      simp [List.zipWith, List.mapM_cons, ofJson_opPayload, ofJson_opPayloads ops records]

/-- The event the sequencer reads from the payload. -/
def eventRead (body : CommitBody L.Cid L.Car) (records : List (Option Json)) : EnqueueReq where
  repo := body.repo
  commit := X.cidText body.commit
  rev := body.rev
  since := body.since
  blocksB64 := X.base64Encode body.blocks
  ops := List.zipWith X.opRead body.ops (records ++ List.replicate body.ops.length none)
  tooBig := body.tooBig

theorem ofJson_commitPayload (body : CommitBody L.Cid L.Car) (records : List (Option Json)) :
    EnqueueReq.ofJson X.toJsNumbers (X.commitPayload body records)
      = some (X.eventRead body records) := by
  have hops := X.ofJson_opPayloads body.ops (records ++ List.replicate body.ops.length none)
  cases hsince : body.since <;>
    simp [EnqueueReq.ofJson, commitPayload, eventRead, Json.member, Json.orDefault, Json.nullable,
      Json.asStr, Json.asArr, Json.asBool, hops, hsince]

/-! ## What comes out -/

variable {X}

theorem Laws.repoOps_opRead (hX : X.Laws) : ∀ (ops : List (RepoOp L.Cid))
    (records : List (Option Json)), ops.length ≤ records.length →
    X.repoOps (List.zipWith X.opRead ops records) = .ok ops
  | [], _, _ => rfl
  | op :: ops, record :: records, hlen => by
      have hcid : X.opCid (X.opRead op record) = .ok op.cid := by
        cases hc : op.cid <;> simp [SequencerLib.opCid, opRead, hc, hX.parse_text]
      have hrest := hX.repoOps_opRead ops records (Nat.le_of_succ_le_succ hlen)
      simp only [List.zipWith, SequencerLib.repoOps, hcid, hrest]
      rfl

/-- The body as the sequencer fills it in again. -/
def restamped (body : CommitBody L.Cid L.Car) (seq : Nat) (now : String) : CommitBody L.Cid L.Car :=
  { body with seq := seq, time := now, rebase := false, blobs := [], prevData := none }

theorem Laws.eventBody_eventRead (hX : X.Laws) (body : CommitBody L.Cid L.Car)
    (records : List (Option Json)) (seq : Nat) (now : String) :
    X.eventBody (X.eventRead body records) seq now = .ok (restamped body seq now) := by
  have hops := hX.repoOps_opRead body.ops (records ++ List.replicate body.ops.length none)
    (by simp)
  simp only [SequencerLib.eventBody, eventRead, hX.parse_text, hops, hX.decode_encode,
    Option.getD_some, restamped]

theorem restamped_of_plain {body : CommitBody L.Cid L.Car} (h : body.Plain) (seq : Nat)
    (now : String) : restamped body seq now = { body with seq := seq, time := now } := by
  obtain ⟨hrebase, hblobs, hprevData⟩ := h
  rw [restamped, ← hrebase, ← hblobs, ← hprevData]

/-- The message that has every op with its own record. -/
def ownMessage (X : HopLib L Payload) (seq : Nat) (body : CommitBody L.Cid L.Car)
    (records : List (Option Json)) : Json :=
  .obj [("seq", .num seq), ("repo", .str body.repo), ("rev", .str body.rev),
    ("ops", .arr (List.zipWith X.opPayload body.ops records))]

/-- The message has every op with what JavaScript keeps of its record. -/
theorem indexerMessage_eventRead (body : CommitBody L.Cid L.Car) {records : List (Option Json)}
    (hlen : records.length = body.ops.length) (seq : Nat) :
    SequencerLib.indexerMessage seq (X.eventRead body records)
      = X.ownMessage seq body (records.map fun r => r.map X.reread) := by
  have hop : ∀ op record, (Json.obj [("action", .str (X.opRead op record).action),
      ("path", .str (X.opRead op record).path),
      ("cid", ((X.opRead op record).cid.map Json.str).getD .null),
      ("record", (X.opRead op record).record.getD .null)])
        = X.opPayload op (record.map X.reread) := by
    intro op record
    simp [opRead, opPayload, recordRead_getD, Function.comp_def]
  have hzip : ∀ f : RepoOp L.Cid → Option Json → Json,
      List.zipWith f body.ops (records ++ List.replicate body.ops.length none)
        = List.zipWith f body.ops records := by
    intro f
    have h : List.zipWith f (body.ops ++ []) (records ++ List.replicate _ none)
        = List.zipWith f body.ops records
          ++ List.zipWith f [] (List.replicate body.ops.length none) :=
      List.zipWith_append hlen.symm
    simpa using h
  simp only [SequencerLib.indexerMessage, ownMessage, eventRead, List.map_zipWith, hop, hzip,
    List.zipWith_map_right]

theorem opPayload_eq_iff (op : RepoOp L.Cid) (record : Option Json) :
    X.opPayload op (record.map X.reread) = X.opPayload op record
      ↔ ∀ j, record = some j → X.Exact j := by
  cases record with
  | none => simp
  | some j => simp [opPayload, JsNumbers.reread_eq_iff]

theorem opPayloads_eq_iff : ∀ {ops : List (RepoOp L.Cid)} {records : List (Option Json)},
    records.length = ops.length →
    (List.zipWith X.opPayload ops (records.map fun r => r.map X.reread)
        = List.zipWith X.opPayload ops records
      ↔ ∀ r ∈ records, ∀ j, r = some j → X.Exact j)
  | [], [], _ => by simp
  | op :: ops, record :: records, hlen => by
      rw [List.map_cons, List.zipWith_cons_cons, List.zipWith_cons_cons, List.cons.injEq,
        opPayload_eq_iff, opPayloads_eq_iff (Nat.succ.inj hlen), List.forall_mem_cons]

/-- The record of every op gets through as it is exactly where the numbers
in it do. -/
theorem ownMessage_eq_iff {body : CommitBody L.Cid L.Car} {records : List (Option Json)}
    (hlen : records.length = body.ops.length) (seq : Nat) :
    X.ownMessage seq body (records.map fun r => r.map X.reread) = X.ownMessage seq body records
      ↔ ∀ r ∈ records, ∀ j, r = some j → X.Exact j := by
  rw [← X.opPayloads_eq_iff hlen]
  simp [ownMessage]

/-- What the sequencer does with a commit that it is told of. -/
theorem step_enqueueCommit (hX : X.Laws) (body : CommitBody L.Cid L.Car)
    (records : List (Option Json)) {S : Sequencer} (hS : LogOrdered S) (now : String) :
    S.step X.toSequencerLib (.request (X.enqueueCommit body records now))
      = some (S.logged ⟨S.next, body.repo,
          X.encodeMessageFrame "#commit" (restamped body S.next now)⟩
        (if X.hasQueue then
          S.indexed ++ [SequencerLib.indexerMessage S.next (X.eventRead body records)]
        else S.indexed)) := by
  have hfetch := enqueue_of_ok (X := X.toSequencerLib)
    (hX.eventBody_eventRead body records S.next now) hS.fresh
  have hpath : "/enqueue" ≠ subscribePath := by decide
  have hmem : "/enqueue" ∈ enqueuePaths := List.mem_cons_self
  simp only [Sequencer.step, SequencerLib.fetch, SequencerLib.route, enqueueCommit, if_neg hpath,
    if_pos hmem, hX.read_print, Option.bind_some, ofJson_commitPayload, hfetch]
  rfl

/-- Nothing is lost on the way of a commit: the sequencer logs a frame that
decodes to the body with the seq and the time put in, and has the indexer,
where there is one, told of every op with its own record. -/
def Lossless (X : HopLib L Payload) (S : Sequencer) (body : CommitBody L.Cid L.Car)
    (records : List (Option Json)) (now : String) : Prop :=
  ∃ S' row, S.step X.toSequencerLib (.request (X.enqueueCommit body records now)) = some S'
    ∧ S'.log = S.log ++ [row] ∧ row.seq = S.next ∧ row.repo = body.repo
    ∧ X.decodeCommitFrame row.frame = .ok { body with seq := S.next, time := now }
    ∧ S'.indexed = S.indexed
      ++ (if X.hasQueue then [X.ownMessage S.next body records] else [])

theorem lossless_iff_ownMessage {X : HopLib L Payload} (hX : X.Laws) {w : RepoWriter L}
    {body : CommitBody L.Cid L.Car} (hbody : w.Makes body) {records : List (Option Json)}
    (hlen : records.length = body.ops.length) {S : Sequencer} (hS : LogOrdered S) (now : String) :
    X.Lossless S body records now ↔ (X.hasQueue = true →
      X.ownMessage S.next body (records.map fun r => r.map X.reread)
        = X.ownMessage S.next body records) := by
  have hstep := step_enqueueCommit hX body records hS now
  rw [indexerMessage_eventRead body hlen, restamped_of_plain (plain_of_makes hbody)] at hstep
  constructor
  · rintro ⟨S', row, hstep', -, -, -, -, hindexed⟩ hqueue
    obtain rfl := Option.some.inj (hstep.symm.trans hstep')
    simpa [Sequencer.logged, hqueue] using hindexed
  · intro h
    refine ⟨_, _, hstep, rfl, rfl, rfl, hX.frames.decode_encode _, ?_⟩
    simp only [Sequencer.logged]
    split
    · rename_i hqueue
      rw [h hqueue]
    · rw [List.append_nil]

/-- The commit of a call of the writer gets to the stream and to the
indexer without loss exactly if every record of it is one whose numbers
JavaScript keeps, or there is no indexer. -/
theorem hop_lossless_iff {X : HopLib L Payload} (hX : X.Laws) {w : RepoWriter L}
    {body : CommitBody L.Cid L.Car} (hbody : w.Makes body) {records : List (Option Json)}
    (hlen : records.length = body.ops.length) {as : List (SequencerAct Payload)} {S : Sequencer}
    (hrun : Steps.run (Sequencer.step X.toSequencerLib) Sequencer.init as = some S)
    (now : String) :
    X.Lossless S body records now
      ↔ (X.hasQueue = true → ∀ r ∈ records, ∀ j, r = some j → X.Exact j) := by
  rw [lossless_iff_ownMessage hX hbody hlen (logOrdered_run logOrdered_init hrun) now,
    ownMessage_eq_iff hlen]

end

/-! ### A hop -/

/-- The double nearest to 2 ^ 53 + 1, and no other number. -/
def sampleNumbers : JsNumbers where
  double n := if n = 2 ^ 53 + 1 then some ⟨"9007199254740992.0", by decide⟩ else none
  ofFraction := .frac

/-- CIDs and CAR files as their formats have them, and JSON as it is. -/
def ofFormats {L : RepoLib} (cid : Format L.Cid) (car : Format L.Car) (noBlocks : L.Car) :
    HopLib L Json where
  toFrameLib := FrameLib.ofFormats cid car
  toJsNumbers := sampleNumbers
  readJson := some
  jsonError _ := "expected value at line 1 column 1"
  parseCid s :=
    match cid.parse s with
    | some c => .ok c
    | none => .error "Unexpected end of input"
  base64Decode := car.parse
  noBlocks := noBlocks
  hasQueue := true
  cidText := cid.print
  base64Encode := car.print
  printJson j := j

theorem laws_ofFormats {L : RepoLib} (cid : Format L.Cid) (car : Format L.Car)
    (noBlocks : L.Car) : (ofFormats cid car noBlocks).Laws where
  frames := FrameLib.laws_ofFormats cid car
  parse_text c := by simp only [ofFormats, cid.parse_print]
  decode_encode := car.parse_print
  read_print _ := rfl

def sampleHop : HopLib sampleRepo Json :=
  ofFormats SampleBlock.format SampleBlock.carFormat (.leaf, [])

theorem sampleHop_laws : sampleHop.Laws := laws_ofFormats _ _ _

/-! The first write to a repository, of one record. -/

def sampleGenesis : SampleBlock := .first "did:plc:alice" 3 .leaf "3kaa" []

def sampleData : SampleBlock := .entry "app.bsky.feed.post/3kaa" (.record 7) .leaf

def sampleCommit : SampleBlock := .next "did:plc:alice" 3 sampleData "3kab" sampleGenesis []

def sampleBody : CommitBody sampleRepo.Cid sampleRepo.Car :=
  commitBody ⟨"did:plc:alice", ()⟩ sampleCommit "3kab" none
    (sampleCommit, [(.leaf, .leaf), (sampleGenesis, sampleGenesis), (.record 7, .record 7),
      (sampleData, sampleData), (sampleCommit, sampleCommit)])
    [⟨"create", "app.bsky.feed.post/3kaa", some (.record 7)⟩] "2026-01-01T00:00:00Z"

theorem sampleBody_made : (⟨"did:plc:alice", ()⟩ : RepoWriter sampleRepo).Makes sampleBody := by
  refine Or.inr ⟨[.create "app.bsky.feed.post/3kaa" (7 : Nat)],
    ⟨"3kaa", "3kab", "2026-01-01T00:00:00Z"⟩,
    [⟨"create", "app.bsky.feed.post/3kaa", some (.record 7), sampleCommit, "3kab"⟩], ?_⟩
  exact ⟨(), .ok none, .ok .leaf, .ok sampleGenesis, .ok (.record 7),
    .ok (sampleData, [sampleData]), .ok sampleCommit, .ok .leaf, .ok sampleGenesis,
    .ok (.record 7), .ok sampleData, .ok sampleCommit, .ok 0, (), rfl⟩

/-- A post with an integer beyond the safe range. -/
def sampleRecord : Json :=
  .obj [("$type", .str "app.bsky.feed.post"), ("views", .num (2 ^ 53 + 1))]

/-- The indexer is told of another number than was written. -/
theorem sampleRecord_changed :
    ¬ ∀ (L : RepoLib) (Payload : Type) (X : HopLib L Payload), X.Laws → ∀ (w : RepoWriter L)
      (body : CommitBody L.Cid L.Car), w.Makes body → ∀ (records : List (Option Json)),
      records.length = body.ops.length → ∀ (as : List (SequencerAct Payload)) (S : Sequencer),
      Steps.run (Sequencer.step X.toSequencerLib) Sequencer.init as = some S →
      ∀ now, X.Lossless S body records now := by
  intro h
  have hlossless := h _ _ sampleHop sampleHop_laws _ sampleBody sampleBody_made
    [some sampleRecord] rfl [] _ rfl "2026-01-01T00:00:01Z"
  rw [lossless_iff_ownMessage sampleHop_laws sampleBody_made rfl logOrdered_init,
    ownMessage_eq_iff rfl] at hlossless
  have hsafe : isSafeInteger (2 ^ 53 + 1) = true :=
    (hlossless rfl _ List.mem_cons_self sampleRecord rfl).2.2.1
  exact absurd hsafe (by decide)

theorem sampleBody_hop :
    sampleHop.Lossless Sequencer.init sampleBody [some (.num 7)] "2026-01-01T00:00:01Z"
      ∧ (sampleHop.Lossless Sequencer.init sampleBody [some (.num 7)] "2026-01-01T00:00:01Z"
        ↔ (sampleHop.hasQueue = true →
          ∀ r ∈ [some (.num 7)], ∀ j, r = some j → sampleHop.Exact j)) := by
  have hiff := hop_lossless_iff sampleHop_laws sampleBody_made
    (rfl : [some (Json.num 7)].length = sampleBody.ops.length) (Steps.run_nil Sequencer.init)
    "2026-01-01T00:00:01Z"
  refine ⟨hiff.mpr ?_, hiff⟩
  rintro - r hr j rfl
  obtain rfl := Option.some.inj (List.mem_singleton.mp hr)
  rfl

end HopLib

end Stelyph
