import Stelyph.ApplyWrites
import Stelyph.Lib.Covers
import Stelyph.XrpcInputs

/-!
# What one server accepts and the other

A body that the axum server accepts is read by the embedded server in a
different way: it indexes the JSON value. The two agree on an object
whose members can all be built, as long as its record is not `null` and
no entry of its batch is an array; on any other body the embedded server
refuses what the axum server has accepted.
-/

namespace Stelyph

section

variable {L : RepoLib}

/-! ## The two servers' calls -/

/-- Two answers to one operation that the handlers cannot tell apart:
equal ones, or two lookups of a record that failed, whose texts differ
between the servers and are not looked at. -/
def XrpcOp.Alike : (o : XrpcOp L) → o.Ret → o.Ret → Prop
  | .lookupRecordCid _ _, r, r' => r.toOption = r'.toOption
  | .oauth _, r, r' => r = r'
  | .loadSigningKey _, r, r' => r = r'
  | .applyOne _ _, r, r' => r = r'
  | .putBlob _ _ _ _ _, r, r' => r = r'
  | .resolveService _ _, r, r' => r = r'
  | .mintServiceAuthJwt _ _ _ _, r, r' => r = r'
  | .proxyRequest _, r, r' => r = r'

/-- Two answers to one operation that the two servers make the same of. -/
def RecordOp.Alike : (o : RecordOp L) → o.Ret XrpcError → o.Ret XrpcError → Prop
  | .lookupRecordCid _ _, r, r' => r.toOption = r'.toOption
  | .writer _, r, r' => r = r'
  | .loadSigningKey _, r, r' => r = r'
  | .other o, r, r' => XrpcOp.Alike o r r'

theorem treeLookup_toOption {ε : Type} (treeGet : TreeGet L)
    (openErr getErr openErr' getErr' : String → ε) (s : RepoStore L) (did key : String) :
    (treeLookup treeGet openErr getErr s did key).toOption
      = (treeLookup treeGet openErr' getErr' s did key).toOption := by
  unfold treeLookup
  split
  · rfl
  · split
    · rfl
    · split
      · rfl
      · cases treeGet s.blocks.get _ key <;> rfl

theorem lookup_toOption {key : String → Except String L.Key} {treeGet : TreeGet L}
    (s : RepoStore L) (did k : String) :
    ((axumEnv key treeGet).lookup s did k).toOption
      = ((embeddedEnv key treeGet).lookup s did k).toOption := by
  simp only [axumEnv, embeddedEnv]
  apply treeLookup_toOption

/-- The two servers' calls do the same to the store. -/
theorem exec_alike {key : String → Except String L.Key} {treeGet : TreeGet L} {i : Nat}
    (s : RepoStore L) (o : RecordOp L) (c : WriterFate) (r : o.Ret XrpcError) (t : RepoStore L)
    (h : RecordOp.exec (axumEnv key treeGet) i s o c = some (r, t)) :
    ∃ r', RecordOp.exec (embeddedEnv key treeGet) i s o c = some (r', t) ∧ o.Alike r r' := by
  cases o with
  | writer o => exact ⟨r, h, rfl⟩
  | other o => cases h
  | loadSigningKey did =>
      cases c with
      | done => exact ⟨r, h, rfl⟩
      | fault msg part => exact ⟨r, h, rfl⟩
  | lookupRecordCid did key' =>
      cases c with
      | done =>
          obtain ⟨rfl, rfl⟩ := Prod.mk.injEq .. |>.mp (Option.some.inj h)
          exact ⟨_, rfl, lookup_toOption s did key'⟩
      | fault msg part =>
          obtain ⟨rfl, rfl⟩ := Prod.mk.injEq .. |>.mp (Option.some.inj h)
          exact ⟨_, rfl, rfl⟩

def RecordOp.IsWriter : RecordOp L → Prop
  | .writer _ => True
  | _ => False

theorem each_liftWriter {ε ε' α : Type} : ∀ p : Prog (writerSig L) ε' α,
    (liftWriter p : Prog (recordSig L ε) ε' α).Each RecordOp.IsWriter
  | .ret _ => trivial
  | .fail _ => trivial
  | .op _ k => ⟨trivial, fun r => each_liftWriter (k r)⟩

/-- Taking the calls apart keeps what covers what. -/
theorem covered_expand {α β : Type} {post : α → β → Prop} (draws : Nat → WriteDraw)
    {p : XrpcProg L α} {q : XrpcProg L β} (n : Nat)
    (h : p.CoveredBy (S := xrpcSig L) XrpcOp.Alike post q) :
    (expand draws n p).CoveredBy (S := recordSig L XrpcError) RecordOp.Alike post
      (expand draws n q) := by
  induction p generalizing q n with
  | ret a =>
      obtain ⟨b, rfl, hab⟩ := h
      exact .ret hab
  | fail e => trivial
  | op o k ih =>
      obtain ⟨k', rfl, hk⟩ := h
      cases o with
      | applyOne w op =>
          refine .bind ?_ (.attempt (S := recordSig L XrpcError) ?_ (each_liftWriter _))
          · intro r r' hr
            exact ih r (n + 1) (hk r r' hr)
          · intro o r r' ho hr
            cases o with
            | writer o => exact hr
            | _ => exact ho.elim
      | _ => exact .op fun r r' hr => ih r n (hk r r' hr)

/-! ## The four methods -/

variable (cfg : XrpcConfig L) {did : String} {v : Json} {micros : Nat → Nat}

abbrev Covered (p q : XrpcProg L XrpcResponse) : Prop :=
  p.CoveredBy (S := xrpcSig L) XrpcOp.Alike (fun _ _ => True) q

theorem covered_buildWriter {f g : RepoWriter L → XrpcProg L XrpcResponse}
    (h : ∀ w, Covered (f w) (g w)) :
    Covered ((buildWriter cfg did).bind f) ((Embedded.buildWriter cfg did).bind g) := by
  refine .op fun r r' hr => ?_
  obtain rfl : r = r' := hr
  refine .andThen h (.andThen (fun key => ?_) (Prog.coveredBy_ofExcept r))
  exact .andThen (fun _ => .ret rfl) (Prog.coveredBy_ofExcept (cfg.parseDid did))

theorem covered_write {α β : Type} {post : α → β → Prop} {w : RepoWriter L} {op : WriteOp L.Ipld}
    {f : WriteOutcome L.Cid → XrpcProg L α} {g : WriteOutcome L.Cid → XrpcProg L β}
    (h : ∀ o, (f o).CoveredBy (S := xrpcSig L) XrpcOp.Alike post (g o)) :
    ((write w op).bind f).CoveredBy (S := xrpcSig L) XrpcOp.Alike post
      ((Embedded.write w op).bind g) := by
  refine .op fun r r' hr => ?_
  obtain rfl : r = r' := hr
  exact .andThen h (Prog.coveredBy_ofExcept r)

theorem covered_ownRepo {repo : String} (hrepo : (v.field "repo").asStr = some repo) :
    (ownRepo repo did : XrpcProg L Unit).CoveredBy (S := xrpcSig L) XrpcOp.Alike Eq
      (Embedded.ownRepo v did) := by
  rw [ownRepo, Embedded.ownRepo, hrepo]
  by_cases h : repo = did
  · simp only [h, ne_eq, not_true_eq_false, if_false]
    exact .ret rfl
  · simp only [h, ne_eq, not_false_eq_true, if_true]
    trivial

theorem covered_valid (x : Except String Unit) :
    (valid x : XrpcProg L Unit).CoveredBy (S := xrpcSig L) XrpcOp.Alike Eq (valid x) :=
  Prog.coveredBy_ofExcept x

theorem recordOf_eq {record : Json} {ipld : L.Ipld} (hrecord : v.field "record" = record)
    (hnull : record.isNull = false) (hipld : cfg.jsonValueToIpld record = .ok ipld) :
    Embedded.recordOf cfg v = .ret ipld := by
  rw [Embedded.recordOf, hrecord, hnull, Embedded.toIpld, hipld]
  rfl

theorem createRecord_covered {input : CreateRecordInput} {micros : Nat} {ipld : L.Ipld}
    (h : input.Shown v) (hnull : input.record.isNull = false)
    (hipld : cfg.jsonValueToIpld input.record = .ok ipld) :
    Covered (createRecord cfg did input micros) (Embedded.createRecord cfg did v micros) := by
  obtain ⟨hrepo, hcollection, hrkey, hrecord⟩ := h
  rw [createRecord, Embedded.createRecord, hcollection, hrkey, toIpld, hipld,
    recordOf_eq cfg hrecord hnull hipld]
  refine .andThen (fun _ => .andThen (fun _ => ?_) (covered_valid _)) (covered_ownRepo hrepo)
  cases input.rkey with
  | none => exact covered_buildWriter cfg fun w => covered_write fun o => .ret trivial
  | some rkey =>
      simp only [Embedded.rkeyOrTid, validRkey, Prog.bind_eq, Prog.bind_assoc]
      refine .andThen (fun _ => ?_) (covered_valid _)
      exact covered_buildWriter cfg fun w => covered_write fun o => .ret trivial

/-- The front of a put and of a delete. -/
theorem covered_namedRecord {repo collection rkey : String} {f : XrpcProg L XrpcResponse}
    {g : String × String → XrpcProg L XrpcResponse}
    (hrepo : (v.field "repo").asStr = some repo)
    (hcollection : (v.field "collection").asStr = some collection)
    (hrkey : (v.field "rkey").asStr = some rkey) (h : Covered f (g (collection, rkey))) :
    Covered (do
        ownRepo repo did
        valid (validateCollection collection)
        valid (validateRkey rkey)
        f)
      ((Embedded.namedRecord v did).bind g) := by
  rw [Embedded.namedRecord, hcollection, hrkey]
  simp only [Prog.bind_eq, Prog.bind_assoc]
  refine .andThen (fun _ => ?_) (covered_ownRepo hrepo)
  exact .andThen (fun _ => .andThen (fun _ => h) (covered_valid _)) (covered_valid _)

/-- The lookup's answer, and what comes of it. -/
theorem covered_lookup {key : String} {f g : Option L.Cid → XrpcProg L XrpcResponse}
    (h : ∀ found, Covered (f found) (g found)) :
    Covered (.op (.lookupRecordCid did key) fun r => do let found ← Prog.ofExcept id r; f found)
      (.op (.lookupRecordCid did key) fun r => do let found ← Prog.ofExcept id r; g found) := by
  refine .op fun r r' hr => ?_
  have hr : r.toOption = r'.toOption := hr
  cases r with
  | error e => trivial
  | ok found =>
      cases r' with
      | error e => cases hr
      | ok found' =>
          obtain rfl := Option.some.inj hr
          exact h found

theorem putRecord_covered {input : PutRecordInput} {ipld : L.Ipld} (h : input.Shown v)
    (hnull : input.record.isNull = false) (hipld : cfg.jsonValueToIpld input.record = .ok ipld) :
    Covered (putRecord cfg did input) (Embedded.putRecord cfg did v) := by
  obtain ⟨hrepo, hcollection, hrkey, hrecord⟩ := h
  rw [putRecord, Embedded.putRecord, toIpld, hipld, recordOf_eq cfg hrecord hnull hipld]
  refine covered_namedRecord hrepo hcollection hrkey (covered_lookup fun found => ?_)
  exact covered_buildWriter cfg fun w => covered_write fun o => .ret trivial

theorem deleteRecord_covered {input : DeleteRecordInput} (h : input.Shown v) :
    Covered (deleteRecord cfg did input) (Embedded.deleteRecord cfg did v) := by
  obtain ⟨hrepo, hcollection, hrkey⟩ := h
  rw [deleteRecord, Embedded.deleteRecord]
  refine covered_namedRecord hrepo hcollection hrkey (covered_lookup fun found => ?_)
  cases found with
  | none => exact .ret trivial
  | some cid => exact covered_buildWriter cfg fun w => covered_write fun o => .ret trivial

/-- One entry of a batch: the two results may be written differently,
the commit is the same. -/
theorem applyWrite_covered {w : ApplyWritesWrite} {j : Json} (h : w.Shown j)
    (writer : RepoWriter L) (micros : Nat) :
    (applyWrite cfg did writer micros w).CoveredBy (S := xrpcSig L) XrpcOp.Alike
      (fun a b => a.1 = b.1) (Embedded.applyWrite cfg did writer micros j) := by
  cases w with
  | create collection rkey value =>
      obtain ⟨hkind, hcollection, hrkey, rfl⟩ := h
      rw [applyWrite, Embedded.applyWrite, hcollection, hkind, hrkey]
      refine .andThen (fun _ => ?_) (covered_valid _)
      cases rkey with
      | none =>
          refine .andThen (fun ipld => ?_) (Prog.coveredBy_ofExcept _)
          exact covered_write fun o => .ret rfl
      | some rkey =>
          simp only [Option.getD_some, Embedded.rkeyOrTid, validRkey, Prog.bind_eq, Prog.bind_assoc]
          refine .andThen (fun _ => ?_) (covered_valid _)
          refine .andThen (fun ipld => ?_) (Prog.coveredBy_ofExcept _)
          exact covered_write fun o => .ret rfl
  | update collection rkey value =>
      obtain ⟨hkind, hcollection, hrkey, rfl⟩ := h
      rw [applyWrite, Embedded.applyWrite, hcollection, hkind, hrkey]
      refine .andThen (fun _ => ?_) (covered_valid _)
      refine .andThen (fun _ => ?_) (covered_valid _)
      refine .andThen (fun ipld => ?_) (Prog.coveredBy_ofExcept _)
      exact covered_write fun o => .ret rfl
  | delete collection rkey =>
      obtain ⟨hkind, hcollection, hrkey⟩ := h
      rw [applyWrite, Embedded.applyWrite, hcollection, hkind, hrkey]
      refine .andThen (fun _ => ?_) (covered_valid _)
      refine .andThen (fun _ => ?_) (covered_valid _)
      exact covered_write fun o => .ret rfl

def Json.isObj : Json → Bool
  | .obj _ => true
  | _ => false

/-- By recursion over the entries; the number of the results so far says
which clock the next key is made of. -/
theorem applyEach_covered (writer : RepoWriter L) :
    ∀ {js : List Json} {ws : List ApplyWritesWrite} {last last' : Option CommitMeta}
      {results results' : List Json}, js.mapM ApplyWritesWrite.read = some ws →
      (∀ j ∈ js, j.isObj) → results.length = results'.length →
      Covered (applyEach cfg did writer micros ws last results)
        (Embedded.applyEach cfg did writer micros js last' results')
  | [], ws, _, _, _, _, h, _, _ => by
      obtain rfl := Option.some.inj h
      exact .ret trivial
  | j :: js, ws, last, last', results, results', h, hobj, hlen => by
      rw [List.mapM_cons] at h
      obtain ⟨w, hw, h⟩ := Option.bind_eq_some_iff.mp h
      obtain ⟨ws, hws, h⟩ := Option.bind_eq_some_iff.mp h
      obtain rfl := Option.some.inj h
      have hshown : w.Shown j := by
        have hj := hobj j List.mem_cons_self
        cases j with
        | obj kvs => exact ApplyWritesWrite.shown_of_read hw
        | _ => cases hj
      rw [applyEach, Embedded.applyEach, hlen]
      refine .bind ?_ (applyWrite_covered cfg hshown writer (micros results'.length))
      rintro ⟨outcome, result⟩ ⟨_, result'⟩ rfl
      refine applyEach_covered writer hws (fun j hj => hobj j (List.mem_cons_of_mem _ hj)) ?_
      rw [List.length_append, List.length_append, hlen]
      rfl

theorem applyWrites_covered {input : ApplyWritesInput} {js : List Json}
    (hrepo : (v.field "repo").asStr = some input.repo) (hjs : (v.field "writes").asArr = some js)
    (hread : js.mapM ApplyWritesWrite.read = some input.writes) (hobj : ∀ j ∈ js, j.isObj) :
    Covered (applyWrites cfg did input micros) (Embedded.applyWrites cfg did v micros) := by
  rw [applyWrites, Embedded.applyWrites, hjs]
  refine .andThen (fun _ => ?_) (covered_ownRepo hrepo)
  cases js with
  | nil =>
      rw [← Option.some.inj hread]
      exact .ret trivial
  | cons j js =>
      have hne : input.writes.isEmpty = false := by
        cases hw : input.writes with
        | nil =>
            rw [hw, List.mapM_cons] at hread
            obtain ⟨w, -, h⟩ := Option.bind_eq_some_iff.mp hread
            obtain ⟨ws, -, h⟩ := Option.bind_eq_some_iff.mp h
            cases h
        | cons w ws => rfl
      simp only [hne, List.isEmpty_cons, Bool.false_eq_true, if_false]
      exact covered_buildWriter cfg fun w => applyEach_covered cfg w hread hobj rfl

/-! ## What a request must be to be answered -/

theorem returns_of_expand {α : Type} {draws : Nat → WriteDraw} {a : α} {p : XrpcProg L α} (n : Nat)
    (h : (expand draws n p).Returns a) : p.Returns a := by
  induction p generalizing n with
  | ret b => exact h
  | fail e => exact h
  | op o k ih =>
      cases o with
      | applyOne w op =>
          obtain ⟨r, -, hr⟩ := Prog.returns_bind.mp h
          exact ⟨r, ih r (n + 1) hr⟩
      | _ =>
          obtain ⟨r, hr⟩ := h
          exact ⟨r, ih r n hr⟩

theorem encodes_of_returns {record : Json} {α : Type} {f : L.Ipld → XrpcProg L α} {a : α}
    (h : ((toIpld cfg record).bind f).Returns a) : ∃ ipld, cfg.jsonValueToIpld record = .ok ipld := by
  obtain ⟨ipld, hipld, -⟩ := Prog.returns_bind.mp h
  exact ⟨ipld, (Prog.returns_ofExcept _ _ _).mp hipld⟩

theorem createRecord_returns {input : CreateRecordInput} {micros : Nat} {r : XrpcResponse}
    (h : (createRecord cfg did input micros).Returns r) :
    ∃ ipld, cfg.jsonValueToIpld input.record = .ok ipld := by
  obtain ⟨_, -, h⟩ := Prog.returns_bind.mp h
  obtain ⟨_, -, h⟩ := Prog.returns_bind.mp h
  obtain ⟨_, -, h⟩ := Prog.returns_bind.mp h
  obtain ⟨_, -, h⟩ := Prog.returns_bind.mp h
  exact encodes_of_returns cfg h

theorem putRecord_returns {input : PutRecordInput} {r : XrpcResponse}
    (h : (putRecord cfg did input).Returns r) :
    ∃ ipld, cfg.jsonValueToIpld input.record = .ok ipld := by
  obtain ⟨_, -, h⟩ := Prog.returns_bind.mp h
  obtain ⟨_, -, h⟩ := Prog.returns_bind.mp h
  obtain ⟨_, -, h⟩ := Prog.returns_bind.mp h
  obtain ⟨found, h⟩ := h
  obtain ⟨_, -, h⟩ := Prog.returns_bind.mp h
  exact encodes_of_returns cfg h

namespace Embedded

theorem obj_of_asStr {name s : String} (h : (v.field name).asStr = some s) : v.isObj := by
  cases v with
  | obj kvs => rfl
  | _ => cases h

theorem obj_of_owned {β : Type} {f : Unit → XrpcProg L β} {b : β}
    (h : ((ownRepo v did).bind f).Returns b) : v.isObj ∧ (f ()).Returns b := by
  obtain ⟨_, howned, h⟩ := Prog.returns_bind.mp h
  refine ⟨?_, h⟩
  unfold ownRepo at howned
  split_ifs at howned with hne
  · exact howned.elim
  · exact obj_of_asStr (not_not.mp hne)

theorem record_of_returns {β : Type} {f : L.Ipld → XrpcProg L β} {b : β}
    (h : ((recordOf cfg v).bind f).Returns b) : (v.field "record").isNull = false := by
  obtain ⟨ipld, hrec, -⟩ := Prog.returns_bind.mp h
  unfold recordOf at hrec
  split_ifs at hrec with hnull
  · exact hrec.elim
  · exact Bool.eq_false_iff.mpr hnull

theorem obj_of_required {name text : String} {β : Type} {f : String → XrpcProg L β} {b : β}
    (h : ((required (v.field name).asStr text).bind f).Returns b) : v.isObj := by
  cases hs : (v.field name).asStr with
  | none =>
      rw [hs] at h
      exact h.elim
  | some s => exact obj_of_asStr hs

theorem applyEach_returns {writer : RepoWriter L} {r : XrpcResponse} :
    ∀ {js : List Json} {last : Option CommitMeta} {results : List Json},
      (applyEach cfg did writer micros js last results).Returns r → ∀ j ∈ js, j.isObj
  | [], _, _, _, _, hj => (nomatch hj)
  | w :: js, _, _, h, j, hj => by
      obtain ⟨a, hw, hrest⟩ := Prog.returns_bind.mp h
      rcases List.mem_cons.mp hj with rfl | hj
      · exact obj_of_required hw
      · exact applyEach_returns hrest j hj

end Embedded

/-! ## Accepted alike -/

/-- The bodies the two servers read alike: an object, with a record that
is not `null`, and with objects for the writes of a batch. The axum server
also takes an array for an object, as serde does. -/
def RepoMethod.ReadAlike (method : RepoMethod) (body : JsonBody) : Prop :=
  ∃ v, readJsonBody body = some v ∧ v.isObj ∧
    match method with
    | .createRecord | .putRecord => (v.field "record").isNull = false
    | .deleteRecord => True
    | .applyWrites => ∀ j ∈ (v.field "writes").asArr.getD [], j.isObj

theorem RepoMethod.readAlike_of_returns {method : RepoMethod} {body : JsonBody} {r : XrpcResponse}
    (h : (method.embedded cfg did micros body).Returns r) : method.ReadAlike body := by
  rw [RepoMethod.embedded] at h
  cases hv : readJsonBody body with
  | none =>
      rw [hv] at h
      exact h.elim
  | some v =>
      rw [hv] at h
      cases method with
      | createRecord =>
          obtain ⟨hobj, h⟩ := Embedded.obj_of_owned h
          obtain ⟨_, -, h⟩ := Prog.returns_bind.mp h
          obtain ⟨_, -, h⟩ := Prog.returns_bind.mp h
          obtain ⟨_, -, h⟩ := Prog.returns_bind.mp h
          exact ⟨v, hv, hobj, Embedded.record_of_returns cfg h⟩
      | putRecord =>
          obtain ⟨_, hnamed, h⟩ := Prog.returns_bind.mp h
          exact ⟨v, hv, (Embedded.obj_of_owned hnamed).1, Embedded.record_of_returns cfg h⟩
      | deleteRecord =>
          obtain ⟨_, hnamed, -⟩ := Prog.returns_bind.mp h
          exact ⟨v, hv, (Embedded.obj_of_owned hnamed).1, trivial⟩
      | applyWrites =>
          obtain ⟨hobj, h⟩ := Embedded.obj_of_owned h
          refine ⟨v, hv, hobj, ?_⟩
          cases hjs : (v.field "writes").asArr with
          | none =>
              rw [hjs] at h
              exact h.elim
          | some js =>
              rw [hjs] at h
              cases js with
              | nil => exact fun j hj => (nomatch hj)
              | cons j js =>
                  obtain ⟨w, -, h⟩ := Prog.returns_bind.mp h
                  exact Embedded.applyEach_returns cfg h

theorem RepoMethod.covered {method : RepoMethod} {body : JsonBody} {p : XrpcProg L XrpcResponse}
    {r : XrpcResponse} (hp : method.axum cfg did micros body = some p) (hr : p.Returns r)
    (h : method.ReadAlike body) : Covered p (method.embedded cfg did micros body) := by
  obtain ⟨v, hv, hobj, hm⟩ := h
  have hshows : body.Shows v := by
    cases body with
    | obj members => exact JsonBody.shows_readJsonBody hv
    | arr elements =>
        obtain ⟨xs, -, rfl⟩ := Option.map_eq_some_iff.mp hv
        cases hobj
    | other =>
        obtain rfl := Option.some.inj hv
        cases hobj
  rw [RepoMethod.embedded, hv]
  cases method with
  | createRecord =>
      obtain ⟨input, hread, rfl⟩ := Option.map_eq_some_iff.mp hp
      obtain ⟨ipld, hipld⟩ := createRecord_returns cfg hr
      have hshown := CreateRecordInput.shown_of_read hshows hread
      exact createRecord_covered cfg hshown (hshown.2.2.2 ▸ hm) hipld
  | putRecord =>
      obtain ⟨input, hread, rfl⟩ := Option.map_eq_some_iff.mp hp
      obtain ⟨ipld, hipld⟩ := putRecord_returns cfg hr
      have hshown := PutRecordInput.shown_of_read hshows hread
      exact putRecord_covered cfg hshown (hshown.2.2.2 ▸ hm) hipld
  | deleteRecord =>
      obtain ⟨input, hread, rfl⟩ := Option.map_eq_some_iff.mp hp
      exact deleteRecord_covered cfg (DeleteRecordInput.shown_of_read hshows hread)
  | applyWrites =>
      obtain ⟨input, hread, rfl⟩ := Option.map_eq_some_iff.mp hp
      obtain ⟨hrepo, js, hjs, hws⟩ := ApplyWritesInput.shown_of_read hshows hread
      refine applyWrites_covered cfg hrepo hjs hws ?_
      rw [hjs] at hm
      exact hm

section

variable (key : String → Except String L.Key) (treeGet : TreeGet L) (draws : Nat → WriteDraw)
  (did micros)

/-- What the axum server makes of a request, its store calls coming out
as `fates` says; `none` too where the body is rejected. -/
def RepoMethod.axumRun (method : RepoMethod) (body : JsonBody) (s : RepoStore L)
    (fates : List WriterFate) : Option (Except XrpcError XrpcResponse × RepoStore L) :=
  (method.axum cfg did micros body).bind fun p =>
    (expand draws 0 p).against (S := recordSig L XrpcError)
      (RecordOp.exec (axumEnv key treeGet) 0) s fates

/-- The method on the embedded server, with the steps of its writer, alone
on the store; `fates` says how the store calls come out. -/
def RepoMethod.embeddedRun (method : RepoMethod) (body : JsonBody) (s : RepoStore L)
    (fates : List WriterFate) : Option (Except XrpcError XrpcResponse × RepoStore L) :=
  (expand draws 0 (method.embedded cfg did micros body)).against (S := recordSig L XrpcError)
    (RecordOp.exec (embeddedEnv key treeGet) 0) s fates

end

/-- What the axum server accepts the embedded server accepts, with the
same repository after it, exactly where both read the body alike. From the
input on the two do the same; it is the reading that differs: the axum
server takes an array in the place of an object, and `null` for a record.
-/
theorem accepted_alike_iff {key : String → Except String L.Key} {treeGet : TreeGet L}
    {draws : Nat → WriteDraw} (view : TreeView L) {method : RepoMethod} {body : JsonBody}
    {s t : RepoStore L} {fates : List WriterFate} {r : XrpcResponse}
    (h : method.axumRun cfg did micros key treeGet draws body s fates = some (.ok r, t)) :
    (∃ r' t', method.embeddedRun cfg did micros key treeGet draws body s fates
          = some (.ok r', t') ∧ mapOf view t' did = mapOf view t did)
      ↔ method.ReadAlike body := by
  constructor
  · rintro ⟨r', t', hrun, -⟩
    have hret := Prog.yields_returns.of_against hrun r' rfl
    exact RepoMethod.readAlike_of_returns cfg (returns_of_expand 0 hret)
  · intro halike
    obtain ⟨p, hp, hrun⟩ := Option.bind_eq_some_iff.mp h
    have hret := returns_of_expand 0 (Prog.yields_returns.of_against hrun r rfl)
    have hcovered := covered_expand draws 0 (RepoMethod.covered cfg hp hret halike)
    obtain ⟨r', hr', -⟩ := hcovered.against exec_alike hrun
    exact ⟨r', t, hr', rfl⟩

end

def sampleRecordBody (record : Json) : JsonBody :=
  .obj [("repo", some (.str "did:plc:alice")), ("collection", some (.str "app.bsky.feed.post")),
    ("rkey", some (.str "1")), ("record", some record)]

/-- The axum server runs a create of the record on an empty store. -/
theorem sampleRecordBody_axum (record : Json)
    (h : ((RepoMethod.createRecord.axumRun batchServer "did:plc:alice" (fun _ => 0)
        (fun _ => .ok ()) sampleTreeGet (fun _ => sampleDraw) (sampleRecordBody record)
        (RepoStore.empty sampleRepo) (List.replicate 17 .done)).map fun r => r.1.isOk)
      = some true) :
    ∃ r t, RepoMethod.createRecord.axumRun batchServer "did:plc:alice" (fun _ => 0)
      (fun _ => .ok ()) sampleTreeGet (fun _ => sampleDraw) (sampleRecordBody record)
      (RepoStore.empty sampleRepo) (List.replicate 17 .done) = some (.ok r, t) := by
  obtain ⟨⟨x, t⟩, hrun, hok⟩ := Option.map_eq_some_iff.mp h
  cases x with
  | error e => cases hok
  | ok r => exact ⟨r, t, hrun⟩

/-- A record that is `null` is created by the one and refused by the
other. -/
theorem null_record_refused :
    (∃ r t, RepoMethod.createRecord.axumRun batchServer "did:plc:alice" (fun _ => 0)
      (fun _ => .ok ()) sampleTreeGet (fun _ => sampleDraw) (sampleRecordBody .null)
      (RepoStore.empty sampleRepo) (List.replicate 17 .done) = some (.ok r, t))
    ∧ ∀ fates r t, RepoMethod.createRecord.embeddedRun batchServer "did:plc:alice" (fun _ => 0)
      (fun _ => .ok ()) sampleTreeGet (fun _ => sampleDraw) (sampleRecordBody .null)
      (RepoStore.empty sampleRepo) fates ≠ some (.ok r, t) := by
  refine ⟨sampleRecordBody_axum .null (by decide +kernel), fun fates r t hrun => ?_⟩
  have hfail : RepoMethod.createRecord.embedded batchServer "did:plc:alice" (fun _ => 0)
      (sampleRecordBody .null) = .fail (.invalidRequest "record is required") := rfl
  rw [RepoMethod.embeddedRun, hfail] at hrun
  cases fates with
  | nil => cases hrun
  | cons c fates => cases hrun

theorem plain_record_accepted : ∃ fates r t,
    RepoMethod.createRecord.axumRun batchServer "did:plc:alice" (fun _ => 0) (fun _ => .ok ())
      sampleTreeGet (fun _ => sampleDraw) (sampleRecordBody (.obj [])) (RepoStore.empty sampleRepo)
      fates = some (.ok r, t)
    ∧ ∃ r' t', RepoMethod.createRecord.embeddedRun batchServer "did:plc:alice" (fun _ => 0)
      (fun _ => .ok ()) sampleTreeGet (fun _ => sampleDraw) (sampleRecordBody (.obj []))
      (RepoStore.empty sampleRepo) fates = some (.ok r', t')
      ∧ mapOf sampleView t' "did:plc:alice" = mapOf sampleView t "did:plc:alice" := by
  obtain ⟨r, t, hrun⟩ := sampleRecordBody_axum (.obj []) (by decide +kernel)
  exact ⟨_, r, t, hrun, (accepted_alike_iff _ sampleView hrun).mpr ⟨_, rfl, rfl, rfl⟩⟩

end Stelyph
