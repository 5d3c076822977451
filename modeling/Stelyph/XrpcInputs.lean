import Stelyph.EmbeddedRepo
import Stelyph.XrpcHandlers

/-!
# Request bodies

The bodies of the four record methods, as the two servers read them. The
axum server reads a body into a struct of its own, field by field as
serde does it; the embedded server reads it into a JSON value and
indexes that.

A body is a JSON document of at most 64 KiB. A member is `none` where the
JSON library can skip it but not build it: nested too deep, a number out
of range, half of a surrogate pair. serde skips a member that it has no
field for, and it reads a struct from an array as well, which holds the
fields in their order.
-/

namespace Stelyph

/-- The JSON document of a request, members in their order and with
repetitions. `none` stands for a value that can be skipped but not built. -/
inductive JsonBody where
  | obj (members : List (String × Option Json))
  | arr (elements : List (Option Json))
  /-- Any other value: it has no fields, however it is read. -/
  | other

namespace JsonBody

/-- A value inside a body that was built whole. -/
def ofJson : Json → JsonBody
  | .obj kvs => .obj (kvs.map fun kv => (kv.1, some kv.2))
  | .arr xs => .arr (xs.map some)
  | _ => .other

/-- A field of the struct with the given fields, `some none` where it is
left out: no field may stand twice, and an array leaves none out. -/
def fieldOf (names : List String) (body : JsonBody) (name : String) : Option (Option Json) :=
  match body with
  | .obj members =>
      match members.filter fun m => m.1 = name with
      | [] => some none
      | [m] => m.2.map some
      | _ => none
  | .arr elements =>
      if elements.length = names.length then
        ((elements[names.idxOf name]?).bind id).map some
      else none
  | .other => none

/-- The tag of an internally tagged enum. -/
def tag : JsonBody → Option String
  | .obj members =>
      match members.filter fun m => m.1 = "$type" with
      | [m] => m.2.bind Json.asStr
      | _ => none
  | .arr (x :: _) => x.bind Json.asStr
  | _ => none

/-- A field that has to be there. -/
def needed {α : Type} (field : Option (Option Json)) (read : Json → Option α) : Option α :=
  match field with
  | some (some v) => read v
  | _ => none

/-- A field of type `Option`. -/
def optional {α : Type} (field : Option (Option Json)) (read : Json → Option α) :
    Option (Option α) :=
  match field with
  | none => none
  | some none => some none
  | some (some v) => if v.isNull then some none else (read v).map some

end JsonBody

/-! ## Inputs of the axum server -/

/-- The input of `createRecord` from its body. `validate` and `swapCommit`
have to be of their types, and are not used. -/
def CreateRecordInput.read (body : JsonBody) : Option CreateRecordInput := do
  let field := body.fieldOf ["repo", "collection", "record", "rkey", "validate", "swapCommit"]
  let repo ← JsonBody.needed (field "repo") Json.asStr
  let collection ← JsonBody.needed (field "collection") Json.asStr
  let record ← JsonBody.needed (field "record") some
  let rkey ← JsonBody.optional (field "rkey") Json.asStr
  let _ ← JsonBody.optional (field "validate") Json.asBool
  let _ ← JsonBody.optional (field "swapCommit") Json.asStr
  return ⟨repo, collection, record, rkey⟩

/-- The body as serde reads it for `putRecord`: what is needed, and what
may be left out but not be of another kind. -/
def PutRecordInput.read (body : JsonBody) : Option PutRecordInput := do
  let field := body.fieldOf
    ["repo", "collection", "rkey", "record", "validate", "swapRecord", "swapCommit"]
  let repo ← JsonBody.needed (field "repo") Json.asStr
  let collection ← JsonBody.needed (field "collection") Json.asStr
  let rkey ← JsonBody.needed (field "rkey") Json.asStr
  let record ← JsonBody.needed (field "record") some
  let _ ← JsonBody.optional (field "validate") Json.asBool
  let _ ← JsonBody.optional (field "swapRecord") some
  let _ ← JsonBody.optional (field "swapCommit") Json.asStr
  return ⟨repo, collection, rkey, record⟩

/-- The body as serde reads it for `deleteRecord`. -/
def DeleteRecordInput.read (body : JsonBody) : Option DeleteRecordInput := do
  let field := body.fieldOf ["repo", "collection", "rkey", "swapRecord", "swapCommit"]
  let repo ← JsonBody.needed (field "repo") Json.asStr
  let collection ← JsonBody.needed (field "collection") Json.asStr
  let rkey ← JsonBody.needed (field "rkey") Json.asStr
  let _ ← JsonBody.optional (field "swapRecord") Json.asStr
  let _ ← JsonBody.optional (field "swapCommit") Json.asStr
  return ⟨repo, collection, rkey⟩

/-- The tag stands with the fields of the variant it names. -/
def ApplyWritesWrite.read (w : Json) : Option ApplyWritesWrite := do
  let body := JsonBody.ofJson w
  match ← body.tag with
  | "com.atproto.repo.applyWrites#create" =>
      let field := body.fieldOf ["$type", "collection", "rkey", "value"]
      let collection ← JsonBody.needed (field "collection") Json.asStr
      let rkey ← JsonBody.optional (field "rkey") Json.asStr
      let value ← JsonBody.needed (field "value") some
      return .create collection rkey value
  | "com.atproto.repo.applyWrites#update" =>
      let field := body.fieldOf ["$type", "collection", "rkey", "value"]
      let collection ← JsonBody.needed (field "collection") Json.asStr
      let rkey ← JsonBody.needed (field "rkey") Json.asStr
      let value ← JsonBody.needed (field "value") some
      return .update collection rkey value
  | "com.atproto.repo.applyWrites#delete" =>
      let field := body.fieldOf ["$type", "collection", "rkey"]
      let collection ← JsonBody.needed (field "collection") Json.asStr
      let rkey ← JsonBody.needed (field "rkey") Json.asStr
      return .delete collection rkey
  | _ => none

/-- The body as serde reads it for `applyWrites`: one write that cannot be
read spoils the batch. -/
def ApplyWritesInput.read (body : JsonBody) : Option ApplyWritesInput := do
  let field := body.fieldOf ["repo", "validate", "writes", "swapCommit"]
  let repo ← JsonBody.needed (field "repo") Json.asStr
  let _ ← JsonBody.optional (field "validate") Json.asBool
  let writes ← JsonBody.needed (field "writes") fun v =>
    v.asArr.bind fun ws => ws.mapM ApplyWritesWrite.read
  let _ ← JsonBody.optional (field "swapCommit") Json.asStr
  return ⟨repo, writes⟩

/-! ## The four methods on each server -/

/-- The members, if every one of them was built. -/
def builtMembers (members : List (String × Option Json)) : Option (List (String × Json)) :=
  members.mapM fun m => m.2.map fun v => (m.1, v)

/-- The four methods that write records. -/
inductive RepoMethod where
  | createRecord
  | putRecord
  | deleteRecord
  | applyWrites
deriving DecidableEq, Repr

section

variable {L : RepoLib} (cfg : XrpcConfig L) (did : String) (micros : Nat → Nat)

/-- The handler behind its extractors, `none` where the body is not its
input. -/
def RepoMethod.axum (method : RepoMethod) (body : JsonBody) : Option (XrpcProg L XrpcResponse) :=
  match method with
  | .createRecord =>
      (CreateRecordInput.read body).map fun input => Stelyph.createRecord cfg did input (micros 0)
  | .putRecord => (PutRecordInput.read body).map fun input => Stelyph.putRecord cfg did input
  | .deleteRecord =>
      (DeleteRecordInput.read body).map fun input => Stelyph.deleteRecord cfg did input
  | .applyWrites =>
      (ApplyWritesInput.read body).map fun input => Stelyph.applyWrites cfg did input micros

/-- `read_json_body`: of two members of a name the last one counts. -/
def readJsonBody : JsonBody → Option Json
  | .obj members => (builtMembers members).map fun kvs => .obj kvs.reverse
  | .arr elements => (elements.mapM id).map .arr
  | .other => some .null

def RepoMethod.embedded (method : RepoMethod) (body : JsonBody) : XrpcProg L XrpcResponse :=
  match readJsonBody body with
  | none => .fail (.invalidRequest "invalid JSON body")
  | some v =>
      match method with
      | .createRecord => Embedded.createRecord cfg did v (micros 0)
      | .putRecord => Embedded.putRecord cfg did v
      | .deleteRecord => Embedded.deleteRecord cfg did v
      | .applyWrites => Embedded.applyWrites cfg did v micros

end

/-! ## What a field is to the other server -/

theorem eq_map_of_builtMembers {kvs : List (String × Json)} :
    ∀ {members : List (String × Option Json)}, builtMembers members = some kvs →
      members = kvs.map fun kv => (kv.1, some kv.2) := by
  intro members
  induction members generalizing kvs with
  | nil =>
      intro h
      obtain rfl := Option.some.inj h
      rfl
  | cons m members ih =>
      intro h
      rw [builtMembers, List.mapM_cons] at h
      obtain ⟨kv, hkv, h⟩ := Option.bind_eq_some_iff.mp h
      obtain ⟨rest, hrest, h⟩ := Option.bind_eq_some_iff.mp h
      obtain rfl := Option.some.inj h
      obtain ⟨v, hv, rfl⟩ := Option.map_eq_some_iff.mp hkv
      rw [List.map_cons, ← ih hrest, ← hv]

namespace JsonBody

section

variable {names : List String} {kvs : List (String × Json)} {name : String} {x : Option Json}

/-- A field serde finds is found from either end of the object. -/
theorem find_of_fieldOf
    (h : fieldOf names (.obj (kvs.map fun kv => (kv.1, some kv.2))) name = some x) :
    ((kvs.filter fun kv => kv.1 = name).head?).map Prod.snd = x ∧
      ((kvs.filter fun kv => kv.1 = name).getLast?).map Prod.snd = x := by
  rw [fieldOf, List.filter_map] at h
  simp only [Function.comp_def] at h
  generalize kvs.filter (fun kv => decide (kv.1 = name)) = found at h
  match found, h with
  | [], h =>
      obtain rfl := Option.some.inj h
      exact ⟨rfl, rfl⟩
  | [kv], h =>
      obtain rfl := Option.some.inj h
      exact ⟨rfl, rfl⟩

theorem field_of_fieldOf
    (h : fieldOf names (.obj (kvs.map fun kv => (kv.1, some kv.2))) name = some x) :
    (Json.obj kvs).field name = x.getD .null
    ∧ (Json.obj kvs.reverse).field name = x.getD .null := by
  obtain ⟨hfirst, hlast⟩ := find_of_fieldOf h
  constructor
  · rw [Json.field, Json.get, ← List.head?_filter, hfirst]
  · rw [Json.field, Json.get, ← List.head?_filter, List.filter_reverse, List.head?_reverse, hlast]

end

/-- A value that answers for the fields serde reads from the body. -/
def Shows (body : JsonBody) (v : Json) : Prop :=
  ∀ names name x, body.fieldOf names name = some x → v.field name = x.getD .null

theorem shows_readJsonBody {members : List (String × Option Json)} {v : Json}
    (h : readJsonBody (.obj members) = some v) : (JsonBody.obj members).Shows v := by
  obtain ⟨kvs, hkvs, rfl⟩ := Option.map_eq_some_iff.mp h
  obtain rfl := eq_map_of_builtMembers hkvs
  exact fun names name x hx => (field_of_fieldOf hx).2

theorem shows_ofJson (kvs : List (String × Json)) : (ofJson (.obj kvs)).Shows (.obj kvs) :=
  fun _ _ _ hx => (field_of_fieldOf hx).1

theorem field_of_tag {kvs : List (String × Json)} {kind : String}
    (h : (ofJson (.obj kvs)).tag = some kind) :
    ((Json.obj kvs).field "$type").asStr = some kind := by
  rw [ofJson, tag, List.filter_map] at h
  simp only [Function.comp_def] at h
  rw [Json.field, Json.get, ← List.head?_filter]
  generalize kvs.filter (fun kv => decide (kv.1 = "$type")) = found at h
  match found, h with
  | [kv], h => exact h

theorem Shows.needed {body : JsonBody} {v : Json} (hv : body.Shows v) {names : List String}
    {name : String} {α : Type} {read : Json → Option α} {a : α}
    (h : JsonBody.needed (body.fieldOf names name) read = some a) :
    read (v.field name) = some a := by
  unfold JsonBody.needed at h
  split at h
  · rename_i x hx
    rw [hv names name _ hx]
    exact h
  · cases h

theorem Shows.optional {body : JsonBody} {v : Json} (hv : body.Shows v) {names : List String}
    {name : String} {a : Option String}
    (h : JsonBody.optional (body.fieldOf names name) Json.asStr = some a) :
    (v.field name).asStr = a := by
  unfold JsonBody.optional at h
  split at h
  · cases h
  · rename_i hx
    obtain rfl := Option.some.inj h
    rw [hv names name _ hx]
    rfl
  · rename_i x hx
    rw [hv names name _ hx]
    split_ifs at h with hnull
    · obtain rfl := Option.some.inj h
      cases x <;> first | rfl | cases hnull
    · obtain ⟨s, hs, rfl⟩ := Option.map_eq_some_iff.mp h
      exact hs

end JsonBody

/-! ## What the inputs say of the value -/

def CreateRecordInput.Shown (v : Json) (input : CreateRecordInput) : Prop :=
  (v.field "repo").asStr = some input.repo ∧ (v.field "collection").asStr = some input.collection ∧
    (v.field "rkey").asStr = input.rkey ∧ v.field "record" = input.record

def PutRecordInput.Shown (v : Json) (input : PutRecordInput) : Prop :=
  (v.field "repo").asStr = some input.repo ∧ (v.field "collection").asStr = some input.collection ∧
    (v.field "rkey").asStr = some input.rkey ∧ v.field "record" = input.record

def DeleteRecordInput.Shown (v : Json) (input : DeleteRecordInput) : Prop :=
  (v.field "repo").asStr = some input.repo ∧ (v.field "collection").asStr = some input.collection ∧
    (v.field "rkey").asStr = some input.rkey

def ApplyWritesWrite.Shown (w : Json) : ApplyWritesWrite → Prop
  | .create collection rkey value =>
      (w.field "$type").asStr = some "com.atproto.repo.applyWrites#create" ∧
        (w.field "collection").asStr = some collection ∧ (w.field "rkey").asStr = rkey ∧
        w.field "value" = value
  | .update collection rkey value =>
      (w.field "$type").asStr = some "com.atproto.repo.applyWrites#update" ∧
        (w.field "collection").asStr = some collection ∧ (w.field "rkey").asStr = some rkey ∧
        w.field "value" = value
  | .delete collection rkey =>
      (w.field "$type").asStr = some "com.atproto.repo.applyWrites#delete" ∧
        (w.field "collection").asStr = some collection ∧ (w.field "rkey").asStr = some rkey

section

variable {body : JsonBody} {v : Json}

theorem CreateRecordInput.shown_of_read (hv : body.Shows v) {input : CreateRecordInput}
    (h : CreateRecordInput.read body = some input) : input.Shown v := by
  obtain ⟨repo, hrepo, h⟩ := Option.bind_eq_some_iff.mp h
  obtain ⟨collection, hcollection, h⟩ := Option.bind_eq_some_iff.mp h
  obtain ⟨record, hrecord, h⟩ := Option.bind_eq_some_iff.mp h
  obtain ⟨rkey, hrkey, h⟩ := Option.bind_eq_some_iff.mp h
  obtain ⟨validate, -, h⟩ := Option.bind_eq_some_iff.mp h
  obtain ⟨swapCommit, -, h⟩ := Option.bind_eq_some_iff.mp h
  obtain rfl := Option.some.inj h
  exact ⟨hv.needed hrepo, hv.needed hcollection, hv.optional hrkey,
    Option.some.inj (hv.needed hrecord)⟩

theorem PutRecordInput.shown_of_read (hv : body.Shows v) {input : PutRecordInput}
    (h : PutRecordInput.read body = some input) : input.Shown v := by
  obtain ⟨repo, hrepo, h⟩ := Option.bind_eq_some_iff.mp h
  obtain ⟨collection, hcollection, h⟩ := Option.bind_eq_some_iff.mp h
  obtain ⟨rkey, hrkey, h⟩ := Option.bind_eq_some_iff.mp h
  obtain ⟨record, hrecord, h⟩ := Option.bind_eq_some_iff.mp h
  obtain ⟨validate, -, h⟩ := Option.bind_eq_some_iff.mp h
  obtain ⟨swapRecord, -, h⟩ := Option.bind_eq_some_iff.mp h
  obtain ⟨swapCommit, -, h⟩ := Option.bind_eq_some_iff.mp h
  obtain rfl := Option.some.inj h
  exact ⟨hv.needed hrepo, hv.needed hcollection, hv.needed hrkey,
    Option.some.inj (hv.needed hrecord)⟩

theorem DeleteRecordInput.shown_of_read (hv : body.Shows v) {input : DeleteRecordInput}
    (h : DeleteRecordInput.read body = some input) : input.Shown v := by
  obtain ⟨repo, hrepo, h⟩ := Option.bind_eq_some_iff.mp h
  obtain ⟨collection, hcollection, h⟩ := Option.bind_eq_some_iff.mp h
  obtain ⟨rkey, hrkey, h⟩ := Option.bind_eq_some_iff.mp h
  obtain ⟨swapRecord, -, h⟩ := Option.bind_eq_some_iff.mp h
  obtain ⟨swapCommit, -, h⟩ := Option.bind_eq_some_iff.mp h
  obtain rfl := Option.some.inj h
  exact ⟨hv.needed hrepo, hv.needed hcollection, hv.needed hrkey⟩

theorem ApplyWritesWrite.shown_of_read {kvs : List (String × Json)} {w : ApplyWritesWrite}
    (h : ApplyWritesWrite.read (.obj kvs) = some w) : w.Shown (.obj kvs) := by
  have hv := JsonBody.shows_ofJson kvs
  obtain ⟨kind, hkind, h⟩ := Option.bind_eq_some_iff.mp h
  have hkind := JsonBody.field_of_tag hkind
  split at h
  · obtain ⟨collection, hcollection, h⟩ := Option.bind_eq_some_iff.mp h
    obtain ⟨rkey, hrkey, h⟩ := Option.bind_eq_some_iff.mp h
    obtain ⟨value, hvalue, h⟩ := Option.bind_eq_some_iff.mp h
    obtain rfl := Option.some.inj h
    exact ⟨hkind, hv.needed hcollection, hv.optional hrkey, Option.some.inj (hv.needed hvalue)⟩
  · obtain ⟨collection, hcollection, h⟩ := Option.bind_eq_some_iff.mp h
    obtain ⟨rkey, hrkey, h⟩ := Option.bind_eq_some_iff.mp h
    obtain ⟨value, hvalue, h⟩ := Option.bind_eq_some_iff.mp h
    obtain rfl := Option.some.inj h
    exact ⟨hkind, hv.needed hcollection, hv.needed hrkey, Option.some.inj (hv.needed hvalue)⟩
  · obtain ⟨collection, hcollection, h⟩ := Option.bind_eq_some_iff.mp h
    obtain ⟨rkey, hrkey, h⟩ := Option.bind_eq_some_iff.mp h
    obtain rfl := Option.some.inj h
    exact ⟨hkind, hv.needed hcollection, hv.needed hrkey⟩
  · cases h

/-- The owner and the entries of a batch. -/
theorem ApplyWritesInput.shown_of_read (hv : body.Shows v) {input : ApplyWritesInput}
    (h : ApplyWritesInput.read body = some input) :
    (v.field "repo").asStr = some input.repo ∧ ∃ ws, (v.field "writes").asArr = some ws ∧
      ws.mapM ApplyWritesWrite.read = some input.writes := by
  obtain ⟨repo, hrepo, h⟩ := Option.bind_eq_some_iff.mp h
  obtain ⟨validate, -, h⟩ := Option.bind_eq_some_iff.mp h
  obtain ⟨writes, hwrites, h⟩ := Option.bind_eq_some_iff.mp h
  obtain ⟨swapCommit, -, h⟩ := Option.bind_eq_some_iff.mp h
  obtain rfl := Option.some.inj h
  exact ⟨hv.needed hrepo, Option.bind_eq_some_iff.mp (hv.needed hwrites)⟩

end

end Stelyph
