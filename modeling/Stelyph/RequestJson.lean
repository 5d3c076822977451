import Mathlib.Data.String.Basic
import Stelyph.Jose

/-!
# JSON that is read by the Worker

`Request::json` of the Worker has JavaScript parse the text and then
builds the Rust value from the JavaScript one, by `serde_wasm_bindgen`.
A struct is filled from the members of an object, of which JavaScript
keeps the last with a name; an array has none of them. A
`serde_json::Value` is built from whatever there is, and a number is by
then a double: an integer survives within 2^53 only (`reread_eq_iff`).
-/

namespace Stelyph

namespace Json

/-! ## Structs -/

/-- The member of an object that a field of a struct is read from. -/
def member (name : String) : Json → Option Json
  | .obj kvs => (kvs.reverse.find? fun kv => kv.1 = name).map Prod.snd
  | _ => none

/-- `#[serde(default)]` -/
def orDefault {α : Type} (d : α) (read : Json → Option α) : Option Json → Option α
  | none => some d
  | some j => read j

/-- An `Option`: `null` is `None`. -/
def nullable {α : Type} (read : Json → Option α) : Json → Option (Option α)
  | .null => some none
  | j => (read j).map some

/-! ## Maps -/

/-- `BTreeMap::insert` -/
def insertMember (k : String) (v : Json) : List (String × Json) → List (String × Json)
  | [] => [(k, v)]
  | (k', v') :: kvs =>
      if k < k' then (k, v) :: (k', v') :: kvs
      else if k = k' then (k, v) :: kvs
      else (k', v') :: insertMember k v kvs

/-- The `serde_json::Map` of members that come one after the other. -/
def mapOf (kvs : List (String × Json)) : List (String × Json) :=
  kvs.foldl (fun map kv => insertMember kv.1 kv.2 map) []

/-- In the order of a map, with no key twice. -/
def Ascending (kvs : List (String × Json)) : Prop := (kvs.map Prod.fst).Pairwise (· < ·)

theorem mem_keys_insertMember {k : String} {v : Json} : ∀ {kvs : List (String × Json)} {x : String},
    x ∈ (insertMember k v kvs).map Prod.fst → x = k ∨ x ∈ kvs.map Prod.fst
  | [], x, h => by simpa [insertMember] using h
  | (k', v') :: kvs, x, h => by
      unfold insertMember at h
      split_ifs at h with hlt heq
      · simpa using h
      · subst heq
        exact Or.inr h
      · rcases List.mem_cons.mp h with rfl | h
        · exact Or.inr List.mem_cons_self
        · exact (mem_keys_insertMember h).imp_right (List.mem_cons_of_mem _)

theorem ascending_insertMember {k : String} {v : Json} : ∀ {kvs : List (String × Json)},
    Ascending kvs → Ascending (insertMember k v kvs)
  | [], _ => List.pairwise_singleton _ _
  | (k', v') :: kvs, h => by
      obtain ⟨hhead, htail⟩ := List.pairwise_cons.mp h
      unfold insertMember
      split_ifs with hlt heq
      · refine List.pairwise_cons.mpr ⟨fun x hx => ?_, h⟩
        rcases List.mem_cons.mp hx with rfl | hx
        · exact hlt
        · exact lt_trans hlt (hhead x hx)
      · subst heq
        exact h
      · refine List.pairwise_cons.mpr ⟨fun x hx => ?_, ascending_insertMember htail⟩
        rcases mem_keys_insertMember hx with rfl | hx
        · exact lt_of_le_of_ne (not_lt.mp hlt) (Ne.symm heq)
        · exact hhead x hx

/-- A key above all others goes to the end. -/
theorem insertMember_of_above {k : String} {v : Json} : ∀ {kvs : List (String × Json)},
    (∀ x ∈ kvs.map Prod.fst, x < k) → insertMember k v kvs = kvs ++ [(k, v)]
  | [], _ => rfl
  | (k', v') :: kvs, h => by
      have hlt : k' < k := h k' List.mem_cons_self
      rw [insertMember, if_neg (not_lt.mpr hlt.le), if_neg hlt.ne',
        insertMember_of_above fun x hx => h x (List.mem_cons_of_mem _ hx)]
      rfl

theorem foldl_insertMember : ∀ {kvs map : List (String × Json)}, Ascending (map ++ kvs) →
    kvs.foldl (fun map kv => insertMember kv.1 kv.2 map) map = map ++ kvs
  | [], map, _ => by simp
  | kv :: kvs, map, h => by
      have habove : ∀ x ∈ map.map Prod.fst, x < kv.1 := by
        rw [Ascending, List.map_append, List.pairwise_append] at h
        exact fun x hx => h.2.2 x hx kv.1 List.mem_cons_self
      rw [List.foldl_cons, insertMember_of_above habove, foldl_insertMember (by simpa using h)]
      simp

theorem ascending_mapOf (kvs : List (String × Json)) : Ascending (mapOf kvs) := by
  refine List.foldlRecOn kvs _ (motive := Ascending) List.Pairwise.nil ?_
  exact fun map h kv _ => ascending_insertMember h

theorem mapOf_of_ascending {kvs : List (String × Json)} (h : Ascending kvs) : mapOf kvs = kvs :=
  foldl_insertMember (by simpa using h)

end Json

/-! ## Values -/

/-- The doubles of JavaScript, by what `serde_json` makes of them. -/
structure JsNumbers where
  /-- The double of an integer outside the safe range, `none` where it is
  infinite. -/
  double : Int → Option Fraction
  /-- A number with a fraction or an exponent: an integer where its double
  is a safe one, `null` where that is infinite, and else the double. -/
  ofFraction : Fraction → Json

/-- `Number.isSafeInteger` -/
def isSafeInteger (n : Int) : Bool := -(2 ^ 53) < n && n < 2 ^ 53

namespace JsNumbers

variable (N : JsNumbers)

mutual

/-- The `serde_json::Value` that is built of what JavaScript has parsed. -/
def reread : Json → Json
  | .null => .null
  | .bool b => .bool b
  | .num n => if isSafeInteger n then .num n else (N.double n).elim .null .frac
  | .frac f => N.ofFraction f
  | .str s => .str s
  | .arr xs => .arr (rereadAll xs)
  | .obj kvs => .obj (Json.mapOf (rereadMembers kvs))

def rereadAll : List Json → List Json
  | [] => []
  | x :: xs => reread x :: rereadAll xs

def rereadMembers : List (String × Json) → List (String × Json)
  | [] => []
  | (k, v) :: kvs => (k, reread v) :: rereadMembers kvs

end

mutual

/-- Every integer is a safe one, every other number keeps its form as a
double, and members are in the order of a `serde_json::Map`. -/
def Exact : Json → Prop
  | .num n => isSafeInteger n = true
  | .frac f => N.ofFraction f = .frac f
  | .arr xs => ExactAll xs
  | .obj kvs => Json.Ascending kvs ∧ ExactMembers kvs
  | _ => True

def ExactAll : List Json → Prop
  | [] => True
  | x :: xs => Exact x ∧ ExactAll xs

def ExactMembers : List (String × Json) → Prop
  | [] => True
  | (_, v) :: kvs => Exact v ∧ ExactMembers kvs

end

variable {N}

theorem keys_rereadMembers : ∀ kvs : List (String × Json),
    (N.rereadMembers kvs).map Prod.fst = kvs.map Prod.fst
  | [] => rfl
  | (k, _) :: kvs => congrArg (k :: ·) (keys_rereadMembers kvs)

mutual

/-- What JavaScript keeps of a value is the value exactly where each of
its numbers fits. -/
theorem reread_eq_iff : ∀ j : Json, N.reread j = j ↔ N.Exact j
  | .null => by simp [reread, Exact]
  | .bool b => by simp [reread, Exact]
  | .str s => by simp [reread, Exact]
  | .frac f => by simp [reread, Exact]
  | .num n => by
      rw [reread, Exact]
      split_ifs with hsafe
      · simp [hsafe]
      · refine iff_of_false (fun h => ?_) hsafe
        cases hd : N.double n <;> simp [hd] at h
  | .arr xs => by rw [reread, Exact, Json.arr.injEq, rereadAll_eq_iff xs]
  | .obj kvs => by
      rw [reread, Exact, Json.obj.injEq, ← rereadMembers_eq_iff kvs]
      constructor
      · intro h
        have hasc : Json.Ascending kvs := h ▸ Json.ascending_mapOf _
        refine ⟨hasc, ?_⟩
        rw [Json.mapOf_of_ascending (by rwa [Json.Ascending, keys_rereadMembers])] at h
        exact h
      · rintro ⟨hasc, h⟩
        rw [h, Json.mapOf_of_ascending hasc]

theorem rereadAll_eq_iff : ∀ xs : List Json, N.rereadAll xs = xs ↔ N.ExactAll xs
  | [] => by simp [rereadAll, ExactAll]
  | x :: xs => by
      rw [rereadAll, ExactAll, List.cons.injEq, reread_eq_iff x, rereadAll_eq_iff xs]

theorem rereadMembers_eq_iff : ∀ kvs : List (String × Json),
    N.rereadMembers kvs = kvs ↔ N.ExactMembers kvs
  | [] => by simp [rereadMembers, ExactMembers]
  | (k, v) :: kvs => by
      rw [rereadMembers, ExactMembers, List.cons.injEq, Prod.mk.injEq, reread_eq_iff v,
        rereadMembers_eq_iff kvs]
      simp

end

end JsNumbers

end Stelyph
