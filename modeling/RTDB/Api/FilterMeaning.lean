import RTDB.Api.Qdrant
import RTDB.Collection.Filter

/-!
# What the filters of the Qdrant API mean

A filter of the API says what a payload has to hold.  It is turned into a filter of the crate, which
the evaluator walks through; a value that is neither text nor an integer is turned into its text.
-/

namespace RTDB

open Storage FilterEvaluator

variable {F : Type}

/-! ## The value that a key leads to -/

/-- The fields on the way: the parts of the key, up to an array that it projects. -/
def pathTo (projection : Bool) : List String → List String
  | [] => []
  | part :: rest =>
    if projection && decide ("[]".toList <:+ part.toList) then [trimEndMatches part]
    else part :: pathTo projection rest

def Value.follow (value : Option (Value F)) (path : List String) : Option (Value F) :=
  path.foldl (fun value field => value.bind fun value => value.get field) value

def addressed (payload : Payload F) (key : String) : Option (Value F) :=
  Value.follow (some (.object payload))
    (pathTo (containsText key "[]") ((key.toList.splitOn '.').map String.ofList))

theorem walkParts_eq (projection : Bool) (value : Option (Value F)) (part : String)
    (rest : List String) :
    walkParts projection (fun key => value.bind fun value => value.get key) (part :: rest) =
      Value.follow value (pathTo projection (part :: rest)) := by
  induction rest generalizing value part with
  | nil =>
    rw [walkParts, pathTo]
    split
    · rfl
    · rfl
  | cons next rest ih =>
    rw [walkParts, pathTo]
    split
    · rfl
    · exact ih (value.bind fun value => value.get part) next

theorem getNestedValue_eq (payload : Payload F) (key : String) :
    getNestedValue payload key = addressed payload key := by
  rw [getNestedValue, addressed]
  cases hparts : (key.toList.splitOn '.').map String.ofList with
  | nil => exact absurd hparts (by simp [List.splitOn_ne_nil])
  | cons part rest => exact walkParts_eq _ (some (.object payload)) part rest

namespace Api
namespace Qdrant

/-! ## What a filter says -/

def Has (equals : Value F → Prop) (value : Value F) : Prop :=
  equals value ∨ ∃ values, value = .array values ∧ ∃ v ∈ values, equals v

def MatchCondition.Holds (equals : Value F → Value F → Prop) (lower : String → String) :
    MatchCondition F → Value F → Prop
  | .value v, found => Has (equals v) found
  | .keyword s, found => Has (equals (.string s)) found
  | .text t, found => ∃ s, found = .string s ∧ containsText (lower s) (lower t) = true
  | .integer i, found => found.asI64 = some i

def Condition.Holds (equals : Value F → Value F → Prop) (lower : String → String)
    (payload : Option (Payload F)) (c : Condition F) : Prop :=
  ∃ fields value, payload = some fields ∧ addressed fields c.key = some value ∧
    c.condition.Holds equals lower value

/-- All that must, one that should, if there is any, and none that must not. -/
structure Filter.Accepts (equals : Value F → Value F → Prop) (lower : String → String)
    (payload : Option (Payload F)) (filter : Filter F) : Prop where
  must : ∀ c ∈ filter.must.getD [], c.Holds equals lower payload
  should : filter.should.getD [] = [] ∨ ∃ c ∈ filter.should.getD [], c.Holds equals lower payload
  mustNot : ∀ c ∈ filter.mustNot.getD [], ¬c.Holds equals lower payload

theorem Filter.accepts_iff {equals : Value F → Value F → Prop} {lower : String → String}
    {payload : Option (Payload F)} {filter : Filter F} :
    filter.Accepts equals lower payload ↔
      (∀ c ∈ filter.must.getD [], c.Holds equals lower payload) ∧
        (filter.should.getD [] = [] ∨
          ∃ c ∈ filter.should.getD [], c.Holds equals lower payload) ∧
          ∀ c ∈ filter.mustNot.getD [], ¬c.Holds equals lower payload :=
  ⟨fun h => ⟨h.must, h.should, h.mustNot⟩, fun h => ⟨h.1, h.2.1, h.2.2⟩⟩

/-- A text equals itself, and an `i64` any number that is the same; what is neither is taken for
its text. -/
def equalsAsText (render : Value F → String) (v value : Value F) : Prop :=
  match v.asStr, v.asI64 with
  | some s, _ => value = .string s
  | none, some i => value.asI64 = some i
  | none, none => value = .string (render v)

/-! ## What the evaluator answers -/

section Evaluate

variable {render : Value F → String} {lower : String → String}

theorem asStr_eq_some_iff {v : Value F} {s : String} : v.asStr = some s ↔ v = .string s := by
  cases v <;> simp [Value.asStr]

theorem evaluateValueMatch_keyword {s : String} {found : Value F} :
    evaluateValueMatch (.keyword s) found = true ↔ Has (· = .string s) found := by
  cases found <;> simp [evaluateValueMatch, Has, asStr_eq_some_iff]

theorem evaluateValueMatch_integer {i : Int} {found : Value F} :
    evaluateValueMatch (.integer i) found = true ↔ Has (·.asI64 = some i) found := by
  cases found <;> simp [evaluateValueMatch, Has, Value.asI64]

variable [LT F] [LE F] [DecidableLT F] [DecidableLE F]

theorem evaluateMatch_toCoreMatch (c : MatchCondition F) (found : Value F) :
    evaluateMatch lower (c.toCoreMatch render) found = true ↔
      c.Holds (equalsAsText render) lower found := by
  cases c with
  | value v =>
    rw [MatchCondition.toCoreMatch, MatchCondition.Holds]
    unfold equalsAsText
    cases htext : v.asStr with
    | some s => exact evaluateValueMatch_keyword
    | none =>
      cases hinteger : v.asI64 with
      | some i => exact evaluateValueMatch_integer
      | none => exact evaluateValueMatch_keyword
  | keyword s => exact evaluateValueMatch_keyword
  | text text =>
    rw [MatchCondition.toCoreMatch, MatchCondition.Holds, evaluateMatch]
    cases found <;> simp [Value.asStr]
  | integer i =>
    rw [MatchCondition.toCoreMatch, MatchCondition.Holds, evaluateMatch, beq_iff_eq]

variable {id : VectorId} {vector : Vector (Payload F)}

theorem evaluateCondition_toCoreCondition (c : Condition F) :
    evaluateCondition lower id vector (c.toCoreCondition render) = true ↔
      c.Holds (equalsAsText render) lower vector.payload := by
  rw [Condition.toCoreCondition, evaluateCondition, evaluateFieldCondition, Condition.Holds]
  cases vector.payload with
  | none => simp
  | some payload =>
    simp only [getNestedValue_eq]
    cases hfound : addressed payload c.key with
    | none =>
      refine iff_of_false Bool.false_ne_true ?_
      rintro ⟨fields, value, hfields, hvalue, -⟩
      rw [← Option.some.inj hfields, hfound] at hvalue
      exact absurd hvalue (by simp)
    | some found =>
      rw [evaluateMatch_toCoreMatch]
      constructor
      · intro hholds
        exact ⟨payload, found, rfl, hfound, hholds⟩
      · rintro ⟨fields, value, hfields, hvalue, hholds⟩
        rw [← Option.some.inj hfields, hfound] at hvalue
        rwa [Option.some.inj hvalue]

theorem evaluateAll_iff (conditions : List (Condition F)) :
    evaluateAll lower id vector (conditions.map (Condition.toCoreCondition render)) = true ↔
      ∀ c ∈ conditions, c.Holds (equalsAsText render) lower vector.payload := by
  induction conditions with
  | nil => simp [evaluateAll]
  | cons c conditions ih =>
    rw [List.map_cons, evaluateAll, Bool.and_eq_true, ih, evaluateCondition_toCoreCondition,
      List.forall_mem_cons]

theorem evaluateAny_iff (conditions : List (Condition F)) :
    evaluateAny lower id vector (conditions.map (Condition.toCoreCondition render)) = true ↔
      ∃ c ∈ conditions, c.Holds (equalsAsText render) lower vector.payload := by
  induction conditions with
  | nil => simp [evaluateAny]
  | cons c conditions ih =>
    rw [List.map_cons, evaluateAny, Bool.or_eq_true, ih, evaluateCondition_toCoreCondition,
      List.exists_mem_cons_iff]

/-- The filter of the crate accepts what the filter of the API says. -/
theorem matches_toCoreFilter_iff (render : Value F → String) (lower : String → String)
    (filter : Filter F) (id : VectorId) (vector : Vector (Payload F)) :
    FilterEvaluator.matches lower id vector (filter.toCoreFilter render) = true ↔
      filter.Accepts (equalsAsText render) lower vector.payload := by
  obtain ⟨must, should, mustNot⟩ := filter
  rw [Filter.toCoreFilter, Filter.accepts_iff]
  unfold FilterEvaluator.matches
  rw [Bool.and_eq_true, Bool.and_eq_true, and_assoc]
  refine and_congr ?_ (and_congr ?_ ?_)
  · cases must with
    | none => simp
    | some conditions => exact evaluateAll_iff conditions
  · cases should with
    | none => simp
    | some conditions =>
      cases conditions with
      | nil => simp
      | cons c conditions =>
        refine (evaluateAny_iff (c :: conditions)).trans (or_iff_right ?_).symm
        exact List.cons_ne_nil c conditions
  · cases mustNot with
    | none => simp
    | some conditions =>
      show (!evaluateAny lower id vector _) = true ↔ ∀ c ∈ conditions, _
      rw [Bool.not_eq_true', Bool.eq_false_iff, Ne, evaluateAny_iff]
      simp

end Evaluate

/-! ## A value without a text -/

def nothing : Filter Nat where
  must := some [{ key := "a", condition := .value .null }]
  should := none
  mustNot := none

def emptied : Vector (Payload Nat) := { data := [], payload := some [("a", .null)] }

/-- The payload has the value that must be there, and is turned away. -/
theorem not_matches_nothing : ¬∀ (render : Value Nat → String) (lower : String → String)
    (filter : Filter Nat) (id : VectorId) (vector : Vector (Payload Nat)),
    FilterEvaluator.matches lower id vector (filter.toCoreFilter render) = true ↔
      filter.Accepts Eq lower vector.payload := by
  intro hall
  have haccepts : nothing.Accepts Eq id emptied.payload := by
    refine ⟨fun c hc => ?_, .inl rfl, fun c hc => absurd hc List.not_mem_nil⟩
    rw [List.mem_singleton.mp hc]
    exact ⟨_, .null, rfl, rfl, .inl rfl⟩
  exact absurd ((hall (fun _ => "null") id nothing 0 emptied).mpr haccepts) (by decide)

end Qdrant
end Api
end RTDB
