import RTDB.Api.Inserts

/-!
# Records as JSON

What the derived serializers of `storage/mod.rs` and `lib.rs` make of log records, down to the syntax
of the text.  The text itself, and the texts of numbers, are `serde_json`'s.
-/

namespace RTDB
namespace Api

open Outcomes Storage

/-! ## Syntax -/

/-- A JSON text, with its numbers as they are written. -/
inductive Tree where
  | null
  | bool (b : Bool)
  | number (token : String)
  | string (s : String)
  | array (items : List Tree)
  | object (fields : List (String × Tree))

mutual

/-- The containers that lie in each other. -/
def Tree.depth : Tree → Nat
  | .null | .bool _ | .number _ | .string _ => 0
  | .array items => 1 + Tree.depthItems items
  | .object fields => 1 + Tree.depthFields fields

def Tree.depthItems : List Tree → Nat
  | [] => 0
  | item :: items => max (Tree.depth item) (Tree.depthItems items)

def Tree.depthFields : List (String × Tree) → Nat
  | [] => 0
  | (_, item) :: fields => max (Tree.depth item) (Tree.depthFields fields)

end

variable {F : Type}

/-- `serde_json`: text and syntax, and the texts of the numbers. -/
structure SerdeJson (F : Type) where
  print : Tree → List UInt8
  parse : List UInt8 → Except String Tree
  f32Text : UInt32 → String
  f64Text : F → String
  parseF32 : String → Option UInt32
  parseNumber : String → Option (Number F)

namespace SerdeJson

variable (serde : SerdeJson F)

/-! ## Writing -/

/-- A float that is not finite is written as null. -/
def componentTree (x : UInt32) : Tree :=
  if isFiniteF32 x then .number (serde.f32Text x) else .null

def numberText : Number F → String
  | .posInt n => Nat.repr n.toNat
  | .negInt n => Int.repr n.toInt
  | .float f => serde.f64Text f

mutual

def valueTree : Json F → Tree
  | .null => .null
  | .bool b => .bool b
  | .number n => .number (serde.numberText n)
  | .string s => .string s
  | .array values => .array (valueTrees values)
  | .object fields => .object (fieldTrees fields)

def valueTrees : List (Json F) → List Tree
  | [] => []
  | value :: values => valueTree value :: valueTrees values

def fieldTrees : List (String × Json F) → List (String × Tree)
  | [] => []
  | (name, value) :: fields => (name, valueTree value) :: fieldTrees fields

end

/-- Without a payload the field is skipped. -/
def vectorTree (vector : Vector (Map F)) : Tree :=
  .object (("data", .array (vector.data.map serde.componentTree)) ::
    match vector.payload with
    | none => []
    | some payload => [("payload", .object (serde.fieldTrees payload))])

def idTree (id : Nat) : Tree := .number (Nat.repr id)

def recordTree : Record (Map F) → Tree
  | .put id vector timestamp =>
    .object [("Put", .object
      [("id", idTree id), ("vector", serde.vectorTree vector), ("timestamp", idTree timestamp)])]
  | .delete id timestamp =>
    .object [("Delete", .object [("id", idTree id), ("timestamp", idTree timestamp)])]

/-! ## Reading -/

def componentOf : Tree → Except String UInt32
  | .number token =>
    match serde.parseF32 token with
    | some x => .ok x
    | none => .error "number out of range"
  | .null => .error "invalid type: null, expected f32"
  | _ => .error "invalid type, expected f32"

/-- A name that comes again takes the new value. -/
def insertField (fields : Map F) (field : String × Json F) : Map F :=
  if field.1 ∈ fields.map Prod.fst then
    fields.map fun f => if f.1 = field.1 then field else f
  else fields ++ [field]

def collect (fields : List (String × Json F)) : Map F := fields.foldl insertField []

mutual

def valueOf : Tree → Except String (Json F)
  | .null => .ok .null
  | .bool b => .ok (.bool b)
  | .number token =>
    match serde.parseNumber token with
    | some n => .ok (.number n)
    | none => .error "number out of range"
  | .string s => .ok (.string s)
  | .array items => do
    let values ← valuesOf items
    .ok (.array values)
  | .object fields => do
    let fields ← fieldsOf fields
    .ok (.object (collect fields))

def valuesOf : List Tree → Except String (List (Json F))
  | [] => .ok []
  | item :: items => do
    let value ← valueOf item
    let values ← valuesOf items
    .ok (value :: values)

def fieldsOf : List (String × Tree) → Except String (List (String × Json F))
  | [] => .ok []
  | (name, item) :: fields => do
    let value ← valueOf item
    let fields ← fieldsOf fields
    .ok ((name, value) :: fields)

end

/-- The field of a name, if there is one; other names are passed over. -/
def optionalField (name : String) (fields : List (String × Tree)) : Except String (Option Tree) :=
  match fields.filter fun f => f.1 = name with
  | [] => .ok none
  | [(_, item)] => .ok (some item)
  | _ => .error ("duplicate field " ++ name)

def field (name : String) (fields : List (String × Tree)) : Except String Tree := do
  match ← optionalField name fields with
  | some item => .ok item
  | none => .error ("missing field " ++ name)

def u64Of : Tree → Except String Nat
  | .number token =>
    match serde.parseNumber token with
    | some (.posInt n) => .ok n.toNat
    | _ => .error "invalid value, expected u64"
  | _ => .error "invalid type, expected u64"

def payloadOf : Option Tree → Except String (Option (Map F))
  | none | some .null => .ok none
  | some (.object fields) => do
    let fields ← serde.fieldsOf fields
    .ok (some (collect fields))
  | some _ => .error "invalid type, expected a map"

/-- A struct may also be given as the array of its fields. -/
def structFields (names : List String) : Tree → Except String (List (String × Tree))
  | .object fields => .ok fields
  | .array items =>
    if items.length = names.length then .ok (names.zip items) else .error "invalid length"
  | _ => .error "invalid type, expected a struct"

def vectorOf (item : Tree) : Except String (Vector (Map F)) := do
  let fields ← structFields ["data", "payload"] item
  let items ← field "data" fields
  let data ←
    match items with
    | .array items => items.mapM serde.componentOf
    | _ => .error "invalid type, expected a sequence"
  let payload ← optionalField "payload" fields
  let payload ← serde.payloadOf payload
  .ok { data, payload }

def recordOf : Tree → Except String (Record (Map F))
  | .object [("Put", item)] => do
    let fields ← structFields ["id", "vector", "timestamp"] item
    let id ← field "id" fields
    let id ← serde.u64Of id
    let vector ← field "vector" fields
    let vector ← serde.vectorOf vector
    let timestamp ← field "timestamp" fields
    let timestamp ← serde.u64Of timestamp
    .ok (.put id vector timestamp)
  | .object [("Delete", item)] => do
    let fields ← structFields ["id", "timestamp"] item
    let id ← field "id" fields
    let id ← serde.u64Of id
    let timestamp ← field "timestamp" fields
    let timestamp ← serde.u64Of timestamp
    .ok (.delete id timestamp)
  | _ => .error "invalid type, expected enum Record"

def recordText (record : Record (Map F)) : List UInt8 := serde.print (serde.recordTree record)

def codec (base : Codec (Map F)) : Codec (Map F) :=
  { base with
    toVec := fun record => .ok (serde.recordText record)
    fromSlice := fun bytes => serde.parse bytes >>= serde.recordOf }


end SerdeJson

/-! ## Values read back -/

/-- A negative integer is negative. -/
def Number.WellFormed : Number F → Prop
  | .negInt n => n < 0
  | .posInt _ | .float _ => True

namespace Json

mutual

def WellFormed : Json F → Prop
  | .null | .bool _ | .string _ => True
  | .number n => n.WellFormed
  | .array values => valuesWellFormed values
  | .object fields => (fields.map Prod.fst).Nodup ∧ fieldsWellFormed fields

def valuesWellFormed : List (Json F) → Prop
  | [] => True
  | value :: values => value.WellFormed ∧ valuesWellFormed values

def fieldsWellFormed : List (String × Json F) → Prop
  | [] => True
  | (_, value) :: fields => value.WellFormed ∧ fieldsWellFormed fields

end

mutual

def floats : Json F → List F
  | .null | .bool _ | .string _ | .number (.posInt _) | .number (.negInt _) => []
  | .number (.float f) => [f]
  | .array values => valuesFloats values
  | .object fields => fieldsFloats fields

def valuesFloats : List (Json F) → List F
  | [] => []
  | value :: values => value.floats ++ valuesFloats values

def fieldsFloats : List (String × Json F) → List F
  | [] => []
  | (_, value) :: fields => value.floats ++ fieldsFloats fields

end

end Json

namespace SerdeJson

variable {serde : SerdeJson F}

/-- Integers read back; of floats `serde_json` only promises a good approximation. -/
structure ReadsIntegers (serde : SerdeJson F) : Prop where
  posInt : ∀ n : UInt64, serde.parseNumber (Nat.repr n.toNat) = some (.posInt n)
  negInt : ∀ n : Int64, n < 0 → serde.parseNumber (Int.repr n.toInt) = some (.negInt n)

def ReadsFloat (serde : SerdeJson F) (f : F) : Prop :=
  serde.parseNumber (serde.f64Text f) = some (.float f)

theorem componentOf_componentTree_iff (x : UInt32) :
    serde.componentOf (serde.componentTree x) = .ok x ↔
      isFiniteF32 x = true ∧ serde.parseF32 (serde.f32Text x) = some x := by
  rw [componentTree]
  by_cases hx : isFiniteF32 x = true
  · rw [if_pos hx, componentOf]
    cases hread : serde.parseF32 (serde.f32Text x) <;> simp [hx]
  · rw [if_neg hx, componentOf]
    simp [hx]

theorem collect_append (fields : List (String × Json F)) (acc : Map F)
    (hnodup : ((acc ++ fields).map Prod.fst).Nodup) :
    fields.foldl insertField acc = acc ++ fields := by
  induction fields generalizing acc with
  | nil => rw [List.foldl_nil, List.append_nil]
  | cons first fields ih =>
    rw [List.append_cons] at hnodup ⊢
    have hfirst : first.1 ∉ acc.map Prod.fst := by
      rw [List.map_append, List.nodup_append] at hnodup
      have hacc := hnodup.1
      rw [List.map_append, List.nodup_append] at hacc
      exact fun hmem => hacc.2.2 _ hmem _ (by simp) rfl
    rw [List.foldl_cons, insertField, if_neg hfirst]
    exact ih (acc ++ [first]) hnodup

theorem collect_eq_self {fields : List (String × Json F)}
    (hnodup : (fields.map Prod.fst).Nodup) : collect fields = fields :=
  collect_append fields [] hnodup

theorem fieldsOf_names : ∀ {items : List (String × Tree)} {fields : List (String × Json F)},
    serde.fieldsOf items = .ok fields → fields.map Prod.fst = items.map Prod.fst
  | [], fields, hfields => by
    obtain rfl : [] = fields := Except.ok.inj (by rwa [fieldsOf] at hfields)
    rfl
  | (name, item) :: items, fields, hfields => by
    rw [fieldsOf] at hfields
    obtain ⟨value, -, hfields⟩ := bind_eq_ok hfields
    obtain ⟨rest, hrest, hfields⟩ := bind_eq_ok hfields
    obtain rfl : (name, value) :: rest = fields := Except.ok.inj hfields
    rw [List.map_cons, List.map_cons, fieldsOf_names hrest]

theorem fieldTrees_names : ∀ fields : List (String × Json F),
    (serde.fieldTrees fields).map Prod.fst = fields.map Prod.fst
  | [] => rfl
  | (name, value) :: fields => by
    rw [fieldTrees, List.map_cons, List.map_cons, fieldTrees_names fields]

mutual

/-- A value reads back when its floats do. -/
theorem valueOf_valueTree_iff (hints : serde.ReadsIntegers) :
    ∀ value : Json F, value.WellFormed →
      (serde.valueOf (serde.valueTree value) = .ok value ↔ ∀ f ∈ value.floats, serde.ReadsFloat f)
  | .null, _ => by simp [valueTree, valueOf, Json.floats]
  | .bool b, _ => by simp [valueTree, valueOf, Json.floats]
  | .string s, _ => by simp [valueTree, valueOf, Json.floats]
  | .number (.posInt n), _ => by
    simp [valueTree, valueOf, numberText, hints.posInt n, Json.floats]
  | .number (.negInt n), hvalue => by
    have hread := hints.negInt n (by simpa [Json.WellFormed, Number.WellFormed] using hvalue)
    simp [valueTree, valueOf, numberText, hread, Json.floats]
  | .number (.float f), _ => by
    rw [valueTree, valueOf, numberText, Json.floats, List.forall_mem_singleton, ReadsFloat]
    cases hread : serde.parseNumber (serde.f64Text f) <;> simp
  | .array values, hvalue => by
    rw [Json.WellFormed] at hvalue
    rw [valueTree, valueOf, Json.floats, ← valuesOf_valueTrees_iff hints values hvalue]
    constructor
    · intro hread
      obtain ⟨values', hvalues, hread⟩ := bind_eq_ok hread
      obtain rfl : values' = values := by simpa using hread
      exact hvalues
    · intro hread
      rw [hread]
      rfl
  | .object fields, hvalue => by
    rw [Json.WellFormed] at hvalue
    obtain ⟨hnodup, hvalue⟩ := hvalue
    rw [valueTree, valueOf, Json.floats, ← fieldsOf_fieldTrees_iff hints fields hvalue]
    constructor
    · intro hread
      obtain ⟨fields', hfields, hread⟩ := bind_eq_ok hread
      have hnames : fields'.map Prod.fst = fields.map Prod.fst := by
        rw [fieldsOf_names hfields, fieldTrees_names]
      rw [collect_eq_self (by rwa [hnames])] at hread
      obtain rfl : fields' = fields := by simpa using hread
      exact hfields
    · intro hread
      rw [hread, ok_bind, collect_eq_self hnodup]

theorem valuesOf_valueTrees_iff (hints : serde.ReadsIntegers) :
    ∀ values : List (Json F), Json.valuesWellFormed values →
      (serde.valuesOf (serde.valueTrees values) = .ok values ↔
        ∀ f ∈ Json.valuesFloats values, serde.ReadsFloat f)
  | [], _ => by simp [valueTrees, valuesOf, Json.valuesFloats]
  | value :: values, hvalues => by
    rw [Json.valuesWellFormed] at hvalues
    rw [valueTrees, valuesOf, Json.valuesFloats, List.forall_mem_append,
      ← valueOf_valueTree_iff hints value hvalues.1,
      ← valuesOf_valueTrees_iff hints values hvalues.2]
    constructor
    · intro hread
      obtain ⟨value', hvalue, hread⟩ := bind_eq_ok hread
      obtain ⟨values', hrest, hread⟩ := bind_eq_ok hread
      obtain ⟨rfl, rfl⟩ : value' = value ∧ values' = values := by simpa using hread
      exact ⟨hvalue, hrest⟩
    · rintro ⟨hvalue, hrest⟩
      rw [hvalue, ok_bind, hrest]
      rfl

theorem fieldsOf_fieldTrees_iff (hints : serde.ReadsIntegers) :
    ∀ fields : List (String × Json F), Json.fieldsWellFormed fields →
      (serde.fieldsOf (serde.fieldTrees fields) = .ok fields ↔
        ∀ f ∈ Json.fieldsFloats fields, serde.ReadsFloat f)
  | [], _ => by simp [fieldTrees, fieldsOf, Json.fieldsFloats]
  | (name, value) :: fields, hfields => by
    rw [Json.fieldsWellFormed] at hfields
    rw [fieldTrees, fieldsOf, Json.fieldsFloats, List.forall_mem_append,
      ← valueOf_valueTree_iff hints value hfields.1,
      ← fieldsOf_fieldTrees_iff hints fields hfields.2]
    constructor
    · intro hread
      obtain ⟨value', hvalue, hread⟩ := bind_eq_ok hread
      obtain ⟨fields', hrest, hread⟩ := bind_eq_ok hread
      obtain ⟨rfl, rfl⟩ : value' = value ∧ fields' = fields := by simpa using hread
      exact ⟨hvalue, hrest⟩
    · rintro ⟨hvalue, hrest⟩
      rw [hvalue, ok_bind, hrest]
      rfl

end

/-! ## Records read back -/

theorem u64Of_idTree (hints : serde.ReadsIntegers) (n : UInt64) :
    serde.u64Of (idTree n.toNat) = .ok n.toNat := by
  rw [idTree, u64Of, hints.posInt]

theorem payloadOf_iff (hints : serde.ReadsIntegers) {payload : Map F}
    (hpayload : (Json.object payload).WellFormed) :
    serde.payloadOf (some (.object (serde.fieldTrees payload))) = .ok (some payload) ↔
      ∀ f ∈ (Json.object payload).floats, serde.ReadsFloat f := by
  rw [← valueOf_valueTree_iff hints _ hpayload, valueTree, valueOf, payloadOf]
  cases serde.fieldsOf (serde.fieldTrees payload) with
  | error e => simp [bind, Except.bind]
  | ok fields => simp [bind, Except.bind]

theorem vectorOf_vectorTree (vector : Vector (Map F)) :
    serde.vectorOf (serde.vectorTree vector) = (do
      let data ← (vector.data.map serde.componentTree).mapM serde.componentOf
      let payload ← serde.payloadOf (vector.payload.map fun p => .object (serde.fieldTrees p))
      .ok { data, payload }) := by
  obtain ⟨data, payload⟩ := vector
  cases payload <;> rfl

theorem vectorOf_vectorTree_iff (hints : serde.ReadsIntegers) {vector : Vector (Map F)}
    (hvector : ∀ payload, vector.payload = some payload → (Json.object payload).WellFormed) :
    serde.vectorOf (serde.vectorTree vector) = .ok vector ↔
      (∀ x ∈ vector.data, isFiniteF32 x = true ∧ serde.parseF32 (serde.f32Text x) = some x) ∧
        ∀ payload, vector.payload = some payload →
          ∀ f ∈ (Json.object payload).floats, serde.ReadsFloat f := by
  have hdata : (vector.data.map serde.componentTree).mapM serde.componentOf = .ok vector.data ↔
      ∀ x ∈ vector.data, isFiniteF32 x = true ∧ serde.parseF32 (serde.f32Text x) = some x := by
    rw [mapM_map_eq_ok_iff]
    exact forall₂_congr fun x _ => componentOf_componentTree_iff x
  have hpayload : serde.payloadOf (vector.payload.map fun p => .object (serde.fieldTrees p)) =
      .ok vector.payload ↔ ∀ payload, vector.payload = some payload →
        ∀ f ∈ (Json.object payload).floats, serde.ReadsFloat f := by
    cases hsome : vector.payload with
    | none => simp [payloadOf]
    | some payload =>
      rw [Option.map_some, payloadOf_iff hints (hvector payload hsome)]
      simp
  rw [vectorOf_vectorTree, ← hdata, ← hpayload]
  constructor
  · intro hread
    obtain ⟨data, hdata, hread⟩ := bind_eq_ok hread
    obtain ⟨payload, hpayload, hread⟩ := bind_eq_ok hread
    obtain rfl : { data, payload } = vector := Except.ok.inj hread
    exact ⟨hdata, hpayload⟩
  · rintro ⟨hdata, hpayload⟩
    rw [hdata, ok_bind, hpayload]
    rfl

theorem recordOf_put (id timestamp : Nat) (vector : Vector (Map F)) :
    serde.recordOf (serde.recordTree (.put id vector timestamp)) = (do
      let id ← serde.u64Of (idTree id)
      let vector ← serde.vectorOf (serde.vectorTree vector)
      let timestamp ← serde.u64Of (idTree timestamp)
      .ok (.put id vector timestamp)) := rfl

theorem recordOf_put_iff (hints : serde.ReadsIntegers) (id timestamp : UInt64)
    (vector : Vector (Map F)) :
    serde.recordOf (serde.recordTree (.put id.toNat vector timestamp.toNat)) =
        .ok (.put id.toNat vector timestamp.toNat) ↔
      serde.vectorOf (serde.vectorTree vector) = .ok vector := by
  rw [recordOf_put, u64Of_idTree hints, u64Of_idTree hints, ok_bind]
  constructor
  · intro hread
    obtain ⟨vector', hvector, hread⟩ := bind_eq_ok hread
    obtain rfl : vector' = vector := by simpa [ok_bind] using hread
    exact hvector
  · intro hread
    rw [hread]
    rfl

/-- The payload lies in the vector, the vector in the fields, and the fields in the record. -/
theorem depth_recordTree_le_iff (id timestamp : Nat) (vector : Vector (Map F)) :
    (serde.recordTree (.put id vector timestamp)).depth ≤ 127 ↔
      ∀ payload, vector.payload = some payload →
        (serde.valueTree (.object payload)).depth ≤ 124 := by
  have hitems : Tree.depthItems (vector.data.map serde.componentTree) = 0 := by
    induction vector.data with
    | nil => rfl
    | cons x data ih =>
      have hx : (serde.componentTree x).depth = 0 := by
        rw [componentTree]
        split <;> rfl
      rw [List.map_cons, Tree.depthItems, hx, ih]
      rfl
  have hvector : (serde.recordTree (.put id vector timestamp)).depth =
      2 + (serde.vectorTree vector).depth := by
    simp only [recordTree, idTree, Tree.depth, Tree.depthFields]
    omega
  rw [hvector, vectorTree]
  cases hsome : vector.payload with
  | none =>
    simp only [Tree.depth, Tree.depthFields, hitems]
    simp
  | some payload =>
    simp only [Tree.depth, Tree.depthFields, hitems, valueTree, Option.some.injEq, forall_eq']
    omega

end SerdeJson

end Api
end RTDB
