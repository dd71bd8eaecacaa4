import GpuWorkerPool.Base.JsonEncoding
import GpuWorkerPool.Base.Table

/-!
JSON Schema over the keywords `type`, `enum`, `minimum`, `maximum`, `minLength`, `maxLength`,
`properties`, `required`, `additionalProperties` and `oneOf`. A schema is a JSON document; a keyword
that is none of these constrains nothing. An integer is a token without a fraction, so it is never a
boolean or a float, and the items of an `enum` are compared as tokens; bounds are compared exactly.
-/

namespace Base

namespace JsonValue

/-- Order of values; the mantissa with the larger exponent is scaled down to the other. -/
def Number.less : Number → Number → Bool
  | .exact m e, .exact m' e' => m * 2 ^ (e - e').toNat < m' * 2 ^ (e' - e).toNat
  | .infinite negative, .exact .. => negative
  | .exact .., .infinite negative => !negative
  | .infinite negative, .infinite negative' => negative && !negative'

/-- `a < b` of two numbers; nothing is below or above a value that is not a number. -/
def numberLess (a b : JsonValue) : Bool :=
  match a.number?, b.number? with
  | some m, some n => m.less n
  | _, _ => false

@[simp] theorem numberLess_int (m n : Int) : numberLess (.int m) (.int n) = decide (m < n) := by
  simp [numberLess, number?, Number.less]

/-- Among values that are no booleans and no floats, an integer is equal to itself alone. -/
theorem int_pyEq_iff {n : Int} {value : JsonValue} (hbool : ∀ b, value ≠ .bool b)
    (hfloat : ∀ f, value ≠ .float f) : pyEq (.int n) value ↔ value = .int n := by
  cases value with
  | bool b => exact absurd rfl (hbool b)
  | float f => exact absurd rfl (hfloat f)
  | int m =>
      rw [int.injEq, eq_comm (a := m)]
      simp [pyEq, numberEq, number?, Number.same]
  | _ => simp [pyEq, numberEq, number?]

theorem str_pyEq_iff {text : String} {value : JsonValue} :
    pyEq (.str text) value ↔ value = .str text := by
  cases value <;> simp [pyEq]
  exact eq_comm

theorem int_pyEq_bool {n : Int} {b : Bool} : pyEq (.int n) (.bool b) ↔ n = if b then 1 else 0 := by
  simp [pyEq, numberEq, number?, Number.same]

/-- The member of an object under a name. -/
def member? (value : JsonValue) (name : String) : Option JsonValue :=
  match value with
  | .dict members => members.lookup name
  | _ => none

end JsonValue

/-- A number as a document states it. -/
inductive JsonNumber where
  | int (n : Int)
  | float (f : Float64)
  deriving DecidableEq, Repr

def JsonNumber.value : JsonNumber → JsonValue
  | int n => .int n
  | float f => .float f

namespace JsonSchema

open JsonValue

def typeMatches (type : String) : JsonValue → Bool
  | .null => type = "null"
  | .bool _ => type = "boolean"
  | .int _ => type = "integer" || type = "number"
  | .float _ => type = "number"
  | .str _ => type = "string"
  | .list _ => type = "array"
  | .dict _ => type = "object"

/-- A number as a schema counts it, which a boolean is not. -/
def numberOf? : JsonValue → Option JsonValue
  | .int n => some (.int n)
  | .float f => some (.float f)
  | _ => none

/-- The length of a string, as a number to be compared with a bound. -/
def textLength? : JsonValue → Option JsonValue
  | .str s => some (.int s.length)
  | _ => none

/-- The value is an object only if it has a member under each of the names. -/
def hasRequired (names : List JsonValue) (value : JsonValue) : Bool :=
  match value with
  | .dict members => names.all fun name =>
      match name with
      | .str name => (members.lookup name).isSome
      | _ => false
  | _ => true

/-- A keyword whose argument holds no schema. -/
def assertionHolds (keyword : String) (argument value : JsonValue) : Bool :=
  if keyword = "type" then
    match argument with
    | .str type => typeMatches type value
    | _ => false
  else if keyword = "enum" then
    match argument with
    | .list items => items.any fun item => value.sameJson item
    | _ => false
  else if keyword = "minimum" then (numberOf? value).all fun number => !number.numberLess argument
  else if keyword = "maximum" then (numberOf? value).all fun number => !argument.numberLess number
  else if keyword = "minLength" then (textLength? value).all fun length => !length.numberLess argument
  else if keyword = "maxLength" then (textLength? value).all fun length => !argument.numberLess length
  else if keyword = "required" then
    match argument with
    | .list names => hasRequired names value
    | _ => false
  else true

/-- The names under the `properties` of a schema. -/
def propertyNames (keywords : List (String × JsonValue)) : List String :=
  match keywords.lookup "properties" with
  | some (.dict properties) => properties.map Prod.fst
  | _ => []

mutual

/-- The value conforms to the schema. -/
def conforms : JsonValue → JsonValue → Bool
  | .bool allowed, _ => allowed
  | .dict keywords, value => keywordsHold (propertyNames keywords) keywords value
  | _, _ => false

def keywordsHold (declared : List String) : List (String × JsonValue) → JsonValue → Bool
  | [], _ => true
  | (keyword, argument) :: rest, value =>
      keywordHolds declared keyword argument value && keywordsHold declared rest value

def keywordHolds (declared : List String) (keyword : String) : JsonValue → JsonValue → Bool
  | .dict properties, value =>
      if keyword = "properties" then propertiesHold properties value
      else if keyword = "additionalProperties" then
        match value with
        | .dict members => members.all fun member =>
            member.1 ∈ declared || keywordsHold (propertyNames properties) properties member.2
        | _ => true
      else assertionHolds keyword (.dict properties) value
  | .list items, value =>
      if keyword = "oneOf" then conformingCount items value = 1
      else assertionHolds keyword (.list items) value
  | .bool allowed, value =>
      if keyword = "additionalProperties" then
        match value with
        | .dict members => members.all fun member => member.1 ∈ declared || allowed
        | _ => true
      else assertionHolds keyword (.bool allowed) value
  | argument, value => assertionHolds keyword argument value

def propertiesHold : List (String × JsonValue) → JsonValue → Bool
  | [], _ => true
  | (name, schema) :: rest, value =>
      (match value.member? name with
        | some member => conforms schema member
        | none => true) && propertiesHold rest value

def conformingCount : List JsonValue → JsonValue → Nat
  | [], _ => 0
  | schema :: rest, value =>
      (if conforms schema value then 1 else 0) + conformingCount rest value

end

theorem keywordHolds_properties (declared : List String) (properties : List (String × JsonValue))
    (value : JsonValue) :
    keywordHolds declared "properties" (.dict properties) value =
      propertiesHold properties value := by
  unfold keywordHolds
  rfl

theorem keywordHolds_closed {declared : List String} {members : List (String × JsonValue)} :
    keywordHolds declared "additionalProperties" (.bool false) (.dict members) ↔
      ∀ member ∈ members, member.1 ∈ declared := by
  unfold keywordHolds
  simp

theorem keywordHolds_oneOf (declared : List String) (schemas : List JsonValue) (value : JsonValue) :
    keywordHolds declared "oneOf" (.list schemas) value =
      decide (conformingCount schemas value = 1) := by
  unfold keywordHolds
  rfl

theorem keywordsHold_iff {declared : List String} {keywords : List (String × JsonValue)}
    {value : JsonValue} :
    keywordsHold declared keywords value ↔
      ∀ row ∈ keywords, keywordHolds declared row.1 row.2 value := by
  induction keywords with
  | nil => simp [keywordsHold]
  | cons row rest ih =>
      rw [keywordsHold, Bool.and_eq_true, ih, List.forall_mem_cons]

theorem propertiesHold_iff {properties : List (String × JsonValue)} {value : JsonValue} :
    propertiesHold properties value ↔
      ∀ row ∈ properties, ∀ member, value.member? row.1 = some member → conforms row.2 member := by
  induction properties with
  | nil => simp [propertiesHold]
  | cons row rest ih =>
      rw [propertiesHold, Bool.and_eq_true, ih, List.forall_mem_cons]
      apply and_congr_left
      intro _
      cases value.member? row.1 <;> simp

theorem conformingCount_eq_countP (schemas : List JsonValue) (value : JsonValue) :
    conformingCount schemas value = schemas.countP fun schema => conforms schema value := by
  induction schemas with
  | nil => simp [conformingCount]
  | cons schema rest ih => rw [conformingCount, ih, List.countP_cons, Nat.add_comm]

/-! ### The shapes of a published schema -/

/-- An object whose members are all declared; the names of `required` must be there. -/
def closedObject (properties : List (String × JsonValue)) (required : List String) :
    List (String × JsonValue) :=
  [("type", .str "object"), ("additionalProperties", .bool false),
    ("properties", .dict properties), ("required", .list (required.map .str))]

theorem hasRequired_iff {names : List String} {members : List (String × JsonValue)} :
    hasRequired (names.map .str) (.dict members) ↔
      ∀ name ∈ names, ∃ member, members.lookup name = some member := by
  simp [hasRequired, Option.isSome_iff_exists]

theorem typeMatches_object_iff {value : JsonValue} :
    typeMatches "object" value ↔ ∃ members, value = .dict members := by
  cases value <;> simp [typeMatches]

/-- What an object must be to conform to a closed schema, if `further` keywords follow it. -/
theorem conforms_closedObject_append {properties further : List (String × JsonValue)}
    {required : List String} {value : JsonValue} :
    conforms (.dict (closedObject properties required ++ further)) value ↔
      ∃ members, value = .dict members ∧
        (∀ member ∈ members, member.1 ∈ properties.map Prod.fst) ∧
        (∀ row ∈ properties, ∀ member, members.lookup row.1 = some member →
          conforms row.2 member) ∧
        (∀ name ∈ required, ∃ member, members.lookup name = some member) ∧
        ∀ row ∈ further, keywordHolds (properties.map Prod.fst) row.1 row.2 value := by
  have hnames : propertyNames (closedObject properties required ++ further) =
      properties.map Prod.fst := by
    simp [propertyNames, closedObject, List.lookup_cons]
  have htype (declared : List String) :
      keywordHolds declared "type" (.str "object") value ↔ ∃ members, value = .dict members := by
    simp [keywordHolds, assertionHolds, typeMatches_object_iff]
  have hrequired (declared : List String) :
      keywordHolds declared "required" (.list (required.map .str)) value =
        hasRequired (required.map .str) value := by
    simp [keywordHolds, assertionHolds]
  rw [conforms, hnames, keywordsHold_iff, List.forall_mem_append]
  simp only [closedObject, List.forall_mem_cons, List.not_mem_nil, false_imp_iff, implies_true,
    and_true, keywordHolds_properties, propertiesHold_iff, htype, hrequired]
  constructor
  · rintro ⟨⟨⟨members, rfl⟩, hclosed, hproperties, hpresent⟩, hfurther⟩
    exact ⟨members, rfl, keywordHolds_closed.mp hclosed, hproperties, hasRequired_iff.mp hpresent,
      hfurther⟩
  · rintro ⟨members, rfl, hclosed, hproperties, hpresent, hfurther⟩
    exact ⟨⟨⟨members, rfl⟩, keywordHolds_closed.mpr hclosed, hproperties,
      hasRequired_iff.mpr hpresent⟩, hfurther⟩

theorem conforms_closedObject {properties : List (String × JsonValue)} {required : List String}
    {value : JsonValue} :
    conforms (.dict (closedObject properties required)) value ↔
      ∃ members, value = .dict members ∧
        (∀ member ∈ members, member.1 ∈ properties.map Prod.fst) ∧
        (∀ row ∈ properties, ∀ member, members.lookup row.1 = some member →
          conforms row.2 member) ∧
        ∀ name ∈ required, ∃ member, members.lookup name = some member := by
  simpa using @conforms_closedObject_append properties [] required value

theorem conforms_type {type : String} {value : JsonValue} :
    conforms (.dict [("type", .str type)]) value ↔ typeMatches type value := by
  simp [conforms, keywordsHold, keywordHolds, assertionHolds]

theorem conforms_string {value : JsonValue} :
    conforms (.dict [("type", .str "string")]) value ↔ ∃ text, value = .str text := by
  rw [conforms_type]
  cases value <;> simp [typeMatches]

/-- An object of strings under the given names. -/
def textMap (names required : List String) : JsonValue :=
  let properties : Dict String JsonValue :=
    .ofPairs (names.map fun name => (name, .dict [("type", .str "string")]))
  .dict (closedObject properties.rows required)

theorem conforms_textMap {names required : List String} {value : JsonValue}
    (hform : value.wellFormed) :
    conforms (textMap names required) value ↔
      ∃ members, value = .dict members ∧ (∀ row ∈ members, row.1 ∈ names) ∧
        (∀ row ∈ members, ∃ text, row.2 = .str text) ∧
        ∀ name ∈ required, (members.lookup name).isSome := by
  rw [textMap, conforms_closedObject]
  simp only [Dict.keys_ofPairs, List.map_map, Function.comp_def, List.map_id',
    Option.isSome_iff_exists]
  apply exists_congr
  intro members
  apply and_congr_right
  rintro rfl
  apply and_congr_right
  intro hnames
  apply and_congr_left
  intro _
  have hnodup := (JsonValue.wellFormed_dict.mp hform).1
  constructor
  · rintro hproperties ⟨name, value⟩ hrow
    have hkey : name ∈ (Dict.ofPairs (names.map fun name =>
        (name, JsonValue.dict [("type", .str "string")]))).rows.map Prod.fst := by
      simpa [Dict.keys_ofPairs] using hnames _ hrow
    obtain ⟨property, hproperty, rfl⟩ := List.mem_map.mp hkey
    obtain ⟨input, -, rfl⟩ := List.mem_map.mp (Dict.mem_of_mem_ofPairs hproperty)
    exact conforms_string.mp (hproperties _ hproperty value (JsonValue.lookup_eq_of_mem hnodup hrow))
  · intro htexts property hproperty member hmember
    obtain ⟨input, -, rfl⟩ := List.mem_map.mp (Dict.mem_of_mem_ofPairs hproperty)
    exact conforms_string.mpr (htexts _ (JsonValue.mem_of_lookup hmember))

/-- An integer in a range. -/
def integerBetween (minimum maximum : Int) : JsonValue :=
  .dict [("type", .str "integer"), ("minimum", .int minimum), ("maximum", .int maximum)]

theorem conforms_integerBetween {minimum maximum : Int} {value : JsonValue} :
    conforms (integerBetween minimum maximum) value ↔
      ∃ n, value = .int n ∧ minimum ≤ n ∧ n ≤ maximum := by
  cases value <;>
    simp [integerBetween, conforms, keywordsHold, keywordHolds, assertionHolds, typeMatches,
      numberOf?]

theorem conforms_enum {items : List JsonValue} {value : JsonValue} :
    conforms (.dict [("enum", .list items)]) value ↔ ∃ item ∈ items, value.sameJson item := by
  simp [conforms, keywordsHold, keywordHolds, assertionHolds]

theorem conforms_required {name : String} {members : List (String × JsonValue)} :
    conforms (.dict [("required", .list [.str name])]) (.dict members) ↔
      (members.lookup name).isSome := by
  simp [conforms, keywordsHold, keywordHolds, assertionHolds, hasRequired]

end JsonSchema

end Base
