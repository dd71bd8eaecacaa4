import Mathlib
import GpuWorkerPool.Base.Json

/-!
What a `WHERE` clause over `jsonb` columns means. `NULL` is `none`: a comparison with it is `NULL`,
a connective follows the three-valued tables, and a clause keeps the rows on which it is true. Each
connective has one rule for `isTrue`, so that a clause is read as a Boolean without its `NULL`s.
-/

namespace Base

namespace Sql

/-- A truth value; `none` is `NULL`. -/
abbrev Truth := Option Bool

/-- What `WHERE` asks of a truth value. -/
def isTrue (t : Truth) : Bool := t = some true

def and3 : Truth → Truth → Truth
  | some false, _ => some false
  | _, some false => some false
  | some true, some true => some true
  | _, _ => none

def or3 : Truth → Truth → Truth
  | some true, _ => some true
  | _, some true => some true
  | some false, some false => some false
  | _, _ => none

variable {α : Type}

/-- A comparison operator on nullable values. -/
def compare (op : α → α → Bool) : Option α → Option α → Truth
  | some a, some b => some (op a b)
  | _, _ => none

/-- `IS NOT DISTINCT FROM`, which is never `NULL`. -/
def isNotDistinctFrom [DecidableEq α] (a b : Option α) : Truth := some (a = b)

/-- `x IN (items)` and `x = ANY (items)`: the disjunction of the equalities. -/
def isIn [DecidableEq α] (x : Option α) (items : List (Option α)) : Truth :=
  items.foldr (fun item rest => or3 (compare (fun a b => a = b) x item) rest) (some false)

@[simp] theorem isTrue_some (b : Bool) : isTrue (some b) = b := by
  cases b <;> rfl

@[simp] theorem isTrue_and3 (s t : Truth) : isTrue (and3 s t) = (isTrue s && isTrue t) := by
  rcases s with _ | _ | _ <;> rcases t with _ | _ | _ <;> rfl

@[simp] theorem isTrue_or3 (s t : Truth) : isTrue (or3 s t) = (isTrue s || isTrue t) := by
  rcases s with _ | _ | _ <;> rcases t with _ | _ | _ <;> rfl

@[simp] theorem isTrue_compare (op : α → α → Bool) (a b : Option α) :
    isTrue (compare op a b) = a.any fun a => b.any fun b => op a b := by
  rcases a with _ | a
  · rfl
  · rcases b with _ | b
    · rfl
    · exact isTrue_some (op a b)

@[simp] theorem isTrue_isNotDistinctFrom [DecidableEq α] (a b : Option α) :
    isTrue (isNotDistinctFrom a b) = decide (a = b) :=
  isTrue_some _

/-- A `NULL` among the items never makes the membership true. -/
@[simp] theorem isTrue_isIn [DecidableEq α] (x : Option α) (items : List (Option α)) :
    isTrue (isIn x items) = x.any fun a => decide (some a ∈ items) := by
  induction items with
  | nil => cases x <;> simp [isIn]
  | cons item rest ih =>
      rw [isIn, List.foldr_cons, isTrue_or3, isTrue_compare]
      rw [isIn] at ih
      rw [ih]
      cases x with
      | none => rfl
      | some a =>
          cases item with
          | none => simp
          | some b => simp

/-- `ORDER BY` and `LIMIT 1`: the row that no row comes before. -/
def first (before : α → α → Bool) (rows : List α) : Option α :=
  rows.find? fun row => rows.all fun other => !before other row

theorem first_eq_some {before : α → α → Bool} {rows : List α} {row : α}
    (h : first before rows = some row) :
    row ∈ rows ∧ ∀ other ∈ rows, before other row = false := by
  refine ⟨List.mem_of_find?_eq_some h, ?_⟩
  simpa using List.find?_some h

theorem first_ne_none {before : α → α → Bool} {rows : List α} {row : α} (hmem : row ∈ rows)
    (hfirst : ∀ other ∈ rows, before other row = false) : first before rows ≠ none := by
  intro hnone
  have hrow := List.find?_eq_none.mp hnone row hmem
  simp only [List.all_eq_true, Bool.not_eq_true'] at hrow
  exact hrow hfirst

/-! ### Operators on `jsonb` -/

/-- How Postgres prints the values that are neither `null` nor a string nor an integer. -/
class JsonbText where
  text : JsonValue → String

/-- `value -> name` -/
def field (value : JsonValue) (name : String) : Option JsonValue :=
  match value with
  | .dict members => members.lookup name
  | _ => none

/-- The text of a value; the text of `null` is `NULL`. -/
def text [JsonbText] : JsonValue → Option String
  | .null => none
  | .str s => some s
  | .int n => some (toString n)
  | value => some (JsonbText.text value)

/-- `value ->> name` -/
def fieldText [JsonbText] (value : JsonValue) (name : String) : Option String :=
  (field value name).bind text

/-- `jsonb_array_length`, which raises on anything but an array. -/
def arrayLength : JsonValue → Option Nat
  | .list items => some items.length
  | _ => none

/-- `jsonb_array_elements_text`, which has no rows on `NULL`. -/
def elementsText [JsonbText] : Option JsonValue → List (Option String)
  | some (.list items) => items.map text
  | _ => []

/-- `value ? name` -/
def hasKey (value : JsonValue) (name : String) : Bool :=
  match value with
  | .dict members => name ∈ members.map Prod.fst
  | .list items =>
      items.any fun item =>
        match item with
        | .str s => s = name
        | _ => false
  | .str s => s = name
  | _ => false

/-- Equality of two values that are not both arrays or both objects. -/
def sameScalar : JsonValue → JsonValue → Bool
  | .null, .null => true
  | .bool v, .bool w => v = w
  | .str s, .str t => s = t
  | .bool _, _ => false
  | _, .bool _ => false
  | a, b => a.numberEq b

mutual

/-- Containment below the top level: an array as a set of elements, an object by its members. -/
def containedIn : JsonValue → JsonValue → Bool
  | .list items, other =>
      match other with
      | .list others => containedItems items others
      | _ => false
  | .dict members, other =>
      match other with
      | .dict others => containedMembers members others
      | _ => false
  | value, other => sameScalar value other

def containedItems : List JsonValue → List JsonValue → Bool
  | [], _ => true
  | item :: rest, others => others.any (containedIn item) && containedItems rest others

def containedMembers : List (String × JsonValue) → List (String × JsonValue) → Bool
  | [], _ => true
  | (name, value) :: rest, others =>
      (others.lookup name).any (containedIn value) && containedMembers rest others

end

/-- `value <@ other`. At the top level an array also contains a scalar that it lists. -/
def contained (value other : JsonValue) : Bool :=
  match value, other with
  | .list items, other => containedIn (.list items) other
  | .dict members, other => containedIn (.dict members) other
  | scalar, .list others => others.any (sameScalar scalar)
  | scalar, other => sameScalar scalar other

theorem containedItems_strings (items others : List String) :
    containedItems (items.map .str) (others.map .str) = items.all (· ∈ others) := by
  induction items with
  | nil => rfl
  | cons item rest ih =>
      rw [List.map_cons, containedItems, ih, List.all_cons, List.any_map]
      congr 1
      rw [Bool.eq_iff_iff, List.any_eq_true, decide_eq_true_iff]
      simp [containedIn, sameScalar]

theorem lookup_map_strings (members : List (String × String)) (name : String) :
    (members.map fun member => (member.1, JsonValue.str member.2)).lookup name =
      (members.lookup name).map .str := by
  induction members with
  | nil => rfl
  | cons member rest ih =>
      rw [List.map_cons, List.lookup_cons, List.lookup_cons, ih]
      cases name == member.1 <;> rfl

theorem containedMembers_strings (members others : List (String × String)) :
    containedMembers (members.map fun member => (member.1, .str member.2))
        (others.map fun member => (member.1, .str member.2)) =
      members.all fun member => others.lookup member.1 = some member.2 := by
  induction members with
  | nil => rfl
  | cons member rest ih =>
      rw [List.map_cons, containedMembers, ih, List.all_cons, lookup_map_strings]
      congr 1
      cases others.lookup member.1 with
      | none => rfl
      | some text => simp [containedIn, sameScalar, eq_comm]

theorem hasKey_strings (items : List String) (name : String) :
    hasKey (.list (items.map .str)) name = decide (name ∈ items) := by
  rw [hasKey, List.any_map, Bool.eq_iff_iff, List.any_eq_true, decide_eq_true_iff]
  simp

end Sql

end Base
