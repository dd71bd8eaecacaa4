import Mathlib.Algebra.Order.Ring.Int
import Mathlib.Data.String.Basic
import Mathlib.Data.List.Sort

/-!
JSON values as a Python program holds them, with the two notions of equality such a program meets.
`pyEq` is the `==` of the language, under which `True`, `1` and `1.0` are equal. `sameJson` keeps
booleans, integers and floats apart and ignores the order of object members; it is the equality of
the texts that `json.dumps` writes with sorted keys. Numbers are exact: a float is its 64 bits, and
the comparison of an integer with a float is made on the exact values.
-/

namespace Base

/-- An IEEE 754 binary64 number, by its bits. -/
structure Float64 where
  bits : BitVec 64
  deriving DecidableEq, Repr

namespace Float64

def negative (f : Float64) : Bool := f.bits.msb

def exponentBits (f : Float64) : Nat := f.bits.toNat / 2 ^ 52 % 2 ^ 11

def fractionBits (f : Float64) : Nat := f.bits.toNat % 2 ^ 52

def isFinite (f : Float64) : Bool := f.exponentBits ≠ 2 ^ 11 - 1

def isNan (f : Float64) : Bool := !f.isFinite && f.fractionBits ≠ 0

/-- A finite float is `mantissa * 2 ^ exponent`. -/
def mantissa (f : Float64) : Int :=
  let magnitude : Nat :=
    if f.exponentBits = 0 then f.fractionBits else 2 ^ 52 + f.fractionBits
  if f.negative then -magnitude else magnitude

def exponent (f : Float64) : Int :=
  if f.exponentBits = 0 then -1074 else f.exponentBits - 1075

end Float64

/-- The text of `float.__repr__` on finite floats. The shortest digits that read back as the same
float are not computed here; what a reader of the text relies on is. -/
class FloatRepr where
  repr : Float64 → List Char
  repr_injective : ∀ f g : Float64, f.isFinite → g.isFinite → repr f = repr g → f = g
  repr_head : ∀ f : Float64, f.isFinite → ∃ c rest, repr f = c :: rest ∧ (c = '-' ∨ c.isDigit)
  repr_chars : ∀ f : Float64, f.isFinite →
    ∀ c ∈ repr f, c.isDigit ∨ c = '-' ∨ c = '+' ∨ c = '.' ∨ c = 'e'
  repr_not_integer : ∀ f : Float64, f.isFinite → '.' ∈ repr f ∨ 'e' ∈ repr f

inductive JsonValue where
  | null
  | bool (b : Bool)
  | int (n : Int)
  | float (f : Float64)
  | str (s : String)
  | list (items : List JsonValue)
  | dict (members : List (String × JsonValue))

namespace JsonValue

/-- Induction over a value whose lists are read through their members. -/
@[elab_as_elim]
theorem induction {P : JsonValue → Prop} (null : P .null) (bool : ∀ b, P (.bool b))
    (int : ∀ n, P (.int n)) (float : ∀ f, P (.float f)) (str : ∀ s, P (.str s))
    (list : ∀ items, (∀ item ∈ items, P item) → P (.list items))
    (dict : ∀ members, (∀ member ∈ members, P member.2) → P (.dict members)) (value : JsonValue) :
    P value := by
  refine @JsonValue.rec P (fun items => ∀ item ∈ items, P item)
    (fun members => ∀ member ∈ members, P member.2) (fun member => P member.2) null bool int float
    str list dict ?_ ?_ ?_ ?_ (fun _ _ hvalue => hvalue) value
  · exact fun _ hmem => absurd hmem List.not_mem_nil
  · exact fun _ _ hitem hrest => List.forall_mem_cons.mpr ⟨hitem, hrest⟩
  · exact fun _ hmem => absurd hmem List.not_mem_nil
  · exact fun _ _ hmember hrest => List.forall_mem_cons.mpr ⟨hmember, hrest⟩

mutual

/-- No object has two members of one name, at any depth. -/
def wellFormed : JsonValue → Bool
  | .list items => wellFormedItems items
  | .dict members => decide (members.map Prod.fst).Nodup && wellFormedMembers members
  | _ => true

def wellFormedItems : List JsonValue → Bool
  | [] => true
  | item :: rest => wellFormed item && wellFormedItems rest

def wellFormedMembers : List (String × JsonValue) → Bool
  | [] => true
  | (_, value) :: rest => wellFormed value && wellFormedMembers rest

end

mutual

/-- Every float in the value is finite. -/
def finite : JsonValue → Bool
  | .float f => f.isFinite
  | .list items => finiteItems items
  | .dict members => finiteMembers members
  | _ => true

def finiteItems : List JsonValue → Bool
  | [] => true
  | item :: rest => finite item && finiteItems rest

def finiteMembers : List (String × JsonValue) → Bool
  | [] => true
  | (_, value) :: rest => finite value && finiteMembers rest

end

/-! ### Python equality -/

/-- A number as `==` compares it: `bool` is a subclass of `int`, and floats compare by value. -/
inductive Number where
  | exact (mantissa exponent : Int)
  | infinite (negative : Bool)

/-- Equality of values; the mantissa with the larger exponent is scaled down to the other. -/
def Number.same : Number → Number → Bool
  | .exact m e, .exact m' e' => m * 2 ^ (e - e').toNat = m' * 2 ^ (e' - e).toNat
  | .infinite negative, .infinite negative' => negative = negative'
  | _, _ => false

def number? : JsonValue → Option Number
  | .bool b => some (.exact (if b then 1 else 0) 0)
  | .int n => some (.exact n 0)
  | .float f =>
      if f.isFinite then some (.exact f.mantissa f.exponent)
      else if f.isNan then none
      else some (.infinite f.negative)
  | _ => none

def numberEq (a b : JsonValue) : Bool :=
  match a.number?, b.number? with
  | some m, some n => m.same n
  | _, _ => false

mutual

def pyEq : JsonValue → JsonValue → Bool
  | .null, b => match b with | .null => true | _ => false
  | .str s, b => match b with | .str t => s = t | _ => false
  | .list items, b => match b with | .list others => pyEqItems items others | _ => false
  | .dict members, b =>
      match b with
      | .dict others => members.length = others.length && pyEqMembers members others
      | _ => false
  | .bool v, b => numberEq (.bool v) b
  | .int n, b => numberEq (.int n) b
  | .float f, b => numberEq (.float f) b

def pyEqItems : List JsonValue → List JsonValue → Bool
  | [], others => others.isEmpty
  | item :: rest, others =>
      match others with
      | [] => false
      | other :: others => pyEq item other && pyEqItems rest others

/-- Every member is found in the other object with an equal value. -/
def pyEqMembers : List (String × JsonValue) → List (String × JsonValue) → Bool
  | [], _ => true
  | (name, value) :: rest, others =>
      (match others.lookup name with
        | some other => pyEq value other
        | none => false) && pyEqMembers rest others

end

/-! ### Equality as JSON values -/

mutual

def sameJson : JsonValue → JsonValue → Bool
  | .null, b => match b with | .null => true | _ => false
  | .bool v, b => match b with | .bool w => v = w | _ => false
  | .int n, b => match b with | .int m => n = m | _ => false
  | .float f, b => match b with | .float g => f = g | _ => false
  | .str s, b => match b with | .str t => s = t | _ => false
  | .list items, b => match b with | .list others => sameItems items others | _ => false
  | .dict members, b =>
      match b with
      | .dict others => members.length = others.length && sameMembers members others
      | _ => false

def sameItems : List JsonValue → List JsonValue → Bool
  | [], others => others.isEmpty
  | item :: rest, others =>
      match others with
      | [] => false
      | other :: others => sameJson item other && sameItems rest others

def sameMembers : List (String × JsonValue) → List (String × JsonValue) → Bool
  | [], _ => true
  | (name, value) :: rest, others =>
      (match others.lookup name with
        | some other => sameJson value other
        | none => false) && sameMembers rest others

end

/-! ### The canonical text

`json.dumps(value, allow_nan=False, separators=(",", ":"), sort_keys=True)`, with the default
`ensure_ascii`. -/

/-- `'\\u{0:04x}'.format(n)` for `n < 0x10000`. -/
def hexEscape (n : Nat) : List Char :=
  let digit (d : Nat) : Char := Nat.digitChar (d % 16)
  ['\\', 'u', digit (n / 4096), digit (n / 256), digit (n / 16), digit n]

/-- The text of one character of a string. Everything outside `' '..'~'` is escaped, characters
above `0xFFFF` as a surrogate pair. -/
def escapeChar (c : Char) : List Char :=
  if c = '"' then ['\\', '"']
  else if c = '\\' then ['\\', '\\']
  else if c = '\n' then ['\\', 'n']
  else if c = '\r' then ['\\', 'r']
  else if c = '\t' then ['\\', 't']
  else if c = Char.ofNat 0x0C then ['\\', 'f']
  else if c = Char.ofNat 0x08 then ['\\', 'b']
  else if 0x20 ≤ c.toNat ∧ c.toNat ≤ 0x7E then [c]
  else if c.toNat < 0x10000 then hexEscape c.toNat
  else
    hexEscape (0xD800 + (c.toNat - 0x10000) / 0x400) ++
      hexEscape (0xDC00 + (c.toNat - 0x10000) % 0x400)

def encodeString (s : String) : List Char := '"' :: (s.toList.flatMap escapeChar ++ ['"'])

/-- Texts separated by commas. -/
def commaSeparated : List (List Char) → List Char
  | [] => []
  | [text] => text
  | text :: rest => text ++ ',' :: commaSeparated rest

def encodeMember (member : String × List Char) : List Char :=
  encodeString member.1 ++ ':' :: member.2

def sortMembers (members : List (String × List Char)) : List (String × List Char) :=
  members.insertionSort fun a b => a.1 ≤ b.1

variable [FloatRepr]

mutual

def encode : JsonValue → List Char
  | .null => ['n', 'u', 'l', 'l']
  | .bool true => ['t', 'r', 'u', 'e']
  | .bool false => ['f', 'a', 'l', 's', 'e']
  | .int n => (toString n).toList
  | .float f => FloatRepr.repr f
  | .str s => encodeString s
  | .list items => '[' :: (commaSeparated (encodeItems items) ++ [']'])
  | .dict members =>
      '{' :: (commaSeparated ((sortMembers (encodeMembers members)).map encodeMember) ++ ['}'])

def encodeItems : List JsonValue → List (List Char)
  | [] => []
  | item :: rest => encode item :: encodeItems rest

def encodeMembers : List (String × JsonValue) → List (String × List Char)
  | [] => []
  | (name, value) :: rest => (name, encode value) :: encodeMembers rest

end

end JsonValue

/-- An object value: members under distinct names, at every depth. -/
structure JsonObject where
  members : List (String × JsonValue)
  wellFormed : (JsonValue.dict members).wellFormed

namespace JsonObject

def empty : JsonObject := ⟨[], rfl⟩

def value (o : JsonObject) : JsonValue := .dict o.members

def get? (o : JsonObject) (name : String) : Option JsonValue := o.members.lookup name

end JsonObject

end Base
