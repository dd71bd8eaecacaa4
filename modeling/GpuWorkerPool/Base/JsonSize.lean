import GpuWorkerPool.Base.JsonEncoding

/-!
How long the text of a value can be, read off the value: no character takes more than twelve.
-/

namespace Base.JsonValue

theorem length_escapeChar_le (c : Char) : (escapeChar c).length ≤ 12 := by
  unfold escapeChar
  split_ifs <;> simp [hexEscape]

theorem length_flatMap_escapeChar_le (cs : List Char) :
    (cs.flatMap escapeChar).length ≤ 12 * cs.length := by
  induction cs with
  | nil => exact le_refl _
  | cons c rest ih =>
      have hc := length_escapeChar_le c
      rw [List.flatMap_cons, List.length_append, List.length_cons]
      omega

theorem length_encodeString_le (s : String) : (encodeString s).length ≤ 12 * s.length + 2 := by
  have hs := length_flatMap_escapeChar_le s.toList
  rw [String.length_toList] at hs
  rw [encodeString, List.length_cons, List.length_append, List.length_singleton]
  omega

theorem length_commaSeparated_le (texts : List (List Char)) :
    (commaSeparated texts).length ≤ texts.flatten.length + texts.length := by
  induction texts with
  | nil => exact le_refl _
  | cons text rest ih =>
      cases rest with
      | nil => simp [commaSeparated]
      | cons next rest =>
          rw [commaSeparated, List.length_append, List.length_cons, List.flatten_cons,
            List.length_append, List.length_cons]
          · omega
          · simp

variable [FloatRepr]

mutual

def sizeBound : JsonValue → Nat
  | .null => 4
  | .bool _ => 5
  | .int n => (toString n).toList.length
  | .float f => (FloatRepr.repr f).length
  | .str s => 12 * s.length + 2
  | .list items => itemsBound items + 2
  | .dict members => membersBound members + 2

def itemsBound : List JsonValue → Nat
  | [] => 0
  | item :: rest => sizeBound item + 1 + itemsBound rest

def membersBound : List (String × JsonValue) → Nat
  | [] => 0
  | (name, value) :: rest => 12 * name.length + 2 + 1 + sizeBound value + 1 + membersBound rest

end

mutual

theorem length_encode_le (v : JsonValue) : v.encode.length ≤ v.sizeBound := by
  cases v with
  | null => exact le_refl _
  | bool b => cases b <;> simp [encode, sizeBound]
  | int n => exact le_refl _
  | float f => exact le_refl _
  | str s => exact length_encodeString_le s
  | list items =>
      have hitems := length_encodeItems_le items
      have hcommas := length_commaSeparated_le (encodeItems items)
      rw [encode, sizeBound, List.length_cons, List.length_append, List.length_singleton]
      omega
  | dict members =>
      have hmembers := length_encodeMembers_le members
      have hcommas := length_commaSeparated_le
        ((sortMembers (encodeMembers members)).map encodeMember)
      have hsorted : (sortMembers (encodeMembers members)).Perm (encodeMembers members) :=
        List.perm_insertionSort _ _
      rw [(hsorted.map encodeMember).flatten.length_eq, List.length_map, hsorted.length_eq]
        at hcommas
      rw [encode, sizeBound, List.length_cons, List.length_append, List.length_singleton]
      omega

theorem length_encodeItems_le (items : List JsonValue) :
    (encodeItems items).flatten.length + (encodeItems items).length ≤ itemsBound items := by
  cases items with
  | nil => exact le_refl _
  | cons item rest =>
      have hitem := length_encode_le item
      have hrest := length_encodeItems_le rest
      rw [encodeItems, itemsBound, List.flatten_cons, List.length_append, List.length_cons]
      omega

theorem length_encodeMembers_le (members : List (String × JsonValue)) :
    ((encodeMembers members).map encodeMember).flatten.length + (encodeMembers members).length ≤
      membersBound members := by
  cases members with
  | nil => exact le_refl _
  | cons member rest =>
      obtain ⟨name, value⟩ := member
      have hname := length_encodeString_le name
      have hvalue := length_encode_le value
      have hrest := length_encodeMembers_le rest
      rw [encodeMembers, membersBound, List.map_cons, List.flatten_cons, List.length_append,
        List.length_cons, encodeMember, List.length_append, List.length_cons]
      dsimp only
      omega

end

end Base.JsonValue
