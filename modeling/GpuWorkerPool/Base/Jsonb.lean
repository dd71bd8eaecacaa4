import GpuWorkerPool.Base.Json
import GpuWorkerPool.Base.Table

/-!
What a `jsonb` column keeps of a value: the members of an object in an order of its own, shorter
names first and names of one length by their bytes, and everything else as it was. The value may
hold no NUL character.
-/

namespace Base

namespace Jsonb

/-- The order in which the members of an object are kept. -/
def nameBefore {α : Type} (a b : String × α) : Prop :=
  a.1.utf8ByteSize < b.1.utf8ByteSize ∨ a.1.utf8ByteSize = b.1.utf8ByteSize ∧ a.1 ≤ b.1

instance {α : Type} : DecidableRel (nameBefore (α := α)) := fun a b =>
  inferInstanceAs (Decidable (a.1.utf8ByteSize < b.1.utf8ByteSize ∨
    a.1.utf8ByteSize = b.1.utf8ByteSize ∧ a.1 ≤ b.1))

def sortNames {α : Type} (members : List (String × α)) : List (String × α) :=
  members.insertionSort nameBefore

mutual

/-- The value as the column keeps it. -/
def stored : JsonValue → JsonValue
  | .list items => .list (storedItems items)
  | .dict members => .dict (sortNames (storedMembers members))
  | value => value

def storedItems : List JsonValue → List JsonValue
  | [] => []
  | item :: rest => stored item :: storedItems rest

def storedMembers : List (String × JsonValue) → List (String × JsonValue)
  | [] => []
  | (name, value) :: rest => (name, stored value) :: storedMembers rest

end

def textFits (s : String) : Bool := s.toList.all fun c => c ≠ Char.ofNat 0

mutual

/-- No text of the value has a NUL character. -/
def fits : JsonValue → Bool
  | .str s => textFits s
  | .list items => fitsItems items
  | .dict members => fitsMembers members
  | _ => true

def fitsItems : List JsonValue → Bool
  | [] => true
  | item :: rest => fits item && fitsItems rest

def fitsMembers : List (String × JsonValue) → Bool
  | [] => true
  | (name, value) :: rest => textFits name && fits value && fitsMembers rest

end

section Sorting

variable {α β : Type}

theorem sortNames_perm (members : List (String × α)) : (sortNames members).Perm members :=
  List.perm_insertionSort _ _

theorem sortNames_map (f : α → β) (members : List (String × α)) :
    sortNames (members.map fun member => (member.1, f member.2)) =
      (sortNames members).map fun member => (member.1, f member.2) :=
  (List.map_insertionSort nameBefore nameBefore (fun member => (member.1, f member.2)) members
    fun _ _ _ _ => Iff.rfl).symm

theorem nodup_sortNames {members : List (String × α)} (h : (members.map Prod.fst).Nodup) :
    ((sortNames members).map Prod.fst).Nodup :=
  ((sortNames_perm members).map Prod.fst).nodup_iff.mpr h

/-- The order of the members is no part of what the object says. -/
theorem lookup_sortNames {members : List (String × α)} (h : (members.map Prod.fst).Nodup)
    (name : String) : (sortNames members).lookup name = members.lookup name := by
  have hrows (d : Dict String α) : d.rows.lookup name = d.lookup name := Dict.lookup_rows d name
  rw [hrows ⟨sortNames members, nodup_sortNames h⟩, hrows ⟨members, h⟩]
  apply Option.ext
  intro value
  rw [Dict.lookup_eq_some_iff, Dict.lookup_eq_some_iff]
  exact (sortNames_perm members).mem_iff

end Sorting

theorem storedItems_eq_map (items : List JsonValue) : storedItems items = items.map stored := by
  induction items with
  | nil => rfl
  | cons item rest ih => rw [storedItems, ih, List.map_cons]

theorem storedMembers_eq_map (members : List (String × JsonValue)) :
    storedMembers members = members.map fun member => (member.1, stored member.2) := by
  induction members with
  | nil => rfl
  | cons member rest ih => rw [storedMembers, ih, List.map_cons]

/-- A list of texts is kept as it is. -/
theorem stored_texts (items : List String) :
    stored (.list (items.map .str)) = .list (items.map .str) := by
  rw [stored, storedItems_eq_map, List.map_map]
  rfl

end Jsonb

end Base
