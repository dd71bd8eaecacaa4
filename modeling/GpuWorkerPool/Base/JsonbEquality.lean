import GpuWorkerPool.Base.JsonEncoding
import GpuWorkerPool.Base.Jsonb
import GpuWorkerPool.Base.Sql

/-!
Equality of `jsonb` values. Numbers are compared by value, a truth value is no number, and an
object is a set of members, so the order in which a column keeps the members is no part of the
comparison. `==` of Python differs in one point only: it takes `True` for `1`.
-/

namespace Base

namespace Jsonb

/-- What is read back of a float that was written to a column, unless the column refuses it. -/
class FloatColumn where
  kept : Float64 → Option JsonValue

mutual

/-- The value with its floats as they are read back. -/
def readBack [FloatColumn] : JsonValue → Option JsonValue
  | .float f => FloatColumn.kept f
  | .list items => (readBackItems items).map .list
  | .dict members => (readBackMembers members).map .dict
  | value => some value

def readBackItems [FloatColumn] : List JsonValue → Option (List JsonValue)
  | [] => some []
  | item :: rest =>
      match readBack item, readBackItems rest with
      | some item, some rest => some (item :: rest)
      | _, _ => none

def readBackMembers [FloatColumn] :
    List (String × JsonValue) → Option (List (String × JsonValue))
  | [] => some []
  | (name, value) :: rest =>
      match readBack value, readBackMembers rest with
      | some value, some rest => some ((name, value) :: rest)
      | _, _ => none

end

mutual

/-- `value = other` -/
def same : JsonValue → JsonValue → Bool
  | .list items, other =>
      match other with
      | .list others => sameItems items others
      | _ => false
  | .dict members, other =>
      match other with
      | .dict others => members.length = others.length && sameMembers members others
      | _ => false
  | value, other => Sql.sameScalar value other

def sameItems : List JsonValue → List JsonValue → Bool
  | [], others => others.isEmpty
  | item :: rest, others =>
      match others with
      | [] => false
      | other :: others => same item other && sameItems rest others

def sameMembers : List (String × JsonValue) → List (String × JsonValue) → Bool
  | [], _ => true
  | (name, value) :: rest, others =>
      (others.lookup name).any (same value) && sameMembers rest others

end

theorem sameMembers_eq_all (members others : List (String × JsonValue)) :
    sameMembers members others =
      members.all fun member => (others.lookup member.1).any (same member.2) := by
  induction members with
  | nil => rfl
  | cons member rest ih => rw [sameMembers, ih, List.all_cons]

/-! ### Stored values -/

theorem lookup_storedMembers (members : List (String × JsonValue)) (name : String) :
    (storedMembers members).lookup name = (members.lookup name).map stored := by
  induction members with
  | nil => rfl
  | cons member rest ih =>
      rw [storedMembers, List.lookup_cons, List.lookup_cons, ih]
      cases name == member.1 <;> rfl

theorem keys_storedMembers (members : List (String × JsonValue)) :
    (storedMembers members).map Prod.fst = members.map Prod.fst := by
  rw [storedMembers_eq_map, List.map_map]
  rfl

theorem lookup_stored {members : List (String × JsonValue)} (h : (members.map Prod.fst).Nodup)
    (name : String) :
    (sortNames (storedMembers members)).lookup name = (members.lookup name).map stored := by
  rw [lookup_sortNames ((keys_storedMembers members).symm ▸ h), lookup_storedMembers]

theorem length_stored (members : List (String × JsonValue)) :
    (sortNames (storedMembers members)).length = members.length := by
  rw [(sortNames_perm _).length_eq, storedMembers_eq_map, List.length_map]

theorem wellFormed_stored {v : JsonValue} (h : v.wellFormed) : (stored v).wellFormed := by
  induction v using JsonValue.induction with
  | list items ih =>
      rw [JsonValue.wellFormed, JsonValue.wellFormedItems_iff] at h
      rw [stored, JsonValue.wellFormed, JsonValue.wellFormedItems_iff, storedItems_eq_map]
      intro item hitem
      obtain ⟨item, hmem, rfl⟩ := List.mem_map.mp hitem
      exact ih item hmem (h item hmem)
  | dict members ih =>
      obtain ⟨hnodup, hmembers⟩ := JsonValue.wellFormed_dict.mp h
      refine JsonValue.wellFormed_dict.mpr ⟨?_, fun member hmember => ?_⟩
      · exact nodup_sortNames ((keys_storedMembers members).symm ▸ hnodup)
      · rw [(sortNames_perm _).mem_iff, storedMembers_eq_map] at hmember
        obtain ⟨member, hmem, rfl⟩ := List.mem_map.mp hmember
        exact ih member hmem (hmembers member hmem)
  | _ => exact h

theorem sameItems_map {f : JsonValue → JsonValue} {items others : List JsonValue}
    (h : ∀ item ∈ items, ∀ other ∈ others, same (f item) (f other) = same item other) :
    sameItems (items.map f) (others.map f) = sameItems items others := by
  induction items generalizing others with
  | nil => cases others <;> rfl
  | cons item rest ih =>
      cases others with
      | nil => rfl
      | cons other others =>
          rw [List.map_cons, List.map_cons, sameItems, sameItems, h _ List.mem_cons_self _
            List.mem_cons_self, ih fun item hitem other hother => h item
              (List.mem_cons_of_mem _ hitem) other (List.mem_cons_of_mem _ hother)]

/-- The order in which the members are kept is no part of the comparison. -/
theorem same_stored {v w : JsonValue} (hv : v.wellFormed) (hw : w.wellFormed) :
    same (stored v) (stored w) = same v w := by
  induction v using JsonValue.induction generalizing w with
  | list items ih =>
      cases w with
      | list others =>
          rw [JsonValue.wellFormed, JsonValue.wellFormedItems_iff] at hv hw
          rw [stored, stored, same, same, storedItems_eq_map, storedItems_eq_map]
          apply sameItems_map
          exact fun item hitem other hother => ih item hitem (hv item hitem) (hw other hother)
      | _ => rfl
  | dict members ih =>
      cases w with
      | dict others =>
          obtain ⟨-, hmembers⟩ := JsonValue.wellFormed_dict.mp hv
          obtain ⟨hnodup, hothers⟩ := JsonValue.wellFormed_dict.mp hw
          rw [stored, stored, same, same, length_stored, length_stored, sameMembers_eq_all,
            sameMembers_eq_all, (sortNames_perm _).all_eq, storedMembers_eq_map members,
            List.all_map]
          congr 1
          rw [Bool.eq_iff_iff, List.all_eq_true, List.all_eq_true]
          apply forall₂_congr
          intro member hmember
          rw [Function.comp_apply, lookup_stored hnodup, Option.any_map]
          cases hlookup : others.lookup member.1 with
          | none => rfl
          | some other =>
              have hother := hothers _ (JsonValue.mem_of_lookup hlookup)
              rw [Option.any_some, Option.any_some]
              exact iff_of_eq (congrArg (· = true)
                (ih member hmember (hmembers member hmember) hother))
      | _ => rfl
  | _ => cases w <;> rfl

/-! ### Beside `==` -/

theorem pyEqItems_of_same {items others : List JsonValue}
    (hitems : ∀ item ∈ items, ∀ other, same item other → item.pyEq other)
    (h : sameItems items others) : JsonValue.pyEqItems items others := by
  induction items generalizing others with
  | nil => exact h
  | cons item rest ih =>
      cases others with
      | nil => cases h
      | cons other others =>
          rw [List.forall_mem_cons] at hitems
          rw [sameItems, Bool.and_eq_true] at h
          rw [JsonValue.pyEqItems, Bool.and_eq_true]
          exact ⟨hitems.1 other h.1, ih hitems.2 h.2⟩

theorem pyEqMembers_of_same {members others : List (String × JsonValue)}
    (hmembers : ∀ member ∈ members, ∀ other, same member.2 other → member.2.pyEq other)
    (h : sameMembers members others) : JsonValue.pyEqMembers members others := by
  induction members with
  | nil => rfl
  | cons member rest ih =>
      rw [List.forall_mem_cons] at hmembers
      rw [sameMembers, Bool.and_eq_true] at h
      rw [JsonValue.pyEqMembers, Bool.and_eq_true]
      refine ⟨?_, ih hmembers.2 h.2⟩
      cases hlookup : others.lookup member.1 with
      | none =>
          rw [hlookup] at h
          cases h.1
      | some other =>
          rw [hlookup] at h
          exact hmembers.1 other h.1

theorem pyEq_of_same {v w : JsonValue} (h : same v w) : v.pyEq w := by
  induction v using JsonValue.induction generalizing w with
  | null => cases w <;> first | rfl | cases h
  | bool b =>
      cases w with
      | bool d =>
          obtain rfl : b = d := of_decide_eq_true h
          cases b <;> rfl
      | _ => cases h
  | int n => cases w <;> first | exact h | cases h
  | float f => cases w <;> first | exact h | cases h
  | str s =>
      cases w with
      | str t => exact h
      | _ => cases h
  | list items ih =>
      cases w with
      | list others => exact pyEqItems_of_same (fun item hitem other => ih item hitem) h
      | _ => cases h
  | dict members ih =>
      cases w with
      | dict others =>
          rw [same, Bool.and_eq_true] at h
          rw [JsonValue.pyEq, Bool.and_eq_true]
          exact ⟨h.1, pyEqMembers_of_same (fun member hmember other => ih member hmember) h.2⟩
      | _ => cases h

/-! ### By the members -/

theorem mem_names_iff {members : List (String × JsonValue)} {name : String} :
    name ∈ members.map Prod.fst ↔ ∃ value, members.lookup name = some value := by
  constructor
  · intro hname
    obtain ⟨member, hmember, rfl⟩ := List.mem_map.mp hname
    cases hlookup : members.lookup member.1 with
    | none => exact absurd (List.lookup_eq_none_iff.mp hlookup member hmember) (by simp)
    | some value => exact ⟨value, rfl⟩
  · rintro ⟨value, hlookup⟩
    exact List.mem_map_of_mem (JsonValue.mem_of_lookup hlookup)

/-- Two objects are equal when they have the same names with equal values under them. -/
theorem same_dict_iff {members others : List (String × JsonValue)}
    (hnodup : (members.map Prod.fst).Nodup) (hnodup' : (others.map Prod.fst).Nodup) :
    same (.dict members) (.dict others) ↔
      ∀ name, Option.Rel (fun v w => same v w) (members.lookup name) (others.lookup name) := by
  rw [same, Bool.and_eq_true, decide_eq_true_eq, sameMembers_eq_all, List.all_eq_true]
  constructor
  · rintro ⟨hlength, hall⟩ name
    have hsubset : members.map Prod.fst ⊆ others.map Prod.fst := by
      intro name hname
      obtain ⟨member, hmember, rfl⟩ := List.mem_map.mp hname
      obtain ⟨other, hother, -⟩ := (Option.any_eq_true _ _).mp (hall member hmember)
      exact mem_names_iff.mpr ⟨other, hother⟩
    have hperm : (members.map Prod.fst).Perm (others.map Prod.fst) :=
      (hnodup.subperm hsubset).perm_of_length_le (by simp [hlength])
    cases hlookup : members.lookup name with
    | none =>
        cases hother : others.lookup name with
        | none => exact .none
        | some other =>
            obtain ⟨value, hvalue⟩ :=
              mem_names_iff.mp (hperm.mem_iff.mpr (mem_names_iff.mpr ⟨other, hother⟩))
            cases hlookup.symm.trans hvalue
    | some value =>
        obtain ⟨other, hother, hsame⟩ :=
          (Option.any_eq_true _ _).mp (hall _ (JsonValue.mem_of_lookup hlookup))
        rw [hother]
        exact .some hsame
  · intro hrel
    have hnames : ∀ name, name ∈ members.map Prod.fst ↔ name ∈ others.map Prod.fst := by
      intro name
      rw [mem_names_iff, mem_names_iff]
      have hrow := hrel name
      generalize members.lookup name = found at hrow
      generalize others.lookup name = other at hrow
      cases hrow <;> simp
    have hperm := (List.perm_ext_iff_of_nodup hnodup hnodup').mpr hnames
    refine ⟨by simpa using hperm.length_eq, fun member hmember => ?_⟩
    have hrow := hrel member.1
    rw [JsonValue.lookup_eq_of_mem hnodup hmember] at hrow
    cases hother : others.lookup member.1 with
    | none =>
        rw [hother] at hrow
        cases hrow
    | some other =>
        rw [hother] at hrow
        cases hrow with
        | some hsame => exact hsame

theorem same_texts (items others : List String) :
    same (.list (items.map .str)) (.list (others.map .str)) = decide (items = others) := by
  rw [same]
  induction items generalizing others with
  | nil => cases others <;> rfl
  | cons item rest ih =>
      cases others with
      | nil => rfl
      | cons other others =>
          rw [List.map_cons, List.map_cons, sameItems, ih, Bool.eq_iff_iff]
          simp [same, Sql.sameScalar]

theorem same_textDict (d e : Dict String String) :
    same (.dict (d.rows.map fun row => (row.1, .str row.2)))
      (.dict (e.rows.map fun row => (row.1, .str row.2))) = d.same e := by
  rw [same, Dict.same, List.length_map, List.length_map, sameMembers_eq_all, List.all_map]
  congr 1
  rw [Bool.eq_iff_iff, List.all_eq_true, List.all_eq_true]
  apply forall₂_congr
  intro row hrow
  rw [Function.comp_apply, Sql.lookup_map_strings, Dict.lookup_rows, Option.any_map]
  cases e.lookup row.1 with
  | none => simp
  | some text => simp [same, Sql.sameScalar, eq_comm]

end Jsonb

/-- The object as a `jsonb` column keeps it. -/
def JsonObject.stored (o : JsonObject) : JsonObject :=
  ⟨Jsonb.sortNames (Jsonb.storedMembers o.members), Jsonb.wellFormed_stored o.wellFormed⟩

end Base
