import GpuWorkerPool.Base.FirstGood
import GpuWorkerPool.Base.JsonEncoding
import GpuWorkerPool.EngineTransports
import GpuWorkerPool.Validation

/-!
`_bounded`: the diagnostics of an engine job within the payload bound. As long as the diagnostics
are refused, the next optional section gives way to a marker with the digest of what it held. The
diagnostics are the object that `json.dumps` writes; reading the text back makes one NaN of all
NaNs and changes nothing else.
-/

namespace GpuWorkerPool

open Base

/-! ### Texts -/

namespace JsonText

/-- The one NaN that `json.loads` makes. -/
def nan : Float64 := ⟨0x7FF8000000000000⟩

mutual

/-- `json.loads(json.dumps(value))` -/
def reload : JsonValue → JsonValue
  | .float f => .float (if f.isNan then nan else f)
  | .list items => .list (reloadItems items)
  | .dict members => .dict (reloadMembers members)
  | value => value

def reloadItems : List JsonValue → List JsonValue
  | [] => []
  | item :: rest => reload item :: reloadItems rest

def reloadMembers : List (String × JsonValue) → List (String × JsonValue)
  | [] => []
  | (name, value) :: rest => (name, reload value) :: reloadMembers rest

end

section Reload

theorem reloadItems_eq_map (items : List JsonValue) : reloadItems items = items.map reload := by
  induction items with
  | nil => rfl
  | cons item rest ih => rw [reloadItems, ih, List.map_cons]

theorem reloadMembers_eq_map (members : List (String × JsonValue)) :
    reloadMembers members = members.map fun member => (member.1, reload member.2) := by
  induction members with
  | nil => rfl
  | cons member rest ih => rw [reloadMembers, ih, List.map_cons]

theorem reload_of_finite (value : JsonValue) (h : value.finite) : reload value = value := by
  induction value using JsonValue.induction with
  | null | bool _ | int _ | str _ => rfl
  | float f =>
      have hnan : f.isNan = false := by
        rw [JsonValue.finite] at h
        rw [Float64.isNan, h, Bool.not_true, Bool.false_and]
      rw [reload, hnan, if_neg Bool.false_ne_true]
  | list items ih =>
      rw [JsonValue.finite, JsonValue.finiteItems_iff] at h
      have hitems : items.map reload = items :=
        (List.map_congr_left fun item hitem => ih item hitem (h item hitem)).trans (List.map_id' items)
      rw [reload, reloadItems_eq_map, hitems]
  | dict members ih =>
      rw [JsonValue.finite, JsonValue.finiteMembers_iff] at h
      have hmembers : (members.map fun member => (member.1, reload member.2)) = members := by
        refine (List.map_congr_left fun member hmember => ?_).trans (List.map_id' members)
        rw [ih member hmember (h member hmember)]
      rw [reload, reloadMembers_eq_map, hmembers]

theorem finite_of_reload (value : JsonValue) (h : (reload value).finite) : value.finite := by
  induction value using JsonValue.induction with
  | null | bool _ | int _ | str _ => rfl
  | float f =>
      by_cases hnan : f.isNan
      · rw [reload, if_pos hnan] at h
        exact absurd h (by decide)
      · rwa [reload, if_neg hnan] at h
  | list items ih =>
      rw [reload, JsonValue.finite, JsonValue.finiteItems_iff, reloadItems_eq_map,
        List.forall_mem_map] at h
      exact JsonValue.finiteItems_iff.mpr fun item hitem => ih item hitem (h item hitem)
  | dict members ih =>
      rw [reload, JsonValue.finite, JsonValue.finiteMembers_iff, reloadMembers_eq_map,
        List.forall_mem_map] at h
      exact JsonValue.finiteMembers_iff.mpr fun member hmember => ih member hmember (h member hmember)

theorem wellFormed_reload (value : JsonValue) (h : value.wellFormed) : (reload value).wellFormed := by
  induction value using JsonValue.induction with
  | null | bool _ | int _ | str _ | float _ => rfl
  | list items ih =>
      rw [JsonValue.wellFormed, JsonValue.wellFormedItems_iff] at h
      rw [reload, JsonValue.wellFormed, JsonValue.wellFormedItems_iff, reloadItems_eq_map,
        List.forall_mem_map]
      exact fun item hitem => ih item hitem (h item hitem)
  | dict members ih =>
      rw [JsonValue.wellFormed_dict] at h
      rw [reload, JsonValue.wellFormed_dict, reloadMembers_eq_map, List.forall_mem_map, List.map_map]
      exact ⟨h.1, fun member hmember => ih member hmember (h.2 member hmember)⟩

end Reload

/-- Texts separated by a comma and a blank. -/
def spaced : List (List Char) → List Char
  | [] => []
  | [text] => text
  | text :: rest => text ++ ',' :: ' ' :: spaced rest

def memberText (member : String × List Char) : List Char :=
  JsonValue.encodeString member.1 ++ ':' :: ' ' :: member.2

variable [FloatRepr]

def floatText (f : Float64) : List Char :=
  if f.isFinite then FloatRepr.repr f
  else if f.isNan then ['N', 'a', 'N']
  else if f.negative then '-' :: "Infinity".toList
  else "Infinity".toList

mutual

/-- `json.dumps(value, sort_keys=True)` -/
def dumpsSorted : JsonValue → List Char
  | .float f => floatText f
  | .list items => '[' :: (spaced (dumpsItems items) ++ [']'])
  | .dict members =>
      '{' :: (spaced ((JsonValue.sortMembers (dumpsMembers members)).map memberText) ++ ['}'])
  | value => value.encode

def dumpsItems : List JsonValue → List (List Char)
  | [] => []
  | item :: rest => dumpsSorted item :: dumpsItems rest

def dumpsMembers : List (String × JsonValue) → List (String × List Char)
  | [] => []
  | (name, value) :: rest => (name, dumpsSorted value) :: dumpsMembers rest

end

section Reload

theorem dumpsItems_eq_map (items : List JsonValue) : dumpsItems items = items.map dumpsSorted := by
  induction items with
  | nil => rfl
  | cons item rest ih => rw [dumpsItems, ih, List.map_cons]

theorem dumpsMembers_eq_map (members : List (String × JsonValue)) :
    dumpsMembers members = members.map fun member => (member.1, dumpsSorted member.2) := by
  induction members with
  | nil => rfl
  | cons member rest ih => rw [dumpsMembers, ih, List.map_cons]

/-- A value has the text it had before it was written and read. -/
theorem dumpsSorted_reload (value : JsonValue) : dumpsSorted (reload value) = dumpsSorted value := by
  induction value using JsonValue.induction with
  | null | bool _ | int _ | str _ => rfl
  | float f =>
      by_cases hnan : f.isNan
      · have hfinite : f.isFinite = false := by
          rw [Float64.isNan, Bool.and_eq_true, Bool.not_eq_true'] at hnan
          exact hnan.1
        rw [reload, if_pos hnan, dumpsSorted, dumpsSorted, floatText, floatText, if_pos hnan, hfinite]
        rfl
      · rw [reload, if_neg hnan]
  | list items ih =>
      have hitems : dumpsItems (reloadItems items) = dumpsItems items := by
        rw [reloadItems_eq_map, dumpsItems_eq_map, dumpsItems_eq_map, List.map_map]
        exact List.map_congr_left ih
      rw [reload, dumpsSorted, dumpsSorted, hitems]
  | dict members ih =>
      have hmembers : dumpsMembers (reloadMembers members) = dumpsMembers members := by
        rw [reloadMembers_eq_map, dumpsMembers_eq_map, dumpsMembers_eq_map, List.map_map]
        exact List.map_congr_left fun member hmember => congrArg (Prod.mk member.1) (ih member hmember)
      rw [reload, dumpsSorted, dumpsSorted, hmembers]

end Reload

end JsonText

/-! ### The sections that give way -/

def optionalDiagnostics : List String :=
  ["measured", "gate", "engine_effective_inputs", "timings_s", "weights"]

variable [FloatRepr]

/-- What is left of a section: the digest of its value. -/
def omittedMarker (value : JsonValue) : JsonValue :=
  .dict [("omitted", .str "exceeds the diagnostics bound"),
    ("sha256", .str (sha256Hex (String.ofList (JsonText.dumpsSorted value)).toUTF8))]

/-- `json.loads(json.dumps(diagnostics, default=str))` -/
def reloaded (d : JsonObject) : JsonObject where
  members := JsonText.reloadMembers d.members
  wellFormed := JsonText.wellFormed_reload (.dict d.members) d.wellFormed

/-- A member after some sections have given way. -/
def leave (sections : List String) (member : String × JsonValue) : String × JsonValue :=
  (member.1, if member.1 ∈ sections then omittedMarker member.2 else member.2)

/-- The diagnostics with a marker in place of each of the sections. -/
def omitting (d : JsonObject) (sections : List String) : JsonObject where
  members := d.members.map (leave sections)
  wellFormed := by
    have hform := JsonValue.wellFormed_dict.mp d.wellFormed
    rw [JsonValue.wellFormed_dict, List.map_map, List.forall_mem_map]
    refine ⟨hform.1, fun member hmember => ?_⟩
    rw [leave]
    split
    · rfl
    · exact hform.2 member hmember

/-- `validate_job_payload` raises no `ValueError`, which is all that it raises. -/
def fitsPayload (d : JsonObject) : Bool := (validateJobPayload d).isOk

/-- `_bounded` -/
def bounded (d : JsonObject) : Except EngineExc JsonObject :=
  match firstGood fitsPayload (fun d name => omitting d [name]) (reloaded d) optionalDiagnostics with
  | some d => .ok d
  | none => .error (.engineFailed "engine diagnostics exceed the pool payload bound")

/-- The optional sections that are there. -/
def present (d : JsonObject) : List String :=
  optionalDiagnostics.filter fun name => name ∈ d.members.map Prod.fst

omit [FloatRepr] in
theorem jsonObject_ext {d e : JsonObject} (h : d.members = e.members) : d = e := by
  cases d
  cases e
  cases h
  rfl

theorem fitsPayload_iff {d : JsonObject} : fitsPayload d ↔ validateJobPayload d = .ok () := by
  rw [fitsPayload]
  cases validateJobPayload d with
  | ok value => exact ⟨fun _ => rfl, fun _ => rfl⟩
  | error error => exact ⟨fun h => (by cases h), fun h => (by cases h)⟩

theorem finite_of_fits {d : JsonObject} (h : fitsPayload d) : d.value.finite := by
  have hok := fitsPayload_iff.mp h
  rw [validateJobPayload, andThen_eq_ok] at hok
  exact finite_of_validateJsonTree hok.1

omit [FloatRepr] in
theorem reloaded_of_finite {d : JsonObject} (h : d.value.finite) : reloaded d = d :=
  jsonObject_ext (JsonValue.dict.inj (JsonText.reload_of_finite d.value h))

theorem fitsPayload_reloaded (d : JsonObject) : fitsPayload (reloaded d) = fitsPayload d := by
  rw [Bool.eq_iff_iff]
  constructor
  · intro h
    have hfinite : d.value.finite := JsonText.finite_of_reload d.value (finite_of_fits h)
    rwa [reloaded_of_finite hfinite] at h
  · intro h
    rwa [reloaded_of_finite (finite_of_fits h)]

/-- The marker of a section is that of the value the plugin reported. -/
theorem omitting_reloaded (d : JsonObject) (sections : List String) :
    omitting (reloaded d) sections = reloaded (omitting d sections) := by
  apply jsonObject_ext
  show (JsonText.reloadMembers d.members).map (leave sections) =
    JsonText.reloadMembers (d.members.map (leave sections))
  rw [JsonText.reloadMembers_eq_map, JsonText.reloadMembers_eq_map, List.map_map, List.map_map]
  apply List.map_congr_left
  intro member _
  rw [Function.comp_apply, Function.comp_apply, leave, leave]
  dsimp only
  by_cases hmem : member.1 ∈ sections
  · rw [if_pos hmem, if_pos hmem, omittedMarker, JsonText.dumpsSorted_reload]
    rfl
  · rw [if_neg hmem, if_neg hmem]

/-- A section that has given way is not looked at again. -/
theorem foldl_omitting {sections : List String} (h : sections.Nodup) (d : JsonObject) :
    sections.foldl (fun d name => omitting d [name]) d = omitting d sections := by
  induction sections generalizing d with
  | nil =>
      apply jsonObject_ext
      exact (List.map_id' d.members).symm
  | cons name rest ih =>
      rw [List.nodup_cons] at h
      rw [List.foldl_cons, ih h.2]
      apply jsonObject_ext
      show (d.members.map (leave [name])).map (leave rest) = d.members.map (leave (name :: rest))
      rw [List.map_map]
      apply List.map_congr_left
      intro member _
      simp only [Function.comp_apply, leave, List.mem_cons, List.not_mem_nil, or_false]
      by_cases hname : member.1 = name
      · rw [if_neg (hname ▸ h.1), if_pos hname, if_pos (Or.inl hname)]
      · by_cases hrest : member.1 ∈ rest
        · rw [if_pos hrest, if_neg hname, if_pos (Or.inr hrest)]
        · rw [if_neg hrest, if_neg hname, if_neg (not_or.mpr ⟨hname, hrest⟩)]

theorem get?_omitting {sections : List String} {name : String} (h : name ∉ sections)
    (d : JsonObject) : (omitting d sections).get? name = d.get? name := by
  show (d.members.map (leave sections)).lookup name = d.members.lookup name
  induction d.members with
  | nil => rfl
  | cons member rest ih =>
      rw [List.map_cons, leave, List.lookup_cons, List.lookup_cons, ih]
      by_cases hname : name = member.1
      · rw [← hname, if_neg h]
      · rw [beq_false_of_ne hname]

end GpuWorkerPool
