import GpuWorkerPool.EngineDiagnostics
import GpuWorkerPool.GpuSampler

/-!
`engine_versions`: the runtime versions of an engine profile, from the report of its engine. The
report is any JSON object, read with defaults for whatever is missing or of another type, and every
pin that it does not meet is a problem. `Conforms` says what a report has to hold at which paths; a
report that conforms is turned into versions, and any other is drift.
-/

namespace GpuWorkerPool

open Base

/-- `str` and `repr` of the values of a report. -/
class ReportText where
  str : JsonValue → String
  repr : JsonValue → String
  str_str : ∀ s, str (.str s) = s
  /-- What is no string is shown as a constant, a number or a container. -/
  str_head : ∀ value, (∀ s, value ≠ .str s) → ∀ c ∈ (str value).toList.head?,
    c.isDigit ∨ c ∈ ['-', 'N', 'T', 'F', 'i', 'n', '[', '{']

/-! ### The recipe -/

/-- What an engine profile runs, with the pins that the worker must match exactly. -/
structure PinnedRecipe extends EngineRecipe where
  engine : String
  engineTag : Option String
  engineCommit : Option String
  sourcesLockSha256 : Option String
  weightsLockSha256 : Option String
  cudaArchitecture : String
  blenderSeries : String
  minVramMb : Int
  provenance : List (String × String)

/-- `ProfileSpec` of an engine profile. -/
structure EngineProfile where
  name : String
  recipe : PinnedRecipe
  qualified : Bool

namespace SettingDomain

def kind : SettingDomain → String
  | .choices _ => "choices"
  | .range .. => "range"

def listed : SettingDomain → List JsonValue
  | .choices allowed => allowed.values
  | .range minimum maximum => [.int minimum, .int maximum]

end SettingDomain

def textList (items : List String) : JsonValue := .list (items.map .str)

def textOrNull : Option String → JsonValue
  | none => .null
  | some s => .str s

/-- `EngineStage.description` -/
def EngineStage.description (stage : EngineStage) : JsonValue :=
  let settings : Dict String JsonValue := .ofPairs (stage.settings.map fun setting =>
    (setting.1, .dict [(setting.2.kind, .list setting.2.listed)]))
  .dict [("capability_id", .str stage.capabilityId), ("stage", .str stage.stage),
    ("inputs", textList stage.inputs), ("required_inputs", textList stage.requiredInputs),
    ("settings", .dict settings.rows), ("required_settings", textList stage.requiredSettings),
    ("one_of_settings", textList stage.oneOfSettings),
    ("attested_inputs", textList stage.attestedInputs),
    ("deadline_seconds", .int stage.deadlineSeconds), ("weight_ids", textList stage.weightIds)]

namespace PinnedRecipe

/-- Every weight set some stage loads, in declaration order. -/
def weightIds (recipe : PinnedRecipe) : List String :=
  (recipe.stages.flatMap EngineStage.weightIds).eraseDups

/-- `EngineRecipe.description` -/
def description (recipe : PinnedRecipe) (profile : String) : List (String × JsonValue) :=
  let provenance : Dict String JsonValue :=
    .ofPairs (recipe.provenance.map fun entry => (entry.1, .str entry.2))
  [("profile", .str profile), ("kind", .str "engine"), ("engine", .str recipe.engine),
    ("engine_tag", textOrNull recipe.engineTag), ("engine_commit", textOrNull recipe.engineCommit),
    ("sources_lock_sha256", textOrNull recipe.sourcesLockSha256),
    ("weights_lock_sha256", textOrNull recipe.weightsLockSha256),
    ("cuda_architecture", .str recipe.cudaArchitecture),
    ("blender", .str s!"{recipe.blenderSeries}.x LTS"), ("min_vram_mb", .int recipe.minVramMb),
    ("capabilities", .list (recipe.stages.map EngineStage.description)),
    ("provenance", .dict provenance.rows)]

end PinnedRecipe

variable [FloatRepr]

/-- `describe_profile(profile)['recipe_version']` -/
def EngineProfile.recipeVersion (profile : EngineProfile) : String :=
  let description := profile.recipe.description profile.name ++ [("qualified", .bool profile.qualified)]
  canonicalDigest (.dict [("description", .dict description)])

/-! ### Reading the report -/

section Reading

/-- `value.get(key) if isinstance(value, dict) else None` -/
def child (value : JsonValue) (key : String) : JsonValue :=
  match value with
  | .dict members => getOrNone members key
  | _ => .null

def membersOf : JsonValue → List (String × JsonValue)
  | .dict members => members
  | _ => []

def itemsOf : JsonValue → List JsonValue
  | .list items => items
  | _ => []

/-- `_section` -/
def sectionOf (report : List (String × JsonValue)) (path : List String) :
    List (String × JsonValue) :=
  membersOf (path.foldl child (.dict report))

/-- `isinstance(value, int)`, of which a Boolean is an instance. -/
def integerOf : JsonValue → Option Int
  | .int n => some n
  | .bool b => some (if b then 1 else 0)
  | _ => none

variable [ReportText]

/-- `_qualifying_gpus`, each with its memory. -/
def qualifyingGpus (recipe : PinnedRecipe) (report : List (String × JsonValue)) :
    List (Int × List (String × JsonValue)) :=
  (itemsOf (getOrNone report "gpus")).filterMap fun gpu =>
    match gpu with
    | .dict members =>
        if ReportText.str (getOrNone members "compute_capability") = recipe.cudaArchitecture then
          ((integerOf (getOrNone members "memory_mb")).filter fun memory =>
            recipe.minVramMb ≤ memory).map fun memory => (memory, members)
        else none
    | _ => none

/-- The reported files of a weight set. -/
def filesOf (weights : List (String × JsonValue)) (weightId : String) :
    List (List (String × JsonValue)) :=
  (itemsOf (getOrNone weights "files")).filterMap fun file =>
    match file with
    | .dict members => if isText weightId (getOrNone members "weight_id") then some members else none
    | _ => none

/-- The statuses that are not `ok`, as a sorted set of texts. -/
def badStatuses (files : List (List (String × JsonValue))) : List String :=
  ((files.map fun file => getOrNone file "status").filter fun status => !isText "ok" status).map
    ReportText.str |>.eraseDups.insertionSort fun a b => a ≤ b

/-- The problems of one weight set. -/
def weightSetProblems (weights : List (String × JsonValue)) (weightId : String) : List String :=
  let own := filesOf weights weightId
  let bad := badStatuses own
  let shown := ", ".intercalate bad
  (if own.isEmpty then [s!"weight set {weightId} is not reported"] else []) ++
    (if bad.isEmpty then [] else [s!"weight set {weightId} is not verified ({shown})"])

/-- `_weight_problems` -/
def weightProblems (recipe : PinnedRecipe) (weights : List (String × JsonValue)) : List String :=
  recipe.weightIds.flatMap (weightSetProblems weights)

/-- A pin that the report does not meet. -/
def pinProblem (label : String) (actual : JsonValue) (expected : Option String) : List String :=
  if expected.any fun pin => isText pin actual then []
  else
    let found := ReportText.repr actual
    let pinned := ReportText.repr (textOrNull expected)
    [s!"{label} is {found}, the recipe pins {pinned}"]

end Reading

/-! ### The versions -/

section Versions

variable [PyDigits] [ReportText]

/-- `\d+` -/
def isDigits (text : List Char) : Bool :=
  !text.isEmpty && text.all fun c => (PyDigits.decimal c).isSome

/-- `re.fullmatch(rf'Blender {re.escape(series)}\.\d+( LTS)?', text)` -/
def isBlenderOf (series text : String) : Bool :=
  match text.toList.dropPrefix? ("Blender " ++ series ++ ".").toList with
  | some patch => isDigits patch || (patch.dropSuffix? " LTS".toList).any isDigits
  | none => false

/-- `str(version or '')` -/
def blenderText (report : List (String × JsonValue)) : String :=
  let version := getOrNone (sectionOf report ["runtimes", "blender"]) "version"
  if truthy version then ReportText.str version else ""

/-- `trellis.get('native_contract')`, if it is an object. -/
def nativeContract (report : List (String × JsonValue)) : List (String × JsonValue) :=
  membersOf (getOrNone (sectionOf report ["runtimes", "trellis"]) "native_contract")

def offlineProblems : JsonValue → List String
  | .bool true => []
  | _ => ["the engine is not offline"]

/-- What the report does not meet. -/
def inspectProblems (recipe : PinnedRecipe) (report : List (String × JsonValue)) : List String :=
  let engine := sectionOf report ["engine"]
  let blender := blenderText report
  let shown := if blender = "" then "missing" else blender
  pinProblem "engine commit" (getOrNone engine "commit") recipe.engineCommit ++
    pinProblem "sources lock" (getOrNone engine "sources_lock_sha256") recipe.sourcesLockSha256 ++
    pinProblem "weights lock" (getOrNone engine "weights_lock_sha256") recipe.weightsLockSha256 ++
    pinProblem "TRELLIS native architecture" (getOrNone (nativeContract report) "cuda_architecture")
      (some recipe.cudaArchitecture) ++
    weightProblems recipe (sectionOf report ["weights"]) ++
    offlineProblems (getOrNone report "offline") ++
    (if isBlenderOf recipe.blenderSeries blender then []
      else [s!"Blender is {shown}, the recipe needs {recipe.blenderSeries}.x LTS"]) ++
    (if (qualifyingGpus recipe report).isEmpty then
      [s!"no GPU of compute capability {recipe.cudaArchitecture} with {recipe.minVramMb} MB"]
    else [])

/-- The exceptions of an inspection. -/
inductive InspectExc where
  | engineDrift (text : String)
  | keyError (name : String)
  | valueError (text : String)
  deriving DecidableEq

/-- `members[name]` -/
def subscript (members : List (String × JsonValue)) (name : String) : Except InspectExc JsonValue :=
  match members.lookup name with
  | some value => .ok value
  | none => .error (.keyError name)

/-- `max(gpus, key=lambda g: g['memory_mb'])`: of equals the first. -/
def largestGpu : List (Int × List (String × JsonValue)) →
    Except InspectExc (List (String × JsonValue))
  | [] => .error (.valueError "max() iterable argument is empty")
  | first :: rest =>
      .ok (rest.foldl (fun best gpu => if best.1 < gpu.1 then gpu else best) first).2

/-- The versions after the problems are ruled out. -/
def registeredVersions (profile : EngineProfile) (report : List (String × JsonValue)) :
    Except InspectExc (List (String × String)) := do
  let recipe := profile.recipe
  let engine := sectionOf report ["engine"]
  let trellis := sectionOf report ["runtimes", "trellis"]
  let gpu ← largestGpu (qualifyingGpus recipe report)
  let commit ← subscript engine "commit"
  let sourcesLock ← subscript engine "sources_lock_sha256"
  let weightsLock ← subscript engine "weights_lock_sha256"
  let versions := [
    ("magic_recipe", profile.recipeVersion),
    ("magic_profile", profile.name),
    ("aismith_engine_version", ReportText.str (getOrNone engine "version")),
    ("aismith_engine_commit", ReportText.str commit),
    ("aismith_sources_lock", ReportText.str sourcesLock),
    ("aismith_weights_lock", ReportText.str weightsLock),
    ("gpu_compute_capability", recipe.cudaArchitecture),
    ("blender", blenderText report),
    ("trellis_torch", ReportText.str (getOrNone trellis "torch"))]
  let config : JsonValue := .dict [
    ("versions", .dict (versions.map fun version => (version.1, .str version.2))),
    ("gpu", getOrNone gpu "name"),
    ("trellis_cuda", getOrNone trellis "cuda"),
    ("native_contract", .dict (nativeContract report)),
    ("comfyui_version", getOrNone trellis "comfyui_version")]
  let digest := sha256Hex (String.ofList (JsonText.dumpsSorted config)).toUTF8
  return versions ++ [("magic_config", digest)]

/-- `engine_versions` -/
def engineVersions (profile : EngineProfile) (report : JsonObject) :
    Except InspectExc (List (String × String)) :=
  let problems := inspectProblems profile.recipe report.members
  if problems.isEmpty then registeredVersions profile report.members
  else .error (.engineDrift ("; ".intercalate problems))

end Versions

/-! ### What a report has to hold -/

/-- The value at a path of names. -/
def valueAt : JsonValue → List String → Option JsonValue
  | value, [] => some value
  | .dict members, name :: rest => (members.lookup name).bind fun value => valueAt value rest
  | _, _ :: _ => none

/-- The recipe's pin is set, and the report has it at the path. -/
def MeetsPin (pin : Option String) (found : Option JsonValue) : Prop :=
  ∃ text, pin = some text ∧ found = some (.str text)

/-- A Blender of the series: a patch number, and perhaps the mark of a long-term release. -/
def BlenderOf [PyDigits] (series text : String) : Prop :=
  ∃ patch mark, text.toList = ("Blender " ++ series ++ ".").toList ++ patch ++ mark ∧
    patch ≠ [] ∧ (∀ c ∈ patch, (PyDigits.decimal c).isSome) ∧ (mark = [] ∨ mark = " LTS".toList)

/-- The report is one of the engine that the recipe pins. -/
structure Conforms [PyDigits] [ReportText] (recipe : PinnedRecipe) (report : JsonValue) : Prop where
  commit : MeetsPin recipe.engineCommit (valueAt report ["engine", "commit"])
  sourcesLock : MeetsPin recipe.sourcesLockSha256 (valueAt report ["engine", "sources_lock_sha256"])
  weightsLock : MeetsPin recipe.weightsLockSha256 (valueAt report ["engine", "weights_lock_sha256"])
  architecture : valueAt report ["runtimes", "trellis", "native_contract", "cuda_architecture"] =
    some (.str recipe.cudaArchitecture)
  weights : ∀ weightId ∈ recipe.weightIds, ∃ files,
    valueAt report ["weights", "files"] = some (.list files) ∧
      (∃ file, .dict file ∈ files ∧ file.lookup "weight_id" = some (.str weightId)) ∧
      ∀ file, .dict file ∈ files → file.lookup "weight_id" = some (.str weightId) →
        file.lookup "status" = some (.str "ok")
  offline : valueAt report ["offline"] = some (.bool true)
  blender : ∃ text, valueAt report ["runtimes", "blender", "version"] = some (.str text) ∧
    BlenderOf recipe.blenderSeries text
  gpu : ∃ gpus gpu memory, valueAt report ["gpus"] = some (.list gpus) ∧ .dict gpu ∈ gpus ∧
    ReportText.str (getOrNone gpu "compute_capability") = recipe.cudaArchitecture ∧
    (gpu.lookup "memory_mb").bind integerOf = some memory ∧ recipe.minVramMb ≤ memory

section Paths

omit [FloatRepr]

theorem foldl_child (value : JsonValue) (path : List String) :
    path.foldl child value = (valueAt value path).getD .null := by
  induction path generalizing value with
  | nil => rfl
  | cons name rest ih =>
      rw [List.foldl_cons, ih]
      cases value with
      | dict members =>
          rw [valueAt, child, getOrNone]
          cases members.lookup name with
          | none => cases rest <;> rfl
          | some value => rfl
      | null | bool _ | int _ | float _ | str _ | list _ => cases rest <;> rfl

theorem getOrNone_membersOf (value : JsonValue) (name : String) :
    getOrNone (membersOf value) name = child value name := by
  cases value <;> rfl

/-- A member of a section is what the report has at the path, or nothing. -/
theorem getOrNone_sectionOf (report : List (String × JsonValue)) (path : List String) (name : String) :
    getOrNone (sectionOf report path) name = (valueAt (.dict report) (path ++ [name])).getD .null := by
  rw [sectionOf, getOrNone_membersOf, ← foldl_child, List.foldl_append]
  rfl

theorem getOrNone_report (report : List (String × JsonValue)) (name : String) :
    getOrNone report name = (valueAt (.dict report) [name]).getD .null :=
  (getOrNone_sectionOf report [] name)

theorem getOrNone_nativeContract (report : List (String × JsonValue)) (name : String) :
    getOrNone (nativeContract report) name =
      (valueAt (.dict report) ["runtimes", "trellis", "native_contract", name]).getD .null := by
  rw [nativeContract, getOrNone_membersOf, sectionOf, getOrNone_membersOf]
  exact foldl_child (.dict report) ["runtimes", "trellis", "native_contract", name]

theorem getD_null_eq {found : Option JsonValue} {value : JsonValue} (h : value ≠ .null) :
    found.getD .null = value ↔ found = some value := by
  cases found with
  | none => simp [h.symm]
  | some other => simp

theorem getOrNone_eq {members : List (String × JsonValue)} {name : String} {value : JsonValue}
    (h : value ≠ .null) : getOrNone members name = value ↔ members.lookup name = some value :=
  getD_null_eq h

end Paths

section Problems

variable [PyDigits] [ReportText]

omit [FloatRepr] [PyDigits]

theorem pinProblem_eq_nil {label : String} {found : Option JsonValue} {pin : Option String} :
    pinProblem label (found.getD .null) pin = [] ↔ MeetsPin pin found := by
  rw [pinProblem, MeetsPin]
  cases pin with
  | none => simp
  | some text =>
      rw [Option.any_some]
      split
      · rename_i htext
        rw [isText_iff, getD_null_eq (by simp)] at htext
        exact ⟨fun _ => ⟨text, rfl, htext⟩, fun _ => rfl⟩
      · rename_i htext
        rw [isText_iff, getD_null_eq (by simp)] at htext
        constructor
        · intro h
          cases h
        · rintro ⟨other, hother, hfound⟩
          cases hother
          exact absurd hfound htext

omit [ReportText] in
theorem mem_itemsOf {value item : JsonValue} :
    item ∈ itemsOf value ↔ ∃ items, value = .list items ∧ item ∈ items := by
  cases value <;> simp [itemsOf]

omit [ReportText] in
theorem mem_filesOf {weights : List (String × JsonValue)} {weightId : String}
    {file : List (String × JsonValue)} :
    file ∈ filesOf weights weightId ↔ .dict file ∈ itemsOf (getOrNone weights "files") ∧
      file.lookup "weight_id" = some (.str weightId) := by
  rw [filesOf, List.mem_filterMap]
  constructor
  · rintro ⟨item, hitem, hfile⟩
    cases item with
    | dict members =>
        rw [Option.ite_none_right_eq_some, isText_iff, getOrNone_eq (by simp), Option.some_inj] at hfile
        obtain ⟨hid, rfl⟩ := hfile
        exact ⟨hitem, hid⟩
    | null | bool _ | int _ | float _ | str _ | list _ => cases hfile
  · rintro ⟨hitem, hid⟩
    refine ⟨.dict file, hitem, ?_⟩
    rw [Option.ite_none_right_eq_some, isText_iff, getOrNone_eq (by simp)]
    exact ⟨hid, rfl⟩

theorem badStatuses_eq_nil {files : List (List (String × JsonValue))} :
    badStatuses files = [] ↔ ∀ file ∈ files, file.lookup "status" = some (.str "ok") := by
  have hmem (text : String) : text ∈ badStatuses files ↔ ∃ file ∈ files,
      isText "ok" (getOrNone file "status") = false ∧
        ReportText.str (getOrNone file "status") = text := by
    simp only [badStatuses, List.mem_insertionSort, List.mem_eraseDups, List.mem_map,
      List.mem_filter, Bool.not_eq_true']
    constructor
    · rintro ⟨status, ⟨⟨file, hfile, rfl⟩, hbad⟩, htext⟩
      exact ⟨file, hfile, hbad, htext⟩
    · rintro ⟨file, hfile, hbad, htext⟩
      exact ⟨_, ⟨⟨file, hfile, rfl⟩, hbad⟩, htext⟩
  rw [List.eq_nil_iff_forall_not_mem]
  constructor
  · intro hnone file hfile
    by_contra hstatus
    refine hnone _ ((hmem _).mpr ⟨file, hfile, ?_, rfl⟩)
    rw [← Bool.not_eq_true, isText_iff, getOrNone_eq (by simp)]
    exact hstatus
  · intro hall text htext
    obtain ⟨file, hfile, hbad, -⟩ := (hmem text).mp htext
    rw [← Bool.not_eq_true, isText_iff, getOrNone_eq (by simp)] at hbad
    exact hbad (hall file hfile)

theorem weightSetProblems_eq_nil {weights : List (String × JsonValue)} {weightId : String} :
    weightSetProblems weights weightId = [] ↔ filesOf weights weightId ≠ [] ∧
      ∀ file ∈ filesOf weights weightId, file.lookup "status" = some (.str "ok") := by
  rw [weightSetProblems, List.append_eq_nil_iff, ite_eq_right_iff, ite_eq_left_iff,
    ← badStatuses_eq_nil]
  simp

theorem weightProblems_eq_nil {recipe : PinnedRecipe} {report : List (String × JsonValue)} :
    weightProblems recipe (sectionOf report ["weights"]) = [] ↔
      ∀ weightId ∈ recipe.weightIds, ∃ files,
        valueAt (.dict report) ["weights", "files"] = some (.list files) ∧
          (∃ file, .dict file ∈ files ∧ file.lookup "weight_id" = some (.str weightId)) ∧
          ∀ file, .dict file ∈ files → file.lookup "weight_id" = some (.str weightId) →
            file.lookup "status" = some (.str "ok") := by
  have hitems {item : JsonValue} {files : List JsonValue}
      (hfiles : valueAt (.dict report) ["weights", "files"] = some (.list files)) :
      item ∈ itemsOf (getOrNone (sectionOf report ["weights"]) "files") ↔ item ∈ files := by
    rw [getOrNone_sectionOf, List.singleton_append, hfiles]
    rfl
  rw [weightProblems, List.flatMap_eq_nil_iff]
  apply forall₂_congr
  intro weightId _
  rw [weightSetProblems_eq_nil]
  constructor
  · rintro ⟨hne, hok⟩
    obtain ⟨file, rest, hfile⟩ := List.exists_cons_of_ne_nil hne
    have hmem := mem_filesOf.mp (hfile ▸ List.mem_cons_self : file ∈ filesOf _ weightId)
    obtain ⟨files, hvalue, hitem⟩ := mem_itemsOf.mp hmem.1
    rw [getOrNone_sectionOf, List.singleton_append, getD_null_eq (by simp)] at hvalue
    refine ⟨files, hvalue, ⟨file, hitem, hmem.2⟩, fun other hother hid => ?_⟩
    exact hok other (mem_filesOf.mpr ⟨(hitems hvalue).mpr hother, hid⟩)
  · rintro ⟨files, hvalue, ⟨file, hfile, hid⟩, hok⟩
    refine ⟨List.ne_nil_of_mem (mem_filesOf.mpr ⟨(hitems hvalue).mpr hfile, hid⟩), ?_⟩
    intro other hother
    obtain ⟨hitem, hother⟩ := mem_filesOf.mp hother
    exact hok other ((hitems hvalue).mp hitem) hother

theorem mem_qualifyingGpus {recipe : PinnedRecipe} {report : List (String × JsonValue)}
    {memory : Int} {gpu : List (String × JsonValue)} :
    (memory, gpu) ∈ qualifyingGpus recipe report ↔
      .dict gpu ∈ itemsOf (getOrNone report "gpus") ∧
        ReportText.str (getOrNone gpu "compute_capability") = recipe.cudaArchitecture ∧
        (gpu.lookup "memory_mb").bind integerOf = some memory ∧ recipe.minVramMb ≤ memory := by
  have hmemory (members : List (String × JsonValue)) :
      integerOf (getOrNone members "memory_mb") = (members.lookup "memory_mb").bind integerOf := by
    rw [getOrNone]
    cases members.lookup "memory_mb" <;> rfl
  rw [qualifyingGpus, List.mem_filterMap]
  constructor
  · rintro ⟨item, hitem, hgpu⟩
    cases item with
    | dict members =>
        rw [Option.ite_none_right_eq_some, hmemory, Option.map_eq_some_iff] at hgpu
        obtain ⟨hcapability, found, hfound, hpair⟩ := hgpu
        rw [Option.filter_eq_some_iff, decide_eq_true_eq] at hfound
        obtain ⟨rfl, rfl⟩ := Prod.mk.inj hpair
        exact ⟨hitem, hcapability, hfound⟩
    | null | bool _ | int _ | float _ | str _ | list _ => cases hgpu
  · rintro ⟨hitem, hcapability, hfound, hmin⟩
    refine ⟨.dict gpu, hitem, ?_⟩
    rw [Option.ite_none_right_eq_some, hmemory, Option.map_eq_some_iff]
    exact ⟨hcapability, memory, Option.filter_eq_some_iff.mpr ⟨hfound, decide_eq_true hmin⟩, rfl⟩

end Problems

section Blender

variable [PyDigits]

omit [FloatRepr]

theorem isDigits_iff {text : List Char} :
    isDigits text ↔ text ≠ [] ∧ ∀ c ∈ text, (PyDigits.decimal c).isSome := by
  rw [isDigits, Bool.and_eq_true, List.all_eq_true, Bool.not_eq_true', List.isEmpty_eq_false_iff]

theorem isBlenderOf_iff {series text : String} : isBlenderOf series text ↔ BlenderOf series text := by
  rw [isBlenderOf, BlenderOf]
  constructor
  · intro h
    split at h
    · rename_i patch hpatch
      obtain ⟨front, htext, hfront⟩ := List.dropPrefix?_eq_some_iff.mp hpatch
      rw [eq_of_beq hfront] at htext
      rcases Bool.or_eq_true_iff.mp h with hdigits | hmarked
      · obtain ⟨hne, hall⟩ := isDigits_iff.mp hdigits
        exact ⟨patch, [], by rw [htext, List.append_nil], hne, hall, Or.inl rfl⟩
      · obtain ⟨digits, hdrop, hdigits⟩ := (Option.any_eq_true _ _).mp hmarked
        obtain ⟨mark, hsplit, hmark⟩ := List.dropSuffix?_eq_some_iff.mp hdrop
        obtain ⟨hne, hall⟩ := isDigits_iff.mp hdigits
        rw [eq_of_beq hmark] at hsplit
        exact ⟨digits, " LTS".toList, by rw [htext, hsplit, List.append_assoc], hne, hall, Or.inr rfl⟩
    · cases h
  · rintro ⟨patch, mark, htext, hne, hall, hmark⟩
    have hdrop : text.toList.dropPrefix? ("Blender " ++ series ++ ".").toList = some (patch ++ mark) :=
      List.dropPrefix?_eq_some_iff.mpr ⟨_, by rw [htext, List.append_assoc], beq_self_eq_true _⟩
    rw [hdrop]
    dsimp only
    rw [Bool.or_eq_true]
    rcases hmark with rfl | rfl
    · rw [List.append_nil]
      exact Or.inl (isDigits_iff.mpr ⟨hne, hall⟩)
    · have hsuffix : (patch ++ " LTS".toList).dropSuffix? " LTS".toList = some patch :=
        List.dropSuffix?_eq_some_iff.mpr ⟨_, rfl, beq_self_eq_true _⟩
      rw [hsuffix]
      exact Or.inr (isDigits_iff.mpr ⟨hne, hall⟩)

end Blender

section Inspection

variable [PyDigits] [ReportText]

omit [FloatRepr]

/-- Only a string is shown as the name of a Blender. -/
theorem blenderText_iff {series : String} {report : List (String × JsonValue)} :
    isBlenderOf series (blenderText report) ↔
      ∃ text, valueAt (.dict report) ["runtimes", "blender", "version"] = some (.str text) ∧
        BlenderOf series text := by
  have hshown (text : String) (h : BlenderOf series text) : text.toList.head? = some 'B' := by
    obtain ⟨patch, mark, htext, -, -, -⟩ := h
    rw [htext, String.toList_append, String.toList_append]
    rfl
  rw [isBlenderOf_iff, blenderText, getOrNone_sectionOf]
  generalize hvalue : (valueAt (.dict report) (["runtimes", "blender"] ++ ["version"])).getD .null =
    value
  constructor
  · intro h
    by_cases htruthy : truthy value
    · rw [if_pos htruthy] at h
      by_cases hstr : ∃ text, value = .str text
      · obtain ⟨text, rfl⟩ := hstr
        rw [ReportText.str_str] at h
        exact ⟨text, (getD_null_eq (by simp)).mp hvalue, h⟩
      · have hhead := ReportText.str_head value (not_exists.mp hstr) 'B' (hshown _ h)
        exact absurd hhead (by decide)
    · rw [if_neg htruthy] at h
      cases hshown "" h
  · rintro ⟨text, hfound, h⟩
    have hstr : value = .str text := by
      rw [← hvalue]
      exact (getD_null_eq (by simp)).mpr hfound
    have hne : text ≠ "" := by
      rintro rfl
      cases hshown "" h
    have htruthy : truthy (.str text) := decide_eq_true hne
    rw [hstr, if_pos htruthy, ReportText.str_str]
    exact h

omit [PyDigits] in
theorem qualifyingGpus_ne_nil {recipe : PinnedRecipe} {report : List (String × JsonValue)} :
    qualifyingGpus recipe report ≠ [] ↔ ∃ gpus gpu memory,
      valueAt (.dict report) ["gpus"] = some (.list gpus) ∧ .dict gpu ∈ gpus ∧
        ReportText.str (getOrNone gpu "compute_capability") = recipe.cudaArchitecture ∧
        (gpu.lookup "memory_mb").bind integerOf = some memory ∧ recipe.minVramMb ≤ memory := by
  constructor
  · intro hne
    obtain ⟨⟨memory, gpu⟩, rest, hgpu⟩ := List.exists_cons_of_ne_nil hne
    obtain ⟨hitem, hqualifies⟩ := mem_qualifyingGpus.mp (hgpu ▸ List.mem_cons_self)
    obtain ⟨gpus, hvalue, hmem⟩ := mem_itemsOf.mp hitem
    rw [getOrNone_report, getD_null_eq (by simp)] at hvalue
    exact ⟨gpus, gpu, memory, hvalue, hmem, hqualifies⟩
  · rintro ⟨gpus, gpu, memory, hvalue, hmem, hqualifies⟩
    have hitem : .dict gpu ∈ itemsOf (getOrNone report "gpus") := by
      rw [getOrNone_report, hvalue]
      exact hmem
    exact List.ne_nil_of_mem (mem_qualifyingGpus.mpr ⟨hitem, hqualifies⟩)

theorem inspectProblems_eq_nil {recipe : PinnedRecipe} {report : List (String × JsonValue)} :
    inspectProblems recipe report = [] ↔ Conforms recipe (.dict report) := by
  have harchitecture : MeetsPin (some recipe.cudaArchitecture) (valueAt (.dict report)
      ["runtimes", "trellis", "native_contract", "cuda_architecture"]) ↔
      valueAt (.dict report) ["runtimes", "trellis", "native_contract", "cuda_architecture"] =
        some (.str recipe.cudaArchitecture) := by
    constructor
    · rintro ⟨text, htext, hfound⟩
      cases htext
      exact hfound
    · exact fun hfound => ⟨_, rfl, hfound⟩
  have hoffline : offlineProblems (getOrNone report "offline") = [] ↔
      valueAt (.dict report) ["offline"] = some (.bool true) := by
    rw [getOrNone_report, ← getD_null_eq (by simp)]
    generalize (valueAt (.dict report) ["offline"]).getD .null = value
    cases value with
    | bool b => cases b <;> simp [offlineProblems]
    | null | int _ | float _ | str _ | list _ | dict _ => simp [offlineProblems]
  simp only [inspectProblems, List.append_eq_nil_iff, getOrNone_sectionOf, getOrNone_nativeContract,
    pinProblem_eq_nil, weightProblems_eq_nil, harchitecture, hoffline, ite_eq_left_iff,
    ite_eq_right_iff, List.cons_ne_nil, imp_false, not_not, List.isEmpty_iff, blenderText_iff,
    ← ne_eq, qualifyingGpus_ne_nil, List.cons_append, List.nil_append]
  constructor
  · intro ⟨⟨⟨⟨⟨⟨⟨hcommit, hsources⟩, hweights⟩, hnative⟩, hfiles⟩, hoffline⟩, hblender⟩, hgpu⟩
    exact ⟨hcommit, hsources, hweights, hnative, hfiles, hoffline, hblender, hgpu⟩
  · intro h
    exact ⟨⟨⟨⟨⟨⟨⟨h.commit, h.sourcesLock⟩, h.weightsLock⟩, h.architecture⟩, h.weights⟩, h.offline⟩,
      h.blender⟩, h.gpu⟩

end Inspection

omit [FloatRepr] in
/-- The name of a pinned member can be subscripted. -/
theorem subscript_of_pin {report : List (String × JsonValue)} {name : String} {pin : Option String}
    (h : MeetsPin pin (valueAt (.dict report) ["engine", name])) :
    ∃ value, subscript (sectionOf report ["engine"]) name = .ok value := by
  obtain ⟨text, -, hfound⟩ := h
  have hget : getOrNone (sectionOf report ["engine"]) name = .str text := by
    rw [getOrNone_sectionOf, List.singleton_append, hfound]
    rfl
  rw [getOrNone_eq (by simp)] at hget
  exact ⟨.str text, by rw [subscript, hget]⟩

theorem engineVersions_of_conforms [PyDigits] [ReportText] {profile : EngineProfile}
    {report : JsonObject} (h : Conforms profile.recipe report.value) :
    ∃ versions, engineVersions profile report = .ok versions := by
  obtain ⟨first, rest, hgpus⟩ := List.exists_cons_of_ne_nil (qualifyingGpus_ne_nil.mpr h.gpu)
  obtain ⟨commit, hcommit⟩ := subscript_of_pin h.commit
  obtain ⟨sourcesLock, hsources⟩ := subscript_of_pin h.sourcesLock
  obtain ⟨weightsLock, hweights⟩ := subscript_of_pin h.weightsLock
  have hnone : (inspectProblems profile.recipe report.members).isEmpty :=
    List.isEmpty_iff.mpr (inspectProblems_eq_nil.mpr h)
  rw [engineVersions, if_pos hnone, registeredVersions, hgpus, hcommit, hsources, hweights]
  exact ⟨_, rfl⟩

theorem engineVersions_of_not_conforms [PyDigits] [ReportText] {profile : EngineProfile}
    {report : JsonObject} (h : ¬ Conforms profile.recipe report.value) :
    ∃ text, engineVersions profile report = .error (.engineDrift text) := by
  rw [engineVersions, if_neg fun hempty => h (inspectProblems_eq_nil.mp (List.isEmpty_iff.mp hempty))]
  exact ⟨_, rfl⟩

/-- The inspection ends in versions exactly for the reports that conform, and otherwise in drift. -/
theorem engineVersions_ok_iff [PyDigits] [ReportText] (profile : EngineProfile) (report : JsonObject) :
    ((∃ versions, engineVersions profile report = .ok versions) ↔
        Conforms profile.recipe report.value) ∧
      ∀ error, engineVersions profile report = .error error → ∃ text, error = .engineDrift text := by
  by_cases h : Conforms profile.recipe report.value
  · obtain ⟨versions, hversions⟩ := engineVersions_of_conforms h
    rw [hversions]
    exact ⟨⟨fun _ => h, fun _ => ⟨versions, rfl⟩⟩, fun error herror => (by cases herror)⟩
  · obtain ⟨text, htext⟩ := engineVersions_of_not_conforms h
    rw [htext]
    refine ⟨⟨fun ⟨versions, hversions⟩ => (by cases hversions), fun hconforms => absurd hconforms h⟩, ?_⟩
    intro error herror
    exact ⟨text, (Except.error.inj herror).symm⟩

/-! ### The inspection of one engine -/

namespace AISmithEnginePlugin

/-- `str` and `repr` of constants and strings. -/
@[reducible] def plainReports : ReportText where
  str
    | .str s => s
    | .null => "None"
    | _ => "[...]"
  repr
    | .str s => "'" ++ s ++ "'"
    | .null => "None"
    | _ => "[...]"
  str_str _ := rfl
  str_head value hvalue c hc := by
    cases value <;> simp_all <;> simp [← hc]

def seedStage : EngineStage where
  capabilityId := "mesh.seed.v1"
  stage := "mesh"
  inputs := []
  requiredInputs := []
  settings := [("seed", .range 0 maxSeed)]
  requiredSettings := ["seed"]
  oneOfSettings := []
  attestedInputs := ["seed"]
  deadlineSeconds := 600

def seedProfile : EngineProfile where
  name := "mesh"
  qualified := true
  recipe :=
    { stages := [seedStage], engine := "engine", engineTag := some "tag",
      engineCommit := some "commit", sourcesLockSha256 := some "sources",
      weightsLockSha256 := some "weights", cudaArchitecture := "8.9", blenderSeries := "4.2",
      minVramMb := 24000, provenance := [] }

/-- A report that meets the pins. -/
def seedReport : JsonObject := ⟨[
  ("engine", .dict [("version", .str "1"), ("commit", .str "commit"),
    ("sources_lock_sha256", .str "sources"), ("weights_lock_sha256", .str "weights")]),
  ("runtimes", .dict [("blender", .dict [("version", .str "Blender 4.2.1")]),
    ("trellis", .dict [("torch", .str "2.7"),
      ("native_contract", .dict [("cuda_architecture", .str "8.9")])])]),
  ("gpus", .list [.dict [("compute_capability", .str "8.9"), ("memory_mb", .int 24564)]]),
  ("offline", .bool true)], by decide⟩

section Seed

attribute [local instance] PyText.ascii PyDigits.ascii plainReports

/-- The versions under a digest of the configuration. -/
def seedVersions (digest : String) : Dict String String := .ofPairs [
  ("magic_recipe", seedProfile.recipeVersion), ("magic_profile", "mesh"),
  ("aismith_engine_version", "1"), ("aismith_engine_commit", "commit"),
  ("aismith_sources_lock", "sources"), ("aismith_weights_lock", "weights"),
  ("gpu_compute_capability", "8.9"), ("blender", "Blender 4.2.1"), ("trellis_torch", "2.7"),
  ("magic_config", digest)]

theorem engineVersions_seed : ∃ data, (engineVersions seedProfile seedReport).map Dict.ofPairs =
    .ok (seedVersions (sha256Hex data)) := by
  rw [engineVersions, if_pos (by decide +kernel)]
  exact ⟨_, rfl⟩

/-- An engine that may go online and reports nothing else. -/
example : ∃ text, engineVersions seedProfile ⟨[("offline", .bool false)], rfl⟩ =
    .error (.engineDrift text) := by
  rw [engineVersions, if_neg (by decide +kernel)]
  exact ⟨_, rfl⟩

end Seed

end AISmithEnginePlugin

end GpuWorkerPool
