import GpuWorkerPool.Base.JsonSchema
import GpuWorkerPool.Plugins

/-!
The stages of an engine profile: what a stage declares, the schema it publishes, and the gate of
`AISmithEnginePlugin` for its leases.
-/

namespace GpuWorkerPool

open Base JsonSchema

def engineContractVersion : Int := 1

def inputsPayloadKey : String := "inputs"

/-- The values of a choice: integers only, unless the choices are strings. -/
inductive SettingChoices where
  | integers (values : List Int)
  | strings (values : List String)

def SettingChoices.values : SettingChoices → List JsonValue
  | integers values => values.map .int
  | strings values => values.map .str

/-- `('choices', values)` or `('range', (minimum, maximum))` -/
inductive SettingDomain where
  | choices (allowed : SettingChoices)
  | range (minimum maximum : Int)

/-- One capability: the engine stage that serves it and what it attests. -/
structure EngineStage where
  capabilityId : String
  stage : String
  inputs : List String
  requiredInputs : List String
  settings : List (String × SettingDomain)
  requiredSettings : List String
  oneOfSettings : List String
  attestedInputs : List String
  deadlineSeconds : Int
  weightIds : List String := []

/-- What an engine profile runs; the pins of its releases are checked elsewhere. -/
structure EngineRecipe where
  stages : List EngineStage

/-- `stage_for` -/
def EngineRecipe.stageFor (recipe : EngineRecipe) (capabilityId : String) : Option EngineStage :=
  recipe.stages.find? fun s => s.capabilityId = capabilityId

/-! ### The declared recipe -/

def viewRoles : List String := ["front", "back", "left", "right"]

def qualityTiers : List String := ["draft", "standard", "high", "ultra"]

def meshResolutions : List Int := [512, 1024]

def maxSeed : Int := 2 ^ 31 - 1

def mesh3dMeshStage : EngineStage where
  capabilityId := "mesh.trellis2.image_to_mesh.v1"
  stage := "mesh"
  inputs := viewRoles
  requiredInputs := ["front"]
  settings := [("resolution", .choices (.integers meshResolutions)), ("seed", .range 0 maxSeed)]
  requiredSettings := ["resolution", "seed"]
  oneOfSettings := []
  attestedInputs := ["resolution", "seed"]
  deadlineSeconds := 1800
  weightIds := ["trellis2-4b-fp8", "trellis-image-large-ss-decoder", "dinov3-vitl16",
    "birefnet-general", "birefnet-general-lite"]

def mesh3dCleanStage : EngineStage where
  capabilityId := "mesh.blender.clean.v1"
  stage := "clean"
  inputs := "mesh" :: viewRoles
  requiredInputs := ["mesh"]
  settings := [("quality_tier", .choices (.strings qualityTiers)),
    ("target_triangles", .range 1000 500000)]
  requiredSettings := []
  oneOfSettings := ["quality_tier", "target_triangles"]
  attestedInputs := ["quality_tier", "target_triangles"]
  deadlineSeconds := 600

def mesh3dRecipe : EngineRecipe where
  stages := [mesh3dMeshStage, mesh3dCleanStage]

/-! ### The published schema -/

def settingSchema : SettingDomain → JsonValue
  | .choices allowed => .dict [("enum", .list allowed.values)]
  | .range minimum maximum => integerBetween minimum maximum

namespace EngineStage

def inputsSchema (stage : EngineStage) : JsonValue :=
  let properties : Dict String JsonValue :=
    .ofPairs (stage.inputs.map fun name => (name, .dict [("type", .str "string")]))
  .dict (closedObject properties.rows stage.requiredInputs)

def properties (stage : EngineStage) : Dict String JsonValue :=
  .ofPairs ((inputsPayloadKey, stage.inputsSchema) ::
    stage.settings.map fun setting => (setting.1, settingSchema setting.2))

def oneOfSchema (stage : EngineStage) : List (String × JsonValue) :=
  if stage.oneOfSettings = [] then []
  else
    [("oneOf", .list (stage.oneOfSettings.map fun name =>
      .dict [("required", .list [.str name])]))]

/-- `_input_schema` -/
def inputSchema (stage : EngineStage) : JsonValue :=
  .dict (closedObject stage.properties.rows (inputsPayloadKey :: stage.requiredSettings) ++
    stage.oneOfSchema)

end EngineStage

/-! ### The gate -/

/-- `map(str, values)` -/
def SettingChoices.texts : SettingChoices → List String
  | integers values => values.map fun n => toString n
  | strings values => values

def SettingDomain.admits : SettingDomain → JsonValue → Bool
  | _, .bool _ => false
  | .choices allowed, value => allowed.values.any fun choice => choice.pyEq value
  | .range minimum maximum, .int n => minimum ≤ n && n ≤ maximum
  | .range .., _ => false

/-- `_checked_setting` -/
def checkedSetting (name : String) (domain : SettingDomain) (value : JsonValue) :
    Except AgentExc JsonValue := do
  match domain with
  | .choices allowed =>
      rejectUnless (domain.admits value)
        (name ++ " must be one of " ++ ", ".intercalate allowed.texts)
  | .range minimum maximum =>
      rejectUnless (domain.admits value)
        s!"{name} must be an integer from {minimum} to {maximum}"
  pure value

namespace AISmithEnginePlugin

/-- `lease.payload.get("inputs", {})`, if it maps stage inputs to granted keys. -/
def boundInputs (stage : EngineStage) (lease : LeaseGrant) :
    Except AgentExc (List (String × JsonValue)) := do
  match (lease.payload.get? inputsPayloadKey).getD (.dict []) with
  | .dict bound =>
      rejectUnless (bound.all fun row => row.1 ∈ stage.inputs)
        (inputsPayloadKey ++ " names an input the stage does not take")
      forM stage.requiredInputs fun name =>
        rejectUnless (bound.lookup name).isSome s!"input {name} is required"
      forM bound fun row =>
        rejectUnless (lease.grants row.2) ("input " ++ row.1 ++ " must bind a granted input")
      rejectUnless (lease.inputKeys.all fun key => bound.any fun row => isText key row.2)
        "every granted input must be bound to a stage input"
      pure bound
  | _ =>
      throw (.pluginRequestRejected
        (inputsPayloadKey ++ " must map a stage input to a granted key"))

/-- One turn of the loop over the settings. -/
def setSetting (payload : JobPayload) (inputs : Dict String JsonValue)
    (setting : String × SettingDomain) : Except AgentExc (Dict String JsonValue) :=
  match payload.get? setting.1 with
  | some value => do
      let value ← checkedSetting setting.1 setting.2 value
      pure (inputs.put (setting.1, value))
  | none => pure inputs

/-- `seed if isinstance(seed, int) else None`, where a `bool` is an `int`. -/
def seedOf : Option JsonValue → Option Int
  | some (.int n) => some n
  | some (.bool b) => some (if b then 1 else 0)
  | _ => none

/-- The rest of `validate` for the stage of the capability. -/
def validateStage (stage : EngineStage) (lease : LeaseGrant) : Except AgentExc ValidatedRequest := do
  rejectUnless (lease.contractVersion = engineContractVersion) "unsupported contract version"
  rejectUnless (lease.payload.members.all fun member =>
      member.1 ∈ stage.settings.map Prod.fst || member.1 = inputsPayloadKey)
    "payload carries unsupported keys"
  let bound ← boundInputs stage lease
  let inputs ← stage.settings.foldlM (setSetting lease.payload) Table.empty
  forM stage.requiredSettings fun name =>
    rejectUnless (inputs.lookup name).isSome s!"{name} is required"
  rejectUnless (stage.oneOfSettings = [] ||
      (stage.oneOfSettings.countP fun name => (inputs.lookup name).isSome) = 1)
    ("exactly one of " ++ ", ".intercalate stage.oneOfSettings ++ " is required")
  pure
    { capabilityId := lease.capabilityId, contractVersion := lease.contractVersion,
      inputs := inputs.put (inputsPayloadKey, .dict bound),
      seed := seedOf (inputs.lookup "seed") }

def validate (recipe : EngineRecipe) (lease : LeaseGrant) : Except AgentExc ValidatedRequest :=
  match recipe.stageFor lease.capabilityId with
  | none => .error (.pluginRequestRejected "unsupported capability")
  | some stage => validateStage stage lease

end AISmithEnginePlugin

end GpuWorkerPool
