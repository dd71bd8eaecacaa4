import GpuWorkerPool.MemoryStores

/-!
The rules the coordinator decides by: operator enrollments, machine profiles that are not qualified,
and what a job that pins a recipe must attest. They read values only and await nothing.
-/

namespace GpuWorkerPool

open Base

/-! ### Enrollment -/

/-- `str.isspace` of one character. -/
def isSpace (c : Char) : Bool :=
  let n := c.toNat
  (9 ≤ n && n ≤ 13) || (28 ≤ n && n ≤ 32) || n = 0x85 || n = 0xA0 || n = 0x1680 ||
    (0x2000 ≤ n && n ≤ 0x200A) || n = 0x2028 || n = 0x2029 || n = 0x202F || n = 0x205F ||
    n = 0x3000

/-- `text == text.strip()` -/
def isStripped (text : String) : Bool :=
  !(text.toList.head?.any isSpace) && !(text.toList.getLast?.any isSpace)

def maxTenantIdLength : Nat := 128

def validIdentitySubject (subject : String) : Bool :=
  1 ≤ subject.length && subject.length ≤ 255 && isStripped subject

def validEnrollmentTenant (tenantId : Option String) : Bool :=
  tenantId.all fun tenant =>
    1 ≤ tenant.length && tenant.length ≤ maxTenantIdLength && isStripped tenant

/-- A worker of the house has no tenant. -/
theorem validEnrollmentTenant_none : validEnrollmentTenant none = true := rfl

/-- An operator-approved full identity and tenant; `none` is the house. -/
structure WorkerEnrollment where
  identitySubject : String
  tenantId : Option String
  subject_valid : validIdentitySubject identitySubject
  tenant_valid : validEnrollmentTenant tenantId

/-- `WorkerEnrollment(identity_subject, tenant_id)` -/
def WorkerEnrollment.new (identitySubject : String) (tenantId : Option String) :
    Except Exc WorkerEnrollment :=
  if hsubject : validIdentitySubject identitySubject then
    if htenant : validEnrollmentTenant tenantId then
      .ok ⟨identitySubject, tenantId, hsubject, htenant⟩
    else .error (.valueError "enrollment tenant must be a bounded string or null")
  else .error (.valueError "enrollment needs a nonempty, bounded identity subject")

/-- `[a-z0-9][a-z0-9-]{0,127}`, matched in full. -/
def workerIdPattern (workerId : String) : Bool :=
  match workerId.toList with
  | [] => false
  | c :: rest =>
      (isLowerAscii c || isDigitAscii c) && rest.length ≤ 127 &&
        rest.all fun c => isLowerAscii c || isDigitAscii c || c = '-'

/-- `validate_enrollments({worker_id: enrollment})` -/
def validateEnrollment (workerId : String) : Except Exc Unit :=
  require (workerIdPattern workerId) "invalid enrolled worker id"

/-! ### Machine profiles -/

/-- What the pool must not register or run. -/
structure Refused where
  profiles : List String
  capabilityIds : List String
  recipeVersions : List String

/-- The functions of the optional profile module. -/
structure MachineProfiles where
  unqualified : Refused
  recipeAttestedInputs : String → String → List String
  recipeInputDefaults : String → List (String × JsonValue)

/-- The constructor arguments of the service that its rules read. -/
structure ServiceConfig where
  defaultLeaseSeconds : Int := 1200
  maxVerifyBytes : Int := 256 * 1024 * 1024
  grantTtlSeconds : Int := 900
  enrollments : Dict String WorkerEnrollment := Table.empty
  /-- Absent when the module cannot be imported. -/
  machineProfiles : Option MachineProfiles := none

/-- `_DEFAULT_ATTESTED_INPUTS` -/
def defaultAttestedInputs : List String := ["steps", "width", "height", "length", "fps", "seed"]

/-- The engine recipes a coordinator without the profile module refuses. -/
def engineRecipesRefused : Refused where
  profiles := ["mesh3d-24gb-standard"]
  capabilityIds := ["mesh.trellis2.image_to_mesh.v1", "mesh.blender.clean.v1"]
  recipeVersions := []

namespace ServiceConfig

/-- `_unqualified` -/
def unqualified (cfg : ServiceConfig) : Refused :=
  match cfg.machineProfiles with
  | some profiles => profiles.unqualified
  | none => engineRecipesRefused

/-- `_recipe_attested_inputs` -/
def recipeAttestedInputs (cfg : ServiceConfig) (recipe capabilityId : String) : List String :=
  match cfg.machineProfiles with
  | some profiles => profiles.recipeAttestedInputs recipe capabilityId
  | none => defaultAttestedInputs

/-- `_recipe_defaults` -/
def recipeDefaults (cfg : ServiceConfig) (recipe : String) : List (String × JsonValue) :=
  match cfg.machineProfiles with
  | some profiles => profiles.recipeInputDefaults recipe
  | none => []

end ServiceConfig

/-- `key.partition("@")` without the separator. -/
def partitionAt (key : String) : String × String :=
  let chars := key.toList
  (String.ofList (chars.takeWhile (· ≠ '@')), String.ofList ((chars.dropWhile (· ≠ '@')).drop 1))

/-- The entry of a version map names a refused profile. -/
def namesRefused (refused : Refused) (entry : String × String) : Bool :=
  let (base, profile) := partitionAt entry.1
  profile ∈ refused.profiles || (base = "magic_profile" && entry.2 ∈ refused.profiles) ||
    (base = "magic_recipe" && entry.2 ∈ refused.recipeVersions)

/-- `_unqualified_reason` -/
def unqualifiedReason (refused : Refused) (capabilityIds : List String)
    (runtimeVersions : Dict String String) : Option String :=
  match capabilityIds.find? (· ∈ refused.capabilityIds) with
  | some capabilityId =>
      some s!"{capabilityId} belongs to a machine profile that is not qualified yet"
  | none =>
      (runtimeVersions.rows.find? (namesRefused refused)).map fun entry =>
        entry.1 ++ " names a machine profile that is not qualified yet"

theorem unqualifiedReason_eq_none_iff {refused : Refused} {capabilityIds : List String}
    {runtimeVersions : Dict String String} :
    unqualifiedReason refused capabilityIds runtimeVersions = none ↔
      (∀ capabilityId ∈ capabilityIds, capabilityId ∉ refused.capabilityIds) ∧
        ∀ entry ∈ runtimeVersions.rows, ¬ namesRefused refused entry := by
  rw [unqualifiedReason]
  cases hfind : capabilityIds.find? (· ∈ refused.capabilityIds) with
  | some capabilityId =>
      have hrefused := List.find?_some hfind
      refine ⟨by simp, fun h => absurd ?_ (h.1 capabilityId (List.mem_of_find?_eq_some hfind))⟩
      simpa using hrefused
  | none =>
      rw [List.find?_eq_none] at hfind
      simp only [Option.map_eq_none_iff, List.find?_eq_none]
      exact ⟨fun h => ⟨by simpa using hfind, h⟩, And.right⟩

/-- `_pinned_recipe` -/
def pinnedRecipe (runtimeVersions : Dict String String) : Option String :=
  match runtimeVersions.lookup "magic_recipe" with
  | some recipe => some recipe
  | none =>
      let sorted := runtimeVersions.rows.insertionSort fun a b => a.1 ≤ b.1
      (sorted.find? fun entry => "magic_recipe@".toList.isPrefixOf entry.1.toList).map Prod.snd

/-! ### Attestation -/

/-- A version map as a JSON value. -/
def versionsValue (versions : Dict String String) : JsonValue :=
  .dict (versions.rows.map fun row => (row.1, .str row.2))

/-- `reported.get(name) == value`, where a missing member reads as `None`. -/
def memberEq (members : List (String × JsonValue)) (name : String) (value : JsonValue) : Bool :=
  ((members.lookup name).getD .null).pyEq value

/-- The reported versions cover every pinned entry. -/
def coversVersions (pinned : Dict String String) (diagnostics : JsonObject) : Bool :=
  match diagnostics.get? "runtime_versions" with
  | some (.dict reported) => pinned.rows.all fun entry => memberEq reported entry.1 (.str entry.2)
  | _ => false

/-- `record.payload[name] if name in record.payload else defaults.get(name)` -/
def expectedInput (cfg : ServiceConfig) (recipe : String) (record : JobRecord) (name : String) :
    JsonValue :=
  match record.payload.get? name with
  | some value => value
  | none => ((cfg.recipeDefaults recipe).lookup name).getD .null

/-- The reported inputs equal the expected ones for every attested input. -/
def coversInputs (cfg : ServiceConfig) (recipe : String) (record : JobRecord)
    (diagnostics : JsonObject) : Bool :=
  match diagnostics.get? "effective_inputs" with
  | some (.dict effective) =>
      (cfg.recipeAttestedInputs recipe record.capabilityId).all fun name =>
        memberEq effective name (expectedInput cfg recipe record name)
  | _ => false

/-- The part of `_verify_output` before the asset store is asked: the first reason to reject. -/
def manifestProblem (cfg : ServiceConfig) (record : JobRecord) (manifest : OutputManifest) :
    Option String :=
  let pinned := record.requirements.runtimeVersions
  if (unqualifiedReason cfg.unqualified [record.capabilityId] pinned).isSome then
    some "profile_not_qualified"
  else if (pinnedRecipe pinned).isSome && !coversVersions pinned manifest.diagnostics then
    some "recipe_configuration_mismatch"
  else if (pinnedRecipe pinned).any fun recipe =>
      !coversInputs cfg recipe record manifest.diagnostics then
    some "effective_inputs_mismatch"
  else if manifest.outputKey ≠ record.outputKey then some "output_key_mismatch"
  else if manifest.idempotencyKey ≠ record.idempotencyKey then some "idempotency_key_mismatch"
  else if manifest.requestDigest ≠ record.requestDigest then some "request_digest_mismatch"
  else if manifest.publicationMode ≠ publicationModeImmutableCreateOnce then
    some "publication_mode_mismatch"
  else none

end GpuWorkerPool
