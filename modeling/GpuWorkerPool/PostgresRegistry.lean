import GpuWorkerPool.Admission
import GpuWorkerPool.Base.Jsonb
import GpuWorkerPool.PostgresLease

/-!
`PostgresWorkerRegistry.upsert` beside `MemoryWorkerRegistry.upsert`, run alone on the same workers.
The statement looks for a row under the worker id first, updates it if its `WHERE` clause holds of
it, and inserts only where there is none; the memory registry makes its checks one after the other.
A row of `pool_workers` is of what its columns hold: the driver refuses a text that is no uuid, an
integer out of range and a NUL character before any row is written.
-/

namespace GpuWorkerPool

open Base

/-! ### The columns -/

/-- What a call on the Postgres registry raises. -/
inductive PostgresExc where
  | domain (exc : Exc)
  /-- A value that its column does not hold. -/
  | dataError
  | uniqueViolation
  | checkViolation
  /-- A row that `_worker_record` does not read. -/
  | unreadable (text : String)
  deriving DecidableEq

/-- A uuid as Postgres writes it. -/
def isUuid (s : String) : Bool :=
  (s.toList.splitOn '-').map List.length = [8, 4, 4, 4, 12] &&
    s.toList.all fun c => c = '-' || c.isDigit || ('a' ≤ c && c ≤ 'f')

/-- The driver's `uuid` column: the text that is read back of a text, if that is a uuid. -/
class UuidColumn where
  readBack : String → Option String
  readBack_uuid : ∀ s, isUuid s → readBack s = some s

def int4 (n : Int) : Bool := -2 ^ 31 ≤ n && n < 2 ^ 31

def textColumn (s : String) : Except PostgresExc String :=
  if Jsonb.textFits s then .ok s else .error .dataError

def integerColumn (n : Int) : Except PostgresExc Int :=
  if int4 n then .ok n else .error .dataError

def uuidColumn [UuidColumn] (s : String) : Except PostgresExc String :=
  match UuidColumn.readBack s with
  | some text => .ok text
  | none => .error .dataError

def jsonbColumn (value : JsonValue) : Except PostgresExc JsonValue :=
  if Jsonb.fits value then .ok (Jsonb.stored value) else .error .dataError

/-- A column that may be `NULL`. -/
def nullable {α : Type} (column : α → Except PostgresExc α) :
    Option α → Except PostgresExc (Option α)
  | none => .ok none
  | some value => (column value).map some

section Columns

theorem textColumn_eq {s : String} (h : Jsonb.textFits s) : textColumn s = .ok s := if_pos h

theorem integerColumn_eq {n : Int} (h : int4 n) : integerColumn n = .ok n := if_pos h

theorem jsonbColumn_eq {value : JsonValue} (h : Jsonb.fits value) :
    jsonbColumn value = .ok (Jsonb.stored value) := if_pos h

theorem uuidColumn_eq [UuidColumn] {s : String} (h : isUuid s) : uuidColumn s = .ok s := by
  rw [uuidColumn, UuidColumn.readBack_uuid s h]

theorem nullable_eq {α : Type} {column : α → Except PostgresExc α} {value : Option α}
    (h : ∀ a, value = some a → column a = .ok a) : nullable column value = .ok value := by
  cases value with
  | none => rfl
  | some a =>
      rw [nullable, h a rfl]
      rfl

end Columns

/-! ### What the `jsonb` columns are written from and read into -/

def textsValue (items : List String) : JsonValue := .list (items.map .str)

/-- `asdict(capability)` -/
def WorkerCapability.asDict (capability : WorkerCapability) : JsonValue :=
  .dict [("capability_id", .str capability.capabilityId), ("plugin_id", .str capability.pluginId),
    ("plugin_version", .str capability.pluginVersion), ("concurrency", .int capability.concurrency)]

def intOrNull : Option Int → JsonValue
  | none => .null
  | some n => .int n

/-- `asdict(gpu)` -/
def GpuTelemetry.asDict (gpu : GpuTelemetry) : JsonValue :=
  .dict [("index", .int gpu.index), ("name", .str gpu.name),
    ("utilization_pct", intOrNull gpu.utilizationPct),
    ("memory_used_mb", intOrNull gpu.memoryUsedMb),
    ("memory_total_mb", intOrNull gpu.memoryTotalMb)]

def textField (value : JsonValue) (name : String) : Except String String :=
  match Sql.field value name with
  | some (.str s) => .ok s
  | _ => .error name

def intField (value : JsonValue) (name : String) : Except String Int :=
  match Sql.field value name with
  | some (.int n) => .ok n
  | _ => .error name

def nullableIntField (value : JsonValue) (name : String) : Except String (Option Int) :=
  match Sql.field value name with
  | some (.int n) => .ok (some n)
  | some .null => .ok none
  | _ => .error name

/-- The names are those of the dataclass; another is an unexpected keyword. -/
def keywords (names : List String) : JsonValue → Except String Unit
  | .dict members => if members.all fun member => member.1 ∈ names then .ok () else .error "keyword"
  | _ => .error "mapping"

def concurrencyOf (value : JsonValue) : Except String Int :=
  match Sql.field value "concurrency" with
  | none => .ok 1
  | some _ => intField value "concurrency"

/-- `WorkerCapability(**value)` -/
def WorkerCapability.ofDict (value : JsonValue) : Except String WorkerCapability := do
  keywords ["capability_id", "plugin_id", "plugin_version", "concurrency"] value
  let capabilityId ← textField value "capability_id"
  let pluginId ← textField value "plugin_id"
  let pluginVersion ← textField value "plugin_version"
  let concurrency ← concurrencyOf value
  return { capabilityId, pluginId, pluginVersion, concurrency }

/-- `GpuTelemetry(**value)` -/
def GpuTelemetry.ofDict (value : JsonValue) : Except String GpuTelemetry := do
  keywords ["index", "name", "utilization_pct", "memory_used_mb", "memory_total_mb"] value
  let index ← intField value "index"
  let name ← textField value "name"
  let utilizationPct ← nullableIntField value "utilization_pct"
  let memoryUsedMb ← nullableIntField value "memory_used_mb"
  let memoryTotalMb ← nullableIntField value "memory_total_mb"
  return { index, name, utilizationPct, memoryUsedMb, memoryTotalMb }

/-- `tuple(read(item) for item in value)` -/
def readItems {α : Type} (read : JsonValue → Except String α) : JsonValue → Except String (List α)
  | .list items => items.mapM read
  | _ => .error "array"

def readText : JsonValue → Except String String
  | .str s => .ok s
  | _ => .error "text"

def readVersions : JsonValue → Except String (Dict String String)
  | .dict members =>
      (RequirementsPayload.strings (members.map Prod.snd)).elim (.error "runtime_versions")
        fun values => .ok (RequirementsPayload.dictOf ((members.map Prod.fst).zip values))
  | _ => .error "runtime_versions"

def WorkerStatus.ofText (text : String) : Except String WorkerStatus :=
  match [active, draining, revoked].find? fun status => status.text = text with
  | some status => .ok status
  | none => .error s!"{text} is not a valid WorkerStatus"

def CostClass.text : CostClass → String
  | .«local» => "local"
  | .hosted => "hosted"
  | .premium => "premium"

def CostClass.ofText (text : String) : Except String CostClass :=
  match [CostClass.local, hosted, premium].find? fun costClass => costClass.text = text with
  | some costClass => .ok costClass
  | none => .error s!"{text} is not a valid CostClass"

section RoundTrips

@[simp] theorem WorkerStatus.ofText_text (status : WorkerStatus) :
    ofText status.text = .ok status := by
  cases status <;> rfl

@[simp] theorem CostClass.ofText_text (costClass : CostClass) :
    ofText costClass.text = .ok costClass := by
  cases costClass <;> rfl

theorem WorkerStatus.text_eq_revoked (status : WorkerStatus) :
    status.text = "revoked" ↔ status = .revoked := by
  cases status <;> decide

/-- A stored object is read by the names it was written under. -/
theorem field_stored {members : List (String × JsonValue)} (h : (members.map Prod.fst).Nodup)
    (name : String) :
    Sql.field (Jsonb.stored (.dict members)) name = (members.lookup name).map Jsonb.stored := by
  rw [Jsonb.stored, Sql.field, Jsonb.storedMembers_eq_map, Jsonb.sortNames_map]
  have hsorted := Jsonb.lookup_sortNames h name
  rw [← hsorted]
  induction Jsonb.sortNames members with
  | nil => rfl
  | cons member rest ih =>
      rw [List.map_cons, List.lookup_cons, List.lookup_cons, ih]
      cases name == member.1 <;> rfl

theorem keywords_stored {names : List String} {members : List (String × JsonValue)}
    (h : ∀ member ∈ members, member.1 ∈ names) :
    keywords names (Jsonb.stored (.dict members)) = .ok () := by
  rw [Jsonb.stored, Jsonb.storedMembers_eq_map, keywords, if_pos]
  rw [List.all_eq_true]
  intro member hmember
  obtain ⟨old, hold, rfl⟩ := List.mem_map.mp ((Jsonb.sortNames_perm _).mem_iff.mp hmember)
  exact decide_eq_true (h old hold)

theorem WorkerCapability.ofDict_asDict (capability : WorkerCapability) :
    ofDict (Jsonb.stored capability.asDict) = .ok capability := by
  rw [ofDict, asDict, keywords_stored (by simp)]
  simp only [textField, concurrencyOf, intField]
  rw [field_stored (by simp), field_stored (by simp), field_stored (by simp),
    field_stored (by simp)]
  rfl

theorem GpuTelemetry.ofDict_asDict (gpu : GpuTelemetry) :
    ofDict (Jsonb.stored gpu.asDict) = .ok gpu := by
  obtain ⟨index, name, utilizationPct, memoryUsedMb, memoryTotalMb⟩ := gpu
  rw [ofDict, asDict, keywords_stored (by simp)]
  simp only [textField, intField, nullableIntField]
  rw [field_stored (by simp), field_stored (by simp), field_stored (by simp),
    field_stored (by simp), field_stored (by simp)]
  cases utilizationPct <;> cases memoryUsedMb <;> cases memoryTotalMb <;> rfl

theorem mapM_of_read {α : Type} {read : JsonValue → Except String α} {write : α → JsonValue}
    (h : ∀ a, read (write a) = .ok a) (items : List α) :
    (items.map write).mapM read = .ok items := by
  rw [List.mapM_map]
  calc items.mapM (read ∘ write) = .ok (items.map id) := mapM_ok fun a _ => h a
    _ = .ok items := by rw [List.map_id]

theorem readItems_stored {α : Type} {read : JsonValue → Except String α} {write : α → JsonValue}
    (h : ∀ a, read (Jsonb.stored (write a)) = .ok a) (items : List α) :
    readItems read (Jsonb.stored (.list (items.map write))) = .ok items := by
  rw [Jsonb.stored, readItems, Jsonb.storedItems_eq_map, List.map_map]
  exact mapM_of_read h items

/-- The versions in the order in which `jsonb` keeps them. -/
def storedVersions (versions : Dict String String) : Dict String String where
  rows := Jsonb.sortNames versions.rows
  keys_nodup := Jsonb.nodup_sortNames versions.keys_nodup

theorem lookup_storedVersions (versions : Dict String String) (name : String) :
    (storedVersions versions).lookup name = versions.lookup name := by
  rw [← Dict.lookup_rows, ← Dict.lookup_rows]
  exact Jsonb.lookup_sortNames versions.keys_nodup name

theorem stored_versionsValue (versions : Dict String String) :
    Jsonb.stored (versionsValue versions) = versionsValue (storedVersions versions) := by
  rw [versionsValue, versionsValue, Jsonb.stored, Jsonb.storedMembers_eq_map, List.map_map]
  exact congrArg JsonValue.dict (Jsonb.sortNames_map JsonValue.str versions.rows)

theorem readVersions_value (versions : Dict String String) :
    readVersions (versionsValue versions) = .ok versions := by
  have hread := RequirementsPayload.versionsOf_dict versions
  rw [versionsValue, readVersions]
  rw [RequirementsPayload.versionsOf] at hread
  cases hstrings : RequirementsPayload.strings
      ((versions.rows.map fun row => (row.1, JsonValue.str row.2)).map Prod.snd) with
  | none =>
      rw [hstrings] at hread
      cases hread
  | some values =>
      rw [hstrings] at hread
      exact congrArg Except.ok (Except.ok.inj hread)

end RoundTrips

/-! ### The rows -/

/-- A row of `pool_workers`. -/
structure PoolWorkerRow where
  workerId : String
  identitySubject : String
  status : String
  capabilities : JsonValue
  gpuModel : Option String
  vramMb : Option Int
  runtimeVersions : JsonValue
  costClass : String
  labels : JsonValue
  activeLeases : Int
  lastHeartbeatAt : Option DateTime
  createdAt : DateTime
  updatedAt : DateTime
  revokedAt : Option DateTime
  gpus : JsonValue
  busyJobId : Option String
  tenantId : Option String

namespace PoolWorkerRow

/-- The row of a worker. -/
def ofRecord (w : WorkerRecord) : PoolWorkerRow where
  workerId := w.workerId
  identitySubject := w.identitySubject
  status := w.status.text
  capabilities := Jsonb.stored (.list (w.capabilities.map WorkerCapability.asDict))
  gpuModel := w.gpuModel
  vramMb := w.vramMb
  runtimeVersions := Jsonb.stored (versionsValue w.runtimeVersions)
  costClass := w.costClass.text
  labels := Jsonb.stored (textsValue w.labels)
  activeLeases := w.activeLeases
  lastHeartbeatAt := w.lastHeartbeatAt
  createdAt := w.createdAt
  updatedAt := w.updatedAt
  revokedAt := w.revokedAt
  gpus := Jsonb.stored (.list (w.gpus.map GpuTelemetry.asDict))
  busyJobId := w.busyJobId
  tenantId := w.tenantId

/-- `_worker_record` -/
def record (row : PoolWorkerRow) : Except String WorkerRecord := do
  let status ← WorkerStatus.ofText row.status
  let capabilities ← readItems WorkerCapability.ofDict row.capabilities
  let runtimeVersions ← readVersions row.runtimeVersions
  let costClass ← CostClass.ofText row.costClass
  let labels ← readItems readText row.labels
  let gpus ← readItems GpuTelemetry.ofDict row.gpus
  return {
    workerId := row.workerId
    identitySubject := row.identitySubject
    status := status
    capabilities := capabilities
    gpuModel := row.gpuModel
    vramMb := row.vramMb
    runtimeVersions := runtimeVersions
    costClass := costClass
    labels := labels
    activeLeases := row.activeLeases
    lastHeartbeatAt := row.lastHeartbeatAt
    createdAt := row.createdAt
    updatedAt := row.updatedAt
    revokedAt := row.revokedAt
    gpus := gpus
    busyJobId := row.busyJobId
    tenantId := row.tenantId }

/-- A row reads back as it was written, up to the order of its runtime versions. -/
theorem record_ofRecord (w : WorkerRecord) :
    (ofRecord w).record = .ok { w with runtimeVersions := storedVersions w.runtimeVersions } := by
  rw [record, ofRecord]
  dsimp only
  rw [WorkerStatus.ofText_text, CostClass.ofText_text, stored_versionsValue, readVersions_value,
    readItems_stored WorkerCapability.ofDict_asDict, readItems_stored GpuTelemetry.ofDict_asDict,
    textsValue, readItems_stored fun _ => rfl]
  rfl

/-- The arguments of the statement and its defaults: the row it proposes. -/
def proposed [UuidColumn] (now : DateTime) (registration : WorkerRegistration)
    (identitySubject : String) : Except PostgresExc PoolWorkerRow := do
  let status : WorkerStatus := if registration.draining then .draining else .active
  let workerId ← textColumn registration.workerId
  let identitySubject ← textColumn identitySubject
  let capabilities ← jsonbColumn (.list (registration.capabilities.map WorkerCapability.asDict))
  let gpuModel ← nullable textColumn registration.gpuModel
  let vramMb ← nullable integerColumn registration.vramMb
  let runtimeVersions ← jsonbColumn (versionsValue registration.runtimeVersions)
  let labels ← jsonbColumn (textsValue registration.labels)
  let activeLeases ← integerColumn registration.activeLeases
  let gpus ← jsonbColumn (.list (registration.gpus.map GpuTelemetry.asDict))
  let busyJobId ← nullable uuidColumn registration.busyJobId
  let tenantId ← nullable textColumn registration.tenantId
  return {
    workerId := workerId
    identitySubject := identitySubject
    status := status.text
    capabilities := capabilities
    gpuModel := gpuModel
    vramMb := vramMb
    runtimeVersions := runtimeVersions
    costClass := registration.costClass.text
    labels := labels
    activeLeases := activeLeases
    lastHeartbeatAt := some now
    createdAt := now
    updatedAt := now
    revokedAt := none
    gpus := gpus
    busyJobId := busyJobId
    tenantId := tenantId }

/-- The constraints `status_known`, `cost_class_known` and `gpus_array` of the table. -/
def checks (row : PoolWorkerRow) : Bool :=
  row.status ∈ ["active", "draining", "revoked"] &&
    row.costClass ∈ ["local", "hosted", "premium"] && (Sql.arrayLength row.gpus).isSome

theorem checks_ofRecord (w : WorkerRecord) : (ofRecord w).checks := by
  rw [checks, Bool.and_eq_true, Bool.and_eq_true, decide_eq_true_eq, decide_eq_true_eq]
  refine ⟨⟨?_, ?_⟩, rfl⟩
  · show w.status.text ∈ _
    cases w.status <;> decide
  · show w.costClass.text ∈ _
    cases w.costClass <;> decide

/-- `DO UPDATE SET` -/
def updated (row excluded : PoolWorkerRow) (now : DateTime) : PoolWorkerRow :=
  { row with
    status := if row.status = "revoked" then "revoked" else excluded.status
    capabilities := excluded.capabilities
    gpuModel := excluded.gpuModel
    vramMb := excluded.vramMb
    runtimeVersions := excluded.runtimeVersions
    costClass := excluded.costClass
    labels := excluded.labels
    activeLeases := excluded.activeLeases
    lastHeartbeatAt := some now
    updatedAt := now
    gpus := excluded.gpus
    busyJobId := excluded.busyJobId }

/-- The `WHERE` clause of the update. -/
def sameOwner (row excluded : PoolWorkerRow) : Sql.Truth :=
  Sql.and3 (Sql.isNotDistinctFrom row.tenantId excluded.tenantId)
    (Sql.compare (fun a b => a = b) (some row.identitySubject) (some excluded.identitySubject))

theorem isTrue_sameOwner (row excluded : PoolWorkerRow) :
    Sql.isTrue (row.sameOwner excluded) =
      (decide (row.tenantId = excluded.tenantId) &&
        decide (row.identitySubject = excluded.identitySubject)) := by
  rw [sameOwner, Sql.isTrue_and3, Sql.isTrue_isNotDistinctFrom, Sql.isTrue_compare]
  rfl

end PoolWorkerRow

/-- `pool_workers` -/
abbrev PoolWorkers := Table PoolWorkerRow.workerId

namespace PoolWorkers

/-- `INSERT … ON CONFLICT (worker_id) DO UPDATE … WHERE … RETURNING *`. The index of the conflict
target is looked at before any other. -/
def insertOrUpdate (t : PoolWorkers) (now : DateTime) (excluded : PoolWorkerRow) :
    PoolWorkers × Except PostgresExc (Option PoolWorkerRow) :=
  if !excluded.checks then (t, .error .checkViolation)
  else
    match t.get? excluded.workerId with
    | some row =>
        if Sql.isTrue (row.sameOwner excluded) then
          let row := row.updated excluded now
          if row.checks then (t.put row, .ok (some row)) else (t, .error .checkViolation)
        else (t, .ok none)
    | none =>
        if t.rows.any fun row => row.identitySubject = excluded.identitySubject then
          (t, .error .uniqueViolation)
        else (t.put excluded, .ok (some excluded))

/-- A row as the registry returns it. -/
def recordOf (row : PoolWorkerRow) : Except PostgresExc WorkerRecord :=
  row.record.mapError .unreadable

/-- The read after an update that found its row under another owner. -/
def diagnosis (t : PoolWorkers) (registration : WorkerRegistration) (identitySubject : String) :
    PostgresExc :=
  match (t.get? registration.workerId).map recordOf with
  | some (.error error) => error
  | some (.ok existing) =>
      if existing.identitySubject ≠ identitySubject then
        .domain (.workerIdentityMismatch registration.workerId)
      else .domain (.workerTenantMismatch registration.workerId)
  | none => .domain (.workerIdentityMismatch registration.workerId)

/-- What `upsert` makes of the end of its statement. -/
def answer (t : PoolWorkers) (registration : WorkerRegistration) (identitySubject : String) :
    Except PostgresExc (Option PoolWorkerRow) → Except PostgresExc WorkerRecord
  | .error .uniqueViolation => .error (.domain (.identitySubjectTaken identitySubject))
  | .error error => .error error
  | .ok none => .error (diagnosis t registration identitySubject)
  | .ok (some row) => recordOf row

def upsert [UuidColumn] (t : PoolWorkers) (now : DateTime) (registration : WorkerRegistration)
    (identitySubject : String) : PoolWorkers × Except PostgresExc WorkerRecord :=
  match PoolWorkerRow.proposed now registration identitySubject with
  | .error error => (t, .error error)
  | .ok excluded =>
      let (t', ended) := insertOrUpdate t now excluded
      (t', answer t' registration identitySubject ended)

end PoolWorkers

end GpuWorkerPool
