import GpuWorkerPool.Base.Sql
import GpuWorkerPool.MemoryJobStore

/-!
`PostgresJobStore.lease` beside `MemoryJobStore.lease`. A row of `pool_jobs` holds the requirements
of its job as `as_payload` writes them, and the statement is its `WHERE` clause with the `NULL`s
of SQL, its `ORDER BY` and its `UPDATE`. A value is within the range of its column's type, `uuid`s
are their lower-case texts, whose order is the order of the sixteen bytes, and no row is locked.
The two filters keep the same jobs; what remains is the order in which equal jobs are offered.
-/

namespace GpuWorkerPool

open Base

/-- `str(value)` of Python. -/
class PyStr where
  str : JsonValue → String
  str_str : ∀ s, str (.str s) = s

/-! ### Requirements as `jsonb` -/

namespace RequirementsPayload

/-- `payload[name] = value`, when there is something to set. -/
def setting (name : String) (value : Option JsonValue) : List (String × JsonValue) :=
  value.toList.map fun value => (name, value)

/-- A list of texts, unless it is empty. -/
def textList (values : List String) : Option JsonValue :=
  if values.isEmpty then none else some (.list (values.map .str))

/-- A dictionary of texts, unless it is empty. -/
def textDict (values : Dict String String) : Option JsonValue :=
  if values.rows.isEmpty then none
  else some (.dict (values.rows.map fun row => (row.1, .str row.2)))

/-- `bool(value)` -/
def truthy : JsonValue → Bool
  | .null => false
  | .bool b => b
  | .int n => n ≠ 0
  | .float f => !f.isFinite || f.mantissa ≠ 0
  | .str s => s ≠ ""
  | .list items => !items.isEmpty
  | .dict members => !members.isEmpty

/-- `payload.get(name) or default` -/
def getOr (payload : JsonValue) (name : String) (default : JsonValue) : JsonValue :=
  ((Sql.field payload name).filter truthy).getD default

def minVramOf : Option JsonValue → Except String (Option Int)
  | none | some .null => .ok none
  | some (.int n) => .ok (some n)
  | some (.bool b) => .ok (some (if b then 1 else 0))
  | some _ => .error "requirements min_vram_mb must be an integer"

/-- The strings among the values, if all of them are strings. -/
def strings : List JsonValue → Option (List String)
  | [] => some []
  | .str s :: rest => (strings rest).map (s :: ·)
  | _ :: _ => none

def workerIdsOf : JsonValue → Except String (List String)
  | .list items =>
      (strings items).elim (.error "requirements worker_ids must be an array of strings") .ok
  | _ => .error "requirements worker_ids must be an array of strings"

/-- `dict(members)` -/
def dictOf (members : List (String × String)) : Dict String String :=
  members.foldl (fun d member => d.put member) Table.empty

def versionsOf : JsonValue → Except String (Dict String String)
  | .dict members =>
      (strings (members.map Prod.snd)).elim
        (.error "requirements runtime_versions must map strings to strings")
        fun values => .ok (dictOf ((members.map Prod.fst).zip values))
  | _ => .error "requirements runtime_versions must map strings to strings"

theorem lookup_setting_self (name : String) (value : Option JsonValue)
    (rest : List (String × JsonValue)) (h : rest.lookup name = none) :
    (setting name value ++ rest).lookup name = value := by
  cases value with
  | none => exact h
  | some value => simp [setting]

theorem lookup_setting_of_ne {name name' : String} (value : Option JsonValue)
    (rest : List (String × JsonValue)) (h : name' ≠ name) :
    (setting name value ++ rest).lookup name' = rest.lookup name' := by
  cases value with
  | none => rfl
  | some value =>
      rw [setting, Option.toList_some, List.map_singleton, List.singleton_append, List.lookup_cons]
      rw [beq_false_of_ne h]

theorem lookup_setting (name name' : String) (value : Option JsonValue) (h : name' ≠ name) :
    (setting name value).lookup name' = none := by
  have hrest := lookup_setting_of_ne value [] h
  rwa [List.append_nil] at hrest

theorem strings_map (values : List String) : strings (values.map .str) = some values := by
  induction values with
  | nil => rfl
  | cons value rest ih => rw [List.map_cons, strings, ih, Option.map_some]

theorem getOr_textList (payload : JsonValue) (name : String) (values : List String)
    (h : Sql.field payload name = textList values) :
    getOr payload name (.list []) = .list (values.map .str) := by
  rw [getOr, h]
  cases values <;> rfl

theorem getOr_textDict (payload : JsonValue) (name : String) (values : Dict String String)
    (h : Sql.field payload name = textDict values) :
    getOr payload name (.dict []) =
      .dict (values.rows.map fun row => (row.1, .str row.2)) := by
  rw [getOr, h, textDict]
  cases values.rows <;> rfl

theorem rows_foldl_put (members : List (String × String)) (d : Dict String String)
    (h : ((d.rows ++ members).map Prod.fst).Nodup) :
    (members.foldl (fun d member => d.put member) d).rows = d.rows ++ members := by
  induction members generalizing d with
  | nil => exact (List.append_nil _).symm
  | cons member rest ih =>
      have hput : (d.put member).rows = d.rows ++ [member] := by
        apply Table.putRow_of_notMem
        rw [List.map_append, List.nodup_append] at h
        exact fun hmem => h.2.2 _ hmem _ (List.mem_map_of_mem List.mem_cons_self) rfl
      rw [List.foldl_cons, ih, hput, List.append_assoc, List.singleton_append]
      rwa [hput, List.append_assoc, List.singleton_append]

theorem dictOf_rows (d : Dict String String) : dictOf d.rows = d :=
  Table.ext (rows_foldl_put d.rows Table.empty d.keys_nodup)

theorem versionsOf_dict (d : Dict String String) :
    versionsOf (.dict (d.rows.map fun row => (row.1, .str row.2))) = .ok d := by
  have hkeys : (d.rows.map fun row => (row.1, JsonValue.str row.2)).map Prod.fst =
      d.rows.map Prod.fst := by
    rw [List.map_map]
    rfl
  have hvalues : (d.rows.map fun row => (row.1, JsonValue.str row.2)).map Prod.snd =
      (d.rows.map Prod.snd).map .str := by
    rw [List.map_map, List.map_map]
    rfl
  have hzip : (d.rows.map Prod.fst).zip (d.rows.map Prod.snd) = d.rows := by
    rw [List.zip_map', List.map_id'']
    exact fun row => rfl
  rw [versionsOf, hkeys, hvalues, strings_map, Option.elim_some, hzip, dictOf_rows]

end RequirementsPayload

open RequirementsPayload

namespace JobRequirements

/-- `as_payload` -/
def asPayload (r : JobRequirements) : JsonValue :=
  .dict (setting "min_vram_mb" (r.minVramMb.map .int) ++ (setting "gpu_models" (textList r.gpuModels)
    ++ (setting "labels" (textList r.labels) ++ (setting "worker_ids" (textList r.workerIds) ++
      setting "runtime_versions" (textDict r.runtimeVersions)))))

/-- `from_payload`; the error is the text of the `TypeError`. -/
def fromPayload [PyStr] (payload : JsonValue) : Except String JobRequirements :=
  match getOr payload "gpu_models" (.list []), getOr payload "labels" (.list []) with
  | .list gpuModels, .list labels => do
      let minVramMb ← minVramOf (Sql.field payload "min_vram_mb")
      let workerIds ← workerIdsOf (getOr payload "worker_ids" (.list []))
      let runtimeVersions ← versionsOf (getOr payload "runtime_versions" (.dict []))
      return {
        minVramMb := minVramMb
        gpuModels := gpuModels.map PyStr.str
        labels := labels.map PyStr.str
        workerIds := workerIds
        runtimeVersions := runtimeVersions }
  | _, _ => .error "requirements gpu_models and labels must be arrays"

section Fields

variable (r : JobRequirements)

theorem field_minVramMb : Sql.field r.asPayload "min_vram_mb" = r.minVramMb.map .int := by
  apply lookup_setting_self
  rw [lookup_setting_of_ne _ _ (by decide), lookup_setting_of_ne _ _ (by decide),
    lookup_setting_of_ne _ _ (by decide), lookup_setting _ _ _ (by decide)]

theorem field_gpuModels : Sql.field r.asPayload "gpu_models" = textList r.gpuModels := by
  refine (lookup_setting_of_ne _ _ (by decide)).trans (lookup_setting_self _ _ _ ?_)
  rw [lookup_setting_of_ne _ _ (by decide), lookup_setting_of_ne _ _ (by decide),
    lookup_setting _ _ _ (by decide)]

theorem field_labels : Sql.field r.asPayload "labels" = textList r.labels := by
  refine (lookup_setting_of_ne _ _ (by decide)).trans ((lookup_setting_of_ne _ _ (by decide)).trans
    (lookup_setting_self _ _ _ ?_))
  rw [lookup_setting_of_ne _ _ (by decide), lookup_setting _ _ _ (by decide)]

theorem field_workerIds : Sql.field r.asPayload "worker_ids" = textList r.workerIds := by
  refine (lookup_setting_of_ne _ _ (by decide)).trans ((lookup_setting_of_ne _ _ (by decide)).trans
    ((lookup_setting_of_ne _ _ (by decide)).trans (lookup_setting_self _ _ _ ?_)))
  exact lookup_setting _ _ _ (by decide)

theorem field_runtimeVersions :
    Sql.field r.asPayload "runtime_versions" = textDict r.runtimeVersions := by
  refine (lookup_setting_of_ne _ _ (by decide)).trans ((lookup_setting_of_ne _ _ (by decide)).trans
    ((lookup_setting_of_ne _ _ (by decide)).trans ((lookup_setting_of_ne _ _ (by decide)).trans ?_)))
  cases textDict r.runtimeVersions <;> rfl

theorem minVramOf_field : minVramOf (Sql.field r.asPayload "min_vram_mb") = .ok r.minVramMb := by
  rw [field_minVramMb]
  cases r.minVramMb <;> rfl

/-- What is written as `jsonb` reads back as it was. -/
theorem fromPayload_asPayload [PyStr] : fromPayload r.asPayload = .ok r := by
  have hstr (values : List String) : (values.map JsonValue.str).map PyStr.str = values := by
    rw [List.map_map, List.map_id'']
    exact fun s => PyStr.str_str s
  rw [fromPayload, getOr_textList _ _ _ r.field_gpuModels, getOr_textList _ _ _ r.field_labels,
    getOr_textList _ _ _ r.field_workerIds, getOr_textDict _ _ _ r.field_runtimeVersions]
  dsimp only
  rw [minVramOf_field, hstr, hstr, workerIdsOf, strings_map, versionsOf_dict]
  rfl

end Fields

end JobRequirements

/-! ### The rows -/

def JobStatus.text : JobStatus → String
  | .queued => "queued"
  | .processing => "processing"
  | .completed => "completed"
  | .failed => "failed"
  | .cancelled => "cancelled"

/-- `JobStatus(text)` -/
def JobStatus.ofText (text : String) : Except String JobStatus :=
  match [queued, processing, completed, failed, cancelled].find? fun status =>
      status.text = text with
  | some status => .ok status
  | none => .error s!"{text} is not a valid JobStatus"

/-- `JobFailureCode(text) if text else None` -/
def JobFailureCode.ofText (text : Option String) : Except String (Option JobFailureCode) :=
  match text.filter fun text => text ≠ "" with
  | none => .ok none
  | some text =>
      match [invalidInput, unsupportedOperation, providerUnavailable, temporaryFailure].find?
          fun code => code.text = text with
      | some code => .ok (some code)
      | none => .error s!"{text} is not a valid JobFailureCode"

@[simp] theorem JobStatus.ofText_text (status : JobStatus) : ofText status.text = .ok status := by
  cases status <;> rfl

@[simp] theorem JobFailureCode.ofText_text (code : Option JobFailureCode) :
    ofText (code.map text) = .ok code := by
  rcases code with _ | _ | _ | _ | _ <;> rfl

/-- A row of `pool_jobs`. The columns that the lease only returns have the types of the record. -/
structure PoolJobRow where
  jobId : String
  idempotencyKey : String
  capabilityId : String
  contractVersion : Int
  status : String
  inputKeys : List String
  outputKey : String
  payload : JobPayload
  tenantId : Option String
  attempts : Int
  attemptBudget : Int
  priority : Int
  executionDeadlineSeconds : Int
  requestDigest : String
  claimToken : Option String
  leasedBy : Option String
  leaseUntil : Option DateTime
  outputContentType : Option String
  outputSha256 : Option String
  outputByteLength : Option Int
  error : Option String
  failureCode : Option String
  failureMessage : Option String
  retryable : Bool
  progressPercent : Option Int
  createdAt : DateTime
  updatedAt : DateTime
  cancelledAt : Option DateTime
  requirements : JsonValue
  executedBy : Option String
  executionMetadata : List (String × JsonValue)

namespace PoolJobRow

/-- The row of a job. -/
def ofRecord (r : JobRecord) : PoolJobRow where
  jobId := r.jobId
  idempotencyKey := r.idempotencyKey
  capabilityId := r.capabilityId
  contractVersion := r.contractVersion
  status := r.status.text
  inputKeys := r.inputKeys
  outputKey := r.outputKey
  payload := r.payload
  tenantId := r.tenantId
  attempts := r.attempts
  attemptBudget := r.attemptBudget
  priority := r.priority
  executionDeadlineSeconds := r.executionDeadlineSeconds
  requestDigest := r.requestDigest
  claimToken := r.claimToken
  leasedBy := r.leasedBy
  leaseUntil := r.leaseUntil
  outputContentType := r.outputContentType
  outputSha256 := r.outputSha256
  outputByteLength := r.outputByteLength
  error := r.error
  failureCode := r.failureCode.map JobFailureCode.text
  failureMessage := r.failureMessage
  retryable := r.retryable
  progressPercent := r.progressPercent
  createdAt := r.createdAt
  updatedAt := r.updatedAt
  cancelledAt := r.cancelledAt
  requirements := r.requirements.asPayload
  executedBy := r.executedBy
  executionMetadata := r.executionMetadata

/-- `_record`; the error is the text of the `TypeError` or `ValueError`. -/
def record [PyStr] (row : PoolJobRow) : Except String JobRecord := do
  let status ← JobStatus.ofText row.status
  let requirements ← JobRequirements.fromPayload row.requirements
  let failureCode ← JobFailureCode.ofText row.failureCode
  return {
    jobId := row.jobId
    idempotencyKey := row.idempotencyKey
    capabilityId := row.capabilityId
    status := status
    inputKeys := row.inputKeys
    outputKey := row.outputKey
    attempts := row.attempts
    createdAt := row.createdAt
    updatedAt := row.updatedAt
    contractVersion := row.contractVersion
    payload := row.payload
    tenantId := row.tenantId
    requirements := requirements
    priority := row.priority
    attemptBudget := row.attemptBudget
    executionDeadlineSeconds := row.executionDeadlineSeconds
    requestDigest := row.requestDigest
    claimToken := row.claimToken
    leasedBy := row.leasedBy
    executedBy := row.executedBy
    executionMetadata := row.executionMetadata
    leaseUntil := row.leaseUntil
    outputContentType := row.outputContentType
    outputSha256 := row.outputSha256
    outputByteLength := row.outputByteLength
    error := row.error
    failureCode := failureCode
    failureMessage := row.failureMessage
    retryable := row.retryable
    progressPercent := row.progressPercent
    cancelledAt := row.cancelledAt }

theorem record_ofRecord [PyStr] (r : JobRecord) : (ofRecord r).record = .ok r := by
  rw [record, ofRecord]
  dsimp only
  rw [JobStatus.ofText_text, JobRequirements.fromPayload_asPayload, JobFailureCode.ofText_text]
  rfl

/-- The `SET` clause of the lease. -/
def claimed (row : PoolJobRow) (now : DateTime) (token : String) (query : LeaseQuery) :
    PoolJobRow :=
  { row with
    status := "processing", attempts := row.attempts + 1, claimToken := some token,
    leasedBy := some query.workerId, leaseUntil := some (now + seconds query.leaseSeconds),
    updatedAt := now }

theorem ofRecord_leased (r : JobRecord) (now : DateTime) (token : String) (query : LeaseQuery) :
    ofRecord (r.leased now token query) = (ofRecord r).claimed now token query :=
  rfl

end PoolJobRow

/-! ### The statement -/

namespace PoolJobRow

open Sql

/-- `ORDER BY priority ASC, created_at ASC, job_id ASC` -/
def leaseOrder (row other : PoolJobRow) : Bool :=
  row.priority < other.priority || row.priority = other.priority &&
    (row.createdAt < other.createdAt || row.createdAt = other.createdAt && row.jobId < other.jobId)

theorem leaseOrder_iff {row other : PoolJobRow} :
    row.leaseOrder other ↔ row.priority < other.priority ∨ row.priority = other.priority ∧
      (row.createdAt < other.createdAt ∨
        row.createdAt = other.createdAt ∧ row.jobId < other.jobId) := by
  simp [leaseOrder]

variable [PyText] [JsonbText]

/-- `COALESCE((requirements->>'min_vram_mb')::int, 0)` -/
def minVram (requirements : JsonValue) : Int :=
  ((fieldText requirements "min_vram_mb").bind String.toInt?).getD 0

/-- `COALESCE(requirements->name, '[]')` -/
def listAt (requirements : JsonValue) (name : String) : JsonValue :=
  (field requirements name).getD (.list [])

def statusClause (now : DateTime) (row : PoolJobRow) : Truth :=
  or3 (compare (fun a b => a = b) (some row.status) (some "queued"))
    (and3 (compare (fun a b => a = b) (some row.status) (some "processing"))
      (compare (fun a b => a < b) row.leaseUntil (some now)))

def gpuClause (query : LeaseQuery) (requirements : JsonValue) : Truth :=
  or3 (compare (fun a b => a = b) (arrayLength (listAt requirements "gpu_models")) (some 0))
    (isIn (query.gpuModel.map PyText.lower)
      ((elementsText (field requirements "gpu_models")).map (Option.map PyText.lower)))

def workerClause (query : LeaseQuery) (requirements : JsonValue) : Truth :=
  or3 (some ((listAt requirements "worker_ids").sameJson (.list [])))
    ((field requirements "worker_ids").map fun workerIds => hasKey workerIds query.workerId)

/-- The `WHERE` clause. -/
def leaseClause (query : LeaseQuery) (now : DateTime) (row : PoolJobRow) : Truth :=
  and3 (isIn (some row.capabilityId) (query.capabilityIds.map some))
    (and3 (compare (fun a b => a < b) (some row.attempts) (some row.attemptBudget))
    (and3 (statusClause now row)
    (and3 (isNotDistinctFrom row.tenantId query.tenantId)
    (and3 (compare (fun a b => a ≤ b) (some (minVram row.requirements))
      (some (query.vramMb.getD 0)))
    (and3 (gpuClause query row.requirements)
    (and3 (some (contained (listAt row.requirements "labels") (.list (query.labels.map .str))))
    (and3 (workerClause query row.requirements)
    (some (contained ((field row.requirements "runtime_versions").getD (.dict []))
      (.dict (query.runtimeVersions.rows.map fun row => (row.1, .str row.2))))))))))))

end PoolJobRow

/-- The table `pool_jobs`. -/
abbrev PoolJobs := Table PoolJobRow.jobId

section Statement

variable [PyText] [Sql.JsonbText]

/-- The lease statement: the table after it, and the row that `RETURNING j.*` answers with. -/
def PoolJobs.lease (t : PoolJobs) (now : DateTime) (token : String) (query : LeaseQuery) :
    PoolJobs × Option PoolJobRow :=
  match Sql.first PoolJobRow.leaseOrder
      (t.rows.filter fun row => Sql.isTrue (row.leaseClause query now)) with
  | none => (t, none)
  | some candidate =>
      (t.mapRows
        (fun row => if row.jobId = candidate.jobId then row.claimed now token query else row)
        (fun row => by split <;> rfl),
        (t.get? candidate.jobId).map fun row => row.claimed now token query)

end Statement

namespace PoolJobRow

/-! ### The two filters -/

theorem listAt_eq {requirements : JsonValue} {name : String} {values : List String}
    (h : Sql.field requirements name = textList values) :
    listAt requirements name = .list (values.map .str) := by
  rw [listAt, h]
  cases values <;> rfl

theorem statusClause_ofRecord (now : DateTime) (r : JobRecord) :
    Sql.isTrue (statusClause now (ofRecord r)) = r.isLeasable now := by
  rw [statusClause, Sql.isTrue_or3, Sql.isTrue_and3, Sql.isTrue_compare, Sql.isTrue_compare,
    Sql.isTrue_compare, JobRecord.isLeasable, ofRecord]
  cases r.status <;> cases r.leaseUntil <;> rfl

variable (r : JobRequirements) (query : LeaseQuery)

theorem labels_clause :
    Sql.contained (listAt r.asPayload "labels") (.list (query.labels.map .str)) =
      r.labels.all (· ∈ query.labels) := by
  rw [listAt_eq r.field_labels, Sql.contained, Sql.containedIn, Sql.containedItems_strings]

theorem workerClause_asPayload :
    Sql.isTrue (workerClause query r.asPayload) =
      (r.workerIds.isEmpty || decide (query.workerId ∈ r.workerIds)) := by
  rw [workerClause, Sql.isTrue_or3, Sql.isTrue_some, listAt_eq r.field_workerIds,
    r.field_workerIds]
  cases hids : r.workerIds with
  | nil => rfl
  | cons first rest =>
      have hfield : textList (first :: rest) = some (.list ((first :: rest).map .str)) := rfl
      rw [hfield, Option.map_some, Sql.isTrue_some, Sql.hasKey_strings]
      rfl

theorem versions_clause :
    Sql.contained ((Sql.field r.asPayload "runtime_versions").getD (.dict []))
        (.dict (query.runtimeVersions.rows.map fun row => (row.1, .str row.2))) =
      r.runtimeVersions.rows.all fun row => query.runtimeVersions.lookup row.1 = some row.2 := by
  have hdict : (textDict r.runtimeVersions).getD (.dict []) =
      .dict (r.runtimeVersions.rows.map fun row => (row.1, .str row.2)) := by
    rw [textDict]
    cases r.runtimeVersions.rows <;> rfl
  rw [r.field_runtimeVersions, hdict, Sql.contained, Sql.containedIn, Sql.containedMembers_strings]
  simp only [Dict.lookup_rows]

variable [Sql.JsonbText]

theorem minVram_asPayload : minVram r.asPayload = r.minVramMb.getD 0 := by
  rw [minVram, Sql.fieldText, r.field_minVramMb]
  cases r.minVramMb with
  | none => rfl
  | some mb =>
      have htext : (toString mb).toInt? = some mb := Int.toInt?_repr mb
      rw [Option.map_some, Option.bind_some, Sql.text, Option.bind_some, htext]

variable [PyText]

theorem gpuClause_asPayload :
    Sql.isTrue (gpuClause query r.asPayload) =
      (r.gpuModels.isEmpty || query.gpuModel.any fun model =>
        decide (PyText.lower model ∈ r.gpuModels.map PyText.lower)) := by
  rw [gpuClause, Sql.isTrue_or3, listAt_eq r.field_gpuModels, r.field_gpuModels, Sql.isTrue_isIn,
    Option.any_map]
  cases hmodels : r.gpuModels with
  | nil => rfl
  | cons first rest =>
      have hfield : textList (first :: rest) = some (.list ((first :: rest).map .str)) := rfl
      have hlength : Sql.isTrue (Sql.compare (fun a b => decide (a = b))
          (Sql.arrayLength (.list ((first :: rest).map .str))) (some 0)) = false := rfl
      rw [hfield, hlength, Bool.false_or, List.isEmpty_cons, Bool.false_or]
      congr 1
      funext model
      rw [Bool.eq_iff_iff, decide_eq_true_iff, decide_eq_true_iff]
      simp [Sql.elementsText, Sql.text]

/-- The clause keeps the row of a job exactly when the memory store's filter keeps the job. -/
theorem leaseClause_ofRecord (now : DateTime) (job : JobRecord) :
    Sql.isTrue ((ofRecord job).leaseClause query now) = isCandidate query now job := by
  rw [leaseClause, Bool.eq_iff_iff]
  simp only [Sql.isTrue_and3, Sql.isTrue_isIn, Sql.isTrue_compare, Sql.isTrue_some,
    Sql.isTrue_isNotDistinctFrom, statusClause_ofRecord, Option.any_some, Bool.and_eq_true,
    decide_eq_true_iff, List.mem_map_of_injective (Option.some_injective _)]
  simp only [ofRecord, minVram_asPayload, gpuClause_asPayload, labels_clause,
    workerClause_asPayload, versions_clause]
  simp only [isCandidate, satisfiesRequirements, Bool.and_eq_true, decide_eq_true_iff]
  tauto

end PoolJobRow

end GpuWorkerPool
