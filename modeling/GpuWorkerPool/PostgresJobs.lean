import GpuWorkerPool.Base.JsonbEquality
import GpuWorkerPool.Base.Update
import GpuWorkerPool.PostgresRegistry
import GpuWorkerPool.StoreFencing

/-!
The operations of `PostgresJobStore`. The driver and the columns take the arguments first and refuse
a text that is no uuid, an integer out of range, a NUL character and a float that `jsonb` has no
number for; then an operation is one statement over `pool_jobs`, and the row it returns is read by
`_record`. The members of an object have distinct names, and a constraint of the table is checked
where a statement writes its column.
-/

namespace GpuWorkerPool

open Base

/-! ### The columns -/

def membersColumn [Jsonb.FloatColumn] (members : List (String × JsonValue)) :
    Except PostgresExc (List (String × JsonValue)) :=
  if Jsonb.fitsMembers members then
    match Jsonb.readBackMembers members with
    | some members => .ok (Jsonb.sortNames (Jsonb.storedMembers members))
    | none => .error .dataError
  else .error .dataError

def objectColumn [Jsonb.FloatColumn] (o : JsonObject) : Except PostgresExc JsonObject :=
  match membersColumn o.members with
  | .error error => .error error
  | .ok members =>
      if h : (JsonValue.dict members).wellFormed then .ok ⟨members, h⟩ else .error .dataError

def int8 (n : Int) : Bool := -2 ^ 63 ≤ n && n < 2 ^ 63

def bigintColumn (n : Int) : Except PostgresExc Int := if int8 n then .ok n else .error .dataError

/-- A `jsonb` column of texts. -/
def textsColumn (items : List String) : Except PostgresExc (List String) :=
  if Jsonb.fits (textsValue items) then .ok items else .error .dataError

/-- An argument that is compared and not stored. -/
def passes {α : Type} (column : α → Except PostgresExc α) (value : α) : Except PostgresExc Unit :=
  (column value).map fun _ => ()

section Columns

theorem bigintColumn_eq {n : Int} (h : int8 n) : bigintColumn n = .ok n := if_pos h

theorem textsColumn_eq {items : List String} (h : Jsonb.fits (textsValue items)) :
    textsColumn items = .ok items := if_pos h

theorem passes_eq {α : Type} {column : α → Except PostgresExc α} {value : α}
    (h : column value = .ok value) : passes column value = .ok () := by
  rw [passes, h]
  rfl

variable [Jsonb.FloatColumn]

theorem membersColumn_eq {members : List (String × JsonValue)} (h : Jsonb.fitsMembers members)
    (hread : Jsonb.readBackMembers members = some members) :
    membersColumn members = .ok (Jsonb.sortNames (Jsonb.storedMembers members)) := by
  rw [membersColumn, if_pos h, hread]

theorem objectColumn_eq {o : JsonObject} (h : Jsonb.fitsMembers o.members)
    (hread : Jsonb.readBackMembers o.members = some o.members) :
    objectColumn o = .ok o.stored := by
  rw [objectColumn, membersColumn_eq h hread]
  exact dif_pos (Jsonb.wellFormed_stored o.wellFormed)

end Columns

/-! ### The statements -/

namespace PoolJobRow

/-- The arguments of `INSERT` and the defaults of the table: the row it proposes. -/
def proposed [FloatRepr] [UuidColumn] [Jsonb.FloatColumn] (now : DateTime)
    (submission : JobSubmission) : Except PostgresExc PoolJobRow := do
  let jobId ← uuidColumn submission.jobId
  let idempotencyKey ← textColumn submission.idempotencyKey
  let capabilityId ← textColumn submission.capabilityId
  let contractVersion ← integerColumn submission.contractVersion
  let inputKeys ← textsColumn submission.inputKeys
  let outputKey ← textColumn submission.outputKey
  let payload ← objectColumn submission.payload
  let tenantId ← nullable textColumn submission.tenantId
  let priority ← integerColumn submission.priority
  let attemptBudget ← integerColumn submission.attemptBudget
  let executionDeadlineSeconds ← integerColumn submission.executionDeadlineSeconds
  let requirements ← jsonbColumn submission.requirements.asPayload
  return {
    jobId := jobId
    idempotencyKey := idempotencyKey
    capabilityId := capabilityId
    contractVersion := contractVersion
    status := "queued"
    inputKeys := inputKeys
    outputKey := outputKey
    payload := payload
    tenantId := tenantId
    attempts := 0
    attemptBudget := attemptBudget
    priority := priority
    executionDeadlineSeconds := executionDeadlineSeconds
    requestDigest := jobRequestDigest submission
    claimToken := none
    leasedBy := none
    leaseUntil := none
    outputContentType := none
    outputSha256 := none
    outputByteLength := none
    error := none
    failureCode := none
    failureMessage := none
    retryable := false
    progressPercent := none
    createdAt := now
    updatedAt := now
    cancelledAt := none
    requirements := requirements
    executedBy := none
    executionMetadata := [] }

/-- The constraints of the table that an inserted row can break. -/
def checks (row : PoolJobRow) : Bool :=
  0 < row.contractVersion && (1 ≤ row.attemptBudget && row.attemptBudget ≤ 20) &&
    (0 ≤ row.priority && row.priority ≤ 1000) &&
    (60 ≤ row.executionDeadlineSeconds && row.executionDeadlineSeconds ≤ 7200)

theorem checks_iff {row : PoolJobRow} : row.checks ↔
    0 < row.contractVersion ∧ (1 ≤ row.attemptBudget ∧ row.attemptBudget ≤ 20) ∧
      (0 ≤ row.priority ∧ row.priority ≤ 1000) ∧
      (60 ≤ row.executionDeadlineSeconds ∧ row.executionDeadlineSeconds ≤ 7200) := by
  simp [checks, and_assoc]

/-- The `WHERE` clause of `DO UPDATE`. -/
def sameRequest (row excluded : PoolJobRow) : Sql.Truth :=
  Sql.and3 (Sql.compare (fun a b => a = b) (some row.capabilityId) (some excluded.capabilityId))
    (Sql.and3 (Sql.compare (fun a b => a = b) (some row.contractVersion)
      (some excluded.contractVersion))
    (Sql.and3 (some (Jsonb.same (textsValue row.inputKeys) (textsValue excluded.inputKeys)))
    (Sql.and3 (Sql.compare (fun a b => a = b) (some row.outputKey) (some excluded.outputKey))
    (Sql.and3 (some (Jsonb.same row.payload.value excluded.payload.value))
    (Sql.and3 (Sql.isNotDistinctFrom row.tenantId excluded.tenantId)
    (Sql.and3 (some (Jsonb.same row.requirements excluded.requirements))
    (Sql.and3 (Sql.compare (fun a b => a = b) (some row.priority) (some excluded.priority))
    (Sql.and3 (Sql.compare (fun a b => a = b) (some row.attemptBudget)
      (some excluded.attemptBudget))
    (Sql.compare (fun a b => a = b) (some row.executionDeadlineSeconds)
      (some excluded.executionDeadlineSeconds))))))))))

/-- `status IN ('queued', 'processing')` -/
def active (row : PoolJobRow) : Sql.Truth :=
  Sql.isIn (some row.status) [some "queued", some "processing"]

/-- `job_id = $1 AND status = 'processing' AND claim_token = $2` -/
def underToken (jobId claimToken : String) (row : PoolJobRow) : Sql.Truth :=
  Sql.and3 (Sql.compare (fun a b => a = b) (some row.jobId) (some jobId))
    (Sql.and3 (Sql.compare (fun a b => a = b) (some row.status) (some "processing"))
      (Sql.compare (fun a b => a = b) row.claimToken (some claimToken)))

/-- `status = 'processing' AND lease_until < now() AND attempts >= attempt_budget` -/
def exhausted (now : DateTime) (row : PoolJobRow) : Sql.Truth :=
  Sql.and3 (Sql.compare (fun a b => a = b) (some row.status) (some "processing"))
    (Sql.and3 (Sql.compare (fun a b => a < b) row.leaseUntil (some now))
      (Sql.compare (fun a b => b ≤ a) (some row.attempts) (some row.attemptBudget)))

/-! The `SET` clauses. -/

def setCancelled (now : DateTime) (row : PoolJobRow) : PoolJobRow :=
  { row with
    status := "cancelled", cancelledAt := some now, claimToken := none, leasedBy := none,
    leaseUntil := none, updatedAt := now }

def setHeartbeat (now : DateTime) (leaseSeconds : Int) (progressPercent : Option Int)
    (row : PoolJobRow) : PoolJobRow :=
  { row with
    leaseUntil := some (now + seconds leaseSeconds),
    progressPercent := progressPercent <|> row.progressPercent, updatedAt := now }

def setCompleted (now : DateTime) (contentType sha256 : String) (byteLength : Int)
    (executionMetadata : List (String × JsonValue)) (row : PoolJobRow) : PoolJobRow :=
  { row with
    status := "completed", executedBy := row.leasedBy, executionMetadata := executionMetadata,
    outputContentType := some contentType, outputSha256 := some sha256,
    outputByteLength := some byteLength, error := none, claimToken := none, leasedBy := none,
    leaseUntil := none, updatedAt := now }

def setFailed (now : DateTime) (reason failureCode : String) (failureMessage : Option String)
    (retryable : Bool) (row : PoolJobRow) : PoolJobRow :=
  { row with
    status := "failed", error := some reason, failureCode := some failureCode,
    failureMessage := failureMessage, retryable := retryable, claimToken := none,
    leasedBy := none, leaseUntil := none, updatedAt := now }

def setReleased (now : DateTime) (reason : String) (row : PoolJobRow) : PoolJobRow :=
  { row with
    status := "queued", error := some reason, claimToken := none, leasedBy := none,
    leaseUntil := none, updatedAt := now }

def setExhausted (now : DateTime) (row : PoolJobRow) : PoolJobRow :=
  { row with
    status := "failed", error := some attemptBudgetExhausted,
    failureCode := some "temporary_failure", retryable := true, claimToken := none,
    leasedBy := none, leaseUntil := none, updatedAt := now }

/-- The row that a `SET` clause leaves; none of them names `job_id`. -/
def rewritten (set : PoolJobRow → PoolJobRow) (row : PoolJobRow) : PoolJobRow :=
  { set row with jobId := row.jobId }

theorem rewritten_jobId (set : PoolJobRow → PoolJobRow) (row : PoolJobRow) :
    (rewritten set row).jobId = row.jobId := rfl

/-- `ORDER BY created_at, job_id` -/
def listOrder (row other : PoolJobRow) : Prop :=
  row.createdAt < other.createdAt ∨ row.createdAt = other.createdAt ∧ row.jobId ≤ other.jobId

instance : DecidableRel listOrder := fun row other =>
  inferInstanceAs (Decidable (row.createdAt < other.createdAt ∨
    row.createdAt = other.createdAt ∧ row.jobId ≤ other.jobId))

end PoolJobRow

/-- The order in which `GROUP BY` returns its groups. -/
class GroupOrder where
  arrange : ∀ {α : Type}, List α → List α
  perm : ∀ {α : Type} (groups : List α), (arrange groups).Perm groups

namespace PoolJobs

/-- `INSERT … ON CONFLICT (idempotency_key) DO UPDATE … WHERE … RETURNING *, (xmax = 0)`. The index
of the conflict target is looked at before the primary key. -/
def insertOrKeep (t : PoolJobs) (excluded : PoolJobRow) :
    PoolJobs × Except PostgresExc (Option (PoolJobRow × Bool)) :=
  if !excluded.checks then (t, .error .checkViolation)
  else
    match t.rows.find? fun row => row.idempotencyKey = excluded.idempotencyKey with
    | some row =>
        if Sql.isTrue (row.sameRequest excluded) then
          let row := { row with idempotencyKey := excluded.idempotencyKey }
          (t.put row, .ok (some (row, false)))
        else (t, .ok none)
    | none =>
        match t.get? excluded.jobId with
        | some _ => (t, .error .uniqueViolation)
        | none => (t.put excluded, .ok (some (excluded, true)))

/-- `UPDATE pool_jobs SET … WHERE …` -/
def update (t : PoolJobs) (clause : PoolJobRow → Sql.Truth) (set : PoolJobRow → PoolJobRow) :
    PoolJobs × Nat :=
  Sql.update t clause (PoolJobRow.rewritten set) (PoolJobRow.rewritten_jobId set)

/-- The groups of the jobs that are not settled, by capability and status, with their sizes. -/
def groups [GroupOrder] (t : PoolJobs) : List ((String × String) × Nat) :=
  let unsettled := (t.rows.filter fun row => Sql.isTrue row.active).map fun row =>
    (row.capabilityId, row.status)
  GroupOrder.arrange (unsettled.dedup.map fun group => (group, unsettled.count group))

end PoolJobs

/-! ### The store -/

/-- `_execute`: whether the statement set one row, once its arguments are taken. -/
def PoolOwner.execute {τ α : Type} (t : τ) (arguments : Except PostgresExc α)
    (statement : α → τ × Nat) : τ × Except PostgresExc Bool :=
  match arguments with
  | .error error => (t, .error error)
  | .ok values => ((statement values).1, .ok ((statement values).2 = 1))

namespace PostgresJobStore

variable [PyText] [PyStr] [Sql.JsonbText] [UuidColumn] [Jsonb.FloatColumn] [GroupOrder]

/-- A row as the store returns it. -/
def recordOf (row : PoolJobRow) : Except PostgresExc JobRecord := row.record.mapError .unreadable

/-- What `submit` makes of the row that its statement returned. -/
def submitted (submission : JobSubmission) :
    Except PostgresExc (Option (PoolJobRow × Bool)) → Except PostgresExc SubmissionResult
  | .error error => .error error
  | .ok none => .error (.domain (.idempotencyConflict submission.idempotencyKey))
  | .ok (some (row, created)) => (recordOf row).map fun record => ⟨record, created⟩

def submit (t : PoolJobs) (now : DateTime) (submission : JobSubmission) :
    PoolJobs × Except PostgresExc SubmissionResult :=
  match validateJobSubmission submission with
  | .error error => (t, .error (.domain error))
  | .ok () =>
      match PoolJobRow.proposed now submission with
      | .error error => (t, .error error)
      | .ok excluded =>
          let (t', ended) := t.insertOrKeep excluded
          (t', submitted submission ended)

def get (t : PoolJobs) (jobId : String) : Except PostgresExc (Option JobRecord) := do
  let jobId ← uuidColumn jobId
  match t.get? jobId with
  | some row => (recordOf row).map some
  | none => .ok none

def listForTenant (t : PoolJobs) (tenantId : String) : Except PostgresExc (List JobRecord) := do
  let tenantId ← textColumn tenantId
  let rows := t.rows.filter fun row =>
    Sql.isTrue (Sql.compare (fun a b => a = b) row.tenantId (some tenantId))
  (rows.insertionSort PoolJobRow.listOrder).mapM recordOf

def cancel (t : PoolJobs) (now : DateTime) (jobId : String) : PoolJobs × Except PostgresExc Bool :=
  PoolOwner.execute t (uuidColumn jobId) fun jobId =>
    t.update (fun row => Sql.and3 (Sql.compare (fun a b => a = b) (some row.jobId) (some jobId))
      row.active) (PoolJobRow.setCancelled now)

/-- The arguments of the lease statement. -/
def leaseArguments (uuid4 : String) (query : LeaseQuery) : Except PostgresExc Unit := do
  query.capabilityIds.forM (passes textColumn)
  passes textColumn uuid4
  passes textColumn query.workerId
  passes integerColumn query.leaseSeconds
  passes (nullable textColumn) query.tenantId
  passes (nullable integerColumn) query.vramMb
  passes (nullable textColumn) query.gpuModel
  passes textsColumn query.labels
  discard (jsonbColumn (versionsValue query.runtimeVersions))

def lease (t : PoolJobs) (now : DateTime) (uuid4 : String) (query : LeaseQuery) :
    PoolJobs × Except PostgresExc (Option JobRecord) :=
  match leaseArguments uuid4 query with
  | .error error => (t, .error error)
  | .ok () =>
      let (t', row) := t.lease now uuid4 query
      (t', match row with
        | some row => (recordOf row).map some
        | none => .ok none)

/-- A statement of a call that presents a claim token. -/
def underToken (t : PoolJobs) (jobId claimToken : String)
    (set : Except PostgresExc (PoolJobRow → PoolJobRow)) : PoolJobs × Except PostgresExc Bool :=
  PoolOwner.execute t (do return (← uuidColumn jobId, ← textColumn claimToken, ← set)) fun values =>
    t.update (PoolJobRow.underToken values.1 values.2.1) values.2.2

/-- The constraint `progress_percent_range` is checked when the statement sets a row. -/
def heartbeat (t : PoolJobs) (now : DateTime) (jobId claimToken : String) (leaseSeconds : Int)
    (progressPercent : Option Int) : PoolJobs × Except PostgresExc Bool :=
  let (t', answer) := underToken t jobId claimToken do
    let leaseSeconds ← integerColumn leaseSeconds
    let progressPercent ← nullable integerColumn progressPercent
    return PoolJobRow.setHeartbeat now leaseSeconds progressPercent
  match answer with
  | .ok true =>
      if progressPercent.all fun percent => 0 ≤ percent && percent ≤ 100 then (t', .ok true)
      else (t, .error .checkViolation)
  | answer => (t', answer)

def complete (t : PoolJobs) (now : DateTime) (jobId claimToken contentType sha256 : String)
    (byteLength : Int) (executionMetadata : List (String × JsonValue)) :
    PoolJobs × Except PostgresExc Bool :=
  underToken t jobId claimToken do
    let contentType ← textColumn contentType
    let sha256 ← textColumn sha256
    let byteLength ← bigintColumn byteLength
    let executionMetadata ← membersColumn executionMetadata
    return PoolJobRow.setCompleted now contentType sha256 byteLength executionMetadata

def fail (t : PoolJobs) (now : DateTime) (jobId claimToken reason : String)
    (failureCode : JobFailureCode) (failureMessage : Option String) (retryable : Bool) :
    PoolJobs × Except PostgresExc Bool :=
  underToken t jobId claimToken do
    let reason ← textColumn reason
    let failureMessage ← nullable textColumn failureMessage
    return PoolJobRow.setFailed now reason failureCode.text failureMessage retryable

def release (t : PoolJobs) (now : DateTime) (jobId claimToken reason : String) :
    PoolJobs × Except PostgresExc Bool :=
  underToken t jobId claimToken do
    let reason ← textColumn reason
    return PoolJobRow.setReleased now reason

def expireExhausted (t : PoolJobs) (now : DateTime) : PoolJobs × Nat :=
  t.update (PoolJobRow.exhausted now) (PoolJobRow.setExhausted now)

/-- One row of the grouped statement. -/
def countGroup (depth : QueueDepth) (group : (String × String) × Nat) : QueueDepth :=
  let counts := (depth.byCapability.lookup group.1.1).getD {}
  if group.1.2 = "queued" then
    { depth with
      queued := depth.queued + group.2,
      byCapability := depth.byCapability.put (group.1.1, { counts with queued := group.2 }) }
  else
    { depth with
      processing := depth.processing + group.2,
      byCapability := depth.byCapability.put (group.1.1, { counts with processing := group.2 }) }

def queueDepth (t : PoolJobs) : QueueDepth := t.groups.foldl countGroup {}

end PostgresJobStore

/-- What a call on the Postgres store returns unless it raises. -/
def JobStoreCall.Value : JobStoreCall → Type
  | submit _ => SubmissionResult
  | get _ => Option JobRecord
  | listForTenant _ => List JobRecord
  | cancel _ => Bool
  | lease _ => Option JobRecord
  | heartbeat .. => Bool
  | complete .. => Bool
  | fail .. => Bool
  | release .. => Bool
  | expireExhausted => Nat
  | queueDepth => QueueDepth

namespace PostgresJobStore

variable [PyText] [PyStr] [Sql.JsonbText] [UuidColumn] [Jsonb.FloatColumn] [GroupOrder]

def exec (now : DateTime) (uuid4 : String) (t : PoolJobs) :
    (call : JobStoreCall) → PoolJobs × Except PostgresExc call.Value
  | .submit submission => submit t now submission
  | .get jobId => (t, get t jobId)
  | .listForTenant tenantId => (t, listForTenant t tenantId)
  | .cancel jobId => cancel t now jobId
  | .lease query => lease t now uuid4 query
  | .heartbeat jobId claimToken leaseSeconds progressPercent =>
      heartbeat t now jobId claimToken leaseSeconds progressPercent
  | .complete jobId claimToken contentType sha256 byteLength executionMetadata =>
      complete t now jobId claimToken contentType sha256 byteLength executionMetadata
  | .fail jobId claimToken reason failureCode failureMessage retryable =>
      fail t now jobId claimToken reason failureCode failureMessage retryable
  | .release jobId claimToken reason => release t now jobId claimToken reason
  | .expireExhausted => ((expireExhausted t now).1, .ok (expireExhausted t now).2)
  | .queueDepth => (t, .ok (queueDepth t))

end PostgresJobStore

end GpuWorkerPool
