import GpuWorkerPool.Base.Table
import GpuWorkerPool.Base.Json

/-!
The typed values a worker and the coordinator exchange, the durable rows, and the exceptions that
leave the coordinator. Times are microseconds since an epoch in UTC, durations are in seconds.
-/

namespace GpuWorkerPool

open Base

/-- An aware UTC instant, in microseconds. -/
abbrev DateTime := Int

/-- `timedelta(seconds=n)`. -/
def seconds (n : Int) : Int := n * 1000000

abbrev JobPayload := JsonObject

def maxJobIdLength : Nat := 255
def maxAssetKeyLength : Nat := 1024
def maxJobInputKeys : Nat := 16
def maxJobPayloadBytes : Nat := 16384
def maxJobPayloadDepth : Nat := 8
def minJobPriority : Int := 0
def maxJobPriority : Int := 1000
def minJobAttemptBudget : Int := 1
def maxJobAttemptBudget : Int := 20
def minExecutionDeadlineSeconds : Int := 60
def maxExecutionDeadlineSeconds : Int := 7200
def maxCapabilityIdLength : Nat := 128
def maxJobRequirementEntries : Nat := 16
def maxRequirementValueLength : Nat := 128
def maxRequirementVramMb : Int := 1000000
def maxAuditReasonLength : Nat := 300
def poolWorkerOnlineWindowSeconds : Int := 90
def poolWorkerVisibilityWindowSeconds : Int := 24 * 60 * 60

def publicationModeImmutableCreateOnce : String := "immutable_create_once"
def attemptBudgetExhausted : String := "attempt budget exhausted"
def defaultReadPrefixes : List String := ["inputs/", "outputs/"]
def defaultOutputPrefixes : List String := ["outputs/"]

inductive JobStatus where
  | queued
  | processing
  | completed
  | failed
  | cancelled
  deriving DecidableEq, Repr

/-- `COMPLETED`, `FAILED` and `CANCELLED`. -/
def JobStatus.terminal : JobStatus → Bool
  | .queued | .processing => false
  | .completed | .failed | .cancelled => true

inductive JobFailureCode where
  | invalidInput
  | unsupportedOperation
  | providerUnavailable
  | temporaryFailure
  deriving DecidableEq, Repr

def JobFailureCode.text : JobFailureCode → String
  | .invalidInput => "invalid_input"
  | .unsupportedOperation => "unsupported_operation"
  | .providerUnavailable => "provider_unavailable"
  | .temporaryFailure => "temporary_failure"

/-- What a worker must offer before it may lease the job; empty means any worker. -/
structure JobRequirements where
  minVramMb : Option Int
  gpuModels : List String
  labels : List String
  workerIds : List String
  runtimeVersions : Dict String String

def JobRequirements.none : JobRequirements := ⟨.none, [], [], [], Table.empty⟩

/-- `==` of two requirements: the dictionary is compared without its order. -/
def JobRequirements.pyEq (r q : JobRequirements) : Bool :=
  r.minVramMb = q.minVramMb && r.gpuModels = q.gpuModels && r.labels = q.labels &&
    r.workerIds = q.workerIds && r.runtimeVersions.same q.runtimeVersions

/-- One unit of pool work as a host submits it. -/
structure JobSubmission where
  jobId : String
  idempotencyKey : String
  capabilityId : String
  inputKeys : List String
  outputKey : String
  contractVersion : Int := 1
  payload : JobPayload := JsonObject.empty
  tenantId : Option String := none
  requirements : JobRequirements := JobRequirements.none
  priority : Int := 100
  attemptBudget : Int := 5
  executionDeadlineSeconds : Int := 1200

/-- The durable row for one pool job. `claimToken` is the lease fencing secret. -/
structure JobRecord where
  jobId : String
  idempotencyKey : String
  capabilityId : String
  status : JobStatus
  inputKeys : List String
  outputKey : String
  attempts : Int
  createdAt : DateTime
  updatedAt : DateTime
  contractVersion : Int
  payload : JobPayload
  tenantId : Option String
  requirements : JobRequirements
  priority : Int
  attemptBudget : Int
  executionDeadlineSeconds : Int
  requestDigest : String
  claimToken : Option String := none
  leasedBy : Option String := none
  executedBy : Option String := none
  executionMetadata : List (String × JsonValue) := []
  leaseUntil : Option DateTime := none
  outputContentType : Option String := none
  outputSha256 : Option String := none
  outputByteLength : Option Int := none
  error : Option String := none
  failureCode : Option JobFailureCode := none
  failureMessage : Option String := none
  retryable : Bool := false
  progressPercent : Option Int := none
  cancelledAt : Option DateTime := none

structure SubmissionResult where
  record : JobRecord
  created : Bool

structure AssetDescriptor where
  key : String
  size : Int
  contentType : Option String

inductive WorkerStatus where
  | active
  | draining
  | revoked
  deriving DecidableEq, Repr

def WorkerStatus.text : WorkerStatus → String
  | .active => "active"
  | .draining => "draining"
  | .revoked => "revoked"

inductive CostClass where
  | «local»
  | hosted
  | premium
  deriving DecidableEq, Repr

inductive AuditEventType where
  | workerHeartbeat
  | workerStatusChanged
  | workerRevoked
  | leaseGranted
  | leaseEmpty
  | jobHeartbeat
  | jobCompleted
  | jobFailed
  | jobReleased
  | completionRejected
  | authRejected
  | rateLimited
  deriving DecidableEq, Repr

structure WorkerCapability where
  capabilityId : String
  pluginId : String
  pluginVersion : String
  concurrency : Int := 1
  deriving DecidableEq

/-- One GPU's utilization and memory as a worker samples it. -/
structure GpuTelemetry where
  index : Int
  name : String
  utilizationPct : Option Int
  memoryUsedMb : Option Int
  memoryTotalMb : Option Int
  deriving DecidableEq

/-- What an agent advertises on every heartbeat. -/
structure WorkerRegistration where
  workerId : String
  capabilities : List WorkerCapability
  tenantId : Option String := none
  gpuModel : Option String := none
  vramMb : Option Int := none
  runtimeVersions : Dict String String := Table.empty
  costClass : CostClass := .local
  labels : List String := []
  activeLeases : Int := 0
  draining : Bool := false
  gpus : List GpuTelemetry := []
  busyJobId : Option String := none

/-- The durable registry row for one worker. -/
structure WorkerRecord where
  workerId : String
  identitySubject : String
  status : WorkerStatus
  capabilities : List WorkerCapability
  gpuModel : Option String
  vramMb : Option Int
  runtimeVersions : Dict String String
  costClass : CostClass
  labels : List String
  activeLeases : Int
  lastHeartbeatAt : Option DateTime
  createdAt : DateTime
  updatedAt : DateTime
  revokedAt : Option DateTime := none
  gpus : List GpuTelemetry := []
  busyJobId : Option String := none
  tenantId : Option String := none

def WorkerRecord.capabilityIds (w : WorkerRecord) : List String :=
  w.capabilities.map WorkerCapability.capabilityId

inductive PoolWorkerStatus where
  | busy
  | draining
  | online
  | offline
  deriving DecidableEq, Repr

/-- One row of `GET /pool/workers`: a worker's derived status plus telemetry. -/
structure PoolWorkerView where
  workerId : String
  status : PoolWorkerStatus
  lastHeartbeatAt : Option DateTime
  capabilityIds : List String
  gpus : List GpuTelemetry
  busyJobId : Option String
  draining : Bool
  tenantId : Option String
  gpuModel : Option String
  vramMb : Option Int
  runtimeVersions : Dict String String

structure CapabilityQueueDepth where
  queued : Nat := 0
  processing : Nat := 0
  deriving DecidableEq

/-- Bounded counts, never a job listing. -/
structure QueueDepth where
  queued : Nat := 0
  processing : Nat := 0
  byCapability : Dict String CapabilityQueueDepth := Table.empty
  onlineWorkersByCapability : Dict String Nat := Table.empty

/-- The authenticated principal behind one request. -/
structure WorkerIdentity where
  workerId : String
  subject : String
  method : String
  deriving DecidableEq

structure AuditEvent where
  eventType : AuditEventType
  workerId : Option String
  jobId : Option String
  detail : List (String × JsonValue)
  createdAt : DateTime

/-- A short-lived, exact-object, single-method signed URL. -/
structure AssetGrant where
  key : String
  url : String
  method : String
  expiresAt : DateTime
  contentType : Option String := none

/-- Everything a worker receives for one leased job. -/
structure LeaseGrant where
  jobId : String
  claimToken : String
  leaseUntil : DateTime
  executionDeadlineSeconds : Int
  capabilityId : String
  contractVersion : Int
  requestDigest : String
  idempotencyKey : String
  inputKeys : List String
  outputKey : String
  payload : JobPayload
  inputGrants : List AssetGrant
  outputGrant : AssetGrant
  tenantId : Option String := none

/-- What a worker attests when it commits a result. -/
structure OutputManifest where
  outputKey : String
  contentType : String
  byteLength : Int
  sha256 : String
  idempotencyKey : String
  requestDigest : String
  pluginId : String
  pluginVersion : String
  modelId : String
  modelVersion : String
  publicationMode : String
  seed : Option Int := none
  diagnostics : JobPayload := JsonObject.empty

/-- The exceptions that leave a store, the coordinator or a transfer, with what their messages
carry. `unavailable` is any failure of a backing service, such as `AssetStorageUnavailable`. -/
inductive Exc where
  | valueError (text : String)
  | idempotencyConflict (key : String)
  | profileNotQualified (reason : String)
  | workerAuthError (text : String)
  | workerIdentityMismatch (workerId : String)
  | identitySubjectTaken (subject : String)
  | workerTenantMismatch (workerId : String)
  | workerRevoked (workerId : String)
  | workerMismatch (text : String)
  | workerNotRegistered (workerId : String)
  | jobNotFound (jobId : String)
  | staleLease (jobId : String)
  | completionRejected (reason : String)
  | assetNotFound (key : String)
  | assetTooLarge (key : String) (maxBytes actualBytes : Int)
  | transferError (text : String)
  | unavailable (text : String)
  | rateLimited (text : String)
  | workerAuthBusy (text : String)
  | cancelledError
  deriving DecidableEq, Repr

end GpuWorkerPool
