import GpuWorkerPool.Admission
import GpuWorkerPool.World

/-!
`WorkerPoolService`: each method is a coroutine that awaits the stores, the audit log and the clock
one action at a time, in the order of the source. Authentication has happened before: a method
starts from the identity of the worker.
-/

namespace GpuWorkerPool

open Base

/-- A coroutine of the coordinator or of a worker. -/
abbrev Coroutine := Prog Action Action.Reply Exc

namespace WorkerPoolService

/-! ### Awaits -/

def jobStore (call : JobStoreCall) : Coroutine call.Reply := .await (.jobs call) .ret

def assetStore (call : AssetStoreCall) : Coroutine call.Value := .await (.assets call) Prog.ofExcept

def workerRegistry (call : RegistryCall) : Coroutine call.Reply := .await (.registry call) .ret

def recordAudit (eventType : AuditEventType) (workerId jobId : Option String)
    (detail : List (String × JsonValue)) : Coroutine Unit :=
  .await (.audit eventType workerId jobId detail) Prog.ofExcept

def readClock : Coroutine DateTime := .await .clock .ret

/-! ### Calls of the host -/

/-- `_without_claim_token` -/
def withoutClaimToken (record : JobRecord) : JobRecord := { record with claimToken := none }

def submit (cfg : ServiceConfig) (submission : JobSubmission) : Coroutine JobRecord :=
  match unqualifiedReason cfg.unqualified [submission.capabilityId]
      submission.requirements.runtimeVersions with
  | some reason => throw (.profileNotQualified reason)
  | none => do
      let reply : Except Exc SubmissionResult ← jobStore (.submit submission)
      let result ← Prog.ofExcept reply
      pure (withoutClaimToken result.record)

def get (jobId : String) : Coroutine (Option JobRecord) := do
  let record : Option JobRecord ← jobStore (.get jobId)
  pure (record.map withoutClaimToken)

def cancel (jobId : String) : Coroutine Bool := jobStore (.cancel jobId)

def listForTenant (tenantId : String) : Coroutine (List JobRecord) := do
  let records : List JobRecord ← jobStore (.listForTenant tenantId)
  pure (records.map withoutClaimToken)

def setWorkerStatus (workerId : String) (status : WorkerStatus) : Coroutine Bool := do
  let changed : Bool ← workerRegistry (.setStatus workerId status)
  if changed then
    recordAudit .workerStatusChanged workerId none [("status", .str status.text)]
    if status = .revoked then
      recordAudit .workerRevoked workerId none []
      pure true
    else pure true
  else pure false

def listWorkers : Coroutine (List WorkerRecord) := workerRegistry .list

/-- Seconds since the worker's last heartbeat are within the window. -/
def heardWithin (now lastHeartbeatAt : DateTime) (window : Int) : Bool :=
  now - lastHeartbeatAt ≤ seconds window

/-- One row of `worker_views`, or nothing for a worker that is not shown. -/
def workerView? (now : DateTime) (onlineWindow visibilityWindow : Int) (w : WorkerRecord) :
    Option PoolWorkerView :=
  match w.lastHeartbeatAt with
  | none => none
  | some lastHeartbeatAt =>
      if w.status = .revoked || !heardWithin now lastHeartbeatAt visibilityWindow then none
      else
        let draining := decide (w.status = .draining)
        some {
          workerId := w.workerId,
          status :=
            if w.busyJobId.isSome then .busy
            else if draining then .draining
            else if heardWithin now lastHeartbeatAt onlineWindow then .online
            else .offline,
          lastHeartbeatAt := w.lastHeartbeatAt, capabilityIds := w.capabilityIds, gpus := w.gpus,
          busyJobId := w.busyJobId, draining := draining, tenantId := w.tenantId,
          gpuModel := w.gpuModel, vramMb := w.vramMb, runtimeVersions := w.runtimeVersions }

def workerViews (tenantId : Option String) (onlineWindow visibilityWindow : Int) :
    Coroutine (List PoolWorkerView) := do
  let now ← readClock
  let records : List WorkerRecord ←
    match tenantId with
    | none => workerRegistry .list
    | some tenant => workerRegistry (.listByTenant (some tenant))
  pure (records.filterMap (workerView? now onlineWindow visibilityWindow))

/-- One row of the online counts of `queue_depth`. -/
def countOnline (now : DateTime) (online : Dict String Nat) (w : WorkerRecord) :
    Dict String Nat :=
  match w.lastHeartbeatAt with
  | none => online
  | some lastHeartbeatAt =>
      if w.status = .revoked || !heardWithin now lastHeartbeatAt poolWorkerOnlineWindowSeconds then
        online
      else
        w.capabilityIds.foldl (fun counts capabilityId =>
          counts.put (capabilityId, (Dict.lookup counts capabilityId).getD 0 + 1)) online

def queueDepth : Coroutine QueueDepth := do
  let depth : QueueDepth ← jobStore .queueDepth
  let now ← readClock
  let records : List WorkerRecord ← workerRegistry .list
  pure { depth with
    onlineWorkersByCapability := records.foldl (countOnline now) depth.onlineWorkersByCapability }

def auditForJob (jobId : String) : Coroutine (List AuditEvent) := .await (.auditForJob jobId) .ret

def enrollWorker (workerId : String) (enrollment : WorkerEnrollment) : Coroutine WorkerRecord := do
  Prog.ofExcept (validateEnrollment workerId)
  let existing : Option WorkerRecord ← workerRegistry (.get workerId)
  match existing with
  | some existing =>
      if existing.identitySubject ≠ enrollment.identitySubject then
        throw (.workerIdentityMismatch workerId)
      else if existing.tenantId ≠ enrollment.tenantId then throw (.workerTenantMismatch workerId)
      else pure existing
  | none => do
      let reply : Except Exc WorkerRecord ← workerRegistry (.upsert
        { workerId := workerId, capabilities := [], tenantId := enrollment.tenantId }
        enrollment.identitySubject)
      Prog.ofExcept reply

/-! ### Calls of a worker -/

/-- `_approved_enrollment` -/
def approvedEnrollment (cfg : ServiceConfig) (identity : WorkerIdentity) :
    Coroutine WorkerEnrollment := do
  let record : Option WorkerRecord ← workerRegistry (.get identity.workerId)
  match record with
  | some record =>
      if record.identitySubject ≠ identity.subject then
        throw (.workerIdentityMismatch identity.workerId)
      else if record.status = .revoked then throw (.workerRevoked identity.workerId)
      else Prog.ofExcept (WorkerEnrollment.new record.identitySubject record.tenantId)
  | none =>
      match cfg.enrollments.lookup identity.workerId with
      | some enrollment =>
          if enrollment.identitySubject ≠ identity.subject then
            throw (.workerAuthError "worker has no approved enrollment")
          else pure enrollment
      | none => throw (.workerAuthError "worker has no approved enrollment")

/-- `IdentitySubjectTaken` leaves as `WorkerMismatch`. -/
def registrationError (identity : WorkerIdentity) : Exc → Exc
  | .identitySubjectTaken _ => .workerMismatch identity.subject
  | error => error

def registerHeartbeat (cfg : ServiceConfig) (identity : WorkerIdentity)
    (registration : WorkerRegistration) : Coroutine WorkerRecord :=
  if registration.workerId ≠ identity.workerId then
    throw (.workerMismatch registration.workerId)
  else do
    let enrollment ← approvedEnrollment cfg identity
    if registration.tenantId ≠ enrollment.tenantId then
      throw (.workerTenantMismatch registration.workerId)
    else
      let capabilityIds := registration.capabilities.map WorkerCapability.capabilityId
      Prog.ofExcept (requireAll validateCapabilityId capabilityIds)
      match unqualifiedReason cfg.unqualified capabilityIds registration.runtimeVersions with
      | some reason => throw (.profileNotQualified reason)
      | none => do
          let reply : Except Exc WorkerRecord ← workerRegistry
            (.upsert { registration with tenantId := enrollment.tenantId } identity.subject)
          let record ← Prog.ofExcept (reply.mapError (registrationError identity))
          recordAudit .workerHeartbeat record.workerId none
            [("capabilities", .int registration.capabilities.length),
              ("draining", .bool registration.draining)]
          pure record

/-- The requested capabilities a worker may be given. -/
def effectiveCapabilities (cfg : ServiceConfig) (worker : WorkerRecord)
    (capabilityIds : List String) : List String :=
  capabilityIds.filter fun capabilityId =>
    capabilityId ∈ worker.capabilityIds && !decide (capabilityId ∈ cfg.unqualified.capabilityIds)

def leaseQuery (worker : WorkerRecord) (identity : WorkerIdentity) (effective : List String)
    (leaseSeconds : Int) : LeaseQuery where
  workerId := identity.workerId
  capabilityIds := effective
  leaseSeconds := leaseSeconds
  tenantId := worker.tenantId
  vramMb := worker.vramMb
  gpuModel := worker.gpuModel
  labels := worker.labels
  runtimeVersions := worker.runtimeVersions

def readGrants (expiresAt : DateTime) : List String → Coroutine (List AssetGrant)
  | [] => pure []
  | inputKey :: rest => do
      let url : String ← assetStore (.createReadUrl inputKey)
      let grants ← readGrants expiresAt rest
      pure ({ key := inputKey, url := url, method := "GET", expiresAt := expiresAt } :: grants)

/-- What `lease` does with the job it claimed. -/
def grantLease (cfg : ServiceConfig) (identity : WorkerIdentity) (leaseSeconds : Int)
    (job : JobRecord) : Coroutine (Option LeaseGrant) :=
  match job.claimToken with
  | none => throw (.staleLease job.jobId)
  | some claimToken => do
      let now ← readClock
      let expiresAt := now + seconds cfg.grantTtlSeconds
      let inputGrants ← readGrants expiresAt job.inputKeys
      let url : String ← assetStore (.createOutputUploadUrl job.outputKey outputUploadContentType)
      recordAudit .leaseGranted identity.workerId job.jobId
        [("attempt", .int job.attempts), ("capability_id", .str job.capabilityId)]
      pure (some {
        jobId := job.jobId, claimToken := claimToken, leaseUntil := now + seconds leaseSeconds,
        executionDeadlineSeconds := job.executionDeadlineSeconds,
        capabilityId := job.capabilityId, contractVersion := job.contractVersion,
        requestDigest := job.requestDigest, idempotencyKey := job.idempotencyKey,
        inputKeys := job.inputKeys, outputKey := job.outputKey, payload := job.payload,
        inputGrants := inputGrants,
        outputGrant := {
          key := job.outputKey, url := url, method := "PUT", expiresAt := expiresAt,
          contentType := some outputUploadContentType },
        tenantId := job.tenantId })

/-- What `lease` does for a worker that may lease some capability. -/
def claimJob (cfg : ServiceConfig) (identity : WorkerIdentity) (worker : WorkerRecord)
    (effective : List String) (leaseSeconds : Int) : Coroutine (Option LeaseGrant) := do
  let _expired : Nat ← jobStore .expireExhausted
  let job : Option JobRecord ← jobStore (.lease (leaseQuery worker identity effective leaseSeconds))
  match job with
  | none => do
      recordAudit .leaseEmpty identity.workerId none []
      pure none
  | some job => grantLease cfg identity leaseSeconds job

/-- What `lease` does for an approved identity. -/
def leaseApproved (cfg : ServiceConfig) (identity : WorkerIdentity) (capabilityIds : List String)
    (leaseSeconds : Option Int) : Coroutine (Option LeaseGrant) := do
  let worker : Option WorkerRecord ← workerRegistry (.get identity.workerId)
  match worker with
  | none => throw (.workerNotRegistered identity.workerId)
  | some worker =>
      let effective := effectiveCapabilities cfg worker capabilityIds
      if worker.status = .draining then pure none
      else if (unqualifiedReason cfg.unqualified [] worker.runtimeVersions).isSome then pure none
      else if effective.isEmpty then pure none
      else claimJob cfg identity worker effective (leaseSeconds.getD cfg.defaultLeaseSeconds)

def lease (cfg : ServiceConfig) (identity : WorkerIdentity) (capabilityIds : List String)
    (leaseSeconds : Option Int) : Coroutine (Option LeaseGrant) := do
  let _enrollment ← approvedEnrollment cfg identity
  leaseApproved cfg identity capabilityIds leaseSeconds

/-- `_owned_job` -/
def ownedJob (cfg : ServiceConfig) (identity : WorkerIdentity) (jobId : String) :
    Coroutine JobRecord := do
  let _enrollment ← approvedEnrollment cfg identity
  let record : Option JobRecord ← jobStore (.get jobId)
  match record with
  | none => throw (.jobNotFound jobId)
  | some record =>
      if record.leasedBy ≠ some identity.workerId ∨ record.status ≠ .processing then
        throw (.staleLease jobId)
      else pure record

def jobHeartbeat (cfg : ServiceConfig) (identity : WorkerIdentity) (jobId claimToken : String)
    (progressPercent : Option Int) : Coroutine DateTime := do
  let record ← ownedJob cfg identity jobId
  let accepted : Bool ← jobStore
    (.heartbeat record.jobId claimToken cfg.defaultLeaseSeconds progressPercent)
  if accepted then
    recordAudit .jobHeartbeat identity.workerId record.jobId
      [("progress_percent", (progressPercent.map JsonValue.int).getD .null)]
    let now ← readClock
    pure (now + seconds cfg.defaultLeaseSeconds)
  else throw (.staleLease jobId)

/-- `_verify_output` -/
def verifyOutput (cfg : ServiceConfig) (record : JobRecord) (manifest : OutputManifest) :
    Coroutine Unit :=
  match manifestProblem cfg record manifest with
  | some reason => throw (.completionRejected reason)
  | none => do
      let descriptor : Option AssetDescriptor ← assetStore (.describe record.outputKey)
      match descriptor with
      | none => throw (.completionRejected "output_missing")
      | some descriptor =>
          if descriptor.size ≠ manifest.byteLength then
            throw (.completionRejected "byte_length_mismatch")
          else if manifest.byteLength > cfg.maxVerifyBytes then
            throw (.completionRejected "output_too_large")
          else do
            let content : ByteArray ← assetStore
              (.readLimited record.outputKey cfg.maxVerifyBytes)
            if sha256Hex content ≠ manifest.sha256 then
              throw (.completionRejected "sha256_mismatch")
            else pure ()

/-- The handler of a rejected output in `complete`; any other exception passes through. -/
def rejectCompletion (identity : WorkerIdentity) (record : JobRecord) (claimToken : String) :
    Exc → Coroutine Unit
  | .completionRejected reason => do
      let _accepted : Bool ← jobStore
        (.fail record.jobId claimToken reason .invalidInput none false)
      recordAudit .completionRejected identity.workerId record.jobId [("reason", .str reason)]
      throw (.completionRejected reason)
  | error => throw error

def executionMetadata (manifest : OutputManifest) : List (String × JsonValue) :=
  [("model_id", .str manifest.modelId), ("model_version", .str manifest.modelVersion),
    ("plugin_id", .str manifest.pluginId), ("plugin_version", .str manifest.pluginVersion),
    ("seed", (manifest.seed.map JsonValue.int).getD .null),
    ("diagnostics", manifest.diagnostics.value)]

def complete (cfg : ServiceConfig) (identity : WorkerIdentity) (jobId claimToken : String)
    (manifest : OutputManifest) : Coroutine Unit := do
  let record ← ownedJob cfg identity jobId
  (verifyOutput cfg record manifest).handle (rejectCompletion identity record claimToken)
  let accepted : Bool ← jobStore (.complete record.jobId claimToken manifest.contentType
    manifest.sha256 manifest.byteLength (executionMetadata manifest))
  if accepted then
    recordAudit .jobCompleted identity.workerId record.jobId
      [("byte_length", .int manifest.byteLength), ("sha256", .str manifest.sha256),
        ("plugin_id", .str manifest.pluginId), ("plugin_version", .str manifest.pluginVersion)]
  else throw (.staleLease jobId)

/-- `reason[:MAX_AUDIT_REASON_LENGTH]` -/
def auditReason (reason : String) : JsonValue :=
  .str (String.ofList (reason.toList.take maxAuditReasonLength))

def fail (cfg : ServiceConfig) (identity : WorkerIdentity) (jobId claimToken reason : String)
    (retryable : Bool) (failureCode : JobFailureCode) : Coroutine Unit := do
  let record ← ownedJob cfg identity jobId
  let accepted : Bool ← jobStore
    (.fail record.jobId claimToken reason failureCode none retryable)
  if accepted then
    recordAudit .jobFailed identity.workerId record.jobId
      [("reason", auditReason reason), ("retryable", .bool retryable),
        ("failure_code", .str failureCode.text)]
  else throw (.staleLease jobId)

def release (cfg : ServiceConfig) (identity : WorkerIdentity) (jobId claimToken reason : String) :
    Coroutine Unit := do
  let record ← ownedJob cfg identity jobId
  if record.attemptBudget ≤ record.attempts then
    let accepted : Bool ← jobStore
      (.fail record.jobId claimToken reason .temporaryFailure none true)
    if accepted then
      recordAudit .jobFailed identity.workerId record.jobId
        [("reason", auditReason reason), ("retryable", .bool true),
          ("failure_code", .str JobFailureCode.temporaryFailure.text),
          ("budget_exhausted", .bool true)]
    else throw (.staleLease jobId)
  else
    let accepted : Bool ← jobStore (.release record.jobId claimToken reason)
    if accepted then
      recordAudit .jobReleased identity.workerId record.jobId [("reason", auditReason reason)]
    else throw (.staleLease jobId)

end WorkerPoolService

end GpuWorkerPool
