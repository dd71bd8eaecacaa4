import GpuWorkerPool.Service

/-!
The coordinator as a server: the requests of hosts and workers, the coroutine that answers each,
and the transfer by which a worker uploads its output before it attests it. `Request.JobCalls` says
which operations of the job store a request can await, whatever the replies.
-/

namespace GpuWorkerPool

open Base WorkerPoolService

/-! ### Uploading an output -/

/-- The artifact of one execution, with the bytes of its file. -/
structure PluginOutput where
  content : ByteArray
  contentType : String
  modelId : String
  modelVersion : String
  seed : Option Int := none
  diagnostics : JobPayload := JsonObject.empty

/-- `_grant_key` -/
def grantKey (url urlPrefix : String) : Except Exc String :=
  if urlPrefix.toList.isPrefixOf url.toList then
    .ok (String.ofList (url.toList.drop urlPrefix.toList.length))
  else .error (.transferError "asset grant is not addressable in memory")

/-- `MemoryAssetTransfer.upload`: that the object existed already is not an error. -/
def upload (url : String) (content : ByteArray) (contentType : String) : Coroutine Unit := do
  let key ← Prog.ofExcept (grantKey url memoryUploadPrefix)
  let _created : Bool ← assetStore (.writeOnce key content contentType)
  pure ()

/-- `lease.output_grant.content_type or output.content_type` -/
def uploadContentType (grant : AssetGrant) (output : PluginOutput) : String :=
  match grant.contentType with
  | some contentType => if contentType = "" then output.contentType else contentType
  | none => output.contentType

/-- The manifest an agent attests: keys and digests of its lease, size and digest of its file. -/
def outputManifest (capability : WorkerCapability) (lease : LeaseGrant) (output : PluginOutput) :
    OutputManifest where
  outputKey := lease.outputKey
  contentType := output.contentType
  byteLength := output.content.size
  sha256 := sha256Hex output.content
  idempotencyKey := lease.idempotencyKey
  requestDigest := lease.requestDigest
  pluginId := capability.pluginId
  pluginVersion := capability.pluginVersion
  modelId := output.modelId
  modelVersion := output.modelVersion
  publicationMode := publicationModeImmutableCreateOnce
  seed := output.seed
  diagnostics := output.diagnostics

/-- An honest attempt at its end: it uploads its file and completes the job with it. -/
def publish (cfg : ServiceConfig) (identity : WorkerIdentity) (capability : WorkerCapability)
    (lease : LeaseGrant) (output : PluginOutput) : Coroutine Unit := do
  upload lease.outputGrant.url output.content (uploadContentType lease.outputGrant output)
  complete cfg identity lease.jobId lease.claimToken (outputManifest capability lease output)

/-! ### Requests -/

inductive Request where
  | submit (submission : JobSubmission)
  | get (jobId : String)
  | cancel (jobId : String)
  | listForTenant (tenantId : String)
  | setWorkerStatus (workerId : String) (status : WorkerStatus)
  | listWorkers
  | workerViews (tenantId : Option String) (onlineWindow visibilityWindow : Int)
  | queueDepth
  | auditForJob (jobId : String)
  | enrollWorker (workerId : String) (enrollment : WorkerEnrollment)
  | registerHeartbeat (identity : WorkerIdentity) (registration : WorkerRegistration)
  | lease (identity : WorkerIdentity) (capabilityIds : List String) (leaseSeconds : Option Int)
  | jobHeartbeat (identity : WorkerIdentity) (jobId claimToken : String)
      (progressPercent : Option Int)
  | complete (identity : WorkerIdentity) (jobId claimToken : String) (manifest : OutputManifest)
  | fail (identity : WorkerIdentity) (jobId claimToken reason : String) (retryable : Bool)
      (failureCode : JobFailureCode)
  | release (identity : WorkerIdentity) (jobId claimToken reason : String)
  | upload (url : String) (content : ByteArray) (contentType : String)
  | publish (identity : WorkerIdentity) (capability : WorkerCapability) (lease : LeaseGrant)
      (output : PluginOutput)

inductive Response where
  | job (record : Option JobRecord)
  | jobs (records : List JobRecord)
  | changed (done : Bool)
  | worker (record : WorkerRecord)
  | workers (records : List WorkerRecord)
  | workerViews (views : List PoolWorkerView)
  | depth (depth : QueueDepth)
  | audit (events : List AuditEvent)
  | grant (lease : Option LeaseGrant)
  | leaseUntil (instant : DateTime)
  | done

namespace Request

def program (cfg : ServiceConfig) : Request → Coroutine Response
  | submit submission => do
      let record ← WorkerPoolService.submit cfg submission
      pure (.job (some record))
  | get jobId => do
      let record ← WorkerPoolService.get jobId
      pure (.job record)
  | cancel jobId => do
      let done ← WorkerPoolService.cancel jobId
      pure (.changed done)
  | listForTenant tenantId => do
      let records ← WorkerPoolService.listForTenant tenantId
      pure (.jobs records)
  | setWorkerStatus workerId status => do
      let done ← WorkerPoolService.setWorkerStatus workerId status
      pure (.changed done)
  | listWorkers => do
      let records ← WorkerPoolService.listWorkers
      pure (.workers records)
  | workerViews tenantId onlineWindow visibilityWindow => do
      let views ← WorkerPoolService.workerViews tenantId onlineWindow visibilityWindow
      pure (.workerViews views)
  | queueDepth => do
      let depth ← WorkerPoolService.queueDepth
      pure (.depth depth)
  | auditForJob jobId => do
      let events ← WorkerPoolService.auditForJob jobId
      pure (.audit events)
  | enrollWorker workerId enrollment => do
      let record ← WorkerPoolService.enrollWorker workerId enrollment
      pure (.worker record)
  | registerHeartbeat identity registration => do
      let record ← WorkerPoolService.registerHeartbeat cfg identity registration
      pure (.worker record)
  | lease identity capabilityIds leaseSeconds => do
      let grant ← WorkerPoolService.lease cfg identity capabilityIds leaseSeconds
      pure (.grant grant)
  | jobHeartbeat identity jobId claimToken progressPercent => do
      let instant ← WorkerPoolService.jobHeartbeat cfg identity jobId claimToken progressPercent
      pure (.leaseUntil instant)
  | complete identity jobId claimToken manifest => do
      WorkerPoolService.complete cfg identity jobId claimToken manifest
      pure .done
  | fail identity jobId claimToken reason retryable failureCode => do
      WorkerPoolService.fail cfg identity jobId claimToken reason retryable failureCode
      pure .done
  | release identity jobId claimToken reason => do
      WorkerPoolService.release cfg identity jobId claimToken reason
      pure .done
  | upload url content contentType => do
      GpuWorkerPool.upload url content contentType
      pure .done
  | publish identity capability grant output => do
      GpuWorkerPool.publish cfg identity capability grant output
      pure .done

/-- The claim token that a request presents. -/
def claimToken? : Request → Option String
  | jobHeartbeat _ _ claimToken _ => some claimToken
  | complete _ _ claimToken _ => some claimToken
  | fail _ _ claimToken _ _ _ => some claimToken
  | release _ _ claimToken _ => some claimToken
  | publish _ _ grant _ => some grant.claimToken
  | _ => none

/-- The operations of the job store that a request can await. -/
def JobCalls (cfg : ServiceConfig) : Request → JobStoreCall → Prop
  | submit submission, call =>
      call = .submit submission ∧ unqualifiedReason cfg.unqualified [submission.capabilityId]
        submission.requirements.runtimeVersions = none
  | get jobId, call => call = .get jobId
  | cancel jobId, call => call = .cancel jobId
  | listForTenant tenantId, call => call = .listForTenant tenantId
  | setWorkerStatus _ _, _ => False
  | listWorkers, _ => False
  | workerViews .., _ => False
  | queueDepth, call => call = .queueDepth
  | auditForJob _, _ => False
  | enrollWorker _ _, _ => False
  | registerHeartbeat _ _, _ => False
  | lease identity _ leaseSeconds, call =>
      call = .expireExhausted ∨ ∃ query, call = .lease query ∧ query.workerId = identity.workerId ∧
        query.leaseSeconds = leaseSeconds.getD cfg.defaultLeaseSeconds
  | jobHeartbeat _ jobId claimToken progressPercent, call =>
      call = .get jobId ∨
        ∃ j, call = .heartbeat j claimToken cfg.defaultLeaseSeconds progressPercent
  | complete _ jobId claimToken manifest, call =>
      call = .get jobId ∨ (∃ j reason, call = .fail j claimToken reason .invalidInput none false) ∨
        ∃ j, call = .complete j claimToken manifest.contentType manifest.sha256 manifest.byteLength
          (executionMetadata manifest)
  | fail _ jobId claimToken reason retryable failureCode, call =>
      call = .get jobId ∨ ∃ j, call = .fail j claimToken reason failureCode none retryable
  | release _ jobId claimToken reason, call =>
      call = .get jobId ∨ (∃ j, call = .fail j claimToken reason .temporaryFailure none true) ∨
        ∃ j, call = .release j claimToken reason
  | upload .., _ => False
  | publish _ capability grant output, call =>
      let manifest := outputManifest capability grant output
      call = .get grant.jobId ∨
        (∃ j reason, call = .fail j grant.claimToken reason .invalidInput none false) ∨
        ∃ j, call = .complete j grant.claimToken manifest.contentType manifest.sha256
          manifest.byteLength (executionMetadata manifest)

/-- The operations of the worker registry that a request can await. -/
def RegistryCalls : Request → RegistryCall → Prop
  | submit _, _ => False
  | get _, _ => False
  | cancel _, _ => False
  | listForTenant _, _ => False
  | setWorkerStatus workerId status, call => call = .setStatus workerId status
  | listWorkers, call => call = .list
  | workerViews tenantId _ _, call => call = .list ∨ call = .listByTenant tenantId
  | queueDepth, call => call = .list
  | auditForJob _, _ => False
  | enrollWorker workerId enrollment, call =>
      call = .get workerId ∨ call = .upsert
        { workerId := workerId, capabilities := [], tenantId := enrollment.tenantId }
        enrollment.identitySubject
  | registerHeartbeat identity registration, call =>
      call = .get identity.workerId ∨ ∃ tenantId,
        call = .upsert { registration with tenantId := tenantId } identity.subject
  | lease identity _ _, call => call = .get identity.workerId
  | jobHeartbeat identity _ _ _, call => call = .get identity.workerId
  | complete identity _ _ _, call => call = .get identity.workerId
  | fail identity _ _ _ _ _, call => call = .get identity.workerId
  | release identity _ _ _, call => call = .get identity.workerId
  | upload .., _ => False
  | publish identity _ _ _, call => call = .get identity.workerId

/-- The types of the audit rows that a request can write. -/
def AuditTypes : Request → AuditEventType → Prop
  | setWorkerStatus _ _, eventType =>
      eventType = .workerStatusChanged ∨ eventType = .workerRevoked
  | registerHeartbeat _ _, eventType => eventType = .workerHeartbeat
  | lease .., eventType => eventType = .leaseGranted ∨ eventType = .leaseEmpty
  | jobHeartbeat .., eventType => eventType = .jobHeartbeat
  | complete .., eventType => eventType = .completionRejected ∨ eventType = .jobCompleted
  | fail .., eventType => eventType = .jobFailed
  | release .., eventType => eventType = .jobFailed ∨ eventType = .jobReleased
  | publish .., eventType => eventType = .completionRejected ∨ eventType = .jobCompleted
  | _, _ => False

/-- The actions that a request can await. -/
def Footprint (cfg : ServiceConfig) (request : Request) : Action → Prop
  | .jobs call => request.JobCalls cfg call
  | .registry call => request.RegistryCalls call
  | .audit eventType _ _ _ => request.AuditTypes eventType
  | _ => True

end Request

/-- The operations of the job store and of the registry that an action awaits satisfy `P` and `R`. -/
def Touching (P : JobStoreCall → Prop) (R : RegistryCall → Prop) : Action → Prop
  | .jobs call => P call
  | .registry call => R call
  | _ => True

/-- The operation of the job store that an action awaits satisfies `P`. -/
abbrev OnJobs (P : JobStoreCall → Prop) : Action → Prop := Touching P fun _ => True

section Footprints

variable {P : Action → Prop}

theorem awaits_recordAudit {eventType : AuditEventType} {workerId jobId : Option String}
    {detail : List (String × JsonValue)} (h : P (.audit eventType workerId jobId detail)) :
    (recordAudit eventType workerId jobId detail).Awaits P :=
  ⟨h, fun _ => Prog.awaits_ofExcept _⟩

theorem awaits_assetStore {call : AssetStoreCall} (h : P (.assets call)) :
    (assetStore call).Awaits P :=
  ⟨h, fun _ => Prog.awaits_ofExcept _⟩

theorem awaits_jobStore {call : JobStoreCall} (h : P (.jobs call)) : (jobStore call).Awaits P :=
  ⟨h, fun _ => trivial⟩

theorem awaits_workerRegistry {call : RegistryCall} (h : P (.registry call)) :
    (workerRegistry call).Awaits P :=
  ⟨h, fun _ => trivial⟩

theorem awaits_approvedEnrollment (cfg : ServiceConfig) {identity : WorkerIdentity}
    (hworker : P (.registry (.get identity.workerId))) :
    (approvedEnrollment cfg identity).Awaits P := by
  refine .bind (awaits_workerRegistry hworker) fun record => ?_
  cases record with
  | none =>
      dsimp only
      split
      · split <;> trivial
      · trivial
  | some record =>
      dsimp only
      split
      · trivial
      · split
        · trivial
        · exact Prog.awaits_ofExcept _

theorem awaits_ownedJob (cfg : ServiceConfig) (identity : WorkerIdentity) {jobId : String}
    (hworker : P (.registry (.get identity.workerId))) (hget : P (.jobs (.get jobId))) :
    (ownedJob cfg identity jobId).Awaits P := by
  refine .bind (awaits_approvedEnrollment cfg hworker) fun _ => ?_
  refine .bind (awaits_jobStore hget) fun record => ?_
  cases record with
  | none => trivial
  | some record =>
      dsimp only
      split <;> trivial

/-- The last part of a call under a lease: audit what was accepted, or report a stale lease. -/
theorem awaits_settle {accepted : Bool} {p : Coroutine Unit} {error : Exc} (hp : p.Awaits P) :
    (if accepted then p else throw error : Coroutine Unit).Awaits P := by
  cases accepted with
  | false => trivial
  | true => exact hp

theorem awaits_readGrants (expiresAt : DateTime) (inputKeys : List String)
    (hread : ∀ inputKey, P (.assets (.createReadUrl inputKey))) :
    (readGrants expiresAt inputKeys).Awaits P := by
  induction inputKeys with
  | nil => trivial
  | cons inputKey rest ih =>
      refine .bind (awaits_assetStore (hread inputKey)) fun _ => ?_
      exact .bind ih fun _ => trivial

theorem awaits_grantLease (cfg : ServiceConfig) (identity : WorkerIdentity) (leaseSeconds : Int)
    (job : JobRecord) (hclock : P .clock) (hassets : ∀ call, P (.assets call))
    (haudit : ∀ workerId jobId detail, P (.audit .leaseGranted workerId jobId detail)) :
    (grantLease cfg identity leaseSeconds job).Awaits P := by
  rw [grantLease]
  split
  · trivial
  · refine .bind ⟨hclock, fun _ => trivial⟩ fun now => ?_
    refine .bind (awaits_readGrants _ _ fun _ => hassets _) fun _ => ?_
    refine .bind (awaits_assetStore (hassets _)) fun _ => ?_
    exact .bind (awaits_recordAudit (haudit _ _ _)) fun _ => trivial

theorem awaits_leaseApproved (cfg : ServiceConfig) (identity : WorkerIdentity)
    (capabilityIds : List String) (leaseSeconds : Option Int)
    (hworker : P (.registry (.get identity.workerId))) (hexpire : P (.jobs .expireExhausted))
    (hlease : ∀ query, query.workerId = identity.workerId →
      query.leaseSeconds = leaseSeconds.getD cfg.defaultLeaseSeconds → P (.jobs (.lease query)))
    (hclock : P .clock) (hassets : ∀ call, P (.assets call))
    (hgranted : ∀ workerId jobId detail, P (.audit .leaseGranted workerId jobId detail))
    (hempty : ∀ workerId jobId detail, P (.audit .leaseEmpty workerId jobId detail)) :
    (leaseApproved cfg identity capabilityIds leaseSeconds).Awaits P := by
  refine .bind (awaits_workerRegistry hworker) fun worker => ?_
  cases worker with
  | none => trivial
  | some worker =>
      dsimp only
      split_ifs
      · trivial
      · trivial
      · trivial
      · refine .bind (awaits_jobStore hexpire) fun _ => ?_
        refine .bind (awaits_jobStore (hlease _ rfl rfl)) fun job => ?_
        cases job with
        | none => exact .bind (awaits_recordAudit (hempty _ _ _)) fun _ => trivial
        | some job => exact awaits_grantLease _ _ _ _ hclock hassets hgranted

theorem awaits_verifyOutput (cfg : ServiceConfig) (record : JobRecord)
    (manifest : OutputManifest) (hassets : ∀ call, P (.assets call)) :
    (verifyOutput cfg record manifest).Awaits P := by
  rw [verifyOutput]
  split
  · trivial
  · refine .bind (awaits_assetStore (hassets _)) fun descriptor => ?_
    cases descriptor with
    | none => trivial
    | some descriptor =>
        dsimp only
        split_ifs
        · trivial
        · trivial
        · refine .bind (awaits_assetStore (hassets _)) fun content => ?_
          split <;> trivial

theorem awaits_complete (cfg : ServiceConfig) (identity : WorkerIdentity)
    {jobId claimToken : String} {manifest : OutputManifest}
    (hworker : P (.registry (.get identity.workerId))) (hget : P (.jobs (.get jobId)))
    (hassets : ∀ call, P (.assets call))
    (hfail : ∀ j reason, P (.jobs (.fail j claimToken reason .invalidInput none false)))
    (hcomplete : ∀ j, P (.jobs (.complete j claimToken manifest.contentType manifest.sha256
      manifest.byteLength (executionMetadata manifest))))
    (hrejected : ∀ workerId jobId detail, P (.audit .completionRejected workerId jobId detail))
    (hcompleted : ∀ workerId jobId detail, P (.audit .jobCompleted workerId jobId detail)) :
    (complete cfg identity jobId claimToken manifest).Awaits P := by
  refine .bind (awaits_ownedJob cfg identity hworker hget) fun record => ?_
  refine .bind (.handle (awaits_verifyOutput cfg record manifest hassets) fun error => ?_)
    fun _ => ?_
  · cases error with
    | completionRejected reason =>
        refine .bind (awaits_jobStore (hfail _ _)) fun _ => ?_
        exact .bind (awaits_recordAudit (hrejected _ _ _)) fun _ => trivial
    | _ => trivial
  · refine .bind (awaits_jobStore (hcomplete _)) fun accepted => ?_
    exact awaits_settle (awaits_recordAudit (hcompleted _ _ _))

theorem awaits_upload (url : String) (content : ByteArray) (contentType : String)
    (hassets : ∀ call, P (.assets call)) : (upload url content contentType).Awaits P :=
  .bind (Prog.awaits_ofExcept _) fun _ => .bind (awaits_assetStore (hassets _)) fun _ => trivial

/-- Every request stays within its footprint. -/
theorem Request.awaits_footprint (cfg : ServiceConfig) (request : Request) :
    (request.program cfg).Awaits (request.Footprint cfg) := by
  cases request with
  | submit submission =>
      refine .bind ?_ fun _ => trivial
      rw [WorkerPoolService.submit]
      split
      · trivial
      · rename_i hqualified
        refine .bind (awaits_jobStore ⟨rfl, hqualified⟩) fun _ => ?_
        exact .bind (Prog.awaits_ofExcept _) fun _ => trivial
  | get jobId => exact .bind (.bind (awaits_jobStore rfl) fun _ => trivial) fun _ => trivial
  | cancel jobId => exact .bind (awaits_jobStore rfl) fun _ => trivial
  | listForTenant tenantId =>
      exact .bind (.bind (awaits_jobStore rfl) fun _ => trivial) fun _ => trivial
  | setWorkerStatus workerId status =>
      refine .bind (.bind (awaits_workerRegistry rfl) fun changed => ?_) fun _ => trivial
      cases changed with
      | false => trivial
      | true =>
          refine .bind (awaits_recordAudit (Or.inl rfl)) fun _ => ?_
          split
          · exact .bind (awaits_recordAudit (Or.inr rfl)) fun _ => trivial
          · trivial
  | listWorkers => exact .bind (awaits_workerRegistry rfl) fun _ => trivial
  | workerViews tenantId onlineWindow visibilityWindow =>
      refine .bind (.bind ⟨trivial, fun _ => trivial⟩ fun now => ?_) fun _ => trivial
      cases tenantId with
      | none => exact .bind (awaits_workerRegistry (Or.inl rfl)) fun _ => trivial
      | some tenant => exact .bind (awaits_workerRegistry (Or.inr rfl)) fun _ => trivial
  | queueDepth =>
      refine .bind (.bind (awaits_jobStore rfl) fun depth => ?_) fun _ => trivial
      refine .bind ⟨trivial, fun _ => trivial⟩ fun now => ?_
      exact .bind (awaits_workerRegistry rfl) fun _ => trivial
  | auditForJob jobId => exact .bind ⟨trivial, fun _ => trivial⟩ fun _ => trivial
  | enrollWorker workerId enrollment =>
      refine .bind (.bind (Prog.awaits_ofExcept _) fun _ => ?_) fun _ => trivial
      refine .bind (awaits_workerRegistry (Or.inl rfl)) fun existing => ?_
      cases existing with
      | some existing =>
          dsimp only
          split_ifs <;> trivial
      | none => exact .bind (awaits_workerRegistry (Or.inr rfl)) fun _ => Prog.awaits_ofExcept _
  | registerHeartbeat identity registration =>
      refine .bind ?_ fun _ => trivial
      rw [WorkerPoolService.registerHeartbeat]
      split
      · trivial
      · refine .bind (awaits_approvedEnrollment cfg (Or.inl rfl)) fun enrollment => ?_
        split
        · trivial
        · refine .bind (Prog.awaits_ofExcept _) fun _ => ?_
          split
          · trivial
          · refine .bind (awaits_workerRegistry (Or.inr ⟨_, rfl⟩)) fun _ => ?_
            refine .bind (Prog.awaits_ofExcept _) fun _ => ?_
            exact .bind (awaits_recordAudit rfl) fun _ => trivial
  | lease identity capabilityIds leaseSeconds =>
      refine .bind (.bind (awaits_approvedEnrollment cfg rfl) fun _ => ?_) fun _ => trivial
      refine awaits_leaseApproved cfg identity capabilityIds leaseSeconds rfl (Or.inl rfl) ?_
        trivial (fun _ => trivial) (fun _ _ _ => Or.inl rfl) (fun _ _ _ => Or.inr rfl)
      exact fun query hworker hseconds => Or.inr ⟨query, rfl, hworker, hseconds⟩
  | jobHeartbeat identity jobId claimToken progressPercent =>
      refine .bind (.bind (awaits_ownedJob cfg identity rfl (Or.inl rfl)) fun record => ?_)
        fun _ => trivial
      refine .bind (awaits_jobStore (Or.inr ⟨_, rfl⟩)) fun accepted => ?_
      cases accepted with
      | false => trivial
      | true =>
          refine .bind (awaits_recordAudit rfl) fun _ => ?_
          exact .bind ⟨trivial, fun _ => trivial⟩ fun _ => trivial
  | complete identity jobId claimToken manifest =>
      exact .bind (awaits_complete cfg identity rfl (Or.inl rfl) (fun _ => trivial)
        (fun j reason => Or.inr (Or.inl ⟨j, reason, rfl⟩)) (fun j => Or.inr (Or.inr ⟨j, rfl⟩))
        (fun _ _ _ => Or.inl rfl) (fun _ _ _ => Or.inr rfl)) fun _ => trivial
  | fail identity jobId claimToken reason retryable failureCode =>
      refine .bind (.bind (awaits_ownedJob cfg identity rfl (Or.inl rfl)) fun record => ?_)
        fun _ => trivial
      refine .bind (awaits_jobStore (Or.inr ⟨_, rfl⟩)) fun accepted => ?_
      exact awaits_settle (awaits_recordAudit rfl)
  | release identity jobId claimToken reason =>
      refine .bind (.bind (awaits_ownedJob cfg identity rfl (Or.inl rfl)) fun record => ?_)
        fun _ => trivial
      split
      · refine .bind (awaits_jobStore (Or.inr (Or.inl ⟨_, rfl⟩))) fun accepted => ?_
        exact awaits_settle (awaits_recordAudit (Or.inl rfl))
      · refine .bind (awaits_jobStore (Or.inr (Or.inr ⟨_, rfl⟩))) fun accepted => ?_
        exact awaits_settle (awaits_recordAudit (Or.inr rfl))
  | upload url content contentType =>
      exact .bind (awaits_upload url content contentType fun _ => trivial) fun _ => trivial
  | publish identity capability grant output =>
      refine .bind (.bind (awaits_upload _ _ _ fun _ => trivial) fun _ => ?_) fun _ => trivial
      exact awaits_complete cfg identity rfl (Or.inl rfl) (fun _ => trivial)
        (fun j reason => Or.inr (Or.inl ⟨j, reason, rfl⟩)) (fun j => Or.inr (Or.inr ⟨j, rfl⟩))
        (fun _ _ _ => Or.inl rfl) (fun _ _ _ => Or.inr rfl)

theorem Request.awaits_program (cfg : ServiceConfig) (request : Request) :
    (request.program cfg).Awaits (Touching (request.JobCalls cfg) request.RegistryCalls) := by
  refine (request.awaits_footprint cfg).mono ?_
  rintro (call | _ | call | _ | _ | _) hcall
  · exact hcall
  · trivial
  · exact hcall
  all_goals trivial

theorem Request.awaits_jobCalls (cfg : ServiceConfig) (request : Request) :
    (request.program cfg).Awaits (OnJobs (request.JobCalls cfg)) := by
  refine (request.awaits_footprint cfg).mono ?_
  rintro (call | _ | _ | _ | _ | _) hcall
  · exact hcall
  all_goals trivial

end Footprints

/-- What a submission needs so as to keep every stored job qualified. -/
def SubmitsQualified (cfg : ServiceConfig) : JobStoreCall → Prop
  | .submit submission =>
      unqualifiedReason cfg.unqualified [submission.capabilityId]
        submission.requirements.runtimeVersions = none
  | _ => True

/-- A request submits what the coordinator has found qualified. -/
theorem awaits_qualified (cfg : ServiceConfig) (request : Request) :
    (request.program cfg).Awaits (OnJobs (SubmitsQualified cfg)) := by
  refine (request.awaits_jobCalls cfg).mono ?_
  rintro (call | _ | _ | _ | _) hcall
  · cases call with
    | submit submission =>
        cases request <;> simp [Touching, Request.JobCalls] at hcall
        obtain ⟨rfl, hqualified⟩ := hcall
        exact hqualified
    | _ => trivial
  all_goals trivial

theorem rejectCompletion_raises (identity : WorkerIdentity) (record : JobRecord)
    (claimToken : String) (error : Exc) :
    (rejectCompletion identity record claimToken error).Ends fun res => ∃ e, res = .error e := by
  cases error with
  | completionRejected reason =>
      intro accepted reply
      cases reply <;> exact ⟨_, rfl⟩
  | _ => exact ⟨_, rfl⟩

end GpuWorkerPool
