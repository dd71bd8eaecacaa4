import GpuWorkerPool.Base.JsonEncoding
import GpuWorkerPool.Validation

/-!
`MemoryJobStore`: every operation is one atomic function of the records, the instant at which the
operation reads the clock and, for a lease, the token that `uuid4` draws. `JobStoreCall.exec` is
the store as one transition function, and `JobStoreCall.exec_row` says once and for all what an
operation can do to the record of one job.
-/

namespace GpuWorkerPool

open Base

/-- The parts of Python's text handling that are not embedded: `float.__repr__` and the Unicode
tables of `str.lower`. -/
class PyText extends FloatRepr where
  lower : String → String

/-- Text handling that is right on ASCII text without floats. -/
@[reducible] def PyText.ascii : PyText where
  toFloatRepr := FloatRepr.byParts
  lower := String.toLower

/-- The arguments of `lease`. -/
structure LeaseQuery where
  workerId : String
  capabilityIds : List String
  leaseSeconds : Int
  tenantId : Option String
  vramMb : Option Int
  gpuModel : Option String
  labels : List String
  runtimeVersions : Dict String String

namespace JobRecord

/-- `_settled` -/
def settled (r : JobRecord) (now : DateTime) : JobRecord :=
  { r with claimToken := none, leasedBy := none, leaseUntil := none, updatedAt := now }

/-- `_is_leasable` -/
def isLeasable (r : JobRecord) (now : DateTime) : Bool :=
  match r.status with
  | .queued => true
  | .processing => r.leaseUntil.any fun leaseUntil => leaseUntil < now
  | _ => false

/-- The condition of `expire_exhausted`. -/
def isExhausted (r : JobRecord) (now : DateTime) : Bool :=
  r.status = .processing && (r.leaseUntil.any fun leaseUntil => leaseUntil < now) &&
    r.attemptBudget ≤ r.attempts

/-- The sort key `(priority, created_at)`. -/
def before (r q : JobRecord) : Bool :=
  r.priority < q.priority || r.priority = q.priority && r.createdAt < q.createdAt

/-- `_replays` -/
def replays (r : JobRecord) (submission : JobSubmission) : Bool :=
  r.capabilityId = submission.capabilityId && r.contractVersion = submission.contractVersion &&
    r.inputKeys = submission.inputKeys && r.outputKey = submission.outputKey &&
    r.payload.value.pyEq submission.payload.value && r.tenantId = submission.tenantId &&
    r.requirements.pyEq submission.requirements && r.priority = submission.priority &&
    r.attemptBudget = submission.attemptBudget &&
    r.executionDeadlineSeconds = submission.executionDeadlineSeconds

/-! The record each operation writes. -/

def ofSubmission [FloatRepr] (submission : JobSubmission) (now : DateTime) : JobRecord where
  jobId := submission.jobId
  idempotencyKey := submission.idempotencyKey
  capabilityId := submission.capabilityId
  status := .queued
  inputKeys := submission.inputKeys
  outputKey := submission.outputKey
  attempts := 0
  createdAt := now
  updatedAt := now
  contractVersion := submission.contractVersion
  payload := submission.payload
  tenantId := submission.tenantId
  requirements := submission.requirements
  priority := submission.priority
  attemptBudget := submission.attemptBudget
  executionDeadlineSeconds := submission.executionDeadlineSeconds
  requestDigest := jobRequestDigest submission

def cancelled (r : JobRecord) (now : DateTime) : JobRecord :=
  { r with
    status := .cancelled, cancelledAt := some now, updatedAt := now, claimToken := none,
    leasedBy := none, leaseUntil := none }

def leased (r : JobRecord) (now : DateTime) (uuid4 : String) (query : LeaseQuery) : JobRecord :=
  { r with
    status := .processing, attempts := r.attempts + 1, claimToken := some uuid4,
    leasedBy := some query.workerId, leaseUntil := some (now + seconds query.leaseSeconds),
    updatedAt := now }

def heartbeaten (r : JobRecord) (now : DateTime) (leaseSeconds : Int)
    (progressPercent : Option Int) : JobRecord :=
  { r with
    leaseUntil := some (now + seconds leaseSeconds),
    progressPercent := progressPercent <|> r.progressPercent, updatedAt := now }

def completed (r : JobRecord) (now : DateTime) (contentType sha256 : String) (byteLength : Int)
    (executionMetadata : List (String × JsonValue)) : JobRecord :=
  { r.settled now with
    status := .completed, executedBy := r.leasedBy, executionMetadata := executionMetadata,
    outputContentType := some contentType, outputSha256 := some sha256,
    outputByteLength := some byteLength, error := none }

def failed (r : JobRecord) (now : DateTime) (reason : String) (failureCode : JobFailureCode)
    (failureMessage : Option String) (retryable : Bool) : JobRecord :=
  { r.settled now with
    status := .failed, error := some reason, failureCode := some failureCode,
    failureMessage := failureMessage, retryable := retryable }

def released (r : JobRecord) (now : DateTime) (reason : String) : JobRecord :=
  { r.settled now with status := .queued, error := some reason }

def exhausted (r : JobRecord) (now : DateTime) : JobRecord :=
  { r.settled now with
    status := .failed, error := some attemptBudgetExhausted,
    failureCode := some .temporaryFailure, retryable := true }

/-- One record of the sweep. -/
def expire (r : JobRecord) (now : DateTime) : JobRecord :=
  if r.isExhausted now then r.exhausted now else r

/-- The token is the fencing secret of the record's current lease. -/
def Live (r : JobRecord) (claimToken : String) : Prop :=
  r.status = .processing ∧ r.claimToken = some claimToken

instance (r : JobRecord) (claimToken : String) : Decidable (r.Live claimToken) :=
  inferInstanceAs (Decidable (_ ∧ _))

theorem Live.token_eq {r : JobRecord} {t t' : String} (h : r.Live t) (h' : r.Live t') : t = t' :=
  Option.some.inj (h.2.symm.trans h'.2)

theorem expire_jobId (now : DateTime) (r : JobRecord) : (r.expire now).jobId = r.jobId := by
  rw [expire]
  split <;> rfl

end JobRecord

/-- The records by job id, in the order in which the jobs were first stored. -/
abbrev MemoryJobStore := Table JobRecord.jobId

section Selection

/-- `min(candidates, key=...)`: the first of the least. -/
def firstOf : List JobRecord → Option JobRecord
  | [] => none
  | r :: rest => some (rest.foldl (fun best q => if q.before best then q else best) r)

theorem foldl_before_mem (rest : List JobRecord) (best : JobRecord) :
    rest.foldl (fun best q => if q.before best then q else best) best ∈ best :: rest := by
  induction rest generalizing best with
  | nil => exact List.mem_singleton_self best
  | cons q rest ih =>
      rw [List.foldl_cons]
      rcases List.mem_cons.mp (ih (if q.before best then q else best)) with heq | hrest
      · rw [heq]
        split <;> simp
      · exact List.mem_cons_of_mem _ (List.mem_cons_of_mem _ hrest)

theorem mem_of_firstOf {candidates : List JobRecord} {r : JobRecord}
    (h : firstOf candidates = some r) : r ∈ candidates := by
  cases candidates with
  | nil => exact absurd h (by simp [firstOf])
  | cons first rest =>
      rw [firstOf, Option.some_inj] at h
      exact h ▸ foldl_before_mem rest first

variable [PyText]

/-- `_satisfies_requirements` -/
def satisfiesRequirements (r : JobRecord) (query : LeaseQuery) : Bool :=
  let requirements := r.requirements
  (requirements.workerIds.isEmpty || query.workerId ∈ requirements.workerIds) &&
    (requirements.runtimeVersions.rows.all fun row =>
      query.runtimeVersions.lookup row.1 = some row.2) &&
    requirements.minVramMb.getD 0 ≤ query.vramMb.getD 0 &&
    (requirements.gpuModels.isEmpty ||
      query.gpuModel.any fun model =>
        PyText.lower model ∈ requirements.gpuModels.map PyText.lower) &&
    requirements.labels.all (· ∈ query.labels)

/-- The filter of `lease`. -/
def isCandidate (query : LeaseQuery) (now : DateTime) (r : JobRecord) : Bool :=
  r.capabilityId ∈ query.capabilityIds && r.attempts < r.attemptBudget &&
    r.tenantId = query.tenantId && satisfiesRequirements r query && r.isLeasable now

end Selection

namespace MemoryJobStore

variable [PyText] in
def submit (s : MemoryJobStore) (now : DateTime) (submission : JobSubmission) :
    MemoryJobStore × Except Exc SubmissionResult :=
  match validateJobSubmission submission with
  | .error error => (s, .error error)
  | .ok () =>
      match s.rows.find? fun r => r.idempotencyKey = submission.idempotencyKey with
      | some r =>
          if r.replays submission then (s, .ok ⟨r, false⟩)
          else (s, .error (.idempotencyConflict submission.idempotencyKey))
      | none =>
          let r := JobRecord.ofSubmission submission now
          (s.put r, .ok ⟨r, true⟩)

def listForTenant (s : MemoryJobStore) (tenantId : String) : List JobRecord :=
  s.rows.filter fun r => r.tenantId = some tenantId

def cancel (s : MemoryJobStore) (now : DateTime) (jobId : String) : MemoryJobStore × Bool :=
  match s.get? jobId with
  | some r =>
      if r.status = .queued ∨ r.status = .processing then (s.put (r.cancelled now), true)
      else (s, false)
  | none => (s, false)

variable [PyText] in
/-- The record `lease` claims. -/
def selected (s : MemoryJobStore) (now : DateTime) (query : LeaseQuery) : Option JobRecord :=
  firstOf (s.rows.filter (isCandidate query now))

variable [PyText] in
def lease (s : MemoryJobStore) (now : DateTime) (uuid4 : String) (query : LeaseQuery) :
    MemoryJobStore × Option JobRecord :=
  match s.selected now query with
  | some r => (s.put (r.leased now uuid4 query), some (r.leased now uuid4 query))
  | none => (s, none)

/-- One record of `queue_depth`: a job that is not settled counts for its capability too. -/
def countJob (depth : QueueDepth) (r : JobRecord) : QueueDepth :=
  let counts := (depth.byCapability.lookup r.capabilityId).getD {}
  match r.status with
  | .queued =>
      { depth with
        queued := depth.queued + 1,
        byCapability := depth.byCapability.put
          (r.capabilityId, { counts with queued := counts.queued + 1 }) }
  | .processing =>
      { depth with
        processing := depth.processing + 1,
        byCapability := depth.byCapability.put
          (r.capabilityId, { counts with processing := counts.processing + 1 }) }
  | _ => depth

def queueDepth (s : MemoryJobStore) : QueueDepth := s.rows.foldl countJob {}

/-- `_leased` -/
def leased? (s : MemoryJobStore) (jobId claimToken : String) : Option JobRecord :=
  (s.get? jobId).filter fun r => r.status = .processing && r.claimToken = some claimToken

/-- The shape of the four operations that present a claim token. -/
def underLease (s : MemoryJobStore) (jobId claimToken : String) (write : JobRecord → JobRecord) :
    MemoryJobStore × Bool :=
  match s.leased? jobId claimToken with
  | some r => (s.put (write r), true)
  | none => (s, false)

def heartbeat (s : MemoryJobStore) (now : DateTime) (jobId claimToken : String)
    (leaseSeconds : Int) (progressPercent : Option Int) : MemoryJobStore × Bool :=
  s.underLease jobId claimToken fun r => r.heartbeaten now leaseSeconds progressPercent

def complete (s : MemoryJobStore) (now : DateTime) (jobId claimToken contentType sha256 : String)
    (byteLength : Int) (executionMetadata : List (String × JsonValue)) : MemoryJobStore × Bool :=
  s.underLease jobId claimToken fun r =>
    r.completed now contentType sha256 byteLength executionMetadata

def fail (s : MemoryJobStore) (now : DateTime) (jobId claimToken reason : String)
    (failureCode : JobFailureCode) (failureMessage : Option String) (retryable : Bool) :
    MemoryJobStore × Bool :=
  s.underLease jobId claimToken fun r => r.failed now reason failureCode failureMessage retryable

def release (s : MemoryJobStore) (now : DateTime) (jobId claimToken reason : String) :
    MemoryJobStore × Bool :=
  s.underLease jobId claimToken fun r => r.released now reason

def expireExhausted (s : MemoryJobStore) (now : DateTime) : MemoryJobStore × Nat :=
  (s.mapRows (fun r => r.expire now) (JobRecord.expire_jobId now),
    s.rows.countP fun r => r.isExhausted now)

/-! ### What each operation leaves under a job id -/

theorem leased?_eq_some_iff {s : MemoryJobStore} {jobId claimToken : String} {r : JobRecord} :
    s.leased? jobId claimToken = some r ↔ s.get? jobId = some r ∧ r.Live claimToken := by
  rw [leased?, Option.filter_eq_some_iff, JobRecord.Live, Bool.and_eq_true, decide_eq_true_eq,
    decide_eq_true_eq]

variable [PyText] in
theorem selected_spec {s : MemoryJobStore} {now : DateTime} {query : LeaseQuery} {r : JobRecord}
    (h : s.selected now query = some r) : s.get? r.jobId = some r ∧ isCandidate query now r := by
  have hmem := List.mem_filter.mp (mem_of_firstOf h)
  exact ⟨Table.get?_key_of_mem hmem.1, hmem.2⟩

variable [PyText] in
theorem get?_submit (s : MemoryJobStore) (now : DateTime) (submission : JobSubmission)
    (j : String) :
    (s.submit now submission).1.get? j = s.get? j ∨
      (validateJobSubmission submission = .ok () ∧ submission.jobId = j ∧
        (∀ r ∈ s.rows, r.idempotencyKey ≠ submission.idempotencyKey) ∧
        (s.submit now submission).1.get? j = some (JobRecord.ofSubmission submission now)) := by
  unfold submit
  cases hvalid : validateJobSubmission submission with
  | error error => exact Or.inl rfl
  | ok value =>
      cases hfind : s.rows.find? fun r => r.idempotencyKey = submission.idempotencyKey with
      | some r =>
          left
          dsimp only
          split <;> rfl
      | none =>
          by_cases hj : submission.jobId = j
          · right
            refine ⟨rfl, hj, by simpa using hfind, ?_⟩
            exact hj ▸ Table.get?_put_self s (JobRecord.ofSubmission submission now)
          · exact Or.inl (Table.get?_put_of_ne s hj)

theorem cancel_cases (s : MemoryJobStore) (now : DateTime) (jobId : String) :
    s.cancel now jobId = (s, false) ∨
      ∃ r, s.get? jobId = some r ∧ r.status.terminal = false ∧
        s.cancel now jobId = (s.put (r.cancelled now), true) := by
  unfold cancel
  cases hget : s.get? jobId with
  | none => exact Or.inl rfl
  | some r =>
      dsimp only
      split
      · rename_i hactive
        refine Or.inr ⟨r, rfl, ?_, rfl⟩
        rcases hactive with hstatus | hstatus <;> rw [hstatus] <;> rfl
      · exact Or.inl rfl

theorem get?_cancel (s : MemoryJobStore) (now : DateTime) (jobId j : String) :
    (s.cancel now jobId).1.get? j = s.get? j ∨
      ∃ r, s.get? j = some r ∧ jobId = j ∧ r.status.terminal = false ∧
        (s.cancel now jobId).1.get? j = some (r.cancelled now) := by
  rcases s.cancel_cases now jobId with hsame | ⟨r, hget, hactive, hput⟩
  · exact Or.inl (by rw [hsame])
  · have hkey : r.jobId = jobId := Table.key_eq_of_get? hget
    rw [hput]
    by_cases hj : jobId = j
    · exact Or.inr ⟨r, hj ▸ hget, hj, hactive, (Table.get?_put s _ j).trans (if_pos (hkey.trans hj))⟩
    · exact Or.inl (Table.get?_put_of_ne s fun h => hj (hkey.symm.trans h))

variable [PyText] in
theorem get?_lease (s : MemoryJobStore) (now : DateTime) (uuid4 : String) (query : LeaseQuery)
    (j : String) :
    (s.lease now uuid4 query).1.get? j = s.get? j ∨
      ∃ r, s.selected now query = some r ∧ r.jobId = j ∧
        (s.lease now uuid4 query).1.get? j = some (r.leased now uuid4 query) := by
  unfold lease
  cases hselected : s.selected now query with
  | none => exact Or.inl rfl
  | some r =>
      by_cases hj : r.jobId = j
      · refine Or.inr ⟨r, rfl, hj, ?_⟩
        exact hj ▸ Table.get?_put_self s (r.leased now uuid4 query)
      · exact Or.inl (Table.get?_put_of_ne s hj)

variable [PyText] in
theorem lease_eq_some {s : MemoryJobStore} {now : DateTime} {uuid4 : String} {query : LeaseQuery}
    {job : JobRecord} (h : (s.lease now uuid4 query).2 = some job) :
    ∃ r : JobRecord, job = r.leased now uuid4 query ∧
      (s.lease now uuid4 query).1.get? job.jobId = some job := by
  rw [MemoryJobStore.lease] at h ⊢
  cases hselected : s.selected now query with
  | none => simp [hselected] at h
  | some r =>
      rw [hselected] at h
      cases h
      exact ⟨r, rfl, Table.get?_put_self s (r.leased now uuid4 query)⟩

theorem get?_underLease (s : MemoryJobStore) (jobId claimToken : String)
    (write : JobRecord → JobRecord) (hkey : ∀ r, (write r).jobId = r.jobId) (j : String) :
    (s.underLease jobId claimToken write).1.get? j = s.get? j ∨
      ∃ r, s.get? j = some r ∧ jobId = j ∧ r.Live claimToken ∧
        (s.underLease jobId claimToken write).1.get? j = some (write r) := by
  unfold underLease
  cases hleased : s.leased? jobId claimToken with
  | none => exact Or.inl rfl
  | some r =>
      obtain ⟨hget, hlive⟩ := leased?_eq_some_iff.mp hleased
      have hwritten : (write r).jobId = jobId := (hkey r).trans (Table.key_eq_of_get? hget)
      by_cases hj : jobId = j
      · subst hj
        refine Or.inr ⟨r, hget, rfl, hlive, ?_⟩
        rw [Table.get?_put, if_pos hwritten]
      · exact Or.inl (Table.get?_put_of_ne s fun h => hj (hwritten.symm.trans h))

theorem get?_expireExhausted (s : MemoryJobStore) (now : DateTime) (j : String) :
    (s.expireExhausted now).1.get? j = (s.get? j).map fun r => r.expire now :=
  Table.get?_mapRows s _ (JobRecord.expire_jobId now) j

/-- A token that is not live for a job opens nothing. -/
theorem underLease_of_not_live {s : MemoryJobStore} {jobId claimToken : String}
    (write : JobRecord → JobRecord)
    (h : ∀ r, s.get? jobId = some r → ¬ r.Live claimToken) :
    s.underLease jobId claimToken write = (s, false) := by
  unfold underLease
  cases hleased : s.leased? jobId claimToken with
  | none => rfl
  | some r =>
      obtain ⟨hget, hlive⟩ := leased?_eq_some_iff.mp hleased
      exact absurd hlive (h r hget)

end MemoryJobStore

/-! ### The store as one transition function -/

inductive JobStoreCall where
  | submit (submission : JobSubmission)
  | get (jobId : String)
  | listForTenant (tenantId : String)
  | cancel (jobId : String)
  | lease (query : LeaseQuery)
  | heartbeat (jobId claimToken : String) (leaseSeconds : Int) (progressPercent : Option Int)
  | complete (jobId claimToken contentType sha256 : String) (byteLength : Int)
      (executionMetadata : List (String × JsonValue))
  | fail (jobId claimToken reason : String) (failureCode : JobFailureCode)
      (failureMessage : Option String) (retryable : Bool)
  | release (jobId claimToken reason : String)
  | expireExhausted
  | queueDepth

namespace JobStoreCall

def Reply : JobStoreCall → Type
  | submit _ => Except Exc SubmissionResult
  | get _ => Option JobRecord
  | listForTenant _ => List JobRecord
  | cancel _ => Bool
  | lease _ => Option JobRecord
  | heartbeat .. => Bool
  | complete .. => Bool
  | fail .. => Bool
  | release .. => Bool
  | expireExhausted => Nat
  | queueDepth => QueueDepth

variable [PyText]

def exec (now : DateTime) (uuid4 : String) (s : MemoryJobStore) :
    (call : JobStoreCall) → MemoryJobStore × call.Reply
  | submit submission => s.submit now submission
  | get jobId => (s, s.get? jobId)
  | listForTenant tenantId => (s, s.listForTenant tenantId)
  | cancel jobId => s.cancel now jobId
  | lease query => s.lease now uuid4 query
  | heartbeat jobId claimToken leaseSeconds progressPercent =>
      s.heartbeat now jobId claimToken leaseSeconds progressPercent
  | complete jobId claimToken contentType sha256 byteLength executionMetadata =>
      s.complete now jobId claimToken contentType sha256 byteLength executionMetadata
  | fail jobId claimToken reason failureCode failureMessage retryable =>
      s.fail now jobId claimToken reason failureCode failureMessage retryable
  | release jobId claimToken reason => s.release now jobId claimToken reason
  | expireExhausted => s.expireExhausted now
  | queueDepth => (s, s.queueDepth)

/-- What an operation can do to what is stored under one job id. -/
inductive RowStep (now : DateTime) (uuid4 : String) (s : MemoryJobStore) (j : String) :
    JobStoreCall → Option JobRecord → Option JobRecord → Prop
  | kept (call : JobStoreCall) (row : Option JobRecord) : RowStep now uuid4 s j call row row
  | submitted {submission : JobSubmission} (row : Option JobRecord)
      (valid : validateJobSubmission submission = .ok ())
      (newKey : ∀ r ∈ s.rows, r.idempotencyKey ≠ submission.idempotencyKey)
      (here : submission.jobId = j) :
      RowStep now uuid4 s j (submit submission) row
        (some (JobRecord.ofSubmission submission now))
  | cancelled {r : JobRecord} (active : r.status.terminal = false) :
      RowStep now uuid4 s j (cancel j) (some r) (some (r.cancelled now))
  | leased {query : LeaseQuery} {r : JobRecord} (chosen : s.selected now query = some r) (here : r.jobId = j) :
      RowStep now uuid4 s j (lease query) (some r) (some (r.leased now uuid4 query))
  | heartbeaten {claimToken : String} {leaseSeconds : Int} {progressPercent : Option Int}
      {r : JobRecord} (live : r.Live claimToken) :
      RowStep now uuid4 s j (heartbeat j claimToken leaseSeconds progressPercent) (some r)
        (some (r.heartbeaten now leaseSeconds progressPercent))
  | completed {claimToken contentType sha256 : String} {byteLength : Int}
      {executionMetadata : List (String × JsonValue)} {r : JobRecord} (live : r.Live claimToken) :
      RowStep now uuid4 s j
        (complete j claimToken contentType sha256 byteLength executionMetadata) (some r)
        (some (r.completed now contentType sha256 byteLength executionMetadata))
  | failed {claimToken reason : String} {failureCode : JobFailureCode}
      {failureMessage : Option String} {retryable : Bool} {r : JobRecord}
      (live : r.Live claimToken) :
      RowStep now uuid4 s j (fail j claimToken reason failureCode failureMessage retryable) (some r)
        (some (r.failed now reason failureCode failureMessage retryable))
  | released {claimToken reason : String} {r : JobRecord} (live : r.Live claimToken) :
      RowStep now uuid4 s j (release j claimToken reason) (some r) (some (r.released now reason))
  | exhausted {r : JobRecord} (due : r.isExhausted now) :
      RowStep now uuid4 s j expireExhausted (some r) (some (r.exhausted now))

theorem exec_row (now : DateTime) (uuid4 : String) (s : MemoryJobStore) (call : JobStoreCall)
    (j : String) :
    RowStep now uuid4 s j call (s.get? j) ((call.exec now uuid4 s).1.get? j) := by
  cases call with
  | submit submission =>
      rcases s.get?_submit now submission j with hkept | ⟨hvalid, hj, hnew, hrow⟩
      · exact hkept ▸ .kept _ _
      · exact hrow ▸ .submitted _ hvalid hnew hj
  | get jobId => exact .kept _ _
  | listForTenant tenantId => exact .kept _ _
  | queueDepth => exact .kept _ _
  | cancel jobId =>
      rcases s.get?_cancel now jobId j with hkept | ⟨r, hget, rfl, hactive, hrow⟩
      · exact hkept ▸ .kept _ _
      · exact hrow ▸ hget ▸ .cancelled hactive
  | lease query =>
      rcases s.get?_lease now uuid4 query j with hkept | ⟨r, hselected, rfl, hrow⟩
      · exact hkept ▸ .kept _ _
      · exact hrow ▸ (MemoryJobStore.selected_spec hselected).1 ▸ .leased hselected rfl
  | heartbeat jobId claimToken leaseSeconds progressPercent =>
      rcases s.get?_underLease jobId claimToken
          (fun r => r.heartbeaten now leaseSeconds progressPercent) (fun _ => rfl) j
        with hkept | ⟨r, hget, rfl, hlive, hrow⟩
      · exact hkept ▸ .kept _ _
      · exact hrow ▸ hget ▸ .heartbeaten hlive
  | complete jobId claimToken contentType sha256 byteLength executionMetadata =>
      rcases s.get?_underLease jobId claimToken
          (fun r => r.completed now contentType sha256 byteLength executionMetadata)
          (fun _ => rfl) j with hkept | ⟨r, hget, rfl, hlive, hrow⟩
      · exact hkept ▸ .kept _ _
      · exact hrow ▸ hget ▸ .completed hlive
  | fail jobId claimToken reason failureCode failureMessage retryable =>
      rcases s.get?_underLease jobId claimToken
          (fun r => r.failed now reason failureCode failureMessage retryable) (fun _ => rfl) j
        with hkept | ⟨r, hget, rfl, hlive, hrow⟩
      · exact hkept ▸ .kept _ _
      · exact hrow ▸ hget ▸ .failed hlive
  | release jobId claimToken reason =>
      rcases s.get?_underLease jobId claimToken (fun r => r.released now reason)
          (fun _ => rfl) j with hkept | ⟨r, hget, rfl, hlive, hrow⟩
      · exact hkept ▸ .kept _ _
      · exact hrow ▸ hget ▸ .released hlive
  | expireExhausted =>
      have hrow := s.get?_expireExhausted now j
      cases hget : s.get? j with
      | none =>
          rw [hget] at hrow
          exact hrow ▸ .kept _ _
      | some r =>
          rw [hget, Option.map_some, JobRecord.expire] at hrow
          split at hrow
          · rename_i hdue
            exact hrow ▸ .exhausted hdue
          · exact hrow ▸ .kept _ _

end JobStoreCall

end GpuWorkerPool
