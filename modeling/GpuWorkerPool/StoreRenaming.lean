import GpuWorkerPool.Base.Renaming
import GpuWorkerPool.MemoryJobStore

/-!
Other names for the claim tokens of the job store. Records, operations and replies are renamed by a
function on tokens; as long as it keeps different tokens apart, the store runs the same under the
new names. `_leased` is the only place where tokens are compared.
-/

namespace GpuWorkerPool

open Base

variable (ρ : String → String)

def JobRecord.rename (r : JobRecord) : JobRecord := { r with claimToken := r.claimToken.map ρ }

namespace MemoryJobStore

def rename (s : MemoryJobStore) : MemoryJobStore := s.mapRows (JobRecord.rename ρ) fun _ => rfl

theorem get?_rename (s : MemoryJobStore) (jobId : String) :
    (s.rename ρ).get? jobId = (s.get? jobId).map (JobRecord.rename ρ) :=
  Table.get?_mapRows s (JobRecord.rename ρ) (fun _ => rfl) jobId

theorem rename_put (s : MemoryJobStore) (r : JobRecord) :
    (s.rename ρ).put (r.rename ρ) = rename ρ (s.put r) :=
  Table.put_mapRows s (JobRecord.rename ρ) (fun _ => rfl) r

theorem submit_rename [PyText] (s : MemoryJobStore) (now : DateTime) (submission : JobSubmission) :
    (s.rename ρ).submit now submission =
      ((s.submit now submission).1.rename ρ,
        (s.submit now submission).2.map fun result =>
          { result with record := result.record.rename ρ }) := by
  rw [submit, submit]
  cases validateJobSubmission submission with
  | error error => rfl
  | ok value =>
      have hfind : ((s.rename ρ).rows.find? fun r => r.idempotencyKey = submission.idempotencyKey) =
          (s.rows.find? fun r => r.idempotencyKey = submission.idempotencyKey).map
            (JobRecord.rename ρ) := List.find?_map
      rw [hfind]
      cases s.rows.find? fun r => r.idempotencyKey = submission.idempotencyKey with
      | none => exact congrArg (·, _) (s.rename_put ρ (JobRecord.ofSubmission submission now))
      | some r =>
          show (if r.replays submission then _ else _) = _
          by_cases hreplays : r.replays submission
          · simp only [hreplays, if_true]
            rfl
          · simp only [hreplays]
            rfl

theorem listForTenant_rename (s : MemoryJobStore) (tenantId : String) :
    (s.rename ρ).listForTenant tenantId = (s.listForTenant tenantId).map (JobRecord.rename ρ) :=
  List.filter_map

theorem cancel_rename (s : MemoryJobStore) (now : DateTime) (jobId : String) :
    (s.rename ρ).cancel now jobId =
      ((s.cancel now jobId).1.rename ρ, (s.cancel now jobId).2) := by
  rw [cancel, cancel, get?_rename]
  cases s.get? jobId with
  | none => rfl
  | some r =>
      show (if r.status = .queued ∨ r.status = .processing then _ else _) = _
      by_cases hactive : r.status = .queued ∨ r.status = .processing
      · simp only [hactive, if_true]
        exact congrArg (·, true) (s.rename_put ρ (r.cancelled now))
      · simp only [hactive, if_false]

theorem foldl_before_rename (rest : List JobRecord) (best : JobRecord) :
    (rest.map (JobRecord.rename ρ)).foldl
        (fun best q => if q.before best then q else best) (best.rename ρ) =
      (rest.foldl (fun best q => if q.before best then q else best) best).rename ρ := by
  induction rest generalizing best with
  | nil => rfl
  | cons q rest ih =>
      rw [List.map_cons, List.foldl_cons, List.foldl_cons, ← ih]
      refine congrArg (fun start => (rest.map _).foldl _ start) ?_
      show (if q.before best then _ else _) = _
      split <;> rfl

theorem firstOf_rename (candidates : List JobRecord) :
    firstOf (candidates.map (JobRecord.rename ρ)) = (firstOf candidates).map (JobRecord.rename ρ) := by
  cases candidates with
  | nil => rfl
  | cons r rest => exact congrArg some (foldl_before_rename ρ rest r)

theorem lease_rename [PyText] (s : MemoryJobStore) (now : DateTime) (uuid4 : String)
    (query : LeaseQuery) :
    (s.rename ρ).lease now (ρ uuid4) query =
      ((s.lease now uuid4 query).1.rename ρ,
        (s.lease now uuid4 query).2.map (JobRecord.rename ρ)) := by
  have hselected : (s.rename ρ).selected now query =
      (s.selected now query).map (JobRecord.rename ρ) :=
    (congrArg firstOf List.filter_map).trans (firstOf_rename ρ _)
  rw [lease, lease, hselected]
  cases s.selected now query with
  | none => rfl
  | some r => exact congrArg (·, _) (s.rename_put ρ (r.leased now uuid4 query))

theorem queueDepth_rename (s : MemoryJobStore) : (s.rename ρ).queueDepth = s.queueDepth :=
  List.foldl_map

theorem expireExhausted_rename (s : MemoryJobStore) (now : DateTime) :
    (s.rename ρ).expireExhausted now =
      ((s.expireExhausted now).1.rename ρ, (s.expireExhausted now).2) := by
  refine Prod.ext (Table.ext ?_) List.countP_map
  show (s.rows.map (JobRecord.rename ρ)).map _ = (s.rows.map _).map (JobRecord.rename ρ)
  rw [List.map_map, List.map_map]
  refine List.map_congr_left fun r _ => ?_
  show (r.rename ρ).expire now = (r.expire now).rename ρ
  rw [JobRecord.expire, JobRecord.expire]
  show (if r.isExhausted now then _ else _) = _
  split <;> rfl

variable {ρ}

/-- Different tokens stay different, so a token opens the same records as before. -/
theorem leased?_rename (hρ : Function.Injective ρ) (s : MemoryJobStore) (jobId claimToken : String) :
    (s.rename ρ).leased? jobId (ρ claimToken) =
      (s.leased? jobId claimToken).map (JobRecord.rename ρ) := by
  rw [leased?, leased?, get?_rename]
  cases s.get? jobId with
  | none => rfl
  | some r =>
      have hsame : decide (r.claimToken.map ρ = some (ρ claimToken)) =
          decide (r.claimToken = some claimToken) :=
        decide_eq_decide.mpr ((Option.map_injective hρ).eq_iff (b := some claimToken))
      rw [Option.map_some, Option.filter_some, Option.filter_some]
      show (if decide (r.status = .processing) && decide (r.claimToken.map ρ = some (ρ claimToken))
        then some (r.rename ρ) else none) = _
      rw [hsame]
      split <;> rfl

theorem underLease_rename (hρ : Function.Injective ρ) (s : MemoryJobStore)
    (jobId claimToken : String) {write : JobRecord → JobRecord}
    (hwrite : ∀ r, write (r.rename ρ) = (write r).rename ρ) :
    (s.rename ρ).underLease jobId (ρ claimToken) write =
      ((s.underLease jobId claimToken write).1.rename ρ,
        (s.underLease jobId claimToken write).2) := by
  rw [underLease, underLease, leased?_rename hρ]
  cases s.leased? jobId claimToken with
  | none => rfl
  | some r => exact congrArg (·, true) ((congrArg _ (hwrite r)).trans (s.rename_put ρ (write r)))

end MemoryJobStore

namespace JobStoreCall

/-- The same operation, with the claim token it presents renamed. -/
def rename : JobStoreCall → JobStoreCall
  | heartbeat jobId claimToken leaseSeconds progressPercent =>
      heartbeat jobId (ρ claimToken) leaseSeconds progressPercent
  | complete jobId claimToken contentType sha256 byteLength executionMetadata =>
      complete jobId (ρ claimToken) contentType sha256 byteLength executionMetadata
  | fail jobId claimToken reason failureCode failureMessage retryable =>
      fail jobId (ρ claimToken) reason failureCode failureMessage retryable
  | release jobId claimToken reason => release jobId (ρ claimToken) reason
  | call => call

/-- The same reply, with the claim tokens of its records renamed. -/
def renameReply : (call : JobStoreCall) → call.Reply → (call.rename ρ).Reply
  | submit _, reply =>
      Except.map (fun result : SubmissionResult =>
        { result with record := result.record.rename ρ }) reply
  | get _, reply => Option.map (JobRecord.rename ρ) reply
  | listForTenant _, reply => List.map (JobRecord.rename ρ) reply
  | lease _, reply => Option.map (JobRecord.rename ρ) reply
  | cancel _, reply => reply
  | heartbeat .., reply => reply
  | complete .., reply => reply
  | fail .., reply => reply
  | release .., reply => reply
  | expireExhausted, reply => reply
  | queueDepth, reply => reply

variable {ρ} [PyText]

theorem exec_rename (hρ : Function.Injective ρ) (now : DateTime) (uuid4 : String)
    (s : MemoryJobStore) (call : JobStoreCall) :
    (call.rename ρ).exec now (ρ uuid4) (s.rename ρ) =
      ((call.exec now uuid4 s).1.rename ρ, call.renameReply ρ (call.exec now uuid4 s).2) := by
  cases call with
  | submit submission => exact s.submit_rename ρ now submission
  | get jobId => exact congrArg (s.rename ρ, ·) (s.get?_rename ρ jobId)
  | listForTenant tenantId => exact congrArg (s.rename ρ, ·) (s.listForTenant_rename ρ tenantId)
  | cancel jobId => exact s.cancel_rename ρ now jobId
  | lease query => exact s.lease_rename ρ now uuid4 query
  | heartbeat jobId claimToken leaseSeconds progressPercent =>
      exact s.underLease_rename hρ jobId claimToken fun _ => rfl
  | complete jobId claimToken contentType sha256 byteLength executionMetadata =>
      exact s.underLease_rename hρ jobId claimToken fun _ => rfl
  | fail jobId claimToken reason failureCode failureMessage retryable =>
      exact s.underLease_rename hρ jobId claimToken fun _ => rfl
  | release jobId claimToken reason =>
      exact s.underLease_rename hρ jobId claimToken fun _ => rfl
  | expireExhausted => exact s.expireExhausted_rename ρ now
  | queueDepth => exact congrArg (s.rename ρ, ·) (s.queueDepth_rename ρ)

end JobStoreCall

end GpuWorkerPool
