import GpuWorkerPool.RequestDigest
import GpuWorkerPool.StoreHistory

/-!
Idempotent submission. `submit` decides whether a stored record replays a submission by comparing
fields with `==`, while a worker attests the digest of the canonical text. The digest tells `True`,
`1` and `1.0` apart and `==` does not, and this is the only way in which the two can disagree.
-/

namespace GpuWorkerPool

open Base

/-- The request that a record holds. -/
def JobRecord.request (r : JobRecord) : JobSubmission where
  jobId := r.jobId
  idempotencyKey := r.idempotencyKey
  capabilityId := r.capabilityId
  inputKeys := r.inputKeys
  outputKey := r.outputKey
  contractVersion := r.contractVersion
  payload := r.payload
  tenantId := r.tenantId
  requirements := r.requirements
  priority := r.priority
  attemptBudget := r.attemptBudget
  executionDeadlineSeconds := r.executionDeadlineSeconds

theorem replays_iff {r : JobRecord} {submission : JobSubmission} :
    r.replays submission ↔
      (r.capabilityId = submission.capabilityId ∧ r.contractVersion = submission.contractVersion ∧
        r.inputKeys = submission.inputKeys ∧ r.outputKey = submission.outputKey ∧
        r.payload.value.pyEq submission.payload.value) ∧
      r.tenantId = submission.tenantId ∧ r.requirements.pyEq submission.requirements ∧
      r.priority = submission.priority ∧ r.attemptBudget = submission.attemptBudget ∧
      r.executionDeadlineSeconds = submission.executionDeadlineSeconds := by
  simp only [JobRecord.replays, Bool.and_eq_true, decide_eq_true_eq, and_assoc]

section Runs

variable [PyText]

/-- A record after an operation holds the request it held before, or is a new record. -/
theorem JobStoreCall.RowStep.request_origin {now : DateTime} {uuid4 : String} {s : MemoryJobStore}
    {j : String} {call : JobStoreCall} {row : Option JobRecord} {r' : JobRecord}
    (h : RowStep now uuid4 s j call row (some r')) :
    (∃ r, row = some r ∧ r'.request = r.request ∧ r'.requestDigest = r.requestDigest) ∨
      ∃ submission, call = .submit submission ∧ validateJobSubmission submission = .ok () ∧
        (∀ r ∈ s.rows, r.idempotencyKey ≠ submission.idempotencyKey) ∧
        r' = .ofSubmission submission now := by
  cases h with
  | submitted _ hvalid hnew _ => exact Or.inr ⟨_, rfl, hvalid, hnew, rfl⟩
  | kept => exact Or.inl ⟨r', rfl, rfl, rfl⟩
  | cancelled _ => exact Or.inl ⟨_, rfl, rfl, rfl⟩
  | leased _ _ => exact Or.inl ⟨_, rfl, rfl, rfl⟩
  | heartbeaten _ => exact Or.inl ⟨_, rfl, rfl, rfl⟩
  | completed _ => exact Or.inl ⟨_, rfl, rfl, rfl⟩
  | failed _ => exact Or.inl ⟨_, rfl, rfl, rfl⟩
  | released _ => exact Or.inl ⟨_, rfl, rfl, rfl⟩
  | exhausted _ => exact Or.inl ⟨_, rfl, rfl, rfl⟩

/-- What holds of the requests in every reachable store: each was accepted, its digest was taken
from it, and no two are under one idempotency key. -/
structure RequestsSound (s : MemoryJobStore) : Prop where
  valid : ∀ r ∈ s.rows, validateJobSubmission r.request = .ok ()
  digest : ∀ r ∈ s.rows, r.requestDigest = jobRequestDigest r.request
  unique : ∀ r ∈ s.rows, ∀ r' ∈ s.rows, r.idempotencyKey = r'.idempotencyKey → r.jobId = r'.jobId

theorem RequestsSound.exec {s : MemoryJobStore} (h : RequestsSound s) (op : StoreOp) :
    RequestsSound (op.exec s).1 := by
  have horigin : ∀ r' ∈ (op.exec s).1.rows,
      (∃ r ∈ s.rows, r.jobId = r'.jobId ∧ r'.request = r.request ∧
        r'.requestDigest = r.requestDigest) ∨
      ∃ submission, op.call = .submit submission ∧ validateJobSubmission submission = .ok () ∧
        (∀ r ∈ s.rows, r.idempotencyKey ≠ submission.idempotencyKey) ∧
        r' = .ofSubmission submission op.now := by
    intro r' hr'
    have hrow := op.exec_row s r'.jobId
    rw [Table.get?_key_of_mem hr'] at hrow
    rcases hrow.request_origin with ⟨r, hget, hsame⟩ | hnew
    · exact Or.inl ⟨r, Table.mem_of_get? hget, Table.key_eq_of_get? hget, hsame⟩
    · exact Or.inr hnew
  refine ⟨fun r' hr' => ?_, fun r' hr' => ?_, fun r' hr' q' hq' hkey => ?_⟩
  · rcases horigin r' hr' with ⟨r, hr, -, hrequest, -⟩ | ⟨submission, -, hvalid, -, rfl⟩
    · exact hrequest ▸ h.valid r hr
    · exact hvalid
  · rcases horigin r' hr' with ⟨r, hr, -, hrequest, hdigest⟩ | ⟨submission, -, -, -, rfl⟩
    · exact hdigest.trans (hrequest ▸ h.digest r hr)
    · rfl
  · rcases horigin r' hr' with ⟨r, hr, hrj, hrequest, -⟩ | ⟨submission, hcall, -, hnew, rfl⟩
    · have hrkey : r'.idempotencyKey = r.idempotencyKey :=
        congrArg JobSubmission.idempotencyKey hrequest
      rcases horigin q' hq' with ⟨q, hq, hqj, hqrequest, -⟩ | ⟨submission, -, -, hnew, rfl⟩
      · have hqkey : q'.idempotencyKey = q.idempotencyKey :=
          congrArg JobSubmission.idempotencyKey hqrequest
        rw [← hrj, ← hqj]
        exact h.unique r hr q hq (by rw [← hrkey, ← hqkey, hkey])
      · exact absurd (hrkey.symm.trans hkey) (hnew r hr)
    · rcases horigin q' hq' with ⟨q, hq, -, hqrequest, -⟩ | ⟨submission', hcall', -, -, rfl⟩
      · have hqkey : q'.idempotencyKey = q.idempotencyKey :=
          congrArg JobSubmission.idempotencyKey hqrequest
        exact absurd (hqkey.symm.trans hkey.symm) (hnew q hq)
      · rw [hcall, JobStoreCall.submit.injEq] at hcall'
        rw [hcall']

theorem requestsSound_after {s : MemoryJobStore} (h : RequestsSound s) (run : List StoreOp) :
    RequestsSound (s.after run) := by
  induction run generalizing s with
  | nil => exact h
  | cons op rest ih => exact ih (h.exec op)

theorem requestsSound_empty : RequestsSound Table.empty := by
  constructor <;> simp [Table.empty]

/-- The comparison a worker's digest supports: the stored digest is the submission's, and the
fields outside the digest are equal. -/
def ReplaysByDigest (r : JobRecord) (submission : JobSubmission) : Prop :=
  r.requestDigest = jobRequestDigest submission ∧ r.tenantId = submission.tenantId ∧
    r.requirements.pyEq submission.requirements ∧ r.priority = submission.priority ∧
    r.attemptBudget = submission.attemptBudget ∧
    r.executionDeadlineSeconds = submission.executionDeadlineSeconds

/-- What idempotent submission promises for a stored record: the record comes back exactly when
the submission replays it by digest, and otherwise there is a conflict and nothing changes. -/
def ReplayLaw (s : MemoryJobStore) (now : DateTime) (submission : JobSubmission)
    (r : JobRecord) : Prop :=
  (s.submit now submission = (s, .ok ⟨r, false⟩) ↔ ReplaysByDigest r submission) ∧
    (¬ ReplaysByDigest r submission →
      s.submit now submission = (s, .error (.idempotencyConflict submission.idempotencyKey)))

/-- Everything `submit` compares is equal under `==`, and the payloads differ as JSON values. -/
def ConfusesPayloads (r : JobRecord) (submission : JobSubmission) : Prop :=
  r.replays submission ∧ ¬ r.payload.value.sameJson submission.payload.value

/-- Under a stored key `submit` answers by `_replays` alone. -/
theorem submit_of_stored {s : MemoryJobStore} (hsound : RequestsSound s) (now : DateTime)
    {submission : JobSubmission} (hvalid : validateJobSubmission submission = .ok ())
    {r : JobRecord} (hr : r ∈ s.rows) (hkey : r.idempotencyKey = submission.idempotencyKey) :
    s.submit now submission =
      if r.replays submission then (s, .ok ⟨r, false⟩)
      else (s, .error (.idempotencyConflict submission.idempotencyKey)) := by
  have hfind : s.rows.find? (fun q => q.idempotencyKey = submission.idempotencyKey) = some r := by
    cases hfound : s.rows.find? fun q => q.idempotencyKey = submission.idempotencyKey with
    | none => exact absurd hkey (by simpa using List.find?_eq_none.mp hfound r hr)
    | some q =>
        have hq := List.mem_of_find?_eq_some hfound
        have hqkey : q.idempotencyKey = submission.idempotencyKey := by
          simpa using List.find?_some hfound
        have hjob := hsound.unique q hq r hr (hqkey.trans hkey.symm)
        have hget := Table.get?_key_of_mem hq
        rw [hjob, Table.get?_key_of_mem hr] at hget
        exact hget.symm
  simp only [MemoryJobStore.submit, hvalid, hfind]

/-- The law holds where the two comparisons agree. -/
theorem replayLaw_iff_replays {s : MemoryJobStore} (hsound : RequestsSound s) (now : DateTime)
    {submission : JobSubmission} (hvalid : validateJobSubmission submission = .ok ())
    {r : JobRecord} (hr : r ∈ s.rows) (hkey : r.idempotencyKey = submission.idempotencyKey) :
    ReplayLaw s now submission r ↔ (r.replays submission ↔ ReplaysByDigest r submission) := by
  have hsubmit := submit_of_stored hsound now hvalid hr hkey
  unfold ReplayLaw
  by_cases hreplays : r.replays submission
  · rw [if_pos hreplays] at hsubmit
    constructor
    · exact fun hlaw => iff_of_true hreplays (hlaw.1.mp hsubmit)
    · exact fun hiff => ⟨iff_of_true hsubmit (hiff.mp hreplays),
        fun hno => absurd (hiff.mp hreplays) hno⟩
  · rw [if_neg hreplays] at hsubmit
    have hne : s.submit now submission ≠ (s, .ok ⟨r, false⟩) := by
      rw [hsubmit]
      exact fun heq => absurd (congrArg Prod.snd heq) (by simp)
    constructor
    · exact fun hlaw => iff_of_false hreplays fun hdigest => hne (hlaw.1.mpr hdigest)
    · exact fun hiff => ⟨iff_of_false hne fun hdigest => hreplays (hiff.mpr hdigest),
        fun _ => hsubmit⟩

/-- Idempotent replay means the same request exactly when the payloads are not confused. -/
theorem replay_law_iff (run : List StoreOp) (now : DateTime) (submission : JobSubmission)
    (r : JobRecord) (hvalid : validateJobSubmission submission = .ok ())
    (hstored : r ∈ (MemoryJobStore.after Table.empty run).rows)
    (hkey : r.idempotencyKey = submission.idempotencyKey)
    (hcollision : r.requestDigest = jobRequestDigest submission →
      (canonicalRequest r.request).encode = (canonicalRequest submission).encode) :
    ReplayLaw (MemoryJobStore.after Table.empty run) now submission r ↔
      ¬ ConfusesPayloads r submission := by
  have hsound := requestsSound_after requestsSound_empty run
  have hdigest := digest_eq_iff (hsound.valid r hstored) hvalid
    fun heq => hcollision ((hsound.digest r hstored).trans heq)
  rw [← hsound.digest r hstored] at hdigest
  have hequal : r.payload.value.sameJson submission.payload.value →
      r.payload.value.pyEq submission.payload.value :=
    JsonValue.pyEq_of_sameJson _ (accepted_of_validate (hsound.valid r hstored)).payload _
  rw [replayLaw_iff_replays hsound now hvalid hstored hkey, ConfusesPayloads, not_and, not_not]
  constructor
  · exact fun hiff hreplays => (hdigest.mp (hiff.mp hreplays).1).2.2.2.2
  · refine fun hsame => ⟨fun hreplays => ?_, fun hby => ?_⟩
    · obtain ⟨⟨hcap, hver, hin, hout, -⟩, hrest⟩ := replays_iff.mp hreplays
      exact ⟨hdigest.mpr ⟨hcap, hver, hin, hout, hsame hreplays⟩, hrest⟩
    · obtain ⟨hcap, hver, hin, hout, hpayload⟩ := hdigest.mp hby.1
      exact replays_iff.mpr ⟨⟨hcap, hver, hin, hout, hequal hpayload⟩, hby.2⟩

end Runs

def flagTrue : JobSubmission := { echoJob with payload := ⟨[("flag", .bool true)], rfl⟩ }

def flagOne : JobSubmission := { echoJob with payload := ⟨[("flag", .int 1)], rfl⟩ }

theorem replay_law_same_request :
    letI := PyText.ascii
    ReplayLaw (MemoryJobStore.after Table.empty [⟨0, "t0", .submit flagTrue⟩]) 1 flagTrue
      (.ofSubmission flagTrue 0) := by
  let _ := PyText.ascii
  have hvalid : validateJobSubmission flagTrue = .ok () := by decide
  have hsubmitted : MemoryJobStore.submit Table.empty 0 flagTrue =
      (Table.put Table.empty (.ofSubmission flagTrue 0), .ok ⟨.ofSubmission flagTrue 0, true⟩) := by
    rw [MemoryJobStore.submit, hvalid]
    rfl
  have hstored : JobRecord.ofSubmission flagTrue 0 ∈
      (MemoryJobStore.after Table.empty [⟨0, "t0", .submit flagTrue⟩]).rows := by
    show _ ∈ (MemoryJobStore.submit Table.empty 0 flagTrue).1.rows
    rw [hsubmitted]
    exact List.mem_singleton_self _
  exact (replay_law_iff [⟨0, "t0", .submit flagTrue⟩] 1 flagTrue (.ofSubmission flagTrue 0) hvalid
    hstored rfl fun _ => rfl).mpr fun h => h.2 (by decide)

/-- `{"flag": 1}` is taken for a replay of `{"flag": true}`, whose digest is another. -/
theorem replay_confuses_true_and_one :
    letI := PyText.ascii
    ¬ ReplayLaw (MemoryJobStore.after Table.empty [⟨0, "t0", .submit flagTrue⟩]) 1 flagOne
      (.ofSubmission flagTrue 0) := by
  let _ := PyText.ascii
  intro hlaw
  have hdigest := (hlaw.1.mp rfl).1
  exact absurd hdigest (by decide +kernel)

end GpuWorkerPool
