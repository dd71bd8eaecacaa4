import GpuWorkerPool.StoreFencing
import Mathlib.Data.List.Induction

/-!
What a run of the job store does to jobs that exist. Every operation but one keeps a stored job's
request and leaves a settled job alone. The exception is a submission under a new idempotency key
whose job id is stored already: it is written over the old record.
-/

namespace GpuWorkerPool

open Base

/-- The request of a record, which belongs to the job and not to its progress. -/
structure SameRequest (r r' : JobRecord) : Prop where
  idempotencyKey : r'.idempotencyKey = r.idempotencyKey
  capabilityId : r'.capabilityId = r.capabilityId
  contractVersion : r'.contractVersion = r.contractVersion
  inputKeys : r'.inputKeys = r.inputKeys
  outputKey : r'.outputKey = r.outputKey
  payload : r'.payload = r.payload
  tenantId : r'.tenantId = r.tenantId
  requirements : r'.requirements = r.requirements
  priority : r'.priority = r.priority
  attemptBudget : r'.attemptBudget = r.attemptBudget
  executionDeadlineSeconds : r'.executionDeadlineSeconds = r.executionDeadlineSeconds
  requestDigest : r'.requestDigest = r.requestDigest
  createdAt : r'.createdAt = r.createdAt

theorem SameRequest.refl (r : JobRecord) : SameRequest r r := by
  constructor <;> rfl

theorem SameRequest.trans {r q p : JobRecord} (h : SameRequest r q) (h' : SameRequest q p) :
    SameRequest r p where
  idempotencyKey := h'.idempotencyKey.trans h.idempotencyKey
  capabilityId := h'.capabilityId.trans h.capabilityId
  contractVersion := h'.contractVersion.trans h.contractVersion
  inputKeys := h'.inputKeys.trans h.inputKeys
  outputKey := h'.outputKey.trans h.outputKey
  payload := h'.payload.trans h.payload
  tenantId := h'.tenantId.trans h.tenantId
  requirements := h'.requirements.trans h.requirements
  priority := h'.priority.trans h.priority
  attemptBudget := h'.attemptBudget.trans h.attemptBudget
  executionDeadlineSeconds := h'.executionDeadlineSeconds.trans h.executionDeadlineSeconds
  requestDigest := h'.requestDigest.trans h.requestDigest
  createdAt := h'.createdAt.trans h.createdAt

/-- Every job of `s` is in `s'` with its request, and untouched if it was settled. -/
def Preserves (s s' : MemoryJobStore) : Prop :=
  ∀ j r, s.get? j = some r →
    ∃ r', s'.get? j = some r' ∧ SameRequest r r' ∧ (r.status.terminal → r' = r)

theorem Preserves.refl (s : MemoryJobStore) : Preserves s s :=
  fun _ r hget => ⟨r, hget, .refl r, fun _ => rfl⟩

theorem Preserves.trans {s s' s'' : MemoryJobStore} (h : Preserves s s') (h' : Preserves s' s'') :
    Preserves s s'' := by
  intro j r hget
  obtain ⟨r', hget', hsame, hsettled⟩ := h j r hget
  obtain ⟨r'', hget'', hsame', hsettled'⟩ := h' j r' hget'
  refine ⟨r'', hget'', hsame.trans hsame', fun hterminal => ?_⟩
  obtain rfl := hsettled hterminal
  exact hsettled' hterminal

theorem JobRecord.Live.not_terminal {r : JobRecord} {t : String} (h : r.Live t) :
    r.status.terminal = false := by
  rw [h.1]
  rfl

section Runs

variable [PyText]

theorem not_terminal_of_candidate {query : LeaseQuery} {now : DateTime} {r : JobRecord}
    (h : isCandidate query now r) : r.status.terminal = false := by
  simp only [isCandidate, Bool.and_eq_true, JobRecord.isLeasable] at h
  cases hstatus : r.status <;> simp [hstatus, JobStatus.terminal] at h ⊢

/-- The submission would be stored as a new job over a job that has its id. -/
def ReusesJobId (s : MemoryJobStore) (submission : JobSubmission) : Prop :=
  validateJobSubmission submission = .ok () ∧
    (∀ r ∈ s.rows, r.idempotencyKey ≠ submission.idempotencyKey) ∧
    (s.get? submission.jobId).isSome

instance (s : MemoryJobStore) (submission : JobSubmission) : Decidable (ReusesJobId s submission) :=
  inferInstanceAs (Decidable (_ ∧ _ ∧ _))

theorem StoreOp.exec_preserves {op : StoreOp} {s : MemoryJobStore}
    (hreuse : ∀ submission, op.call = .submit submission → ¬ ReusesJobId s submission) :
    Preserves s (op.exec s).1 := by
  intro j r hget
  have hrow := op.exec_row s j
  rw [hget] at hrow
  generalize hrow' : (op.exec s).1.get? j = row' at hrow ⊢
  generalize hcall : op.call = call at hrow
  have hmoved : ∀ r', SameRequest r r' → r.status.terminal = false →
      ∃ r'', some r' = some r'' ∧ SameRequest r r'' ∧ (r.status.terminal → r'' = r) :=
    fun r' hsame hactive => ⟨r', rfl, hsame, fun h => absurd h (by simp [hactive])⟩
  cases hrow with
  | kept => exact ⟨r, rfl, .refl r, fun _ => rfl⟩
  | submitted _ hvalid hnew hj =>
      exact absurd ⟨hvalid, hnew, by rw [hj, hget]; rfl⟩ (hreuse _ hcall)
  | cancelled hactive => exact hmoved _ (by constructor <;> rfl) hactive
  | leased hchosen _ =>
      exact hmoved _ (by constructor <;> rfl)
        (not_terminal_of_candidate (MemoryJobStore.selected_spec hchosen).2)
  | heartbeaten hlive => exact hmoved _ (by constructor <;> rfl) hlive.not_terminal
  | completed hlive => exact hmoved _ (by constructor <;> rfl) hlive.not_terminal
  | failed hlive => exact hmoved _ (by constructor <;> rfl) hlive.not_terminal
  | released hlive => exact hmoved _ (by constructor <;> rfl) hlive.not_terminal
  | exhausted hdue =>
      refine hmoved _ (by constructor <;> rfl) ?_
      simp only [JobRecord.isExhausted, Bool.and_eq_true, decide_eq_true_eq] at hdue
      rw [hdue.1.1]
      rfl

/-- No submission of the run reuses the id of a stored job. -/
def JobIdsNotReused (run : List StoreOp) : Prop :=
  ∀ before op rest submission, run = before ++ op :: rest → op.call = .submit submission →
    ¬ ReusesJobId (MemoryJobStore.after Table.empty before) submission

theorem preserves_of_not_reused {before middle rest : List StoreOp}
    (h : JobIdsNotReused (before ++ (middle ++ rest))) :
    Preserves (MemoryJobStore.after Table.empty before)
      (MemoryJobStore.after Table.empty (before ++ middle)) := by
  induction middle generalizing before with
  | nil =>
      rw [List.append_nil]
      exact .refl _
  | cons op middle ih =>
      have hstep : Preserves (MemoryJobStore.after Table.empty before)
          (MemoryJobStore.after Table.empty (before ++ [op])) := by
        rw [MemoryJobStore.after_concat]
        exact StoreOp.exec_preserves fun submission hcall => h before op _ submission rfl hcall
      have hfree : JobIdsNotReused ((before ++ [op]) ++ (middle ++ rest)) := by simpa using h
      have hrest := ih hfree
      rw [List.append_assoc] at hrest
      exact hstep.trans hrest

/-- The store under a new job holds exactly the record that `submit` returns. -/
theorem submit_created {s : MemoryJobStore} {now : DateTime} {submission : JobSubmission}
    {record : JobRecord} (h : (s.submit now submission).2 = .ok ⟨record, true⟩) :
    (s.submit now submission).1 = s.put record := by
  unfold MemoryJobStore.submit at h ⊢
  cases hvalid : validateJobSubmission submission with
  | error error => simp [hvalid] at h
  | ok value =>
      cases hfind : s.rows.find? fun r => r.idempotencyKey = submission.idempotencyKey with
      | some r =>
          simp only [hvalid, hfind] at h
          split at h <;> simp at h
      | none =>
          simp only [hvalid, hfind, Except.ok.injEq, SubmissionResult.mk.injEq] at h
          simp only [h.1]

theorem submit_of_new {s : MemoryJobStore} {submission : JobSubmission} (now : DateTime)
    (hvalid : validateJobSubmission submission = .ok ())
    (hnew : ∀ r ∈ s.rows, r.idempotencyKey ≠ submission.idempotencyKey) :
    s.submit now submission =
      (s.put (.ofSubmission submission now), .ok ⟨.ofSubmission submission now, true⟩) := by
  have hfind : (s.rows.find? fun r => r.idempotencyKey = submission.idempotencyKey) = none := by
    simpa using hnew
  simp only [MemoryJobStore.submit, hvalid, hfind]

theorem StoreOp.get?_exec_of_new {op : StoreOp} {s : MemoryJobStore} {submission : JobSubmission}
    (hcall : op.call = .submit submission) (hvalid : validateJobSubmission submission = .ok ())
    (hnew : ∀ r ∈ s.rows, r.idempotencyKey ≠ submission.idempotencyKey) :
    (op.exec s).1.get? submission.jobId = some (.ofSubmission submission op.now) := by
  have hput := congrArg Prod.fst (submit_of_new op.now hvalid hnew)
  rw [exec, hcall]
  exact (congrArg (Table.get? · submission.jobId) hput).trans
    (Table.get?_put_self s (.ofSubmission submission op.now))

/-- Every stored job was created by a submission of the run. -/
theorem created_of_stored {run : List StoreOp} {j : String} {r : JobRecord}
    (hget : (MemoryJobStore.after Table.empty run).get? j = some r) :
    ∃ before op middle submission record, run = before ++ op :: middle ∧
      op.call = .submit submission ∧ record.jobId = j ∧
      ((MemoryJobStore.after Table.empty before).submit op.now submission).2 =
        .ok ⟨record, true⟩ := by
  induction run using List.reverseRecOn generalizing r with
  | nil => exact absurd hget (by simp [MemoryJobStore.after])
  | append_singleton run op ih =>
      rw [MemoryJobStore.after_concat] at hget
      have hrow := op.exec_row (MemoryJobStore.after Table.empty run) j
      rw [hget] at hrow
      cases hold : (MemoryJobStore.after Table.empty run).get? j with
      | some q =>
          obtain ⟨before, first, middle, submission, record, rfl, hcreated⟩ := ih hold
          exact ⟨before, first, middle ++ [op], submission, record, by simp, hcreated⟩
      | none =>
          rw [hold] at hrow
          generalize hcall : op.call = call at hrow
          cases hrow with
          | submitted _ hvalid hnew hj =>
              refine ⟨run, op, [], _, .ofSubmission _ op.now, rfl, hcall, hj, ?_⟩
              rw [submit_of_new op.now hvalid hnew]

/-- What the store promises about the jobs of a run: a job once created is there at every later
moment with the request it was created with, and a settled record never changes again. -/
structure JobsKept (run : List StoreOp) : Prop where
  created : ∀ before op middle rest submission record,
    run = before ++ op :: (middle ++ rest) → op.call = .submit submission →
    ((MemoryJobStore.after Table.empty before).submit op.now submission).2 = .ok ⟨record, true⟩ →
    ∃ r, (MemoryJobStore.after Table.empty (before ++ op :: middle)).get? record.jobId = some r ∧
      SameRequest record r
  settled : ∀ before middle rest j r, run = before ++ (middle ++ rest) →
    (MemoryJobStore.after Table.empty before).get? j = some r → r.status.terminal →
    (MemoryJobStore.after Table.empty (before ++ middle)).get? j = some r

/-- Jobs are never lost, rewritten or resurrected exactly in the runs that reuse no job id. -/
theorem jobs_kept_iff (run : List StoreOp) : JobsKept run ↔ JobIdsNotReused run := by
  constructor
  · rintro hkept before op rest submission rfl hcall ⟨hvalid, hnew, hstored⟩
    obtain ⟨q, hq⟩ := Option.isSome_iff_exists.mp hstored
    obtain ⟨first, firstOp, middle, submission', record, rfl, hcall', hj, hcreated⟩ :=
      created_of_stored hq
    obtain ⟨r, hr, hsame⟩ := hkept.created first firstOp middle (op :: rest) submission' record
      (by simp) hcall' hcreated
    obtain ⟨r', hr', hsame'⟩ := hkept.created first firstOp (middle ++ [op]) rest submission' record
      (by simp) hcall' hcreated
    have hwritten : r' = .ofSubmission submission op.now := by
      rw [← List.cons_append, ← List.append_assoc, MemoryJobStore.after_concat, hj,
        StoreOp.get?_exec_of_new hcall hvalid hnew, Option.some_inj] at hr'
      exact hr'.symm
    rw [hj] at hr
    have hkey : r.idempotencyKey = submission.idempotencyKey := by
      rw [hsame.idempotencyKey, ← hsame'.idempotencyKey, hwritten]
      rfl
    exact hnew r (Table.mem_of_get? hr) hkey
  · intro hfree
    constructor
    · rintro before op middle rest submission record rfl hcall hcreated
      have hstored : (MemoryJobStore.after Table.empty (before ++ [op])).get? record.jobId =
          some record := by
        rw [MemoryJobStore.after_concat, StoreOp.exec, hcall]
        exact (congrArg (Table.get? · record.jobId) (submit_created hcreated)).trans
          (Table.get?_put_self _ record)
      have hfree' : JobIdsNotReused ((before ++ [op]) ++ (middle ++ rest)) := by simpa using hfree
      obtain ⟨r, hr, hsame, -⟩ := preserves_of_not_reused hfree' _ _ hstored
      exact ⟨r, by simpa using hr, hsame⟩
    · rintro before middle rest j r rfl hget hterminal
      obtain ⟨r', hr', -, hsettled⟩ := preserves_of_not_reused hfree j r hget
      exact hsettled hterminal ▸ hr'

end Runs

/-- A job is submitted, leased and completed. -/
def finishedRun : List StoreOp :=
  [⟨0, "t0", .submit echoJob⟩, ⟨1, "t1", .lease echoQuery⟩,
    ⟨2, "t2", .complete "job-1" "t1" "text/plain" "" 0 []⟩]

/-- The job of another request, under the id of the finished one. -/
def reusedId : StoreOp := ⟨3, "t3", .submit { echoJob with idempotencyKey := "key-2" }⟩

/-- The second submission puts the completed job back into the queue. -/
theorem jobs_not_kept :
    letI := PyText.ascii
    ¬ JobsKept (finishedRun ++ [reusedId]) := by
  let _ := PyText.ascii
  intro hkept
  have hbefore : ((MemoryJobStore.after Table.empty finishedRun).get? "job-1").map
      JobRecord.status = some .completed := by decide
  have hafter : ((MemoryJobStore.after Table.empty (finishedRun ++ [reusedId])).get? "job-1").map
      JobRecord.status = some .queued := by decide
  obtain ⟨r, hget, hstatus⟩ := Option.map_eq_some_iff.mp hbefore
  have hkeep := hkept.settled finishedRun [reusedId] [] "job-1" r rfl hget (by rw [hstatus]; rfl)
  rw [hkeep, Option.map_some, hstatus] at hafter
  exact absurd hafter (by decide)

end GpuWorkerPool
