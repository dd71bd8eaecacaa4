import GpuWorkerPool.StoreHistory

/-!
The shape of a job record. The optional fields of a record are set exactly in the statuses they
belong to, whichever operations wrote it. Attempts are charged by leases only, one at a time. The
exception is again the submission that is written over a stored job: the new record starts without
attempts.
-/

namespace GpuWorkerPool

open Base

/-- Each optional field is set in its own status and in no other, and attempts stay in budget. -/
structure JobRecord.Coherent (r : JobRecord) : Prop where
  claimToken : r.claimToken.isSome ↔ r.status = .processing
  leasedBy : r.leasedBy.isSome ↔ r.status = .processing
  leaseUntil : r.leaseUntil.isSome ↔ r.status = .processing
  attempts_nonneg : 0 ≤ r.attempts
  attempts_le : r.attempts ≤ r.attemptBudget
  outputContentType : r.outputContentType.isSome ↔ r.status = .completed
  outputSha256 : r.outputSha256.isSome ↔ r.status = .completed
  outputByteLength : r.outputByteLength.isSome ↔ r.status = .completed
  executedBy : r.executedBy.isSome ↔ r.status = .completed
  cancelledAt : r.cancelledAt.isSome ↔ r.status = .cancelled
  failureCode : r.failureCode.isSome ↔ r.status = .failed

/-- Every stored record is coherent. -/
def MemoryJobStore.AllCoherent (s : MemoryJobStore) : Prop :=
  ∀ j r, s.get? j = some r → r.Coherent

namespace JobRecord

variable {r : JobRecord}

theorem Coherent.cancelled (h : r.Coherent) (hactive : r.status.terminal = false)
    (now : DateTime) : (r.cancelled now).Coherent := by
  have hcompleted : r.status ≠ .completed := fun heq => absurd hactive (by simp [heq, JobStatus.terminal])
  have hfailed : r.status ≠ .failed := fun heq => absurd hactive (by simp [heq, JobStatus.terminal])
  refine ⟨?_, ?_, ?_, h.attempts_nonneg, h.attempts_le, ?_, ?_, ?_, ?_, ?_, ?_⟩ <;>
    simp [JobRecord.cancelled, h.outputContentType, h.outputSha256, h.outputByteLength,
      h.executedBy, h.failureCode, hcompleted, hfailed]

theorem Coherent.leased (h : r.Coherent) (hactive : r.status.terminal = false)
    (hleft : r.attempts < r.attemptBudget) (now : DateTime) (uuid4 : String)
    (query : LeaseQuery) : (r.leased now uuid4 query).Coherent := by
  have hother : ∀ status : JobStatus, status.terminal = true → r.status ≠ status :=
    fun status hterminal heq => absurd hactive (by simp [heq, hterminal])
  have hcharged : 0 ≤ r.attempts + 1 := Int.le_add_one h.attempts_nonneg
  refine ⟨?_, ?_, ?_, hcharged, hleft, ?_, ?_, ?_, ?_, ?_, ?_⟩ <;>
    simp [JobRecord.leased, h.outputContentType, h.outputSha256, h.outputByteLength, h.executedBy,
      h.cancelledAt, h.failureCode, hother .completed rfl, hother .cancelled rfl,
      hother .failed rfl]

theorem Coherent.heartbeaten (h : r.Coherent) (hstatus : r.status = .processing) (now : DateTime)
    (leaseSeconds : Int) (progressPercent : Option Int) :
    (r.heartbeaten now leaseSeconds progressPercent).Coherent :=
  ⟨h.claimToken, h.leasedBy, by simp [JobRecord.heartbeaten, hstatus], h.attempts_nonneg,
    h.attempts_le, h.outputContentType, h.outputSha256, h.outputByteLength, h.executedBy,
    h.cancelledAt, h.failureCode⟩

theorem Coherent.completed (h : r.Coherent) (hstatus : r.status = .processing) (now : DateTime)
    (contentType sha256 : String) (byteLength : Int)
    (executionMetadata : List (String × JsonValue)) :
    (r.completed now contentType sha256 byteLength executionMetadata).Coherent := by
  refine ⟨?_, ?_, ?_, h.attempts_nonneg, h.attempts_le, ?_, ?_, ?_, ?_, ?_, ?_⟩ <;>
    simp [JobRecord.completed, JobRecord.settled, h.leasedBy, h.cancelledAt, h.failureCode, hstatus]

theorem Coherent.failed (h : r.Coherent) (hstatus : r.status = .processing) (now : DateTime)
    (reason : String) (failureCode : JobFailureCode) (failureMessage : Option String)
    (retryable : Bool) :
    (r.failed now reason failureCode failureMessage retryable).Coherent := by
  refine ⟨?_, ?_, ?_, h.attempts_nonneg, h.attempts_le, ?_, ?_, ?_, ?_, ?_, ?_⟩ <;>
    simp [JobRecord.failed, JobRecord.settled, h.outputContentType, h.outputSha256,
      h.outputByteLength, h.executedBy, h.cancelledAt, hstatus]

theorem Coherent.released (h : r.Coherent) (hstatus : r.status = .processing) (now : DateTime)
    (reason : String) : (r.released now reason).Coherent := by
  refine ⟨?_, ?_, ?_, h.attempts_nonneg, h.attempts_le, ?_, ?_, ?_, ?_, ?_, ?_⟩ <;>
    simp [JobRecord.released, JobRecord.settled, h.outputContentType, h.outputSha256,
      h.outputByteLength, h.executedBy, h.cancelledAt, h.failureCode, hstatus]

theorem Coherent.exhausted (h : r.Coherent) {now : DateTime} (hdue : r.isExhausted now) :
    (r.exhausted now).Coherent := by
  have hstatus : r.status = .processing := by
    simp only [JobRecord.isExhausted, Bool.and_eq_true, decide_eq_true_eq] at hdue
    exact hdue.1.1
  refine ⟨?_, ?_, ?_, h.attempts_nonneg, h.attempts_le, ?_, ?_, ?_, ?_, ?_, ?_⟩ <;>
    simp [JobRecord.exhausted, JobRecord.settled, h.outputContentType, h.outputSha256,
      h.outputByteLength, h.executedBy, h.cancelledAt, hstatus]

theorem coherent_ofSubmission [FloatRepr] {submission : JobSubmission}
    (h : validateJobSubmission submission = .ok ()) (now : DateTime) :
    (ofSubmission submission now).Coherent := by
  have hbudget : 0 ≤ submission.attemptBudget :=
    le_trans Int.one_nonneg (accepted_of_validate h).attemptBudget
  refine ⟨?_, ?_, ?_, le_refl _, hbudget, ?_, ?_, ?_, ?_, ?_, ?_⟩ <;> simp [ofSubmission]

end JobRecord

section Runs

variable [PyText]

/-- Every operation keeps every record coherent, whatever its arguments and the clock. -/
theorem StoreOp.exec_coherent (op : StoreOp) {s : MemoryJobStore} (h : s.AllCoherent) :
    (op.exec s).1.AllCoherent := by
  intro j r' hget
  have hrow := op.exec_row s j
  rw [hget] at hrow
  generalize hold : s.get? j = row at hrow
  generalize op.call = call at hrow
  cases hrow with
  | kept => exact h j r' hold
  | submitted _ hvalid _ _ => exact JobRecord.coherent_ofSubmission hvalid _
  | cancelled hactive => exact (h j _ hold).cancelled hactive _
  | leased hchosen _ =>
      have hcandidate := (MemoryJobStore.selected_spec hchosen).2
      have hactive := not_terminal_of_candidate hcandidate
      simp only [isCandidate, Bool.and_eq_true, decide_eq_true_eq] at hcandidate
      exact (h j _ hold).leased hactive hcandidate.1.1.1.2 _ _ _
  | heartbeaten hlive => exact (h j _ hold).heartbeaten hlive.1 _ _ _
  | completed hlive => exact (h j _ hold).completed hlive.1 _ _ _ _ _
  | failed hlive => exact (h j _ hold).failed hlive.1 _ _ _ _ _
  | released hlive => exact (h j _ hold).released hlive.1 _ _
  | exhausted hdue => exact (h j _ hold).exhausted hdue

theorem MemoryJobStore.after_coherent {s : MemoryJobStore} (h : s.AllCoherent)
    (run : List StoreOp) : (s.after run).AllCoherent := by
  induction run generalizing s with
  | nil => exact h
  | cons op rest ih => exact ih (op.exec_coherent h)

/-- A lease charges the job it grants one attempt, and nothing else touches attempts. -/
structure StoreOp.ChargesLease (op : StoreOp) (s : MemoryJobStore) : Prop where
  granted : ∀ j t, op.grant s = some (j, t) → ∃ r r', s.get? j = some r ∧
    (op.exec s).1.get? j = some r' ∧ r'.attempts = r.attempts + 1
  others : ∀ j r, s.get? j = some r → (∀ t, op.grant s ≠ some (j, t)) →
    ∃ r', (op.exec s).1.get? j = some r' ∧ r'.attempts = r.attempts

/-- The operation writes a new job over a stored one that has attempts. -/
def StoreOp.ResetsAttempts (op : StoreOp) (s : MemoryJobStore) : Prop :=
  ∃ submission r, op.call = .submit submission ∧ ReusesJobId s submission ∧
    s.get? submission.jobId = some r ∧ r.attempts ≠ 0

theorem StoreOp.granted_charged {op : StoreOp} {s : MemoryJobStore} {j t : String}
    (h : op.grant s = some (j, t)) : ∃ r r', s.get? j = some r ∧
      (op.exec s).1.get? j = some r' ∧ r'.attempts = r.attempts + 1 := by
  obtain ⟨now, uuid4, call⟩ := op
  cases call with
  | lease query =>
      obtain ⟨r, hchosen, heq⟩ := Option.map_eq_some_iff.mp h
      obtain ⟨rfl, rfl⟩ := Prod.mk.inj heq
      refine ⟨r, r.leased now uuid4 query, (MemoryJobStore.selected_spec hchosen).1, ?_, rfl⟩
      have hlease : s.lease now uuid4 query =
          (s.put (r.leased now uuid4 query), some (r.leased now uuid4 query)) := by
        rw [MemoryJobStore.lease]
        simp only [hchosen]
      show (s.lease now uuid4 query).1.get? r.jobId = _
      rw [hlease]
      exact Table.get?_put_self s (r.leased now uuid4 query)
  | _ => exact absurd h (by simp [grant])

/-- One operation charges leases only, unless it resets attempts. -/
theorem StoreOp.chargesLease_iff (op : StoreOp) (s : MemoryJobStore) :
    op.ChargesLease s ↔ ¬ op.ResetsAttempts s := by
  constructor
  · rintro hcharges ⟨submission, r, hcall, hreuses, hget, hattempts⟩
    obtain ⟨r', hget', hsame⟩ := hcharges.others _ r hget fun t => by simp [grant, hcall]
    rw [op.get?_exec_of_new hcall hreuses.1 hreuses.2.1, Option.some_inj] at hget'
    exact hattempts (hsame.symm.trans (hget' ▸ rfl))
  · intro hkeeps
    refine ⟨fun j t => granted_charged, fun j r hget hother => ?_⟩
    have hrow := op.exec_row s j
    rw [hget] at hrow
    generalize (op.exec s).1.get? j = row' at hrow ⊢
    generalize hcall : op.call = call at hrow
    cases hrow with
    | kept => exact ⟨r, rfl, rfl⟩
    | submitted _ hvalid hnew hj =>
        subst hj
        by_cases hattempts : r.attempts = 0
        · exact ⟨_, rfl, hattempts.symm⟩
        · exact absurd ⟨_, r, hcall, ⟨hvalid, hnew, by rw [hget]; rfl⟩, hget, hattempts⟩ hkeeps
    | leased hchosen here =>
        refine absurd ?_ (hother op.uuid4)
        rw [grant, hcall]
        exact (congrArg (Option.map _) hchosen).trans (here ▸ rfl)
    | _ => exact ⟨_, rfl, rfl⟩

/-- What holds of the records in a run: each one is coherent at every moment, and every operation
charges leases only. -/
structure RecordsSound (run : List StoreOp) : Prop where
  coherent : ∀ before rest, run = before ++ rest →
    (MemoryJobStore.after Table.empty before).AllCoherent
  charges : ∀ before op rest, run = before ++ op :: rest →
    op.ChargesLease (MemoryJobStore.after Table.empty before)

/-- Records are coherent in every run, and attempts are charged by leases only exactly in the runs
in which no submission is written over a job with attempts. -/
theorem records_sound_iff (run : List StoreOp) :
    RecordsSound run ↔ ∀ before op rest, run = before ++ op :: rest →
      ¬ op.ResetsAttempts (MemoryJobStore.after Table.empty before) := by
  have hempty : MemoryJobStore.AllCoherent Table.empty := fun j r h => absurd h (by simp)
  constructor
  · exact fun h before op rest hrun => (op.chargesLease_iff _).mp (h.charges before op rest hrun)
  · intro h
    exact ⟨fun before rest _ => MemoryJobStore.after_coherent hempty before,
      fun before op rest hrun => (op.chargesLease_iff _).mpr (h before op rest hrun)⟩

end Runs

/-- The job of the finished run has one attempt, and none once its id is reused. -/
theorem attempts_reset_by_reused_id :
    letI := PyText.ascii
    ¬ RecordsSound (finishedRun ++ [reusedId]) := by
  let _ := PyText.ascii
  intro hsound
  have hcharges := hsound.charges finishedRun reusedId [] rfl
  have hbefore : ((MemoryJobStore.after Table.empty finishedRun).get? "job-1").map
      JobRecord.attempts = some 1 := by decide
  have hafter : ((reusedId.exec (MemoryJobStore.after Table.empty finishedRun)).1.get? "job-1").map
      JobRecord.attempts = some 0 := by decide
  obtain ⟨r, hget, hattempts⟩ := Option.map_eq_some_iff.mp hbefore
  obtain ⟨r', hget', hsame⟩ := hcharges.others "job-1" r hget fun t => by
    simp [StoreOp.grant, reusedId]
  rw [hget', Option.map_some, hsame, hattempts] at hafter
  exact absurd hafter (by decide)

end GpuWorkerPool
