import GpuWorkerPool.Base.Potential
import GpuWorkerPool.LeaseRefinement
import GpuWorkerPool.RecordInvariant

/-!
The queue is fair. A lease that could have granted a job and granted another one charges an attempt
to a job that stands before it, by priority and age, or level with it. Attempts are not given back
and are limited by the budget, so that a job is passed over no more often than the budgets of the
jobs that stand before it allow, whatever happens in between.
-/

namespace GpuWorkerPool

open Base

section Fairness

variable [PyText]

/-- The operation is a lease that could have granted the job. -/
def StoreOp.admits (j : String) (s : MemoryJobStore) (op : StoreOp) : Bool :=
  match op.call with
  | .lease query => (s.get? j).any (isCandidate query op.now)
  | _ => false

/-- The operation is a lease that granted the job. -/
def StoreOp.grantsJob (j : String) (s : MemoryJobStore) (op : StoreOp) : Bool :=
  (op.grant s).any fun key => key.1 = j

/-- The operation is a lease that granted another job in its place. -/
def StoreOp.passesOver (j : String) (s : MemoryJobStore) (op : StoreOp) : Bool :=
  op.admits j s && !op.grantsJob j s

/-- How many operations of a run from empty are of a kind. -/
def timesIn (run : List StoreOp) (p : MemoryJobStore → StoreOp → Bool) : Nat :=
  countSteps (fun s op => (op.exec s).1) p Table.empty run

/-- The other job stands before the job by priority and age, or level with it. -/
def JobRecord.StandsBehind (r q : JobRecord) : Prop := q.jobId ≠ r.jobId ∧ r.before q = false

instance (r q : JobRecord) : Decidable (r.StandsBehind q) :=
  inferInstanceAs (Decidable (_ ∧ _))

/-- The jobs that the job stands behind. -/
def MemoryJobStore.standing (s : MemoryJobStore) (r : JobRecord) : List JobRecord :=
  s.rows.filter fun q => r.StandsBehind q

/-! ### One step -/

section Step

variable {op : StoreOp} {s : MemoryJobStore}

theorem StoreOp.exists_of_grantsJob {j : String} (h : op.grantsJob j s) :
    ∃ q, s.get? j = some q := by
  obtain ⟨⟨job, t⟩, hkey, hjob⟩ := (Option.any_eq_true _ _).mp h
  obtain rfl := of_decide_eq_true hjob
  obtain ⟨q, -, hq, -⟩ := StoreOp.granted_charged hkey
  exact ⟨q, hq⟩

/-- A job that exists is kept, and charged by the lease that grants it only. -/
theorem StoreOp.exec_charges
    (hreuse : ∀ submission, op.call = .submit submission → ¬ ReusesJobId s submission) {j : String}
    {q : JobRecord} (hget : s.get? j = some q) :
    ∃ q', (op.exec s).1.get? j = some q' ∧ SameRequest q q' ∧
      q'.attempts = q.attempts + if op.grantsJob j s then 1 else 0 := by
  obtain ⟨q', hget', hsame, -⟩ := StoreOp.exec_preserves hreuse j q hget
  have hcharges : op.ChargesLease s := by
    rw [StoreOp.chargesLease_iff]
    intro ⟨submission, r, hcall, hreuses, _⟩
    exact hreuse submission hcall hreuses
  refine ⟨q', hget', hsame, ?_⟩
  by_cases hgrant : op.grantsJob j s
  · obtain ⟨⟨job, t⟩, hkey, hjob⟩ := (Option.any_eq_true _ _).mp hgrant
    obtain rfl := of_decide_eq_true hjob
    obtain ⟨r, r', hr, hr', hcharged⟩ := hcharges.granted _ t hkey
    rw [hget, Option.some_inj] at hr
    rw [hget', Option.some_inj] at hr'
    rw [if_pos hgrant, hr', hr, hcharged]
  · have hother (t : String) : op.grant s ≠ some (j, t) := fun hkey =>
      hgrant (by rw [StoreOp.grantsJob, hkey]; simp)
    obtain ⟨r', hr', hkept⟩ := hcharges.others j q hget hother
    rw [hget', Option.some_inj] at hr'
    rw [if_neg hgrant, hr', hkept, add_zero]

/-- The job that is granted in place of another stands before it or level with it. -/
theorem StoreOp.passesOver_spec {j : String} (h : op.passesOver j s) :
    ∃ r q, s.get? j = some r ∧ s.get? q.jobId = some q ∧ q.jobId ≠ j ∧ r.before q = false ∧
      op.grantsJob q.jobId s := by
  obtain ⟨now, uuid4, call⟩ := op
  rw [passesOver, Bool.and_eq_true, Bool.not_eq_true'] at h
  obtain ⟨hadmits, hother⟩ := h
  cases call with
  | lease query =>
      obtain ⟨r, hr, hcandidate⟩ := (Option.any_eq_true _ _).mp hadmits
      have hmem : r ∈ s.candidates now query :=
        List.mem_filter.mpr ⟨Table.mem_of_get? hr, hcandidate⟩
      cases hselected : s.selected now query with
      | none =>
          rw [s.selected_eq_head, ← firstOf_eq_head] at hselected
          cases hcandidates : s.candidates now query with
          | nil => exact absurd (hcandidates ▸ hmem) List.not_mem_nil
          | cons first rest =>
              rw [hcandidates] at hselected
              cases hselected
      | some q =>
          have hgrant : StoreOp.grantsJob q.jobId s ⟨now, uuid4, .lease query⟩ := by
            rw [grantsJob, grant]
            dsimp only
            rw [hselected]
            simp
          have hleast : q ∈ leastOf (s.candidates now query) := by
            apply List.mem_of_head?
            rw [← s.selected_eq_head, hselected]
          refine ⟨r, q, hr, (MemoryJobStore.selected_spec hselected).1, ?_,
            (mem_leastOf.mp hleast).2 r hmem, hgrant⟩
          rintro rfl
          exact absurd hgrant (by simp [hother])
  | _ => exact absurd hadmits (by simp [admits])

end Step

/-! ### Whole runs -/

omit [PyText] in
theorem before_of_sameRequest {r r' q q' : JobRecord} (hr : SameRequest r r')
    (hq : SameRequest q q') : r'.before q' = r.before q := by
  rw [JobRecord.before, JobRecord.before, hr.priority, hr.createdAt, hq.priority, hq.createdAt]

omit [PyText] in
theorem standsBehind_congr {r q q' : JobRecord} (hid : q'.jobId = q.jobId)
    (hsame : SameRequest q q') : r.StandsBehind q' ↔ r.StandsBehind q := by
  rw [JobRecord.StandsBehind, JobRecord.StandsBehind, hid,
    before_of_sameRequest (.refl r) hsame]

/-- The attempts that were charged ahead of a job. -/
def attemptsAhead (r q : JobRecord) : ℤ := if r.StandsBehind q then q.attempts else 0

section Runs

variable {run : List StoreOp} {j : String} {r : JobRecord}

theorem after_eq_foldl (s : MemoryJobStore) (run : List StoreOp) :
    s.after run = run.foldl (fun s op => (op.exec s).1) s := by
  induction run generalizing s with
  | nil => rfl
  | cons op run ih => exact ih _

theorem after_empty_coherent (run : List StoreOp) :
    (MemoryJobStore.after Table.empty run).AllCoherent :=
  MemoryJobStore.after_coherent (fun j r h => absurd h (by simp)) run

/-- A job is granted as often as it is charged, so within its budget. -/
theorem timesIn_grantsJob_le (hkept : JobIdsNotReused run)
    (hget : (MemoryJobStore.after Table.empty run).get? j = some r) :
    (timesIn run (StoreOp.grantsJob j) : ℤ) ≤ r.attemptBudget := by
  have hcount := countSteps_le (fun s op => (StoreOp.exec op s).1) (StoreOp.grantsJob j)
    (fun s => (s.get? j).elim 0 JobRecord.attempts) Table.empty run ?_
  · rw [← after_eq_foldl, hget] at hcount
    have hbudget := (after_empty_coherent run j r hget).attempts_le
    rw [timesIn]
    simp only [Table.get?_empty, Option.elim_none, Option.elim_some, zero_add] at hcount
    exact hcount.trans hbudget
  · intro before op rest hrun
    rw [← after_eq_foldl]
    generalize hs : MemoryJobStore.after Table.empty before = s
    have hreuse : ∀ submission, op.call = .submit submission → ¬ ReusesJobId s submission :=
      fun submission hcall => hs ▸ hkept before op rest submission hrun hcall
    cases hrow : s.get? j with
    | some q =>
        obtain ⟨q', hq', -, hcharged⟩ := StoreOp.exec_charges hreuse hrow
        rw [hq']
        exact hcharged.ge
    | none =>
        have hnot : op.grantsJob j s = false := by
          by_contra hgrant
          rw [Bool.not_eq_false] at hgrant
          obtain ⟨q, hq⟩ := StoreOp.exists_of_grantsJob hgrant
          exact absurd (hrow.symm.trans hq) (by simp)
        rw [hnot]
        cases hrow' : (op.exec s).1.get? j with
        | none => simp
        | some q' =>
            have hcoherent := op.exec_coherent (hs ▸ after_empty_coherent before) j q' hrow'
            simpa using hcoherent.attempts_nonneg

/-- Attempts ahead of a job grow where it is passed over, and never shrink. -/
theorem StoreOp.exec_ahead {op : StoreOp} {s : MemoryJobStore} (hcoherent : s.AllCoherent)
    (hreuse : ∀ submission, op.call = .submit submission → ¬ ReusesJobId s submission)
    (hlater : ∀ q, s.get? r.jobId = some q → SameRequest q r) :
    s.total (attemptsAhead r) + (if op.passesOver r.jobId s then 1 else 0) ≤
      (op.exec s).1.total (attemptsAhead r) := by
  have hnonneg : ∀ q ∈ (op.exec s).1.rows, 0 ≤ attemptsAhead r q := by
    intro q hq
    rw [attemptsAhead]
    split
    · exact (op.exec_coherent hcoherent _ q (Table.get?_key_of_mem hq)).attempts_nonneg
    · exact le_refl _
  have hkept (q : JobRecord) (hq : q ∈ s.rows) : ∃ q', (op.exec s).1.get? q.jobId = some q' ∧
      attemptsAhead r q + (if r.StandsBehind q ∧ op.grantsJob q.jobId s then 1 else 0) ≤
        attemptsAhead r q' := by
    have hget := Table.get?_key_of_mem hq
    obtain ⟨q', hq', hsame, hcharged⟩ := StoreOp.exec_charges hreuse hget
    refine ⟨q', hq', ?_⟩
    have hstands := standsBehind_congr (r := r) (Table.key_eq_of_get? hq') hsame
    rw [attemptsAhead, attemptsAhead, hcharged]
    simp only [hstands]
    split_ifs <;> simp_all
  by_cases hpassed : op.passesOver r.jobId s
  · obtain ⟨r₀, p, hr₀, hp, hother, hbefore, hgrant⟩ := StoreOp.passesOver_spec hpassed
    have hstands : r.StandsBehind p := by
      refine ⟨hother, ?_⟩
      rwa [before_of_sameRequest (hlater r₀ hr₀) (.refl p)]
    rw [if_pos hpassed]
    calc s.total (attemptsAhead r) + 1
        ≤ s.total (attemptsAhead r) + s.total fun q => if q.jobId = p.jobId then 1 else 0 :=
          Int.add_le_add_left (Table.one_le_total hp) _
      _ = s.total fun q => attemptsAhead r q + if q.jobId = p.jobId then 1 else 0 :=
          (s.total_add _ _).symm
      _ ≤ (op.exec s).1.total (attemptsAhead r) := by
          refine Table.total_le hnonneg fun q hq => ?_
          obtain ⟨q', hq', hle⟩ := hkept q hq
          refine ⟨q', hq', le_trans (Int.add_le_add_left ?_ _) hle⟩
          by_cases hqp : q.jobId = p.jobId
          · have hqeq := Table.get?_key_of_mem hq
            rw [hqp, hp, Option.some_inj] at hqeq
            subst hqeq
            rw [if_pos rfl, if_pos ⟨hstands, hgrant⟩]
          · rw [if_neg hqp]
            split <;> decide
  · rw [if_neg hpassed, add_zero]
    refine Table.total_le hnonneg fun q hq => ?_
    obtain ⟨q', hq', hle⟩ := hkept q hq
    refine ⟨q', hq', le_trans (Int.le_add_of_nonneg_right ?_) hle⟩
    split <;> decide

omit [PyText] in
theorem total_ahead_le {s : MemoryJobStore} (hcoherent : s.AllCoherent) (r : JobRecord) :
    s.total (attemptsAhead r) ≤ ((s.standing r).map JobRecord.attemptBudget).sum := by
  have hbudget : ∀ q ∈ s.rows, q.attempts ≤ q.attemptBudget := fun q hq =>
    (hcoherent _ q (Table.get?_key_of_mem hq)).attempts_le
  rw [Table.total, MemoryJobStore.standing]
  generalize s.rows = rows at hbudget ⊢
  induction rows with
  | nil => exact le_refl _
  | cons q rest ih =>
      have hrest := ih fun q hq => hbudget q (List.mem_cons_of_mem _ hq)
      have hhere := hbudget q List.mem_cons_self
      rw [List.map_cons, List.sum_cons, attemptsAhead, List.filter_cons]
      by_cases hstands : r.StandsBehind q
      · rw [if_pos hstands, if_pos (decide_eq_true hstands), List.map_cons, List.sum_cons]
        omega
      · rw [if_neg hstands, if_neg (by simpa using hstands), zero_add]
        exact hrest

/-- A job is passed over no more often than the budgets ahead of it allow. -/
theorem timesIn_passesOver_le (hkept : JobIdsNotReused run)
    (hget : (MemoryJobStore.after Table.empty run).get? j = some r) :
    (timesIn run (StoreOp.passesOver j) : ℤ) ≤
      (((MemoryJobStore.after Table.empty run).standing r).map JobRecord.attemptBudget).sum := by
  obtain rfl : r.jobId = j := Table.key_eq_of_get? hget
  have hcount := countSteps_le (fun s op => (StoreOp.exec op s).1) (StoreOp.passesOver r.jobId)
    (fun s => Table.total s (attemptsAhead r)) Table.empty run ?_
  · rw [← after_eq_foldl] at hcount
    have hempty : Table.total (Table.empty : MemoryJobStore) (attemptsAhead r) = 0 := rfl
    rw [hempty, zero_add] at hcount
    exact hcount.trans (total_ahead_le (after_empty_coherent run) r)
  · intro before op rest hrun
    rw [← after_eq_foldl]
    apply StoreOp.exec_ahead (after_empty_coherent before)
      (fun submission hcall => hkept before op rest submission hrun hcall)
    intro q hq
    have hpreserved := @preserves_of_not_reused _ before (op :: rest) []
      (by rwa [List.append_nil, ← hrun])
    obtain ⟨r', hr', hsame, -⟩ := hpreserved r.jobId q hq
    rw [← hrun, hget, Option.some_inj] at hr'
    exact hr' ▸ hsame

/-- Of the leases that could have granted a job, all grant it but as many as the budgets of the
jobs it stands behind, and it is granted within its own budget. -/
theorem lease_queue_fair (hkept : JobIdsNotReused run)
    (hget : (MemoryJobStore.after Table.empty run).get? j = some r) :
    (timesIn run (StoreOp.admits j) : ℤ) ≤ timesIn run (StoreOp.grantsJob j) +
        (((MemoryJobStore.after Table.empty run).standing r).map JobRecord.attemptBudget).sum ∧
      (timesIn run (StoreOp.grantsJob j) : ℤ) ≤ r.attemptBudget := by
  have hsplit : timesIn run (StoreOp.admits j) ≤
      timesIn run (StoreOp.grantsJob j) + timesIn run (StoreOp.passesOver j) := by
    apply countSteps_le_add
    intro s op hadmits
    by_cases hgrant : op.grantsJob j s
    · exact Or.inl hgrant
    · right
      rw [StoreOp.passesOver, hadmits, Bool.true_and, Bool.not_eq_true', ← Bool.not_eq_true]
      exact hgrant
  have hpassed := timesIn_passesOver_le hkept hget
  exact ⟨by omega, timesIn_grantsJob_le hkept hget⟩

end Runs

end Fairness

/-! ### A job behind another -/

/-- Two jobs, the second of which is submitted later, and two leases to one worker. -/
def queuedRun : List StoreOp :=
  [⟨0, "", .submit (plainJob "job-1")⟩, ⟨1, "", .submit (plainJob "job-2")⟩,
    ⟨2, "token-1", .lease plainWorker⟩, ⟨3, "token-2", .lease plainWorker⟩]

theorem queuedRun_not_reused : @JobIdsNotReused PyText.ascii queuedRun := by
  have hfirst : letI := PyText.ascii
      ¬ ReusesJobId (MemoryJobStore.after Table.empty (queuedRun.take 0)) (plainJob "job-1") := by
    decide +kernel
  have hsecond : letI := PyText.ascii
      ¬ ReusesJobId (MemoryJobStore.after Table.empty (queuedRun.take 1)) (plainJob "job-2") := by
    decide +kernel
  intro before op rest submission hrun hcall
  rcases before with _ | ⟨a, _ | ⟨b, _ | ⟨c, _ | ⟨d, before⟩⟩⟩⟩ <;>
    simp only [queuedRun, List.nil_append, List.cons_append, List.cons.injEq] at hrun
  · obtain ⟨rfl, -⟩ := hrun
    cases hcall
    exact hfirst
  · obtain ⟨rfl, rfl, -⟩ := hrun
    cases hcall
    exact hsecond
  · obtain ⟨-, -, rfl, -⟩ := hrun
    cases hcall
  · obtain ⟨-, -, -, rfl, -⟩ := hrun
    cases hcall
  · obtain ⟨-, -, -, -, hnil⟩ := hrun
    simp at hnil

/-- The second of two jobs is admitted twice and passed over once. -/
theorem lease_queue_fair_of_two :
    letI := PyText.ascii
    ∃ r, (MemoryJobStore.after Table.empty queuedRun).get? "job-2" = some r ∧
      (timesIn queuedRun (StoreOp.admits "job-2") : ℤ) ≤
        timesIn queuedRun (StoreOp.grantsJob "job-2") +
          (((MemoryJobStore.after Table.empty queuedRun).standing r).map
            JobRecord.attemptBudget).sum ∧
      timesIn queuedRun (StoreOp.admits "job-2") = 2 ∧
      timesIn queuedRun (StoreOp.passesOver "job-2") = 1 := by
  have hstored : letI := PyText.ascii
      ((MemoryJobStore.after Table.empty queuedRun).get? "job-2").isSome := by decide +kernel
  have htimes : letI := PyText.ascii
      timesIn queuedRun (StoreOp.admits "job-2") = 2 ∧
        timesIn queuedRun (StoreOp.passesOver "job-2") = 1 := by
    decide +kernel
  obtain ⟨r, hr⟩ := Option.isSome_iff_exists.mp hstored
  exact ⟨r, hr, (@lease_queue_fair PyText.ascii _ _ _ queuedRun_not_reused hr).1, htimes⟩

end GpuWorkerPool
