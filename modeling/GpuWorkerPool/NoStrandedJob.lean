import GpuWorkerPool.Base.Potential
import GpuWorkerPool.Interference
import GpuWorkerPool.LeaseRefinement

/-!
No job is stranded. A job that is not settled is queued with attempts left, or it is processed
under a lease that names its token, its worker and its end. Every operation of the store but
`release` keeps this by itself. `release` keeps it because the coordinator calls it only for a
record with attempts left, and the token it presents still opens the lease of that record.
-/

namespace GpuWorkerPool

open Base WorkerPoolService

/-- Some operation will move the job on, or it is settled. -/
inductive JobRecord.Served (r : JobRecord) : Prop
  | settled (status : r.status.terminal = true)
  | queued (status : r.status = .queued) (left : r.attempts < r.attemptBudget)
  | processing (status : r.status = .processing) (claimToken : r.claimToken.isSome)
      (leasedBy : r.leasedBy.isSome) (leaseUntil : r.leaseUntil.isSome)

/-- Every stored job is served. -/
def MemoryJobStore.AllServed (s : MemoryJobStore) : Prop :=
  ∀ j r, s.get? j = some r → r.Served

/-- What an operation needs so as to keep every job served: a `release` leaves attempts. -/
def JobStoreCall.LeavesAttempts (s : MemoryJobStore) (call : JobStoreCall) : Prop :=
  ∀ j t reason r, call = .release j t reason → s.held (j, t) = some r →
    r.attempts < r.attemptBudget

theorem leavesAttempts_of_ne {s : MemoryJobStore} {call : JobStoreCall}
    (h : ∀ j t reason, call ≠ .release j t reason) : call.LeavesAttempts s :=
  fun j t reason _ hcall => absurd hcall (h j t reason)

/-- Tokens are fresh and every job is served. -/
structure World.NoneStranded (w : World) : Prop where
  fresh : Function.Injective w.tokens
  served : w.jobs.AllServed

theorem World.NoneStranded.of_initial {w : World} (h : w.Initial) : w.NoneStranded where
  fresh := h.fresh
  served := by
    rw [h.jobs]
    intro j r hget
    exact absurd hget (by simp)

section Invariant

variable [PyText]

theorem MemoryJobStore.AllServed.exec {s : MemoryJobStore} (h : s.AllServed) {now : DateTime}
    {uuid4 : String} {call : JobStoreCall} (hrelease : call.LeavesAttempts s) :
    (call.exec now uuid4 s).1.AllServed := by
  intro j r' hget'
  have hrow := call.exec_row now uuid4 s j
  rw [hget'] at hrow
  generalize hget : s.get? j = row at hrow
  cases hrow with
  | kept => exact h j r' hget
  | submitted _ hvalid _ _ => exact .queued rfl (accepted_of_validate hvalid).attemptBudget
  | cancelled _ => exact .settled rfl
  | leased _ _ => exact .processing rfl rfl rfl rfl
  | heartbeaten hlive =>
      cases h j _ hget with
      | settled hstatus => exact absurd hstatus (by simp [hlive.1, JobStatus.terminal])
      | queued hstatus _ => exact absurd hstatus (by simp [hlive.1])
      | processing hstatus htoken hleasedBy _ => exact .processing hstatus htoken hleasedBy rfl
  | completed _ => exact .settled rfl
  | failed _ => exact .settled rfl
  | released hlive =>
      have hleft := hrelease _ _ _ _ rfl (MemoryJobStore.held_eq_some_iff.mpr ⟨hget, hlive⟩)
      exact .queued rfl hleft
  | exhausted _ => exact .settled rfl

theorem World.NoneStranded.exec {w : World} (h : w.NoneStranded) {action : Action}
    (hrelease : ∀ call, action = .jobs call → call.LeavesAttempts w.jobs) :
    (action.exec w).1.NoneStranded where
  fresh := by
    rw [Action.exec_tokens]
    exact h.fresh
  served := by
    by_cases hjobs : ∃ call, action = .jobs call
    · obtain ⟨call, rfl⟩ := hjobs
      exact h.served.exec (hrelease call rfl)
    · rw [(Action.exec_jobs_of_ne (fun call hcall => hjobs ⟨call, hcall⟩) w).1]
      exact h.served

abbrev servedContract : Prog.Contract Action World where
  inv := World.NoneStranded
  allow _ _ := True
  rely := World.Evolves
  guar := World.Evolves

/-- A program that never calls `release` keeps every job served. -/
theorem sat_of_never_releases {α : Type} {p : Coroutine α}
    (h : p.Awaits (OnJobs fun call => ∀ j t reason, call ≠ .release j t reason)) (w : World) :
    Prog.Sat Action.exec servedContract p w fun _ _ => True := by
  refine Prog.sat_of_awaits ?_ h w
  intro action v haction hinv _
  refine ⟨hinv.exec ?_, Action.exec_evolves hinv.fresh action⟩
  rintro call rfl
  exact leavesAttempts_of_ne haction

/-- The coordinator's `release` judges the lease by the record it read, which is the record of the
lease that the token still opens. -/
theorem sat_release (cfg : ServiceConfig) (identity : WorkerIdentity)
    {jobId claimToken reason : String} {w : World} (hissued : w.Issued claimToken) :
    Prog.Sat Action.exec servedContract (release cfg identity jobId claimToken reason) w
      fun _ _ => True := by
  refine Prog.sat_bind.mpr ((sat_ownedJob (fun v _ => World.Evolves.refl v) World.Evolves.trans cfg identity
    jobId w).mono ?_)
  rintro (error | record) u ⟨hrely, hinv, howned⟩
  · trivial
  · dsimp only
    split
    · exact sat_of_never_releases (.bind (awaits_jobStore (by simp [Touching])) fun _ =>
        awaits_settle (awaits_recordAudit trivial)) u
    · rename_i hleft
      intro v hrely' hinv' _
      refine ⟨hinv'.exec ?_, Action.exec_evolves hinv'.fresh _, ?_⟩
      · rintro call hcall j t why r hrelease hheld
        cases hcall
        cases hrelease
        have hjob : record.jobId = jobId := Table.key_eq_of_get? howned.stored
        obtain ⟨-, -, -, -, rfl⟩ := hrely'.sameLease (hrely.issued hissued)
          (hjob.symm ▸ howned.stored) hheld
        exact lt_of_not_ge hleft
      · exact sat_of_never_releases (awaits_settle (awaits_recordAudit trivial)) _

def servedDiscipline (cfg : ServiceConfig) : Discipline (coordinator cfg) anySchedule where
  inv := World.NoneStranded
  rely := World.Evolves
  evolve := World.Evolves
  guar _ := World.Evolves
  post _ _ _ _ := True
  rely_refl := .refl
  rely_trans := .trans
  rely_evolve h := h
  guar_rely _ := id
  post_stable _ _ _ := trivial
  begin_sat := by
    intro i request w _ hpresents
    show Prog.Sat Action.exec servedContract (request.program cfg) w _
    by_cases hrelease : ∃ identity jobId claimToken reason,
        request = .release identity jobId claimToken reason
    · obtain ⟨identity, jobId, claimToken, reason, rfl⟩ := hrelease
      refine Prog.sat_bind.mpr ((sat_release cfg identity (hpresents _ rfl)).mono ?_)
      rintro (error | value) t - <;> trivial
    · refine sat_of_never_releases ((request.awaits_jobCalls cfg).mono ?_) w
      rintro (call | _ | _ | _ | _) hcall
      · rintro j t reason rfl
        cases request <;> simp [Touching, Request.JobCalls] at hcall hrelease
      all_goals trivial
  env_ok := by
    intro s w hinv houtside
    have hevolves := World.Outside.evolves houtside
    obtain ⟨now, clock, assetOutage, auditOutage, rfl⟩ := houtside
    exact ⟨⟨hinv.fresh, hinv.served⟩, hevolves, fun _ => hevolves⟩

/-! ### Service to come -/

/-- A worker that meets every requirement of the job. -/
def idealQuery (r : JobRecord) : LeaseQuery where
  workerId := r.requirements.workerIds.headD ""
  capabilityIds := [r.capabilityId]
  leaseSeconds := 1200
  tenantId := r.tenantId
  vramMb := r.requirements.minVramMb
  gpuModel := r.requirements.gpuModels.head?
  labels := r.requirements.labels
  runtimeVersions := r.requirements.runtimeVersions

theorem satisfiesRequirements_idealQuery (r : JobRecord) :
    satisfiesRequirements r (idealQuery r) := by
  have hworker : r.requirements.workerIds.isEmpty ∨
      r.requirements.workerIds.headD "" ∈ r.requirements.workerIds := by
    cases r.requirements.workerIds <;> simp
  have hmodel : r.requirements.gpuModels.isEmpty ∨
      r.requirements.gpuModels.head?.any fun model =>
        PyText.lower model ∈ r.requirements.gpuModels.map PyText.lower := by
    cases r.requirements.gpuModels <;> simp
  simp only [satisfiesRequirements, Bool.and_eq_true, Bool.or_eq_true, decide_eq_true_eq,
    List.all_eq_true]
  refine ⟨⟨⟨⟨hworker, fun row hrow => ?_⟩, le_refl _⟩, hmodel⟩, fun label hlabel => hlabel⟩
  exact Dict.lookup_eq_some_iff.mpr hrow

theorem isCandidate_idealQuery {r : JobRecord} {now : DateTime}
    (hleft : r.attempts < r.attemptBudget) (hleasable : r.isLeasable now) :
    isCandidate (idealQuery r) now r := by
  simp only [isCandidate, Bool.and_eq_true, decide_eq_true_eq]
  exact ⟨⟨⟨⟨List.mem_singleton_self _, hleft⟩, rfl⟩, satisfiesRequirements_idealQuery r⟩, hleasable⟩

namespace MemoryJobStore

/-- The store after `n` calls of `lease` by one worker at one instant. -/
def leases (s : MemoryJobStore) (now : DateTime) (query : LeaseQuery) (uuid4 : Nat → String) :
    Nat → MemoryJobStore
  | 0 => s
  | n + 1 => ((s.leases now query uuid4 n).lease now (uuid4 n) query).1

/-- How many jobs the worker could be granted. -/
def candidateCount (s : MemoryJobStore) (now : DateTime) (query : LeaseQuery) : Nat :=
  s.rows.countP (isCandidate query now)

/-- `lease` hands the job out: to the next call when the job stands first, and to one of as many
calls as there are candidates wherever it stands. -/
structure HandsOut (s : MemoryJobStore) (now : DateTime) (query : LeaseQuery) (r : JobRecord) :
    Prop where
  next : (∀ q ∈ s.rows, isCandidate query now q → q ≠ r → r.before q) → ∀ uuid4,
    (s.lease now uuid4 query).2 = some (r.leased now uuid4 query)
  inTurn : ∀ uuid4, ∃ n < s.candidateCount now query,
    ((s.leases now query uuid4 n).lease now (uuid4 n) query).2 =
      some (r.leased now (uuid4 n) query)

variable {s : MemoryJobStore} {now : DateTime} {query : LeaseQuery} {r q : JobRecord}

theorem exists_selected (hget : s.get? r.jobId = some r) (hr : isCandidate query now r) :
    ∃ q, s.selected now query = some q := by
  have hmem : r ∈ s.rows.filter (isCandidate query now) :=
    List.mem_filter.mpr ⟨Table.mem_of_get? hget, hr⟩
  rw [selected]
  cases hcandidates : s.rows.filter (isCandidate query now) with
  | nil => exact absurd (hcandidates ▸ hmem) List.not_mem_nil
  | cons first rest => exact ⟨_, rfl⟩

/-- What `lease` selects comes after no candidate. -/
theorem not_before_selected (hselected : s.selected now query = some q)
    (hget : s.get? r.jobId = some r) (hr : isCandidate query now r) : r.before q = false := by
  have hmem : r ∈ s.candidates now query := List.mem_filter.mpr ⟨Table.mem_of_get? hget, hr⟩
  have hleast : q ∈ leastOf (s.candidates now query) := by
    apply List.mem_of_head?
    rw [← s.selected_eq_head, hselected]
  exact (mem_leastOf.mp hleast).2 r hmem

theorem lease_of_selected (hselected : s.selected now query = some q) (uuid4 : String) :
    s.lease now uuid4 query =
      (s.put (q.leased now uuid4 query), some (q.leased now uuid4 query)) := by
  rw [lease, hselected]

/-- A job that is granted is no candidate at the same instant. -/
theorem not_isCandidate_leased (hseconds : 0 ≤ query.leaseSeconds) (uuid4 : String) :
    isCandidate query now (q.leased now uuid4 query) = false := by
  have huntil : ¬ now + seconds query.leaseSeconds < now := by
    unfold DateTime seconds at *
    omega
  have hleasable : (q.leased now uuid4 query).isLeasable now = false := by
    rw [JobRecord.isLeasable]
    show (some (now + seconds query.leaseSeconds)).any (fun leaseUntil => leaseUntil < now) = false
    rw [Option.any_some, decide_eq_false huntil]
  rw [isCandidate, hleasable, Bool.and_false]

/-- The grant of another job leaves one candidate fewer, among which the job still is. -/
theorem lease_of_other (hseconds : 0 ≤ query.leaseSeconds) (hget : s.get? r.jobId = some r)
    (hselected : s.selected now query = some q) (hne : q ≠ r) (uuid4 : String) :
    (s.lease now uuid4 query).1.get? r.jobId = some r ∧
      (s.lease now uuid4 query).1.candidateCount now query + 1 = s.candidateCount now query := by
  obtain ⟨hq, hcandidate⟩ := selected_spec hselected
  rw [lease_of_selected hselected]
  constructor
  · refine (Table.get?_put_of_ne s ?_).trans hget
    intro hsame
    rw [show (q.leased now uuid4 query).jobId = q.jobId from rfl] at hsame
    rw [hsame, hget] at hq
    exact hne (Option.some.inj hq).symm
  · have hkey : q.jobId = (q.leased now uuid4 query).jobId := rfl
    have hcount := Table.countP_putRow (isCandidate query now) (Table.mem_of_get? hq) hkey
      s.keys_nodup
    rw [hcandidate, if_pos rfl, not_isCandidate_leased hseconds,
      if_neg Bool.false_ne_true] at hcount
    exact hcount

theorem leases_succ (s : MemoryJobStore) (now : DateTime) (query : LeaseQuery)
    (uuid4 : Nat → String) (n : Nat) :
    s.leases now query uuid4 (n + 1) =
      (s.lease now (uuid4 0) query).1.leases now query (fun k => uuid4 (k + 1)) n := by
  induction n with
  | zero => rfl
  | succ n ih =>
      show ((s.leases now query uuid4 (n + 1)).lease now (uuid4 (n + 1)) query).1 = _
      rw [ih]
      rfl

/-- A candidate is granted in its turn: every call before it takes another candidate away. -/
theorem leased_inTurn (hseconds : 0 ≤ query.leaseSeconds) {s : MemoryJobStore}
    (hget : s.get? r.jobId = some r) (hr : isCandidate query now r) (uuid4 : Nat → String) :
    ∃ n < s.candidateCount now query,
      ((s.leases now query uuid4 n).lease now (uuid4 n) query).2 =
        some (r.leased now (uuid4 n) query) := by
  induction hcount : s.candidateCount now query generalizing s uuid4 with
  | zero =>
      have hnone := List.countP_eq_zero.mp hcount r (Table.mem_of_get? hget)
      exact absurd hr hnone
  | succ count ih =>
      obtain ⟨q, hselected⟩ := exists_selected hget hr
      by_cases hsame : q = r
      · refine ⟨0, Nat.succ_pos _, ?_⟩
        show (s.lease now (uuid4 0) query).2 = _
        rw [lease_of_selected hselected, hsame]
      · obtain ⟨hkept, hfewer⟩ := lease_of_other hseconds hget hselected hsame (uuid4 0)
        obtain ⟨n, hn, hgranted⟩ := ih hkept (fun k => uuid4 (k + 1)) (by omega)
        refine ⟨n + 1, Nat.succ_lt_succ hn, ?_⟩
        rw [leases_succ]
        exact hgranted

theorem handsOut (hseconds : 0 ≤ query.leaseSeconds) (hget : s.get? r.jobId = some r)
    (hr : isCandidate query now r) : s.HandsOut now query r where
  next := by
    intro hfirst uuid4
    obtain ⟨q, hselected⟩ := exists_selected hget hr
    obtain ⟨hq, hcandidate⟩ := selected_spec hselected
    have hsame : q = r := by
      by_contra hne
      have hbefore := hfirst q (Table.mem_of_get? hq) hcandidate hne
      exact absurd hbefore (by simp [not_before_selected hselected hget hr])
    rw [lease_of_selected hselected, hsame]
  inTurn := leased_inTurn hseconds hget hr

/-- At the instant `lease` hands the job out to some worker. -/
def LeasableAt (s : MemoryJobStore) (now : DateTime) (r : JobRecord) : Prop :=
  ∃ query, isCandidate query now r ∧ s.HandsOut now query r

/-- At every instant `lease` hands the job out, or else the job has a lease after whose end `lease`
does or `expire_exhausted` settles it. -/
def MovesOn (s : MemoryJobStore) (r : JobRecord) : Prop :=
  ∀ now, s.LeasableAt now r ∨
    ∃ leaseUntil, r.leaseUntil = some leaseUntil ∧ ∀ later, leaseUntil < later →
      s.LeasableAt later r ∨ r.isExhausted later ∧
        ((s.expireExhausted later).1.get? r.jobId).any fun r' => r'.status.terminal

omit [PyText] in
/-- The sweep settles a job whose lease ran out with its attempts spent. -/
theorem settled_of_isExhausted {j : String} (hget : s.get? j = some r) (hdue : r.isExhausted now) :
    ((s.expireExhausted now).1.get? j).any fun r' => r'.status.terminal := by
  rw [get?_expireExhausted, hget, Option.map_some, JobRecord.expire, if_pos hdue]
  rfl

end MemoryJobStore

/-- No job is stranded, whatever calls are made and however they interleave. A job that is not
settled is queued with attempts left or processed under a complete lease, and an operation of the
store moves it on. -/
theorem no_job_stranded (cfg : ServiceConfig) {w : World} (hinitial : w.Initial)
    {s : Sys World Action Action.Reply Exc Request Response}
    (hreach : Reaches (coordinator cfg) anySchedule ⟨w, []⟩ s) :
    ∀ j r, s.world.jobs.get? j = some r → r.status.terminal = false →
      ((r.status = .queued ∧ r.attempts < r.attemptBudget) ∨
        (r.status = .processing ∧ r.claimToken.isSome ∧ r.leasedBy.isSome ∧
          r.leaseUntil.isSome)) ∧
      s.world.jobs.MovesOn r := by
  intro j r hget hactive
  have hsafe := Discipline.safe_of_reaches
    (Discipline.safe_of_no_calls (D := servedDiscipline cfg) (.of_initial hinitial)) hreach
  have hown : s.world.jobs.get? r.jobId = some r := by
    rw [Table.key_eq_of_get? hget]
    exact hget
  have hhands {now : DateTime} (hleft : r.attempts < r.attemptBudget) (hnow : r.isLeasable now) :
      s.world.jobs.LeasableAt now r := by
    have hcandidate := isCandidate_idealQuery hleft hnow
    have hseconds : 0 ≤ (idealQuery r).leaseSeconds := by
      show (0 : Int) ≤ 1200
      decide
    exact ⟨idealQuery r, hcandidate, MemoryJobStore.handsOut hseconds hown hcandidate⟩
  cases hsafe.inv.served j r hget with
  | settled hstatus => exact absurd hstatus (by simp [hactive])
  | queued hstatus hleft =>
      refine ⟨Or.inl ⟨hstatus, hleft⟩, fun now => Or.inl (hhands hleft ?_)⟩
      rw [JobRecord.isLeasable, hstatus]
  | processing hstatus htoken hleasedBy huntil =>
      refine ⟨Or.inr ⟨hstatus, htoken, hleasedBy, huntil⟩, fun now => Or.inr ?_⟩
      obtain ⟨leaseUntil, hleaseUntil⟩ := Option.isSome_iff_exists.mp huntil
      refine ⟨leaseUntil, hleaseUntil, fun later hlater => ?_⟩
      rcases lt_or_ge r.attempts r.attemptBudget with hleft | hspent
      · apply Or.inl
        apply hhands hleft
        simp [JobRecord.isLeasable, hstatus, hleaseUntil, hlater]
      · have hdue : r.isExhausted later := by
          simp [JobRecord.isExhausted, hstatus, hleaseUntil, hlater, hspent]
        exact Or.inr ⟨hdue, MemoryJobStore.settled_of_isExhausted hown hdue⟩

end Invariant

/-- The worker of the small pool gives its job back. -/
def releasedRun : Sys World Action Action.Reply Exc Request Response :=
  letI := PyText.ascii
  Sys.serveAll (coordinator smallConfig) ⟨smallWorld, []⟩
    (leasedRequests ++ [.release smallIdentity "job-1" "t" "draining"])

theorem no_job_stranded_after_release :
    letI := PyText.ascii
    (releasedRun.world.jobs.get? "job-1").isSome ∧
      ∀ r, releasedRun.world.jobs.get? "job-1" = some r → r.status.terminal = false →
        ((r.status = .queued ∧ r.attempts < r.attemptBudget) ∨
          (r.status = .processing ∧ r.claimToken.isSome ∧ r.leasedBy.isSome ∧
            r.leaseUntil.isSome)) ∧
        releasedRun.world.jobs.MovesOn r := by
  let _ := PyText.ascii
  have hreach : Reaches (coordinator smallConfig) anySchedule ⟨smallWorld, []⟩ releasedRun := by
    unfold releasedRun
    apply reaches_serveAll
    refine .cons (fun _ _ _ => trivial) (World.presents_of_no_token rfl) ?_
    refine .cons (fun _ _ _ => trivial) (World.presents_of_no_token rfl) ?_
    refine .cons (fun _ _ _ => trivial) (World.presents_of_no_token rfl) ?_
    refine .cons (fun _ _ _ => trivial) ?_ trivial
    rintro claimToken ⟨⟩
    exact ⟨0, by decide, by decide⟩
  exact ⟨by decide, no_job_stranded smallConfig smallWorld_initial hreach "job-1"⟩

end GpuWorkerPool
