import GpuWorkerPool.Interference

/-!
Promised leases. `lease` and `job_heartbeat` report an instant up to which the job is the worker's.
The store honours it as long as no heartbeat is accepted while more of the lease remains than the
heartbeat grants: an accepted heartbeat writes the end anew, also when that is earlier.
-/

namespace GpuWorkerPool

open Base WorkerPoolService

/-- The operation ends the lease of a holder, or cancels the job. -/
def JobStoreCall.Ends (j t : String) : JobStoreCall → Prop
  | complete jobId claimToken .. => jobId = j ∧ claimToken = t
  | fail jobId claimToken .. => jobId = j ∧ claimToken = t
  | release jobId claimToken _ => jobId = j ∧ claimToken = t
  | cancel jobId => jobId = j
  | _ => False

/-- The holder of the token has completed, failed or released the job, or the host cancelled it. -/
def World.Ended (w : World) (j t : String) : Prop := ∃ call ∈ w.accepted, call.Ends j t

/-- The job is leased under the token at least until `d`, or that is over: the lease was ended, or
the instant has passed. -/
inductive World.Promised (w : World) (j t : String) (d : DateTime) : Prop
  | leased {r : JobRecord} {leaseUntil : DateTime} (held : w.jobs.held (j, t) = some r)
      (until_ : r.leaseUntil = some leaseUntil) (le : d ≤ leaseUntil)
  | ended (ended : w.Ended j t)
  | passed (lt : d < w.now)

/-- Time does not run backwards and every promise is kept. -/
structure World.Honours (v w : World) : Prop where
  now : v.now ≤ w.now
  promised : ∀ j t d, v.Promised j t d → w.Promised j t d

theorem World.Honours.refl (w : World) : Honours w w := ⟨le_refl _, fun _ _ _ h => h⟩

theorem World.Honours.trans {u v w : World} (h : Honours u v) (h' : Honours v w) : Honours u w :=
  ⟨le_trans h.now h'.now, fun j t d hp => h'.promised j t d (h.promised j t d hp)⟩

/-- While a call is in flight the clock stands still. -/
def World.HonoursNow (v w : World) : Prop := v.Honours w ∧ w.now = v.now

theorem World.HonoursNow.refl (w : World) : HonoursNow w w := ⟨.refl w, rfl⟩

theorem World.HonoursNow.trans {u v w : World} (h : HonoursNow u v) (h' : HonoursNow v w) :
    HonoursNow u w :=
  ⟨h.1.trans h'.1, h'.2.trans h.2⟩

/-- No heartbeat is accepted while more of the lease remains than the heartbeat grants. -/
def ExtendsLease (w : World) : Action → Prop
  | .jobs (.heartbeat j t leaseSeconds _) =>
      ∀ leaseUntil ∈ (w.jobs.held (j, t)).bind JobRecord.leaseUntil,
        leaseUntil ≤ w.now + seconds leaseSeconds
  | _ => True

section Runs

variable [PyText]

theorem Action.mem_accepted {call : JobStoreCall} {w : World}
    (h : call.accepts (call.exec w.now w.nextToken w.jobs).2 = true) :
    call ∈ ((Action.jobs call).exec w).1.accepted := by
  simp only [Action.exec, if_pos h]
  exact List.mem_append_right _ (List.mem_singleton_self _)

/-- The operation that ends a lease under its live token is accepted. -/
theorem ended_of_live {w : World} {j t : String} {r : JobRecord} {call : JobStoreCall}
    (hget : w.jobs.get? j = some r) (hlive : r.Live t) (hends : call.Ends j t) :
    ((Action.jobs call).exec w).1.Ended j t := by
  refine ⟨call, Action.mem_accepted ?_, hends⟩
  have hleased : w.jobs.leased? j t = some r := MemoryJobStore.leased?_eq_some_iff.mpr ⟨hget, hlive⟩
  cases call with
  | complete jobId claimToken contentType sha256 byteLength executionMetadata =>
      obtain ⟨rfl, rfl⟩ := hends
      show (w.jobs.underLease jobId claimToken _).2 = true
      rw [MemoryJobStore.underLease, hleased]
  | fail jobId claimToken reason failureCode failureMessage retryable =>
      obtain ⟨rfl, rfl⟩ := hends
      show (w.jobs.underLease jobId claimToken _).2 = true
      rw [MemoryJobStore.underLease, hleased]
  | release jobId claimToken reason =>
      obtain ⟨rfl, rfl⟩ := hends
      show (w.jobs.underLease jobId claimToken _).2 = true
      rw [MemoryJobStore.underLease, hleased]
  | cancel jobId =>
      obtain rfl := hends
      show (w.jobs.cancel w.now jobId).2 = true
      rw [MemoryJobStore.cancel, hget]
      simp [hlive.1]
  | _ => exact hends.elim

/-- A promise outlives every operation of the store that keeps promises. -/
theorem promised_exec_jobs {w : World} {j t : String} {d : DateTime} {r : JobRecord}
    {leaseUntil : DateTime} {call : JobStoreCall} (hnew : NewJobs w (.jobs call))
    (hextends : ExtendsLease w (.jobs call)) (hheld : w.jobs.held (j, t) = some r) (huntil : r.leaseUntil = some leaseUntil)
    (hle : d ≤ leaseUntil) : ((Action.jobs call).exec w).1.Promised j t d := by
  obtain ⟨hget, hlive⟩ := MemoryJobStore.held_eq_some_iff.mp hheld
  have hrow := call.exec_row w.now w.nextToken w.jobs j
  have hjobs : ((Action.jobs call).exec w).1.jobs = (call.exec w.now w.nextToken w.jobs).1 := rfl
  rw [hget, ← hjobs] at hrow
  have hover : leaseUntil < w.now → ((Action.jobs call).exec w).1.Promised j t d := fun hlt =>
    .passed (show d < w.now from lt_of_le_of_lt hle hlt)
  generalize hget' : ((Action.jobs call).exec w).1.jobs.get? j = row' at hrow
  cases hrow with
  | kept => exact .leased (MemoryJobStore.held_eq_some_iff.mpr ⟨hget', hlive⟩) huntil hle
  | submitted _ hvalid hkey hj => exact absurd ⟨hvalid, hkey, by rw [hj, hget]; rfl⟩ hnew
  | cancelled _ => exact .ended (ended_of_live hget hlive rfl)
  | leased hchosen _ =>
      refine hover ?_
      have hcandidate := (MemoryJobStore.selected_spec hchosen).2
      simp only [isCandidate, Bool.and_eq_true, JobRecord.isLeasable, hlive.1, huntil] at hcandidate
      simpa using hcandidate.2
  | heartbeaten hlive' =>
      obtain rfl := hlive.token_eq hlive'
      refine .leased (MemoryJobStore.held_eq_some_iff.mpr ⟨hget', hlive⟩) rfl ?_
      refine le_trans hle (hextends leaseUntil ?_)
      rw [hheld]
      exact huntil
  | completed hlive' =>
      obtain rfl := hlive.token_eq hlive'
      exact .ended (ended_of_live hget hlive ⟨rfl, rfl⟩)
  | failed hlive' =>
      obtain rfl := hlive.token_eq hlive'
      exact .ended (ended_of_live hget hlive ⟨rfl, rfl⟩)
  | released hlive' =>
      obtain rfl := hlive.token_eq hlive'
      exact .ended (ended_of_live hget hlive ⟨rfl, rfl⟩)
  | exhausted hdue =>
      refine hover ?_
      simp only [JobRecord.isExhausted, Bool.and_eq_true, huntil] at hdue
      simpa using hdue.1.2

theorem World.Ended.exec {w : World} {j t : String} (h : w.Ended j t) (action : Action) :
    (action.exec w).1.Ended j t := by
  obtain ⟨call, hcall, hends⟩ := h
  exact ⟨call, Action.accepted_subset_exec action w hcall, hends⟩

theorem World.Promised.exec {w : World} {j t : String} {d : DateTime} (h : w.Promised j t d)
    {action : Action} (hnew : NewJobs w action) (hextends : ExtendsLease w action) :
    (action.exec w).1.Promised j t d := by
  cases h with
  | ended hended => exact .ended (hended.exec action)
  | passed hlt => exact .passed ((action.exec_now w).1 ▸ hlt)
  | leased hheld huntil hle =>
      by_cases hjobs : ∃ call, action = .jobs call
      · obtain ⟨call, rfl⟩ := hjobs
        exact promised_exec_jobs hnew hextends hheld huntil hle
      · refine .leased ?_ huntil hle
        rwa [(Action.exec_jobs_of_ne (fun call hcall => hjobs ⟨call, hcall⟩) w).1]

/-- One shared clock, which advances between calls only, and no job id used for two jobs. -/
def clockedSchedule (allow : World → Action → Prop) :
    Regime World Action Action.Reply Exc Request Response where
  accepts _ _ := True
  allow _ action w := NewJobs w action ∧ allow w action
  env s w :=
    (¬ s.Busy ∧ ∃ instant, s.world.now ≤ instant ∧
      w = { s.world with now := instant, clock := instant }) ∨
    ∃ assetOutage auditOutage, w =
      { s.world with assetOutage := assetOutage, auditOutage := auditOutage }

abbrev promiseContract : Prog.Contract Action World where
  inv w := w.clock = w.now
  allow action w := NewJobs w action ∧ ExtendsLease w action
  rely := World.HonoursNow
  guar := World.HonoursNow

theorem Action.exec_honours {w : World} {action : Action}
    (hkeeps : NewJobs w action ∧ ExtendsLease w action) : World.HonoursNow w (action.exec w).1 :=
  ⟨⟨le_of_eq (action.exec_now w).1.symm, fun _ _ _ h => h.exec hkeeps.1 hkeeps.2⟩,
    (action.exec_now w).1⟩

theorem promiseContract_exec {action : Action} {v : World} (hclock : v.clock = v.now)
    (hkeeps : NewJobs v action ∧ ExtendsLease v action) :
    (action.exec v).1.clock = (action.exec v).1.now ∧ World.HonoursNow v (action.exec v).1 := by
  obtain ⟨hnow, hclock'⟩ := action.exec_now v
  exact ⟨hclock'.trans (hclock.trans hnow.symm), Action.exec_honours hkeeps⟩

theorem sat_promising {α : Type} (p : Coroutine α) (w : World) :
    Prog.Sat Action.exec promiseContract p w fun _ _ => True := by
  exact Prog.sat_of_awaits (fun _ _ _ => promiseContract_exec) p.awaits_true w

/-- What a call reports to the holder of a token. -/
inductive Reports (j t : String) (d : DateTime) : Request → Except Exc Response → Prop
  | lease {identity : WorkerIdentity} {capabilityIds : List String} {leaseSeconds : Option Int}
      {grant : LeaseGrant} (job : grant.jobId = j) (token : grant.claimToken = t)
      (until_ : grant.leaseUntil = d) :
      Reports j t d (.lease identity capabilityIds leaseSeconds) (.ok (.grant (some grant)))
  | jobHeartbeat {identity : WorkerIdentity} {progressPercent : Option Int} :
      Reports j t d (.jobHeartbeat identity j t progressPercent) (.ok (.leaseUntil d))

/-- A promise that is made at the current instant outlives the rest of the call. -/
theorem sat_keeps_promise {α : Type} (p : Coroutine α) {w : World} {j t : String} {d : DateTime}
    (hpromised : w.Promised j t d) (instant : DateTime) (hnow : w.now = instant) :
    Prog.Sat Action.exec promiseContract p w fun _ v => v.Promised j t d ∧ v.now = instant := by
  have hkeep : ∀ u v : World, u.Promised j t d ∧ u.now = instant → u.HonoursNow v →
      v.Promised j t d ∧ v.now = instant :=
    fun u v hu hv => ⟨hv.1.promised j t d hu.1, hv.2.trans hu.2⟩
  exact ((sat_promising p w).keeps hkeep hkeep ⟨hpromised, hnow⟩).mono fun _ _ h => h.2

theorem sat_readClock {α : Type} {f : DateTime → Coroutine α} {w : World}
    {Q : Except Exc α → World → Prop}
    (h : ∀ v, World.HonoursNow w v → Prog.Sat Action.exec promiseContract (f w.now) v Q) :
    Prog.Sat Action.exec promiseContract (readClock >>= f) w Q := by
  refine Prog.sat_read (fun _ => rfl) (fun v _ => .refl v) fun v hhonours hclock => ?_
  have hread : v.clock = w.now := hclock.trans hhonours.2
  show Prog.Sat _ _ (f v.clock) v Q
  rw [hread]
  exact h v hhonours

/-- The grant of a claimed job reports what the lease promises. -/
theorem sat_grantLease (cfg : ServiceConfig) (identity : WorkerIdentity) (leaseSeconds : Int)
    {job : JobRecord} {t : String} {w : World} (htoken : job.claimToken = some t)
    (hpromised : w.Promised job.jobId t (w.now + seconds leaseSeconds)) :
    Prog.Sat Action.exec promiseContract (grantLease cfg identity leaseSeconds job) w
      fun res v => ∀ grant, res = .ok (some grant) →
        v.Promised grant.jobId grant.claimToken grant.leaseUntil := by
  rw [grantLease, htoken]
  refine sat_readClock fun v hhonours => ?_
  refine ((sat_keeps_promise _ (hhonours.1.promised _ _ _ hpromised) _ hhonours.2).ends
    (R := fun res => ∀ grant, res = .ok (some grant) → grant.jobId = job.jobId ∧
      grant.claimToken = t ∧ grant.leaseUntil = w.now + seconds leaseSeconds) ?_).mono ?_
  · refine Prog.ends_bind (by simp) _ fun inputGrants => ?_
    refine Prog.ends_bind (by simp) _ fun url => ?_
    refine Prog.ends_bind (by simp) _ fun _ => ?_
    rintro grant hgrant
    cases hgrant
    exact ⟨rfl, rfl, rfl⟩
  · rintro res u ⟨⟨hkept, -⟩, hfields⟩ grant hgrant
    obtain ⟨hjob, htoken', huntil⟩ := hfields grant hgrant
    rw [hjob, htoken', huntil]
    exact hkept

theorem promised_of_lease {w : World} {query : LeaseQuery} {job : JobRecord}
    (h : ((Action.jobs (.lease query)).exec w).2 = some job) :
    job.claimToken = some w.nextToken ∧ ((Action.jobs (.lease query)).exec w).1.Promised job.jobId
      w.nextToken (w.now + seconds query.leaseSeconds) := by
  obtain ⟨r, rfl, hget⟩ := MemoryJobStore.lease_eq_some h
  exact ⟨rfl, .leased (MemoryJobStore.held_eq_some_iff.mpr ⟨hget, rfl, rfl⟩) rfl (le_refl _)⟩

theorem promised_of_heartbeat {w : World} {j t : String} {leaseSeconds : Int}
    {progressPercent : Option Int}
    (h : ((Action.jobs (.heartbeat j t leaseSeconds progressPercent)).exec w).2 = true) :
    ((Action.jobs (.heartbeat j t leaseSeconds progressPercent)).exec w).1.Promised j t
      (w.now + seconds leaseSeconds) := by
  have hreply : (w.jobs.underLease j t fun r =>
    r.heartbeaten w.now leaseSeconds progressPercent).2 = true := h
  cases hleased : w.jobs.leased? j t with
  | none => simp [MemoryJobStore.underLease, hleased] at hreply
  | some r =>
      obtain ⟨hget, hlive⟩ := MemoryJobStore.leased?_eq_some_iff.mp hleased
      refine .leased (r := r.heartbeaten w.now leaseSeconds progressPercent)
        (MemoryJobStore.held_eq_some_iff.mpr ⟨?_, hlive⟩) rfl (le_refl _)
      show (w.jobs.underLease j t _).1.get? j = _
      rw [MemoryJobStore.underLease, hleased, Table.get?_put]
      exact if_pos (Table.key_eq_of_get? hget)

/-- An operation of the store keeps every promise; what follows starts from its reply. -/
theorem sat_jobStore_promising {α : Type} {call : JobStoreCall} {f : call.Reply → Coroutine α}
    {w : World} {Q : Except Exc α → World → Prop}
    (h : ∀ v, w.HonoursNow v → Prog.Sat Action.exec promiseContract
      (f ((Action.jobs call).exec v).2) ((Action.jobs call).exec v).1 Q) :
    Prog.Sat Action.exec promiseContract (jobStore call >>= f) w Q := by
  intro v hhonours hclock hkeeps
  obtain ⟨hclock', hguar⟩ := promiseContract_exec hclock hkeeps
  exact ⟨hclock', hguar, h v hhonours⟩

/-- Every grant that `lease` returns is promised. -/
theorem sat_lease (cfg : ServiceConfig) (identity : WorkerIdentity) (capabilityIds : List String)
    (leaseSeconds : Option Int) (w : World) :
    Prog.Sat Action.exec promiseContract (lease cfg identity capabilityIds leaseSeconds) w
      fun res v => ∀ grant, res = .ok (some grant) →
        v.Promised grant.jobId grant.claimToken grant.leaseUntil := by
  refine sat_lease_of_grant (fun v _ => World.HonoursNow.refl v)
    (fun _ _ _ => promiseContract_exec) cfg identity capabilityIds leaseSeconds w
    (fun _ _ hnone grant hgrant => absurd hgrant (hnone grant)) ?_
  intro query job v _ hreply
  obtain ⟨htoken, hpromised⟩ := promised_of_lease hreply
  exact sat_grantLease cfg identity _ htoken hpromised

/-- Every instant that `job_heartbeat` returns is promised. -/
theorem sat_jobHeartbeat (cfg : ServiceConfig) (identity : WorkerIdentity)
    (jobId claimToken : String) (progressPercent : Option Int) (w : World) :
    Prog.Sat Action.exec promiseContract
      (jobHeartbeat cfg identity jobId claimToken progressPercent) w
      fun res v => ∀ instant, res = .ok instant → v.Promised jobId claimToken instant := by
  refine Prog.sat_bind.mpr ((sat_ownedJob (fun v _ => World.HonoursNow.refl v)
    World.HonoursNow.trans cfg identity jobId w).mono ?_)
  rintro (error | record) u ⟨-, -, howned⟩
  · simp
  · obtain rfl : record.jobId = jobId := Table.key_eq_of_get? howned.stored
    refine sat_jobStore_promising fun v _ => ?_
    generalize hreply : (Action.exec (.jobs (.heartbeat _ _ _ _)) v).2 = accepted
    cases accepted with
    | false => simp
    | true =>
        rw [if_pos rfl]
        have hpromised := promised_of_heartbeat hreply
        refine Prog.sat_bind.mpr ((sat_keeps_promise (recordAudit _ _ _ _) hpromised v.now rfl).mono
          ?_)
        rintro (error | value) x ⟨hkept, hnow⟩
        · simp
        · refine sat_readClock fun y hhonours => ?_
          rintro instant ⟨⟩
          rw [hnow]
          exact hhonours.1.promised _ _ _ hkept

def promiseDiscipline (cfg : ServiceConfig) : Discipline (coordinator cfg) (clockedSchedule ExtendsLease) where
  inv w := w.clock = w.now
  rely := World.HonoursNow
  evolve := World.Honours
  guar _ := World.HonoursNow
  post _ request res w := ∀ j t d, Reports j t d request res → w.Promised j t d
  rely_refl := .refl
  rely_trans := .trans
  rely_evolve h := h.1
  guar_rely _ h := h
  post_stable _ h hpost j t d hreports := h.promised j t d (hpost j t d hreports)
  begin_sat := by
    intro i request w _ _
    cases request with
    | lease identity capabilityIds leaseSeconds =>
        refine Prog.sat_bind.mpr
          ((sat_lease cfg identity capabilityIds leaseSeconds w).mono fun res v hpromised => ?_)
        rcases res with error | grant
        · rintro j t d ⟨⟩
        · rintro j t d (⟨rfl, rfl, rfl⟩ | -)
          exact hpromised _ rfl
    | jobHeartbeat identity jobId claimToken progressPercent =>
        refine Prog.sat_bind.mpr ((sat_jobHeartbeat cfg identity jobId claimToken progressPercent
          w).mono fun res v hpromised => ?_)
        rcases res with error | instant
        · rintro j t d ⟨⟩
        · rintro j t d (- | -)
          exact hpromised _ rfl
    | _ =>
        refine (sat_promising _ w).mono fun res v _ j t d hreports => ?_
        cases hreports
  env_ok := by
    rintro s w hclock (⟨hidle, instant, hlater, rfl⟩ | ⟨assetOutage, auditOutage, rfl⟩)
    · refine ⟨rfl, ⟨hlater, fun j t d h => ?_⟩, fun hbusy => absurd hbusy hidle⟩
      cases h with
      | leased hheld huntil hle => exact .leased hheld huntil hle
      | ended hended => exact .ended hended
      | passed hlt => exact .passed (lt_of_lt_of_le hlt hlater)
    · have hhonours : World.HonoursNow s.world
          { s.world with assetOutage := assetOutage, auditOutage := auditOutage } := by
        refine ⟨⟨le_refl _, fun j t d h => ?_⟩, rfl⟩
        cases h with
        | leased hheld huntil hle => exact .leased hheld huntil hle
        | ended hended => exact .ended hended
        | passed hlt => exact .passed hlt
      exact ⟨hclock, hhonours.1, fun _ => hhonours⟩

/-- A promised lease is honoured, as long as heartbeats come when they extend it: at every instant
not later than the end that a call reported to the holder of a token, the job is processed under
that token, unless its holder has completed, failed or released it or the host has cancelled it. -/
theorem promised_lease_honoured (cfg : ServiceConfig) {w : World} (hclock : w.clock = w.now)
    {s : Sys World Action Action.Reply Exc Request Response}
    (hreach : Reaches (coordinator cfg) (clockedSchedule ExtendsLease) ⟨w, []⟩ s)
    {c : Call Action Action.Reply Exc Request Response} {res : Except Exc Response}
    (hcall : c ∈ s.calls) (hanswer : c.answer? = some res) {j t : String} {d : DateTime}
    (hreports : Reports j t d c.request res) (hnow : s.world.now ≤ d) :
    s.world.jobs.LiveFor j t ∨ s.world.Ended j t := by
  have hsafe := Discipline.safe_of_reaches
    (Discipline.safe_of_no_calls (D := promiseDiscipline cfg) hclock) hreach
  obtain ⟨i, hi⟩ := List.getElem?_of_mem hcall
  cases hsafe.answered hi hanswer j t d hreports with
  | leased hheld _ _ => exact Or.inl (Option.isSome_iff_exists.mpr ⟨_, hheld⟩)
  | ended hended => exact Or.inr hended
  | passed hlt => exact absurd hnow (not_le.mpr hlt)

instance (w : World) : (action : Action) → Decidable (ExtendsLease w action)
  | .jobs (.heartbeat ..) => inferInstanceAs (Decidable (∀ _ ∈ _, _ ≤ _))
  | .jobs (.get _) | .jobs (.listForTenant _) | .jobs (.cancel _) | .jobs (.lease _)
  | .jobs (.submit _) | .jobs (.complete ..) | .jobs (.fail ..) | .jobs (.release ..)
  | .jobs .expireExhausted | .jobs .queueDepth | .assets _ | .registry _ | .audit ..
  | .auditForJob _ | .clock => .isTrue trivial

instance (allow : World → Action → Prop) [∀ w action, Decidable (allow w action)]
    (request : Request) (action : Action) (w : World) :
    Decidable ((clockedSchedule allow).allow request action w) :=
  inferInstanceAs (Decidable (_ ∧ _))

end Runs

/-- The system at a later instant. -/
def atInstant (s : Sys World Action Action.Reply Exc Request Response) (instant : DateTime) :
    Sys World Action Action.Reply Exc Request Response :=
  ⟨{ s.world with now := instant, clock := instant }, s.calls⟩

/-- The worker leases the job for some time and sends a heartbeat at once. -/
def heldRequests (leaseSeconds : Int) : List Request :=
  [.registerHeartbeat smallIdentity smallRegistration, .submit echoJob,
    .lease smallIdentity ["test.deterministic.echo.v1"] (some leaseSeconds),
    .jobHeartbeat smallIdentity "job-1" "t" none]

/-- Then another `lease` call is made at a later instant. -/
def heldRun (leaseSeconds : Int) (instant : DateTime) :
    Sys World Action Action.Reply Exc Request Response :=
  letI := PyText.ascii
  (atInstant (Sys.serveAll (coordinator smallConfig) ⟨smallWorld, []⟩ (heldRequests leaseSeconds))
    instant).serveAll (coordinator smallConfig)
      [.lease smallIdentity ["test.deterministic.echo.v1"] none]

/-- The call that reported the end of the lease. -/
def reportingCall (leaseUntil : DateTime) : Call Action Action.Reply Exc Request Response :=
  ⟨.jobHeartbeat smallIdentity "job-1" "t" none, .ret (.leaseUntil leaseUntil)⟩

theorem reaches_heldRun [PyText] {allow : World → Action → Prop} {instant : DateTime}
    {s : Sys World Action Action.Reply Exc Request Response} {requests : List Request}
    (hrequests : Reaches (coordinator smallConfig) (clockedSchedule allow) ⟨smallWorld, []⟩ s)
    (hidle : ¬ s.Busy) (hlater : s.world.now ≤ instant)
    (hserved : ServedAlone (coordinator smallConfig) (clockedSchedule allow) (atInstant s instant)
      requests) :
    Reaches (coordinator smallConfig) (clockedSchedule allow) ⟨smallWorld, []⟩
      ((atInstant s instant).serveAll (coordinator smallConfig) requests) :=
  (hrequests.tail (.env _ (Or.inl ⟨hidle, instant, hlater, rfl⟩))).trans
    (reaches_serveAll _ _ hserved)

theorem promised_lease_honoured_after_heartbeat :
    letI := PyText.ascii
    (heldRun 600 (seconds 1000)).world.jobs.LiveFor "job-1" "t" ∨
      (heldRun 600 (seconds 1000)).world.Ended "job-1" "t" := by
  let _ := PyText.ascii
  have hheld : ServedAlone (coordinator smallConfig) (clockedSchedule ExtendsLease)
      ⟨smallWorld, []⟩ (heldRequests 600) :=
    ⟨trivial, by decide, trivial, by decide, trivial, by decide, trivial, by decide, trivial⟩
  have hreach : Reaches (coordinator smallConfig) (clockedSchedule ExtendsLease)
      ⟨smallWorld, []⟩ (heldRun 600 (seconds 1000)) :=
    reaches_heldRun (reaches_serveAll _ _ hheld) (by decide) (by decide)
      ⟨trivial, by decide, trivial⟩
  have hcall : (heldRun 600 (seconds 1000)).calls[3]? = some (reportingCall (seconds 1200)) := rfl
  exact promised_lease_honoured smallConfig rfl hreach (List.mem_of_getElem? hcall) rfl
    .jobHeartbeat (by decide)

/-- A lease of two hours is cut to twenty minutes by its first heartbeat, and the job is leased
again while the holder of the first token still counts on the two hours. -/
theorem promised_lease_cut_by_heartbeat :
    letI := PyText.ascii
    let s := heldRun 7200 (seconds 2000)
    Reaches (coordinator smallConfig) (clockedSchedule fun _ _ => True) ⟨smallWorld, []⟩ s ∧
      (∃ c ∈ s.calls, ∃ res, c.answer? = some res ∧
        Reports "job-1" "t" (seconds 7200) c.request res) ∧
      s.world.now ≤ seconds 7200 ∧ ¬ s.world.jobs.LiveFor "job-1" "t" ∧
      ¬ s.world.Ended "job-1" "t" := by
  let _ := PyText.ascii
  have hheld : ServedAlone (coordinator smallConfig) (clockedSchedule fun _ _ => True)
      ⟨smallWorld, []⟩ (heldRequests 7200) :=
    ⟨trivial, by decide, trivial, by decide, trivial, by decide, trivial, by decide, trivial⟩
  refine ⟨?_, ?_, by decide, by decide, ?_⟩
  · exact reaches_heldRun (reaches_serveAll _ _ hheld) (by decide) (by decide)
      ⟨trivial, by decide, trivial⟩
  · have hcall : ∃ grant : LeaseGrant, grant.jobId = "job-1" ∧ grant.claimToken = "t" ∧
        grant.leaseUntil = seconds 7200 ∧ (heldRun 7200 (seconds 2000)).calls[2]? =
          some ⟨.lease smallIdentity ["test.deterministic.echo.v1"] (some 7200),
            .ret (.grant (some grant))⟩ := ⟨_, rfl, rfl, rfl, rfl⟩
    obtain ⟨grant, hjob, htoken, huntil, hcall⟩ := hcall
    exact ⟨_, List.mem_of_getElem? hcall, _, rfl, .lease hjob htoken huntil⟩
  · have haccepted : (heldRun 7200 (seconds 2000)).world.accepted =
        [.heartbeat "job-1" "t" 1200 none] := rfl
    rintro ⟨call, hcall, hends⟩
    rw [haccepted, List.mem_singleton] at hcall
    subst hcall
    exact hends

end GpuWorkerPool
