import GpuWorkerPool.GrantTrail
import GpuWorkerPool.WorkerBindings

/-!
Tenants. A `lease` call asks the store for a job of the tenant it read in its worker's row. The row
may be written again before the store answers, but never with another tenant, so the worker that
processes or has executed a job is registered under the tenant of the job.
-/

namespace GpuWorkerPool

open Base WorkerPoolService

/-- The worker is registered under the tenant. -/
def MemoryWorkerRegistry.ServesTenant (s : MemoryWorkerRegistry) (id : String)
    (tenantId : Option String) : Prop :=
  ∃ row, s.get? id = some row ∧ row.tenantId = tenantId

theorem MemoryWorkerRegistry.ServesTenant.keeps {s s' : MemoryWorkerRegistry} {id : String}
    {tenantId : Option String} (h : s.ServesTenant id tenantId) (hkeeps : KeepsBindings s s') :
    s'.ServesTenant id tenantId := by
  obtain ⟨row, hget, htenant⟩ := h
  obtain ⟨row', hget', -, htenant'⟩ := hkeeps id row hget
  exact ⟨row', hget', htenant'.trans htenant⟩

/-- The worker that processes the job, or has executed it, serves the tenant of the job. -/
structure ServedByTenant (s : MemoryWorkerRegistry) (r : JobRecord) : Prop where
  processing : r.status = .processing → ∃ id, r.leasedBy = some id ∧ s.ServesTenant id r.tenantId
  completed : r.status = .completed → ∃ id, r.executedBy = some id ∧ s.ServesTenant id r.tenantId

theorem ServedByTenant.keeps {s s' : MemoryWorkerRegistry} {r : JobRecord}
    (h : ServedByTenant s r) (hkeeps : KeepsBindings s s') : ServedByTenant s' r where
  processing hstatus := by
    obtain ⟨id, hid, hserves⟩ := h.processing hstatus
    exact ⟨id, hid, hserves.keeps hkeeps⟩
  completed hstatus := by
    obtain ⟨id, hid, hserves⟩ := h.completed hstatus
    exact ⟨id, hid, hserves.keeps hkeeps⟩

/-- Every stored job is served by its tenant. -/
def World.TenantsIsolated (w : World) : Prop :=
  ∀ j r, w.jobs.get? j = some r → ServedByTenant w.registry r

/-- What a lease needs so as to keep tenants apart: its worker serves the tenant it asks for. -/
def LeasesForTenant (w : World) : JobStoreCall → Prop
  | .lease query => w.registry.ServesTenant query.workerId query.tenantId
  | _ => True

/-- The operation leases nothing. -/
def JobStoreCall.NeverLeases : JobStoreCall → Prop
  | lease _ => False
  | _ => True

section Runs

variable [PyText]

/-- An operation leaves every job with its tenant's workers. -/
theorem JobStoreCall.RowStep.servedByTenant {now : DateTime} {uuid4 : String}
    {s : MemoryJobStore} {j : String} {call : JobStoreCall} {row : Option JobRecord}
    {r' : JobRecord} {w : World} (h : RowStep now uuid4 s j call row (some r'))
    (hrow : ∀ r, row = some r → ServedByTenant w.registry r) (hlease : LeasesForTenant w call) :
    ServedByTenant w.registry r' := by
  cases h with
  | kept => exact hrow r' rfl
  | submitted _ _ _ _ => constructor <;> simp [JobRecord.ofSubmission]
  | cancelled _ => constructor <;> simp [JobRecord.cancelled]
  | leased hchosen _ =>
      have hcandidate := (MemoryJobStore.selected_spec hchosen).2
      simp only [isCandidate, Bool.and_eq_true, decide_eq_true_eq] at hcandidate
      refine ⟨fun _ => ⟨_, rfl, ?_⟩, by simp [JobRecord.leased]⟩
      exact hcandidate.1.1.2 ▸ hlease
  | heartbeaten hlive => exact ⟨(hrow _ rfl).processing, (hrow _ rfl).completed⟩
  | completed hlive =>
      exact ⟨by simp [JobRecord.completed], fun _ => (hrow _ rfl).processing hlive.1⟩
  | failed _ => constructor <;> simp [JobRecord.failed]
  | released _ => constructor <;> simp [JobRecord.released]
  | exhausted _ => constructor <;> simp [JobRecord.exhausted]

theorem World.TenantsIsolated.exec {w : World} (h : w.TenantsIsolated) {action : Action}
    (hlease : OnJobs (LeasesForTenant w) action) : (action.exec w).1.TenantsIsolated := by
  intro j r' hget'
  by_cases hjobs : ∃ call, action = .jobs call
  · obtain ⟨call, rfl⟩ := hjobs
    have hrow := call.exec_row w.now w.nextToken w.jobs j
    rw [show (call.exec w.now w.nextToken w.jobs).1.get? j = some r' from hget'] at hrow
    exact hrow.servedByTenant (h j) hlease
  · rw [(Action.exec_jobs_of_ne (fun call hcall => hjobs ⟨call, hcall⟩) w).1] at hget'
    exact (h j r' hget').keeps (action.exec_keepsBindings w)

abbrev tenantContract : Prog.Contract Action World where
  inv := World.TenantsIsolated
  allow _ _ := True
  rely v w := KeepsBindings v.registry w.registry
  guar v w := KeepsBindings v.registry w.registry

theorem tenantContract_exec (action : Action) {w : World} (h : w.TenantsIsolated)
    (hlease : OnJobs (LeasesForTenant w) action) :
    (action.exec w).1.TenantsIsolated ∧ KeepsBindings w.registry (action.exec w).1.registry :=
  ⟨h.exec hlease, action.exec_keepsBindings w⟩

theorem sat_of_never_leases {α : Type} {p : Coroutine α}
    (h : p.Awaits (OnJobs JobStoreCall.NeverLeases)) (w : World) :
    Prog.Sat Action.exec tenantContract p w fun _ _ => True := by
  refine Prog.sat_of_awaits (fun action v haction hinv _ => tenantContract_exec action hinv ?_) h w
  cases action with
  | jobs call =>
      cases call with
      | lease query => exact haction.elim
      | _ => trivial
  | _ => trivial

/-- A lease call asks for the tenant of the row that it read, which is the row's tenant still. -/
theorem sat_lease_tenant (cfg : ServiceConfig) (identity : WorkerIdentity)
    (capabilityIds : List String) (leaseSeconds : Option Int) (w : World) :
    Prog.Sat Action.exec tenantContract (lease cfg identity capabilityIds leaseSeconds) w
      fun _ _ => True := by
  have hguar : ∀ v : World, v.TenantsIsolated → KeepsBindings v.registry v.registry :=
    fun v _ => .refl v.registry
  refine Prog.sat_bind.mpr ((sat_of_never_leases
    (awaits_approvedEnrollment cfg trivial) w).mono ?_)
  rintro (error | enrollment) t -
  · trivial
  · refine sat_getWorker hguar fun u _ _ => ?_
    cases hworker : u.registry.get? identity.workerId with
    | none => trivial
    | some worker =>
        dsimp only
        split_ifs
        · trivial
        · trivial
        · trivial
        · intro v hrely hinv _
          obtain ⟨hinv', hkept⟩ := tenantContract_exec (.jobs .expireExhausted) hinv trivial
          refine ⟨hinv', hkept, ?_⟩
          intro v' hrely' hinv'' _
          have hserves : v'.registry.ServesTenant identity.workerId worker.tenantId :=
            MemoryWorkerRegistry.ServesTenant.keeps ⟨worker, hworker, rfl⟩
              ((hrely.trans hkept).trans hrely')
          have hstep := tenantContract_exec (.jobs (.lease (leaseQuery worker identity
            (effectiveCapabilities cfg worker capabilityIds)
            (leaseSeconds.getD cfg.defaultLeaseSeconds)))) hinv'' hserves
          refine ⟨hstep.1, hstep.2, sat_of_never_leases ?_ _⟩
          generalize (Action.exec (.jobs (.lease _)) v').2 = reply
          cases reply with
          | none =>
              show (recordAudit _ _ _ _ >>= fun _ => pure none : Coroutine _).Awaits _
              exact .bind (awaits_recordAudit trivial) fun _ => trivial
          | some job => exact awaits_grantLease _ _ _ _ trivial (fun _ => trivial) fun _ _ _ => trivial

def tenantDiscipline (cfg : ServiceConfig) : Discipline (coordinator cfg) freeSchedule where
  inv := World.TenantsIsolated
  rely v w := KeepsBindings v.registry w.registry
  evolve v w := KeepsBindings v.registry w.registry
  guar _ v w := KeepsBindings v.registry w.registry
  post _ _ _ _ := True
  rely_refl w := .refl w.registry
  rely_trans := .trans
  rely_evolve h := h
  guar_rely _ := id
  post_stable _ _ _ := trivial
  begin_sat := by
    intro i request w _ _
    show Prog.Sat Action.exec tenantContract (request.program cfg) w _
    by_cases hlease : ∃ identity capabilityIds leaseSeconds,
        request = .lease identity capabilityIds leaseSeconds
    · obtain ⟨identity, capabilityIds, leaseSeconds, rfl⟩ := hlease
      refine Prog.sat_bind.mpr
        ((sat_lease_tenant cfg identity capabilityIds leaseSeconds w).mono ?_)
      rintro (error | grant) t - <;> trivial
    · refine sat_of_never_leases ((request.awaits_jobCalls cfg).mono ?_) w
      rintro (call | _) hcall
      · cases call with
        | lease query => cases request <;> simp [Touching, Request.JobCalls] at hcall hlease
        | _ => trivial
      all_goals trivial
  env_ok := by
    rintro s w hinv ⟨now, clock, assetOutage, auditOutage, rfl⟩
    exact ⟨hinv, .refl _, fun _ => .refl _⟩

/-- Tenant isolation of execution. In every state that any interleaving of calls reaches from an empty
job store, the worker that processes a job, and the worker that has executed it, is registered under
exactly the tenant of the job. Every grant was made for a job of a capability that the row read by
its call lists, and whose requirements that row meets. -/
theorem tenants_isolated (cfg : ServiceConfig) {w : World} (hjobs : w.jobs = Table.empty) {history : List (Event World Action)}
    {s : Sys World Action Action.Reply Exc Request Response}
    (hrun : Recorded (coordinator cfg) freeSchedule ⟨w, []⟩ history s) :
    (∀ j r, s.world.jobs.get? j = some r → r.status = .processing →
      ∃ id row, r.leasedBy = some id ∧ s.world.registry.get? id = some row ∧
        row.tenantId = r.tenantId) ∧
    (∀ j r, s.world.jobs.get? j = some r → r.status = .completed →
      ∃ id row, r.executedBy = some id ∧ s.world.registry.get? id = some row ∧
        row.tenantId = r.tenantId) ∧
    ∀ i identity capabilityIds leaseSeconds grant, s.calls[i]? =
        some ⟨.lease identity capabilityIds leaseSeconds, .ret (.grant (some grant))⟩ →
      ∃ worker job seconds u v,
        GrantTrail cfg identity capabilityIds (pathOf history i) grant worker job seconds u v ∧
        grant.capabilityId ∈ worker.capabilityIds ∧
        satisfiesRequirements job (leaseQuery worker identity capabilityIds seconds) := by
  have hinv : w.TenantsIsolated := by
    intro j r hget
    rw [hjobs] at hget
    exact absurd hget (by simp)
  have hsafe := Discipline.safe_of_reaches
    (Discipline.safe_of_no_calls (D := tenantDiscipline cfg) hinv) hrun.reaches
  refine ⟨fun j r hget hstatus => ?_, fun j r hget hstatus => ?_, ?_⟩
  · obtain ⟨id, hid, row, hrow, htenant⟩ := (hsafe.inv j r hget).processing hstatus
    exact ⟨id, row, hid, hrow, htenant⟩
  · obtain ⟨id, hid, row, hrow, htenant⟩ := (hsafe.inv j r hget).completed hstatus
    exact ⟨id, row, hid, hrow, htenant⟩
  · intro i identity capabilityIds leaseSeconds grant hcall
    obtain ⟨worker, job, seconds, u, v, htrail⟩ := grantTrail_of_recorded hrun hcall
    obtain ⟨hlisted, -, -, hsatisfies⟩ := htrail.candidate
    exact ⟨worker, job, seconds, u, v, htrail, htrail.copies.capabilityId ▸ hlisted, hsatisfies⟩

end Runs

theorem tenants_isolated_after_lease :
    (leasedRun.world.jobs.get? "job-1").map JobRecord.status = some .processing ∧
      ∀ j r, leasedRun.world.jobs.get? j = some r → r.status = .processing →
        ∃ id row, r.leasedBy = some id ∧ leasedRun.world.registry.get? id = some row ∧
          row.tenantId = r.tenantId := by
  let _ := PyText.ascii
  have hreach : Reaches (coordinator smallConfig) freeSchedule ⟨smallWorld, []⟩ leasedRun := by
    unfold leasedRun
    apply reaches_serveAll
    refine .cons (fun _ _ _ => trivial) trivial ?_
    refine .cons (fun _ _ _ => trivial) trivial ?_
    exact .cons (fun _ _ _ => trivial) trivial trivial
  obtain ⟨history, hrun⟩ := hreach.recorded
  exact ⟨by decide, (tenants_isolated smallConfig rfl hrun).1⟩

end GpuWorkerPool
