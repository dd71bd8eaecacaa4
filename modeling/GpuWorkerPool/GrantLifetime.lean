import GpuWorkerPool.GrantTrail
import GpuWorkerPool.LeaseFailure
import GpuWorkerPool.PoolViews
import GpuWorkerPool.Replay
import GpuWorkerPool.WorkerAgent

/-!
How long an upload grant lasts. A lease fixes the end of its grants when it is made. Heartbeats move
the end of the lease and leave the grants alone, and the agent gives its plugin a third time, the
deadline of the job.
-/

namespace GpuWorkerPool

open Base WorkerPoolService

/-- The deadline of an execution that an agent starts at an instant. -/
def executionDeadline (lease : LeaseGrant) (now : DateTime) : DateTime :=
  now + seconds lease.executionDeadlineSeconds

theorem seconds_mono {m n : Int} (h : m ≤ n) : seconds m ≤ seconds n :=
  Int.mul_le_mul_of_nonneg_right h (by decide)

theorem le_of_seconds_le {m n : Int} (h : seconds m ≤ seconds n) : m ≤ n :=
  Int.le_of_mul_le_mul_right h (by decide)

/-! ### The deadline an agent keeps to -/

/-- An execution for the lease has the deadline of the lease. -/
def KeepsDeadline (lease : LeaseGrant) (now : DateTime) : AgentAction → Prop
  | .execute context _ =>
      context.leaseId = lease.claimToken ∧ context.deadline = executionDeadline lease now
  | _ => True

namespace WorkerAgent

variable (m : Machine) {agent : WorkerAgent} {lease : LeaseGrant}

theorem takes_attempt (served : ServedCapability) (request : ValidatedRequest) :
    (attempt agent served lease request).Takes m.exec (KeepsDeadline lease m.now) := by
  have hinputs : (downloadInputs agent lease (agent.workspace lease.jobId)).Awaits
      (KeepsDeadline lease m.now) :=
    awaits_downloadInputs trivial (fun _ => trivial) fun _ _ _ => trivial
  refine .bind (Prog.takes_of_awaits hinputs) fun inputPaths => ?_
  -- The clock of the machine answers with its time, whatever files there are.
  refine Prog.takes_await trivial fun fs => ?_
  show Prog.Takes m.exec _ ((.await (.execute _ request) Prog.ofExcept : AgentCoroutine
    PluginArtifact) >>= publish served lease)
  refine .bind (Prog.takes_await ⟨rfl, rfl⟩ fun _ => ?_) fun output => ?_
  · exact Prog.takes_of_awaits (Prog.awaits_ofExcept _)
  · exact Prog.takes_of_awaits (awaits_publish (fun _ => trivial) (fun _ _ _ => trivial)
      fun _ => trivial)

/-- Whatever an agent does for a lease, what it executes has the deadline of the lease. -/
theorem takes_serve : (serve agent lease).Takes m.exec (KeepsDeadline lease m.now) := by
  have hpost (call : JobPost) : KeepsDeadline lease m.now (.post call) := trivial
  rw [serve]
  cases agent.served.lookup lease.capabilityId with
  | none => exact Prog.takes_of_awaits (awaits_reject hpost)
  | some served =>
      simp only
      cases served.validate lease with
      | error error =>
          cases error with
          | pluginRequestRejected text => exact Prog.takes_of_awaits (awaits_reject hpost)
          | _ => exact Prog.takes_of_awaits trivial
      | ok request =>
          simp only
          split_ifs
          · exact Prog.takes_of_awaits (awaits_release hpost)
          · refine .ensure (.handle (takes_attempt m served request) fun error => ?_) ?_
            · exact Prog.takes_of_awaits (awaits_afterFailure hpost)
            · exact Prog.takes_of_awaits ⟨trivial, fun _ => trivial⟩

end WorkerAgent

/-! ### The end of a grant -/

section Runs

variable [PyText]

/-- The upload grant ends a fixed time after an instant at which the call read the clock, and by
then the call was done with the job store. -/
def FixesExpiry (cfg : ServiceConfig) (path : List (Action × World))
    (res : Except Exc (Option LeaseGrant)) : Prop :=
  ∀ grant, res = .ok (some grant) → ∃ before u after, path = before ++ (.clock, u) :: after ∧
    grant.outputGrant.expiresAt = u.clock + seconds cfg.grantTtlSeconds ∧
    ∀ step ∈ after, ∀ call, step.1 ≠ .jobs call

omit [PyText] in
theorem FixesExpiry.prepend {cfg : ServiceConfig} {path : List (Action × World)}
    {res : Except Exc (Option LeaseGrant)} (h : FixesExpiry cfg path res)
    (first : List (Action × World)) : FixesExpiry cfg (first ++ path) res := by
  intro grant hgrant
  obtain ⟨before, u, after, rfl, hexpires, hafter⟩ := h grant hgrant
  exact ⟨first ++ before, u, after, (List.append_assoc _ _ _).symm, hexpires, hafter⟩

theorem along_readClock {α : Type} {f : DateTime → Coroutine α}
    {Q : List (Action × World) → Except Exc α → Prop}
    (h : ∀ w : World, (f w.clock).Along Action.exec fun path => Q ((.clock, w) :: path)) :
    (readClock >>= f).Along Action.exec Q := h

theorem fixesExpiry_grantLease (cfg : ServiceConfig) (identity : WorkerIdentity)
    (leaseSeconds : Int) (job : JobRecord) :
    (grantLease cfg identity leaseSeconds job).Along Action.exec (FixesExpiry cfg) := by
  rw [grantLease]
  cases job.claimToken with
  | none =>
      intro grant hgrant
      cases hgrant
  | some claimToken =>
      refine along_readClock fun u => ?_
      refine Prog.Along.mono (Prog.Along.and
        (Prog.along_of_awaits (P := fun action => ∀ call, action ≠ .jobs call) ?_)
        (Prog.along_of_ends (R := fun res => ∀ grant, res = .ok (some grant) →
          grant.outputGrant.expiresAt = u.clock + seconds cfg.grantTtlSeconds) ?_)) ?_
      · refine .bind (awaits_readGrants _ _ fun _ _ => Action.noConfusion) fun _ => ?_
        refine .bind (awaits_assetStore fun _ => Action.noConfusion) fun _ => ?_
        exact .bind (awaits_recordAudit fun _ => Action.noConfusion) fun _ => trivial
      · refine Prog.ends_bind (by simp) _ fun inputGrants => ?_
        refine Prog.ends_bind (by simp) _ fun url => ?_
        refine Prog.ends_bind (by simp) _ fun _ => ?_
        rintro grant ⟨⟩
        rfl
      · intro path res hboth grant hgrant
        exact ⟨[], u, path, rfl, hboth.2 grant hgrant, hboth.1⟩

theorem fixesExpiry_lease (cfg : ServiceConfig) (identity : WorkerIdentity)
    (capabilityIds : List String) (leaseSeconds : Option Int) :
    (lease cfg identity capabilityIds leaseSeconds).Along Action.exec (FixesExpiry cfg) := by
  refine along_lease_of_grant (fun _ _ hnone grant hgrant => absurd hgrant (hnone grant)) ?_
  intro first worker u x v job _ _ query _
  refine (fixesExpiry_grantLease cfg identity _ job).mono fun path res hres => ?_
  exact (hres.prepend [_, _, _]).prepend first

/-- One clock for the coordinator and its workers, which never runs backwards. -/
def sharedClock : Regime World Action Action.Reply Exc Request Response where
  accepts _ _ := True
  allow _ _ _ := True
  env s w := ∃ instant assetOutage auditOutage, s.world.now ≤ instant ∧ w = { s.world with
    now := instant, clock := instant, assetOutage := assetOutage, auditOutage := auditOutage }

omit [PyText] in
/-- At the end of a run a worker starts the upload of a job that the store leased to it at
`leasedAt`: the lease of its claim token is live, a heartbeat under the token has been accepted, and
the deadline of the execution has not passed. -/
structure StartsUpload (history : List (Event World Action))
    (s : Sys World Action Action.Reply Exc Request Response) (grant : LeaseGrant)
    (leasedAt : DateTime) : Prop where
  leased : ∃ i identity capabilityIds leaseSeconds query v,
    s.calls[i]? = some ⟨.lease identity capabilityIds leaseSeconds, .ret (.grant (some grant))⟩ ∧
      ⟨i, .jobs (.lease query), v⟩ ∈ history ∧ v.now = leasedAt
  live : s.world.jobs.LiveFor grant.jobId grant.claimToken
  heartbeat : ∃ leaseSeconds progressPercent,
    .heartbeat grant.jobId grant.claimToken leaseSeconds progressPercent ∈ s.world.accepted
  inTime : s.world.now ≤ executionDeadline grant leasedAt

/-- In every run of the service, a worker that starts the upload of a job of this execution deadline
holds an upload grant that has not expired. -/
def GrantOutlivesWork (cfg : ServiceConfig) (executionDeadlineSeconds : Int) : Prop :=
  ∀ w history s grant leasedAt, w.Initial → w.clock = w.now →
    Recorded (coordinator cfg) sharedClock ⟨w, []⟩ history s →
      StartsUpload history s grant leasedAt →
        grant.executionDeadlineSeconds = executionDeadlineSeconds →
          s.world.now ≤ grant.outputGrant.expiresAt

section Clock

variable {cfg : ServiceConfig} {w : World} {history : List (Event World Action)}
  {s : Sys World Action Action.Reply Exc Request Response}
  (hrun : Recorded (coordinator cfg) sharedClock ⟨w, []⟩ history s)

include hrun

theorem clock_of_recorded (hclock : w.clock = w.now) :
    ∀ e ∈ history, e.world.clock = e.world.now := by
  refine (hrun.invariant (I := fun w => w.clock = w.now) hclock (fun e _ he => ?_) ?_).2
  · obtain ⟨hnow, hclock'⟩ := e.action.exec_now e.world
    exact hclock'.trans (he.trans hnow.symm)
  · rintro u _ ⟨instant, assetOutage, auditOutage, -, rfl⟩ -
    rfl

theorem ordered_of_recorded :
    (w :: history.map Event.world ++ [s.world]).Pairwise fun u v => u.now ≤ v.now := by
  refine hrun.pairwise (fun v => le_refl v.now) (fun h h' => le_trans h h') (fun e _ => ?_) ?_
  · exact le_of_eq (e.action.exec_now e.world).1.symm
  · rintro u _ ⟨instant, assetOutage, auditOutage, hlater, rfl⟩
    exact hlater

theorem path_ordered_of_recorded (i : Nat) :
    (pathOf history i).Pairwise fun step step' => step.2.now ≤ step'.2.now := by
  have hordered := ordered_of_recorded hrun
  rw [List.cons_append, List.pairwise_cons, List.pairwise_append, List.pairwise_map] at hordered
  exact List.pairwise_map.mpr (hordered.2.1.filter _)

/-- Measured from the instant of the lease, an upload grant lasts at least as long as configured. -/
theorem expiresAt_ge (hclock : w.clock = w.now) {i : Nat} {identity : WorkerIdentity}
    {capabilityIds : List String} {leaseSeconds : Option Int} {grant : LeaseGrant}
    (hcall : s.calls[i]? =
      some ⟨.lease identity capabilityIds leaseSeconds, .ret (.grant (some grant))⟩)
    {query : LeaseQuery} {v : World} (hleased : ⟨i, .jobs (.lease query), v⟩ ∈ history) :
    v.now + seconds cfg.grantTtlSeconds ≤ grant.outputGrant.expiresAt := by
  obtain ⟨before, u, after, hpath, hexpires, hafter⟩ := along_of_granted hrun hcall
    (fixesExpiry_lease cfg identity capabilityIds leaseSeconds) grant rfl
  have hasked : (.jobs (.lease query), v) ∈ pathOf history i := mem_pathOf.mpr hleased
  have hread : (.clock, u) ∈ pathOf history i := by
    rw [hpath]
    exact List.mem_append_right _ List.mem_cons_self
  have hclocks : u.clock = u.now := clock_of_recorded hrun hclock _ (mem_pathOf.mp hread)
  have hbefore : v.now ≤ u.now := by
    have hordered := path_ordered_of_recorded hrun i
    rw [hpath] at hasked hordered
    rcases List.mem_append.mp hasked with hfirst | hlater
    · exact (List.pairwise_append.mp hordered).2.2 _ hfirst _ List.mem_cons_self
    · rcases List.mem_cons.mp hlater with hhere | hrest
      · cases hhere
      · exact absurd rfl (hafter _ hrest _)
  rw [hexpires, hclocks]
  exact Int.add_le_add_right hbefore _

/-- No upload grant lasts longer than configured from the instant at which a run has it. -/
theorem expiresAt_le (hclock : w.clock = w.now) {i : Nat} {identity : WorkerIdentity}
    {capabilityIds : List String} {leaseSeconds : Option Int} {grant : LeaseGrant}
    (hcall : s.calls[i]? =
      some ⟨.lease identity capabilityIds leaseSeconds, .ret (.grant (some grant))⟩) :
    grant.outputGrant.expiresAt ≤ s.world.now + seconds cfg.grantTtlSeconds := by
  obtain ⟨before, u, after, hpath, hexpires, -⟩ := along_of_granted hrun hcall
    (fixesExpiry_lease cfg identity capabilityIds leaseSeconds) grant rfl
  have hread : ⟨i, .clock, u⟩ ∈ history := by
    refine mem_pathOf.mp (?_ : (Action.clock, u) ∈ pathOf history i)
    rw [hpath]
    exact List.mem_append_right _ List.mem_cons_self
  have hclocks : u.clock = u.now := clock_of_recorded hrun hclock _ hread
  have hbefore : u.now ≤ s.world.now := (List.pairwise_append.mp (ordered_of_recorded hrun)).2.2 u
    (List.mem_cons_of_mem _ (List.mem_map_of_mem hread)) _ (List.mem_singleton_self _)
  rw [hexpires, hclocks]
  exact Int.add_le_add_right hbefore _

end Clock

theorem grant_outlives_work_of_le {cfg : ServiceConfig} {executionDeadlineSeconds : Int}
    (hle : executionDeadlineSeconds ≤ cfg.grantTtlSeconds) :
    GrantOutlivesWork cfg executionDeadlineSeconds := by
  rintro w history s grant leasedAt - hclock hrun hupload rfl
  obtain ⟨i, identity, capabilityIds, leaseSeconds, query, v, hcall, hleased, rfl⟩ := hupload.leased
  calc s.world.now ≤ v.now + seconds grant.executionDeadlineSeconds := hupload.inTime
    _ ≤ v.now + seconds cfg.grantTtlSeconds := Int.add_le_add_left (seconds_mono hle) _
    _ ≤ grant.outputGrant.expiresAt := expiresAt_ge hrun hclock hcall hleased

/-! ### A long job -/

omit [PyText] in
/-- The jobs, the workers and the clock of the pool are as before. -/
structure World.SamePool (v w : World) : Prop where
  jobs : w.jobs = v.jobs
  registry : w.registry = v.registry
  now : w.now = v.now
  accepted : w.accepted = v.accepted

/-- The action changes neither the jobs nor the workers. -/
def LeavesPool (action : Action) : Prop := ∀ v, World.SamePool v (action.exec v).1

theorem leavesPool_assets (call : AssetStoreCall) : LeavesPool (.assets call) := by
  intro v
  rw [Action.exec]
  split <;> exact ⟨rfl, rfl, rfl, rfl⟩

theorem leavesPool_audit (eventType : AuditEventType) (workerId jobId : Option String)
    (detail : List (String × JsonValue)) :
    LeavesPool (.audit eventType workerId jobId detail) := by
  intro v
  rw [Action.exec]
  split <;> exact ⟨rfl, rfl, rfl, rfl⟩

theorem run_samePool {α : Type} {p : Coroutine α} (hp : p.Awaits LeavesPool) (w : World) :
    World.SamePool w (p.run Action.exec w).1 :=
  Prog.run_of_awaits (R := World.SamePool) Action.exec (fun _ => ⟨rfl, rfl, rfl, rfl⟩)
    (fun h h' => ⟨h'.jobs.trans h.jobs, h'.registry.trans h.registry, h'.now.trans h.now,
      h'.accepted.trans h.accepted⟩)
    (fun _ v ha => ha v) hp w

theorem run_jobStore {α : Type} (call : JobStoreCall) (f : call.Reply → Coroutine α) (w : World) :
    (jobStore call >>= f).run Action.exec w =
      (f ((Action.jobs call).exec w).2).run Action.exec ((Action.jobs call).exec w).1 := rfl

theorem run_approvedEnrollment {cfg : ServiceConfig} {w : World} {identity : WorkerIdentity}
    (h : Approved cfg w identity) : ∃ enrollment,
      (approvedEnrollment cfg identity).run Action.exec w = (w, .ok enrollment) := by
  obtain ⟨enrollment, henrollment⟩ := h
  have hawaits : (approvedEnrollment cfg identity).Awaits Reads :=
    awaits_approvedEnrollment cfg fun _ => rfl
  have hreads := run_of_reads hawaits w
  exact ⟨enrollment, Prod.ext hreads henrollment⟩

variable {cfg : ServiceConfig} {w : World}

/-- A qualified submission is stored in an empty pool. -/
theorem run_submit_alone {submission : JobSubmission} (hjobs : w.jobs = Table.empty)
    (hvalid : validateJobSubmission submission = .ok ())
    (hqualified : unqualifiedReason cfg.unqualified [submission.capabilityId]
      submission.requirements.runtimeVersions = none) :
    (((Request.submit submission).program cfg).run Action.exec w).1 =
      { w with jobs := Table.empty.put (.ofSubmission submission w.now) } := by
  have hsubmit := submit_of_new (s := w.jobs) w.now hvalid (by simp [hjobs, Table.empty])
  have hexec : (Action.jobs (.submit submission)).exec w = ({ w with
      jobs := (w.jobs.submit w.now submission).1 }, (w.jobs.submit w.now submission).2) := rfl
  rw [hsubmit, hjobs] at hexec
  refine (congrArg Prod.fst (run_answer _ _ w)).trans ?_
  simp only [submit, hqualified]
  refine (congrArg Prod.fst (run_jobStore _ _ w)).trans ?_
  rw [hexec]
  rfl

/-- A worker that may lease the selected job is granted it. -/
theorem run_lease_of_selected {identity : WorkerIdentity} {capabilityIds : List String}
    {leaseSeconds : Option Int} {worker : WorkerRecord} {r : JobRecord}
    (happroved : Approved cfg w identity) (heligible : Eligible cfg w identity capabilityIds worker)
    (hselected : selectedFor cfg w identity capabilityIds leaseSeconds worker = some r)
    (hmintable : Mintable w r) :
    ∃ v grant query, ((Request.lease identity capabilityIds leaseSeconds).program cfg).run
        Action.exec w = (v, .ok (.grant (some grant))) ∧
      grant.Copies (r.leased w.now w.nextToken query) ∧
      v.jobs.get? r.jobId = some (r.leased w.now w.nextToken query) ∧
      query.workerId = identity.workerId ∧ v.registry = w.registry ∧ v.now = w.now := by
  rw [selectedFor] at hselected
  have hrun := run_answer (lease cfg identity capabilityIds leaseSeconds) Response.grant w
  rw [run_lease_of_approved _ _ _ _ _ happroved, run_leaseApproved_of_eligible _ _ _ _ _ heligible,
    run_claimJob, hselected] at hrun
  generalize hquery : leaseQuery worker identity (effectiveCapabilities cfg worker capabilityIds)
    (leaseSeconds.getD cfg.defaultLeaseSeconds) = query at hselected hrun
  generalize leaseSeconds.getD cfg.defaultLeaseSeconds = granted at hrun
  have htoken : (r.leased w.now w.nextToken query).claimToken = some w.nextToken := rfl
  obtain ⟨-, hok⟩ := succeedsIff_grantLease cfg identity granted htoken (claimedWorld w query)
  obtain ⟨result, hresult⟩ := hok.mpr (claimedWorld_mintable.mpr hmintable)
  obtain ⟨grant, rfl, hcopies⟩ := Prog.run_of_ends Action.exec
    (ends_grantLease cfg identity granted (r.leased w.now w.nextToken query)) _ result hresult
  have hpool := run_samePool (awaits_grantLease cfg identity granted
    (r.leased w.now w.nextToken query) (fun _ => ⟨rfl, rfl, rfl, rfl⟩) leavesPool_assets
    fun _ _ _ => leavesPool_audit _ _ _ _) (claimedWorld w query)
  dsimp only at hrun
  rw [hresult] at hrun
  refine ⟨_, grant, query, hrun, hcopies, ?_, hquery ▸ rfl, hpool.registry, hpool.now⟩
  rw [hpool.jobs, claimedWorld_jobs, MemoryJobStore.lease, hselected]
  exact Table.get?_put_self _ (r.leased w.now w.nextToken query)

theorem exec_heartbeat_of_live {j t : String} {r : JobRecord} (hget : w.jobs.get? j = some r)
    (hlive : r.Live t) (leaseSeconds : Int) (progressPercent : Option Int) :
    (Action.jobs (.heartbeat j t leaseSeconds progressPercent)).exec w =
      ({ w with
          jobs := w.jobs.put (r.heartbeaten w.now leaseSeconds progressPercent),
          accepted := w.accepted ++ [.heartbeat j t leaseSeconds progressPercent] }, true) := by
  have hexec : (Action.jobs (.heartbeat j t leaseSeconds progressPercent)).exec w =
      let out := w.jobs.heartbeat w.now j t leaseSeconds progressPercent
      ({ w with
          jobs := out.1,
          accepted := if out.2 then w.accepted ++ [.heartbeat j t leaseSeconds progressPercent]
            else w.accepted }, out.2) := rfl
  have hbeaten : w.jobs.heartbeat w.now j t leaseSeconds progressPercent =
      (w.jobs.put (r.heartbeaten w.now leaseSeconds progressPercent), true) := by
    rw [MemoryJobStore.heartbeat, MemoryJobStore.underLease,
      MemoryJobStore.leased?_eq_some_iff.mpr ⟨hget, hlive⟩]
  rw [hexec, hbeaten]
  rfl

theorem run_ownedJob {identity : WorkerIdentity} {j : String} {r : JobRecord}
    (happroved : Approved cfg w identity) (hget : w.jobs.get? j = some r)
    (hstatus : r.status = .processing) (hleasedBy : r.leasedBy = some identity.workerId) :
    (ownedJob cfg identity j).run Action.exec w = (w, .ok r) := by
  obtain ⟨enrollment, henrollment⟩ := run_approvedEnrollment happroved
  rw [ownedJob, Prog.run_bind, henrollment]
  have hexec : (Action.jobs (.get j)).exec w = (w, some r) := by
    rw [← hget]
    rfl
  refine (run_jobStore (.get j) _ w).trans ?_
  rw [hexec]
  simp [hleasedBy, hstatus, Prog.run]

/-- The heartbeat of a worker that holds a job is accepted, and changes nothing but its lease. -/
theorem run_jobHeartbeat_of_live {identity : WorkerIdentity} {j t : String} {r : JobRecord}
    (happroved : Approved cfg w identity) (hget : w.jobs.get? j = some r) (hlive : r.Live t)
    (hleasedBy : r.leasedBy = some identity.workerId) (progressPercent : Option Int) :
    World.SamePool ((Action.jobs (.heartbeat j t cfg.defaultLeaseSeconds progressPercent)).exec w).1
      (((Request.jobHeartbeat identity j t progressPercent).program cfg).run Action.exec w).1 := by
  obtain rfl : r.jobId = j := Table.key_eq_of_get? hget
  have hrun : (jobHeartbeat cfg identity r.jobId t progressPercent).run Action.exec w = (do
      recordAudit .jobHeartbeat identity.workerId r.jobId
        [("progress_percent", (progressPercent.map JsonValue.int).getD .null)]
      let now ← readClock
      pure (now + seconds cfg.defaultLeaseSeconds) : Coroutine DateTime).run Action.exec
        ((Action.jobs (.heartbeat r.jobId t cfg.defaultLeaseSeconds progressPercent)).exec w).1 := by
    rw [jobHeartbeat, Prog.run_bind, run_ownedJob happroved hget hlive.1 hleasedBy]
    refine (run_jobStore _ _ w).trans ?_
    rw [exec_heartbeat_of_live hget hlive, if_pos rfl]
  have hanswer := congrArg Prod.fst
    (run_answer (jobHeartbeat cfg identity r.jobId t progressPercent) Response.leaseUntil w)
  rw [hrun] at hanswer
  refine hanswer ▸ run_samePool ?_ _
  exact .bind (awaits_recordAudit (leavesPool_audit _ _ _ _)) fun _ =>
    ⟨fun _ => ⟨rfl, rfl, rfl, rfl⟩, fun _ => trivial⟩

/-- Whether a worker is approved depends on its row alone. -/
theorem approved_of_registry {v : World} {identity : WorkerIdentity}
    (h : Approved cfg v identity) (hregistry : w.registry = v.registry) :
    Approved cfg w identity := by
  obtain ⟨enrollment, henrollment⟩ := h
  refine ⟨enrollment, Eq.trans ?_ henrollment⟩
  refine (congrArg Prod.snd (run_getWorker identity.workerId _ w)).trans
    (Eq.trans ?_ (congrArg Prod.snd (run_getWorker identity.workerId _ v)).symm)
  rw [hregistry]
  cases v.registry.get? identity.workerId with
  | none =>
      dsimp only
      cases cfg.enrollments.lookup identity.workerId with
      | none => rfl
      | some enrollment =>
          dsimp only
          split_ifs <;> rfl
  | some row =>
      dsimp only
      split_ifs
      · rfl
      · rfl
      · exact (congrArg Prod.snd (Prog.run_ofExcept Action.exec _ w)).trans
          (congrArg Prod.snd (Prog.run_ofExcept Action.exec _ v)).symm

/-- The only job of the store is selected when it is a candidate. -/
theorem selectedFor_only {identity : WorkerIdentity} {capabilityIds : List String}
    {leaseSeconds : Option Int} {worker : WorkerRecord} {r : JobRecord}
    (hjobs : w.jobs = Table.empty.put r) (hqueued : r.status = .queued)
    (hcandidate : isCandidate (leaseQuery worker identity
      (effectiveCapabilities cfg worker capabilityIds)
        (leaseSeconds.getD cfg.defaultLeaseSeconds)) w.now r) :
    selectedFor cfg w identity capabilityIds leaseSeconds worker = some r := by
  have hkept : r.expire w.now = r := by simp [JobRecord.expire, JobRecord.isExhausted, hqueued]
  have hrows : (w.jobs.expireExhausted w.now).1.rows = [r] := by
    rw [hjobs]
    exact congrArg (fun r => [r]) hkept
  rw [selectedFor, MemoryJobStore.selected, hrows, List.filter_cons_of_pos hcandidate]
  rfl

/-- In a pool that is starting, the worker may lease the job once it is submitted. -/
structure Leasable (cfg : ServiceConfig) (w : World) (submission : JobSubmission)
    (identity : WorkerIdentity) (capabilityIds : List String) (leaseSeconds : Option Int)
    (worker : WorkerRecord) : Prop where
  initial : w.Initial
  clock : w.clock = w.now
  valid : validateJobSubmission submission = .ok ()
  qualified : unqualifiedReason cfg.unqualified [submission.capabilityId]
    submission.requirements.runtimeVersions = none
  approved : Approved cfg w identity
  eligible : Eligible cfg w identity capabilityIds worker
  candidate : isCandidate (leaseQuery worker identity
    (effectiveCapabilities cfg worker capabilityIds)
      (leaseSeconds.getD cfg.defaultLeaseSeconds)) w.now (.ofSubmission submission w.now)
  mintable : Mintable w (.ofSubmission submission w.now)

theorem reaches_served {s : Sys World Action Action.Reply Exc Request Response} {request : Request}
    {v : World} {res : Except Exc Response}
    (h : (request.program cfg).run Action.exec s.world = (v, res)) :
    Reaches (coordinator cfg) sharedClock s ⟨v, s.calls ++ [⟨request, Prog.ofExcept res⟩]⟩ := by
  have hserved : s.serve (coordinator cfg) request =
      ⟨v, s.calls ++ [⟨request, Prog.ofExcept res⟩]⟩ := Sys.serve_eq h
  rw [← hserved]
  exact reaches_serve s request trivial
    (allowedAlone_of_awaits (Prog.awaits_true _) (fun _ _ _ => trivial) _)

/-- The worker is granted the job as soon as it is submitted. -/
theorem reaches_granted {submission : JobSubmission} {identity : WorkerIdentity}
    {capabilityIds : List String} {leaseSeconds : Option Int} {worker : WorkerRecord}
    (h : Leasable cfg w submission identity capabilityIds leaseSeconds worker) :
    ∃ s grant job, Reaches (coordinator cfg) sharedClock ⟨w, []⟩ s ∧
      s.calls[1]? =
        some ⟨.lease identity capabilityIds leaseSeconds, .ret (.grant (some grant))⟩ ∧
      grant.Copies job ∧ s.world.jobs.get? job.jobId = some job ∧ job.status = .processing ∧
      job.leasedBy = some identity.workerId ∧
      job.executionDeadlineSeconds = submission.executionDeadlineSeconds ∧
      s.world.registry = w.registry ∧ s.world.now = w.now := by
  let r : JobRecord := .ofSubmission submission w.now
  let stored : World := { w with jobs := Table.empty.put r }
  have hsubmitted : ((Request.submit submission).program cfg).run Action.exec w = (stored, _) :=
    Prod.ext (run_submit_alone h.initial.jobs h.valid h.qualified) rfl
  obtain ⟨v, grant, query, hleased, hcopies, hget, hworker, hregistry, hnow⟩ :=
    run_lease_of_selected (w := stored) (approved_of_registry h.approved rfl)
      ⟨h.eligible.registered, h.eligible.active, h.eligible.qualified, h.eligible.effective⟩
      (selectedFor_only rfl rfl h.candidate)
      ⟨h.mintable.inputs, h.mintable.output, h.mintable.audited⟩
  have hfirst := reaches_served (s := ⟨w, []⟩) hsubmitted
  have hsecond := hfirst.trans (reaches_served hleased)
  exact ⟨_, grant, r.leased stored.now stored.nextToken query, hsecond, rfl, hcopies, hget, rfl,
    congrArg some hworker, rfl, hregistry, hnow⟩

/-- A worker that holds a job sends a heartbeat at any later instant, and still holds the job. -/
theorem reaches_beaten {s : Sys World Action Action.Reply Exc Request Response}
    {identity : WorkerIdentity} {job : JobRecord} {t : String} {instant : DateTime}
    (happroved : Approved cfg s.world identity) (hget : s.world.jobs.get? job.jobId = some job)
    (hlive : job.Live t) (hleasedBy : job.leasedBy = some identity.workerId)
    (hlater : s.world.now ≤ instant) :
    ∃ u, Reaches (coordinator cfg) sharedClock s u ∧ s.calls <+: u.calls ∧
      u.world.jobs.LiveFor job.jobId t ∧
      .heartbeat job.jobId t cfg.defaultLeaseSeconds none ∈ u.world.accepted ∧
      u.world.now = instant := by
  let late : World := { s.world with now := instant, clock := instant }
  have hlate : Reaches (coordinator cfg) sharedClock s ⟨late, s.calls⟩ :=
    .single (.env _ ⟨instant, s.world.assetOutage, s.world.auditOutage, hlater, rfl⟩)
  have hrun := (Prod.eta
    (((Request.jobHeartbeat identity job.jobId t none).program cfg).run Action.exec late)).symm
  have hbeaten : Reaches (coordinator cfg) sharedClock ⟨late, s.calls⟩ _ := reaches_served hrun
  have hpool := run_jobHeartbeat_of_live (w := late) (approved_of_registry happroved rfl) hget hlive
    hleasedBy none
  rw [exec_heartbeat_of_live (w := late) hget hlive] at hpool
  refine ⟨_, hlate.trans hbeaten, List.prefix_append _ _, ?_, ?_, hpool.now⟩
  · refine MemoryJobStore.liveFor_iff.mpr
      ⟨job.heartbeaten late.now cfg.defaultLeaseSeconds none, ?_, hlive⟩
    rw [hpool.jobs]
    exact Table.get?_put_self _ (job.heartbeaten late.now cfg.defaultLeaseSeconds none)
  · rw [hpool.accepted]
    exact List.mem_append_right _ (List.mem_singleton_self _)

/-- The worker leases the job, and when the deadline of its execution comes it sends a heartbeat and
starts its upload. -/
theorem startsUpload_of_leasable {submission : JobSubmission} {identity : WorkerIdentity}
    {capabilityIds : List String} {leaseSeconds : Option Int} {worker : WorkerRecord}
    (h : Leasable cfg w submission identity capabilityIds leaseSeconds worker)
    (hdeadline : 0 ≤ submission.executionDeadlineSeconds) :
    ∃ history s grant leasedAt, Recorded (coordinator cfg) sharedClock ⟨w, []⟩ history s ∧
      StartsUpload history s grant leasedAt ∧
      grant.executionDeadlineSeconds = submission.executionDeadlineSeconds ∧
      grant.outputGrant.expiresAt ≤ w.now + seconds cfg.grantTtlSeconds ∧
      s.world.now = w.now + seconds submission.executionDeadlineSeconds := by
  obtain ⟨s, grant, job, hgranted, hcall, hcopies, hget, hstatus, hleasedBy, hsame, hregistry,
    hnow⟩ := reaches_granted h
  have hexpires : grant.outputGrant.expiresAt ≤ w.now + seconds cfg.grantTtlSeconds := by
    obtain ⟨history, hrun⟩ := Reaches.recorded hgranted
    rw [← hnow]
    exact expiresAt_le hrun h.clock hcall
  have hlater : s.world.now ≤ w.now + seconds submission.executionDeadlineSeconds := by
    rw [hnow]
    exact Int.le_add_of_nonneg_right (seconds_mono hdeadline)
  obtain ⟨u, hreach, ⟨later, hcalls⟩, hlive, hbeaten, hinstant⟩ := reaches_beaten
    (approved_of_registry h.approved hregistry) hget ⟨hstatus, hcopies.claimToken⟩ hleasedBy hlater
  rw [← List.getElem?_append_left (List.getElem?_eq_some_iff.mp hcall).1, hcalls] at hcall
  obtain ⟨history, hrun⟩ := Reaches.recorded (hgranted.trans hreach)
  obtain ⟨_, _, _, _, v, htrail⟩ := grantTrail_of_recorded hrun hcall
  have hasked := mem_pathOf.mp htrail.asked
  have hstarted : w.now ≤ v.now := (List.pairwise_cons.mp (ordered_of_recorded hrun)).1 v
    (List.mem_append_left _ (List.mem_map_of_mem hasked))
  rw [← hcopies.jobId] at hlive hbeaten
  refine ⟨history, u, grant, v.now, hrun, ⟨⟨1, _, _, _, _, v, hcall, hasked, rfl⟩, hlive,
    ⟨_, _, hbeaten⟩, ?_⟩, hcopies.executionDeadlineSeconds.trans hsame, hexpires, hinstant⟩
  rw [executionDeadline, hinstant, hcopies.executionDeadlineSeconds, hsame]
  exact Int.add_le_add_right hstarted _

theorem le_of_grant_outlives_work {submission : JobSubmission} {identity : WorkerIdentity}
    {capabilityIds : List String} {leaseSeconds : Option Int} {worker : WorkerRecord}
    (h : Leasable cfg w submission identity capabilityIds leaseSeconds worker)
    (hdeadline : 0 ≤ submission.executionDeadlineSeconds)
    (houtlives : GrantOutlivesWork cfg submission.executionDeadlineSeconds) :
    submission.executionDeadlineSeconds ≤ cfg.grantTtlSeconds := by
  obtain ⟨history, s, grant, leasedAt, hrun, hupload, hsame, hexpires, hnow⟩ :=
    startsUpload_of_leasable h hdeadline
  have hlasts := houtlives w history s grant leasedAt h.initial h.clock hrun hupload hsame
  rw [hnow] at hlasts
  exact le_of_seconds_le (Int.le_of_add_le_add_left (le_trans hlasts hexpires))

/-! ### A pool with one worker -/

def lateJob (capabilityId : String) (executionDeadlineSeconds : Int) : JobSubmission :=
  { echoJob with
    capabilityId := capabilityId, executionDeadlineSeconds := executionDeadlineSeconds }

def lateWorker (capabilityId : String) : WorkerRecord :=
  MemoryWorkerRegistry.upsertRecord none 0 { smallRegistration with
    capabilities := [{ smallCapability with capabilityId := capabilityId }] } "subject-1"

def lateWorld (capabilityId : String) : World :=
  { smallWorld with registry := Table.empty.put (lateWorker capabilityId) }

theorem validate_lateJob {capabilityId : String} {executionDeadlineSeconds : Int}
    (hcapability : validateCapabilityId capabilityId = .ok ())
    (hbounds : minExecutionDeadlineSeconds ≤ executionDeadlineSeconds ∧
      executionDeadlineSeconds ≤ maxExecutionDeadlineSeconds) :
    validateJobSubmission (lateJob capabilityId executionDeadlineSeconds) = .ok () := by
  have hlengths : requireLength "job_id" (some echoJob.jobId) maxJobIdLength = .ok () ∧
      requireLength "idempotency_key" (some echoJob.idempotencyKey) maxJobIdLength = .ok () ∧
      requireLength "output_key" (some echoJob.outputKey) maxAssetKeyLength = .ok () := by decide
  have hdeadline : requireBetween "execution_deadline_seconds" executionDeadlineSeconds
      minExecutionDeadlineSeconds maxExecutionDeadlineSeconds = .ok () := by
    simp [requireBetween, hbounds]
  simp only [validateJobSubmission, andThen_eq_ok]
  exact ⟨hlengths.1, hlengths.2.1, rfl, hlengths.2.2, rfl, rfl, rfl, rfl, hcapability, rfl, rfl,
    hdeadline, rfl, rfl⟩

theorem leasable_late {capabilityId : String}
    {executionDeadlineSeconds : Int} (hcapability : validateCapabilityId capabilityId = .ok ())
    (hallowed : capabilityId ∉ cfg.unqualified.capabilityIds)
    (hbounds : minExecutionDeadlineSeconds ≤ executionDeadlineSeconds ∧
      executionDeadlineSeconds ≤ maxExecutionDeadlineSeconds) :
    Leasable cfg (lateWorld capabilityId) (lateJob capabilityId executionDeadlineSeconds)
      smallIdentity [capabilityId] none (lateWorker capabilityId) := by
  have heffective : effectiveCapabilities cfg (lateWorker capabilityId) [capabilityId] =
      [capabilityId] := by
    simp [effectiveCapabilities, lateWorker, MemoryWorkerRegistry.upsertRecord, hallowed,
      WorkerRecord.capabilityIds]
  have houtput : MemoryAssetStore.createOutputUploadUrl {} echoJob.outputKey =
      .ok (memoryUploadPrefix ++ echoJob.outputKey) := by decide
  have henrolled : WorkerEnrollment.new "subject-1" none =
      .ok ⟨"subject-1", none, by decide, by decide⟩ := (dif_pos (by decide)).trans (dif_pos rfl)
  have happroved : Approved cfg (lateWorld capabilityId) smallIdentity := by
    refine ⟨⟨"subject-1", none, by decide, by decide⟩,
      (congrArg Prod.snd (run_getWorker _ _ _)).trans ?_⟩
    show (Prog.run Action.exec (Prog.ofExcept (WorkerEnrollment.new "subject-1" none)) _).2 = _
    rw [henrolled]
    rfl
  refine ⟨⟨rfl, rfl, rfl, smallWorld_initial.fresh⟩, rfl, validate_lateJob hcapability hbounds,
    unqualifiedReason_eq_none_iff.mpr ⟨by simpa [lateJob] using hallowed, List.forall_mem_nil _⟩,
    happroved, ⟨rfl, WorkerStatus.noConfusion, rfl, by simp [heffective]⟩, ?_,
    ⟨List.forall_mem_nil _, ⟨rfl, _, houtput⟩, rfl⟩⟩
  rw [heffective, isCandidate]
  simp only [Bool.and_eq_true]
  exact ⟨⟨⟨⟨decide_eq_true (List.mem_singleton_self _), rfl⟩, rfl⟩, rfl⟩, rfl⟩

/-- A service that refuses every capability grants nothing. -/
theorem grant_outlives_work_of_refused {executionDeadlineSeconds : Int}
    (hrefused : ∀ capabilityId, validateCapabilityId capabilityId = .ok () →
      capabilityId ∈ cfg.unqualified.capabilityIds) :
    GrantOutlivesWork cfg executionDeadlineSeconds := by
  rintro w history s grant leasedAt hinitial - hrun hupload -
  obtain ⟨i, identity, capabilityIds, leaseSeconds, -, -, hcall, -, -⟩ := hupload.leased
  obtain ⟨worker, job, granted, u, v, htrail⟩ := grantTrail_of_recorded hrun hcall
  have hsound : ∀ e ∈ history, RequestsSound e.world.jobs := by
    refine (hrun.invariant (I := fun w => RequestsSound w.jobs) ?_ (fun e _ he => ?_) ?_).2
    · rw [hinitial.jobs]
      exact requestsSound_empty
    · by_cases hjobs : ∃ call, e.action = .jobs call
      · obtain ⟨call, hcall⟩ := hjobs
        rw [hcall]
        exact he.exec ⟨e.world.now, e.world.nextToken, call⟩
      · show RequestsSound (e.action.exec e.world).1.jobs
        rw [(Action.exec_jobs_of_ne (fun call hcall => hjobs ⟨call, hcall⟩) e.world).1]
        exact he
    · rintro u _ ⟨instant, assetOutage, auditOutage, -, rfl⟩ hu
      exact hu
  obtain ⟨r, -, hget⟩ := MemoryJobStore.lease_eq_some htrail.given
  have hleased : RequestsSound (v.jobs.lease v.now v.nextToken (leaseQuery worker identity
      (effectiveCapabilities cfg worker capabilityIds) granted)).1 :=
    (hsound _ (mem_pathOf.mp htrail.asked)).exec ⟨v.now, v.nextToken, .lease _⟩
  have hvalid := hleased.valid _ (Table.mem_of_get? hget)
  exact absurd (hrefused _ (boundedDemands_of_validate hvalid).capability) htrail.candidate.2.1

/-- The upload grant of a job outlives its work exactly when the job's execution deadline is within
the lifetime of grants, or when there are no such jobs because every capability is refused. -/
theorem grant_outlives_work_iff (cfg : ServiceConfig) {executionDeadlineSeconds : Int}
    (hbounds : minExecutionDeadlineSeconds ≤ executionDeadlineSeconds ∧
      executionDeadlineSeconds ≤ maxExecutionDeadlineSeconds) :
    GrantOutlivesWork cfg executionDeadlineSeconds ↔
      executionDeadlineSeconds ≤ cfg.grantTtlSeconds ∨
        ∀ capabilityId, validateCapabilityId capabilityId = .ok () →
          capabilityId ∈ cfg.unqualified.capabilityIds := by
  constructor
  · intro houtlives
    by_contra hneither
    obtain ⟨hlong, hserves⟩ := not_or.mp hneither
    push Not at hserves
    obtain ⟨capabilityId, hcapability, hallowed⟩ := hserves
    exact hlong (le_of_grant_outlives_work (leasable_late hcapability hallowed hbounds)
      (le_trans (by decide) hbounds.1) houtlives)
  · rintro (hle | hrefused)
    · exact grant_outlives_work_of_le hle
    · exact grant_outlives_work_of_refused hrefused

end Runs

theorem grant_outlives_work_short :
    letI := PyText.ascii
    GrantOutlivesWork smallConfig 900 :=
  letI := PyText.ascii
  (grant_outlives_work_iff smallConfig (by decide)).mpr (Or.inl (by decide))

/-- A job and a service with the defaults throughout: the execution may take twenty minutes and the
grant lasts fifteen. -/
theorem default_grant_expires_first :
    letI := PyText.ascii
    ¬ GrantOutlivesWork smallConfig echoJob.executionDeadlineSeconds := by
  let _ := PyText.ascii
  intro houtlives
  have hleasable : Leasable smallConfig (lateWorld echoJob.capabilityId) echoJob smallIdentity
      [echoJob.capabilityId] none (lateWorker echoJob.capabilityId) :=
    leasable_late (by decide +kernel) (by decide) (by decide)
  exact absurd (le_of_grant_outlives_work hleasable (by decide) houtlives) (by decide)

end GpuWorkerPool
