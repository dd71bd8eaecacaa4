import GpuWorkerPool.Base.History
import GpuWorkerPool.Interference

/-!
Where a grant comes from. A `lease` call that answers with a grant has read the row of its worker,
has asked the job store for a job on the terms of that row, and hands out the job it was given.
-/

namespace GpuWorkerPool

open Base WorkerPoolService

/-- The grant hands out the job. -/
structure LeaseGrant.Copies (grant : LeaseGrant) (job : JobRecord) : Prop where
  jobId : grant.jobId = job.jobId
  claimToken : job.claimToken = some grant.claimToken
  capabilityId : grant.capabilityId = job.capabilityId
  contractVersion : grant.contractVersion = job.contractVersion
  executionDeadlineSeconds : grant.executionDeadlineSeconds = job.executionDeadlineSeconds
  requestDigest : grant.requestDigest = job.requestDigest
  idempotencyKey : grant.idempotencyKey = job.idempotencyKey
  inputKeys : grant.inputKeys = job.inputKeys
  outputKey : grant.outputKey = job.outputKey
  payload : grant.payload = job.payload
  tenantId : grant.tenantId = job.tenantId

theorem ends_grantLease (cfg : ServiceConfig) (identity : WorkerIdentity) (leaseSeconds : Int)
    (job : JobRecord) :
    (grantLease cfg identity leaseSeconds job).Ends fun res =>
      ∀ result, res = .ok result → ∃ grant, result = some grant ∧ grant.Copies job := by
  rw [grantLease]
  cases htoken : job.claimToken with
  | none => simp [Prog.Ends]
  | some claimToken =>
      dsimp only
      refine Prog.ends_bind (by simp) _ fun now => ?_
      refine Prog.ends_bind (by simp) _ fun inputGrants => ?_
      refine Prog.ends_bind (by simp) _ fun url => ?_
      refine Prog.ends_bind (by simp) _ fun _ => ?_
      rintro result ⟨⟩
      exact ⟨_, rfl, rfl, htoken, rfl, rfl, rfl, rfl, rfl, rfl, rfl, rfl, rfl⟩

section Paths

variable [PyText]

/-- How a `lease` call came to its grant: the row of the worker it read in the world `u`, and the
job that the store gave it in the world `v`. -/
structure GrantTrail (cfg : ServiceConfig) (identity : WorkerIdentity)
    (capabilityIds : List String) (path : List (Action × World)) (grant : LeaseGrant)
    (worker : WorkerRecord) (job : JobRecord) (leaseSeconds : Int) (u v : World) : Prop where
  read : (.registry (.get identity.workerId), u) ∈ path
  row : u.registry.get? identity.workerId = some worker
  qualified : unqualifiedReason cfg.unqualified [] worker.runtimeVersions = none
  asked : (.jobs (.lease (leaseQuery worker identity
    (effectiveCapabilities cfg worker capabilityIds) leaseSeconds)), v) ∈ path
  given : (v.jobs.lease v.now v.nextToken (leaseQuery worker identity
    (effectiveCapabilities cfg worker capabilityIds) leaseSeconds)).2 = some job
  copies : grant.Copies job

/-- The path leads to every grant that the result holds. -/
def LeadsToGrant (cfg : ServiceConfig) (identity : WorkerIdentity) (capabilityIds : List String)
    (path : List (Action × World)) (res : Except Exc (Option LeaseGrant)) : Prop :=
  ∀ grant, res = .ok (some grant) → ∃ worker job leaseSeconds u v,
    GrantTrail cfg identity capabilityIds path grant worker job leaseSeconds u v

/-- What holds of every result without a grant, and along every path that gets a job for the row of
the worker and then makes a grant of it, holds along every path of `lease`. -/
theorem along_lease_of_grant {cfg : ServiceConfig} {identity : WorkerIdentity}
    {capabilityIds : List String} {leaseSeconds : Option Int}
    {Q : List (Action × World) → Except Exc (Option LeaseGrant) → Prop}
    (hnone : ∀ path res, (∀ grant, res ≠ .ok (some grant)) → Q path res)
    (hgrant : ∀ first worker u x v job, u.registry.get? identity.workerId = some worker →
      unqualifiedReason cfg.unqualified [] worker.runtimeVersions = none →
      let query := leaseQuery worker identity (effectiveCapabilities cfg worker capabilityIds)
        (leaseSeconds.getD cfg.defaultLeaseSeconds)
      (v.jobs.lease v.now v.nextToken query).2 = some job →
        (grantLease cfg identity (leaseSeconds.getD cfg.defaultLeaseSeconds) job).Along Action.exec
          fun rest => Q (first ++ (.registry (.get identity.workerId), u) ::
            (.jobs .expireExhausted, x) :: (.jobs (.lease query), v) :: rest)) :
    (lease cfg identity capabilityIds leaseSeconds).Along Action.exec Q := by
  refine Prog.along_bind.mpr (Prog.along_of_forall (fun first res => ?_) _)
  cases res with
  | error error => exact hnone _ _ (by simp)
  | ok enrollment =>
      refine along_getWorker fun u => ?_
      cases hrow : u.registry.get? identity.workerId with
      | none => exact hnone _ _ (by simp)
      | some worker =>
          dsimp only
          split_ifs with hdraining hunqualified hempty
          · exact hnone _ _ (by simp)
          · exact hnone _ _ (by simp)
          · exact hnone _ _ (by simp)
          · intro x v
            generalize hgiven : (Action.exec (.jobs (.lease _)) v).2 = reply
            cases reply with
            | none =>
                show Prog.Along _ (recordAudit _ _ _ _ >>= fun _ => pure none) _
                refine Prog.along_bind.mpr (Prog.along_of_forall (fun path res => ?_) _)
                cases res <;> exact hnone _ _ (by simp)
            | some job => exact hgrant first worker u x v job hrow (by simpa using hunqualified) hgiven

theorem along_lease (cfg : ServiceConfig) (identity : WorkerIdentity)
    (capabilityIds : List String) (leaseSeconds : Option Int) :
    (lease cfg identity capabilityIds leaseSeconds).Along Action.exec
      (LeadsToGrant cfg identity capabilityIds) := by
  refine along_lease_of_grant (fun _ _ hnone grant hgrant => absurd hgrant (hnone grant)) ?_
  intro first worker u x v job hrow hqualified query hgiven
  refine (Prog.along_of_ends (ends_grantLease cfg identity _ job)).mono ?_
  intro path res hcopies granted hgranted
  obtain ⟨grant, hgrant, hcopies⟩ := hcopies _ hgranted
  obtain rfl := Option.some.inj hgrant
  exact ⟨worker, job, leaseSeconds.getD cfg.defaultLeaseSeconds, u, v, by simp, hrow, hqualified,
    by simp [query], hgiven, hcopies⟩

/-- What a grant says about the worker's row: the job is of a capability that the row lists and
that is not refused, and the row meets the job's requirements and tenant. -/
theorem GrantTrail.candidate {cfg : ServiceConfig} {identity : WorkerIdentity}
    {capabilityIds : List String} {path : List (Action × World)} {grant : LeaseGrant}
    {worker : WorkerRecord} {job : JobRecord} {leaseSeconds : Int} {u v : World}
    (h : GrantTrail cfg identity capabilityIds path grant worker job leaseSeconds u v) :
    job.capabilityId ∈ worker.capabilityIds ∧ job.capabilityId ∉ cfg.unqualified.capabilityIds ∧
      job.tenantId = worker.tenantId ∧
      satisfiesRequirements job (leaseQuery worker identity capabilityIds leaseSeconds) := by
  have hgiven := h.given
  rw [MemoryJobStore.lease] at hgiven
  cases hselected : v.jobs.selected v.now (leaseQuery worker identity
      (effectiveCapabilities cfg worker capabilityIds) leaseSeconds) with
  | none => simp [hselected] at hgiven
  | some r =>
      rw [hselected] at hgiven
      obtain rfl := Option.some.inj hgiven
      have hcandidate := (MemoryJobStore.selected_spec hselected).2
      simp only [isCandidate, Bool.and_eq_true, decide_eq_true_eq] at hcandidate
      obtain ⟨⟨⟨⟨hcapability, -⟩, htenant⟩, hsatisfies⟩, -⟩ := hcandidate
      have heffective := (List.mem_filter.mp hcapability).2
      simp only [Bool.and_eq_true, decide_eq_true_eq, Bool.not_eq_true',
        decide_eq_false_iff_not] at heffective
      exact ⟨heffective.1, heffective.2, htenant, hsatisfies⟩

/-- What holds along every path of `lease` holds of what a call took that answered with a grant. -/
theorem along_of_granted {cfg : ServiceConfig}
    {reg : Regime World Action Action.Reply Exc Request Response} {w : World}
    {history : List (Event World Action)} {s : Sys World Action Action.Reply Exc Request Response}
    (hrun : Recorded (coordinator cfg) reg ⟨w, []⟩ history s) {i : Nat}
    {identity : WorkerIdentity} {capabilityIds : List String} {leaseSeconds : Option Int}
    {grant : LeaseGrant} (hcall : s.calls[i]? =
      some ⟨.lease identity capabilityIds leaseSeconds, .ret (.grant (some grant))⟩)
    {Q : List (Action × World) → Except Exc (Option LeaseGrant) → Prop}
    (hlease : (lease cfg identity capabilityIds leaseSeconds).Along Action.exec Q) :
    Q (pathOf history i) (.ok (some grant)) := by
  have hprogram : ((Request.lease identity capabilityIds leaseSeconds).program cfg).Along
      Action.exec fun path res => ∀ granted, res = .ok (.grant (some granted)) →
        Q path (.ok (some granted)) := by
    refine Prog.along_bind.mpr (hlease.mono ?_)
    rintro path (error | result) hresult granted hgranted
    · exact absurd hgranted (by simp)
    · obtain rfl : result = some granted := by simpa using hgranted
      rw [List.append_nil]
      exact hresult
  have hanswer : (Prog.ret (.grant (some grant)) : Coroutine Response) =
      Prog.ofExcept (.ok (.grant (some grant))) := rfl
  exact hrun.along hcall hanswer hprogram grant rfl

/-- Every grant of a run has a trail in its history. -/
theorem grantTrail_of_recorded {cfg : ServiceConfig}
    {reg : Regime World Action Action.Reply Exc Request Response} {w : World}
    {history : List (Event World Action)} {s : Sys World Action Action.Reply Exc Request Response}
    (hrun : Recorded (coordinator cfg) reg ⟨w, []⟩ history s) {i : Nat}
    {identity : WorkerIdentity} {capabilityIds : List String} {leaseSeconds : Option Int}
    {grant : LeaseGrant} (hcall : s.calls[i]? =
      some ⟨.lease identity capabilityIds leaseSeconds, .ret (.grant (some grant))⟩) :
    ∃ worker job leaseSeconds u v, GrantTrail cfg identity capabilityIds (pathOf history i) grant
      worker job leaseSeconds u v :=
  along_of_granted hrun hcall (along_lease cfg identity capabilityIds leaseSeconds) grant rfl

end Paths

end GpuWorkerPool
