import GpuWorkerPool.Interference
import GpuWorkerPool.StoreHistory

/-!
What a `lease` call leaves behind when it raises. The lease is written before the grants are minted,
so a failure between the two leaves a job processed under a token that nobody was handed. The call
charges nothing exactly when no job is claimed or every grant of the claimed job can be minted.
-/

namespace GpuWorkerPool

open Base WorkerPoolService

/-- Every record that the sweep of the call does not expire is as before. -/
def ChargesNothing (v w : World) : Prop :=
  ∀ j r, v.jobs.get? j = some r → ¬ r.isExhausted v.now → w.jobs.get? j = some r

theorem chargesNothing_of_expired {v w : World}
    (h : w.jobs = (v.jobs.expireExhausted v.now).1) : ChargesNothing v w := by
  intro j r hget hdue
  rw [h, MemoryJobStore.get?_expireExhausted, hget, Option.map_some, JobRecord.expire, if_neg hdue]

section Alone

variable [PyText]

/-- The worker is enrolled and not revoked. -/
def Approved (cfg : ServiceConfig) (w : World) (identity : WorkerIdentity) : Prop :=
  ∃ enrollment, ((approvedEnrollment cfg identity).run Action.exec w).2 = .ok enrollment

/-- A worker row under which an approved `lease` call goes on to claim a job. -/
structure Eligible (cfg : ServiceConfig) (w : World) (identity : WorkerIdentity)
    (capabilityIds : List String) (worker : WorkerRecord) : Prop where
  registered : w.registry.get? identity.workerId = some worker
  active : worker.status ≠ .draining
  qualified : unqualifiedReason cfg.unqualified [] worker.runtimeVersions = none
  effective : effectiveCapabilities cfg worker capabilityIds ≠ []

/-- The job that the store selects for the worker once the sweep is done. -/
def selectedFor (cfg : ServiceConfig) (w : World) (identity : WorkerIdentity)
    (capabilityIds : List String) (leaseSeconds : Option Int) (worker : WorkerRecord) :
    Option JobRecord :=
  (w.jobs.expireExhausted w.now).1.selected w.now (leaseQuery worker identity
    (effectiveCapabilities cfg worker capabilityIds) (leaseSeconds.getD cfg.defaultLeaseSeconds))

/-- The job that a `lease` call claims. -/
def Claims (cfg : ServiceConfig) (w : World) (identity : WorkerIdentity)
    (capabilityIds : List String) (leaseSeconds : Option Int) (job : JobRecord) : Prop :=
  Approved cfg w identity ∧ ∃ worker, Eligible cfg w identity capabilityIds worker ∧
    selectedFor cfg w identity capabilityIds leaseSeconds worker = some job

/-- The asset store answers the call. -/
def Answers (w : World) (call : AssetStoreCall) : Prop :=
  w.assetOutage call = false ∧ ∃ value, (call.exec w.assets).2 = .ok value

/-- Every grant of the job can be minted and audited: each input key may be read and exists, the
output key may be written, signing works and the audit log accepts the grant. -/
structure Mintable (w : World) (job : JobRecord) : Prop where
  inputs : ∀ key ∈ job.inputKeys, Answers w (.createReadUrl key)
  output : Answers w (.createOutputUploadUrl job.outputKey outputUploadContentType)
  audited : w.auditOutage .leaseGranted = false

/-- The action changes nothing. -/
def Reads (action : Action) : Prop := ∀ w : World, (action.exec w).1 = w

theorem run_of_reads {α : Type} {p : Coroutine α} (hp : p.Awaits Reads) (w : World) :
    (p.run Action.exec w).1 = w :=
  Prog.run_of_awaits (R := fun v w => w = v) Action.exec (fun _ => rfl) (fun h h' => h'.trans h)
    (fun _ v ha => ha v) hp w

/-- Run alone, the program leaves the jobs alone and succeeds exactly when `C` holds. -/
structure SucceedsIff {α : Type} (p : Coroutine α) (w : World) (C : Prop) : Prop where
  jobs : (p.run Action.exec w).1.jobs = w.jobs
  ok : (∃ value, (p.run Action.exec w).2 = .ok value) ↔ C

theorem SucceedsIff.bind {α β : Type} {p : Coroutine α} {f : α → Coroutine β} {w : World}
    {C D : Prop} (hp : SucceedsIff p w C)
    (hf : ∀ value, SucceedsIff (f value) (p.run Action.exec w).1 D) :
    SucceedsIff (p >>= f) w (C ∧ D) := by
  obtain ⟨hjobs, hok⟩ := hp
  have hrun := Prog.run_bind Action.exec p f w
  generalize p.run Action.exec w = result at hjobs hok hf hrun
  obtain ⟨v, res⟩ := result
  cases res with
  | ok value =>
      have hC : C := hok.mp ⟨value, rfl⟩
      refine ⟨?_, ?_⟩
      · rw [hrun]
        exact (hf value).jobs.trans hjobs
      · rw [hrun, and_iff_right hC]
        exact (hf value).ok
  | error error =>
      have hC : ¬ C := fun h => by simpa using hok.mpr h
      refine ⟨?_, ?_⟩
      · rw [hrun]
        exact hjobs
      · rw [hrun]
        simp [hC]

theorem SucceedsIff.read_bind {α β : Type} {p : Coroutine α} {f : α → Coroutine β} {w : World}
    {C D : Prop} (hp : SucceedsIff p w C) (hreads : p.Awaits Reads)
    (hf : ∀ value, SucceedsIff (f value) w D) : SucceedsIff (p >>= f) w (C ∧ D) :=
  hp.bind fun value => by
    rw [run_of_reads hreads]
    exact hf value

theorem SucceedsIff.congr {α : Type} {p : Coroutine α} {w : World} {C D : Prop}
    (hp : SucceedsIff p w C) (h : C ↔ D) : SucceedsIff p w D :=
  ⟨hp.jobs, hp.ok.trans h⟩

theorem succeedsIff_ret {α : Type} (value : α) (w : World) :
    SucceedsIff (.ret value : Coroutine α) w True :=
  ⟨rfl, by simp [Prog.run]⟩

/-- Reading the asset store succeeds exactly when the store answers. -/
theorem succeedsIff_assetStore {call : AssetStoreCall} (hread : ∀ a, (call.exec a).1 = a)
    (w : World) : SucceedsIff (assetStore call) w (Answers w call) := by
  have hrun : (assetStore call).run Action.exec w = Action.exec (.assets call) w :=
    Prog.run_ofExcept Action.exec _ _
  refine ⟨?_, ?_⟩
  · rw [hrun, Action.exec_readAssets hread]
  · rw [hrun, Answers, Action.exec]
    cases w.assetOutage call <;> simp

theorem succeedsIff_recordAudit (eventType : AuditEventType) (workerId jobId : Option String)
    (detail : List (String × JsonValue)) (w : World) :
    SucceedsIff (recordAudit eventType workerId jobId detail) w
      (w.auditOutage eventType = false) := by
  have hrun : (recordAudit eventType workerId jobId detail).run Action.exec w =
      Action.exec (.audit eventType workerId jobId detail) w :=
    Prog.run_ofExcept Action.exec _ _
  refine ⟨?_, ?_⟩
  · rw [hrun]
    exact (Action.exec_jobs_of_ne (fun _ => by simp) w).1
  · rw [hrun, Action.exec]
    cases w.auditOutage eventType <;> simp

theorem succeedsIff_readGrants (expiresAt : DateTime) (inputKeys : List String) (w : World) :
    SucceedsIff (readGrants expiresAt inputKeys) w
      (∀ key ∈ inputKeys, Answers w (.createReadUrl key)) := by
  induction inputKeys with
  | nil => exact (succeedsIff_ret _ w).congr (by simp)
  | cons inputKey rest ih =>
      have hread : Reads (.assets (.createReadUrl inputKey)) :=
        Action.exec_readAssets fun _ => rfl
      refine ((succeedsIff_assetStore (fun _ => rfl) w).read_bind
        ⟨hread, fun _ => Prog.awaits_ofExcept _⟩ fun url =>
          ih.bind fun grants => succeedsIff_ret _ _).congr ?_
      rw [List.forall_mem_cons, and_true]

/-- Minting and auditing the grants of a claimed job. -/
theorem succeedsIff_grantLease (cfg : ServiceConfig) (identity : WorkerIdentity)
    (leaseSeconds : Int) {job : JobRecord} {claimToken : String}
    (htoken : job.claimToken = some claimToken) (w : World) :
    SucceedsIff (grantLease cfg identity leaseSeconds job) w (Mintable w job) := by
  rw [grantLease, htoken]
  have hclock : SucceedsIff readClock w True := ⟨rfl, ⟨fun _ => trivial, fun _ => ⟨_, rfl⟩⟩⟩
  have hreadInput : ∀ inputKey, Reads (.assets (.createReadUrl inputKey)) :=
    fun _ => Action.exec_readAssets fun _ => rfl
  have hreadOutput : Reads
      (.assets (.createOutputUploadUrl job.outputKey outputUploadContentType)) :=
    Action.exec_readAssets fun _ => rfl
  refine (hclock.read_bind ⟨fun _ => rfl, fun _ => trivial⟩ fun now => ?_).congr
    (iff_of_eq (true_and _))
  refine SucceedsIff.congr (C := (∀ key ∈ job.inputKeys, Answers w (.createReadUrl key)) ∧
    Answers w (.createOutputUploadUrl job.outputKey outputUploadContentType) ∧
    w.auditOutage .leaseGranted = false ∧ True) ?_ ?_
  · refine (succeedsIff_readGrants _ job.inputKeys w).read_bind
      (awaits_readGrants _ _ hreadInput) fun inputGrants => ?_
    refine (succeedsIff_assetStore (fun _ => rfl) w).read_bind
      ⟨hreadOutput, fun _ => Prog.awaits_ofExcept _⟩ fun url => ?_
    exact (succeedsIff_recordAudit _ _ _ _ w).bind fun _ => succeedsIff_ret _ _
  · rw [and_true]
    exact ⟨fun h => ⟨h.1, h.2.1, h.2.2⟩, fun h => ⟨h.inputs, h.output, h.audited⟩⟩

/-! ### Claiming -/

/-- A claimed job was not expired, and its attempts are charged. -/
theorem not_chargesNothing_of_leased {v w : World} {query : LeaseQuery} {job : JobRecord}
    (hselected : (v.jobs.expireExhausted v.now).1.selected v.now query = some job)
    (h : w.jobs = ((v.jobs.expireExhausted v.now).1.lease v.now v.nextToken query).1) :
    ¬ ChargesNothing v w := by
  intro hnothing
  obtain ⟨hget, hcandidate⟩ := MemoryJobStore.selected_spec hselected
  rw [MemoryJobStore.get?_expireExhausted] at hget
  obtain ⟨r, hr, hexpire⟩ := Option.map_eq_some_iff.mp hget
  have hactive := not_terminal_of_candidate hcandidate
  have hdue : ¬ r.isExhausted v.now := by
    intro hdue
    rw [JobRecord.expire, if_pos hdue] at hexpire
    rw [← hexpire] at hactive
    exact absurd hactive (by simp [JobRecord.exhausted, JobStatus.terminal])
  rw [JobRecord.expire, if_neg hdue] at hexpire
  subst hexpire
  have hkept := hnothing _ r hr hdue
  have hleased : w.jobs.get? r.jobId = some (r.leased v.now v.nextToken query) := by
    rw [h, MemoryJobStore.lease, hselected]
    exact Table.get?_put_self _ (r.leased v.now v.nextToken query)
  have hattempts := congrArg JobRecord.attempts (Option.some.inj (hkept.symm.trans hleased))
  simp only [JobRecord.leased] at hattempts
  omega

/-- The world in which the grants of a claimed job are minted. -/
def claimedWorld (w : World) (query : LeaseQuery) : World :=
  ((Action.jobs (.lease query)).exec ((Action.jobs .expireExhausted).exec w).1).1

theorem run_expire_lease {α : Type} (query : LeaseQuery) (f : Option JobRecord → Coroutine α)
    (w : World) :
    Prog.run Action.exec (jobStore .expireExhausted >>= fun _ => jobStore (.lease query) >>= f) w =
      (f ((w.jobs.expireExhausted w.now).1.lease w.now w.nextToken query).2).run Action.exec
        (claimedWorld w query) := rfl

theorem run_claimJob (cfg : ServiceConfig) (identity : WorkerIdentity) (worker : WorkerRecord)
    (effective : List String) (leaseSeconds : Int) (w : World) :
    let query := leaseQuery worker identity effective leaseSeconds
    (claimJob cfg identity worker effective leaseSeconds).run Action.exec w =
      match (w.jobs.expireExhausted w.now).1.selected w.now query with
      | some job => (grantLease cfg identity leaseSeconds
          (job.leased w.now w.nextToken query)).run Action.exec (claimedWorld w query)
      | none => (recordAudit .leaseEmpty identity.workerId none [] >>= fun _ =>
          pure none).run Action.exec (claimedWorld w query) := by
  intro query
  refine (run_expire_lease query _ w).trans ?_
  rw [MemoryJobStore.lease]
  cases (w.jobs.expireExhausted w.now).1.selected w.now query <;> rfl

theorem claimedWorld_jobs (w : World) (query : LeaseQuery) :
    (claimedWorld w query).jobs =
      ((w.jobs.expireExhausted w.now).1.lease w.now w.nextToken query).1 := rfl

theorem claimedWorld_mintable {w : World} {query : LeaseQuery} {job : JobRecord}
    {uuid4 : String} :
    Mintable (claimedWorld w query) (job.leased w.now uuid4 query) ↔ Mintable w job :=
  ⟨fun h => ⟨h.inputs, h.output, h.audited⟩, fun h => ⟨h.inputs, h.output, h.audited⟩⟩

/-! ### The whole call -/

section Lease

variable (cfg : ServiceConfig) (identity : WorkerIdentity) (capabilityIds : List String)
  (leaseSeconds : Option Int) (w : World)

theorem run_leaseApproved_of_eligible {worker : WorkerRecord}
    (h : Eligible cfg w identity capabilityIds worker) :
    (leaseApproved cfg identity capabilityIds leaseSeconds).run Action.exec w =
      (claimJob cfg identity worker (effectiveCapabilities cfg worker capabilityIds)
        (leaseSeconds.getD cfg.defaultLeaseSeconds)).run Action.exec w := by
  refine (run_getWorker identity.workerId _ w).trans ?_
  rw [h.registered]
  simp [h.active, h.qualified, h.effective]

theorem run_leaseApproved_of_not_eligible
    (h : ∀ worker, ¬ Eligible cfg w identity capabilityIds worker) :
    ((leaseApproved cfg identity capabilityIds leaseSeconds).run Action.exec w).1 = w := by
  refine (congrArg Prod.fst (run_getWorker identity.workerId _ w)).trans ?_
  cases hworker : w.registry.get? identity.workerId with
  | none => rfl
  | some worker =>
      dsimp only
      split_ifs with hdraining hreason heffective
      · rfl
      · rfl
      · rfl
      · exact absurd ⟨hworker, hdraining, by simpa using hreason, by simpa using heffective⟩
          (h worker)

theorem run_lease_of_approved (h : Approved cfg w identity) :
    (lease cfg identity capabilityIds leaseSeconds).run Action.exec w =
      (leaseApproved cfg identity capabilityIds leaseSeconds).run Action.exec w := by
  obtain ⟨enrollment, henrollment⟩ := h
  have hreads : (approvedEnrollment cfg identity).Awaits Reads :=
    awaits_approvedEnrollment cfg fun _ => rfl
  have hstate := run_of_reads hreads w
  have hrun : (approvedEnrollment cfg identity).run Action.exec w = (w, .ok enrollment) :=
    Prod.ext hstate henrollment
  rw [lease, Prog.run_bind, hrun]

theorem run_lease_of_not_approved (h : ¬ Approved cfg w identity) :
    ((lease cfg identity capabilityIds leaseSeconds).run Action.exec w).1 = w := by
  have hreads : (approvedEnrollment cfg identity).Awaits Reads :=
    awaits_approvedEnrollment cfg fun _ => rfl
  have hstate := run_of_reads hreads w
  rw [lease, Prog.run_bind]
  cases hrun : (approvedEnrollment cfg identity).run Action.exec w with
  | mk v res =>
      rw [hrun] at hstate
      cases res with
      | ok enrollment => exact absurd ⟨enrollment, by rw [hrun]⟩ h
      | error error => exact hstate

/-- A call that claims a job charges it, and it succeeds exactly when the grants can be minted. -/
theorem run_lease_of_claims {job : JobRecord}
    (h : Claims cfg w identity capabilityIds leaseSeconds job) :
    ¬ ChargesNothing w ((lease cfg identity capabilityIds leaseSeconds).run Action.exec w).1 ∧
      ((∃ grant, ((lease cfg identity capabilityIds leaseSeconds).run Action.exec w).2 = .ok grant) ↔
        Mintable w job) := by
  obtain ⟨happroved, worker, heligible, hselected⟩ := h
  rw [selectedFor] at hselected
  rw [run_lease_of_approved _ _ _ _ _ happroved, run_leaseApproved_of_eligible _ _ _ _ _ heligible,
    run_claimJob, hselected]
  generalize leaseQuery worker identity (effectiveCapabilities cfg worker capabilityIds)
    (leaseSeconds.getD cfg.defaultLeaseSeconds) = query at hselected ⊢
  have htoken : (job.leased w.now w.nextToken query).claimToken = some w.nextToken := rfl
  have hgrant := succeedsIff_grantLease cfg identity (leaseSeconds.getD cfg.defaultLeaseSeconds)
    htoken (claimedWorld w query)
  exact ⟨not_chargesNothing_of_leased hselected (hgrant.jobs.trans (claimedWorld_jobs w query)),
    hgrant.ok.trans claimedWorld_mintable⟩

/-- A call that claims no job sweeps at most. -/
theorem run_lease_of_not_claims
    (h : ∀ job, ¬ Claims cfg w identity capabilityIds leaseSeconds job) :
    ChargesNothing w ((lease cfg identity capabilityIds leaseSeconds).run Action.exec w).1 := by
  by_cases happroved : Approved cfg w identity
  · rw [run_lease_of_approved _ _ _ _ _ happroved]
    by_cases heligible : ∃ worker, Eligible cfg w identity capabilityIds worker
    · obtain ⟨worker, hworker⟩ := heligible
      have hselected : selectedFor cfg w identity capabilityIds leaseSeconds worker = none :=
        Option.eq_none_iff_forall_ne_some.mpr fun job hjob =>
          h job ⟨happroved, worker, hworker, hjob⟩
      rw [selectedFor] at hselected
      rw [run_leaseApproved_of_eligible _ _ _ _ _ hworker, run_claimJob, hselected]
      have haudit := (succeedsIff_recordAudit .leaseEmpty identity.workerId none []
        (claimedWorld w (leaseQuery worker identity (effectiveCapabilities cfg worker capabilityIds)
          (leaseSeconds.getD cfg.defaultLeaseSeconds)))).bind fun _ =>
            succeedsIff_ret (none : Option LeaseGrant) _
      refine chargesNothing_of_expired (haudit.jobs.trans ?_)
      rw [claimedWorld_jobs, MemoryJobStore.lease, hselected]
    · rw [run_leaseApproved_of_not_eligible _ _ _ _ _ fun worker hworker => heligible ⟨worker, hworker⟩]
      exact fun j r hget _ => hget
  · rw [run_lease_of_not_approved _ _ _ _ _ happroved]
    exact fun j r hget _ => hget

/-- A failed `lease` call charges nothing exactly when it claims no job whose grants cannot be
minted. -/
theorem failed_lease_charges_nothing_iff :
    ((∃ error, ((lease cfg identity capabilityIds leaseSeconds).run Action.exec w).2 = .error error) →
      ChargesNothing w ((lease cfg identity capabilityIds leaseSeconds).run Action.exec w).1) ↔
    ∀ job, Claims cfg w identity capabilityIds leaseSeconds job → Mintable w job := by
  constructor
  · intro hfailure job hclaims
    obtain ⟨hcharged, hok⟩ := run_lease_of_claims cfg identity capabilityIds leaseSeconds w hclaims
    rw [← hok]
    cases hresult : ((lease cfg identity capabilityIds leaseSeconds).run Action.exec w).2 with
    | ok grant => exact ⟨grant, rfl⟩
    | error error => exact absurd (hfailure ⟨error, hresult⟩) hcharged
  · rintro hmintable ⟨error, herror⟩
    by_cases hclaims : ∃ job, Claims cfg w identity capabilityIds leaseSeconds job
    · obtain ⟨job, hjob⟩ := hclaims
      obtain ⟨-, hok⟩ := run_lease_of_claims cfg identity capabilityIds leaseSeconds w hjob
      obtain ⟨grant, hgrant⟩ := hok.mpr (hmintable job hjob)
      exact absurd (herror.symm.trans hgrant) (by simp)
    · exact run_lease_of_not_claims cfg identity capabilityIds leaseSeconds w
        fun job hjob => hclaims ⟨job, hjob⟩

end Lease

end Alone

/-- A worker registers, and a job is submitted whose input was never stored. -/
def missingInputRun : Sys World Action Action.Reply Exc Request Response :=
  letI := PyText.ascii
  Sys.serveAll (coordinator smallConfig) ⟨smallWorld, []⟩
    [.registerHeartbeat smallIdentity smallRegistration,
      .submit { echoJob with inputKeys := ["inputs/missing"] }]

/-- The grant of the missing input raises, and the job stays leased with one attempt spent. -/
theorem failed_lease_charges_attempt :
    letI := PyText.ascii
    Reaches (coordinator smallConfig) anySchedule ⟨smallWorld, []⟩ missingInputRun ∧
      let result := (lease smallConfig smallIdentity ["test.deterministic.echo.v1"] none).run
        Action.exec missingInputRun.world
      result.2 = .error (.assetNotFound "inputs/missing") ∧
        ¬ ChargesNothing missingInputRun.world result.1 := by
  let _ := PyText.ascii
  refine ⟨?_, by rfl, fun h => ?_⟩
  · unfold missingInputRun
    apply reaches_serveAll
    refine .cons (fun _ _ _ => trivial) (World.presents_of_no_token rfl) ?_
    exact .cons (fun _ _ _ => trivial) (World.presents_of_no_token rfl) trivial
  · have hbefore : (missingInputRun.world.jobs.get? "job-1").map
        (fun r => (r.attempts, r.isExhausted missingInputRun.world.now)) = some (0, false) := by
      decide
    have hafter : ((((lease smallConfig smallIdentity ["test.deterministic.echo.v1"] none).run
        Action.exec missingInputRun.world).1.jobs.get? "job-1").map JobRecord.attempts) =
          some 1 := by
      decide
    obtain ⟨r, hget, hr⟩ := Option.map_eq_some_iff.mp hbefore
    obtain ⟨hattempts, hdue⟩ := Prod.mk.inj hr
    have hkept := h "job-1" r hget (by simp [hdue])
    rw [hkept, Option.map_some, hattempts] at hafter
    exact absurd hafter (by simp)

end GpuWorkerPool
