import GpuWorkerPool.GrantTrail

/-!
Profiles that are not qualified. The `lease` call checks the versions of its worker and the
capabilities it asks for, and never the pins of a job. A job whose pins the store accepts for the
worker pins only versions of the worker, so it is qualified too, whatever rows are stored and
however they came there.
-/

namespace GpuWorkerPool

open Base WorkerPoolService

/-- The job touches no profile that is not qualified. -/
def JobRecord.Qualified (cfg : ServiceConfig) (r : JobRecord) : Prop :=
  unqualifiedReason cfg.unqualified [r.capabilityId] r.requirements.runtimeVersions = none

/-- The worker advertises no profile that is not qualified. -/
def WorkerRecord.Qualified (cfg : ServiceConfig) (row : WorkerRecord) : Prop :=
  unqualifiedReason cfg.unqualified row.capabilityIds row.runtimeVersions = none

/-- The job is stored and qualified. -/
def World.QualifiedJob (cfg : ServiceConfig) (w : World) (j : String) : Prop :=
  ∃ r, w.jobs.get? j = some r ∧ r.Qualified cfg

/-- Every job is still stored, with its capability and its pins. -/
def KeepsProfiles (s s' : MemoryJobStore) : Prop :=
  ∀ j r, s.get? j = some r → ∃ r', s'.get? j = some r' ∧ r'.capabilityId = r.capabilityId ∧
    r'.requirements.runtimeVersions = r.requirements.runtimeVersions

/-- Rows are written around the service: any rows of workers, and any rows of jobs, as long as the
stored jobs keep their capability and their pins. -/
def World.WrittenAround (v w : World) : Prop :=
  ∃ jobs registry now clock assetOutage auditOutage, KeepsProfiles v.jobs jobs ∧ w =
    { v with
      jobs := jobs, registry := registry, now := now, clock := clock,
      assetOutage := assetOutage, auditOutage := auditOutage }

theorem World.QualifiedJob.around {cfg : ServiceConfig} {v w : World} {j : String}
    (h : v.QualifiedJob cfg j) (haround : v.WrittenAround w) : w.QualifiedJob cfg j := by
  obtain ⟨r, hget, hqualified⟩ := h
  obtain ⟨jobs, registry, now, clock, assetOutage, auditOutage, hkeeps, rfl⟩ := haround
  obtain ⟨r', hget', hcapability, hpins⟩ := hkeeps j r hget
  refine ⟨r', hget', ?_⟩
  rw [JobRecord.Qualified, hcapability, hpins]
  exact hqualified

theorem manifestProblem_of_qualified {cfg : ServiceConfig} {record : JobRecord}
    (h : record.Qualified cfg) (manifest : OutputManifest) :
    manifestProblem cfg record manifest ≠ some "profile_not_qualified" := by
  have hreason : unqualifiedReason cfg.unqualified [record.capabilityId]
      record.requirements.runtimeVersions = none := h
  simp only [manifestProblem, hreason, Option.isSome_none, Bool.false_eq_true, if_false]
  split_ifs <;> simp

/-- The actions of a submission or of a heartbeat. -/
def Stores (cfg : ServiceConfig) : Action → Prop :=
  Touching (fun call => ∃ submission, call = .submit submission ∧ SubmitsQualified cfg call)
    fun call => call.Reads ∨ ∃ registration identitySubject,
      call = .upsert registration identitySubject ∧
        unqualifiedReason cfg.unqualified (registration.capabilities.map WorkerCapability.capabilityId)
          registration.runtimeVersions = none

theorem awaits_submit_stores (cfg : ServiceConfig) (submission : JobSubmission) :
    ((Request.submit submission).program cfg).Awaits (Stores cfg) := by
  refine .bind ?_ fun _ => trivial
  rw [WorkerPoolService.submit]
  split
  · trivial
  · rename_i hqualified
    refine .bind (awaits_jobStore ⟨submission, rfl, hqualified⟩) fun _ => ?_
    exact .bind (Prog.awaits_ofExcept _) fun _ => trivial

theorem awaits_registerHeartbeat_stores (cfg : ServiceConfig) (identity : WorkerIdentity)
    (registration : WorkerRegistration) :
    ((Request.registerHeartbeat identity registration).program cfg).Awaits (Stores cfg) := by
  refine .bind ?_ fun _ => trivial
  rw [registerHeartbeat]
  split
  · trivial
  · refine .bind (awaits_approvedEnrollment cfg (Or.inl trivial)) fun enrollment => ?_
    split
    · trivial
    · refine .bind (Prog.awaits_ofExcept _) fun _ => ?_
      split
      · trivial
      · rename_i hqualified
        refine .bind (awaits_workerRegistry (Or.inr ⟨_, _, rfl, hqualified⟩)) fun _ => ?_
        refine .bind (Prog.awaits_ofExcept _) fun _ => ?_
        exact .bind (awaits_recordAudit trivial) fun _ => trivial

section Runs

variable [PyText]

/-- A job that was leased for a qualified worker is qualified: its pins are among the versions of
the worker. -/
theorem GrantTrail.job_qualified {cfg : ServiceConfig} {identity : WorkerIdentity}
    {capabilityIds : List String} {path : List (Action × World)} {grant : LeaseGrant}
    {worker : WorkerRecord} {job : JobRecord} {leaseSeconds : Int} {u v : World}
    (h : GrantTrail cfg identity capabilityIds path grant worker job leaseSeconds u v) :
    job.Qualified cfg := by
  obtain ⟨-, hallowed, -, hsatisfies⟩ := h.candidate
  obtain ⟨-, hversions⟩ := unqualifiedReason_eq_none_iff.mp h.qualified
  refine unqualifiedReason_eq_none_iff.mpr ⟨by simpa using hallowed, fun entry hentry => ?_⟩
  simp only [satisfiesRequirements, Bool.and_eq_true, List.all_eq_true, decide_eq_true_eq]
    at hsatisfies
  have hpinned := hsatisfies.1.1.1.2 entry hentry
  exact hversions entry (Dict.lookup_eq_some_iff.mp hpinned)

/-- A qualified job stays so under every operation that stores qualified jobs only. -/
theorem World.QualifiedJob.exec {cfg : ServiceConfig} {w : World} {j : String}
    (h : w.QualifiedJob cfg j) {action : Action} (hsubmits : OnJobs (SubmitsQualified cfg) action) :
    (action.exec w).1.QualifiedJob cfg j := by
  obtain ⟨r, hget, hqualified⟩ := h
  by_cases hjobs : ∃ call, action = .jobs call
  · obtain ⟨call, rfl⟩ := hjobs
    have hrow := call.exec_row w.now w.nextToken w.jobs j
    show ∃ r', (call.exec w.now w.nextToken w.jobs).1.get? j = some r' ∧ r'.Qualified cfg
    rw [hget] at hrow
    generalize (call.exec w.now w.nextToken w.jobs).1.get? j = after at hrow ⊢
    cases hrow with
    | submitted _ _ _ _ => exact ⟨_, rfl, hsubmits⟩
    | _ => exact ⟨_, rfl, hqualified⟩
  · rw [World.QualifiedJob, (Action.exec_jobs_of_ne (fun call hcall => hjobs ⟨call, hcall⟩) w).1]
    exact ⟨r, hget, hqualified⟩

/-- Any requests in any order, while rows are written around the service. -/
def aroundSchedule : Regime World Action Action.Reply Exc Request Response where
  accepts _ _ := True
  allow _ _ _ := True
  env s w := s.world.WrittenAround w

/-! ### Completions -/

abbrev qualifiedContract (cfg : ServiceConfig) (j : String) : Prog.Contract Action World where
  inv w := w.QualifiedJob cfg j
  allow _ _ := True
  rely _ _ := True
  guar _ _ := True

/-- The result is no rejection for an unqualified profile. -/
def NotUnqualified {α : Type} (res : Except Exc α) : Prop :=
  res ≠ .error (.completionRejected "profile_not_qualified")

variable {cfg : ServiceConfig} {j : String}

theorem sat_of_submitsQualified {α : Type} {p : Coroutine α}
    (h : p.Awaits (OnJobs (SubmitsQualified cfg))) (w : World) :
    Prog.Sat Action.exec (qualifiedContract cfg j) p w fun _ _ => True := by
  refine Prog.sat_of_awaits (fun action v haction hinv _ => ?_) h w
  exact ⟨World.QualifiedJob.exec hinv haction, trivial⟩

theorem sat_recordAudit_qualified (eventType : AuditEventType) (workerId jobId : Option String)
    (detail : List (String × JsonValue)) (w : World) :
    Prog.Sat Action.exec (qualifiedContract cfg j) (recordAudit eventType workerId jobId detail) w
      fun res _ => NotUnqualified res := by
  intro v _ hinv _
  refine ⟨World.QualifiedJob.exec hinv trivial, trivial, ?_⟩
  rw [Action.exec]
  split <;> simp [Prog.ofExcept, NotUnqualified]

theorem sat_verifyOutput_qualified {record : JobRecord} (hqualified : record.Qualified cfg)
    (manifest : OutputManifest) (w : World) :
    Prog.Sat Action.exec (qualifiedContract cfg j) (verifyOutput cfg record manifest) w
      fun res _ => NotUnqualified res := by
  have hguar : ∀ v : World, v.QualifiedJob cfg j → True := fun _ _ => trivial
  rw [verifyOutput]
  cases hproblem : manifestProblem cfg record manifest with
  | some reason =>
      have hother : reason ≠ "profile_not_qualified" := fun h =>
        manifestProblem_of_qualified hqualified manifest (h ▸ hproblem)
      simpa [NotUnqualified] using hother
  | none =>
      refine sat_readAssets hguar (fun _ => rfl) (fun t descriptor _ _ _ => ?_)
        fun t error _ _ herror => ?_
      · cases descriptor with
        | none => simp [NotUnqualified]
        | some descriptor =>
            dsimp only
            split_ifs
            · simp [NotUnqualified]
            · simp [NotUnqualified]
            · refine sat_readAssets hguar (fun _ => rfl) (fun u content _ _ _ => ?_)
                fun u error _ _ herror => ?_
              · split_ifs <;> simp [NotUnqualified]
              · rcases herror with ⟨text, rfl⟩ | hreply
                · simp [NotUnqualified]
                · rintro ⟨⟩
                  exact MemoryAssetStore.readLimited_ne_rejected _ _ _ _ hreply
      · rcases herror with ⟨text, rfl⟩ | hreply
        · simp [NotUnqualified]
        · simp [AssetStoreCall.exec] at hreply

theorem sat_complete_qualified (identity : WorkerIdentity) (claimToken : String)
    (manifest : OutputManifest) (w : World) :
    Prog.Sat Action.exec (qualifiedContract cfg j) (complete cfg identity j claimToken manifest) w
      fun res _ => NotUnqualified res := by
  have hguar : ∀ v : World, v.QualifiedJob cfg j → True := fun _ _ => trivial
  refine Prog.sat_bind.mpr ((sat_ownedJob hguar (fun _ _ => trivial) cfg identity j w).mono ?_)
  rintro (error | record) t ⟨-, hinv, howned⟩
  · exact fun h => howned _ (Except.error.inj h)
  · obtain ⟨r, hget, hqualified⟩ := hinv
    obtain rfl : record = r := Option.some.inj (howned.stored.symm.trans hget)
    refine Prog.sat_bind.mpr (Prog.sat_handle.mpr
      ((sat_verifyOutput_qualified hqualified manifest t).mono ?_))
    have hcomplete : ∀ u, Prog.Sat Action.exec (qualifiedContract cfg j) (do
        let accepted : Bool ← jobStore (.complete record.jobId claimToken manifest.contentType
          manifest.sha256 manifest.byteLength (executionMetadata manifest))
        if accepted then
          recordAudit .jobCompleted identity.workerId record.jobId
            [("byte_length", .int manifest.byteLength), ("sha256", .str manifest.sha256),
              ("plugin_id", .str manifest.pluginId), ("plugin_version", .str manifest.pluginVersion)]
        else throw (.staleLease j)) u fun res _ => NotUnqualified res := by
      intro u v _ hinv _
      refine ⟨World.QualifiedJob.exec hinv trivial, trivial, ?_⟩
      generalize (Action.exec (.jobs (.complete ..)) v).2 = accepted
      cases accepted with
      | false => exact fun h => absurd (Except.error.inj h) (by simp)
      | true => exact sat_recordAudit_qualified _ _ _ _ _
    rintro (error | value) u hresult
    · cases error with
      | completionRejected reason =>
          intro v _ hinv _
          refine ⟨World.QualifiedJob.exec hinv trivial, trivial, ?_⟩
          show Prog.Sat _ _ (recordAudit _ _ _ _ >>= fun _ => throw (.completionRejected reason)) _ _
          refine Prog.sat_bind.mpr ((sat_recordAudit_qualified _ _ _ _ _).mono ?_)
          rintro (error | value) x haudit
          · exact fun h => haudit (congrArg _ (Except.error.inj h))
          · exact fun h => hresult (congrArg _ (Except.error.inj h))
      | _ => exact fun h => hresult (congrArg _ (Except.error.inj h))
    · exact hcomplete u

/-- The completions of the job that are begun at place `begun` or later are not rejected for an
unqualified profile. -/
def CompletesQualified (j : String) (begun i : Nat) (request : Request)
    (res : Except Exc Response) : Prop :=
  begun ≤ i → ∀ identity claimToken manifest,
    request = .complete identity j claimToken manifest → NotUnqualified res

def qualifiedDiscipline (cfg : ServiceConfig) (j : String) (begun : Nat) :
    Discipline (coordinator cfg) aroundSchedule where
  inv w := w.QualifiedJob cfg j
  rely _ _ := True
  evolve _ _ := True
  guar _ _ _ := True
  post i request res _ := CompletesQualified j begun i request res
  rely_refl _ := trivial
  rely_trans _ _ := trivial
  rely_evolve _ := trivial
  guar_rely _ _ := trivial
  post_stable _ _ h := h
  begin_sat := by
    intro i request w _ _
    show Prog.Sat Action.exec (qualifiedContract cfg j) (request.program cfg) w _
    by_cases hcomplete : ∃ identity claimToken manifest,
        request = .complete identity j claimToken manifest
    · obtain ⟨identity, claimToken, manifest, rfl⟩ := hcomplete
      refine Prog.sat_bind.mpr ((sat_complete_qualified identity claimToken manifest w).mono ?_)
      rintro (error | value) t hresult
      · exact fun _ _ _ _ _ h => hresult (congrArg _ (Except.error.inj h))
      · exact fun _ _ _ _ _ => by simp [NotUnqualified]
    · refine (sat_of_submitsQualified (awaits_qualified cfg request) w).mono fun res t _ => ?_
      rintro - identity claimToken manifest rfl
      exact absurd ⟨identity, claimToken, manifest, rfl⟩ hcomplete
  env_ok hinv haround := ⟨hinv.around haround, trivial, fun _ => trivial⟩

/-! ### What is stored -/

/-- Every row that the action writes is qualified. -/
def StoresQualified (cfg : ServiceConfig) (action : Action) (w : World) : Prop :=
  (∀ j r', (action.exec w).1.jobs.get? j = some r' → w.jobs.get? j = some r' ∨ r'.Qualified cfg) ∧
    ∀ id row', (action.exec w).1.registry.get? id = some row' →
      w.registry.get? id = some row' ∨ row'.Qualified cfg

theorem storesQualified_of_stores {action : Action} (h : Stores cfg action) (w : World) :
    StoresQualified cfg action w := by
  cases action with
  | jobs call =>
      obtain ⟨submission, rfl, hqualified⟩ := h
      refine ⟨fun j r' hget' => ?_, fun id row' hget' => Or.inl hget'⟩
      have hrow := (JobStoreCall.submit submission).exec_row w.now w.nextToken w.jobs j
      rw [show (JobStoreCall.exec w.now w.nextToken w.jobs (.submit submission)).1.get? j =
        some r' from hget'] at hrow
      generalize w.jobs.get? j = row at hrow
      cases hrow with
      | kept => exact Or.inl rfl
      | submitted _ _ _ _ => exact Or.inr hqualified
  | registry call =>
      refine ⟨fun j r' hget' => Or.inl hget', fun id row' hget' => ?_⟩
      have hrow := call.exec_row w.now w.registry id
      rw [show (call.exec w.now w.registry).1.get? id = some row' from hget'] at hrow
      generalize w.registry.get? id = row at hrow
      cases hrow with
      | kept => exact Or.inl rfl
      | upserted _ _ _ _ _ =>
          rcases h with hreads | ⟨registration, identitySubject, hcall, hqualified⟩
          · exact hreads.elim
          · obtain ⟨rfl, rfl⟩ := RegistryCall.upsert.inj hcall
            exact Or.inr hqualified
      | statusSet _ =>
          rcases h with hreads | ⟨registration, identitySubject, hcall, -⟩
          · exact hreads.elim
          · exact absurd hcall (by simp)
  | assets call =>
      rw [StoresQualified, Action.exec]
      split <;> exact ⟨fun _ _ => Or.inl, fun _ _ => Or.inl⟩
  | audit eventType workerId jobId detail =>
      rw [StoresQualified, Action.exec]
      split <;> exact ⟨fun _ _ => Or.inl, fun _ _ => Or.inl⟩
  | auditForJob jobId => exact ⟨fun _ _ => Or.inl, fun _ _ => Or.inl⟩
  | clock => exact ⟨fun _ _ => Or.inl, fun _ _ => Or.inl⟩

/-! ### The gate -/

/-- Unqualified profiles are never dispatched, from any stored rows and while rows are written
around the service. Every grant hands out a qualified job, no later completion of a granted job is
rejected for an unqualified profile, and no submission and no heartbeat stores a row that is not
qualified. -/
theorem unqualified_never_dispatched (cfg : ServiceConfig) {w : World}
    {history : List (Event World Action)}
    {s : Sys World Action Action.Reply Exc Request Response}
    (hrun : Recorded (coordinator cfg) aroundSchedule ⟨w, []⟩ history s) :
    (∀ i identity capabilityIds leaseSeconds grant, s.calls[i]? =
        some ⟨.lease identity capabilityIds leaseSeconds, .ret (.grant (some grant))⟩ →
      (∃ worker job seconds u v,
        GrantTrail cfg identity capabilityIds (pathOf history i) grant worker job seconds u v ∧
          job.Qualified cfg) ∧
      ∀ s' k identity' claimToken manifest p,
        Reaches (coordinator cfg) aroundSchedule s s' → s.calls.length ≤ k →
        s'.calls[k]? = some ⟨.complete identity' grant.jobId claimToken manifest, p⟩ →
          p ≠ .raise (.completionRejected "profile_not_qualified")) ∧
    ∀ i c e, s.calls[i]? = some c →
      ((∃ submission, c.request = .submit submission) ∨
        ∃ identity registration, c.request = .registerHeartbeat identity registration) →
      e ∈ history → e.call = i → StoresQualified cfg e.action e.world := by
  refine ⟨fun i identity capabilityIds leaseSeconds grant hcall => ?_, ?_⟩
  · obtain ⟨worker, job, seconds, u, v, htrail⟩ := grantTrail_of_recorded hrun hcall
    refine ⟨⟨worker, job, seconds, u, v, htrail, htrail.job_qualified⟩, ?_⟩
    rintro s' k identity' claimToken manifest p hreach hbegun hcomplete rfl
    have hleased : ((Action.jobs (.lease (leaseQuery worker identity (effectiveCapabilities cfg
        worker capabilityIds) seconds))).exec v).1.QualifiedJob cfg grant.jobId := by
      obtain ⟨r, -, hget⟩ := MemoryJobStore.lease_eq_some htrail.given
      exact ⟨job, htrail.copies.jobId ▸ hget, htrail.job_qualified⟩
    have hstored : s.world.QualifiedJob cfg grant.jobId :=
      hrun.stable (I := fun w => w.QualifiedJob cfg grant.jobId) (awaits_qualified cfg)
        (fun _ _ haction h => h.exec haction) (fun _ _ haround h => h.around haround)
        (mem_pathOf.mp htrail.asked) hleased
    have hsafe : (qualifiedDiscipline cfg grant.jobId s.calls.length).Safe s := by
      refine ⟨hstored, fun n c hc => ?_⟩
      refine (sat_of_submitsQualified (hrun.awaits hc (awaits_qualified cfg _)).2 _).mono ?_
      exact fun res t _ hn => absurd (List.getElem?_eq_some_iff.mp hc).1 (not_lt.mpr hn)
    exact (Discipline.safe_of_reaches hsafe hreach).answered hcomplete rfl hbegun _ _ _ rfl rfl
  · rintro i ⟨request, p⟩ e hc hrequest he hcall
    have hstores : (request.program cfg).Awaits (Stores cfg) := by
      rcases hrequest with ⟨submission, rfl⟩ | ⟨identity, registration, rfl⟩
      · exact awaits_submit_stores cfg submission
      · exact awaits_registerHeartbeat_stores cfg identity registration
    exact storesQualified_of_stores ((hrun.awaits hc hstores).1 e he hcall) e.world

end Runs

theorem unqualified_never_dispatched_for_echo :
    letI := PyText.ascii
    ∃ history, Recorded (coordinator smallConfig) aroundSchedule ⟨smallWorld, []⟩ history leasedRun ∧
      ∃ worker job seconds u v, GrantTrail smallConfig smallIdentity
        ["test.deterministic.echo.v1"] (pathOf history 2) smallGrant worker job seconds u v ∧
          job.Qualified smallConfig := by
  let _ := PyText.ascii
  have hreach : Reaches (coordinator smallConfig) aroundSchedule ⟨smallWorld, []⟩ leasedRun := by
    unfold leasedRun
    apply reaches_serveAll
    refine .cons (fun _ _ _ => trivial) trivial ?_
    refine .cons (fun _ _ _ => trivial) trivial ?_
    exact .cons (fun _ _ _ => trivial) trivial trivial
  obtain ⟨history, hrun⟩ := hreach.recorded
  exact ⟨history, hrun, ((unqualified_never_dispatched smallConfig hrun).1 2 _ _ none smallGrant
    rfl).1⟩

end GpuWorkerPool
