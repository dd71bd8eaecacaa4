import GpuWorkerPool.PoolViews

/-!
Which accepted jobs some worker could be given. The requirements of a job, the enrollment of a worker
and its heartbeat are bounded by three validators, each with bounds of its own; a job is servable
exactly when what it asks for also lies within the bounds of the other two.
-/

namespace GpuWorkerPool

open Base WorkerPoolService

/-- A coordinator with one enrolled worker that refuses no machine profile. -/
def servingConfig (workerId : String) (enrollment : WorkerEnrollment) : ServiceConfig where
  enrollments := Table.empty.put (workerId, enrollment)
  machineProfiles := some ⟨⟨[], [], []⟩, fun _ _ => [], fun _ => []⟩

/-- What a job asks for lies within what a worker may enroll with and advertise. -/
structure WithinWorkers [PyText] (submission : JobSubmission) : Prop where
  tenant : validEnrollmentTenant submission.tenantId
  capability : submission.capabilityId.toList.getLast? ≠ some '\n'
  labels : ∀ label ∈ submission.requirements.labels, label.length ≤ 32
  gpuModels : submission.requirements.gpuModels = [] ∨ ∃ model : String, model.length ≤ 64 ∧
    PyText.lower model ∈ submission.requirements.gpuModels.map PyText.lower
  workerIds : submission.requirements.workerIds = [] ∨
    ∃ workerId ∈ submission.requirements.workerIds, workerIdPattern workerId
  versions : ∀ entry ∈ submission.requirements.runtimeVersions.rows,
    entry.1.length ≤ maxRuntimeVersionKeyLength ∧ entry.2.length ≤ 64

section Serving

variable [PyText]

/-- The worker that the heartbeat of an enrolled worker registers, in a pool without other workers,
is given the job by a store that holds nothing else. -/
def Servable (w : World) (leaseSeconds : Int) (submission : JobSubmission) : Prop :=
  ∃ (workerId : String) (enrollment : WorkerEnrollment) (body : WorkerHeartbeatRequest),
    validateEnrollment workerId = .ok () ∧
      let identity : WorkerIdentity := ⟨workerId, enrollment.identitySubject, "static"⟩
      ∃ row, ((registerHeartbeat (servingConfig workerId enrollment) identity
          body.toRegistration).run Action.exec w.withoutWorkers).2 = .ok row ∧
        ∃ job, (MemoryJobStore.lease (MemoryJobStore.submit Table.empty w.now submission).1 w.now
            w.nextToken (leaseQuery row identity row.capabilityIds leaseSeconds)).2 = some job ∧
          job.jobId = submission.jobId

theorem submit_empty_rows {submission : JobSubmission}
    (h : validateJobSubmission submission = .ok ()) (now : DateTime) :
    (MemoryJobStore.submit Table.empty now submission).1.rows =
      [JobRecord.ofSubmission submission now] := by
  rw [MemoryJobStore.submit, h]
  rfl

/-- The only job is leased exactly when it is a candidate. -/
theorem lease_only_iff {submission : JobSubmission} (h : validateJobSubmission submission = .ok ())
    (now : DateTime) (uuid4 : String) (query : LeaseQuery) :
    (∃ job, (MemoryJobStore.lease (MemoryJobStore.submit Table.empty now submission).1 now uuid4
        query).2 = some job ∧ job.jobId = submission.jobId) ↔
      isCandidate query now (JobRecord.ofSubmission submission now) := by
  rw [MemoryJobStore.lease, MemoryJobStore.selected, submit_empty_rows h]
  cases hcandidate : isCandidate query now (JobRecord.ofSubmission submission now) with
  | false => simp [hcandidate, firstOf]
  | true =>
      rw [List.filter_cons_of_pos hcandidate]
      simp only [List.filter_nil, firstOf, List.foldl_nil, iff_true]
      exact ⟨_, rfl, rfl⟩

/-- The query of a worker finds the job a candidate. -/
theorem isCandidate_iff {submission : JobSubmission} (hbudget : 1 ≤ submission.attemptBudget)
    (now : DateTime) (row : WorkerRecord) (identity : WorkerIdentity) (leaseSeconds : Int) :
    isCandidate (leaseQuery row identity row.capabilityIds leaseSeconds) now
        (JobRecord.ofSubmission submission now) ↔
      submission.capabilityId ∈ row.capabilityIds ∧ submission.tenantId = row.tenantId ∧
        satisfiesRequirements (JobRecord.ofSubmission submission now)
          (leaseQuery row identity row.capabilityIds leaseSeconds) := by
  rw [isCandidate]
  simp only [Bool.and_eq_true]
  constructor
  · rintro ⟨⟨⟨⟨hcapability, -⟩, htenant⟩, hrequirements⟩, -⟩
    exact ⟨of_decide_eq_true hcapability, of_decide_eq_true htenant, hrequirements⟩
  · rintro ⟨hcapability, htenant, hrequirements⟩
    have hattempts : (0 : Int) < submission.attemptBudget := by omega
    exact ⟨⟨⟨⟨decide_eq_true hcapability, decide_eq_true hattempts⟩, decide_eq_true htenant⟩,
      hrequirements⟩, rfl⟩

/-- The requirements as conditions on the row. -/
theorem satisfiesRequirements_iff (submission : JobSubmission) (now : DateTime) (row : WorkerRecord)
    (identity : WorkerIdentity) (leaseSeconds : Int) :
    satisfiesRequirements (JobRecord.ofSubmission submission now)
        (leaseQuery row identity row.capabilityIds leaseSeconds) ↔
      (submission.requirements.workerIds = [] ∨
          identity.workerId ∈ submission.requirements.workerIds) ∧
        (∀ entry ∈ submission.requirements.runtimeVersions.rows,
          row.runtimeVersions.lookup entry.1 = some entry.2) ∧
        submission.requirements.minVramMb.getD 0 ≤ row.vramMb.getD 0 ∧
        (submission.requirements.gpuModels = [] ∨ ∃ model, row.gpuModel = some model ∧
          PyText.lower model ∈ submission.requirements.gpuModels.map PyText.lower) ∧
        ∀ label ∈ submission.requirements.labels, label ∈ row.labels := by
  rw [satisfiesRequirements]
  simp only [Bool.and_eq_true, Bool.or_eq_true, List.isEmpty_iff, List.all_eq_true,
    Option.any_eq_true, and_assoc]
  refine and_congr (or_congr Iff.rfl decide_eq_true_iff) (and_congr ?_ (and_congr
    decide_eq_true_iff (and_congr (or_congr Iff.rfl ?_) ?_)))
  · exact forall₂_congr fun entry _ => decide_eq_true_iff
  · exact exists_congr fun model => and_congr Iff.rfl decide_eq_true_iff
  · exact forall₂_congr fun label _ => decide_eq_true_iff

/-- A worker that is given the job keeps to its bounds, and so does the job. -/
theorem withinWorkers_of_servable {w : World} {leaseSeconds : Int} {submission : JobSubmission}
    (haccepted : validateJobSubmission submission = .ok ())
    (h : Servable w leaseSeconds submission) : WithinWorkers submission := by
  obtain ⟨workerId, enrollment, body, henrolled, row, hrow, hleased⟩ := h
  rw [lease_only_iff haccepted, isCandidate_iff (accepted_of_validate haccepted).attemptBudget,
    satisfiesRequirements_iff] at hleased
  obtain ⟨hcapability, htenant, hworker, hversions, -, hgpu, hlabels⟩ := hleased
  have hrun := run_registerHeartbeat (servingConfig workerId enrollment)
    ⟨workerId, enrollment.identitySubject, "static"⟩ body.toRegistration (w := w.withoutWorkers) rfl
  rcases hrun with ⟨error, herror, -⟩ | ⟨hupserted, -, hvalid⟩
  · exact absurd (hrow.symm.trans herror) (by simp)
  · obtain rfl := Except.ok.inj (hrow.symm.trans hupserted)
    have hbounds := body.withinBounds
    simp only [WorkerRegistration.withinBounds, Bool.and_eq_true, List.all_eq_true] at hbounds
    obtain ⟨⟨⟨⟨⟨⟨⟨⟨⟨⟨⟨⟨⟨⟨-, -⟩, -⟩, hcapabilities⟩, -⟩, hmodel⟩, -⟩, -⟩, hentries⟩, -⟩, hlabel⟩, -⟩,
      -⟩, -⟩, -⟩ := hbounds
    refine ⟨htenant ▸ hvalid, ?_, fun label hmem => ?_, ?_, ?_, fun entry hmem => ?_⟩
    · obtain ⟨capability, hmem, hid⟩ := List.mem_map.mp hcapability
      have hfield := hcapabilities capability hmem
      simp only [WorkerCapability.withinBounds, capabilityIdField, Bool.and_eq_true,
        decide_eq_true_eq] at hfield
      exact hid ▸ hfield.1.1.1.1.2
    · have hlength := hlabel label (hlabels label hmem)
      rw [lengthWithin, Bool.and_eq_true, decide_eq_true_eq, decide_eq_true_eq] at hlength
      exact hlength.2
    · refine hgpu.imp_right ?_
      rintro ⟨model, hrowModel, hlower⟩
      replace hrowModel : body.toRegistration.gpuModel = some model := hrowModel
      rw [hrowModel, Option.all_some, lengthWithin, Bool.and_eq_true, decide_eq_true_eq,
        decide_eq_true_eq] at hmodel
      exact ⟨model, hmodel.2, hlower⟩
    · rw [validateEnrollment, require_eq_ok] at henrolled
      exact hworker.imp_right fun hmem => ⟨workerId, hmem, henrolled⟩
    · have hrows := hentries entry (Dict.lookup_eq_some_iff.mp (hversions entry hmem))
      simp only [lengthWithin, Bool.and_eq_true, decide_eq_true_eq] at hrows
      exact ⟨hrows.1.2, hrows.2.2⟩

/-- An enrolled worker that is not registered yet is approved. -/
theorem run_approvedEnrollment_enrolled (w : World) (workerId : String)
    (enrollment : WorkerEnrollment) (method : String) :
    (approvedEnrollment (servingConfig workerId enrollment)
        ⟨workerId, enrollment.identitySubject, method⟩).run Action.exec w.withoutWorkers =
      (w.withoutWorkers, .ok enrollment) := by
  have hnew : w.withoutWorkers.registry.get? workerId = none := rfl
  have hlookup : (servingConfig workerId enrollment).enrollments.lookup workerId =
      some enrollment := (Dict.lookup_put Table.empty workerId workerId enrollment).trans (if_pos rfl)
  rw [approvedEnrollment]
  refine (run_getWorker workerId _ _).trans ?_
  rw [hnew]
  simp only [hlookup, ne_eq, not_true_eq_false, if_false]
  rfl

theorem run_registerHeartbeat_enrolled (w : World) {enrollment : WorkerEnrollment}
    (registration : WorkerRegistration) (method : String)
    (htenant : registration.tenantId = enrollment.tenantId)
    (hids : ∀ capability ∈ registration.capabilities,
      validateCapabilityId capability.capabilityId = .ok ()) :
    ((registerHeartbeat (servingConfig registration.workerId enrollment)
        ⟨registration.workerId, enrollment.identitySubject, method⟩ registration).run Action.exec
          w.withoutWorkers).2 =
      .ok (MemoryWorkerRegistry.upsertRecord none w.now registration
        enrollment.identitySubject) := by
  have hall : requireAll validateCapabilityId
      (registration.capabilities.map WorkerCapability.capabilityId) = .ok () :=
    requireAll_eq_ok.mpr (List.forall_mem_map.mpr hids)
  have hreason : unqualifiedReason (servingConfig registration.workerId enrollment).unqualified
      (registration.capabilities.map WorkerCapability.capabilityId)
      registration.runtimeVersions = none := by
    refine unqualifiedReason_eq_none_iff.mpr ⟨fun _ _ => List.not_mem_nil, fun entry _ => ?_⟩
    simp [namesRefused, ServiceConfig.unqualified, servingConfig]
  rw [registerHeartbeat, if_neg (by simp), Prog.run_bind, run_approvedEnrollment_enrolled]
  simp only [htenant, ne_eq, not_true_eq_false, if_false]
  rw [Prog.run_bind, Prog.run_ofExcept, hall]
  simp only [hreason]
  refine (congrArg Prod.snd (run_upsert _ _ _ w.withoutWorkers)).trans ?_
  have hwritten : w.withoutWorkers.registry.upsert w.withoutWorkers.now
      { registration with tenantId := enrollment.tenantId } enrollment.identitySubject =
        (w.withoutWorkers.registry.put (MemoryWorkerRegistry.upsertRecord none w.now registration
          enrollment.identitySubject), .ok (MemoryWorkerRegistry.upsertRecord none w.now registration
            enrollment.identitySubject)) := by
    rw [← htenant]
    rfl
  rw [hwritten]
  simp only [Except.mapError, Prog.ofExcept, Prog.ret_bind]
  rw [Prog.run_bind, run_recordAudit rfl]
  rfl

/-- The heartbeat of a worker that has just what the job asks for. -/
def servingRegistration (submission : JobSubmission) (workerId : String)
    (gpuModel : Option String) : WorkerRegistration where
  workerId := workerId
  capabilities := [⟨submission.capabilityId, "plugin", "1", 1⟩]
  tenantId := submission.tenantId
  gpuModel := gpuModel
  vramMb := submission.requirements.minVramMb
  runtimeVersions := submission.requirements.runtimeVersions
  labels := submission.requirements.labels

omit [PyText] in
theorem lengthWithin_one {maximum : Nat} {text : String} (hne : text ≠ "")
    (hlength : text.length ≤ maximum) : lengthWithin 1 maximum text = true := by
  have hpositive : text.length ≠ 0 := fun h => hne (String.length_eq_zero_iff.mp h)
  rw [lengthWithin, Bool.and_eq_true, decide_eq_true_eq, decide_eq_true_eq]
  omega

omit [PyText] in
theorem workerIdPattern_length {workerId : String} (h : workerIdPattern workerId) :
    lengthWithin 1 maxWorkerIdLength workerId = true := by
  rw [workerIdPattern] at h
  rw [lengthWithin, maxWorkerIdLength, ← String.length_toList]
  cases hchars : workerId.toList with
  | nil => simp [hchars] at h
  | cons c rest =>
      simp only [hchars, Bool.and_eq_true, decide_eq_true_eq] at h
      simp only [List.length_cons, Bool.and_eq_true, decide_eq_true_eq]
      omega

theorem servingRegistration_withinBounds {submission : JobSubmission}
    (hdemands : BoundedDemands submission) (h : WithinWorkers submission) {workerId : String}
    (hworker : workerIdPattern workerId) {gpuModel : Option String}
    (hmodel : gpuModel.all (lengthWithin 0 64)) :
    (servingRegistration submission workerId gpuModel).withinBounds := by
  have hcapability : capabilityIdField submission.capabilityId = true := by
    have hvalid := hdemands.capability
    simp only [validateCapabilityId, require_eq_ok, Bool.and_eq_true] at hvalid
    rw [capabilityIdField, hvalid.1.2, hvalid.2, decide_eq_true h.capability]
    rfl
  have htenant : submission.tenantId.all (lengthWithin 1 maxTenantIdLength) = true := by
    have hvalid := h.tenant
    cases htenantId : submission.tenantId with
    | none => rfl
    | some tenant =>
        rw [htenantId, validEnrollmentTenant, Option.all_some, Bool.and_eq_true] at hvalid
        exact hvalid.1
  have hvram : submission.requirements.minVramMb.all (within 0 1000000) = true :=
    hdemands.minVramMb
  have hentries : (submission.requirements.runtimeVersions.rows.all fun entry =>
      lengthWithin 1 maxRuntimeVersionKeyLength entry.1 && lengthWithin 1 64 entry.2) = true := by
    refine List.all_eq_true.mpr fun entry hmem => ?_
    obtain ⟨hkey, hvalue⟩ := hdemands.version_ne entry hmem
    obtain ⟨hkeyLength, hvalueLength⟩ := h.versions entry hmem
    rw [lengthWithin_one hkey hkeyLength, lengthWithin_one hvalue hvalueLength]
    rfl
  have hlabels : submission.requirements.labels.all (lengthWithin 1 32) = true :=
    List.all_eq_true.mpr fun label hmem =>
      lengthWithin_one (hdemands.label_ne label hmem) (h.labels label hmem)
  have hentryCount : decide (submission.requirements.runtimeVersions.rows.length ≤
      maxRuntimeVersions) = true :=
    decide_eq_true (hdemands.versions.trans (by decide))
  have hlabelCount : decide (submission.requirements.labels.length ≤ maxLabels) = true :=
    decide_eq_true (hdemands.labels.trans (by decide))
  have hcapabilities : (servingRegistration submission workerId gpuModel).capabilities.all
      WorkerCapability.withinBounds = true := by
    simp only [servingRegistration, List.all_cons, WorkerCapability.withinBounds, hcapability]
    decide
  simp only [WorkerRegistration.withinBounds, Bool.and_eq_true]
  exact ⟨⟨⟨⟨⟨⟨⟨⟨⟨⟨⟨⟨⟨⟨workerIdPattern_length hworker, hworker⟩, rfl, rfl⟩, hcapabilities⟩, htenant⟩,
    hmodel⟩, hvram⟩, hentryCount⟩, hentries⟩, hlabelCount⟩, hlabels⟩, rfl⟩, rfl⟩, rfl⟩, rfl⟩

theorem servable_of_withinWorkers (w : World) (leaseSeconds : Int) {submission : JobSubmission}
    (haccepted : validateJobSubmission submission = .ok ()) (h : WithinWorkers submission) :
    Servable w leaseSeconds submission := by
  have hdemands := boundedDemands_of_validate haccepted
  obtain ⟨workerId, hworker, hlisted⟩ : ∃ workerId, workerIdPattern workerId = true ∧
      (submission.requirements.workerIds = [] ∨
        workerId ∈ submission.requirements.workerIds) := by
    rcases h.workerIds with hnone | ⟨workerId, hmem, hworker⟩
    · exact ⟨"worker", by decide, Or.inl hnone⟩
    · exact ⟨workerId, hworker, Or.inr hmem⟩
  obtain ⟨gpuModel, hmodel, hmatches⟩ : ∃ gpuModel : Option String,
      gpuModel.all (lengthWithin 0 64) = true ∧
        (submission.requirements.gpuModels = [] ∨ ∃ model, gpuModel = some model ∧
          PyText.lower model ∈ submission.requirements.gpuModels.map PyText.lower) := by
    rcases h.gpuModels with hnone | ⟨model, hlength, hmem⟩
    · exact ⟨none, rfl, Or.inl hnone⟩
    · exact ⟨some model, by simp [lengthWithin, hlength], Or.inr ⟨model, rfl, hmem⟩⟩
  refine ⟨workerId, ⟨"subject", submission.tenantId, by decide, h.tenant⟩,
    ⟨servingRegistration submission workerId gpuModel,
      servingRegistration_withinBounds hdemands h hworker hmodel⟩, ?_, ?_⟩
  · rw [validateEnrollment, require_eq_ok]
    exact hworker
  · refine ⟨_, run_registerHeartbeat_enrolled w
      (servingRegistration submission workerId gpuModel) "static" rfl ?_, ?_⟩
    · intro capability hmem
      obtain rfl := List.mem_singleton.mp hmem
      exact hdemands.capability
    · rw [lease_only_iff haccepted, isCandidate_iff (accepted_of_validate haccepted).attemptBudget,
        satisfiesRequirements_iff]
      refine ⟨List.mem_singleton_self _, rfl, hlisted, fun entry hmem => ?_, le_refl _, hmatches,
        fun label hmem => hmem⟩
      exact Dict.lookup_eq_some_iff.mpr hmem

/-- Some worker can be given an accepted job exactly when what the job asks for lies within what a
worker may enroll with and advertise. -/
theorem servable_iff (w : World) (leaseSeconds : Int) {submission : JobSubmission}
    (haccepted : validateJobSubmission submission = .ok ()) :
    Servable w leaseSeconds submission ↔ WithinWorkers submission :=
  ⟨withinWorkers_of_servable haccepted, servable_of_withinWorkers w leaseSeconds haccepted⟩

end Serving

theorem servable_iff_small :
    letI := PyText.ascii
    Servable smallWorld 1200 echoJob := by
  let := PyText.ascii
  refine (servable_iff smallWorld 1200 (by decide +kernel)).mpr
    ⟨by decide, by decide +kernel, nofun, Or.inl rfl, Or.inl rfl, nofun⟩

/-- The echo job for workers with a label of 33 characters. -/
def longLabelJob : JobSubmission :=
  { echoJob with
    requirements := { JobRequirements.none with labels := [String.ofList (List.replicate 33 'a')] } }

/-- The job is accepted, and no worker may advertise its label. -/
theorem long_label_unservable :
    letI := PyText.ascii
    validateJobSubmission longLabelJob = .ok () ∧ ¬ Servable smallWorld 1200 longLabelJob := by
  let := PyText.ascii
  have haccepted : validateJobSubmission longLabelJob = .ok () := by decide +kernel
  refine ⟨haccepted, fun hservable => ?_⟩
  have hlabel := (withinWorkers_of_servable haccepted hservable).labels _ (List.mem_singleton_self _)
  exact absurd hlabel (by decide +kernel)

end GpuWorkerPool
