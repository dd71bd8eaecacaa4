import GpuWorkerPool.Base.Lockstep
import GpuWorkerPool.QueueCounts
import GpuWorkerPool.RegistryRefinement
import GpuWorkerPool.StoreHistory

/-!
The two job stores side by side, run from empty on the same operations. The columns hold the
arguments as they are: ids are uuids as Postgres spells them, integers are in range, no text has a
NUL character and every float is read back. Then all answers of a run are alike, up to the order of
an object's members and of a list, exactly when three things never happen: a job id is used again
under a new idempotency key, a stored payload has `True` where a replay has `1`, and the memory
store leases a job of which another one with the same priority and age has the lesser id.
-/

namespace GpuWorkerPool

open Base

/-! ### What the columns hold -/

section Fits

variable [Jsonb.FloatColumn]

structure JobSubmission.FitsRow (submission : JobSubmission) : Prop where
  jobId : isUuid submission.jobId
  texts : ∀ s ∈ submission.idempotencyKey :: submission.capabilityId :: submission.outputKey ::
    submission.tenantId.toList, Jsonb.textFits s
  contractVersion : int4 submission.contractVersion
  inputKeys : Jsonb.fits (textsValue submission.inputKeys)
  payload : Jsonb.fitsMembers submission.payload.members
  floats : Jsonb.readBackMembers submission.payload.members = some submission.payload.members
  requirements : Jsonb.fits submission.requirements.asPayload

structure LeaseQuery.FitsStatement (query : LeaseQuery) : Prop where
  capabilityIds : ∀ id ∈ query.capabilityIds, Jsonb.textFits id
  texts : ∀ s ∈ query.workerId :: (query.tenantId.toList ++ query.gpuModel.toList),
    Jsonb.textFits s
  integers : ∀ n ∈ query.leaseSeconds :: query.vramMb.toList, int4 n
  labels : Jsonb.fits (textsValue query.labels)
  runtimeVersions : Jsonb.fits (versionsValue query.runtimeVersions)

/-- The columns hold the arguments of the operation as they are. -/
def StoreOp.FitsColumns (op : StoreOp) : Prop :=
  match op.call with
  | .submit submission => submission.FitsRow
  | .get jobId => isUuid jobId
  | .listForTenant tenantId => Jsonb.textFits tenantId
  | .cancel jobId => isUuid jobId
  | .lease query => Jsonb.textFits op.uuid4 ∧ query.FitsStatement
  | .heartbeat jobId claimToken leaseSeconds progressPercent =>
      (isUuid jobId ∧ Jsonb.textFits claimToken) ∧ int4 leaseSeconds ∧
        ∀ percent, progressPercent = some percent → 0 ≤ percent ∧ percent ≤ 100
  | .complete jobId claimToken contentType sha256 byteLength executionMetadata =>
      (isUuid jobId ∧ Jsonb.textFits claimToken) ∧ Jsonb.textFits contentType ∧
        Jsonb.textFits sha256 ∧ int8 byteLength ∧
        Jsonb.fitsMembers executionMetadata ∧
        Jsonb.readBackMembers executionMetadata = some executionMetadata
  | .fail jobId claimToken reason _ failureMessage _ =>
      (isUuid jobId ∧ Jsonb.textFits claimToken) ∧ Jsonb.textFits reason ∧
        ∀ message, failureMessage = some message → Jsonb.textFits message
  | .release jobId claimToken reason =>
      (isUuid jobId ∧ Jsonb.textFits claimToken) ∧ Jsonb.textFits reason
  | .expireExhausted => True
  | .queueDepth => True

end Fits

/-! ### Alike -/

/-- The same counts, by capability in any order. -/
structure QueueDepth.Same (depth other : QueueDepth) : Prop where
  queued : depth.queued = other.queued
  processing : depth.processing = other.processing
  byCapability : ∀ c, depth.byCapability.lookup c = other.byCapability.lookup c
  online : depth.onlineWorkersByCapability = other.onlineWorkersByCapability

/-- `ORDER BY created_at, job_id` -/
def JobRecord.listOrder (r q : JobRecord) : Prop :=
  r.createdAt < q.createdAt ∨ r.createdAt = q.createdAt ∧ r.jobId ≤ q.jobId

instance : DecidableRel JobRecord.listOrder := fun r q =>
  inferInstanceAs (Decidable (r.createdAt < q.createdAt ∨
    r.createdAt = q.createdAt ∧ r.jobId ≤ q.jobId))

/-- The answer of the memory store beside that of the Postgres store. -/
def JobStoreCall.AnsweredAlike :
    (call : JobStoreCall) → call.Reply → Except PostgresExc call.Value → Prop
  | .submit _, (.ok result : Except Exc SubmissionResult), answer =>
      answer = .ok (⟨result.record.kept, result.created⟩ : SubmissionResult)
  | .submit _, .error error, answer => answer = .error (.domain error)
  | .get _, reply, answer => answer = .ok (Option.map JobRecord.kept reply)
  | .listForTenant _, reply, answer =>
      answer = .ok ((List.insertionSort JobRecord.listOrder reply).map JobRecord.kept)
  | .cancel _, reply, answer => answer = .ok reply
  | .lease _, reply, answer => answer = .ok (Option.map JobRecord.kept reply)
  | .heartbeat .., reply, answer => answer = .ok reply
  | .complete .., reply, answer => answer = .ok reply
  | .fail .., reply, answer => answer = .ok reply
  | .release .., reply, answer => answer = .ok reply
  | .expireExhausted, reply, answer => answer = .ok reply
  | .queueDepth, reply, answer =>
      ∃ depth : QueueDepth, answer = .ok depth ∧ QueueDepth.Same reply depth

/-! ### Rows -/

theorem find?_keptJobs (s : MemoryJobStore) (key : String) :
    (s.keptJobs.rows.find? fun row => row.idempotencyKey = key) =
      (s.rows.find? fun r => r.idempotencyKey = key).map PoolJobRow.kept :=
  List.find?_map

theorem get?_keptJobs (s : MemoryJobStore) (j : String) :
    s.keptJobs.get? j = (s.get? j).map PoolJobRow.kept :=
  Table.get?_image s j

theorem put_keptJobs (s : MemoryJobStore) (r : JobRecord) :
    s.keptJobs.put (PoolJobRow.kept r) = MemoryJobStore.keptJobs (s.put r) :=
  (Table.image_put s r).symm

/-! ### One row -/

section OneRow

variable {s : MemoryJobStore} {jobId claimToken : String}

/-- A statement that asks for one job sets its row as the memory store writes its record. -/
theorem update_kept {clause : PoolJobRow → Sql.Truth} {set : PoolJobRow → PoolJobRow}
    (write : JobRecord → JobRecord) (hclause : ∀ row, Sql.isTrue (clause row) → row.jobId = jobId)
    (hset : ∀ r, PoolJobRow.rewritten set (PoolJobRow.kept r) = PoolJobRow.kept (write r)) :
    s.keptJobs.update clause set =
      match (s.get? jobId).filter fun r => Sql.isTrue (clause (PoolJobRow.kept r)) with
      | some r => (MemoryJobStore.keptJobs (s.put (write r)), 1)
      | none => (s.keptJobs, 0) := by
  rw [PoolJobs.update, Sql.update_one _ _ _ hclause, get?_keptJobs]
  cases s.get? jobId with
  | none => rfl
  | some r =>
      rw [Option.map_some, Option.filter_some, Option.filter_some]
      by_cases htrue : Sql.isTrue (clause (PoolJobRow.kept r))
      · rw [if_pos htrue, if_pos htrue]
        dsimp only
        rw [hset, put_keptJobs]
      · rw [if_neg htrue, if_neg htrue]

theorem update_underToken {set : PoolJobRow → PoolJobRow} {write : JobRecord → JobRecord}
    (hset : ∀ r, PoolJobRow.rewritten set (PoolJobRow.kept r) = PoolJobRow.kept (write r)) :
    s.keptJobs.update (PoolJobRow.underToken jobId claimToken) set =
      ((s.underLease jobId claimToken write).1.keptJobs,
        if (s.underLease jobId claimToken write).2 then 1 else 0) := by
  have hclause (row : PoolJobRow) (h : Sql.isTrue (row.underToken jobId claimToken)) :
      row.jobId = jobId := by
    rw [PoolJobRow.underToken, Sql.isTrue_and3, Bool.and_eq_true, Sql.isTrue_compare] at h
    exact of_decide_eq_true h.1
  have hleased : ((s.get? jobId).filter fun r =>
      Sql.isTrue ((PoolJobRow.kept r).underToken jobId claimToken)) =
      s.leased? jobId claimToken := by
    rw [MemoryJobStore.leased?]
    cases hget : s.get? jobId with
    | none => rfl
    | some r =>
        have hid : r.jobId = jobId := Table.key_eq_of_get? hget
        rw [Option.filter_some, Option.filter_some, PoolJobRow.isTrue_underToken_kept,
          decide_eq_true hid, Bool.true_and]
  rw [update_kept write hclause hset, hleased, MemoryJobStore.underLease]
  cases s.leased? jobId claimToken <;> rfl

theorem underToken_kept [UuidColumn] {set : PoolJobRow → PoolJobRow}
    {write : JobRecord → JobRecord} (hargs : isUuid jobId ∧ Jsonb.textFits claimToken)
    (hset : ∀ r, PoolJobRow.rewritten set (PoolJobRow.kept r) = PoolJobRow.kept (write r)) :
    PostgresJobStore.underToken s.keptJobs jobId claimToken (.ok set) =
      ((s.underLease jobId claimToken write).1.keptJobs,
        .ok (s.underLease jobId claimToken write).2) := by
  rw [PostgresJobStore.underToken, uuidColumn_eq hargs.1, textColumn_eq hargs.2]
  show ((s.keptJobs.update _ set).1, Except.ok (decide ((s.keptJobs.update _ set).2 = 1))) = _
  rw [update_underToken hset]
  cases (s.underLease jobId claimToken write).2 <;> rfl

variable {now : DateTime}

theorem cancel_kept [UuidColumn] (hjob : isUuid jobId) :
    PostgresJobStore.cancel s.keptJobs now jobId =
      ((s.cancel now jobId).1.keptJobs, .ok (s.cancel now jobId).2) := by
  have hclause (row : PoolJobRow) (h : Sql.isTrue (Sql.and3
      (Sql.compare (fun a b => decide (a = b)) (some row.jobId) (some jobId)) row.active)) :
      row.jobId = jobId := by
    rw [Sql.isTrue_and3, Bool.and_eq_true, Sql.isTrue_compare] at h
    exact of_decide_eq_true h.1
  have hupdate : s.keptJobs.update (fun row => Sql.and3 (Sql.compare (fun a b => decide (a = b))
      (some row.jobId) (some jobId)) row.active) (PoolJobRow.setCancelled now) =
        ((s.cancel now jobId).1.keptJobs, if (s.cancel now jobId).2 then 1 else 0) := by
    rw [update_kept (fun r => r.cancelled now) hclause fun _ => rfl, MemoryJobStore.cancel]
    cases hget : s.get? jobId with
    | none => rfl
    | some r =>
        have hid : r.jobId = jobId := Table.key_eq_of_get? hget
        have hkept : decide ((PoolJobRow.kept r).jobId = jobId) = true := decide_eq_true hid
        rw [Option.filter_some, Sql.isTrue_and3, Sql.isTrue_compare, Option.any_some,
          Option.any_some, hkept, Bool.true_and, PoolJobRow.isTrue_active_kept]
        by_cases hactive : r.status = .queued ∨ r.status = .processing
        · simp only [hactive, decide_true, if_true]
        · simp only [hactive, decide_false, if_false, Bool.false_eq_true]
  rw [PostgresJobStore.cancel, uuidColumn_eq hjob]
  show ((s.keptJobs.update _ _).1, Except.ok (decide ((s.keptJobs.update _ _).2 = 1))) = _
  rw [hupdate]
  cases (s.cancel now jobId).2 <;> rfl

theorem expireExhausted_kept (s : MemoryJobStore) (now : DateTime) :
    PostgresJobStore.expireExhausted s.keptJobs now =
      ((s.expireExhausted now).1.keptJobs, (s.expireExhausted now).2) := by
  refine Prod.ext ?_ ?_
  · refine (Table.image_mapRows s (JobRecord.expire_jobId now) (Sql.key_setWhere
      (PoolJobRow.rewritten_jobId (PoolJobRow.setExhausted now)) _) fun r _ => ?_).symm
    rw [Sql.setWhere, PoolJobRow.isTrue_exhausted_kept, JobRecord.expire]
    split <;> rfl
  · show (s.rows.map PoolJobRow.kept).countP _ = s.rows.countP _
    rw [List.countP_map]
    apply List.countP_congr
    intro r _
    rw [Function.comp_apply, PoolJobRow.isTrue_exhausted_kept]

variable [UuidColumn] {leaseSeconds : Int} {progressPercent : Option Int}

theorem heartbeat_kept (hargs : isUuid jobId ∧ Jsonb.textFits claimToken)
    (hseconds : int4 leaseSeconds)
    (hpercent : ∀ percent, progressPercent = some percent → 0 ≤ percent ∧ percent ≤ 100) :
    PostgresJobStore.heartbeat s.keptJobs now jobId claimToken leaseSeconds progressPercent =
      ((s.heartbeat now jobId claimToken leaseSeconds progressPercent).1.keptJobs,
        .ok (s.heartbeat now jobId claimToken leaseSeconds progressPercent).2) := by
  have hcolumn : nullable integerColumn progressPercent = .ok progressPercent := by
    refine nullable_eq fun percent hsome => integerColumn_eq ?_
    have hrange := hpercent percent hsome
    rw [int4, Bool.and_eq_true, decide_eq_true_eq, decide_eq_true_eq]
    omega
  have hcheck : (progressPercent.all fun percent => 0 ≤ percent && percent ≤ 100) = true := by
    cases progressPercent with
    | none => rfl
    | some percent => simpa using hpercent percent rfl
  rw [PostgresJobStore.heartbeat, integerColumn_eq hseconds, hcolumn]
  have hunder : PostgresJobStore.underToken s.keptJobs jobId claimToken
      (.ok (PoolJobRow.setHeartbeat now leaseSeconds progressPercent)) =
      ((s.underLease jobId claimToken fun r =>
          r.heartbeaten now leaseSeconds progressPercent).1.keptJobs,
        .ok (s.underLease jobId claimToken fun r =>
          r.heartbeaten now leaseSeconds progressPercent).2) :=
    underToken_kept hargs fun _ => rfl
  dsimp only [bind, Except.bind, pure, Except.pure]
  rw [hunder, MemoryJobStore.heartbeat]
  cases (s.underLease jobId claimToken fun r =>
    r.heartbeaten now leaseSeconds progressPercent).2 with
  | false => rfl
  | true =>
      dsimp only
      rw [hcheck]
      rfl

variable {contentType sha256 reason : String} {byteLength : Int}
  {executionMetadata : List (String × JsonValue)} {failureMessage : Option String}

theorem complete_kept [Jsonb.FloatColumn] (hargs : isUuid jobId ∧ Jsonb.textFits claimToken)
    (htype : Jsonb.textFits contentType) (hdigest : Jsonb.textFits sha256)
    (hlength : int8 byteLength) (hmetadata : Jsonb.fitsMembers executionMetadata)
    (hread : Jsonb.readBackMembers executionMetadata = some executionMetadata) :
    PostgresJobStore.complete s.keptJobs now jobId claimToken contentType sha256 byteLength
        executionMetadata =
      ((s.complete now jobId claimToken contentType sha256 byteLength
          executionMetadata).1.keptJobs,
        .ok (s.complete now jobId claimToken contentType sha256 byteLength
          executionMetadata).2) := by
  rw [PostgresJobStore.complete, textColumn_eq htype, textColumn_eq hdigest,
    bigintColumn_eq hlength, membersColumn_eq hmetadata hread]
  apply underToken_kept hargs
  intro r
  rfl

theorem fail_kept (hargs : isUuid jobId ∧ Jsonb.textFits claimToken)
    (hreason : Jsonb.textFits reason) (failureCode : JobFailureCode)
    (hmessage : ∀ message, failureMessage = some message → Jsonb.textFits message)
    (retryable : Bool) :
    PostgresJobStore.fail s.keptJobs now jobId claimToken reason failureCode failureMessage
        retryable =
      ((s.fail now jobId claimToken reason failureCode failureMessage retryable).1.keptJobs,
        .ok (s.fail now jobId claimToken reason failureCode failureMessage retryable).2) := by
  rw [PostgresJobStore.fail, textColumn_eq hreason,
    nullable_eq fun message hsome => textColumn_eq (hmessage message hsome)]
  apply underToken_kept hargs
  intro r
  rfl

theorem release_kept (hargs : isUuid jobId ∧ Jsonb.textFits claimToken)
    (hreason : Jsonb.textFits reason) :
    PostgresJobStore.release s.keptJobs now jobId claimToken reason =
      ((s.release now jobId claimToken reason).1.keptJobs,
        .ok (s.release now jobId claimToken reason).2) := by
  rw [PostgresJobStore.release, textColumn_eq hreason]
  apply underToken_kept hargs
  intro r
  rfl

end OneRow

/-! ### Reads -/

section Reads

variable {s : MemoryJobStore}

theorem get_kept [PyStr] [UuidColumn] {jobId : String} (hjob : isUuid jobId) :
    PostgresJobStore.get s.keptJobs jobId = .ok ((s.get? jobId).map JobRecord.kept) := by
  rw [PostgresJobStore.get, uuidColumn_eq hjob]
  dsimp only [bind, Except.bind]
  rw [get?_keptJobs]
  cases s.get? jobId with
  | none => rfl
  | some r =>
      dsimp only [Option.map_some]
      rw [PoolJobRow.recordOf_kept]
      rfl

theorem mapM_recordOf_kept [PyStr] (rows : List JobRecord) :
    (rows.map PoolJobRow.kept).mapM PostgresJobStore.recordOf = .ok (rows.map JobRecord.kept) := by
  induction rows with
  | nil => rfl
  | cons r rest ih =>
      rw [List.map_cons, List.mapM_cons, PoolJobRow.recordOf_kept, ih]
      rfl

theorem listForTenant_kept [PyStr] {tenantId : String} (htenant : Jsonb.textFits tenantId) :
    PostgresJobStore.listForTenant s.keptJobs tenantId =
      .ok (((s.listForTenant tenantId).insertionSort JobRecord.listOrder).map JobRecord.kept) := by
  have hrows : (s.keptJobs.rows.filter fun row => Sql.isTrue
      (Sql.compare (fun a b => a = b) row.tenantId (some tenantId))) =
      (s.listForTenant tenantId).map PoolJobRow.kept := by
    show (s.rows.map PoolJobRow.kept).filter _ = _
    rw [List.filter_map, MemoryJobStore.listForTenant]
    congr 1
    apply List.filter_congr
    intro r _
    show Sql.isTrue (Sql.compare _ r.tenantId _) = _
    cases r.tenantId <;> simp [Sql.isTrue_compare]
  have hsort (rows : List JobRecord) :
      (rows.map PoolJobRow.kept).insertionSort PoolJobRow.listOrder =
        (rows.insertionSort JobRecord.listOrder).map PoolJobRow.kept :=
    (List.map_insertionSort JobRecord.listOrder PoolJobRow.listOrder PoolJobRow.kept rows
      fun _ _ _ _ => Iff.rfl).symm
  rw [PostgresJobStore.listForTenant, textColumn_eq htenant]
  dsimp only [bind, Except.bind]
  rw [hrows, hsort, mapM_recordOf_kept]

theorem queueDepth_kept [GroupOrder] :
    s.queueDepth.Same (PostgresJobStore.queueDepth s.keptJobs) := by
  have hmemory := s.counts_queueDepth
  have hgroups := counts_groups s
  exact ⟨hmemory.queued.trans hgroups.queued.symm,
    hmemory.processing.trans hgroups.processing.symm,
    fun c => (hmemory.byCapability c).trans (hgroups.byCapability c).symm,
    hmemory.online.trans hgroups.online.symm⟩

end Reads

section Stores

variable [PyText]

/-- A replay that `jsonb` tells from the stored request: `==` took `True` for `1`. -/
def MistakesReplay (s : MemoryJobStore) (submission : JobSubmission) : Prop :=
  validateJobSubmission submission = .ok () ∧
    ∃ r, (s.rows.find? fun r => r.idempotencyKey = submission.idempotencyKey) = some r ∧
      r.replays submission ∧ ¬ Jsonb.same r.payload.value submission.payload.value

/-- None of the three ways in which the stores differ. -/
def StoreOp.Unambiguous (s : MemoryJobStore) (op : StoreOp) : Prop :=
  match op.call with
  | .submit submission => ¬ ReusesJobId s submission ∧ ¬ MistakesReplay s submission
  | .lease query => FirstHasLeastId s op.now query
  | _ => True

/-! ### Submissions -/

section Submit

variable {s : MemoryJobStore} {now : DateTime} {submission : JobSubmission}

theorem checks_of_validate (hvalid : validateJobSubmission submission = .ok ()) :
    (PoolJobRow.kept (.ofSubmission submission now)).checks := by
  simp only [validateJobSubmission, andThen_eq_ok, requireBetween, require_eq_ok, Bool.and_eq_true,
    decide_eq_true_eq] at hvalid
  obtain ⟨-, -, -, -, -, -, -, hversion, -, hpriority, hbudget, hdeadline, -⟩ := hvalid
  exact PoolJobRow.checks_iff.mpr
    ⟨lt_of_lt_of_le (by decide) hversion, hbudget, hpriority, hdeadline⟩

theorem int4_of_checks (h : (PoolJobRow.kept (.ofSubmission submission now)).checks) :
    int4 submission.priority ∧ int4 submission.attemptBudget ∧
      int4 submission.executionDeadlineSeconds := by
  have hrange {n : Int} (hlow : 0 ≤ n) (hhigh : n ≤ 7200) : int4 n := by
    rw [int4, Bool.and_eq_true, decide_eq_true_eq, decide_eq_true_eq]
    omega
  obtain ⟨-, hbudget, hpriority, hdeadline⟩ := PoolJobRow.checks_iff.mp h
  refine ⟨hrange hpriority.1 (hpriority.2.trans (by decide)),
    hrange (by exact le_trans (by decide) hbudget.1) (hbudget.2.trans (by decide)),
    hrange (by exact le_trans (by decide) hdeadline.1) hdeadline.2⟩

variable [UuidColumn] [Jsonb.FloatColumn]

theorem proposed_kept (h : submission.FitsRow)
    (hvalid : validateJobSubmission submission = .ok ()) :
    PoolJobRow.proposed now submission = .ok (PoolJobRow.kept (.ofSubmission submission now)) := by
  have htext {s : String} (hs : s ∈ submission.idempotencyKey :: submission.capabilityId ::
      submission.outputKey :: submission.tenantId.toList) : textColumn s = .ok s :=
    textColumn_eq (h.texts s hs)
  have hchecks : (PoolJobRow.kept (.ofSubmission submission now)).checks :=
    checks_of_validate hvalid
  obtain ⟨hpriority, hbudget, hdeadline⟩ := int4_of_checks hchecks
  rw [PoolJobRow.proposed, uuidColumn_eq h.jobId, htext (by simp), htext (by simp),
    integerColumn_eq h.contractVersion, textsColumn_eq h.inputKeys, htext (by simp),
    objectColumn_eq h.payload h.floats, nullable_eq fun s hs => htext (by simp [hs]),
    integerColumn_eq hpriority, integerColumn_eq hbudget, integerColumn_eq hdeadline,
    jsonbColumn_eq h.requirements]
  rfl

/-- What the two stores make of a submission that is valid and fits. -/
theorem submit_kept [PyStr] (hfits : submission.FitsRow)
    (hvalid : validateJobSubmission submission = .ok ()) :
    PostgresJobStore.submit s.keptJobs now submission =
      match s.rows.find? fun r => r.idempotencyKey = submission.idempotencyKey with
      | some r =>
          (s.keptJobs, if r.replays submission ∧
              Jsonb.same r.payload.value submission.payload.value then
            .ok ⟨r.kept, false⟩
          else .error (.domain (.idempotencyConflict submission.idempotencyKey)))
      | none =>
          match s.get? submission.jobId with
          | some _ => (s.keptJobs, .error .uniqueViolation)
          | none =>
              (MemoryJobStore.keptJobs (s.put (.ofSubmission submission now)),
                .ok ⟨JobRecord.kept (.ofSubmission submission now), true⟩) := by
  have hkey : (PoolJobRow.kept (.ofSubmission submission now)).idempotencyKey =
      submission.idempotencyKey := rfl
  have hid : (PoolJobRow.kept (.ofSubmission submission now)).jobId = submission.jobId := rfl
  rw [PostgresJobStore.submit, hvalid]
  dsimp only
  rw [proposed_kept hfits hvalid]
  dsimp only
  rw [PoolJobs.insertOrKeep, checks_of_validate hvalid, hkey, find?_keptJobs, hid, get?_keptJobs]
  simp only [Bool.not_true, Bool.false_eq_true, if_false]
  cases hfind : s.rows.find? fun r => r.idempotencyKey = submission.idempotencyKey with
  | some r =>
      have hrow : ({ PoolJobRow.kept r with idempotencyKey := submission.idempotencyKey } :
          PoolJobRow) = PoolJobRow.kept r := by
        have hr : r.idempotencyKey = submission.idempotencyKey := by
          simpa using List.find?_some hfind
        rw [← hr]
        rfl
      have hget : s.keptJobs.get? (PoolJobRow.kept r).jobId = some (PoolJobRow.kept r) := by
        rw [get?_keptJobs]
        exact congrArg (Option.map PoolJobRow.kept)
          (Table.get?_key_of_mem (List.mem_of_find?_eq_some hfind))
      simp only [Option.map_some, PoolJobRow.sameRequest_kept]
      split
      · rw [hrow, Table.put_eq_self hget, PostgresJobStore.submitted, PoolJobRow.recordOf_kept]
        rfl
      · rfl
  | none =>
      dsimp only [Option.map_none]
      cases hstored : s.get? submission.jobId with
      | some r => rfl
      | none =>
          simp only [Option.map_none, PostgresJobStore.submitted, PoolJobRow.recordOf_kept,
            put_keptJobs]
          rfl

end Submit

/-! ### Leases -/

section Lease

variable {s : MemoryJobStore} {now : DateTime} {query : LeaseQuery}

/-- The memory store leases the job that the statement picks. -/
theorem leastId_of_selected {r : JobRecord} (hfirst : FirstHasLeastId s now query)
    (hselected : s.selected now query = some r) : LeastId s now query r := by
  have hhead : (leastOf (s.candidates now query)).head? = some r := by
    rwa [← s.selected_eq_head]
  exact ⟨List.mem_of_head? hhead, hfirst r hhead⟩

theorem no_leastId_of_selected (hselected : s.selected now query = none) (r : JobRecord) :
    ¬ LeastId s now query r := by
  rw [s.selected_eq_head, List.head?_eq_none_iff] at hselected
  intro h
  exact absurd (hselected ▸ h.1) List.not_mem_nil

omit [PyText] in
theorem leaseArguments_eq [Jsonb.FloatColumn] {uuid4 : String} (htoken : Jsonb.textFits uuid4)
    (h : query.FitsStatement) : PostgresJobStore.leaseArguments uuid4 query = .ok () := by
  have htext {s : String} (hs : s ∈ query.workerId :: (query.tenantId.toList ++
      query.gpuModel.toList)) : textColumn s = .ok s := textColumn_eq (h.texts s hs)
  have hids : query.capabilityIds.forM (passes textColumn) = .ok () :=
    forM_ok_iff.mpr fun id hid => passes_eq (textColumn_eq (h.capabilityIds id hid))
  rw [PostgresJobStore.leaseArguments, hids, passes_eq (textColumn_eq htoken),
    passes_eq (htext (by simp)), passes_eq (integerColumn_eq (h.integers _ (by simp))),
    passes_eq (nullable_eq fun s hs => htext (by simp [hs])),
    passes_eq (nullable_eq fun n hn => integerColumn_eq (h.integers n (by simp [hn]))),
    passes_eq (nullable_eq fun s hs => htext (by simp [hs])),
    passes_eq (textsColumn_eq h.labels), jsonbColumn_eq h.runtimeVersions]
  rfl

variable [Sql.JsonbText]

theorem filter_leaseClause_kept (s : MemoryJobStore) (now : DateTime) (query : LeaseQuery) :
    (s.keptJobs.rows.filter fun row => Sql.isTrue (row.leaseClause query now)) =
      (s.candidates now query).map PoolJobRow.kept := by
  show (s.rows.map PoolJobRow.kept).filter _ = _
  rw [List.filter_map, MemoryJobStore.candidates]
  congr 1
  apply List.filter_congr
  intro r _
  exact PoolJobRow.leaseClause_kept query now r

/-- The statement picks the best candidate with the least job id. -/
theorem first_kept_iff [PyStr] {row : PoolJobRow} :
    Sql.first PoolJobRow.leaseOrder
        (s.keptJobs.rows.filter fun row => Sql.isTrue (row.leaseClause query now)) = some row ↔
      ∃ r, LeastId s now query r ∧ row = PoolJobRow.kept r := by
  have hfirst (f : JobRecord → PoolJobRow)
      (horder : ∀ r q, (f r).leaseOrder (f q) =
        (PoolJobRow.ofRecord r).leaseOrder (PoolJobRow.ofRecord q)) :
      Sql.first PoolJobRow.leaseOrder ((s.candidates now query).map f) =
        ((s.candidates now query).find? fun r => (s.candidates now query).all fun q =>
          !(PoolJobRow.ofRecord q).leaseOrder (PoolJobRow.ofRecord r)).map f := by
    rw [Sql.first, List.find?_map]
    simp only [Function.comp_def, List.all_map, horder]
  rw [filter_leaseClause_kept, hfirst PoolJobRow.kept PoolJobRow.leaseOrder_kept,
    Option.map_eq_some_iff]
  have hchosen (r : JobRecord) :
      ((s.candidates now query).find? fun r => (s.candidates now query).all fun q =>
        !(PoolJobRow.ofRecord q).leaseOrder (PoolJobRow.ofRecord r)) = some r ↔
        LeastId s now query r := by
    have hrecord := @first_eq_some_iff _ _ s now query (PoolJobRow.ofRecord r)
    rw [filter_leaseClause, hfirst PoolJobRow.ofRecord fun _ _ => rfl, Option.map_eq_some_iff]
      at hrecord
    have hinjective {q : JobRecord} (h : PoolJobRow.ofRecord q = PoolJobRow.ofRecord r) :
        q = r := by
      have hread := congrArg PoolJobRow.record h
      rw [PoolJobRow.record_ofRecord, PoolJobRow.record_ofRecord] at hread
      exact Except.ok.inj hread
    constructor
    · intro hfind
      obtain ⟨q, hq, heq⟩ := hrecord.mp ⟨r, hfind, rfl⟩
      exact hinjective heq.symm ▸ hq
    · intro hleast
      obtain ⟨q, hq, heq⟩ := hrecord.mpr ⟨r, hleast, rfl⟩
      exact hinjective heq ▸ hq
  apply exists_congr
  intro r
  rw [hchosen, eq_comm (a := PoolJobRow.kept r)]

theorem statement_of_leastId [PyStr] {r : JobRecord} (token : String)
    (h : LeastId s now query r) : s.keptJobs.lease now token query =
      (MemoryJobStore.keptJobs (s.put (r.leased now token query)),
        some (PoolJobRow.kept (r.leased now token query))) := by
  have hget : s.keptJobs.get? (PoolJobRow.kept r).jobId = some (PoolJobRow.kept r) := by
    rw [get?_keptJobs]
    exact congrArg (Option.map PoolJobRow.kept) (Table.get?_key_of_mem (mem_of_mem_leastOf h.1))
  rw [PoolJobs.lease, first_kept_iff.mpr ⟨r, h, rfl⟩]
  dsimp only
  rw [Table.mapRows_eq_put hget _ fun row hrow => if_neg hrow, if_pos rfl, hget, Option.map_some,
    PoolJobRow.kept_claimed, put_keptJobs]

theorem statement_of_no_leastId [PyStr] (token : String) (h : ∀ r, ¬ LeastId s now query r) :
    s.keptJobs.lease now token query = (s.keptJobs, none) := by
  have hnone : Sql.first PoolJobRow.leaseOrder
      (s.keptJobs.rows.filter fun row => Sql.isTrue (row.leaseClause query now)) = none := by
    rw [Option.eq_none_iff_forall_ne_some]
    intro row hrow
    obtain ⟨r, hr, -⟩ := first_kept_iff.mp hrow
    exact h r hr
  rw [PoolJobs.lease, hnone]

variable [PyStr] [Jsonb.FloatColumn] {uuid4 : String}

theorem lease_kept (htoken : Jsonb.textFits uuid4) (hfits : query.FitsStatement)
    (hfirst : FirstHasLeastId s now query) :
    PostgresJobStore.lease s.keptJobs now uuid4 query =
      ((s.lease now uuid4 query).1.keptJobs,
        .ok ((s.lease now uuid4 query).2.map JobRecord.kept)) := by
  rw [PostgresJobStore.lease, leaseArguments_eq htoken hfits, MemoryJobStore.lease]
  cases hselected : s.selected now query with
  | none => rw [statement_of_no_leastId uuid4 (no_leastId_of_selected hselected)]
            rfl
  | some r =>
      rw [statement_of_leastId uuid4 (leastId_of_selected hfirst hselected)]
      dsimp only
      rw [PoolJobRow.recordOf_kept]
      rfl

/-- Leases that are answered alike pick the same job. -/
theorem firstHasLeastId_of_alike (htoken : Jsonb.textFits uuid4) (hfits : query.FitsStatement)
    (halike : (PostgresJobStore.lease s.keptJobs now uuid4 query).2 =
      .ok ((s.lease now uuid4 query).2.map JobRecord.kept)) :
    FirstHasLeastId s now query := by
  intro r hr
  rw [Option.mem_def, ← s.selected_eq_head] at hr
  have hanswer : (s.lease now uuid4 query).2 = some (r.leased now uuid4 query) := by
    rw [MemoryJobStore.lease, hr]
  rw [hanswer, PostgresJobStore.lease, leaseArguments_eq htoken hfits] at halike
  by_cases hleast : ∃ q, LeastId s now query q
  · obtain ⟨q, hq⟩ := hleast
    rw [statement_of_leastId uuid4 hq] at halike
    dsimp only at halike
    rw [PoolJobRow.recordOf_kept] at halike
    have hrecord := Option.some.inj (Except.ok.inj halike)
    have hid : (q.leased now uuid4 query).kept.jobId = (r.leased now uuid4 query).kept.jobId :=
      congrArg JobRecord.jobId hrecord
    change q.jobId = r.jobId at hid
    have hrow := (MemoryJobStore.selected_spec hr).1
    rw [← hid, Table.get?_key_of_mem (mem_of_mem_leastOf hq.1)] at hrow
    exact (Option.some.inj hrow ▸ hq).2
  · rw [statement_of_no_leastId uuid4 (not_exists.mp hleast)] at halike
    cases halike

end Lease

/-! ### One step -/

section Step

variable [PyStr] [UuidColumn] [Jsonb.FloatColumn] {s : MemoryJobStore} {now : DateTime}
  {submission : JobSubmission}

theorem submit_alike (hfits : submission.FitsRow) (hreuse : ¬ ReusesJobId s submission)
    (hmistake : ¬ MistakesReplay s submission) :
    (PostgresJobStore.submit s.keptJobs now submission).1 =
        (s.submit now submission).1.keptJobs ∧
      JobStoreCall.AnsweredAlike (.submit submission) (s.submit now submission).2
        (PostgresJobStore.submit s.keptJobs now submission).2 := by
  cases hvalid : validateJobSubmission submission with
  | error error =>
      rw [PostgresJobStore.submit, MemoryJobStore.submit, hvalid]
      exact ⟨rfl, rfl⟩
  | ok =>
      rw [submit_kept hfits hvalid, MemoryJobStore.submit, hvalid]
      cases hfind : s.rows.find? fun r => r.idempotencyKey = submission.idempotencyKey with
      | some r =>
          dsimp only
          by_cases hreplays : r.replays submission
          · have hsame : Jsonb.same r.payload.value submission.payload.value := by
              by_contra hdiffers
              exact hmistake ⟨hvalid, r, hfind, hreplays, hdiffers⟩
            rw [if_pos hreplays, if_pos ⟨hreplays, hsame⟩]
            exact ⟨rfl, rfl⟩
          · rw [if_neg hreplays, if_neg fun h => hreplays h.1]
            exact ⟨rfl, rfl⟩
      | none =>
          have hnew : ∀ r ∈ s.rows, r.idempotencyKey ≠ submission.idempotencyKey := by
            simpa using hfind
          cases hget : s.get? submission.jobId with
          | some r => exact absurd ⟨hvalid, hnew, by rw [hget]; rfl⟩ hreuse
          | none => exact ⟨rfl, rfl⟩

/-- A used job id is an error of the primary key, a mistaken replay a conflict. -/
theorem unambiguous_of_submit_alike (hfits : submission.FitsRow)
    (halike : JobStoreCall.AnsweredAlike (.submit submission) (s.submit now submission).2
      (PostgresJobStore.submit s.keptJobs now submission).2) :
    ¬ ReusesJobId s submission ∧ ¬ MistakesReplay s submission := by
  constructor
  · intro hreuses
    obtain ⟨hvalid, hnew, hstored⟩ := hreuses
    have hfind : (s.rows.find? fun r => r.idempotencyKey = submission.idempotencyKey) = none := by
      simpa using hnew
    obtain ⟨r, hget⟩ := Option.isSome_iff_exists.mp hstored
    rw [submit_kept hfits hvalid, MemoryJobStore.submit, hvalid, hfind, hget] at halike
    cases halike
  · intro hmistakes
    obtain ⟨hvalid, r, hfind, hreplays, hdiffers⟩ := hmistakes
    rw [submit_kept hfits hvalid, MemoryJobStore.submit, hvalid, hfind] at halike
    dsimp only at halike
    rw [if_pos hreplays, if_neg fun h => hdiffers h.2] at halike
    cases halike

variable [Sql.JsonbText] [GroupOrder] {op : StoreOp}

theorem exec_kept (hfits : op.FitsColumns) (hclear : op.Unambiguous s) :
    (PostgresJobStore.exec op.now op.uuid4 s.keptJobs op.call).1 = (op.exec s).1.keptJobs ∧
      op.call.AnsweredAlike (op.exec s).2
        (PostgresJobStore.exec op.now op.uuid4 s.keptJobs op.call).2 := by
  obtain ⟨now, uuid4, call⟩ := op
  have hsplit {call : JobStoreCall} {t : PoolJobs} {answer : Except PostgresExc call.Value}
      (hexec : PostgresJobStore.exec now uuid4 s.keptJobs call = (t, answer))
      (htable : t = (call.exec now uuid4 s).1.keptJobs)
      (halike : call.AnsweredAlike (call.exec now uuid4 s).2 answer) :
      (PostgresJobStore.exec now uuid4 s.keptJobs call).1 = (call.exec now uuid4 s).1.keptJobs ∧
        call.AnsweredAlike (call.exec now uuid4 s).2
          (PostgresJobStore.exec now uuid4 s.keptJobs call).2 := by
    rw [hexec]
    exact ⟨htable, halike⟩
  cases call with
  | submit submission => exact submit_alike hfits hclear.1 hclear.2
  | get jobId => exact ⟨rfl, get_kept hfits⟩
  | listForTenant tenantId => exact ⟨rfl, listForTenant_kept hfits⟩
  | cancel jobId => exact hsplit (cancel_kept hfits) rfl rfl
  | lease query => exact hsplit (lease_kept hfits.1 hfits.2 hclear) rfl rfl
  | heartbeat jobId claimToken leaseSeconds progressPercent =>
      exact hsplit (heartbeat_kept hfits.1 hfits.2.1 hfits.2.2) rfl rfl
  | complete jobId claimToken contentType sha256 byteLength executionMetadata =>
      obtain ⟨hargs, htype, hdigest, hlength, hmetadata, hread⟩ := hfits
      exact hsplit (complete_kept hargs htype hdigest hlength hmetadata hread) rfl rfl
  | fail jobId claimToken reason failureCode failureMessage retryable =>
      exact hsplit (fail_kept hfits.1 hfits.2.1 failureCode hfits.2.2 retryable) rfl rfl
  | release jobId claimToken reason => exact hsplit (release_kept hfits.1 hfits.2) rfl rfl
  | expireExhausted =>
      have hexpire := expireExhausted_kept s now
      exact ⟨congrArg Prod.fst hexpire, congrArg Except.ok (congrArg Prod.snd hexpire)⟩
  | queueDepth => exact ⟨rfl, _, rfl, queueDepth_kept⟩

theorem unambiguous_of_alike (hfits : op.FitsColumns)
    (halike : op.call.AnsweredAlike (op.exec s).2
      (PostgresJobStore.exec op.now op.uuid4 s.keptJobs op.call).2) : op.Unambiguous s := by
  obtain ⟨now, uuid4, call⟩ := op
  cases call with
  | submit submission => exact unambiguous_of_submit_alike hfits halike
  | lease query => exact firstHasLeastId_of_alike hfits.1 hfits.2 halike
  | _ => exact trivial

end Step

/-! ### Whole runs -/

section Runs

/-- The memory store as an automaton. -/
def memoryJobs : Automaton StoreOp fun op => op.call.Reply where
  State := MemoryJobStore
  step s op := op.exec s

variable [PyStr] [UuidColumn] [Jsonb.FloatColumn] [Sql.JsonbText] [GroupOrder]

/-- The Postgres store as an automaton. -/
def postgresJobs : Automaton StoreOp fun op => Except PostgresExc op.call.Value where
  State := PoolJobs
  step t op := PostgresJobStore.exec op.now op.uuid4 t op.call

/-- A client cannot tell the stores apart exactly as long as no step is ambiguous, and then the
table holds the memory store's records. -/
theorem job_stores_agree_iff {run : List StoreOp} (hfits : ∀ op ∈ run, op.FitsColumns) :
    (Automaton.AnswersAlike memoryJobs postgresJobs (fun op => op.call.AnsweredAlike)
        Table.empty Table.empty run ↔
      memoryJobs.EachStep (fun s op => op.Unambiguous s) Table.empty run) ∧
    (memoryJobs.EachStep (fun s op => op.Unambiguous s) Table.empty run →
      postgresJobs.after Table.empty run = (memoryJobs.after Table.empty run).keptJobs) := by
  have hstep : ∀ (s : MemoryJobStore) (t : PoolJobs), ∀ op ∈ run, t = s.keptJobs →
      op.Unambiguous s →
        (PostgresJobStore.exec op.now op.uuid4 t op.call).1 = (op.exec s).1.keptJobs := by
    intro s t op hop hkept hclear
    exact hkept ▸ (exec_kept (hfits op hop) hclear).1
  have hanswers : ∀ (s : MemoryJobStore) (t : PoolJobs), ∀ op ∈ run, t = s.keptJobs →
      (op.call.AnsweredAlike (op.exec s).2
        (PostgresJobStore.exec op.now op.uuid4 t op.call).2 ↔ op.Unambiguous s) := by
    intro s t op hop hkept
    rw [hkept]
    exact ⟨unambiguous_of_alike (hfits op hop), fun hclear => (exec_kept (hfits op hop) hclear).2⟩
  have hempty : (Table.empty : PoolJobs) = MemoryJobStore.keptJobs Table.empty := rfl
  exact ⟨Automaton.answersAlike_iff (M := memoryJobs) (N := postgresJobs) hanswers hstep hempty,
    Automaton.related_after (M := memoryJobs) (N := postgresJobs) hstep hempty⟩

end Runs

end Stores

/-! ### One id for two jobs -/

/-- The floats of the run below, of which there are none. -/
@[reducible] def Jsonb.FloatColumn.none : Jsonb.FloatColumn where
  kept _ := Option.none

@[reducible] def GroupOrder.asGiven : GroupOrder where
  arrange groups := groups
  perm _ := .refl _

/-- A second job under the id of the first. -/
def reusedIdRun : List StoreOp :=
  let first := plainJob "00000000-0000-0000-0000-000000000001"
  [⟨0, "", .submit first⟩, ⟨1, "", .submit { first with idempotencyKey := "second" }⟩]

/-- A job that is submitted, leased and looked up. -/
def leasedJobRun : List StoreOp :=
  [⟨0, "", .submit (plainJob "00000000-0000-0000-0000-000000000001")⟩,
    ⟨1, "t", .lease plainWorker⟩, ⟨2, "", .get "00000000-0000-0000-0000-000000000001"⟩]

theorem leasedJobRun_unambiguous :
    letI := PyText.ascii
    memoryJobs.EachStep (fun s op => op.Unambiguous s) Table.empty leasedJobRun := by
  let _ := PyText.ascii
  refine ⟨⟨?_, ?_⟩, ?_, trivial, trivial⟩
  · decide
  · intro hmistakes
    obtain ⟨-, r, hfound, -⟩ := hmistakes
    cases hfound
  · intro r hr q hq
    have hone : (leastOf (MemoryJobStore.candidates
        (MemoryJobStore.after Table.empty (leasedJobRun.take 1)) 1 plainWorker)).map
          JobRecord.jobId = ["00000000-0000-0000-0000-000000000001"] := by
      decide +kernel
    have hid {r : JobRecord} (h : r ∈ leastOf (MemoryJobStore.candidates
        (MemoryJobStore.after Table.empty (leasedJobRun.take 1)) 1 plainWorker)) :
        r.jobId = "00000000-0000-0000-0000-000000000001" := by
      have hmem := List.mem_map_of_mem (f := JobRecord.jobId) h
      rw [hone] at hmem
      exact List.mem_singleton.mp hmem
    rw [hid (List.mem_of_head? hr), hid hq]

theorem leasedJobRun_fits :
    letI := PyText.ascii
    letI := canonicalUuids
    letI := Jsonb.FloatColumn.none
    ∀ op ∈ leasedJobRun, op.FitsColumns := by
  let _ := PyText.ascii
  let _ := canonicalUuids
  let _ := Jsonb.FloatColumn.none
  intro op hop
  simp only [leasedJobRun, List.mem_cons, List.not_mem_nil, or_false] at hop
  rcases hop with rfl | rfl | rfl
  · exact ⟨by decide +kernel, by decide +kernel, by decide +kernel, by decide +kernel,
      by decide +kernel, rfl, by decide +kernel⟩
  · exact ⟨by decide +kernel, by decide +kernel, by decide +kernel, by decide +kernel,
      by decide +kernel, by decide +kernel⟩
  · show isUuid _
    decide +kernel

theorem reused_id_is_seen :
    letI := PyText.ascii
    letI := PyStr.ofStrings
    letI := Sql.JsonbText.ofStrings
    letI := canonicalUuids
    letI := Jsonb.FloatColumn.none
    letI := GroupOrder.asGiven
    ¬ Automaton.AnswersAlike memoryJobs postgresJobs (fun op => op.call.AnsweredAlike)
        Table.empty Table.empty reusedIdRun ∧
      Automaton.AnswersAlike memoryJobs postgresJobs (fun op => op.call.AnsweredAlike)
        Table.empty Table.empty leasedJobRun := by
  have hreuses : letI := PyText.ascii
      ReusesJobId (MemoryJobStore.after Table.empty (reusedIdRun.take 1))
        { plainJob "00000000-0000-0000-0000-000000000001" with idempotencyKey := "second" } := by
    decide +kernel
  let _ := PyText.ascii
  let _ := PyStr.ofStrings
  let _ := Sql.JsonbText.ofStrings
  let _ := canonicalUuids
  let _ := Jsonb.FloatColumn.none
  let _ := GroupOrder.asGiven
  have hfits : ∀ op ∈ reusedIdRun, op.FitsColumns := by
    intro op hop
    rcases List.mem_pair.mp hop with rfl | rfl
    · exact ⟨by decide +kernel, by decide +kernel, by decide +kernel, by decide +kernel,
        by decide +kernel, rfl, by decide +kernel⟩
    · exact ⟨by decide +kernel, by decide +kernel, by decide +kernel, by decide +kernel,
        by decide +kernel, rfl, by decide +kernel⟩
  refine ⟨fun halike => ?_, ?_⟩
  · exact ((job_stores_agree_iff hfits).1.mp halike).2.1.1 hreuses
  · exact (job_stores_agree_iff leasedJobRun_fits).1.mpr leasedJobRun_unambiguous

end GpuWorkerPool
