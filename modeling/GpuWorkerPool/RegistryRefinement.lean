import GpuWorkerPool.PostgresRegistry

/-!
The memory registry against the Postgres registry, run alone on the same workers. Where one worker
is registered under an identity the statement's `WHERE` clause and the memory registry's checks
refuse the same heartbeats, and the read after the statement names the check that came first. A
heartbeat that is admitted writes one row, and the two registries hold the same workers again.
-/

namespace GpuWorkerPool

open Base

/-- The columns hold the values of a registration as they are. -/
structure FitsColumns (registration : WorkerRegistration) (identitySubject : String) : Prop where
  texts : ∀ s ∈ registration.workerId :: identitySubject ::
    (registration.gpuModel.toList ++ registration.tenantId.toList), Jsonb.textFits s
  integers : ∀ n ∈ registration.activeLeases :: registration.vramMb.toList, int4 n
  values : ∀ value ∈ [.list (registration.capabilities.map WorkerCapability.asDict),
    versionsValue registration.runtimeVersions, textsValue registration.labels,
    .list (registration.gpus.map GpuTelemetry.asDict)], Jsonb.fits value
  busyJobId : ∀ jobId, registration.busyJobId = some jobId → isUuid jobId

namespace WorkerRecord

/-- Equality of two rows, of which the runtime versions are in no order. -/
def Same (w v : WorkerRecord) : Prop :=
  w = { v with runtimeVersions := w.runtimeVersions } ∧
    ∀ name, w.runtimeVersions.lookup name = v.runtimeVersions.lookup name

end WorkerRecord

namespace MemoryWorkerRegistry

/-- The same workers in Postgres. -/
def poolWorkers (s : MemoryWorkerRegistry) : PoolWorkers where
  rows := s.rows.map PoolWorkerRow.ofRecord
  keys_nodup := by
    rw [List.map_map]
    exact s.keys_nodup

variable {s : MemoryWorkerRegistry}

theorem get?_poolWorkers (s : MemoryWorkerRegistry) (id : String) :
    s.poolWorkers.get? id = (s.get? id).map PoolWorkerRow.ofRecord := by
  rw [Table.get?, Table.get?, poolWorkers, List.find?_map]
  rfl

theorem poolWorkers_put (s : MemoryWorkerRegistry) (w : WorkerRecord) :
    poolWorkers (s.put w) = s.poolWorkers.put (PoolWorkerRow.ofRecord w) := by
  have hkey (w : WorkerRecord) : PoolWorkerRow.workerId (PoolWorkerRow.ofRecord w) = w.workerId := rfl
  exact Table.ext (Table.map_putRow hkey w s.rows).symm

end MemoryWorkerRegistry

/-- How the two calls end alike: both raise `error` and write nothing, or both write the row of the
registration over the one they had and leave every other row as it was. -/
inductive EndAlike (s : MemoryWorkerRegistry) (now : DateTime) (registration : WorkerRegistration)
    (identitySubject : String) : MemoryWorkerRegistry × Except Exc WorkerRecord →
      PoolWorkers × Except PostgresExc WorkerRecord → Prop
  | raised (error : Exc)
      (conflict : error ∈ [.workerIdentityMismatch registration.workerId,
        .workerTenantMismatch registration.workerId, .identitySubjectTaken identitySubject]) :
      EndAlike s now registration identitySubject (s, .error error) (s.poolWorkers, .error (.domain error))
  | wrote (s' : MemoryWorkerRegistry) (row back : WorkerRecord)
      (replaced : row = MemoryWorkerRegistry.upsertRecord (s.get? registration.workerId) now
        registration identitySubject)
      (retained : ∀ w, s.get? registration.workerId = some w → row.createdAt = w.createdAt ∧
        row.revokedAt = w.revokedAt ∧ (w.status = .revoked → row.status = .revoked))
      (here : s'.get? registration.workerId = some row)
      (others : ∀ id, id ≠ registration.workerId → s'.get? id = s.get? id)
      (same : back.Same row) :
      EndAlike s now registration identitySubject (s', .ok row) (s'.poolWorkers, .ok back)

section Upsert

variable {s : MemoryWorkerRegistry} {now : DateTime} {registration : WorkerRegistration}
  {identitySubject : String}

theorem proposed_eq [UuidColumn] (h : FitsColumns registration identitySubject) (now : DateTime) :
    PoolWorkerRow.proposed now registration identitySubject = .ok (PoolWorkerRow.ofRecord
      (MemoryWorkerRegistry.upsertRecord none now registration identitySubject)) := by
  have htext {s : String} (hs : s ∈ registration.workerId :: identitySubject ::
      (registration.gpuModel.toList ++ registration.tenantId.toList)) :
      textColumn s = .ok s := textColumn_eq (h.texts s hs)
  rw [PoolWorkerRow.proposed, htext (by simp), htext (by simp), jsonbColumn_eq (h.values _ (by simp)),
    jsonbColumn_eq (h.values _ (by simp)), jsonbColumn_eq (h.values _ (by simp)),
    jsonbColumn_eq (h.values _ (by simp)), integerColumn_eq (h.integers _ (by simp)),
    nullable_eq fun s hs => htext (by simp [hs]), nullable_eq fun s hs => htext (by simp [hs]),
    nullable_eq fun n hn => integerColumn_eq (h.integers n (by simp [hn])),
    nullable_eq fun id hid => uuidColumn_eq (h.busyJobId id hid)]
  rfl

/-- An update keeps the owner of the row, its age and a revocation. -/
theorem updated_ofRecord {w : WorkerRecord} (hid : w.workerId = registration.workerId)
    (hsubject : w.identitySubject = identitySubject) (htenant : w.tenantId = registration.tenantId)
    (now : DateTime) :
    (PoolWorkerRow.ofRecord w).updated (PoolWorkerRow.ofRecord
        (MemoryWorkerRegistry.upsertRecord none now registration identitySubject)) now =
      PoolWorkerRow.ofRecord
        (MemoryWorkerRegistry.upsertRecord (some w) now registration identitySubject) := by
  have hstatus : (if w.status.text = "revoked" then "revoked" else
      (if registration.draining then WorkerStatus.draining else .active).text) =
      (if w.status = .revoked then WorkerStatus.revoked else
        if registration.draining then .draining else .active).text := by
    by_cases hrevoked : w.status = .revoked
    · rw [if_pos hrevoked, if_pos (w.status.text_eq_revoked.mpr hrevoked)]
      rfl
    · rw [if_neg hrevoked, if_neg (mt w.status.text_eq_revoked.mp hrevoked)]
  simp only [PoolWorkerRow.updated, PoolWorkerRow.ofRecord, MemoryWorkerRegistry.upsertRecord,
    Option.any_none, Option.any_some, decide_eq_true_eq, Bool.false_eq_true, if_false, hstatus, hid,
    hsubject, htenant, Option.map_some, Option.getD_some, Option.bind_some]

theorem recordOf_ofRecord (w : WorkerRecord) : PoolWorkers.recordOf (PoolWorkerRow.ofRecord w) =
    .ok { w with runtimeVersions := storedVersions w.runtimeVersions } := by
  rw [PoolWorkers.recordOf, PoolWorkerRow.record_ofRecord]
  rfl

theorem same_stored (w : WorkerRecord) :
    WorkerRecord.Same { w with runtimeVersions := storedVersions w.runtimeVersions } w :=
  ⟨rfl, lookup_storedVersions w.runtimeVersions⟩

/-- A row that is written under the worker's id. -/
theorem wrote_put {row : WorkerRecord} (h : row =
      MemoryWorkerRegistry.upsertRecord (s.get? registration.workerId) now registration identitySubject) :
    EndAlike s now registration identitySubject (s.put row, .ok row)
      (s.poolWorkers.put (PoolWorkerRow.ofRecord row),
        PoolWorkers.recordOf (PoolWorkerRow.ofRecord row)) := by
  have hid : row.workerId = registration.workerId := by
    rw [h]
    rfl
  rw [recordOf_ofRecord, ← MemoryWorkerRegistry.poolWorkers_put]
  refine .wrote (s.put row) row _ h ?_ ?_ ?_ (same_stored row)
  · intro w hw
    rw [h, hw]
    refine ⟨rfl, rfl, fun hrevoked => ?_⟩
    rw [MemoryWorkerRegistry.upsertRecord, Option.any_some, if_pos (decide_eq_true hrevoked)]
  · rw [← hid]
    exact Table.get?_put_self s row
  · intro id hne
    exact Table.get?_put_of_ne s (hid ▸ hne.symm)

/-- A worker that the registries do not know: only its identity can be in the way. -/
theorem agree_new [UuidColumn] (hnew : s.get? registration.workerId = none)
    (hfits : FitsColumns registration identitySubject) :
    EndAlike s now registration identitySubject (s.upsert now registration identitySubject)
      (s.poolWorkers.upsert now registration identitySubject) := by
  have hothers : ∀ w ∈ s.rows, w.workerId ≠ registration.workerId := Table.get?_eq_none_iff.mp hnew
  have htaken : (s.poolWorkers.rows.any fun row => row.identitySubject = identitySubject) =
      s.rows.any fun other =>
        other.identitySubject = identitySubject && other.workerId ≠ registration.workerId := by
    rw [MemoryWorkerRegistry.poolWorkers, List.any_map, Bool.eq_iff_iff, List.any_eq_true,
      List.any_eq_true]
    constructor
    · rintro ⟨w, hw, hsubject⟩
      exact ⟨w, hw, Bool.and_eq_true_iff.mpr ⟨hsubject, decide_eq_true (hothers w hw)⟩⟩
    · rintro ⟨w, hw, hsubject⟩
      exact ⟨w, hw, (Bool.and_eq_true_iff.mp hsubject).1⟩
  have hrow : s.poolWorkers.get? registration.workerId = none := by
    rw [MemoryWorkerRegistry.get?_poolWorkers, hnew, Option.map_none]
  rw [PoolWorkers.upsert, proposed_eq hfits now, MemoryWorkerRegistry.upsert, hnew]
  generalize hrecord : MemoryWorkerRegistry.upsertRecord none now registration identitySubject = row
  have hid : (PoolWorkerRow.ofRecord row).workerId = registration.workerId := by
    rw [← hrecord]
    rfl
  have hsubject : (PoolWorkerRow.ofRecord row).identitySubject = identitySubject := by
    rw [← hrecord]
    rfl
  dsimp only
  rw [PoolWorkers.insertOrUpdate, PoolWorkerRow.checks_ofRecord, hid, hrow, hsubject]
  simp only [Bool.not_true, Bool.false_eq_true, if_false, Option.any_none, htaken]
  by_cases hconflict : s.rows.any fun other =>
      other.identitySubject = identitySubject && other.workerId ≠ registration.workerId
  · rw [if_pos hconflict, if_pos hconflict]
    exact .raised _ (by simp)
  · rw [if_neg hconflict, if_neg hconflict]
    exact wrote_put (by rw [hnew, hrecord])

/-- A worker that the registries know: its owner decides, for no one else has its identity. -/
theorem agree_known [UuidColumn] {w : WorkerRecord} (hknown : s.get? registration.workerId = some w)
    (hsubjects : (s.rows.map WorkerRecord.identitySubject).Nodup)
    (hfits : FitsColumns registration identitySubject) :
    EndAlike s now registration identitySubject (s.upsert now registration identitySubject)
      (s.poolWorkers.upsert now registration identitySubject) := by
  obtain ⟨hw, hwid⟩ := Table.get?_eq_some_iff.mp hknown
  have hrow : s.poolWorkers.get? registration.workerId = some (PoolWorkerRow.ofRecord w) := by
    rw [MemoryWorkerRegistry.get?_poolWorkers, hknown, Option.map_some]
  have hdiagnosis : PoolWorkers.diagnosis s.poolWorkers registration identitySubject =
      if w.identitySubject ≠ identitySubject then
        .domain (.workerIdentityMismatch registration.workerId)
      else .domain (.workerTenantMismatch registration.workerId) := by
    rw [PoolWorkers.diagnosis, hrow, Option.map_some, recordOf_ofRecord]
  have hclause : Sql.isTrue ((PoolWorkerRow.ofRecord w).sameOwner (PoolWorkerRow.ofRecord
      (MemoryWorkerRegistry.upsertRecord none now registration identitySubject))) =
      (decide (w.tenantId = registration.tenantId) && decide (w.identitySubject = identitySubject)) :=
    PoolWorkerRow.isTrue_sameOwner _ _
  have hupdated (hsubject : w.identitySubject = identitySubject)
      (htenant : w.tenantId = registration.tenantId) := updated_ofRecord hwid hsubject htenant now
  rw [PoolWorkers.upsert, proposed_eq hfits now, MemoryWorkerRegistry.upsert, hknown]
  generalize hrecord : MemoryWorkerRegistry.upsertRecord none now registration identitySubject = row
    at hclause hupdated
  have hid : (PoolWorkerRow.ofRecord row).workerId = registration.workerId := by
    rw [← hrecord]
    rfl
  dsimp only
  rw [PoolWorkers.insertOrUpdate, PoolWorkerRow.checks_ofRecord, hid, hrow]
  simp only [Bool.not_true, Bool.false_eq_true, if_false, Option.any_some, hclause]
  by_cases hsubject : w.identitySubject = identitySubject
  · by_cases htenant : w.tenantId = registration.tenantId
    · have hfree : (s.rows.any fun other => other.identitySubject = identitySubject &&
          other.workerId ≠ registration.workerId) = false := by
        rw [List.any_eq_false]
        intro other hother hconflict
        rw [Bool.and_eq_true, decide_eq_true_eq, decide_eq_true_eq] at hconflict
        have hsame := List.inj_on_of_nodup_map hsubjects hother hw (hconflict.1.trans hsubject.symm)
        exact hconflict.2 (hsame ▸ hwid)
      simp only [hsubject, htenant, ne_eq, not_true_eq_false, decide_false, decide_true,
        Bool.false_eq_true, Bool.and_self, if_false, if_true, hfree, hupdated hsubject htenant,
        PoolWorkerRow.checks_ofRecord]
      exact wrote_put (by rw [hknown])
    · simp only [hsubject, htenant, ne_eq, not_true_eq_false, not_false_eq_true, decide_false,
        decide_true, Bool.false_eq_true, Bool.false_and, if_false, if_true]
      rw [PoolWorkers.answer, hdiagnosis, if_neg (not_not.mpr hsubject)]
      exact .raised _ (by simp)
  · simp only [hsubject, ne_eq, not_false_eq_true, decide_false, decide_true, Bool.and_false,
      Bool.false_eq_true, if_false, if_true]
    rw [PoolWorkers.answer, hdiagnosis, if_pos hsubject]
    exact .raised _ (by simp)

/-- One heartbeat ends alike in the two registries. -/
theorem registries_agree [UuidColumn] {s : MemoryWorkerRegistry}
    (hsubjects : (s.rows.map WorkerRecord.identitySubject).Nodup)
    {registration : WorkerRegistration} {identitySubject : String}
    (hfits : FitsColumns registration identitySubject) (now : DateTime) :
    EndAlike s now registration identitySubject (s.upsert now registration identitySubject)
      (s.poolWorkers.upsert now registration identitySubject) := by
  cases hget : s.get? registration.workerId with
  | none => exact agree_new hget hfits
  | some w => exact agree_known hget hsubjects hfits

end Upsert

/-- A driver that takes a uuid in the spelling of Postgres only. -/
@[reducible] def canonicalUuids : UuidColumn where
  readBack s := if isUuid s then some s else none
  readBack_uuid _ h := if_pos h

/-- A worker that holds one job. -/
def busyWorker : WorkerRegistration where
  workerId := "gpu-1"
  capabilities := [{ capabilityId := "render", pluginId := "blender", pluginVersion := "1" }]
  gpuModel := some "L4"
  vramMb := some 24576
  busyJobId := some "6f1c2a34-0b1d-4c55-9e0f-8a7b6c5d4e3f"

/-- A heartbeat of a worker that was revoked: the one row is written again. -/
theorem registries_agree_revoked :
    let revoked := MemoryWorkerRegistry.setStatus (MemoryWorkerRegistry.upsert Table.empty 0
      { workerId := "gpu-1", capabilities := [] } "subject").1 1 "gpu-1" .revoked
    EndAlike revoked.1 2 busyWorker "subject" (revoked.1.upsert 2 busyWorker "subject")
      (@PoolWorkers.upsert canonicalUuids revoked.1.poolWorkers 2 busyWorker "subject") := by
  have hfits : FitsColumns busyWorker "subject" := by
    refine ⟨by decide, by decide, ?_, ?_⟩
    · decide
    · intro jobId hjobId
      obtain rfl := Option.some.inj hjobId
      decide
  exact @registries_agree canonicalUuids _ (by decide) _ _ hfits 2

theorem EndAlike.ne_dataError {s : MemoryWorkerRegistry} {now : DateTime}
    {registration : WorkerRegistration} {identitySubject : String}
    {memory : MemoryWorkerRegistry × Except Exc WorkerRecord}
    {postgres : PoolWorkers × Except PostgresExc WorkerRecord}
    (h : EndAlike s now registration identitySubject memory postgres) :
    postgres.2 ≠ .error .dataError := by
  cases h with
  | raised error conflict => simp
  | wrote s' row back replaced retained here others same => simp

/-- The first heartbeat of a pool ends alike in both registries. -/
def FirstAlike (registration : WorkerRegistration) : Prop :=
  EndAlike Table.empty 0 registration "subject"
    (MemoryWorkerRegistry.upsert Table.empty 0 registration "subject")
    (@PoolWorkers.upsert canonicalUuids (MemoryWorkerRegistry.poolWorkers Table.empty) 0 registration
      "subject")

/-- A job id that is no uuid, an integer of 33 bits and a NUL character, which the memory registry
takes, are refused by the columns. -/
theorem registries_disagree :
    ¬ FirstAlike { busyWorker with busyJobId := some "job-1" } ∧
      ¬ FirstAlike { busyWorker with vramMb := some (2 ^ 32) } ∧
      ¬ FirstAlike { busyWorker with gpuModel := some (String.singleton (Char.ofNat 0)) } := by
  refine ⟨fun h => ?_, fun h => ?_, fun h => ?_⟩
  · apply EndAlike.ne_dataError h
    rfl
  · apply EndAlike.ne_dataError h
    rfl
  · apply EndAlike.ne_dataError h
    rfl

end GpuWorkerPool
