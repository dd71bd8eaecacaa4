import GpuWorkerPool.LeaseRefinement
import GpuWorkerPool.PostgresJobs

/-!
The rows that the Postgres store keeps of the memory store's records. A row reads back as its record
with the objects in the order of `jsonb`, and the clauses of the statements see no difference: they
look requirements up by name and compare payloads as `jsonb` does.
-/

namespace GpuWorkerPool

open Base RequirementsPayload

/-! ### Requirements -/

namespace JobRequirements

/-- The requirements as they are read back. -/
def kept (r : JobRequirements) : JobRequirements :=
  { r with runtimeVersions := storedVersions r.runtimeVersions }

/-- The members that `as_payload` writes. -/
def members (r : JobRequirements) : List (String × JsonValue) :=
  setting "min_vram_mb" (r.minVramMb.map .int) ++
    (setting "gpu_models" (RequirementsPayload.textList r.gpuModels) ++
      (setting "labels" (RequirementsPayload.textList r.labels) ++
        (setting "worker_ids" (RequirementsPayload.textList r.workerIds) ++
          setting "runtime_versions" (textDict r.runtimeVersions))))

theorem keys_setting (name : String) (value : Option JsonValue) :
    ((setting name value).map Prod.fst).Sublist [name] := by
  cases value with
  | none => exact List.nil_sublist _
  | some value => exact List.Sublist.refl _

def payloadNames : List String :=
  ["min_vram_mb", "gpu_models", "labels", "worker_ids", "runtime_versions"]

theorem keys_members (r : JobRequirements) : (r.members.map Prod.fst).Sublist payloadNames := by
  simp only [members, List.map_append]
  exact (keys_setting _ _).append ((keys_setting _ _).append ((keys_setting _ _).append
    ((keys_setting _ _).append (keys_setting _ _))))

theorem nodup_members (r : JobRequirements) : (r.members.map Prod.fst).Nodup :=
  r.keys_members.nodup (by decide)

theorem field_of_notMem (r : JobRequirements) {name : String} (h : name ∉ payloadNames) :
    Sql.field r.asPayload name = Option.none := by
  refine List.lookup_eq_none_iff.mpr fun member hmember => ?_
  rw [bne_iff_ne]
  exact fun heq => h (heq ▸ r.keys_members.subset (List.mem_map_of_mem hmember))

/-- What holds of the names that `as_payload` does not write holds of all names once it holds of the
five that it writes. -/
theorem forall_name_iff {p : String → Prop} (h : ∀ name, name ∉ payloadNames → p name) :
    (∀ name, p name) ↔ p "min_vram_mb" ∧ p "gpu_models" ∧ p "labels" ∧ p "worker_ids" ∧
      p "runtime_versions" := by
  refine ⟨fun hall => ⟨hall _, hall _, hall _, hall _, hall _⟩, fun hfive name => ?_⟩
  by_cases hname : name ∈ payloadNames
  · simp only [payloadNames, List.mem_cons, List.not_mem_nil, or_false] at hname
    obtain ⟨hvram, hmodels, hlabels, hworkers, hversions⟩ := hfive
    rcases hname with rfl | rfl | rfl | rfl | rfl <;> assumption
  · exact h name hname

theorem wellFormed_textList {values : List String} {value : JsonValue}
    (h : RequirementsPayload.textList values = some value) : value.wellFormed := by
  rw [RequirementsPayload.textList] at h
  split at h
  · cases h
  · cases h
    rw [JsonValue.wellFormed, JsonValue.wellFormedItems_iff]
    intro item hitem
    obtain ⟨text, -, rfl⟩ := List.mem_map.mp hitem
    rfl

theorem wellFormed_textDict {values : Dict String String} {value : JsonValue}
    (h : textDict values = some value) : value.wellFormed := by
  rw [textDict] at h
  split at h
  · cases h
  · cases h
    refine JsonValue.wellFormed_dict.mpr ⟨?_, fun member hmember => ?_⟩
    · rw [List.map_map]
      exact values.keys_nodup
    · obtain ⟨row, -, rfl⟩ := List.mem_map.mp hmember
      rfl

theorem wellFormed_asPayload (r : JobRequirements) : r.asPayload.wellFormed := by
  have hvalues : ∀ name, ∀ value, Sql.field r.asPayload name = some value → value.wellFormed := by
    refine (forall_name_iff (p := fun name => ∀ value,
      Sql.field r.asPayload name = some value → value.wellFormed) ?_).mpr ?_
    · intro name hname value hvalue
      rw [r.field_of_notMem hname] at hvalue
      cases hvalue
    · refine ⟨fun value hvalue => ?_, fun value hvalue => ?_, fun value hvalue => ?_,
        fun value hvalue => ?_, fun value hvalue => ?_⟩
      · rw [field_minVramMb, Option.map_eq_some_iff] at hvalue
        obtain ⟨mb, -, hmb⟩ := hvalue
        rw [← hmb]
        rfl
      · exact wellFormed_textList (r.field_gpuModels.symm.trans hvalue)
      · exact wellFormed_textList (r.field_labels.symm.trans hvalue)
      · exact wellFormed_textList (r.field_workerIds.symm.trans hvalue)
      · exact wellFormed_textDict (r.field_runtimeVersions.symm.trans hvalue)
  refine JsonValue.wellFormed_dict.mpr ⟨r.nodup_members, fun member hmember => ?_⟩
  exact hvalues member.1 member.2 (JsonValue.lookup_eq_of_mem r.nodup_members hmember)

theorem map_stored_textList (values : List String) :
    (RequirementsPayload.textList values).map Jsonb.stored =
      RequirementsPayload.textList values := by
  rw [RequirementsPayload.textList]
  split
  · rfl
  · exact congrArg some (Jsonb.stored_texts values)

theorem map_stored_textDict (values : Dict String String) :
    (textDict values).map Jsonb.stored = textDict (storedVersions values) := by
  have hempty : (storedVersions values).rows.isEmpty = values.rows.isEmpty :=
    (Jsonb.sortNames_perm values.rows).isEmpty_eq
  rw [textDict, textDict, hempty]
  split
  · rfl
  · exact congrArg some (stored_versionsValue values)

/-- The column says of every name what the requirements say that are read back. -/
theorem field_stored_asPayload (r : JobRequirements) : ∀ name,
    Sql.field (Jsonb.stored r.asPayload) name = Sql.field r.kept.asPayload name := by
  have hstored (name : String) : Sql.field (Jsonb.stored r.asPayload) name =
      (Sql.field r.asPayload name).map Jsonb.stored := field_stored r.nodup_members name
  refine (forall_name_iff (p := fun name =>
    Sql.field (Jsonb.stored r.asPayload) name = Sql.field r.kept.asPayload name) ?_).mpr ?_
  · intro name hname
    rw [hstored, r.field_of_notMem hname, r.kept.field_of_notMem hname, Option.map_none]
  · refine ⟨?_, ?_, ?_, ?_, ?_⟩
    · rw [hstored, field_minVramMb, field_minVramMb, Option.map_map]
      rfl
    · rw [hstored, field_gpuModels, field_gpuModels, map_stored_textList]
      rfl
    · rw [hstored, field_labels, field_labels, map_stored_textList]
      rfl
    · rw [hstored, field_workerIds, field_workerIds, map_stored_textList]
      rfl
    · rw [hstored, field_runtimeVersions, field_runtimeVersions, map_stored_textDict]
      rfl

theorem fromPayload_congr [PyStr] {payload other : JsonValue}
    (h : ∀ name, Sql.field payload name = Sql.field other name) :
    fromPayload payload = fromPayload other := by
  have hget (name : String) (default : JsonValue) :
      getOr payload name default = getOr other name default := by
    rw [getOr, getOr, h]
  rw [fromPayload, fromPayload, hget, hget, h, hget, hget]

theorem fromPayload_stored [PyStr] (r : JobRequirements) :
    fromPayload (Jsonb.stored r.asPayload) = .ok r.kept :=
  (fromPayload_congr r.field_stored_asPayload).trans r.kept.fromPayload_asPayload

/-- Equality of two columns of which either may be missing. -/
def SameColumn (v w : Option JsonValue) : Prop := Option.Rel (fun v w => Jsonb.same v w) v w

theorem sameColumn_minVram (m n : Option Int) :
    SameColumn (m.map .int) (n.map .int) ↔ m = n := by
  cases m <;> cases n <;> simp [SameColumn, Jsonb.same, Sql.sameScalar, JsonValue.numberEq,
    JsonValue.number?, JsonValue.Number.same]

theorem sameColumn_texts (values others : List String) :
    SameColumn (RequirementsPayload.textList values) (RequirementsPayload.textList others) ↔
      values = others := by
  cases values with
  | nil => cases others <;> simp [SameColumn, RequirementsPayload.textList]
  | cons value rest =>
      cases others with
      | nil => simp [SameColumn, RequirementsPayload.textList]
      | cons other others =>
          rw [SameColumn, RequirementsPayload.textList, RequirementsPayload.textList,
            if_neg (by simp), if_neg (by simp), Option.rel_some_some, Jsonb.same_texts, decide_eq_true_eq]

theorem sameColumn_textDict (values others : Dict String String) :
    SameColumn (textDict values) (textDict others) ↔ values.same others := by
  have hsame := Jsonb.same_textDict values others
  rw [Dict.same] at hsame ⊢
  rw [SameColumn, textDict, textDict]
  cases hrows : values.rows with
  | nil => cases hothers : others.rows <;> simp
  | cons row rest =>
      cases hothers : others.rows with
      | nil => simp
      | cons other others =>
          rw [hrows, hothers] at hsame
          rw [if_neg (by simp), if_neg (by simp), Option.rel_some_some, hsame]

/-- `jsonb` compares requirements as `==` does. -/
theorem same_asPayload (r q : JobRequirements) :
    Jsonb.same r.asPayload q.asPayload = r.pyEq q := by
  have hfields : Jsonb.same r.asPayload q.asPayload ↔
      ∀ name, SameColumn (Sql.field r.asPayload name) (Sql.field q.asPayload name) :=
    Jsonb.same_dict_iff r.nodup_members q.nodup_members
  rw [Bool.eq_iff_iff, hfields, forall_name_iff (p := fun name =>
    SameColumn (Sql.field r.asPayload name) (Sql.field q.asPayload name)), pyEq]
  · simp only [field_minVramMb, field_gpuModels, field_labels, field_workerIds,
      field_runtimeVersions, sameColumn_minVram, sameColumn_texts, sameColumn_textDict,
      Bool.and_eq_true, decide_eq_true_eq, and_assoc]
  · intro name hname
    rw [r.field_of_notMem hname, q.field_of_notMem hname]
    exact .none

end JobRequirements

/-! ### Records and rows -/

/-- The record as the Postgres store returns it. -/
def JobRecord.kept (r : JobRecord) : JobRecord :=
  { r with
    payload := r.payload.stored, requirements := r.requirements.kept,
    executionMetadata := Jsonb.sortNames (Jsonb.storedMembers r.executionMetadata) }

namespace PoolJobRow

/-- The row of a record. -/
def kept (r : JobRecord) : PoolJobRow :=
  { ofRecord r.kept with requirements := Jsonb.stored r.requirements.asPayload }

theorem record_kept [PyStr] (r : JobRecord) : (kept r).record = .ok r.kept := by
  rw [record, kept, ofRecord]
  dsimp only
  rw [JobStatus.ofText_text, JobRequirements.fromPayload_stored, JobFailureCode.ofText_text]
  rfl

theorem recordOf_kept [PyStr] (r : JobRecord) :
    PostgresJobStore.recordOf (kept r) = .ok r.kept := by
  rw [PostgresJobStore.recordOf, record_kept]
  rfl

theorem kept_claimed (r : JobRecord) (now : DateTime) (token : String) (query : LeaseQuery) :
    (kept r).claimed now token query = kept (r.leased now token query) := rfl

/-- The order of the lease does not look at the objects. -/
theorem leaseOrder_kept (r q : JobRecord) :
    (kept r).leaseOrder (kept q) = (ofRecord r).leaseOrder (ofRecord q) := rfl

@[simp] theorem text_eq_processing (status : JobStatus) :
    status.text = "processing" ↔ status = .processing := by
  cases status <;> decide

@[simp] theorem text_eq_queued (status : JobStatus) :
    status.text = "queued" ↔ status = .queued := by
  cases status <;> decide

section Clauses

variable [PyText] [Sql.JsonbText]

/-- The lease looks requirements up by name. -/
theorem leaseClause_congr (query : LeaseQuery) (now : DateTime) (row : PoolJobRow)
    {requirements : JsonValue}
    (h : ∀ name, Sql.field requirements name = Sql.field row.requirements name) :
    ({ row with requirements := requirements } : PoolJobRow).leaseClause query now =
      row.leaseClause query now := by
  have hvram : minVram requirements = minVram row.requirements := by
    rw [minVram, minVram, Sql.fieldText, Sql.fieldText, h]
  have hlist (name : String) : listAt requirements name = listAt row.requirements name := by
    rw [listAt, listAt, h]
  have hgpu : gpuClause query requirements = gpuClause query row.requirements := by
    rw [gpuClause, gpuClause, hlist, h]
  have hworker : workerClause query requirements = workerClause query row.requirements := by
    rw [workerClause, workerClause, hlist, h]
  rw [leaseClause, leaseClause, hvram, hlist, hgpu, hworker, h]
  rfl

omit [Sql.JsonbText] in
theorem isCandidate_kept (query : LeaseQuery) (now : DateTime) (r : JobRecord) :
    isCandidate query now r.kept = isCandidate query now r := by
  have hversions : (r.kept.requirements.runtimeVersions.rows.all fun row =>
      query.runtimeVersions.lookup row.1 = some row.2) =
      r.requirements.runtimeVersions.rows.all fun row =>
        query.runtimeVersions.lookup row.1 = some row.2 :=
    (Jsonb.sortNames_perm _).all_eq
  rw [isCandidate, isCandidate, satisfiesRequirements, satisfiesRequirements, hversions]
  rfl

theorem leaseClause_kept (query : LeaseQuery) (now : DateTime) (r : JobRecord) :
    Sql.isTrue ((kept r).leaseClause query now) = isCandidate query now r := by
  rw [kept, leaseClause_congr query now (ofRecord r.kept) r.requirements.field_stored_asPayload,
    leaseClause_ofRecord, isCandidate_kept]

end Clauses

/-- The clause of a replay holds when the fields are equal, of which the payload may be in another
order and may not have `true` for `1`. -/
theorem sameRequest_kept (r : JobRecord) (submission : JobSubmission) [FloatRepr] (now : DateTime) :
    Sql.isTrue ((kept r).sameRequest (kept (.ofSubmission submission now))) ↔
      r.replays submission ∧ Jsonb.same r.payload.value submission.payload.value := by
  have hpayload : Jsonb.same r.payload.stored.value submission.payload.stored.value =
      Jsonb.same r.payload.value submission.payload.value :=
    Jsonb.same_stored r.payload.wellFormed submission.payload.wellFormed
  have hrequirements : Jsonb.same (Jsonb.stored r.requirements.asPayload)
      (Jsonb.stored submission.requirements.asPayload) =
        r.requirements.pyEq submission.requirements := by
    rw [Jsonb.same_stored r.requirements.wellFormed_asPayload
      submission.requirements.wellFormed_asPayload, JobRequirements.same_asPayload]
  have hkeys : Jsonb.same (textsValue r.inputKeys) (textsValue submission.inputKeys) =
      decide (r.inputKeys = submission.inputKeys) := Jsonb.same_texts _ _
  rw [sameRequest]
  simp only [Sql.isTrue_and3, Sql.isTrue_compare, Sql.isTrue_some, Sql.isTrue_isNotDistinctFrom,
    Option.any_some, Bool.and_eq_true, decide_eq_true_eq, kept, ofRecord, JobRecord.kept,
    JobRecord.ofSubmission, hpayload, hrequirements, hkeys, JobRecord.replays]
  have hpy : Jsonb.same r.payload.value submission.payload.value →
      r.payload.value.pyEq submission.payload.value := Jsonb.pyEq_of_same
  tauto

theorem isTrue_underToken_kept (jobId claimToken : String) (r : JobRecord) :
    Sql.isTrue ((kept r).underToken jobId claimToken) =
      (decide (r.jobId = jobId) && (decide (r.status = .processing) &&
        decide (r.claimToken = some claimToken))) := by
  rw [underToken, Sql.isTrue_and3, Sql.isTrue_and3, Sql.isTrue_compare, Sql.isTrue_compare,
    Sql.isTrue_compare, Bool.eq_iff_iff]
  simp only [kept, ofRecord, JobRecord.kept, Option.any_some, Bool.and_eq_true, decide_eq_true_eq,
    text_eq_processing]
  cases r.claimToken <;> simp

theorem isTrue_active_kept (r : JobRecord) :
    Sql.isTrue (kept r).active = decide (r.status = .queued ∨ r.status = .processing) := by
  rw [active, Sql.isTrue_isIn, Option.any_some]
  simp [kept, ofRecord, JobRecord.kept]

theorem isTrue_exhausted_kept (now : DateTime) (r : JobRecord) :
    Sql.isTrue (exhausted now (kept r)) = r.isExhausted now := by
  rw [exhausted, Sql.isTrue_and3, Sql.isTrue_and3, Sql.isTrue_compare, Sql.isTrue_compare,
    Sql.isTrue_compare, JobRecord.isExhausted, Bool.eq_iff_iff]
  simp only [kept, ofRecord, JobRecord.kept, Option.any_some, Bool.and_eq_true, decide_eq_true_eq,
    text_eq_processing, and_assoc]

end PoolJobRow

/-- The same jobs in Postgres. -/
def MemoryJobStore.keptJobs (s : MemoryJobStore) : PoolJobs :=
  s.image PoolJobRow.kept fun _ => rfl

end GpuWorkerPool
