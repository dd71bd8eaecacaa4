import GpuWorkerPool.Base.Lockstep
import GpuWorkerPool.PostgresJobs
import GpuWorkerPool.RegistryRefinement

/-!
The two worker registries side by side, run from empty on the same operations. One identity belongs
to one worker in every state that a run reaches, so that a heartbeat always ends alike, and the
reads and the status changes look rows up in the same way. Hence no answers tell the registries
apart as long as the columns hold the arguments, up to the collation in which a list is sorted.
-/

namespace GpuWorkerPool

open Base

/-! ### The operations of the Postgres registry -/

/-- The collation of the database. -/
class Collation where
  le : String → String → Prop
  decide : DecidableRel le
  total : ∀ a b, le a b ∨ le b a
  trans : ∀ {a b c}, le a b → le b c → le a c
  antisymm : ∀ {a b}, le a b → le b a → a = b

instance [Collation] : DecidableRel Collation.le := Collation.decide

/-- `ORDER BY worker_id` -/
def WorkerRecord.listOrder [Collation] (w v : WorkerRecord) : Prop :=
  Collation.le w.workerId v.workerId

instance [Collation] : DecidableRel WorkerRecord.listOrder := fun w v =>
  Collation.decide w.workerId v.workerId

namespace PoolWorkerRow

/-- The `SET` clause of `set_status`. -/
def withStatus (now : DateTime) (status : String) (row : PoolWorkerRow) : PoolWorkerRow :=
  { row with
    status := status, revokedAt := if status = "revoked" then some now else row.revokedAt,
    updatedAt := now }

theorem withStatus_workerId (now : DateTime) (status : String) (row : PoolWorkerRow) :
    (withStatus now status row).workerId = row.workerId := rfl

end PoolWorkerRow

namespace PoolWorkers

/-- A row that `fetchrow` returned. -/
def fetched : Option PoolWorkerRow → Except PostgresExc (Option WorkerRecord)
  | some row => (recordOf row).map some
  | none => .ok none

def get (t : PoolWorkers) (workerId : String) : Except PostgresExc (Option WorkerRecord) := do
  let workerId ← textColumn workerId
  fetched (t.get? workerId)

def findByIdentitySubject (t : PoolWorkers) (subject : String) :
    Except PostgresExc (Option WorkerRecord) := do
  let subject ← textColumn subject
  fetched (t.rows.find? fun row =>
    Sql.isTrue (Sql.compare (fun a b => a = b) (some row.identitySubject) (some subject)))

def setStatus (t : PoolWorkers) (now : DateTime) (workerId : String) (status : WorkerStatus) :
    PoolWorkers × Except PostgresExc Bool :=
  PoolOwner.execute t (textColumn workerId) fun workerId =>
    Sql.update t
      (fun row => Sql.compare (fun a b => a = b) (some row.workerId) (some workerId))
      (PoolWorkerRow.withStatus now status.text) (PoolWorkerRow.withStatus_workerId now status.text)

variable [Collation]

/-- `ORDER BY worker_id` -/
def ordered (rows : List PoolWorkerRow) : List PoolWorkerRow :=
  rows.insertionSort fun row other => Collation.le row.workerId other.workerId

def list (t : PoolWorkers) : Except PostgresExc (List WorkerRecord) :=
  (ordered t.rows).mapM recordOf

def listByTenant (t : PoolWorkers) (tenantId : Option String) :
    Except PostgresExc (List WorkerRecord) := do
  let tenantId ← nullable textColumn tenantId
  (ordered (t.rows.filter fun row =>
    Sql.isTrue (Sql.isNotDistinctFrom row.tenantId tenantId))).mapM recordOf

end PoolWorkers

/-- A call on a worker registry at its instant. -/
structure RegistryOp where
  now : DateTime
  call : RegistryCall

/-- What a call on the Postgres registry returns unless it raises. -/
def RegistryCall.Value : RegistryCall → Type
  | upsert .. => WorkerRecord
  | get _ => Option WorkerRecord
  | findByIdentitySubject _ => Option WorkerRecord
  | list => List WorkerRecord
  | listByTenant _ => List WorkerRecord
  | setStatus .. => Bool

def PoolWorkers.exec [UuidColumn] [Collation] (now : DateTime) (t : PoolWorkers) :
    (call : RegistryCall) → PoolWorkers × Except PostgresExc call.Value
  | .upsert registration identitySubject => t.upsert now registration identitySubject
  | .get workerId => (t, t.get workerId)
  | .findByIdentitySubject subject => (t, t.findByIdentitySubject subject)
  | .list => (t, t.list)
  | .listByTenant tenantId => (t, t.listByTenant tenantId)
  | .setStatus workerId status => t.setStatus now workerId status

/-- The columns hold the arguments of the operation as they are. -/
def RegistryOp.Fits (op : RegistryOp) : Prop :=
  match op.call with
  | .upsert registration identitySubject => FitsColumns registration identitySubject
  | .get workerId => Jsonb.textFits workerId
  | .findByIdentitySubject subject => Jsonb.textFits subject
  | .list => True
  | .listByTenant tenantId => ∀ tenant, tenantId = some tenant → Jsonb.textFits tenant
  | .setStatus workerId _ => Jsonb.textFits workerId

/-- The answer of the memory registry beside that of the Postgres registry. -/
def RegistryCall.AnsweredAlike [Collation] :
    (call : RegistryCall) → call.Reply → Except PostgresExc call.Value → Prop
  | .upsert .., (.ok record : Except Exc WorkerRecord), answer =>
      ∃ back : WorkerRecord, answer = .ok back ∧ back.Same record
  | .upsert .., .error error, answer => answer = .error (.domain error)
  | .get _, reply, answer =>
      ∃ back, answer = .ok back ∧ Option.Rel WorkerRecord.Same back reply
  | .findByIdentitySubject _, reply, answer =>
      ∃ back, answer = .ok back ∧ Option.Rel WorkerRecord.Same back reply
  | .list, reply, answer =>
      ∃ back, answer = .ok back ∧ List.Forall₂ WorkerRecord.Same back
        (List.insertionSort WorkerRecord.listOrder reply)
  | .listByTenant _, reply, answer =>
      ∃ back, answer = .ok back ∧ List.Forall₂ WorkerRecord.Same back
        (List.insertionSort WorkerRecord.listOrder reply)
  | .setStatus .., reply, answer => answer = .ok reply

/-! ### One identity, one worker -/

namespace MemoryWorkerRegistry

/-- No two workers are registered under one identity. -/
def OneOwner (s : MemoryWorkerRegistry) : Prop :=
  ∀ w ∈ s.rows, ∀ v ∈ s.rows, w.identitySubject = v.identitySubject → w.workerId = v.workerId

variable {s : MemoryWorkerRegistry}

theorem OneOwner.nodup (h : s.OneOwner) : (s.rows.map WorkerRecord.identitySubject).Nodup := by
  apply List.Nodup.map_on
  · intro w hw v hv hsame
    exact List.inj_on_of_nodup_map s.keys_nodup hw hv (h w hw v hv hsame)
  · exact s.keys_nodup.of_map

/-- A worker that is written under an identity of its own, or of the worker it replaces. -/
theorem OneOwner.put (h : s.OneOwner) {w : WorkerRecord}
    (hfree : ∀ v ∈ s.rows, v.identitySubject = w.identitySubject → v.workerId = w.workerId) :
    OneOwner (s.put w) := by
  intro v hv u hu hsame
  rcases Table.mem_put.mp hv with rfl | ⟨hvold, -⟩ <;>
    rcases Table.mem_put.mp hu with rfl | ⟨huold, -⟩
  · rfl
  · exact (hfree u huold hsame.symm).symm
  · exact hfree v hvold hsame
  · exact h v hvold u huold hsame

theorem OneOwner.exec (h : s.OneOwner) (op : RegistryOp) : OneOwner (op.call.exec op.now s).1 := by
  obtain ⟨now, call⟩ := op
  cases call with
  | upsert registration identitySubject =>
      rcases RegistryCall.upsert_cases s now registration identitySubject with
        ⟨error, hrefused⟩ | ⟨-, -, hfree, hwrote⟩
      · show OneOwner (s.upsert now registration identitySubject).1
        rw [hrefused]
        exact h
      · show OneOwner (s.upsert now registration identitySubject).1
        rw [hwrote]
        exact h.put hfree
  | get _ | findByIdentitySubject _ | list | listByTenant _ => exact h
  | setStatus workerId status =>
      show OneOwner (setStatus s now workerId status).1
      rw [setStatus]
      cases hget : s.get? workerId with
      | none => exact h
      | some w => exact h.put fun v hv => h v hv w (Table.mem_of_get? hget)

end MemoryWorkerRegistry

/-! ### Reads -/

section Rows

variable {s : MemoryWorkerRegistry}

/-- A lookup that finds the row of a worker reads it back. -/
theorem fetched_ofRecord (found : Option WorkerRecord) :
    ∃ back, PoolWorkers.fetched (found.map PoolWorkerRow.ofRecord) = .ok back ∧
      Option.Rel WorkerRecord.Same back found := by
  cases found with
  | none => exact ⟨none, rfl, .none⟩
  | some w =>
      refine ⟨some _, ?_, .some (same_stored w)⟩
      rw [Option.map_some, PoolWorkers.fetched, recordOf_ofRecord]
      rfl

theorem find?_poolWorkers (subject : String) :
    (s.poolWorkers.rows.find? fun row =>
      Sql.isTrue (Sql.compare (fun a b => a = b) (some row.identitySubject) (some subject))) =
      (s.findByIdentitySubject subject).map PoolWorkerRow.ofRecord := by
  show (s.rows.map PoolWorkerRow.ofRecord).find? _ = _
  rw [List.find?_map, MemoryWorkerRegistry.findByIdentitySubject]
  congr 2
  funext w
  rw [Function.comp_apply, Sql.isTrue_compare]
  rfl

theorem mapM_recordOf_ofRecord (rows : List WorkerRecord) :
    ∃ back, (rows.map PoolWorkerRow.ofRecord).mapM PoolWorkers.recordOf = .ok back ∧
      List.Forall₂ WorkerRecord.Same back rows := by
  induction rows with
  | nil => exact ⟨[], rfl, .nil⟩
  | cons w rest ih =>
      obtain ⟨back, hback, hsame⟩ := ih
      refine ⟨_, ?_, .cons (same_stored w) hsame⟩
      rw [List.map_cons, List.mapM_cons, recordOf_ofRecord, hback]
      rfl

variable [Collation]

/-- Rows with distinct ids have one order only. -/
theorem ordered_ofRecord {rows sorted : List WorkerRecord}
    (hids : (rows.map WorkerRecord.workerId).Nodup) (hperm : sorted.Perm rows) :
    PoolWorkers.ordered (rows.map PoolWorkerRow.ofRecord) =
      (sorted.insertionSort WorkerRecord.listOrder).map PoolWorkerRow.ofRecord := by
  have htotal : Std.Total WorkerRecord.listOrder :=
    ⟨fun w v => Collation.total w.workerId v.workerId⟩
  have htrans : IsTrans WorkerRecord WorkerRecord.listOrder := ⟨fun _ _ _ => Collation.trans⟩
  have hsort : rows.insertionSort WorkerRecord.listOrder =
      sorted.insertionSort WorkerRecord.listOrder := by
    apply List.Perm.eq_of_pairwise ?_ (List.pairwise_insertionSort _ rows)
      (List.pairwise_insertionSort _ sorted)
    · exact ((List.perm_insertionSort _ rows).trans hperm.symm).trans
        (List.perm_insertionSort _ sorted).symm
    · intro w v hw hv hwv hvw
      have hwrow := (List.perm_insertionSort _ rows).mem_iff.mp hw
      have hvrow := hperm.mem_iff.mp ((List.perm_insertionSort _ sorted).mem_iff.mp hv)
      exact List.inj_on_of_nodup_map hids hwrow hvrow (Collation.antisymm hwv hvw)
  calc PoolWorkers.ordered (rows.map PoolWorkerRow.ofRecord)
      = (rows.insertionSort WorkerRecord.listOrder).map PoolWorkerRow.ofRecord :=
        (List.map_insertionSort _ _ PoolWorkerRow.ofRecord rows fun _ _ _ _ => Iff.rfl).symm
    _ = (sorted.insertionSort WorkerRecord.listOrder).map PoolWorkerRow.ofRecord := by rw [hsort]

theorem list_poolWorkers : ∃ back, s.poolWorkers.list = .ok back ∧
    List.Forall₂ WorkerRecord.Same back
      (s.list.insertionSort WorkerRecord.listOrder) := by
  have hperm : s.list.Perm s.rows := List.perm_insertionSort _ s.rows
  rw [PoolWorkers.list]
  show ∃ back, (PoolWorkers.ordered (s.rows.map PoolWorkerRow.ofRecord)).mapM _ = _ ∧ _
  rw [ordered_ofRecord s.keys_nodup hperm]
  exact mapM_recordOf_ofRecord _

theorem listByTenant_poolWorkers {tenantId : Option String}
    (hfits : ∀ tenant, tenantId = some tenant → Jsonb.textFits tenant) :
    ∃ back, s.poolWorkers.listByTenant tenantId = .ok back ∧
      List.Forall₂ WorkerRecord.Same back
        ((s.listByTenant tenantId).insertionSort WorkerRecord.listOrder) := by
  have hrows : (s.poolWorkers.rows.filter fun row =>
      Sql.isTrue (Sql.isNotDistinctFrom row.tenantId tenantId)) =
      (s.rows.filter fun w => w.tenantId = tenantId).map PoolWorkerRow.ofRecord := by
    show (s.rows.map PoolWorkerRow.ofRecord).filter _ = _
    rw [List.filter_map]
    congr 1
    apply List.filter_congr
    intro w _
    exact Sql.isTrue_isNotDistinctFrom w.tenantId tenantId
  have hperm : (s.listByTenant tenantId).Perm (s.rows.filter fun w => w.tenantId = tenantId) :=
    (List.perm_insertionSort _ s.rows).filter _
  have hids : ((s.rows.filter fun w => w.tenantId = tenantId).map WorkerRecord.workerId).Nodup :=
    (List.filter_sublist.map WorkerRecord.workerId).nodup s.keys_nodup
  rw [PoolWorkers.listByTenant,
    nullable_eq fun tenant htenant => textColumn_eq (hfits tenant htenant)]
  dsimp only [bind, Except.bind]
  rw [hrows, ordered_ofRecord hids hperm]
  exact mapM_recordOf_ofRecord _

end Rows

/-! ### One step -/

section Step

variable {s : MemoryWorkerRegistry}

theorem withStatus_ofRecord (w : WorkerRecord) (now : DateTime) (status : WorkerStatus) :
    (PoolWorkerRow.ofRecord w).withStatus now status.text = PoolWorkerRow.ofRecord { w with
      status := status, updatedAt := now,
      revokedAt := if status = .revoked then some now else w.revokedAt } := by
  simp only [PoolWorkerRow.withStatus, PoolWorkerRow.ofRecord, status.text_eq_revoked]

theorem setStatus_poolWorkers {workerId : String} (hfits : Jsonb.textFits workerId)
    (now : DateTime) (status : WorkerStatus) :
    s.poolWorkers.setStatus now workerId status =
      ((s.setStatus now workerId status).1.poolWorkers,
        .ok (s.setStatus now workerId status).2) := by
  have hclause (row : PoolWorkerRow) : Sql.isTrue (Sql.compare (fun a b => decide (a = b))
      (some row.workerId) (some workerId)) = decide (row.workerId = workerId) := by
    rw [Sql.isTrue_compare]
    rfl
  have hasked (row : PoolWorkerRow) (h : Sql.isTrue (Sql.compare (fun a b => decide (a = b))
      (some row.workerId) (some workerId))) : row.workerId = workerId :=
    of_decide_eq_true ((hclause row).symm.trans h)
  have hupdate := Sql.update_one s.poolWorkers (PoolWorkerRow.withStatus now status.text)
    (PoolWorkerRow.withStatus_workerId now status.text) hasked
  rw [PoolWorkers.setStatus, textColumn_eq hfits, MemoryWorkerRegistry.setStatus]
  rw [MemoryWorkerRegistry.get?_poolWorkers] at hupdate
  cases hget : s.get? workerId with
  | none =>
      rw [hget] at hupdate
      simp only [PoolOwner.execute, hupdate]
      rfl
  | some w =>
      have hid : w.workerId = workerId := Table.key_eq_of_get? hget
      have hrow : decide ((PoolWorkerRow.ofRecord w).workerId = workerId) = true :=
        decide_eq_true hid
      rw [hget, Option.map_some, Option.filter_some, hclause, if_pos hrow] at hupdate
      simp only [PoolOwner.execute, hupdate, withStatus_ofRecord]
      rw [← MemoryWorkerRegistry.poolWorkers_put]
      rfl

variable [UuidColumn] [Collation] {op : RegistryOp}

theorem exec_poolWorkers (howner : s.OneOwner) (hfits : op.Fits) :
    (s.poolWorkers.exec op.now op.call).1 = (op.call.exec op.now s).1.poolWorkers ∧
      op.call.AnsweredAlike (op.call.exec op.now s).2 (s.poolWorkers.exec op.now op.call).2 := by
  obtain ⟨now, call⟩ := op
  cases call with
  | upsert registration identitySubject =>
      have hend : EndAlike s now registration identitySubject
          (s.upsert now registration identitySubject)
          (s.poolWorkers.upsert now registration identitySubject) := by
        cases hget : s.get? registration.workerId with
        | none => exact agree_new hget hfits
        | some w => exact agree_known hget howner.nodup hfits
      show (s.poolWorkers.upsert now registration identitySubject).1 =
          (s.upsert now registration identitySubject).1.poolWorkers ∧
        RegistryCall.AnsweredAlike (.upsert registration identitySubject)
          (s.upsert now registration identitySubject).2
          (s.poolWorkers.upsert now registration identitySubject).2
      generalize s.upsert now registration identitySubject = memory at hend
      generalize s.poolWorkers.upsert now registration identitySubject = postgres at hend
      cases hend with
      | raised error conflict => exact ⟨rfl, rfl⟩
      | wrote s' row back replaced retained here others same => exact ⟨rfl, back, rfl, same⟩
  | get workerId =>
      have hfetched := fetched_ofRecord (s.get? workerId)
      rw [← MemoryWorkerRegistry.get?_poolWorkers] at hfetched
      refine ⟨rfl, ?_⟩
      show ∃ back, s.poolWorkers.get workerId = .ok back ∧ _
      rw [PoolWorkers.get, textColumn_eq hfits]
      exact hfetched
  | findByIdentitySubject subject =>
      have hfetched := fetched_ofRecord (s.findByIdentitySubject subject)
      rw [← find?_poolWorkers] at hfetched
      refine ⟨rfl, ?_⟩
      show ∃ back, s.poolWorkers.findByIdentitySubject subject = .ok back ∧ _
      rw [PoolWorkers.findByIdentitySubject, textColumn_eq hfits]
      exact hfetched
  | list => exact ⟨rfl, list_poolWorkers⟩
  | listByTenant tenantId => exact ⟨rfl, listByTenant_poolWorkers hfits⟩
  | setStatus workerId status =>
      have hset := setStatus_poolWorkers (s := s) hfits now status
      exact ⟨congrArg Prod.fst hset, congrArg Prod.snd hset⟩

end Step

/-! ### Whole runs -/

section Runs

/-- The memory registry as an automaton. -/
def memoryRegistry : Automaton RegistryOp fun op => op.call.Reply where
  State := MemoryWorkerRegistry
  step s op := op.call.exec op.now s

variable [UuidColumn] [Collation]

/-- The Postgres registry as an automaton. -/
def postgresRegistry : Automaton RegistryOp fun op => Except PostgresExc op.call.Value where
  State := PoolWorkers
  step t op := t.exec op.now op.call

/-- A client cannot tell the registries apart, they hold the same workers, and no two workers share
an identity. -/
theorem worker_registries_agree {run : List RegistryOp} (hfits : ∀ op ∈ run, op.Fits) :
    Automaton.AnswersAlike memoryRegistry postgresRegistry (fun op => op.call.AnsweredAlike)
        Table.empty Table.empty run ∧
      postgresRegistry.after Table.empty run =
        (memoryRegistry.after Table.empty run).poolWorkers ∧
      MemoryWorkerRegistry.OneOwner (memoryRegistry.after Table.empty run) := by
  have hempty : MemoryWorkerRegistry.OneOwner Table.empty ∧
      (Table.empty : PoolWorkers) = MemoryWorkerRegistry.poolWorkers Table.empty :=
    ⟨fun w hw => absurd hw List.not_mem_nil, rfl⟩
  have hstep : ∀ (s : MemoryWorkerRegistry) (t : PoolWorkers), ∀ op ∈ run,
      (s.OneOwner ∧ t = s.poolWorkers) → True →
        MemoryWorkerRegistry.OneOwner (op.call.exec op.now s).1 ∧
          (t.exec op.now op.call).1 = (op.call.exec op.now s).1.poolWorkers := by
    intro s t op hop hrelated _
    obtain ⟨howner, rfl⟩ := hrelated
    exact ⟨howner.exec op, (exec_poolWorkers howner (hfits op hop)).1⟩
  have hanswers : ∀ (s : MemoryWorkerRegistry) (t : PoolWorkers), ∀ op ∈ run,
      (s.OneOwner ∧ t = s.poolWorkers) →
        (op.call.AnsweredAlike (op.call.exec op.now s).2 (t.exec op.now op.call).2 ↔ True) := by
    intro s t op hop hrelated
    obtain ⟨howner, rfl⟩ := hrelated
    exact iff_true_intro (exec_poolWorkers howner (hfits op hop)).2
  have halways : memoryRegistry.EachStep (fun _ _ => True) Table.empty run :=
    Automaton.eachStep_of_forall (M := memoryRegistry) (fun _ _ _ => trivial) _
  obtain ⟨howner, hsame⟩ :=
    Automaton.related_after (M := memoryRegistry) (N := postgresRegistry) hstep hempty halways
  refine ⟨?_, hsame, howner⟩
  exact (Automaton.answersAlike_iff (M := memoryRegistry) (N := postgresRegistry) hanswers hstep
    hempty).mpr halways

end Runs

/-- The collation `C`. -/
@[reducible] def Collation.codePoints : Collation where
  le a b := a ≤ b
  decide := inferInstance
  total := le_total
  trans := le_trans
  antisymm := le_antisymm

/-- A worker that registers, is revoked and is listed. -/
def registryRun : List RegistryOp :=
  [⟨0, .upsert busyWorker "subject"⟩, ⟨1, .setStatus "gpu-1" .revoked⟩, ⟨2, .list⟩]

theorem worker_registries_agree_on_revoked :
    letI := canonicalUuids
    letI := Collation.codePoints
    Automaton.AnswersAlike memoryRegistry postgresRegistry (fun op => op.call.AnsweredAlike)
        Table.empty Table.empty registryRun ∧
      postgresRegistry.after Table.empty registryRun =
        (memoryRegistry.after Table.empty registryRun).poolWorkers ∧
      MemoryWorkerRegistry.OneOwner (memoryRegistry.after Table.empty registryRun) := by
  have hfits : ∀ op ∈ registryRun, op.Fits := by
    intro op hop
    simp only [registryRun, List.mem_cons, List.not_mem_nil, or_false] at hop
    rcases hop with rfl | rfl | rfl
    · refine ⟨by decide, by decide, by decide, ?_⟩
      intro jobId hjobId
      obtain rfl := Option.some.inj hjobId
      decide
    · show Jsonb.textFits "gpu-1"
      decide
    · exact trivial
  exact @worker_registries_agree canonicalUuids Collation.codePoints registryRun hfits

end GpuWorkerPool
