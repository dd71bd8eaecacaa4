import GpuWorkerPool.LeaseFailure
import GpuWorkerPool.Routes
import Mathlib.Algebra.Order.BigOperators.Group.List

/-!
What the pool views say of workers, against the history of the calls that were made. The time of the
last heartbeat in a row is written by heartbeats and by the first enrollment alike, and the
capabilities of a row are a list, so the views tell the truth exactly when no worker is enrolled
within the visibility window and not yet heard from, and no worker online lists a capability twice.
The stores of this pool and its audit log are in the process, so the calls are made one after the
other.
-/

namespace GpuWorkerPool

open Base WorkerPoolService

/-- `enroll_worker`, `register_heartbeat` and `set_worker_status` -/
def Request.onRegistry : Request → Prop
  | enrollWorker .. => True
  | registerHeartbeat .. => True
  | setWorkerStatus .. => True
  | _ => False

/-- Such a call, with what the clock of the registry reads when it is made. -/
structure TimedCall where
  request : Request
  now : DateTime
  onRegistry : request.onRegistry

structure AnsweredCall where
  call : TimedCall
  answer : Except Exc Response

/-! ### What the calls say of a worker, from the latest call back -/

/-- The heartbeat that the call was for the worker, when it succeeded. -/
def AnsweredCall.heartbeat? (a : AnsweredCall) (id : String) :
    Option (DateTime × WorkerRegistration) :=
  match a.call.request, a.answer with
  | .registerHeartbeat _ registration, .ok _ =>
      if registration.workerId = id then some (a.call.now, registration) else none
  | _, _ => none

/-- The time of the call when it enrolled the worker, or found it enrolled. -/
def AnsweredCall.enrolled? (a : AnsweredCall) (id : String) : Option DateTime :=
  match a.call.request, a.answer with
  | .enrollWorker workerId _, .ok _ => if workerId = id then some a.call.now else none
  | _, _ => none

def latestHeartbeat (history : List AnsweredCall) (id : String) :
    Option (DateTime × WorkerRegistration) :=
  history.findSome? (·.heartbeat? id)

def firstEnrolled (history : List AnsweredCall) (id : String) : Option DateTime :=
  history.reverse.findSome? (·.enrolled? id)

section Calls

variable [PyText]

def serveCall (cfg : ServiceConfig) (w : World) (call : TimedCall) : World × Except Exc Response :=
  (call.request.program cfg).run Action.exec { w with now := call.now }

/-- The pool after some calls, the latest first, and the calls with their answers. -/
def serveCalls (cfg : ServiceConfig) (w : World) : List TimedCall → World × List AnsweredCall
  | [] => (w, [])
  | call :: earlier =>
      let before := serveCalls cfg w earlier
      let out := serveCall cfg before.1 call
      (out.1, ⟨call, out.2⟩ :: before.2)

/-- A pool without workers, whose audit log is in the process. -/
def World.withoutWorkers (w : World) : World :=
  { w with registry := Table.empty, auditOutage := fun _ => false }

theorem run_upsert {α : Type} (registration : WorkerRegistration) (identitySubject : String)
    (f : Except Exc WorkerRecord → Coroutine α) (w : World) :
    (workerRegistry (.upsert registration identitySubject) >>= f).run Action.exec w =
      (f (w.registry.upsert w.now registration identitySubject).2).run Action.exec
        { w with registry := (w.registry.upsert w.now registration identitySubject).1 } := rfl

theorem run_recordAudit {eventType : AuditEventType} {workerId jobId : Option String}
    {detail : List (String × JsonValue)} {w : World} (h : w.auditOutage eventType = false) :
    (recordAudit eventType workerId jobId detail).run Action.exec w =
      ({ w with auditLog := w.auditLog ++ [⟨eventType, workerId, jobId, detail, w.now⟩] },
        .ok ()) := by
  have hrun : (recordAudit eventType workerId jobId detail).run Action.exec w =
      Action.exec (.audit eventType workerId jobId detail) w := Prog.run_ofExcept Action.exec _ _
  rw [hrun, Action.exec, h]
  rfl

/-- A heartbeat raises and writes nothing, or it writes the row of its worker. -/
theorem run_registerHeartbeat (cfg : ServiceConfig) (identity : WorkerIdentity)
    (registration : WorkerRegistration) {w : World}
    (haudit : w.auditOutage .workerHeartbeat = false) :
    let out := (registerHeartbeat cfg identity registration).run Action.exec w
    let row := MemoryWorkerRegistry.upsertRecord (w.registry.get? registration.workerId) w.now
      registration identity.subject
    (∃ error, out.2 = .error error ∧ out.1.registry = w.registry) ∨
      out.2 = .ok row ∧ out.1.registry = w.registry.put row ∧
        validEnrollmentTenant registration.tenantId := by
  intro out row
  have hawaits : (approvedEnrollment cfg identity).Awaits Reads :=
    awaits_approvedEnrollment cfg fun _ => rfl
  have hreads := run_of_reads hawaits w
  have hout : out = (registerHeartbeat cfg identity registration).run Action.exec w := rfl
  rw [registerHeartbeat] at hout
  split_ifs at hout
  · exact Or.inl ⟨_, by rw [hout]; rfl, by rw [hout]; rfl⟩
  rw [Prog.run_bind] at hout
  generalize (approvedEnrollment cfg identity).run Action.exec w = result at hreads hout
  obtain ⟨v, res⟩ := result
  obtain rfl : v = w := hreads
  cases res with
  | error error => exact Or.inl ⟨error, by rw [hout], by rw [hout]⟩
  | ok enrollment =>
      simp only at hout
      split_ifs at hout with htenant
      · exact Or.inl ⟨_, by rw [hout]; rfl, by rw [hout]; rfl⟩
      rw [ne_eq, not_not] at htenant
      rw [Prog.run_bind, Prog.run_ofExcept] at hout
      cases hids : requireAll validateCapabilityId
          (registration.capabilities.map WorkerCapability.capabilityId) with
      | error error =>
          rw [hids] at hout
          exact Or.inl ⟨error, by rw [hout], by rw [hout]⟩
      | ok _ =>
          rw [hids] at hout
          simp only at hout
          cases hreason : unqualifiedReason cfg.unqualified
              (registration.capabilities.map WorkerCapability.capabilityId)
              registration.runtimeVersions with
          | some reason =>
              rw [hreason] at hout
              exact Or.inl ⟨_, by rw [hout]; rfl, by rw [hout]; rfl⟩
          | none =>
              rw [hreason, ← htenant] at hout
              simp only at hout
              replace hout := hout.trans (run_upsert _ _ _ v)
              rcases RegistryCall.upsert_cases v.registry v.now registration identity.subject with
                ⟨error, hrefused⟩ | ⟨-, -, -, hwritten⟩
              · rw [hrefused] at hout
                exact Or.inl ⟨_, by rw [hout]; rfl, by rw [hout]; rfl⟩
              · rw [hwritten] at hout
                simp only [Except.mapError, Prog.ofExcept, Prog.ret_bind] at hout
                rw [Prog.run_bind, run_recordAudit (by exact haudit)] at hout
                exact Or.inr ⟨by rw [hout]; rfl, by rw [hout]; rfl, htenant ▸ enrollment.tenant_valid⟩

/-- An enrollment writes a row for a new worker only. -/
theorem run_enrollWorker (workerId : String) (enrollment : WorkerEnrollment) (w : World) :
    let out := (enrollWorker workerId enrollment).run Action.exec w
    (out.1.registry = w.registry ∧
      ((∃ error, out.2 = .error error) ∨ (w.registry.get? workerId).isSome)) ∨
      ∃ record, out.2 = .ok record ∧ w.registry.get? workerId = none ∧
        out.1.registry = w.registry.put (MemoryWorkerRegistry.upsertRecord none w.now
          { workerId := workerId, capabilities := [], tenantId := enrollment.tenantId }
          enrollment.identitySubject) := by
  intro out
  have hout : out = (enrollWorker workerId enrollment).run Action.exec w := rfl
  rw [enrollWorker, Prog.run_bind, Prog.run_ofExcept] at hout
  cases hvalid : validateEnrollment workerId with
  | error error =>
      rw [hvalid] at hout
      exact Or.inl ⟨by rw [hout], Or.inl ⟨error, by rw [hout]⟩⟩
  | ok _ =>
      rw [hvalid] at hout
      replace hout := hout.trans (run_getWorker workerId _ w)
      cases hrow : w.registry.get? workerId with
      | some existing =>
          rw [hrow] at hout
          refine Or.inl ⟨?_, Or.inr rfl⟩
          simp only at hout
          split_ifs at hout <;> rw [hout] <;> rfl
      | none =>
          rw [hrow] at hout
          replace hout := hout.trans (run_upsert _ _ _ w)
          rcases RegistryCall.upsert_cases w.registry w.now
              { workerId := workerId, capabilities := [], tenantId := enrollment.tenantId }
              enrollment.identitySubject with ⟨error, hrefused⟩ | ⟨-, -, -, hwritten⟩
          · rw [hrefused] at hout
            exact Or.inl ⟨by rw [hout]; rfl, Or.inl ⟨error, by rw [hout]; rfl⟩⟩
          · rw [hwritten] at hout
            simp only [hrow] at hout
            exact Or.inr ⟨_, by rw [hout]; rfl, rfl, by rw [hout]; rfl⟩

theorem run_setWorkerStatus (workerId : String) (status : WorkerStatus) {w : World}
    (haudit : w.auditOutage = fun _ => false) :
    ((setWorkerStatus workerId status).run Action.exec w).1.registry =
      (w.registry.setStatus w.now workerId status).1 := by
  have hset : (setWorkerStatus workerId status).run Action.exec w =
      (if (w.registry.setStatus w.now workerId status).2 then do
        recordAudit .workerStatusChanged workerId none [("status", .str status.text)]
        if status = .revoked then
          recordAudit .workerRevoked workerId none []
          pure true
        else pure true
      else pure false : Coroutine Bool).run Action.exec
        { w with registry := (w.registry.setStatus w.now workerId status).1 } := rfl
  rw [hset]
  split
  · rw [Prog.run_bind, run_recordAudit (by rw [haudit])]
    dsimp only
    split
    · rw [Prog.run_bind, run_recordAudit (by rw [haudit])]
      rfl
    · rfl
  · rfl

omit [PyText] in
theorem latestHeartbeat_cons (a : AnsweredCall) (history : List AnsweredCall) (id : String) :
    latestHeartbeat (a :: history) id = (a.heartbeat? id).or (latestHeartbeat history id) := by
  rw [latestHeartbeat, List.findSome?_cons]
  cases a.heartbeat? id <;> rfl

omit [PyText] in
theorem firstEnrolled_cons (a : AnsweredCall) (history : List AnsweredCall) (id : String) :
    firstEnrolled (a :: history) id = (firstEnrolled history id).or (a.enrolled? id) := by
  rw [firstEnrolled, List.reverse_cons, List.findSome?_append, List.findSome?_singleton,
    ← firstEnrolled]

/-- What the history says of a worker, and the row it has: none, that of its enrollment, or that of
its latest heartbeat. -/
inductive RowSeen : Option WorkerRecord → Option (DateTime × WorkerRegistration) →
    Option DateTime → Prop
  | absent : RowSeen none none none
  | enrolled {row : WorkerRecord} {instant : DateTime} (written : row.lastHeartbeatAt = some instant)
      (nothing : row.capabilities = []) : RowSeen (some row) none (some instant)
  | heard {row : WorkerRecord} {instant : DateTime} {registration : WorkerRegistration}
      {enrolled : Option DateTime} (written : row.lastHeartbeatAt = some instant)
      (listed : row.capabilities = registration.capabilities) :
      RowSeen (some row) (some (instant, registration)) enrolled

omit [PyText] in
/-- A later enrollment of a worker that has a row is not its first. -/
theorem RowSeen.enrolled_again {row : Option WorkerRecord}
    {heartbeat : Option (DateTime × WorkerRegistration)} {enrolled : Option DateTime}
    (h : RowSeen row heartbeat enrolled) (hrow : row.isSome) (again : Option DateTime) :
    RowSeen row heartbeat (enrolled.or again) := by
  cases h with
  | absent => exact absurd hrow (by simp)
  | enrolled written nothing => exact .enrolled written nothing
  | heard written listed => exact .heard written listed

omit [PyText] in
theorem RowSeen.statusSet {s : MemoryWorkerRegistry} {id : String}
    {heartbeat : Option (DateTime × WorkerRegistration)} {enrolled : Option DateTime}
    (h : RowSeen (s.get? id) heartbeat enrolled) (now : DateTime) (workerId : String)
    (status : WorkerStatus) :
    RowSeen ((s.setStatus now workerId status).1.get? id) heartbeat enrolled := by
  rw [MemoryWorkerRegistry.setStatus]
  cases hget : s.get? workerId with
  | none => exact h
  | some row =>
      have hkey : row.workerId = workerId := Table.key_eq_of_get? hget
      simp only [Table.get?_put, hkey]
      by_cases hid : workerId = id
      · subst hid
        rw [if_pos rfl]
        rw [hget] at h
        cases h with
        | enrolled written nothing => exact .enrolled written nothing
        | heard written listed => exact .heard written listed
      · rwa [if_neg hid]

theorem run_answer {α : Type} (p : Coroutine α) (f : α → Response) (w : World) :
    (p >>= fun value => pure (f value) : Coroutine Response).run Action.exec w =
      ((p.run Action.exec w).1, (p.run Action.exec w).2.map f) := by
  rw [Prog.run_bind]
  generalize p.run Action.exec w = result
  obtain ⟨v, res⟩ := result
  cases res <;> rfl

theorem RowSeen.heartbeat (cfg : ServiceConfig) {w : World} {history : List AnsweredCall}
    {id : String} (identity : WorkerIdentity) (registration : WorkerRegistration) (now : DateTime)
    (haudit : w.auditOutage = fun _ => false)
    (h : RowSeen (w.registry.get? id) (latestHeartbeat history id) (firstEnrolled history id)) :
    let call : TimedCall := ⟨.registerHeartbeat identity registration, now, trivial⟩
    let out := serveCall cfg w call
    RowSeen (out.1.registry.get? id) (latestHeartbeat (⟨call, out.2⟩ :: history) id)
      (firstEnrolled (⟨call, out.2⟩ :: history) id) := by
  intro call out
  have hrun := run_registerHeartbeat cfg identity registration (w := { w with now := now })
    (by rw [haudit])
  have hout : out = _ := run_answer (registerHeartbeat cfg identity registration) .worker
    { w with now := now }
  generalize (registerHeartbeat cfg identity registration).run Action.exec
    { w with now := now } = result at hrun hout
  obtain ⟨v, res⟩ := result
  rw [latestHeartbeat_cons, firstEnrolled_cons, hout]
  rcases hrun with ⟨error, rfl, hsame⟩ | ⟨rfl, hwritten, -⟩
  · replace hsame : v.registry = w.registry := hsame
    simp only [AnsweredCall.heartbeat?, AnsweredCall.enrolled?, Except.map, hsame, call,
      Option.none_or, Option.or_none]
    exact h
  · simp only [AnsweredCall.heartbeat?, AnsweredCall.enrolled?, Except.map, call, Option.or_none]
    dsimp only at hwritten
    rw [hwritten, Table.get?_put]
    by_cases hid : registration.workerId = id
    · rw [if_pos hid, if_pos (by exact hid), Option.some_or]
      exact .heard rfl rfl
    · rw [if_neg hid, if_neg (by exact hid), Option.none_or]
      exact h

theorem RowSeen.enroll (cfg : ServiceConfig) {w : World} {history : List AnsweredCall} {id : String}
    (workerId : String) (enrollment : WorkerEnrollment) (now : DateTime)
    (h : RowSeen (w.registry.get? id) (latestHeartbeat history id) (firstEnrolled history id)) :
    let call : TimedCall := ⟨.enrollWorker workerId enrollment, now, trivial⟩
    let out := serveCall cfg w call
    RowSeen (out.1.registry.get? id) (latestHeartbeat (⟨call, out.2⟩ :: history) id)
      (firstEnrolled (⟨call, out.2⟩ :: history) id) := by
  intro call out
  have hrun := run_enrollWorker workerId enrollment { w with now := now }
  have hout : out = _ := run_answer (enrollWorker workerId enrollment) .worker
    { w with now := now }
  generalize (enrollWorker workerId enrollment).run Action.exec { w with now := now } = result
    at hrun hout
  obtain ⟨v, res⟩ := result
  rw [latestHeartbeat_cons, firstEnrolled_cons, hout]
  rcases hrun with ⟨hsame, hkept⟩ | ⟨record, rfl, hnew, hwritten⟩
  · replace hsame : v.registry = w.registry := hsame
    simp only [AnsweredCall.heartbeat?, hsame, call, Option.none_or]
    rcases hkept with ⟨error, rfl⟩ | hrow
    · simp only [AnsweredCall.enrolled?, Except.map, Option.or_none]
      exact h
    · by_cases hid : workerId = id
      · subst hid
        exact h.enrolled_again hrow _
      · cases res <;> simp only [AnsweredCall.enrolled?, Except.map, if_neg hid, Option.or_none] <;>
          exact h
  · simp only [AnsweredCall.heartbeat?, AnsweredCall.enrolled?, Except.map, call, Option.none_or]
    dsimp only at hwritten hnew
    rw [hwritten, Table.get?_put]
    by_cases hid : workerId = id
    · subst hid
      rw [hnew] at h
      rw [if_pos rfl, if_pos (by rfl)]
      generalize latestHeartbeat history workerId = heartbeat at h
      generalize firstEnrolled history workerId = enrolled at h
      cases h
      exact .enrolled rfl rfl
    · rw [if_neg hid, if_neg (by exact hid), Option.or_none]
      exact h

/-- Each call leaves each worker the row that the history says. -/
theorem RowSeen.serveCall (cfg : ServiceConfig) {w : World} {call : TimedCall}
    {history : List AnsweredCall} {id : String} (haudit : w.auditOutage = fun _ => false)
    (h : RowSeen (w.registry.get? id) (latestHeartbeat history id) (firstEnrolled history id)) :
    let out := GpuWorkerPool.serveCall cfg w call
    RowSeen (out.1.registry.get? id) (latestHeartbeat (⟨call, out.2⟩ :: history) id)
      (firstEnrolled (⟨call, out.2⟩ :: history) id) := by
  obtain ⟨request, now, hcall⟩ := call
  cases request with
  | registerHeartbeat identity registration => exact h.heartbeat cfg identity registration now haudit
  | enrollWorker workerId enrollment => exact h.enroll cfg workerId enrollment now
  | setWorkerStatus workerId status =>
      intro out
      have hout : out = _ := run_answer (setWorkerStatus workerId status) .changed
        { w with now := now }
      have hset := run_setWorkerStatus workerId status (w := { w with now := now }) haudit
      rw [latestHeartbeat_cons, firstEnrolled_cons, hout]
      simp only [AnsweredCall.heartbeat?, AnsweredCall.enrolled?, hset, Option.none_or,
        Option.or_none]
      exact h.statusSet now workerId status
  | _ => exact absurd hcall (by simp [Request.onRegistry])

theorem exec_auditOutage (action : Action) (w : World) :
    (action.exec w).1.auditOutage = w.auditOutage := by
  cases action with
  | assets call =>
      rw [Action.exec]
      split <;> rfl
  | audit eventType workerId jobId detail =>
      rw [Action.exec]
      split <;> rfl
  | _ => rfl

theorem serveCall_auditOutage (cfg : ServiceConfig) (w : World) (call : TimedCall) :
    (serveCall cfg w call).1.auditOutage = w.auditOutage :=
  Prog.run_of_awaits (R := fun v w => w.auditOutage = v.auditOutage) Action.exec (fun _ => rfl)
    (fun h h' => h'.trans h) (fun action v _ => exec_auditOutage action v)
    (Prog.awaits_true (call.request.program cfg)) { w with now := call.now }

/-- After any run, every worker has the row that the history of the calls says. -/
theorem rowSeen_serveCalls (cfg : ServiceConfig) (w : World) (calls : List TimedCall)
    (id : String) :
    let out := serveCalls cfg w.withoutWorkers calls
    out.1.auditOutage = (fun _ => false) ∧
      RowSeen (out.1.registry.get? id) (latestHeartbeat out.2 id) (firstEnrolled out.2 id) := by
  induction calls with
  | nil => exact ⟨rfl, .absent⟩
  | cons call earlier ih =>
      obtain ⟨haudit, hseen⟩ := ih
      exact ⟨(serveCall_auditOutage cfg _ call).trans haudit, hseen.serveCall cfg haudit⟩

end Calls

/-! ### Rows that are shown and counted -/

/-- The row is that of a worker that is not revoked, and its last heartbeat is within the window. -/
def WorkerRecord.seenWithin (now : DateTime) (window : Int) (row : WorkerRecord) : Bool :=
  row.status ≠ .revoked && row.lastHeartbeatAt.any fun instant => heardWithin now instant window

theorem workerView?_cases (now : DateTime) (onlineWindow visibilityWindow : Int)
    (row : WorkerRecord) :
    (workerView? now onlineWindow visibilityWindow row = none ∧
        row.seenWithin now visibilityWindow = false) ∨
      ∃ view, workerView? now onlineWindow visibilityWindow row = some view ∧
        view.workerId = row.workerId ∧ row.seenWithin now visibilityWindow = true := by
  rw [workerView?, WorkerRecord.seenWithin]
  cases row.lastHeartbeatAt with
  | none => exact Or.inl ⟨rfl, by simp⟩
  | some instant =>
      by_cases hrevoked : row.status = .revoked
      · exact Or.inl ⟨by simp [hrevoked], by simp [hrevoked]⟩
      · cases hwithin : heardWithin now instant visibilityWindow with
        | false => exact Or.inl ⟨by simp [hwithin], by simp [hwithin]⟩
        | true => exact Or.inr ⟨_, if_neg (by simp [hrevoked, hwithin]), rfl, by simp [hrevoked, hwithin]⟩

/-- The views are those of the rows seen within the visibility window, in their order. -/
theorem viewIds_eq (now : DateTime) (onlineWindow visibilityWindow : Int)
    (rows : List WorkerRecord) :
    (rows.filterMap (workerView? now onlineWindow visibilityWindow)).map PoolWorkerView.workerId =
      (rows.filter (·.seenWithin now visibilityWindow)).map WorkerRecord.workerId := by
  induction rows with
  | nil => rfl
  | cons row rest ih =>
      rcases workerView?_cases now onlineWindow visibilityWindow row with
        ⟨hview, hseen⟩ | ⟨view, hview, hid, hseen⟩
      · rw [List.filterMap_cons_none hview, List.filter_cons_of_neg (by simp [hseen]), ih]
      · rw [List.filterMap_cons_some hview, List.filter_cons_of_pos hseen, List.map_cons,
          List.map_cons, ih, hid]

theorem getD_lookup_countCapabilities (capabilityIds : List String) (counts : Dict String Nat)
    (c : String) :
    (Dict.lookup (capabilityIds.foldl (fun counts capabilityId =>
      counts.put (capabilityId, (Dict.lookup counts capabilityId).getD 0 + 1)) counts) c).getD 0 =
        (counts.lookup c).getD 0 + capabilityIds.count c := by
  induction capabilityIds generalizing counts with
  | nil => rfl
  | cons capabilityId rest ih =>
      rw [List.foldl_cons, ih, Dict.lookup_put, List.count_cons]
      by_cases hid : capabilityId = c
      · subst hid
        simp only [if_true, Option.getD_some, beq_self_eq_true]
        omega
      · simp [hid]

/-- What a row adds to the count of a capability. -/
def onlineShare (now : DateTime) (c : String) (row : WorkerRecord) : Nat :=
  if row.seenWithin now poolWorkerOnlineWindowSeconds then row.capabilityIds.count c else 0

theorem getD_lookup_countOnline (now : DateTime) (c : String) (rows : List WorkerRecord)
    (online : Dict String Nat) :
    (Dict.lookup (rows.foldl (countOnline now) online) c).getD 0 =
      (online.lookup c).getD 0 + (rows.map (onlineShare now c)).sum := by
  induction rows generalizing online with
  | nil => rfl
  | cons row rest ih =>
      have hrow : (Dict.lookup (countOnline now online row) c).getD 0 =
          (online.lookup c).getD 0 + onlineShare now c row := by
        rw [countOnline, onlineShare, WorkerRecord.seenWithin]
        cases row.lastHeartbeatAt with
        | none => simp
        | some instant =>
            by_cases hrevoked : row.status = .revoked
            · simp [hrevoked]
            · cases hwithin : heardWithin now instant poolWorkerOnlineWindowSeconds with
              | false => simp [hwithin]
              | true => simpa [hrevoked, hwithin] using getD_lookup_countCapabilities _ online c
      rw [List.foldl_cons, ih, hrow, List.map_cons, List.sum_cons, Nat.add_assoc]

/-- The rows online that list the capability. -/
def listsOnline (now : DateTime) (c : String) (row : WorkerRecord) : Bool :=
  row.seenWithin now poolWorkerOnlineWindowSeconds && decide (c ∈ row.capabilityIds)

theorem listsOnline_le_onlineShare (now : DateTime) (c : String) (row : WorkerRecord) :
    (if listsOnline now c row then 1 else 0) ≤ onlineShare now c row := by
  rw [listsOnline, onlineShare]
  by_cases hseen : row.seenWithin now poolWorkerOnlineWindowSeconds
  · by_cases hmem : c ∈ row.capabilityIds
    · simpa [hseen, hmem] using List.count_pos_iff.mpr hmem
    · simp [hmem]
  · simp [hseen]

theorem length_filter_eq_sum {α : Type} (p : α → Bool) (l : List α) :
    (l.filter p).length = (l.map fun a => if p a then 1 else 0).sum := by
  induction l with
  | nil => rfl
  | cons a rest ih =>
      rw [List.filter_cons, List.map_cons, List.sum_cons, ← ih]
      cases p a <;> simp [Nat.add_comm]

/-- The sums count each worker once exactly when no row online lists a capability twice. -/
theorem onlineShares_eq_iff (now : DateTime) (rows : List WorkerRecord) :
    (∀ c, (rows.map (onlineShare now c)).sum = (rows.filter (listsOnline now c)).length) ↔
      ∀ row ∈ rows, row.seenWithin now poolWorkerOnlineWindowSeconds → row.capabilityIds.Nodup := by
  constructor
  · intro h row hrow hseen
    refine List.nodup_iff_count_le_one.mpr fun c => ?_
    by_contra hmany
    have hlt : (rows.map fun r => if listsOnline now c r then 1 else 0).sum <
        (rows.map (onlineShare now c)).sum := by
      refine List.sum_lt_sum _ _ (fun r _ => listsOnline_le_onlineShare now c r) ⟨row, hrow, ?_⟩
      rw [onlineShare, if_pos hseen]
      split <;> omega
    rw [h c, length_filter_eq_sum] at hlt
    exact absurd hlt (lt_irrefl _)
  · intro h c
    rw [length_filter_eq_sum]
    refine congrArg List.sum (List.map_congr_left fun row hrow => ?_)
    rw [onlineShare, listsOnline]
    by_cases hseen : row.seenWithin now poolWorkerOnlineWindowSeconds
    · have hcount := List.nodup_iff_count_le_one.mp (h row hrow hseen) c
      by_cases hmem : c ∈ row.capabilityIds
      · have hpositive := List.count_pos_iff.mpr hmem
        simp only [hseen, hmem, decide_true, Bool.and_true, if_true]
        omega
      · simp [hmem, List.count_eq_zero_of_not_mem hmem]
    · simp [hseen]

/-! ### The views and the history -/

/-- The worker is not revoked, and its latest heartbeat, with what it registered, is within the
window. -/
def HeardFrom (s : MemoryWorkerRegistry) (history : List AnsweredCall) (now : DateTime)
    (window : Int) (id : String) (registration : WorkerRegistration) : Prop :=
  (∃ row, s.get? id = some row ∧ row.status ≠ .revoked) ∧
    ∃ instant, latestHeartbeat history id = some (instant, registration) ∧
      heardWithin now instant window

/-- The worker is not revoked, was enrolled within the window, and has not been heard from. -/
def NeverHeardFrom (s : MemoryWorkerRegistry) (history : List AnsweredCall) (now : DateTime)
    (window : Int) (id : String) : Prop :=
  (∃ row, s.get? id = some row ∧ row.status ≠ .revoked) ∧
    latestHeartbeat history id = none ∧
      ∃ instant, firstEnrolled history id = some instant ∧ heardWithin now instant window

/-- A row is seen for the heartbeat of its worker or for its enrollment. -/
theorem seenWithin_iff {s : MemoryWorkerRegistry} {history : List AnsweredCall} {id : String}
    (h : RowSeen (s.get? id) (latestHeartbeat history id) (firstEnrolled history id))
    (now : DateTime) (window : Int) :
    (∃ row, s.get? id = some row ∧ row.seenWithin now window) ↔
      (∃ registration, HeardFrom s history now window id registration) ∨
        NeverHeardFrom s history now window id := by
  simp only [HeardFrom, NeverHeardFrom, WorkerRecord.seenWithin, Bool.and_eq_true,
    decide_eq_true_eq]
  generalize s.get? id = row at h ⊢
  generalize latestHeartbeat history id = heartbeat at h ⊢
  generalize firstEnrolled history id = enrolled at h ⊢
  cases h with
  | absent => simp
  | enrolled written nothing => simp [written]
  | heard written listed => simp [written]

/-- The capabilities of a row that is seen are those of its heartbeat, or none. -/
theorem capabilityIds_of_seen {s : MemoryWorkerRegistry} {history : List AnsweredCall} {id : String}
    (h : RowSeen (s.get? id) (latestHeartbeat history id) (firstEnrolled history id))
    {row : WorkerRecord} (hrow : s.get? id = some row) {now : DateTime} {window : Int}
    (hseen : row.seenWithin now window) :
    (∃ registration, HeardFrom s history now window id registration ∧
        row.capabilityIds = registration.capabilities.map WorkerCapability.capabilityId) ∨
      row.capabilityIds = [] ∧ ∀ registration, ¬ HeardFrom s history now window id registration := by
  simp only [HeardFrom, WorkerRecord.seenWithin, Bool.and_eq_true, decide_eq_true_eq,
    hrow] at hseen ⊢
  rw [hrow] at h
  generalize latestHeartbeat history id = heartbeat at h ⊢
  generalize firstEnrolled history id = enrolled at h
  cases h with
  | enrolled written nothing =>
      exact Or.inr ⟨by rw [WorkerRecord.capabilityIds, nothing]; rfl, by simp⟩
  | @heard _ instant registration _ written listed =>
      rw [written] at hseen
      exact Or.inl ⟨registration, ⟨⟨row, rfl, hseen.1⟩, instant, rfl, hseen.2⟩,
        by rw [WorkerRecord.capabilityIds, listed]⟩

theorem mem_list_iff {s : MemoryWorkerRegistry} {row : WorkerRecord} :
    row ∈ MemoryWorkerRegistry.list s ↔ s.get? row.workerId = some row := by
  rw [MemoryWorkerRegistry.list, (List.perm_insertionSort _ _).mem_iff, Table.mem_rows_iff]

theorem list_ids_nodup (s : MemoryWorkerRegistry) :
    ((MemoryWorkerRegistry.list s).map WorkerRecord.workerId).Nodup :=
  ((List.perm_insertionSort _ _).map WorkerRecord.workerId).nodup_iff.mpr s.keys_nodup

theorem mem_filter_ids_iff {s : MemoryWorkerRegistry} {p : WorkerRecord → Bool} {id : String} :
    id ∈ ((MemoryWorkerRegistry.list s).filter p).map WorkerRecord.workerId ↔
      ∃ row, s.get? id = some row ∧ p row := by
  simp only [List.mem_map, List.mem_filter, mem_list_iff]
  constructor
  · rintro ⟨row, ⟨hrow, hp⟩, rfl⟩
    exact ⟨row, hrow, hp⟩
  · rintro ⟨row, hrow, hp⟩
    have hid : row.workerId = id := Table.key_eq_of_get? hrow
    exact ⟨row, ⟨hid ▸ hrow, hp⟩, hid⟩

theorem filter_ids_nodup (s : MemoryWorkerRegistry) (p : WorkerRecord → Bool) :
    (((MemoryWorkerRegistry.list s).filter p).map WorkerRecord.workerId).Nodup :=
  (List.filter_sublist.map _).nodup (list_ids_nodup s)

/-- A worker online that lists the capability is one that was heard from and registered it. -/
theorem listsOnline_iff {s : MemoryWorkerRegistry} {history : List AnsweredCall} {id : String}
    (h : RowSeen (s.get? id) (latestHeartbeat history id) (firstEnrolled history id))
    (now : DateTime) (c : String) :
    (∃ row, s.get? id = some row ∧ listsOnline now c row) ↔ ∃ registration,
      HeardFrom s history now poolWorkerOnlineWindowSeconds id registration ∧
        c ∈ registration.capabilities.map WorkerCapability.capabilityId := by
  constructor
  · rintro ⟨row, hrow, hlists⟩
    rw [listsOnline, Bool.and_eq_true, decide_eq_true_eq] at hlists
    rcases capabilityIds_of_seen h hrow hlists.1 with ⟨registration, hheard, hids⟩ | ⟨hnone, -⟩
    · exact ⟨registration, hheard, hids ▸ hlists.2⟩
    · rw [hnone] at hlists
      exact absurd hlists.2 List.not_mem_nil
  · rintro ⟨registration, hheard, hmem⟩
    obtain ⟨row, hrow, hseen⟩ := (seenWithin_iff h now _).mpr (Or.inl ⟨registration, hheard⟩)
    refine ⟨row, hrow, ?_⟩
    rcases capabilityIds_of_seen h hrow hseen with ⟨other, hother, hids⟩ | ⟨-, hnever⟩
    · obtain ⟨-, instant, hlatest, -⟩ := hheard
      obtain ⟨-, instant', hlatest', -⟩ := hother
      obtain ⟨-, rfl⟩ := Prod.mk.inj (Option.some.inj (hlatest.symm.trans hlatest'))
      rw [listsOnline, hseen, hids, Bool.true_and]
      exact decide_eq_true hmem
    · exact absurd hheard (hnever registration)

theorem queueDepth_online (s : MemoryJobStore) :
    s.queueDepth.onlineWorkersByCapability = Table.empty := by
  have hfold : ∀ (rows : List JobRecord) (depth : QueueDepth),
      (rows.foldl MemoryJobStore.countJob depth).onlineWorkersByCapability =
        depth.onlineWorkersByCapability := by
    intro rows
    induction rows with
    | nil => exact fun _ => rfl
    | cons r rest ih =>
        intro depth
        rw [List.foldl_cons, ih, MemoryJobStore.countJob]
        cases r.status <;> rfl
  exact hfold s.rows {}

section Truth

variable [PyText]

/-- `worker_views` lists each worker once, and exactly those that were heard from. -/
def ViewsTrue (w : World) (history : List AnsweredCall) (onlineWindow visibilityWindow : Int) :
    Prop :=
  ∃ views, ((workerViews none onlineWindow visibilityWindow).run Action.exec w).2 = .ok views ∧
    (views.map PoolWorkerView.workerId).Nodup ∧
      ∀ id, id ∈ views.map PoolWorkerView.workerId ↔
        ∃ registration, HeardFrom w.registry history w.clock visibilityWindow id registration

/-- `queue_depth` counts, for every capability, the distinct workers online that list it. -/
def CountsTrue (w : World) (history : List AnsweredCall) : Prop :=
  ∃ depth, (queueDepth.run Action.exec w).2 = .ok depth ∧
    ∀ c, ∃ ids : List String, ids.Nodup ∧
      (∀ id, id ∈ ids ↔ ∃ registration,
        HeardFrom w.registry history w.clock poolWorkerOnlineWindowSeconds id registration ∧
          c ∈ registration.capabilities.map WorkerCapability.capabilityId) ∧
      (depth.onlineWorkersByCapability.lookup c).getD 0 = ids.length

theorem viewsTrue_iff {w : World} {history : List AnsweredCall}
    (h : ∀ id, RowSeen (w.registry.get? id) (latestHeartbeat history id)
      (firstEnrolled history id)) (onlineWindow visibilityWindow : Int) :
    ViewsTrue w history onlineWindow visibilityWindow ↔
      ∀ id, ¬ NeverHeardFrom w.registry history w.clock visibilityWindow id := by
  have hrun : ((workerViews none onlineWindow visibilityWindow).run Action.exec w).2 =
      .ok ((MemoryWorkerRegistry.list w.registry).filterMap
        (workerView? w.clock onlineWindow visibilityWindow)) := rfl
  have hids := viewIds_eq w.clock onlineWindow visibilityWindow
    (MemoryWorkerRegistry.list w.registry)
  rw [ViewsTrue, hrun]
  constructor
  · rintro ⟨views, hviews, -, hexact⟩ id hnever
    cases hviews
    have hlisted := (seenWithin_iff (h id) w.clock visibilityWindow).mpr (Or.inr hnever)
    rw [← mem_filter_ids_iff, ← hids, hexact] at hlisted
    obtain ⟨registration, -, instant, hheard, -⟩ := hlisted
    exact absurd (hnever.2.1.symm.trans hheard) (by simp)
  · intro hnever
    refine ⟨_, rfl, ?_, fun id => ?_⟩
    · rw [hids]
      exact filter_ids_nodup _ _
    · rw [hids, mem_filter_ids_iff, seenWithin_iff (h id)]
      simp [hnever id]

/-- The count of a capability is what the rows of the registry add to it. -/
theorem run_queueDepth (w : World) :
    ∃ depth, (queueDepth.run Action.exec w).2 = .ok depth ∧ ∀ c,
      (depth.onlineWorkersByCapability.lookup c).getD 0 =
        ((MemoryWorkerRegistry.list w.registry).map (onlineShare w.clock c)).sum := by
  refine ⟨{ w.jobs.queueDepth with
    onlineWorkersByCapability := (MemoryWorkerRegistry.list w.registry).foldl
      (countOnline w.clock) w.jobs.queueDepth.onlineWorkersByCapability }, rfl, fun c => ?_⟩
  rw [getD_lookup_countOnline, queueDepth_online]
  exact Nat.zero_add _

theorem countsTrue_iff {w : World} {history : List AnsweredCall}
    (h : ∀ id, RowSeen (w.registry.get? id) (latestHeartbeat history id)
      (firstEnrolled history id)) :
    CountsTrue w history ↔ ∀ id registration,
      HeardFrom w.registry history w.clock poolWorkerOnlineWindowSeconds id registration →
        (registration.capabilities.map WorkerCapability.capabilityId).Nodup := by
  obtain ⟨depth, hrun, hcount⟩ := run_queueDepth w
  have hshares := onlineShares_eq_iff w.clock (MemoryWorkerRegistry.list w.registry)
  have hlength (c : String) : ((MemoryWorkerRegistry.list w.registry).filter
      (listsOnline w.clock c)).length = (((MemoryWorkerRegistry.list w.registry).filter
        (listsOnline w.clock c)).map WorkerRecord.workerId).length := by rw [List.length_map]
  have htrue : CountsTrue w history ↔ ∀ c,
      ((MemoryWorkerRegistry.list w.registry).map (onlineShare w.clock c)).sum =
        ((MemoryWorkerRegistry.list w.registry).filter (listsOnline w.clock c)).length := by
    constructor
    · rintro ⟨depth', hrun', hexact⟩ c
      cases hrun.symm.trans hrun'
      obtain ⟨ids, hnodup, hmem, hids⟩ := hexact c
      rw [← hcount, hids, hlength]
      refine ((List.perm_ext_iff_of_nodup hnodup (filter_ids_nodup _ _)).mpr fun id => ?_).length_eq
      rw [hmem, mem_filter_ids_iff, listsOnline_iff (h id)]
    · intro hequal
      refine ⟨depth, hrun, fun c => ⟨_, filter_ids_nodup w.registry (listsOnline w.clock c),
        fun id => ?_, ?_⟩⟩
      · rw [mem_filter_ids_iff, listsOnline_iff (h id)]
      · rw [hcount, hequal, hlength]
  rw [htrue, hshares]
  constructor
  · intro hrows id registration hheard
    obtain ⟨row, hrow, hseen⟩ := (seenWithin_iff (h id) _ _).mpr (Or.inl ⟨registration, hheard⟩)
    have hid : row.workerId = id := Table.key_eq_of_get? hrow
    have hnodup := hrows row (mem_list_iff.mpr (hid ▸ hrow)) hseen
    rcases capabilityIds_of_seen (h id) hrow hseen with ⟨other, hother, hids⟩ | ⟨-, hnever⟩
    · obtain ⟨-, instant, hlatest, -⟩ := hheard
      obtain ⟨-, instant', hlatest', -⟩ := hother
      obtain ⟨-, rfl⟩ := Prod.mk.inj (Option.some.inj (hlatest.symm.trans hlatest'))
      exact hids ▸ hnodup
    · exact absurd hheard (hnever registration)
  · intro hheard row hrow hseen
    rcases capabilityIds_of_seen (h row.workerId) (mem_list_iff.mp hrow) hseen with
      ⟨registration, hregistered, hids⟩ | ⟨hnone, -⟩
    · rw [hids]
      exact hheard row.workerId registration hregistered
    · rw [hnone]
      exact List.nodup_nil

/-- After any run of enrollments, heartbeats and status changes, the views at any later time tell
the truth exactly when no worker was enrolled within the visibility window without being heard from,
and no worker online listed a capability twice in its latest heartbeat. -/
theorem pool_views_true_iff (cfg : ServiceConfig) (w : World) (calls : List TimedCall)
    (queried : DateTime) (onlineWindow visibilityWindow : Int) :
    let out := serveCalls cfg w.withoutWorkers calls
    let pool := { out.1 with clock := queried }
    ViewsTrue pool out.2 onlineWindow visibilityWindow ∧ CountsTrue pool out.2 ↔
      (∀ id, ¬ NeverHeardFrom pool.registry out.2 queried visibilityWindow id) ∧
        ∀ id registration,
          HeardFrom pool.registry out.2 queried poolWorkerOnlineWindowSeconds id registration →
            (registration.capabilities.map WorkerCapability.capabilityId).Nodup := by
  intro out pool
  have hseen (id : String) : RowSeen (pool.registry.get? id) (latestHeartbeat out.2 id)
      (firstEnrolled out.2 id) := (rowSeen_serveCalls cfg w calls id).2
  rw [viewsTrue_iff hseen, countsTrue_iff hseen]

end Truth

/-- A heartbeat body that lists one capability twice. -/
def twiceListed : WorkerHeartbeatRequest where
  toRegistration := { smallRegistration with capabilities := [smallCapability, smallCapability] }
  withinBounds := by decide +kernel

/-- The enrollment of the worker of the small pool, by a call. -/
def enrolledOnly : List TimedCall :=
  ((smallConfig.enrollments.lookup "worker-1").map fun enrollment =>
    ⟨.enrollWorker "worker-1" enrollment, 0, trivial⟩).toList

/-- Its heartbeat, with the body that lists a capability twice. -/
def heardTwiceListed : List TimedCall :=
  [⟨.registerHeartbeat smallIdentity twiceListed.toRegistration, 0, trivial⟩]

/-- A worker that was only enrolled is shown, and a worker that lists a capability twice counts as
two. -/
theorem pool_views_untrue :
    letI := PyText.ascii
    let enrolled := serveCalls smallConfig smallWorld.withoutWorkers enrolledOnly
    let heard := serveCalls smallConfig smallWorld.withoutWorkers heardTwiceListed
    ¬ ViewsTrue { enrolled.1 with clock := 0 } enrolled.2 poolWorkerOnlineWindowSeconds
        poolWorkerVisibilityWindowSeconds ∧
      ¬ CountsTrue { heard.1 with clock := 0 } heard.2 := by
  let := PyText.ascii
  refine ⟨fun htrue => ?_, fun htrue => ?_⟩
  · have hnone := (viewsTrue_iff
      (w := { (serveCalls smallConfig smallWorld.withoutWorkers enrolledOnly).1 with clock := 0 })
      (fun id => (rowSeen_serveCalls smallConfig smallWorld enrolledOnly id).2) _ _).mp htrue
    refine hnone "worker-1" ⟨?_, by decide +kernel, 0, by decide +kernel, by decide⟩
    have hrow : ((serveCalls smallConfig smallWorld.withoutWorkers enrolledOnly).1.registry.get?
        "worker-1").any (fun row => row.status ≠ .revoked) = true := by decide +kernel
    rw [Option.any_eq_true] at hrow
    obtain ⟨row, hget, hactive⟩ := hrow
    exact ⟨row, hget, of_decide_eq_true hactive⟩
  · have honce := (countsTrue_iff
      (w := { (serveCalls smallConfig smallWorld.withoutWorkers heardTwiceListed).1 with
        clock := 0 })
      (fun id => (rowSeen_serveCalls smallConfig smallWorld heardTwiceListed id).2)).mp htrue
    have hrow : ((serveCalls smallConfig smallWorld.withoutWorkers heardTwiceListed).1.registry.get?
        "worker-1").any (fun row => row.status ≠ .revoked) = true := by decide +kernel
    have hheard : (latestHeartbeat (serveCalls smallConfig smallWorld.withoutWorkers
        heardTwiceListed).2 "worker-1").any (fun heartbeat =>
          heartbeat.1 = 0 && !decide ((heartbeat.2.capabilities.map
            WorkerCapability.capabilityId).Nodup)) = true := by decide +kernel
    rw [Option.any_eq_true] at hrow hheard
    obtain ⟨row, hget, hactive⟩ := hrow
    obtain ⟨⟨instant, registration⟩, hlatest, htwice⟩ := hheard
    simp only [Bool.and_eq_true, decide_eq_true_eq, Bool.not_eq_true', decide_eq_false_iff_not]
      at htwice hactive
    obtain ⟨rfl, htwice⟩ := htwice
    exact htwice (honce "worker-1" registration ⟨⟨row, hget, hactive⟩, 0, hlatest, by decide⟩)

end GpuWorkerPool
