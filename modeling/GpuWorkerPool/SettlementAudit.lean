import GpuWorkerPool.Base.Mark
import GpuWorkerPool.Base.Schedule
import GpuWorkerPool.Interference

/-!
The audit rows of settlements. A call that settles a job writes one row for it at a later await, so
the rows of a job are its settlements once every call has returned. The rows of two calls can
change places: a released job may be leased and settled again before the release has written its
row. A completion that is rejected writes its row whatever the store answered to its `fail`;
what is proved here leaves out the calls whose `fail` was refused.
-/

namespace GpuWorkerPool

open Base WorkerPoolService

/-! ### Settlements and their rows -/

def AuditEventType.isSettlement : AuditEventType → Bool
  | .completionRejected | .jobCompleted | .jobFailed | .jobReleased => true
  | _ => false

def MemoryJobStore.processing (s : MemoryJobStore) (j : String) : Bool :=
  (s.get? j).any fun r => r.status = .processing

/-- The request attests an output. -/
def Request.attests : Request → Bool
  | .complete .. | .publish .. => true
  | _ => false

/-- The type of the row for a settlement that the request makes. -/
def Request.rowType (request : Request) : JobStoreCall → AuditEventType
  | .complete .. => .jobCompleted
  | .release .. => .jobReleased
  | _ => if request.attests then .completionRejected else .jobFailed

/-- The job that the operation is to settle. -/
def JobStoreCall.settling? : JobStoreCall → Option String
  | .complete j .. => some j
  | .fail j .. => some j
  | .release j .. => some j
  | _ => none

theorem underLease_settles (s : MemoryJobStore) (j claimToken : String)
    (write : JobRecord → JobRecord) (hkey : ∀ r, (write r).jobId = r.jobId)
    (hwrite : ∀ r, (write r).status ≠ .processing) :
    (s.processing j && !(s.underLease j claimToken write).1.processing j) =
      (s.underLease j claimToken write).2 := by
  rw [MemoryJobStore.underLease]
  cases hleased : s.leased? j claimToken with
  | none => simp
  | some r =>
      obtain ⟨hget, hlive⟩ := MemoryJobStore.leased?_eq_some_iff.mp hleased
      have hwritten : (write r).jobId = j := (hkey r).trans (Table.key_eq_of_get? hget)
      simp [MemoryJobStore.processing, hget, hlive.1, Table.get?_put, hwritten, hwrite]

section Marks

variable [PyText]

/-- The store's answer to the operation is `True`. -/
def JobStoreCall.accepted (call : JobStoreCall) (w : World) : Bool :=
  call.accepts (call.exec w.now w.nextToken w.jobs).2

/-- The job that a `complete`, `fail` or `release` of the store moves out of `PROCESSING`. -/
def JobStoreCall.settles? (call : JobStoreCall) (w : World) : Option String :=
  call.settling?.filter fun j =>
    w.jobs.processing j && !(call.exec w.now w.nextToken w.jobs).1.processing j

/-- The three operations settle the job exactly when the store accepts them. -/
theorem JobStoreCall.settles?_eq (call : JobStoreCall) (w : World) :
    call.settles? w = call.settling?.filter fun _ => call.accepted w := by
  cases call with
  | complete j claimToken contentType sha256 byteLength metadata =>
      exact congrArg (fun moved : Bool => if moved then some j else none) (underLease_settles w.jobs
        j claimToken (fun r => r.completed w.now contentType sha256 byteLength metadata)
        (fun _ => rfl) fun r => by simp [JobRecord.completed])
  | fail j claimToken reason failureCode failureMessage retryable =>
      exact congrArg (fun moved : Bool => if moved then some j else none) (underLease_settles w.jobs
        j claimToken (fun r => r.failed w.now reason failureCode failureMessage retryable)
        (fun _ => rfl) fun r => by simp [JobRecord.failed])
  | release j claimToken reason =>
      exact congrArg (fun moved : Bool => if moved then some j else none) (underLease_settles w.jobs
        j claimToken (fun r => r.released w.now reason) (fun _ => rfl)
        fun r => by simp [JobRecord.released])
  | _ => rfl

/-- A settlement of the job opens, and its row closes. -/
def Request.mark? (request : Request) (j : String) : Action × World → Option (Mark AuditEventType)
  | (.jobs call, w) =>
      if call.settles? w = some j then some (.opened (request.rowType call)) else none
  | (.audit eventType _ jobId _, _) =>
      if jobId = some j && eventType.isSettlement then some (.closed eventType) else none
  | _ => none

/-- The store refuses the `fail` with which the request rejects its output. -/
def Request.refused (request : Request) : Action × World → Bool
  | (.jobs (.fail j claimToken reason failureCode failureMessage retryable), w) =>
      request.attests &&
        !(JobStoreCall.fail j claimToken reason failureCode failureMessage retryable).accepted w
  | _ => false

/-- What a path marks for the job. -/
def Request.marks (request : Request) (j : String) (path : List (Action × World)) :
    List (Mark AuditEventType) :=
  path.filterMap (request.mark? j)

/-! ### What one call marks -/

/-- An action that marks nothing: it neither settles a job nor writes a row of a settlement. -/
def Quiet : Action → Prop
  | .jobs call => call.settling? = none
  | .audit eventType _ _ _ => eventType.isSettlement = false
  | _ => True

variable {request : Request} {j : String}

theorem Quiet.mark? {action : Action} (h : Quiet action) (w : World) :
    request.mark? j (action, w) = none := by
  cases action with
  | jobs call =>
      have hsettling : call.settling? = none := h
      rw [Request.mark?, JobStoreCall.settles?, hsettling]
      rfl
  | audit eventType workerId jobId detail =>
      have htype : eventType.isSettlement = false := h
      rw [Request.mark?, htype, Bool.and_false]
      rfl
  | _ => rfl

theorem Quiet.refused {action : Action} (h : Quiet action) (w : World) :
    request.refused (action, w) = false := by
  cases action with
  | jobs call =>
      cases call with
      | fail => exact absurd h (by simp [Quiet, JobStoreCall.settling?])
      | _ => rfl
  | _ => rfl

/-- The marks of the path are a settlement and its row, or none. A path whose rejection was refused
marks no settlement. -/
structure Settles (request : Request) (j : String) (path : List (Action × World)) : Prop where
  paired : path.any request.refused = false → Mark.Paired (request.marks j path)
  opens : path.any request.refused → Mark.opens (request.marks j path) = []

theorem settles_of_no_marks {path : List (Action × World)} (h : request.marks j path = []) :
    Settles request j path :=
  ⟨fun _ => Or.inl h, fun _ => by rw [h]; rfl⟩

theorem settles_append {path rest : List (Action × World)} (h : ∀ step ∈ path, Quiet step.1)
    (hrest : Settles request j rest) : Settles request j (path ++ rest) := by
  have hany : path.any request.refused = false := by
    rw [List.any_eq_false]
    intro step hstep
    rw [(h step hstep).refused]
    exact Bool.false_ne_true
  have hmap : path.filterMap (request.mark? j) = [] :=
    List.filterMap_eq_nil_iff.mpr fun step hstep => (h step hstep).mark? step.2
  have hmarks : request.marks j (path ++ rest) = request.marks j rest := by
    rw [Request.marks, List.filterMap_append, hmap, List.nil_append, Request.marks]
  constructor
  · rw [hmarks, List.any_append, hany, Bool.false_or]
    exact hrest.paired
  · rw [hmarks, List.any_append, hany, Bool.false_or]
    exact hrest.opens

theorem settles_of_quiet {path : List (Action × World)} (h : ∀ step ∈ path, Quiet step.1) :
    Settles request j path :=
  settles_of_no_marks (List.filterMap_eq_nil_iff.mpr fun step hstep => (h step hstep).mark? step.2)

/-- A part that marks nothing, and then one that marks a settlement and its row or nothing. -/
theorem along_bind_of_quiet {α β : Type} {p : Coroutine α} {f : α → Coroutine β}
    (hp : p.Awaits Quiet)
    (hf : ∀ value, (f value).Along Action.exec fun path _ => Settles request j path) :
    (p >>= f).Along Action.exec fun path _ => Settles request j path := by
  refine Prog.along_bind.mpr ((Prog.along_of_awaits hp).mono fun path res hquiet => ?_)
  cases res with
  | error error => exact settles_of_quiet hquiet
  | ok value =>
      exact (hf value).mono fun rest _ => settles_append hquiet

theorem along_of_quiet {α : Type} {p : Coroutine α} (hp : p.Awaits Quiet) :
    p.Along Action.exec fun path _ => Settles request j path :=
  (Prog.along_of_awaits hp).mono fun _ _ hquiet => settles_of_quiet hquiet

theorem refused_of_accepted {call : JobStoreCall} {w : World} (h : call.accepted w) :
    request.refused (.jobs call, w) = false := by
  cases call with
  | fail => simp [Request.refused, h]
  | _ => rfl

omit [PyText] in
theorem rowType_isSettlement (call : JobStoreCall) : (request.rowType call).isSettlement := by
  unfold Request.rowType
  split
  · rfl
  · rfl
  · split <;> rfl

/-- A settlement that the store accepts, and its row. -/
theorem settles_pair {call : JobStoreCall} {jobId : String} {workerId : Option String}
    {detail : List (String × JsonValue)} {w w' : World} (hcall : call.settling? = some jobId)
    (haccepted : call.accepted w) :
    Settles request j
      [(.jobs call, w), (.audit (request.rowType call) workerId (some jobId) detail, w')] := by
  have hsettles : call.settles? w = some jobId := by
    rw [JobStoreCall.settles?_eq, hcall, Option.filter_some, if_pos haccepted]
  have hany : [(Action.jobs call, w),
      (.audit (request.rowType call) workerId (some jobId) detail, w')].any request.refused =
        false := by
    rw [List.any_cons, refused_of_accepted haccepted]
    rfl
  refine ⟨fun _ => ?_, fun hrefused => absurd (hany.symm.trans hrefused) (by decide)⟩
  by_cases hj : jobId = j
  · subst hj
    refine Or.inr ⟨request.rowType call, ?_⟩
    simp [Request.marks, Request.mark?, hsettles, rowType_isSettlement]
  · left
    simp [Request.marks, Request.mark?, hsettles, hj]

/-- A settlement that the store refuses. -/
theorem settles_refused {call : JobStoreCall} {w : World} (hrefused : call.accepted w = false) :
    Settles request j [(.jobs call, w)] := by
  have hsettles : call.settles? w = none := by
    rw [JobStoreCall.settles?_eq, hrefused]
    cases call.settling? <;> rfl
  exact settles_of_no_marks (by simp [Request.marks, Request.mark?, hsettles])

/-- What is accepted is followed by its row, and what is refused by a stale lease. -/
theorem along_settle {call : JobStoreCall} {next : call.Reply → Coroutine Unit}
    {jobId : String} {workerId : Option String} {detail : List (String × JsonValue)} {error : Exc}
    (hcall : call.settling? = some jobId)
    (hnext : ∀ reply, next reply =
      if call.accepts reply then recordAudit (request.rowType call) workerId jobId detail
      else throw error) :
    (jobStore call >>= next).Along Action.exec fun path _ => Settles request j path := by
  intro w
  have haccepts : call.accepts (Action.exec (.jobs call) w).2 = call.accepted w := rfl
  generalize (Action.exec (.jobs call) w).2 = reply at haccepts
  change call.Reply at reply
  show (next reply).Along _ _
  rw [hnext, haccepts]
  cases haccepted : call.accepted w with
  | true =>
      intro w'
      generalize (Action.exec _ w').2 = reply
      cases reply <;> exact settles_pair hcall haccepted
  | false => exact settles_refused haccepted

/-- A rejected output is followed by its row, unless the store refuses to fail the job. -/
theorem along_reject (identity : WorkerIdentity) (record : JobRecord) (claimToken : String)
    (hattests : request.attests) (error : Exc) :
    (rejectCompletion identity record claimToken error).Along Action.exec
      fun path _ => Settles request j path := by
  cases error with
  | completionRejected reason =>
      intro w w'
      generalize (Action.exec _ w').2 = reply
      have htype : request.rowType (.fail record.jobId claimToken reason .invalidInput none false) =
          .completionRejected := if_pos hattests
      have hpair : Settles request j
          [(.jobs (.fail record.jobId claimToken reason .invalidInput none false), w),
            (.audit .completionRejected identity.workerId (some record.jobId)
              [("reason", .str reason)], w')] := by
        cases haccepted : (JobStoreCall.fail record.jobId claimToken reason .invalidInput none
            false).accepted w with
        | true => exact htype ▸ settles_pair rfl haccepted
        | false =>
            refine ⟨fun hany => ?_, fun _ => ?_⟩
            · rw [List.any_cons, Request.refused, hattests, haccepted] at hany
              exact absurd hany (by simp)
            · have hsettles : (JobStoreCall.fail record.jobId claimToken reason .invalidInput none
                  false).settles? w = none := by
                rw [JobStoreCall.settles?_eq, haccepted]
                rfl
              rw [Request.marks, Mark.opens_filterMap]
              simp only [List.filterMap_cons, Request.mark?, hsettles, reduceCtorEq, if_false,
                Option.bind_none]
              split_ifs <;> rfl
      cases reply <;> exact hpair
  | _ => exact settles_of_no_marks rfl

/-! ### Every request -/

omit [PyText] in
theorem quiet_ownedJob (cfg : ServiceConfig) (identity : WorkerIdentity) (jobId : String) :
    (ownedJob cfg identity jobId).Awaits Quiet :=
  awaits_ownedJob cfg identity trivial rfl

theorem along_complete (cfg : ServiceConfig) (identity : WorkerIdentity)
    (jobId claimToken : String) (manifest : OutputManifest) (hattests : request.attests) :
    (complete cfg identity jobId claimToken manifest).Along Action.exec
      fun path _ => Settles request j path := by
  refine along_bind_of_quiet (quiet_ownedJob cfg identity jobId) fun record => ?_
  refine Prog.along_bind.mpr (Prog.along_handle.mpr ?_)
  refine (Prog.along_of_awaits (awaits_verifyOutput cfg record manifest fun _ => trivial)).mono
    fun path res (hquiet : ∀ step ∈ path, Quiet step.1) => ?_
  cases res with
  | ok value =>
      exact (along_settle rfl fun _ => rfl : Prog.Along _ _ fun path _ =>
        Settles request j path).mono fun rest _ => settles_append hquiet
  | error error =>
      have hreject : (rejectCompletion identity record claimToken error).Along Action.exec
          fun rest _ => Settles request j rest :=
        along_reject identity record claimToken hattests error
      refine (hreject.and (Prog.along_of_ends
        (rejectCompletion_raises identity record claimToken error))).mono ?_
      rintro rest _ ⟨hrest, raised, rfl⟩
      exact settles_append hquiet hrest

/-- Every call settles a job and writes the row, or does neither. -/
theorem along_settles (cfg : ServiceConfig) (request : Request) (j : String) :
    (request.program cfg).Along Action.exec fun path _ => Settles request j path := by
  have hdone {α : Type} {p : Coroutine α} {f : α → Response}
      (hp : p.Along Action.exec fun path _ => Settles request j path) :
      (p >>= fun value => pure (f value)).Along Action.exec
        fun path _ => Settles request j path := by
    refine Prog.along_bind.mpr (hp.mono fun path res hpath => ?_)
    cases res with
    | error error => exact hpath
    | ok value =>
        show Settles request j (path ++ [])
        rwa [List.append_nil]
  have hquiet (h : ∀ action, request.Footprint cfg action → Quiet action) :
      (request.program cfg).Along Action.exec fun path _ => Settles request j path :=
    along_of_quiet ((request.awaits_footprint cfg).mono h)
  cases request with
  | complete identity jobId claimToken manifest =>
      exact hdone (along_complete cfg identity jobId claimToken manifest rfl)
  | fail identity jobId claimToken reason retryable failureCode =>
      exact hdone (along_bind_of_quiet (quiet_ownedJob cfg identity jobId) fun record =>
        along_settle rfl fun _ => rfl)
  | release identity jobId claimToken reason =>
      refine hdone (along_bind_of_quiet (quiet_ownedJob cfg identity jobId) fun record => ?_)
      split
      · exact along_settle rfl fun _ => rfl
      · exact along_settle rfl fun _ => rfl
  | publish identity capability grant output =>
      refine hdone (along_bind_of_quiet (awaits_upload _ _ _ fun _ => trivial) fun _ => ?_)
      exact along_complete cfg identity _ _ _ rfl
  | lease identity capabilityIds leaseSeconds =>
      refine hquiet ?_
      rintro (call | _ | _ | _ | _ | _) hcall
      · rcases hcall with rfl | ⟨query, rfl, -⟩ <;> rfl
      · trivial
      · trivial
      · rcases hcall with rfl | rfl <;> rfl
      all_goals trivial
  | jobHeartbeat identity jobId claimToken progressPercent =>
      refine hquiet ?_
      rintro (call | _ | _ | _ | _ | _) hcall
      · rcases hcall with rfl | ⟨j, rfl⟩ <;> rfl
      · trivial
      · trivial
      · exact hcall ▸ rfl
      all_goals trivial
  | submit submission =>
      refine hquiet ?_
      rintro (call | _ | _ | _ | _ | _) hcall
      · exact hcall.1 ▸ rfl
      · trivial
      · trivial
      · exact hcall.elim
      all_goals trivial
  | setWorkerStatus workerId status =>
      refine hquiet ?_
      rintro (call | _ | _ | _ | _ | _) hcall
      · exact hcall.elim
      · trivial
      · trivial
      · rcases hcall with rfl | rfl <;> rfl
      all_goals trivial
  | _ =>
      refine hquiet ?_
      rintro (call | _ | _ | _ | _ | _) hcall
      all_goals first | trivial | exact hcall.elim | exact hcall ▸ rfl

/-! ### Rejected completions -/

omit [PyText] in
theorem ends_approvedEnrollment (cfg : ServiceConfig) (identity : WorkerIdentity) :
    (approvedEnrollment cfg identity).Ends fun res =>
      ∀ reason, res ≠ .error (.completionRejected reason) := by
  refine ends_getWorker fun row => ?_
  cases row with
  | none =>
      dsimp only
      split
      · split <;> simp [Prog.Ends]
      · simp [Prog.Ends]
  | some record =>
      dsimp only
      split_ifs
      · simp [Prog.Ends]
      · simp [Prog.Ends]
      · rw [WorkerEnrollment.new]
        split_ifs <;> simp [Prog.ofExcept, Prog.Ends]

/-- What `_owned_job` returns is the job, and it never raises `CompletionRejected`. -/
theorem along_ownedJob (cfg : ServiceConfig) (identity : WorkerIdentity) (jobId : String) :
    (ownedJob cfg identity jobId).Along Action.exec fun _ res =>
      (∀ record, res = .ok record → record.jobId = jobId) ∧
        ∀ reason, res ≠ .error (.completionRejected reason) := by
  refine Prog.along_bind.mpr ((Prog.along_of_ends (ends_approvedEnrollment cfg identity)).mono ?_)
  rintro path (error | enrollment) hends
  · exact ⟨by simp, fun reason h => hends reason (congrArg Except.error (Except.error.inj h))⟩
  · refine along_getJob fun w => ?_
    cases hget : w.jobs.get? jobId with
    | none => exact ⟨by simp, by simp⟩
    | some record =>
        dsimp only
        split
        · exact ⟨by simp, by simp⟩
        · refine ⟨?_, by simp⟩
          rintro _ ⟨⟩
          exact Table.key_eq_of_get? hget

theorem along_recordAudit (eventType : AuditEventType) (workerId jobId : Option String)
    (detail : List (String × JsonValue)) :
    (recordAudit eventType workerId jobId detail).Along Action.exec fun _ res =>
      ∀ reason, res ≠ .error (.completionRejected reason) := by
  intro w
  rw [Action.exec]
  split <;> simp [Prog.ofExcept, Prog.Along]

/-- The path moved the job from `PROCESSING` to `FAILED` without a retry, unless the store refused
to fail it. -/
def FailsRejected (request : Request) (jobId claimToken : String)
    (path : List (Action × World)) (res : Except Exc Unit) : Prop :=
  ∀ reason, res = .error (.completionRejected reason) → path.any request.refused = false →
    ∃ w, (.jobs (.fail jobId claimToken reason .invalidInput none false), w) ∈ path ∧
      (JobStoreCall.fail jobId claimToken reason .invalidInput none false).accepted w

theorem along_rejected (cfg : ServiceConfig) (identity : WorkerIdentity)
    (jobId claimToken : String) (manifest : OutputManifest) (hattests : request.attests) :
    (complete cfg identity jobId claimToken manifest).Along Action.exec
      (FailsRejected request jobId claimToken) := by
  refine Prog.along_bind.mpr ((along_ownedJob cfg identity jobId).mono ?_)
  rintro path (error | record) ⟨hrecord, hends⟩
  · exact fun reason h => absurd (congrArg Except.error (Except.error.inj h)) (hends reason)
  · obtain rfl := hrecord record rfl
    refine Prog.along_bind.mpr (Prog.along_handle.mpr
      (Prog.along_of_forall (fun verified res => ?_) _))
    cases res with
    | ok value =>
        intro w
        generalize (Action.exec _ w).2 = accepted
        cases (accepted : Bool) with
        | true =>
            refine (along_recordAudit _ _ _ _).mono fun rest res hraised reason hreason => ?_
            exact absurd hreason (hraised reason)
        | false => exact fun reason hreason => absurd hreason (by simp)
    | error error =>
        cases error with
        | completionRejected reason =>
            intro w
            show Prog.Along _ (recordAudit _ _ _ _ >>= fun _ => throw _) _
            refine Prog.along_bind.mpr ((along_recordAudit _ _ _ _).mono fun rest res hraised => ?_)
            cases res with
            | error error =>
                intro reason hreason
                exact absurd (congrArg Except.error (Except.error.inj hreason)) (hraised reason)
            | ok value =>
                rintro _ ⟨⟩ hany
                refine ⟨w, by simp, ?_⟩
                simp only [List.any_append, List.any_cons, Bool.or_eq_false_iff, Request.refused,
                  hattests, Bool.true_and, Bool.not_eq_false'] at hany
                exact hany.2.2.1
        | _ => exact fun reason hreason => absurd hreason (by simp)

end Marks

/-! ### Runs -/

section Runs

variable [PyText]

abbrev Pool := Sys World Action Action.Reply Exc Request Response

/-- The settlements of the job in a run, each with the call that made it and the type of its row. -/
def settlements (s : Pool) (history : List (Event World Action)) (j : String) :
    List (Nat × AuditEventType) :=
  history.filterMap fun e =>
    match s.calls[e.call]?, e.action with
    | some c, .jobs call =>
        if call.settles? e.world = some j then some (e.call, c.request.rowType call) else none
    | _, _ => none

/-- The rows of settlements of the job that the calls in `kept` wrote, each with its call. -/
def settlementRows (kept : Nat → Bool) (history : List (Event World Action)) (j : String) :
    List (Nat × AuditEventType) :=
  history.filterMap fun e =>
    match e.action with
    | .audit eventType _ jobId _ =>
        if jobId = some j && eventType.isSettlement && kept e.call then some (e.call, eventType)
        else none
    | _ => none

/-- The store refused the `fail` with which the call rejected its output. -/
def refusedCall (s : Pool) (history : List (Event World Action)) (i : Nat) : Bool :=
  s.calls[i]?.any fun c => (pathOf history i).any c.request.refused

/-- The marks of the calls whose rejection was not refused. -/
def runMarks (s : Pool) (refused : Nat → Bool) (j : String)
    (events : List (Event World Action)) : List (Mark (Nat × AuditEventType)) :=
  events.filterMap fun e =>
    if refused e.call then none
    else s.calls[e.call]?.bind fun c =>
      (c.request.mark? j (e.action, e.world)).map (Mark.map (Prod.mk e.call))

/-- Any calls at any time; the audit log does not fail. -/
def auditedSchedule : Regime World Action Action.Reply Exc Request Response where
  accepts := fun _ _ => True
  allow := fun _ action w =>
    match action with
    | .audit eventType _ _ _ => w.auditOutage eventType = false
    | _ => True
  env := fun s w => World.Outside s.world w

/-- The row that the event writes. -/
def auditRow? (e : Event World Action) : Option AuditEvent :=
  match e.action with
  | .audit eventType workerId jobId detail =>
      some ⟨eventType, workerId, jobId, detail, e.world.now⟩
  | _ => none

/-- The audit log holds the rows that the calls wrote, in order. -/
theorem auditLog_of_recorded {cfg : ServiceConfig} {w : World} {s : Pool}
    {history : List (Event World Action)}
    (hrun : Recorded (coordinator cfg) auditedSchedule ⟨w, []⟩ history s) :
    s.world.auditLog = w.auditLog ++ history.filterMap auditRow? := by
  induction hrun with
  | refl => exact (List.append_nil _).symm
  | begin before q accepted ih => exact ih
  | env before v changed ih =>
      obtain ⟨now, clock, assetOutage, auditOutage, rfl⟩ := changed
      exact ih
  | advance before i q a next here allowed ih =>
      rename_i t _
      rw [List.filterMap_append, ← List.append_assoc, ← ih]
      show (Action.exec a t.world).1.auditLog = _
      cases a with
      | audit eventType workerId jobId detail =>
          have hworks : t.world.auditOutage eventType = false := allowed
          rw [Action.exec, hworks]
          rfl
      | _ =>
          rw [Action.exec_auditLog (by simp)]
          exact (List.append_nil _).symm

theorem Action.exec_auditOutage (action : Action) (w : World) :
    (action.exec w).1.auditOutage = w.auditOutage := by
  cases action with
  | assets call =>
      rw [Action.exec]
      split <;> rfl
  | audit eventType workerId jobId detail =>
      rw [Action.exec]
      split <;> rfl
  | _ => rfl

/-- Without an outage of the audit log, calls may begin and advance in any order. -/
theorem permitted_of_no_outage {cfg : ServiceConfig} {s : Pool} {moves : List (Move World Request)}
    (hmoves : ∀ move ∈ moves, ∀ change, move ≠ .env change)
    (hlog : s.world.auditOutage = fun _ => false) :
    Permitted (coordinator cfg) auditedSchedule s moves := by
  induction moves generalizing s with
  | nil => trivial
  | cons move rest ih =>
      have hrest := fun m hm => hmoves m (List.mem_cons_of_mem move hm)
      cases move with
      | env change => exact absurd rfl (hmoves _ List.mem_cons_self change)
      | begin q => exact ⟨trivial, ih hrest hlog⟩
      | advance i =>
          rw [Permitted, Sys.move, Sys.advance]
          cases hcall : s.calls[i]? with
          | none => exact ⟨trivial, ih hrest hlog⟩
          | some c =>
              obtain ⟨q, p⟩ := c
              cases p with
              | ret _ | raise _ => exact ⟨trivial, ih hrest hlog⟩
              | await a next =>
                  refine ⟨?_, ih hrest ((Action.exec_auditOutage a s.world).trans hlog)⟩
                  cases a with
                  | audit eventType workerId jobId detail =>
                      show s.world.auditOutage eventType = false
                      rw [hlog]
                  | _ => trivial

section Histories

variable {s : Pool} {refused : Nat → Bool} {j : String} {history : List (Event World Action)}

theorem party_runMark {e : Event World Action} {mark : Mark (Nat × AuditEventType)}
    (h : (if refused e.call then none
      else s.calls[e.call]?.bind fun c =>
        (c.request.mark? j (e.action, e.world)).map (Mark.map (Prod.mk e.call))) = some mark) :
    mark.label.1 = e.call := by
  split at h
  · cases h
  · obtain ⟨c, -, hmark⟩ := Option.bind_eq_some_iff.mp h
    obtain ⟨mark, -, rfl⟩ := Option.map_eq_some_iff.mp hmark
    cases mark <;> rfl

/-- What one call marks in a run is what its path marks. -/
theorem ofParty_runMarks {i : Nat} {c : Call Action Action.Reply Exc Request Response}
    (hc : s.calls[i]? = some c) (hrefused : refused i = false) :
    Mark.ofParty Prod.fst i (runMarks s refused j history) =
      (c.request.marks j (pathOf history i)).map (Mark.map (Prod.mk i)) := by
  induction history with
  | nil => rfl
  | cons e rest ih =>
      rw [runMarks] at ih ⊢
      rw [pathOf_cons, List.filterMap_cons]
      by_cases hi : e.call = i
      · rw [hi, hrefused, hc, if_neg Bool.false_ne_true, Option.bind_some, if_pos rfl]
        rw [Request.marks, List.filterMap_cons]
        cases c.request.mark? j (e.action, e.world) with
        | none => exact ih
        | some mark =>
            rw [Option.map_some, List.map_cons]
            dsimp only
            rw [Mark.ofParty_cons, if_pos (by cases mark <;> rfl), ih, Request.marks]
      · rw [if_neg hi]
        split
        · exact ih
        · rename_i mark hmark
          rw [Mark.ofParty_cons, if_neg fun h => hi ((party_runMark hmark).symm.trans h), ih]

theorem opens_runMarks
    (hrefused : ∀ e ∈ history, refused e.call → ∀ c, s.calls[e.call]? = some c →
      (c.request.mark? j (e.action, e.world)).bind Mark.opened? = none) :
    Mark.opens (runMarks s refused j history) = settlements s history j := by
  rw [runMarks, Mark.opens_filterMap, settlements]
  refine List.filterMap_congr fun e he => ?_
  cases hc : s.calls[e.call]? with
  | none => split <;> rfl
  | some c =>
      have hsome := fun h => hrefused e he h c hc
      rw [Option.bind_some]
      cases haction : e.action with
      | jobs call =>
          rw [haction, Request.mark?] at hsome
          rw [Request.mark?]
          by_cases hsettles : call.settles? e.world = some j
          · rw [if_pos hsettles] at hsome ⊢
            have hkept : refused e.call = false := by
              rw [← Bool.not_eq_true]
              exact fun h => absurd (hsome h) (by simp [Mark.opened?])
            rw [hkept, if_neg Bool.false_ne_true]
            exact (if_pos hsettles).symm
          · rw [if_neg hsettles]
            dsimp only
            rw [if_neg hsettles]
            split <;> rfl
      | audit eventType workerId jobId detail =>
          rw [Request.mark?]
          split_ifs <;> rfl
      | _ =>
          split <;> rfl

theorem closes_runMarks (hcalls : ∀ e ∈ history, e.call < s.calls.length) :
    Mark.closes (runMarks s refused j history) =
      settlementRows (fun i => !refused i) history j := by
  rw [runMarks, Mark.closes_filterMap, settlementRows]
  refine List.filterMap_congr fun e he => ?_
  obtain ⟨c, hc⟩ : ∃ c, s.calls[e.call]? = some c :=
    ⟨_, List.getElem?_eq_getElem (hcalls e he)⟩
  rw [hc, Option.bind_some]
  cases haction : e.action with
  | jobs call =>
      rw [Request.mark?]
      split_ifs <;> rfl
  | audit eventType workerId jobId detail =>
      rw [Request.mark?]
      cases refused e.call with
      | true => simp
      | false =>
          dsimp only
          rw [Bool.not_false, Bool.and_true, if_neg Bool.false_ne_true]
          split <;> rfl
  | _ => split <;> rfl

end Histories

theorem accepted_fail {w : World} {j claimToken reason : String} {failureCode : JobFailureCode}
    {failureMessage : Option String} {retryable : Bool}
    (h : (JobStoreCall.fail j claimToken reason failureCode failureMessage retryable).accepted w) :
    ∃ r, w.jobs.get? j = some r ∧ r.Live claimToken ∧
      (Action.exec (.jobs (.fail j claimToken reason failureCode failureMessage retryable)) w).1.jobs.get?
          j = some (r.failed w.now reason failureCode failureMessage retryable) := by
  change (w.jobs.underLease j claimToken _).2 = true at h
  show ∃ r, w.jobs.get? j = some r ∧ r.Live claimToken ∧
    (w.jobs.underLease j claimToken _).1.get? j = some _
  rw [MemoryJobStore.underLease] at h ⊢
  cases hleased : w.jobs.leased? j claimToken with
  | none => simp [hleased] at h
  | some r =>
      obtain ⟨hget, hlive⟩ := MemoryJobStore.leased?_eq_some_iff.mp hleased
      refine ⟨r, hget, hlive, ?_⟩
      rw [Table.get?_put]
      exact if_pos (Table.key_eq_of_get? hget)

section Answered

variable {cfg : ServiceConfig} {w : World} {s : Pool} {history : List (Event World Action)}

/-- The path of a call that was answered marks a settlement and its row, or nothing. -/
theorem settles_of_answered {reg : Regime World Action Action.Reply Exc Request Response}
    (hrun : Recorded (coordinator cfg) reg ⟨w, []⟩ history s) (hanswered : ¬ s.Busy) (j : String)
    {i : Nat} {c : Call Action Action.Reply Exc Request Response} (hc : s.calls[i]? = some c) :
    Settles c.request j (pathOf history i) := by
  have hanswer : c.answer? ≠ none := fun h => hanswered ⟨c, List.mem_of_getElem? hc, h⟩
  obtain ⟨res, hres⟩ := c.exists_ofExcept hanswer
  exact hrun.along hc hres (along_settles cfg c.request j)

/-- Whenever a call settles the job, the calls in `kept` that settled it before have written their
rows. -/
def SettledInTurn (s : Pool) (kept : Nat → Bool) (history : List (Event World Action))
    (j : String) : Prop :=
  ∀ earlier e later, history = earlier ++ e :: later →
    (∃ call, e.action = .jobs call ∧ call.settles? e.world = some j) →
    ∀ settlement ∈ settlements s earlier j, settlement ∈ settlementRows kept earlier j

theorem action_of_opened {request : Request} {j : String} {action : Action} {v : World}
    {eventType : AuditEventType}
    (h : request.mark? j (action, v) = some (.opened eventType)) :
    ∃ call, action = .jobs call ∧ call.settles? v = some j := by
  cases action with
  | jobs call =>
      rw [Request.mark?] at h
      split at h
      · exact ⟨call, rfl, by assumption⟩
      · cases h
  | audit eventType workerId jobId detail =>
      rw [Request.mark?] at h
      split at h <;> cases h
  | _ => cases h

theorem inStep_runMarks {refused : Nat → Bool} {j : String}
    (hcalls : ∀ e ∈ history, e.call < s.calls.length)
    (hrefused : ∀ e ∈ history, refused e.call → ∀ c, s.calls[e.call]? = some c →
      (c.request.mark? j (e.action, e.world)).bind Mark.opened? = none)
    (hturn : SettledInTurn s (fun i => !refused i) history j) :
    Mark.InStep (runMarks s refused j history) := by
  intro earlier a later hsplit b hb
  obtain ⟨front, back, rfl, rfl, hback⟩ := List.filterMap_eq_append_iff.mp hsplit
  obtain ⟨silent, e, rest, rfl, hsilent, he, -⟩ := List.filterMap_eq_cons_iff.mp hback
  have hfront : runMarks s refused j (front ++ silent) = runMarks s refused j front := by
    rw [runMarks, List.filterMap_append, List.filterMap_eq_nil_iff.mpr hsilent, List.append_nil,
      runMarks]
  have hmem : ∀ e' ∈ front ++ silent, e' ∈ front ++ (silent ++ e :: rest) := by
    intro e' he'
    rw [← List.append_assoc]
    exact List.mem_append_left _ he'
  have hopens : Mark.opens (runMarks s refused j (front ++ silent)) =
      settlements s (front ++ silent) j :=
    opens_runMarks fun e' he' => hrefused e' (hmem e' he')
  have hcloses : Mark.closes (runMarks s refused j (front ++ silent)) =
      settlementRows (fun i => !refused i) (front ++ silent) j :=
    closes_runMarks fun e' he' => hcalls e' (hmem e' he')
  rw [hfront] at hopens hcloses
  have hsettles : ∃ call, e.action = .jobs call ∧ call.settles? e.world = some j := by
    split at he
    · cases he
    · obtain ⟨c, -, hmark⟩ := Option.bind_eq_some_iff.mp he
      obtain ⟨mark, hmark, hopened⟩ := Option.map_eq_some_iff.mp hmark
      cases mark with
      | opened eventType => exact action_of_opened hmark
      | closed eventType => cases hopened
  have hwritten := hturn (front ++ silent) e rest (List.append_assoc _ _ _).symm hsettles b
    (hopens ▸ hb)
  exact hcloses ▸ hwritten

/-- The calls whose rejection, if any, the store has accepted. -/
def keptCall (s : Pool) (history : List (Event World Action)) (i : Nat) : Bool :=
  !refusedCall s history i

theorem no_settlement_of_refused {reg : Regime World Action Action.Reply Exc Request Response}
    (hrun : Recorded (coordinator cfg) reg ⟨w, []⟩ history s) (hanswered : ¬ s.Busy) (j : String)
    {e : Event World Action} (he : e ∈ history) (hrefused : refusedCall s history e.call)
    {c : Call Action Action.Reply Exc Request Response} (hc : s.calls[e.call]? = some c) :
    (c.request.mark? j (e.action, e.world)).bind Mark.opened? = none := by
  rw [refusedCall, hc, Option.any_some] at hrefused
  have hopens := (settles_of_answered hrun hanswered j hc).opens hrefused
  rw [Request.marks, Mark.opens_filterMap, List.filterMap_eq_nil_iff] at hopens
  exact hopens (e.action, e.world) (mem_pathOf.mpr he)

theorem paired_runMarks {reg : Regime World Action Action.Reply Exc Request Response}
    (hrun : Recorded (coordinator cfg) reg ⟨w, []⟩ history s) (hanswered : ¬ s.Busy) (j : String)
    (i : Nat) :
    Mark.Paired (Mark.ofParty Prod.fst i (runMarks s (refusedCall s history) j history)) := by
  have hnone (h : ∀ e ∈ history, e.call = i → refusedCall s history e.call ∨
      s.calls[e.call]? = none) :
      Mark.ofParty Prod.fst i (runMarks s (refusedCall s history) j history) = [] := by
    rw [Mark.ofParty, List.filter_eq_nil_iff]
    intro mark hmark
    obtain ⟨e, he, hsome⟩ := List.mem_filterMap.mp hmark
    have hparty := party_runMark hsome
    rw [decide_eq_true_iff, hparty]
    intro hi
    rcases h e he hi with hrefused | hcall
    · rw [if_pos hrefused] at hsome
      cases hsome
    · rw [hcall, Option.bind_none, ite_self] at hsome
      cases hsome
  cases hc : s.calls[i]? with
  | none => exact Or.inl (hnone fun e _ hi => Or.inr (hi ▸ hc))
  | some c =>
      cases hrefused : refusedCall s history i with
      | true => exact Or.inl (hnone fun e _ hi => Or.inl (hi ▸ hrefused))
      | false =>
          rw [ofParty_runMarks hc hrefused]
          rw [refusedCall, hc, Option.any_some] at hrefused
          exact ((settles_of_answered hrun hanswered j hc).paired hrefused).map _

/-- The rows of a job that the kept calls wrote are its settlements, in the order of the
settlements when the job is settled in turn. -/
structure RowsMatch (s : Pool) (history : List (Event World Action)) (j : String) : Prop where
  matched : (settlementRows (keptCall s history) history j).Perm (settlements s history j)
  inOrder : SettledInTurn s (keptCall s history) history j →
    settlementRows (keptCall s history) history j = settlements s history j

theorem rowsMatch_of_answered {reg : Regime World Action Action.Reply Exc Request Response}
    (hrun : Recorded (coordinator cfg) reg ⟨w, []⟩ history s) (hanswered : ¬ s.Busy)
    (j : String) : RowsMatch s history j := by
  have hrefused : ∀ e ∈ history, refusedCall s history e.call → ∀ c, s.calls[e.call]? = some c →
      (c.request.mark? j (e.action, e.world)).bind Mark.opened? = none :=
    fun e he h c hc => no_settlement_of_refused hrun hanswered j he h hc
  have hopens : Mark.opens (runMarks s (refusedCall s history) j history) =
      settlements s history j := opens_runMarks hrefused
  have hcloses : Mark.closes (runMarks s (refusedCall s history) j history) =
      settlementRows (keptCall s history) history j := closes_runMarks hrun.call_lt
  have hpaired := paired_runMarks hrun hanswered j
  constructor
  · rw [← hopens, ← hcloses]
    exact Mark.closes_perm_opens hpaired
  · intro hturn
    rw [← hopens, ← hcloses]
    exact Mark.closes_eq_opens hpaired (inStep_runMarks hrun.call_lt hrefused hturn)

/-- The call moved the job from `PROCESSING` to `FAILED` without a retry. -/
def FailedJob (history : List (Event World Action)) (i : Nat) (jobId : String) : Prop :=
  ∃ e ∈ history, e.call = i ∧
    (∃ claimToken reason, e.action = .jobs (.fail jobId claimToken reason .invalidInput none false)) ∧
    (∃ r, e.world.jobs.get? jobId = some r ∧ r.status = .processing) ∧
    ∃ r, (Action.exec e.action e.world).1.jobs.get? jobId = some r ∧ r.status = .failed ∧
      r.retryable = false

theorem failedJob_of_rejected {reg : Regime World Action Action.Reply Exc Request Response}
    (hrun : Recorded (coordinator cfg) reg ⟨w, []⟩ history s) {i : Nat}
    {identity : WorkerIdentity} {jobId claimToken reason : String} {manifest : OutputManifest}
    (hcall : s.calls[i]? = some ⟨.complete identity jobId claimToken manifest,
      .raise (.completionRejected reason)⟩) (hkept : keptCall s history i) :
    FailedJob history i jobId := by
  have hprogram : ((Request.complete identity jobId claimToken manifest).program cfg).Along
      Action.exec fun path res => res = .error (.completionRejected reason) →
        path.any (Request.complete identity jobId claimToken manifest).refused = false →
        ∃ v, (.jobs (.fail jobId claimToken reason .invalidInput none false), v) ∈ path ∧
          (JobStoreCall.fail jobId claimToken reason .invalidInput none false).accepted v := by
    have hcomplete : (complete cfg identity jobId claimToken manifest).Along Action.exec
        (FailsRejected (.complete identity jobId claimToken manifest) jobId claimToken) :=
      along_rejected cfg identity jobId claimToken manifest rfl
    refine Prog.along_bind.mpr (hcomplete.mono ?_)
    rintro path (error | value) hfails
    · exact fun hres => hfails reason (congrArg Except.error (Except.error.inj hres))
    · exact fun hres => absurd hres (by simp)
  rw [keptCall, refusedCall, hcall, Option.any_some, Bool.not_eq_true'] at hkept
  have hraised : (Prog.raise (.completionRejected reason) : Coroutine Response) =
      Prog.ofExcept (.error (.completionRejected reason)) := rfl
  obtain ⟨v, hmem, haccepted⟩ := hrun.along hcall hraised hprogram rfl hkept
  obtain ⟨r, hget, hlive, hwritten⟩ := accepted_fail haccepted
  exact ⟨⟨i, _, v⟩, mem_pathOf.mp hmem, rfl, ⟨claimToken, reason, rfl⟩, ⟨r, hget, hlive.1⟩,
    _, hwritten, rfl, rfl⟩

/-- The audit log holds the rows that the calls wrote, in order. For each job, the rows of
settlements by calls whose rejection was not refused are its settlements one for one, in order when
the job is settled in turn; and such a call that raised `CompletionRejected` failed its job. -/
theorem settlement_audit_matches (cfg : ServiceConfig) {w : World} {s : Pool}
    {history : List (Event World Action)}
    (hrun : Recorded (coordinator cfg) auditedSchedule ⟨w, []⟩ history s)
    (hanswered : ¬ s.Busy) :
    s.world.auditLog = w.auditLog ++ history.filterMap auditRow? ∧
      (∀ j, RowsMatch s history j) ∧
      ∀ (i : Nat) (identity : WorkerIdentity) (jobId claimToken : String)
        (manifest : OutputManifest) (reason : String),
        s.calls[i]? = some ⟨.complete identity jobId claimToken manifest,
          .raise (.completionRejected reason)⟩ →
        keptCall s history i → FailedJob history i jobId :=
  ⟨auditLog_of_recorded hrun, rowsMatch_of_answered hrun hanswered,
    fun _ _ _ _ _ _ hcall hkept => failedJob_of_rejected hrun hcall hkept⟩

end Answered

end Runs

/-! ### A row that is overtaken -/

/-- A release that has settled its job writes its row only after the job was leased and failed. -/
def overtakenMoves : List (Move World Request) :=
  [.begin (.registerHeartbeat smallIdentity smallRegistration)] ++ List.replicate 3 (.advance 0) ++
    [.begin (.submit echoJob), .advance 1] ++
    [.begin (.lease smallIdentity ["test.deterministic.echo.v1"] none)] ++
    List.replicate 7 (.advance 2) ++
    [.begin (.release smallIdentity "job-1" "t" "later")] ++ List.replicate 3 (.advance 3) ++
    [.begin (.lease smallIdentity ["test.deterministic.echo.v1"] none)] ++
    List.replicate 7 (.advance 4) ++
    [.begin (.fail smallIdentity "job-1" "tt" "broken" true .temporaryFailure)] ++
    List.replicate 4 (.advance 5) ++ [.advance 3]

def overtakenRun : Pool :=
  letI := PyText.ascii
  Sys.play (coordinator smallConfig) ⟨smallWorld, []⟩ overtakenMoves

def overtakenHistory : List (Event World Action) :=
  letI := PyText.ascii
  Sys.played (coordinator smallConfig) ⟨smallWorld, []⟩ overtakenMoves

theorem permitted_overtaken : letI := PyText.ascii
    Permitted (coordinator smallConfig) auditedSchedule ⟨smallWorld, []⟩ overtakenMoves :=
  letI := PyText.ascii
  permitted_of_no_outage (by simp [overtakenMoves]) rfl

theorem overtaken_recorded : letI := PyText.ascii
    Recorded (coordinator smallConfig) auditedSchedule ⟨smallWorld, []⟩ overtakenHistory
      overtakenRun := by
  let _ := PyText.ascii
  have hstart : Recorded (coordinator smallConfig) auditedSchedule ⟨smallWorld, []⟩ []
      ⟨smallWorld, []⟩ := .refl _
  have hrun := hstart.play permitted_overtaken
  rwa [List.nil_append] at hrun

theorem overtaken_values : letI := PyText.ascii
    ¬ overtakenRun.Busy ∧ (∀ c ∈ overtakenRun.calls, c.request.attests = false) ∧
      settlements overtakenRun overtakenHistory "job-1" = [(3, .jobReleased), (5, .jobFailed)] ∧
      settlementRows (fun _ => true) overtakenHistory "job-1" ≠
        settlements overtakenRun overtakenHistory "job-1" := by
  decide +kernel

/-- The rows of the released and then failed job are in the order in which they were written, not in
that of its settlements; no call attests an output. -/
theorem release_row_overtaken : letI := PyText.ascii
    ∃ history s, Recorded (coordinator smallConfig) auditedSchedule ⟨smallWorld, []⟩ history s ∧
      ¬ s.Busy ∧ (∀ c ∈ s.calls, c.request.attests = false) ∧
      settlements s history "job-1" = [(3, .jobReleased), (5, .jobFailed)] ∧
      settlementRows (fun _ => true) history "job-1" ≠ settlements s history "job-1" := by
  let _ := PyText.ascii
  exact ⟨overtakenHistory, overtakenRun, overtaken_recorded, overtaken_values⟩

/-- The run in which the row is overtaken has a row for each settlement. -/
theorem settlement_audit_matches_overtaken : letI := PyText.ascii
    (overtakenRun.world.auditLog =
      smallWorld.auditLog ++ overtakenHistory.filterMap auditRow?) ∧
      RowsMatch overtakenRun overtakenHistory "job-1" := by
  let _ := PyText.ascii
  obtain ⟨hlog, hrows, -⟩ :=
    settlement_audit_matches smallConfig overtaken_recorded overtaken_values.1
  exact ⟨hlog, hrows "job-1"⟩

end GpuWorkerPool
