import GpuWorkerPool.Base.History
import GpuWorkerPool.Interference

/-!
Who a worker is. A worker id is bound to an identity subject and a tenant by the configuration or by
an administrator, and by nobody else. The registry checks every write against the row it finds, so
a binding that was checked before another await is still the binding of the row, and it never
changes.
-/

namespace GpuWorkerPool

open Base WorkerPoolService

/-- The row has the subject and the tenant of the enrollment. -/
def WorkerRecord.BoundBy (row : WorkerRecord) (enrollment : WorkerEnrollment) : Prop :=
  row.identitySubject = enrollment.identitySubject ∧ row.tenantId = enrollment.tenantId

/-- Two states of one worker: its binding is the same. -/
def SameBinding (row row' : WorkerRecord) : Prop :=
  row'.identitySubject = row.identitySubject ∧ row'.tenantId = row.tenantId

/-- Every worker is still registered, under its old binding. -/
def KeepsBindings (s s' : MemoryWorkerRegistry) : Prop :=
  ∀ id row, s.get? id = some row → ∃ row', s'.get? id = some row' ∧ SameBinding row row'

theorem KeepsBindings.refl (s : MemoryWorkerRegistry) : KeepsBindings s s :=
  fun _ row hget => ⟨row, hget, rfl, rfl⟩

theorem KeepsBindings.trans {s s' s'' : MemoryWorkerRegistry} (h : KeepsBindings s s')
    (h' : KeepsBindings s' s'') : KeepsBindings s s'' := by
  intro id row hget
  obtain ⟨row', hget', hsubject, htenant⟩ := h id row hget
  obtain ⟨row'', hget'', hsubject', htenant'⟩ := h' id row' hget'
  exact ⟨row'', hget'', hsubject'.trans hsubject, htenant'.trans htenant⟩

theorem RegistryCall.RowStep.sameBinding {now : DateTime} {s : MemoryWorkerRegistry} {id : String}
    {call : RegistryCall} {row : WorkerRecord} {after : Option WorkerRecord}
    (h : RowStep now s id call (some row) after) :
    ∃ row', after = some row' ∧ SameBinding row row' := by
  cases h with
  | kept => exact ⟨row, rfl, rfl, rfl⟩
  | upserted _ _ hsubject htenant _ =>
      exact ⟨_, rfl, (hsubject row rfl).symm, (htenant row rfl).symm⟩
  | statusSet _ => exact ⟨_, rfl, rfl, rfl⟩

/-- Whatever an operation does, bindings stay. -/
theorem RegistryCall.exec_keepsBindings (now : DateTime) (s : MemoryWorkerRegistry)
    (call : RegistryCall) : KeepsBindings s (call.exec now s).1 := by
  intro id row hget
  have hrow := call.exec_row now s id
  rw [hget] at hrow
  exact hrow.sameBinding

/-- The configuration or the administrator gives the worker this binding. -/
def Bound (cfg : ServiceConfig) (admin : String → WorkerEnrollment → Prop) (id subject : String)
    (tenantId : Option String) : Prop :=
  ∃ enrollment : WorkerEnrollment,
    (cfg.enrollments.lookup id = some enrollment ∨ admin id enrollment) ∧
      subject = enrollment.identitySubject ∧ tenantId = enrollment.tenantId

/-- Every row has a binding that was given to it, and no two rows share a subject. -/
structure BindingsApproved (cfg : ServiceConfig) (admin : String → WorkerEnrollment → Prop)
    (s : MemoryWorkerRegistry) : Prop where
  bound : ∀ id row, s.get? id = some row → Bound cfg admin id row.identitySubject row.tenantId
  unshared : ∀ id id' row row', s.get? id = some row → s.get? id' = some row' →
    row.identitySubject = row'.identitySubject → id = id'

/-- What a write to the registry needs so as to keep bindings approved. -/
def UpsertsBound (cfg : ServiceConfig) (admin : String → WorkerEnrollment → Prop) : Action → Prop
  | .registry (.upsert registration identitySubject) =>
      Bound cfg admin registration.workerId identitySubject registration.tenantId
  | _ => True

section Registry

variable {cfg : ServiceConfig} {admin : String → WorkerEnrollment → Prop}

/-- A row with a subject had it before, or is written under it while nobody else has it. -/
theorem RegistryCall.RowStep.subject_cases {now : DateTime} {s : MemoryWorkerRegistry}
    {id : String} {call : RegistryCall} {row : Option WorkerRecord} {row' : WorkerRecord}
    (h : RowStep now s id call row (some row')) :
    (∃ w, row = some w ∧ w.identitySubject = row'.identitySubject) ∨
      ∃ registration, call = .upsert registration row'.identitySubject ∧
        registration.workerId = id ∧
        ∀ other ∈ s.rows, other.identitySubject = row'.identitySubject → other.workerId = id := by
  cases h with
  | kept => exact Or.inl ⟨row', rfl, rfl⟩
  | upserted _ hid _ _ hfree => exact Or.inr ⟨_, rfl, hid, hfree⟩
  | statusSet w => exact Or.inl ⟨w, rfl, rfl⟩

theorem BindingsApproved.exec {s : MemoryWorkerRegistry} (h : BindingsApproved cfg admin s)
    (now : DateTime) {call : RegistryCall} (hbound : UpsertsBound cfg admin (.registry call)) :
    BindingsApproved cfg admin (call.exec now s).1 := by
  refine ⟨fun id row' hget' => ?_, fun id id' row row' hget hget' hsame => ?_⟩
  · have hstep := call.exec_row now s id
    rw [hget'] at hstep
    generalize hold : s.get? id = old at hstep
    cases hstep with
    | kept => exact h.bound id row' hold
    | upserted _ hid _ _ _ => exact hid ▸ hbound
    | statusSet w => exact (h.bound id w hold :)
  · have hstep := (hget ▸ call.exec_row now s id).subject_cases
    have hstep' := (hget' ▸ call.exec_row now s id').subject_cases
    have hkey : ∀ {k : String} {w : WorkerRecord}, s.get? k = some w → w.workerId = k :=
      fun hk => Table.key_eq_of_get? hk
    rcases hstep with ⟨w, hw, hsubject⟩ | ⟨registration, hcall, hid, hfree⟩ <;>
      rcases hstep' with ⟨w', hw', hsubject'⟩ | ⟨registration', hcall', hid', hfree'⟩
    · exact h.unshared id id' w w' hw hw' (hsubject.trans (hsame.trans hsubject'.symm))
    · exact (hkey hw).symm.trans (hfree' w (Table.mem_of_get? hw) (hsubject.trans hsame))
    · exact (hfree w' (Table.mem_of_get? hw') (hsubject'.trans hsame.symm)).symm.trans (hkey hw')
    · obtain ⟨rfl, -⟩ := RegistryCall.upsert.inj (hcall.symm.trans hcall')
      exact hid.symm.trans hid'

theorem BindingsApproved.empty (cfg : ServiceConfig) (admin : String → WorkerEnrollment → Prop) :
    BindingsApproved cfg admin Table.empty :=
  ⟨fun id row hget => absurd hget (by simp), fun id _ row _ hget => absurd hget (by simp)⟩

end Registry

section Runs

variable [PyText]

/-- Only the operations of the registry touch it. -/
theorem Action.exec_registry_of_ne {action : Action} (h : ∀ call, action ≠ .registry call)
    (w : World) : (action.exec w).1.registry = w.registry := by
  cases action with
  | registry call => exact absurd rfl (h call)
  | assets call =>
      rw [Action.exec]
      split <;> rfl
  | audit eventType workerId jobId detail =>
      rw [Action.exec]
      split <;> rfl
  | _ => rfl

theorem Action.exec_keepsBindings (action : Action) (w : World) :
    KeepsBindings w.registry (action.exec w).1.registry := by
  by_cases hregistry : ∃ call, action = .registry call
  · obtain ⟨call, rfl⟩ := hregistry
    exact call.exec_keepsBindings w.now w.registry
  · rw [Action.exec_registry_of_ne fun call hcall => hregistry ⟨call, hcall⟩]
    exact .refl _

/-- Any requests in any order, whatever tokens they present. -/
def freeSchedule : Regime World Action Action.Reply Exc Request Response where
  accepts _ _ := True
  allow _ _ _ := True
  env s w := s.world.Outside w

/-- Bindings never change, whatever calls are made. -/
theorem keepsBindings_of_reaches {cfg : ServiceConfig}
    {s t : Sys World Action Action.Reply Exc Request Response}
    (h : Reaches (coordinator cfg) freeSchedule s t) :
    KeepsBindings s.world.registry t.world.registry := by
  induction h with
  | refl => exact .refl _
  | tail _ hstep ih =>
      refine ih.trans ?_
      cases hstep with
      | begin q accepted => exact .refl _
      | advance i q a next here allowed => exact a.exec_keepsBindings _
      | env w changed =>
          obtain ⟨now, clock, assetOutage, auditOutage, rfl⟩ := changed
          exact .refl _

variable {cfg : ServiceConfig} {admin : String → WorkerEnrollment → Prop}

theorem BindingsApproved.action {w : World} (h : BindingsApproved cfg admin w.registry)
    {action : Action} (hbound : UpsertsBound cfg admin action) :
    BindingsApproved cfg admin (action.exec w).1.registry := by
  by_cases hregistry : ∃ call, action = .registry call
  · obtain ⟨call, rfl⟩ := hregistry
    exact h.exec w.now hbound
  · rw [Action.exec_registry_of_ne fun call hcall => hregistry ⟨call, hcall⟩]
    exact h

abbrev bindingContract (cfg : ServiceConfig) (admin : String → WorkerEnrollment → Prop) :
    Prog.Contract Action World where
  inv w := BindingsApproved cfg admin w.registry
  allow _ _ := True
  rely _ _ := True
  guar _ _ := True

theorem sat_of_upsertsBound {α : Type} {p : Coroutine α} (h : p.Awaits (UpsertsBound cfg admin))
    (w : World) :
    Prog.Sat Action.exec (bindingContract cfg admin) p w fun _ _ => True := by
  refine Prog.sat_of_awaits (fun action v hbound hinv _ => ?_) h w
  exact ⟨BindingsApproved.action hinv hbound, trivial⟩

/-- The enrollment of an approved identity is a binding that was given to its worker. -/
theorem sat_approvedEnrollment_bound (identity : WorkerIdentity) (w : World) :
    Prog.Sat Action.exec (bindingContract cfg admin) (approvedEnrollment cfg identity) w
      fun res _ => ∀ enrollment, res = .ok enrollment →
        Bound cfg admin identity.workerId identity.subject enrollment.tenantId := by
  refine sat_getWorker (fun _ _ => trivial) fun t _ hinv => ?_
  cases hrow : t.registry.get? identity.workerId with
  | none =>
      dsimp only
      cases hconfigured : cfg.enrollments.lookup identity.workerId with
      | none => simp
      | some configured =>
          dsimp only
          split_ifs with hsubject
          · simp
          · rintro enrollment ⟨⟩
            exact ⟨configured, Or.inl hconfigured, (not_not.mp hsubject).symm, rfl⟩
  | some row =>
      dsimp only [WorkerEnrollment.new]
      split_ifs with hsubject hrevoked hvalid htenant
      · simp
      · simp
      · rintro enrollment ⟨⟩
        exact not_not.mp hsubject ▸ hinv.bound _ row hrow
      · simp [Prog.ofExcept]
      · simp [Prog.ofExcept]

/-- A heartbeat writes the binding that was approved for its identity. -/
theorem sat_registerHeartbeat_bound (identity : WorkerIdentity)
    (registration : WorkerRegistration) (w : World) :
    Prog.Sat Action.exec (bindingContract cfg admin) (registerHeartbeat cfg identity registration)
      w fun _ _ => True := by
  rw [registerHeartbeat]
  split_ifs with hworker
  · trivial
  · refine Prog.sat_bind.mpr ((sat_approvedEnrollment_bound identity w).mono ?_)
    rintro (error | enrollment) t hbound
    · trivial
    · have hgiven := hbound enrollment rfl
      rw [← not_not.mp hworker] at hgiven
      refine sat_of_upsertsBound ?_ t
      split_ifs
      · trivial
      · refine .bind (Prog.awaits_ofExcept _) fun _ => ?_
        split
        · trivial
        · refine .bind ⟨hgiven, fun _ => trivial⟩ fun reply => ?_
          refine .bind (Prog.awaits_ofExcept _) fun record => ?_
          exact .bind ⟨trivial, fun _ => Prog.awaits_ofExcept _⟩ fun _ => trivial

/-- The runs in which administrators enroll as `admin` says. -/
def enrollingSchedule (admin : String → WorkerEnrollment → Prop) :
    Regime World Action Action.Reply Exc Request Response where
  accepts request _ := ∀ id enrollment, request = .enrollWorker id enrollment → admin id enrollment
  allow _ _ _ := True
  env s w := s.world.Outside w

def bindingDiscipline (cfg : ServiceConfig) (admin : String → WorkerEnrollment → Prop) :
    Discipline (coordinator cfg) (enrollingSchedule admin) where
  inv w := BindingsApproved cfg admin w.registry
  rely _ _ := True
  evolve _ _ := True
  guar _ _ _ := True
  post _ _ _ _ := True
  rely_refl _ := trivial
  rely_trans _ _ := trivial
  rely_evolve _ := trivial
  guar_rely _ _ := trivial
  post_stable _ _ _ := trivial
  begin_sat := by
    intro i request w _ henrolls
    show Prog.Sat Action.exec (bindingContract cfg admin) (request.program cfg) w _
    by_cases hheartbeat : ∃ identity registration,
        request = .registerHeartbeat identity registration
    · obtain ⟨identity, registration, rfl⟩ := hheartbeat
      refine Prog.sat_bind.mpr ((sat_registerHeartbeat_bound identity registration w).mono ?_)
      rintro (error | record) t - <;> trivial
    · refine sat_of_upsertsBound ((request.awaits_program cfg).mono ?_) w
      rintro (_ | _ | call | _ | _ | _) hcall
      case registry =>
        cases call with
        | upsert registration identitySubject =>
            cases request <;> simp [Touching, Request.RegistryCalls] at hcall hheartbeat
            obtain ⟨rfl, rfl⟩ := hcall
            exact ⟨_, Or.inr (henrolls _ _ rfl), rfl, rfl⟩
        | _ => trivial
      all_goals trivial
  env_ok := by
    rintro s w hinv ⟨now, clock, assetOutage, auditOutage, rfl⟩
    exact ⟨hinv, trivial, fun _ => trivial⟩

/-! ### Calls that raise -/

def IsAudit : Action → Prop
  | .audit .. => True
  | _ => False

/-- The action leaves the registry as it is. -/
def KeepsRegistry (step : Action × World) : Prop :=
  (Action.exec step.1 step.2).1.registry = step.2.registry

/-- A call that raises without having come to an audit write changes no row. -/
def RaisesCleanly {α : Type} (path : List (Action × World)) (res : Except Exc α) : Prop :=
  (∃ error, res = .error error) → (∀ step ∈ path, ¬ IsAudit step.1) → ∀ step ∈ path, KeepsRegistry step

theorem keepsRegistry_of_reads {P : JobStoreCall → Prop} {action : Action}
    (h : Touching P RegistryCall.Reads action) (w : World) : KeepsRegistry (action, w) := by
  by_cases hregistry : ∃ call, action = .registry call
  · obtain ⟨call, rfl⟩ := hregistry
    cases call with
    | upsert _ _ => exact h.elim
    | setStatus _ _ => exact h.elim
    | _ => rfl
  · exact Action.exec_registry_of_ne (fun call hcall => hregistry ⟨call, hcall⟩) w

theorem along_of_reads {α : Type} {P : JobStoreCall → Prop} {p : Coroutine α}
    (h : p.Awaits (Touching P RegistryCall.Reads)) :
    p.Along Action.exec RaisesCleanly :=
  (Prog.along_of_awaits h).mono fun _ _ hpath _ _ step hstep =>
    keepsRegistry_of_reads (hpath step hstep) step.2

theorem raisesCleanly_of_audit {α : Type} {path : List (Action × World)} {step : Action × World}
    (hstep : step ∈ path) (haudit : IsAudit step.1) (res : Except Exc α) :
    RaisesCleanly path res :=
  fun _ hnone => absurd haudit (hnone step hstep)

theorem raisesCleanly_append {α : Type} {path rest : List (Action × World)} {res : Except Exc α}
    (hpath : ∀ step ∈ path, KeepsRegistry step) (hrest : RaisesCleanly rest res) :
    RaisesCleanly (path ++ rest) res := by
  intro hraises hnone step hstep
  rcases List.mem_append.mp hstep with hold | hnew
  · exact hpath step hold
  · exact hrest hraises (fun step h => hnone step (List.mem_append_right _ h)) step hnew

/-- Reading first changes nothing about raising cleanly. -/
theorem along_bind_of_reads {α β : Type} {P : JobStoreCall → Prop} {p : Coroutine α}
    {f : α → Coroutine β} (hp : p.Awaits (Touching P RegistryCall.Reads))
    (hf : ∀ value, (f value).Along Action.exec RaisesCleanly) :
    (p >>= f).Along Action.exec RaisesCleanly := by
  refine Prog.along_bind.mpr ((Prog.along_of_awaits hp).mono fun path res hpath => ?_)
  have hkeeps : ∀ step ∈ path, KeepsRegistry step :=
    fun step hstep => keepsRegistry_of_reads (hpath step hstep) step.2
  cases res with
  | ok value => exact (hf value).mono fun rest res hrest => raisesCleanly_append hkeeps hrest
  | error error => exact fun _ _ => hkeeps

theorem along_audit {α : Type} (step : Action × World) (eventType : AuditEventType)
    (workerId jobId : Option String) (detail : List (String × JsonValue))
    (next : Except Exc Unit → Coroutine α) :
    (Prog.await (.audit eventType workerId jobId detail) next : Coroutine α).Along Action.exec
      fun path => RaisesCleanly (step :: path) := by
  refine fun v => Prog.along_of_forall (fun path res => ?_) _
  have haudit : (Action.audit eventType workerId jobId detail, v) ∈
      step :: (.audit eventType workerId jobId detail, v) :: path :=
    List.mem_cons_of_mem _ (List.mem_cons_self ..)
  exact raisesCleanly_of_audit haudit trivial res

/-- What follows an accepted write goes on to the audit log or returns. -/
theorem along_upsert {α : Type} {registration : WorkerRegistration} {identitySubject : String}
    {f : Except Exc WorkerRecord → Coroutine α}
    (hrefused : ∀ error, ∃ error', f (.error error) = .raise error')
    (haccepted : ∀ record, (∃ value, f (.ok record) = .ret value) ∨
      ∃ eventType workerId jobId detail next,
        f (.ok record) = .await (.audit eventType workerId jobId detail) next) :
    (workerRegistry (.upsert registration identitySubject) >>= f).Along Action.exec
      RaisesCleanly := by
  intro w
  show (f (w.registry.upsert w.now registration identitySubject).2).Along _ _
  rcases RegistryCall.upsert_cases w.registry w.now registration identitySubject with
    ⟨error, hupsert⟩ | ⟨-, -, -, hupsert⟩
  · obtain ⟨error', hraise⟩ := hrefused error
    rw [hupsert, hraise]
    rintro - - step hstep
    obtain rfl := List.mem_singleton.mp hstep
    exact congrArg Prod.fst hupsert
  · rw [hupsert]
    rcases haccepted (MemoryWorkerRegistry.upsertRecord (w.registry.get? registration.workerId)
      w.now registration identitySubject) with
      ⟨value, hret⟩ | ⟨eventType, workerId, jobId, detail, next, haudit⟩
    · rw [hret]
      rintro ⟨error, herror⟩
      exact absurd herror (by simp)
    · rw [haudit]
      exact along_audit _ _ _ _ _ _

theorem along_registerHeartbeat (identity : WorkerIdentity) (registration : WorkerRegistration) :
    (registerHeartbeat cfg identity registration).Along Action.exec RaisesCleanly := by
  have hnothing : ∀ error, (Prog.raise error : Coroutine WorkerRecord).Along Action.exec
      RaisesCleanly := fun error => along_of_reads (P := fun _ => True) trivial
  rw [registerHeartbeat]
  split_ifs
  · exact hnothing _
  · refine along_bind_of_reads (P := fun _ => True) (awaits_approvedEnrollment cfg trivial)
      fun enrollment => ?_
    split_ifs
    · exact hnothing _
    · refine along_bind_of_reads (P := fun _ => True) (Prog.awaits_ofExcept _) fun _ => ?_
      split
      · exact hnothing _
      · refine along_upsert (fun error => ⟨_, rfl⟩) fun record => Or.inr ?_
        exact ⟨_, _, _, _, _, rfl⟩

theorem along_enrollWorker (workerId : String) (enrollment : WorkerEnrollment) :
    (enrollWorker workerId enrollment).Along Action.exec RaisesCleanly := by
  refine along_bind_of_reads (P := fun _ => True) (Prog.awaits_ofExcept _) fun _ => ?_
  refine along_bind_of_reads (P := fun _ => True) (awaits_workerRegistry trivial)
    fun existing => ?_
  cases existing with
  | some existing =>
      refine along_of_reads (P := fun _ => True) ?_
      dsimp only
      split_ifs <;> trivial
  | none => exact along_upsert (fun error => ⟨_, rfl⟩) fun record => Or.inl ⟨_, rfl⟩

theorem along_setWorkerStatus (workerId : String) (status : WorkerStatus) :
    (setWorkerStatus workerId status).Along Action.exec RaisesCleanly := by
  intro w
  generalize (Action.exec (.registry (.setStatus workerId status)) w).2 = changed
  cases changed with
  | false =>
      rintro ⟨error, herror⟩
      exact absurd herror (by simp)
  | true => exact along_audit _ _ _ _ _ _

theorem along_program (request : Request) :
    (request.program cfg).Along Action.exec RaisesCleanly := by
  by_cases hreads : ∀ call, request.RegistryCalls call → call.Reads
  · refine along_of_reads (P := fun _ => True) ((request.awaits_program cfg).mono ?_)
    rintro (_ | _ | call | _ | _ | _) hcall
    case registry => exact hreads call hcall
    all_goals trivial
  · have hresult : ∀ {α : Type} {p : Coroutine α} (f : α → Response),
        p.Along Action.exec RaisesCleanly →
        (p >>= fun value => pure (f value)).Along Action.exec RaisesCleanly := by
      intro α p f hp
      refine Prog.along_bind.mpr (hp.mono fun path res hpath => ?_)
      cases res with
      | ok value =>
          rintro ⟨error, herror⟩
          exact absurd herror (by simp)
      | error error => exact fun _ => hpath ⟨error, rfl⟩
    cases request with
    | registerHeartbeat identity registration =>
        exact hresult _ (along_registerHeartbeat identity registration)
    | enrollWorker workerId enrollment => exact hresult _ (along_enrollWorker workerId enrollment)
    | setWorkerStatus workerId status => exact hresult _ (along_setWorkerStatus workerId status)
    | workerViews _ _ _ =>
        refine absurd (fun call hcall => ?_) hreads
        rcases hcall with rfl | rfl <;> trivial
    | _ =>
        refine absurd ?_ hreads
        rintro call ⟨⟩
        all_goals trivial

/-! ### Bindings over whole runs -/

/-- No self-enrolment and bindings for ever. In every state that any interleaving of calls reaches
from an empty registry, every row has the subject and the tenant that the configuration or the
enrollment of some `enroll_worker` call gives its worker, no two rows share a subject, and every
binding is the same in every later state. A call that has raised without an audit write changed
no row. -/
theorem worker_bindings_approved (cfg : ServiceConfig) {w : World}
    (hempty : w.registry = Table.empty) {history : List (Event World Action)}
    {s : Sys World Action Action.Reply Exc Request Response}
    (hrun : Recorded (coordinator cfg) freeSchedule ⟨w, []⟩ history s) :
    (∀ id row, s.world.registry.get? id = some row →
      (∃ enrollment, cfg.enrollments.lookup id = some enrollment ∧ row.BoundBy enrollment) ∨
        ∃ c ∈ s.calls, ∃ enrollment, c.request = .enrollWorker id enrollment ∧
          row.BoundBy enrollment) ∧
    (∀ s', Reaches (coordinator cfg) freeSchedule s s' →
      KeepsBindings s.world.registry s'.world.registry) ∧
    (∀ id id' row row', s.world.registry.get? id = some row →
      s.world.registry.get? id' = some row' → row.identitySubject = row'.identitySubject →
        id = id') ∧
    ∀ i c error, s.calls[i]? = some c → c.prog = .raise error →
      (∀ e ∈ history, e.call = i → ¬ IsAudit e.action) →
      ∀ e ∈ history, e.call = i → (Action.exec e.action e.world).1.registry = e.world.registry := by
  have hsafe : (bindingDiscipline cfg fun id enrollment =>
      ∃ c ∈ s.calls, c.request = .enrollWorker id enrollment).Safe s := by
    refine Discipline.safe_of_reaches (Discipline.safe_of_no_calls ?_)
      (Reaches.mono ?_ ?_ ?_ hrun.reaches.requested)
    · show BindingsApproved cfg _ w.registry
      rw [hempty]
      exact .empty _ _
    · rintro request v ⟨-, c, hc, rfl⟩ id enrollment hrequest
      exact ⟨c, hc, hrequest⟩
    · exact fun _ _ _ hallow => hallow
    · exact fun _ _ henv => henv
  refine ⟨fun id row hrow => ?_, fun s' => keepsBindings_of_reaches, hsafe.inv.unshared,
    fun i c error hc herror hnone e he hcall => ?_⟩
  · obtain ⟨enrollment, hgiven | ⟨c, hc, hrequest⟩, hsubject, htenant⟩ := hsafe.inv.bound id row hrow
    · exact Or.inl ⟨enrollment, hgiven, hsubject, htenant⟩
    · exact Or.inr ⟨c, hc, enrollment, hrequest, hsubject, htenant⟩
  · subst hcall
    have hraised : c.prog = Prog.ofExcept (.error error) := herror
    have hclean := hrun.along hc hraised (along_program c.request)
    refine hclean ⟨error, rfl⟩ (fun step hstep => ?_) (e.action, e.world) (mem_pathOf.mpr he)
    exact hnone ⟨e.call, step.1, step.2⟩ (mem_pathOf.mp hstep) rfl

end Runs

/-- An administrator enrolls a second worker, and the configured one registers. -/
def enrolledRun : Sys World Action Action.Reply Exc Request Response :=
  letI := PyText.ascii
  Sys.serveAll (coordinator smallConfig) ⟨smallWorld, []⟩
    [.enrollWorker "worker-2" ⟨"subject-2", some "tenant", by decide, by decide⟩,
      .registerHeartbeat smallIdentity smallRegistration]

theorem worker_bindings_approved_after_enrolment :
    (enrolledRun.world.registry.get? "worker-2").map WorkerRecord.tenantId = some (some "tenant") ∧
      ∀ id row, enrolledRun.world.registry.get? id = some row →
        (∃ enrollment, smallConfig.enrollments.lookup id = some enrollment ∧
            row.BoundBy enrollment) ∨
          ∃ c ∈ enrolledRun.calls, ∃ enrollment, c.request = .enrollWorker id enrollment ∧
            row.BoundBy enrollment := by
  let _ := PyText.ascii
  have hreach : Reaches (coordinator smallConfig) freeSchedule ⟨smallWorld, []⟩ enrolledRun := by
    unfold enrolledRun
    apply reaches_serveAll
    refine .cons (fun _ _ _ => trivial) trivial ?_
    exact .cons (fun _ _ _ => trivial) trivial trivial
  obtain ⟨history, hrun⟩ := hreach.recorded
  exact ⟨by decide, (worker_bindings_approved smallConfig rfl hrun).1⟩

end GpuWorkerPool
