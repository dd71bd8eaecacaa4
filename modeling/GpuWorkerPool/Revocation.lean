import GpuWorkerPool.AuthGates

/-!
Revocation is final. From the write of a revocation on, and until another status is written, the
row of the worker stays `REVOKED` whoever upserts it; a call of the worker that begins then reads the
row first, and raises.
-/

namespace GpuWorkerPool

open Base

/-- The row of the worker is there, and `REVOKED`. -/
def World.Revoked (w : World) (id : String) : Prop :=
  ∃ row, w.registry.get? id = some row ∧ row.status = .revoked

namespace RegistryCall

/-- Only another status takes a row away from `REVOKED`. -/
theorem exec_revoked {now : DateTime} {s : MemoryWorkerRegistry} {id : String}
    {call : RegistryCall} (hstatus : ∀ status, call = setStatus id status → status = .revoked)
    {row : WorkerRecord} (hrow : s.get? id = some row) (hrevoked : row.status = .revoked) :
    ∃ row', (call.exec now s).1.get? id = some row' ∧ row'.status = .revoked := by
  have hstep := exec_row now s call id
  generalize (call.exec now s).1.get? id = after at hstep ⊢
  rw [hrow] at hstep
  cases hstep with
  | kept call row => exact ⟨_, rfl, hrevoked⟩
  | upserted row here subject tenant free =>
      refine ⟨_, rfl, ?_⟩
      simp [MemoryWorkerRegistry.upsertRecord, hrevoked]
  | statusSet w => exact ⟨_, rfl, hstatus _ rfl⟩

/-- A revocation that is answered `True` has written it. -/
theorem setStatus_revoked {now : DateTime} {s : MemoryWorkerRegistry} {id : String}
    (h : (MemoryWorkerRegistry.setStatus s now id .revoked).2 = true) :
    ∃ row, (MemoryWorkerRegistry.setStatus s now id .revoked).1.get? id = some row ∧
      row.status = .revoked := by
  rw [MemoryWorkerRegistry.setStatus] at h ⊢
  cases hrow : s.get? id with
  | none =>
      rw [hrow] at h
      exact absurd h Bool.false_ne_true
  | some row =>
      have hkey : row.workerId = id := Table.key_eq_of_get? hrow
      dsimp only
      rw [Table.get?_put, if_pos hkey]
      exact ⟨_, rfl, rfl⟩

end RegistryCall

/-! ### Runs -/

section Runs

variable [PyText] {cfg : AuthConfig}

/-- The operation of the registry that an action awaits. -/
def AuthAction.registryCall? : AuthAction → Option RegistryCall
  | service (.registry call) => some call
  | cancellable (.registry call) => some call
  | _ => none

/-- The action writes a status other than `REVOKED` for the worker. -/
def AuthAction.Reinstates (id : String) (action : AuthAction) : Prop :=
  ∃ status, action.registryCall? = some (.setStatus id status) ∧ status ≠ .revoked

/-- Any requests in any order, while the clocks run freely, backing services fail and recover, the
verifier goes on and callers are cancelled. -/
def poolSchedule : Regime AuthWorld AuthAction AuthAction.Reply Exc PoolRequest PoolResponse where
  accepts _ _ := True
  allow _ _ _ := True
  env s w := s.world.world.Outside w.world ∧ s.world.auth.Progress w.auth

theorem Action.exec_revoked {action : Action} {w : World} {id : String} (h : w.Revoked id)
    (hstatus : ∀ status, action = .registry (.setStatus id status) → status = .revoked) :
    (action.exec w).1.Revoked id := by
  obtain ⟨row, hrow, hrevoked⟩ := h
  cases action with
  | registry call =>
      exact RegistryCall.exec_revoked (fun status hcall => hstatus status (congrArg _ hcall)) hrow
        hrevoked
  | assets call =>
      rw [Action.exec]
      split <;> exact ⟨row, hrow, hrevoked⟩
  | audit eventType workerId jobId detail =>
      rw [Action.exec]
      split <;> exact ⟨row, hrow, hrevoked⟩
  | _ => exact ⟨row, hrow, hrevoked⟩

theorem AuthAction.exec_revoked {action : AuthAction} {w : AuthWorld} {id : String}
    (h : w.world.Revoked id) (hstatus : ¬ action.Reinstates id) :
    (action.exec w).1.world.Revoked id := by
  have hkept : ∀ a : Action, (∀ call, a = .registry call → action.registryCall? = some call) →
      (a.exec w.world).1.Revoked id := by
    refine fun a ha => Action.exec_revoked h fun status hset => ?_
    by_contra hne
    exact hstatus ⟨status, ha _ hset, hne⟩
  cases action with
  | service action =>
      exact hkept action fun call hcall => hcall ▸ rfl
  | cancellable action =>
      have haction := hkept action fun call hcall => hcall ▸ rfl
      rw [exec]
      split
      · exact haction
      · dsimp only
        split
        · exact haction
        · exact h
  | shield task =>
      rw [exec]
      split <;> exact h
  | admitCall _ _ | allow _ _ | leave | startVerification _ => exact h

omit [PyText] in
theorem poolSchedule_env {id : String}
    {s : Sys AuthWorld AuthAction AuthAction.Reply Exc PoolRequest PoolResponse} {w : AuthWorld}
    (henv : poolSchedule.env s w) (h : s.world.world.Revoked id) : w.world.Revoked id := by
  obtain ⟨⟨now, clock, assetOutage, auditOutage, hworld⟩, -⟩ := henv
  rw [hworld]
  exact h

/-- While nobody reinstates the worker its row stays `REVOKED`. -/
theorem revoked_of_recorded {id : String} {history : List (Event AuthWorld AuthAction)}
    {s t : Sys AuthWorld AuthAction AuthAction.Reply Exc PoolRequest PoolResponse}
    (h : Recorded (poolService cfg) poolSchedule s history t) (hs : s.world.world.Revoked id)
    (hstatus : ∀ e ∈ history, ¬ e.action.Reinstates id) :
    t.world.world.Revoked id ∧ ∀ e ∈ history, e.world.world.Revoked id :=
  h.invariant (I := fun w => w.world.Revoked id) hs
    (fun e he hrevoked => e.action.exec_revoked hrevoked (hstatus e he))
    fun _ _ => poolSchedule_env

/-! ### A revocation that was answered -/

/-- The history goes on with no other status for the worker once the call has revoked it. -/
def NotReinstated (history : List (Event AuthWorld AuthAction)) (i : Nat) (id : String) : Prop :=
  ∀ pre e post, history = pre ++ e :: post → e.call = i →
    e.action = .service (.registry (.setStatus id .revoked)) → ∀ f ∈ post, ¬ f.action.Reinstates id

/-- A call of `set_worker_status` that was answered `True` has written the revocation. -/
theorem written_of_answered {w : AuthWorld} {id : String} {i : Nat}
    {history : List (Event AuthWorld AuthAction)}
    {s : Sys AuthWorld AuthAction AuthAction.Reply Exc PoolRequest PoolResponse}
    (h : Recorded (poolService cfg) poolSchedule ⟨w, []⟩ history s)
    (hcall : s.calls[i]? = some
      ⟨.service (.setWorkerStatus id .revoked), .ret (.service (.changed true))⟩) :
    ∃ pre v post,
      history = pre ++ ⟨i, .service (.registry (.setStatus id .revoked)), v⟩ :: post ∧
        (MemoryWorkerRegistry.setStatus v.world.registry v.world.now id .revoked).2 = true := by
  have hfollows : ((PoolRequest.service (.setWorkerStatus id .revoked)).program cfg).Follows
      AuthAction.exec (pathOf history i) (.ret (.service (.changed true))) := h.follows hcall
  obtain ⟨next, hprogram, hrefused⟩ : ∃ next : Bool → AuthCoroutine PoolResponse,
      (PoolRequest.service (.setWorkerStatus id .revoked)).program cfg =
        .await (.service (.registry (.setStatus id .revoked))) next ∧
      next false = .ret (.service (.changed false)) := ⟨_, rfl, rfl⟩
  rw [hprogram] at hfollows
  generalize hpath : pathOf history i = path at hfollows
  cases hfollows with
  | @cons _ _ v path _ rest =>
      have hmem : (AuthAction.service (.registry (.setStatus id .revoked)), v) ∈
          pathOf history i := hpath ▸ List.mem_cons_self
      obtain ⟨pre, post, hsplit⟩ := List.append_of_mem (mem_pathOf.mp hmem)
      refine ⟨pre, v, post, hsplit, ?_⟩
      have hreply : ((AuthAction.service (.registry (.setStatus id .revoked))).exec v).2 =
          (MemoryWorkerRegistry.setStatus v.world.registry v.world.now id .revoked).2 := rfl
      rw [hreply] at rest
      generalize (MemoryWorkerRegistry.setStatus v.world.registry v.world.now id .revoked).2 =
        reply at rest ⊢
      cases reply with
      | true => rfl
      | false =>
          rw [hrefused] at rest
          cases rest

end Runs

/-! ### The calls of a revoked worker -/

/-- A call of a worker begins by reading the worker's row, and a row that is `REVOKED` ends it. -/
def BeginsApproved {A : Type} {Rep : A → Type} {α : Type} (read : A)
    (reply : Option WorkerRecord → Rep read) (p : Prog A Rep Exc α) : Prop :=
  (∃ error, p = .raise error) ∨ ∃ next : Rep read → Prog A Rep Exc α, p = .await read next ∧
    ∀ row : WorkerRecord, row.status = .revoked → ∃ error, next (reply (some row)) = .raise error

theorem BeginsApproved.bind {A : Type} {Rep : A → Type} {α β : Type} {read : A}
    {reply : Option WorkerRecord → Rep read} {p : Prog A Rep Exc α}
    (h : BeginsApproved read reply p) (f : α → Prog A Rep Exc β) :
    BeginsApproved read reply (p >>= f) := by
  rcases h with ⟨error, rfl⟩ | ⟨next, rfl, hnext⟩
  · exact Or.inl ⟨error, rfl⟩
  · refine Or.inr ⟨fun row => next row >>= f, rfl, fun row hrow => ?_⟩
    obtain ⟨error, herror⟩ := hnext row hrow
    exact ⟨error, congrArg (· >>= f) herror⟩

/-- The identity of the worker that a request is made for. -/
def Request.worker? : Request → Option WorkerIdentity
  | registerHeartbeat identity _ => some identity
  | lease identity _ _ => some identity
  | jobHeartbeat identity _ _ _ => some identity
  | complete identity _ _ _ => some identity
  | fail identity _ _ _ _ _ => some identity
  | release identity _ _ _ => some identity
  | _ => none

theorem beginsApproved_enrollment (cfg : ServiceConfig) (identity : WorkerIdentity) :
    BeginsApproved (.registry (.get identity.workerId)) id
      (WorkerPoolService.approvedEnrollment cfg identity) := by
  refine Or.inr ⟨_, rfl, fun row hrow => ?_⟩
  dsimp only [id]
  by_cases hsubject : row.identitySubject ≠ identity.subject
  · exact ⟨_, if_pos hsubject⟩
  · exact ⟨_, (if_neg hsubject).trans (if_pos hrow)⟩

theorem beginsApproved_request (cfg : ServiceConfig) {request : Request}
    {identity : WorkerIdentity} (h : request.worker? = some identity) :
    BeginsApproved (.registry (.get identity.workerId)) id (request.program cfg) := by
  have henrollment := beginsApproved_enrollment cfg identity
  cases request with
  | registerHeartbeat identity' registration =>
      obtain rfl := Option.some.inj h
      refine BeginsApproved.bind ?_ _
      rw [WorkerPoolService.registerHeartbeat]
      split
      · exact Or.inl ⟨_, rfl⟩
      · exact henrollment.bind _
  | lease identity' capabilityIds leaseSeconds =>
      obtain rfl := Option.some.inj h
      exact (henrollment.bind _).bind _
  | jobHeartbeat identity' jobId claimToken progressPercent =>
      obtain rfl := Option.some.inj h
      exact ((henrollment.bind _).bind _).bind _
  | complete identity' jobId claimToken manifest =>
      obtain rfl := Option.some.inj h
      exact ((henrollment.bind _).bind _).bind _
  | fail identity' jobId claimToken reason retryable failureCode =>
      obtain rfl := Option.some.inj h
      exact ((henrollment.bind _).bind _).bind _
  | release identity' jobId claimToken reason =>
      obtain rfl := Option.some.inj h
      exact ((henrollment.bind _).bind _).bind _
  | _ => exact absurd h (by simp [Request.worker?])

theorem beginsApproved_program (cfg : AuthConfig) {request : Request}
    {identity : WorkerIdentity} (h : request.worker? = some identity) :
    BeginsApproved (.service (.registry (.get identity.workerId))) id
      ((PoolRequest.service request).program cfg) := by
  have huncancelled : BeginsApproved (AuthAction.service (.registry (.get identity.workerId))) id
      (uncancelled (request.program cfg.service)) := by
    rcases beginsApproved_request cfg.service h with ⟨error, hprogram⟩ | ⟨next, hprogram, hnext⟩
    · exact Or.inl ⟨error, congrArg uncancelled hprogram⟩
    · refine Or.inr ⟨_, congrArg uncancelled hprogram, fun row hrow => ?_⟩
      obtain ⟨error, herror⟩ := hnext row hrow
      exact ⟨error, congrArg uncancelled herror⟩
  exact huncancelled.bind _

/-! ### Authentication as a revoked worker -/

section Authentications

variable [PyText]

/-- Along a path in which the worker is revoked throughout, the coroutine does not return an identity
of that worker. -/
def NeverResolves (id : String) (p : AuthCoroutine WorkerIdentity) : Prop :=
  p.Along AuthAction.exec fun path res => (∀ step ∈ path, step.2.world.Revoked id) →
    ∀ identity, res = .ok identity → identity.workerId ≠ id

variable {id : String}

theorem neverResolves_of_ends {p : AuthCoroutine WorkerIdentity}
    (h : p.Ends fun res => ∀ identity, res = .ok identity → identity.workerId ≠ id) :
    NeverResolves id p :=
  (Prog.along_of_ends h).mono fun _ _ hres _ => hres

theorem neverResolves_bind {α : Type} {p : AuthCoroutine α}
    {f : α → AuthCoroutine WorkerIdentity} (hf : ∀ value, NeverResolves id (f value)) :
    NeverResolves id (p >>= f) := by
  refine Prog.along_bind.mpr (Prog.along_of_forall (fun path res => ?_) p)
  cases res with
  | error error => exact fun _ _ hok => nomatch hok
  | ok value =>
      refine Prog.Along.mono (hf value) fun rest res hrest hpath => ?_
      exact hrest fun step hstep => hpath step (List.mem_append_right _ hstep)

theorem NeverResolves.handle {p : AuthCoroutine WorkerIdentity}
    {handler : Exc → AuthCoroutine WorkerIdentity} (hp : NeverResolves id p)
    (hhandler : ∀ error, NeverResolves id (handler error)) : NeverResolves id (p.handle handler) := by
  refine Prog.along_handle.mpr (Prog.Along.mono hp fun path res hres => ?_)
  cases res with
  | ok value => exact hres
  | error error =>
      refine Prog.Along.mono (hhandler error) fun rest res hrest hpath => ?_
      exact hrest fun step hstep => hpath step (List.mem_append_right _ hstep)

theorem NeverResolves.ensure {p : AuthCoroutine WorkerIdentity} {cleanup : AuthCoroutine Unit}
    (hp : NeverResolves id p) : NeverResolves id (p.ensure cleanup) := by
  refine Prog.along_ensure (Prog.Along.mono hp fun path res hres => ?_)
  refine Prog.along_of_forall (fun rest out => ?_) cleanup
  cases out with
  | error error => exact fun _ _ hok => nomatch hok
  | ok value => exact fun hpath => hres fun step hstep => hpath step (List.mem_append_left _ hstep)

theorem neverResolves_admitIdentity (cfg : AuthConfig) (identity : WorkerIdentity) :
    NeverResolves id (WorkerPoolService.admitIdentity cfg identity) := by
  by_cases hid : identity.workerId = id
  · subst hid
    rcases beginsApproved_enrollment cfg.service identity with
      ⟨error, henrollment⟩ | ⟨next, henrollment, hnext⟩
    · rw [WorkerPoolService.admitIdentity, henrollment]
      exact fun _ _ => nofun
    · rw [WorkerPoolService.admitIdentity, henrollment]
      intro w
      by_cases hrevoked : w.world.Revoked identity.workerId
      · obtain ⟨row, hrow, hstatus⟩ := hrevoked
        obtain ⟨error, herror⟩ := hnext row hstatus
        obtain ⟨world, auth, cancelling⟩ := w
        cases cancelling with
        | some landed => exact fun _ _ => nofun
        | none =>
            have hread : (AuthAction.cancellable (.registry (.get identity.workerId))).exec
                ⟨world, auth, none⟩ = (⟨world, auth, none⟩, .ok (some row)) :=
              congrArg (fun row => (AuthWorld.mk world auth none, Except.ok row)) hrow
            rw [hread]
            show Prog.Along _ (GpuWorkerPool.cancellable (next (some row)) >>= _) _
            rw [show next (some row) = .raise error from herror]
            exact fun _ _ => nofun
      · exact Prog.along_of_forall (fun path res hpath =>
          absurd (hpath _ List.mem_cons_self) hrevoked) _
  · refine neverResolves_of_ends (Prog.ends_bind (fun _ _ => nofun) _ fun _ =>
      Prog.ends_bind (fun _ _ => nofun) _ fun charged => ?_)
    split
    · rintro _ ⟨⟩
      exact hid
    · exact Prog.ends_bind (fun _ _ => nofun) _ fun _ _ => nofun

theorem neverResolves_authenticate (cfg : AuthConfig) (authorization : Option String)
    (source : String) :
    NeverResolves id (WorkerPoolService.authenticate cfg authorization source) := by
  refine neverResolves_bind fun admission => ?_
  cases (admission : Admission) with
  | refused => exact fun _ _ => nofun
  | unreadable => exact neverResolves_bind fun _ _ _ => nofun
  | admitted =>
      refine NeverResolves.ensure (NeverResolves.handle (neverResolves_bind fun identity =>
        neverResolves_admitIdentity cfg identity) fun error => ?_)
      cases error with
      | workerAuthError _ | workerIdentityMismatch _ =>
          exact neverResolves_bind fun _ _ _ => nofun
      | _ => exact fun _ _ => nofun

end Authentications

/-! ### After the revocation -/

section Final

variable [PyText] {cfg : AuthConfig}

/-- The action writes neither a job record nor a row of the registry. -/
def AuthAction.KeepsStores (action : AuthAction) : Prop :=
  ∀ w, (action.exec w).1.world.jobs = w.world.jobs ∧
    (action.exec w).1.world.registry = w.world.registry

theorem AuthAction.OfAdmitted.keepsStores {action : AuthAction} (h : action.OfAdmitted) :
    action.KeepsStores := by
  intro w
  cases action with
  | service _ | admitCall _ _ | leave => exact h.elim
  | allow _ _ | startVerification _ => exact ⟨rfl, rfl⟩
  | shield task =>
      rw [exec]
      split <;> exact ⟨rfl, rfl⟩
  | cancellable action =>
      have haction : (action.exec w.world).1.jobs = w.world.jobs ∧
          (action.exec w.world).1.registry = w.world.registry := by
        cases action with
        | registry call =>
            cases call with
            | upsert _ _ | setStatus _ _ => exact h.elim
            | get _ | findByIdentitySubject _ | list | listByTenant _ => exact ⟨rfl, rfl⟩
        | audit eventType workerId jobId detail =>
            rw [Action.exec]
            split <;> exact ⟨rfl, rfl⟩
        | jobs _ | assets _ | auditForJob _ | clock => exact h.elim
      rw [exec]
      split
      · exact haction
      · dsimp only
        split
        · exact haction
        · exact ⟨rfl, rfl⟩

/-- Where a call of the revoked worker is: it has not acted yet, or it has read the row and raised. -/
structure CallRefused (after : List (Event AuthWorld AuthAction)) (i : Nat)
    (c : Call AuthAction AuthAction.Reply Exc PoolRequest PoolResponse) : Prop where
  quiet : ∀ e ∈ after, e.call = i → (e.action.exec e.world).1 = e.world
  raised : (∀ e ∈ after, e.call ≠ i) ∨ ∃ error, c.prog = .raise error
  notReturned : ∀ response, c.prog ≠ .ret response

omit [PyText] in
theorem not_returned (c : Call AuthAction AuthAction.Reply Exc PoolRequest PoolResponse)
    (h : ∀ value, c.answer? ≠ some (.ok value)) (response : PoolResponse) :
    c.prog ≠ .ret response := by
  intro hprog
  refine h response ?_
  rw [Call.answer?, hprog]

theorem callRefused {id : String} {after : List (Event AuthWorld AuthAction)}
    {s t : Sys AuthWorld AuthAction AuthAction.Reply Exc PoolRequest PoolResponse}
    (h : Recorded (poolService cfg) poolSchedule s after t)
    (hrevoked : ∀ e ∈ after, e.world.world.Revoked id) {i : Nat} (hi : s.calls.length ≤ i)
    {request : Request} {p : AuthCoroutine PoolResponse}
    (hc : t.calls[i]? = some ⟨.service request, p⟩) {identity : WorkerIdentity}
    (hworker : request.worker? = some identity) (hid : identity.workerId = id) :
    CallRefused after i ⟨.service request, p⟩ := by
  subst hid
  have hfollows : ((PoolRequest.service request).program cfg).Follows AuthAction.exec
      (pathOf after i) p := h.follows_new hi hc
  have hpath : ∀ e ∈ after, e.call = i → (e.action, e.world) ∈ pathOf after i := by
    rintro e he rfl
    exact mem_pathOf.mpr he
  have hrevoked' : ∀ step ∈ pathOf after i, step.2.world.Revoked identity.workerId :=
    fun step hstep => hrevoked _ (mem_pathOf.mp hstep)
  generalize pathOf after i = path at hfollows hpath hrevoked'
  rcases beginsApproved_program cfg hworker with ⟨error, hprogram⟩ | ⟨next, hprogram, hnext⟩
  · rw [hprogram] at hfollows
    cases hfollows
    exact ⟨fun e he hcall => absurd (hpath e he hcall) (by simp), Or.inr ⟨error, rfl⟩,
      not_returned _ (by simp [Call.answer?])⟩
  · rw [hprogram] at hfollows
    cases hfollows with
    | nil =>
        refine ⟨fun e he hcall => ?_, Or.inl fun e he hcall => ?_,
          not_returned _ (by simp [Call.answer?])⟩
        · exact absurd (hpath e he hcall) (by simp)
        · exact absurd (hpath e he hcall) (by simp)
    | @cons _ _ v _ _ rest =>
        obtain ⟨row, hrow, hstatus⟩ := hrevoked' _ List.mem_cons_self
        have hreply : ((AuthAction.service (.registry (.get identity.workerId))).exec v).2 =
            some row := hrow
        obtain ⟨error, herror⟩ := hnext row hstatus
        rw [hreply, show next (some row) = .raise error from herror] at rest
        cases rest
        refine ⟨fun e he hcall => ?_, Or.inr ⟨error, rfl⟩,
      not_returned _ (by simp [Call.answer?])⟩
        obtain ⟨haction, hworld⟩ := Prod.mk.inj (List.mem_singleton.mp (hpath e he hcall))
        rw [haction]
        rfl

/-- What a revocation that was answered has settled, until it is undone. -/
structure RevocationFinal (cfg : AuthConfig) (id : String)
    (before after : List (Event AuthWorld AuthAction))
    (s t : Sys AuthWorld AuthAction AuthAction.Reply Exc PoolRequest PoolResponse) : Prop where
  revoked : t.world.world.Revoked id
  calls : ∀ i request p identity, s.calls.length ≤ i →
    t.calls[i]? = some ⟨.service request, p⟩ → request.worker? = some identity →
      identity.workerId = id → CallRefused after i ⟨.service request, p⟩
  /-- An authentication that resolves to the worker does not return; it writes to no store. -/
  authentications : ∀ i authorization source p, s.calls.length ≤ i →
    t.calls[i]? = some ⟨.authenticate authorization source, p⟩ →
      (∀ e ∈ after, e.call = i → (e.action.exec e.world).1.world.jobs = e.world.world.jobs ∧
        (e.action.exec e.world).1.world.registry = e.world.world.registry) ∧
      ∀ identity, p = .ret (.identity identity) → identity.workerId ≠ id
  /-- No upsert takes a row away from `REVOKED`, whenever its call began. -/
  upserts : ∀ e ∈ before ++ after, ∀ registration subject,
    e.action.registryCall? = some (.upsert registration subject) → ∀ worker,
      e.world.world.Revoked worker → (e.action.exec e.world).1.world.Revoked worker

/-- After `set_worker_status(w, REVOKED)` has returned `True`, and until another status is written,
nothing goes on for the worker. -/
theorem revocation_final (cfg : AuthConfig) {w : AuthWorld} {id : String} {i : Nat}
    {before after : List (Event AuthWorld AuthAction)}
    {s t : Sys AuthWorld AuthAction AuthAction.Reply Exc PoolRequest PoolResponse}
    (hbefore : Recorded (poolService cfg) poolSchedule ⟨w, []⟩ before s)
    (hanswered : s.calls[i]? = some
      ⟨.service (.setWorkerStatus id .revoked), .ret (.service (.changed true))⟩)
    (hafter : Recorded (poolService cfg) poolSchedule s after t)
    (hstatus : NotReinstated (before ++ after) i id) :
    RevocationFinal cfg id before after s t := by
  obtain ⟨pre, v, post, hsplit, hwritten⟩ := written_of_answered hbefore hanswered
  have hlater : ∀ f ∈ post ++ after, ¬ f.action.Reinstates id :=
    hstatus pre _ (post ++ after) (by rw [hsplit, List.append_assoc]; rfl) rfl rfl
  obtain ⟨calls, hrest⟩ := hbefore.split hsplit
  obtain ⟨hs, -⟩ := revoked_of_recorded hrest (RegistryCall.setStatus_revoked hwritten)
    fun f hf => hlater f (List.mem_append_left _ hf)
  obtain ⟨ht, hevents⟩ := revoked_of_recorded hafter hs
    fun f hf => hlater f (List.mem_append_right _ hf)
  refine ⟨ht, fun j request p identity hj hc hworker hid =>
    callRefused hafter hevents hj hc hworker hid, ?_, ?_⟩
  · intro j authorization source p hj hc
    have hfollows : ((PoolRequest.authenticate authorization source).program cfg).Follows
        AuthAction.exec (pathOf after j) p := hafter.follows_new hj hc
    constructor
    · rintro e he rfl
      obtain ⟨next, hprogram, -, hnext⟩ := authenticate_eq cfg authorization source
      have hkeeps : ((PoolRequest.authenticate authorization source).program cfg).Awaits
          AuthAction.KeepsStores := by
        rw [hprogram]
        refine ⟨fun _ => ⟨rfl, rfl⟩, fun admission => (hnext admission).mono ?_⟩
        rintro action (hadmitted | rfl)
        · exact hadmitted.keepsStores
        · exact fun _ => ⟨rfl, rfl⟩
      exact (hfollows.awaits hkeeps).1 (e.action, e.world) (mem_pathOf.mpr he) e.world
    · rintro identity rfl
      have hnever : ((PoolRequest.authenticate authorization source).program cfg).Along
          AuthAction.exec fun path res => (∀ step ∈ path, step.2.world.Revoked id) →
            ∀ identity, res = .ok (.identity identity) → identity.workerId ≠ id := by
        have hservice : NeverResolves id
            (WorkerPoolService.authenticate cfg authorization source) :=
          neverResolves_authenticate cfg authorization source
        refine Prog.along_bind.mpr (Prog.Along.mono hservice fun path res hres => ?_)
        cases res with
        | error error => exact fun _ _ => nofun
        | ok resolved =>
            rintro hpath _ ⟨⟩
            exact hres (by simpa using hpath) resolved rfl
      have hreturned : ((PoolRequest.authenticate authorization source).program cfg).Follows
          AuthAction.exec (pathOf after j) (Prog.ofExcept (.ok (.identity identity))) := hfollows
      exact hnever.follows hreturned
        (fun step hstep => hevents _ (mem_pathOf.mp hstep)) identity rfl
  · intro e _ registration subject hupsert worker hworker
    refine e.action.exec_revoked hworker ?_
    rintro ⟨status, hset, -⟩
    exact absurd (hupsert.symm.trans hset) (by simp)

end Final

/-! ### A revocation under way -/

instance (id : String) (action : AuthAction) : Decidable (action.Reinstates id) :=
  match h : action.registryCall? with
  | some (.setStatus worker status) =>
      if hother : worker = id ∧ status ≠ .revoked then
        .isTrue ⟨status, by rw [h, hother.1], hother.2⟩
      else
        .isFalse fun ⟨status', hcall, hne⟩ => hother (by
          rw [h] at hcall
          cases hcall
          exact ⟨rfl, hne⟩)
  | some (.upsert ..) | some (.get _) | some (.findByIdentitySubject _) | some .list
  | some (.listByTenant _) | none =>
      .isFalse fun ⟨status, hcall, _⟩ => by
        rw [h] at hcall
        cases hcall

def revokedConfig : AuthConfig where
  service := {
    enrollments :=
      ⟨[("worker-1", ⟨"static:worker-1", none, by decide, validEnrollmentTenant_none⟩)], by decide⟩ }
  authenticator := staticTokenAuthenticator
    ⟨[("worker-1", sha256Hex "synthetic".toUTF8)], by decide⟩

def revokedIdentity : WorkerIdentity := ⟨"worker-1", "static:worker-1", "static"⟩

/-- A worker registers, begins to register again, and is revoked. -/
def revokingMoves : List (Move AuthWorld PoolRequest) :=
  [.begin (.service (.registerHeartbeat revokedIdentity smallRegistration)),
    .advance 0, .advance 0, .advance 0,
    .begin (.service (.registerHeartbeat revokedIdentity smallRegistration)), .advance 1,
    .begin (.service (.setWorkerStatus "worker-1" .revoked)), .advance 2, .advance 2, .advance 2]

/-- Its registration lands, it asks for a lease, and it authenticates. -/
def revokedMoves : List (Move AuthWorld PoolRequest) :=
  [.advance 1, .advance 1, .begin (.service (.lease revokedIdentity [] none)), .advance 3,
    .begin (.authenticate (some "Bearer synthetic") "peer"), .advance 4, .advance 4, .advance 4]

def revokingRun : Sys AuthWorld AuthAction AuthAction.Reply Exc PoolRequest PoolResponse :=
  letI := PyText.ascii
  Sys.play (poolService revokedConfig) ⟨⟨smallWorld, smallAuth, none⟩, []⟩ revokingMoves

def revokingHistory : List (Event AuthWorld AuthAction) :=
  letI := PyText.ascii
  Sys.played (poolService revokedConfig) ⟨⟨smallWorld, smallAuth, none⟩, []⟩ revokingMoves

def revokedRun : Sys AuthWorld AuthAction AuthAction.Reply Exc PoolRequest PoolResponse :=
  letI := PyText.ascii
  Sys.play (poolService revokedConfig) revokingRun revokedMoves

def revokedHistory : List (Event AuthWorld AuthAction) :=
  letI := PyText.ascii
  Sys.played (poolService revokedConfig) revokingRun revokedMoves

theorem revoked_values :
    (∀ e ∈ revokingHistory ++ revokedHistory, ¬ e.action.Reinstates "worker-1") ∧
      (revokedRun.world.world.registry.get? "worker-1").map WorkerRecord.status = some .revoked ∧
      revokedRun.calls.map Call.error? = [none, none, none, some (.workerRevoked "worker-1"),
        some (.workerRevoked "worker-1")] := by
  decide +kernel

/-- The registration that lands after the revocation does not undo it, and the worker is refused. -/
theorem revocation_final_small : letI := PyText.ascii
    RevocationFinal revokedConfig "worker-1" revokingHistory revokedHistory revokingRun revokedRun ∧
      revokedRun.calls.map Call.error? = [none, none, none, some (.workerRevoked "worker-1"),
        some (.workerRevoked "worker-1")] := by
  let _ := PyText.ascii
  have hpermitted : ∀ s (moves : List (Move AuthWorld PoolRequest)),
      (∀ change, .env change ∉ moves) →
        Permitted (poolService revokedConfig) poolSchedule s moves :=
    fun s moves hmoves => permitted_of_env (fun _ _ => trivial) (fun _ _ _ => trivial)
      (fun change hchange => absurd hchange (hmoves change)) s
  have hstart : Recorded (poolService revokedConfig) poolSchedule
      ⟨⟨smallWorld, smallAuth, none⟩, []⟩ [] ⟨⟨smallWorld, smallAuth, none⟩, []⟩ := .refl _
  have hbefore := hstart.play (hpermitted _ revokingMoves (by simp [revokingMoves]))
  have hthere : Recorded (poolService revokedConfig) poolSchedule revokingRun [] revokingRun :=
    .refl _
  have hafter := hthere.play (hpermitted _ revokedMoves (by simp [revokedMoves]))
  rw [List.nil_append] at hbefore hafter
  have hanswered : revokingRun.calls[2]? = some
      ⟨.service (.setWorkerStatus "worker-1" .revoked), .ret (.service (.changed true))⟩ := rfl
  refine ⟨revocation_final revokedConfig hbefore hanswered hafter ?_, revoked_values.2.2⟩
  intro pre e post hsplit _ _ f hf
  exact revoked_values.1 f (hsplit ▸ List.mem_append_right _ (List.mem_cons_of_mem _ hf))

end GpuWorkerPool
