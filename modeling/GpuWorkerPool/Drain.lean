import GpuWorkerPool.Interference

/-!
An administrator's drain. The status an administrator sets and the flag a worker reports share one
field, and every heartbeat rewrites it. A drain therefore lasts as long as the heartbeats of the
worker report that it is draining, and a worker whose heartbeats do not leases again.
-/

namespace GpuWorkerPool

open Base WorkerPoolService

/-! ### The status of a worker -/

/-- The worker is registered as draining. -/
def World.Draining (w : World) (workerId : String) : Prop :=
  ∃ worker, w.registry.get? workerId = some worker ∧ worker.status = .draining

theorem draining_of_setStatus {w w' : World} {workerId : String} {now : DateTime}
    (hset : (MemoryWorkerRegistry.setStatus w.registry now workerId .draining).2 = true)
    (h : w'.registry = (MemoryWorkerRegistry.setStatus w.registry now workerId .draining).1) :
    w'.Draining workerId := by
  rw [MemoryWorkerRegistry.setStatus] at hset h
  cases hworker : w.registry.get? workerId with
  | none => simp [hworker] at hset
  | some worker =>
      rw [hworker] at h
      refine ⟨{ worker with status := .draining, updatedAt := now }, ?_, rfl⟩
      rw [h, Table.get?_put, if_pos (Table.key_eq_of_get? hworker)]
      rfl

/-- The heartbeats of the worker that are registered report that it is draining, and no status is
set for it any more. -/
def HeedsDrain (workerId : String) (w : World) : Action → Prop
  | .registry (.upsert registration identitySubject) =>
      registration.workerId = workerId → registration.draining = true ∨
        (w.registry.upsert w.now registration identitySubject).2.isOk = false
  | .registry (.setStatus changed _) => changed ≠ workerId
  | _ => True

instance (workerId : String) (w : World) :
    (action : Action) → Decidable (HeedsDrain workerId w action)
  | .registry (.upsert _ _) => inferInstanceAs (Decidable (_ → _ ∨ _))
  | .registry (.setStatus _ _) => inferInstanceAs (Decidable (_ ≠ _))
  | .registry (.get _) | .registry (.findByIdentitySubject _) | .registry .list
  | .registry (.listByTenant _) => .isTrue trivial
  | .jobs _ => .isTrue trivial
  | .assets _ => .isTrue trivial
  | .audit .. => .isTrue trivial
  | .auditForJob _ => .isTrue trivial
  | .clock => .isTrue trivial

theorem draining_upsert {s : MemoryWorkerRegistry} {workerId : String} {worker : WorkerRecord}
    (hworker : s.get? workerId = some worker) (hstatus : worker.status = .draining)
    (now : DateTime) {registration : WorkerRegistration} {identitySubject : String}
    (hheeds : registration.workerId = workerId → registration.draining = true ∨
      (s.upsert now registration identitySubject).2.isOk = false) :
    ∃ worker', (s.upsert now registration identitySubject).1.get? workerId = some worker' ∧
      worker'.status = .draining := by
  rcases RegistryCall.upsert_cases s now registration identitySubject with
    ⟨error, hrefused⟩ | ⟨-, -, -, haccepted⟩
  · exact ⟨worker, by rw [hrefused, hworker], hstatus⟩
  · rw [haccepted] at hheeds ⊢
    by_cases hsame : registration.workerId = workerId
    · refine ⟨_, (Table.get?_put s _ workerId).trans (if_pos hsame), ?_⟩
      rcases hheeds hsame with hdraining | hrefused
      · simp [MemoryWorkerRegistry.upsertRecord, hsame, hworker, hstatus, hdraining]
      · exact absurd hrefused (by simp [Except.isOk, Except.toBool])
    · exact ⟨worker, (Table.get?_put_of_ne s hsame).trans hworker, hstatus⟩

section Runs

variable [PyText]

theorem World.Draining.exec {w : World} {workerId : String} (h : w.Draining workerId)
    {action : Action} (hheeds : HeedsDrain workerId w action) :
    (action.exec w).1.Draining workerId := by
  obtain ⟨worker, hworker, hstatus⟩ := h
  cases action with
  | registry call =>
      cases call with
      | upsert registration identitySubject =>
          exact draining_upsert hworker hstatus w.now hheeds
      | get _ | findByIdentitySubject _ | list | listByTenant _ => exact ⟨worker, hworker, hstatus⟩
      | setStatus changed status =>
          refine ⟨worker, ?_, hstatus⟩
          show (MemoryWorkerRegistry.setStatus w.registry w.now changed status).1.get? workerId = _
          rw [MemoryWorkerRegistry.setStatus]
          cases hchanged : w.registry.get? changed with
          | none => exact hworker
          | some row =>
              have hne : row.workerId ≠ workerId := fun h =>
                hheeds ((Table.key_eq_of_get? hchanged).symm.trans h)
              refine (Table.get?_put_of_ne w.registry ?_).trans hworker
              exact hne
  | assets call =>
      rw [Action.exec]
      split <;> exact ⟨worker, hworker, hstatus⟩
  | audit eventType auditedWorker jobId detail =>
      rw [Action.exec]
      split <;> exact ⟨worker, hworker, hstatus⟩
  | _ => exact ⟨worker, hworker, hstatus⟩

/-- After a drain: any calls, as long as the worker's heartbeats heed it. -/
def heedingSchedule (workerId : String) : Regime World Action Action.Reply Exc Request Response where
  accepts _ _ := True
  allow _ action w := HeedsDrain workerId w action
  env s w := s.world.Outside w

instance (workerId : String) (request : Request) (action : Action) (w : World) :
    Decidable ((heedingSchedule workerId).allow request action w) :=
  inferInstanceAs (Decidable (HeedsDrain workerId w action))

abbrev drainContract (workerId : String) : Prog.Contract Action World where
  inv w := w.Draining workerId
  allow action w := HeedsDrain workerId w action
  rely _ _ := True
  guar _ _ := True

theorem sat_heeding {α : Type} (workerId : String) (p : Coroutine α) (w : World) :
    Prog.Sat Action.exec (drainContract workerId) p w fun _ _ => True := by
  refine Prog.sat_of_awaits ?_ p.awaits_true w
  exact fun action v _ hdraining hheeds => ⟨World.Draining.exec hdraining hheeds, trivial⟩

/-- A draining worker is granted no lease. -/
theorem sat_lease_draining (cfg : ServiceConfig) (identity : WorkerIdentity)
    (capabilityIds : List String) (leaseSeconds : Option Int) (w : World) :
    Prog.Sat Action.exec (drainContract identity.workerId)
      (lease cfg identity capabilityIds leaseSeconds) w
      fun res _ => ∀ grant, res ≠ .ok (some grant) := by
  have hguar : ∀ v : World, v.Draining identity.workerId → True := fun _ _ => trivial
  refine Prog.sat_bind.mpr ((sat_approvedEnrollment hguar cfg identity w).mono ?_)
  rintro (error | enrollment) t -
  · simp
  · refine sat_getWorker hguar fun u _ hdraining => ?_
    obtain ⟨worker, hworker, hstatus⟩ := hdraining
    rw [hworker]
    simp [hstatus]

/-- The calls begun at place `begun` or later by the worker are granted nothing. -/
def GrantsNothing (workerId : String) (begun i : Nat) (request : Request)
    (res : Except Exc Response) : Prop :=
  begun ≤ i → ∀ identity capabilityIds leaseSeconds,
    request = .lease identity capabilityIds leaseSeconds → identity.workerId = workerId →
      ∀ grant, res ≠ .ok (.grant (some grant))

def drainDiscipline (cfg : ServiceConfig) (workerId : String) (begun : Nat) :
    Discipline (coordinator cfg) (heedingSchedule workerId) where
  inv w := w.Draining workerId
  rely _ _ := True
  evolve _ _ := True
  guar _ _ _ := True
  post i request res _ := GrantsNothing workerId begun i request res
  rely_refl _ := trivial
  rely_trans _ _ := trivial
  rely_evolve _ := trivial
  guar_rely _ _ := trivial
  post_stable _ _ h := h
  begin_sat := by
    intro i request w _ _
    by_cases hlease : ∃ identity capabilityIds leaseSeconds,
        request = .lease identity capabilityIds leaseSeconds ∧ identity.workerId = workerId
    · obtain ⟨identity, capabilityIds, leaseSeconds, rfl, rfl⟩ := hlease
      refine Prog.sat_bind.mpr
        ((sat_lease_draining cfg identity capabilityIds leaseSeconds w).mono ?_)
      rintro (error | grant) t hnone
      · exact fun _ _ _ _ _ _ grant => by simp
      · rintro - identity' capabilityIds' leaseSeconds' hrequest - granted hgranted
        obtain rfl : grant = some granted := by simpa using hgranted
        exact hnone granted rfl
    · refine (sat_heeding workerId (request.program cfg) w).mono fun res t _ => ?_
      rintro - identity capabilityIds leaseSeconds rfl hworker
      exact absurd ⟨identity, capabilityIds, leaseSeconds, rfl, hworker⟩ hlease
  env_ok := by
    rintro s w hinv ⟨now, clock, assetOutage, auditOutage, rfl⟩
    exact ⟨hinv, trivial, fun _ => trivial⟩

/-- The step at which a call of the administrator drains a registered worker. -/
def Drains (workerId : String) (s s' : Sys World Action Action.Reply Exc Request Response) : Prop :=
  ∃ i next, s.calls[i]? = some ⟨.setWorkerStatus workerId .draining,
      .await (.registry (.setStatus workerId .draining)) next⟩ ∧
    let out := Action.exec (.registry (.setStatus workerId .draining)) s.world
    out.2 = true ∧ s' = ⟨out.1, s.calls.set i ⟨.setWorkerStatus workerId .draining, next out.2⟩⟩

/-- A drain lasts while it is heeded: in every continuation in which the worker's registered
heartbeats report that it is draining, every `lease` call that the worker begins after the drain
is granted nothing. -/
theorem drain_persists_while_heeded (cfg : ServiceConfig) {workerId : String}
    {s s' s'' : Sys World Action Action.Reply Exc Request Response}
    (hdrains : Drains workerId s s')
    (hreach : Reaches (coordinator cfg) (heedingSchedule workerId) s' s'')
    {i : Nat} {identity : WorkerIdentity} {capabilityIds : List String}
    {leaseSeconds : Option Int} {p : Coroutine Response} (hbegun : s'.calls.length ≤ i)
    (hcall : s''.calls[i]? = some ⟨.lease identity capabilityIds leaseSeconds, p⟩)
    (hworker : identity.workerId = workerId) (grant : LeaseGrant) :
    p ≠ .ret (.grant (some grant)) := by
  have hsafe : (drainDiscipline cfg workerId s'.calls.length).Safe s' := by
    obtain ⟨n, next, hhere, hset, rfl⟩ := hdrains
    refine ⟨draining_of_setStatus hset rfl, fun k c hc => ?_⟩
    refine (sat_heeding workerId c.prog _).mono fun res t _ hk => ?_
    exact absurd (List.getElem?_eq_some_iff.mp hc).1 (not_lt.mpr hk)
  rintro rfl
  exact (Discipline.safe_of_reaches hsafe hreach).answered hcall rfl hbegun identity capabilityIds
    leaseSeconds rfl hworker grant rfl

end Runs

/-! ### A drain that is heeded, and one that is not -/

/-- The administrator drains the worker while a job is queued. -/
def drainRequests : List Request :=
  [.registerHeartbeat smallIdentity smallRegistration, .submit echoJob,
    .setWorkerStatus "worker-1" .draining]

/-- What the worker does next, as agents do: a heartbeat, then a `lease` call. -/
def nextRequests (draining : Bool) : List Request :=
  [.registerHeartbeat smallIdentity { smallRegistration with draining := draining },
    .lease smallIdentity ["test.deterministic.echo.v1"] none]

def drainedRun : Sys World Action Action.Reply Exc Request Response :=
  letI := PyText.ascii
  Sys.serveAll (coordinator smallConfig) ⟨smallWorld, []⟩ drainRequests

/-- The administrator's call has begun. -/
def drainBegun : Sys World Action Action.Reply Exc Request Response :=
  letI := PyText.ascii
  let s := Sys.serveAll (coordinator smallConfig) ⟨smallWorld, []⟩ (drainRequests.take 2)
  ⟨s.world, s.calls ++ [⟨.setWorkerStatus "worker-1" .draining,
    (Request.setWorkerStatus "worker-1" .draining).program smallConfig⟩]⟩

/-- The worker reports that it is draining and is granted nothing. -/
theorem drain_persists_for_small_worker :
    letI := PyText.ascii
    ∃ p, ((drainBegun.advance (coordinator smallConfig) 2).serveAll (coordinator smallConfig)
        (nextRequests true)).calls[4]? =
          some ⟨.lease smallIdentity ["test.deterministic.echo.v1"] none, p⟩ ∧
      ∀ grant, p ≠ .ret (.grant (some grant)) := by
  let _ := PyText.ascii
  have hdrains : Drains "worker-1" drainBegun (drainBegun.advance (coordinator smallConfig) 2) :=
    ⟨2, _, rfl, rfl, rfl⟩
  have hreach : Reaches (coordinator smallConfig) (heedingSchedule "worker-1")
      (drainBegun.advance (coordinator smallConfig) 2)
      ((drainBegun.advance (coordinator smallConfig) 2).serveAll (coordinator smallConfig)
        (nextRequests true)) :=
    reaches_serveAll _ _ ⟨trivial, by decide, trivial, by decide, trivial⟩
  exact ⟨_, rfl, drain_persists_while_heeded smallConfig hdrains hreach
    (show _ ≤ 4 by decide) rfl rfl⟩

/-- The drain has returned `True`, the worker reports that it is not draining, and leases. -/
theorem drain_undone_by_heartbeat :
    letI := PyText.ascii
    Reaches (coordinator smallConfig) anySchedule ⟨smallWorld, []⟩ drainedRun ∧
      (drainedRun.calls[2]?.map Call.prog = some (.ret (.changed true))) ∧
      Reaches (coordinator smallConfig) anySchedule drainedRun
        (drainedRun.serveAll (coordinator smallConfig) (nextRequests false)) ∧
      ∃ grant, ((drainedRun.serveAll (coordinator smallConfig) (nextRequests false)).calls[4]?.map
        Call.prog) = some (.ret (.grant (some grant))) := by
  let _ := PyText.ascii
  refine ⟨?_, by rfl, ?_, _, by rfl⟩
  · unfold drainedRun
    apply reaches_serveAll
    refine .cons (fun _ _ _ => trivial) (World.presents_of_no_token rfl) ?_
    refine .cons (fun _ _ _ => trivial) (World.presents_of_no_token rfl) ?_
    exact .cons (fun _ _ _ => trivial) (World.presents_of_no_token rfl) trivial
  · apply reaches_serveAll
    refine .cons (fun _ _ _ => trivial) (World.presents_of_no_token rfl) ?_
    exact .cons (fun _ _ _ => trivial) (World.presents_of_no_token rfl) trivial

end GpuWorkerPool
