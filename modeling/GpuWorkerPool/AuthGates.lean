import GpuWorkerPool.Authentication
import GpuWorkerPool.Base.Protocol
import GpuWorkerPool.Base.Schedule

/-!
The gates of authentication. `_active_auth` counts the calls between their admission and their exit,
and the slots of the verifier count its tasks whose done-callback has yet to run. A caller that is
cancelled leaves the first gate and not the second.
-/

namespace GpuWorkerPool

open Base

/-! ### What an action does to the gates -/

namespace AuthState

/-- The admission of a call: its source refuses it, or both limiters are charged. -/
theorem admit_cases (s : AuthState) (now : DateTime) (source : String)
    (authorization : Option String) :
    let bySource := s.sourceLimiter.allow now source
    let byAll := s.preAuthLimiter.allow now globalRateLimitKey
    bySource.2 = false ∧ s.admitCall now source authorization =
        ({ s with sourceLimiter := bySource.1 }, .refused) ∨
      bySource.2 = true ∧ ∃ active verdict, s.admitCall now source authorization =
          ({ s with
              sourceLimiter := bySource.1, preAuthLimiter := byAll.1, activeAuth := active },
            verdict) ∧
        (verdict = .admitted ∧ byAll.2 = true ∧ s.activeAuth < s.maxAuthConcurrency ∧
            active = s.activeAuth + 1 ∨
          verdict ≠ .admitted ∧ active = s.activeAuth) := by
  intro bySource byAll
  rw [admitCall]
  cases hsource : bySource.2 with
  | false => exact Or.inl ⟨rfl, rfl⟩
  | true =>
      refine Or.inr ⟨rfl, ?_⟩
      simp only [Bool.not_true, Bool.false_eq_true, if_false]
      split_ifs with hall hbusy hsize
      · exact ⟨_, _, rfl, Or.inr ⟨nofun, rfl⟩⟩
      · exact ⟨_, _, rfl, Or.inr ⟨nofun, rfl⟩⟩
      · exact ⟨_, _, rfl, Or.inr ⟨nofun, rfl⟩⟩
      · exact ⟨_, _, rfl, Or.inl ⟨rfl, by simpa using hall, not_le.mp hbusy, rfl⟩⟩

end AuthState

/-- The done-callback has yet to run. -/
def Verification.isHeld (v : Verification) : Bool :=
  match v.stage with
  | .released _ => false
  | _ => true

def Verification.isRunning (v : Verification) : Bool :=
  match v.stage with
  | .running => true
  | _ => false

namespace AuthState

/-- The verifications whose done-callback has yet to run. -/
def held (s : AuthState) : Nat := s.verifications.countP Verification.isHeld

/-- The verifications whose thread runs. -/
def running (s : AuthState) : Nat := s.verifications.countP Verification.isRunning

theorem running_le_held (s : AuthState) : s.running ≤ s.held := by
  refine List.countP_mono_left fun v _ hrunning => ?_
  obtain ⟨credential, stage⟩ := v
  cases stage with
  | running => rfl
  | done claims => exact absurd hrunning Bool.false_ne_true
  | released claims => exact absurd hrunning Bool.false_ne_true

/-- What happens to the verifier without a call: a thread ends, or a done-callback runs. -/
inductive Progress (s : AuthState) : AuthState → Prop
  | kept : Progress s s
  | finish (task : Nat) (claims : Option TokenClaims) : Progress s (s.finish task claims)
  | finished (task : Nat) : Progress s (s.finished task)

/-- Every slot is free or held by a verification. -/
structure SlotsAccounted (s : AuthState) (capacity : Int) : Prop where
  accounted : s.slots + s.held = capacity
  nonneg : 0 ≤ s.slots

theorem SlotsAccounted.startVerification {s : AuthState} {capacity : Int}
    (h : s.SlotsAccounted capacity) (credential : String) :
    (s.startVerification credential).1.SlotsAccounted capacity := by
  have haccounted := h.accounted
  have hnonneg := h.nonneg
  rw [AuthState.startVerification]
  split
  · exact h
  · refine ⟨?_, by dsimp only; omega⟩
    show s.slots - 1 + (List.countP Verification.isHeld (s.verifications ++ _) : Nat) = capacity
    rw [List.countP_append]
    simp only [held] at haccounted
    simp [Verification.isHeld]
    omega

/-- A task that moves on changes the count by what it counted before and counts now. -/
theorem held_set {verifications : List Verification} {task : Nat} {v v' : Verification}
    (h : verifications[task]? = some v) :
    ((verifications.set task v').countP Verification.isHeld : Int) =
      verifications.countP Verification.isHeld - v.isHeld.toInt + v'.isHeld.toInt := by
  induction verifications generalizing task with
  | nil => exact absurd h (by simp)
  | cons head rest ih =>
      cases task with
      | zero =>
          obtain rfl : head = v := Option.some.inj h
          rw [List.set_cons_zero, List.countP_cons, List.countP_cons]
          cases head.isHeld <;> cases v'.isHeld <;> simp
      | succ task =>
          have htail := ih h
          rw [List.set_cons_succ, List.countP_cons, List.countP_cons]
          push_cast
          omega

theorem SlotsAccounted.progress {s t : AuthState} {capacity : Int} (h : s.SlotsAccounted capacity)
    (hprogress : s.Progress t) : t.SlotsAccounted capacity := by
  have haccounted := h.accounted
  have hnonneg := h.nonneg
  cases hprogress with
  | kept => exact h
  | finish task claims =>
      rw [AuthState.finish]
      split
      · rename_i credential hrunning
        refine ⟨?_, hnonneg⟩
        show s.slots + (List.countP _ _ : Nat) = capacity
        rw [held_set hrunning, ← haccounted]
        simp [held, Verification.isHeld]
      · exact h
  | finished task =>
      rw [AuthState.finished]
      split
      · rename_i credential claims hdone
        refine ⟨?_, by dsimp only; omega⟩
        show s.slots + 1 + (List.countP _ _ : Nat) = capacity
        rw [held_set hdone, ← haccounted]
        simp [held, Verification.isHeld]
      · exact h

end AuthState

namespace AuthAction

/-- What an action adds to `_active_auth`. -/
def change : (action : AuthAction) → action.Reply → Int
  | admitCall _ _, reply =>
      match (reply : Admission) with
      | .admitted => 1
      | _ => 0
  | leave, _ => -1
  | service _, _ => 0
  | cancellable _, _ => 0
  | allow _ _, _ => 0
  | startVerification _, _ => 0
  | shield _, _ => 0

variable [PyText]

/-- An action leaves the verifier alone or starts a verification. -/
theorem exec_verifier (action : AuthAction) (w : AuthWorld) :
    (∃ credential, action = .startVerification credential) ∨
      (action.exec w).1.auth.slots = w.auth.slots ∧
        (action.exec w).1.auth.verifications = w.auth.verifications := by
  cases action with
  | startVerification credential => exact Or.inl ⟨credential, rfl⟩
  | service action => exact Or.inr ⟨rfl, rfl⟩
  | leave => exact Or.inr ⟨rfl, rfl⟩
  | allow limiter key => cases limiter <;> exact Or.inr ⟨rfl, rfl⟩
  | cancellable action =>
      right
      rw [exec]
      split <;> exact ⟨rfl, rfl⟩
  | shield task =>
      right
      rw [exec]
      split <;> exact ⟨rfl, rfl⟩
  | admitCall source authorization =>
      right
      rw [exec]
      rcases w.auth.admit_cases w.world.clock source authorization with
        ⟨-, hgate⟩ | ⟨-, active, verdict, hgate, -⟩ <;> rw [hgate] <;> exact ⟨rfl, rfl⟩

/-- An action moves `_active_auth` by its change, and never above the limit. -/
theorem exec_activeAuth (action : AuthAction) (w : AuthWorld) :
    (action.exec w).1.auth.activeAuth = w.auth.activeAuth + action.change (action.exec w).2 ∧
      (action.exec w).1.auth.maxAuthConcurrency = w.auth.maxAuthConcurrency ∧
      (w.auth.activeAuth ≤ w.auth.maxAuthConcurrency →
        (action.exec w).1.auth.activeAuth ≤ w.auth.maxAuthConcurrency) := by
  cases action with
  | service action => exact ⟨(add_zero _).symm, rfl, id⟩
  | leave => exact ⟨rfl, rfl, fun h => (Int.sub_le_self _ (by decide)).trans h⟩
  | allow limiter key => cases limiter <;> exact ⟨(add_zero _).symm, rfl, id⟩
  | startVerification credential =>
      rw [exec, AuthState.startVerification]
      split <;> exact ⟨(add_zero _).symm, rfl, id⟩
  | cancellable action =>
      rw [exec]
      split <;> exact ⟨(add_zero _).symm, rfl, id⟩
  | shield task =>
      rw [exec]
      split <;> exact ⟨(add_zero _).symm, rfl, id⟩
  | admitCall source authorization =>
      rw [exec]
      rcases w.auth.admit_cases w.world.clock source authorization with
        ⟨-, hgate⟩ | ⟨-, active, verdict, hgate, hverdict⟩
      · rw [hgate]
        exact ⟨(add_zero _).symm, rfl, id⟩
      · rw [hgate]
        rcases hverdict with ⟨rfl, -, hroom, rfl⟩ | ⟨hnot, rfl⟩
        · exact ⟨rfl, rfl, fun _ => hroom⟩
        · refine ⟨?_, rfl, id⟩
          cases verdict with
          | admitted => exact absurd rfl hnot
          | refused | unreadable => exact (add_zero _).symm

end AuthAction

/-! ### The gate of a call -/

inductive GateStage where
  | outside
  | inside
  | left
  deriving DecidableEq

/-- An authentication is admitted at most once, and leaves once if it was. -/
def gate : Protocol AuthAction AuthAction.Reply GateStage where
  allowed stage action :=
    match action with
    | .admitCall _ _ => stage = .outside
    | .leave => stage = .inside
    | _ => True
  next stage action :=
    match action with
    | .admitCall _ _ => fun reply =>
        match (reply : Admission) with
        | .admitted => .inside
        | _ => stage
    | .leave => fun _ => .left
    | _ => fun _ => stage

/-- What an action adds to `_active_auth` is what it adds to the calls inside. -/
theorem gate_change {stage : GateStage} {action : AuthAction} (h : gate.allowed stage action)
    (reply : action.Reply) :
    action.change reply = (decide (gate.next stage action reply = .inside)).toInt -
      (decide (stage = .inside)).toInt := by
  cases action with
  | admitCall source authorization =>
      obtain rfl : stage = .outside := h
      cases (reply : Admission) <;> rfl
  | leave =>
      obtain rfl : stage = .inside := h
      rfl
  | service _ | cancellable _ | allow _ _ | startVerification _ | shield _ =>
      exact (Int.sub_self _).symm

/-- An action that is neither an admission nor an exit. -/
def AuthAction.PassesGate : AuthAction → Prop
  | .admitCall _ _ => False
  | .leave => False
  | _ => True

theorem gate_allowed_of_passes (stage : GateStage) (action : AuthAction) (h : action.PassesGate) :
    gate.allowed stage action ∧ ∀ reply, gate.next stage action reply = stage := by
  cases action with
  | admitCall _ _ | leave => exact h.elim
  | service _ | cancellable _ | allow _ _ | startVerification _ | shield _ =>
      exact ⟨trivial, fun _ => rfl⟩

theorem AuthAction.OfAdmitted.passesGate {action : AuthAction} (h : action.OfAdmitted) :
    action.PassesGate := by
  cases action with
  | admitCall _ _ | leave => exact h.elim
  | service _ | cancellable _ | allow _ _ | startVerification _ | shield _ => trivial

/-- A coroutine that passes the gate by stays in its stage. -/
theorem obeys_gate_of_passes {α : Type} {p : AuthCoroutine α}
    (hp : p.Awaits AuthAction.PassesGate) (stage : GateStage) :
    gate.Obeys (fun _ stage' => stage' = stage) stage p :=
  Protocol.obeys_of_awaits (fun a ha => (gate_allowed_of_passes stage a ha).1)
    (fun a reply ha => (gate_allowed_of_passes stage a ha).2 reply) hp

theorem awaits_uncancelled {α : Type} {P : AuthAction → Prop} (hservice : ∀ a, P (.service a))
    (p : Coroutine α) : (uncancelled p).Awaits P := by
  refine Prog.Awaits.translate (fun a _ => ?_) (Prog.awaits_true p)
  exact ⟨hservice a, fun _ => trivial⟩

theorem obeys_gate_authenticate (cfg : AuthConfig) (authorization : Option String)
    (source : String) :
    gate.Obeys (fun _ stage => stage ≠ .inside) .outside
      (WorkerPoolService.authenticate cfg authorization source) := by
  refine ⟨rfl, fun reply => ?_⟩
  cases (reply : Admission) with
  | refused => exact nofun
  | unreadable =>
      have haudit : (WorkerPoolService.auditAuth .authRejected none).Awaits
          AuthAction.PassesGate :=
        WorkerPoolService.awaits_auditAuth _ _ trivial fun _ => trivial
      show gate.Obeys _ .outside (WorkerPoolService.auditAuth .authRejected none >>= fun _ =>
        throw (.workerAuthError "missing or oversized credential"))
      refine Protocol.obeys_bind.mpr ((obeys_gate_of_passes haudit .outside).mono ?_)
      rintro (error | value) _ rfl <;> exact nofun
  | admitted =>
      show gate.Obeys _ .inside (((WorkerPoolService.verifyIdentity cfg authorization).handle
        WorkerPoolService.authenticationFailed).ensure (.perform AuthAction.leave))
      refine Protocol.obeys_ensure.mpr ?_
      refine (obeys_gate_of_passes ((WorkerPoolService.awaits_admitted cfg authorization).mono
        fun _ => AuthAction.OfAdmitted.passesGate) .inside).mono ?_
      rintro _ _ rfl
      exact ⟨rfl, fun _ => nofun⟩

theorem obeys_gate (cfg : AuthConfig) (request : PoolRequest) :
    gate.Obeys (fun _ stage => stage ≠ .inside) .outside (request.program cfg) := by
  cases request with
  | service request =>
      have hservice : (uncancelled (request.program cfg.service)).Awaits
          AuthAction.PassesGate := awaits_uncancelled (fun _ => trivial) _
      refine Protocol.obeys_bind.mpr ((obeys_gate_of_passes hservice .outside).mono ?_)
      rintro (error | response) _ rfl <;> exact nofun
  | authenticate authorization source =>
      refine Protocol.obeys_bind.mpr ((obeys_gate_authenticate cfg authorization source).mono ?_)
      rintro (error | identity) stage hstage <;> exact hstage

/-! ### Runs -/

section Runs

variable [PyText] (cfg : AuthConfig)

/-- Any requests in any order. Outside the calls the verifier goes on, callers are cancelled, and
the world may become any other. -/
def authSchedule : Regime AuthWorld AuthAction AuthAction.Reply Exc PoolRequest PoolResponse where
  accepts _ _ := True
  allow _ _ _ := True
  env s w := s.world.auth.Progress w.auth

/-- Where a call is with respect to its admission. -/
def gateOf (history : List (Event AuthWorld AuthAction)) (i : Nat) : GateStage :=
  gate.stage AuthAction.exec .outside (pathOf history i)

/-- The calls between their admission and their exit. -/
def callsInside (history : List (Event AuthWorld AuthAction)) (calls : Nat) : Nat :=
  gate.callsIn AuthAction.exec .outside .inside history calls

omit [PyText] in
theorem AuthState.Progress.activeAuth {s t : AuthState} (h : s.Progress t) :
    t.activeAuth = s.activeAuth ∧ t.maxAuthConcurrency = s.maxAuthConcurrency := by
  cases h with
  | kept => exact ⟨rfl, rfl⟩
  | finish task claims =>
      rw [AuthState.finish]
      split <;> exact ⟨rfl, rfl⟩
  | finished task =>
      rw [AuthState.finished]
      split <;> exact ⟨rfl, rfl⟩

variable {cfg} {w : AuthWorld} {history : List (Event AuthWorld AuthAction)}
  {s : Sys AuthWorld AuthAction AuthAction.Reply Exc PoolRequest PoolResponse}

theorem activeAuth_eq (h : Recorded (poolService cfg) authSchedule ⟨w, []⟩ history s)
    (hstart : w.auth.activeAuth = 0) :
    s.world.auth.activeAuth = callsInside history s.calls.length := by
  induction h with
  | refl => exact hstart
  | begin before q accepted ih =>
      rw [List.length_append, callsInside, List.length_singleton,
        Protocol.callsIn_begin _ _ _ _ before.call_lt (by decide)]
      exact ih
  | env before w changed ih =>
      exact (AuthState.Progress.activeAuth changed).1.trans ih
  | advance before i q a next here allowed ih =>
      have hi := (List.getElem?_eq_some_iff.mp here).1
      have hobeys := before.obeys (Nat.zero_le i) here (obeys_gate cfg q)
      rw [List.length_set, callsInside, Protocol.callsIn_concat gate _ _ _ hi]
      refine (a.exec_activeAuth _).1.trans ?_
      rw [ih, gate_change hobeys.1]
      rfl

theorem slots_accounted {capacity : Int}
    {s t : Sys AuthWorld AuthAction AuthAction.Reply Exc PoolRequest PoolResponse}
    {history : List (Event AuthWorld AuthAction)}
    (h : Recorded (poolService cfg) authSchedule s history t)
    (hstart : s.world.auth.SlotsAccounted capacity) : t.world.auth.SlotsAccounted capacity := by
  refine (h.invariant (I := fun w => w.auth.SlotsAccounted capacity) hstart ?_ ?_).1
  · intro e _ haccounted
    rcases e.action.exec_verifier e.world with ⟨credential, hstarts⟩ | ⟨hslots, hverifications⟩
    · show (e.action.exec e.world).1.auth.SlotsAccounted capacity
      rw [hstarts]
      exact haccounted.startVerification credential
    · refine ⟨?_, hslots.symm ▸ haccounted.nonneg⟩
      have hheld : (e.action.exec e.world).1.auth.held = e.world.auth.held :=
        congrArg (List.countP _) hverifications
      exact (congrArg₂ (· + ·) hslots (congrArg Nat.cast hheld)).trans haccounted.accounted
  · exact fun s w hprogress haccounted => haccounted.progress hprogress

theorem activeAuth_le (h : Recorded (poolService cfg) authSchedule ⟨w, []⟩ history s)
    (hstart : w.auth.activeAuth ≤ w.auth.maxAuthConcurrency) :
    s.world.auth.activeAuth ≤ w.auth.maxAuthConcurrency := by
  have hinvariant := (h.invariant (I := fun v =>
    v.auth.maxAuthConcurrency = w.auth.maxAuthConcurrency ∧
      v.auth.activeAuth ≤ w.auth.maxAuthConcurrency) ⟨rfl, hstart⟩ ?_ ?_).1
  · exact hinvariant.2
  · rintro e - ⟨hmax, hle⟩
    obtain ⟨-, hkept, hbound⟩ := e.action.exec_activeAuth e.world
    exact ⟨hkept.trans hmax, hmax ▸ hbound (hmax ▸ hle)⟩
  · rintro u v hprogress ⟨hmax, hle⟩
    obtain ⟨hactive, hkept⟩ := AuthState.Progress.activeAuth hprogress
    exact ⟨hkept.trans hmax, hactive ▸ hle⟩

end Runs

/-! ### Verifications -/

/-- A verification goes from running to done to released, and keeps its claims. -/
inductive VerificationStage.Leads : VerificationStage → VerificationStage → Prop
  | same (stage : VerificationStage) : Leads stage stage
  | done (claims : Option TokenClaims) : Leads .running (.done claims)
  | released (claims : Option TokenClaims) : Leads .running (.released claims)
  | callback (claims : Option TokenClaims) : Leads (.done claims) (.released claims)

theorem VerificationStage.Leads.trans {first second third : VerificationStage}
    (h : Leads first second) (h' : Leads second third) : Leads first third := by
  cases h with
  | same => exact h'
  | done claims =>
      cases h' with
      | same => exact .done claims
      | callback => exact .released claims
  | released claims =>
      cases h'
      exact .released claims
  | callback claims =>
      cases h'
      exact .callback claims

/-- No verification is forgotten or goes back. -/
def AuthState.Advances (s t : AuthState) : Prop :=
  ∀ (task : Nat) (v : Verification), s.verifications[task]? = some v →
    ∃ stage, t.verifications[task]? = some ⟨v.credential, stage⟩ ∧ v.stage.Leads stage

namespace AuthState

theorem Advances.refl (s : AuthState) : s.Advances s :=
  fun _ v hv => ⟨v.stage, hv, .same v.stage⟩

theorem Advances.trans {s t u : AuthState} (h : s.Advances t) (h' : t.Advances u) :
    s.Advances u := by
  intro task v hv
  obtain ⟨stage, ht, hleads⟩ := h task v hv
  obtain ⟨stage', hu, hleads'⟩ := h' task _ ht
  exact ⟨stage', hu, hleads.trans hleads'⟩

theorem advances_set {s : AuthState} {task : Nat} {v : Verification} {stage : VerificationStage}
    (hv : s.verifications[task]? = some v) (hleads : v.stage.Leads stage) {slots : Int} :
    s.Advances { s with
      slots := slots, verifications := s.verifications.set task ⟨v.credential, stage⟩ } := by
  intro other u hu
  by_cases hsame : task = other
  · subst hsame
    obtain rfl : v = u := Option.some.inj (hv.symm.trans hu)
    refine ⟨stage, ?_, hleads⟩
    exact List.getElem?_set_self (List.getElem?_eq_some_iff.mp hv).1
  · exact ⟨u.stage, (List.getElem?_set_ne hsame).trans hu, .same u.stage⟩

theorem Progress.advances {s t : AuthState} (h : s.Progress t) : s.Advances t := by
  cases h with
  | kept => exact .refl s
  | finish task claims =>
      rw [AuthState.finish]
      split
      · rename_i credential hrunning
        exact advances_set hrunning (.done claims)
      · exact .refl s
  | finished task =>
      rw [AuthState.finished]
      split
      · rename_i credential claims hdone
        exact advances_set hdone (.callback claims)
      · exact .refl s

theorem Progress.freed {s t : AuthState} (h : s.Progress t) :
    t.slots = s.slots ∨ t.slots = s.slots + 1 ∧
      ∃ (task : Nat) (credential : String) (claims : Option TokenClaims),
        s.verifications[task]? = some ⟨credential, .done claims⟩ ∧
          t.verifications[task]? = some ⟨credential, .released claims⟩ := by
  cases h with
  | kept => exact Or.inl rfl
  | finish task claims =>
      rw [AuthState.finish]
      split <;> exact Or.inl rfl
  | finished task =>
      rw [AuthState.finished]
      split
      · rename_i credential claims hdone
        refine Or.inr ⟨rfl, task, credential, claims, hdone, ?_⟩
        exact List.getElem?_set_self (List.getElem?_eq_some_iff.mp hdone).1
      · exact Or.inl rfl

theorem finished_done {s : AuthState} {task : Nat} {credential : String}
    {claims : Option TokenClaims} (h : s.verifications[task]? = some ⟨credential, .done claims⟩) :
    (s.finished task).slots = s.slots + 1 ∧
      (s.finished task).verifications[task]? = some ⟨credential, .released claims⟩ := by
  rw [finished, h]
  exact ⟨rfl, List.getElem?_set_self (List.getElem?_eq_some_iff.mp h).1⟩

theorem finished_of_not_done {s : AuthState} {task : Nat} {v : Verification}
    (h : s.verifications[task]? = some v) (hnot : ∀ claims, v.stage ≠ .done claims) :
    s.finished task = s := by
  obtain ⟨credential, stage⟩ := v
  rw [finished, h]
  cases stage with
  | done claims => exact absurd rfl (hnot claims)
  | running => rfl
  | released claims => rfl

theorem finish_running {s : AuthState} {task : Nat} {credential : String}
    (claims : Option TokenClaims) (h : s.verifications[task]? = some ⟨credential, .running⟩) :
    (s.finish task claims).slots = s.slots ∧
      (s.finish task claims).verifications[task]? = some ⟨credential, .done claims⟩ := by
  rw [finish, h]
  exact ⟨rfl, List.getElem?_set_self (List.getElem?_eq_some_iff.mp h).1⟩

end AuthState

namespace AuthAction

variable [PyText]

/-- No action of a call frees a slot or touches a verification that has started, whatever resumed
the call. -/
theorem exec_holds (action : AuthAction) (w : AuthWorld) :
    (action.exec w).1.auth.slots ≤ w.auth.slots ∧
      ∀ (task : Nat) (v : Verification), w.auth.verifications[task]? = some v →
        (action.exec w).1.auth.verifications[task]? = some v := by
  rcases action.exec_verifier w with ⟨credential, rfl⟩ | ⟨hslots, hverifications⟩
  · rw [exec, AuthState.startVerification]
    split
    · exact ⟨le_refl _, fun _ _ hv => hv⟩
    · refine ⟨Int.sub_le_self _ (by decide), fun task v hv => ?_⟩
      exact (List.getElem?_append_left (List.getElem?_eq_some_iff.mp hv).1).trans hv
  · rw [hslots, hverifications]
    exact ⟨le_refl _, fun _ _ hv => hv⟩

theorem exec_advances (action : AuthAction) (w : AuthWorld) :
    w.auth.Advances (action.exec w).1.auth :=
  fun task v hv => ⟨v.stage, (action.exec_holds w).2 task v hv, .same v.stage⟩

end AuthAction

/-! ### A busy verifier -/

/-- A call that finds no free slot has nothing left to do but to leave and to raise. -/
def RaisesWhenBusy : (action : AuthAction) → (action.Reply → AuthCoroutine PoolResponse) → Prop
  | .startVerification _, next =>
      next (none : Option Nat) =
        .await .leave fun _ => .raise (.rateLimited "identity verification is busy")
  | _, _ => True

theorem raisesWhenBusy_of_verified (action : AuthAction)
    (next : action.Reply → AuthCoroutine PoolResponse) (h : action.OfVerified ∨ action = .leave) :
    RaisesWhenBusy action next := by
  cases action with
  | startVerification credential => exact h.elim False.elim nofun
  | _ => trivial

/-- What an admitted authentication does around its authenticator. -/
def guarded (cfg : AuthConfig) (p : AuthCoroutine WorkerIdentity) : AuthCoroutine PoolResponse :=
  ((p >>= WorkerPoolService.admitIdentity cfg).handle
      WorkerPoolService.authenticationFailed).ensure (.perform AuthAction.leave) >>= fun identity =>
    pure (.identity identity)

theorem awaits_guarded (cfg : AuthConfig) {p : AuthCoroutine WorkerIdentity}
    (hp : p.Awaits AuthAction.OfVerified) :
    (guarded cfg p).Awaits fun action => action.OfVerified ∨ action = .leave := by
  refine .bind (.ensure (.handle (.bind (hp.mono fun _ => Or.inl) fun identity => ?_)
    fun error => ?_) ⟨Or.inr rfl, fun _ => trivial⟩) fun _ => trivial
  · exact (WorkerPoolService.awaits_admitIdentity cfg identity).mono fun _ => Or.inl
  · exact (WorkerPoolService.awaits_authenticationFailed error).mono fun _ => Or.inl

theorem atAwaits_guarded (cfg : AuthConfig) (g : GoogleIdTokenWorkerAuthenticator)
    (authorization : Option String) :
    (guarded cfg (g.authenticate authorization)).AtAwaits RaisesWhenBusy := by
  rw [GoogleIdTokenWorkerAuthenticator.authenticate]
  cases bearerCredential authorization with
  | error error =>
      exact Prog.atAwaits_of_awaits raisesWhenBusy_of_verified
        (awaits_guarded cfg (p := .raise error) trivial)
  | ok credential =>
      refine ⟨rfl, fun reply => ?_⟩
      cases (reply : Option Nat) with
      | none => exact ⟨trivial, fun _ => trivial⟩
      | some task =>
          exact Prog.atAwaits_of_awaits raisesWhenBusy_of_verified
            (awaits_guarded cfg (g.awaits_verified (fun _ => trivial) (fun _ h => h) task))

theorem atAwaits_program (cfg : AuthConfig) (g : GoogleIdTokenWorkerAuthenticator)
    (hgoogle : cfg.authenticator = googleIdTokenAuthenticator g) (request : PoolRequest) :
    (request.program cfg).AtAwaits RaisesWhenBusy := by
  cases request with
  | service request =>
      have hservice : (uncancelled (request.program cfg.service) >>= fun response =>
          pure (PoolResponse.service response)).Awaits fun action => ∃ a, action = .service a :=
        .bind (awaits_uncancelled (fun a => ⟨a, rfl⟩) _) fun _ => trivial
      refine Prog.atAwaits_of_awaits ?_ hservice
      rintro _ next ⟨action, rfl⟩
      trivial
  | authenticate authorization source =>
      refine ⟨trivial, fun reply => ?_⟩
      cases (reply : Admission) with
      | refused => trivial
      | unreadable =>
          have haudit : (WorkerPoolService.auditAuth .authRejected none).Awaits
              AuthAction.OfVerified :=
            WorkerPoolService.awaits_auditAuth _ _ trivial fun _ => trivial
          have hrejected : ((WorkerPoolService.auditAuth .authRejected none >>= fun _ =>
              throw (.workerAuthError "missing or oversized credential")) >>= fun identity =>
                pure (PoolResponse.identity identity)).Awaits AuthAction.OfVerified :=
            .bind (.bind haudit fun _ => trivial) fun _ => trivial
          exact Prog.atAwaits_of_awaits raisesWhenBusy_of_verified
            (hrejected.mono fun _ => Or.inl)
      | admitted =>
          show (guarded cfg (cfg.authenticator.authenticate authorization)).AtAwaits _
          rw [hgoogle]
          exact atAwaits_guarded cfg g authorization

/-! ### The gates in every run -/

section Gates

variable [PyText]

/-- What the two gates of authentication keep to at the end of a run. -/
structure GatesKept (cfg : AuthConfig) (limits : AuthLimits)
    (history : List (Event AuthWorld AuthAction))
    (s : Sys AuthWorld AuthAction AuthAction.Reply Exc PoolRequest PoolResponse) : Prop where
  active : s.world.auth.activeAuth = callsInside history s.calls.length
  bounded : s.world.auth.activeAuth ≤ limits.maxAuthConcurrency
  exited : ∀ i c, s.calls[i]? = some c → c.answer? ≠ none → gateOf history i ≠ .inside
  threads : (s.world.auth.running : Int) ≤ limits.maxConcurrentVerifications
  slots : s.world.auth.SlotsAccounted limits.maxConcurrentVerifications
  /-- Whatever resumed a call, its action freed no slot and touched no started verification. -/
  kept : ∀ e ∈ history, (e.action.exec e.world).1.auth.slots ≤ e.world.auth.slots ∧
    ∀ (task : Nat) (v : Verification), e.world.auth.verifications[task]? = some v →
      (e.action.exec e.world).1.auth.verifications[task]? = some v
  /-- A slot is freed by the done-callback of a verifier that has ended, which releases it. -/
  freed : ∀ t, s.world.auth.Progress t → t.slots = s.world.auth.slots ∨
    t.slots = s.world.auth.slots + 1 ∧
      ∃ (task : Nat) (credential : String) (claims : Option TokenClaims),
        s.world.auth.verifications[task]? = some ⟨credential, .done claims⟩ ∧
          t.verifications[task]? = some ⟨credential, .released claims⟩
  /-- The done-callback of a verifier that has ended frees its slot. -/
  releases : ∀ task credential claims,
    s.world.auth.verifications[task]? = some ⟨credential, .done claims⟩ →
      (s.world.auth.finished task).slots = s.world.auth.slots + 1 ∧
        (s.world.auth.finished task).verifications[task]? = some ⟨credential, .released claims⟩
  /-- No slot is freed for a verifier that still runs or whose callback has run. -/
  releasesOnce : ∀ (task : Nat) (v : Verification), s.world.auth.verifications[task]? = some v →
    (∀ claims, v.stage ≠ .done claims) → s.world.auth.finished task = s.world.auth
  /-- A verifier that ends waits for its done-callback. -/
  ends : ∀ (task : Nat) (credential : String) (claims : Option TokenClaims),
    s.world.auth.verifications[task]? = some ⟨credential, .running⟩ →
      (s.world.auth.finish task claims).slots = s.world.auth.slots ∧
        (s.world.auth.finish task claims).verifications[task]? = some ⟨credential, .done claims⟩
  /-- A verification that was released is not released again. -/
  forward : ∀ history' t, Recorded (poolService cfg) authSchedule s history' t →
    s.world.auth.Advances t.world.auth
  /-- A call that finds no free slot raises with the next two actions, neither of which waits. -/
  busy : ∀ i q credential next,
    s.calls[i]? = some ⟨q, .await (.startVerification credential) next⟩ →
    s.world.auth.slots = 0 →
      (s.advance (poolService cfg) i).advance (poolService cfg) i =
        ⟨{ s.world with auth := s.world.auth.leave },
          s.calls.set i ⟨q, .raise (.rateLimited "identity verification is busy")⟩⟩

theorem advance_busy (cfg : AuthConfig)
    {s : Sys AuthWorld AuthAction AuthAction.Reply Exc PoolRequest PoolResponse} {i : Nat}
    {q : PoolRequest} {credential : String}
    {next : Option Nat → AuthCoroutine PoolResponse}
    (hcall : s.calls[i]? = some ⟨q, .await (.startVerification credential) next⟩)
    (hnext : next none = .await .leave fun _ =>
      .raise (.rateLimited "identity verification is busy"))
    (hslots : s.world.auth.slots = 0) :
    (s.advance (poolService cfg) i).advance (poolService cfg) i =
      ⟨{ s.world with auth := s.world.auth.leave },
        s.calls.set i ⟨q, .raise (.rateLimited "identity verification is busy")⟩⟩ := by
  have hlocked : (poolService cfg).exec (.startVerification credential) s.world =
      (s.world, none) := by
    show AuthAction.exec (.startVerification credential) s.world = _
    rw [AuthAction.exec, AuthState.startVerification, if_pos hslots]
    rfl
  have hfirst : s.advance (poolService cfg) i = ⟨s.world, s.calls.set i ⟨q, next none⟩⟩ := by
    rw [Sys.advance_await hcall, hlocked]
  have hi := (List.getElem?_eq_some_iff.mp hcall).1
  rw [hfirst, hnext, Sys.advance_await (List.getElem?_set_self hi), List.set_set]
  rfl

/-- The concurrency gates of authentication with the Google authenticator, in every run. -/
theorem authentication_gates (cfg : AuthConfig) (g : GoogleIdTokenWorkerAuthenticator)
    (hgoogle : cfg.authenticator = googleIdTokenAuthenticator g) {limits : AuthLimits}
    {w : AuthWorld} (hnew : AuthState.new limits = .ok w.auth)
    {history : List (Event AuthWorld AuthAction)}
    {s : Sys AuthWorld AuthAction AuthAction.Reply Exc PoolRequest PoolResponse}
    (h : Recorded (poolService cfg) authSchedule ⟨w, []⟩ history s) :
    GatesKept cfg limits history s := by
  have hfresh := AuthState.fresh_of_new hnew
  have hslots : s.world.auth.SlotsAccounted limits.maxConcurrentVerifications := by
    refine slots_accounted h ⟨?_, ?_⟩
    · rw [hfresh.slots, AuthState.held, hfresh.verifications]
      exact add_zero _
    · rw [hfresh.slots]
      exact le_trans (by decide) hfresh.slots_pos
  have hconcurrency : w.auth.activeAuth ≤ w.auth.maxAuthConcurrency := by
    rw [hfresh.activeAuth, hfresh.maxAuthConcurrency]
    exact le_trans (by decide) hfresh.concurrency_pos
  refine ⟨activeAuth_eq h hfresh.activeAuth, ?_, ?_, ?_, hslots, ?_,
    fun _ => AuthState.Progress.freed, fun _ _ _ => AuthState.finished_done,
    fun _ _ => AuthState.finished_of_not_done, fun _ _ => AuthState.finish_running, ?_, ?_⟩
  · exact hfresh.maxAuthConcurrency ▸ activeAuth_le h hconcurrency
  · intro i c hc hanswer
    obtain ⟨res, hres⟩ := Call.exists_ofExcept hanswer
    have hobeys := h.obeys (Nat.zero_le i) hc (obeys_gate cfg c.request)
    rw [hres] at hobeys
    cases res <;> exact hobeys
  · have hrunning := s.world.auth.running_le_held
    have haccounted := hslots.accounted
    have hnonneg := hslots.nonneg
    omega
  · exact fun e _ => e.action.exec_holds e.world
  · intro history' t hafter
    refine (hafter.invariant (I := fun v => s.world.auth.Advances v.auth) (.refl _) ?_ ?_).1
    · exact fun e _ hadvances => hadvances.trans (e.action.exec_advances e.world)
    · exact fun u v hprogress hadvances => hadvances.trans (AuthState.Progress.advances hprogress)
  · intro i q credential next hcall hzero
    have hnode := (atAwaits_program cfg g hgoogle q).follows (h.follows hcall)
    exact advance_busy cfg hcall hnode.1 hzero

end Gates

/-! ### A caller that is cancelled -/

/-- A pool whose verifier has one slot. -/
def smallLimits : AuthLimits where
  maxConcurrentVerifications := 1

def smallAuth : AuthState where
  sourceLimiter := ⟨120, 4096, Table.empty, by decide, by decide⟩
  preAuthLimiter := ⟨1200, 1, Table.empty, by decide, by decide⟩
  workerLimiter := ⟨120, 4096, Table.empty, by decide, by decide⟩
  globalLimiter := ⟨1200, 4096, Table.empty, by decide, by decide⟩
  authAuditLimiter := ⟨30, 1, Table.empty, by decide, by decide⟩
  slots := 1

theorem smallAuth_new : AuthState.new smallLimits = .ok smallAuth := rfl

def smallGoogle : AuthConfig where
  service := smallConfig
  authenticator := googleIdTokenAuthenticator {}

/-- A caller is cancelled while its verifier runs, and a second caller comes. -/
def cancelledMoves : List (Move AuthWorld PoolRequest) :=
  [.begin (.authenticate (some "Bearer synthetic") "peer"), .advance 0, .advance 0,
    .env fun w => { w with cancelling := some false }, .advance 0, .advance 0,
    .begin (.authenticate (some "Bearer synthetic") "peer"), .advance 1, .advance 1, .advance 1]

def cancelledRun : Sys AuthWorld AuthAction AuthAction.Reply Exc PoolRequest PoolResponse :=
  letI := PyText.ascii
  Sys.play (poolService smallGoogle) ⟨⟨smallWorld, smallAuth, none⟩, []⟩ cancelledMoves

def cancelledHistory : List (Event AuthWorld AuthAction) :=
  letI := PyText.ascii
  Sys.played (poolService smallGoogle) ⟨⟨smallWorld, smallAuth, none⟩, []⟩ cancelledMoves

theorem cancelled_values :
    cancelledRun.world.auth.activeAuth = 0 ∧ cancelledRun.world.auth.slots = 0 ∧
      cancelledRun.world.auth.running = 1 ∧
      cancelledRun.calls.map Call.error? =
        [some .cancelledError, some (.rateLimited "identity verification is busy")] := by
  decide +kernel

/-- The verifier of the cancelled caller keeps its slot, and the second caller is turned away. -/
theorem authentication_gates_cancelled : letI := PyText.ascii
    GatesKept smallGoogle smallLimits cancelledHistory cancelledRun ∧
      cancelledRun.world.auth.running = 1 := by
  let _ := PyText.ascii
  have hpermitted : Permitted (poolService smallGoogle) authSchedule
      ⟨⟨smallWorld, smallAuth, none⟩, []⟩ cancelledMoves := by
    refine permitted_of_env (fun _ _ => trivial) (fun _ _ _ => trivial) ?_ _
    intro change hchange s
    simp only [cancelledMoves, List.mem_cons, reduceCtorEq, false_or, Move.env.injEq,
      List.not_mem_nil, or_false] at hchange
    subst hchange
    exact .kept
  have hstart : Recorded (poolService smallGoogle) authSchedule
      ⟨⟨smallWorld, smallAuth, none⟩, []⟩ [] ⟨⟨smallWorld, smallAuth, none⟩, []⟩ := .refl _
  have hrun := hstart.play hpermitted
  rw [List.nil_append] at hrun
  exact ⟨authentication_gates smallGoogle {} rfl smallAuth_new hrun, cancelled_values.2.2.1⟩

end GpuWorkerPool
