import GpuWorkerPool.AuthGates

/-!
What a flood of authentications can cost. Every admission is paid from the bucket of
`_pre_auth_limiter` and every audit row of an authentication from the bucket of
`_auth_audit_limiter`, so the admissions and the rows of any window are within the limit and what
came in. A call that its own source's bucket refuses shows to no other call.
-/

namespace GpuWorkerPool

open Base

/-! ### What a window can spend -/

/-- The bucket of a limiter at the end of a run that has spent some of its tokens. -/
structure Budget (l l' : RateLimiter) (now now' : DateTime) (spent : Nat) : Prop where
  sound : l'.Sound now'
  limit : l'.limit = l.limit
  later : now ≤ now'
  within : WithinBudget (l.limit : ℚ) (l.limit / 60) spent (l'.level now' globalRateLimitKey)
    (totalSeconds (now' - now))

theorem Budget.spent_le {l l' : RateLimiter} {now now' : DateTime} {spent : Nat}
    (h : Budget l l' now now' spent) :
    (spent : ℚ) ≤ l.limit + l.limit * totalSeconds (now' - now) / 60 := by
  have hspent := h.within.spent_le (RateLimiter.level_nonneg h.sound globalRateLimitKey)
  linarith

theorem Budget.elapse {l l' : RateLimiter} {now now' instant : DateTime} {spent : Nat}
    (h : Budget l l' now now' spent) (hinstant : now' ≤ instant) : Budget l l' now instant spent := by
  refine ⟨h.sound.later hinstant, h.limit, h.later.trans hinstant, ?_⟩
  have helapsed : totalSeconds (now' - now) + totalSeconds (instant - now') =
      totalSeconds (instant - now) := by
    rw [RateLimiter.totalSeconds_add]
    congr 1
    unfold DateTime at *
    omega
  rw [RateLimiter.level_later hinstant, h.limit, ← helapsed]
  exact h.within.elapse _

theorem Budget.allow {l l' : RateLimiter} {now now' : DateTime} {spent : Nat}
    (h : Budget l l' now now' spent) {key : String} {spends : Bool}
    (hspends : spends = true → key = globalRateLimitKey ∧ (l'.allow now' key).2 = true) :
    Budget l (l'.allow now' key).1 now now' (spent + if spends then 1 else 0) := by
  refine ⟨h.sound.allow key, (RateLimiter.allow_limit h.sound key).1.trans h.limit, h.later, ?_⟩
  rw [RateLimiter.level_allow h.sound]
  cases spends with
  | true =>
      obtain ⟨rfl, hallow⟩ := hspends rfl
      rw [if_pos (And.intro rfl hallow)]
      exact h.within.spend
  | false =>
      refine h.within.drain ?_
      split
      · rename_i hcharged
        rw [hcharged.1]
        exact sub_le_self _ zero_le_one
      · exact le_refl _

section Runs

variable [PyText] {cfg : AuthConfig}

/-- As `authSchedule`, while the clock of the service does not run backwards. -/
def floodSchedule : Regime AuthWorld AuthAction AuthAction.Reply Exc PoolRequest PoolResponse where
  accepts _ _ := True
  allow _ _ _ := True
  env s w := s.world.auth.Progress w.auth ∧ s.world.world.clock ≤ w.world.clock

/-- Actions charge the limiter for its one key or leave it alone, and an event has spent a token
only if it was charged one. -/
structure Charges (limiter : AuthState → RateLimiter) (spent : Event AuthWorld AuthAction → Bool) :
    Prop where
  exec : ∀ e, limiter (e.action.exec e.world).1.auth = limiter e.world.auth ∧ spent e = false ∨
    ∃ key, limiter (e.action.exec e.world).1.auth =
        ((limiter e.world.auth).allow e.world.world.clock key).1 ∧
      (spent e = true → key = globalRateLimitKey ∧
        ((limiter e.world.auth).allow e.world.world.clock key).2 = true)
  progress : ∀ s t : AuthState, s.Progress t → limiter t = limiter s

theorem AuthAction.exec_clock (action : AuthAction) (w : AuthWorld) :
    (action.exec w).1.world.clock = w.world.clock := by
  cases action with
  | service action => exact (action.exec_now w.world).2
  | cancellable action =>
      rw [AuthAction.exec]
      split
      · exact (action.exec_now w.world).2
      · dsimp only
        split
        · exact (action.exec_now w.world).2
        · rfl
  | shield task =>
      rw [AuthAction.exec]
      split <;> rfl
  | admitCall _ _ | allow _ _ | leave | startVerification _ => rfl

/-- What the events of a window have spent of a limiter. -/
theorem Charges.budget {limiter : AuthState → RateLimiter} {spent : Event AuthWorld AuthAction → Bool}
    (hcharges : Charges limiter spent)
    {s t : Sys AuthWorld AuthAction AuthAction.Reply Exc PoolRequest PoolResponse}
    {history : List (Event AuthWorld AuthAction)}
    (h : Recorded (poolService cfg) floodSchedule s history t)
    (hsound : (limiter s.world.auth).Sound s.world.world.clock) :
    Budget (limiter s.world.auth) (limiter t.world.auth) s.world.world.clock t.world.world.clock
      (history.countP spent) := by
  induction h with
  | refl =>
      refine ⟨hsound, rfl, le_refl _, ?_⟩
      rw [Int.sub_self, totalSeconds, Int.cast_zero, zero_div]
      exact .start (RateLimiter.level_le_limit _ _ _)
  | begin before q accepted ih => exact ih
  | @advance t history before i q a next here allowed ih =>
      show Budget _ (limiter (a.exec t.world).1.auth) _ (a.exec t.world).1.world.clock _
      rw [AuthAction.exec_clock, List.countP_append, List.countP_singleton]
      rcases hcharges.exec ⟨i, a, t.world⟩ with ⟨hsame, hnone⟩ | ⟨key, hallow, hspends⟩
      · rw [hsame, hnone]
        exact ih
      · rw [hallow]
        exact ih.allow hspends
  | env before w changed ih =>
      show Budget _ (limiter w.auth) _ w.world.clock _
      rw [hcharges.progress _ _ changed.1]
      exact ih.elapse changed.2

omit [PyText] in
theorem AuthState.Progress.limiters {s t : AuthState} (h : s.Progress t) :
    t.sourceLimiter = s.sourceLimiter ∧ t.preAuthLimiter = s.preAuthLimiter ∧
      t.authAuditLimiter = s.authAuditLimiter := by
  cases h with
  | kept => exact ⟨rfl, rfl, rfl⟩
  | finish task claims =>
      rw [AuthState.finish]
      split <;> exact ⟨rfl, rfl, rfl⟩
  | finished task =>
      rw [AuthState.finished]
      split <;> exact ⟨rfl, rfl, rfl⟩

/-- An action that charges no limiter. -/
def AuthAction.ChargesNone : AuthAction → Prop
  | admitCall _ _ => False
  | allow _ _ => False
  | _ => True

theorem AuthAction.exec_limiters (action : AuthAction) (w : AuthWorld) (h : action.ChargesNone) :
    (action.exec w).1.auth.preAuthLimiter = w.auth.preAuthLimiter ∧
      (action.exec w).1.auth.authAuditLimiter = w.auth.authAuditLimiter := by
  cases action with
  | admitCall _ _ | allow _ _ => exact h.elim
  | service _ | leave => exact ⟨rfl, rfl⟩
  | cancellable _ | shield _ =>
      rw [exec]
      split <;> exact ⟨rfl, rfl⟩
  | startVerification credential =>
      rw [exec, AuthState.startVerification]
      split <;> exact ⟨rfl, rfl⟩

/-! ### Admissions -/

/-- The call is admitted and goes on to the authenticator. -/
def reachesAuthenticator (e : Event AuthWorld AuthAction) : Bool :=
  match e.action with
  | .admitCall source authorization =>
      (e.world.auth.admitCall e.world.world.clock source authorization).2 = .admitted
  | _ => false

theorem charges_admissions : Charges AuthState.preAuthLimiter reachesAuthenticator where
  exec := by
    rintro ⟨i, action, w⟩
    cases action with
    | admitCall source authorization =>
        rcases w.auth.admit_cases w.world.clock source authorization with
          ⟨-, hgate⟩ | ⟨-, active, verdict, hgate, hverdict⟩
        · refine Or.inl ⟨congrArg (fun out => out.1.preAuthLimiter) hgate, ?_⟩
          simp [reachesAuthenticator, hgate]
        · have hcharged := congrArg (fun out => out.1.preAuthLimiter) hgate
          refine Or.inr ⟨globalRateLimitKey, hcharged, fun hreaches => ⟨rfl, ?_⟩⟩
          rcases hverdict with ⟨-, hall, -⟩ | ⟨hnot, -⟩
          · exact hall
          · simp [reachesAuthenticator, hgate, hnot] at hreaches
    | allow limiter key => cases limiter <;> exact Or.inl ⟨rfl, rfl⟩
    | service _ | cancellable _ | leave | startVerification _ | shield _ =>
        refine Or.inl ⟨(AuthAction.exec_limiters _ w ?_).1, rfl⟩
        trivial
  progress _ _ h := h.limiters.2.1

/-! ### Audit rows -/

/-- An await of an authentication has written an audit row. -/
def writesAuthRow (e : Event AuthWorld AuthAction) : Bool :=
  match e.action with
  | .cancellable action =>
      e.world.world.auditLog.length <
        ((AuthAction.cancellable action).exec e.world).1.world.auditLog.length
  | _ => false

/-- `_auth_audit_limiter.allow(GLOBAL_RATE_LIMIT_KEY)` has answered `True`. -/
def earnsAudit : (action : AuthAction) → action.Reply → Bool
  | .allow .authAudit key, reply => decide (key = globalRateLimitKey) && (reply : Bool)
  | _, _ => false

/-- The action may write an audit row for an authentication. -/
def spendsAudit : AuthAction → Bool
  | .cancellable (.audit ..) => true
  | _ => false

theorem spendsAudit_of_row {e : Event AuthWorld AuthAction} (h : writesAuthRow e = true) :
    spendsAudit e.action = true := by
  obtain ⟨i, action, w⟩ := e
  cases action with
  | cancellable action =>
      by_contra hspends
      have hquiet : ∀ eventType workerId jobId detail,
          action ≠ .audit eventType workerId jobId detail := by
        rintro eventType workerId jobId detail rfl
        exact hspends rfl
      have hlog : ((AuthAction.cancellable action).exec w).1.world.auditLog =
          w.world.auditLog := by
        rw [AuthAction.exec]
        split
        · exact Action.exec_auditLog hquiet w.world
        · dsimp only
          split
          · exact Action.exec_auditLog hquiet w.world
          · rfl
      simp [writesAuthRow, hlog] at h
  | _ => exact h

theorem charges_audit : Charges AuthState.authAuditLimiter
    fun e => earnsAudit e.action (e.action.exec e.world).2 where
  exec := by
    rintro ⟨i, action, w⟩
    cases action with
    | admitCall source authorization =>
        refine Or.inl ⟨?_, rfl⟩
        rcases w.auth.admit_cases w.world.clock source authorization with
          ⟨-, hgate⟩ | ⟨-, active, verdict, hgate, -⟩
        · exact congrArg (fun out => out.1.authAuditLimiter) hgate
        · exact congrArg (fun out => out.1.authAuditLimiter) hgate
    | allow limiter key =>
        cases limiter with
        | worker | global => exact Or.inl ⟨rfl, rfl⟩
        | authAudit =>
            refine Or.inr ⟨key, rfl, fun hearns => ?_⟩
            obtain ⟨hkey, hallowed⟩ := Bool.and_eq_true_iff.mp hearns
            exact ⟨of_decide_eq_true hkey, hallowed⟩
    | service _ | cancellable _ | leave | startVerification _ | shield _ =>
        refine Or.inl ⟨(AuthAction.exec_limiters _ w ?_).2, rfl⟩
        trivial
  progress _ _ h := h.limiters.2.2

end Runs

/-- From any credit on, the program writes no audit row that it has not paid for. -/
def PaysForAudit {α : Type} (p : AuthCoroutine α) : Prop :=
  ∀ credit, (Protocol.credit earnsAudit spendsAudit).Obeys (fun _ _ => True) credit p

section Pays

variable {α β : Type}

theorem paysForAudit_of_awaits {p : AuthCoroutine α}
    (h : p.Awaits fun action => spendsAudit action = false) : PaysForAudit p :=
  Protocol.obeys_of_allowed (fun _ _ hnone hspends => absurd (hnone.symm.trans hspends) (by decide)) h

theorem PaysForAudit.bind {p : AuthCoroutine α} {f : α → AuthCoroutine β} (hp : PaysForAudit p)
    (hf : ∀ value, PaysForAudit (f value)) : PaysForAudit (p >>= f) := by
  intro credit
  refine Protocol.obeys_bind.mpr ((hp credit).mono ?_)
  rintro (error | value) credit' -
  · trivial
  · exact hf value credit'

theorem PaysForAudit.handle {p : AuthCoroutine α} {handler : Exc → AuthCoroutine α}
    (hp : PaysForAudit p) (hhandler : ∀ error, PaysForAudit (handler error)) :
    PaysForAudit (p.handle handler) := by
  intro credit
  refine Protocol.obeys_handle.mpr ((hp credit).mono ?_)
  rintro (error | value) credit' -
  · exact hhandler error credit'
  · trivial

theorem PaysForAudit.ensure {p : AuthCoroutine α} {cleanup : AuthCoroutine Unit}
    (hp : PaysForAudit p) (hcleanup : PaysForAudit cleanup) : PaysForAudit (p.ensure cleanup) := by
  intro credit
  refine Protocol.obeys_ensure.mpr ((hp credit).mono fun res credit' _ => ?_)
  refine (hcleanup credit').mono ?_
  rintro (error | value) credit'' - <;> trivial

theorem paysForAudit_auditAuth (eventType : AuditEventType) (workerId : Option String) :
    PaysForAudit (WorkerPoolService.auditAuth eventType workerId) := by
  intro credit
  refine ⟨nofun, fun reply => ?_⟩
  cases (reply : Bool) with
  | false => trivial
  | true =>
      refine ⟨fun _ => Nat.succ_pos _, fun reply => ?_⟩
      cases (reply : Except Exc (Except Exc Unit)) with
      | error error => trivial
      | ok written => cases written <;> trivial

theorem AuthAction.OfAuthenticator.not_spendsAudit {action : AuthAction}
    (h : action.OfAuthenticator) : spendsAudit action = false := by
  cases action with
  | cancellable action => cases action <;> first | rfl | exact h.elim
  | _ => rfl

theorem paysForAudit_admitIdentity (cfg : AuthConfig) (identity : WorkerIdentity) :
    PaysForAudit (WorkerPoolService.admitIdentity cfg identity) := by
  refine .bind (paysForAudit_of_awaits ?_) fun _ => .bind (paysForAudit_of_awaits ?_) fun charged => ?_
  · exact WorkerPoolService.awaits_cancellable_enrollment cfg.service identity rfl
  · refine ⟨rfl, fun byWorker => ?_⟩
    cases (byWorker : Bool) with
    | true => exact ⟨rfl, fun _ => trivial⟩
    | false => trivial
  · split
    · exact fun _ => trivial
    · exact .bind (paysForAudit_auditAuth _ _) fun _ _ => trivial

theorem paysForAudit_authenticationFailed (error : Exc) :
    PaysForAudit (WorkerPoolService.authenticationFailed error) := by
  cases error with
  | workerAuthError _ | workerIdentityMismatch _ =>
      exact .bind (paysForAudit_auditAuth _ _) fun _ _ => trivial
  | _ => exact fun _ => trivial

theorem paysForAudit_authenticate (cfg : AuthConfig) (authorization : Option String)
    (source : String) :
    PaysForAudit (WorkerPoolService.authenticate cfg authorization source) := by
  refine .bind (paysForAudit_of_awaits ⟨rfl, fun _ => trivial⟩) fun admission => ?_
  cases (admission : Admission) with
  | refused => exact fun _ => trivial
  | unreadable => exact .bind (paysForAudit_auditAuth _ _) fun _ _ => trivial
  | admitted =>
      refine .ensure (.handle (.bind (paysForAudit_of_awaits ?_) fun identity =>
        paysForAudit_admitIdentity cfg identity) paysForAudit_authenticationFailed) ?_
      · exact (cfg.authenticator.reads authorization).mono
          fun _ => AuthAction.OfAuthenticator.not_spendsAudit
      · exact paysForAudit_of_awaits ⟨rfl, fun _ => trivial⟩

theorem paysForAudit_program (cfg : AuthConfig) (request : PoolRequest) :
    PaysForAudit (request.program cfg) := by
  cases request with
  | service request =>
      refine .bind (paysForAudit_of_awaits ?_) fun _ _ => trivial
      exact awaits_uncancelled (fun _ => rfl) _
  | authenticate authorization source =>
      exact .bind (paysForAudit_authenticate cfg authorization source) fun _ _ => trivial

end Pays

/-! ### A refused source -/

section Refusals

variable [PyText] {cfg : AuthConfig}

/-- `_source_limiter` refuses the call. -/
def RefusedBySource (e : Event AuthWorld AuthAction) : Prop :=
  match e.action with
  | .admitCall source _ => (e.world.auth.sourceLimiter.allow e.world.world.clock source).2 = false
  | _ => False

/-- The same state with another source limiter. -/
def AuthWorld.withSource (w : AuthWorld) (l : RateLimiter) : AuthWorld :=
  { w with auth := { w.auth with sourceLimiter := l } }

/-- The action is the admission of a call. -/
def AuthAction.IsAdmission : AuthAction → Prop
  | admitCall _ _ => True
  | _ => False

/-- What a refusal by its own source's bucket does. -/
structure RefusalSilent (history : List (Event AuthWorld AuthAction))
    (s : Sys AuthWorld AuthAction AuthAction.Reply Exc PoolRequest PoolResponse)
    (e : Event AuthWorld AuthAction) : Prop where
  /-- Nothing but the limiter of the sources is written. -/
  world : ∃ l, (e.action.exec e.world).1 = e.world.withSource l
  /-- The call does nothing else, -/
  alone : pathOf history e.call = [(e.action, e.world)]
  /-- and is answered. -/
  answer : ∃ q, s.calls[e.call]? =
    some ⟨q, .raise (.rateLimited "pre-authentication admission limit")⟩

omit [PyText] in
theorem AuthState.admit_refused {s : AuthState} {now : DateTime} {source : String}
    (authorization : Option String) (h : (s.sourceLimiter.allow now source).2 = false) :
    s.admitCall now source authorization =
      ({ s with sourceLimiter := (s.sourceLimiter.allow now source).1 }, .refused) := by
  rcases s.admit_cases now source authorization with ⟨-, hgate⟩ | ⟨htrue, -⟩
  · exact hgate
  · exact absurd (h.symm.trans htrue) (by decide)

theorem refusal_silent {reg : Regime AuthWorld AuthAction AuthAction.Reply Exc PoolRequest PoolResponse}
    {w : AuthWorld} {history : List (Event AuthWorld AuthAction)}
    {s : Sys AuthWorld AuthAction AuthAction.Reply Exc PoolRequest PoolResponse}
    (h : Recorded (poolService cfg) reg ⟨w, []⟩ history s) {e : Event AuthWorld AuthAction}
    (he : e ∈ history) (hrefused : RefusedBySource e) : RefusalSilent history s e := by
  obtain ⟨i, action, v⟩ := e
  cases action with
  | admitCall source authorization =>
      have hgate := AuthState.admit_refused authorization hrefused
      obtain ⟨⟨q, p⟩, hc⟩ : ∃ c, s.calls[i]? = some c :=
        ⟨_, List.getElem?_eq_getElem (h.call_lt _ he)⟩
      have hfollows : (q.program cfg).Follows AuthAction.exec (pathOf history i) p := h.follows hc
      have hmem : (AuthAction.admitCall source authorization, v) ∈ pathOf history i :=
        mem_pathOf.mpr he
      suffices hpath : pathOf history i = [(.admitCall source authorization, v)] ∧
          p = .raise (.rateLimited "pre-authentication admission limit") by
        exact ⟨⟨_, congrArg (fun out => { v with auth := out.1 }) hgate⟩, hpath.1,
          q, hpath.2 ▸ hc⟩
      cases q with
      | service request =>
          have hservice : (PoolRequest.program cfg (.service request)).Awaits
              fun action => ¬ action.IsAdmission :=
            .bind (awaits_uncancelled (fun _ => id) _) fun _ => trivial
          exact absurd trivial ((hfollows.awaits hservice).1 _ hmem)
      | authenticate authorization' source' =>
          obtain ⟨next, hprogram, hraises, hnext⟩ := authenticate_eq cfg authorization' source'
          generalize pathOf history i = path at hfollows hmem ⊢
          rw [hprogram] at hfollows
          cases hfollows with
          | nil => exact absurd hmem (by simp)
          | cons rest =>
              rcases List.mem_cons.mp hmem with hfirst | hlater
              · cases hfirst
                have hreply : ((AuthAction.admitCall source authorization).exec v).2 =
                    Admission.refused := congrArg Prod.snd hgate
                rw [hreply, hraises] at rest
                cases rest
                exact ⟨rfl, rfl⟩
              · rcases (rest.awaits (hnext _)).1 _ hlater with hadmitted | hleave
                · exact hadmitted.elim
                · exact nomatch hleave
  | _ => exact hrefused.elim

/-! ### The same run without a refused call -/

/-- The same but for the limiter of the sources, where no source has another level. -/
def SameButSource (u v : AuthWorld) : Prop :=
  ∃ l, v = u.withSource l ∧ RateLimiter.Twin u.world.clock u.auth.sourceLimiter l

/-- Only an admission looks at the limiter of the sources. -/
theorem AuthAction.exec_withSource {action : AuthAction} (h : ¬ action.IsAdmission) (w : AuthWorld)
    (l : RateLimiter) :
    action.exec (w.withSource l) = ((action.exec w).1.withSource l, (action.exec w).2) := by
  cases action with
  | admitCall _ _ => exact absurd trivial h
  | service _ | leave => rfl
  | allow limiter key => cases limiter <;> rfl
  | cancellable action =>
      obtain ⟨world, auth, cancelling⟩ := w
      cases cancelling <;> rfl
  | startVerification credential =>
      rw [exec, exec, AuthState.startVerification, AuthState.startVerification]
      by_cases hslots : w.auth.slots = 0
      · rw [if_pos hslots, if_pos (show (w.withSource l).auth.slots = 0 from hslots)]
      · rw [if_neg hslots, if_neg (show ¬ (w.withSource l).auth.slots = 0 from hslots)]
        rfl
  | shield task =>
      obtain ⟨world, auth, cancelling⟩ := w
      have hresult : (AuthWorld.withSource ⟨world, auth, cancelling⟩ l).auth.result? task =
          auth.result? task := rfl
      rw [exec, exec, hresult]
      cases cancelling with
      | some landed => rfl
      | none => cases auth.result? task <;> rfl

theorem AuthAction.exec_sourceLimiter {action : AuthAction} (h : ¬ action.IsAdmission)
    (w : AuthWorld) : (action.exec w).1.auth.sourceLimiter = w.auth.sourceLimiter :=
  congrArg (fun out => out.1.auth.sourceLimiter) (exec_withSource h w w.auth.sourceLimiter)

omit [PyText] in
/-- An admission with another limiter that decides alike. -/
theorem AuthState.admit_withSource (s : AuthState) (now : DateTime) (source : String)
    (authorization : Option String) {l : RateLimiter}
    (h : (l.allow now source).2 = (s.sourceLimiter.allow now source).2) :
    { s with sourceLimiter := l }.admitCall now source authorization =
      ({ (s.admitCall now source authorization).1 with sourceLimiter := (l.allow now source).1 },
        (s.admitCall now source authorization).2) := by
  rw [admitCall, admitCall]
  dsimp only
  rw [h]
  split_ifs <;> rfl

omit [PyText] in
theorem AuthState.admit_sourceLimiter (s : AuthState) (now : DateTime) (source : String)
    (authorization : Option String) :
    (s.admitCall now source authorization).1.sourceLimiter = (s.sourceLimiter.allow now source).1 := by
  rcases s.admit_cases now source authorization with ⟨-, hgate⟩ | ⟨-, active, verdict, hgate, -⟩
  · rw [hgate]
  · rw [hgate]

/-- While the table of the sources is not full, an action shows nothing of it. -/
theorem SameButSource.exec {u v : AuthWorld} (h : SameButSource u v) (action : AuthAction)
    (hroom : u.auth.sourceLimiter.HasRoom) (hroom' : v.auth.sourceLimiter.HasRoom) :
    (action.exec v).2 = (action.exec u).2 ∧ SameButSource (action.exec u).1 (action.exec v).1 := by
  obtain ⟨l, rfl, htwin⟩ := h
  by_cases hadmission : action.IsAdmission
  · cases action with
    | admitCall source authorization =>
        obtain ⟨hdecision, htwin'⟩ := htwin.allow hroom hroom' source
        have hgate := u.auth.admit_withSource u.world.clock source authorization hdecision
        have hverdict := congrArg Prod.snd hgate
        refine ⟨hverdict, (l.allow u.world.clock source).1, ?_, ?_⟩
        · exact congrArg (fun out : AuthState × Admission =>
            AuthWorld.mk u.world out.1 u.cancelling) hgate
        · show RateLimiter.Twin u.world.clock (u.auth.admitCall _ _ _).1.sourceLimiter _
          rw [AuthState.admit_sourceLimiter]
          exact htwin'
    | _ => exact hadmission.elim
  · rw [action.exec_withSource hadmission]
    refine ⟨rfl, l, rfl, ?_⟩
    rw [action.exec_clock, action.exec_sourceLimiter hadmission]
    exact htwin

theorem SameButSource.refuse {e : Event AuthWorld AuthAction} {v : AuthWorld}
    (h : SameButSource e.world v) (hrefused : RefusedBySource e) :
    SameButSource (e.action.exec e.world).1 v := by
  obtain ⟨l, rfl, htwin⟩ := h
  obtain ⟨i, action, u⟩ := e
  cases action with
  | admitCall source authorization =>
      have hgate := AuthState.admit_refused authorization hrefused
      have hworld : ((AuthAction.admitCall source authorization).exec u).1 =
          u.withSource (u.auth.sourceLimiter.allow u.world.clock source).1 :=
        congrArg (fun out : AuthState × Admission => AuthWorld.mk u.world out.1 u.cancelling) hgate
      exact ⟨l, by rw [hworld]; rfl, by rw [hworld]; exact htwin.refuse hrefused⟩
  | _ => exact hrefused.elim

/-- A change from outside that does not look at the limiter of the sources. -/
def BlindToSources (change : AuthWorld → AuthWorld) : Prop :=
  ∀ w l, change (w.withSource l) = (change w).withSource l

omit [PyText] in
theorem SameButSource.change {u v : AuthWorld} (h : SameButSource u v)
    {change : AuthWorld → AuthWorld} (hblind : BlindToSources change)
    (hprogress : u.auth.Progress (change u).auth)
    (hclock : u.world.clock ≤ (change u).world.clock) :
    SameButSource (change u) (change v) := by
  obtain ⟨l, rfl, htwin⟩ := h
  refine ⟨l, hblind u l, ?_⟩
  rw [hprogress.limiters.1]
  exact htwin.later hclock

/-! ### The flood -/

/-- What the calls of a window have cost, from its first state to its last. -/
structure WindowBounded (limits : AuthLimits)
    (s t : Sys AuthWorld AuthAction AuthAction.Reply Exc PoolRequest PoolResponse)
    (history : List (Event AuthWorld AuthAction)) : Prop where
  admissions : (history.countP reachesAuthenticator : ℚ) ≤ limits.preAuthLimitPerMinute +
    limits.preAuthLimitPerMinute * totalSeconds (t.world.world.clock - s.world.world.clock) / 60
  /-- The rows of the calls that began in the window. -/
  auditRows : (history.countP fun e => decide (s.calls.length ≤ e.call) && writesAuthRow e : ℚ) ≤
    limits.authAuditLimitPerMinute + limits.authAuditLimitPerMinute *
      totalSeconds (t.world.world.clock - s.world.world.clock) / 60

/-- A schedule by which a request is refused by its own source's bucket, if it comes to its
admission at all, while the table of the sources is full neither with it nor without it. -/
structure RefusedAlone (cfg : AuthConfig) (w : AuthWorld) (pre : List (Move AuthWorld PoolRequest))
    (q : PoolRequest) (post : List (Move AuthWorld PoolRequest)) (k : Nat) : Prop where
  place : k = (Sys.play (poolService cfg) ⟨w, []⟩ pre).calls.length
  permitted : Permitted (poolService cfg) floodSchedule ⟨w, []⟩ (pre ++ .begin q :: post)
  blind : ∀ change, .env change ∈ post → BlindToSources change
  refused : ∀ e ∈ Sys.played (poolService cfg) ⟨w, []⟩ (pre ++ .begin q :: post),
    e.call = k → RefusedBySource e
  room : ∀ e ∈ Sys.played (poolService cfg) ⟨w, []⟩ (pre ++ .begin q :: post),
    e.world.auth.sourceLimiter.HasRoom
  room' : ∀ e ∈ Sys.played (poolService cfg) ⟨w, []⟩ (pre ++ post.filterMap (Move.without k)),
    e.world.auth.sourceLimiter.HasRoom

/-- What holds of every run from a fresh service. -/
structure FloodBounded (cfg : AuthConfig) (limits : AuthLimits) (w : AuthWorld) : Prop where
  window : ∀ before s history t, Recorded (poolService cfg) floodSchedule ⟨w, []⟩ before s →
    Recorded (poolService cfg) floodSchedule s history t → WindowBounded limits s t history
  silent : ∀ history s, Recorded (poolService cfg) floodSchedule ⟨w, []⟩ history s →
    ∀ e ∈ history, RefusedBySource e → RefusalSilent history s e
  /-- Every other call is where it would be had the refused one not been made. -/
  isolated : ∀ pre q post k, RefusedAlone cfg w pre q post k →
    AgreeWithout SameButSource k
      (Sys.play (poolService cfg) ⟨w, []⟩ (pre ++ .begin q :: post))
      (Sys.play (poolService cfg) ⟨w, []⟩ (pre ++ post.filterMap (Move.without k)))

/-- The limiter of the sources is sound in every run. -/
theorem sourceLimiter_sound {s t : Sys AuthWorld AuthAction AuthAction.Reply Exc PoolRequest PoolResponse}
    {history : List (Event AuthWorld AuthAction)}
    (h : Recorded (poolService cfg) floodSchedule s history t)
    (hsound : s.world.auth.sourceLimiter.Sound s.world.world.clock) :
    t.world.auth.sourceLimiter.Sound t.world.world.clock := by
  refine (h.invariant (I := fun w => w.auth.sourceLimiter.Sound w.world.clock) hsound ?_ ?_).1
  · rintro ⟨i, action, w⟩ - hsound
    show ((action.exec w).1.auth.sourceLimiter).Sound (action.exec w).1.world.clock
    rw [action.exec_clock]
    by_cases hadmission : action.IsAdmission
    · cases action with
      | admitCall source authorization =>
          show (w.auth.admitCall _ _ _).1.sourceLimiter.Sound _
          rw [AuthState.admit_sourceLimiter]
          exact hsound.allow source
      | _ => exact hadmission.elim
    · rw [action.exec_sourceLimiter hadmission]
      exact hsound
  · rintro u v ⟨hprogress, hclock⟩ hsound
    rw [hprogress.limiters.1]
    exact hsound.later hclock

theorem window_bounded {limits : AuthLimits} {w : AuthWorld} (hfresh : w.auth.Fresh limits)
    {before history : List (Event AuthWorld AuthAction)}
    {s t : Sys AuthWorld AuthAction AuthAction.Reply Exc PoolRequest PoolResponse}
    (hbefore : Recorded (poolService cfg) floodSchedule ⟨w, []⟩ before s)
    (h : Recorded (poolService cfg) floodSchedule s history t) :
    WindowBounded limits s t history := by
  have hpreAuth := charges_admissions.budget hbefore (hfresh.preAuthLimiter.sound w.world.clock)
  have haudit := charges_audit.budget hbefore (hfresh.authAuditLimiter.sound w.world.clock)
  have hlimit : s.world.auth.preAuthLimiter.limit = limits.preAuthLimitPerMinute :=
    hpreAuth.limit.trans hfresh.preAuthLimiter.limit
  have hlimit' : s.world.auth.authAuditLimiter.limit = limits.authAuditLimitPerMinute :=
    haudit.limit.trans hfresh.authAuditLimiter.limit
  refine ⟨?_, ?_⟩
  · rw [← hlimit]
    exact (charges_admissions.budget h hpreAuth.sound).spent_le
  · have hrows : history.countP (fun e => decide (s.calls.length ≤ e.call) && writesAuthRow e) ≤
        history.countP fun e => earnsAudit e.action (e.action.exec e.world).2 := by
      refine le_trans (List.countP_mono_left fun e _ hrow => ?_)
        (h.spent_le_earned fun q => paysForAudit_program cfg q 0)
      obtain ⟨hnew, hrow⟩ := Bool.and_eq_true_iff.mp hrow
      exact Bool.and_eq_true_iff.mpr ⟨hnew, spendsAudit_of_row hrow⟩
    rw [← hlimit']
    exact le_trans (Nat.cast_le.mpr hrows) (charges_audit.budget h haudit.sound).spent_le

theorem agree_without {limits : AuthLimits} {w : AuthWorld} (hfresh : w.auth.Fresh limits)
    {pre post : List (Move AuthWorld PoolRequest)} {q : PoolRequest} {k : Nat}
    (h : RefusedAlone cfg w pre q post k) :
    AgreeWithout SameButSource k
      (Sys.play (poolService cfg) ⟨w, []⟩ (pre ++ .begin q :: post))
      (Sys.play (poolService cfg) ⟨w, []⟩ (pre ++ post.filterMap (Move.without k))) := by
  obtain ⟨rfl, hpermitted, hblind, hrefused, hroom, hroom'⟩ := h
  obtain ⟨hpre, -, hpost⟩ := hpermitted.append
  rw [Sys.played_append] at hrefused hroom hroom'
  rw [Sys.play_append, Sys.play_append]
  have hstart : Recorded (poolService cfg) floodSchedule ⟨w, []⟩ [] ⟨w, []⟩ := .refl _
  have hsound := sourceLimiter_sound (hstart.play hpre) (hfresh.sourceLimiter.sound w.world.clock)
  generalize Sys.play (poolService cfg) ⟨w, []⟩ pre = s at *
  refine AgreeWithout.play (P := fun w => w.auth.sourceLimiter.HasRoom) ⟨?_, ?_, ?_⟩ hpost
    (fun action u v hsame hroom hroom' => hsame.exec action hroom hroom') ?_ ?_ ?_ ?_
  · exact ⟨s.world.auth.sourceLimiter, rfl, .refl hsound⟩
  · show s.calls = (s.calls ++ [_]).eraseIdx s.calls.length
    rw [List.eraseIdx_append_of_length_le (le_refl _), Nat.sub_self]
    exact (List.append_nil _).symm
  · show s.calls.length < (s.calls ++ [_]).length
    rw [List.length_append]
    exact Nat.lt_succ_self _
  · exact fun e he hcall v hsame => hsame.refuse (hrefused e (List.mem_append_right _ he) hcall)
  · exact fun change hchange u v henv hsame => hsame.change (hblind change hchange) henv.1 henv.2
  · exact fun e he => hroom e (List.mem_append_right _ he)
  · exact fun e he => hroom' e (List.mem_append_right _ he)

/-- What a flood of authentications can cost, and that a refused source costs nobody else. -/
theorem authentication_flood_bounded (cfg : AuthConfig) {limits : AuthLimits} {w : AuthWorld}
    (hnew : AuthState.new limits = .ok w.auth) : FloodBounded cfg limits w where
  window _ _ _ _ hbefore h := window_bounded (AuthState.fresh_of_new hnew) hbefore h
  silent _ _ h _ he hrefused := refusal_silent h he hrefused
  isolated _ _ _ _ h := agree_without (AuthState.fresh_of_new hnew) h

end Refusals

/-! ### A flood from one source -/

instance (e : Event AuthWorld AuthAction) : Decidable (RefusedBySource e) :=
  match e with
  | ⟨_, .admitCall source _, w⟩ =>
      inferInstanceAs (Decidable ((w.auth.sourceLimiter.allow w.world.clock source).2 = false))
  | ⟨_, .service _, _⟩ | ⟨_, .cancellable _, _⟩ | ⟨_, .allow _ _, _⟩ | ⟨_, .leave, _⟩
  | ⟨_, .startVerification _, _⟩ | ⟨_, .shield _, _⟩ => .isFalse id

instance (l : RateLimiter) : Decidable l.HasRoom :=
  inferInstanceAs (Decidable ((l.buckets.rows.length : Int) < l.maxKeys))

/-- A pool that lets each source in once a minute and samples one audit row a minute. -/
def floodLimits : AuthLimits where
  perSourceLimitPerMinute := 1
  authAuditLimitPerMinute := 1

/-- The state that the constructors leave. -/
def floodAuth : AuthState := (AuthState.new floodLimits).toOption.getD smallAuth

theorem floodAuth_new : AuthState.new floodLimits = .ok floodAuth := rfl

def floodWorld : AuthWorld := ⟨smallWorld, floodAuth, none⟩

def floodConfig : AuthConfig where
  service := smallConfig
  authenticator := staticTokenAuthenticator Table.empty

def floodCall (source : String) : PoolRequest := .authenticate (some "Bearer synthetic") source

def beforeFlood : List (Move AuthWorld PoolRequest) :=
  [.begin (floodCall "peer-a"), .advance 0, .advance 0, .advance 0, .advance 0]

/-- The first source is refused, and a second one comes. -/
def afterFlood : List (Move AuthWorld PoolRequest) :=
  [.advance 1, .begin (floodCall "peer-b"), .advance 2, .advance 2, .advance 2]

def floodRun : Sys AuthWorld AuthAction AuthAction.Reply Exc PoolRequest PoolResponse :=
  letI := PyText.ascii
  Sys.play (poolService floodConfig) ⟨floodWorld, []⟩
    (beforeFlood ++ .begin (floodCall "peer-a") :: afterFlood)

def floodHistory : List (Event AuthWorld AuthAction) :=
  letI := PyText.ascii
  Sys.played (poolService floodConfig) ⟨floodWorld, []⟩
    (beforeFlood ++ .begin (floodCall "peer-a") :: afterFlood)

theorem flood_values : letI := PyText.ascii
    floodHistory.countP reachesAuthenticator = 2 ∧
      floodHistory.countP writesAuthRow = 1 ∧
      floodRun.calls.map Call.error? =
        [some (.workerAuthError "unknown worker credential"),
          some (.rateLimited "pre-authentication admission limit"),
          some (.workerAuthError "unknown worker credential")] := by
  decide +kernel

theorem flood_refusedAlone : letI := PyText.ascii
    RefusedAlone floodConfig floodWorld beforeFlood (floodCall "peer-a") afterFlood 1 := by
  let _ := PyText.ascii
  refine ⟨by decide +kernel, permitted_of_env (fun _ _ => trivial) (fun _ _ _ => trivial) ?_ _, ?_,
    by decide +kernel, by decide +kernel, by decide +kernel⟩
  · intro change hchange
    simp [beforeFlood, afterFlood] at hchange
  · intro change hchange
    simp [afterFlood] at hchange

/-- The second call of a source is refused, costs no audit row, and is as if it had not been made. -/
theorem authentication_flood_bounded_small : letI := PyText.ascii
    FloodBounded floodConfig floodLimits floodWorld ∧
      floodRun.calls.eraseIdx 1 = (Sys.play (poolService floodConfig) ⟨floodWorld, []⟩
        (beforeFlood ++ afterFlood.filterMap (Move.without 1))).calls := by
  let _ := PyText.ascii
  have hflood : FloodBounded floodConfig floodLimits floodWorld :=
    authentication_flood_bounded floodConfig floodAuth_new
  exact ⟨hflood, (hflood.isolated _ _ _ _ flood_refusedAlone).calls.symm⟩

end GpuWorkerPool
