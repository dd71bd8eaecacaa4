import GpuWorkerPool.Interference
import GpuWorkerPool.RateLimiter

/-!
`WorkerPoolService.authenticate` and the two authenticators, beside the other calls of the
coordinator. The state they share is the world of the stores, the rate limiters, and the slots and
tasks of the identity verifier. An await of an authentication can be resumed with the cancellation
of its caller; what runs between two awaits is one action.
-/

namespace GpuWorkerPool

open Base

/-! ### What authentication shares -/

/-- The claims of a verified identity token. -/
abbrev TokenClaims := Dict String JsonValue

/-- Where the task of one verification is: its thread runs, it is done with the claims or without
them when the verifier raised, or its done-callback has run too. -/
inductive VerificationStage where
  | running
  | done (claims : Option TokenClaims)
  | released (claims : Option TokenClaims)

/-- A task of `_verification_tasks`, kept when it leaves the set. -/
structure Verification where
  credential : String
  stage : VerificationStage := .running

/-- The limiters of the service that an authentication charges after its admission. -/
inductive Limiter where
  | worker
  | global
  | authAudit
  deriving DecidableEq

structure AuthState where
  sourceLimiter : RateLimiter
  preAuthLimiter : RateLimiter
  workerLimiter : RateLimiter
  globalLimiter : RateLimiter
  authAuditLimiter : RateLimiter
  maxAuthConcurrency : Int := 16
  activeAuth : Int := 0
  /-- The value of the semaphore `_verification_slots`. -/
  slots : Int
  verifications : List Verification := []

/-- The limits that the service and its authenticator are configured with. -/
structure AuthLimits where
  perWorkerLimitPerMinute : Int := 120
  globalLimitPerMinute : Int := 1200
  preAuthLimitPerMinute : Int := 1200
  perSourceLimitPerMinute : Int := 120
  authAuditLimitPerMinute : Int := 30
  maxAuthConcurrency : Int := 16
  maxConcurrentVerifications : Int := 8

/-- The state that the two constructors leave. -/
def AuthState.new (limits : AuthLimits) : Except Exc AuthState := do
  let workerLimiter ← RateLimiter.new limits.perWorkerLimitPerMinute 4096
  let globalLimiter ← RateLimiter.new limits.globalLimitPerMinute 4096
  let preAuthLimiter ← RateLimiter.new limits.preAuthLimitPerMinute 1
  let sourceLimiter ← RateLimiter.new limits.perSourceLimitPerMinute 4096
  let authAuditLimiter ← RateLimiter.new limits.authAuditLimitPerMinute 1
  require (1 ≤ limits.maxAuthConcurrency) "authentication concurrency must be positive"
  require (1 ≤ limits.maxConcurrentVerifications) "verification concurrency must be positive"
  pure {
    sourceLimiter := sourceLimiter, preAuthLimiter := preAuthLimiter,
    workerLimiter := workerLimiter, globalLimiter := globalLimiter,
    authAuditLimiter := authAuditLimiter, maxAuthConcurrency := limits.maxAuthConcurrency,
    slots := limits.maxConcurrentVerifications }

/-- Nothing has happened yet. -/
structure AuthState.Fresh (limits : AuthLimits) (s : AuthState) : Prop where
  workerLimiter : s.workerLimiter.IsNew limits.perWorkerLimitPerMinute 4096
  globalLimiter : s.globalLimiter.IsNew limits.globalLimitPerMinute 4096
  preAuthLimiter : s.preAuthLimiter.IsNew limits.preAuthLimitPerMinute 1
  sourceLimiter : s.sourceLimiter.IsNew limits.perSourceLimitPerMinute 4096
  authAuditLimiter : s.authAuditLimiter.IsNew limits.authAuditLimitPerMinute 1
  maxAuthConcurrency : s.maxAuthConcurrency = limits.maxAuthConcurrency
  concurrency_pos : 1 ≤ limits.maxAuthConcurrency
  slots : s.slots = limits.maxConcurrentVerifications
  slots_pos : 1 ≤ limits.maxConcurrentVerifications
  activeAuth : s.activeAuth = 0
  verifications : s.verifications = []

theorem AuthState.fresh_of_new {limits : AuthLimits} {s : AuthState} (h : new limits = .ok s) :
    s.Fresh limits := by
  obtain ⟨workerLimiter, hworker, h⟩ := bind_eq_ok.mp h
  obtain ⟨globalLimiter, hglobal, h⟩ := bind_eq_ok.mp h
  obtain ⟨preAuthLimiter, hpreAuth, h⟩ := bind_eq_ok.mp h
  obtain ⟨sourceLimiter, hsource, h⟩ := bind_eq_ok.mp h
  obtain ⟨authAuditLimiter, hauthAudit, h⟩ := bind_eq_ok.mp h
  obtain ⟨_, hconcurrency, h⟩ := bind_eq_ok.mp h
  obtain ⟨_, hslots, h⟩ := bind_eq_ok.mp h
  cases h
  exact {
    workerLimiter := RateLimiter.isNew_of_new hworker
    globalLimiter := RateLimiter.isNew_of_new hglobal
    preAuthLimiter := RateLimiter.isNew_of_new hpreAuth
    sourceLimiter := RateLimiter.isNew_of_new hsource
    authAuditLimiter := RateLimiter.isNew_of_new hauthAudit
    maxAuthConcurrency := rfl
    concurrency_pos := of_decide_eq_true (require_eq_ok.mp hconcurrency)
    slots := rfl
    slots_pos := of_decide_eq_true (require_eq_ok.mp hslots)
    activeAuth := rfl
    verifications := rfl }

/-- `GLOBAL_RATE_LIMIT_KEY` -/
def globalRateLimitKey : String := "*"

/-- How the part of `authenticate` before its first await ends. -/
inductive Admission where
  | refused
  | unreadable
  | admitted
  deriving DecidableEq

namespace AuthState

def limiter (s : AuthState) : Limiter → RateLimiter
  | .worker => s.workerLimiter
  | .global => s.globalLimiter
  | .authAudit => s.authAuditLimiter

def setLimiter (s : AuthState) (l : RateLimiter) : Limiter → AuthState
  | .worker => { s with workerLimiter := l }
  | .global => { s with globalLimiter := l }
  | .authAudit => { s with authAuditLimiter := l }

def allow (s : AuthState) (now : DateTime) (limiter : Limiter) (key : String) : AuthState × Bool :=
  let out := (s.limiter limiter).allow now key
  (s.setLimiter out.1 limiter, out.2)

/-- The credential is missing or oversized. -/
def oversized (authorization : Option String) : Bool :=
  match authorization with
  | none => true
  | some authorization => 8192 < authorization.length

/-- The admission of `authenticate`. The clock stands still within the step, so that both limiters
are asked at one instant. -/
def admitCall (s : AuthState) (now : DateTime) (source : String) (authorization : Option String) :
    AuthState × Admission :=
  let bySource := s.sourceLimiter.allow now source
  let s := { s with sourceLimiter := bySource.1 }
  if !bySource.2 then (s, .refused)
  else
    let byAll := s.preAuthLimiter.allow now globalRateLimitKey
    let s := { s with preAuthLimiter := byAll.1 }
    if !byAll.2 then (s, .refused)
    else if s.maxAuthConcurrency ≤ s.activeAuth then (s, .refused)
    else if oversized authorization then (s, .unreadable)
    else ({ s with activeAuth := s.activeAuth + 1 }, .admitted)

/-- `self._active_auth -= 1` -/
def leave (s : AuthState) : AuthState := { s with activeAuth := s.activeAuth - 1 }

/-- Acquires a slot and starts a verification, unless the slots are locked. -/
def startVerification (s : AuthState) (credential : String) : AuthState × Option Nat :=
  if s.slots = 0 then (s, none)
  else
    ({ s with
        slots := s.slots - 1,
        verifications := s.verifications ++ [{ credential := credential }] },
      some s.verifications.length)

/-- The verifier of a task ends with its claims or with an exception. -/
def finish (s : AuthState) (task : Nat) (claims : Option TokenClaims) : AuthState :=
  match s.verifications[task]? with
  | some ⟨credential, .running⟩ =>
      { s with verifications := s.verifications.set task ⟨credential, .done claims⟩ }
  | _ => s

/-- `finished`, the done-callback of a task. -/
def finished (s : AuthState) (task : Nat) : AuthState :=
  match s.verifications[task]? with
  | some ⟨credential, .done claims⟩ =>
      { s with
        slots := s.slots + 1,
        verifications := s.verifications.set task ⟨credential, .released claims⟩ }
  | _ => s

/-- The result of a task that is done. -/
def result? (s : AuthState) (task : Nat) : Option (Option TokenClaims) :=
  match s.verifications[task]? with
  | some ⟨_, .done claims⟩ => some claims
  | some ⟨_, .released claims⟩ => some claims
  | _ => none

end AuthState

structure AuthWorld where
  world : World
  auth : AuthState
  /-- The next await of an authentication is resumed with `CancelledError`; its effect on a store
  may have landed. -/
  cancelling : Option Bool := none

/-! ### Actions -/

inductive AuthAction where
  | service (action : Action)
  | cancellable (action : Action)
  | admitCall (source : String) (authorization : Option String)
  | allow (limiter : Limiter) (key : String)
  | leave
  | startVerification (credential : String)
  | shield (task : Nat)

namespace AuthAction

def Reply : AuthAction → Type
  | service action => action.Reply
  | cancellable action => Except Exc action.Reply
  | admitCall _ _ => Admission
  | allow _ _ => Bool
  | leave => Unit
  | startVerification _ => Option Nat
  | shield _ => Except Exc (Option TokenClaims)

variable [PyText]

def exec : (action : AuthAction) → AuthWorld → AuthWorld × action.Reply
  | service action, w =>
      ({ w with world := (action.exec w.world).1 }, (action.exec w.world).2)
  | cancellable action, w =>
      match w.cancelling with
      | none => ({ w with world := (action.exec w.world).1 }, .ok (action.exec w.world).2)
      | some landed =>
          ({ w with
              world := if landed then (action.exec w.world).1 else w.world, cancelling := none },
            .error .cancelledError)
  | admitCall source authorization, w =>
      let out := w.auth.admitCall w.world.clock source authorization
      ({ w with auth := out.1 }, out.2)
  | allow limiter key, w =>
      let out := w.auth.allow w.world.clock limiter key
      ({ w with auth := out.1 }, out.2)
  | leave, w => ({ w with auth := w.auth.leave }, ())
  | startVerification credential, w =>
      let out := w.auth.startVerification credential
      ({ w with auth := out.1 }, out.2)
  | shield task, w =>
      -- Before its verifier is done only its cancellation resumes a caller.
      match w.cancelling, w.auth.result? task with
      | none, some claims => (w, .ok claims)
      | _, _ => ({ w with cancelling := none }, .error .cancelledError)

/-- What an admitted authentication may await: it reads the registry, verifies credentials, charges
limiters and writes audit rows. -/
def OfAdmitted : AuthAction → Prop
  | cancellable (.registry call) => call.Reads
  | cancellable (.audit ..) => True
  | allow _ _ => True
  | startVerification _ => True
  | shield _ => True
  | _ => False

/-- What an admitted authentication may await besides starting a verification. -/
def OfVerified : AuthAction → Prop
  | startVerification _ => False
  | action => action.OfAdmitted

/-- What an authenticator may await: it reads the registry and verifies credentials. -/
def OfAuthenticator : AuthAction → Prop
  | cancellable (.registry call) => call.Reads
  | startVerification _ => True
  | shield _ => True
  | _ => False

omit [PyText] in
theorem OfAuthenticator.ofAdmitted {action : AuthAction} (h : action.OfAuthenticator) :
    action.OfAdmitted := by
  cases action with
  | cancellable action => cases action <;> first | exact h | exact h.elim
  | startVerification _ | shield _ => trivial
  | service _ | admitCall _ _ | allow _ _ | leave => exact h.elim

omit [PyText] in
theorem OfVerified.ofAdmitted {action : AuthAction} (h : action.OfVerified) :
    action.OfAdmitted := by
  cases action with
  | startVerification _ => exact h.elim
  | _ => exact h

end AuthAction

abbrev AuthCoroutine := Prog AuthAction AuthAction.Reply Exc

/-- The coroutine of a call that nobody cancels. -/
def uncancelled {α : Type} (p : Coroutine α) : AuthCoroutine α :=
  p.translate fun action => .perform (.service action)

/-- An await that can raise `CancelledError`. -/
def awaitCancellable (action : Action) : AuthCoroutine action.Reply :=
  .await (.cancellable action) Prog.ofExcept

/-- The coroutine of a call whose caller may be cancelled. -/
def cancellable {α : Type} (p : Coroutine α) : AuthCoroutine α := p.translate awaitCancellable

/-! ### Authenticators -/

/-- `WorkerAuthenticator`: whatever it does, it writes to no store and to no limiter. -/
structure WorkerAuthenticator where
  authenticate : Option String → AuthCoroutine WorkerIdentity
  reads : ∀ authorization, (authenticate authorization).Awaits AuthAction.OfAuthenticator

/-- `BEARER_PREFIX` -/
def bearerPrefix : String := "Bearer "

/-- `_bearer_credential` -/
def bearerCredential (authorization : Option String) : Except Exc String :=
  match authorization with
  | none => .error (.workerAuthError "missing bearer credential")
  | some authorization =>
      if !bearerPrefix.toList.isPrefixOf authorization.toList then
        .error (.workerAuthError "missing bearer credential")
      else
        let credential := String.ofList (authorization.toList.drop bearerPrefix.length)
        if credential = "" then .error (.workerAuthError "missing bearer credential")
        else .ok credential

namespace StaticTokenWorkerAuthenticator

/-- The worker enrolled last under the digest. -/
def matched (tokens : Dict String String) (digest : String) : Option String :=
  tokens.rows.foldl (fun matched row => if digest = row.2 then some row.1 else matched) none

def authenticate (tokens : Dict String String) (authorization : Option String) :
    AuthCoroutine WorkerIdentity := do
  let credential ← Prog.ofExcept (bearerCredential authorization)
  match matched tokens (sha256Hex credential.toUTF8) with
  | none => throw (.workerAuthError "unknown worker credential")
  | some workerId =>
      pure { workerId := workerId, subject := s!"static:{workerId}", method := "static" }

end StaticTokenWorkerAuthenticator

/-- `worker_id_from_account` -/
def workerIdFromAccount (email accountPrefix : String) : Except Exc String :=
  let localPart := email.toList.takeWhile (· ≠ '@')
  let domain := (email.toList.dropWhile (· ≠ '@')).tail
  let project := domain.takeWhile (· ≠ '.')
  let validProject :=
    match project with
    | [] => false
    | c :: rest => isLowerAscii c && rest.all fun c => isLowerAscii c || isDigitAscii c || c = '-'
  if !email.toList.contains '@' || !accountPrefix.toList.isPrefixOf localPart || !validProject ||
      domain.drop project.length ≠ ".iam.gserviceaccount.com".toList then
    .error (.workerAuthError "identity subject is not a worker account")
  else
    let workerId := String.ofList (localPart.drop accountPrefix.length)
    if !workerIdPattern workerId then
      .error (.workerAuthError "identity subject does not name a valid worker id")
    else .ok workerId

structure GoogleIdTokenWorkerAuthenticator where
  autoEnroll : Bool := false
  accountPrefix : String := "gpu-worker-"
  enrollments : Dict String WorkerEnrollment := Table.empty

namespace GoogleIdTokenWorkerAuthenticator

/-- The email that the claims carry and vouch for. -/
def verifiedEmail (claims : TokenClaims) : Except Exc String :=
  match claims.lookup "email_verified" with
  | some (.bool true) =>
      match claims.lookup "email" with
      | some (.str email) =>
          if email = "" then .error (.workerAuthError "identity token carries no email claim")
          else .ok email
      | _ => .error (.workerAuthError "identity token carries no email claim")
  | _ => .error (.workerAuthError "identity token email is not verified")

/-- Waits for the verifier; cancelling the caller leaves the verifier alone. -/
def verifiedClaims (task : Nat) : AuthCoroutine TokenClaims := do
  let reply : Except Exc (Option TokenClaims) ← .perform (AuthAction.shield task)
  let claims ← Prog.ofExcept reply
  match claims with
  | none => throw (.workerAuthError "identity token verification failed")
  | some claims => pure claims

/-- The worker of a verified email. -/
def resolve (g : GoogleIdTokenWorkerAuthenticator) (email : String) : AuthCoroutine String := do
  let record : Option WorkerRecord ← awaitCancellable (.registry (.findByIdentitySubject email))
  match record with
  | some record => pure record.workerId
  | none =>
      if g.autoEnroll then do
        let _id ← Prog.ofExcept (workerIdFromAccount email g.accountPrefix)
        match g.enrollments.rows.find? fun row => row.2.identitySubject = email with
        | none => throw (.workerAuthError "identity subject is not approved for enrollment")
        | some (workerId, _) => do
            let existing : Option WorkerRecord ← awaitCancellable (.registry (.get workerId))
            if existing.any fun w => w.identitySubject ≠ email then
              throw (.workerAuthError "worker identity binding does not match")
            else pure workerId
      else throw (.workerAuthError "identity subject is not enrolled")

/-- What `authenticate` does once its verification has started. -/
def verified (g : GoogleIdTokenWorkerAuthenticator) (task : Nat) :
    AuthCoroutine WorkerIdentity := do
  let claims ← verifiedClaims task
  let email ← Prog.ofExcept (verifiedEmail claims)
  let workerId ← g.resolve email
  pure { workerId := workerId, subject := email, method := "google_oidc" }

def authenticate (g : GoogleIdTokenWorkerAuthenticator) (authorization : Option String) :
    AuthCoroutine WorkerIdentity := do
  let credential ← Prog.ofExcept (bearerCredential authorization)
  let task : Option Nat ← .perform (AuthAction.startVerification credential)
  match task with
  | none => throw (.workerAuthBusy "identity verification is busy")
  | some task => g.verified task

end GoogleIdTokenWorkerAuthenticator

theorem awaits_awaitCancellable {P : AuthAction → Prop} {action : Action}
    (h : P (.cancellable action)) : (awaitCancellable action).Awaits P :=
  ⟨h, fun _ => Prog.awaits_ofExcept _⟩

/-- `StaticTokenWorkerAuthenticator(tokens)` -/
def staticTokenAuthenticator (tokens : Dict String String) : WorkerAuthenticator where
  authenticate := StaticTokenWorkerAuthenticator.authenticate tokens
  reads authorization := by
    refine .bind (Prog.awaits_ofExcept _) fun credential => ?_
    split <;> trivial

namespace GoogleIdTokenWorkerAuthenticator

section Footprint

variable {P : AuthAction → Prop} (hshield : ∀ task, P (.shield task))
  (hread : ∀ call : RegistryCall, call.Reads → P (.cancellable (.registry call)))

include hshield in
theorem awaits_verifiedClaims (task : Nat) : (verifiedClaims task).Awaits P := by
  refine .bind ⟨hshield task, fun _ => trivial⟩ fun reply => ?_
  refine .bind (Prog.awaits_ofExcept _) fun claims => ?_
  cases claims <;> trivial

include hread in
theorem awaits_resolve (g : GoogleIdTokenWorkerAuthenticator) (email : String) :
    (g.resolve email).Awaits P := by
  refine .bind (awaits_awaitCancellable (hread _ trivial)) fun record => ?_
  cases record with
  | some record => trivial
  | none =>
      dsimp only
      split
      · refine .bind (Prog.awaits_ofExcept _) fun _ => ?_
        split
        · trivial
        · refine .bind (awaits_awaitCancellable (hread _ trivial)) fun existing => ?_
          split <;> trivial
      · trivial

include hshield hread in
theorem awaits_verified (g : GoogleIdTokenWorkerAuthenticator) (task : Nat) :
    (g.verified task).Awaits P := by
  refine .bind (awaits_verifiedClaims hshield task) fun claims => ?_
  refine .bind (Prog.awaits_ofExcept _) fun email => ?_
  exact .bind (awaits_resolve hread g email) fun _ => trivial

end Footprint

end GoogleIdTokenWorkerAuthenticator

/-- `GoogleIdTokenWorkerAuthenticator(...)` -/
def googleIdTokenAuthenticator (g : GoogleIdTokenWorkerAuthenticator) : WorkerAuthenticator where
  authenticate := g.authenticate
  reads authorization := by
    refine .bind (Prog.awaits_ofExcept _) fun credential => ?_
    refine .bind ⟨trivial, fun _ => trivial⟩ fun task => ?_
    cases task with
    | none => trivial
    | some task => exact g.awaits_verified (fun _ => trivial) (fun _ hreads => hreads) task

/-! ### The service -/

structure AuthConfig where
  service : ServiceConfig
  authenticator : WorkerAuthenticator

namespace WorkerPoolService

def allow (limiter : Limiter) (key : String) : AuthCoroutine Bool :=
  .perform (AuthAction.allow limiter key)

/-- `_audit_auth` -/
def auditAuth (eventType : AuditEventType) (workerId : Option String) : AuthCoroutine Unit := do
  let allowed ← allow .authAudit globalRateLimitKey
  if allowed then
    let reply : Except Exc Unit ← awaitCancellable (.audit eventType workerId none
      [("reason", .str (if eventType = .authRejected then "invalid_credential"
        else "admission_rejected"))])
    Prog.ofExcept reply
  else pure ()

/-- An identity has a token in the bucket of its worker and in the global one. -/
def chargeIdentity (identity : WorkerIdentity) : AuthCoroutine Bool := do
  let byWorker ← allow .worker identity.workerId
  if byWorker then allow .global globalRateLimitKey else pure false

/-- What `authenticate` does with an identity it has resolved. -/
def admitIdentity (cfg : AuthConfig) (identity : WorkerIdentity) :
    AuthCoroutine WorkerIdentity := do
  let _enrollment ← GpuWorkerPool.cancellable (approvedEnrollment cfg.service identity)
  let charged ← chargeIdentity identity
  if charged then pure identity
  else do
    auditAuth .rateLimited identity.workerId
    throw (.rateLimited identity.workerId)

/-- What `authenticate` does between its admission and its handlers. -/
def verifyIdentity (cfg : AuthConfig) (authorization : Option String) :
    AuthCoroutine WorkerIdentity := do
  let identity ← cfg.authenticator.authenticate authorization
  admitIdentity cfg identity

/-- The handlers of `authenticate`: a busy verifier, a `WorkerAuthError`, any other exception. -/
def authenticationFailed : Exc → AuthCoroutine WorkerIdentity
  | .workerAuthBusy _ => throw (.rateLimited "identity verification is busy")
  | .workerAuthError text => do
      auditAuth .authRejected none
      throw (.workerAuthError text)
  | .workerIdentityMismatch workerId => do
      auditAuth .authRejected none
      throw (.workerIdentityMismatch workerId)
  | error => throw error

def authenticate (cfg : AuthConfig) (authorization : Option String) (source : String) :
    AuthCoroutine WorkerIdentity := do
  let admission : Admission ← .perform (AuthAction.admitCall source authorization)
  match admission with
  | .refused => throw (.rateLimited "pre-authentication admission limit")
  | .unreadable => do
      auditAuth .authRejected none
      throw (.workerAuthError "missing or oversized credential")
  | .admitted =>
      ((verifyIdentity cfg authorization).handle authenticationFailed).ensure
        (.perform AuthAction.leave)

theorem awaits_auditAuth {P : AuthAction → Prop} (eventType : AuditEventType)
    (workerId : Option String) (hallow : P (.allow .authAudit globalRateLimitKey))
    (haudit : ∀ detail, P (.cancellable (.audit eventType workerId none detail))) :
    (auditAuth eventType workerId).Awaits P := by
  refine .bind ⟨hallow, fun _ => trivial⟩ fun allowed => ?_
  split
  · exact .bind (awaits_awaitCancellable (haudit _)) fun reply => Prog.awaits_ofExcept _
  · trivial

theorem awaits_cancellable_enrollment {P : AuthAction → Prop} (cfg : ServiceConfig)
    (identity : WorkerIdentity) (hread : P (.cancellable (.registry (.get identity.workerId)))) :
    (GpuWorkerPool.cancellable (approvedEnrollment cfg identity)).Awaits P := by
  have hawaits : (approvedEnrollment cfg identity).Awaits
      (fun action => action = .registry (.get identity.workerId)) :=
    awaits_approvedEnrollment cfg rfl
  refine .translate ?_ hawaits
  rintro _ rfl
  exact awaits_awaitCancellable hread

theorem awaits_admitIdentity (cfg : AuthConfig) (identity : WorkerIdentity) :
    (admitIdentity cfg identity).Awaits AuthAction.OfVerified := by
  refine .bind (awaits_cancellable_enrollment cfg.service identity trivial) fun _ => ?_
  refine .bind (.bind ⟨trivial, fun _ => trivial⟩ fun byWorker => ?_) fun charged => ?_
  · split
    · exact ⟨trivial, fun _ => trivial⟩
    · trivial
  · split
    · trivial
    · exact .bind (awaits_auditAuth _ _ trivial fun _ => trivial) fun _ => trivial

theorem awaits_authenticationFailed (error : Exc) :
    (authenticationFailed error).Awaits AuthAction.OfVerified := by
  cases error with
  | workerAuthError _ | workerIdentityMismatch _ =>
      exact .bind (awaits_auditAuth _ _ trivial fun _ => trivial) fun _ => trivial
  | _ => trivial

/-- Whatever is between the admission and the exit of an authentication. -/
theorem awaits_admitted (cfg : AuthConfig) (authorization : Option String) :
    ((verifyIdentity cfg authorization).handle authenticationFailed).Awaits
      AuthAction.OfAdmitted := by
  refine .handle (.bind ((cfg.authenticator.reads authorization).mono
    fun _ => AuthAction.OfAuthenticator.ofAdmitted) fun identity => ?_) fun error => ?_
  · exact (awaits_admitIdentity cfg identity).mono fun _ => AuthAction.OfVerified.ofAdmitted
  · exact (awaits_authenticationFailed error).mono fun _ => AuthAction.OfVerified.ofAdmitted

end WorkerPoolService

/-! ### Requests -/

inductive PoolRequest where
  | service (request : Request)
  | authenticate (authorization : Option String) (source : String)

inductive PoolResponse where
  | service (response : Response)
  | identity (identity : WorkerIdentity)

def PoolRequest.program (cfg : AuthConfig) : PoolRequest → AuthCoroutine PoolResponse
  | service request => uncancelled (request.program cfg.service) >>= fun response =>
      pure (.service response)
  | authenticate authorization source =>
      WorkerPoolService.authenticate cfg authorization source >>= fun identity =>
        pure (.identity identity)

/-- An authentication begins with its admission; refused it raises, and it is not admitted again. -/
theorem authenticate_eq (cfg : AuthConfig) (authorization : Option String) (source : String) :
    ∃ next : Admission → AuthCoroutine PoolResponse,
      (PoolRequest.authenticate authorization source).program cfg =
        .await (.admitCall source authorization) next ∧
      next .refused = .raise (.rateLimited "pre-authentication admission limit") ∧
      ∀ admission, (next admission).Awaits fun action => action.OfAdmitted ∨ action = .leave := by
  refine ⟨_, rfl, rfl, fun admission => ?_⟩
  cases admission with
  | refused => trivial
  | unreadable =>
      have haudit : (WorkerPoolService.auditAuth .authRejected none).Awaits
          fun action => action.OfAdmitted ∨ action = .leave :=
        WorkerPoolService.awaits_auditAuth _ _ (Or.inl trivial) fun _ => Or.inl trivial
      have hrejected : ((WorkerPoolService.auditAuth .authRejected none >>= fun _ =>
          throw (.workerAuthError "missing or oversized credential")) >>= fun identity =>
            pure (PoolResponse.identity identity)).Awaits
              fun action => action.OfAdmitted ∨ action = .leave :=
        .bind (.bind haudit fun _ => trivial) fun _ => trivial
      exact hrejected
  | admitted =>
      have hadmitted : ((WorkerPoolService.verifyIdentity cfg authorization).handle
          WorkerPoolService.authenticationFailed).Awaits
            fun action => action.OfAdmitted ∨ action = .leave :=
        (WorkerPoolService.awaits_admitted cfg authorization).mono fun _ => Or.inl
      have hguarded : ((((WorkerPoolService.verifyIdentity cfg authorization).handle
          WorkerPoolService.authenticationFailed).ensure (.perform AuthAction.leave)) >>=
            fun identity => pure (PoolResponse.identity identity)).Awaits
              fun action => action.OfAdmitted ∨ action = .leave :=
        .bind (.ensure hadmitted ⟨Or.inr rfl, fun _ => trivial⟩) fun _ => trivial
      exact hguarded

variable [PyText] in
/-- The coordinator with its authentication. -/
def poolService (cfg : AuthConfig) :
    Server AuthWorld AuthAction AuthAction.Reply Exc PoolRequest PoolResponse where
  exec := AuthAction.exec
  program := PoolRequest.program cfg

end GpuWorkerPool
