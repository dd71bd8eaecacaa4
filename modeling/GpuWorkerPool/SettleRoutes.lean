import GpuWorkerPool.HonestPublish
import GpuWorkerPool.LeaseFailure
import GpuWorkerPool.Replay
import GpuWorkerPool.Routes
import GpuWorkerPool.WorkerAgent

/-!
The routes by which a worker announces itself, leases a job and settles it. A body outside its
declared bounds is answered 422 before the service sees it, which is the status of a rejected
completion too, so a status alone does not say whether the lease is over. Within the bounds it
does: whatever else the coordinator is doing, 409 and 422 are answered only when the lease is over.
-/

namespace GpuWorkerPool

open Base WorkerPoolService

def maxClaimTokenLength : Nat := 64
def maxModelIdLength : Nat := 128
def maxModelVersionLength : Nat := 64

/-! ### Bodies -/

/-- `^[0-9a-f]{64}$` -/
def sha256Pattern (text : String) : Bool :=
  text.length = 64 && text.toList.all fun c => isDigitAscii c || ('a' ≤ c && c ≤ 'f')

/-- `OutputManifestDto` -/
def OutputManifest.withinBounds [FloatRepr] (manifest : OutputManifest) : Bool :=
  lengthWithin 1 maxAssetKeyLength manifest.outputKey && lengthWithin 1 128 manifest.contentType &&
    0 ≤ manifest.byteLength && sha256Pattern manifest.sha256 &&
    lengthWithin 1 maxJobIdLength manifest.idempotencyKey &&
    sha256Pattern manifest.requestDigest && lengthWithin 1 maxPluginIdLength manifest.pluginId &&
    lengthWithin 1 maxPluginVersionLength manifest.pluginVersion &&
    lengthWithin 1 maxModelIdLength manifest.modelId &&
    lengthWithin 1 maxModelVersionLength manifest.modelVersion &&
    lengthWithin 1 64 manifest.publicationMode && manifest.seed.all (0 ≤ ·) &&
    (validateJobPayload manifest.diagnostics).isOk

namespace JobPost

def jobId : JobPost → String
  | complete jobId _ _ => jobId
  | fail jobId _ _ _ _ => jobId
  | release jobId _ _ => jobId

/-- The bounds of `CompleteRequest`, `FailRequest` and `ReleaseRequest`. -/
def withinBounds [FloatRepr] : JobPost → Bool
  | complete _ claimToken manifest =>
      lengthWithin 1 maxClaimTokenLength claimToken && manifest.withinBounds
  | fail _ claimToken reason _ _ =>
      lengthWithin 1 maxClaimTokenLength claimToken && lengthWithin 1 maxAuditReasonLength reason
  | release _ claimToken reason =>
      lengthWithin 1 maxClaimTokenLength claimToken && lengthWithin 1 maxAuditReasonLength reason

end JobPost

/-- The bounds of `LeaseRequest`. -/
def leaseWithinBounds (capabilityIds : List String) (leaseSeconds : Option Int) : Bool :=
  (1 ≤ capabilityIds.length && capabilityIds.length ≤ maxCapabilities) &&
    capabilityIds.all capabilityIdField && leaseSeconds.all (within 60 7200)

/-! ### Answers -/

/-- `_mapped_errors`; what is not mapped is an internal error. -/
def errorStatus : Exc → Nat
  | .completionRejected _ | .profileNotQualified _ => 422
  | .workerAuthError _ | .workerIdentityMismatch _ => 401
  | .workerRevoked _ => 403
  | .rateLimited _ => 429
  | .workerTenantMismatch _ | .workerMismatch _ | .workerNotRegistered _ | .staleLease _ => 409
  | .jobNotFound _ => 404
  | _ => 500

/-- The status of the response to a call of the service. -/
def statusOf {α : Type} (p : Coroutine α) : Coroutine Nat :=
  (p >>= fun _ => pure 200).handle fun error => pure (errorStatus error)

/-- `Depends(worker_identity)`, which every route runs before it looks at the body: the header is
bounded, and what `authenticate` raises is answered. -/
def workerIdentity (authorization : Option String) (authenticated : Except Exc WorkerIdentity) :
    Except Nat WorkerIdentity :=
  if authorization.any fun text => 8192 < text.length then .error 422
  else authenticated.mapError errorStatus

/-- Every request of the agent authenticates as the worker, or is refused. -/
def CallerOf (identity : WorkerIdentity) (caller : Except Nat WorkerIdentity) : Prop :=
  ∃ authorization authenticated, caller = workerIdentity authorization authenticated ∧
    ∀ other, caller = .ok other → other = identity

theorem callerOf_self (identity : WorkerIdentity) : CallerOf identity (.ok identity) :=
  ⟨none, .ok identity, rfl, fun _ h => (Except.ok.inj h).symm⟩

/-- No refusal reads as a success. -/
theorem CallerOf.cases {identity : WorkerIdentity} {caller : Except Nat WorkerIdentity}
    (h : CallerOf identity caller) :
    caller = .ok identity ∨ ∃ status, caller = .error status ∧ status / 100 ≠ 2 := by
  obtain ⟨authorization, authenticated, hcaller, hown⟩ := h
  cases caller with
  | ok other => exact Or.inl (congrArg Except.ok (hown other rfl))
  | error status =>
      refine Or.inr ⟨status, rfl, ?_⟩
      rw [workerIdentity] at hcaller
      split at hcaller
      · cases hcaller
        decide
      · cases authenticated with
        | ok other => cases hcaller
        | error error =>
            cases hcaller
            cases error <;> simp [errorStatus]

/-- `POST /worker/v1/heartbeat` -/
def answerHeartbeat (cfg : ServiceConfig) (caller : Except Nat WorkerIdentity)
    (registration : WorkerRegistration) : Coroutine Nat :=
  match caller with
  | .error status => pure status
  | .ok identity =>
      if registration.withinBounds then statusOf (registerHeartbeat cfg identity registration)
      else pure 422

/-- The response to a lease request: 200 with the grant, 204, or any other status. -/
inductive LeaseAnswer where
  | granted (grant : LeaseGrant)
  | noContent
  | refused (status : Nat)

/-- `LeaseResponse.from_grant` carries everything but the tenant. -/
def LeaseAnswer.ofGrant : Option LeaseGrant → LeaseAnswer
  | some grant => granted { grant with tenantId := none }
  | none => noContent

/-- `POST /worker/v1/lease` -/
def answerLease (cfg : ServiceConfig) (caller : Except Nat WorkerIdentity)
    (capabilityIds : List String) (leaseSeconds : Option Int) : Coroutine LeaseAnswer :=
  match caller with
  | .error status => pure (.refused status)
  | .ok identity =>
      if leaseWithinBounds capabilityIds leaseSeconds then
        (lease cfg identity capabilityIds leaseSeconds >>= fun grant =>
          pure (.ofGrant grant)).handle fun error => pure (.refused (errorStatus error))
      else pure (.refused 422)

namespace JobPost

/-- The call of the service behind a route of a job. -/
def program (cfg : ServiceConfig) (identity : WorkerIdentity) (jobId : String) :
    JobPost → Coroutine Unit
  | .complete _ claimToken manifest =>
      WorkerPoolService.complete cfg identity jobId claimToken manifest
  | .fail _ claimToken reason retryable failureCode =>
      WorkerPoolService.fail cfg identity jobId claimToken reason retryable failureCode
  | .release _ claimToken reason => WorkerPoolService.release cfg identity jobId claimToken reason

/-- `POST /worker/v1/jobs/{job_id}/...`. The job id stands unquoted in the path, and `readPath` is
what the server reads there. -/
def answer [FloatRepr] (cfg : ServiceConfig) (caller : Except Nat WorkerIdentity)
    (readPath : String → Option String) (call : JobPost) : Coroutine Nat :=
  match readPath call.jobId with
  | none => pure 404
  | some jobId =>
      match caller with
      | .error status => pure status
      | .ok identity =>
          if lengthWithin 1 maxJobIdLength jobId && call.withinBounds then
            statusOf (call.program cfg identity jobId)
          else pure 422

end JobPost

theorem sha256Pattern_sha256Hex (content : ByteArray) : sha256Pattern (sha256Hex content) := by
  have hdigit : ∀ n < 16, (isDigitAscii (Nat.digitChar n) ||
      ('a' ≤ Nat.digitChar n && Nat.digitChar n ≤ 'f')) = true := by decide
  have hword : ∀ w c, c ∈ Sha256.hexWord w → (isDigitAscii c || ('a' ≤ c && c ≤ 'f')) = true := by
    intro w c hc
    obtain ⟨i, -, rfl⟩ := List.mem_map.mp hc
    exact hdigit _ (Nat.mod_lt _ (by decide))
  rw [sha256Hex, sha256Pattern, Bool.and_eq_true, decide_eq_true_eq, List.all_eq_true]
  constructor
  · simp [Sha256.hexWord]
  · intro c hc
    rw [String.toList_ofList, List.mem_flatMap] at hc
    obtain ⟨w, -, hc⟩ := hc
    exact hword w c hc

theorem MemoryJobStore.not_liveFor_underLease {s : MemoryJobStore} {j t : String}
    {write : JobRecord → JobRecord} (hjob : ∀ r, (write r).jobId = r.jobId)
    (hstatus : ∀ r, (write r).status ≠ .processing) :
    ¬ (s.underLease j t write).1.LiveFor j t := by
  by_cases haccepted : (s.underLease j t write).2 = true
  · exact not_liveFor_of_underLease hjob hstatus haccepted
  · rw [underLease] at haccepted ⊢
    cases hleased : s.leased? j t with
    | none => exact not_liveFor_iff.mpr hleased
    | some r => simp [hleased] at haccepted

/-! ### What the service does to a lease -/

section Settling

variable [PyText]

/-- Tokens are fresh, and every stored request was accepted. -/
structure World.Orderly (w : World) : Prop where
  fresh : Function.Injective w.tokens
  requests : RequestsSound w.jobs

theorem World.Orderly.exec {w : World} (h : w.Orderly) (action : Action) :
    (action.exec w).1.Orderly := by
  refine ⟨?_, ?_⟩
  · rw [Action.exec_tokens]
    exact h.fresh
  · by_cases hjobs : ∃ call, action = .jobs call
    · obtain ⟨call, rfl⟩ := hjobs
      exact h.requests.exec ⟨w.now, w.nextToken, call⟩
    · rw [(Action.exec_jobs_of_ne (fun call hcall => hjobs ⟨call, hcall⟩) w).1]
      exact h.requests

/-- The worker stays approved while its calls run, and anything else may happen beside them. -/
abbrev settleContract (cfg : ServiceConfig) (identity : WorkerIdentity) :
    Prog.Contract Action World where
  inv := World.Orderly
  allow _ w := Approved cfg w identity
  rely := World.Evolves
  guar := World.Evolves

theorem settleContract_exec {w : World} (h : w.Orderly) (action : Action) :
    (action.exec w).1.Orderly ∧ World.Evolves w (action.exec w).1 :=
  ⟨h.exec action, Action.exec_evolves h.fresh action⟩

theorem leasesUnder_settle (cfg : ServiceConfig) (identity : WorkerIdentity) :
    LeasesUnder (settleContract cfg identity) where
  refl _ _ := .refl _
  rely h := h
  guar h := h
  keeps action _ _ hinv _ := settleContract_exec hinv action

/-- The token of the grant was issued, and the job is not processed under it any more. -/
structure World.Over (w : World) (grant : LeaseGrant) : Prop where
  issued : w.Issued grant.claimToken
  ended : ¬ w.jobs.LiveFor grant.jobId grant.claimToken

omit [PyText] in
theorem World.Over.evolves {v w : World} {grant : LeaseGrant} (h : v.Over grant)
    (hevolves : World.Evolves v w) : w.Over grant := by
  refine ⟨hevolves.issued h.issued, ?_⟩
  rw [MemoryJobStore.not_liveFor_iff]
  exact hevolves.fenced.dead h.issued (MemoryJobStore.not_liveFor_iff.mp h.ended)

variable {cfg : ServiceConfig} {identity : WorkerIdentity} {grant : LeaseGrant}

/-- Whatever a call awaits, the world evolves. -/
theorem sat_evolves {α : Type} (p : Coroutine α) (w : World) :
    Prog.Sat Action.exec (settleContract cfg identity) p w fun _ v => World.Evolves w v := by
  have hactions : ∀ (action : Action) (v : World), True → v.Orderly → Approved cfg v identity →
      (action.exec v).1.Orderly ∧ World.Evolves v (action.exec v).1 :=
    fun action v _ hinv _ => settleContract_exec hinv action
  have hkeeps := (Prog.sat_of_awaits (K := settleContract cfg identity) hactions
    (Prog.awaits_true p) w).keeps (P := World.Evolves w) (fun _ _ h h' => h.trans h')
    (fun _ _ h h' => h.trans h') (.refl w)
  exact hkeeps.mono fun _ _ h => h.2

/-- What follows the end of a lease does not bring it back. -/
theorem sat_over {α : Type} (p : Coroutine α) {w : World} (h : w.Over grant) :
    Prog.Sat Action.exec (settleContract cfg identity) p w fun _ v => v.Over grant :=
  (sat_evolves p w).mono fun _ _ hevolves => h.evolves hevolves

omit [PyText] in
/-- The lookup of an enrollment awaits one read of the registry. -/
theorem approvedEnrollment_eq (cfg : ServiceConfig) (identity : WorkerIdentity) :
    ∃ next, approvedEnrollment cfg identity = .await (.registry (.get identity.workerId)) next ∧
      ∀ reply, (next reply).Awaits fun _ => False := by
  refine ⟨_, rfl, fun (record : Option WorkerRecord) => ?_⟩
  cases record with
  | none =>
      dsimp only [Prog.bind]
      split
      · split_ifs <;> trivial
      · trivial
  | some record =>
      dsimp only [Prog.bind]
      split_ifs
      · trivial
      · trivial
      · exact Prog.awaits_ofExcept _

/-- The approval of the worker holds when the service looks it up. -/
theorem sat_approved (w : World) :
    Prog.Sat Action.exec (settleContract cfg identity) (approvedEnrollment cfg identity) w
      fun res v => World.Evolves w v ∧ v.Orderly ∧ ∃ enrollment, res = .ok enrollment := by
  obtain ⟨next, hnext, hstill⟩ := approvedEnrollment_eq cfg identity
  rw [hnext]
  intro v hrely hinv happroved
  obtain ⟨enrollment, hrun⟩ := happroved
  rw [hnext] at hrun
  refine ⟨hinv, .refl v, Prog.sat_of_still (hstill _) ⟨hrely, hinv, enrollment, hrun⟩⟩


/-- A call under a lease goes on with the record of its job, or the lease is over. -/
theorem sat_ownedJob_settles {w : World} (h : w.GrantCopied identity grant) :
    Prog.Sat Action.exec (settleContract cfg identity) (ownedJob cfg identity grant.jobId) w
      fun res v => v.GrantCopied identity grant ∧ match res with
        | .ok record => Owned identity grant.jobId record v
        | .error _ => v.Over grant := by
  refine Prog.sat_bind.mpr ((sat_approved w).mono ?_)
  intro res v hres
  obtain ⟨hrely, hinv, enrollment, rfl⟩ := hres
  refine sat_getJob (K := settleContract cfg identity) (fun t _ => .refl t) fun t hrely' _ => ?_
  have hcopied := h.evolves (hrely.trans hrely')
  have hover : (∀ r, t.jobs.get? grant.jobId = some r → ¬ (r.leasedBy = some identity.workerId ∧
      r.status = .processing)) → t.Over grant := by
    intro hnot
    refine ⟨hcopied.issued, fun hlive => ?_⟩
    obtain ⟨r, hget, hr⟩ := MemoryJobStore.liveFor_iff.mp hlive
    have hheld := hcopied.copies r (MemoryJobStore.held_eq_some_iff.mpr ⟨hget, hr⟩)
    exact hnot r hget ⟨hheld.leasedBy, hr.1⟩
  cases hread : t.jobs.get? grant.jobId with
  | none => exact ⟨hcopied, hover fun r hget => absurd (hread.symm.trans hget) (by simp)⟩
  | some record =>
      dsimp only
      split
      · rename_i hforeign
        refine ⟨hcopied, hover fun r hget howned => ?_⟩
        obtain rfl : record = r := Option.some.inj (hread.symm.trans hget)
        exact hforeign.elim (fun hworker => hworker howned.1) fun hstatus => hstatus howned.2
      · rename_i howned
        rw [not_or, not_not, not_not] at howned
        exact ⟨hcopied, hread, howned.1, howned.2⟩

/-- The operation settles or releases the job that the token opens. -/
def JobStoreCall.SettlesLease (j t : String) (call : JobStoreCall) : Prop :=
  ∀ now uuid4 s, ¬ (call.exec now uuid4 s).1.LiveFor j t

theorem JobStoreCall.settlesLease_complete (j t contentType sha256 : String) (byteLength : Int)
    (metadata : List (String × JsonValue)) :
    SettlesLease j t (.complete j t contentType sha256 byteLength metadata) :=
  fun _ _ _ => MemoryJobStore.not_liveFor_underLease (fun _ => rfl) fun _ => by
    simp [JobRecord.completed]

theorem JobStoreCall.settlesLease_fail (j t reason : String) (failureCode : JobFailureCode)
    (failureMessage : Option String) (retryable : Bool) :
    SettlesLease j t (.fail j t reason failureCode failureMessage retryable) :=
  fun _ _ _ => MemoryJobStore.not_liveFor_underLease (fun _ => rfl) fun _ => by
    simp [JobRecord.failed]

theorem JobStoreCall.settlesLease_release (j t reason : String) :
    SettlesLease j t (.release j t reason) :=
  fun _ _ _ => MemoryJobStore.not_liveFor_underLease (fun _ => rfl) fun _ => by
    simp [JobRecord.released]

/-- Once such an operation was made the lease is over, whatever the call does then. -/
theorem sat_ends {α : Type} {call : JobStoreCall}
    (hends : call.SettlesLease grant.jobId grant.claimToken)
    {f : call.Reply → Coroutine α} {w : World} (hissued : w.Issued grant.claimToken) :
    Prog.Sat Action.exec (settleContract cfg identity) (jobStore call >>= f) w
      fun _ v => v.Over grant := by
  intro v hrely hinv _
  obtain ⟨hinv', hevolves⟩ := settleContract_exec hinv (.jobs call)
  refine ⟨hinv', hevolves, sat_over _ ⟨?_, hends _ _ _⟩⟩
  exact hevolves.issued (hrely.issued hissued)

theorem sat_fail_settles {w : World} (h : w.GrantCopied identity grant) (reason : String)
    (retryable : Bool) (failureCode : JobFailureCode) :
    Prog.Sat Action.exec (settleContract cfg identity)
      (fail cfg identity grant.jobId grant.claimToken reason retryable failureCode) w
      fun _ v => v.Over grant := by
  refine Prog.sat_bind.mpr ((sat_ownedJob_settles h).mono ?_)
  intro res v hres
  obtain ⟨hcopied, howned⟩ := hres
  cases res with
  | error error => exact howned
  | ok record =>
      apply sat_ends
      · rw [Table.key_eq_of_get? howned.stored]
        exact JobStoreCall.settlesLease_fail _ _ _ _ _ _
      · exact hcopied.issued

theorem sat_release_settles {w : World} (h : w.GrantCopied identity grant) (reason : String) :
    Prog.Sat Action.exec (settleContract cfg identity)
      (release cfg identity grant.jobId grant.claimToken reason) w fun _ v => v.Over grant := by
  refine Prog.sat_bind.mpr ((sat_ownedJob_settles h).mono ?_)
  intro res v hres
  obtain ⟨hcopied, howned⟩ := hres
  cases res with
  | error error => exact howned
  | ok record =>
      have hkey : record.jobId = grant.jobId := Table.key_eq_of_get? howned.stored
      dsimp only
      rw [hkey]
      split_ifs
      · exact sat_ends (JobStoreCall.settlesLease_fail _ _ _ _ _ _) hcopied.issued
      · exact sat_ends (JobStoreCall.settlesLease_release _ _ _) hcopied.issued

omit [PyText] in
/-- No error of an asset store is mapped to a status. -/
theorem errorStatus_of_assets {call : AssetStoreCall} {a : MemoryAssetStore} {error : Exc}
    (hcall : (∃ key, call = .describe key) ∨ ∃ key maxBytes, call = .readLimited key maxBytes)
    (h : (∃ text, error = .unavailable text) ∨ (call.exec a).2 = .error error) :
    errorStatus error = 500 := by
  rcases h with ⟨text, rfl⟩ | hraised
  · rfl
  · rcases hcall with ⟨key, rfl⟩ | ⟨key, maxBytes, rfl⟩
    · simp [AssetStoreCall.exec] at hraised
    · simp only [AssetStoreCall.exec, MemoryAssetStore.readLimited] at hraised
      split at hraised
      · cases hraised
        rfl
      · split_ifs at hraised
        cases hraised
        rfl

/-- An output that is not verified was rejected, or the answer is an internal error. -/
theorem sat_verifyOutput_settles (record : JobRecord) (manifest : OutputManifest) (w : World) :
    Prog.Sat Action.exec (settleContract cfg identity) (verifyOutput cfg record manifest) w
      fun res _ => ∀ error, res = .error error →
        (∃ reason, error = .completionRejected reason) ∨ errorStatus error = 500 := by
  have hguar : ∀ v : World, v.Orderly → World.Evolves v v := fun v _ => .refl v
  have hrejected : ∀ {reason : String} {error : Exc},
      (.error (.completionRejected reason) : Except Exc Unit) = .error error →
        (∃ reason, error = .completionRejected reason) ∨ errorStatus error = 500 :=
    fun h => Or.inl ⟨_, (Except.error.inj h).symm⟩
  rw [verifyOutput]
  cases manifestProblem cfg record manifest with
  | some reason => exact fun error => hrejected
  | none =>
      refine sat_readAssets (K := settleContract cfg identity) hguar (fun _ => rfl)
        (fun t descriptor _ _ _ => ?_) fun t error _ _ hraised error' heq => ?_
      · cases descriptor with
        | none => exact fun error => hrejected
        | some descriptor =>
            dsimp only
            split_ifs
            · exact fun error => hrejected
            · exact fun error => hrejected
            · refine sat_readAssets (K := settleContract cfg identity) hguar (fun _ => rfl)
                (fun u content _ _ _ => ?_) fun u error _ _ hraised error' heq => ?_
              · split_ifs
                · exact fun error => hrejected
                · exact fun error h => absurd h (by simp)
              · cases heq
                exact Or.inr (errorStatus_of_assets (Or.inr ⟨_, _, rfl⟩) hraised)
      · cases heq
        exact Or.inr (errorStatus_of_assets (Or.inl ⟨_, rfl⟩) hraised)

theorem sat_complete_settles {w : World} (h : w.GrantCopied identity grant)
    (manifest : OutputManifest) :
    Prog.Sat Action.exec (settleContract cfg identity)
      (complete cfg identity grant.jobId grant.claimToken manifest) w
      fun res v => v.Over grant ∨ ∃ error, res = .error error ∧ errorStatus error = 500 := by
  refine Prog.sat_bind.mpr ((sat_ownedJob_settles h).mono ?_)
  intro res v hres
  obtain ⟨hcopied, howned⟩ := hres
  cases res with
  | error error => exact Or.inl howned
  | ok record =>
      have hkey : record.jobId = grant.jobId := Table.key_eq_of_get? howned.stored
      have hverified : Prog.Sat Action.exec (settleContract cfg identity)
          (verifyOutput cfg record manifest) v _ := sat_verifyOutput_settles record manifest v
      have hverify := hverified.keeps (P := fun t => t.Issued grant.claimToken)
        (fun _ _ hissued hrely => hrely.issued hissued)
        (fun _ _ hissued hguar => hguar.issued hissued) hcopied.issued
      refine Prog.sat_bind.mpr (Prog.sat_handle.mpr (hverify.mono ?_))
      intro res t hres
      obtain ⟨herror, hissued⟩ := hres
      cases res with
      | ok verified =>
          refine (sat_ends ?_ hissued).mono fun _ _ hover => Or.inl hover
          rw [hkey]
          exact JobStoreCall.settlesLease_complete _ _ _ _ _ _
      | error error =>
          by_cases hrejected : ∃ reason, error = .completionRejected reason
          · obtain ⟨reason, rfl⟩ := hrejected
            have hends : (JobStoreCall.fail record.jobId grant.claimToken reason .invalidInput none
                false).SettlesLease grant.jobId grant.claimToken := by
              rw [hkey]
              exact JobStoreCall.settlesLease_fail _ _ _ _ _ _
            refine (sat_ends hends hissued).mono ?_
            intro res u hover
            cases res with
            | ok value => exact (sat_over _ hover).mono fun _ _ hover => Or.inl hover
            | error error => exact Or.inl hover
          · have hinternal : errorStatus error = 500 :=
              (herror error rfl).resolve_left hrejected
            cases error with
            | completionRejected reason => exact absurd ⟨reason, rfl⟩ hrejected
            | _ => exact Or.inr ⟨_, rfl, hinternal⟩

/-! ### What the statuses say -/

theorem sat_statusOf {α : Type} {p : Coroutine α} {w : World} {Q : Nat → World → Prop}
    (h : Prog.Sat Action.exec (settleContract cfg identity) p w fun res v =>
      match res with
      | .ok _ => Q 200 v
      | .error error => Q (errorStatus error) v) :
    Prog.Sat Action.exec (settleContract cfg identity) (statusOf p) w
      fun res v => ∃ status, res = .ok status ∧ Q status v := by
  refine Prog.sat_handle.mpr (Prog.sat_bind.mpr (h.mono ?_))
  intro res v hres
  cases res with
  | ok value => exact ⟨200, rfl, hres⟩
  | error error => exact ⟨errorStatus error, rfl, hres⟩

/-- The agent takes the status for the end of the lease: any status of a failure or a release, and
of a completion a success or one of the two that it reads as a failed attempt. -/
def JobPost.Ending : JobPost → Nat → Prop
  | .complete .., status => status / 100 = 2 ∨ status = 409 ∨ status = 422
  | _, _ => True

instance (call : JobPost) (status : Nat) : Decidable (call.Ending status) :=
  match call with
  | .complete .. => inferInstanceAs (Decidable (_ ∨ _))
  | .fail .. | .release .. => inferInstanceAs (Decidable True)

/-- The request settles or releases the job of the grant, under its token. -/
def JobPost.Settles (grant : LeaseGrant) (call : JobPost) : Prop :=
  call.jobId = grant.jobId ∧ match call with
    | .complete _ claimToken _ => claimToken = grant.claimToken
    | .fail _ claimToken _ _ _ => claimToken = grant.claimToken
    | .release _ claimToken _ => claimToken = grant.claimToken

theorem sat_program_settles {call : JobPost} (hcall : call.Settles grant) {w : World}
    (h : w.GrantCopied identity grant) :
    Prog.Sat Action.exec (settleContract cfg identity)
      (statusOf (call.program cfg identity grant.jobId)) w
      fun res v => ∃ status, res = .ok status ∧ (call.Ending status → v.Over grant) := by
  apply sat_statusOf
  cases call with
  | complete jobId claimToken manifest =>
      obtain ⟨-, rfl⟩ := hcall
      refine (sat_complete_settles h manifest).mono ?_
      intro res v hres
      rcases hres with hover | ⟨error, rfl, hinternal⟩
      · cases res <;> exact fun _ => hover
      · intro hending
        rw [hinternal] at hending
        exact absurd hending (by simp [JobPost.Ending])
  | fail jobId claimToken reason retryable failureCode =>
      obtain ⟨-, rfl⟩ := hcall
      refine (sat_fail_settles h reason retryable failureCode).mono ?_
      intro res v hover
      cases res <;> exact fun _ => hover
  | release jobId claimToken reason =>
      obtain ⟨-, rfl⟩ := hcall
      refine (sat_release_settles h reason).mono ?_
      intro res v hover
      cases res <;> exact fun _ => hover


/-! ### Bodies that fit -/

/-- What the bounds of a completion ask of the plugin. -/
structure PluginArtifact.FitsBody (output : PluginArtifact) : Prop where
  contentType : lengthWithin 1 128 output.contentType
  modelId : lengthWithin 1 maxModelIdLength output.modelId
  modelVersion : lengthWithin 1 maxModelVersionLength output.modelVersion
  seed : output.seed.all (0 ≤ ·)
  diagnostics : validateJobPayload output.diagnostics = .ok ()

/-- What the bounds of a request ask of the agent, besides what it copies from its grant. -/
def JobPost.Fits (grant : LeaseGrant) : JobPost → Prop
  | .complete _ _ manifest => ∃ (capability : WorkerCapability) (output : PluginArtifact)
      (content : ByteArray), capability.withinBounds ∧ output.FitsBody ∧
        manifest = outputManifest capability grant (WorkerAgent.fileOutput output content)
  | .fail _ _ reason _ _ => lengthWithin 1 maxAuditReasonLength reason
  | .release _ _ reason => lengthWithin 1 maxAuditReasonLength reason

omit [PyText] in
theorem lengthWithin_of_accepted {text : String} {maximum : Nat}
    (h : text ≠ "" ∧ text.length ≤ maximum) : lengthWithin 1 maximum text := by
  rw [lengthWithin, Bool.and_eq_true, decide_eq_true_eq, decide_eq_true_eq]
  refine ⟨Nat.one_le_iff_ne_zero.mpr fun hzero => h.1 ?_, h.2⟩
  simpa using hzero

/-- The keys of an accepted request fit the bodies that copy them. -/
theorem keys_of_accepted {submission : JobSubmission}
    (h : validateJobSubmission submission = .ok ()) :
    lengthWithin 1 maxJobIdLength submission.jobId ∧
      lengthWithin 1 maxJobIdLength submission.idempotencyKey ∧
        lengthWithin 1 maxAssetKeyLength submission.outputKey := by
  simp only [validateJobSubmission, andThen_eq_ok, requireLength, require_eq_ok, Option.all_some,
    Bool.and_eq_true, decide_eq_true_eq] at h
  obtain ⟨hjob, hkey, -, houtput, -⟩ := h
  exact ⟨lengthWithin_of_accepted hjob, lengthWithin_of_accepted hkey,
    lengthWithin_of_accepted houtput⟩

/-- A manifest of an output that fits is within the bounds, when the grant is. -/
theorem withinBounds_outputManifest {capability : WorkerCapability} {output : PluginArtifact}
    {content : ByteArray} (hkey : lengthWithin 1 maxAssetKeyLength grant.outputKey)
    (hidempotency : lengthWithin 1 maxJobIdLength grant.idempotencyKey)
    (hdigest : sha256Pattern grant.requestDigest) (hcapability : capability.withinBounds)
    (hfits : output.FitsBody) :
    (outputManifest capability grant (WorkerAgent.fileOutput output content)).withinBounds := by
  simp only [WorkerCapability.withinBounds, Bool.and_eq_true] at hcapability
  have hdiagnostics : (validateJobPayload output.diagnostics).isOk := by
    rw [hfits.diagnostics]
    rfl
  have hmode : lengthWithin 1 64 publicationModeImmutableCreateOnce := by decide
  simp only [OutputManifest.withinBounds, outputManifest, WorkerAgent.fileOutput,
    sha256Pattern_sha256Hex, hmode, hdigest, hkey, hidempotency, hcapability.1.1.2,
    hcapability.1.2, hfits.contentType, hfits.modelId, hfits.modelVersion, hfits.seed, hdiagnostics,
    Bool.and_true, Bool.true_and]
  exact decide_eq_true (Int.natCast_nonneg _)

/-- The path of the job is read as the agent means it, and the token fits the bodies that carry
it. -/
structure LeaseGrant.Addressed (readPath : String → Option String) (grant : LeaseGrant) : Prop where
  path : readPath grant.jobId = some grant.jobId
  token : lengthWithin 1 maxClaimTokenLength grant.claimToken

/-- As long as the lease is not over, what the agent sends about it is within the bounds. -/
theorem withinBounds_of_live {w : World} (hinv : w.Orderly) (h : w.GrantCopied identity grant)
    (hlive : ¬ w.Over grant) (htoken : lengthWithin 1 maxClaimTokenLength grant.claimToken)
    {call : JobPost} (hcall : call.Settles grant)
    (hfits : call.Fits grant) : lengthWithin 1 maxJobIdLength grant.jobId && call.withinBounds := by
  have hheld : w.jobs.LiveFor grant.jobId grant.claimToken := by
    by_contra hdead
    exact hlive ⟨h.issued, hdead⟩
  obtain ⟨r, hget, hr⟩ := MemoryJobStore.liveFor_iff.mp hheld
  have hcopies := h.copies r (MemoryJobStore.held_eq_some_iff.mpr ⟨hget, hr⟩)
  have hmem := Table.mem_of_get? hget
  have hjobId : r.jobId = grant.jobId := Table.key_eq_of_get? hget
  obtain ⟨hjob, hkey, houtput⟩ := keys_of_accepted (hinv.requests.valid r hmem)
  have hdigest : sha256Pattern grant.requestDigest := by
    rw [hcopies.requestDigest, hinv.requests.digest r hmem]
    exact sha256Pattern_sha256Hex _
  refine Bool.and_eq_true_iff.mpr ⟨hjobId ▸ hjob, ?_⟩
  cases call with
  | fail jobId claimToken reason retryable failureCode =>
      obtain ⟨-, rfl⟩ := hcall
      exact Bool.and_eq_true_iff.mpr ⟨htoken, hfits⟩
  | release jobId claimToken reason =>
      obtain ⟨-, rfl⟩ := hcall
      exact Bool.and_eq_true_iff.mpr ⟨htoken, hfits⟩
  | complete jobId claimToken manifest =>
      obtain ⟨-, rfl⟩ := hcall
      obtain ⟨capability, output, content, hcapability, houtputFits, rfl⟩ := hfits
      refine Bool.and_eq_true_iff.mpr ⟨htoken, ?_⟩
      exact withinBounds_outputManifest (hcopies.outputKey ▸ houtput)
        (hcopies.idempotencyKey ▸ hkey) hdigest hcapability houtputFits

/-- A request that fits is answered as the service says. -/
theorem sat_answer_settles {readPath : String → Option String}
    (haddressed : grant.Addressed readPath) {call : JobPost} (hcall : call.Settles grant)
    (hfits : call.Fits grant) {w : World} (hinv : w.Orderly) (h : w.GrantCopied identity grant) :
    Prog.Sat Action.exec (settleContract cfg identity) (call.answer cfg (.ok identity) readPath) w
      fun res v => ∃ status, res = .ok status ∧ (call.Ending status → v.Over grant) := by
  rw [JobPost.answer, hcall.1, haddressed.path]
  dsimp only
  by_cases hover : w.Over grant
  · split_ifs
    · exact sat_program_settles hcall h
    · exact ⟨422, rfl, fun _ => hover⟩
  · rw [if_pos (withinBounds_of_live hinv h hover haddressed.token hcall hfits)]
    exact sat_program_settles hcall h

end Settling
end GpuWorkerPool
