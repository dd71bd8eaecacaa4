import GpuWorkerPool.Interference

/-!
Honest completions. An upload to a key that holds an object already counts as done, so a later
attempt at a job may attest its own file while the store keeps the file of an earlier one. Its
completion passes whenever the two agree in size and digest, and the job fails for good otherwise.
-/

namespace GpuWorkerPool

open Base WorkerPoolService

/-! ### Leases and their grants -/

/-- The worker holds the lease of the record, and the grant copies the record. -/
structure World.HoldsLease (w : World) (identity : WorkerIdentity) (grant : LeaseGrant)
    (r : JobRecord) : Prop where
  held : w.jobs.held (grant.jobId, grant.claimToken) = some r
  leasedBy : r.leasedBy = some identity.workerId
  outputKey : grant.outputKey = r.outputKey
  idempotencyKey : grant.idempotencyKey = r.idempotencyKey
  requestDigest : grant.requestDigest = r.requestDigest
  uploadUrl : grant.outputGrant.url = memoryUploadPrefix ++ r.outputKey

/-- For as long as the token of the grant opens a lease, the worker holds that lease and the grant
copies its record. -/
structure World.GrantCopied (w : World) (identity : WorkerIdentity) (grant : LeaseGrant) :
    Prop where
  issued : w.Issued grant.claimToken
  copies : ∀ r, w.jobs.held (grant.jobId, grant.claimToken) = some r →
    w.HoldsLease identity grant r

theorem World.GrantCopied.evolves {v w : World} {identity : WorkerIdentity} {grant : LeaseGrant}
    (h : v.GrantCopied identity grant) (hevolves : World.Evolves v w) :
    w.GrantCopied identity grant := by
  refine ⟨hevolves.issued h.issued, fun r' hheld => ?_⟩
  obtain ⟨r, hr, leaseUntil, progressPercent, updatedAt, rfl⟩ :=
    hevolves.fenced _ h.issued r' hheld
  obtain ⟨-, hleasedBy, hkey, hidempotency, hdigest, hurl⟩ := h.copies r hr
  exact ⟨hheld, hleasedBy, hkey, hidempotency, hdigest, hurl⟩

/-- The token still opens the lease that was granted to the worker, or no lease at all. -/
def World.Granted (w : World) (identity : WorkerIdentity) (job : JobRecord) (t : String) : Prop :=
  w.Issued t ∧ job.leasedBy = some identity.workerId ∧
    ∀ r, w.jobs.held (job.jobId, t) = some r → SameLease job r

theorem World.Granted.evolves {v w : World} {identity : WorkerIdentity} {job : JobRecord}
    {t : String} (h : v.Granted identity job t) (hevolves : World.Evolves v w) :
    w.Granted identity job t := by
  refine ⟨hevolves.issued h.1, h.2.1, fun r' hheld => ?_⟩
  obtain ⟨r, hr, hsame⟩ := hevolves.fenced _ h.1 r' hheld
  exact (h.2.2 r hr).trans hsame

/-- An attempt that publishes holds its lease, its job pins no recipe, and its file can be
verified. -/
def World.Honest (w : World) (cfg : ServiceConfig) : Request → Prop
  | .publish identity _ grant output =>
      ∃ r, w.HoldsLease identity grant r ∧ pinnedRecipe r.requirements.runtimeVersions = none ∧
        (output.content.size : Int) ≤ cfg.maxVerifyBytes
  | _ => True

/-- Every job that is failed now was so before. -/
def FailsNothing (v w : World) : Prop :=
  ∀ j r', w.jobs.get? j = some r' → r'.status = .failed → v.jobs.get? j = some r'

theorem FailsNothing.refl (w : World) : FailsNothing w w := fun _ _ hget _ => hget

def Request.publishes : Request → Bool
  | .publish .. => true
  | _ => false

/-- An attempt that publishes finds its output key free, or holding an object with the size and the
digest of its own file. -/
def UploadStands (w : World) (request : Request) : Action → Prop
  | .assets (.writeOnce key content _) =>
      request.publishes → ∀ stored ∈ w.assets.assets.lookup key,
        stored.size = content.size ∧ sha256Hex stored = sha256Hex content
  | _ => True

instance (w : World) (request : Request) : (action : Action) →
    Decidable (UploadStands w request action)
  | .assets (.writeOnce ..) => inferInstanceAs (Decidable (_ → ∀ _ ∈ _, _ ∧ _))
  | .assets (.createReadUrl _) | .assets (.createOutputUploadUrl ..) | .assets (.describe _)
  | .assets (.readLimited ..) | .jobs _ | .registry _ | .audit .. | .auditForJob _ | .clock => .isTrue trivial

/-- Jobs keep their requests, besides what every step does. -/
structure World.Continues (v w : World) : Prop where
  evolves : World.Evolves v w
  jobs : Preserves v.jobs w.jobs

theorem World.Continues.refl (w : World) : Continues w w := ⟨.refl w, .refl w.jobs⟩

theorem World.Continues.trans {u v w : World} (h : Continues u v) (h' : Continues v w) :
    Continues u w :=
  ⟨h.evolves.trans h'.evolves, h.jobs.trans h'.jobs⟩

/-- What a step of a call does: an attempt that publishes fails no job. -/
structure Request.Contributes (request : Request) (v w : World) : Prop where
  continues : World.Continues v w
  failsNothing : request.publishes → FailsNothing v w

theorem Request.Contributes.refl (request : Request) (w : World) : request.Contributes w w :=
  ⟨.refl w, fun _ => .refl w⟩

/-- Tokens are fresh and no stored job belongs to a profile that is not qualified. -/
structure World.Qualified (cfg : ServiceConfig) (w : World) : Prop where
  fresh : Function.Injective w.tokens
  rows : ∀ j r, w.jobs.get? j = some r →
    unqualifiedReason cfg.unqualified [r.capabilityId] r.requirements.runtimeVersions = none

theorem World.Qualified.of_initial (cfg : ServiceConfig) {w : World} (h : w.Initial) :
    w.Qualified cfg where
  fresh := h.fresh
  rows := by
    rw [h.jobs]
    intro j r hget
    exact absurd hget (by simp)

theorem grantKey_append (urlPrefix key : String) : grantKey (urlPrefix ++ key) urlPrefix = .ok key := by
  have hstarts : urlPrefix.toList.isPrefixOf (urlPrefix ++ key).toList = true := by
    rw [String.toList_append]
    exact List.isPrefixOf_iff_prefix.mpr (List.prefix_append _ _)
  rw [grantKey, if_pos hstarts, String.toList_append, List.drop_left, String.ofList_toList]

theorem manifestProblem_of_copied {cfg : ServiceConfig} {capability : WorkerCapability}
    {grant : LeaseGrant} {output : PluginOutput} {record : JobRecord}
    (hqualified : unqualifiedReason cfg.unqualified [record.capabilityId]
      record.requirements.runtimeVersions = none)
    (hpinned : pinnedRecipe record.requirements.runtimeVersions = none)
    (hkey : grant.outputKey = record.outputKey)
    (hidempotency : grant.idempotencyKey = record.idempotencyKey)
    (hdigest : grant.requestDigest = record.requestDigest) :
    manifestProblem cfg record (outputManifest capability grant output) = none := by
  simp [manifestProblem, outputManifest, hqualified, hpinned, hkey, hidempotency, hdigest]

section Runs

variable [PyText]

/-- A record becomes failed by `fail` and by the sweep alone. -/
theorem JobStoreCall.RowStep.failed_cases {now : DateTime} {uuid4 : String} {s : MemoryJobStore}
    {j : String} {call : JobStoreCall} {row : Option JobRecord} {r' : JobRecord}
    (h : RowStep now uuid4 s j call row (some r')) (hstatus : r'.status = .failed) :
    row = some r' ∨ call = .expireExhausted ∨
      ∃ t reason failureCode failureMessage retryable,
        call = .fail j t reason failureCode failureMessage retryable := by
  cases h with
  | kept => exact Or.inl rfl
  | failed _ => exact Or.inr (Or.inr ⟨_, _, _, _, _, rfl⟩)
  | exhausted _ => exact Or.inr (Or.inl rfl)
  | heartbeaten hlive => exact absurd (hlive.1.symm.trans hstatus) (by simp)
  | submitted _ _ _ _ => exact absurd hstatus (by simp [JobRecord.ofSubmission])
  | cancelled _ => exact absurd hstatus (by simp [JobRecord.cancelled])
  | leased _ _ => exact absurd hstatus (by simp [JobRecord.leased])
  | completed _ => exact absurd hstatus (by simp [JobRecord.completed])
  | released _ => exact absurd hstatus (by simp [JobRecord.released])

/-- The operation settles no job as failed. -/
def JobStoreCall.NeverFails : JobStoreCall → Prop
  | expireExhausted => False
  | fail .. => False
  | _ => True

theorem Action.exec_failsNothing {action : Action} (h : OnJobs JobStoreCall.NeverFails action)
    (w : World) : FailsNothing w (action.exec w).1 := by
  intro j r' hget' hstatus
  by_cases hjobs : ∃ call, action = .jobs call
  · obtain ⟨call, rfl⟩ := hjobs
    have hrow := call.exec_row w.now w.nextToken w.jobs j
    rw [show (call.exec w.now w.nextToken w.jobs).1.get? j = some r' from hget'] at hrow
    rcases hrow.failed_cases hstatus with hkept | rfl | ⟨t, reason, code, message, retryable, rfl⟩
    · exact hkept
    · exact h.elim
    · exact h.elim
  · rwa [(Action.exec_jobs_of_ne (fun call hcall => hjobs ⟨call, hcall⟩) w).1] at hget'

theorem Action.exec_continues {w : World} (hfresh : Function.Injective w.tokens) {action : Action}
    (hnew : NewJobs w action) : World.Continues w (action.exec w).1 :=
  ⟨Action.exec_evolves hfresh action, Action.exec_preserves hnew⟩

theorem World.Qualified.exec {cfg : ServiceConfig} {w : World} (h : w.Qualified cfg)
    {action : Action} (hsubmits : OnJobs (SubmitsQualified cfg) action) :
    (action.exec w).1.Qualified cfg where
  fresh := by
    rw [Action.exec_tokens]
    exact h.fresh
  rows := by
    intro j r' hget'
    by_cases hjobs : ∃ call, action = .jobs call
    · obtain ⟨call, rfl⟩ := hjobs
      have hrow := call.exec_row w.now w.nextToken w.jobs j
      rw [show (call.exec w.now w.nextToken w.jobs).1.get? j = some r' from hget'] at hrow
      generalize hget : w.jobs.get? j = row at hrow
      cases hrow with
      | submitted _ _ _ _ => exact hsubmits
      | _ => exact (h.rows j _ hget :)
    · rw [(Action.exec_jobs_of_ne (fun call hcall => hjobs ⟨call, hcall⟩) w).1] at hget'
      exact h.rows j r' hget'

/-! ### Publishing -/

/-- Any requests in any order for jobs with ids of their own. Attempts that publish are honest, and
an earlier attempt may do whatever the other requests can. -/
def honestSchedule (cfg : ServiceConfig) (allow : World → Request → Action → Prop) :
    Regime World Action Action.Reply Exc Request Response where
  accepts request w := w.Presents request ∧ w.Honest cfg request
  allow request action w := NewJobs w action ∧ allow w request action
  env s w := s.world.Outside w

abbrev honestContract (cfg : ServiceConfig) (request : Request) : Prog.Contract Action World where
  inv := World.Qualified cfg
  allow action w := NewJobs w action ∧ UploadStands w request action
  rely := World.Continues
  guar := request.Contributes

/-- One operation of the job store, or of anything else, keeps the contract. -/
theorem honestContract_exec {cfg : ServiceConfig} {request : Request} {w : World}
    {action : Action} (hinv : w.Qualified cfg) (hsubmits : OnJobs (SubmitsQualified cfg) action)
    (hfails : request.publishes → OnJobs JobStoreCall.NeverFails action)
    (hnew : NewJobs w action) :
    (action.exec w).1.Qualified cfg ∧ request.Contributes w (action.exec w).1 :=
  ⟨hinv.exec hsubmits, Action.exec_continues hinv.fresh hnew,
    fun hpublishes => Action.exec_failsNothing (hfails hpublishes) w⟩

/-- What an attempt that publishes may await without failing a job. -/
def Harmless (cfg : ServiceConfig) (call : JobStoreCall) : Prop :=
  SubmitsQualified cfg call ∧ call.NeverFails

/-- A harmless action keeps the contract; what follows starts from its reply. -/
theorem sat_harmless {α : Type} {cfg : ServiceConfig} {request : Request} {action : Action}
    {next : action.Reply → Coroutine α} {w : World} {Q : Except Exc α → World → Prop}
    (hharmless : OnJobs (Harmless cfg) action)
    (hnext : ∀ v, UploadStands v request action → World.Continues w (action.exec v).1 →
      (action.exec v).1.Qualified cfg →
      Prog.Sat Action.exec (honestContract cfg request) (next (action.exec v).2)
        (action.exec v).1 Q) :
    Prog.Sat Action.exec (honestContract cfg request) (.await action next) w Q := by
  rintro v hrely hinv ⟨hnew, hstands⟩
  have hsubmits : OnJobs (SubmitsQualified cfg) action := by
    cases action with
    | jobs call => exact hharmless.1
    | _ => trivial
  have hfails : OnJobs JobStoreCall.NeverFails action := by
    cases action with
    | jobs call => exact hharmless.2
    | _ => trivial
  obtain ⟨hinv', hguar⟩ := honestContract_exec hinv hsubmits (fun _ => hfails) hnew
  exact ⟨hinv', hguar, hnext v hstands (hrely.trans hguar.1) hinv'⟩

theorem sat_recordAudit {cfg : ServiceConfig} {request : Request} (eventType : AuditEventType)
    (workerId jobId : Option String) (detail : List (String × JsonValue)) (w : World) :
    Prog.Sat Action.exec (honestContract cfg request) (recordAudit eventType workerId jobId detail) w
      fun res _ => ∀ reason, res ≠ .error (.completionRejected reason) := by
  refine sat_harmless trivial fun v _ _ _ => ?_
  rw [Action.exec]
  split <;> simp [Prog.ofExcept]

/-- After an upload that stands, the key holds an object with the size and the digest of the file. -/
theorem sat_upload {cfg : ServiceConfig} {identity : WorkerIdentity}
    {capability : WorkerCapability} {grant : LeaseGrant} {output : PluginOutput} {key : String}
    (hurl : grant.outputGrant.url = memoryUploadPrefix ++ key) (w : World) :
    Prog.Sat Action.exec (honestContract cfg (.publish identity capability grant output))
      (upload grant.outputGrant.url output.content (uploadContentType grant.outputGrant output)) w
      fun res v => World.Continues w v ∧ v.Qualified cfg ∧ match res with
        | .ok _ => ∃ stored, v.assets.assets.lookup key = some stored ∧
            stored.size = output.content.size ∧ sha256Hex stored = sha256Hex output.content
        | .error error => ∀ reason, error ≠ .completionRejected reason := by
  rw [upload, hurl, grantKey_append]
  refine sat_harmless trivial fun v hstands hcontinues hinv => ?_
  revert hcontinues hinv
  rw [Action.exec]
  split
  · exact fun hcontinues hinv => ⟨hcontinues, hinv, by simp⟩
  · refine fun hcontinues hinv => ⟨hcontinues, hinv, ?_⟩
    obtain ⟨stored, hlookup, hbefore | rfl⟩ := v.assets.writeOnce_spec key output.content
      (uploadContentType grant.outputGrant output)
    · exact ⟨stored, hlookup, hstands rfl stored hbefore⟩
    · exact ⟨output.content, hlookup, rfl, rfl⟩

/-- The completion of an honest attempt is judged by the file that the store keeps. -/
theorem sat_publish {cfg : ServiceConfig} {identity : WorkerIdentity}
    {capability : WorkerCapability} {grant : LeaseGrant} {output : PluginOutput} {w : World}
    (hhonest : w.Honest cfg (.publish identity capability grant output)) :
    Prog.Sat Action.exec (honestContract cfg (.publish identity capability grant output))
      (publish cfg identity capability grant output) w
      fun res _ => ∀ reason, res ≠ .error (.completionRejected reason) := by
  obtain ⟨r, hlease, hpinned, hsize⟩ := hhonest
  have hguar : ∀ v : World, v.Qualified cfg →
      Request.Contributes (.publish identity capability grant output) v v := fun v _ => .refl _ v
  refine Prog.sat_bind.mpr ((sat_upload hlease.uploadUrl w).mono ?_)
  rintro (error | value) u ⟨hrely, hinv, hupload⟩
  · exact fun reason hreason => hupload reason (Except.error.inj hreason)
  · obtain ⟨stored, hstored, hbytes, hdigest⟩ := hupload
    refine Prog.sat_bind.mpr ((sat_ownedJob hguar
      World.Continues.trans cfg identity grant.jobId u).mono ?_)
    rintro (error | record) v ⟨hrely', hinv', howned⟩
    · exact fun reason hreason => howned reason (Except.error.inj hreason)
    · obtain ⟨r', hget', hsame, -⟩ := (hrely.trans hrely').jobs grant.jobId r
        (MemoryJobStore.held_eq_some_iff.mp hlease.held).1
      obtain rfl : record = r' := Option.some.inj (howned.stored.symm.trans hget')
      have hverified : VerifiedOutput cfg record (outputManifest capability grant output) v := by
        refine ⟨manifestProblem_of_copied (hinv'.rows _ _ howned.stored) ?_ ?_ ?_ ?_,
          stored, ?_, congrArg _ hbytes.symm, hsize, hdigest.symm⟩
        · rw [hsame.requirements, hpinned]
        · rw [hsame.outputKey, hlease.outputKey]
        · rw [hsame.idempotencyKey, hlease.idempotencyKey]
        · rw [hsame.requestDigest, hlease.requestDigest]
        · rw [hsame.outputKey]
          exact hrely'.evolves.assets _ _ hstored
      refine Prog.sat_bind.mpr (Prog.sat_handle.mpr ((sat_verifyOutput_stored hguar
        World.Continues.evolves hverified).mono ?_))
      rintro (error | value) x hpasses
      · cases error with
        | completionRejected reason => exact absurd rfl (hpasses reason)
        | _ => exact hpasses
      · refine sat_harmless ⟨trivial, trivial⟩ fun y _ _ _ => ?_
        generalize (Action.exec (.jobs (.complete ..)) y).2 = accepted
        cases accepted with
        | false => exact fun reason => by simp
        | true => exact sat_recordAudit _ _ _ _ _

/-! ### Grants -/

/-- What a request that does not publish awaits keeps the contract. -/
theorem sat_unpublished {α : Type} {cfg : ServiceConfig} {request : Request} {p : Coroutine α}
    (hrequest : ¬ request.publishes) (h : p.Awaits (OnJobs (SubmitsQualified cfg))) (w : World) :
    Prog.Sat Action.exec (honestContract cfg request) p w fun _ _ => True := by
  refine Prog.sat_of_awaits ?_ h w
  intro action v haction hinv hallow
  exact honestContract_exec hinv haction (fun hpublishes => absurd hpublishes hrequest) hallow.1

/-- The job operations of a `lease` call. -/
def JobStoreCall.Leases (call : JobStoreCall) : Prop :=
  call = .expireExhausted ∨ ∃ query, call = .lease query

/-- Under the contract the world evolves, and a `lease` call keeps to it. -/
structure LeasesUnder (K : Prog.Contract Action World) : Prop where
  refl : ∀ w, K.inv w → K.guar w w
  rely : ∀ {v w}, K.rely v w → World.Evolves v w
  guar : ∀ {v w}, K.guar v w → World.Evolves v w
  keeps : ∀ action s, OnJobs JobStoreCall.Leases action → K.inv s → K.allow action s →
    K.inv (action.exec s).1 ∧ K.guar s (action.exec s).1

section Grants

variable {K : Prog.Contract Action World} (hK : LeasesUnder K)

include hK

theorem sat_keeps_granted {α : Type} {p : Coroutine α} (h : p.Awaits (OnJobs JobStoreCall.Leases))
    {w : World} {identity : WorkerIdentity} {job : JobRecord} {t : String}
    (hgranted : w.Granted identity job t) :
    Prog.Sat Action.exec K p w fun _ v => v.Granted identity job t :=
  ((Prog.sat_of_awaits hK.keeps h w).keeps (fun _ _ hg hrely => hg.evolves (hK.rely hrely))
    (fun _ _ hg hguar => hg.evolves (hK.guar hguar)) hgranted).mono fun _ _ h => h.2

/-- The grant of a claimed job copies the job. -/
theorem sat_grantLease_copies {cfg : ServiceConfig} {identity : WorkerIdentity} {leaseSeconds : Int}
    {job : JobRecord} {t : String} {w : World} (htoken : job.claimToken = some t)
    (hgranted : w.Granted identity job t) :
    Prog.Sat Action.exec K (grantLease cfg identity leaseSeconds job) w
      fun res v => ∀ grant, res = .ok (some grant) → v.GrantCopied identity grant := by
  rw [grantLease, htoken]
  have hclock : readClock.Awaits (OnJobs JobStoreCall.Leases) := ⟨trivial, fun _ => trivial⟩
  refine Prog.sat_bind.mpr ((sat_keeps_granted hK hclock hgranted).mono ?_)
  rintro (error | now) u hgranted
  · simp
  refine Prog.sat_bind.mpr ((sat_keeps_granted hK
    (awaits_readGrants _ _ fun _ => trivial) hgranted).mono ?_)
  rintro (error | inputGrants) v hgranted
  · simp
  refine sat_readAssets hK.refl (fun _ => rfl)
    (fun x url hrely _ hurl => ?_) fun x error _ _ _ => by simp
  refine Prog.sat_bind.mpr ((sat_keeps_granted hK (awaits_recordAudit trivial)
    (hgranted.evolves (hK.rely hrely))).mono ?_)
  rintro (error | value) y ⟨hissued, hleasedBy, hheld⟩
  · simp
  rintro grant ⟨⟩
  refine ⟨hissued, fun r hr => ?_⟩
  obtain ⟨leaseUntil, progressPercent, updatedAt, rfl⟩ := hheld r hr
  exact ⟨hr, hleasedBy, rfl, rfl, rfl, MemoryAssetStore.createOutputUploadUrl_spec hurl⟩

omit hK in
theorem granted_of_lease {w : World} {query : LeaseQuery} {job : JobRecord}
    {identity : WorkerIdentity} (hworker : query.workerId = identity.workerId)
    (h : ((Action.jobs (.lease query)).exec w).2 = some job) :
    job.claimToken = some w.nextToken ∧
      ((Action.jobs (.lease query)).exec w).1.Granted identity job w.nextToken := by
  have hreply : (w.jobs.lease w.now w.nextToken query).2 = some job := h
  obtain ⟨r, rfl, hget⟩ := MemoryJobStore.lease_eq_some hreply
  refine ⟨rfl, ⟨w.drawn, ?_, rfl⟩, congrArg some hworker, fun q hheld => ?_⟩
  · simp [Action.exec, JobStoreCall.exec, JobStoreCall.draws, hreply]
  · obtain rfl : r.leased w.now w.nextToken query = q :=
      Option.some.inj (hget.symm.trans (MemoryJobStore.held_eq_some_iff.mp hheld).1)
    exact .refl _

/-- Every grant that `lease` answers copies the job that was claimed. -/
theorem sat_lease_copied (cfg : ServiceConfig) (identity : WorkerIdentity)
    (capabilityIds : List String) (leaseSeconds : Option Int) (w : World) :
    Prog.Sat Action.exec K (lease cfg identity capabilityIds leaseSeconds) w
      fun res v => ∀ grant, res = .ok (some grant) → v.GrantCopied identity grant := by
  refine sat_lease_of_grant hK.refl hK.keeps cfg identity capabilityIds leaseSeconds w
    (fun _ _ hnone grant hgrant => absurd hgrant (hnone grant)) ?_
  intro query job v hworker hreply
  obtain ⟨htoken, hgranted⟩ := granted_of_lease hworker hreply
  exact sat_grantLease_copies hK htoken hgranted

end Grants

theorem sat_lease_copies (cfg : ServiceConfig) {request : Request} (hrequest : ¬ request.publishes)
    (identity : WorkerIdentity) (capabilityIds : List String) (leaseSeconds : Option Int)
    (w : World) :
    Prog.Sat Action.exec (honestContract cfg request) (lease cfg identity capabilityIds leaseSeconds)
      w fun res v => ∀ grant, res = .ok (some grant) → v.GrantCopied identity grant := by
  apply sat_lease_copied
  refine ⟨fun v _ => Request.Contributes.refl request v, fun h => h.evolves,
    fun h => h.continues.evolves, ?_⟩
  intro action v haction hinv hallow
  refine honestContract_exec hinv ?_ (fun hpublishes => absurd hpublishes hrequest) hallow.1
  cases action with
  | jobs call => rcases haction with rfl | ⟨query, rfl⟩ <;> trivial
  | _ => trivial

/-- What the answer to a request says about the world. -/
def World.Answers (w : World) : Request → Except Exc Response → Prop
  | .publish .., res => ∀ reason, res ≠ .error (.completionRejected reason)
  | .lease identity _ _, res => ∀ grant, res = .ok (.grant (some grant)) → w.GrantCopied identity grant
  | _, _ => True

def honestDiscipline (cfg : ServiceConfig) :
    Discipline (coordinator cfg) (honestSchedule cfg UploadStands) where
  inv := World.Qualified cfg
  rely := World.Continues
  evolve := World.Continues
  guar := Request.Contributes
  post _ request res w := w.Answers request res
  rely_refl := .refl
  rely_trans := .trans
  rely_evolve h := h
  guar_rely _ h := h.1
  post_stable := by
    intro i request res v w _ hcontinues hpost
    cases request with
    | lease identity _ _ => exact fun grant hgrant => (hpost grant hgrant).evolves hcontinues.evolves
    | publish => exact hpost
    | _ => trivial
  begin_sat := by
    rintro i request w _ ⟨-, hhonest⟩
    have hothers := fun h : ¬ request.publishes => sat_unpublished h (awaits_qualified cfg request) w
    cases request with
    | publish identity capability grant output =>
        refine Prog.sat_bind.mpr ((sat_publish hhonest).mono ?_)
        rintro (error | value) t hpasses
        · exact fun reason hreason => hpasses reason (congrArg _ (Except.error.inj hreason))
        · exact fun reason => by simp
    | lease identity capabilityIds leaseSeconds =>
        have hrequest : ¬ (Request.lease identity capabilityIds leaseSeconds).publishes = true :=
          Bool.false_ne_true
        refine Prog.sat_bind.mpr
          ((sat_lease_copies cfg hrequest identity capabilityIds leaseSeconds w).mono ?_)
        rintro (error | grant) t hcopies
        · rintro grant ⟨⟩
        · rintro grant ⟨⟩
          exact hcopies grant rfl
    | _ => exact (hothers Bool.false_ne_true).mono fun _ _ _ => trivial
  env_ok := by
    intro s w hinv houtside
    have hevolves := World.Outside.evolves houtside
    obtain ⟨now, clock, assetOutage, auditOutage, rfl⟩ := houtside
    exact ⟨⟨hinv.fresh, hinv.rows⟩, ⟨hevolves, .refl _⟩, fun _ => ⟨hevolves, .refl _⟩⟩

/-- An honest completion is not rejected, as long as uploads stand: in every run in which each
attempt that publishes finds its output key free or holding its own file up to size and digest, no
such attempt is answered with a rejection, and none of its steps fails a job. -/
theorem honest_completion_not_rejected (cfg : ServiceConfig) {w : World} (hinitial : w.Initial)
    {s : Sys World Action Action.Reply Exc Request Response}
    (hreach : Reaches (coordinator cfg) (honestSchedule cfg UploadStands) ⟨w, []⟩ s) {i : Nat}
    {identity : WorkerIdentity} {capability : WorkerCapability} {grant : LeaseGrant}
    {output : PluginOutput} {p : Coroutine Response}
    (hcall : s.calls[i]? = some ⟨.publish identity capability grant output, p⟩) :
    (∀ reason, p ≠ .raise (.completionRejected reason)) ∧
      FailsNothing s.world (s.advance (coordinator cfg) i).world := by
  have hsafe := Discipline.safe_of_reaches
    (Discipline.safe_of_no_calls (D := honestDiscipline cfg) (.of_initial cfg hinitial)) hreach
  constructor
  · rintro reason rfl
    exact hsafe.answered hcall rfl reason rfl
  · rw [Sys.advance, hcall]
    cases p with
    | ret value => exact .refl _
    | raise error => exact .refl _
    | await action next =>
        by_cases hharmless : OnJobs JobStoreCall.NeverFails action
        · exact Action.exec_failsNothing hharmless s.world
        · have hallow : NewJobs s.world action ∧
              UploadStands s.world (.publish identity capability grant output) action := by
            cases action with
            | jobs call => cases call <;> first | exact ⟨trivial, trivial⟩ | exact absurd trivial hharmless
            | _ => exact absurd trivial hharmless
          obtain ⟨-, hguar, -⟩ := hsafe.calls i _ hcall s.world (.refl _) hsafe.inv hallow
          exact hguar.failsNothing rfl

/-- While the token of a grant opens a lease, the worker that `lease` answered with the grant may
publish under it. -/
theorem grant_copied_of_answered (cfg : ServiceConfig) {w : World} (hinitial : w.Initial)
    {s : Sys World Action Action.Reply Exc Request Response}
    (hreach : Reaches (coordinator cfg) (honestSchedule cfg UploadStands) ⟨w, []⟩ s)
    {c : Call Action Action.Reply Exc Request Response} (hcall : c ∈ s.calls)
    {identity : WorkerIdentity} {capabilityIds : List String} {leaseSeconds : Option Int}
    {grant : LeaseGrant} (hrequest : c.request = .lease identity capabilityIds leaseSeconds)
    (hanswer : c.answer? = some (.ok (.grant (some grant)))) : s.world.GrantCopied identity grant := by
  have hsafe := Discipline.safe_of_reaches
    (Discipline.safe_of_no_calls (D := honestDiscipline cfg) (.of_initial cfg hinitial)) hreach
  obtain ⟨i, hi⟩ := List.getElem?_of_mem hcall
  have hpost := hsafe.answered hi hanswer
  rw [hrequest] at hpost
  exact hpost grant rfl

instance (cfg : ServiceConfig) (allow : World → Request → Action → Prop) (request : Request)
    [∀ w action, Decidable (allow w request action)] (action : Action) (w : World) :
    Decidable ((honestSchedule cfg allow).allow request action w) :=
  inferInstanceAs (Decidable (_ ∧ _))

end Runs

/-! ### Two attempts at one job -/

/-- The first attempt uploads its file and releases the job; then the job is leased again. -/
def attemptedRun : Sys World Action Action.Reply Exc Request Response :=
  letI := PyText.ascii
  Sys.serveAll (coordinator smallConfig) ⟨smallWorld, []⟩ (leasedRequests ++ [
    .upload "memory://upload/outputs/job-1" "a".toUTF8 outputUploadContentType,
    .release smallIdentity "job-1" "t" "crashed",
    .lease smallIdentity ["test.deterministic.echo.v1"] none])

/-- What the second attempt publishes. -/
def secondPublish (text : String) : Request :=
  .publish smallIdentity smallCapability { smallGrant with claimToken := "tt" } (textOutput text)

theorem reaches_attemptedRun :
    letI := PyText.ascii
    Reaches (coordinator smallConfig) (honestSchedule smallConfig UploadStands)
      ⟨smallWorld, []⟩ attemptedRun := by
  let _ := PyText.ascii
  unfold attemptedRun
  apply reaches_serveAll
  refine ⟨⟨World.presents_of_no_token rfl, trivial⟩, by decide, ?_⟩
  refine ⟨⟨World.presents_of_no_token rfl, trivial⟩, by decide, ?_⟩
  refine ⟨⟨World.presents_of_no_token rfl, trivial⟩, by decide, ?_⟩
  refine ⟨⟨World.presents_of_no_token rfl, trivial⟩, by decide, ?_⟩
  refine ⟨⟨?_, trivial⟩, by decide, ?_⟩
  · rintro claimToken ⟨⟩
    exact ⟨0, by decide, by decide⟩
  · exact ⟨⟨World.presents_of_no_token rfl, trivial⟩, by decide, trivial⟩

/-- The second attempt holds its lease. -/
theorem secondPublish_honest {text : String}
    (hsize : ((textOutput text).content.size : Int) ≤ smallConfig.maxVerifyBytes) :
    attemptedRun.world.Presents (secondPublish text) ∧
      attemptedRun.world.Honest smallConfig (secondPublish text) := by
  constructor
  · rintro claimToken ⟨⟩
    exact ⟨1, by decide, by decide⟩
  · exact ⟨_, ⟨rfl, rfl, rfl, rfl, rfl, rfl⟩, by decide, hsize⟩

theorem honest_completion_not_rejected_for_same_file :
    letI := PyText.ascii
    ∃ p, (attemptedRun.serve (coordinator smallConfig) (secondPublish "a")).calls[6]? =
        some ⟨secondPublish "a", p⟩ ∧
      ∀ reason, p ≠ .raise (.completionRejected reason) := by
  have hallowed : letI := PyText.ascii
      AllowedAlone (coordinator smallConfig)
        ((honestSchedule smallConfig UploadStands).allow (secondPublish "a"))
        ((secondPublish "a").program smallConfig) attemptedRun.world := by decide +kernel
  let _ := PyText.ascii
  have hreach := reaches_attemptedRun.trans
    (reaches_serve attemptedRun _ (secondPublish_honest (by decide)) hallowed)
  have hcall : (attemptedRun.serve (coordinator smallConfig) (secondPublish "a")).calls[6]? =
      some ⟨.publish smallIdentity smallCapability { smallGrant with claimToken := "tt" }
        (textOutput "a"), _⟩ := rfl
  exact ⟨_, hcall, (honest_completion_not_rejected smallConfig smallWorld_initial hreach hcall).1⟩

/-- The second attempt has another file than the first one. Its honest completion is rejected, and
the job fails for good although attempts are left. -/
theorem honest_completion_rejected :
    letI := PyText.ascii
    let s := attemptedRun.serve (coordinator smallConfig) (secondPublish "bb")
    Reaches (coordinator smallConfig) (honestSchedule smallConfig fun _ _ _ => True)
        ⟨smallWorld, []⟩ s ∧
      s.calls[6]?.bind Call.error? = some (.completionRejected "byte_length_mismatch") ∧
      (s.world.jobs.get? "job-1").map (fun r => (r.status, r.retryable)) =
        some (.failed, false) := by
  refine ⟨?_, by decide +kernel⟩
  let _ := PyText.ascii
  refine .trans ?_ (reaches_serve attemptedRun _ (secondPublish_honest (by decide))
    (allowedAlone_of_awaits ((secondPublish "bb").awaits_jobCalls smallConfig) ?_ _))
  swap
  · rintro (call | _ | _ | _ | _) w hcall
    · rcases hcall with rfl | ⟨j, reason, rfl⟩ | ⟨j, rfl⟩ <;> exact ⟨trivial, trivial⟩
    all_goals exact ⟨trivial, trivial⟩
  refine Reaches.mono ?_ ?_ ?_ reaches_attemptedRun
  · exact fun _ _ h => h
  · exact fun _ _ _ h => ⟨h.1, trivial⟩
  · exact fun _ _ h => h

end GpuWorkerPool
