import GpuWorkerPool.Interference

/-!
`COMPLETED` is sound. `complete` reads the record, verifies the output over several awaits and only
then writes. Whatever lands in between, the asset it saw is still there, and a token that the store
accepts opens the lease that was read at the start.
-/

namespace GpuWorkerPool

open Base WorkerPoolService

/-! ### What a manifest attests -/

/-- The manifest answers the request of the record and the recipe it pins. -/
structure Attests (cfg : ServiceConfig) (r : JobRecord) (manifest : OutputManifest) : Prop where
  outputKey : manifest.outputKey = r.outputKey
  idempotencyKey : manifest.idempotencyKey = r.idempotencyKey
  requestDigest : manifest.requestDigest = r.requestDigest
  publicationMode : manifest.publicationMode = publicationModeImmutableCreateOnce
  runtimeVersions : ∀ recipe, pinnedRecipe r.requirements.runtimeVersions = some recipe →
    ∃ reported, manifest.diagnostics.get? "runtime_versions" = some (.dict reported) ∧
      ∀ entry ∈ r.requirements.runtimeVersions.rows, memberEq reported entry.1 (.str entry.2)
  effectiveInputs : ∀ recipe, pinnedRecipe r.requirements.runtimeVersions = some recipe →
    ∃ effective, manifest.diagnostics.get? "effective_inputs" = some (.dict effective) ∧
      ∀ name ∈ cfg.recipeAttestedInputs recipe r.capabilityId,
        memberEq effective name (expectedInput cfg recipe r name)

theorem reported_of_coversVersions {pinned : Dict String String} {diagnostics : JsonObject}
    (h : coversVersions pinned diagnostics) :
    ∃ reported, diagnostics.get? "runtime_versions" = some (.dict reported) ∧
      ∀ entry ∈ pinned.rows, memberEq reported entry.1 (.str entry.2) := by
  unfold coversVersions at h
  split at h
  · rename_i reported hreported
    exact ⟨reported, hreported, List.all_eq_true.mp h⟩
  · exact absurd h (by simp)

theorem effective_of_coversInputs {cfg : ServiceConfig} {recipe : String} {r : JobRecord}
    {diagnostics : JsonObject} (h : coversInputs cfg recipe r diagnostics) :
    ∃ effective, diagnostics.get? "effective_inputs" = some (.dict effective) ∧
      ∀ name ∈ cfg.recipeAttestedInputs recipe r.capabilityId,
        memberEq effective name (expectedInput cfg recipe r name) := by
  unfold coversInputs at h
  split at h
  · rename_i effective heffective
    exact ⟨effective, heffective, List.all_eq_true.mp h⟩
  · exact absurd h (by simp)

theorem attests_of_no_problem {cfg : ServiceConfig} {r : JobRecord} {manifest : OutputManifest}
    (h : manifestProblem cfg r manifest = none) : Attests cfg r manifest := by
  simp only [manifestProblem] at h
  split_ifs at h with hqualified hversions hinputs hkey hidempotency hdigest hmode
  refine ⟨not_not.mp hkey, not_not.mp hidempotency, not_not.mp hdigest, not_not.mp hmode,
    fun recipe hrecipe => ?_, fun recipe hrecipe => ?_⟩
  · exact reported_of_coversVersions (by simpa [hrecipe] using hversions)
  · exact effective_of_coversInputs (by simpa [hrecipe] using hinputs)

/-- What is attested belongs to the request, which a lease does not change. -/
theorem Attests.of_sameLease {cfg : ServiceConfig} {r r' : JobRecord} {manifest : OutputManifest}
    (h : Attests cfg r manifest) (hsame : SameLease r r') : Attests cfg r' manifest := by
  obtain ⟨leaseUntil, progressPercent, updatedAt, rfl⟩ := hsame
  exact ⟨h.outputKey, h.idempotencyKey, h.requestDigest, h.publicationMode, h.runtimeVersions,
    h.effectiveInputs⟩

/-! ### Completions -/

/-- The output that the record reports is in the asset store, within the bound of verification. -/
def JobRecord.OutputStored (r : JobRecord) (cfg : ServiceConfig) (assets : MemoryAssetStore) :
    Prop :=
  ∃ content, assets.assets.lookup r.outputKey = some content ∧
    r.outputByteLength = some (content.size : Int) ∧ (content.size : Int) ≤ cfg.maxVerifyBytes ∧
    r.outputSha256 = some (sha256Hex content)

/-- A request to complete a job: who asks, which job, under which token, with which manifest. -/
structure Completion where
  identity : WorkerIdentity
  jobId : String
  claimToken : String
  manifest : OutputManifest

def Request.completion? : Request → Option Completion
  | .complete identity jobId claimToken manifest => some ⟨identity, jobId, claimToken, manifest⟩
  | .publish identity capability grant output =>
      some ⟨identity, grant.jobId, grant.claimToken, outputManifest capability grant output⟩
  | _ => none

/-- The store, in the world `v`, accepted the completion that left the record `r'`. -/
structure Completion.Accepted (c : Completion) (cfg : ServiceConfig) (v : World)
    (r' : JobRecord) : Prop where
  held : ∃ r, v.jobs.get? c.jobId = some r ∧ r.Live c.claimToken ∧
    r.leasedBy = some c.identity.workerId
  executedBy : r'.executedBy = some c.identity.workerId
  reported : r'.outputByteLength = some c.manifest.byteLength ∧
    r'.outputSha256 = some c.manifest.sha256
  attests : Attests cfg r' c.manifest

/-- Every record that is completed now was so before, or its completion was just accepted. -/
def CompletesOnly (cfg : ServiceConfig) (completion? : Option Completion) (v w : World) : Prop :=
  ∀ j r', w.jobs.get? j = some r' → r'.status = .completed →
    v.jobs.get? j = some r' ∨
      ∃ c, completion? = some c ∧ c.jobId = j ∧ c.Accepted cfg v r'

/-- Tokens are fresh and every completed job has its output stored. -/
structure World.OutputsStored (cfg : ServiceConfig) (w : World) : Prop where
  fresh : Function.Injective w.tokens
  stored : ∀ j r, w.jobs.get? j = some r → r.status = .completed → r.OutputStored cfg w.assets

theorem World.OutputsStored.of_initial (cfg : ServiceConfig) {w : World} (h : w.Initial) :
    w.OutputsStored cfg where
  fresh := h.fresh
  stored := by
    rw [h.jobs]
    intro j r hget
    exact absurd hget (by simp)

section Invariant

variable [PyText]

/-- A record becomes completed by `complete` alone. -/
theorem JobStoreCall.RowStep.completed_cases {now : DateTime} {uuid4 : String}
    {s : MemoryJobStore} {j : String} {call : JobStoreCall} {row : Option JobRecord}
    {r' : JobRecord} (h : RowStep now uuid4 s j call row (some r')) (hstatus : r'.status = .completed) :
    row = some r' ∨ ∃ claimToken contentType sha256 byteLength executionMetadata r,
      call = .complete j claimToken contentType sha256 byteLength executionMetadata ∧
      row = some r ∧ r.Live claimToken ∧
      r' = r.completed now contentType sha256 byteLength executionMetadata := by
  cases h with
  | kept => exact Or.inl rfl
  | completed hlive => exact Or.inr ⟨_, _, _, _, _, _, rfl, rfl, hlive, rfl⟩
  | heartbeaten hlive => exact absurd (hlive.1.symm.trans hstatus) (by simp)
  | submitted _ _ _ _ => exact absurd hstatus (by simp [JobRecord.ofSubmission])
  | cancelled _ => exact absurd hstatus (by simp [JobRecord.cancelled])
  | leased _ _ => exact absurd hstatus (by simp [JobRecord.leased])
  | failed _ => exact absurd hstatus (by simp [JobRecord.failed])
  | released _ => exact absurd hstatus (by simp [JobRecord.released])
  | exhausted _ => exact absurd hstatus (by simp [JobRecord.exhausted])

theorem JobRecord.OutputStored.exec {cfg : ServiceConfig} {r : JobRecord} {w : World}
    (h : r.OutputStored cfg w.assets) (action : Action) :
    r.OutputStored cfg (action.exec w).1.assets := by
  obtain ⟨content, hkey, hrest⟩ := h
  exact ⟨content, Action.exec_assets hkey, hrest⟩

abbrev completionContract (cfg : ServiceConfig) (completion? : Option Completion) :
    Prog.Contract Action World where
  inv := World.OutputsStored cfg
  allow _ _ := True
  rely := World.Evolves
  guar v w := World.Evolves v w ∧ CompletesOnly cfg completion? v w

/-- What one operation needs so as to keep the outputs of completed jobs stored: a record that it
completes has its output stored, and the completion is a request of the call. -/
theorem World.OutputsStored.exec {cfg : ServiceConfig} {completion? : Option Completion}
    {w : World} (h : w.OutputsStored cfg) {action : Action}
    (hcomplete : ∀ j claimToken contentType sha256 byteLength executionMetadata r,
      action = .jobs (.complete j claimToken contentType sha256 byteLength executionMetadata) →
      w.jobs.held (j, claimToken) = some r →
      let r' := r.completed w.now contentType sha256 byteLength executionMetadata
      r'.OutputStored cfg w.assets ∧
        ∃ c, completion? = some c ∧ c.jobId = j ∧ c.Accepted cfg w r') :
    (action.exec w).1.OutputsStored cfg ∧
      World.Evolves w (action.exec w).1 ∧ CompletesOnly cfg completion? w (action.exec w).1 := by
  have hrows : ∀ j r', (action.exec w).1.jobs.get? j = some r' → r'.status = .completed →
      w.jobs.get? j = some r' ∨ r'.OutputStored cfg w.assets ∧
        ∃ c, completion? = some c ∧ c.jobId = j ∧ c.Accepted cfg w r' := by
    intro j r' hget' hstatus
    by_cases hjobs : ∃ call, action = .jobs call
    · obtain ⟨call, rfl⟩ := hjobs
      have hrow := call.exec_row w.now w.nextToken w.jobs j
      rw [show (call.exec w.now w.nextToken w.jobs).1.get? j = some r' from hget'] at hrow
      rcases hrow.completed_cases hstatus with
        hkept | ⟨claimToken, _, _, _, _, r, rfl, hget, hlive, rfl⟩
      · exact Or.inl hkept
      · exact Or.inr (hcomplete j claimToken _ _ _ _ r rfl
          (MemoryJobStore.held_eq_some_iff.mpr ⟨hget, hlive⟩))
    · rw [(Action.exec_jobs_of_ne (fun call hcall => hjobs ⟨call, hcall⟩) w).1] at hget'
      exact Or.inl hget'
  refine ⟨⟨?_, fun j r' hget' hstatus => ?_⟩, Action.exec_evolves h.fresh action,
    fun j r' hget' hstatus => ?_⟩
  · rw [Action.exec_tokens]
    exact h.fresh
  · rcases hrows j r' hget' hstatus with hkept | ⟨hstored, -⟩
    · exact (h.stored j r' hkept hstatus).exec action
    · exact hstored.exec action
  · exact (hrows j r' hget' hstatus).imp_right And.right

/-- A program that never calls `complete` completes nothing. -/
theorem sat_of_never_completes {α : Type} {p : Coroutine α} (cfg : ServiceConfig)
    (completion? : Option Completion)
    (h : p.Awaits (OnJobs fun call => ∀ j t contentType sha256 byteLength metadata,
      call ≠ .complete j t contentType sha256 byteLength metadata)) (w : World) :
    Prog.Sat Action.exec (completionContract cfg completion?) p w fun _ _ => True := by
  refine Prog.sat_of_awaits ?_ h w
  intro action v haction hinv _
  refine hinv.exec ?_
  rintro j t contentType sha256 byteLength metadata r rfl
  exact absurd rfl (haction j t contentType sha256 byteLength metadata)

theorem sat_rejectCompletion (cfg : ServiceConfig) (completion? : Option Completion)
    (identity : WorkerIdentity) (record : JobRecord) (claimToken : String) (error : Exc)
    (w : World) :
    Prog.Sat Action.exec (completionContract cfg completion?)
      (rejectCompletion identity record claimToken error) w fun res _ => ∃ e, res = .error e := by
  refine ((sat_of_never_completes cfg completion? ?_ w).ends
    (rejectCompletion_raises identity record claimToken error)).mono fun _ _ h => h.2
  cases error with
  | completionRejected reason =>
      refine .bind (awaits_jobStore (by simp [Touching])) fun _ => ?_
      exact .bind (awaits_recordAudit trivial) fun _ => trivial
  | _ => trivial

/-- The completion that the store accepts is judged by the record that was read under the same
lease. -/
theorem sat_complete (cfg : ServiceConfig) (c : Completion) {w : World}
    (hissued : w.Issued c.claimToken) :
    Prog.Sat Action.exec (completionContract cfg (some c))
      (complete cfg c.identity c.jobId c.claimToken c.manifest) w fun _ _ => True := by
  have hguar : ∀ v : World, v.OutputsStored cfg →
      World.Evolves v v ∧ CompletesOnly cfg (some c) v v :=
    fun v _ => ⟨.refl v, fun _ _ hget _ => Or.inl hget⟩
  refine Prog.sat_bind.mpr ((sat_ownedJob hguar World.Evolves.trans cfg c.identity c.jobId w).mono ?_)
  rintro (error | record) u ⟨hrely, hinv, howned⟩
  · trivial
  · have hjob : record.jobId = c.jobId := Table.key_eq_of_get? howned.stored
    refine Prog.sat_bind.mpr (Prog.sat_handle.mpr ((sat_verifyOutput hguar World.Evolves.trans
      id cfg record c.manifest (World.Evolves.refl u) hinv).mono ?_))
    rintro (error | value) v ⟨hrely', hinv', hverified⟩
    · refine (sat_rejectCompletion cfg _ c.identity record c.claimToken error v).mono ?_
      rintro res t ⟨e, rfl⟩
      trivial
    · obtain ⟨hattested, content, hstored, hbytes, hbound, hdigest⟩ := hverified rfl
      intro x hrely'' hinv'' _
      refine and_assoc.mp ⟨hinv''.exec ?_, ?_⟩
      · rintro j claimToken contentType sha256 byteLength metadata r hcall hheld
        cases hcall
        have hevolves := hrely'.trans hrely''
        obtain ⟨hlive, hsame⟩ := hevolves.sameLease (hrely.issued hissued)
          (hjob.symm ▸ howned.stored) hheld
        have hattests := (attests_of_no_problem hattested).of_sameLease hsame
        have hget : x.jobs.get? c.jobId = some r :=
          hjob ▸ (MemoryJobStore.held_eq_some_iff.mp hheld).1
        obtain ⟨leaseUntil, progressPercent, updatedAt, rfl⟩ := hsame
        refine ⟨⟨content, hrely''.assets _ _ hstored, congrArg some hbytes, hbytes ▸ hbound,
          congrArg some hdigest⟩, c, rfl, hjob.symm, ?_⟩
        exact {
          held := ⟨_, hget, ⟨howned.status, hlive.2⟩, howned.leasedBy⟩
          executedBy := howned.leasedBy
          reported := ⟨rfl, rfl⟩
          attests := ⟨hattests.outputKey, hattests.idempotencyKey, hattests.requestDigest,
            hattests.publicationMode, hattests.runtimeVersions, hattests.effectiveInputs⟩ }
      · exact sat_of_never_completes cfg _ (awaits_settle (awaits_recordAudit trivial)) _

def completionDiscipline (cfg : ServiceConfig) : Discipline (coordinator cfg) anySchedule where
  inv := World.OutputsStored cfg
  rely := World.Evolves
  evolve := World.Evolves
  guar request v w := World.Evolves v w ∧ CompletesOnly cfg request.completion? v w
  post _ _ _ _ := True
  rely_refl := .refl
  rely_trans := .trans
  rely_evolve h := h
  guar_rely _ h := h.1
  post_stable _ _ _ := trivial
  begin_sat := by
    intro i request w _ hpresents
    show Prog.Sat Action.exec (completionContract cfg request.completion?)
      (request.program cfg) w _
    by_cases hcompletes : request.completion? = none
    · refine sat_of_never_completes cfg _ ((request.awaits_jobCalls cfg).mono ?_) w
      rintro (call | _ | _ | _ | _) hcall
      · rintro j t contentType sha256 byteLength metadata rfl
        cases request <;> simp [Touching, Request.JobCalls] at hcall
        all_goals exact absurd hcompletes (by simp [Request.completion?])
      all_goals trivial
    · cases request with
      | complete identity jobId claimToken manifest =>
          refine Prog.sat_bind.mpr ((sat_complete cfg ⟨identity, jobId, claimToken, manifest⟩
            (hpresents _ rfl)).mono ?_)
          rintro (error | value) t - <;> trivial
      | publish identity capability grant output =>
          refine Prog.sat_bind.mpr (Prog.sat_bind.mpr (((sat_of_never_completes cfg _
            (awaits_upload _ _ _ fun _ => trivial) w).keeps (fun _ _ ht h => h.issued ht)
            (fun _ _ ht h => h.1.issued ht) (hpresents _ rfl)).mono ?_))
          rintro (error | value) t ⟨-, hissued⟩
          · trivial
          · refine (sat_complete cfg ⟨identity, grant.jobId, grant.claimToken,
              outputManifest capability grant output⟩ hissued).mono ?_
            rintro (error | value) t - <;> trivial
      | _ => exact absurd rfl hcompletes
  env_ok := by
    intro s w hinv houtside
    have hevolves := World.Outside.evolves houtside
    obtain ⟨now, clock, assetOutage, auditOutage, rfl⟩ := houtside
    exact ⟨⟨hinv.fresh, hinv.stored⟩, hevolves, fun _ => hevolves⟩

/-- At some step of the run from `w` to `s` the store accepted the completion that left the
record, and a call had asked for it. -/
def CompletedInRun (cfg : ServiceConfig) (w : World)
    (s : Sys World Action Action.Reply Exc Request Response) (j : String) (r : JobRecord) : Prop :=
  ∃ before after c, Reaches (coordinator cfg) anySchedule ⟨w, []⟩ before ∧
    Step (coordinator cfg) anySchedule before after ∧
    Reaches (coordinator cfg) anySchedule after s ∧
    (∃ call ∈ before.calls, call.request.completion? = some c) ∧ c.jobId = j ∧
    c.Accepted cfg before.world r ∧ after.world.jobs.get? j = some r

/-- Completed jobs are sound, whatever calls are made and however they interleave: the output is
in the asset store with the reported size and digest and within the bound, and the record was left
by the acceptance of a completion whose worker held the lease and whose manifest attests the
record's request and pinned recipe. -/
theorem completed_sound (cfg : ServiceConfig) {w : World} (hinitial : w.Initial)
    {s : Sys World Action Action.Reply Exc Request Response}
    (hreach : Reaches (coordinator cfg) anySchedule ⟨w, []⟩ s) :
    ∀ j r, s.world.jobs.get? j = some r → r.status = .completed →
      r.OutputStored cfg s.world.assets ∧ CompletedInRun cfg w s j r := by
  have hsafe : ∀ {s}, Reaches (coordinator cfg) anySchedule ⟨w, []⟩ s →
      (completionDiscipline cfg).Safe s := fun hreach =>
    Discipline.safe_of_reaches (Discipline.safe_of_no_calls (.of_initial cfg hinitial)) hreach
  intro j r hget hstatus
  refine ⟨(hsafe hreach).inv.stored j r hget hstatus, ?_⟩
  induction hreach with
  | refl =>
      rw [hinitial.jobs] at hget
      exact absurd hget (by simp)
  | @tail u t hreach hstep ih =>
      have hearlier : u.world.jobs.get? j = some r → CompletedInRun cfg w t j r := by
        intro hget'
        obtain ⟨before, after, c, hbefore, hstep', hafter, hrest⟩ := ih hget'
        exact ⟨before, after, c, hbefore, hstep', hafter.tail hstep, hrest⟩
      rcases (hsafe hreach).step_cases hstep with hworld | ⟨call, hcall, -, honly⟩ | henv
      · exact hearlier (hworld ▸ hget)
      · rcases honly j r hget hstatus with hkept | ⟨c, hcompletion, hjob, haccepted⟩
        · exact hearlier hkept
        · exact ⟨u, t, c, hreach, hstep, .refl, ⟨call, hcall, hcompletion⟩, hjob, haccepted, hget⟩
      · obtain ⟨now, clock, assetOutage, auditOutage, hworld⟩ := henv
        exact hearlier (by rwa [hworld] at hget)

end Invariant

/-- The worker of the small pool publishes its output. -/
def completedRun : Sys World Action Action.Reply Exc Request Response :=
  letI := PyText.ascii
  Sys.serveAll (coordinator smallConfig) ⟨smallWorld, []⟩
    (leasedRequests ++ [.publish smallIdentity smallCapability smallGrant (textOutput "echo")])

theorem completed_sound_of_publish :
    letI := PyText.ascii
    ∃ r, completedRun.world.jobs.get? "job-1" = some r ∧
      r.OutputStored smallConfig completedRun.world.assets ∧
      CompletedInRun smallConfig smallWorld completedRun "job-1" r := by
  let _ := PyText.ascii
  have hreach : Reaches (coordinator smallConfig) anySchedule ⟨smallWorld, []⟩ completedRun := by
    unfold completedRun
    apply reaches_serveAll
    refine .cons (fun _ _ _ => trivial) (World.presents_of_no_token rfl) ?_
    refine .cons (fun _ _ _ => trivial) (World.presents_of_no_token rfl) ?_
    refine .cons (fun _ _ _ => trivial) (World.presents_of_no_token rfl) ?_
    refine .cons (fun _ _ _ => trivial) ?_ trivial
    rintro claimToken ⟨⟩
    exact ⟨0, by decide, by decide⟩
  have hstatus : (completedRun.world.jobs.get? "job-1").map JobRecord.status = some .completed := by
    decide +kernel
  obtain ⟨r, hget, hcompleted⟩ := Option.map_eq_some_iff.mp hstatus
  exact ⟨r, hget, completed_sound smallConfig smallWorld_initial hreach "job-1" r hget hcompleted⟩

end GpuWorkerPool
