import GpuWorkerPool.Interference
import GpuWorkerPool.StoreRenaming

/-!
Claim tokens reach nobody but the lease holder. Two runs of the coordinator whose tokens have other
names are the same run under a renaming of the server: apart from the token inside a lease grant,
no answer, no error and no audit row tells them apart.
-/

namespace GpuWorkerPool

open Base WorkerPoolService

variable (ρ : String → String)

/-! ### Renaming the world and its actions -/

/-- The same world, whose tokens have other names. -/
def World.rename (w : World) : World :=
  { w with
    jobs := w.jobs.rename ρ, tokens := ρ ∘ w.tokens,
    accepted := w.accepted.map (JobStoreCall.rename ρ) }

namespace Action

def rename : Action → Action
  | jobs call => jobs (call.rename ρ)
  | action => action

def renameReply : (action : Action) → action.Reply → (action.rename ρ).Reply
  | jobs call, reply => call.renameReply ρ reply
  | assets _, reply => reply
  | registry _, reply => reply
  | audit .., reply => reply
  | auditForJob _, reply => reply
  | clock, reply => reply

/-- The action neither presents nor returns a claim token. -/
def TokenFree : Action → Prop
  | jobs call => call = .expireExhausted ∨ call = .queueDepth ∨ ∃ jobId, call = .cancel jobId
  | _ => True

end Action

/-- Other names for the claim tokens in actions and replies. -/
def tokenRenaming : Renaming Action Action.Reply := ⟨Action.rename ρ, Action.renameReply ρ⟩

namespace JobStoreCall

theorem draws_rename (call : JobStoreCall) (reply : call.Reply) :
    (call.rename ρ).draws (call.renameReply ρ reply) = call.draws reply := by
  cases call with
  | lease query => exact Option.isSome_map
  | _ => rfl

theorem accepts_rename (call : JobStoreCall) (reply : call.Reply) :
    (call.rename ρ).accepts (call.renameReply ρ reply) = call.accepts reply := by
  cases call <;> rfl

end JobStoreCall

variable {ρ} in
theorem Action.exec_rename [PyText] (hρ : Function.Injective ρ) (action : Action) (w : World) :
    (action.rename ρ).exec (w.rename ρ) =
      ((action.exec w).1.rename ρ, action.renameReply ρ (action.exec w).2) := by
  cases action with
  | jobs call =>
      have hexec : (call.rename ρ).exec (w.rename ρ).now (w.rename ρ).nextToken (w.rename ρ).jobs =
          _ := call.exec_rename hρ w.now w.nextToken w.jobs
      simp only [Action.rename, Action.exec, hexec, JobStoreCall.draws_rename,
        JobStoreCall.accepts_rename]
      refine Prod.ext ?_ rfl
      show World.mk .. = World.mk ..
      congr 1
      show (if _ then w.accepted.map _ ++ [call.rename ρ] else w.accepted.map _) =
        List.map _ (if _ then w.accepted ++ [call] else w.accepted)
      split
      · rw [List.map_append]
        rfl
      · rfl
  | assets call =>
      simp only [Action.rename, Action.exec, World.rename]
      split <;> rfl
  | registry call => rfl
  | audit eventType workerId jobId detail =>
      simp only [Action.rename, Action.exec, World.rename]
      split <;> rfl
  | auditForJob jobId => rfl
  | clock => rfl

/-! ### Renaming requests and answers -/

def LeaseGrant.rename (grant : LeaseGrant) : LeaseGrant :=
  { grant with claimToken := ρ grant.claimToken }

/-- The same request, with the claim token it presents renamed. -/
def Request.rename : Request → Request
  | jobHeartbeat identity jobId claimToken progressPercent =>
      jobHeartbeat identity jobId (ρ claimToken) progressPercent
  | complete identity jobId claimToken manifest =>
      complete identity jobId (ρ claimToken) manifest
  | fail identity jobId claimToken reason retryable failureCode =>
      fail identity jobId (ρ claimToken) reason retryable failureCode
  | release identity jobId claimToken reason => release identity jobId (ρ claimToken) reason
  | publish identity capability grant output =>
      publish identity capability (grant.rename ρ) output
  | request => request

/-- The same answer; only a lease grant shows a token. -/
def Response.rename : Response → Response
  | grant lease => grant (lease.map (LeaseGrant.rename ρ))
  | response => response

section Programs

variable {ρ} {α : Type}

theorem Action.tokenFree_fixed (action : Action) (h : action.TokenFree) :
    action.rename ρ = action ∧ ∀ reply, HEq (action.renameReply ρ reply) reply := by
  rcases action with call | call | call | _ | _ | _
  · rcases h with rfl | rfl | ⟨jobId, rfl⟩ <;> exact ⟨rfl, fun _ => HEq.rfl⟩
  all_goals exact ⟨rfl, fun _ => HEq.rfl⟩

/-- A coroutine that neither presents nor sees a token runs the same under the new names. -/
theorem renames_tokenFree {p : Coroutine α} (hp : p.Awaits Action.TokenFree) :
    p.Renames (tokenRenaming ρ) id p :=
  Prog.renames_self Action.tokenFree_fixed hp
    (Prog.ends_of_forall (fun res => by cases res <;> rfl) p)

theorem renames_jobStore (call : JobStoreCall) :
    (jobStore call).Renames (tokenRenaming ρ) (call.renameReply ρ) (jobStore (call.rename ρ)) :=
  ⟨.ret, rfl, fun _ => rfl⟩

theorem renames_ownedJob (cfg : ServiceConfig) (identity : WorkerIdentity) (jobId : String) :
    (ownedJob cfg identity jobId).Renames (tokenRenaming ρ) (JobRecord.rename ρ)
      (ownedJob cfg identity jobId) := by
  refine .bind (renames_tokenFree (awaits_approvedEnrollment cfg trivial)) fun _ => ?_
  refine .bind (renames_jobStore (.get jobId)) fun record => ?_
  cases record with
  | none => rfl
  | some record => exact .ite rfl rfl

/-- The last part of a call under a lease shows no token. -/
theorem renames_settle (accepted : Bool) (eventType : AuditEventType)
    (workerId jobId : Option String) (detail : List (String × JsonValue)) (error : Exc) :
    (if accepted then recordAudit eventType workerId jobId detail
      else throw error : Coroutine Unit).Renames (tokenRenaming ρ) id
      (if accepted then recordAudit eventType workerId jobId detail else throw error) :=
  .ite (renames_tokenFree (awaits_recordAudit trivial)) rfl

theorem renames_grantLease (cfg : ServiceConfig) (identity : WorkerIdentity) (leaseSeconds : Int)
    (job : JobRecord) :
    (grantLease cfg identity leaseSeconds job).Renames (tokenRenaming ρ)
      (Option.map (LeaseGrant.rename ρ)) (grantLease cfg identity leaseSeconds (job.rename ρ)) := by
  rw [grantLease, grantLease]
  cases hclaim : job.claimToken with
  | none =>
      have hclaim' : (job.rename ρ).claimToken = none := congrArg (Option.map ρ) hclaim
      rw [hclaim']
      rfl
  | some claimToken =>
      have hclaim' : (job.rename ρ).claimToken = some (ρ claimToken) :=
        congrArg (Option.map ρ) hclaim
      rw [hclaim']
      refine .bind (renames_tokenFree ⟨trivial, fun _ => trivial⟩) fun now => ?_
      refine .bind (renames_tokenFree (awaits_readGrants _ _ fun _ => trivial)) fun grants => ?_
      refine .bind (renames_tokenFree (awaits_assetStore trivial)) fun url => ?_
      exact .bind (renames_tokenFree (awaits_recordAudit trivial)) fun _ => rfl

theorem renames_leaseApproved (cfg : ServiceConfig) (identity : WorkerIdentity)
    (capabilityIds : List String) (leaseSeconds : Option Int) :
    (leaseApproved cfg identity capabilityIds leaseSeconds).Renames (tokenRenaming ρ)
      (Option.map (LeaseGrant.rename ρ))
      (leaseApproved cfg identity capabilityIds leaseSeconds) := by
  refine .bind (renames_tokenFree (awaits_workerRegistry trivial)) fun worker => ?_
  cases worker with
  | none => rfl
  | some worker =>
      refine .ite rfl (.ite rfl (.ite rfl ?_))
      refine .bind (renames_tokenFree (awaits_jobStore (Or.inl rfl))) fun _ => ?_
      refine .bind (renames_jobStore (.lease _)) fun job => ?_
      cases job with
      | none => exact .bind (renames_tokenFree (awaits_recordAudit trivial)) fun _ => rfl
      | some job => exact renames_grantLease cfg identity _ job

theorem renames_complete (cfg : ServiceConfig) (identity : WorkerIdentity)
    (jobId claimToken : String) (manifest : OutputManifest) :
    (complete cfg identity jobId claimToken manifest).Renames (tokenRenaming ρ) id
      (complete cfg identity jobId (ρ claimToken) manifest) := by
  refine .bind (renames_ownedJob cfg identity jobId) fun record => ?_
  refine .bind (.handle (renames_tokenFree (awaits_verifyOutput cfg record manifest
    fun _ => trivial)) fun error => ?_) fun _ => ?_
  · cases error with
    | completionRejected reason =>
        refine .bind (renames_jobStore (.fail _ claimToken _ _ _ _)) fun _ => ?_
        exact .bind (renames_tokenFree (awaits_recordAudit trivial)) fun _ => rfl
    | _ => rfl
  · refine .bind (renames_jobStore (.complete _ claimToken _ _ _ _)) fun accepted => ?_
    exact renames_settle accepted _ _ _ _ _

theorem Request.awaits_tokenFree {cfg : ServiceConfig} {request : Request}
    (hfree : ∀ call, request.JobCalls cfg call → (Action.jobs call).TokenFree) :
    (request.program cfg).Awaits Action.TokenFree := by
  refine (request.awaits_jobCalls cfg).mono ?_
  rintro (call | _ | _ | _ | _ | _) hcall
  · exact hfree call hcall
  all_goals trivial

theorem Request.renames_program (cfg : ServiceConfig) (request : Request) :
    (request.program cfg).Renames (tokenRenaming ρ) (Response.rename ρ)
      ((request.rename ρ).program cfg) := by
  cases request with
  | submit submission =>
      refine .bind (f := id) ?_ fun _ => rfl
      rw [WorkerPoolService.submit]
      split
      · rfl
      · refine .bind (renames_jobStore (.submit submission)) fun reply => ?_
        refine .bind (Prog.renames_ofExcept rfl) fun result => ?_
        rfl
  | get jobId =>
      refine .bind (f := id) ?_ fun _ => rfl
      refine .bind (renames_jobStore (.get jobId)) fun record => ?_
      cases record <;> rfl
  | cancel jobId =>
      exact .bind (renames_tokenFree (awaits_jobStore (Or.inr (Or.inr ⟨_, rfl⟩)))) fun _ => rfl
  | listForTenant tenantId =>
      refine .bind (f := id) ?_ fun _ => rfl
      refine .bind (renames_jobStore (.listForTenant tenantId)) fun records => ?_
      exact congrArg Prog.ret List.map_map
  | lease identity capabilityIds leaseSeconds =>
      refine .bind (.bind (renames_tokenFree (awaits_approvedEnrollment cfg trivial))
        fun _ => ?_) fun _ => rfl
      exact renames_leaseApproved cfg identity capabilityIds leaseSeconds
  | jobHeartbeat identity jobId claimToken progressPercent =>
      refine .bind (f := id) (.bind (renames_ownedJob cfg identity jobId) fun record => ?_)
        fun _ => rfl
      refine .bind (renames_jobStore (.heartbeat _ claimToken _ _)) fun accepted => ?_
      refine .ite ?_ rfl
      refine .bind (renames_tokenFree (awaits_recordAudit trivial)) fun _ => ?_
      exact .bind (renames_tokenFree ⟨trivial, fun _ => trivial⟩) fun _ => rfl
  | complete identity jobId claimToken manifest =>
      exact .bind (renames_complete cfg identity jobId claimToken manifest) fun _ => rfl
  | fail identity jobId claimToken reason retryable failureCode =>
      refine .bind (f := id) (.bind (renames_ownedJob cfg identity jobId) fun record => ?_)
        fun _ => rfl
      refine .bind (renames_jobStore (.fail _ claimToken _ _ _ _)) fun accepted => ?_
      exact renames_settle accepted _ _ _ _ _
  | release identity jobId claimToken reason =>
      refine .bind (f := id) (.bind (renames_ownedJob cfg identity jobId) fun record => ?_)
        fun _ => rfl
      refine .ite ?_ ?_
      · refine .bind (renames_jobStore (.fail _ claimToken _ _ _ _)) fun accepted => ?_
        exact renames_settle accepted _ _ _ _ _
      · refine .bind (renames_jobStore (.release _ claimToken _)) fun accepted => ?_
        exact renames_settle accepted _ _ _ _ _
  | publish identity capability grant output =>
      refine .bind (f := id) (.bind (renames_tokenFree (awaits_upload _ _ _ fun _ => trivial))
        fun _ => ?_) fun _ => rfl
      exact renames_complete cfg identity grant.jobId grant.claimToken _
  | queueDepth =>
      exact Prog.renames_self Action.tokenFree_fixed
        (Request.awaits_tokenFree fun _ hcall => Or.inr (Or.inl hcall))
        (Prog.ends_bind (fun _ => rfl) _ fun _ => rfl)
  | setWorkerStatus _ _ | listWorkers | workerViews _ _ _ | auditForJob _ | enrollWorker _ _
  | registerHeartbeat _ _ | upload _ _ _ =>
      exact Prog.renames_self Action.tokenFree_fixed
        (Request.awaits_tokenFree fun _ hcall => hcall.elim)
        (Prog.ends_bind (fun _ => rfl) _ fun _ => rfl)

end Programs

/-! ### Two runs -/

/-- What an answer shows to anyone but the holder of the lease. -/
def Response.withoutToken : Response → Response
  | grant lease => grant (lease.map fun grant => { grant with claimToken := "" })
  | response => response

/-- The error or the answer of a call, without the token of a lease grant. -/
def disclosed (call : Call Action Action.Reply Exc Request Response) :
    Option (Except Exc Response) :=
  call.answer?.map (Except.map Response.withoutToken)

/-- The clocks and the backing services change, the rest of the world does not. -/
def ChangesOutside (change : World → World) : Prop :=
  ∃ now clock assetOutage auditOutage, ∀ w, change w =
    { w with now := now, clock := clock, assetOutage := assetOutage, auditOutage := auditOutage }

section Runs

variable {ρ} [PyText] (cfg : ServiceConfig)

/-- The coordinator under other names for its tokens. -/
def coordinatorRenaming (hρ : Function.Injective ρ) : ServerRenaming (coordinator cfg) where
  toRenaming := tokenRenaming ρ
  world := World.rename ρ
  request := Request.rename ρ
  response := Response.rename ρ
  exec := Action.exec_rename hρ
  program := Request.renames_program cfg

omit [PyText] in
theorem ChangesOutside.rename {change : World → World} (h : ChangesOutside change) (w : World) :
    change (w.rename ρ) = (change w).rename ρ := by
  obtain ⟨now, clock, assetOutage, auditOutage, hchange⟩ := h
  rw [hchange, hchange]
  rfl

theorem disclosed_rename {hρ : Function.Injective ρ}
    {c d : Call Action Action.Reply Exc Request Response}
    (h : (coordinatorRenaming cfg hρ).SameCall c d) : disclosed d = disclosed c := by
  rw [disclosed, disclosed, h.answer, Option.map_map]
  refine congrFun (congrArg _ (funext fun answer => ?_)) _
  rcases answer with error | (_ | _ | _ | _ | _ | _ | _ | _ | lease | _ | _)
  case ok.grant =>
    refine congrArg (Except.ok ∘ Response.grant) ?_
    rw [Option.map_map]
    rfl
  all_goals rfl

/-- By the same schedule, from worlds that differ in the names of their tokens only, both runs give
the same errors, the same answers but for the tokens in lease grants, and the same audit log. -/
theorem tokens_undisclosed (hρ : Function.Injective ρ) (w : World)
    (moves : List (Move World Request))
    (houtside : ∀ change, .env change ∈ moves → ChangesOutside change) :
    let run := Sys.play (coordinator cfg) ⟨w, []⟩ moves
    let run' := Sys.play (coordinator cfg) ⟨w.rename ρ, []⟩
      (moves.map (Move.map (Request.rename ρ)))
    run'.calls.map disclosed = run.calls.map disclosed ∧
      run'.world.auditLog = run.world.auditLog := by
  intro run run'
  have hstart : (coordinatorRenaming cfg hρ).SameSystem ⟨w, []⟩ ⟨w.rename ρ, []⟩ := ⟨rfl, .nil⟩
  have hsame : (coordinatorRenaming cfg hρ).SameSystem run run' :=
    hstart.play fun change hchange => (houtside change hchange).rename
  constructor
  · have hcalls : List.Forall₂ (fun d c => disclosed d = disclosed c) run'.calls run.calls :=
      (hsame.calls.imp fun c d h => disclosed_rename cfg h).flip
    rw [← List.forall₂_eq_eq_eq, List.forall₂_map_left_iff, List.forall₂_map_right_iff]
    exact hcalls
  · show run'.world.auditLog = (run.world.rename ρ).auditLog
    exact congrArg World.auditLog hsame.world

end Runs

/-- A worker leases a job and reports a heartbeat, while the host looks on. -/
def watchedMoves : List (Move World Request) :=
  List.flatten [
    [.begin (.registerHeartbeat smallIdentity smallRegistration)], List.replicate 3 (.advance 0),
    [.begin (.submit echoJob), .advance 1],
    [.begin (.lease smallIdentity ["test.deterministic.echo.v1"] none)],
    List.replicate 7 (.advance 2), [.begin (.get "job-1"), .advance 3],
    [.begin (.jobHeartbeat smallIdentity "job-1" "t" (some 10))], List.replicate 5 (.advance 4),
    [.begin (.get "job-1"), .advance 5]]

/-- The names of the tokens in the second run. -/
def otherToken (token : String) : String := "secret-" ++ token

theorem otherToken_injective : Function.Injective otherToken := fun _ _ h =>
  (String.append_right_inj _).mp h

def watchedRun : Sys World Action Action.Reply Exc Request Response :=
  letI := PyText.ascii
  Sys.play (coordinator smallConfig) ⟨smallWorld, []⟩ watchedMoves

def renamedRun : Sys World Action Action.Reply Exc Request Response :=
  letI := PyText.ascii
  Sys.play (coordinator smallConfig) ⟨smallWorld.rename otherToken, []⟩
    (watchedMoves.map (Move.map (Request.rename otherToken)))

theorem watched_leases :
    watchedRun.world.jobs.LiveFor "job-1" "t" ∧
      renamedRun.world.jobs.LiveFor "job-1" "secret-t" ∧ ¬ watchedRun.Busy := by
  decide +kernel

/-- The leases of the two runs differ, and the host sees the same. -/
theorem tokens_undisclosed_watched :
    (renamedRun.calls.map disclosed = watchedRun.calls.map disclosed ∧
      renamedRun.world.auditLog = watchedRun.world.auditLog) ∧
      watchedRun.world.jobs.LiveFor "job-1" "t" ∧
      renamedRun.world.jobs.LiveFor "job-1" "secret-t" := by
  have hmoves : ∀ change, .env change ∈ watchedMoves → ChangesOutside change := by
    intro change hchange
    simp [watchedMoves] at hchange
  have hsame := @tokens_undisclosed otherToken PyText.ascii smallConfig otherToken_injective
    smallWorld watchedMoves hmoves
  rw [watchedRun, renamedRun]
  exact ⟨hsame, watched_leases.1, watched_leases.2.1⟩

end GpuWorkerPool
