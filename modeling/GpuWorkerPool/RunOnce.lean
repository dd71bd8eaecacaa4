import GpuWorkerPool.Base.Environment
import GpuWorkerPool.SettleRoutes

/-!
One round of an agent against the coordinator. Each request of the agent runs a route of the
coordinator, whose awaits interleave with whatever else goes on there, is refused before its body is
read, or is lost. What the agent does to files, GPUs and plugins may take any time. As long as what
the plugin hands over fits the bodies that carry it, a round that served a job leaves it with the
lease over, unless the request that was to end it was refused: a failure and a release are sent
once, and their status is not looked at.
-/

namespace GpuWorkerPool

open Base WorkerPoolService

/-! ### The round -/

/-- An agent with what it announces of itself. -/
structure PollingAgent extends WorkerAgent where
  workerId : String
  tenantId : Option String := none
  gpuModel : Option String := none
  vramMb : Option Int := none
  runtimeVersions : Dict String String := Table.empty
  leaseSeconds : Int := 1200

inductive PollAction where
  | sampleGpus
  | heartbeat (registration : WorkerRegistration)
  | lease (capabilityIds : List String) (leaseSeconds : Int)
  | serving (action : AgentAction)

def PollAction.Reply : PollAction → Type
  | sampleGpus => List GpuTelemetry
  | heartbeat _ => Except AgentExc Nat
  | lease .. => Except AgentExc LeaseAnswer
  | serving action => action.Reply

abbrev PollCoroutine := Prog PollAction PollAction.Reply AgentExc

/-- `response.raise_for_status()` -/
def raiseForAnswer (status : Nat) : PollCoroutine Unit :=
  if status / 100 = 2 then pure () else throw (.raised "HTTPStatusError")

namespace PollingAgent

/-- The body of a heartbeat of an agent that serves no job. -/
def registration (agent : PollingAgent) (draining : Bool) (gpus : List GpuTelemetry) :
    WorkerRegistration where
  workerId := agent.workerId
  capabilities := agent.served.rows.map fun row => row.2.capability
  tenantId := agent.tenantId
  gpuModel := agent.gpuModel
  vramMb := agent.vramMb
  runtimeVersions := agent.runtimeVersions
  draining := draining
  gpus := gpus

def heartbeat (agent : PollingAgent) (draining : Bool) : PollCoroutine Unit :=
  .await .sampleGpus fun gpus =>
    .await (.heartbeat (agent.registration draining gpus)) fun answered => do
      let status ← Prog.ofExcept answered
      raiseForAnswer status

def capabilityIds (agent : PollingAgent) : List String := agent.served.rows.map Prod.fst

/-- What `run_once` does with the response to its lease request. -/
def serveAnswer (agent : PollingAgent) : LeaseAnswer → PollCoroutine AgentOutcome
  | .noContent => pure .idle
  | .refused _ => throw (.raised "HTTPStatusError")
  | .granted lease =>
      (agent.toWorkerAgent.serve lease).translate fun action => .await (.serving action) .ret

/-- `run_once` -/
def runOnce (agent : PollingAgent) : PollCoroutine AgentOutcome := do
  heartbeat agent false
  .await (.lease agent.capabilityIds agent.leaseSeconds) fun answered => do
    let answer ← Prog.ofExcept answered
    agent.serveAnswer answer

end PollingAgent

/-! ### The system around it -/

/-- The coordinator's world, and the grant that the agent was answered with. -/
structure Session where
  world : World
  given : Option LeaseGrant := none
  /-- A request that the agent takes for the end of that lease was refused before it was read. -/
  unheard : Bool := false

/-- The exception has a text, or else a type name, that a release or a rejection can carry. -/
def AgentExc.Named : AgentExc → Prop
  | pluginRequestRejected text => text ≠ ""
  | error => error.typeName ≠ ""

def LeaseAnswer.grant? : LeaseAnswer → Option LeaseGrant
  | granted grant => some grant
  | _ => none

/-- The diagnostics that the request carries, which the client refuses to send when they hold a
number that is not finite. -/
def JobPost.sendable : JobPost → Bool
  | complete _ _ manifest => manifest.diagnostics.value.finite
  | _ => true

section System

variable [PyText]

/-- What a plugin hands over fits the bodies that carry it: the artifact of an execution is within
the bounds of a completion, or cannot be sent at all. -/
def AgentAction.Fits : (action : AgentAction) → action.Reply → Prop
  | .execute .., .ok output => output.FitsBody ∨ ¬ output.diagnostics.value.finite
  | .execute .., .error error => error.Named
  | .mkdir _, .error error => error.Named
  | .download .., .error error => error.Named
  | .readFile _, .error error => error.Named
  | .upload .., .error error => error.Named
  | _, _ => True

/-- A step of anything else in the system. -/
def World.Moves (v w : World) : Prop := (∃ action, w = (Action.exec action v).1) ∨ v.Outside w

variable (cfg : ServiceConfig) (identity : WorkerIdentity) (readPath : String → Option String)

/-- Any number of steps of the others, at whose end the worker is approved. -/
def Meanwhile (v w : World) : Prop :=
  Relation.ReflTransGen World.Moves v w ∧ Approved cfg w identity

/-- The coordinator answers with the value. -/
abbrev Answered {α : Type} (p : Coroutine α) (v : World) (value : α) (w : World) : Prop :=
  Prog.Runs Action.exec (Meanwhile cfg identity) p v (.ok value) w

/-- What the agent awaits while it serves a job. -/
inductive Serves : (action : AgentAction) → Session → action.Reply → Session → Prop
  | posted {call : JobPost} {s : Session} {w : World} {status : Nat} (sendable : call.sendable)
      (answered : Answered cfg identity (call.answer cfg (.ok identity) readPath) s.world status
        w) :
      Serves (.post call) s (.ok status) { s with world := w }
  | refused {call : JobPost} {s : Session} {v w : World} {refusal status : Nat}
      (sendable : call.sendable) (refuses : CallerOf identity (.error refusal))
      (meanwhile : Meanwhile cfg identity s.world v)
      (answered : Answered cfg identity (call.answer cfg (.error refusal) readPath) v status w) :
      Serves (.post call) s (.ok status)
        { s with world := w, unheard := s.unheard || decide (call.Ending status) }
  | unsent {call : JobPost} {s : Session} {w : World} (unsendable : call.sendable = false)
      (meanwhile : Meanwhile cfg identity s.world w) :
      Serves (.post call) s (.error (.raised "ValueError")) { s with world := w }
  /-- The request or its response is lost; what the coordinator made of it is among the steps of
  the others. -/
  | lost {call : JobPost} {s : Session} {w : World} {typeName : String} (named : typeName ≠ "")
      (meanwhile : Meanwhile cfg identity s.world w) :
      Serves (.post call) s (.error (.raised typeName)) { s with world := w }
  | «local» {action : AgentAction} {s : Session} {w : World} {reply : action.Reply}
      (here : ∀ call, action ≠ .post call) (fits : action.Fits reply)
      (meanwhile : Meanwhile cfg identity s.world w) :
      Serves action s reply { s with world := w }

/-- What the agent awaits in a round. -/
inductive Polls : (action : PollAction) → Session → action.Reply → Session → Prop
  | sampled {s : Session} {w : World} {gpus : List GpuTelemetry}
      (meanwhile : Meanwhile cfg identity s.world w) :
      Polls .sampleGpus s gpus { s with world := w }
  | heartbeat {s : Session} {v w : World} {registration : WorkerRegistration} {status : Nat}
      {caller : Except Nat WorkerIdentity} (authenticates : CallerOf identity caller)
      (meanwhile : Meanwhile cfg identity s.world v)
      (answered : Answered cfg identity (answerHeartbeat cfg caller registration) v status w) :
      Polls (.heartbeat registration) s (.ok status) { s with world := w }
  | lease {s : Session} {v w : World} {capabilityIds : List String} {leaseSeconds : Int}
      {caller : Except Nat WorkerIdentity} {answer : LeaseAnswer}
      (authenticates : CallerOf identity caller) (meanwhile : Meanwhile cfg identity s.world v)
      (answered : Answered cfg identity (answerLease cfg caller capabilityIds (some leaseSeconds)) v
        answer w)
      (addressed : ∀ grant, answer.grant? = some grant → grant.Addressed readPath) :
      Polls (.lease capabilityIds leaseSeconds) s (.ok answer) ⟨w, answer.grant?, false⟩
  | heartbeatLost {s : Session} {w : World} {registration : WorkerRegistration}
      {typeName : String} (meanwhile : Meanwhile cfg identity s.world w) :
      Polls (.heartbeat registration) s (.error (.raised typeName)) { s with world := w }
  | leaseLost {s : Session} {w : World} {capabilityIds : List String} {leaseSeconds : Int}
      {typeName : String} (meanwhile : Meanwhile cfg identity s.world w) :
      Polls (.lease capabilityIds leaseSeconds) s (.error (.raised typeName)) { s with world := w }
  | serving {s t : Session} {action : AgentAction} {reply : action.Reply}
      (serves : Serves cfg identity readPath action s reply t) :
      Polls (.serving action) s reply t

variable {cfg identity readPath}

theorem World.Orderly.moves {v w : World} (h : v.Orderly) (hmoves : World.Moves v w) :
    w.Orderly ∧ World.Evolves v w := by
  rcases hmoves with ⟨action, rfl⟩ | houtside
  · exact settleContract_exec h action
  · refine ⟨?_, houtside.evolves⟩
    obtain ⟨now, clock, assetOutage, auditOutage, rfl⟩ := houtside
    exact ⟨h.fresh, h.requests⟩

theorem World.Orderly.meanwhile {v w : World} (h : v.Orderly)
    (hmeanwhile : Meanwhile cfg identity v w) :
    w.Orderly ∧ World.Evolves v w := by
  obtain ⟨hsteps, -⟩ := hmeanwhile
  induction hsteps with
  | refl => exact ⟨h, .refl v⟩
  | tail _ hmoves ih =>
      obtain ⟨hmiddle, hbefore⟩ := ih
      obtain ⟨hend, hafter⟩ := hmiddle.moves hmoves
      exact ⟨hend, hbefore.trans hafter⟩

/-- What is judged of a route holds of each of its answers. -/
theorem of_answered {α : Type} {p : Coroutine α} {v w : World} {value : α}
    {Q : Except Exc α → World → Prop} (hinv : v.Orderly)
    (hsat : Prog.Sat Action.exec (settleContract cfg identity) p v Q)
    (h : Answered cfg identity p v value w) : Q (.ok value) w ∧ w.Orderly ∧ World.Evolves v w := by
  have hadmits : ∀ (action : Action) (s t : World), s.Orderly → Meanwhile cfg identity s t →
      World.Evolves s t ∧ t.Orderly ∧ Approved cfg t identity := by
    intro action s t hs hmeanwhile
    obtain ⟨ht, hevolves⟩ := hs.meanwhile hmeanwhile
    exact ⟨hevolves, ht, hmeanwhile.2⟩
  obtain ⟨hanswer, hend⟩ := Prog.Sat.of_runs h hinv hadmits hsat
  exact ⟨hanswer, hend, (Prog.Sat.of_runs h hinv hadmits (sat_evolves p v)).1⟩

/-! ### Serving the job -/

/-- The worker was answered with the grant, which copies the job while its token opens it. -/
structure Session.Holding (s : Session) (identity : WorkerIdentity) (grant : LeaseGrant) :
    Prop where
  orderly : s.world.Orderly
  given : s.given = some grant
  copied : s.world.GrantCopied identity grant

theorem Session.Holding.evolves {s : Session} {grant : LeaseGrant} (h : s.Holding identity grant)
    {w : World} (hinv : w.Orderly) (hevolves : World.Evolves s.world w) :
    ({ s with world := w } : Session).Holding identity grant :=
  ⟨hinv, h.given, h.copied.evolves hevolves⟩

/-- The worker was answered with the grant, and its lease is over if the request was heard that was
to end it. -/
structure Session.Settled (s : Session) (grant : LeaseGrant) : Prop where
  orderly : s.world.Orderly
  given : s.given = some grant
  leaseOver : s.unheard = false → s.world.Over grant

variable (cfg identity readPath) in
/-- What holds at the end of a run of the agent, wherever its awaits are answered. -/
abbrev AlwaysServes {α : Type} (p : AgentCoroutine α) (s : Session)
    (Q : Except AgentExc α → Session → Prop) : Prop :=
  Prog.Always (Serves cfg identity readPath) p s Q

variable {grant : LeaseGrant}

/-- What is not a request leaves the session as it is, up to what the others do. -/
theorem serves_local {action : AgentAction} (hlocal : ∀ call, action ≠ .post call) {s t : Session}
    {reply : action.Reply} (h : Serves cfg identity readPath action s reply t) :
    action.Fits reply ∧ t.given = s.given ∧ t.unheard = s.unheard ∧
      (s.world.Orderly → t.world.Orderly ∧ World.Evolves s.world t.world) := by
  cases h with
  | posted | refused | unsent | lost => exact absurd rfl (hlocal _)
  | «local» _ fits meanwhile => exact ⟨fits, rfl, rfl, fun hinv => hinv.meanwhile meanwhile⟩

theorem always_local {α : Type} {action : AgentAction} (hlocal : ∀ call, action ≠ .post call)
    {next : action.Reply → AgentCoroutine α} {s : Session} (hs : s.Holding identity grant)
    {Q : Except AgentExc α → Session → Prop}
    (h : ∀ reply t, action.Fits reply → t.Holding identity grant →
      AlwaysServes cfg identity readPath (next reply) t Q) :
    AlwaysServes cfg identity readPath (.await action next) s Q := by
  intro reply t here
  obtain ⟨hfits, hgiven, -, hworld⟩ := serves_local hlocal here
  obtain ⟨hinv, hevolves⟩ := hworld hs.orderly
  exact h reply t hfits ⟨hinv, hgiven.trans hs.given, hs.copied.evolves hevolves⟩

/-- The answer to a request that settles the job, or an error, after which the agent still holds
it. -/
theorem always_post (haddressed : grant.Addressed readPath) {call : JobPost}
    (hcall : call.Settles grant) (hfits : call.sendable → call.Fits grant) {s : Session}
    (hs : s.Holding identity grant) :
    AlwaysServes cfg identity readPath (WorkerAgent.post call) s fun res t =>
      t.Holding identity grant ∧ match res with
        | .ok status => call.Ending status → t.Settled grant
        | .error error => error.Named := by
  intro reply t here
  cases here with
  | posted sendable answered =>
      have hsat : Prog.Sat Action.exec (settleContract cfg identity)
          (call.answer cfg (.ok identity) readPath) s.world _ :=
        sat_answer_settles haddressed hcall (hfits sendable) hs.orderly hs.copied
      obtain ⟨⟨status, hstatus, hending⟩, hinv, hevolves⟩ := of_answered hs.orderly hsat answered
      cases hstatus
      refine ⟨⟨hinv, hs.given, hs.copied.evolves hevolves⟩, fun h => ?_⟩
      exact ⟨hinv, hs.given, fun _ => hending h⟩
  | refused sendable refuses meanwhile answered =>
      obtain ⟨hinv, hevolves⟩ := hs.orderly.meanwhile meanwhile
      rw [JobPost.answer, hcall.1, haddressed.path] at answered
      cases answered
      refine ⟨⟨hinv, hs.given, hs.copied.evolves hevolves⟩, fun h => ?_⟩
      exact ⟨hinv, hs.given, fun hheard => absurd hheard (by simp [h])⟩
  | unsent unsendable meanwhile =>
      obtain ⟨hinv, hevolves⟩ := hs.orderly.meanwhile meanwhile
      refine ⟨⟨hinv, hs.given, hs.copied.evolves hevolves⟩, ?_⟩
      simp [AgentExc.Named, AgentExc.typeName]
  | lost named meanwhile =>
      obtain ⟨hinv, hevolves⟩ := hs.orderly.meanwhile meanwhile
      exact ⟨⟨hinv, hs.given, hs.copied.evolves hevolves⟩, named⟩
  | «local» here _ _ => exact absurd rfl (here call)

omit [PyText] in
theorem lengthWithin_boundedReason {reason : String} (h : reason ≠ "") :
    lengthWithin 1 maxAuditReasonLength (WorkerAgent.boundedReason reason) := by
  have hlength : 1 ≤ reason.length := by
    rw [Nat.one_le_iff_ne_zero]
    exact fun hzero => h (by simpa using hzero)
  rw [lengthWithin, Bool.and_eq_true, decide_eq_true_eq, decide_eq_true_eq,
    WorkerAgent.boundedReason, String.length_ofList, List.length_take, String.length_toList]
  exact ⟨Nat.le_min.mpr ⟨by decide, hlength⟩, Nat.min_le_left _ _⟩

/-- A failure or a release that is heard ends the lease, whatever it is answered with. -/
theorem always_settle (haddressed : grant.Addressed readPath) {call : JobPost}
    (hcall : call.Settles grant) (hfits : call.Fits grant)
    (hending : ∀ status, call.Ending status) (outcome : AgentOutcome) {s : Session}
    (hs : s.Holding identity grant) :
    AlwaysServes cfg identity readPath (WorkerAgent.post call >>= fun _ => pure outcome) s
      fun res t => (∃ outcome, res = .ok outcome) → t.Settled grant := by
  refine Prog.always_bind.mpr ((always_post haddressed hcall (fun _ => hfits) hs).mono ?_)
  intro res t hres
  obtain ⟨-, hanswer⟩ := hres
  cases res with
  | ok status => exact fun _ => hanswer (hending status)
  | error error => exact fun h => absurd h (by simp)

theorem always_reject (haddressed : grant.Addressed readPath) {reason : String}
    (hreason : reason ≠ "") {s : Session} (hs : s.Holding identity grant) :
    AlwaysServes cfg identity readPath (WorkerAgent.reject grant reason) s
      fun res t => (∃ outcome, res = .ok outcome) → t.Settled grant := by
  apply always_settle haddressed
  · exact ⟨rfl, rfl⟩
  · exact lengthWithin_boundedReason hreason
  · exact fun _ => trivial
  · exact hs

/-- A rejection without a text never reaches the service, although the agent counts the job as
rejected: the plugin has to give a reason. -/
theorem answer_of_empty_reason (jobId claimToken : String) (failureCode : JobFailureCode) :
    ∃ status,
      (JobPost.fail jobId claimToken (WorkerAgent.boundedReason "") false failureCode).answer
        cfg (.ok identity) readPath = .ret status := by
  have hempty : lengthWithin 1 maxAuditReasonLength (WorkerAgent.boundedReason "") = false := by
    decide
  rw [JobPost.answer]
  cases readPath (JobPost.fail jobId claimToken _ false failureCode).jobId with
  | none => exact ⟨404, rfl⟩
  | some read =>
      dsimp only
      rw [JobPost.withinBounds, hempty, Bool.and_false, Bool.and_false, if_neg Bool.false_ne_true]
      exact ⟨422, rfl⟩

theorem always_release (haddressed : grant.Addressed readPath) {reason : String}
    (hreason : reason ≠ "") {s : Session} (hs : s.Holding identity grant) :
    AlwaysServes cfg identity readPath (WorkerAgent.release grant reason) s
      fun res t => (∃ outcome, res = .ok outcome) → t.Settled grant := by
  apply always_settle haddressed
  · exact ⟨rfl, rfl⟩
  · exact lengthWithin_boundedReason hreason
  · exact fun _ => trivial
  · exact hs

/-- The agent still holds the job after an error with a text, and the lease is over otherwise. -/
def Attempted {α : Type} (identity : WorkerIdentity) (grant : LeaseGrant) (res : Except AgentExc α)
    (t : Session) : Prop :=
  match res with
  | .ok _ => t.Settled grant
  | .error error => error.Named ∧ t.Holding identity grant

/-- An artifact that fits is either completed or not sent at all, and only a response that ends the
lease is taken for an outcome. -/
theorem always_publish (haddressed : grant.Addressed readPath) {served : ServedCapability}
    (hserved : served.capability.withinBounds) {output : PluginArtifact}
    (houtput : output.FitsBody ∨ ¬ output.diagnostics.value.finite) {s : Session}
    (hs : s.Holding identity grant) :
    AlwaysServes cfg identity readPath (WorkerAgent.publish served grant output) s
      (Attempted identity grant) := by
  refine always_local (fun _ => by simp) hs fun read t hread ht => ?_
  cases read with
  | error error => exact ⟨hread, ht⟩
  | ok content =>
      refine always_local (fun _ => by simp) ht fun uploaded u hupload hu => ?_
      cases uploaded with
      | error error => exact ⟨hupload, hu⟩
      | ok value =>
          have hfits : (JobPost.complete grant.jobId grant.claimToken (outputManifest
              served.capability grant (WorkerAgent.fileOutput output content))).sendable →
                (JobPost.complete grant.jobId grant.claimToken (outputManifest
                  served.capability grant (WorkerAgent.fileOutput output content))).Fits grant := by
            intro hsendable
            have hbody : output.FitsBody := houtput.resolve_right fun h => h hsendable
            exact ⟨served.capability, output, content, hserved, hbody, rfl⟩
          show Prog.Always _ (WorkerAgent.post _ >>= _) u _
          refine Prog.always_bind.mpr ((always_post haddressed ⟨rfl, rfl⟩ hfits hu).mono ?_)
          intro res v hres
          obtain ⟨hv, hanswer⟩ := hres
          cases res with
          | error error => exact ⟨hanswer, hv⟩
          | ok status =>
              dsimp only
              split_ifs with hfailed hcompleted
              · exact hanswer (Or.inr hfailed)
              · exact hanswer (Or.inl hcompleted)
              · exact ⟨by simp [AgentExc.Named, AgentExc.typeName], hv⟩

theorem always_downloadGrants {agent : WorkerAgent} {inputs : PosixPath} (grants : List AssetGrant)
    (paths : Dict String PosixPath) {s : Session} (hs : s.Holding identity grant) :
    AlwaysServes cfg identity readPath (agent.downloadGrants inputs grants paths) s
      fun res t => t.Holding identity grant ∧ ∀ error, res = .error error → error.Named := by
  induction grants generalizing paths s with
  | nil => exact ⟨hs, fun error h => absurd h (by simp)⟩
  | cons first rest ih =>
      refine always_local (fun _ => by simp) hs fun reply t hreply ht => ?_
      cases reply with
      | error error =>
          refine ⟨ht, fun error' h => ?_⟩
          cases h
          exact hreply
      | ok written =>
          show Prog.Always _ (if _ then _ else _) t _
          split_ifs
          · refine ⟨ht, fun error h => ?_⟩
            cases h
            simp [AgentExc.Named, AgentExc.typeName]
          · exact ih _ ht

theorem always_downloadInputs {agent : WorkerAgent} {workspace : PosixPath} {s : Session}
    (hs : s.Holding identity grant) :
    AlwaysServes cfg identity readPath (agent.downloadInputs grant workspace) s
      fun res t => t.Holding identity grant ∧ ∀ error, res = .error error → error.Named := by
  refine always_local (fun _ => by simp) hs fun _ t _ ht => ?_
  refine always_local (fun _ => by simp) ht fun made u hmade hu => ?_
  cases made with
  | error error =>
      refine ⟨hu, fun error' h => ?_⟩
      cases h
      exact hmade
  | ok value => exact always_downloadGrants _ _ hu

theorem always_attempt (haddressed : grant.Addressed readPath) {agent : WorkerAgent}
    {served : ServedCapability} (hserved : served.capability.withinBounds)
    {request : ValidatedRequest} {s : Session} (hs : s.Holding identity grant) :
    AlwaysServes cfg identity readPath (agent.attempt served grant request) s
      (Attempted identity grant) := by
  refine Prog.always_bind.mpr ((always_downloadInputs hs).mono ?_)
  intro res t hres
  obtain ⟨ht, herror⟩ := hres
  cases res with
  | error error => exact ⟨herror error rfl, ht⟩
  | ok inputPaths =>
      refine always_local (fun _ => by simp) ht fun now u _ hu => ?_
      refine always_local (fun _ => by simp) hu fun executed v hexecuted hv => ?_
      cases executed with
      | error error => exact ⟨hexecuted, hv⟩
      | ok output => exact always_publish haddressed hserved hexecuted hv

/-- Every exception but a cancellation leads to a rejection or to a release. -/
theorem always_afterFailure (haddressed : grant.Addressed readPath) {error : AgentExc}
    (herror : error.Named) {s : Session} (hs : s.Holding identity grant) :
    AlwaysServes cfg identity readPath (WorkerAgent.afterFailure grant error) s
      fun res t => (∃ outcome, res = .ok outcome) → t.Settled grant := by
  cases error with
  | pluginRequestRejected text => exact always_reject haddressed herror hs
  | cancelledError => exact fun h => absurd h (by simp)
  | transferError _ | osError _ | raised _ =>
      exact always_release haddressed herror hs

/-- Removing the workspace gives no lease back. -/
theorem always_rmtree {path : PosixPath} {s : Session} {res : Except AgentExc AgentOutcome}
    (h : (∃ outcome, res = .ok outcome) → s.Settled grant) :
    AlwaysServes cfg identity readPath (.await (.rmtree path) Prog.ret) s fun cleaned t =>
      match cleaned with
      | .ok _ => (∃ outcome, res = .ok outcome) → t.Settled grant
      | .error error => (∃ outcome, (.error error : Except AgentExc AgentOutcome) = .ok outcome) →
          t.Settled grant := by
  intro reply t here hok
  obtain ⟨-, hgiven, hunheard, hworld⟩ := serves_local (fun _ => by simp) here
  obtain ⟨hinv, hevolves⟩ := hworld (h hok).orderly
  refine ⟨hinv, hgiven.trans (h hok).given, fun hheard => ?_⟩
  exact ((h hok).leaseOver (hunheard.symm.trans hheard)).evolves hevolves

/-- What the plugins of an agent reject carries a text. -/
def WorkerAgent.GivesReasons (agent : WorkerAgent) : Prop :=
  ∀ capabilityId served, agent.served.lookup capabilityId = some served →
    ∀ lease text, served.validate lease = .error (.pluginRequestRejected text) → text ≠ ""

theorem always_serve (haddressed : grant.Addressed readPath) {agent : WorkerAgent}
    (hreasons : agent.GivesReasons)
    (hserved : ∀ capabilityId served, agent.served.lookup capabilityId = some served →
      served.capability.withinBounds) {s : Session} (hs : s.Holding identity grant) :
    AlwaysServes cfg identity readPath (agent.serve grant) s
      fun res t => (∃ outcome, res = .ok outcome) → t.Settled grant := by
  rw [WorkerAgent.serve]
  cases hlookup : agent.served.lookup grant.capabilityId with
  | none => exact always_reject haddressed (by decide) hs
  | some served =>
      dsimp only
      cases hvalidate : served.validate grant with
      | error error =>
          cases error with
          | pluginRequestRejected text =>
              have htext := hreasons _ _ hlookup grant text hvalidate
              exact always_reject haddressed htext hs
          | _ => exact fun h => absurd h (by simp)
      | ok request =>
          dsimp only
          split_ifs
          · exact always_release haddressed (by decide) hs
          · apply Prog.Always.ensure
            apply Prog.always_handle.mpr
            refine (always_attempt haddressed (hserved _ _ hlookup) hs).mono ?_
            intro res t hres
            cases res with
            | ok outcome => exact always_rmtree fun _ => hres
            | error error =>
                exact (always_afterFailure haddressed hres.1 hres.2).mono
                  fun _ _ hu => always_rmtree hu

/-! ### The whole round -/

omit [PyText] in
theorem capability_withinBounds {r : WorkerRegistration} (h : r.withinBounds)
    {capability : WorkerCapability} (hmem : capability ∈ r.capabilities) :
    capability.withinBounds := by
  have hall : r.capabilities.all WorkerCapability.withinBounds := by
    rw [WorkerRegistration.withinBounds] at h
    grind
  exact List.all_eq_true.mp hall capability hmem

/-- A heartbeat outside its bounds is not taken. -/
theorem withinBounds_of_answered {registration : WorkerRegistration} {v w : World} {status : Nat}
    {caller : Except Nat WorkerIdentity} (hcaller : CallerOf identity caller)
    (h : Answered cfg identity (answerHeartbeat cfg caller registration) v status w)
    (hstatus : status / 100 = 2) : registration.withinBounds := by
  rcases hcaller.cases with rfl | ⟨refusal, rfl, hrefusal⟩
  · by_contra hbounds
    rw [answerHeartbeat, if_neg hbounds] at h
    cases h
    exact absurd hstatus (by decide)
  · cases h
    exact absurd hstatus hrefusal

/-- The grant that a lease request is answered with copies the job. -/
theorem sat_answerLease {caller : Except Nat WorkerIdentity} (hcaller : CallerOf identity caller)
    (capabilityIds : List String) (leaseSeconds : Option Int) (w : World) :
    Prog.Sat Action.exec (settleContract cfg identity)
      (answerLease cfg caller capabilityIds leaseSeconds) w fun res v =>
        ∀ answer grant, res = .ok answer → answer.grant? = some grant →
          v.GrantCopied identity grant := by
  rcases hcaller.cases with rfl | ⟨refusal, rfl, -⟩
  swap
  · intro answer grant hanswer hgrant
    cases hanswer
    cases hgrant
  rw [answerLease]
  split_ifs
  · refine Prog.sat_handle.mpr (Prog.sat_bind.mpr ((sat_lease_copied
      (leasesUnder_settle cfg identity) cfg identity capabilityIds leaseSeconds w).mono ?_))
    intro res v hcopied
    cases res with
    | error error =>
        intro answer grant hanswer hgrant
        cases hanswer
        cases hgrant
    | ok grant? =>
        intro answer grant hanswer hgrant
        cases hanswer
        cases grant? with
        | none => cases hgrant
        | some granted =>
            cases hgrant
            obtain ⟨hissued, hcopies⟩ := hcopied granted rfl
            refine ⟨hissued, fun r hheld => ?_⟩
            obtain ⟨hheld, hworker, hkey, hidempotency, hdigest, hurl⟩ := hcopies r hheld
            exact ⟨hheld, hworker, hkey, hidempotency, hdigest, hurl⟩
  · intro answer grant hanswer hgrant
    cases hanswer
    cases hgrant

/-- After a heartbeat that was taken, every capability of the agent is within the bounds. -/
theorem always_heartbeat (agent : PollingAgent) (draining : Bool) {s : Session}
    (hinv : s.world.Orderly) :
    Prog.Always (Polls cfg identity readPath) (agent.heartbeat draining) s fun res t =>
      t.world.Orderly ∧ (res = .ok () → ∀ capabilityId served,
        agent.served.lookup capabilityId = some served → served.capability.withinBounds) := by
  intro gpus t hsampled
  cases hsampled with
  | sampled meanwhile =>
      obtain ⟨hmiddle, -⟩ := hinv.meanwhile meanwhile
      intro answered u hheartbeat
      cases hheartbeat with
      | heartbeatLost meanwhile =>
          exact ⟨(hmiddle.meanwhile meanwhile).1, fun h => absurd h (by simp)⟩
      | heartbeat authenticates meanwhile answered =>
          obtain ⟨hread, -⟩ := hmiddle.meanwhile meanwhile
          obtain ⟨-, hend, -⟩ := of_answered hread (sat_evolves _ _) answered
          show Prog.Always _ (if _ then _ else _) _ _
          split_ifs with hstatus
          · refine ⟨hend, fun _ capabilityId served hlookup => ?_⟩
            have hbounds := withinBounds_of_answered authenticates answered hstatus
            have hmem : served.capability ∈ agent.served.rows.map fun row => row.2.capability :=
              List.mem_map_of_mem (Dict.lookup_eq_some_iff.mp hlookup)
            exact capability_withinBounds hbounds hmem
          · exact ⟨hend, fun h => absurd h (by simp)⟩

/-- The answer to a lease request is served to its end. -/
theorem always_serveAnswer {agent : PollingAgent} (hreasons : agent.toWorkerAgent.GivesReasons)
    (hserved : ∀ capabilityId served, agent.served.lookup capabilityId = some served →
      served.capability.withinBounds) {answer : LeaseAnswer} {s : Session}
    (hgiven : s.given = answer.grant?) (hinv : s.world.Orderly)
    (hgrant : ∀ grant, answer.grant? = some grant →
      grant.Addressed readPath ∧ s.world.GrantCopied identity grant) :
    Prog.Always (Polls cfg identity readPath) (agent.serveAnswer answer) s fun res t =>
      ∀ outcome, res = .ok outcome → outcome ≠ .idle → ∃ grant, t.Settled grant := by
  cases answer with
  | noContent =>
      intro outcome houtcome hidle
      cases houtcome
      exact absurd rfl hidle
  | refused status => exact fun outcome houtcome => absurd houtcome (by simp)
  | granted lease =>
      obtain ⟨haddressed, hcopied⟩ := hgrant lease rfl
      have hserve : AlwaysServes cfg identity readPath (agent.toWorkerAgent.serve lease) s _ :=
        always_serve haddressed hreasons hserved ⟨hinv, hgiven, hcopied⟩
      refine Prog.Always.translate ?_
        (hserve.mono fun res t h outcome houtcome _ => ⟨lease, h ⟨outcome, houtcome⟩⟩)
      intro action v reply t here
      cases here with
      | serving serves => exact ⟨reply, rfl, serves⟩

/-- A round of the agent that ends with a job served leaves no lease behind that it still holds. -/
theorem always_runOnce {agent : PollingAgent} (hreasons : agent.toWorkerAgent.GivesReasons)
    {s : Session} (hinv : s.world.Orderly) :
    Prog.Always (Polls cfg identity readPath) agent.runOnce s fun res t =>
      ∀ outcome, res = .ok outcome → outcome ≠ .idle → ∃ grant, t.Settled grant := by
  refine Prog.always_bind.mpr ((always_heartbeat agent false hinv).mono ?_)
  intro res t hheartbeat
  obtain ⟨hmiddle, hserved⟩ := hheartbeat
  cases res with
  | error error => exact fun outcome houtcome => absurd houtcome (by simp)
  | ok value =>
      intro answered u hlease
      cases hlease with
      | leaseLost meanwhile => exact fun outcome houtcome => absurd houtcome (by simp)
      | lease authenticates meanwhile answered addressed =>
          obtain ⟨hread, -⟩ := hmiddle.meanwhile meanwhile
          obtain ⟨hcopied, hend, -⟩ :=
            of_answered hread (sat_answerLease authenticates _ _ _) answered
          apply always_serveAnswer hreasons (hserved rfl) rfl hend
          exact fun grant hgrant => ⟨addressed grant hgrant, hcopied _ grant rfl hgrant⟩

theorem World.Orderly.reaches {v w : Sys World Action Action.Reply Exc Request Response}
    (h : v.world.Orderly) (hreach : Reaches (coordinator cfg) anySchedule v w) :
    w.world.Orderly := by
  induction hreach with
  | refl => exact h
  | tail _ hstep ih =>
      cases hstep with
      | begin request _ => exact ih
      | advance i request action next _ _ => exact ih.exec action
      | env world houtside => exact (ih.moves (Or.inr houtside)).1

theorem World.Initial.orderly {w : World} (h : w.Initial) : w.Orderly := by
  refine ⟨h.fresh, ?_⟩
  rw [h.jobs]
  exact requestsSound_empty

/-- The agent never walks away from a lease that it still holds: whenever a round at a reachable
coordinator, of a worker that stays approved, ends with a job served and no request that the agent
takes for the end of the lease was refused unread, the job is not processed under the token of its
grant any more. -/
theorem round_settles_lease (cfg : ServiceConfig) (identity : WorkerIdentity)
    (readPath : String → Option String) {agent : PollingAgent}
    (hreasons : agent.toWorkerAgent.GivesReasons) {w : World} (hinitial : w.Initial)
    {sys : Sys World Action Action.Reply Exc Request Response}
    (hreach : Reaches (coordinator cfg) anySchedule ⟨w, []⟩ sys) {outcome : AgentOutcome}
    {t : Session} (hround : Prog.RunsIn (Polls cfg identity readPath) agent.runOnce
      ⟨sys.world, none, false⟩ (.ok outcome) t) (hserved : outcome ≠ .idle)
    (hheard : t.unheard = false) :
    ∃ grant, t.given = some grant ∧ ¬ t.world.jobs.LiveFor grant.jobId grant.claimToken := by
  have halways :
      Prog.Always (Polls cfg identity readPath) agent.runOnce ⟨sys.world, none, false⟩ _ :=
    always_runOnce hreasons (hinitial.orderly.reaches hreach)
  obtain ⟨grant, hsettled⟩ := halways.of_runsIn hround outcome rfl hserved
  exact ⟨grant, hsettled.given, (hsettled.leaseOver hheard).ended⟩

instance (cfg : ServiceConfig) (w : World) (identity : WorkerIdentity) :
    Decidable (Approved cfg w identity) :=
  decidable_of_iff (((approvedEnrollment cfg identity).run Action.exec w).2.isOk = true) (by
    rw [Approved]
    cases ((approvedEnrollment cfg identity).run Action.exec w).2 with
    | ok enrollment => simp [Except.isOk, Except.toBool]
    | error error => simp [Except.isOk, Except.toBool])

/-- The answer of a coordinator that does nothing else meanwhile. -/
theorem answered_alone {α : Type} {p : Coroutine α} {v : World} {value : α}
    (happroved : Prog.Passes Action.exec (fun w => Approved cfg w identity) p v)
    (hvalue : (p.run Action.exec v).2 = .ok value) :
    Answered cfg identity p v value (p.run Action.exec v).1 := by
  rw [Answered, ← hvalue]
  exact Prog.Runs.of_run Action.exec (fun _ h => ⟨.refl, h⟩) happroved

end System

/-! ### A round of the small pool -/

/-- The house worker, whose plugin takes no job. -/
def pollingAgent : PollingAgent where
  workspaceRoot := PosixPath.ofText "/work"
  workerId := "worker-1"
  served := ⟨[("test.deterministic.echo.v1", ⟨smallCapability, fun _ =>
    .error (.pluginRequestRejected "payload is not supported")⟩)], by simp⟩

/-- The small pool with one job. -/
def submittedRun : Sys World Action Action.Reply Exc Request Response :=
  letI := PyText.ascii
  Sys.serveAll (coordinator smallConfig) ⟨smallWorld, []⟩ [.submit echoJob]

/-- The small pool after the heartbeat of the agent. -/
def heardWorld : World :=
  letI := PyText.ascii
  ((answerHeartbeat smallConfig (.ok smallIdentity) (pollingAgent.registration false [])).run
    Action.exec submittedRun.world).1

/-- The small pool after the lease request of the agent. -/
def leasedWorld : World :=
  letI := PyText.ascii
  ((answerLease smallConfig (.ok smallIdentity) pollingAgent.capabilityIds (some 1200)).run
    Action.exec heardWorld).1

theorem smallGrant_answered :
    letI := PyText.ascii
    Answered smallConfig smallIdentity (answerLease smallConfig (.ok smallIdentity)
      pollingAgent.capabilityIds (some 1200)) heardWorld (.granted smallGrant) leasedWorld := by
  refine @answered_alone PyText.ascii _ _ _ _ _ _ (by decide) ?_
  rw [answerLease, if_pos (by decide)]
  exact Prog.run_handle_of_ok _ (by rfl)

def smallRejection : JobPost :=
  .fail "job-1" "t" "payload is not supported" false .unsupportedOperation

/-- The small pool after the rejection. -/
def rejectedWorld : World :=
  letI := PyText.ascii
  ((smallRejection.answer smallConfig (.ok smallIdentity) some).run Action.exec leasedWorld).1

/-- The agent announces itself and is granted the job. -/
theorem granted_round {res : Except AgentExc AgentOutcome} {t : Session} :
    letI := PyText.ascii
    Prog.RunsIn (Polls smallConfig smallIdentity some)
        (pollingAgent.serveAnswer (.granted smallGrant)) ⟨leasedWorld, some smallGrant, false⟩
        res t →
      Prog.RunsIn (Polls smallConfig smallIdentity some) pollingAgent.runOnce
        ⟨submittedRun.world, none, false⟩ res t := by
  let _ := PyText.ascii
  intro hserved
  have happroved : Approved smallConfig submittedRun.world smallIdentity := by decide
  have hstays : Approved smallConfig heardWorld smallIdentity := by decide
  have hheard : Answered smallConfig smallIdentity (answerHeartbeat smallConfig (.ok smallIdentity)
      (pollingAgent.registration false [])) submittedRun.world 200 heardWorld :=
    answered_alone (by decide) (by rfl)
  have haddressed : ∀ grant, (LeaseAnswer.granted smallGrant).grant? = some grant →
      grant.Addressed some := by
    intro grant hgrant
    cases hgrant
    exact ⟨rfl, by decide⟩
  have hsampled : Polls smallConfig smallIdentity some .sampleGpus
      ⟨submittedRun.world, none, false⟩ [] ⟨submittedRun.world, none, false⟩ :=
    .sampled ⟨.refl, happroved⟩
  have hheartbeat : Polls smallConfig smallIdentity some
      (.heartbeat (pollingAgent.registration false [])) ⟨submittedRun.world, none, false⟩ (.ok 200)
      ⟨heardWorld, none, false⟩ :=
    .heartbeat (callerOf_self _) ⟨.refl, happroved⟩ hheard
  have hleased : Polls smallConfig smallIdentity some (.lease pollingAgent.capabilityIds 1200)
      ⟨heardWorld, none, false⟩ (.ok (.granted smallGrant))
      ⟨leasedWorld, some smallGrant, false⟩ :=
    .lease (callerOf_self _) ⟨.refl, hstays⟩ smallGrant_answered haddressed
  exact .await hsampled (.await hheartbeat (.await hleased hserved))

/-- The job is rejected. -/
theorem rejected_round :
    letI := PyText.ascii
    Prog.RunsIn (Polls smallConfig smallIdentity some) pollingAgent.runOnce
      ⟨submittedRun.world, none, false⟩ (.ok .rejected)
      ⟨rejectedWorld, some smallGrant, false⟩ := by
  let _ := PyText.ascii
  have hrejected : Answered smallConfig smallIdentity
      (smallRejection.answer smallConfig (.ok smallIdentity) some) leasedWorld 200 rejectedWorld :=
    answered_alone (by decide) (by rfl)
  have hserved : Prog.RunsIn (Polls smallConfig smallIdentity some)
      (pollingAgent.serveAnswer (.granted smallGrant)) ⟨leasedWorld, some smallGrant, false⟩
      (.ok .rejected) ⟨rejectedWorld, some smallGrant, false⟩ :=
    .await (.serving (.posted rfl hrejected)) (.ret _ _)
  exact granted_round hserved

/-- A rejection that a limiter refuses is not sent again: the round ends as if the job were
rejected, and the job is still processed under its lease. -/
theorem refused_rejection_keeps_lease :
    letI := PyText.ascii
    Prog.RunsIn (Polls smallConfig smallIdentity some) pollingAgent.runOnce
        ⟨submittedRun.world, none, false⟩ (.ok .rejected) ⟨leasedWorld, some smallGrant, true⟩ ∧
      leasedWorld.jobs.LiveFor smallGrant.jobId smallGrant.claimToken := by
  let _ := PyText.ascii
  have happroved : Approved smallConfig leasedWorld smallIdentity := by decide
  have hrefuses : CallerOf smallIdentity (.error 429) :=
    ⟨none, .error (.rateLimited "worker-1"), rfl, fun other h => by cases h⟩
  have hrefused : Serves smallConfig smallIdentity some (.post smallRejection)
      ⟨leasedWorld, some smallGrant, false⟩ (.ok 429) ⟨leasedWorld, some smallGrant, true⟩ :=
    .refused rfl hrefuses ⟨.refl, happroved⟩ (.ret 429 leasedWorld)
  have hserved : Prog.RunsIn (Polls smallConfig smallIdentity some)
      (pollingAgent.serveAnswer (.granted smallGrant)) ⟨leasedWorld, some smallGrant, false⟩
      (.ok .rejected) ⟨leasedWorld, some smallGrant, true⟩ :=
    .await (.serving hrefused) (.ret _ _)
  exact ⟨granted_round hserved, by decide⟩

theorem pollingAgent_givesReasons : pollingAgent.toWorkerAgent.GivesReasons := by
  intro capabilityId served hlookup lease text hrejects
  have hmem := Dict.lookup_eq_some_iff.mp hlookup
  obtain ⟨-, rfl⟩ := Prod.mk.inj (List.mem_singleton.mp hmem)
  cases hrejects
  decide

theorem round_settles_lease_of_rejection :
    letI := PyText.ascii
    ∃ t : Session, Prog.RunsIn (Polls smallConfig smallIdentity some) pollingAgent.runOnce
        ⟨submittedRun.world, none, false⟩ (.ok .rejected) t ∧
      ∃ grant, t.given = some grant ∧ ¬ t.world.jobs.LiveFor grant.jobId grant.claimToken := by
  let _ := PyText.ascii
  have hreach : Reaches (coordinator smallConfig) anySchedule ⟨smallWorld, []⟩ submittedRun := by
    unfold submittedRun
    apply reaches_serveAll
    exact .cons (fun _ _ _ => trivial) (World.presents_of_no_token rfl) trivial
  have hround := rejected_round
  exact ⟨_, hround, round_settles_lease smallConfig smallIdentity some pollingAgent_givesReasons
    smallWorld_initial hreach hround (by decide) rfl⟩

end GpuWorkerPool
