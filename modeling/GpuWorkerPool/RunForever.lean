import Mathlib
import GpuWorkerPool.RunOnce

/-!
The loop of an agent: rounds one after the other until the stop event is set, with a pause after
each idle one that doubles up to the longest poll. Any run of the loop keeps what a round keeps, so
every lease that the loop ever served, and whose end was heard, is over for good.
-/

namespace GpuWorkerPool

open Base

/-! ### The loop -/

structure LoopingAgent extends PollingAgent where
  minPollSeconds : ℚ := 2
  maxPollSeconds : ℚ := 60
  /-- `isinstance(exc, httpx.HTTPError)` -/
  isHttpError : AgentExc → Bool

inductive LoopAction where
  | stopIsSet
  | random
  | sleep (seconds : ℚ)
  | polling (action : PollAction)

def LoopAction.Reply : LoopAction → Type
  | stopIsSet => Bool
  | random => ℚ
  | sleep _ => Unit
  | polling action => action.Reply

abbrev LoopCoroutine := Prog LoopAction LoopAction.Reply AgentExc

/-- What one pass of the loop comes to: the loop is left, or goes on with a backoff. -/
inductive Turn where
  | left
  | again (outcome : AgentOutcome) (backoff : ℚ)

namespace LoopingAgent

def polling {α : Type} (p : PollCoroutine α) : LoopCoroutine α :=
  p.translate fun action => .await (.polling action) .ret

/-- `except httpx.HTTPError` -/
def onHttpError {α : Type} (agent : LoopingAgent) (p : LoopCoroutine α) (value : α) :
    LoopCoroutine α :=
  p.handle fun error => if agent.isHttpError error then pure value else throw error

/-- The agent of a round in which the stop event reads as given. -/
def reading (agent : LoopingAgent) (stopping : Bool) : PollingAgent :=
  { agent.toPollingAgent with stopping := stopping }

/-- A round as the loop takes it. What `_serve` reads of the stop event is read ahead, since the
event may be set at any time. -/
def round (agent : LoopingAgent) : LoopCoroutine AgentOutcome :=
  .await .stopIsSet fun (stopping : Bool) =>
    agent.onHttpError (polling (agent.reading stopping).runOnce) .idle

/-- What `run_forever` does once the event is set. -/
def leave (agent : LoopingAgent) : LoopCoroutine Turn := do
  agent.onHttpError (polling (agent.toPollingAgent.heartbeat true)) ()
  pure .left

/-- What follows a round. -/
def pause (agent : LoopingAgent) (backoff : ℚ) (outcome : AgentOutcome) : LoopCoroutine Turn :=
  if outcome ≠ .idle then pure (.again outcome agent.minPollSeconds)
  else
    .await .random fun (drawn : ℚ) =>
      .await (.sleep (min agent.maxPollSeconds backoff * drawn)) fun _ =>
        pure (.again outcome (min agent.maxPollSeconds (backoff * 2)))

/-- One pass of the loop of `run_forever`. -/
def turn (agent : LoopingAgent) (backoff : ℚ) : LoopCoroutine Turn :=
  .await .stopIsSet fun (stopped : Bool) =>
    if stopped then agent.leave else agent.round >>= agent.pause backoff

end LoopingAgent

/-! ### The system around it -/

/-- A session, and the pauses that the agent made, the last one first. -/
structure Life where
  session : Session
  slept : List ℚ := []

/-- A loop between two passes, with the number of idle passes that led here and the sessions as the
passes that served a job left them. -/
structure Loop where
  backoff : ℚ
  idle : Nat := 0
  served : List Session := []
  life : Life

section System

variable [PyText] (cfg : ServiceConfig) (identity : WorkerIdentity)
  (readPath : String → Option String)

/-- What the agent awaits in its loop. -/
inductive Lives : (action : LoopAction) → Life → action.Reply → Life → Prop
  | stopIsSet {l : Life} {w : World} {isSet : Bool}
      (meanwhile : Meanwhile cfg identity l.session.world w) :
      Lives .stopIsSet l isSet { l with session := { l.session with world := w } }
  | random {l : Life} {drawn : ℚ} (least : 0 ≤ drawn) (below : drawn < 1) :
      Lives .random l drawn l
  | slept {l : Life} {w : World} {seconds : ℚ}
      (meanwhile : Meanwhile cfg identity l.session.world w) :
      Lives (.sleep seconds) l () ⟨{ l.session with world := w }, seconds :: l.slept⟩
  | polled {l : Life} {s : Session} {action : PollAction} {reply : action.Reply}
      (polls : Polls cfg identity readPath action l.session reply s) :
      Lives (.polling action) l reply { l with session := s }

/-- One pass of the loop that is not its last. -/
inductive Turns (agent : LoopingAgent) : Loop → Loop → Prop
  | served {l : Loop} {outcome : AgentOutcome} {backoff : ℚ} {m : Life}
      (pass : Prog.RunsIn (Lives cfg identity readPath) (agent.turn l.backoff) l.life
        (.ok (.again outcome backoff)) m) (busy : outcome ≠ .idle) :
      Turns agent l ⟨backoff, 0, m.session :: l.served, m⟩
  | idle {l : Loop} {backoff : ℚ} {m : Life}
      (pass : Prog.RunsIn (Lives cfg identity readPath) (agent.turn l.backoff) l.life
        (.ok (.again .idle backoff)) m) :
      Turns agent l ⟨backoff, l.idle + 1, l.served, m⟩

variable {cfg identity readPath}

/-! ### What goes on during a run -/

/-- Others move, and then the coordinator answers. -/
theorem answered_evolves {α : Type} {p : Coroutine α} {u v w : World} {value : α}
    (hinv : u.Orderly) (hmeanwhile : Meanwhile cfg identity u v)
    (h : Answered cfg identity p v value w) : w.Orderly ∧ World.Evolves u w := by
  obtain ⟨hmiddle, hbefore⟩ := hinv.meanwhile hmeanwhile
  obtain ⟨-, hend, hafter⟩ := of_answered hmiddle (sat_evolves _ _) h
  exact ⟨hend, hbefore.trans hafter⟩

theorem polls_evolves {action : PollAction} {s t : Session} {reply : action.Reply}
    (h : Polls cfg identity readPath action s reply t) (hinv : s.world.Orderly) :
    t.world.Orderly ∧ World.Evolves s.world t.world := by
  cases h with
  | sampled meanwhile => exact hinv.meanwhile meanwhile
  | heartbeat _ meanwhile answered => exact answered_evolves hinv meanwhile answered
  | lease _ meanwhile answered addressed => exact answered_evolves hinv meanwhile answered
  | heartbeatLost meanwhile => exact hinv.meanwhile meanwhile
  | leaseLost meanwhile => exact hinv.meanwhile meanwhile
  | serving serves =>
      cases serves with
      | posted sendable answered => exact (of_answered hinv (sat_evolves _ _) answered).2
      | refused _ _ meanwhile answered => exact answered_evolves hinv meanwhile answered
      | unsent unsendable meanwhile => exact hinv.meanwhile meanwhile
      | lost named meanwhile => exact hinv.meanwhile meanwhile
      | «local» here fits meanwhile => exact hinv.meanwhile meanwhile

theorem lives_evolves {action : LoopAction} {l m : Life} {reply : action.Reply}
    (h : Lives cfg identity readPath action l reply m) (hinv : l.session.world.Orderly) :
    m.session.world.Orderly ∧ World.Evolves l.session.world m.session.world := by
  cases h with
  | stopIsSet meanwhile => exact hinv.meanwhile meanwhile
  | random least below => exact ⟨hinv, .refl _⟩
  | slept meanwhile => exact hinv.meanwhile meanwhile
  | polled polls => exact polls_evolves polls hinv

theorem runsIn_evolves {α : Type} {p : LoopCoroutine α} {l m : Life} {res : Except AgentExc α}
    (h : Prog.RunsIn (Lives cfg identity readPath) p l res m) (hinv : l.session.world.Orderly) :
    m.session.world.Orderly ∧ World.Evolves l.session.world m.session.world := by
  induction h with
  | ret value l => exact ⟨hinv, .refl _⟩
  | raise error l => exact ⟨hinv, .refl _⟩
  | await here rest ih =>
      obtain ⟨hmiddle, hbefore⟩ := lives_evolves here hinv
      obtain ⟨hend, hafter⟩ := ih hmiddle
      exact ⟨hend, hbefore.trans hafter⟩

/-! ### One pass -/

/-- A round within the loop is a round, and makes no pause. -/
theorem always_polling {α : Type} {p : PollCoroutine α} {l : Life}
    {Q : Except AgentExc α → Session → Prop}
    (h : Prog.Always (Polls cfg identity readPath) p l.session Q) :
    Prog.Always (Lives cfg identity readPath) (LoopingAgent.polling p) l fun res m =>
      Q res m.session ∧ m.slept = l.slept := by
  induction p generalizing l with
  | ret value => exact ⟨h, rfl⟩
  | raise error => exact ⟨h, rfl⟩
  | await action next ih =>
      intro reply m here
      cases here with
      | polled polls => exact ih reply (h reply _ polls)

theorem always_onHttpError {α : Type} {agent : LoopingAgent} {p : LoopCoroutine α} {value : α}
    {l : Life} {Q : Except AgentExc α → Life → Prop}
    (h : Prog.Always (Lives cfg identity readPath) p l fun res m =>
      Q res m ∧ ∀ error, res = .error error → Q (.ok value) m) :
    Prog.Always (Lives cfg identity readPath) (agent.onHttpError p value) l Q := by
  apply Prog.always_handle.mpr
  apply h.mono
  intro res m hres
  cases res with
  | ok value => exact hres.1
  | error error =>
      dsimp only
      split_ifs
      · exact hres.2 error rfl
      · exact hres.1

theorem always_round {agent : LoopingAgent} (hreasons : agent.toWorkerAgent.GivesReasons)
    {l : Life} (hinv : l.session.world.Orderly) :
    Prog.Always (Lives cfg identity readPath) agent.round l fun res m =>
      (∀ outcome, res = .ok outcome → outcome ≠ .idle → ∃ grant, m.session.Settled grant) ∧
        m.slept = l.slept := by
  intro stopping m hread
  cases hread with
  | stopIsSet meanwhile =>
      apply always_onHttpError
      have hread : (agent.reading stopping).toWorkerAgent.GivesReasons := hreasons
      refine (always_polling (always_runOnce hread (hinv.meanwhile meanwhile).1)).mono ?_
      intro res n hres
      refine ⟨hres, fun error _ => ⟨fun outcome houtcome hidle => ?_, hres.2⟩⟩
      cases houtcome
      exact absurd rfl hidle

/-- A pass that served a job leaves its lease over, makes no pause and polls fast again. An idle one
makes one pause, of a part of the backoff, and doubles it. -/
theorem always_turn {agent : LoopingAgent} (hreasons : agent.toWorkerAgent.GivesReasons)
    {backoff : ℚ} {l : Life} (hinv : l.session.world.Orderly) :
    Prog.Always (Lives cfg identity readPath) (agent.turn backoff) l fun res m =>
      ∀ outcome next, res = .ok (.again outcome next) →
        (outcome ≠ .idle → next = agent.minPollSeconds ∧ m.slept = l.slept ∧
          ∃ grant, m.session.Settled grant) ∧
        (outcome = .idle → next = min agent.maxPollSeconds (backoff * 2) ∧
          ∃ drawn, 0 ≤ drawn ∧ drawn < 1 ∧
            m.slept = min agent.maxPollSeconds backoff * drawn :: l.slept) := by
  intro (stopped : Bool) m hread
  cases hread with
  | stopIsSet meanwhile =>
      cases stopped with
      | true =>
          refine Prog.always_bind.mpr ((Prog.always_true _ _).mono ?_)
          intro res n _
          cases res with
          | ok value => exact fun outcome next h => absurd h (by simp)
          | error error => exact fun outcome next h => absurd h (by simp)
      | false =>
          refine Prog.always_bind.mpr
            ((always_round hreasons (hinv.meanwhile meanwhile).1).mono ?_)
          intro res n hround
          obtain ⟨hserved, hslept⟩ := hround
          cases res with
          | error error => exact fun outcome next h => absurd h (by simp)
          | ok outcome =>
              dsimp only
              rw [LoopingAgent.pause]
              split_ifs with hbusy
              · intro found next h
                cases h
                exact ⟨fun _ => ⟨rfl, hslept, hserved outcome rfl hbusy⟩, fun h => absurd h hbusy⟩
              · intro drawn u hdrawn
                cases hdrawn with
                | random least below =>
                    intro reply v hsleeps
                    cases hsleeps with
                    | slept meanwhile =>
                        intro found next h
                        cases h
                        refine ⟨fun h => absurd h hbusy, fun _ => ⟨rfl, drawn, least, below, ?_⟩⟩
                        rw [hslept]

/-! ### The backoff -/

omit [PyText] in
/-- Doubling up to a bound is the bound on the power of two. -/
theorem min_doubled {most least backoff : ℚ} (hmost : 0 ≤ most) {k : Nat}
    (h : min most backoff = min most (least * 2 ^ k)) :
    min most (min most (backoff * 2)) = min most (least * 2 ^ (k + 1)) := by
  calc
    min most (min most (backoff * 2)) = min most (min most backoff * 2) := by grind
    _ = min most (min most (least * 2 ^ k) * 2) := by rw [h]
    _ = min most (least * 2 ^ (k + 1)) := by
      rw [pow_succ, ← mul_assoc]
      grind

/-- What holds between two passes. -/
structure Loop.Sound (agent : LoopingAgent) (l : Loop) : Prop where
  orderly : l.life.session.world.Orderly
  leasesOver : ∀ past ∈ l.served, past.unheard = false →
    ∃ grant, past.given = some grant ∧ l.life.session.world.Over grant
  backoff : 0 ≤ agent.maxPollSeconds → min agent.maxPollSeconds l.backoff =
    min agent.maxPollSeconds (agent.minPollSeconds * 2 ^ l.idle)

theorem Loop.Sound.turns {agent : LoopingAgent} (hreasons : agent.toWorkerAgent.GivesReasons)
    {l m : Loop} (h : l.Sound agent)
    (hturns : Turns cfg identity readPath agent l m) : m.Sound agent := by
  have hbefore {v : World} (hevolves : World.Evolves l.life.session.world v) :
      ∀ past ∈ l.served, past.unheard = false →
        ∃ grant, past.given = some grant ∧ v.Over grant := by
    intro past hmem hheard
    obtain ⟨grant, hgiven, hover⟩ := h.leasesOver past hmem hheard
    exact ⟨grant, hgiven, hover.evolves hevolves⟩
  cases hturns with
  | served pass busy =>
      obtain ⟨hinv, hevolves⟩ := runsIn_evolves pass h.orderly
      have hpass := (always_turn hreasons h.orderly).of_runsIn pass _ _ rfl
      obtain ⟨hnext, -, grant, hsettled⟩ := hpass.1 busy
      refine ⟨hinv, List.forall_mem_cons.mpr ⟨?_, hbefore hevolves⟩, ?_⟩
      · exact fun hheard => ⟨grant, hsettled.given, hsettled.leaseOver hheard⟩
      · intro _
        rw [hnext, pow_zero, mul_one]
  | idle pass =>
      obtain ⟨hinv, hevolves⟩ := runsIn_evolves pass h.orderly
      have hpass := (always_turn hreasons h.orderly).of_runsIn pass _ _ rfl
      obtain ⟨hnext, -⟩ := hpass.2 rfl
      refine ⟨hinv, hbefore hevolves, fun hmost => ?_⟩
      rw [hnext]
      exact min_doubled hmost (h.backoff hmost)

theorem Loop.Sound.run {agent : LoopingAgent} (hreasons : agent.toWorkerAgent.GivesReasons)
    {l m : Loop} (h : l.Sound agent)
    (hturns : Relation.ReflTransGen (Turns cfg identity readPath agent) l m) : m.Sound agent := by
  induction hturns with
  | refl => exact h
  | tail _ hturn ih => exact ih.turns hreasons hturn

/-- The loop before its first pass. -/
def LoopingAgent.start (agent : LoopingAgent) (w : World) : Loop where
  backoff := agent.minPollSeconds
  life := ⟨⟨w, none, false⟩, []⟩

theorem LoopingAgent.sound_start (agent : LoopingAgent) {w : World} (h : w.Orderly) :
    (agent.start w).Sound agent := by
  refine ⟨h, ?_, ?_⟩
  · intro given hmem
    cases hmem
  · intro _
    rw [LoopingAgent.start, pow_zero, mul_one]

/-- The jobs that were served are no longer processed under the tokens of their grants, where no
request was refused unread that the agent took for the end of the lease. -/
def Session.LeasesOver (s : Session) (served : List Session) : Prop :=
  ∀ past ∈ served, past.unheard = false → ∃ grant, past.given = some grant ∧
    ¬ s.world.jobs.LiveFor grant.jobId grant.claimToken

/-- However long the loop has run, and however its present pass ends, no lease that it ever served
is left behind. It pauses only after idle passes, after `k` of them in a row for a part of
`min_poll_seconds * 2 ** k` that `max_poll_seconds` bounds. -/
theorem loop_settles_leases (cfg : ServiceConfig) (identity : WorkerIdentity)
    (readPath : String → Option String) {agent : LoopingAgent}
    (hreasons : agent.toWorkerAgent.GivesReasons) {w : World} (hinitial : w.Initial)
    {sys : Sys World Action Action.Reply Exc Request Response}
    (hreach : Reaches (coordinator cfg) anySchedule ⟨w, []⟩ sys) {l : Loop}
    (hturns : Relation.ReflTransGen (Turns cfg identity readPath agent) (agent.start sys.world) l)
    {res : Except AgentExc Turn} {m : Life}
    (hpass : Prog.RunsIn (Lives cfg identity readPath) (agent.turn l.backoff) l.life res m) :
    m.session.LeasesOver l.served ∧
      ∀ outcome backoff, res = .ok (.again outcome backoff) →
        (outcome ≠ .idle → m.session.LeasesOver [m.session] ∧ m.slept = l.life.slept) ∧
        (outcome = .idle → 0 ≤ agent.maxPollSeconds → ∃ drawn, 0 ≤ drawn ∧ drawn < 1 ∧
          m.slept = min agent.maxPollSeconds (agent.minPollSeconds * 2 ^ l.idle) * drawn ::
            l.life.slept) := by
  have hsound : l.Sound agent :=
    (agent.sound_start (hinitial.orderly.reaches hreach)).run hreasons hturns
  obtain ⟨-, hevolves⟩ := runsIn_evolves hpass hsound.orderly
  refine ⟨?_, fun outcome backoff hres => ⟨fun hbusy => ?_, fun hidle hmost => ?_⟩⟩
  · intro past hmem hheard
    obtain ⟨grant, hgiven, hover⟩ := hsound.leasesOver past hmem hheard
    exact ⟨grant, hgiven, (hover.evolves hevolves).ended⟩
  · have hturn := (always_turn hreasons hsound.orderly).of_runsIn hpass outcome backoff hres
    obtain ⟨-, hslept, grant, hsettled⟩ := hturn.1 hbusy
    refine ⟨?_, hslept⟩
    intro past hmem hheard
    obtain rfl := List.mem_singleton.mp hmem
    exact ⟨grant, hsettled.given, (hsettled.leaseOver hheard).ended⟩
  · have hturn := (always_turn hreasons hsound.orderly).of_runsIn hpass outcome backoff hres
    obtain ⟨-, drawn, hleast, hbelow, hslept⟩ := hturn.2 hidle
    refine ⟨drawn, hleast, hbelow, ?_⟩
    rw [hslept, hsound.backoff hmost]

/-- The runs of a round are runs within the loop. -/
theorem runsIn_polling {α : Type} {p : PollCoroutine α} {s t : Session}
    {res : Except AgentExc α} (h : Prog.RunsIn (Polls cfg identity readPath) p s res t)
    (slept : List ℚ) :
    Prog.RunsIn (Lives cfg identity readPath) (LoopingAgent.polling p) ⟨s, slept⟩ res
      ⟨t, slept⟩ := by
  induction h with
  | ret value s => exact .ret value _
  | raise error s => exact .raise error _
  | await here rest ih => exact .await (.polled here) ih

end System

/-! ### A loop in the small pool -/

def loopingAgent : LoopingAgent where
  toPollingAgent := pollingAgent
  isHttpError error := error = .raised "HTTPStatusError"

/-- The loop after the pass in which the agent rejected the job. -/
def rejectedLoop : Loop where
  backoff := 2
  served := [⟨rejectedWorld, some smallGrant, false⟩]
  life := ⟨⟨rejectedWorld, some smallGrant, false⟩, []⟩

/-- The small pool after the last heartbeat of the agent. -/
def drainedWorld : World :=
  letI := PyText.ascii
  ((answerHeartbeat smallConfig (.ok smallIdentity) (pollingAgent.registration true [])).run
    Action.exec rejectedWorld).1

theorem rejected_pass :
    letI := PyText.ascii
    Turns smallConfig smallIdentity some loopingAgent (loopingAgent.start submittedRun.world)
      rejectedLoop := by
  let _ := PyText.ascii
  have happroved : Approved smallConfig submittedRun.world smallIdentity := by decide
  have hread (isSet : Bool) : Lives smallConfig smallIdentity some .stopIsSet
      ⟨⟨submittedRun.world, none, false⟩, []⟩ isSet ⟨⟨submittedRun.world, none, false⟩, []⟩ :=
    .stopIsSet ⟨.refl, happroved⟩
  have hround : Prog.RunsIn (Lives smallConfig smallIdentity some) loopingAgent.round
      ⟨⟨submittedRun.world, none, false⟩, []⟩ (.ok .rejected) rejectedLoop.life :=
    .await (hread false) (runsIn_polling rejected_round []).handle
  have hpass : Prog.RunsIn (Lives smallConfig smallIdentity some) (loopingAgent.turn 2)
      ⟨⟨submittedRun.world, none, false⟩, []⟩ (.ok (.again .rejected 2)) rejectedLoop.life :=
    .await (hread false) (hround.bind (.ret _ _))
  have hserved := Turns.served (l := loopingAgent.start submittedRun.world) hpass (by decide)
  exact hserved

theorem drained_pass :
    letI := PyText.ascii
    Prog.RunsIn (Lives smallConfig smallIdentity some) (loopingAgent.turn rejectedLoop.backoff)
      rejectedLoop.life (.ok .left) ⟨⟨drainedWorld, some smallGrant, false⟩, []⟩ := by
  let _ := PyText.ascii
  have happroved : Approved smallConfig rejectedWorld smallIdentity := by decide
  have hread : Lives smallConfig smallIdentity some .stopIsSet rejectedLoop.life true
      rejectedLoop.life := .stopIsSet ⟨.refl, happroved⟩
  have hheard : Answered smallConfig smallIdentity (answerHeartbeat smallConfig (.ok smallIdentity)
      (pollingAgent.registration true [])) rejectedWorld 200 drainedWorld :=
    answered_alone (by decide) (by rfl)
  have hsampled : Polls smallConfig smallIdentity some .sampleGpus
      ⟨rejectedWorld, some smallGrant, false⟩ [] ⟨rejectedWorld, some smallGrant, false⟩ :=
    .sampled ⟨.refl, happroved⟩
  have hanswered : Polls smallConfig smallIdentity some
      (.heartbeat (pollingAgent.registration true [])) ⟨rejectedWorld, some smallGrant, false⟩
      (.ok 200) ⟨drainedWorld, some smallGrant, false⟩ :=
    .heartbeat (callerOf_self _) ⟨.refl, happroved⟩ hheard
  have hheartbeat : Prog.RunsIn (Polls smallConfig smallIdentity some)
      (pollingAgent.heartbeat true) ⟨rejectedWorld, some smallGrant, false⟩ (.ok ())
      ⟨drainedWorld, some smallGrant, false⟩ :=
    .await hsampled (.await hanswered (.ret _ _))
  refine .await hread ((runsIn_polling hheartbeat []).handle.bind ?_)
  exact .ret _ _

theorem loop_settles_leases_of_rejection :
    letI := PyText.ascii
    ∃ l m, Relation.ReflTransGen (Turns smallConfig smallIdentity some loopingAgent)
        (loopingAgent.start submittedRun.world) l ∧ l.served.map Session.given = [some smallGrant] ∧
      Prog.RunsIn (Lives smallConfig smallIdentity some) (loopingAgent.turn l.backoff) l.life
        (.ok .left) m ∧ m.session.LeasesOver l.served := by
  let _ := PyText.ascii
  have hreach : Reaches (coordinator smallConfig) anySchedule ⟨smallWorld, []⟩ submittedRun := by
    unfold submittedRun
    apply reaches_serveAll
    exact .cons (fun _ _ _ => trivial) (World.presents_of_no_token rfl) trivial
  have hturns : Relation.ReflTransGen (Turns smallConfig smallIdentity some loopingAgent)
      (loopingAgent.start submittedRun.world) rejectedLoop := .single rejected_pass
  refine ⟨rejectedLoop, _, hturns, rfl, drained_pass, ?_⟩
  exact (loop_settles_leases smallConfig smallIdentity some pollingAgent_givesReasons
    smallWorld_initial hreach hturns drained_pass).1

end GpuWorkerPool
