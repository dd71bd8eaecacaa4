import GpuWorkerPool.Base.Interleaving
import GpuWorkerPool.MemoryStores
import GpuWorkerPool.StoreFencing

/-!
The state that concurrent service calls share, and the awaited actions on it. Asset storage and the
audit log can be out of order for any of their calls; the stores of jobs and workers are in the
process. Two components are history only: how many claim tokens have been drawn, and which job
operations the store has accepted.
-/

namespace GpuWorkerPool

open Base

structure World where
  jobs : MemoryJobStore := Table.empty
  assets : MemoryAssetStore := {}
  registry : MemoryWorkerRegistry := Table.empty
  auditLog : List AuditEvent := []
  /-- The clock of the stores. -/
  now : DateTime := 0
  /-- The clock of the service. -/
  clock : DateTime := 0
  /-- What `uuid4` draws, in order. -/
  tokens : Nat → String
  drawn : Nat := 0
  assetOutage : AssetStoreCall → Bool := fun _ => false
  auditOutage : AuditEventType → Bool := fun _ => false
  accepted : List JobStoreCall := []

/-- The token was drawn for some lease. -/
def World.Issued (w : World) (t : String) : Prop := ∃ n < w.drawn, w.tokens n = t

/-- The token a lease would draw now. -/
def World.nextToken (w : World) : String := w.tokens w.drawn

namespace JobStoreCall

/-- The operation drew a token. -/
def draws : (call : JobStoreCall) → call.Reply → Bool
  | lease _, reply => Option.isSome reply
  | _, _ => false

/-- The operation answered `True`. -/
def accepts : (call : JobStoreCall) → call.Reply → Bool
  | cancel _, reply => reply
  | heartbeat .., reply => reply
  | complete .., reply => reply
  | fail .., reply => reply
  | release .., reply => reply
  | _, _ => false

end JobStoreCall

/-- An await of the service or of a worker. -/
inductive Action where
  | jobs (call : JobStoreCall)
  | assets (call : AssetStoreCall)
  | registry (call : RegistryCall)
  | audit (eventType : AuditEventType) (workerId jobId : Option String)
      (detail : List (String × JsonValue))
  | auditForJob (jobId : String)
  | clock

namespace Action

def Reply : Action → Type
  | jobs call => call.Reply
  | assets call => Except Exc call.Value
  | registry call => call.Reply
  | audit .. => Except Exc Unit
  | auditForJob _ => List AuditEvent
  | clock => DateTime

variable [PyText]

def exec : (action : Action) → World → World × action.Reply
  | jobs call, w =>
      let out := call.exec w.now w.nextToken w.jobs
      ({ w with
          jobs := out.1, drawn := if call.draws out.2 then w.drawn + 1 else w.drawn,
          accepted := if call.accepts out.2 then w.accepted ++ [call] else w.accepted }, out.2)
  | assets call, w =>
      if w.assetOutage call then (w, .error (.unavailable "asset storage unavailable"))
      else ({ w with assets := (call.exec w.assets).1 }, (call.exec w.assets).2)
  | registry call, w =>
      ({ w with registry := (call.exec w.now w.registry).1 }, (call.exec w.now w.registry).2)
  | audit eventType workerId jobId detail, w =>
      if w.auditOutage eventType then (w, .error (.unavailable "audit log unavailable"))
      else ({ w with auditLog := w.auditLog ++ [⟨eventType, workerId, jobId, detail, w.now⟩] }, .ok ())
  | auditForJob jobId, w => (w, w.auditLog.filter fun event => event.jobId = some jobId)
  | clock, w => (w, w.clock)

end Action

end GpuWorkerPool
