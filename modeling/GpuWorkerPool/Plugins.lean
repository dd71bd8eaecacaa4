import GpuWorkerPool.Base.FileSystem
import GpuWorkerPool.Base.Outcome
import GpuWorkerPool.Contracts

/-!
The execution plugin contract. A plugin validates a lease before any byte is downloaded, and runs in
a workspace that the agent populated.
-/

namespace GpuWorkerPool

open Base

/-- The typed, allowlisted inputs a plugin accepted from a lease. -/
structure ValidatedRequest where
  capabilityId : String
  contractVersion : Int
  inputs : Dict String JsonValue
  seed : Option Int

/-- The isolated, per-job working set handed to one execution. -/
structure ExecutionContext where
  jobId : String
  leaseId : String
  deadline : DateTime
  workspace : PosixPath
  inputPaths : Dict String PosixPath

/-- The single immutable artifact one execution produced, by the path of its file. -/
structure PluginArtifact where
  path : PosixPath
  contentType : String
  modelId : String
  modelVersion : String
  seed : Option Int := none
  diagnostics : JobPayload := JsonObject.empty

/-- The exceptions an agent meets in serving a job. `raised` is any other `Exception`, by the name of
its type; `cancelledError` is not an `Exception`. -/
inductive AgentExc where
  | pluginRequestRejected (text : String)
  | transferError (text : String)
  | osError (error : OsError)
  | raised (typeName : String)
  | cancelledError
  deriving DecidableEq, Repr

/-- `type(exc).__name__` -/
def AgentExc.typeName : AgentExc → String
  | pluginRequestRejected _ => "PluginRequestRejected"
  | transferError _ => "TransferError"
  | osError .fileExists => "FileExistsError"
  | osError .fileNotFound => "FileNotFoundError"
  | osError .notADirectory => "NotADirectoryError"
  | osError .isADirectory => "IsADirectoryError"
  | raised typeName => typeName
  | cancelledError => "CancelledError"

/-- The exception is a `PluginRequestRejected`. -/
def AgentExc.IsRejection : AgentExc → Prop
  | pluginRequestRejected _ => True
  | _ => False

/-- `value == text` -/
def isText (text : String) : JsonValue → Bool
  | .str s => s = text
  | _ => false

@[simp] theorem isText_iff {text : String} {value : JsonValue} :
    isText text value ↔ value = .str text := by
  cases value <;> simp [isText]

/-- `isinstance(value, str) and value in lease.input_keys` -/
def LeaseGrant.grants (lease : LeaseGrant) (value : JsonValue) : Bool :=
  lease.inputKeys.any fun key => isText key value

@[simp] theorem LeaseGrant.grants_iff {lease : LeaseGrant} {value : JsonValue} :
    lease.grants value ↔ ∃ key ∈ lease.inputKeys, value = .str key := by
  simp [LeaseGrant.grants]

/-- Raises `PluginRequestRejected(text)` unless the condition holds. -/
def rejectUnless (condition : Bool) (text : String) : Except AgentExc Unit :=
  if condition then .ok () else .error (.pluginRequestRejected text)

@[simp] theorem rejectUnless_eq_ok {condition : Bool} {text : String} :
    rejectUnless condition text = .ok () ↔ condition = true := by
  cases condition <;> simp [rejectUnless]

theorem raises_rejectUnless (condition : Bool) (text : String) :
    Raises AgentExc.IsRejection (rejectUnless condition text) := by
  cases condition <;> exact trivial

end GpuWorkerPool
