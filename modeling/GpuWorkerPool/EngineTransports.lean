import GpuWorkerPool.Base.Sha256
import GpuWorkerPool.EngineStages

/-!
The two transports of `AISmithEnginePlugin`: a process that leaves a result file, and a sidecar that
answers requests. Both end in the same checks of a result and of an output. The clean-up of the
sidecar's job suppresses what it raises, so it changes no outcome and is left out.
-/

namespace GpuWorkerPool

open Base

/-- `str` and `repr` of a JSON value. -/
structure PyFormat where
  str : JsonValue → String
  repr : JsonValue → String

/-- The exceptions of a transport. `engineTimedOut` and `engineCancelled` are subclasses of
`EngineFailed`. -/
inductive EngineExc where
  | pluginRequestRejected (text : String)
  | engineFailed (text : String)
  | engineTimedOut (text : String)
  | engineCancelled (text : String)
  | engineDrift (text : String)
  | typeError
  deriving DecidableEq, Repr

/-- Raises `EngineFailed(text)` unless the condition holds. -/
def failUnless (condition : Bool) (text : String) : Except EngineExc Unit :=
  if condition then .ok () else .error (.engineFailed text)

@[simp] theorem failUnless_eq_ok {condition : Bool} {text : String} :
    failUnless condition text = .ok () ↔ condition = true := by
  cases condition <;> simp [failUnless]

/-- `members.get(name)` -/
def getOrNone (members : List (String × JsonValue)) (name : String) : JsonValue :=
  (members.lookup name).getD .null

/-- `bool(value)` -/
def truthy : JsonValue → Bool
  | .null => false
  | .bool b => b
  | .int n => n ≠ 0
  | .float f => f.mantissa ≠ 0 || f.isNan
  | .str s => s ≠ ""
  | .list items => !items.isEmpty
  | .dict members => !members.isEmpty

/-- `EXIT_STATUSES` -/
def exitStatus : Int → Option String
  | 0 => some "ok"
  | 1 => some "failed"
  | 2 => some "rejected"
  | _ => none

def glbContentType : String := "model/gltf-binary"

/-- What a result is compared with: the entries of the registered versions for the engine commit and
the two locks. -/
structure RegisteredEngine where
  commit : String
  sourcesLock : String
  weightsLock : String

/-! ### What a transport meets -/

/-- What the process left: how it ended, `result.json` if it can be read, and the bytes of the files
inside its workdir, by the text of their path. -/
structure LocalEngine where
  exitCode : Except EngineExc Int
  resultDocument : Option JsonValue
  outputAt : String → Option ByteArray

inductive RunnerFault where
  | timeout
  | httpError (typeName : String)

/-- The answer to `run`: a status and the JSON of the body, if it is JSON. -/
structure RunAnswer where
  status : Nat
  body : Option JsonValue

/-- The answer to the request for the output, chunk by chunk. -/
structure OutputAnswer where
  status : Nat
  xSha256 : Option String
  contentLength : Option String
  chunks : List ByteArray
  broken : Option RunnerFault := none

/-- Where a transport looks at the time that is left. -/
inductive DeadlineCheck where
  | upload (name : String)
  | run
  | fetch

/-- How the wait for `run` ends. -/
inductive RunWait where
  | answered (reply : Except RunnerFault RunAnswer)
  | cancelled
  | timedOut

/-- A sidecar during one job. -/
structure RunnerEngine where
  late : DeadlineCheck → Bool
  putInput : String → Except RunnerFault Nat
  run : RunWait
  output : Except RunnerFault OutputAnswer

namespace AISmithEnginePlugin

/-! ### Checks both transports share -/

/-- The result names the registered engine. -/
def sameEngine (registered : RegisteredEngine) (result : List (String × JsonValue)) : Bool :=
  match getOrNone result "engine" with
  | .dict engine =>
      isText registered.commit (getOrNone engine "commit") &&
        isText registered.sourcesLock (getOrNone engine "sources_lock_sha256") &&
        isText registered.weightsLock (getOrNone engine "weights_lock_sha256")
  | _ => false

/-- The result is for the stage and the schema, as Python compares them. -/
def sameStage (stage : EngineStage) (result : List (String × JsonValue)) : Bool :=
  isText stage.stage (getOrNone result "stage") &&
    (JsonValue.int 1).pyEq (getOrNone result "schema_version")

/-- `str(result.get('error') or status)[:MAX_AUDIT_REASON_LENGTH]` -/
def resultError (fmt : PyFormat) (result : List (String × JsonValue)) : String :=
  let error := getOrNone result "error"
  let shown := if truthy error then error else getOrNone result "status"
  String.ofList ((fmt.str shown).toList.take maxAuditReasonLength)

/-- `_checked_result` -/
def checkedResult (fmt : PyFormat) (registered : RegisteredEngine) (stage : EngineStage)
    (result : List (String × JsonValue)) : Except EngineExc Unit := do
  let status := getOrNone result "status"
  failUnless (sameStage stage result) "the engine result is for another stage or schema"
  if isText "rejected" status then throw (.pluginRequestRejected (resultError fmt result))
  else if isText "failed" status then throw (.engineFailed (resultError fmt result))
  else do
    failUnless (isText "ok" status) s!"the engine returned status {fmt.repr status}"
    if sameEngine registered result then pure ()
    else throw (.engineDrift "the engine that ran the stage is not the registered one")

/-- `handle.read(4) == b'glTF'` -/
def isGlb (content : ByteArray) : Bool := content.data.toList.take 4 = [0x67, 0x6C, 0x54, 0x46]

/-- `_checked_output`: magic, size and sha256, on the bytes the worker holds. -/
def checkedOutput (fmt : PyFormat) (content : ByteArray) (output : List (String × JsonValue)) :
    Except EngineExc Unit := do
  let contentType := getOrNone output "content_type"
  failUnless (isText glbContentType contentType)
    s!"the engine output is {fmt.repr contentType}, not a GLB"
  failUnless (isGlb content) "the engine output is not a binary glTF"
  failUnless ((JsonValue.int content.size).pyEq (getOrNone output "bytes") &&
      isText (sha256Hex content) (getOrNone output "sha256"))
    "the engine output does not match its reported size and sha256"

/-! ### The local transport -/

/-- The result of a process whose exit code and status agree. -/
def localResult (fmt : PyFormat) (engine : LocalEngine) :
    Except EngineExc (List (String × JsonValue)) := do
  let code ← engine.exitCode
  match exitStatus code, engine.resultDocument with
  | none, _ =>
      throw (.engineFailed s!"the engine exited {code}, which is not an engine status code")
  | some _, none =>
      throw (.engineFailed s!"the engine exited {code} without a readable result.json")
  | some expected, some (.dict result) =>
      let status := getOrNone result "status"
      failUnless (isText expected status) s!"the engine exited {code} with status {fmt.repr status}"
      pure result
  | some _, some _ => throw (.engineFailed "the engine result is not a JSON object")

/-- The bytes of the output of a result, as the process wrote them. -/
def localArtifact (fmt : PyFormat) (engine : LocalEngine) (result : List (String × JsonValue)) :
    Except EngineExc ByteArray :=
  match getOrNone result "output" with
  | .dict output =>
      match getOrNone output "path" with
      | .str path =>
          match engine.outputAt path with
          | some content => do
              checkedOutput fmt content output
              pure content
          | none => throw (.engineFailed "the engine output is not a file inside its workdir")
      | _ => throw (.engineFailed "the engine reported ok without an output")
  | _ => throw (.engineFailed "the engine reported ok without an output")

/-- `_run_local` after the spec is written; the artifact is its bytes. -/
def runLocal (fmt : PyFormat) (registered : RegisteredEngine) (stage : EngineStage)
    (engine : LocalEngine) : Except EngineExc ByteArray := do
  let result ← localResult fmt engine
  checkedResult fmt registered stage result
  localArtifact fmt engine result

/-! ### The sidecar -/

/-- `_runner` -/
def runnerReply {α : Type} (method path : String) : Except RunnerFault α → Except EngineExc α
  | .ok reply => .ok reply
  | .error .timeout =>
      .error (.engineTimedOut s!"the engine runner did not answer {method} {path} in time")
  | .error (.httpError typeName) =>
      .error (.engineFailed s!"the engine runner failed {method} {path} ({typeName})")

/-- `RUNNER_JOB_ID.fullmatch(job)` -/
def runnerJobId (job : String) : Bool :=
  1 ≤ job.length && job.length ≤ 64 &&
    job.toList.all fun c => c.isAlphanum || c = '_' || c = '-'

/-- Raises `EngineTimedOut(text)` when no time is left. -/
def checkTime (runner : RunnerEngine) (check : DeadlineCheck) (text : String) :
    Except EngineExc Unit :=
  if runner.late check then .error (.engineTimedOut text) else .ok ()

/-- `status not in RESULT_STATUSES` hashes the status, which lists and dictionaries refuse. -/
def inResultStatuses : JsonValue → Except EngineExc Bool
  | .list _ => .error .typeError
  | .dict _ => .error .typeError
  | .str status => .ok (status = "ok" || status = "failed" || status = "rejected")
  | _ => .ok false

/-- `_http_stage` -/
def httpStage (fmt : PyFormat) (runner : RunnerEngine) (job deadline : String) :
    Except EngineExc (List (String × JsonValue)) := do
  checkTime runner .run "the stage deadline passed before the stage started"
  match runner.run with
  | .cancelled => throw (.engineCancelled "the job was cancelled; the engine runner cancelled it")
  | .timedOut =>
      throw (.engineTimedOut ("the engine exceeded its " ++ deadline ++
        " s deadline; the engine runner cancelled it"))
  | .answered reply =>
      let response ← runnerReply "POST" s!"/jobs/{job}/run" reply
      failUnless (response.status = 200) s!"the engine runner answered {response.status} to run"
      match response.body with
      | none => throw (.engineFailed "the engine runner returned no result JSON")
      | some (.dict result) =>
          let status := getOrNone result "status"
          let known ← inResultStatuses status
          failUnless known s!"the engine runner returned status {fmt.repr status}"
          pure result
      | some _ => throw (.engineFailed "the engine result is not a JSON object")

/-- What breaks a fetch. -/
def fetchFault : RunnerFault → EngineExc
  | .timeout => .engineTimedOut "the engine output did not arrive before the deadline"
  | .httpError typeName => .engineFailed s!"the engine output could not be fetched ({typeName})"

/-- The loop over the chunks of an output, from what is already written. -/
def receive (expected : Int) (broken : Option RunnerFault) :
    List ByteArray → ByteArray → Except EngineExc ByteArray
  | [], written =>
      match broken with
      | some fault => .error (fetchFault fault)
      | none => .ok written
  | chunk :: rest, written =>
      if expected < ((written.size + chunk.size : Nat) : Int) then
        .error (.engineFailed "the engine output is larger than the result says")
      else receive expected broken rest (written ++ chunk)

/-- `headers.get(name) == value` -/
def headerIs (header : Option String) (value : JsonValue) : Bool :=
  match header with
  | some text => isText text value
  | none => value.pyEq .null

/-- `_fetch_output` -/
def fetchOutput (runner : RunnerEngine) (output : List (String × JsonValue)) :
    Except EngineExc ByteArray := do
  match getOrNone output "bytes" with
  | .int expected =>
      failUnless (0 ≤ expected) "the engine result carries no output size"
      match runner.output with
      | .error fault => throw (fetchFault fault)
      | .ok response =>
          failUnless (response.status = 200)
            s!"the engine runner answered {response.status} for the output"
          failUnless (headerIs response.xSha256 (getOrNone output "sha256"))
            "the engine output X-Sha256 does not match the result"
          failUnless (response.contentLength = some (toString expected))
            "the engine output Content-Length does not match the result"
          receive expected response.broken response.chunks ByteArray.empty
  | _ => throw (.engineFailed "the engine result carries no output size")

/-- The bytes of the output of a result, as the sidecar serves them. -/
def httpArtifact (fmt : PyFormat) (runner : RunnerEngine) (job : String)
    (result : List (String × JsonValue)) : Except EngineExc ByteArray :=
  match getOrNone result "output" with
  | .dict output => do
      failUnless (isText s!"/jobs/{job}/output" (getOrNone output "url"))
        "the engine runner reported ok without its output URL"
      checkTime runner .fetch "the stage deadline passed before the output was fetched"
      let content ← fetchOutput runner output
      checkedOutput fmt content output
      pure content
  | _ => throw (.engineFailed "the engine runner reported ok without its output URL")

/-- One upload of `_run_http`. -/
def uploadInput (runner : RunnerEngine) (job name : String) : Except EngineExc Unit := do
  checkTime runner (.upload name) "the stage deadline passed while uploading inputs"
  let status ← runnerReply "PUT" s!"/jobs/{job}/inputs/{name}" (runner.putInput name)
  failUnless (status = 204) s!"the engine runner refused input {name} ({status})"

/-- `_run_http`; the artifact is its bytes. -/
def runHttp (fmt : PyFormat) (registered : RegisteredEngine) (stage : EngineStage)
    (runner : RunnerEngine) (job deadline : String) (inputs : List String) :
    Except EngineExc ByteArray := do
  failUnless (runnerJobId job) "the job id is not a valid engine runner job id"
  forM inputs fun name => uploadInput runner job name
  let result ← httpStage fmt runner job deadline
  checkedResult fmt registered stage result
  httpArtifact fmt runner job result

end AISmithEnginePlugin

end GpuWorkerPool
