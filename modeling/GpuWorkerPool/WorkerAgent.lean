import GpuWorkerPool.Coordinator
import GpuWorkerPool.Plugins

/-!
`WorkerAgent` serving one lease: validate, download the inputs into a workspace of the job, execute,
publish, and remove the workspace whatever happened. The heartbeats that run beside an execution
touch no file and are left out.
-/

namespace GpuWorkerPool

open Base

/-! ### Moving bytes -/

/-- Downloads of a transport. `object` is what a URL stands for; a download that returns has written
it to the destination, and no download takes away what stands elsewhere. -/
structure AssetTransfer where
  object : String → Option ByteArray
  download : (cwd : Location) → (url : String) → (destination : PosixPath) →
    (maxBytes : Option Int) → FileSystem → FileSystem × Except AgentExc Nat
  download_ok : ∀ {cwd url destination maxBytes fs fs' written},
    download cwd url destination maxBytes fs = (fs', .ok written) →
      ∃ content, object url = some content ∧ written = content.size ∧
        fs' (destination.resolve cwd) = some (.file content)
  download_frame : ∀ (cwd url destination maxBytes fs) {place entry},
    place ≠ destination.resolve cwd → fs place = some entry →
      (download cwd url destination maxBytes fs).1 place = some entry
  download_keeps : ∀ (places : Location → Prop) (cwd url destination maxBytes fs),
    FileSystem.Keeps places fs (download cwd url destination maxBytes fs).1

/-- What a streaming GET delivers: the status, the chunks, and what broke the stream after them. -/
structure HttpStream where
  status : Nat
  chunks : List ByteArray
  broken : Option AgentExc := none

namespace HttpAssetTransfer

/-- The loop over the chunks, from what is already written. -/
def writeChunks (maxBytes : Option Int) (broken : Option AgentExc) :
    List ByteArray → ByteArray → ByteArray × Except AgentExc Nat
  | [], written =>
      (written, match broken with | some error => .error error | none => .ok written.size)
  | chunk :: rest, written =>
      if maxBytes.any fun bound => bound < ((written.size + chunk.size : Nat) : Int) then
        (written, .error (.transferError "asset download passed the input bound"))
      else writeChunks maxBytes broken rest (written ++ chunk)

def content (chunks : List ByteArray) : ByteArray := chunks.foldl (· ++ ·) ByteArray.empty

theorem writeChunks_ok {maxBytes : Option Int} {broken : Option AgentExc} {chunks : List ByteArray}
    {start written : ByteArray} {n : Nat}
    (h : writeChunks maxBytes broken chunks start = (written, .ok n)) :
    broken = none ∧ written = chunks.foldl (· ++ ·) start ∧ n = written.size := by
  induction chunks generalizing start with
  | nil =>
      cases broken with
      | some error => exact absurd (congrArg Prod.snd h) (by simp [writeChunks])
      | none =>
          cases h
          exact ⟨rfl, rfl, rfl⟩
  | cons chunk rest ih =>
      rw [writeChunks] at h
      split_ifs at h
      · exact absurd (congrArg Prod.snd h) (by simp)
      · exact ih h

def download (stream : String → HttpStream) (cwd : Location) (url : String)
    (destination : PosixPath) (maxBytes : Option Int) (fs : FileSystem) :
    FileSystem × Except AgentExc Nat :=
  let response := stream url
  if response.status / 100 ≠ 2 then (fs, .error (.transferError "asset download failed"))
  else
    let outcome := writeChunks maxBytes response.broken response.chunks ByteArray.empty
    match fs.writeFile cwd destination outcome.1 with
    | (fs', .error error) => (fs', .error (.osError error))
    | (fs', .ok ()) => (fs', outcome.2)

def object (stream : String → HttpStream) (url : String) : Option ByteArray :=
  let response := stream url
  if response.status / 100 = 2 ∧ response.broken = none then some (content response.chunks) else none

theorem download_cases (stream : String → HttpStream) (cwd : Location) (url : String)
    (destination : PosixPath) (maxBytes : Option Int) (fs : FileSystem) :
    (∃ error, download stream cwd url destination maxBytes fs = (fs, .error error)) ∨
      ∃ written outcome,
        writeChunks maxBytes (stream url).broken (stream url).chunks ByteArray.empty =
            (written, outcome) ∧
          (stream url).status / 100 = 2 ∧
            download stream cwd url destination maxBytes fs =
              (fs.put (destination.resolve cwd) (.file written), outcome) := by
  rw [download]
  by_cases hstatus : (stream url).status / 100 = 2
  · simp only [hstatus, ne_eq, not_true_eq_false, if_false]
    cases hchunks : writeChunks maxBytes (stream url).broken (stream url).chunks ByteArray.empty with
    | mk written outcome =>
        rcases FileSystem.writeFile_cases cwd destination written fs with
          ⟨error, hfailed⟩ | ⟨-, hwritten⟩
        · exact Or.inl ⟨.osError error, by simp only [hfailed]⟩
        · exact Or.inr ⟨written, outcome, rfl, trivial, by rw [hwritten]⟩
  · exact Or.inl ⟨_, if_pos hstatus⟩

end HttpAssetTransfer

/-- `HttpAssetTransfer` over a client. -/
def httpAssetTransfer (stream : String → HttpStream) : AssetTransfer where
  object := HttpAssetTransfer.object stream
  download := HttpAssetTransfer.download stream
  download_ok := by
    intro cwd url destination maxBytes fs fs' written h
    rcases HttpAssetTransfer.download_cases stream cwd url destination maxBytes fs with
      ⟨error, hfailed⟩ | ⟨content, outcome, hchunks, hstatus, hdone⟩
    · rw [hfailed] at h
      exact absurd (congrArg Prod.snd h) (by simp)
    · rw [hdone] at h
      cases h
      obtain ⟨hbroken, hcontent, hsize⟩ := HttpAssetTransfer.writeChunks_ok hchunks
      refine ⟨content, ?_, hsize, by simp [FileSystem.put]⟩
      rw [HttpAssetTransfer.object, if_pos ⟨hstatus, hbroken⟩, hcontent]
      rfl
  download_frame := by
    intro cwd url destination maxBytes fs place entry hne hentry
    rcases HttpAssetTransfer.download_cases stream cwd url destination maxBytes fs with
      ⟨error, hfailed⟩ | ⟨content, outcome, -, -, hdone⟩
    · rwa [hfailed]
    · rw [hdone]
      exact (FileSystem.put_eq_of_ne fs _ hne).trans hentry
  download_keeps := by
    intro places cwd url destination maxBytes fs
    rcases HttpAssetTransfer.download_cases stream cwd url destination maxBytes fs with
      ⟨error, hfailed⟩ | ⟨content, outcome, -, -, hdone⟩
    · rw [hfailed]
      exact .refl places fs
    · rw [hdone]
      exact FileSystem.put_keeps places fs _ _

namespace MemoryAssetTransfer

/-- `store.read(_grant_key(url, MEMORY_READ_PREFIX))` -/
def read (store : MemoryAssetStore) (url : String) : Except AgentExc ByteArray :=
  match grantKey url memoryReadPrefix with
  | .error _ => .error (.transferError "asset grant is not addressable in memory")
  | .ok key =>
      match store.assets.lookup key with
      | none => .error (.raised "AssetNotFound")
      | some content => .ok content

/-- The bound is not looked at. -/
def download (store : MemoryAssetStore) (cwd : Location) (url : String) (destination : PosixPath)
    (_maxBytes : Option Int) (fs : FileSystem) : FileSystem × Except AgentExc Nat :=
  match read store url with
  | .error error => (fs, .error error)
  | .ok content =>
      match fs.ensureDirectory cwd destination.parent with
      | (fs', .error error) => (fs', .error (.osError error))
      | (fs', .ok ()) =>
          match fs'.writeFile cwd destination content with
          | (fs'', .error error) => (fs'', .error (.osError error))
          | (fs'', .ok ()) => (fs'', .ok content.size)

theorem download_cases (store : MemoryAssetStore) (cwd : Location) (url : String)
    (destination : PosixPath) (maxBytes : Option Int) (fs : FileSystem) :
    ∃ fs', (∀ place entry, fs place = some entry → fs' place = some entry) ∧
      ((∃ error, download store cwd url destination maxBytes fs = (fs', .error error)) ∨
        ∃ content, read store url = .ok content ∧
          download store cwd url destination maxBytes fs =
            (fs'.put (destination.resolve cwd) (.file content), .ok content.size)) := by
  rw [download]
  cases hread : read store url with
  | error error => exact ⟨fs, fun _ _ h => h, Or.inl ⟨error, rfl⟩⟩
  | ok content =>
      have hframe : ∀ place entry, fs place = some entry →
          (fs.ensureDirectory cwd destination.parent).1 place = some entry :=
        fun _ _ => FileSystem.ensureDirectory_eq_of_isSome cwd destination.parent fs
      cases hdir : fs.ensureDirectory cwd destination.parent with
      | mk fs' made =>
          rw [hdir] at hframe
          refine ⟨fs', hframe, ?_⟩
          cases made with
          | error error => exact Or.inl ⟨.osError error, rfl⟩
          | ok _ =>
              rcases FileSystem.writeFile_cases cwd destination content fs' with
                ⟨error, hfailed⟩ | ⟨-, hwritten⟩
              · exact Or.inl ⟨.osError error, by simp only [hfailed]⟩
              · exact Or.inr ⟨content, rfl, by simp only [hwritten]⟩

end MemoryAssetTransfer

/-- `MemoryAssetTransfer(store)` -/
def memoryAssetTransfer (store : MemoryAssetStore) : AssetTransfer where
  object url := (MemoryAssetTransfer.read store url).toOption
  download := MemoryAssetTransfer.download store
  download_ok := by
    intro cwd url destination maxBytes fs fs' written h
    obtain ⟨before, -, ⟨error, hfailed⟩ | ⟨content, hread, hdone⟩⟩ :=
      MemoryAssetTransfer.download_cases store cwd url destination maxBytes fs
    · rw [hfailed] at h
      exact absurd (congrArg Prod.snd h) (by simp)
    · rw [hdone] at h
      cases h
      exact ⟨content, by rw [hread]; rfl, rfl, by simp [FileSystem.put]⟩
  download_frame := by
    intro cwd url destination maxBytes fs place entry hne hentry
    obtain ⟨before, hframe, ⟨error, hfailed⟩ | ⟨content, -, hdone⟩⟩ :=
      MemoryAssetTransfer.download_cases store cwd url destination maxBytes fs
    · rw [hfailed]
      exact hframe place entry hentry
    · rw [hdone]
      exact (FileSystem.put_eq_of_ne before _ hne).trans (hframe place entry hentry)
  download_keeps := by
    intro places cwd url destination maxBytes fs
    obtain ⟨before, hframe, ⟨error, hfailed⟩ | ⟨content, -, hdone⟩⟩ :=
      MemoryAssetTransfer.download_cases store cwd url destination maxBytes fs
    · rw [hfailed]
      exact FileSystem.keeps_of_frame hframe
    · rw [hdone]
      exact (FileSystem.keeps_of_frame hframe).trans (FileSystem.put_keeps places before _ _)

/-! ### The awaits of an agent -/

inductive AgentOutcome where
  | idle
  | completed
  | failed
  | released
  | rejected
  deriving DecidableEq, Repr

/-- What an agent sends the coordinator about the job it serves. -/
inductive JobPost where
  | complete (jobId claimToken : String) (manifest : OutputManifest)
  | fail (jobId claimToken reason : String) (retryable : Bool) (failureCode : JobFailureCode)
  | release (jobId claimToken reason : String)

inductive AgentAction where
  | rmtree (path : PosixPath)
  | mkdir (path : PosixPath)
  | download (url : String) (destination : PosixPath) (maxBytes : Option Int)
  | clock
  | execute (context : ExecutionContext) (request : ValidatedRequest)
  | readFile (path : PosixPath)
  | upload (url : String) (source : PosixPath) (contentType : String)
  | post (call : JobPost)

namespace AgentAction

def Reply : AgentAction → Type
  | rmtree _ => Unit
  | mkdir _ => Except AgentExc Unit
  | download .. => Except AgentExc Nat
  | clock => DateTime
  | execute .. => Except AgentExc PluginArtifact
  | readFile _ => Except AgentExc ByteArray
  | upload .. => Except AgentExc Unit
  | post _ => Except AgentExc Nat

end AgentAction

/-- The machine an agent runs on: where it runs, its transport, what its plugins do to the files, and
how the coordinator answers, by the status of the response. -/
structure Machine where
  cwd : Location
  transfer : AssetTransfer
  execute : ExecutionContext → ValidatedRequest → FileSystem →
    FileSystem × Except AgentExc PluginArtifact
  now : DateTime := 0
  upload : String → PosixPath → String → Except AgentExc Unit := fun _ _ _ => .ok ()
  post : JobPost → Except AgentExc Nat := fun _ => .ok 204

namespace Machine

def readFile (m : Machine) (path : PosixPath) (fs : FileSystem) : Except AgentExc ByteArray :=
  match fs (path.resolve m.cwd) with
  | none => .error (.osError .fileNotFound)
  | some .directory => .error (.osError .isADirectory)
  | some (.file content) => .ok content

def exec (m : Machine) : (action : AgentAction) → FileSystem → FileSystem × action.Reply
  | .rmtree path, fs => (fs.rmtree m.cwd path, ())
  | .mkdir path, fs => ((fs.mkdir m.cwd path).1, (fs.mkdir m.cwd path).2.mapError .osError)
  | .download url destination maxBytes, fs =>
      m.transfer.download m.cwd url destination maxBytes fs
  | .clock, fs => (fs, m.now)
  | .execute context request, fs => m.execute context request fs
  | .readFile path, fs => (fs, m.readFile path fs)
  | .upload url source contentType, fs => (fs, m.upload url source contentType)
  | .post call, fs => (fs, m.post call)

end Machine

/-! ### Serving a lease -/

abbrev AgentCoroutine := Prog AgentAction AgentAction.Reply AgentExc

/-- A capability of a plugin, with the gate of the plugin. -/
structure ServedCapability where
  capability : WorkerCapability
  validate : LeaseGrant → Except AgentExc ValidatedRequest

structure WorkerAgent where
  workspaceRoot : PosixPath
  maxInputBytes : Int := 2 * 1024 * 1024 * 1024
  served : Dict String ServedCapability := Table.empty
  /-- The stop event is set. -/
  stopping : Bool := false

def inputsDirectory : String := "inputs"

def drainReleaseReason : String := "draining"

namespace WorkerAgent

def post (call : JobPost) : AgentCoroutine Nat := .await (.post call) Prog.ofExcept

/-- `reason[:MAX_AUDIT_REASON_LENGTH]` -/
def boundedReason (reason : String) : String :=
  String.ofList (reason.toList.take maxAuditReasonLength)

/-- `_reject`; the status of the response is not looked at. -/
def reject (lease : LeaseGrant) (reason : String) : AgentCoroutine AgentOutcome := do
  let _status ← post (.fail lease.jobId lease.claimToken (boundedReason reason) false
    .unsupportedOperation)
  pure .rejected

/-- `_release`; the status of the response is not looked at. -/
def release (lease : LeaseGrant) (reason : String) : AgentCoroutine AgentOutcome := do
  let _status ← post (.release lease.jobId lease.claimToken (boundedReason reason))
  pure .released

/-- Where `_download_inputs` puts the object of a grant. -/
def destination (inputs : PosixPath) (grant : AssetGrant) : PosixPath :=
  inputs.child (PosixPath.ofText grant.key).name

/-- The loop of `_download_inputs`, from the paths of the grants already served. -/
def downloadGrants (agent : WorkerAgent) (inputs : PosixPath) :
    List AssetGrant → Dict String PosixPath → AgentCoroutine (Dict String PosixPath)
  | [], paths => pure paths
  | grant :: rest, paths =>
      .await (.download grant.url (destination inputs grant) (some agent.maxInputBytes))
        fun reply => do
          let written ← Prog.ofExcept reply
          if agent.maxInputBytes < (written : Int) then
            throw (.transferError "an input passed the byte bound")
          else downloadGrants agent inputs rest (paths.put (grant.key, destination inputs grant))

/-- `_download_inputs` -/
def downloadInputs (agent : WorkerAgent) (lease : LeaseGrant) (workspace : PosixPath) :
    AgentCoroutine (Dict String PosixPath) :=
  .await (.rmtree workspace) fun _ =>
    .await (.mkdir (workspace.child inputsDirectory)) fun made => do
      Prog.ofExcept made
      downloadGrants agent (workspace.child inputsDirectory) lease.inputGrants Table.empty

/-- The artifact with the bytes of its file, as the coordinator's side knows it. -/
def fileOutput (output : PluginArtifact) (content : ByteArray) : PluginOutput where
  content := content
  contentType := output.contentType
  modelId := output.modelId
  modelVersion := output.modelVersion
  seed := output.seed
  diagnostics := output.diagnostics

/-- `_publish`: a conflict or an unprocessable completion is a failed attempt, any other status
outside 200 to 299 raises. -/
def publish (served : ServedCapability) (lease : LeaseGrant) (output : PluginArtifact) :
    AgentCoroutine AgentOutcome :=
  .await (.readFile output.path) fun read => do
    let content ← Prog.ofExcept read
    let file := fileOutput output content
    let _uploaded ← (.await (.upload lease.outputGrant.url output.path
      (uploadContentType lease.outputGrant file)) Prog.ofExcept : AgentCoroutine Unit)
    let status ← post (.complete lease.jobId lease.claimToken
      (outputManifest served.capability lease file))
    if status = 409 ∨ status = 422 then pure .failed
    else if status / 100 = 2 then pure .completed
    else throw (.raised "HTTPStatusError")

/-- `workspace_root / job_id` -/
def workspace (agent : WorkerAgent) (jobId : String) : PosixPath := agent.workspaceRoot.child jobId

/-- The inner `try` of `_serve`. -/
def attempt (agent : WorkerAgent) (served : ServedCapability) (lease : LeaseGrant)
    (request : ValidatedRequest) : AgentCoroutine AgentOutcome := do
  let workspace := agent.workspace lease.jobId
  let inputPaths ← downloadInputs agent lease workspace
  let now ← (.await .clock Prog.ret : AgentCoroutine DateTime)
  let output ← (.await (.execute
    { jobId := lease.jobId, leaseId := lease.claimToken,
      deadline := now + seconds lease.executionDeadlineSeconds, workspace := workspace,
      inputPaths := inputPaths } request) Prog.ofExcept : AgentCoroutine PluginArtifact)
  publish served lease output

/-- The handlers of `_serve`. -/
def afterFailure (lease : LeaseGrant) : AgentExc → AgentCoroutine AgentOutcome
  | .pluginRequestRejected text => reject lease text
  | .cancelledError => throw .cancelledError
  | error => release lease error.typeName

/-- `_serve` -/
def serve (agent : WorkerAgent) (lease : LeaseGrant) : AgentCoroutine AgentOutcome :=
  match agent.served.lookup lease.capabilityId with
  | none => reject lease "capability is not served by this worker"
  | some served =>
      match served.validate lease with
      | .error (.pluginRequestRejected text) => reject lease text
      | .error error => throw error
      | .ok request =>
          if agent.stopping then release lease drainReleaseReason
          else
            ((attempt agent served lease request).handle (afterFailure lease)).ensure
              (.await (.rmtree (agent.workspace lease.jobId)) Prog.ret)

/-! ### What each part awaits -/

section Footprint

variable {P : AgentAction → Prop} {agent : WorkerAgent} {served : ServedCapability}
  {lease : LeaseGrant}

theorem awaits_post {call : JobPost} (h : P (.post call)) : (post call).Awaits P :=
  ⟨h, fun _ => Prog.awaits_ofExcept _⟩

theorem awaits_reject {reason : String} (hpost : ∀ call, P (.post call)) :
    (reject lease reason).Awaits P :=
  .bind (awaits_post (hpost _)) fun _ => trivial

theorem awaits_release {reason : String} (hpost : ∀ call, P (.post call)) :
    (release lease reason).Awaits P :=
  .bind (awaits_post (hpost _)) fun _ => trivial

theorem awaits_afterFailure {error : AgentExc} (hpost : ∀ call, P (.post call)) :
    (afterFailure lease error).Awaits P := by
  cases error with
  | pluginRequestRejected text => exact awaits_reject hpost
  | cancelledError => trivial
  | _ => exact awaits_release hpost

theorem awaits_downloadGrants {inputs : PosixPath}
    (hdownload : ∀ url destination maxBytes, P (.download url destination maxBytes))
    (grants : List AssetGrant) (paths : Dict String PosixPath) :
    (downloadGrants agent inputs grants paths).Awaits P := by
  induction grants generalizing paths with
  | nil => trivial
  | cons grant rest ih =>
      refine ⟨hdownload _ _ _, fun reply => .bind (Prog.awaits_ofExcept reply) fun written => ?_⟩
      split
      · trivial
      · exact ih _

theorem awaits_downloadInputs {workspace : PosixPath} (hrmtree : P (.rmtree workspace))
    (hmkdir : ∀ path, P (.mkdir path))
    (hdownload : ∀ url destination maxBytes, P (.download url destination maxBytes)) :
    (downloadInputs agent lease workspace).Awaits P :=
  ⟨hrmtree, fun _ => ⟨hmkdir _, fun made =>
    .bind (Prog.awaits_ofExcept made) fun _ => awaits_downloadGrants hdownload _ _⟩⟩

theorem awaits_publish {output : PluginArtifact} (hread : ∀ path, P (.readFile path))
    (hupload : ∀ url source contentType, P (.upload url source contentType))
    (hpost : ∀ call, P (.post call)) : (publish served lease output).Awaits P := by
  refine ⟨hread _, fun reply => .bind (Prog.awaits_ofExcept reply) fun content => ?_⟩
  refine .bind ⟨hupload _ _ _, fun reply => Prog.awaits_ofExcept reply⟩ fun _ => ?_
  refine .bind (awaits_post (hpost _)) fun status => ?_
  split_ifs <;> trivial

end Footprint

end WorkerAgent

end GpuWorkerPool
