import GpuWorkerPool.Base.JsonSize
import GpuWorkerPool.EngineAgreement
import GpuWorkerPool.EngineInspection
import GpuWorkerPool.EngineSchema
import GpuWorkerPool.RecipeAttestation

/-!
`AISmithEnginePlugin.execute`: the engine is inspected again before every job, the stage runs on one
of the two transports, and the completion reports the runtime and what the engine says it ran. The
coordinator holds that report against the job; what it then finds depends on the engine alone.
-/

namespace GpuWorkerPool

open Base

/-! ### What a job meets -/

/-- A value that was parsed from JSON text. -/
abbrev ParsedJson := { value : JsonValue // value.wellFormed }

/-- The exceptions of an execution. -/
inductive ExecuteExc where
  | engine (error : EngineExc)
  | keyError (name : String)
  | valueError (text : String)
  | osError (text : String)
  | assertionError

def ofInspectExc : InspectExc → ExecuteExc
  | .engineDrift text => .engine (.engineDrift text)
  | .keyError name => .keyError name
  | .valueError text => .valueError text

/-- What an inspection raises: `InspectTimedOut`, or anything else. -/
inductive InspectFault where
  | timedOut (text : String)
  | raised (error : ExecuteExc)

/-- How `engine inspect` ends: it cannot be started, it takes too long, or it exits and leaves what
it printed, if that is JSON. -/
inductive ProcessInspect where
  | unstarted (text : String)
  | timedOut
  | exited (code : Int) (printed : Option ParsedJson)

/-- The answer to `GET /inspect`: a status and the JSON of the body, if it is JSON. -/
structure InspectAnswer where
  status : Nat
  body : Option ParsedJson

/-- The engine behind a plugin. -/
inductive EngineRuntime where
  | process (inspect : ProcessInspect) (engine : LocalEngine)
  | sidecar (inspect : Except RunnerFault InspectAnswer) (runner : RunnerEngine)

/-- The results it leaves were parsed. -/
def EngineRuntime.Parsed : EngineRuntime → Prop
  | process _ engine => ∀ document, engine.resultDocument = some document → document.wellFormed
  | sidecar _ runner => ∀ answer body, runner.run = .answered (.ok answer) →
      answer.body = some body → body.wellFormed

/-- One execution: the engine, where the deadline falls, and the texts of the two timeouts. -/
structure EngineSession where
  runtime : EngineRuntime
  parsed : runtime.Parsed
  lateToInspect : Bool
  cutShort : Bool
  lateToRun : Bool
  inspectSeconds : String
  deadline : String

/-! ### The plugin -/

/-- `missing_pins`: a pin is missing when it is `None` or empty. -/
def PinnedRecipe.missingPins (recipe : PinnedRecipe) : List String :=
  [("engine_tag", recipe.engineTag), ("engine_commit", recipe.engineCommit),
    ("sources_lock_sha256", recipe.sourcesLockSha256),
    ("weights_lock_sha256", recipe.weightsLockSha256)].filterMap fun pin =>
      if pin.2.getD "" = "" then some pin.1 else none

/-- `unusable_reason(profile) is None` -/
def EngineProfile.usable (profile : EngineProfile) : Bool :=
  profile.qualified && profile.recipe.missingPins.isEmpty

/-- A plugin whose constructor did not raise. -/
structure EnginePlugin [FloatRepr] where
  profile : EngineProfile
  versions : Dict String String
  namespaced : Bool := false
  usable : profile.usable
  recipe_entry : versions.lookup recipeKeyName = some profile.recipeVersion

namespace AISmithEnginePlugin

section Inspect

/-- A report that is a JSON object. -/
def inspectReport (text : String) : Option ParsedJson → Except InspectFault JsonObject
  | some ⟨.dict members, parsed⟩ => .ok ⟨members, parsed⟩
  | _ => .error (.raised (.engine (.engineDrift text)))

/-- `run_inspect` -/
def runInspect (seconds : String) : ProcessInspect → Except InspectFault JsonObject
  | .unstarted text => .error (.raised (.osError text))
  | .timedOut => .error (.timedOut ("engine inspect did not finish in " ++ seconds ++ " s"))
  | .exited code printed =>
      if code ≠ 0 then
        .error (.raised (.engine (.engineDrift s!"engine inspect exited {code}")))
      else inspectReport "engine inspect printed no JSON report" printed

/-- `http_inspect` -/
def httpInspect (seconds : String) :
    Except RunnerFault InspectAnswer → Except InspectFault JsonObject
  | .error .timeout =>
      .error (.timedOut ("engine inspect did not finish in " ++ seconds ++ " s"))
  | .error (.httpError typeName) =>
      .error (.raised (.engine (.engineDrift s!"the engine runner is unreachable ({typeName})")))
  | .ok answer =>
      if answer.status ≠ 200 then
        .error (.raised (.engine (.engineDrift s!"engine inspect answered {answer.status}")))
      else inspectReport "engine inspect returned no JSON report" answer.body

/-- `_inspect` -/
def inspect (session : EngineSession) : Except InspectFault JsonObject :=
  match session.runtime with
  | .process inspect _ => runInspect session.inspectSeconds inspect
  | .sidecar inspect _ => httpInspect session.inspectSeconds inspect

/-- The inspection that spends the job's own time: cut short by the deadline of the lease, it is a
timeout of the job and not of the engine. -/
def inspectInTime (session : EngineSession) : Except ExecuteExc JsonObject :=
  if session.lateToInspect then
    .error (.engine (.engineTimedOut "the lease deadline passed before the engine was inspected"))
  else
    match inspect session with
    | .ok report => .ok report
    | .error (.timedOut text) =>
        if session.cutShort then
          .error (.engine
            (.engineTimedOut "the lease deadline passed while the engine was inspected"))
        else .error (.engine (.engineDrift text))
    | .error (.raised error) => .error error

theorem inspect_of_inspectInTime {session : EngineSession} {inspected : JsonObject}
    (h : inspectInTime session = .ok inspected) : inspect session = .ok inspected := by
  rw [inspectInTime] at h
  cases hlate : session.lateToInspect with
  | true =>
      rw [if_pos hlate] at h
      cases h
  | false =>
      rw [if_neg (by simp [hlate])] at h
      split at h
      next report hreport =>
        obtain rfl := Except.ok.inj h
        exact hreport
      · split at h <;> cases h
      · cases h

/-! ### The two transports, with the result they hand over -/

/-- `_run_local` -/
def runProcess (fmt : PyFormat) (registered : RegisteredEngine) (stage : EngineStage)
    (engine : LocalEngine) : Except EngineExc (List (String × JsonValue) × ByteArray) := do
  let result ← localResult fmt engine
  checkedResult fmt registered stage result
  let artifact ← localArtifact fmt engine result
  pure (result, artifact)

/-- `_run_http` -/
def runSidecar (fmt : PyFormat) (registered : RegisteredEngine) (stage : EngineStage)
    (runner : RunnerEngine) (job deadline : String) (inputs : List String) :
    Except EngineExc (List (String × JsonValue) × ByteArray) := do
  failUnless (runnerJobId job) "the job id is not a valid engine runner job id"
  forM inputs fun name => uploadInput runner job name
  let result ← httpStage fmt runner job deadline
  checkedResult fmt registered stage result
  let artifact ← httpArtifact fmt runner job result
  pure (result, artifact)

/-- The transport that the plugin is configured for. -/
def runStage (fmt : PyFormat) (registered : RegisteredEngine) (stage : EngineStage)
    (job : String) (inputs : List String) (session : EngineSession) :
    Except EngineExc (List (String × JsonValue) × ByteArray) :=
  match session.runtime with
  | .process _ engine => runProcess fmt registered stage engine
  | .sidecar _ runner => runSidecar fmt registered stage runner job session.deadline inputs

end Inspect

/-! ### The report of a completion -/

section Report

/-- `result["effective_inputs"]`, if it is an object. -/
def effectiveOf (result : JsonObject) : List (String × JsonValue) :=
  membersOf (getOrNone result.members "effective_inputs")

/-- The attested inputs that the job set, as the engine reports it ran them. -/
def effectiveInputs (stage : EngineStage) (request : ValidatedRequest) (result : JsonObject) :
    Dict String JsonValue :=
  .ofPairs ((stage.attestedInputs.filter fun name => (request.inputs.lookup name).isSome).map
    fun name => (name, getOrNone (effectiveOf result) name))

def reportedWeights (result : JsonObject) : JsonValue :=
  match getOrNone result.members "weights" with
  | .dict weights => .dict [("ok", getOrNone weights "ok"), ("pinned", getOrNone weights "pinned")]
  | _ => .null

def reportMembers (attested : Dict String String) (stage : EngineStage) (request : ValidatedRequest)
    (result : JsonObject) : List (String × JsonValue) := [
  ("runtime_versions", versionsValue attested),
  ("effective_inputs", .dict (effectiveInputs stage request result).rows),
  ("engine_effective_inputs", .dict (effectiveOf result)),
  ("stage", .str stage.stage),
  ("engine", getOrNone result.members "engine"),
  ("gate", getOrNone result.members "gate"),
  ("measured", getOrNone result.members "measured"),
  ("weights", reportedWeights result),
  ("timings_s", getOrNone result.members "timings_s")]

theorem wellFormed_getOrNone {members : List (String × JsonValue)}
    (h : (JsonValue.dict members).wellFormed) (name : String) :
    (getOrNone members name).wellFormed := by
  rw [getOrNone]
  cases hget : members.lookup name with
  | none => rfl
  | some value => exact (JsonValue.wellFormed_dict.mp h).2 _ (JsonValue.mem_of_lookup hget)

theorem wellFormed_membersOf {value : JsonValue} (h : value.wellFormed) :
    (JsonValue.dict (membersOf value)).wellFormed := by
  cases value with
  | dict members => exact h
  | _ => rfl

theorem wellFormed_effectiveOf (result : JsonObject) :
    (JsonValue.dict (effectiveOf result)).wellFormed :=
  wellFormed_membersOf (wellFormed_getOrNone result.wellFormed _)

theorem wellFormed_effectiveInputs (stage : EngineStage) (request : ValidatedRequest)
    (result : JsonObject) :
    (JsonValue.dict (effectiveInputs stage request result).rows).wellFormed := by
  refine JsonValue.wellFormed_dict.mpr ⟨(effectiveInputs stage request result).keys_nodup, ?_⟩
  intro member hmember
  obtain ⟨name, -, rfl⟩ := List.mem_map.mp (Dict.mem_of_mem_ofPairs hmember)
  exact wellFormed_getOrNone (wellFormed_effectiveOf result) name

theorem wellFormed_versionsValue (versions : Dict String String) :
    (versionsValue versions).wellFormed := by
  refine JsonValue.wellFormed_dict.mpr ⟨?_, fun member hmember => ?_⟩
  · rw [List.map_map]
    exact versions.keys_nodup
  · obtain ⟨row, -, rfl⟩ := List.mem_map.mp hmember
    rfl

theorem wellFormed_reportedWeights (result : JsonObject) : (reportedWeights result).wellFormed := by
  have hweights := wellFormed_getOrNone result.wellFormed "weights"
  rw [reportedWeights]
  split
  next weights heq =>
    rw [heq] at hweights
    refine JsonValue.wellFormed_dict.mpr ⟨by simp, ?_⟩
    simp only [List.forall_mem_cons]
    exact ⟨wellFormed_getOrNone hweights _, wellFormed_getOrNone hweights _, by simp⟩
  · rfl

/-- The diagnostics before they are bounded. -/
def completionReport (attested : Dict String String) (stage : EngineStage)
    (request : ValidatedRequest) (result : JsonObject) : JsonObject where
  members := reportMembers attested stage request result
  wellFormed := by
    refine JsonValue.wellFormed_dict.mpr ⟨by simp [reportMembers], ?_⟩
    simp only [reportMembers, List.forall_mem_cons]
    exact ⟨wellFormed_versionsValue attested, wellFormed_effectiveInputs stage request result,
      wellFormed_effectiveOf result, rfl, wellFormed_getOrNone result.wellFormed _,
      wellFormed_getOrNone result.wellFormed _, wellFormed_getOrNone result.wellFormed _,
      wellFormed_reportedWeights result, wellFormed_getOrNone result.wellFormed _, by simp⟩

end Report

/-! ### The execution -/

section Transports

variable {fmt : PyFormat} {registered : RegisteredEngine} {stage : EngineStage} {job : String}
  {inputs : List String} {session : EngineSession} {ran : List (String × JsonValue) × ByteArray}

theorem runLocal_eq (fmt : PyFormat) (registered : RegisteredEngine) (stage : EngineStage)
    (engine : LocalEngine) :
    runLocal fmt registered stage engine = Prod.snd <$> runProcess fmt registered stage engine := by
  simp only [runLocal, runProcess, map_bind, map_pure, bind_pure]

theorem runHttp_eq (fmt : PyFormat) (registered : RegisteredEngine) (stage : EngineStage)
    (runner : RunnerEngine) (job deadline : String) (inputs : List String) :
    runHttp fmt registered stage runner job deadline inputs =
      Prod.snd <$> runSidecar fmt registered stage runner job deadline inputs := by
  simp only [runHttp, runSidecar, map_bind, map_pure, bind_pure]

/-- The result of a process is its document. -/
theorem document_of_localResult {engine : LocalEngine} {result : List (String × JsonValue)}
    (h : localResult fmt engine = .ok result) : engine.resultDocument = some (.dict result) := by
  rw [localResult, bind_ok_iff] at h
  obtain ⟨code, -, h⟩ := h
  split at h
  · cases h
  · cases h
  next expected document hstatus hdocument =>
    simp only [bind_ok_iff, exists_unit_iff, pure_ok_iff] at h
    obtain ⟨-, rfl⟩ := h
    exact hdocument
  · cases h

/-- The result of a sidecar is the body of its answer. -/
theorem body_of_httpStage {runner : RunnerEngine} {deadline : String}
    {result : List (String × JsonValue)} (h : httpStage fmt runner job deadline = .ok result) :
    ∃ answer, runner.run = .answered (.ok answer) ∧ answer.body = some (.dict result) := by
  rw [httpStage, bind_ok_iff] at h
  obtain ⟨-, -, h⟩ := h
  split at h
  · cases h
  · cases h
  next reply hreply =>
    rw [bind_ok_iff] at h
    obtain ⟨answer, hanswer, h⟩ := h
    rw [bind_ok_iff] at h
    obtain ⟨-, -, h⟩ := h
    have hok : reply = .ok answer := by
      rcases reply with fault | reply
      · cases fault <;> cases hanswer
      · exact congrArg Except.ok (Except.ok.inj hanswer)
    refine ⟨answer, hok ▸ hreply, ?_⟩
    split at h
    · cases h
    next document hbody =>
      simp only [bind_ok_iff, exists_unit_iff, pure_ok_iff] at h
      obtain ⟨-, -, -, rfl⟩ := h
      exact hbody
    · cases h

theorem wellFormed_runStage (h : runStage fmt registered stage job inputs session = .ok ran) :
    (JsonValue.dict ran.1).wellFormed := by
  have hparsed := session.parsed
  rw [runStage] at h
  split at h
  next hruntime =>
    rw [hruntime] at hparsed
    simp only [runProcess, bind_ok_iff, exists_unit_iff, pure_ok_iff] at h
    obtain ⟨result, hresult, -, artifact, -, rfl⟩ := h
    exact hparsed _ (document_of_localResult hresult)
  next hruntime =>
    rw [hruntime] at hparsed
    simp only [runSidecar, bind_ok_iff, exists_unit_iff, pure_ok_iff] at h
    obtain ⟨-, -, result, hresult, -, artifact, -, rfl⟩ := h
    obtain ⟨answer, hanswer, hbody⟩ := body_of_httpStage hresult
    exact hparsed answer _ hanswer hbody

/-- Both transports check the result before they hand it over. -/
theorem checkedResult_of_runStage
    (h : runStage fmt registered stage job inputs session = .ok ran) :
    checkedResult fmt registered stage ran.1 = .ok () := by
  rw [runStage] at h
  split at h
  · simp only [runProcess, bind_ok_iff, exists_unit_iff, pure_ok_iff] at h
    obtain ⟨result, -, hchecked, artifact, -, rfl⟩ := h
    exact hchecked
  · simp only [runSidecar, bind_ok_iff, exists_unit_iff, pure_ok_iff] at h
    obtain ⟨-, -, result, -, hchecked, artifact, -, rfl⟩ := h
    exact hchecked

end Transports

section Execute

/-- The result of the stage and the bytes of its artifact. -/
def ranStage (fmt : PyFormat) (registered : RegisteredEngine) (stage : EngineStage)
    (job : String) (inputs : List String) (session : EngineSession) :
    Except ExecuteExc (JsonObject × ByteArray) :=
  match h : runStage fmt registered stage job inputs session with
  | .ok ran => .ok (⟨ran.1, wellFormed_runStage h⟩, ran.2)
  | .error error => .error (.engine error)

theorem ranStage_ok {fmt : PyFormat} {registered : RegisteredEngine} {stage : EngineStage}
    {job : String} {names : List String} {session : EngineSession} {ran : JsonObject × ByteArray}
    (h : ranStage fmt registered stage job names session = .ok ran) :
    runStage fmt registered stage job names session = .ok (ran.1.members, ran.2) := by
  rw [ranStage] at h
  split at h
  next ran' hran =>
    obtain rfl := Except.ok.inj h
    exact hran
  · cases h

theorem bounded_of_fits [FloatRepr] {d : JsonObject} (h : fitsPayload d) : bounded d = .ok d := by
  have hreloaded := reloaded_of_finite (finite_of_fits h)
  rw [bounded, hreloaded, optionalDiagnostics, firstGood, if_pos h]

theorem ranStage_of_runStage {fmt : PyFormat} {registered : RegisteredEngine} {stage : EngineStage}
    {job : String} {names : List String} {session : EngineSession}
    {ran : List (String × JsonValue) × ByteArray}
    (h : runStage fmt registered stage job names session = .ok ran) :
    ranStage fmt registered stage job names session =
      .ok (⟨ran.1, wellFormed_runStage h⟩, ran.2) := by
  rw [ranStage]
  split
  next ran' hran =>
    obtain rfl := Except.ok.inj (hran.symm.trans h)
    rfl
  next error herror => cases herror.symm.trans h

/-- `self.versions[name]` -/
def versionOf (versions : Dict String String) (name : String) : Except ExecuteExc String :=
  match versions.lookup name with
  | some version => .ok version
  | none => .error (.keyError name)

/-- The entries that a result is compared with. -/
def registeredEngine (versions : Dict String String) : Except ExecuteExc RegisteredEngine := do
  let commit ← versionOf versions "aismith_engine_commit"
  let sourcesLock ← versionOf versions "aismith_sources_lock"
  let weightsLock ← versionOf versions "aismith_weights_lock"
  pure { commit, sourcesLock, weightsLock }

/-- The stage inputs that are bound to downloaded files. -/
def boundNames (context : ExecutionContext) (request : ValidatedRequest) :
    Except ExecuteExc (List String) :=
  match request.inputs.lookup inputsPayloadKey with
  | none => .error (.keyError inputsPayloadKey)
  | some (.dict bound) => do
      forM bound fun row =>
        match row.2 with
        | .str key =>
            if (context.inputPaths.lookup key).isSome then .ok () else .error (.keyError key)
        | _ => .error (.keyError row.1)
      pure (bound.map Prod.fst)
  | some _ => .error .assertionError

variable [FloatRepr] [PyDigits] [ReportText]

/-- The versions of a runtime that is still the registered one. -/
def unchangedVersions (plugin : EnginePlugin) (report : JsonObject) :
    Except ExecuteExc (Dict String String) :=
  match engineVersions plugin.profile report with
  | .error error => .error (ofInspectExc error)
  | .ok versions =>
      let actual : Dict String String := .ofPairs versions
      if actual.same plugin.versions then .ok actual
      else .error (.engine (.engineDrift
        "the engine runtime changed; restart the worker and resolve a new recipe"))

/-- What a completion attests. -/
def attestedBy (plugin : EnginePlugin) (actual : Dict String String) :
    Except ExecuteExc (Dict String String) :=
  if plugin.namespaced then
    match attestedVersions plugin.profile.name actual with
    | some attested => .ok attested
    | none => .error (.keyError recipeKeyName)
  else .ok actual

/-- `execute`; the artifact is its bytes. -/
def execute (fmt : PyFormat) (plugin : EnginePlugin) (context : ExecutionContext)
    (session : EngineSession) (request : ValidatedRequest) : Except ExecuteExc PluginOutput :=
  match plugin.profile.recipe.stageFor request.capabilityId with
  | none => .error (.engine (.pluginRequestRejected "unsupported capability"))
  | some stage => do
      let inspected ← inspectInTime session
      let actual ← unchangedVersions plugin inspected
      let inputs ← boundNames context request
      if session.lateToRun then
        throw (.engine (.engineTimedOut "the lease deadline passed before the stage started"))
      else do
        -- The runtime is the registered one, so the entries are there.
        let registered ← registeredEngine plugin.versions
        let ran ← ranStage fmt registered stage context.jobId inputs session
        let attested ← attestedBy plugin actual
        match bounded (completionReport attested stage request ran.1) with
        | .error error => throw (.engine error)
        | .ok diagnostics =>
            pure
              { content := ran.2, contentType := glbContentType,
                modelId := "aismith-engine/" ++ stage.stage, modelVersion := registered.commit,
                seed := request.seed, diagnostics }

/-- An execution in which nothing goes wrong has an output. -/
theorem execute_succeeds {fmt : PyFormat} {plugin : EnginePlugin} {context : ExecutionContext}
    {session : EngineSession} {request : ValidatedRequest} {stage : EngineStage}
    {inspected : JsonObject} {actual : Dict String String} {names : List String}
    {registered : RegisteredEngine} {ran : List (String × JsonValue) × ByteArray}
    (hstage : plugin.profile.recipe.stageFor request.capabilityId = some stage)
    (hinspected : inspectInTime session = .ok inspected)
    (hactual : unchangedVersions plugin inspected = .ok actual)
    (hnames : boundNames context request = .ok names) (htime : session.lateToRun = false)
    (hregistered : registeredEngine plugin.versions = .ok registered)
    (hran : runStage fmt registered stage context.jobId names session = .ok ran)
    (halone : plugin.namespaced = false)
    (hfits : fitsPayload (completionReport actual stage request
      ⟨ran.1, wellFormed_runStage hran⟩)) :
    ∃ output, execute fmt plugin context session request = .ok output := by
  have hattested : attestedBy plugin actual = .ok actual := by
    rw [attestedBy, halone]
    rfl
  have hstep := ranStage_of_runStage hran
  rw [execute, hstage]
  simp only [hinspected, hactual, hnames, htime, hregistered, hstep, hattested,
    bounded_of_fits hfits, bind, Except.bind, Bool.false_eq_true, if_false]
  exact ⟨_, rfl⟩

end Execute

/-! ### Attestation -/

section Attestation

variable {stage : EngineStage} {request : ValidatedRequest}
  {record : JobRecord} {result : JsonObject}

/-- For every attested input that the job sets, the engine reports the value of the job. -/
def EchoesInputs (stage : EngineStage) (payload : JobPayload) (result : JsonObject) : Prop :=
  ∀ name ∈ stage.attestedInputs, ∀ value, payload.get? name = some value →
    (getOrNone (effectiveOf result) name).pyEq value

/-- Sections that are not optional pass through the bound. -/
theorem get?_of_bounded [FloatRepr] {d bounded' : JsonObject} (h : bounded d = .ok bounded')
    {name : String} (hname : name ∉ optionalDiagnostics) : bounded'.get? name = d.get? name := by
  rw [bounded] at h
  rcases @firstGood_cases _ _ fitsPayload (fun d name => omitting d [name]) (reloaded d)
    optionalDiagnostics with ⟨taken, hfirst, hshortest⟩ | ⟨hnone, -⟩
  · have htaken := hshortest.taken_prefix
    have hgood := hshortest.good_after
    rw [hfirst] at h
    rw [foldl_omitting (htaken.sublist.nodup (by decide)), omitting_reloaded] at h hgood
    rw [fitsPayload_reloaded] at hgood
    rw [reloaded_of_finite (finite_of_fits hgood)] at h
    obtain rfl := Except.ok.inj h
    exact get?_omitting (fun hmem => hname (htaken.subset hmem)) d
  · rw [hnone] at h
    cases h

theorem getOrNone_effectiveInputs (stage : EngineStage) (request : ValidatedRequest)
    (result : JsonObject) (name : String) :
    ((effectiveInputs stage request result).rows.lookup name).getD .null =
      if name ∈ stage.attestedInputs ∧ (request.inputs.lookup name).isSome then
        getOrNone (effectiveOf result) name
      else .null := by
  rw [Dict.lookup_rows, effectiveInputs, Dict.lookup_ofPairs_map]
  simp only [List.mem_filter]
  split <;> rfl

/-- The comparison of the coordinator, for a recipe without defaults. -/
theorem coversInputs_iff {cfg : ServiceConfig} {recipe : String} {diagnostics : JsonObject}
    (hreport : diagnostics.get? "effective_inputs" =
      some (.dict (effectiveInputs stage request result).rows))
    (hattested : cfg.recipeAttestedInputs recipe record.capabilityId = stage.attestedInputs)
    (hdefaults : cfg.recipeDefaults recipe = [])
    (hset : ∀ name ∈ stage.attestedInputs,
      request.inputs.lookup name = record.payload.get? name) :
    coversInputs cfg recipe record diagnostics ↔ EchoesInputs stage record.payload result := by
  rw [coversInputs, hreport]
  dsimp only
  rw [hattested, List.all_eq_true]
  refine forall₂_congr fun name hname => ?_
  rw [memberEq, getOrNone_effectiveInputs, expectedInput, hdefaults, hset name hname]
  cases hget : record.payload.get? name with
  | none => simp [JsonValue.pyEq]
  | some value => simp [hname]

/-- An accepted request has the inputs of the job, other than the map of its files. -/
theorem lookup_request {lease : LeaseGrant} (h : validateStage stage lease = .ok request)
    {name : String} (hne : name ≠ inputsPayloadKey) :
    request.inputs.lookup name = lease.payload.get? name := by
  have hkeys := (validateStage_ok_iff.mp h).1.keys
  ext value
  rw [request_lookup h hne]
  refine ⟨And.right, fun hget => ⟨?_, hget⟩⟩
  exact (hkeys _ (JsonValue.mem_of_lookup hget)).resolve_right hne

end Attestation

/-! ### Versions -/

section Versions

/-- The keys that an engine registers. -/
def engineKeys : List String :=
  ["magic_recipe", "magic_profile", "aismith_engine_version", "aismith_engine_commit",
    "aismith_sources_lock", "aismith_weights_lock", "gpu_compute_capability", "blender",
    "trellis_torch", "magic_config"]

theorem keys_of_engineVersions [FloatRepr] [PyDigits] [ReportText] {profile : EngineProfile}
    {report : JsonObject} {versions : List (String × String)}
    (h : engineVersions profile report = .ok versions) :
    versions.map Prod.fst = engineKeys := by
  rw [engineVersions] at h
  split at h
  · simp only [registeredVersions, bind_ok_iff, pure_ok_iff] at h
    obtain ⟨gpu, -, commit, -, sourcesLock, -, weightsLock, -, rfl⟩ := h
    rfl
  · cases h

/-- Versions under plain keys name no profile, so no recipe is pinned beside its own. -/
theorem pinnedRecipe_eq {versions pinned : Dict String String} (hplain : PlainKeys versions)
    (hregistered : ∀ entry ∈ pinned.rows, versions.lookup entry.1 = some entry.2) {recipe : String}
    (hpinned : pinnedRecipe pinned = some recipe) :
    versions.lookup recipeKeyName = some recipe := by
  rw [pinnedRecipe] at hpinned
  split at hpinned
  next pinnedVersion hlookup =>
    obtain rfl := Option.some.inj hpinned
    exact hregistered _ (Dict.lookup_eq_some_iff.mp hlookup)
  · obtain ⟨entry, hfound, -⟩ := Option.map_eq_some_iff.mp hpinned
    have hentry := (List.mem_insertionSort _).mp (List.mem_of_find?_eq_some hfound)
    have hstart := List.find?_some hfound
    obtain ⟨profile, hkey⟩ := recipeKey_of_isPrefixOf hstart
    have hmem := hplain _ (Dict.mem_keys_of_lookup (hregistered entry hentry))
    rw [hkey] at hmem
    exact absurd hmem (not_plainKey_recipeKey profile recipeKeyName)

end Versions

/-! ### Completions -/

/-- What the diagnostics say is decided before the asset store is asked. -/
theorem sat_verifyOutput_problem [PyText] {cfg : ServiceConfig} {record : JobRecord}
    {manifest : OutputManifest} (w : World) :
    Prog.Sat Action.exec anyInterference (WorkerPoolService.verifyOutput cfg record manifest) w
      fun res _ => ∀ reason ∈ ["recipe_configuration_mismatch", "effective_inputs_mismatch"],
        (res = .error (.completionRejected reason) ↔
          manifestProblem cfg record manifest = some reason) := by
  cases hproblem : manifestProblem cfg record manifest with
  | some problem =>
      rw [WorkerPoolService.verifyOutput, hproblem]
      intro reason _
      simp
  | none =>
      have hrecipe : ∀ recipe, pinnedRecipe record.requirements.runtimeVersions = some recipe →
          GpuWorkerPool.coversVersions record.requirements.runtimeVersions manifest.diagnostics ∧
            GpuWorkerPool.coversInputs cfg recipe record manifest.diagnostics := by
        intro recipe hpinned
        simp only [manifestProblem, hpinned] at hproblem
        split_ifs at hproblem
        simp_all
      refine (sat_verifyOutput_recipe hrecipe w).mono fun res _ hno reason hreason => ?_
      simp only [List.mem_cons, List.not_mem_nil, or_false] at hreason
      rcases hreason with rfl | rfl
      · exact ⟨fun h => absurd h hno.1, fun h => by cases h⟩
      · exact ⟨fun h => absurd h hno.2, fun h => by cases h⟩

/-- The first reasons to reject a manifest that covers the pinned versions. -/
theorem manifestProblem_of_covers {cfg : ServiceConfig} {record : JobRecord}
    {manifest : OutputManifest}
    (hcovers : coversVersions record.requirements.runtimeVersions manifest.diagnostics) :
    manifestProblem cfg record manifest ≠ some "recipe_configuration_mismatch" ∧
      (manifestProblem cfg record manifest = some "effective_inputs_mismatch" ↔
        unqualifiedReason cfg.unqualified [record.capabilityId]
            record.requirements.runtimeVersions = none ∧
          ∃ recipe, pinnedRecipe record.requirements.runtimeVersions = some recipe ∧
            ¬ coversInputs cfg recipe record manifest.diagnostics) := by
  rw [manifestProblem, hcovers]
  simp only [Bool.not_true, Bool.and_false, Bool.false_eq_true, if_false]
  cases hrefused : unqualifiedReason cfg.unqualified [record.capabilityId]
      record.requirements.runtimeVersions with
  | some reason => simp
  | none =>
      cases hpinned : pinnedRecipe record.requirements.runtimeVersions with
      | none =>
          constructor <;> split_ifs <;> simp_all
      | some recipe =>
          cases hinputs : coversInputs cfg recipe record manifest.diagnostics <;>
            constructor <;> split_ifs <;> simp_all

section Completion

variable [PyText]

/-- A submitted job that the registered worker satisfies and the plugin accepts. -/
structure EngineJob (plugin : EnginePlugin) (record : JobRecord) (request : ValidatedRequest) :
    Prop where
  submitted : ∃ submission, validateJobSubmission submission = .ok () ∧
    record.payload = submission.payload ∧ record.capabilityId = submission.capabilityId
  satisfied : ∃ query : LeaseQuery, query.runtimeVersions = plugin.versions ∧
    satisfiesRequirements record query
  accepted : ∃ lease : LeaseGrant, lease.payload = record.payload ∧
    lease.capabilityId = record.capabilityId ∧
    validate plugin.profile.recipe.toEngineRecipe lease = .ok request

/-- The coordinator's module has the profile of the plugin. -/
def Lists (catalog : ProfileCatalog) (plugin : EnginePlugin) : Prop :=
  ∃ entry ∈ catalog.profiles, entry.recipeVersion = plugin.profile.recipeVersion ∧
    entry.kind = .engine plugin.profile.recipe.toEngineRecipe

variable {plugin : EnginePlugin} {request : ValidatedRequest} {record : JobRecord}
  {catalog : ProfileCatalog}

/-- A job leased to a worker is satisfied by its versions, which still are those of the runtime. -/
theorem EngineJob.registered (hjob : EngineJob plugin record request) {actual : Dict String String}
    (hsame : actual.same plugin.versions) :
    ∀ entry ∈ record.requirements.runtimeVersions.rows,
      actual.lookup entry.1 = some entry.2 := by
  obtain ⟨query, hquery, hsatisfies⟩ := hjob.satisfied
  intro entry hentry
  simp only [satisfiesRequirements, Bool.and_eq_true, List.all_eq_true, decide_eq_true_eq]
    at hsatisfies
  rw [Dict.lookup_eq_of_same hsame, ← hquery]
  exact hsatisfies.1.1.1.2 entry hentry

/-- The job was accepted for the stage that ran. -/
theorem EngineJob.accepted_stage (hjob : EngineJob plugin record request) {stage : EngineStage}
    (hstage : plugin.profile.recipe.stageFor request.capabilityId = some stage) :
    record.capabilityId ≠ "" ∧
      plugin.profile.recipe.stageFor record.capabilityId = some stage ∧
      ∀ name, name ≠ inputsPayloadKey →
        request.inputs.lookup name = record.payload.get? name := by
  obtain ⟨submission, hvalid, -, hcapability⟩ := hjob.submitted
  obtain ⟨lease, hpayload, hleased, haccepted⟩ := hjob.accepted
  rw [validate] at haccepted
  split at haccepted
  · cases haccepted
  next found hfound =>
    have hrequest : request.capabilityId = lease.capabilityId := by
      obtain ⟨-, bound, -, rfl⟩ := validateStage_ok_iff.mp haccepted
      rfl
    rw [hrequest, hleased] at hstage
    refine ⟨?_, hstage, fun name hne => hpayload ▸ lookup_request haccepted hne⟩
    intro hempty
    have hbounded := (boundedDemands_of_validate hvalid).capability
    rw [← hcapability, hempty] at hbounded
    cases hbounded

theorem Lists.found (hlists : Lists catalog plugin) {capabilityId : String}
    (hne : capabilityId ≠ "") {stage : EngineStage}
    (hstage : plugin.profile.recipe.stageFor capabilityId = some stage) :
    recipeAttestedInputs catalog.profiles plugin.profile.recipeVersion capabilityId =
        stage.attestedInputs ∧
      (recipeInputDefaults catalog.profiles plugin.profile.recipeVersion).rows = [] := by
  obtain ⟨entry, hentry, hrecipe, hkind⟩ := hlists
  have hfound := ProfileCatalog.profileForRecipe_eq hentry
  rw [hrecipe] at hfound
  constructor
  · rw [recipeAttestedInputs, hfound]
    dsimp only
    rw [MachineProfile.attestedFor, hkind]
    dsimp only
    rw [if_neg hne, hstage, Option.map_some, Option.getD_some]
  · rw [recipeInputDefaults, hfound, Option.map_some, hkind]
    rfl

theorem EngineJob.covers (hjob : EngineJob plugin record request) {actual : Dict String String}
    (hsame : actual.same plugin.versions) {diagnostics : JsonObject}
    (hversions : diagnostics.get? "runtime_versions" = some (versionsValue actual)) :
    coversVersions record.requirements.runtimeVersions diagnostics := by
  rw [coversVersions, hversions]
  apply List.all_eq_true.mpr
  exact fun entry hentry => memberEq_versions (hjob.registered hsame entry hentry)

/-- A job that the worker satisfies pins no recipe but the worker's own. -/
theorem EngineJob.pinned_own (hjob : EngineJob plugin record request)
    {actual : Dict String String} (hsame : actual.same plugin.versions)
    (hplain : PlainKeys actual) {recipe : String}
    (hpinned : pinnedRecipe record.requirements.runtimeVersions = some recipe) :
    recipe = plugin.profile.recipeVersion := by
  have hown := pinnedRecipe_eq hplain (hjob.registered hsame) hpinned
  rw [Dict.lookup_eq_of_same hsame, plugin.recipe_entry] at hown
  exact (Option.some.inj hown).symm

/-- The coordinator and the plugin read the attested inputs of the stage off the same profile. -/
theorem EngineJob.echoes_iff {cfg : ServiceConfig} {refused : Refused}
    (hjob : EngineJob plugin record request) (hlists : Lists catalog plugin)
    (hcfg : cfg.machineProfiles = some (catalog.machineProfiles refused))
    {stage : EngineStage} {result diagnostics : JsonObject}
    (hstage : plugin.profile.recipe.stageFor request.capabilityId = some stage)
    (hfiles : inputsPayloadKey ∉ stage.attestedInputs)
    (hreport : diagnostics.get? "effective_inputs" =
      some (.dict (effectiveInputs stage request result).rows)) :
    coversInputs cfg plugin.profile.recipeVersion record diagnostics ↔
      EchoesInputs stage record.payload result := by
  obtain ⟨hne, hfound, hset⟩ := hjob.accepted_stage hstage
  obtain ⟨hattested, hdefaults⟩ := hlists.found hne hfound
  apply coversInputs_iff hreport
  · rw [ServiceConfig.recipeAttestedInputs, hcfg]
    exact hattested
  · rw [ServiceConfig.recipeDefaults, hcfg]
    exact hdefaults
  · intro name hname
    apply hset
    exact fun h => hfiles (h ▸ hname)

variable [PyDigits] [ReportText]

/-- The versions that the report of an inspection gives are the registered ones. -/
def ReportsRegistered (plugin : EnginePlugin) (inspected : JsonObject)
    (actual : Dict String String) : Prop :=
  ∃ versions, engineVersions plugin.profile inspected = .ok versions ∧
    actual = .ofPairs versions ∧ actual.same plugin.versions

/-- The engine that an output is from: it was inspected for this job, met every pin of the recipe,
reported the registered versions, and named itself the registered engine in the result of the
stage. -/
structure RanOn (fmt : PyFormat) (plugin : EnginePlugin) (context : ExecutionContext)
    (session : EngineSession) (request : ValidatedRequest) (output : PluginOutput)
    (stage : EngineStage) (inspected result : JsonObject) : Prop where
  stage_found : plugin.profile.recipe.stageFor request.capabilityId = some stage
  stage_ran : sameStage stage result.members
  inspect : inspect session = .ok inspected
  conforms : Conforms plugin.profile.recipe inspected.value
  ran : ∃ registered names, registeredEngine plugin.versions = .ok registered ∧
    boundNames context request = .ok names ∧
    runStage fmt registered stage context.jobId names session =
      .ok (result.members, output.content) ∧
    sameEngine registered result.members
  reported : ∃ actual attested : Dict String String, ReportsRegistered plugin inspected actual ∧
    unchangedVersions plugin inspected = .ok actual ∧ attestedBy plugin actual = .ok attested ∧
    bounded (completionReport attested stage request result) = .ok output.diagnostics

variable {fmt : PyFormat} {context : ExecutionContext} {session : EngineSession}
  {output : PluginOutput}

theorem unchangedVersions_ok {inspected : JsonObject} {actual : Dict String String}
    (h : unchangedVersions plugin inspected = .ok actual) :
    Conforms plugin.profile.recipe inspected.value ∧ ReportsRegistered plugin inspected actual ∧
      PlainKeys actual := by
  rw [unchangedVersions] at h
  split at h
  · cases h
  next versions hversions =>
    dsimp only at h
    split_ifs at h with hsame
    obtain rfl := Except.ok.inj h
    refine ⟨?_, ⟨versions, hversions, rfl, hsame⟩, fun key hkey => ?_⟩
    · by_contra hnot
      obtain ⟨text, hdrift⟩ := engineVersions_of_not_conforms hnot
      cases hversions.symm.trans hdrift
    · rw [Dict.keys_ofPairs, keys_of_engineVersions hversions] at hkey
      have hplain : ∀ key ∈ engineKeys, PlainKey key := by decide
      exact hplain key hkey

theorem ranOn_of_execute (h : execute fmt plugin context session request = .ok output) :
    ∃ stage inspected result,
      RanOn fmt plugin context session request output stage inspected result := by
  rw [execute] at h
  split at h
  · cases h
  next stage hstage =>
    simp only [bind_ok_iff] at h
    obtain ⟨inspected, hinspected, actual, hactual, names, hnames, h⟩ := h
    split_ifs at h
    simp only [bind_ok_iff] at h
    obtain ⟨registered, hregistered, ran, hran, attested, hattested, h⟩ := h
    split at h
    · cases h
    next diagnostics hbounded =>
      obtain rfl := pure_ok_iff.mp h
      obtain ⟨hconforms, hreports, -⟩ := unchangedVersions_ok hactual
      have hrun := ranStage_ok hran
      obtain ⟨hstageRan, -, hengine⟩ :=
        (checkedResult_verdict _ _ _ _).2.1.mp (checkedResult_of_runStage hrun)
      exact ⟨stage, inspected, ran.1, hstage, hstageRan, inspect_of_inspectInTime hinspected,
        hconforms, ⟨registered, names, hregistered, hnames, hrun, hengine⟩,
        ⟨actual, attested, hreports, hactual, hattested, hbounded⟩⟩

/-- The two sections of the diagnostics that the coordinator compares are not optional. -/
theorem RanOn.sections {stage : EngineStage} {inspected result : JsonObject}
    (halone : plugin.namespaced = false)
    (hran : RanOn fmt plugin context session request output stage inspected result) :
    ∃ actual : Dict String String, actual.same plugin.versions ∧ PlainKeys actual ∧
      output.diagnostics.get? "runtime_versions" = some (versionsValue actual) ∧
      output.diagnostics.get? "effective_inputs" =
        some (.dict (effectiveInputs stage request result).rows) := by
  obtain ⟨actual, attested, hreports, hactual, hattested, hbounded⟩ := hran.reported
  obtain ⟨-, ⟨-, -, -, hsame⟩, hplain⟩ := unchangedVersions_ok hactual
  obtain rfl : actual = attested := by
    rw [attestedBy, halone] at hattested
    exact Except.ok.inj hattested
  refine ⟨actual, hsame, hplain, ?_, ?_⟩
  · rw [get?_of_bounded hbounded (by decide)]
    rfl
  · rw [get?_of_bounded hbounded (by decide)]
    rfl

/-- The engine of a worker that serves this one profile is held to the recipe at every job, and the
coordinator's check of a completion turns on the engine alone: it finds no other configuration, and
other inputs exactly when the engine reports that it ran an attested input with another value than
the job set. -/
theorem engine_completion_checked {cfg : ServiceConfig} {refused : Refused}
    {manifest : OutputManifest} (halone : plugin.namespaced = false) (hlists : Lists catalog plugin)
    (hcfg : cfg.machineProfiles = some (catalog.machineProfiles refused))
    (hfiles : ∀ stage ∈ plugin.profile.recipe.stages, inputsPayloadKey ∉ stage.attestedInputs)
    (hjob : EngineJob plugin record request)
    (hexecute : execute fmt plugin context session request = .ok output)
    (hmanifest : manifest.diagnostics = output.diagnostics) :
    ∃ stage inspected result,
      RanOn fmt plugin context session request output stage inspected result ∧
      ∀ w, Prog.Sat Action.exec anyInterference
        (WorkerPoolService.verifyOutput cfg record manifest) w fun res _ =>
          res ≠ .error (.completionRejected "recipe_configuration_mismatch") ∧
          (res = .error (.completionRejected "effective_inputs_mismatch") ↔
            unqualifiedReason refused [record.capabilityId] record.requirements.runtimeVersions =
                none ∧
              (pinnedRecipe record.requirements.runtimeVersions).isSome ∧
              ¬ EchoesInputs stage record.payload result) := by
  obtain ⟨stage, inspected, result, hran⟩ := ranOn_of_execute hexecute
  refine ⟨stage, inspected, result, hran, fun w => ?_⟩
  obtain ⟨actual, hsame, hplain, hversions, hreport⟩ := hran.sections halone
  rw [← hmanifest] at hversions hreport
  have hcovers := hjob.covers hsame hversions
  have hinputs := hjob.echoes_iff hlists hcfg hran.stage_found
    (hfiles stage (List.mem_of_find?_eq_some hran.stage_found)) hreport
  have hrefused : cfg.unqualified = refused := by rw [ServiceConfig.unqualified, hcfg]; rfl
  obtain ⟨hnever, hexactly⟩ := @manifestProblem_of_covers cfg record manifest hcovers
  refine (sat_verifyOutput_problem w).mono fun res _ hproblem => ⟨?_, ?_⟩
  · intro hres
    exact hnever ((hproblem _ (by simp)).mp hres)
  · rw [hproblem _ (by simp), hexactly, hrefused, Option.isSome_iff_exists]
    refine and_congr_right fun _ => ⟨?_, ?_⟩
    · intro h
      obtain ⟨recipe, hpinned, hnot⟩ := h
      obtain rfl := hjob.pinned_own hsame hplain hpinned
      exact ⟨⟨_, hpinned⟩, mt hinputs.mpr hnot⟩
    · intro h
      obtain ⟨⟨recipe, hpinned⟩, hnot⟩ := h
      obtain rfl := hjob.pinned_own hsame hplain hpinned
      exact ⟨_, hpinned, mt hinputs.mp hnot⟩

end Completion

/-! ### An engine that runs one seed -/

theorem length_sha256Hex (data : ByteArray) : (sha256Hex data).length = 64 := by
  rw [sha256Hex]
  simp [Sha256.hexWord]

section Seed

attribute [local instance] PyText.ascii PyDigits.ascii plainReports

theorem lookup_seedVersions (digest : String) :
    (seedVersions digest).lookup "magic_recipe" = some seedProfile.recipeVersion := rfl

def seedPlugin (digest : String) : EnginePlugin where
  profile := seedProfile
  versions := seedVersions digest
  usable := by decide
  recipe_entry := lookup_seedVersions digest

def seedArtifact : ByteArray := ⟨#[0x67, 0x6C, 0x54, 0x46]⟩

/-- The engine ran the seed that it was given. -/
def seedResult : JsonObject := ⟨[
  ("stage", .str "mesh"), ("schema_version", .int 1), ("status", .str "ok"),
  ("engine", .dict [("commit", .str "commit"), ("sources_lock_sha256", .str "sources"),
    ("weights_lock_sha256", .str "weights")]),
  ("effective_inputs", .dict [("seed", .int 7)]),
  ("output", .dict [("path", .str "mesh.glb"), ("content_type", .str glbContentType),
    ("bytes", .int 4), ("sha256", .str (sha256Hex seedArtifact))])], rfl⟩

def seedSession : EngineSession where
  runtime := .process (.exited 0 (some ⟨seedReport.value, seedReport.wellFormed⟩))
    { exitCode := .ok 0, resultDocument := some seedResult.value,
      outputAt := fun path => if path = "mesh.glb" then some seedArtifact else none }
  parsed := fun _ hdocument => Option.some.inj hdocument ▸ seedResult.wellFormed
  lateToInspect := false
  cutShort := false
  lateToRun := false
  inspectSeconds := "60"
  deadline := "600"

def seedFormat : PyFormat := ⟨ReportText.str, ReportText.repr⟩

def seedOutput : List (String × JsonValue) := [
  ("path", .str "mesh.glb"), ("content_type", .str glbContentType), ("bytes", .int 4),
  ("sha256", .str (sha256Hex seedArtifact))]

theorem checkedOutput_seed : checkedOutput seedFormat seedArtifact seedOutput = .ok () := by
  have hpasses : OutputPasses seedOutput seedArtifact := ⟨rfl, by decide, by decide, rfl⟩
  rcases checkedOutput_cases seedFormat seedArtifact seedOutput with ⟨hok, -⟩ | ⟨-, hnot⟩
  · exact hok
  · exact absurd hpasses hnot

theorem runStage_seed : runStage seedFormat ⟨"commit", "sources", "weights"⟩ seedStage "job" []
    seedSession = .ok (seedResult.members, seedArtifact) := by
  refine bind_ok_iff.mpr ⟨seedResult.members, rfl, bind_ok_iff.mpr ⟨(), rfl, ?_⟩⟩
  refine bind_ok_iff.mpr ⟨seedArtifact, ?_, rfl⟩
  exact bind_ok_iff.mpr ⟨(), checkedOutput_seed, rfl⟩

/-- A seed job that pins the recipe. -/
def seedJob : JobSubmission where
  jobId := "job"
  idempotencyKey := "key"
  capabilityId := "mesh.seed.v1"
  inputKeys := []
  outputKey := "outputs/mesh.glb"
  payload := ⟨[("inputs", .dict []), ("seed", .int 7)], by decide⟩
  requirements := { JobRequirements.none with
    runtimeVersions := .ofPairs [("magic_recipe", seedProfile.recipeVersion)] }

def seedLease : LeaseGrant where
  jobId := "job"
  claimToken := "token"
  leaseUntil := 0
  executionDeadlineSeconds := 1200
  capabilityId := "mesh.seed.v1"
  contractVersion := 1
  requestDigest := ""
  idempotencyKey := "key"
  inputKeys := []
  outputKey := "outputs/mesh.glb"
  payload := seedJob.payload
  inputGrants := []
  outputGrant := ⟨"outputs/mesh.glb", "", "PUT", 0, none⟩

def seedRequest : ValidatedRequest where
  capabilityId := "mesh.seed.v1"
  contractVersion := 1
  inputs := .ofPairs [("seed", .int 7), ("inputs", .dict [])]
  seed := some 7

theorem validate_seed : validate seedProfile.recipe.toEngineRecipe seedLease = .ok seedRequest :=
  rfl

theorem validate_seedJob : validateJobSubmission seedJob = .ok () := by
  have hlength : seedProfile.recipeVersion.length = 64 := length_sha256Hex _
  have hne : seedProfile.recipeVersion ≠ "" := fun h => by simp [h] at hlength
  have hentries : validateJobRequirements seedJob.requirements = .ok () := by
    simp only [validateJobRequirements, validateRequirementEntries, andThen_eq_ok,
      requireAll_eq_ok, require_eq_ok]
    refine ⟨rfl, ⟨rfl, by decide⟩, ⟨rfl, by decide⟩, ⟨rfl, by decide⟩, rfl, ?_⟩
    intro value hvalue
    rcases List.mem_cons.mp hvalue with rfl | hvalue
    · decide
    · obtain rfl := List.mem_singleton.mp hvalue
      simp [hlength, hne, maxRequirementValueLength]
  simp only [validateJobSubmission, andThen_eq_ok]
  refine ⟨rfl, rfl, rfl, rfl, rfl, ?_, rfl, rfl, ?_, rfl, rfl, rfl, hentries, ?_⟩
  · rfl
  · decide +kernel
  · decide +kernel

def seedContext : ExecutionContext where
  jobId := "job"
  leaseId := "lease"
  deadline := 600
  workspace := ⟨true, ["work"], by decide⟩
  inputPaths := Table.empty

/-- The members of the report, under the digests of the recipe and of the configuration. -/
def seedMembers (recipe digest : String) : List (String × JsonValue) := [
  ("runtime_versions", .dict [
    ("magic_recipe", .str recipe), ("magic_profile", .str "mesh"),
    ("aismith_engine_version", .str "1"), ("aismith_engine_commit", .str "commit"),
    ("aismith_sources_lock", .str "sources"), ("aismith_weights_lock", .str "weights"),
    ("gpu_compute_capability", .str "8.9"), ("blender", .str "Blender 4.2.1"),
    ("trellis_torch", .str "2.7"), ("magic_config", .str digest)]),
  ("effective_inputs", .dict [("seed", .int 7)]),
  ("engine_effective_inputs", .dict [("seed", .int 7)]),
  ("stage", .str "mesh"),
  ("engine", .dict [("commit", .str "commit"), ("sources_lock_sha256", .str "sources"),
    ("weights_lock_sha256", .str "weights")]),
  ("gate", .null), ("measured", .null), ("weights", .null), ("timings_s", .null)]

theorem members_seed (digest : String) :
    (completionReport (seedVersions digest) seedStage seedRequest seedResult).members =
      seedMembers seedProfile.recipeVersion digest := by
  show reportMembers _ _ _ _ = _
  rw [reportMembers, versionsValue, seedVersions, Dict.rows_ofPairs (by simp)]
  rfl

theorem sizeBound_seed {recipe digest : String} (hrecipe : recipe.length = 64)
    (hdigest : digest.length = 64) :
    (JsonValue.dict (seedMembers recipe digest)).sizeBound ≤ maxJobPayloadBytes := by
  simp only [seedMembers, JsonValue.sizeBound, JsonValue.membersBound, hrecipe, hdigest]
  decide

theorem fits_seed (data : ByteArray) : fitsPayload (completionReport
    (seedVersions (sha256Hex data)) seedStage seedRequest seedResult) := by
  apply fitsPayload_iff.mpr
  rw [validateJobPayload, andThen_eq_ok, require_eq_ok, decide_eq_true_eq, JsonObject.value,
    members_seed]
  exact ⟨rfl, (JsonValue.length_encode_le _).trans
    (sizeBound_seed (length_sha256Hex _) (length_sha256Hex _))⟩

theorem unchanged_seed : ∃ data,
    unchangedVersions (seedPlugin (sha256Hex data)) seedReport =
      .ok (seedVersions (sha256Hex data)) := by
  obtain ⟨data, hdata⟩ := engineVersions_seed
  refine ⟨data, ?_⟩
  cases hversions : engineVersions seedProfile seedReport with
  | error error =>
      rw [hversions] at hdata
      cases hdata
  | ok versions =>
      rw [hversions] at hdata
      have heq : Dict.ofPairs versions = seedVersions (sha256Hex data) := Except.ok.inj hdata
      have hplugin : engineVersions (seedPlugin (sha256Hex data)).profile seedReport =
          .ok versions := hversions
      rw [unchangedVersions, hplugin]
      dsimp only
      rw [heq]
      exact if_pos (Dict.same_self (seedVersions (sha256Hex data)))

theorem executes_seed : ∃ data output,
    execute seedFormat (seedPlugin (sha256Hex data)) seedContext seedSession seedRequest =
      .ok output := by
  obtain ⟨data, hactual⟩ := unchanged_seed
  exact ⟨data, execute_succeeds rfl rfl hactual rfl rfl rfl runStage_seed rfl (fits_seed data)⟩

def seedCatalog : ProfileCatalog where
  profiles := [{
    name := "mesh", recipeVersion := seedProfile.recipeVersion,
    kind := .engine seedProfile.recipe.toEngineRecipe }]
  recipes_nodup := List.nodup_singleton _
  templates := by
    intro profile hprofile template hkind
    obtain rfl := List.mem_singleton.mp hprofile
    cases hkind

def seedCoordinator : ServiceConfig where
  machineProfiles := some (seedCatalog.machineProfiles engineRecipesRefused)

theorem engineJob_seed (digest : String) :
    EngineJob (seedPlugin digest) (.ofSubmission seedJob 0) seedRequest := by
  refine ⟨⟨seedJob, validate_seedJob, rfl, rfl⟩, ?_, ⟨seedLease, rfl, rfl, validate_seed⟩⟩
  refine ⟨⟨"worker", ["mesh.seed.v1"], 60, none, none, none, [], seedVersions digest⟩, rfl, ?_⟩
  have hrows : seedJob.requirements.runtimeVersions.rows =
      [("magic_recipe", seedProfile.recipeVersion)] := rfl
  simp [satisfiesRequirements, JobRecord.ofSubmission, hrows, lookup_seedVersions]
  simp [seedJob, JobRequirements.none]

/-- What the worker hands back. -/
def seedManifest (output : PluginOutput) : OutputManifest where
  outputKey := "outputs/mesh.glb"
  contentType := output.contentType
  byteLength := 4
  sha256 := ""
  idempotencyKey := "key"
  requestDigest := ""
  pluginId := "aismith-engine"
  pluginVersion := "1"
  modelId := output.modelId
  modelVersion := output.modelVersion
  publicationMode := publicationModeImmutableCreateOnce
  diagnostics := output.diagnostics

theorem engine_completion_checked_seed : ∃ data output stage inspected result,
    RanOn seedFormat (seedPlugin (sha256Hex data)) seedContext seedSession seedRequest output stage
      inspected result ∧
    ∀ w, Prog.Sat Action.exec anyInterference
      (WorkerPoolService.verifyOutput seedCoordinator (.ofSubmission seedJob 0)
        (seedManifest output)) w
      fun res _ =>
        res ≠ .error (.completionRejected "recipe_configuration_mismatch") ∧
        (res = .error (.completionRejected "effective_inputs_mismatch") ↔
          unqualifiedReason engineRecipesRefused [seedJob.capabilityId]
              seedJob.requirements.runtimeVersions = none ∧
            (pinnedRecipe seedJob.requirements.runtimeVersions).isSome ∧
            ¬ EchoesInputs stage seedJob.payload result) := by
  obtain ⟨data, output, hexecute⟩ := executes_seed
  have hfiles : ∀ stage ∈ seedProfile.recipe.stages, inputsPayloadKey ∉ stage.attestedInputs := by
    decide
  obtain ⟨stage, inspected, result, hran, hchecked⟩ := @engine_completion_checked PyText.ascii
    (seedPlugin (sha256Hex data)) seedRequest (.ofSubmission seedJob 0) seedCatalog _ _ seedFormat
    seedContext seedSession output seedCoordinator engineRecipesRefused (seedManifest output) rfl
    ⟨_, List.mem_singleton_self _, rfl, rfl⟩ rfl hfiles (engineJob_seed _) hexecute rfl
  exact ⟨data, output, stage, inspected, result, hran, hchecked⟩

end Seed

end AISmithEnginePlugin

end GpuWorkerPool
