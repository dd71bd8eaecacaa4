import GpuWorkerPool.Base.JsonEncoding
import GpuWorkerPool.EngineTransports

/-!
One result through both transports. They agree on every document except two kinds: a status that is
a list or an object raises `TypeError` in the sidecar's transport, and a size that is a float passes
for the local transport alone.
-/

namespace GpuWorkerPool

open Base AISmithEnginePlugin

inductive EngineVerdict where
  | rejected
  | succeeded
  | failed
  | drift
  | crashed
  deriving DecidableEq, Repr

/-- What the agent makes of the end of a stage. -/
def engineVerdict {α : Type} : Except EngineExc α → EngineVerdict
  | .ok _ => .succeeded
  | .error (.pluginRequestRejected _) => .rejected
  | .error (.engineFailed _) => .failed
  | .error (.engineTimedOut _) => .failed
  | .error (.engineCancelled _) => .failed
  | .error (.engineDrift _) => .drift
  | .error .typeError => .crashed

/-- The result with a member of its output set; a result without an output object is left alone. -/
def withOutput (name text : String) (result : List (String × JsonValue)) : List (String × JsonValue) :=
  match getOrNone result "output" with
  | .dict output =>
      Table.putRow Prod.fst ("output", .dict (Table.putRow Prod.fst (name, .str text) output)) result
  | _ => result

/-- The process leaves the result, exits as the status of the result says if it is one of the
engine's, and its output path names a file with the content. -/
structure LocalEngine.Leaves (engine : LocalEngine) (result : List (String × JsonValue))
    (path : String) (content : ByteArray) : Prop where
  exits : ∃ code, engine.exitCode = .ok code ∧ ∀ mapped text, exitStatus mapped = some text →
    getOrNone result "status" = .str text → code = mapped
  document : engine.resultDocument = some (.dict (withOutput "path" path result))
  file : engine.outputAt path = some content

/-- The sidecar takes the inputs in time, answers `run` with the result, and serves the content as
the output. -/
structure RunnerEngine.Serves (runner : RunnerEngine) (job : String) (inputs : List String)
    (result : List (String × JsonValue)) (content : ByteArray) : Prop where
  inTime : ∀ check, runner.late check = false
  uploads : ∀ name ∈ inputs, runner.putInput name = .ok 204
  runs : runner.run =
    .answered (.ok ⟨200, some (.dict (withOutput "url" s!"/jobs/{job}/output" result))⟩)
  outputs : ∃ chunks, runner.output =
      .ok ⟨200, some (sha256Hex content), some (toString (content.size : Int)), chunks, none⟩ ∧
    chunks.foldl (· ++ ·) ByteArray.empty = content

/-- Every check on an output and on the bytes the worker holds. -/
structure OutputPasses (output : List (String × JsonValue)) (content : ByteArray) : Prop where
  contentType : getOrNone output "content_type" = .str glbContentType
  magic : isGlb content
  size : (JsonValue.int content.size).pyEq (getOrNone output "bytes")
  sha256 : getOrNone output "sha256" = .str (sha256Hex content)

/-- Every check on a result. -/
structure EnginePasses (registered : RegisteredEngine) (stage : EngineStage)
    (result : List (String × JsonValue)) (content : ByteArray) : Prop where
  stage : sameStage stage result
  status : getOrNone result "status" = .str "ok"
  engine : sameEngine registered result
  output : ∃ output, getOrNone result "output" = .dict output ∧ OutputPasses output content

/-- The transports classify the result alike and fail closed. -/
structure TransportsAgree (registered : RegisteredEngine) (stage : EngineStage)
    (result : List (String × JsonValue)) (content : ByteArray)
    (ranLocal ranHttp : Except EngineExc ByteArray) : Prop where
  alike : engineVerdict ranLocal = engineVerdict ranHttp
  rejected : engineVerdict ranLocal = .rejected ↔
    sameStage stage result ∧ getOrNone result "status" = .str "rejected"
  succeeded : engineVerdict ranLocal = .succeeded → EnginePasses registered stage result content
  closed : engineVerdict ranLocal ≠ .crashed

/-! ### A result and its location -/

theorem getOrNone_putRow_of_ne (members : List (String × JsonValue)) {name other : String}
    (value : JsonValue) (h : name ≠ other) :
    getOrNone (Table.putRow Prod.fst (name, value) members) other = getOrNone members other := by
  rw [getOrNone, Dict.lookup_putRow_of_ne _ _ h, getOrNone]

theorem getOrNone_putRow_self (members : List (String × JsonValue)) (name : String)
    (value : JsonValue) : getOrNone (Table.putRow Prod.fst (name, value) members) name = value := by
  rw [getOrNone, Dict.lookup_putRow, if_pos rfl, Option.getD_some]

theorem getOrNone_withOutput (name text : String) (result : List (String × JsonValue))
    {other : String} (h : other ≠ "output") :
    getOrNone (withOutput name text result) other = getOrNone result other := by
  rw [withOutput]
  cases getOrNone result "output" with
  | dict output => exact getOrNone_putRow_of_ne _ _ (Ne.symm h)
  | _ => rfl

theorem checkedResult_withOutput (fmt : PyFormat) (registered : RegisteredEngine)
    (stage : EngineStage) (name text : String) (result : List (String × JsonValue)) :
    checkedResult fmt registered stage (withOutput name text result) =
      checkedResult fmt registered stage result := by
  have hget (other : String) (h : other ≠ "output") :=
    getOrNone_withOutput name text result h
  have hstage : sameStage stage (withOutput name text result) = sameStage stage result := by
    rw [sameStage, hget "stage" (by decide), hget "schema_version" (by decide), sameStage]
  have hengine : sameEngine registered (withOutput name text result) =
      sameEngine registered result := by
    rw [sameEngine, hget "engine" (by decide), sameEngine]
  have herror : resultError fmt (withOutput name text result) = resultError fmt result := by
    rw [resultError, hget "error" (by decide), hget "status" (by decide), resultError]
  rw [checkedResult, hstage, hengine, herror, hget "status" (by decide), checkedResult]

/-- The location says nothing about what is checked of an output. -/
theorem checkedOutput_putRow (fmt : PyFormat) (content : ByteArray) (name text : String)
    (output : List (String × JsonValue)) (hname : name = "path" ∨ name = "url") :
    checkedOutput fmt content (Table.putRow Prod.fst (name, .str text) output) =
      checkedOutput fmt content output := by
  have hget (other : String) (h : other ≠ "path" ∧ other ≠ "url") :
      getOrNone (Table.putRow Prod.fst (name, .str text) output) other = getOrNone output other := by
    apply getOrNone_putRow_of_ne
    rcases hname with rfl | rfl
    · exact Ne.symm h.1
    · exact Ne.symm h.2
  simp only [checkedOutput, hget "content_type" (by decide), hget "bytes" (by decide),
    hget "sha256" (by decide)]

/-! ### What the shared checks end in -/

theorem engineVerdict_error {α β : Type} (error : EngineExc) :
    engineVerdict (.error error : Except EngineExc α) =
      engineVerdict (.error error : Except EngineExc β) := by
  cases error <;> rfl

/-- The failure is an `EngineFailed` itself. -/
def EngineExc.IsEngineFailed (error : EngineExc) : Prop := ∃ text, error = .engineFailed text

theorem raises_failUnless (condition : Bool) (text : String) :
    Raises EngineExc.IsEngineFailed (failUnless condition text) := by
  cases condition
  · exact ⟨text, rfl⟩
  · trivial

theorem checkedOutput_cases (fmt : PyFormat) (content : ByteArray)
    (output : List (String × JsonValue)) :
    checkedOutput fmt content output = .ok () ∧ OutputPasses output content ∨
      (∃ text, checkedOutput fmt content output = .error (.engineFailed text)) ∧
        ¬ OutputPasses output content := by
  have hok : checkedOutput fmt content output = .ok () ↔ OutputPasses output content := by
    simp only [checkedOutput, bind_ok_iff, exists_unit_iff, failUnless_eq_ok, Bool.and_eq_true,
      isText_iff]
    exact ⟨fun h => ⟨h.1, h.2.1, h.2.2.1, h.2.2.2⟩,
      fun h => ⟨h.contentType, h.magic, h.size, h.sha256⟩⟩
  have hraises : Raises EngineExc.IsEngineFailed (checkedOutput fmt content output) :=
    (raises_failUnless ..).bind fun _ _ => (raises_failUnless ..).bind fun _ _ =>
      raises_failUnless ..
  cases hresult : checkedOutput fmt content output with
  | ok value => exact Or.inl ⟨rfl, hok.mp hresult⟩
  | error error =>
      obtain ⟨text, rfl⟩ := hraises.of_eq hresult
      refine Or.inr ⟨⟨text, rfl⟩, fun hpasses => ?_⟩
      rw [hok.mpr hpasses] at hresult
      cases hresult

theorem checkedResult_verdict (fmt : PyFormat) (registered : RegisteredEngine) (stage : EngineStage)
    (result : List (String × JsonValue)) :
    (engineVerdict (checkedResult fmt registered stage result) = .rejected ↔
        sameStage stage result ∧ getOrNone result "status" = .str "rejected") ∧
      (checkedResult fmt registered stage result = .ok () ↔
        sameStage stage result ∧ getOrNone result "status" = .str "ok" ∧
          sameEngine registered result) ∧
      engineVerdict (checkedResult fmt registered stage result) ≠ .crashed := by
  rw [checkedResult]
  by_cases hstage : sameStage stage result
  · by_cases hrejected : getOrNone result "status" = .str "rejected"
    · simp [hstage, hrejected, failUnless, bind, Except.bind, throw, throwThe, MonadExceptOf.throw,
        engineVerdict]
    · by_cases hfailed : getOrNone result "status" = .str "failed"
      · simp [hstage, hfailed, failUnless, bind, Except.bind, throw, throwThe,
          MonadExceptOf.throw, engineVerdict]
      · by_cases hok : getOrNone result "status" = .str "ok"
        · by_cases hengine : sameEngine registered result <;>
            simp [hstage, hok, hengine, failUnless, bind, Except.bind, throw, throwThe,
              MonadExceptOf.throw, pure, Except.pure, engineVerdict]
        · simp [hstage, hrejected, hfailed, hok, failUnless, bind, Except.bind, engineVerdict]
  · simp [hstage, failUnless, bind, Except.bind, engineVerdict]

/-! ### The local transport -/

/-- The status is one that an exit code stands for. -/
def KnownStatus (result : List (String × JsonValue)) : Prop :=
  ∃ mapped text, exitStatus mapped = some text ∧ getOrNone result "status" = .str text

theorem localResult_unknown (fmt : PyFormat) {engine : LocalEngine}
    {result : List (String × JsonValue)} {path : String} {content : ByteArray}
    (h : engine.Leaves result path content) (hunknown : ¬ KnownStatus result) :
    ∃ text, localResult fmt engine = .error (.engineFailed text) := by
  obtain ⟨code, hcode, -⟩ := h.exits
  have hstatus : getOrNone (withOutput "path" path result) "status" = getOrNone result "status" :=
    getOrNone_withOutput "path" path result (by decide)
  rw [localResult, hcode, h.document]
  cases hexit : exitStatus code with
  | none => exact ⟨_, by simp only [bind, Except.bind, hexit]; rfl⟩
  | some expected =>
      have hnot : isText expected (getOrNone result "status") = false := by
        rw [Bool.eq_false_iff, ne_eq, isText_iff]
        exact fun heq => hunknown ⟨code, expected, hexit, heq⟩
      exact ⟨_, by simp only [bind, Except.bind, hexit, hstatus, hnot, failUnless]; rfl⟩

theorem localResult_known (fmt : PyFormat) {engine : LocalEngine}
    {result : List (String × JsonValue)} {path : String} {content : ByteArray}
    (h : engine.Leaves result path content) (hknown : KnownStatus result) :
    localResult fmt engine = .ok (withOutput "path" path result) := by
  obtain ⟨code, hcode, hexits⟩ := h.exits
  obtain ⟨mapped, text, hexit, htext⟩ := hknown
  obtain rfl := hexits mapped text hexit htext
  have hstatus : getOrNone (withOutput "path" path result) "status" = getOrNone result "status" :=
    getOrNone_withOutput "path" path result (by decide)
  have hsame : isText text (getOrNone result "status") = true := isText_iff.mpr htext
  rw [localResult, hcode, h.document]
  simp only [bind, Except.bind, hexit, hstatus, hsame, failUnless]
  rfl

theorem getOrNone_withOutput_output (name text : String) (result : List (String × JsonValue)) :
    getOrNone (withOutput name text result) "output" =
      match getOrNone result "output" with
      | .dict output => .dict (Table.putRow Prod.fst (name, .str text) output)
      | other => other := by
  rw [withOutput]
  cases houtput : getOrNone result "output" with
  | dict output => exact getOrNone_putRow_self _ _ _
  | _ => exact houtput

/-- What the local transport makes of the output. -/
theorem localArtifact_cases (fmt : PyFormat) {engine : LocalEngine}
    {result : List (String × JsonValue)} {path : String} {content : ByteArray}
    (h : engine.Leaves result path content) :
    localArtifact fmt engine (withOutput "path" path result) = .ok content ∧
        (∃ output, getOrNone result "output" = .dict output ∧ OutputPasses output content) ∨
      (∃ text, localArtifact fmt engine (withOutput "path" path result) =
          .error (.engineFailed text)) ∧
        ∀ output, getOrNone result "output" = .dict output → ¬ OutputPasses output content := by
  rw [localArtifact, getOrNone_withOutput_output]
  cases houtput : getOrNone result "output" with
  | dict output =>
      simp only [getOrNone_putRow_self, h.file,
        checkedOutput_putRow fmt content "path" path output (Or.inl rfl)]
      rcases checkedOutput_cases fmt content output with ⟨hok, hpasses⟩ | ⟨⟨text, herror⟩, hnot⟩
      · rw [hok]
        exact Or.inl ⟨rfl, output, rfl, hpasses⟩
      · rw [herror]
        refine Or.inr ⟨⟨text, rfl⟩, fun output' heq => ?_⟩
        cases heq
        exact hnot
  | _ => exact Or.inr ⟨⟨_, rfl⟩, fun _ heq => by cases heq⟩

/-! ### The sidecar -/

theorem foldl_append_size (chunks : List ByteArray) (start : ByteArray) :
    start.size ≤ (chunks.foldl (· ++ ·) start).size := by
  induction chunks generalizing start with
  | nil => exact le_refl _
  | cons chunk rest ih =>
      rw [List.foldl_cons]
      refine le_trans ?_ (ih (start ++ chunk))
      rw [ByteArray.size_append]
      exact Nat.le_add_right _ _

/-- A stream of no more than the expected bytes is received whole. -/
theorem receive_all {expected : Int} {chunks : List ByteArray} {start : ByteArray}
    (h : ((chunks.foldl (· ++ ·) start).size : Int) ≤ expected) :
    receive expected none chunks start = .ok (chunks.foldl (· ++ ·) start) := by
  induction chunks generalizing start with
  | nil => rfl
  | cons chunk rest ih =>
      rw [List.foldl_cons] at h
      have hsize := foldl_append_size rest (start ++ chunk)
      rw [ByteArray.size_append] at hsize
      rw [receive, if_neg (by omega), ih h, List.foldl_cons]

theorem raises_receive (expected : Int) (chunks : List ByteArray) (start : ByteArray) :
    Raises EngineExc.IsEngineFailed (receive expected none chunks start) := by
  induction chunks generalizing start with
  | nil => trivial
  | cons chunk rest ih =>
      rw [receive]
      split_ifs
      · exact ⟨_, rfl⟩
      · exact ih _

/-- The output fits its reported size, as an integer token, and its digest. -/
def FetchPasses (output : List (String × JsonValue)) (content : ByteArray) : Prop :=
  getOrNone output "bytes" = .int content.size ∧
    getOrNone output "sha256" = .str (sha256Hex content)

theorem fetchOutput_ok {runner : RunnerEngine} {job : String} {inputs : List String}
    {result : List (String × JsonValue)} {content : ByteArray}
    (h : runner.Serves job inputs result content) {output : List (String × JsonValue)}
    (hpasses : FetchPasses output content) : fetchOutput runner output = .ok content := by
  obtain ⟨chunks, houtput, hcontent⟩ := h.outputs
  have hreceive : receive content.size none chunks ByteArray.empty = .ok content := by
    rw [receive_all (le_of_eq (congrArg (fun bytes : ByteArray => (bytes.size : Int)) hcontent)),
      hcontent]
  rw [fetchOutput, hpasses.1]
  simp [houtput, hpasses.2, headerIs, failUnless, bind, Except.bind, hreceive]

theorem fetchOutput_failed {runner : RunnerEngine} {job : String} {inputs : List String}
    {result : List (String × JsonValue)} {content : ByteArray}
    (h : runner.Serves job inputs result content) {output : List (String × JsonValue)}
    (hnot : ¬ FetchPasses output content) :
    ∃ text, fetchOutput runner output = .error (.engineFailed text) := by
  obtain ⟨chunks, houtput, -⟩ := h.outputs
  have hraises : Raises EngineExc.IsEngineFailed (fetchOutput runner output) := by
    rw [fetchOutput]
    cases getOrNone output "bytes" with
    | int expected =>
        refine (raises_failUnless ..).bind fun _ _ => ?_
        rw [houtput]
        exact (raises_failUnless ..).bind fun _ _ => (raises_failUnless ..).bind fun _ _ =>
          (raises_failUnless ..).bind fun _ _ => raises_receive ..
    | _ => exact ⟨_, rfl⟩
  cases hfetch : fetchOutput runner output with
  | error error =>
      obtain ⟨text, rfl⟩ := hraises.of_eq hfetch
      exact ⟨text, rfl⟩
  | ok fetched =>
      rw [fetchOutput] at hfetch
      cases hbytes : getOrNone output "bytes" with
      | int expected =>
          simp only [hbytes, houtput, bind_ok_iff, exists_unit_iff, failUnless_eq_ok, headerIs,
            isText_iff, decide_eq_true_eq, Option.some.injEq] at hfetch
          obtain ⟨-, -, hsha, hlength, -⟩ := hfetch
          have hsize := JsonValue.int_text_injective (congrArg String.toList hlength)
          exact absurd ⟨hbytes.trans (congrArg JsonValue.int hsize.symm), hsha⟩ hnot
      | _ => simp [hbytes, throw, throwThe, MonadExceptOf.throw] at hfetch

theorem checkTime_ok {runner : RunnerEngine} {check : DeadlineCheck} {text : String}
    (h : runner.late check = false) : checkTime runner check text = .ok () := by
  rw [checkTime, h]
  rfl

theorem uploads_ok {runner : RunnerEngine} {job : String} {inputs : List String}
    {result : List (String × JsonValue)} {content : ByteArray}
    (h : runner.Serves job inputs result content) :
    (forM inputs fun name => uploadInput runner job name) = .ok () := by
  apply forM_ok_iff.mpr
  intro name hname
  rw [uploadInput, checkTime_ok (h.inTime _), h.uploads name hname]
  rfl

/-- What the sidecar's transport makes of the output: its size must be an integer token too. -/
theorem httpArtifact_cases (fmt : PyFormat) {runner : RunnerEngine} {job : String}
    {inputs : List String} {result : List (String × JsonValue)} {content : ByteArray}
    (h : runner.Serves job inputs result content) :
    let located := withOutput "url" s!"/jobs/{job}/output" result
    httpArtifact fmt runner job located = .ok content ∧
        (∃ output, getOrNone result "output" = .dict output ∧ OutputPasses output content ∧
          FetchPasses output content) ∨
      (∃ text, httpArtifact fmt runner job located = .error (.engineFailed text)) ∧
        ∀ output, getOrNone result "output" = .dict output →
          ¬ (OutputPasses output content ∧ FetchPasses output content) := by
  intro located
  rw [httpArtifact, getOrNone_withOutput_output]
  cases houtput : getOrNone result "output" with
  | dict output =>
      have hfetch (located : List (String × JsonValue))
          (hbytes : getOrNone located "bytes" = getOrNone output "bytes")
          (hsha : getOrNone located "sha256" = getOrNone output "sha256") :
          FetchPasses located content ↔ FetchPasses output content := by
        rw [FetchPasses, hbytes, hsha, FetchPasses]
      replace hfetch := hfetch (Table.putRow Prod.fst ("url", .str s!"/jobs/{job}/output") output)
        (getOrNone_putRow_of_ne _ _ (by decide)) (getOrNone_putRow_of_ne _ _ (by decide))
      have hurl : isText s!"/jobs/{job}/output" (getOrNone
          (Table.putRow Prod.fst ("url", .str s!"/jobs/{job}/output") output) "url") = true := by
        rw [getOrNone_putRow_self, isText_iff]
      simp only [hurl, failUnless, if_true, bind, Except.bind, checkTime_ok (h.inTime .fetch)]
      by_cases hpasses : FetchPasses output content
      · rw [fetchOutput_ok h (hfetch.mpr hpasses)]
        simp only [checkedOutput_putRow fmt content "url" _ output (Or.inr rfl)]
        rcases checkedOutput_cases fmt content output with ⟨hok, hchecked⟩ | ⟨⟨text, herror⟩, hnot⟩
        · rw [hok]
          exact Or.inl ⟨rfl, output, rfl, hchecked, hpasses⟩
        · rw [herror]
          refine Or.inr ⟨⟨text, rfl⟩, fun output' heq hboth => ?_⟩
          cases heq
          exact hnot hboth.1
      · obtain ⟨text, hfailed⟩ := fetchOutput_failed h fun hlocated => hpasses (hfetch.mp hlocated)
        rw [hfailed]
        refine Or.inr ⟨⟨text, rfl⟩, fun output' heq hboth => ?_⟩
        cases heq
        exact hpasses hboth.2
  | _ => exact Or.inr ⟨⟨_, rfl⟩, fun _ heq => by cases heq⟩

/-- Python hashes every value but lists and dictionaries. -/
def hashable : JsonValue → Bool
  | .list _ => false
  | .dict _ => false
  | _ => true

theorem knownStatus_iff {result : List (String × JsonValue)} :
    KnownStatus result ↔ ∃ status, getOrNone result "status" = .str status ∧
      (status = "ok" ∨ status = "failed" ∨ status = "rejected") := by
  constructor
  · rintro ⟨mapped, text, hexit, htext⟩
    refine ⟨text, htext, ?_⟩
    revert hexit
    rw [exitStatus.eq_def]
    split <;> simp +contextual
  · rintro ⟨status, hstatus, rfl | rfl | rfl⟩
    · exact ⟨0, _, rfl, hstatus⟩
    · exact ⟨1, _, rfl, hstatus⟩
    · exact ⟨2, _, rfl, hstatus⟩

theorem httpStage_known (fmt : PyFormat) {runner : RunnerEngine} {job : String}
    {inputs : List String} {result : List (String × JsonValue)} {content : ByteArray}
    (h : runner.Serves job inputs result content) (deadline : String)
    (hknown : KnownStatus result) :
    httpStage fmt runner job deadline = .ok (withOutput "url" s!"/jobs/{job}/output" result) := by
  obtain ⟨status, hstatus, htext⟩ := knownStatus_iff.mp hknown
  have hlocated : getOrNone (withOutput "url" s!"/jobs/{job}/output" result) "status" =
      getOrNone result "status" := getOrNone_withOutput "url" _ result (by decide)
  rw [httpStage, checkTime_ok (h.inTime _), h.runs]
  simp only [bind, Except.bind, runnerReply, failUnless, decide_true, if_true, hlocated, hstatus,
    inResultStatuses]
  rcases htext with rfl | rfl | rfl <;> rfl

theorem httpStage_unknown (fmt : PyFormat) {runner : RunnerEngine} {job : String}
    {inputs : List String} {result : List (String × JsonValue)} {content : ByteArray}
    (h : runner.Serves job inputs result content) (deadline : String)
    (hunknown : ¬ KnownStatus result) :
    engineVerdict (httpStage fmt runner job deadline) =
      if hashable (getOrNone result "status") then .failed else .crashed := by
  have hlocated : getOrNone (withOutput "url" s!"/jobs/{job}/output" result) "status" =
      getOrNone result "status" := getOrNone_withOutput "url" _ result (by decide)
  rw [httpStage, checkTime_ok (h.inTime _), h.runs]
  simp only [bind, Except.bind, runnerReply, failUnless, decide_true, if_true, hlocated]
  cases hstatus : getOrNone result "status" with
  | str status =>
      have hnot : ¬ (status = "ok" ∨ status = "failed" ∨ status = "rejected") :=
        fun htext => hunknown (knownStatus_iff.mpr ⟨status, hstatus, htext⟩)
      simp only [not_or] at hnot
      simp [hashable, inResultStatuses, hnot, engineVerdict]
  | _ => simp [hashable, inResultStatuses, engineVerdict]

/-- The reported size of an output is no float. -/
def IntegerSize (result : List (String × JsonValue)) : Prop :=
  ∀ output, getOrNone result "output" = .dict output → ∀ f, getOrNone output "bytes" ≠ .float f

theorem size_of_isGlb {content : ByteArray} (h : isGlb content) : 4 ≤ content.size := by
  have htake := congrArg List.length (of_decide_eq_true h)
  rw [List.length_take] at htake
  have hsize : content.size = content.data.toList.length := rfl
  rw [hsize]
  exact le_trans (le_of_eq htake.symm) (min_le_right _ _)

/-- An output with the `glTF` magic has four bytes, so no boolean equals its size. -/
theorem OutputPasses.fetch_iff {output : List (String × JsonValue)} {content : ByteArray}
    (h : OutputPasses output content) :
    FetchPasses output content ↔ ∀ f, getOrNone output "bytes" ≠ .float f := by
  constructor
  · rintro ⟨hbytes, -⟩ f hfloat
    rw [hbytes] at hfloat
    cases hfloat
  · intro hfloat
    refine ⟨(JsonValue.int_pyEq_iff (fun b hbool => ?_) hfloat).mp h.size, h.sha256⟩
    have hsize := h.size
    rw [hbool, JsonValue.int_pyEq_bool] at hsize
    have hmagic := size_of_isGlb h.magic
    have hsmall : (content.size : Int) ≤ 1 := by
      rw [hsize]
      cases b <;> decide
    omega

/-- The transports agree on a result exactly if its status can be looked up in a set and, when all
else passes, its size is an integer token. -/
theorem transports_agree_iff (fmt : PyFormat) (registered : RegisteredEngine) (stage : EngineStage)
    {engine : LocalEngine} {runner : RunnerEngine} {result : List (String × JsonValue)}
    {path job : String} {content : ByteArray} {inputs : List String} (deadline : String)
    (hlocal : engine.Leaves result path content) (hjob : runnerJobId job)
    (hrunner : runner.Serves job inputs result content) :
    TransportsAgree registered stage result content (runLocal fmt registered stage engine)
        (runHttp fmt registered stage runner job deadline inputs) ↔
      hashable (getOrNone result "status") ∧
        (EnginePasses registered stage result content → IntegerSize result) := by
  have hhttp : runHttp fmt registered stage runner job deadline inputs =
      (httpStage fmt runner job deadline >>= fun located =>
        checkedResult fmt registered stage located >>= fun _ =>
          httpArtifact fmt runner job located) := by
    rw [runHttp, uploads_ok hrunner, hjob]
    rfl
  by_cases hknown : KnownStatus result
  · obtain ⟨status, hstatus, -⟩ := knownStatus_iff.mp hknown
    have hhash : hashable (getOrNone result "status") = true := by rw [hstatus]; rfl
    rw [hhttp, httpStage_known fmt hrunner deadline hknown, runLocal,
      localResult_known fmt hlocal hknown]
    simp only [bind, Except.bind, checkedResult_withOutput]
    obtain ⟨hrejected, hpassed, hclosed⟩ := checkedResult_verdict fmt registered stage result
    cases hchecked : checkedResult fmt registered stage result with
    | error error =>
        rw [hchecked, engineVerdict_error (β := ByteArray)] at hrejected hclosed
        refine ⟨fun _ => ⟨hhash, fun hpasses => ?_⟩, fun _ => ⟨rfl, hrejected, ?_, hclosed⟩⟩
        · rw [hpassed.mpr ⟨hpasses.stage, hpasses.status, hpasses.engine⟩] at hchecked
          cases hchecked
        · intro hsucceeded
          cases error <;> cases hsucceeded
    | ok value =>
        obtain ⟨hstage, hok, hengine⟩ := hpassed.mp hchecked
        have hnotRejected : getOrNone result "status" ≠ .str "rejected" := by simp [hok]
        have hfailed : engineVerdict (.error (.engineFailed "") : Except EngineExc ByteArray) =
            .rejected ↔ sameStage stage result ∧ getOrNone result "status" = .str "rejected" :=
          ⟨fun h => (by cases h), fun h => absurd h.2 hnotRejected⟩
        rcases localArtifact_cases fmt hlocal with
          ⟨hlocalOk, output, houtput, hpasses⟩ | ⟨⟨text, hlocalError⟩, hnone⟩
        · have hall : EnginePasses registered stage result content :=
            ⟨hstage, hok, hengine, output, houtput, hpasses⟩
          rw [hlocalOk]
          rcases httpArtifact_cases fmt hrunner with
            ⟨hhttpOk, output', houtput', hpasses', hfetch⟩ | ⟨⟨text, hhttpError⟩, hnot⟩
          · rw [hhttpOk]
            refine ⟨fun _ => ⟨hhash, fun _ other hother f => ?_⟩, fun _ => ⟨rfl, ?_, fun _ => hall,
              fun h => (by cases h)⟩⟩
            · rw [houtput'] at hother
              cases hother
              exact hpasses'.fetch_iff.mp hfetch f
            · exact ⟨fun h => (by cases h), fun h => absurd h.2 hnotRejected⟩
          · rw [hhttpError]
            refine ⟨fun h => absurd h.alike fun heq => (by cases heq), fun h => ?_⟩
            exact absurd ⟨hpasses, hpasses.fetch_iff.mpr (h.2 hall output houtput)⟩
              (hnot output houtput)
        · rw [hlocalError]
          have hnoPass : ¬ EnginePasses registered stage result content := by
            rintro ⟨-, -, -, output, houtput, hpasses⟩
            exact hnone output houtput hpasses
          rcases httpArtifact_cases fmt hrunner with
            ⟨-, output', houtput', hpasses', -⟩ | ⟨⟨text', hhttpError⟩, -⟩
          · exact absurd hpasses' (hnone output' houtput')
          · rw [hhttpError]
            exact ⟨fun _ => ⟨hhash, fun h => absurd h hnoPass⟩,
              fun _ => ⟨rfl, hfailed, fun h => (by cases h), fun h => (by cases h)⟩⟩
  · obtain ⟨text, hlocalError⟩ := localResult_unknown fmt hlocal hknown
    have hranLocal : engineVerdict (runLocal fmt registered stage engine) = .failed := by
      rw [runLocal, hlocalError]
      rfl
    have hnot (status : String) (hstatus : status = "ok" ∨ status = "failed" ∨ status = "rejected") :
        getOrNone result "status" ≠ .str status :=
      fun heq => hknown (knownStatus_iff.mpr ⟨status, heq, hstatus⟩)
    have hstage := httpStage_unknown fmt hrunner deadline hknown
    have hranHttp : engineVerdict (runHttp fmt registered stage runner job deadline inputs) =
        if hashable (getOrNone result "status") then .failed else .crashed := by
      rw [hhttp, ← hstage]
      cases hran : httpStage fmt runner job deadline with
      | error error => exact engineVerdict_error error
      | ok located =>
          rw [hran] at hstage
          split at hstage <;> cases hstage
    constructor
    · intro h
      have halike := h.alike
      rw [hranLocal, hranHttp] at halike
      refine ⟨?_, fun hpasses => absurd hpasses.status (hnot _ (Or.inl rfl))⟩
      by_contra hcrash
      rw [if_neg hcrash] at halike
      cases halike
    · rintro ⟨hhash, -⟩
      rw [if_pos hhash] at hranHttp
      refine ⟨hranLocal.trans hranHttp.symm, ?_, ?_, ?_⟩
      · rw [hranLocal]
        exact ⟨fun h => (by cases h), fun h => absurd h.2 (hnot _ (Or.inr (Or.inr rfl)))⟩
      · rw [hranLocal]
        exact fun h => (by cases h)
      · rw [hranLocal]
        exact fun h => (by cases h)

def plainFormat : PyFormat := ⟨fun _ => "", fun _ => ""⟩

def pinnedEngine : RegisteredEngine := ⟨"f7466926", "34e7c169", "c03f5a06"⟩

/-- `glTF` and nothing else. -/
def smallGlb : ByteArray := ⟨#[0x67, 0x6C, 0x54, 0x46]⟩

/-- A process that exits with a code and leaves a result beside one output file. -/
def processLeaving (code : Int) (result : List (String × JsonValue)) (content : ByteArray) :
    LocalEngine :=
  ⟨.ok code, some (.dict (withOutput "path" "mesh.glb" result)), fun _ => some content⟩

/-- A sidecar that answers the job with a result and one output. -/
def sidecarServing (job : String) (result : List (String × JsonValue)) (content : ByteArray) :
    RunnerEngine where
  late _ := false
  putInput _ := .ok 204
  run := .answered (.ok ⟨200, some (.dict (withOutput "url" s!"/jobs/{job}/output" result))⟩)
  output := .ok ⟨200, some (sha256Hex content), some (toString (content.size : Int)), [content], none⟩

theorem sidecarServing_serves (job : String) (inputs : List String)
    (result : List (String × JsonValue)) (content : ByteArray) :
    (sidecarServing job result content).Serves job inputs result content :=
  ⟨fun _ => rfl, fun _ _ => rfl, rfl, [content], rfl, ByteArray.empty_append⟩

/-- A result that reports a GLB of four bytes. -/
def smallResult : List (String × JsonValue) :=
  [("schema_version", .int 1), ("stage", .str "mesh"), ("status", .str "ok"),
    ("engine", .dict [("commit", .str pinnedEngine.commit),
      ("sources_lock_sha256", .str pinnedEngine.sourcesLock),
      ("weights_lock_sha256", .str pinnedEngine.weightsLock)]),
    ("output", .dict [("content_type", .str glbContentType), ("bytes", .int 4),
      ("sha256", .str (sha256Hex smallGlb))])]

theorem transports_agree_small :
    TransportsAgree pinnedEngine mesh3dMeshStage smallResult smallGlb
      (runLocal plainFormat pinnedEngine mesh3dMeshStage (processLeaving 0 smallResult smallGlb))
      (runHttp plainFormat pinnedEngine mesh3dMeshStage (sidecarServing "job" smallResult smallGlb)
        "job" "1800" ["front"]) := by
  have hexits : ∀ mapped text, exitStatus mapped = some text →
      getOrNone smallResult "status" = .str text → 0 = mapped := by
    rintro mapped text hexit hstatus
    obtain rfl := JsonValue.str.inj hstatus
    revert hexit
    rw [exitStatus.eq_def]
    split <;> simp
  refine (transports_agree_iff plainFormat pinnedEngine mesh3dMeshStage "1800"
    ⟨⟨0, rfl, hexits⟩, rfl, rfl⟩ (by decide) (sidecarServing_serves "job" ["front"] smallResult
      smallGlb)).mpr ⟨rfl, fun _ output houtput f => ?_⟩
  cases houtput
  exact fun hfloat => (by cases hfloat)

/-- A result whose status is a list. -/
def listStatusResult : List (String × JsonValue) :=
  [("schema_version", .int 1), ("stage", .str "mesh"), ("status", .list [])]

theorem list_status_crashes :
    ¬ TransportsAgree pinnedEngine mesh3dMeshStage listStatusResult smallGlb
      (runLocal plainFormat pinnedEngine mesh3dMeshStage
        (processLeaving 1 listStatusResult smallGlb))
      (runHttp plainFormat pinnedEngine mesh3dMeshStage
        (sidecarServing "job" listStatusResult smallGlb) "job" "1800" ["front"]) := by
  intro h
  have halike : EngineVerdict.failed = .crashed := h.alike
  cases halike

end GpuWorkerPool
