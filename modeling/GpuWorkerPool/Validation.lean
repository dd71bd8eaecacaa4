import GpuWorkerPool.Base.Outcome
import GpuWorkerPool.Base.Sha256
import GpuWorkerPool.Contracts

/-!
Bounds and canonical form of what a host may submit. Each check raises `ValueError` with its own
text, and the first failing check decides the text. A JSON value here is a tree, so the rejection
of containers that occur twice has nothing to reject. Integers print at any length.
-/

namespace GpuWorkerPool

open Base

/-- Raises `ValueError(text)` unless the condition holds. -/
def require (condition : Bool) (text : String) : Except Exc Unit :=
  if condition then .ok () else .error (.valueError text)

@[simp] theorem require_eq_ok {condition : Bool} {text : String} :
    require condition text = .ok () ↔ condition = true := by
  cases condition <;> simp [require]

theorem bind_eq_ok {α β : Type} {p : Except Exc α} {f : α → Except Exc β} {result : β} :
    p >>= f = .ok result ↔ ∃ value, p = .ok value ∧ f value = .ok result := by
  cases p <;> simp [bind, Except.bind]

theorem andThen_eq_ok {p q : Except Exc Unit} :
    (p >>= fun _ => q) = .ok () ↔ p = .ok () ∧ q = .ok () := by
  cases p with
  | ok value => simp [bind, Except.bind]
  | error error => simp [bind, Except.bind]

/-- Applies a check to every element in order. -/
def requireAll {α : Type} (check : α → Except Exc Unit) : List α → Except Exc Unit
  | [] => .ok ()
  | a :: rest => do
      check a
      requireAll check rest

theorem requireAll_eq_ok {α : Type} {check : α → Except Exc Unit} {items : List α} :
    requireAll check items = .ok () ↔ ∀ a ∈ items, check a = .ok () := by
  induction items with
  | nil => simp [requireAll]
  | cons a rest ih => rw [requireAll, andThen_eq_ok, ih, List.forall_mem_cons]

/-- The exception is a `ValueError`. -/
def Exc.IsValueError (error : Exc) : Prop := ∃ text, error = .valueError text

theorem raises_require (condition : Bool) (text : String) :
    Raises Exc.IsValueError (require condition text) := by
  cases condition with
  | true => exact raises_ok ()
  | false => exact raises_error ⟨text, rfl⟩

theorem raises_requireAll {α : Type} {check : α → Except Exc Unit} {P : Exc → Prop}
    (hcheck : ∀ a, Raises P (check a)) (items : List α) : Raises P (requireAll check items) := by
  induction items with
  | nil => exact raises_ok ()
  | cons a rest ih => exact (hcheck a).bind fun _ _ => ih

/-! ### Capability identifiers -/

def isLowerAscii (c : Char) : Bool := 'a' ≤ c && c ≤ 'z'

def isDigitAscii (c : Char) : Bool := '0' ≤ c && c ≤ '9'

/-- `[a-z][a-z0-9_]*` -/
def isNamespaceSegment : List Char → Bool
  | [] => false
  | c :: rest => isLowerAscii c && rest.all fun c => isLowerAscii c || isDigitAscii c || c = '_'

/-- `[a-z0-9_-]+` -/
def isNameSegment (segment : List Char) : Bool :=
  !segment.isEmpty &&
    segment.all fun c => isLowerAscii c || isDigitAscii c || c = '_' || c = '-'

/-- `v[0-9]+` -/
def isVersionSegment : List Char → Bool
  | 'v' :: digits => !digits.isEmpty && digits.all isDigitAscii
  | _ => false

/-- `^[a-z][a-z0-9_]*(?:\.[a-z0-9_-]+)*\.v[0-9]+$`, where `$` also matches before a final newline. -/
def capabilityIdPattern (text : List Char) : Bool :=
  let line := if text.getLast? = some '\n' then text.dropLast else text
  match line.splitOn '.' with
  | first :: second :: rest =>
      isNamespaceSegment first && (second :: rest).dropLast.all isNameSegment &&
        isVersionSegment ((second :: rest).getLastD [])
  | _ => false

def validateCapabilityId (capabilityId : String) : Except Exc Unit :=
  require (capabilityId ≠ "" && capabilityId.length ≤ maxCapabilityIdLength &&
      capabilityIdPattern capabilityId.toList)
    "capability_id must look like namespace.name.v1"

/-! ### Payloads -/

mutual

/-- `_validate_json_tree`. The loop takes values off the end of its stack, so the children of a
container are visited from the last to the first. -/
def validateJsonTree (depth : Nat) (value : JsonValue) : Except Exc Unit := do
  require (depth ≤ maxJobPayloadDepth) s!"job payload exceeds depth {maxJobPayloadDepth}"
  match value with
  | .dict members => validateJsonMembers (depth + 1) members
  | .list items => validateJsonItems (depth + 1) items
  | .float f => require f.isFinite "job payload numbers must be finite"
  | _ => .ok ()

def validateJsonItems (depth : Nat) : List JsonValue → Except Exc Unit
  | [] => .ok ()
  | item :: rest => do
      validateJsonItems depth rest
      validateJsonTree depth item

def validateJsonMembers (depth : Nat) : List (String × JsonValue) → Except Exc Unit
  | [] => .ok ()
  | (_, value) :: rest => do
      validateJsonMembers depth rest
      validateJsonTree depth value

end

mutual

theorem finite_of_validateJsonTree {depth : Nat} {value : JsonValue}
    (h : validateJsonTree depth value = .ok ()) : value.finite := by
  cases value with
  | float f =>
      rw [validateJsonTree, andThen_eq_ok, require_eq_ok, require_eq_ok] at h
      exact h.2
  | list items =>
      rw [validateJsonTree, andThen_eq_ok] at h
      exact finite_of_validateJsonItems h.2
  | dict members =>
      rw [validateJsonTree, andThen_eq_ok] at h
      exact finite_of_validateJsonMembers h.2
  | null => rfl
  | bool b => rfl
  | int n => rfl
  | str s => rfl

theorem finite_of_validateJsonItems {depth : Nat} {items : List JsonValue}
    (h : validateJsonItems depth items = .ok ()) : JsonValue.finiteItems items := by
  cases items with
  | nil => rfl
  | cons item rest =>
      rw [validateJsonItems, andThen_eq_ok] at h
      rw [JsonValue.finiteItems, finite_of_validateJsonTree h.2, finite_of_validateJsonItems h.1]
      rfl

theorem finite_of_validateJsonMembers {depth : Nat} {members : List (String × JsonValue)}
    (h : validateJsonMembers depth members = .ok ()) : JsonValue.finiteMembers members := by
  cases members with
  | nil => rfl
  | cons member rest =>
      obtain ⟨name, value⟩ := member
      rw [validateJsonMembers, andThen_eq_ok] at h
      rw [JsonValue.finiteMembers, finite_of_validateJsonTree h.2,
        finite_of_validateJsonMembers h.1]
      rfl

end

mutual

theorem raises_validateJsonTree (depth : Nat) (value : JsonValue) :
    Raises Exc.IsValueError (validateJsonTree depth value) := by
  rw [validateJsonTree.eq_def]
  refine (raises_require _ _).bind fun _ _ => ?_
  cases value with
  | list items => exact raises_validateJsonItems (depth + 1) items
  | dict members => exact raises_validateJsonMembers (depth + 1) members
  | float f => exact raises_require _ _
  | _ => exact raises_ok ()

theorem raises_validateJsonItems (depth : Nat) (items : List JsonValue) :
    Raises Exc.IsValueError (validateJsonItems depth items) := by
  cases items with
  | nil => exact raises_ok ()
  | cons item rest =>
      exact (raises_validateJsonItems depth rest).bind fun _ _ =>
        raises_validateJsonTree depth item

theorem raises_validateJsonMembers (depth : Nat) (members : List (String × JsonValue)) :
    Raises Exc.IsValueError (validateJsonMembers depth members) := by
  cases members with
  | nil => exact raises_ok ()
  | cons member rest =>
      obtain ⟨name, value⟩ := member
      exact (raises_validateJsonMembers depth rest).bind fun _ _ =>
        raises_validateJsonTree depth value

end

theorem validateJsonItems_ok_iff {depth : Nat} {items : List JsonValue} :
    validateJsonItems depth items = .ok () ↔ ∀ item ∈ items, validateJsonTree depth item = .ok () := by
  induction items with
  | nil => simp [validateJsonItems]
  | cons item rest ih => rw [validateJsonItems, andThen_eq_ok, ih, List.forall_mem_cons, and_comm]

theorem validateJsonMembers_ok_iff {depth : Nat} {members : List (String × JsonValue)} :
    validateJsonMembers depth members = .ok () ↔
      ∀ member ∈ members, validateJsonTree depth member.2 = .ok () := by
  induction members with
  | nil => simp [validateJsonMembers]
  | cons member rest ih => rw [validateJsonMembers, andThen_eq_ok, ih, List.forall_mem_cons, and_comm]

variable [FloatRepr]

/-- The text is ASCII, so its characters are its bytes. -/
def validateJobPayload (payload : JobPayload) : Except Exc Unit := do
  validateJsonTree 1 payload.value
  require (payload.value.encode.length ≤ maxJobPayloadBytes)
    s!"job payload exceeds {maxJobPayloadBytes} bytes"

theorem raises_validateJobPayload (payload : JobPayload) :
    Raises Exc.IsValueError (validateJobPayload payload) :=
  (raises_validateJsonTree 1 payload.value).bind fun _ _ => raises_require _ _

/-! ### Submissions -/

/-- The five fields a worker must be able to reproduce. -/
def canonicalRequest (submission : JobSubmission) : JsonValue :=
  .dict [
    ("capability_id", .str submission.capabilityId),
    ("contract_version", .int submission.contractVersion),
    ("input_keys", .list (submission.inputKeys.map .str)),
    ("output_key", .str submission.outputKey),
    ("payload", submission.payload.value)]

/-- `hashlib.sha256(json.dumps(value).encode()).hexdigest()` with the canonical options. -/
def canonicalDigest (value : JsonValue) : String :=
  sha256Hex (String.ofList value.encode).toUTF8

/-- Canonical sha256 of the request a worker must hand back verbatim. -/
def jobRequestDigest (submission : JobSubmission) : String :=
  canonicalDigest (canonicalRequest submission)

def requireLength (label : String) (value : Option String) (maximum : Nat) : Except Exc Unit :=
  require (value.all fun text => text ≠ "" && text.length ≤ maximum)
    s!"{label} must contain 1 to {maximum} characters"

def requireBetween (label : String) (value minimum maximum : Int) : Except Exc Unit :=
  require (minimum ≤ value && value ≤ maximum)
    s!"{label} must be between {minimum} and {maximum}"

/-- One row of the table of requirement lists. -/
def validateRequirementEntries (label : String) (values : List String) : Except Exc Unit := do
  require (values.length ≤ maxJobRequirementEntries)
    s!"{label} must hold at most {maxJobRequirementEntries} entries"
  requireAll (fun value => require (value ≠ "" && value.length ≤ maxRequirementValueLength)
    s!"{label} entries must contain 1 to {maxRequirementValueLength} characters") values

def validateJobRequirements (requirements : JobRequirements) : Except Exc Unit := do
  require (requirements.minVramMb.all fun mb => 0 ≤ mb && mb ≤ maxRequirementVramMb)
    s!"min_vram_mb must be between 0 and {maxRequirementVramMb}"
  validateRequirementEntries "gpu_models" requirements.gpuModels
  validateRequirementEntries "labels" requirements.labels
  validateRequirementEntries "worker_ids" requirements.workerIds
  validateRequirementEntries "runtime_versions"
    (requirements.runtimeVersions.rows.map Prod.fst ++
      requirements.runtimeVersions.rows.map Prod.snd)

def validateJobSubmission (submission : JobSubmission) : Except Exc Unit := do
  requireLength "job_id" submission.jobId maxJobIdLength
  requireLength "idempotency_key" submission.idempotencyKey maxJobIdLength
  requireLength "tenant_id" submission.tenantId maxJobIdLength
  requireLength "output_key" submission.outputKey maxAssetKeyLength
  require (submission.inputKeys.length ≤ maxJobInputKeys)
    s!"input_keys must hold at most {maxJobInputKeys} entries"
  requireAll (fun key => require (key ≠ "" && key.length ≤ maxAssetKeyLength)
    s!"input_keys entries must contain 1 to {maxAssetKeyLength} characters") submission.inputKeys
  require (decide submission.inputKeys.Nodup) "input_keys must not repeat a key"
  require (1 ≤ submission.contractVersion) "contract_version must be positive"
  validateCapabilityId submission.capabilityId
  requireBetween "priority" submission.priority minJobPriority maxJobPriority
  requireBetween "attempt_budget" submission.attemptBudget minJobAttemptBudget maxJobAttemptBudget
  requireBetween "execution_deadline_seconds" submission.executionDeadlineSeconds
    minExecutionDeadlineSeconds maxExecutionDeadlineSeconds
  validateJobRequirements submission.requirements
  validateJobPayload submission.payload

theorem raises_validateJobRequirements (requirements : JobRequirements) :
    Raises Exc.IsValueError (validateJobRequirements requirements) := by
  have hentries (label : String) (values : List String) :
      Raises Exc.IsValueError (validateRequirementEntries label values) :=
    (raises_require _ _).bind fun _ _ => raises_requireAll (fun _ => raises_require _ _) values
  exact (raises_require _ _).bind fun _ _ => (hentries _ _).bind fun _ _ =>
    (hentries _ _).bind fun _ _ => (hentries _ _).bind fun _ _ => hentries _ _

/-- Every rejection of a submission is a `ValueError`. -/
theorem raises_validateJobSubmission (submission : JobSubmission) :
    Raises Exc.IsValueError (validateJobSubmission submission) := by
  refine (raises_require _ _).bind fun _ _ => (raises_require _ _).bind fun _ _ =>
    (raises_require _ _).bind fun _ _ => (raises_require _ _).bind fun _ _ =>
    (raises_require _ _).bind fun _ _ => (raises_requireAll (fun _ => raises_require _ _) _).bind
    fun _ _ => (raises_require _ _).bind fun _ _ => (raises_require _ _).bind fun _ _ => ?_
  refine (raises_require _ _).bind fun _ _ => (raises_require _ _).bind fun _ _ =>
    (raises_require _ _).bind fun _ _ => (raises_require _ _).bind fun _ _ =>
    (raises_validateJobRequirements _).bind fun _ _ => ?_
  exact raises_validateJobPayload _

/-- What later parts of the program rely on in an accepted submission. -/
structure AcceptedSubmission (submission : JobSubmission) : Prop where
  jobId_ne : submission.jobId ≠ ""
  attemptBudget : 1 ≤ submission.attemptBudget
  payload : submission.payload.value.finite

theorem accepted_of_validate {submission : JobSubmission}
    (h : validateJobSubmission submission = .ok ()) : AcceptedSubmission submission := by
  simp only [validateJobSubmission, andThen_eq_ok, requireLength, requireBetween, require_eq_ok,
    validateJobPayload, Option.all_some, Bool.and_eq_true, decide_eq_true_eq] at h
  obtain ⟨⟨hjob, -⟩, -, -, -, -, -, -, -, -, -, ⟨hbudget, -⟩, -, -, htree, -⟩ := h
  exact ⟨hjob, hbudget, finite_of_validateJsonTree htree⟩

theorem inputKeys_nodup_of_validate {submission : JobSubmission}
    (h : validateJobSubmission submission = .ok ()) : submission.inputKeys.Nodup := by
  simp only [validateJobSubmission, andThen_eq_ok, require_eq_ok, decide_eq_true_eq] at h
  exact h.2.2.2.2.2.2.1

/-- What an accepted submission may ask of a worker. -/
structure BoundedDemands (submission : JobSubmission) : Prop where
  tenant : submission.tenantId.all fun tenant => tenant ≠ ""
  capability : validateCapabilityId submission.capabilityId = .ok ()
  minVramMb : submission.requirements.minVramMb.all fun mb => 0 ≤ mb && mb ≤ maxRequirementVramMb
  labels : submission.requirements.labels.length ≤ maxJobRequirementEntries
  label_ne : ∀ label ∈ submission.requirements.labels, label ≠ ""
  versions : submission.requirements.runtimeVersions.rows.length ≤ maxJobRequirementEntries
  version_ne : ∀ entry ∈ submission.requirements.runtimeVersions.rows,
    entry.1 ≠ "" ∧ entry.2 ≠ ""

theorem boundedDemands_of_validate {submission : JobSubmission}
    (h : validateJobSubmission submission = .ok ()) : BoundedDemands submission := by
  simp only [validateJobSubmission, andThen_eq_ok, requireLength, validateJobRequirements,
    validateRequirementEntries, requireAll_eq_ok, require_eq_ok, Bool.and_eq_true,
    decide_eq_true_eq] at h
  obtain ⟨-, -, htenant, -, -, -, -, -, hcapability, -, -, -,
    ⟨hvram, -, ⟨hlabels, hlabel⟩, -, hversions, hversion⟩, -⟩ := h
  refine ⟨?_, hcapability, hvram, hlabels, fun label hmem => (hlabel label hmem).1, ?_,
    fun entry hmem => ⟨?_, ?_⟩⟩
  · cases htenantId : submission.tenantId with
    | none => rfl
    | some tenant =>
        rw [htenantId] at htenant
        simpa using (by simpa using htenant : tenant ≠ "" ∧ _).1
  · rw [List.length_append, List.length_map, List.length_map] at hversions
    omega
  · exact (hversion entry.1 (List.mem_append_left _ (List.mem_map_of_mem hmem))).1
  · exact (hversion entry.2 (List.mem_append_right _ (List.mem_map_of_mem hmem))).1

end GpuWorkerPool
