import GpuWorkerPool.Base.CharLanguage
import GpuWorkerPool.Base.JsonEncoding
import GpuWorkerPool.Validation

/-!
What the submission validator accepts. Every bound is checked as documented but two: the capability
pattern ends in `$`, which lets a final newline pass, and a runtime version counts as two entries,
one for its key and one for its value.
-/

namespace GpuWorkerPool

open Base Computability

/-! ### Capability identifiers -/

/-- `[a-z0-9_]` -/
def isWordChar (c : Char) : Bool := isLowerAscii c || isDigitAscii c || c = '_'

/-- `[a-z0-9_-]` -/
def isNameChar (c : Char) : Bool := isLowerAscii c || isDigitAscii c || c = '_' || c = '-'

/-- A letter and word characters, names each after a dot, and a version after a last dot. -/
def capabilityGrammar : Language Char :=
  charClass isLowerAscii * (charClass isWordChar)∗ *
    (following '.' (charClass isNameChar * (charClass isNameChar)∗))∗ *
    following '.' (following 'v' (charClass isDigitAscii * (charClass isDigitAscii)∗))

theorem isNamespaceSegment_iff {segment : List Char} :
    isNamespaceSegment segment ↔ segment ∈ charClass isLowerAscii * (charClass isWordChar)∗ := by
  rw [mem_charClass_mul_kstar]
  cases segment with
  | nil => simp [isNamespaceSegment]
  | cons c rest =>
      rw [isNamespaceSegment, Bool.and_eq_true]
      constructor
      · intro ⟨hc, hrest⟩
        exact ⟨c, rest, rfl, hc, hrest⟩
      · rintro ⟨c, rest, heq, hc, hrest⟩
        cases heq
        exact ⟨hc, hrest⟩

theorem isNameSegment_iff {segment : List Char} :
    isNameSegment segment ↔ segment ∈ charClass isNameChar * (charClass isNameChar)∗ := by
  rw [mem_charClass_plus, isNameSegment, Bool.and_eq_true, Bool.not_eq_true',
    List.isEmpty_eq_false_iff]
  rfl

theorem isVersionSegment_iff {segment : List Char} :
    isVersionSegment segment ↔
      segment ∈ following 'v' (charClass isDigitAscii * (charClass isDigitAscii)∗) := by
  rw [mem_following]
  simp only [mem_charClass_plus]
  constructor
  · intro h
    unfold isVersionSegment at h
    split at h
    · rename_i digits
      rw [Bool.and_eq_true, Bool.not_eq_true', List.isEmpty_eq_false_iff] at h
      exact ⟨digits, h, rfl⟩
    · cases h
  · rintro ⟨digits, hdigits, rfl⟩
    rw [isVersionSegment, Bool.and_eq_true, Bool.not_eq_true', List.isEmpty_eq_false_iff]
    exact hdigits

/-- A capability identifier is its first segment, its names and its version. -/
theorem mem_capabilityGrammar {text : List Char} :
    text ∈ capabilityGrammar ↔
      ∃ (first : List Char) (names : List (List Char)) (version : List Char),
        isNamespaceSegment first ∧ (∀ name ∈ names, isNameSegment name) ∧
        isVersionSegment version ∧
        text = first ++ (names ++ [version]).flatMap fun part => '.' :: part := by
  simp only [isNamespaceSegment_iff, isNameSegment_iff, isVersionSegment_iff]
  rw [capabilityGrammar, Language.mem_mul]
  constructor
  · rintro ⟨front, hfront, last, hlast, rfl⟩
    obtain ⟨first, hfirst, middle, hmiddle, rfl⟩ := Language.mem_mul.mp hfront
    obtain ⟨names, hnames, rfl⟩ := mem_following_kstar.mp hmiddle
    obtain ⟨version, hversion, rfl⟩ := mem_following.mp hlast
    refine ⟨first, names, version, hfirst, hnames, hversion, ?_⟩
    rw [List.flatMap_append, List.flatMap_singleton, List.append_assoc]
  · rintro ⟨first, names, version, hfirst, hnames, hversion, rfl⟩
    refine ⟨_, Language.append_mem_mul hfirst (mem_following_kstar.mpr ⟨names, hnames, rfl⟩), _,
      mem_following.mpr ⟨version, hversion, rfl⟩, ?_⟩
    rw [List.flatMap_append, List.flatMap_singleton, List.append_assoc]

theorem dot_notMem_of_all {p : Char → Bool} (hp : p '.' = false) {text : List Char}
    (h : text.all p) : '.' ∉ text := by
  intro hmem
  have hdot := List.all_eq_true.mp h '.' hmem
  rw [hp] at hdot
  cases hdot

theorem dot_notMem_namespace {segment : List Char} (h : isNamespaceSegment segment) :
    '.' ∉ segment := by
  cases segment with
  | nil => exact List.not_mem_nil
  | cons c rest =>
      rw [isNamespaceSegment, Bool.and_eq_true] at h
      rw [List.mem_cons, not_or]
      refine ⟨?_, dot_notMem_of_all rfl h.2⟩
      rintro rfl
      exact absurd h.1 (by decide)

theorem dot_notMem_name {segment : List Char} (h : isNameSegment segment) : '.' ∉ segment := by
  rw [isNameSegment, Bool.and_eq_true] at h
  exact dot_notMem_of_all rfl h.2

theorem dot_notMem_version {segment : List Char} (h : isVersionSegment segment) :
    '.' ∉ segment := by
  unfold isVersionSegment at h
  split at h
  · rw [Bool.and_eq_true] at h
    rw [List.mem_cons, not_or]
    exact ⟨by decide, dot_notMem_of_all rfl h.2⟩
  · cases h

/-- The line of the pattern, which is the text without a final newline. -/
def patternLine (text : List Char) : List Char :=
  if text.getLast? = some '\n' then text.dropLast else text

theorem capabilityIdPattern_iff_line {text : List Char} :
    capabilityIdPattern text ↔ patternLine text ∈ capabilityGrammar := by
  rw [mem_capabilityGrammar]
  constructor
  · intro h
    rw [capabilityIdPattern, ← patternLine] at h
    split at h
    · rename_i first second rest hsplit
      simp only [Bool.and_eq_true] at h
      obtain ⟨⟨hfirst, hnames⟩, hversion⟩ := h
      have hparts : (second :: rest).dropLast ++ [(second :: rest).getLastD []] =
          second :: rest := by
        rw [List.getLastD_eq_getLast?, List.getLast?_eq_some_getLast (List.cons_ne_nil _ _)]
        exact List.dropLast_append_getLast (List.cons_ne_nil _ _)
      refine ⟨first, (second :: rest).dropLast, (second :: rest).getLastD [], hfirst,
        List.all_eq_true.mp hnames, hversion, ?_⟩
      rw [hparts, ← intercalate_cons_eq, ← hsplit, List.intercalate_splitOn]
    · cases h
  · rintro ⟨first, names, version, hfirst, hnames, hversion, hline⟩
    have hfree : ∀ part ∈ first :: (names ++ [version]), '.' ∉ part := by
      intro part hpart
      rcases List.mem_cons.mp hpart with rfl | hpart
      · exact dot_notMem_namespace hfirst
      · rcases List.mem_append.mp hpart with hname | hlast
        · exact dot_notMem_name (hnames part hname)
        · rw [List.mem_singleton.mp hlast]
          exact dot_notMem_version hversion
    have hsplit := (splitOn_eq_iff hfree).mpr hline
    rw [capabilityIdPattern, ← patternLine]
    cases hrest : names ++ [version] with
    | nil => exact absurd hrest (by simp)
    | cons second rest =>
        rw [hrest] at hsplit
        have hlast : (second :: rest).getLastD [] = version := by rw [← hrest]; simp
        have hfront : (second :: rest).dropLast = names := by rw [← hrest]; simp
        simp only [hsplit, hlast, hfront, hfirst, hversion, Bool.true_and, Bool.and_true]
        exact List.all_eq_true.mpr hnames

/-- An identifier of the grammar ends in a digit. -/
theorem getLast?_ne_newline {text : List Char} (h : text ∈ capabilityGrammar) :
    text.getLast? ≠ some '\n' := by
  obtain ⟨first, names, version, -, -, hversion, rfl⟩ := mem_capabilityGrammar.mp h
  obtain ⟨digits, hdigits, rfl⟩ := mem_following.mp (isVersionSegment_iff.mp hversion)
  obtain ⟨hne, hall⟩ := mem_charClass_plus.mp hdigits
  rw [List.flatMap_append, List.flatMap_singleton]
  obtain ⟨front, last, rfl⟩ := (List.eq_nil_or_concat' digits).resolve_left hne
  rw [List.all_append, Bool.and_eq_true] at hall
  intro hlast
  rw [← List.append_assoc, ← List.cons_append, ← List.cons_append, ← List.append_assoc,
    List.getLast?_concat, Option.some_inj] at hlast
  rw [hlast] at hall
  exact absurd hall.2 (by decide)

/-- `$` also matches before a final newline. -/
theorem capabilityIdPattern_iff {text : List Char} :
    capabilityIdPattern text ↔
      text ∈ capabilityGrammar ∨ ∃ id ∈ capabilityGrammar, text = id ++ ['\n'] := by
  rw [capabilityIdPattern_iff_line, patternLine]
  split
  · rename_i hlast
    obtain ⟨front, rfl⟩ := List.getLast?_eq_some_iff.mp hlast
    rw [List.dropLast_concat]
    constructor
    · exact fun h => Or.inr ⟨front, h, rfl⟩
    · rintro (hwhole | ⟨id, hid, heq⟩)
      · exact absurd hlast (getLast?_ne_newline hwhole)
      · rwa [List.append_cancel_right heq]
  · rename_i hlast
    constructor
    · exact Or.inl
    · rintro (hwhole | ⟨id, -, rfl⟩)
      · exact hwhole
      · exact absurd (List.getLast?_concat) hlast

/-! ### The documented bounds -/

/-- 1 to `maximum` characters. -/
def HasLength (maximum : Nat) (text : String) : Prop := 1 ≤ text.length ∧ text.length ≤ maximum

/-- At most `MAX_JOB_REQUIREMENT_ENTRIES` entries, each of a documented length. -/
def HasEntries (values : List String) : Prop :=
  values.length ≤ maxJobRequirementEntries ∧
    ∀ value ∈ values, HasLength maxRequirementValueLength value

section Bounds

variable [FloatRepr]

/-- Every documented bound except the grammar of `capability_id` and the number of
`runtime_versions`. -/
structure WithinBounds (s : JobSubmission) : Prop where
  jobId : HasLength maxJobIdLength s.jobId
  idempotencyKey : HasLength maxJobIdLength s.idempotencyKey
  tenantId : ∀ tenant, s.tenantId = some tenant → HasLength maxJobIdLength tenant
  outputKey : HasLength maxAssetKeyLength s.outputKey
  inputKeys_length : s.inputKeys.length ≤ maxJobInputKeys
  inputKeys : ∀ key ∈ s.inputKeys, HasLength maxAssetKeyLength key
  inputKeys_nodup : s.inputKeys.Nodup
  contractVersion : 1 ≤ s.contractVersion
  capabilityId : s.capabilityId.length ≤ maxCapabilityIdLength
  priority : minJobPriority ≤ s.priority ∧ s.priority ≤ maxJobPriority
  attemptBudget : minJobAttemptBudget ≤ s.attemptBudget ∧ s.attemptBudget ≤ maxJobAttemptBudget
  executionDeadlineSeconds : minExecutionDeadlineSeconds ≤ s.executionDeadlineSeconds ∧
    s.executionDeadlineSeconds ≤ maxExecutionDeadlineSeconds
  minVramMb : ∀ mb, s.requirements.minVramMb = some mb → 0 ≤ mb ∧ mb ≤ maxRequirementVramMb
  gpuModels : HasEntries s.requirements.gpuModels
  labels : HasEntries s.requirements.labels
  workerIds : HasEntries s.requirements.workerIds
  runtimeVersions : ∀ entry ∈ s.requirements.runtimeVersions.rows,
    HasLength maxRequirementValueLength entry.1 ∧ HasLength maxRequirementValueLength entry.2
  payload : validateJobPayload s.payload = .ok ()

/-- What the validator is documented to accept. -/
structure Documented (s : JobSubmission) : Prop where
  bounds : WithinBounds s
  capabilityId : s.capabilityId.toList ∈ capabilityGrammar
  runtimeVersions : s.requirements.runtimeVersions.rows.length ≤ maxJobRequirementEntries

omit [FloatRepr] in
theorem bounded_iff {maximum : Nat} {text : String} :
    (text ≠ "" && text.length ≤ maximum) = true ↔ HasLength maximum text := by
  rw [Bool.and_eq_true, decide_eq_true_eq, decide_eq_true_eq, HasLength, Nat.one_le_iff_ne_zero,
    ne_eq, ne_eq, String.length_eq_zero_iff]

omit [FloatRepr] in
theorem requireLength_eq_ok {label text : String} {maximum : Nat} :
    requireLength label text maximum = .ok () ↔ HasLength maximum text := by
  rw [requireLength, require_eq_ok, Option.all_some, bounded_iff]

omit [FloatRepr] in
theorem validateRequirementEntries_eq_ok {label : String} {values : List String} :
    validateRequirementEntries label values = .ok () ↔ HasEntries values := by
  simp only [validateRequirementEntries, andThen_eq_ok, requireAll_eq_ok, require_eq_ok,
    bounded_iff, decide_eq_true_eq]
  rfl

omit [FloatRepr] in
theorem validateJobRequirements_eq_ok {requirements : JobRequirements} :
    validateJobRequirements requirements = .ok () ↔
      (∀ mb, requirements.minVramMb = some mb → 0 ≤ mb ∧ mb ≤ maxRequirementVramMb) ∧
      HasEntries requirements.gpuModels ∧ HasEntries requirements.labels ∧
      HasEntries requirements.workerIds ∧
      (2 * requirements.runtimeVersions.rows.length ≤ maxJobRequirementEntries ∧
        ∀ entry ∈ requirements.runtimeVersions.rows,
          HasLength maxRequirementValueLength entry.1 ∧
            HasLength maxRequirementValueLength entry.2) := by
  have hvram : (requirements.minVramMb.all fun mb => 0 ≤ mb && mb ≤ maxRequirementVramMb) = true ↔
      ∀ mb, requirements.minVramMb = some mb → 0 ≤ mb ∧ mb ≤ maxRequirementVramMb := by
    cases requirements.minVramMb <;> simp
  have hversions (rows : List (String × String)) :
      HasEntries (rows.map Prod.fst ++ rows.map Prod.snd) ↔
        2 * rows.length ≤ maxJobRequirementEntries ∧ ∀ entry ∈ rows,
          HasLength maxRequirementValueLength entry.1 ∧
            HasLength maxRequirementValueLength entry.2 := by
    rw [HasEntries, List.length_append, List.length_map, List.length_map, ← two_mul]
    refine and_congr_right fun _ => ?_
    simp only [List.forall_mem_append, List.forall_mem_map]
    exact ⟨fun h entry hentry => ⟨h.1 entry hentry, h.2 entry hentry⟩,
      fun h => ⟨fun entry hentry => (h entry hentry).1, fun entry hentry => (h entry hentry).2⟩⟩
  simp only [validateJobRequirements, andThen_eq_ok, require_eq_ok,
    validateRequirementEntries_eq_ok, hvram, hversions]

/-- The validator as a set of conditions. -/
theorem validateJobSubmission_eq_ok {s : JobSubmission} :
    validateJobSubmission s = .ok () ↔
      WithinBounds s ∧ capabilityIdPattern s.capabilityId.toList ∧
        2 * s.requirements.runtimeVersions.rows.length ≤ maxJobRequirementEntries := by
  have hkeys : requireAll (fun key => require (key ≠ "" && key.length ≤ maxAssetKeyLength)
        s!"input_keys entries must contain 1 to {maxAssetKeyLength} characters") s.inputKeys =
      .ok () ↔ ∀ key ∈ s.inputKeys, HasLength maxAssetKeyLength key := by
    simp only [requireAll_eq_ok, require_eq_ok, bounded_iff]
  have htenant : requireLength "tenant_id" s.tenantId maxJobIdLength = .ok () ↔
      ∀ tenant, s.tenantId = some tenant → HasLength maxJobIdLength tenant := by
    cases s.tenantId with
    | none => simp [requireLength]
    | some tenant => simp [requireLength_eq_ok]
  have hcapability : validateCapabilityId s.capabilityId = .ok () ↔
      s.capabilityId.length ≤ maxCapabilityIdLength ∧
        capabilityIdPattern s.capabilityId.toList := by
    rw [validateCapabilityId, require_eq_ok, Bool.and_eq_true, bounded_iff, HasLength]
    refine ⟨fun h => ⟨h.1.2, h.2⟩, fun h => ⟨⟨?_, h.1⟩, h.2⟩⟩
    rw [Nat.one_le_iff_ne_zero, ne_eq, String.length_eq_zero_iff]
    intro hempty
    rw [hempty] at h
    exact absurd h.2 (by decide)
  have hbetween {label : String} {value minimum maximum : Int} :
      requireBetween label value minimum maximum = .ok () ↔ minimum ≤ value ∧ value ≤ maximum := by
    simp [requireBetween]
  simp only [validateJobSubmission, andThen_eq_ok, requireLength_eq_ok, htenant, hkeys,
    hcapability, hbetween, validateJobRequirements_eq_ok, require_eq_ok, decide_eq_true_eq]
  constructor
  · intro h
    obtain ⟨hjob, hidempotency, hten, hout, hcount, hall, hnodup, hversion, ⟨hlength, hpattern⟩,
      hpriority, hbudget, hdeadline, ⟨hvram, hgpu, hlabels, hworkers, hversions, hentries⟩,
      hpayload⟩ := h
    exact ⟨⟨hjob, hidempotency, hten, hout, hcount, hall, hnodup, hversion, hlength, hpriority,
      hbudget, hdeadline, hvram, hgpu, hlabels, hworkers, hentries, hpayload⟩, hpattern, hversions⟩
  · intro hwithin
    obtain ⟨h, hpattern, hversions⟩ := hwithin
    exact ⟨h.jobId, h.idempotencyKey, h.tenantId, h.outputKey, h.inputKeys_length, h.inputKeys,
      h.inputKeys_nodup, h.contractVersion, ⟨h.capabilityId, hpattern⟩, h.priority,
      h.attemptBudget, h.executionDeadlineSeconds, ⟨h.minVramMb, h.gpuModels, h.labels,
      h.workerIds, hversions, h.runtimeVersions⟩, h.payload⟩

/-- The validator accepts what is documented, and refuses anything else with a `ValueError`. -/
def AcceptsDocumented (s : JobSubmission) : Prop :=
  (validateJobSubmission s = .ok () ↔ Documented s) ∧
    Raises Exc.IsValueError (validateJobSubmission s)

/-- An identifier of the grammar with a newline behind it. -/
def EndsInNewline (capabilityId : String) : Prop :=
  ∃ id ∈ capabilityGrammar, capabilityId.toList = id ++ ['\n']

/-- The validator departs from the documentation on submissions that are within all other bounds:
it accepts a newline behind the identifier and refuses nine to sixteen runtime versions. -/
theorem accepts_documented_iff (s : JobSubmission) :
    AcceptsDocumented s ↔
      (WithinBounds s →
        ¬ (EndsInNewline s.capabilityId ∧ s.requirements.runtimeVersions.rows.length ≤ 8) ∧
        ¬ (s.capabilityId.toList ∈ capabilityGrammar ∧
          9 ≤ s.requirements.runtimeVersions.rows.length ∧
          s.requirements.runtimeVersions.rows.length ≤ 16)) := by
  have hnever : EndsInNewline s.capabilityId → s.capabilityId.toList ∉ capabilityGrammar := by
    rintro ⟨id, -, heq⟩ hgrammar
    refine getLast?_ne_newline hgrammar ?_
    rw [heq, List.getLast?_concat]
  have hcode := @validateJobSubmission_eq_ok _ s
  rw [capabilityIdPattern_iff, ← EndsInNewline, maxJobRequirementEntries] at hcode
  have hdocumented : Documented s ↔ WithinBounds s ∧ s.capabilityId.toList ∈ capabilityGrammar ∧
      s.requirements.runtimeVersions.rows.length ≤ 16 :=
    ⟨fun h => ⟨h.bounds, h.capabilityId, h.runtimeVersions⟩, fun h => ⟨h.1, h.2.1, h.2.2⟩⟩
  rw [AcceptsDocumented, and_iff_left (raises_validateJobSubmission s), hcode, hdocumented]
  by_cases hbounds : WithinBounds s
  · simp only [hbounds, true_and, true_implies]
    by_cases hnewline : EndsInNewline s.capabilityId
    · have hnot := hnever hnewline
      simp only [hnewline, hnot, or_true, true_and, false_and, not_false_eq_true, and_true,
        iff_false, false_or]
      omega
    · simp only [hnewline, or_false, false_and, not_false_eq_true, true_and]
      by_cases hgrammar : s.capabilityId.toList ∈ capabilityGrammar
      · simp only [hgrammar, true_and]
        omega
      · simp [hgrammar]
  · simp [hbounds]

end Bounds

def newlineJob : JobSubmission where
  jobId := "job-1"
  idempotencyKey := "key-1"
  capabilityId := "test.deterministic.echo.v1\n"
  inputKeys := []
  outputKey := "outputs/job-1"

/-- An identifier with a newline behind it is accepted. -/
theorem newline_accepted :
    letI := FloatRepr.byParts
    ¬ AcceptsDocumented newlineJob := by
  let _ := FloatRepr.byParts
  intro h
  have haccepted : validateJobSubmission newlineJob = .ok () := by decide +kernel
  refine getLast?_ne_newline (h.1.mp haccepted).capabilityId ?_
  decide

end GpuWorkerPool
