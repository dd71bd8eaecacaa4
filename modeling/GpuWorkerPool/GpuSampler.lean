import GpuWorkerPool.Routes
import Mathlib.Data.List.DropRight

/-!
GPU telemetry, from the text that `nvidia-smi` prints to the heartbeat that carries it. The sampler
reports whatever splits into five fields and reads as integers; the request model bounds each field
and the number of rows, and refuses the whole heartbeat if one of them is out of bounds.
-/

namespace GpuWorkerPool

open Base

/-! ### Python's text functions -/

/-- The values of the decimal digits, `unicodedata.decimal`. -/
class PyDigits where
  decimal : Char → Option Nat

/-- The digits of ASCII. -/
@[reducible] def PyDigits.ascii : PyDigits where
  decimal c := if c.isDigit then some (c.toNat - '0'.toNat) else none

/-- `text.strip()` -/
def strip (text : List Char) : List Char := (text.dropWhile isSpace).rdropWhile isSpace

/-- The characters at which `str.splitlines` ends a line. -/
def isLineBreak (c : Char) : Bool :=
  let n := c.toNat
  (10 ≤ n && n ≤ 13) || (28 ≤ n && n ≤ 30) || n = 0x85 || n = 0x2028 || n = 0x2029

/-- The lines from a point inside a line on, whose characters so far are reversed. -/
def linesFrom : List Char → List Char → List (List Char)
  | current, [] => if current.isEmpty then [] else [current.reverse]
  | current, '\r' :: '\n' :: rest => current.reverse :: linesFrom [] rest
  | current, c :: rest =>
      if isLineBreak c then current.reverse :: linesFrom [] rest else linesFrom (c :: current) rest

/-- `text.splitlines()` -/
def splitLines (text : List Char) : List (List Char) := linesFrom [] text

def maxIntDigits : Nat := 4300

section Integers

variable [PyDigits]

/-- `int(text)`: a sign, and groups of digits with single underscores between them. -/
def pyInt (text : List Char) : Option Int :=
  let (negative, body) :=
    match strip text with
    | '-' :: rest => (true, rest)
    | '+' :: rest => (false, rest)
    | rest => (false, rest)
  let groups := body.splitOn '_'
  let digits := groups.flatten.filterMap PyDigits.decimal
  if groups.all (fun group => !group.isEmpty && group.all fun c => (PyDigits.decimal c).isSome) &&
      digits.length ≤ maxIntDigits then
    let n : Nat := digits.foldl (fun n d => 10 * n + d) 0
    some (if negative then -n else n)
  else none

/-! ### The sampler -/

def notAvailable : List Char := "[N/A]".toList

def intOf (text : List Char) : Except Exc Int :=
  match pyInt text with
  | some n => .ok n
  | none => .error (.valueError "invalid literal for int() with base 10")

/-- `_optional_int` -/
def optionalInt (value : List Char) : Except Exc (Option Int) :=
  if value = notAvailable || value.isEmpty then .ok none
  else do
    let n ← intOf value
    pure (some n)

/-- The row of a line that is not blank. -/
def parseRow (stripped : List Char) : Except Exc GpuTelemetry :=
  match (stripped.splitOn ',').map strip with
  | [index, name, utilizationPct, memoryUsedMb, memoryTotalMb] => do
      let index ← intOf index
      let utilizationPct ← optionalInt utilizationPct
      let memoryUsedMb ← optionalInt memoryUsedMb
      let memoryTotalMb ← optionalInt memoryTotalMb
      pure ⟨index, String.ofList name, utilizationPct, memoryUsedMb, memoryTotalMb⟩
  | fields => .error (.valueError s!"expected 5 fields, got {fields.length}")

/-- The loop of `_parse_csv`. -/
def parseRows : List (List Char) → Except Exc (List GpuTelemetry)
  | [] => .ok []
  | line :: rest =>
      if (strip line).isEmpty then parseRows rest
      else do
        let gpu ← parseRow (strip line)
        let telemetry ← parseRows rest
        pure (gpu :: telemetry)

/-- `_parse_csv` -/
def parseCsv (stdout : String) : Except Exc (List GpuTelemetry) :=
  parseRows (splitLines stdout.toList)

/-- How the run of `nvidia-smi` ends: a nonzero exit and an `OSError` are failures. -/
inductive SmiRun where
  | timeoutExpired
  | failed (text : String)
  | completed (stdout : String)

/-- `GpuSampler.sample`, with the binary found on the machine and how its run ends. -/
def sample (binary : Option String) (run : String → SmiRun) : List GpuTelemetry :=
  match binary with
  | none => []
  | some binary =>
      match run binary with
      | .timeoutExpired => []
      | .failed _ => []
      | .completed stdout =>
          match parseCsv stdout with
          | .ok telemetry => telemetry
          | .error _ => []

/-- A registration with the sampled telemetry, as the agent posts it. -/
def WorkerRegistration.withGpus (r : WorkerRegistration) (gpus : List GpuTelemetry) :
    WorkerRegistration :=
  { r with gpus := gpus }

/-! ### The rows of a text -/

/-- The fields of the lines that are not blank. -/
def smiRows (stdout : String) : List (List (List Char)) :=
  ((splitLines stdout.toList).filter fun line => !(strip line).isEmpty).map fun line =>
    ((strip line).splitOn ',').map strip

/-- The field is blank, `[N/A]`, or an integer that satisfies `p`. -/
def FigureIs (p : Int → Prop) (value : List Char) : Prop :=
  value = notAvailable ∨ value = [] ∨ ∃ n, pyInt value = some n ∧ p n

/-- Five fields, of which the first is an integer with `index` and the last three are figures with
`percent` and `megabytes`. -/
def RowIs (index : Int → Prop) (name : List Char → Prop) (percent megabytes : Int → Prop)
    (fields : List (List Char)) : Prop :=
  ∃ first second third fourth fifth, fields = [first, second, third, fourth, fifth] ∧
    (∃ n, pyInt first = some n ∧ index n) ∧ name second ∧ FigureIs percent third ∧
    FigureIs megabytes fourth ∧ FigureIs megabytes fifth

/-- A row that the sampler can read. -/
def ReadableRow : List (List Char) → Prop :=
  RowIs (fun _ => True) (fun _ => True) (fun _ => True) (fun _ => True)

/-- A row within the bounds of `GpuTelemetryDto`. -/
def BoundedRow : List (List Char) → Prop :=
  RowIs (fun n => 0 ≤ n ∧ n ≤ 63) (fun name => 1 ≤ name.length ∧ name.length ≤ 128)
    (fun n => 0 ≤ n ∧ n ≤ 100) (fun n => 0 ≤ n ∧ n ≤ 1000000)

/-! ### What the sampler reports -/

theorem intOf_eq_ok {text : List Char} {n : Int} : intOf text = .ok n ↔ pyInt text = some n := by
  unfold intOf
  cases pyInt text <;> simp

theorem optionalInt_ok_iff {value : List Char} :
    (∃ figure, optionalInt value = .ok figure) ↔ FigureIs (fun _ => True) value := by
  unfold optionalInt FigureIs
  by_cases hblank : (value = notAvailable || value.isEmpty) = true
  · rw [if_pos hblank]
    rw [Bool.or_eq_true, decide_eq_true_eq, List.isEmpty_iff] at hblank
    constructor
    · intro _
      rcases hblank with hblank | hblank
      · exact Or.inl hblank
      · exact Or.inr (Or.inl hblank)
    · exact fun _ => ⟨none, rfl⟩
  · rw [if_neg hblank]
    rw [Bool.or_eq_true, decide_eq_true_eq, List.isEmpty_iff, not_or] at hblank
    simp only [bind_ok_iff, intOf_eq_ok, pure_ok_iff, hblank.1, hblank.2, false_or, and_true]
    constructor
    · rintro ⟨_, n, hn, -⟩
      exact ⟨n, hn⟩
    · rintro ⟨n, hn⟩
      exact ⟨some n, n, hn, rfl⟩

theorem figureIs_iff {p : Int → Prop} {value : List Char} {figure : Option Int}
    (h : optionalInt value = .ok figure) : FigureIs p value ↔ ∀ n, figure = some n → p n := by
  unfold optionalInt at h
  unfold FigureIs
  split at h
  · rename_i hblank
    rw [Bool.or_eq_true, decide_eq_true_eq, List.isEmpty_iff] at hblank
    cases h
    refine iff_of_true ?_ fun n hn => (by cases hn)
    rcases hblank with hblank | hblank
    · exact Or.inl hblank
    · exact Or.inr (Or.inl hblank)
  · rename_i hblank
    rw [Bool.or_eq_true, decide_eq_true_eq, List.isEmpty_iff, not_or] at hblank
    obtain ⟨n, hn, heq⟩ := bind_ok_iff.mp h
    cases pure_ok_iff.mp heq
    rw [intOf_eq_ok] at hn
    simp [hblank.1, hblank.2, hn]

theorem parseRow_eq_ok {stripped : List Char} {gpu : GpuTelemetry} :
    parseRow stripped = .ok gpu ↔
      ∃ first second third fourth fifth,
        (stripped.splitOn ',').map strip = [first, second, third, fourth, fifth] ∧
        pyInt first = some gpu.index ∧ String.ofList second = gpu.name ∧
        optionalInt third = .ok gpu.utilizationPct ∧ optionalInt fourth = .ok gpu.memoryUsedMb ∧
        optionalInt fifth = .ok gpu.memoryTotalMb := by
  unfold parseRow
  split
  · rename_i first second third fourth fifth hfields
    simp only [bind_ok_iff, intOf_eq_ok, pure_ok_iff]
    constructor
    · rintro ⟨index, hindex, utilization, hutilization, used, hused, total, htotal, rfl⟩
      exact ⟨first, second, third, fourth, fifth, hfields, hindex, rfl, hutilization, hused, htotal⟩
    · rintro ⟨_, _, _, _, _, heq, hindex, hname, hutilization, hused, htotal⟩
      rw [hfields] at heq
      cases heq
      exact ⟨_, hindex, _, hutilization, _, hused, _, htotal, by rw [hname]⟩
  · rename_i hfields
    constructor
    · intro h
      cases h
    · rintro ⟨first, second, third, fourth, fifth, heq, -⟩
      exact absurd heq (hfields first second third fourth fifth)

theorem readableRow_iff {stripped : List Char} :
    (∃ gpu, parseRow stripped = .ok gpu) ↔ ReadableRow ((stripped.splitOn ',').map strip) := by
  simp only [parseRow_eq_ok]
  constructor
  · rintro ⟨gpu, first, second, third, fourth, fifth, hfields, hindex, -, hutilization, hused,
      htotal⟩
    exact ⟨first, second, third, fourth, fifth, hfields, ⟨_, hindex, trivial⟩, trivial,
      optionalInt_ok_iff.mp ⟨_, hutilization⟩, optionalInt_ok_iff.mp ⟨_, hused⟩,
      optionalInt_ok_iff.mp ⟨_, htotal⟩⟩
  · rintro ⟨first, second, third, fourth, fifth, hfields, ⟨index, hindex, -⟩, -, hutilization,
      hused, htotal⟩
    obtain ⟨utilization, hutilization⟩ := optionalInt_ok_iff.mpr hutilization
    obtain ⟨used, hused⟩ := optionalInt_ok_iff.mpr hused
    obtain ⟨total, htotal⟩ := optionalInt_ok_iff.mpr htotal
    exact ⟨⟨index, String.ofList second, utilization, used, total⟩, first, second, third, fourth,
      fifth, hfields, hindex, rfl, hutilization, hused, htotal⟩

omit [PyDigits] in
theorem within_iff {minimum maximum n : Int} :
    within minimum maximum n = true ↔ minimum ≤ n ∧ n ≤ maximum := by
  simp [within]

/-- A reported row is within the request model's bounds if its fields are. -/
theorem boundedRow_iff {stripped : List Char} {gpu : GpuTelemetry}
    (h : parseRow stripped = .ok gpu) :
    gpu.withinBounds ↔ BoundedRow ((stripped.splitOn ',').map strip) := by
  obtain ⟨first, second, third, fourth, fifth, hfields, hindex, hname, hutilization, hused,
    htotal⟩ := parseRow_eq_ok.mp h
  have hall {minimum maximum : Int} {figure : Option Int} :
      figure.all (within minimum maximum) = true ↔
        ∀ n, figure = some n → minimum ≤ n ∧ n ≤ maximum := by
    cases figure <;> simp [within_iff]
  have hlength : lengthWithin 1 maxGpuNameLength gpu.name = true ↔
      1 ≤ second.length ∧ second.length ≤ 128 := by
    rw [← hname, lengthWithin, Bool.and_eq_true, decide_eq_true_eq, decide_eq_true_eq,
      String.length_ofList]
    rfl
  rw [hfields, BoundedRow, GpuTelemetry.withinBounds]
  simp only [Bool.and_eq_true, within_iff, hlength, hall, ← figureIs_iff hutilization,
    ← figureIs_iff hused, ← figureIs_iff htotal]
  constructor
  · rintro ⟨⟨⟨⟨hi, hn⟩, hu⟩, hm⟩, ht⟩
    exact ⟨first, second, third, fourth, fifth, rfl, ⟨_, hindex, hi⟩, hn, hu, hm, ht⟩
  · rintro ⟨_, _, _, _, _, heq, ⟨n, hn, hi⟩, hname', hu, hm, ht⟩
    cases heq
    obtain rfl := Option.some.inj (hindex.symm.trans hn)
    exact ⟨⟨⟨⟨hi, hname'⟩, hu⟩, hm⟩, ht⟩

/-- The reported rows are those of the lines that are not blank. -/
theorem parseRows_eq_ok {lines : List (List Char)} {telemetry : List GpuTelemetry} :
    parseRows lines = .ok telemetry ↔
      List.Forall₂ (fun line gpu => parseRow (strip line) = .ok gpu)
        (lines.filter fun line => !(strip line).isEmpty) telemetry := by
  induction lines generalizing telemetry with
  | nil => simp [parseRows, eq_comm]
  | cons line rest ih =>
      rw [parseRows]
      by_cases hblank : (strip line).isEmpty = true
      · rw [if_pos hblank, ih, List.filter_cons_of_neg (by simp [hblank])]
      · rw [if_neg hblank, List.filter_cons_of_pos (by simp [hblank])]
        simp only [bind_ok_iff, ih, pure_ok_iff]
        constructor
        · rintro ⟨gpu, hgpu, others, hothers, rfl⟩
          exact List.Forall₂.cons hgpu hothers
        · intro h
          cases h with
          | cons hgpu hothers => exact ⟨_, hgpu, _, hothers, rfl⟩

theorem parseRows_ok_iff {lines : List (List Char)} :
    (∃ telemetry, parseRows lines = .ok telemetry) ↔
      ∀ line ∈ lines.filter fun line => !(strip line).isEmpty,
        ReadableRow (((strip line).splitOn ',').map strip) := by
  simp only [parseRows_eq_ok]
  induction lines.filter fun line => !(strip line).isEmpty with
  | nil => simp
  | cons line rest ih =>
      rw [List.forall_mem_cons, ← ih, ← readableRow_iff]
      constructor
      · rintro ⟨telemetry, h⟩
        cases h with
        | cons hgpu hothers => exact ⟨⟨_, hgpu⟩, ⟨_, hothers⟩⟩
      · rintro ⟨⟨gpu, hgpu⟩, ⟨others, hothers⟩⟩
        exact ⟨gpu :: others, List.Forall₂.cons hgpu hothers⟩

/-- The telemetry is within the request model, and an acceptable heartbeat stays acceptable. -/
structure UnbrokenBy (gpus : List GpuTelemetry) : Prop where
  count : gpus.length ≤ maxWorkerGpus
  bounds : ∀ gpu ∈ gpus, gpu.withinBounds
  heartbeat : ∀ r : WorkerRegistration, (r.withGpus []).withinBounds → (r.withGpus gpus).withinBounds

omit [PyDigits] in
theorem unbrokenBy_iff {gpus : List GpuTelemetry} :
    UnbrokenBy gpus ↔ gpus.length ≤ maxWorkerGpus ∧ ∀ gpu ∈ gpus, gpu.withinBounds := by
  constructor
  · exact fun h => ⟨h.count, h.bounds⟩
  · rintro ⟨hcount, hbounds⟩
    refine ⟨hcount, hbounds, fun r hr => ?_⟩
    have hall : gpus.all GpuTelemetry.withinBounds = true := List.all_eq_true.mpr hbounds
    simp only [WorkerRegistration.withinBounds, WorkerRegistration.withGpus,
      Bool.and_eq_true] at hr ⊢
    exact ⟨⟨⟨hr.1.1.1, decide_eq_true hcount⟩, hall⟩, hr.2⟩

/-- Telemetry never breaks a heartbeat exactly if a row cannot be read, in which case nothing is
reported, or there are at most sixteen rows and all are within bounds. -/
theorem telemetry_unbroken_iff (binary : String) (run : String → SmiRun) {stdout : String}
    (hrun : run binary = .completed stdout) :
    UnbrokenBy (sample (some binary) run) ↔
      (∃ row ∈ smiRows stdout, ¬ ReadableRow row) ∨
        (smiRows stdout).length ≤ 16 ∧ ∀ row ∈ smiRows stdout, BoundedRow row := by
  have hreadable : (∃ telemetry, parseCsv stdout = .ok telemetry) ↔
      ¬ ∃ row ∈ smiRows stdout, ¬ ReadableRow row := by
    rw [parseCsv, parseRows_ok_iff, smiRows]
    simp only [List.mem_map]
    constructor
    · rintro h ⟨_, ⟨line, hline, rfl⟩, hnot⟩
      exact hnot (h line hline)
    · intro h line hline
      by_contra hnot
      exact h ⟨_, ⟨line, hline, rfl⟩, hnot⟩
  rw [unbrokenBy_iff]
  cases hparse : parseCsv stdout with
  | error error =>
      have hsample : sample (some binary) run = [] := by
        simp only [sample, hrun, hparse]
      rw [hsample]
      refine iff_of_true ⟨Nat.zero_le _, fun gpu hgpu => (by cases hgpu)⟩ (Or.inl ?_)
      by_contra hall
      obtain ⟨telemetry, htelemetry⟩ := hreadable.mpr hall
      cases hparse.symm.trans htelemetry
  | ok telemetry =>
      have hsample : sample (some binary) run = telemetry := by
        simp only [sample, hrun, hparse]
      have hall := hreadable.mp ⟨telemetry, hparse⟩
      rw [hsample, or_iff_right hall, smiRows, List.length_map, List.forall_mem_map]
      have hrows := parseRows_eq_ok.mp hparse
      rw [hrows.length_eq, maxWorkerGpus]
      refine and_congr Iff.rfl ?_
      clear hsample hparse hall
      generalize (splitLines stdout.toList).filter (fun line => !(strip line).isEmpty) = lines
        at hrows
      induction hrows with
      | nil => simp
      | cons hgpu _ ih =>
          rw [List.forall_mem_cons, List.forall_mem_cons, boundedRow_iff hgpu, ih]

end Integers

/-- A GPU of 1 TiB. -/
def largeGpu : String := "0, NVIDIA GB300, 0, 0, 1048576\n"

theorem largeGpu_breaks_heartbeat :
    letI := PyDigits.ascii
    ¬ UnbrokenBy (sample (some "nvidia-smi") fun _ => .completed largeGpu) := by
  let _ := PyDigits.ascii
  intro h
  have hsample : sample (some "nvidia-smi") (fun _ => .completed largeGpu) =
      [⟨0, "NVIDIA GB300", some 0, some 0, some 1048576⟩] := by decide +kernel
  have hbounds := h.bounds
  rw [hsample] at hbounds
  exact absurd (hbounds _ (List.mem_singleton_self _)) (by decide)

/-- Two GPUs, of which the second does not say how busy it is. -/
def twoGpus : String :=
  "0, NVIDIA GB200, 45, 1024, 189471\n1, NVIDIA GB200, [N/A], 0, 189471\n"

theorem telemetry_unbroken_small :
    letI := PyDigits.ascii
    UnbrokenBy (sample (some "nvidia-smi") fun _ => .completed twoGpus) := by
  let _ := PyDigits.ascii
  have hrows : smiRows twoGpus =
      [["0".toList, "NVIDIA GB200".toList, "45".toList, "1024".toList, "189471".toList],
        ["1".toList, "NVIDIA GB200".toList, "[N/A]".toList, "0".toList, "189471".toList]] := by
    decide +kernel
  refine (telemetry_unbroken_iff "nvidia-smi" (fun _ => .completed twoGpus) rfl).mpr (Or.inr ?_)
  rw [hrows]
  refine ⟨by decide, fun row hrow => ?_⟩
  have htotal : FigureIs (fun n => 0 ≤ n ∧ n ≤ 1000000) "189471".toList :=
    Or.inr (Or.inr ⟨189471, by decide +kernel, by decide⟩)
  rcases List.mem_pair.mp hrow with rfl | rfl
  · exact ⟨_, _, _, _, _, rfl, ⟨0, by decide +kernel, by decide⟩, by decide,
      Or.inr (Or.inr ⟨45, by decide +kernel, by decide⟩),
      Or.inr (Or.inr ⟨1024, by decide +kernel, by decide⟩), htotal⟩
  · exact ⟨_, _, _, _, _, rfl, ⟨1, by decide +kernel, by decide⟩, by decide,
      Or.inl rfl, Or.inr (Or.inr ⟨0, by decide +kernel, by decide⟩), htotal⟩

end GpuWorkerPool
