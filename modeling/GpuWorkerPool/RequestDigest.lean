import GpuWorkerPool.Base.JsonEncoding
import GpuWorkerPool.Validation

/-!
What the request digest identifies. The canonical text of the five hashed fields is a complete
invariant of their equality as JSON, so where SHA-256 does not collide the digest is one too. The
fields that route and identify a job are not hashed.
-/

namespace GpuWorkerPool

open Base

theorem sameItems_str_iff (xs ys : List String) :
    JsonValue.sameItems (xs.map .str) (ys.map .str) ↔ xs = ys := by
  induction xs generalizing ys with
  | nil => cases ys <;> simp [JsonValue.sameItems]
  | cons x xs ih =>
      cases ys with
      | nil => simp [JsonValue.sameItems]
      | cons y ys => simp [JsonValue.sameItems, JsonValue.sameJson, ih]

/-- Two canonical requests are one JSON value exactly when the five fields agree. -/
theorem sameJson_canonicalRequest (s t : JobSubmission) :
    (canonicalRequest s).sameJson (canonicalRequest t) ↔
      s.capabilityId = t.capabilityId ∧ s.contractVersion = t.contractVersion ∧
        s.inputKeys = t.inputKeys ∧ s.outputKey = t.outputKey ∧
        s.payload.value.sameJson t.payload.value := by
  simp [canonicalRequest, JsonValue.sameJson, JsonValue.sameMembers, List.lookup_cons, sameItems_str_iff]

theorem finite_canonicalRequest {submission : JobSubmission}
    (h : submission.payload.value.finite) : (canonicalRequest submission).finite := by
  have hkeys : JsonValue.finiteItems (submission.inputKeys.map .str) := by
    rw [JsonValue.finiteItems_iff]
    intro item hitem
    obtain ⟨key, -, rfl⟩ := List.mem_map.mp hitem
    rfl
  simp [canonicalRequest, JsonValue.finite, JsonValue.finiteMembers, hkeys, h]

theorem wellFormed_canonicalRequest (submission : JobSubmission) :
    (canonicalRequest submission).wellFormed := by
  have hkeys : JsonValue.wellFormedItems (submission.inputKeys.map .str) := by
    rw [JsonValue.wellFormedItems_iff]
    intro item hitem
    obtain ⟨key, -, rfl⟩ := List.mem_map.mp hitem
    rfl
  have hpayload : submission.payload.value.wellFormed := submission.payload.wellFormed
  simp [canonicalRequest, JsonValue.wellFormed, JsonValue.wellFormedMembers, hkeys, hpayload]

section Digests

variable [FloatRepr]

/-- When the digests of two accepted requests do not collide, they are equal exactly when the five
fields are equal as JSON. -/
theorem digest_eq_iff {s t : JobSubmission} (hs : validateJobSubmission s = .ok ())
    (ht : validateJobSubmission t = .ok ())
    (hcollision : jobRequestDigest s = jobRequestDigest t →
      (canonicalRequest s).encode = (canonicalRequest t).encode) :
    jobRequestDigest s = jobRequestDigest t ↔
      s.capabilityId = t.capabilityId ∧ s.contractVersion = t.contractVersion ∧
        s.inputKeys = t.inputKeys ∧ s.outputKey = t.outputKey ∧
        s.payload.value.sameJson t.payload.value := by
  have htext := JsonValue.encode_eq_iff
    (finite_canonicalRequest (accepted_of_validate hs).payload)
    (finite_canonicalRequest (accepted_of_validate ht).payload)
    (wellFormed_canonicalRequest s) (wellFormed_canonicalRequest t)
  rw [← sameJson_canonicalRequest, ← htext]
  exact ⟨hcollision, fun h => by rw [jobRequestDigest, jobRequestDigest, canonicalDigest,
    canonicalDigest, h]⟩

/-- SHA-256 does not collide on the canonical texts of two values. -/
def DigestsApart (v w : JsonValue) : Prop :=
  canonicalDigest v = canonicalDigest w →
    (String.ofList v.encode).toUTF8 = (String.ofList w.encode).toUTF8

theorem encode_eq_of_toUTF8 {v w : JsonValue}
    (h : (String.ofList v.encode).toUTF8 = (String.ofList w.encode).toUTF8) :
    v.encode = w.encode := by
  rw [String.toUTF8_eq_toByteArray, String.toUTF8_eq_toByteArray, String.toByteArray_inj] at h
  exact String.ofList_injective h

/-- The hashed fields are equal, the payload as a JSON value. -/
structure SameHashedFields (s t : JobSubmission) : Prop where
  capabilityId : s.capabilityId = t.capabilityId
  contractVersion : s.contractVersion = t.contractVersion
  inputKeys : s.inputKeys = t.inputKeys
  outputKey : s.outputKey = t.outputKey
  payload : s.payload.value.sameJson t.payload.value

/-- The digest identifies the hashed fields, and no other field shows in it. -/
theorem digest_identifies_request {s t : JobSubmission} (hs : validateJobSubmission s = .ok ())
    (ht : validateJobSubmission t = .ok ())
    (hapart : DigestsApart (canonicalRequest s) (canonicalRequest t)) :
    (jobRequestDigest s = jobRequestDigest t ↔ SameHashedFields s t) ∧
      ∀ jobId idempotencyKey tenantId requirements priority attemptBudget
        executionDeadlineSeconds,
        jobRequestDigest { s with
          jobId := jobId, idempotencyKey := idempotencyKey, tenantId := tenantId
          requirements := requirements, priority := priority, attemptBudget := attemptBudget
          executionDeadlineSeconds := executionDeadlineSeconds } = jobRequestDigest s := by
  refine ⟨?_, fun _ _ _ _ _ _ _ => rfl⟩
  rw [digest_eq_iff hs ht fun heq => encode_eq_of_toUTF8 (hapart heq)]
  constructor
  · intro ⟨hcapability, hversion, hinputs, houtput, hpayload⟩
    exact ⟨hcapability, hversion, hinputs, houtput, hpayload⟩
  · intro h
    exact ⟨h.capabilityId, h.contractVersion, h.inputKeys, h.outputKey, h.payload⟩

end Digests

def promptJob : JobSubmission where
  jobId := "job-1"
  idempotencyKey := "key-1"
  capabilityId := "test.deterministic.echo.v1"
  inputKeys := []
  outputKey := "outputs/job-1"
  payload := ⟨[("seed", .int 7), ("prompt", .str "a")], rfl⟩

/-- The same request in another order, for another host. -/
def promptJobAgain : JobSubmission :=
  { promptJob with
    jobId := "job-2"
    tenantId := some "tenant-a"
    priority := 10
    payload := ⟨[("prompt", .str "a"), ("seed", .int 7)], rfl⟩ }

theorem digest_identifies_prompt :
    letI := FloatRepr.byParts
    jobRequestDigest promptJob = jobRequestDigest promptJobAgain := by
  let _ := FloatRepr.byParts
  have hsame : SameHashedFields promptJob promptJobAgain := ⟨rfl, rfl, rfl, rfl, by decide⟩
  have htext : (canonicalRequest promptJob).encode = (canonicalRequest promptJobAgain).encode :=
    by decide +kernel
  refine (digest_identifies_request (by decide +kernel) (by decide +kernel) ?_).1.mpr hsame
  intro _
  rw [htext]

end GpuWorkerPool
