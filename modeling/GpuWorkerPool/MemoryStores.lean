import GpuWorkerPool.MemoryJobStore

/-!
`MemoryAssetStore` and `MemoryWorkerRegistry`. As with the job store, every operation is a function
of the stored state, and the operations of a store are gathered in a type of calls.
-/

namespace GpuWorkerPool

open Base

/-! ### Assets -/

def outputUploadContentType : String := "application/octet-stream"
def defaultAssetContentType : String := "application/octet-stream"
def memoryReadPrefix : String := "memory://read/"
def memoryUploadPrefix : String := "memory://upload/"

structure MemoryAssetStore where
  assets : Dict String ByteArray := Table.empty
  contentTypes : Dict String String := Table.empty
  publishCount : Nat := 0
  allowedReadPrefixes : List String := defaultReadPrefixes
  allowedOutputPrefixes : List String := defaultOutputPrefixes

def startsWithAny (key : String) (prefixes : List String) : Bool :=
  prefixes.any fun allowed => allowed.toList.isPrefixOf key.toList

/-- `_require_prefix` -/
def requirePrefix (key : String) (prefixes : List String) (grant : String) : Except Exc Unit :=
  let allowed := String.intercalate ", " prefixes
  require (startsWithAny key prefixes) s!"signed {grant} key must be in one of: {allowed}"

inductive AssetStoreCall where
  | createReadUrl (key : String)
  | createOutputUploadUrl (key contentType : String)
  | describe (key : String)
  | readLimited (key : String) (maxBytes : Int)
  | writeOnce (key : String) (content : ByteArray) (contentType : String)

namespace MemoryAssetStore

def createReadUrl (s : MemoryAssetStore) (key : String) : Except Exc String := do
  requirePrefix key s.allowedReadPrefixes "read"
  match s.assets.lookup key with
  | none => .error (.assetNotFound key)
  | some _ => .ok (memoryReadPrefix ++ key)

def createOutputUploadUrl (s : MemoryAssetStore) (key : String) : Except Exc String := do
  requirePrefix key s.allowedOutputPrefixes "output upload"
  .ok (memoryUploadPrefix ++ key)

def describe (s : MemoryAssetStore) (key : String) : Option AssetDescriptor :=
  (s.assets.lookup key).map fun content =>
    { key := key, size := content.size,
      contentType := some ((s.contentTypes.lookup key).getD defaultAssetContentType) }

def readLimited (s : MemoryAssetStore) (key : String) (maxBytes : Int) : Except Exc ByteArray :=
  match s.assets.lookup key with
  | none => .error (.assetNotFound key)
  | some content =>
      if content.size > maxBytes then .error (.assetTooLarge key maxBytes content.size)
      else .ok content

def writeOnce (s : MemoryAssetStore) (key : String) (content : ByteArray) (contentType : String) :
    MemoryAssetStore × Bool :=
  match s.assets.lookup key with
  | some _ => (s, false)
  | none =>
      ({ s with
          assets := s.assets.put (key, content), contentTypes := s.contentTypes.put (key, contentType),
          publishCount := s.publishCount + 1 }, true)

theorem createOutputUploadUrl_spec {s : MemoryAssetStore} {key url : String}
    (h : s.createOutputUploadUrl key = .ok url) : url = memoryUploadPrefix ++ key := by
  rw [createOutputUploadUrl] at h
  cases hstarts : requirePrefix key s.allowedOutputPrefixes "output upload" with
  | error error => simp [hstarts, bind, Except.bind] at h
  | ok value =>
      rw [hstarts] at h
      exact (Except.ok.inj h).symm

/-- After `writeOnce` the key holds the object it held before, or else the content. -/
theorem writeOnce_spec (s : MemoryAssetStore) (key : String) (content : ByteArray)
    (contentType : String) :
    ∃ stored, (s.writeOnce key content contentType).1.assets.lookup key = some stored ∧
      (s.assets.lookup key = some stored ∨ stored = content) := by
  rw [writeOnce]
  cases hkey : s.assets.lookup key with
  | some stored => exact ⟨stored, hkey, Or.inl rfl⟩
  | none => exact ⟨content, (Dict.lookup_put s.assets key key content).trans (if_pos rfl), Or.inr rfl⟩

theorem describe_spec {s : MemoryAssetStore} {key : String} {descriptor : AssetDescriptor}
    (h : s.describe key = some descriptor) :
    ∃ content, s.assets.lookup key = some content ∧ descriptor.size = content.size := by
  obtain ⟨content, hcontent, rfl⟩ := Option.map_eq_some_iff.mp h
  exact ⟨content, hcontent, rfl⟩

theorem readLimited_spec {s : MemoryAssetStore} {key : String} {maxBytes : Int}
    {content : ByteArray} (h : s.readLimited key maxBytes = .ok content) :
    s.assets.lookup key = some content ∧ content.size ≤ maxBytes := by
  rw [readLimited] at h
  cases hkey : s.assets.lookup key with
  | none => simp [hkey] at h
  | some stored =>
      simp only [hkey] at h
      split_ifs at h with hlarge
      cases h
      exact ⟨rfl, not_lt.mp hlarge⟩

theorem readLimited_ne_rejected (s : MemoryAssetStore) (key : String) (maxBytes : Int)
    (reason : String) : s.readLimited key maxBytes ≠ .error (.completionRejected reason) := by
  rw [readLimited]
  cases s.assets.lookup key with
  | none => simp
  | some stored =>
      dsimp only
      split <;> simp

end MemoryAssetStore

namespace AssetStoreCall

/-- What the call returns when it does not raise. -/
def Value : AssetStoreCall → Type
  | createReadUrl _ => String
  | createOutputUploadUrl _ _ => String
  | describe _ => Option AssetDescriptor
  | readLimited _ _ => ByteArray
  | writeOnce .. => Bool

def exec (s : MemoryAssetStore) : (call : AssetStoreCall) → MemoryAssetStore × Except Exc call.Value
  | createReadUrl key => (s, s.createReadUrl key)
  | createOutputUploadUrl key _ => (s, s.createOutputUploadUrl key)
  | describe key => (s, .ok (s.describe key))
  | readLimited key maxBytes => (s, s.readLimited key maxBytes)
  | writeOnce key content contentType =>
      ((s.writeOnce key content contentType).1, .ok (s.writeOnce key content contentType).2)

/-- Assets are immutable: a stored object is never replaced or removed. -/
theorem lookup_exec {s : MemoryAssetStore} (call : AssetStoreCall) {key : String}
    {content : ByteArray} (h : s.assets.lookup key = some content) :
    (call.exec s).1.assets.lookup key = some content := by
  cases call with
  | createReadUrl _ => exact h
  | createOutputUploadUrl _ _ => exact h
  | describe _ => exact h
  | readLimited _ _ => exact h
  | writeOnce key' content' contentType =>
      rw [exec, MemoryAssetStore.writeOnce]
      cases hkey' : s.assets.lookup key' with
      | some old => exact h
      | none =>
          have hne : key' ≠ key := by
            rintro rfl
            exact absurd (hkey'.symm.trans h) (by simp)
          exact (Dict.lookup_put_of_ne s.assets content' hne).trans h

end AssetStoreCall

/-! ### Workers -/

/-- The rows by worker id. -/
abbrev MemoryWorkerRegistry := Table WorkerRecord.workerId

inductive RegistryCall where
  | upsert (registration : WorkerRegistration) (identitySubject : String)
  | get (workerId : String)
  | findByIdentitySubject (subject : String)
  | list
  | listByTenant (tenantId : Option String)
  | setStatus (workerId : String) (status : WorkerStatus)

namespace MemoryWorkerRegistry

/-- The row that an admitted `upsert` writes. -/
def upsertRecord (existing : Option WorkerRecord) (now : DateTime)
    (registration : WorkerRegistration) (identitySubject : String) : WorkerRecord where
  workerId := registration.workerId
  identitySubject := identitySubject
  status :=
    if existing.any fun w => w.status = .revoked then .revoked
    else if registration.draining then .draining
    else .active
  capabilities := registration.capabilities
  gpuModel := registration.gpuModel
  vramMb := registration.vramMb
  runtimeVersions := registration.runtimeVersions
  costClass := registration.costClass
  labels := registration.labels
  activeLeases := registration.activeLeases
  lastHeartbeatAt := some now
  createdAt := (existing.map WorkerRecord.createdAt).getD now
  updatedAt := now
  revokedAt := existing.bind WorkerRecord.revokedAt
  gpus := registration.gpus
  busyJobId := registration.busyJobId
  tenantId := registration.tenantId

def upsert (s : MemoryWorkerRegistry) (now : DateTime) (registration : WorkerRegistration)
    (identitySubject : String) : MemoryWorkerRegistry × Except Exc WorkerRecord :=
  let existing := s.get? registration.workerId
  if existing.any fun w => w.identitySubject ≠ identitySubject then
    (s, .error (.workerIdentityMismatch registration.workerId))
  else if existing.any fun w => w.tenantId ≠ registration.tenantId then
    (s, .error (.workerTenantMismatch registration.workerId))
  else if s.rows.any fun other =>
      other.identitySubject = identitySubject && other.workerId ≠ registration.workerId then
    (s, .error (.identitySubjectTaken identitySubject))
  else
    let record := upsertRecord existing now registration identitySubject
    (s.put record, .ok record)

def findByIdentitySubject (s : MemoryWorkerRegistry) (subject : String) : Option WorkerRecord :=
  s.rows.find? fun w => w.identitySubject = subject

/-- The rows in the order of their ids. -/
def list (s : MemoryWorkerRegistry) : List WorkerRecord :=
  s.rows.insertionSort fun a b => a.workerId ≤ b.workerId

def listByTenant (s : MemoryWorkerRegistry) (tenantId : Option String) : List WorkerRecord :=
  (list s).filter fun w => w.tenantId = tenantId

def setStatus (s : MemoryWorkerRegistry) (now : DateTime) (workerId : String)
    (status : WorkerStatus) : MemoryWorkerRegistry × Bool :=
  match s.get? workerId with
  | none => (s, false)
  | some w =>
      (s.put { w with
        status := status, updatedAt := now,
        revokedAt := if status = .revoked then some now else w.revokedAt }, true)

end MemoryWorkerRegistry

namespace RegistryCall

def Reply : RegistryCall → Type
  | upsert _ _ => Except Exc WorkerRecord
  | get _ => Option WorkerRecord
  | findByIdentitySubject _ => Option WorkerRecord
  | list => List WorkerRecord
  | listByTenant _ => List WorkerRecord
  | setStatus _ _ => Bool

def exec (now : DateTime) (s : MemoryWorkerRegistry) :
    (call : RegistryCall) → MemoryWorkerRegistry × call.Reply
  | upsert registration identitySubject =>
      MemoryWorkerRegistry.upsert s now registration identitySubject
  | get workerId => (s, s.get? workerId)
  | findByIdentitySubject subject => (s, MemoryWorkerRegistry.findByIdentitySubject s subject)
  | list => (s, MemoryWorkerRegistry.list s)
  | listByTenant tenantId => (s, MemoryWorkerRegistry.listByTenant s tenantId)
  | setStatus workerId status => MemoryWorkerRegistry.setStatus s now workerId status

/-- The call writes nothing to the registry. -/
def Reads : RegistryCall → Prop
  | upsert .. => False
  | setStatus .. => False
  | _ => True

/-- What an operation can do to what is stored under one worker id. -/
inductive RowStep (now : DateTime) (s : MemoryWorkerRegistry) (id : String) :
    RegistryCall → Option WorkerRecord → Option WorkerRecord → Prop
  | kept (call : RegistryCall) (row : Option WorkerRecord) : RowStep now s id call row row
  | upserted {registration : WorkerRegistration} {identitySubject : String}
      (row : Option WorkerRecord) (here : registration.workerId = id)
      (subject : ∀ w, row = some w → w.identitySubject = identitySubject)
      (tenant : ∀ w, row = some w → w.tenantId = registration.tenantId)
      (free : ∀ other ∈ s.rows, other.identitySubject = identitySubject → other.workerId = id) :
      RowStep now s id (upsert registration identitySubject) row
        (some (MemoryWorkerRegistry.upsertRecord row now registration identitySubject))
  | statusSet {status : WorkerStatus} (w : WorkerRecord) :
      RowStep now s id (setStatus id status) (some w) (some { w with
        status := status, updatedAt := now,
        revokedAt := if status = .revoked then some now else w.revokedAt })

theorem upsert_cases (s : MemoryWorkerRegistry) (now : DateTime)
    (registration : WorkerRegistration) (identitySubject : String) :
    (∃ error, s.upsert now registration identitySubject = (s, .error error)) ∨
      (let existing := s.get? registration.workerId
       let record := MemoryWorkerRegistry.upsertRecord existing now registration identitySubject
       (∀ w, existing = some w → w.identitySubject = identitySubject) ∧
        (∀ w, existing = some w → w.tenantId = registration.tenantId) ∧
        (∀ other ∈ s.rows, other.identitySubject = identitySubject →
          other.workerId = registration.workerId) ∧
        s.upsert now registration identitySubject = (s.put record, .ok record)) := by
  unfold MemoryWorkerRegistry.upsert
  dsimp only
  split_ifs with hsubject htenant htaken
  · exact Or.inl ⟨_, rfl⟩
  · exact Or.inl ⟨_, rfl⟩
  · exact Or.inl ⟨_, rfl⟩
  · refine Or.inr ⟨fun w hw => ?_, fun w hw => ?_, fun other hother hsame => ?_, rfl⟩
    · simpa [hw] using hsubject
    · simpa [hw] using htenant
    · by_contra hne
      exact htaken (List.any_eq_true.mpr ⟨other, hother, by simp [hsame, hne]⟩)

theorem exec_row (now : DateTime) (s : MemoryWorkerRegistry) (call : RegistryCall) (id : String) :
    RowStep now s id call (s.get? id) ((call.exec now s).1.get? id) := by
  cases call with
  | upsert registration identitySubject =>
      show RowStep now s id _ _ ((s.upsert now registration identitySubject).1.get? id)
      rcases upsert_cases s now registration identitySubject with
        ⟨error, hrefused⟩ | ⟨hsubject, htenant, hfree, haccepted⟩
      · rw [hrefused]
        exact .kept _ _
      · rw [haccepted]
        by_cases hid : registration.workerId = id
        · subst hid
          have hrow := Table.get?_put_self s (MemoryWorkerRegistry.upsertRecord
            (s.get? registration.workerId) now registration identitySubject)
          exact hrow ▸ .upserted _ rfl hsubject htenant hfree
        · rw [Table.get?_put_of_ne s hid]
          exact .kept _ _
  | get _ | findByIdentitySubject _ | list | listByTenant _ => exact .kept _ _
  | setStatus workerId status =>
      show RowStep now s id _ _ ((MemoryWorkerRegistry.setStatus s now workerId status).1.get? id)
      rw [MemoryWorkerRegistry.setStatus]
      cases hget : s.get? workerId with
      | none => exact .kept _ _
      | some w =>
          have hkey : w.workerId = workerId := Table.key_eq_of_get? hget
          simp only [Table.get?_put, hkey]
          by_cases hid : workerId = id
          · subst hid
            rw [if_pos rfl, hget, ← hkey]
            exact .statusSet w
          · rw [if_neg hid]
            exact .kept _ _

end RegistryCall

end GpuWorkerPool
