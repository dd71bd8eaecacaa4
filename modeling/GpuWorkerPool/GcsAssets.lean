import GpuWorkerPool.Base.PosixPath
import GpuWorkerPool.Base.Program
import GpuWorkerPool.MemoryStores

/-!
The grants of `GcsAssetStore`. A grant signs a URL for one object, and the store checks the key
before it touches its credentials. The fields that `start` and `stop` write are read by an action of
their own, since a grant awaits between its reads.
-/

namespace GpuWorkerPool

open Base

def readUrlLifetime : DateTime := seconds 300

def outputUploadUrlLifetime : DateTime := seconds 900

def createOnceQueryParameters : List (String × String) := [("ifGenerationMatch", "0")]

structure GcsAssetStore where
  bucket : String
  signingServiceAccountEmail : Option String := none
  allowedReadPrefixes : List String := defaultReadPrefixes
  allowedOutputPrefixes : List String := defaultOutputPrefixes

/-- What `start`, `stop` and a refresh of the credentials leave in the store. -/
structure GcsFields where
  client : Bool
  ambientCredentials : Bool
  signingAccessToken : Option String

/-- The arguments of `blob.generate_signed_url`, and the blob. -/
structure SigningCall where
  bucket : String
  objectKey : String
  expiration : DateTime
  method : String
  serviceAccountEmail : String
  accessToken : String
  contentType : Option String
  queryParameters : List (String × String)

inductive GcsAction where
  | fields
  | refresh
  | sign (call : SigningCall)

/-- A refresh fails or stores its token, and signing fails or yields a URL. -/
def GcsAction.Reply : GcsAction → Type
  | fields => GcsFields
  | refresh => Bool
  | sign _ => Option String

inductive GcsExc where
  | raised (error : Exc)
  | runtimeError (text : String)

abbrev GcsProg := Prog GcsAction GcsAction.Reply GcsExc

/-- A check that raises `ValueError`. -/
def GcsProg.check {α : Type} (p : Except Exc α) : GcsProg α := Prog.ofExcept (p.mapError .raised)

def storageUnavailable {α : Type} : GcsProg α :=
  .raise (.raised (.unavailable "asset storage unavailable"))

/-- `_validate_object_key` -/
def validateObjectKey (key : String) : Except Exc String := do
  require (key ≠ "" && !startsWithAny key ["/", "gs://"] && PosixPath.normalText key = key &&
      ".." ∉ (PosixPath.ofText key).parts)
    "GCS object key must be a normalized relative path"
  pure key

namespace GcsAssetStore

def readFields : GcsProg GcsFields := Prog.perform GcsAction.fields

def refresh : GcsProg Bool := Prog.perform GcsAction.refresh

def generateSignedUrl (call : SigningCall) : GcsProg (Option String) := Prog.perform (GcsAction.sign call)

def refreshCredentials (fields : GcsFields) : GcsProg Unit :=
  if fields.ambientCredentials then do
    let refreshed ← refresh
    if refreshed then pure () else storageUnavailable
  else pure ()

/-- `_signed_url` -/
def signedUrl (store : GcsAssetStore) (objectKey method : String) (expiration : DateTime)
    (contentType : Option String) (queryParameters : List (String × String)) : GcsProg String := do
  let before ← readFields
  refreshCredentials before
  let fields ← readFields
  match store.signingServiceAccountEmail.filter (· ≠ ""),
      fields.signingAccessToken.filter (· ≠ "") with
  | some email, some token =>
      if fields.client then do
        let url ← generateSignedUrl
          { bucket := store.bucket, objectKey := objectKey, expiration := expiration,
            method := method, serviceAccountEmail := email, accessToken := token,
            contentType := contentType, queryParameters := queryParameters }
        match url with
        | some url => pure url
        | none => storageUnavailable
      else .raise (.runtimeError "GCS asset store has not started")
  | _, _ => .raise (.runtimeError "IAM signing credentials are not configured")

def createReadUrl (store : GcsAssetStore) (key : String) : GcsProg String := do
  let objectKey ← GcsProg.check (validateObjectKey key)
  GcsProg.check (requirePrefix objectKey store.allowedReadPrefixes "read")
  signedUrl store objectKey "GET" readUrlLifetime none []

def createOutputUploadUrl (store : GcsAssetStore) (key contentType : String) : GcsProg String := do
  let objectKey ← GcsProg.check (validateObjectKey key)
  GcsProg.check (requirePrefix objectKey store.allowedOutputPrefixes "output upload")
  signedUrl store objectKey "PUT" outputUploadUrlLifetime (some contentType) createOnceQueryParameters

end GcsAssetStore

/-! ### Confinement -/

/-- A segment of a key that names an entry below. -/
def IsName (segment : String) : Prop :=
  segment ≠ "" ∧ segment ≠ "." ∧ segment ≠ ".." ∧ '/' ∉ segment.toList

/-- A key that names an object below one of the prefixes. -/
structure Confined (prefixes : List String) (key : String) : Prop where
  segments : ∃ segments : List String,
    (∀ segment ∈ segments, IsName segment) ∧ key = "/".intercalate segments
  notAbsolute : startsWithAny key ["/", "gs://"] = false
  inside : ∃ allowed ∈ prefixes, allowed.toList <+: key.toList ∧ allowed ≠ key

theorem isName_iff {segment : String} :
    IsName segment ↔ isPathPart segment ∧ segment ≠ ".." := by
  simp only [IsName, isPathPart, Bool.and_eq_true, decide_eq_true_eq, List.all_eq_true]
  constructor
  · intro h
    obtain ⟨hne, hdot, hup, hslash⟩ := h
    exact ⟨⟨⟨hne, hdot⟩, fun c hc heq => hslash (heq ▸ hc)⟩, hup⟩
  · intro h
    obtain ⟨⟨⟨hne, hdot⟩, hslash⟩, hup⟩ := h
    exact ⟨hne, hdot, hup, fun hmem => hslash _ hmem rfl⟩

theorem startsWithAny_iff {key : String} {prefixes : List String} :
    startsWithAny key prefixes ↔ ∃ allowed ∈ prefixes, allowed.toList <+: key.toList := by
  simp [startsWithAny, List.isPrefixOf_iff_prefix]

/-- Splitting a joined key finds names only, unless it has none. -/
theorem isName_of_mem_splitOn {segments : List String}
    (hsegments : ∀ segment ∈ segments, IsName segment) (hne : segments ≠ []) {text : List Char}
    (h : text ∈ ("/".intercalate segments).toList.splitOn '/') : IsName (String.ofList text) := by
  rw [String.toList_intercalate, show "/".toList = ['/'] from rfl, List.splitOn_intercalate] at h
  · obtain ⟨segment, hsegment, rfl⟩ := List.mem_map.mp h
    rw [String.ofList_toList]
    exact hsegments segment hsegment
  · intro chars hchars
    obtain ⟨segment, hsegment, rfl⟩ := List.mem_map.mp hchars
    exact (hsegments segment hsegment).2.2.2
  · simpa using hne

theorem head?_ne_slash {key : String} (h : startsWithAny key ["/", "gs://"] = false) :
    key.toList.head? ≠ some '/' := by
  intro hhead
  obtain ⟨rest, hrest⟩ := List.head?_eq_some_iff.mp hhead
  have hstarts : startsWithAny key ["/", "gs://"] :=
    startsWithAny_iff.mpr ⟨"/", List.mem_cons_self, rest, hrest.symm⟩
  rw [h] at hstarts
  exact absurd hstarts (by decide)

theorem require_cases (condition : Bool) (text : String) :
    require condition text = .ok () ∨ require condition text = .error (.valueError text) := by
  cases condition with
  | true => exact Or.inl rfl
  | false => exact Or.inr rfl

theorem requirePrefix_cases (key : String) (prefixes : List String) (grant : String) :
    requirePrefix key prefixes grant = .ok () ∨
      ∃ text, requirePrefix key prefixes grant = .error (.valueError text) :=
  (require_cases _ _).imp_right fun h => ⟨_, h⟩

theorem validateObjectKey_cases (key : String) :
    validateObjectKey key = .ok key ∨
      ∃ text, validateObjectKey key = .error (.valueError text) := by
  rw [validateObjectKey]
  rcases require_cases _ _ with h | h
  · rw [h]
    exact Or.inl rfl
  · rw [h]
    exact Or.inr ⟨_, rfl⟩

/-- The keys that pass the validator: `.` is one, and has no name. -/
theorem validateObjectKey_ok_iff {key result : String} :
    validateObjectKey key = .ok result ↔
      result = key ∧ startsWithAny key ["/", "gs://"] = false ∧
        (key = "." ∨ ∃ segments, segments ≠ [] ∧ (∀ segment ∈ segments, IsName segment) ∧
          key = "/".intercalate segments) := by
  rw [validateObjectKey, check_bind_ok_iff, require_eq_ok, pure_ok_iff]
  simp only [Bool.and_eq_true, decide_eq_true_eq, Bool.not_eq_true']
  constructor
  · intro h
    obtain ⟨⟨⟨⟨-, hstarts⟩, hnormal⟩, hup⟩, hresult⟩ := h
    refine ⟨hresult.symm, hstarts, ?_⟩
    rcases (PosixPath.normalText_eq_self_iff (head?_ne_slash hstarts)).mp hnormal with
      hdot | ⟨segments, hne, hparts, hkey⟩
    · exact Or.inl hdot
    · have hsegments : (PosixPath.ofText key).parts = segments := by
        rw [hkey]
        exact PosixPath.partsOf_intercalate hparts
      rw [hsegments] at hup
      refine Or.inr ⟨segments, hne, fun segment hsegment => ?_, hkey⟩
      exact isName_iff.mpr ⟨hparts segment hsegment, fun heq => hup (heq ▸ hsegment)⟩
  · intro h
    obtain ⟨hresult, hstarts, hform⟩ := h
    have hrelative := head?_ne_slash hstarts
    rcases hform with rfl | ⟨segments, hne, hsegments, hkey⟩
    · exact ⟨by decide, hresult.symm⟩
    · have hparts : ∀ segment ∈ segments, isPathPart segment :=
        fun segment hsegment => (isName_iff.mp (hsegments segment hsegment)).1
      have hread : PosixPath.partsOf key = segments := by
        rw [hkey]
        exact PosixPath.partsOf_intercalate hparts
      refine ⟨⟨⟨⟨?_, hstarts⟩, ?_⟩, ?_⟩, hresult.symm⟩
      · intro hempty
        apply hne
        rw [← hread, hempty]
        rfl
      · exact (PosixPath.normalText_eq_self_iff hrelative).mpr
          (Or.inr ⟨segments, hne, hparts, hkey⟩)
      · intro hup
        have hmem : ".." ∈ segments := hread ▸ hup
        exact (hsegments _ hmem).2.2.1 rfl

/-- A prefix that the validator's normal form cannot end in. -/
def EndsInSlash (allowed : String) : Prop := allowed.toList.getLast? = some '/'

instance (allowed : String) : Decidable (EndsInSlash allowed) := inferInstanceAs (Decidable (_ = _))

theorem getLast?_intercalate_ne {segments : List String} (hne : segments ≠ [])
    (hsegments : ∀ segment ∈ segments, IsName segment) :
    ("/".intercalate segments).toList.getLast? ≠ some '/' := by
  induction segments with
  | nil => exact absurd rfl hne
  | cons first rest ih =>
      rw [List.forall_mem_cons] at hsegments
      by_cases hrest : rest = []
      · rw [hrest, String.intercalate_singleton]
        exact fun hlast => hsegments.1.2.2.2 (List.mem_of_getLast? hlast)
      · rw [String.intercalate_cons_of_ne_nil hrest, String.toList_append, List.getLast?_append]
        intro hlast
        cases hfound : ("/".intercalate rest).toList.getLast? with
        | none =>
            have hempty : "/".intercalate rest = "" :=
              String.toList_eq_nil_iff.mp (List.getLast?_eq_none_iff.mp hfound)
            have hparts : ∀ part ∈ rest, isPathPart part :=
              fun part hpart => (isName_iff.mp (hsegments.2 part hpart)).1
            apply hrest
            rw [← PosixPath.partsOf_intercalate hparts, hempty]
            rfl
        | some c =>
            rw [hfound, Option.some_or] at hlast
            exact ih hrest hsegments.2 (hfound.trans hlast)

/-- The checks of a grant pass exactly the confined keys. -/
theorem checks_ok_iff {prefixes : List String} (hslash : ∀ allowed ∈ prefixes, EndsInSlash allowed)
    {key grant : String} :
    validateObjectKey key = .ok key ∧ requirePrefix key prefixes grant = .ok () ↔
      Confined prefixes key := by
  rw [validateObjectKey_ok_iff, requirePrefix, require_eq_ok, startsWithAny_iff]
  constructor
  · intro h
    obtain ⟨⟨-, hstarts, hform⟩, allowed, hallowed, hinside⟩ := h
    have hlast := hslash allowed hallowed
    rcases hform with rfl | ⟨segments, hne, hsegments, hkey⟩
    · have hmem : '/' ∈ ".".toList := hinside.subset (List.mem_of_getLast? hlast)
      exact absurd hmem (by decide)
    · refine ⟨⟨segments, hsegments, hkey⟩, hstarts, allowed, hallowed, hinside, ?_⟩
      intro heq
      apply getLast?_intercalate_ne hne hsegments
      rw [← hkey, ← heq]
      exact hlast
  · intro h
    obtain ⟨segments, hsegments, hkey⟩ := h.segments
    obtain ⟨allowed, hallowed, hinside, -⟩ := h.inside
    refine ⟨⟨rfl, h.notAbsolute, Or.inr ⟨segments, ?_, hsegments, hkey⟩⟩, allowed, hallowed, hinside⟩
    intro hnil
    rw [hkey, hnil, String.intercalate_nil] at hinside
    have hlast := hslash allowed hallowed
    rw [EndsInSlash, List.prefix_nil.mp hinside] at hlast
    cases hlast

/-- Read as a path, a confined key leads below the place of one of the prefixes. -/
theorem Confined.below {prefixes : List String}
    (hslash : ∀ allowed ∈ prefixes, EndsInSlash allowed) {key : String}
    (h : Confined prefixes key) (cwd : Location) :
    ∃ allowed ∈ prefixes, ∃ names, names ≠ [] ∧
      (PosixPath.ofText key).resolve cwd = (PosixPath.ofText allowed).resolve cwd ++ names := by
  obtain ⟨segments, hsegments, hkey⟩ := h.segments
  obtain ⟨allowed, hallowed, ⟨rest, hrest⟩, hne⟩ := h.inside
  obtain ⟨front, hfront⟩ := List.getLast?_eq_some_iff.mp (hslash allowed hallowed)
  have hallowedText : allowed = String.ofList front ++ "/" ++ "" := by
    apply String.toList_injective
    simp [hfront]
  have hkeyText : key = String.ofList front ++ "/" ++ String.ofList rest := by
    apply String.toList_injective
    simp [← hrest, hfront]
  have hkeyParts : PosixPath.partsOf key = segments := by
    rw [hkey]
    exact PosixPath.partsOf_intercalate fun segment hsegment =>
      (isName_iff.mp (hsegments segment hsegment)).1
  have hsplit : PosixPath.partsOf key =
      PosixPath.partsOf allowed ++ PosixPath.partsOf (String.ofList rest) := by
    calc PosixPath.partsOf key
        = PosixPath.partsOf (String.ofList front) ++ PosixPath.partsOf (String.ofList rest) := by
          rw [hkeyText, PosixPath.partsOf_append_slash]
      _ = PosixPath.partsOf allowed ++ PosixPath.partsOf (String.ofList rest) := by
          rw [hallowedText, PosixPath.partsOf_append_slash, PosixPath.partsOf_empty, List.append_nil]
  have hup : ".." ∉ PosixPath.partsOf key := by
    rw [hkeyParts]
    exact fun hmem => (hsegments _ hmem).2.2.1 rfl
  have hrelative := head?_ne_slash h.notAbsolute
  have hhead : key.toList.head? = allowed.toList.head? := by
    rw [← hrest]
    exact List.head?_append_of_ne_nil _ (by simp [hfront])
  have hallowedRelative : allowed.toList.head? ≠ some '/' := hhead ▸ hrelative
  have hnonempty : segments ≠ [] := by
    intro hnil
    rw [hkey, hnil, String.intercalate_nil, hfront] at hrest
    cases front <;> cases hrest
  refine ⟨allowed, hallowed, PosixPath.partsOf (String.ofList rest), ?_, ?_⟩
  · have hcut : key.toList.splitOn '/' = front.splitOn '/' ++ rest.splitOn '/' := by
      rw [← hrest, hfront, List.append_assoc]
      exact List.splitOn_append_cons_self front rest
    obtain ⟨segment, hsegment⟩ := List.exists_mem_of_ne_nil _ (List.splitOn_ne_nil '/' rest)
    have hname : IsName (String.ofList segment) := by
      apply isName_of_mem_splitOn hsegments hnonempty
      rw [← hkey, hcut]
      exact List.mem_append_right _ hsegment
    apply List.ne_nil_of_mem (a := String.ofList segment)
    rw [PosixPath.partsOf, List.mem_filter, String.toList_ofList]
    exact ⟨List.mem_map_of_mem hsegment, by simp [hname.1, hname.2.1]⟩
  · rw [PosixPath.resolve_relative hrelative hup, hsplit, PosixPath.resolve_relative hallowedRelative,
      List.append_assoc]
    intro hmem
    exact hup (hsplit ▸ List.mem_append_left _ hmem)

/-! ### Grants -/

/-- The URLs that a grant signs are for the key alone, and the key is confined; any other key raises
`ValueError` and nothing is awaited. -/
structure GrantsWithin (store : GcsAssetStore) (method : String) (prefixes : List String)
    (key : String) (grant : GcsProg String) : Prop where
  signs : grant.Awaits fun action => ∀ call, action = .sign call →
    call.objectKey = key ∧ call.bucket = store.bucket ∧ call.method = method ∧ Confined prefixes key
  refuses : ¬ Confined prefixes key → ∃ text, grant = .raise (.raised (.valueError text))

namespace GcsAssetStore

theorem awaits_refreshCredentials {P : GcsAction → Prop} (hrefresh : P .refresh)
    (fields : GcsFields) : (refreshCredentials fields).Awaits P := by
  rw [refreshCredentials]
  split_ifs
  · refine ⟨hrefresh, fun refreshed => ?_⟩
    cases refreshed <;> exact trivial
  · exact trivial

/-- The actions of `_signed_url`. -/
theorem awaits_signedUrl {P : GcsAction → Prop} (hfields : P .fields) (hrefresh : P .refresh)
    {store : GcsAssetStore} {objectKey method : String}
    (hsign : ∀ call : SigningCall, call.objectKey = objectKey → call.bucket = store.bucket →
      call.method = method → P (.sign call))
    (expiration : DateTime) (contentType : Option String)
    (queryParameters : List (String × String)) :
    (store.signedUrl objectKey method expiration contentType queryParameters).Awaits P := by
  have hread : readFields.Awaits P := ⟨hfields, fun _ => trivial⟩
  refine .bind hread fun before => ?_
  refine .bind (awaits_refreshCredentials hrefresh before) fun _ => ?_
  refine .bind hread fun fields => ?_
  cases store.signingServiceAccountEmail.filter (· ≠ "") with
  | none => exact trivial
  | some email =>
      cases fields.signingAccessToken.filter (· ≠ "") with
      | none => exact trivial
      | some token =>
          dsimp only
          split_ifs
          · refine .bind ⟨hsign _ rfl rfl rfl, fun _ => trivial⟩ fun url => ?_
            cases url <;> exact trivial
          · exact trivial

/-- A grant of either kind: the checks, then the signed URL. -/
theorem grantsWithin_of_checks {store : GcsAssetStore} {method grant key : String}
    {prefixes : List String} (hslash : ∀ allowed ∈ prefixes, EndsInSlash allowed)
    (expiration : DateTime) (contentType : Option String)
    (queryParameters : List (String × String)) :
    GrantsWithin store method prefixes key (do
      let objectKey ← GcsProg.check (validateObjectKey key)
      GcsProg.check (requirePrefix objectKey prefixes grant)
      store.signedUrl objectKey method expiration contentType queryParameters) := by
  have hchecks := @checks_ok_iff prefixes hslash key grant
  rcases validateObjectKey_cases key with hkey | ⟨text, hkey⟩
  · rw [hkey]
    rcases requirePrefix_cases key prefixes grant with hinside | ⟨text, hinside⟩
    · have hconfined := hchecks.mp ⟨hkey, hinside⟩
      refine ⟨?_, fun hnot => absurd hconfined hnot⟩
      show (GcsProg.check (requirePrefix key prefixes grant) >>= fun _ => _).Awaits _
      rw [hinside]
      refine awaits_signedUrl ?_ ?_ ?_ _ _ _
      · exact fun call hcall => GcsAction.noConfusion hcall
      · exact fun call hcall => GcsAction.noConfusion hcall
      · intro call hobject hbucket hmethod call' hcall
        obtain rfl := GcsAction.sign.inj hcall
        exact ⟨hobject, hbucket, hmethod, hconfined⟩
    · have hraises : (do
          let objectKey ← GcsProg.check (.ok key)
          GcsProg.check (requirePrefix objectKey prefixes grant)
          store.signedUrl objectKey method expiration contentType queryParameters) =
          Prog.raise (.raised (.valueError text)) := by
        show (GcsProg.check (requirePrefix key prefixes grant) >>= fun _ => _) = _
        rw [hinside]
        rfl
      rw [hraises]
      exact ⟨trivial, fun _ => ⟨text, rfl⟩⟩
  · rw [hkey]
    exact ⟨trivial, fun _ => ⟨text, rfl⟩⟩

theorem grants_confined (store : GcsAssetStore)
    (hread : ∀ allowed ∈ store.allowedReadPrefixes, EndsInSlash allowed)
    (houtput : ∀ allowed ∈ store.allowedOutputPrefixes, EndsInSlash allowed)
    (key contentType : String) :
    GrantsWithin store "GET" store.allowedReadPrefixes key (store.createReadUrl key) ∧
      GrantsWithin store "PUT" store.allowedOutputPrefixes key
        (store.createOutputUploadUrl key contentType) :=
  ⟨grantsWithin_of_checks hread _ _ _, grantsWithin_of_checks houtput _ _ _⟩

def smallStore : GcsAssetStore where
  bucket := "pool"

theorem grants_confined_small :
    GrantsWithin smallStore "GET" defaultReadPrefixes "inputs/pool/a.bin"
        (smallStore.createReadUrl "inputs/pool/a.bin") ∧
      GrantsWithin smallStore "PUT" defaultOutputPrefixes "inputs/pool/a.bin"
        (smallStore.createOutputUploadUrl "inputs/pool/a.bin" "text/plain") :=
  smallStore.grants_confined (by decide) (by decide) _ _

/-- The key of the witness can be read, and is not an output. -/
example : Confined defaultReadPrefixes "inputs/pool/a.bin" ∧
    ¬ Confined defaultOutputPrefixes "inputs/pool/a.bin" := by
  refine ⟨(@checks_ok_iff _ (by decide) _ "read").mp ⟨rfl, rfl⟩, fun h => ?_⟩
  have hinside := ((@checks_ok_iff _ (by decide) _ "output upload").mpr h).2
  cases hinside

end GcsAssetStore

end GpuWorkerPool
