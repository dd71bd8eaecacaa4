import GpuWorkerPool.ComfyJobs
import GpuWorkerPool.ProfileGate
import GpuWorkerPool.ProfileVersions

/-!
What a profile's plugin reports at completion against what the coordinator looks for. The coordinator
finds the recipe that a job pins, fills the inputs that the job leaves out with the defaults of the
recipe's template, and compares; the plugin fills them by the template it runs.
-/

namespace GpuWorkerPool

open Base ComfyWorkflowPlugin WorkerPoolService

/-! ### Recipes -/

/-- A ComfyUI template, or a pinned engine release. -/
inductive ProfileKind where
  | comfy (template : ComfyTemplate)
  | engine (recipe : EngineRecipe)

/-- An entry of `PROFILES`, with the `recipe_version` that `describe_profile` computes for it. -/
structure MachineProfile where
  name : String
  recipeVersion : String
  kind : ProfileKind
  attestedInputs : List String := defaultAttestedInputs

/-- `_profile_for_recipe` -/
def profileForRecipe (profiles : List MachineProfile) (recipeVersion : String) :
    Option MachineProfile :=
  profiles.find? fun profile => profile.recipeVersion = recipeVersion

/-- The defaults of a template, by the name of the input. -/
def templateDefaults (template : ComfyTemplate) : Dict String JsonValue :=
  .ofPairs ((template.inputs.filter fun entry => !isNull entry.default).map fun entry =>
    (entry.name, entry.default))

/-- `recipe_input_defaults` -/
def recipeInputDefaults (profiles : List MachineProfile) (recipeVersion : String) :
    Dict String JsonValue :=
  match (profileForRecipe profiles recipeVersion).map MachineProfile.kind with
  | some (.comfy template) => templateDefaults template
  | _ => Table.empty

/-- The inputs that a profile attests for a capability. -/
def MachineProfile.attestedFor (profile : MachineProfile) (capabilityId : String) : List String :=
  match profile.kind with
  | .comfy _ => profile.attestedInputs
  | .engine recipe =>
      let stage := if capabilityId = "" then none else recipe.stageFor capabilityId
      (stage.map EngineStage.attestedInputs).getD profile.attestedInputs

/-- `recipe_attested_inputs` -/
def recipeAttestedInputs (profiles : List MachineProfile) (recipeVersion capabilityId : String) :
    List String :=
  match profileForRecipe profiles recipeVersion with
  | none => defaultAttestedInputs
  | some profile => profile.attestedFor capabilityId

/-- A template that a profile may run: it loads, its defaults are JSON values, and the inputs that
the profile attests are no media. -/
structure ProfileTemplate (attestedInputs : List String) (template : ComfyTemplate) : Prop where
  validated : validateTemplate template = .ok ()
  defaults : ∀ entry ∈ template.inputs, entry.default.finite ∧ entry.default.wellFormed
  attested : ∀ name ∈ attestedInputs, name ≠ imagesInputName ∧ name ≠ audiosInputName

/-- `PROFILES`: no two of them have one recipe. -/
structure ProfileCatalog where
  profiles : List MachineProfile
  recipes_nodup : (profiles.map MachineProfile.recipeVersion).Nodup
  templates : ∀ profile ∈ profiles, ∀ template, profile.kind = .comfy template →
    ProfileTemplate profile.attestedInputs template

namespace ProfileCatalog

variable (catalog : ProfileCatalog)

/-- The profile module of a coordinator. -/
def machineProfiles (refused : Refused) : MachineProfiles where
  unqualified := refused
  recipeAttestedInputs := recipeAttestedInputs catalog.profiles
  recipeInputDefaults recipeVersion := (recipeInputDefaults catalog.profiles recipeVersion).rows

/-- The versions are those of a ComfyUI profile, which runs the template. -/
def Describes (p : ProfileVersions) (template : ComfyTemplate) : Prop :=
  ∃ profile ∈ catalog.profiles, profile.name = p.profile ∧ profile.recipeVersion = p.recipe ∧
    profile.kind = .comfy template

variable {catalog}

theorem profileForRecipe_eq {profile : MachineProfile} (h : profile ∈ catalog.profiles) :
    profileForRecipe catalog.profiles profile.recipeVersion = some profile :=
  Table.find?_eq_some_of_mem catalog.recipes_nodup h

/-- The module finds the attested inputs of the profile and the defaults of its template. -/
theorem Describes.found {p : ProfileVersions} {template : ComfyTemplate}
    (h : catalog.Describes p template) :
    ∃ attestedInputs, ProfileTemplate attestedInputs template ∧
      (∀ capabilityId,
        recipeAttestedInputs catalog.profiles p.recipe capabilityId = attestedInputs) ∧
      recipeInputDefaults catalog.profiles p.recipe = templateDefaults template := by
  obtain ⟨profile, hprofile, -, hrecipe, hkind⟩ := h
  have hfound := profileForRecipe_eq hprofile
  rw [hrecipe] at hfound
  refine ⟨_, catalog.templates profile hprofile template hkind, fun capabilityId => ?_, ?_⟩
  · rw [recipeAttestedInputs, hfound]
    dsimp only
    rw [MachineProfile.attestedFor, hkind]
  · rw [recipeInputDefaults, hfound, Option.map_some, hkind]

end ProfileCatalog

/-! ### Defaults -/

theorem lookup_templateDefaults {template : ComfyTemplate} (hvalid : ValidTemplate template)
    {entry : TemplateInput} (hentry : entry ∈ template.inputs) :
    (templateDefaults template).lookup entry.name =
      if isNull entry.default then none else some entry.default := by
  have hnodup : (((template.inputs.filter fun entry => !isNull entry.default).map fun entry =>
      (entry.name, entry.default)).map Prod.fst).Nodup := by
    rw [List.map_map]
    exact (List.filter_sublist.map TemplateInput.name).nodup hvalid.inputNames_nodup
  split_ifs with hnull
  · rw [templateDefaults, Dict.ofPairs, Dict.lookup_update_of_notMem]
    · rfl
    · intro hmem
      rw [List.map_map] at hmem
      obtain ⟨other, hother, hname⟩ := List.mem_map.mp hmem
      obtain ⟨hinput, hdefault⟩ := List.mem_filter.mp hother
      obtain rfl := List.inj_on_of_nodup_map hvalid.inputNames_nodup hinput hentry hname
      rw [hnull] at hdefault
      cases hdefault
  · apply Dict.lookup_update_of_mem hnodup
    exact List.mem_map.mpr ⟨entry, List.mem_filter.mpr ⟨hentry, by simpa using hnull⟩, rfl⟩

/-- A name that the template does not declare has no default. -/
theorem lookup_templateDefaults_of_notMem {template : ComfyTemplate} {name : String}
    (h : name ∉ template.inputs.map TemplateInput.name) :
    (templateDefaults template).lookup name = none := by
  rw [templateDefaults, Dict.ofPairs, Dict.lookup_update_of_notMem]
  · rfl
  · intro hmem
    rw [List.map_map] at hmem
    obtain ⟨entry, hentry, hname⟩ := List.mem_map.mp hmem
    exact h (List.mem_map.mpr ⟨entry, List.mem_of_mem_filter hentry, hname⟩)

/-! ### The effective inputs -/

/-- A name that is neither declared nor a media name is not in the request. -/
theorem lookup_requestInputs_of_notMem {template : ComfyTemplate} {lease : LeaseGrant} {name : String}
    (hdeclared : name ∉ template.inputs.map TemplateInput.name)
    (hmedia : name ∉ template.mediaNames) :
    (requestInputs template lease).lookup name = none := by
  have hfilled : name ∉ (filledInputs lease.payload template.inputs).map Prod.fst := by
    intro hmem
    obtain ⟨row, hrow, rfl⟩ := List.mem_map.mp hmem
    obtain ⟨entry, hentry, hpair⟩ := List.mem_filterMap.mp hrow
    obtain ⟨value, -, rfl⟩ := Option.map_eq_some_iff.mp hpair
    exact hdeclared (List.mem_map_of_mem hentry)
  have hbound : name ∉ (template.mediaNames.map fun mediaName =>
      (mediaName, mediaValue lease mediaName)).map Prod.fst := by
    rw [List.map_map]
    exact (List.map_id template.mediaNames).symm ▸ hmedia
  rw [requestInputs_eq, Dict.lookup_update_of_notMem hbound, Dict.lookup_update_of_notMem hfilled]
  rfl

/-- The value of the job, or else the default. -/
def expectedOf (defaults : Dict String JsonValue) (payload : JobPayload) (name : String) :
    JsonValue :=
  match payload.get? name with
  | some value => value
  | none => (defaults.lookup name).getD .null

/-- The coordinator expects of an input what the plugin filled in for it. -/
theorem effective_eq_expected {template : ComfyTemplate} (hvalid : ValidTemplate template)
    {lease : LeaseGrant} (hadmitted : LeaseAdmitted template lease) {name : String}
    (hmedia : name ∉ template.mediaNames) :
    ((requestInputs template lease).lookup name).getD .null =
      expectedOf (templateDefaults template) lease.payload name := by
  rw [expectedOf]
  by_cases hdeclared : name ∈ template.inputs.map TemplateInput.name
  · obtain ⟨entry, hentry, rfl⟩ := List.mem_map.mp hdeclared
    rw [lookup_filled hvalid hentry, filledInput, lookup_templateDefaults hvalid hentry]
    cases lease.payload.get? entry.name with
    | some value => rfl
    | none => rfl
  · rw [lookup_requestInputs_of_notMem hdeclared hmedia,
      lookup_templateDefaults_of_notMem hdeclared]
    cases hget : lease.payload.get? name with
    | none => rfl
    | some value =>
        have hkey := hadmitted.keys (name, value) (JsonValue.mem_of_lookup hget)
        exact absurd hkey (not_or.mpr ⟨hdeclared, hmedia⟩)

/-- What is expected of an input is a JSON value without a NaN. -/
theorem expectedOf_clean {attestedInputs : List String} {template : ComfyTemplate}
    (htemplate : ProfileTemplate attestedInputs template) {payload : JobPayload}
    (hpayload : payload.value.finite) (name : String) :
    (expectedOf (templateDefaults template) payload name).finite ∧
      (expectedOf (templateDefaults template) payload name).wellFormed := by
  rw [expectedOf]
  cases hget : payload.get? name with
  | some value =>
      refine ⟨?_, JsonObject.wellFormed_of_get? hget⟩
      exact JsonValue.finiteMembers_iff.mp hpayload (name, value) (JsonValue.mem_of_lookup hget)
  | none =>
      cases hdefault : (templateDefaults template).lookup name with
      | none => exact ⟨rfl, rfl⟩
      | some value =>
          have hmem := Dict.mem_of_mem_ofPairs (Dict.lookup_eq_some_iff.mp hdefault)
          obtain ⟨entry, hentry, heq⟩ := List.mem_map.mp hmem
          rw [Option.getD_some, ← (Prod.mk.inj heq).2]
          exact htemplate.defaults entry (List.mem_of_mem_filter hentry)

/-- The one template of a profile's registry admits the leases that its plugin accepts. -/
theorem admitted_of_validate {template : ComfyTemplate} (hvalid : ValidTemplate template)
    {lease : LeaseGrant} {request : ValidatedRequest}
    (h : validate (.ofTemplates [template]) lease = .ok request) :
    LeaseAdmitted template lease ∧ request = acceptedRequest template lease := by
  have hget : (TemplateRegistry.ofTemplates [template]).get? lease.capabilityId =
      if template.capabilityId = lease.capabilityId then some template else none :=
    Table.get?_put Table.empty template lease.capabilityId
  rw [validate, hget] at h
  by_cases hcapability : template.capabilityId = lease.capabilityId
  · rw [if_pos hcapability] at h
    exact (validateLease_ok_iff hvalid).mp h
  · rw [if_neg hcapability] at h
    cases h

/-! ### The pinned recipe -/

/-- The key under which the plugin's profile has its recipe. -/
def ProfilePlugin.recipeKey (plugin : ProfilePlugin) : String :=
  GpuWorkerPool.recipeKey (if plugin.namespaced then some plugin.inspected.profile else none)
    recipeKeyName

theorem plainKey_recipeKeyName : PlainKey recipeKeyName := by decide

theorem isPrefixOf_recipeKey (profile : String) :
    "magic_recipe@".toList.isPrefixOf (recipeKey (some profile) recipeKeyName).toList := by
  apply List.isPrefixOf_iff_prefix.mpr
  exact ⟨profile.toList, by simp [recipeKey, namespaceSeparator, recipeKeyName]⟩

theorem recipeKey_of_isPrefixOf {key : String}
    (h : "magic_recipe@".toList.isPrefixOf key.toList) :
    ∃ profile, key = recipeKey (some profile) recipeKeyName := by
  obtain ⟨rest, hrest⟩ := List.isPrefixOf_iff_prefix.mp h
  refine ⟨String.ofList rest, ?_⟩
  apply String.toList_injective
  rw [← hrest]
  simp [recipeKey, namespaceSeparator, recipeKeyName, String.toList_append]

/-- A key that a further profile attests is a shared fact of the runtime, or one of its own. -/
theorem mem_keys_attested {p : ProfileVersions} {attested : Dict String String}
    (hattested : (ProfilePlugin.mk p true).attested = some attested) {key : String}
    (hkey : key ∈ attested.rows.map Prod.fst) :
    (isOwnKey key = false ∧ key ∈ p.versions.rows.map Prod.fst) ∨
      ∃ key' ∈ p.versions.rows.map Prod.fst, key = recipeKey (some p.profile) key' := by
  have heq : some attested = _ := hattested.symm.trans p.attestedVersions_eq
  rw [Option.some.inj heq, Dict.keys_update] at hkey
  rcases hkey with hshared | hown
  · obtain ⟨row, hrow, rfl⟩ := List.mem_map.mp hshared
    obtain ⟨hmem, hkey⟩ := List.mem_filter.mp hrow
    exact Or.inl ⟨by simpa using hkey, List.mem_map_of_mem hmem⟩
  · obtain ⟨key', hsame, hmem⟩ := ProfileVersions.mem_keys_namespaced hown
    exact Or.inr ⟨key', hmem, hsame⟩

/-- A map that pins nothing under the plain recipe key, and under namespaced keys only those of one
profile, pins the recipe of that profile. -/
theorem pinnedRecipe_of_namespaced {p : ProfileVersions} (hplain : PlainKeys p.versions)
    {pinned : Dict String String} (hnone : pinned.lookup "magic_recipe" = none)
    (hkeys : ∀ key ∈ pinned.rows.map Prod.fst, ¬ PlainKey key →
      ∃ key' ∈ p.versions.rows.map Prod.fst, key = recipeKey (some p.profile) key')
    {recipe : String}
    (hrecipe : pinned.lookup (recipeKey (some p.profile) recipeKeyName) = some recipe) :
    pinnedRecipe pinned = some recipe := by
  have hfound : ∀ entry ∈ pinned.rows, "magic_recipe@".toList.isPrefixOf entry.1.toList →
      entry.2 = recipe := by
    intro entry hentry hstart
    obtain ⟨profile, hkey⟩ := recipeKey_of_isPrefixOf hstart
    obtain ⟨key', hmem, hsame⟩ := hkeys entry.1 (List.mem_map_of_mem hentry)
      (hkey ▸ not_plainKey_recipeKey profile recipeKeyName)
    obtain ⟨rfl, rfl⟩ := recipeKey_injective plainKey_recipeKeyName (hplain key' hmem)
      (hkey.symm.trans hsame)
    have hlookup : pinned.lookup entry.1 = some entry.2 := Dict.lookup_eq_some_iff.mpr hentry
    rw [hkey, hrecipe] at hlookup
    exact (Option.some.inj hlookup).symm
  rw [pinnedRecipe, hnone]
  dsimp only
  cases hfind : (pinned.rows.insertionSort fun a b => a.1 ≤ b.1).find? fun entry =>
      "magic_recipe@".toList.isPrefixOf entry.1.toList with
  | none =>
      have hpinned := (List.mem_insertionSort fun a b : String × String => a.1 ≤ b.1).mpr
        (Dict.lookup_eq_some_iff.mp hrecipe)
      exact absurd (isPrefixOf_recipeKey p.profile) (List.find?_eq_none.mp hfind _ hpinned)
  | some entry =>
      have hentry := (List.mem_insertionSort _).mp (List.mem_of_find?_eq_some hfind)
      have hstart := List.find?_some hfind
      exact congrArg some (hfound entry hentry hstart)

/-- A job that pins its recipe under the key of the profile, and only keys that the plugin attests,
pins no other recipe. -/
theorem pinnedRecipe_of_attested {plugin : ProfilePlugin} (hplain : PlainKeys plugin.inspected.versions)
    {attested pinned : Dict String String} (hattested : plugin.attested = some attested)
    (honly : ∀ key ∈ pinned.rows.map Prod.fst, key ∈ attested.rows.map Prod.fst) {recipe : String}
    (hrecipe : pinned.lookup plugin.recipeKey = some recipe) :
    pinnedRecipe pinned = some recipe := by
  obtain ⟨p, namespaced⟩ := plugin
  cases namespaced with
  | false =>
      have hfirst : pinned.lookup "magic_recipe" = some recipe := hrecipe
      rw [pinnedRecipe, hfirst]
  | true =>
      apply pinnedRecipe_of_namespaced hplain _ _ hrecipe
      · rw [← Option.not_isSome_iff_eq_none, Dict.isSome_lookup_iff]
        intro hkey
        rcases mem_keys_attested hattested (honly _ hkey) with ⟨hshared, -⟩ | ⟨key', -, hsame⟩
        · exact absurd hshared (by decide)
        · exact not_plainKey_recipeKey p.profile key' (hsame ▸ plainKey_recipeKeyName)
      · intro key hkey hnot
        rcases mem_keys_attested hattested (honly key hkey) with ⟨-, hmem⟩ | hown
        · exact absurd (hplain key hmem) hnot
        · exact hown

/-! ### Completions -/

theorem memberEq_versions {versions : Dict String String} {key value : String}
    (h : versions.lookup key = some value) :
    memberEq (versions.rows.map fun row => (row.1, .str row.2)) key (.str value) := by
  have hlookup : (versions.rows.map fun row => (row.1, JsonValue.str row.2)).lookup key =
      some (.str value) := by
    apply JsonValue.lookup_eq_of_mem
    · rw [List.map_map]
      exact versions.keys_nodup
    · exact List.mem_map.mpr ⟨(key, value), Dict.lookup_eq_some_iff.mp h, rfl⟩
  rw [memberEq, hlookup]
  exact decide_eq_true rfl

section Attested

variable [PyText]

/-- A submitted job that pins the recipe of the plugin's profile and only keys that the plugin
attests, that the registered worker satisfies and the plugin accepts, and a completion with what the
plugin reports. -/
structure AttestedJob (plugin : ProfilePlugin) (attested merged : Dict String String)
    (template : ComfyTemplate) (record : JobRecord) (manifest : OutputManifest) : Prop where
  submitted : ∃ submission, validateJobSubmission submission = .ok () ∧
    record.payload = submission.payload
  pins : record.requirements.runtimeVersions.lookup plugin.recipeKey = some plugin.inspected.recipe
  only : ∀ key ∈ record.requirements.runtimeVersions.rows.map Prod.fst,
    key ∈ attested.rows.map Prod.fst
  satisfied : ∃ query : LeaseQuery, query.runtimeVersions = merged ∧
    satisfiesRequirements record query
  runtimeVersions : manifest.diagnostics.get? "runtime_versions" = some (versionsValue attested)
  effectiveInputs : ∃ lease request, lease.payload = record.payload ∧
    validate (.ofTemplates [template]) lease = .ok request ∧
    manifest.diagnostics.get? "effective_inputs" = some (.dict request.inputs.rows)

variable {plugin : ProfilePlugin} {attested merged : Dict String String} {template : ComfyTemplate}
  {record : JobRecord} {manifest : OutputManifest}

/-- What is pinned is registered, and what is attested is registered, under one value. -/
theorem AttestedJob.coversVersions (h : AttestedJob plugin attested merged template record manifest)
    (hincluded : Dict.Included attested merged) :
    coversVersions record.requirements.runtimeVersions manifest.diagnostics := by
  obtain ⟨query, hmerged, hsatisfies⟩ := h.satisfied
  rw [GpuWorkerPool.coversVersions, h.runtimeVersions]
  apply List.all_eq_true.mpr
  intro entry hentry
  apply memberEq_versions
  simp only [satisfiesRequirements, Bool.and_eq_true, List.all_eq_true, decide_eq_true_eq]
    at hsatisfies
  have hregistered := hsatisfies.1.1.1.2 entry hentry
  rw [hmerged] at hregistered
  have hkey := Dict.isSome_lookup_iff.mpr (h.only entry.1 (List.mem_map_of_mem hentry))
  obtain ⟨value, hvalue⟩ := Option.isSome_iff_exists.mp hkey
  rw [hincluded entry.1 value hvalue] at hregistered
  rw [hvalue, hregistered]

variable {catalog : ProfileCatalog} {cfg : ServiceConfig} {refused : Refused}

/-- The plugin filled in what the coordinator expects. -/
theorem AttestedJob.coversInputs (h : AttestedJob plugin attested merged template record manifest)
    (hcfg : cfg.machineProfiles = some (catalog.machineProfiles refused))
    (htemplate : catalog.Describes plugin.inspected template) :
    coversInputs cfg plugin.inspected.recipe record manifest.diagnostics := by
  obtain ⟨attestedInputs, hprofile, hattested, hdefaults⟩ := htemplate.found
  obtain ⟨submission, hvalidated, hsubmitted⟩ := h.submitted
  obtain ⟨lease, request, hlease, haccepted, heffective⟩ := h.effectiveInputs
  have hvalid := validateTemplate_ok_iff.mp hprofile.validated
  have hfinite : record.payload.value.finite := hsubmitted ▸ (accepted_of_validate hvalidated).payload
  obtain ⟨hadmitted, rfl⟩ := admitted_of_validate hvalid haccepted
  have hrecipeDefaults : cfg.recipeDefaults plugin.inspected.recipe =
      (templateDefaults template).rows := by
    rw [ServiceConfig.recipeDefaults, hcfg, ← hdefaults]
    rfl
  have hnames : cfg.recipeAttestedInputs plugin.inspected.recipe record.capabilityId =
      attestedInputs := by
    rw [ServiceConfig.recipeAttestedInputs, hcfg, ← hattested record.capabilityId]
    rfl
  rw [GpuWorkerPool.coversInputs, heffective]
  dsimp only
  rw [hnames]
  apply List.all_eq_true.mpr
  intro name hname
  have hmedia : name ∉ template.mediaNames := by
    intro hmem
    rcases mem_mediaNames hmem with himages | haudios
    · exact (hprofile.attested name hname).1 himages
    · exact (hprofile.attested name hname).2 haudios
  have hexpected : expectedInput cfg plugin.inspected.recipe record name =
      expectedOf (templateDefaults template) lease.payload name := by
    rw [expectedInput, hrecipeDefaults, Dict.lookup_rows, hlease]
    rfl
  have heffectiveInput := effective_eq_expected hvalid hadmitted hmedia
  have hclean := expectedOf_clean hprofile (hlease ▸ hfinite) name
  rw [memberEq, Dict.lookup_rows, hexpected, ← heffectiveInput]
  rw [← heffectiveInput] at hclean
  exact JsonValue.pyEq_self hclean.1 hclean.2

/-- The completion is rejected for no mismatch with the recipe. -/
def NoMismatch (res : Except Exc Unit) : Prop :=
  res ≠ .error (.completionRejected "recipe_configuration_mismatch") ∧
    res ≠ .error (.completionRejected "effective_inputs_mismatch")

omit [PyText] in
theorem noMismatch_of_manifestProblem
    (hrecipe : ∀ recipe, pinnedRecipe record.requirements.runtimeVersions = some recipe →
      GpuWorkerPool.coversVersions record.requirements.runtimeVersions manifest.diagnostics ∧
        GpuWorkerPool.coversInputs cfg recipe record manifest.diagnostics)
    {reason : String} (h : manifestProblem cfg record manifest = some reason) :
    NoMismatch (.error (.completionRejected reason)) := by
  have hversions : ((pinnedRecipe record.requirements.runtimeVersions).isSome &&
      !GpuWorkerPool.coversVersions record.requirements.runtimeVersions manifest.diagnostics) =
        false := by
    cases hpinned : pinnedRecipe record.requirements.runtimeVersions with
    | none => rfl
    | some recipe => rw [(hrecipe recipe hpinned).1]; rfl
  have hinputs : ((pinnedRecipe record.requirements.runtimeVersions).any fun recipe =>
      !GpuWorkerPool.coversInputs cfg recipe record manifest.diagnostics) = false := by
    cases hpinned : pinnedRecipe record.requirements.runtimeVersions with
    | none => rfl
    | some recipe => rw [Option.any_some, (hrecipe recipe hpinned).2]; rfl
  rw [manifestProblem, hversions, hinputs] at h
  simp only [Bool.false_eq_true, if_false] at h
  split_ifs at h <;> obtain rfl := Option.some.inj h <;> simp [NoMismatch]

/-- Anything may happen between the awaits. -/
def anyInterference : Prog.Contract Action World where
  inv _ := True
  allow _ _ := True
  rely _ _ := True
  guar _ _ := True

/-- The later rejections have other reasons. -/
theorem sat_verifyOutput_recipe
    (hrecipe : ∀ recipe, pinnedRecipe record.requirements.runtimeVersions = some recipe →
      GpuWorkerPool.coversVersions record.requirements.runtimeVersions manifest.diagnostics ∧
        GpuWorkerPool.coversInputs cfg recipe record manifest.diagnostics) (w : World) :
    Prog.Sat Action.exec anyInterference (verifyOutput cfg record manifest) w
      fun res _ => NoMismatch res := by
  have hguar : ∀ v : World, True → True := fun _ _ => trivial
  rw [verifyOutput]
  cases hproblem : manifestProblem cfg record manifest with
  | some reason => exact noMismatch_of_manifestProblem hrecipe hproblem
  | none =>
      refine sat_readAssets hguar (fun _ => rfl) (fun t descriptor _ _ _ => ?_)
        fun t error _ _ herror => ?_
      · cases descriptor with
        | none => simp [NoMismatch]
        | some descriptor =>
            dsimp only
            split_ifs
            · simp [NoMismatch]
            · simp [NoMismatch]
            · refine sat_readAssets hguar (fun _ => rfl) (fun u content _ _ _ => ?_)
                fun u error _ _ herror => ?_
              · split_ifs <;> simp [NoMismatch]
              · rcases herror with ⟨text, rfl⟩ | hreply
                · simp [NoMismatch]
                · refine ⟨?_, ?_⟩ <;> rintro ⟨⟩ <;>
                    exact MemoryAssetStore.readLimited_ne_rejected _ _ _ _ hreply
      · rcases herror with ⟨text, rfl⟩ | hreply
        · simp [NoMismatch]
        · simp [AssetStoreCall.exec] at hreply

/-- What every profile's plugin attests was registered by the worker, and no completion with what a
plugin reports is rejected for a mismatch with the recipe that the job pins. -/
theorem recipe_attestation_agrees {first : ProfileVersions} {further : List ProfileVersions}
    (hruntime : OneRuntime first further) :
    ∃ merged, mergedVersions first further = some merged ∧
      ∀ plugin ∈ profilePlugins first further, ∃ attested,
        plugin.attested = some attested ∧ Dict.Included attested merged ∧
          ∀ (catalog : ProfileCatalog) template, catalog.Describes plugin.inspected template →
            ∀ cfg refused, cfg.machineProfiles = some (catalog.machineProfiles refused) →
              ∀ record manifest, AttestedJob plugin attested merged template record manifest →
                ∀ w, Prog.Sat Action.exec anyInterference (verifyOutput cfg record manifest) w
                  fun res _ => NoMismatch res := by
  obtain ⟨merged, hmerged, hplugins⟩ := hruntime.attested_included
  refine ⟨merged, hmerged, fun plugin hplugin => ?_⟩
  obtain ⟨attested, hattested, hincluded⟩ := hplugins plugin hplugin
  refine ⟨attested, hattested, hincluded, ?_⟩
  intro catalog template htemplate cfg refused hcfg record manifest hjob w
  apply sat_verifyOutput_recipe
  intro recipe hpinned
  have hown := pinnedRecipe_of_attested (hruntime.plain_plugin hplugin) hattested hjob.only hjob.pins
  obtain rfl := Option.some.inj (hown.symm.trans hpinned)
  exact ⟨hjob.coversVersions hincluded, hjob.coversInputs hcfg htemplate⟩

end Attested

/-- The map of a profile with one feature, on a runtime without launch flags. -/
def portraitMap (profile recipe feature value : String) : Dict String String :=
  (fixedVersions ⟨"0.41.0", "2.14.0+cu130", []⟩ profile recipe "config" "comfy-default").update
    [(feature, value)]

def largePortraits : ProfileVersions where
  profile := "portrait-24gb"
  recipe := "recipe-24"
  config := "config"
  versions := portraitMap "portrait-24gb" "recipe-24" "magic_feature_last_frame" "1"
  recipe_entry := by decide
  config_entry := by decide
  profile_entry := by decide

def smallPortraits : ProfileVersions where
  profile := "portrait-12gb"
  recipe := "recipe-12"
  config := "config"
  versions := portraitMap "portrait-12gb" "recipe-12" "magic_feature_references" "3"
  recipe_entry := by decide
  config_entry := by decide
  profile_entry := by decide

theorem profileTemplate_portrait : ProfileTemplate defaultAttestedInputs portraitTemplate where
  validated := by decide
  defaults := by
    intro entry hentry
    simp only [portraitTemplate, List.mem_cons, List.not_mem_nil, or_false] at hentry
    rcases hentry with rfl | rfl
    · exact ⟨rfl, rfl⟩
    · exact ⟨rfl, rfl⟩
  attested := by decide

/-- Two profiles that run one template. -/
def portraitCatalog : ProfileCatalog where
  profiles := [
    { name := "portrait-24gb", recipeVersion := "recipe-24", kind := .comfy portraitTemplate },
    { name := "portrait-12gb", recipeVersion := "recipe-12", kind := .comfy portraitTemplate }]
  recipes_nodup := by decide
  templates := by
    intro profile hprofile template hkind
    simp only [List.mem_cons, List.not_mem_nil, or_false] at hprofile
    rcases hprofile with rfl | rfl
    · obtain rfl := ProfileKind.comfy.inj hkind
      exact profileTemplate_portrait
    · obtain rfl := ProfileKind.comfy.inj hkind
      exact profileTemplate_portrait

def portraitCoordinator : ServiceConfig where
  machineProfiles := some (portraitCatalog.machineProfiles engineRecipesRefused)

/-- A portrait for the second profile, which leaves the steps to the default. -/
def portraitJob : JobSubmission where
  jobId := "job"
  idempotencyKey := "key"
  capabilityId := "portrait.v1"
  inputKeys := []
  outputKey := "outputs/portrait.png"
  payload := plainPortrait.payload
  requirements := { JobRequirements.none with
    runtimeVersions := .ofPairs [("magic_recipe@portrait-12gb", "recipe-12"), ("comfyui", "0.41.0")] }

theorem portraits_oneRuntime : OneRuntime largePortraits [smallPortraits] := by
  refine @OneRuntime.of_inspectedOn ⟨"0.41.0", "2.14.0+cu130", []⟩ _ _ (by decide) ?_
  intro p hp
  simp only [List.mem_cons, List.not_mem_nil, or_false] at hp
  rcases hp with rfl | rfl
  · exact ⟨.ofPairs [("magic_feature_last_frame", "1")], by decide, rfl⟩
  · exact ⟨.ofPairs [("magic_feature_references", "3")], by decide, rfl⟩

/-- A completion of the portrait with what the plugin of the second profile reports. -/
def portraitManifest : OutputManifest where
  outputKey := "outputs/portrait.png"
  contentType := "image/png"
  byteLength := 0
  sha256 := ""
  idempotencyKey := "key"
  requestDigest := ""
  pluginId := "magic-comfy-profile"
  pluginVersion := "1"
  modelId := "portrait"
  modelVersion := "1"
  publicationMode := publicationModeImmutableCreateOnce
  diagnostics := ⟨[
    ("runtime_versions", versionsValue (.ofPairs [("comfyui", "0.41.0"), ("pytorch", "2.14.0+cu130"),
      ("process_attention", "comfy-default"), ("dynamic_vram", "false"),
      ("pinned_memory_disabled", "false"), ("reserve_vram", "comfy-default"),
      ("magic_recipe@portrait-12gb", "recipe-12"), ("magic_config@portrait-12gb", "config"),
      ("magic_profile@portrait-12gb", "portrait-12gb"),
      ("magic_feature_references@portrait-12gb", "3")])),
    ("effective_inputs", .dict [("prompt", .str "a cat"), ("steps", .int 20),
      ("images", .dict [])])], by decide⟩

theorem recipe_attestation_agrees_portraits :
    letI := PyText.ascii
    (∃ merged attested, mergedVersions largePortraits [smallPortraits] = some merged ∧
      (ProfilePlugin.mk smallPortraits true).attested = some attested ∧
      Dict.Included attested merged) ∧
    ∀ w, Prog.Sat Action.exec anyInterference
      (verifyOutput portraitCoordinator (.ofSubmission portraitJob 0) portraitManifest) w
      fun res _ => NoMismatch res := by
  let _ := PyText.ascii
  obtain ⟨merged, hmerged, hplugins⟩ := recipe_attestation_agrees portraits_oneRuntime
  obtain ⟨attested, hattested, hincluded, hcompletions⟩ :=
    hplugins ⟨smallPortraits, true⟩ (by simp [profilePlugins])
  refine ⟨⟨merged, attested, hmerged, hattested, hincluded⟩, ?_⟩
  obtain rfl := Option.some.inj ((mergedVersions_eq _ _).symm.trans hmerged)
  obtain rfl := Option.some.inj (smallPortraits.attestedVersions_eq.symm.trans hattested)
  refine hcompletions portraitCatalog portraitTemplate ?_ portraitCoordinator _ rfl _ _ ?_
  · exact ⟨_, List.mem_cons_of_mem _ List.mem_cons_self, rfl, rfl, rfl⟩
  · refine ⟨⟨portraitJob, by decide +kernel, rfl⟩, by decide, by decide, ?_, rfl, ?_⟩
    · refine ⟨⟨"worker", ["portrait.v1"], 60, none, none, none, [], _⟩, rfl, ?_⟩
      decide +kernel
    · exact ⟨plainPortrait, acceptedRequest portraitTemplate plainPortrait, rfl, rfl, rfl⟩

/-- A first profile with a feature that is named like a registered feature of the second. -/
def namesakePortraits : ProfileVersions where
  profile := "portrait-24gb"
  recipe := "recipe-24"
  config := "config"
  versions :=
    portraitMap "portrait-24gb" "recipe-24" "magic_feature_references@portrait-12gb" "1"
  recipe_entry := by decide
  config_entry := by decide
  profile_entry := by decide

/-- A portrait for the first profile, which pins the feature as the worker registered it. -/
def namesakeJob : JobSubmission :=
  { portraitJob with
    requirements := { JobRequirements.none with
      runtimeVersions := .ofPairs
        [("magic_recipe", "recipe-24"), ("magic_feature_references@portrait-12gb", "3")] } }

theorem wellFormed_namesake : (JsonValue.dict [
    ("runtime_versions", versionsValue namesakePortraits.versions),
    ("effective_inputs", .dict [("prompt", .str "a cat"), ("steps", .int 20),
      ("images", .dict [])])]).wellFormed := by decide

def namesakeManifest : OutputManifest :=
  { portraitManifest with diagnostics := ⟨_, wellFormed_namesake⟩ }

/-- The second profile overwrites what the first one attests. -/
theorem recipe_attestation_disagrees :
    letI := PyText.ascii
    ([namesakePortraits, smallPortraits].map ProfileVersions.profile).Nodup ∧
      SharedAgree namesakePortraits smallPortraits ∧
      portraitCatalog.Describes namesakePortraits portraitTemplate ∧
      portraitCatalog.Describes smallPortraits portraitTemplate ∧
      ∃ merged, mergedVersions namesakePortraits [smallPortraits] = some merged ∧
        ¬ Dict.Included namesakePortraits.versions merged ∧
        AttestedJob ⟨namesakePortraits, false⟩ namesakePortraits.versions merged portraitTemplate
          (.ofSubmission namesakeJob 0) namesakeManifest ∧
        manifestProblem portraitCoordinator (.ofSubmission namesakeJob 0) namesakeManifest =
          some "recipe_configuration_mismatch" := by
  let _ := PyText.ascii
  refine ⟨by decide, ?_, ?_, ?_, _, mergedVersions_eq _ _, ?_, ?_, by decide +kernel⟩
  · exact @sharedAgree_of_fixed ⟨"0.41.0", "2.14.0+cu130", []⟩ _ _ _
      (.ofPairs [("magic_feature_references@portrait-12gb", "1")])
      (.ofPairs [("magic_feature_references", "3")]) (by decide) (by decide) rfl rfl
  · exact ⟨_, List.mem_cons_self, rfl, rfl, rfl⟩
  · exact ⟨_, List.mem_cons_of_mem _ List.mem_cons_self, rfl, rfl, rfl⟩
  · intro hincluded
    have hsame := hincluded "magic_feature_references@portrait-12gb" "1" (by decide)
    exact absurd hsame (by decide)
  · refine ⟨⟨namesakeJob, by decide +kernel, rfl⟩, by decide, by decide, ?_, rfl, ?_⟩
    · refine ⟨⟨"worker", ["portrait.v1"], 60, none, none, none, [], _⟩, rfl, ?_⟩
      decide +kernel
    · exact ⟨plainPortrait, acceptedRequest portraitTemplate plainPortrait, rfl, rfl, rfl⟩

end GpuWorkerPool
