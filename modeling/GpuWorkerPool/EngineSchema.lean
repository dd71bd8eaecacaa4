import GpuWorkerPool.EngineStages
import GpuWorkerPool.Base.JsonEncoding

/-!
An engine stage publishes a schema and gates its leases by other code. The gate lets through what
the schema describes, and beyond that a payload without an `inputs` member if the stage requires no
input, and a float that Python holds equal to an integer choice. A stage whose settings are declared
twice, or under the name `inputs`, publishes less than its gate checks.
-/

namespace GpuWorkerPool

open Base JsonSchema AISmithEnginePlugin

/-- The payload binds the key to a stage input. -/
def BindsInput (payload : JobPayload) (key : String) : Prop :=
  ∃ bound name, payload.get? inputsPayloadKey = some (.dict bound) ∧ (name, .str key) ∈ bound

/-- What a stage promises to accept. -/
structure Published (stage : EngineStage) (lease : LeaseGrant) : Prop where
  version : lease.contractVersion = engineContractVersion
  conforms : conforms stage.inputSchema lease.payload.value
  granted : ∀ key, BindsInput lease.payload key → key ∈ lease.inputKeys
  bound : ∀ key ∈ lease.inputKeys, BindsInput lease.payload key

/-- The token a setting documents. -/
def SettingDomain.Documents : SettingDomain → JsonValue → Prop
  | .choices (.integers values), value => ∃ n ∈ values, value = .int n
  | .choices (.strings values), value => ∃ text ∈ values, value = .str text
  | .range minimum maximum, value => ∃ n, value = .int n ∧ minimum ≤ n ∧ n ≤ maximum

/-! ### What the gate lets through -/

/-- The members of a payload under the names of settings. -/
def presentSettings (payload : JobPayload) (settings : List (String × SettingDomain)) :
    List (String × JsonValue) :=
  settings.filterMap fun setting => (payload.get? setting.1).map (setting.1, ·)

/-- Every setting a job carries has a value the gate admits. -/
def SettingsAdmitted (settings : List (String × SettingDomain)) (payload : JobPayload) : Prop :=
  ∀ setting ∈ settings, ∀ value, payload.get? setting.1 = some value → setting.2.admits value

theorem checkedSetting_ok_iff {name : String} {domain : SettingDomain} {value result : JsonValue} :
    checkedSetting name domain value = .ok result ↔ domain.admits value ∧ value = result := by
  cases domain <;>
    rw [checkedSetting, check_bind_ok_iff, rejectUnless_eq_ok, pure_ok_iff]

theorem setSetting_ok_iff {payload : JobPayload} {inputs inputs' : Dict String JsonValue}
    {setting : String × SettingDomain} :
    setSetting payload inputs setting = .ok inputs' ↔
      (∀ value, payload.get? setting.1 = some value → setting.2.admits value) ∧
        inputs.update (presentSettings payload [setting]) = inputs' := by
  rw [setSetting, presentSettings, List.filterMap_cons]
  cases hget : payload.get? setting.1 with
  | none =>
      rw [pure_ok_iff]
      exact ⟨fun h => ⟨fun _ hnone => (by cases hnone), h⟩, And.right⟩
  | some value =>
      simp only [bind_ok_iff, checkedSetting_ok_iff, pure_ok_iff]
      constructor
      · rintro ⟨_, ⟨hadmits, rfl⟩, hput⟩
        exact ⟨fun _ hsome => Option.some.inj hsome ▸ hadmits, hput⟩
      · exact fun h => ⟨value, ⟨h.1 value rfl, rfl⟩, h.2⟩

theorem settings_ok_iff {payload : JobPayload} {settings : List (String × SettingDomain)}
    {inputs inputs' : Dict String JsonValue} :
    settings.foldlM (setSetting payload) inputs = .ok inputs' ↔
      SettingsAdmitted settings payload ∧
        inputs.update (presentSettings payload settings) = inputs' := by
  induction settings generalizing inputs with
  | nil =>
      rw [List.foldlM_nil, pure_ok_iff]
      exact ⟨fun h => ⟨fun _ hmem => (by cases hmem), h⟩, And.right⟩
  | cons setting rest ih =>
      have hpresent : presentSettings payload (setting :: rest) =
          presentSettings payload [setting] ++ presentSettings payload rest := by
        rw [presentSettings, ← List.singleton_append, List.filterMap_append]
        rfl
      rw [List.foldlM_cons, bind_ok_iff, hpresent, Dict.update, List.foldl_append]
      simp only [setSetting_ok_iff, ih, SettingsAdmitted, List.forall_mem_cons]
      constructor
      · rintro ⟨middle, ⟨hfirst, rfl⟩, hrest, rfl⟩
        exact ⟨⟨hfirst, hrest⟩, rfl⟩
      · rintro ⟨⟨hfirst, hrest⟩, rfl⟩
        exact ⟨_, ⟨hfirst, rfl⟩, hrest, rfl⟩

/-- The job carries a setting of that name. -/
def Carries (stage : EngineStage) (payload : JobPayload) (name : String) : Prop :=
  name ∈ stage.settings.map Prod.fst ∧ (payload.get? name).isSome

instance (stage : EngineStage) (payload : JobPayload) (name : String) :
    Decidable (Carries stage payload name) :=
  inferInstanceAs (Decidable (_ ∧ _))

theorem mem_presentSettings {payload : JobPayload} {settings : List (String × SettingDomain)}
    {name : String} {value : JsonValue} :
    (name, value) ∈ presentSettings payload settings ↔
      name ∈ settings.map Prod.fst ∧ payload.get? name = some value := by
  simp only [presentSettings, List.mem_filterMap, Option.map_eq_some_iff, Prod.mk.injEq,
    List.mem_map]
  constructor
  · rintro ⟨setting, hsetting, value', hget, rfl, rfl⟩
    exact ⟨⟨setting, hsetting, rfl⟩, hget⟩
  · rintro ⟨⟨setting, hsetting, rfl⟩, hget⟩
    exact ⟨setting, hsetting, value, hget, rfl, rfl⟩

theorem lookup_presentSettings {payload : JobPayload} {settings : List (String × SettingDomain)}
    {name : String} {value : JsonValue} :
    (Dict.update Table.empty (presentSettings payload settings)).lookup name = some value ↔
      name ∈ settings.map Prod.fst ∧ payload.get? name = some value := by
  constructor
  · intro h
    have hrow := Dict.mem_of_mem_ofPairs (Dict.lookup_eq_some_iff.mp h)
    exact mem_presentSettings.mp hrow
  · intro h
    have hkey := (Dict.keys_ofPairs _ name).mpr
      (List.mem_map_of_mem (mem_presentSettings.mpr h))
    obtain ⟨value', hvalue'⟩ := Option.isSome_iff_exists.mp (Dict.isSome_lookup_iff.mpr hkey)
    have hrow := Dict.mem_of_mem_ofPairs (Dict.lookup_eq_some_iff.mp hvalue')
    have hget := (mem_presentSettings.mp hrow).2
    rw [h.2, Option.some_inj] at hget
    rw [hget]
    exact hvalue'

/-- The object under `inputs`, as the gate reads it. -/
def BoundAdmitted (stage : EngineStage) (lease : LeaseGrant) (bound : List (String × JsonValue)) :
    Prop :=
  (∀ row ∈ bound, row.1 ∈ stage.inputs) ∧
    (∀ name ∈ stage.requiredInputs, (bound.lookup name).isSome) ∧
    (∀ row ∈ bound, ∃ key ∈ lease.inputKeys, row.2 = .str key) ∧
    ∀ key ∈ lease.inputKeys, ∃ row ∈ bound, row.2 = .str key

/-- What the gate checks of a lease. -/
structure Admits (stage : EngineStage) (lease : LeaseGrant) : Prop where
  version : lease.contractVersion = engineContractVersion
  keys : ∀ member ∈ lease.payload.members,
    member.1 ∈ stage.settings.map Prod.fst ∨ member.1 = inputsPayloadKey
  bound : ∃ bound, (lease.payload.get? inputsPayloadKey).getD (.dict []) = .dict bound ∧
    BoundAdmitted stage lease bound
  settings : SettingsAdmitted stage.settings lease.payload
  required : ∀ name ∈ stage.requiredSettings, Carries stage lease.payload name
  oneOf : stage.oneOfSettings = [] ∨
    (stage.oneOfSettings.countP fun name => Carries stage lease.payload name) = 1

theorem boundInputs_ok_iff {stage : EngineStage} {lease : LeaseGrant}
    {bound : List (String × JsonValue)} :
    boundInputs stage lease = .ok bound ↔
      (lease.payload.get? inputsPayloadKey).getD (.dict []) = .dict bound ∧
        BoundAdmitted stage lease bound := by
  rw [boundInputs]
  cases (lease.payload.get? inputsPayloadKey).getD (.dict []) with
  | dict rows =>
      simp only [check_bind_ok_iff, rejectUnless_eq_ok, forM_ok_iff, pure_ok_iff, List.all_eq_true,
        decide_eq_true_eq, LeaseGrant.grants_iff, List.any_eq_true, isText_iff, BoundAdmitted,
        JsonValue.dict.injEq]
      constructor
      · rintro ⟨hnames, hrequired, hgranted, hbound, rfl⟩
        exact ⟨rfl, hnames, hrequired, hgranted, hbound⟩
      · rintro ⟨rfl, hnames, hrequired, hgranted, hbound⟩
        exact ⟨hnames, hrequired, hgranted, hbound, rfl⟩
  | _ => simp [throw, throwThe, MonadExceptOf.throw]

theorem isSome_lookup_presentSettings (stage : EngineStage) (payload : JobPayload) (name : String) :
    ((Dict.update Table.empty (presentSettings payload stage.settings)).lookup name).isSome =
      decide (Carries stage payload name) := by
  rw [Bool.eq_iff_iff, decide_eq_true_iff]
  simp only [Option.isSome_iff_exists, lookup_presentSettings, Carries, exists_and_left]

/-- The inputs of an accepted request, before the bound keys are put in. -/
theorem validateStage_ok_iff {stage : EngineStage} {lease : LeaseGrant} {request : ValidatedRequest} :
    validateStage stage lease = .ok request ↔
      Admits stage lease ∧ ∃ bound,
        (lease.payload.get? inputsPayloadKey).getD (.dict []) = .dict bound ∧
        let inputs := Dict.update Table.empty (presentSettings lease.payload stage.settings)
        request =
          { capabilityId := lease.capabilityId, contractVersion := lease.contractVersion,
            inputs := inputs.put (inputsPayloadKey, .dict bound),
            seed := seedOf (inputs.lookup "seed") } := by
  simp only [validateStage, bind_ok_iff, exists_unit_iff, rejectUnless_eq_ok, boundInputs_ok_iff,
    settings_ok_iff, forM_ok_iff, pure_ok_iff, decide_eq_true_eq, List.all_eq_true, Bool.or_eq_true]
  constructor
  · rintro ⟨hversion, hkeys, bound, ⟨hget, hbound⟩, inputs, ⟨hsettings, rfl⟩, hrequired, hone, rfl⟩
    simp only [isSome_lookup_presentSettings, decide_eq_true_eq] at hrequired hone
    exact ⟨⟨hversion, hkeys, ⟨bound, hget, hbound⟩, hsettings, hrequired, hone⟩, bound, hget, rfl⟩
  · rintro ⟨⟨hversion, hkeys, hbound, hsettings, hrequired, hone⟩, bound, hget, rfl⟩
    obtain ⟨bound', hget', hadmitted⟩ := hbound
    obtain rfl : bound = bound' := by simpa [hget] using hget'
    refine ⟨hversion, hkeys, bound, ⟨hget, hadmitted⟩, _, ⟨hsettings, rfl⟩, ?_⟩
    simp only [isSome_lookup_presentSettings, decide_eq_true_eq]
    exact ⟨hrequired, hone, trivial⟩

theorem succeeds_validateStage_iff {stage : EngineStage} {lease : LeaseGrant} :
    Succeeds (validateStage stage lease) ↔ Admits stage lease := by
  constructor
  · rintro ⟨request, hrequest⟩
    exact (validateStage_ok_iff.mp hrequest).1
  · intro h
    obtain ⟨bound, hget, -⟩ := h.bound
    exact ⟨_, validateStage_ok_iff.mpr ⟨h, bound, hget, rfl⟩⟩

theorem raises_validateStage (stage : EngineStage) (lease : LeaseGrant) :
    Raises AgentExc.IsRejection (validateStage stage lease) := by
  have hcheck := raises_rejectUnless
  have hbound : Raises AgentExc.IsRejection (boundInputs stage lease) := by
    rw [boundInputs]
    cases (lease.payload.get? inputsPayloadKey).getD (.dict []) with
    | dict rows =>
        exact (hcheck ..).bind fun _ _ => (raises_forM fun _ _ => hcheck ..).bind fun _ _ =>
          (raises_forM fun _ _ => hcheck ..).bind fun _ _ => (hcheck ..).bind fun _ _ =>
            raises_pure _
    | _ => exact trivial
  have hsetting : ∀ inputs setting,
      Raises AgentExc.IsRejection (setSetting lease.payload inputs setting) := by
    intro inputs setting
    rw [setSetting]
    cases lease.payload.get? setting.1 with
    | none => exact raises_pure _
    | some value =>
        refine Raises.bind ?_ fun _ _ => raises_pure _
        cases setting.2 <;> exact (hcheck ..).bind fun _ _ => raises_pure _
  exact (hcheck ..).bind fun _ _ => (hcheck ..).bind fun _ _ => hbound.bind fun _ _ =>
    (raises_foldlM (fun _ _ _ => hsetting ..) _).bind fun _ _ =>
      (raises_forM fun _ _ => hcheck ..).bind fun _ _ => (hcheck ..).bind fun _ _ => raises_pure _

/-! ### What the schema describes -/

theorem conforms_settingSchema {domain : SettingDomain} {value : JsonValue} :
    conforms (settingSchema domain) value ↔ domain.Documents value := by
  cases domain with
  | choices allowed =>
      rw [settingSchema, conforms_enum]
      cases allowed <;> cases value <;>
        simp [SettingChoices.values, SettingDomain.Documents, JsonValue.sameJson]
  | range minimum maximum => exact conforms_integerBetween

theorem admits_choices_iff {allowed : SettingChoices} {value : JsonValue} :
    (SettingDomain.choices allowed).admits value ↔
      (∀ b, value ≠ .bool b) ∧ ∃ choice ∈ allowed.values, choice.pyEq value := by
  cases value <;> simp [SettingDomain.admits]

/-- The gate admits what a setting documents, and floats. -/
theorem documents_iff {domain : SettingDomain} {value : JsonValue} :
    domain.Documents value ↔ domain.admits value ∧ ∀ f, value ≠ .float f := by
  cases domain with
  | choices allowed =>
      rw [admits_choices_iff]
      cases allowed with
      | integers values =>
          constructor
          · rintro ⟨n, hn, rfl⟩
            refine ⟨⟨by simp, .int n, List.mem_map_of_mem hn, ?_⟩, by simp⟩
            exact (JsonValue.int_pyEq_iff (by simp) (by simp)).mpr rfl
          · rintro ⟨⟨hbool, choice, hchoice, heq⟩, hfloat⟩
            obtain ⟨n, hn, rfl⟩ := List.mem_map.mp hchoice
            exact ⟨n, hn, (JsonValue.int_pyEq_iff hbool hfloat).mp heq⟩
      | strings values =>
          constructor
          · rintro ⟨text, htext, rfl⟩
            exact ⟨⟨by simp, .str text, List.mem_map_of_mem htext, JsonValue.str_pyEq_iff.mpr rfl⟩, by simp⟩
          · rintro ⟨⟨-, choice, hchoice, heq⟩, -⟩
            obtain ⟨text, htext, rfl⟩ := List.mem_map.mp hchoice
            exact ⟨text, htext, JsonValue.str_pyEq_iff.mp heq⟩
  | range minimum maximum =>
      cases value <;> simp [SettingDomain.Documents, SettingDomain.admits]

/-- An object under `inputs` of the published shape. -/
def InputsDescribed (stage : EngineStage) (bound : List (String × JsonValue)) : Prop :=
  (∀ row ∈ bound, row.1 ∈ stage.inputs) ∧ (∀ row ∈ bound, ∃ text, row.2 = .str text) ∧
    ∀ name ∈ stage.requiredInputs, (bound.lookup name).isSome

theorem conforms_inputsSchema {stage : EngineStage} {value : JsonValue} (hform : value.wellFormed) :
    conforms stage.inputsSchema value ↔ ∃ bound, value = .dict bound ∧ InputsDescribed stage bound :=
  conforms_textMap hform

/-- The declared properties, with the schema of `inputs` or of a setting of the name. -/
theorem mem_properties {stage : EngineStage} {property : String × JsonValue}
    (h : property ∈ stage.properties.rows) :
    property = (inputsPayloadKey, stage.inputsSchema) ∨
      ∃ setting ∈ stage.settings, property = (setting.1, settingSchema setting.2) := by
  rcases List.mem_cons.mp (Dict.mem_of_mem_ofPairs h) with heq | hmem
  · exact Or.inl heq
  · obtain ⟨setting, hsetting, rfl⟩ := List.mem_map.mp hmem
    exact Or.inr ⟨setting, hsetting, rfl⟩

theorem propertyNames_iff {stage : EngineStage} {name : String} :
    name ∈ stage.properties.rows.map Prod.fst ↔
      name ∈ stage.settings.map Prod.fst ∨ name = inputsPayloadKey := by
  rw [EngineStage.properties, Dict.keys_ofPairs, List.map_cons, List.mem_cons, List.map_map, or_comm]
  rfl

/-- No setting takes the place of `inputs`. -/
theorem inputs_mem_properties {stage : EngineStage}
    (h : inputsPayloadKey ∉ stage.settings.map Prod.fst) :
    (inputsPayloadKey, stage.inputsSchema) ∈ stage.properties.rows := by
  have hnot : inputsPayloadKey ∉
      (stage.settings.map fun setting => (setting.1, settingSchema setting.2)).map Prod.fst := by
    rw [List.map_map]
    exact h
  have hlookup : stage.properties.lookup inputsPayloadKey = some stage.inputsSchema := by
    rw [EngineStage.properties, Dict.ofPairs, Dict.update, List.foldl_cons, ← Dict.update,
      Dict.lookup_update_of_notMem hnot]
    rfl
  exact Dict.lookup_eq_some_iff.mp hlookup

/-- What a payload must be to conform, with the properties left as they are declared. -/
theorem conforms_inputSchema {stage : EngineStage} {payload : JobPayload} :
    conforms stage.inputSchema payload.value ↔
      (∀ member ∈ payload.members,
        member.1 ∈ stage.settings.map Prod.fst ∨ member.1 = inputsPayloadKey) ∧
      (∀ property ∈ stage.properties.rows, ∀ member, payload.get? property.1 = some member →
        conforms property.2 member) ∧
      (payload.get? inputsPayloadKey).isSome ∧
      (∀ name ∈ stage.requiredSettings, (payload.get? name).isSome) ∧
      (stage.oneOfSettings = [] ∨
        (stage.oneOfSettings.countP fun name => (payload.get? name).isSome) = 1) := by
  have hone : (∀ row ∈ stage.oneOfSchema,
      keywordHolds (stage.properties.rows.map Prod.fst) row.1 row.2 payload.value) ↔
      stage.oneOfSettings = [] ∨
        (stage.oneOfSettings.countP fun name => (payload.get? name).isSome) = 1 := by
    rw [EngineStage.oneOfSchema]
    split_ifs with hnil
    · exact ⟨fun _ => Or.inl hnil, fun _ row hrow => (by cases hrow)⟩
    · rw [List.forall_mem_singleton, keywordHolds_oneOf, decide_eq_true_iff,
        conformingCount_eq_countP, List.countP_map, or_iff_right hnil]
      have hsame : ((fun schema => conforms schema payload.value) ∘ fun name =>
          JsonValue.dict [("required", .list [.str name])]) =
          fun name => (payload.get? name).isSome := by
        funext name
        exact Bool.eq_iff_iff.mpr conforms_required
      rw [hsame]
  rw [EngineStage.inputSchema, conforms_closedObject_append, ← hone]
  simp only [propertyNames_iff, List.forall_mem_cons, Option.isSome_iff_exists, JsonObject.value,
    JsonValue.dict.injEq, exists_eq_left', JsonObject.get?]
  tauto

/-! ### The gate against the schema -/

theorem Admits.inputs_eq {stage : EngineStage} {lease : LeaseGrant} (h : Admits stage lease)
    {value : JsonValue} (hget : lease.payload.get? inputsPayloadKey = some value) :
    ∃ bound, value = .dict bound ∧ BoundAdmitted stage lease bound := by
  obtain ⟨bound, hbound, hadmitted⟩ := h.bound
  rw [hget, Option.getD_some] at hbound
  exact ⟨bound, hbound, hadmitted⟩

/-- A setting of the name `inputs` would have to admit an object. -/
theorem Admits.inputs_notMem {stage : EngineStage} {lease : LeaseGrant} (h : Admits stage lease)
    (hpresent : (lease.payload.get? inputsPayloadKey).isSome) :
    inputsPayloadKey ∉ stage.settings.map Prod.fst := by
  intro hmem
  obtain ⟨setting, hsetting, hname⟩ := List.mem_map.mp hmem
  obtain ⟨value, hget⟩ := Option.isSome_iff_exists.mp hpresent
  obtain ⟨bound, rfl, -⟩ := h.inputs_eq hget
  have hadmits := h.settings setting hsetting _ (hname ▸ hget)
  have hdocuments : setting.2.Documents (.dict bound) :=
    documents_iff.mpr ⟨hadmits, fun _ => by simp⟩
  revert hdocuments
  rcases setting.2 with (values | values) | ⟨minimum, maximum⟩ <;>
    simp [SettingDomain.Documents]

theorem carries_iff {stage : EngineStage} {payload : JobPayload} {name : String}
    (hkeys : ∀ member ∈ payload.members,
      member.1 ∈ stage.settings.map Prod.fst ∨ member.1 = inputsPayloadKey)
    (hne : name ≠ inputsPayloadKey) :
    Carries stage payload name ↔ (payload.get? name).isSome := by
  refine ⟨And.right, fun hsome => ⟨?_, hsome⟩⟩
  obtain ⟨value, hget⟩ := Option.isSome_iff_exists.mp hsome
  exact (hkeys _ (JsonValue.mem_of_lookup hget)).resolve_right hne

theorem countP_carries {stage : EngineStage} {payload : JobPayload}
    (hkeys : ∀ member ∈ payload.members,
      member.1 ∈ stage.settings.map Prod.fst ∨ member.1 = inputsPayloadKey)
    {names : List String} (hnames : inputsPayloadKey ∉ names) :
    (names.countP fun name => Carries stage payload name) =
      names.countP fun name => (payload.get? name).isSome := by
  apply List.countP_congr
  intro name hname
  rw [decide_eq_true_iff]
  exact carries_iff hkeys fun heq => hnames (heq ▸ hname)

/-- The object of an admitted lease is described, and the other way round. -/
theorem boundAdmitted_iff {stage : EngineStage} {lease : LeaseGrant}
    {bound : List (String × JsonValue)}
    (hget : lease.payload.get? inputsPayloadKey = some (.dict bound)) :
    BoundAdmitted stage lease bound ↔
      InputsDescribed stage bound ∧ (∀ key, BindsInput lease.payload key → key ∈ lease.inputKeys) ∧
        ∀ key ∈ lease.inputKeys, BindsInput lease.payload key := by
  have hbinds : ∀ key, BindsInput lease.payload key ↔ ∃ row ∈ bound, row.2 = .str key := by
    intro key
    constructor
    · rintro ⟨bound', name, hget', hrow⟩
      rw [hget] at hget'
      cases hget'
      exact ⟨_, hrow, rfl⟩
    · rintro ⟨⟨name, value⟩, hrow, rfl⟩
      exact ⟨bound, name, hget, hrow⟩
  simp only [hbinds]
  constructor
  · rintro ⟨hnames, hrequired, hgranted, hbound⟩
    refine ⟨⟨hnames, fun row hrow => ?_, hrequired⟩, ?_, hbound⟩
    · obtain ⟨key, -, heq⟩ := hgranted row hrow
      exact ⟨key, heq⟩
    · rintro key ⟨row, hrow, heq⟩
      obtain ⟨key', hkey', heq'⟩ := hgranted row hrow
      rw [heq, JsonValue.str.injEq] at heq'
      exact heq' ▸ hkey'
  · rintro ⟨⟨hnames, htexts, hrequired⟩, hgranted, hbound⟩
    refine ⟨hnames, hrequired, fun row hrow => ?_, hbound⟩
    obtain ⟨text, heq⟩ := htexts row hrow
    exact ⟨text, hgranted text ⟨row, hrow, heq⟩, heq⟩

theorem Admits.published {stage : EngineStage} {lease : LeaseGrant} (h : Admits stage lease)
    (hpresent : (lease.payload.get? inputsPayloadKey).isSome)
    (hfloat : ∀ setting ∈ stage.settings, ∀ f, lease.payload.get? setting.1 ≠ some (.float f))
    (honeOf : inputsPayloadKey ∉ stage.oneOfSettings) : Published stage lease := by
  obtain ⟨value, hget⟩ := Option.isSome_iff_exists.mp hpresent
  obtain ⟨bound, rfl, hbound⟩ := h.inputs_eq hget
  obtain ⟨hdescribed, hgranted, hall⟩ := (boundAdmitted_iff hget).mp hbound
  refine ⟨h.version, ?_, hgranted, hall⟩
  refine conforms_inputSchema.mpr ⟨h.keys, ?_, hpresent, fun name hname => (h.required name hname).2,
    ?_⟩
  · intro property hproperty member hmember
    rcases mem_properties hproperty with rfl | ⟨setting, hsetting, rfl⟩
    · rw [hget, Option.some_inj] at hmember
      subst hmember
      exact (conforms_inputsSchema (JsonObject.wellFormed_of_get? hget)).mpr ⟨bound, rfl, hdescribed⟩
    · refine conforms_settingSchema.mpr (documents_iff.mpr ⟨h.settings setting hsetting _ hmember, ?_⟩)
      rintro f rfl
      exact hfloat setting hsetting f hmember
  · rw [← countP_carries h.keys honeOf]
    exact h.oneOf

theorem Published.admits {stage : EngineStage} {lease : LeaseGrant} (h : Published stage lease)
    (hsetting : inputsPayloadKey ∉ stage.settings.map Prod.fst)
    (hrequired : inputsPayloadKey ∉ stage.requiredSettings)
    (honeOf : inputsPayloadKey ∉ stage.oneOfSettings)
    (hadmitted : SettingsAdmitted stage.settings lease.payload) : Admits stage lease := by
  obtain ⟨hkeys, hproperties, hpresent, hcarried, hone⟩ := conforms_inputSchema.mp h.conforms
  obtain ⟨value, hget⟩ := Option.isSome_iff_exists.mp hpresent
  obtain ⟨bound, rfl, hdescribed⟩ := (conforms_inputsSchema (JsonObject.wellFormed_of_get? hget)).mp
    (hproperties _ (inputs_mem_properties hsetting) _ hget)
  refine ⟨h.version, hkeys, ⟨bound, ?_, ?_⟩, hadmitted, fun name hname => ?_, ?_⟩
  · rw [hget, Option.getD_some]
  · exact (boundAdmitted_iff hget).mpr ⟨hdescribed, h.granted, h.bound⟩
  · exact (carries_iff hkeys fun heq => hrequired (heq ▸ hname)).mpr (hcarried name hname)
  · rw [countP_carries hkeys honeOf]
    exact hone

/-- `inputs` would be counted by the schema and not by the gate. -/
theorem Admits.inputs_notOneOf {stage : EngineStage} {lease : LeaseGrant} (h : Admits stage lease)
    (hpublished : Published stage lease) : inputsPayloadKey ∉ stage.oneOfSettings := by
  intro hmem
  obtain ⟨hkeys, -, hpresent, -, hone⟩ := conforms_inputSchema.mp hpublished.conforms
  have hne : stage.oneOfSettings ≠ [] := List.ne_nil_of_mem hmem
  have hcarried := h.oneOf.resolve_left hne
  have hcounted := hone.resolve_left hne
  have hapart : ¬ Carries stage lease.payload inputsPayloadKey :=
    fun hcarries => h.inputs_notMem hpresent hcarries.1
  have hsplit := List.countP_eq_countP_filter_add stage.oneOfSettings
    (fun name => (lease.payload.get? name).isSome) fun name => Carries stage lease.payload name
  have hfirst : (stage.oneOfSettings.filter fun name => Carries stage lease.payload name).countP
      (fun name => (lease.payload.get? name).isSome) = 1 := by
    rw [List.countP_eq_length.mpr, ← List.countP_eq_length_filter, hcarried]
    intro name hname
    exact (of_decide_eq_true (List.mem_filter.mp hname).2).2
  have hsecond : 0 < (stage.oneOfSettings.filter fun name =>
      !decide (Carries stage lease.payload name)).countP fun name =>
        (lease.payload.get? name).isSome := by
    apply List.countP_pos_iff.mpr
    exact ⟨_, List.mem_filter.mpr ⟨hmem, by simpa using hapart⟩, hpresent⟩
  omega

/-- The plugin accepts exactly what the stage publishes, with the tokens its settings document, and
rejects the rest. -/
def AcceptsPublished (recipe : EngineRecipe) (stage : EngineStage) (lease : LeaseGrant) : Prop :=
  (Succeeds (validate recipe lease) ↔ Published stage lease) ∧
    (∀ request, validate recipe lease = .ok request → ∀ setting ∈ stage.settings, ∀ value,
      request.inputs.lookup setting.1 = some value → setting.2.Documents value) ∧
    Raises AgentExc.IsRejection (validate recipe lease)

theorem validate_eq {recipe : EngineRecipe} {stage : EngineStage} {lease : LeaseGrant}
    (hstage : recipe.stageFor lease.capabilityId = some stage) :
    validate recipe lease = validateStage stage lease := by
  rw [validate, hstage]

/-- A setting of an accepted request has the value of the payload. -/
theorem request_lookup {stage : EngineStage} {lease : LeaseGrant} {request : ValidatedRequest}
    (hrequest : validateStage stage lease = .ok request) {name : String} {value : JsonValue}
    (hne : name ≠ inputsPayloadKey) :
    request.inputs.lookup name = some value ↔
      name ∈ stage.settings.map Prod.fst ∧ lease.payload.get? name = some value := by
  obtain ⟨-, bound, -, rfl⟩ := validateStage_ok_iff.mp hrequest
  rw [Dict.lookup_put_of_ne _ _ (Ne.symm hne), lookup_presentSettings]

/-- The gate and the schema agree on a lease as long as the payload carries `inputs` and no float
for a setting, and the stage keeps the name `inputs` for the map of its inputs. -/
theorem accepts_published_iff {recipe : EngineRecipe} {stage : EngineStage} {lease : LeaseGrant}
    (hstage : recipe.stageFor lease.capabilityId = some stage) :
    AcceptsPublished recipe stage lease ↔
      (Admits stage lease →
        (lease.payload.get? inputsPayloadKey).isSome ∧
          (∀ setting ∈ stage.settings, ∀ f, lease.payload.get? setting.1 ≠ some (.float f)) ∧
          inputsPayloadKey ∉ stage.oneOfSettings) ∧
      (Published stage lease →
        inputsPayloadKey ∉ stage.settings.map Prod.fst ∧
          inputsPayloadKey ∉ stage.requiredSettings ∧ inputsPayloadKey ∉ stage.oneOfSettings ∧
          SettingsAdmitted stage.settings lease.payload) := by
  rw [AcceptsPublished, validate_eq hstage, succeeds_validateStage_iff]
  constructor
  · rintro ⟨hiff, htokens, -⟩
    have hpresent : Admits stage lease → (lease.payload.get? inputsPayloadKey).isSome :=
      fun hadmits => (conforms_inputSchema.mp (hiff.mp hadmits).conforms).2.2.1
    refine ⟨fun hadmits => ⟨hpresent hadmits, ?_, hadmits.inputs_notOneOf (hiff.mp hadmits)⟩,
      fun hpublished => ?_⟩
    · intro setting hsetting f hget
      obtain ⟨request, hrequest⟩ := succeeds_validateStage_iff.mpr hadmits
      have hmem : setting.1 ∈ stage.settings.map Prod.fst := List.mem_map_of_mem hsetting
      have hne : setting.1 ≠ inputsPayloadKey :=
        fun heq => hadmits.inputs_notMem (hpresent hadmits) (heq ▸ hmem)
      have hlookup := (request_lookup hrequest hne).mpr ⟨hmem, hget⟩
      exact (documents_iff.mp (htokens request hrequest setting hsetting _ hlookup)).2 f rfl
    · have hadmits := hiff.mpr hpublished
      have hnot := hadmits.inputs_notMem (hpresent hadmits)
      exact ⟨hnot, fun hmem => hnot (hadmits.required _ hmem).1,
        hadmits.inputs_notOneOf hpublished, hadmits.settings⟩
  · rintro ⟨hgate, hschema⟩
    refine ⟨⟨fun hadmits => ?_, fun hpublished => ?_⟩, ?_, raises_validateStage stage lease⟩
    · obtain ⟨hpresent, hfloat, honeOf⟩ := hgate hadmits
      exact hadmits.published hpresent hfloat honeOf
    · obtain ⟨hsetting, hrequired, honeOf, hadmitted⟩ := hschema hpublished
      exact hpublished.admits hsetting hrequired honeOf hadmitted
    · intro request hrequest setting hsetting value hlookup
      have hadmits := succeeds_validateStage_iff.mp ⟨request, hrequest⟩
      obtain ⟨hpresent, hfloat, -⟩ := hgate hadmits
      have hmem : setting.1 ∈ stage.settings.map Prod.fst := List.mem_map_of_mem hsetting
      have hne : setting.1 ≠ inputsPayloadKey :=
        fun heq => hadmits.inputs_notMem hpresent (heq ▸ hmem)
      have hget := ((request_lookup hrequest hne).mp hlookup).2
      refine documents_iff.mpr ⟨hadmits.settings setting hsetting value hget, ?_⟩
      rintro f rfl
      exact hfloat setting hsetting f hget

/-- A lease of a mesh job with one input, at a resolution. -/
def meshLease (resolution : JsonValue) (hform : resolution.wellFormed) : LeaseGrant where
  jobId := "job"
  claimToken := "token"
  leaseUntil := 0
  executionDeadlineSeconds := 600
  capabilityId := mesh3dMeshStage.capabilityId
  contractVersion := engineContractVersion
  requestDigest := ""
  idempotencyKey := "key"
  inputKeys := ["inputs/front.png"]
  outputKey := "outputs/mesh.glb"
  payload :=
    ⟨[("inputs", .dict [("front", .str "inputs/front.png")]), ("resolution", resolution),
      ("seed", .int 7)], by
        rw [JsonValue.wellFormed_dict]
        simpa [JsonValue.wellFormed, JsonValue.wellFormedMembers] using hform⟩
  inputGrants := []
  outputGrant := ⟨"outputs/mesh.glb", "", "PUT", 0, none⟩

/-- The float `1024.0`. -/
def float1024 : Float64 := ⟨0x4090000000000000⟩

theorem accepts_published_small :
    AcceptsPublished mesh3dRecipe mesh3dMeshStage (meshLease (.int 1024) rfl) := by
  refine (accepts_published_iff rfl).mpr ⟨fun _ => ⟨rfl, ?_, by decide⟩, fun _ => ⟨by decide,
    by decide, by decide, ?_⟩⟩
  · intro setting hsetting f hget
    rcases List.mem_pair.mp hsetting with rfl | rfl <;> cases hget
  · intro setting hsetting value hget
    rcases List.mem_pair.mp hsetting with rfl | rfl <;> cases hget <;> rfl

/-- Python holds `1024.0` equal to the choice `1024`, and the accepted request carries the float. -/
theorem float_choice_accepted :
    ¬ AcceptsPublished mesh3dRecipe mesh3dMeshStage (meshLease (.float float1024) rfl) := by
  rintro ⟨-, htokens, -⟩
  have haccepted : validate mesh3dRecipe (meshLease (.float float1024) rfl) = .ok _ := rfl
  have hresolution : "resolution" ≠ inputsPayloadKey := by decide
  have hlookup := (request_lookup haccepted hresolution).mpr ⟨by decide, rfl⟩
  exact (documents_iff.mp (htokens _ haccepted _ List.mem_cons_self _ hlookup)).2 float1024 rfl

end GpuWorkerPool
