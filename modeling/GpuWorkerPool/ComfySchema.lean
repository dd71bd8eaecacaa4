import GpuWorkerPool.Base.JsonEncoding
import GpuWorkerPool.ComfyTemplates

/-!
A template publishes a schema and the plugin gates its leases by other code. On a validated template
the names of the allowlist are apart, and then both accept the same leases.
-/

namespace GpuWorkerPool

open Base JsonSchema ComfyWorkflowPlugin
/-! ### One input -/

theorem boundKeyword_hold_iff {declared : List String} {keyword : String}
    {bound : Option JsonNumber} {value : JsonValue} :
    (∀ row ∈ boundKeyword keyword bound, keywordHolds declared row.1 row.2 value) ↔
      ∀ b, bound = some b → keywordHolds declared keyword b.value value := by
  cases bound <;> simp [boundKeyword]

theorem isBelow_eq_false_iff {value : JsonValue} {minimum : Option JsonNumber} :
    isBelow value minimum = false ↔ ∀ b, minimum = some b → value.numberLess b.value = false := by
  cases minimum <;> simp [isBelow]

theorem isAbove_eq_false_iff {value : JsonValue} {maximum : Option JsonNumber} :
    isAbove value maximum = false ↔ ∀ b, maximum = some b → b.value.numberLess value = false := by
  cases maximum <;> simp [isAbove]

/-- A value of the declared kind and within the declared bounds. -/
def TemplateInput.Describes (entry : TemplateInput) (value : JsonValue) : Prop :=
  typeMatches entry.kind value ∧
    if entry.kind = "string" then
      ∀ length, textLength? value = some length →
        isBelow length entry.minimum = false ∧ isAbove length (entry.maxLength.map .int) = false
    else
      ∀ number, numberOf? value = some number →
        isBelow number entry.minimum = false ∧ isAbove number entry.maximum = false

theorem conforms_schema {entry : TemplateInput} {value : JsonValue} :
    conforms entry.schema value ↔ entry.Describes value := by
  have hbound (keyword : String) (b : JsonNumber) (declared : List String) :
      keywordHolds declared keyword b.value value = assertionHolds keyword b.value value := by
    cases b <;> simp [JsonNumber.value, keywordHolds]
  have htype (declared : List String) :
      keywordHolds declared "type" (.str entry.kind) value = typeMatches entry.kind value := by
    simp [keywordHolds, assertionHolds]
  rw [TemplateInput.schema, conforms, keywordsHold_iff, List.forall_mem_cons, htype,
    TemplateInput.Describes]
  apply and_congr_right
  intro _
  split_ifs with hkind
  · rw [List.forall_mem_append, boundKeyword_hold_iff, boundKeyword_hold_iff]
    simp only [hbound, assertionHolds]
    cases textLength? value with
    | none => simp
    | some length => simp [isBelow_eq_false_iff, isAbove_eq_false_iff]
  · rw [List.forall_mem_append, boundKeyword_hold_iff, boundKeyword_hold_iff]
    simp only [hbound, assertionHolds]
    cases numberOf? value with
    | none => simp
    | some number => simp [isBelow_eq_false_iff, isAbove_eq_false_iff]

theorem checkedString_ok_iff {entry : TemplateInput} {value result : JsonValue} :
    checkedString entry value = .ok result ↔
      (∃ text : String, value = .str text ∧ isBelow (.int text.length) entry.minimum = false ∧
        isAbove (.int text.length) (entry.maxLength.map .int) = false) ∧ value = result := by
  cases value with
  | str text =>
      rw [checkedString, check_bind_ok_iff, rejectUnless_eq_ok, pure_ok_iff, Bool.not_eq_true',
        Bool.or_eq_false_iff]
      simp
  | _ => simp [checkedString, throw, throwThe, MonadExceptOf.throw]

theorem checkedNumber_ok_iff {entry : TemplateInput} {value result : JsonValue} :
    checkedNumber entry value = .ok result ↔
      (if entry.kind = "integer" then isInteger value else isNumber value) = true ∧
        (isBelow value entry.minimum = false ∧ isAbove value entry.maximum = false) ∧
          value = result := by
  rw [checkedNumber, check_bind_ok_iff, check_bind_ok_iff, rejectUnless_eq_ok, rejectUnless_eq_ok,
    pure_ok_iff, Bool.not_eq_true', Bool.or_eq_false_iff]

theorem checkedValue_ok_iff {entry : TemplateInput} (hkind : entry.kind ∈ inputKinds)
    {value result : JsonValue} :
    checkedValue entry value = .ok result ↔ entry.Describes value ∧ value = result := by
  simp only [inputKinds, List.mem_cons, List.not_mem_nil, or_false] at hkind
  rw [checkedValue, TemplateInput.Describes]
  rcases hkind with hkind | hkind | hkind | hkind
  · rw [hkind, if_neg (by decide), if_pos rfl, if_pos rfl, checkedString_ok_iff]
    cases value <;> simp [typeMatches, textLength?]
  · rw [hkind, if_neg (by decide), if_neg (by decide), if_neg (by decide), checkedNumber_ok_iff,
      hkind, if_pos rfl]
    cases value <;> simp [isInteger, typeMatches, numberOf?]
  · rw [hkind, if_neg (by decide), if_neg (by decide), if_neg (by decide), checkedNumber_ok_iff,
      hkind, if_neg (by decide)]
    cases value <;> simp [isNumber, typeMatches, numberOf?, and_assoc]
  · rw [hkind, if_pos rfl, if_neg (by decide), check_bind_ok_iff, rejectUnless_eq_ok, pure_ok_iff]
    cases value <;> simp [isBoolean, typeMatches, numberOf?]

/-! ### What the gate lets through -/

/-- What a request holds for a declared input: the value of the job, or else the default. -/
def filledInput (payload : JobPayload) (entry : TemplateInput) : Option JsonValue :=
  match payload.get? entry.name with
  | some value => some value
  | none => if isNull entry.default then none else some entry.default

def filledInputs (payload : JobPayload) (entries : List TemplateInput) : List (String × JsonValue) :=
  entries.filterMap fun entry => (filledInput payload entry).map (entry.name, ·)

/-- The job carries a described value for the input, or none and needs none. -/
structure InputAdmitted (payload : JobPayload) (entry : TemplateInput) : Prop where
  described : ∀ value, payload.get? entry.name = some value → entry.Describes value
  required : entry.required = true → (payload.get? entry.name).isSome

theorem setInput_ok_iff {payload : JobPayload} {inputs inputs' : Dict String JsonValue}
    {entry : TemplateInput} (hkind : entry.kind ∈ inputKinds) :
    setInput payload inputs entry = .ok inputs' ↔
      InputAdmitted payload entry ∧ inputs.update (filledInputs payload [entry]) = inputs' := by
  rw [setInput, filledInputs, List.filterMap_cons, List.filterMap_nil, filledInput]
  cases hget : payload.get? entry.name with
  | none =>
      rw [check_bind_ok_iff, rejectUnless_eq_ok, pure_ok_iff, Bool.not_eq_true']
      constructor
      · intro h
        obtain ⟨hrequired, hinputs⟩ := h
        refine ⟨⟨fun value hvalue => ?_, fun htrue => ?_⟩, ?_⟩
        · rw [hget] at hvalue
          cases hvalue
        · rw [hrequired] at htrue
          cases htrue
        · rw [← hinputs]
          split_ifs <;> rfl
      · intro h
        obtain ⟨hadmitted, hinputs⟩ := h
        refine ⟨?_, ?_⟩
        · by_contra htrue
          have hsome := hadmitted.required (Bool.not_eq_false _ ▸ htrue)
          rw [hget] at hsome
          cases hsome
        · rw [← hinputs]
          split_ifs <;> rfl
  | some value =>
      rw [bind_ok_iff]
      simp only [checkedValue_ok_iff hkind, pure_ok_iff]
      constructor
      · intro h
        obtain ⟨_, ⟨hdescribed, rfl⟩, hinputs⟩ := h
        refine ⟨⟨fun other hother => ?_, fun _ => by rw [hget]; rfl⟩, hinputs⟩
        rw [hget] at hother
        exact Option.some.inj hother ▸ hdescribed
      · intro h
        obtain ⟨hadmitted, hinputs⟩ := h
        exact ⟨value, ⟨hadmitted.described value hget, rfl⟩, hinputs⟩

theorem setInputs_ok_iff {payload : JobPayload} {entries : List TemplateInput}
    {inputs inputs' : Dict String JsonValue} (hkinds : ∀ entry ∈ entries, entry.kind ∈ inputKinds) :
    entries.foldlM (setInput payload) inputs = .ok inputs' ↔
      (∀ entry ∈ entries, InputAdmitted payload entry) ∧
        inputs.update (filledInputs payload entries) = inputs' := by
  induction entries generalizing inputs with
  | nil =>
      rw [List.foldlM_nil, pure_ok_iff]
      exact ⟨fun h => ⟨fun _ hmem => absurd hmem List.not_mem_nil, h⟩, And.right⟩
  | cons entry rest ih =>
      rw [List.forall_mem_cons] at hkinds
      have hfilled : filledInputs payload (entry :: rest) =
          filledInputs payload [entry] ++ filledInputs payload rest := by
        rw [filledInputs, ← List.singleton_append, List.filterMap_append]
        rfl
      rw [List.foldlM_cons, bind_ok_iff, hfilled, Dict.update, List.foldl_append]
      simp only [setInput_ok_iff hkinds.1, ih hkinds.2, List.forall_mem_cons]
      constructor
      · intro h
        obtain ⟨_, ⟨hfirst, rfl⟩, hrest, hinputs⟩ := h
        exact ⟨⟨hfirst, hrest⟩, hinputs⟩
      · intro h
        obtain ⟨⟨hfirst, hrest⟩, hinputs⟩ := h
        exact ⟨_, ⟨hfirst, rfl⟩, hrest, hinputs⟩

/-- The object under a media name, as the gate reads it. -/
def SlotsAdmitted (slots : List ImageSlot) (lease : LeaseGrant) (bound : List (String × JsonValue)) :
    Prop :=
  (∀ row ∈ bound, row.1 ∈ slots.map ImageSlot.name) ∧
    (∀ name ∈ requiredSlots slots, (bound.lookup name).isSome) ∧
    ∀ row ∈ bound, ∃ key ∈ lease.inputKeys, row.2 = .str key

theorem forall_requiredSlots {slots : List ImageSlot} {P : String → Prop} :
    (∀ name ∈ requiredSlots slots, P name) ↔
      ∀ slot ∈ slots, slot.required = true → P slot.name := by
  simp only [requiredSlots, List.mem_map, List.mem_filter]
  constructor
  · intro h slot hslot hrequired
    exact h _ ⟨slot, ⟨hslot, hrequired⟩, rfl⟩
  · intro h name hname
    obtain ⟨slot, ⟨hslot, hrequired⟩, rfl⟩ := hname
    exact h slot hslot hrequired

theorem boundSlots_ok_iff {kind payloadName : String} {slots : List ImageSlot} {lease : LeaseGrant}
    {bound : List (String × JsonValue)} :
    boundSlots kind slots payloadName lease = .ok bound ↔
      (lease.payload.get? payloadName).getD (.dict []) = .dict bound ∧
        SlotsAdmitted slots lease bound := by
  rw [boundSlots, SlotsAdmitted, forall_requiredSlots]
  cases (lease.payload.get? payloadName).getD (.dict []) with
  | dict rows =>
      simp only [check_bind_ok_iff, rejectUnless_eq_ok, forM_ok_iff, pure_ok_iff, List.all_eq_true,
        decide_eq_true_eq, LeaseGrant.grants_iff, JsonValue.dict.injEq, Bool.or_eq_true,
        Bool.not_eq_true', ← Bool.not_eq_true, ← imp_iff_not_or]
      constructor
      · intro h
        obtain ⟨hnames, hrequired, hgranted, rfl⟩ := h
        exact ⟨rfl, hnames, hrequired, hgranted⟩
      · intro h
        obtain ⟨rfl, hnames, hrequired, hgranted⟩ := h
        exact ⟨hnames, hrequired, hgranted, rfl⟩
  | _ => simp [throw, throwThe, MonadExceptOf.throw]

/-- `lease.payload.get(media_name, {})` -/
def mediaValue (lease : LeaseGrant) (mediaName : String) : JsonValue :=
  (lease.payload.get? mediaName).getD (.dict [])

/-- The slots of one kind are bound as the gate wants it. -/
def MediaAdmitted (slots : List ImageSlot) (lease : LeaseGrant) (mediaName : String) : Prop :=
  ∃ bound, mediaValue lease mediaName = .dict bound ∧ SlotsAdmitted slots lease bound

theorem bindSlots_ok_iff {kind mediaName : String} {slots : List ImageSlot} {lease : LeaseGrant}
    {inputs inputs' : Dict String JsonValue} :
    bindSlots kind slots mediaName lease inputs = .ok inputs' ↔
      MediaAdmitted slots lease mediaName ∧
        inputs.put (mediaName, mediaValue lease mediaName) = inputs' := by
  rw [bindSlots, bind_ok_iff]
  simp only [boundSlots_ok_iff, pure_ok_iff]
  constructor
  · intro h
    obtain ⟨bound, ⟨hvalue, hadmitted⟩, hinputs⟩ := h
    exact ⟨⟨bound, hvalue, hadmitted⟩, by rw [mediaValue, hvalue, hinputs]⟩
  · intro h
    obtain ⟨⟨bound, hvalue, hadmitted⟩, hinputs⟩ := h
    rw [hvalue] at hinputs
    exact ⟨bound, ⟨hvalue, hadmitted⟩, hinputs⟩

/-- The inputs of an accepted request. -/
def requestInputs (template : ComfyTemplate) (lease : LeaseGrant) : Dict String JsonValue :=
  .ofPairs (filledInputs lease.payload template.inputs ++
    template.mediaNames.map fun mediaName => (mediaName, mediaValue lease mediaName))

def acceptedRequest (template : ComfyTemplate) (lease : LeaseGrant) : ValidatedRequest :=
  { capabilityId := lease.capabilityId, contractVersion := lease.contractVersion,
    inputs := requestInputs template lease,
    seed := AISmithEnginePlugin.seedOf ((requestInputs template lease).lookup seedInputName) }

/-- A slot is bound to the key. -/
def BoundKey (template : ComfyTemplate) (lease : LeaseGrant) (key : String) : Prop :=
  ∃ mediaName ∈ template.mediaNames, ∃ bound name,
    mediaValue lease mediaName = .dict bound ∧ (name, .str key) ∈ bound

/-- What the gate checks of a lease. -/
structure LeaseAdmitted (template : ComfyTemplate) (lease : LeaseGrant) : Prop where
  version : lease.contractVersion = template.contractVersion
  keys : ∀ member ∈ lease.payload.members,
    member.1 ∈ template.inputs.map TemplateInput.name ∨ member.1 ∈ template.mediaNames
  inputs : ∀ entry ∈ template.inputs, InputAdmitted lease.payload entry
  media : ∀ mediaName ∈ template.mediaNames,
    MediaAdmitted (template.slotsOf mediaName) lease mediaName
  covered : ∀ key ∈ lease.inputKeys, BoundKey template lease key

theorem ValidTemplate.inputNames_nodup {template : ComfyTemplate} (h : ValidTemplate template) :
    (template.inputs.map TemplateInput.name).Nodup := by
  have hnodup := h.names_nodup
  rw [ComfyTemplate.entries, List.map_append, List.map_map, List.nodup_append] at hnodup
  exact hnodup.1

theorem ValidTemplate.declared_rows {template : ComfyTemplate} (h : ValidTemplate template) :
    template.declared.rows = template.inputs.map fun entry => (entry.name, entry) := by
  apply Dict.rows_ofPairs
  rw [List.map_map]
  exact h.inputNames_nodup

theorem ValidTemplate.declared_entries {template : ComfyTemplate} (h : ValidTemplate template) :
    template.declared.rows.map Prod.snd = template.inputs := by
  rw [h.declared_rows, List.map_map]
  exact List.map_id _

theorem audios_ne_images : audiosInputName ≠ imagesInputName := by decide

theorem mem_mediaNames {template : ComfyTemplate} {mediaName : String}
    (h : mediaName ∈ template.mediaNames) :
    mediaName = imagesInputName ∨ mediaName = audiosInputName := by
  rw [ComfyTemplate.mediaNames] at h
  split_ifs at h
  · exact Or.inl (List.mem_singleton.mp h)
  · exact List.mem_pair.mp h

/-- No input of a validated template has the name of a media map. -/
theorem ValidTemplate.name_notMem {template : ComfyTemplate} (h : ValidTemplate template)
    {entry : TemplateInput} (hentry : entry ∈ template.inputs) :
    entry.name ∉ template.mediaNames := by
  intro hmem
  have hfree := h.names_free (entry.name, entry.nodeId)
    (List.mem_append_left _ (List.mem_map.mpr ⟨entry, hentry, rfl⟩))
  rcases mem_mediaNames hmem with hname | hname
  · exact hfree.1 hname
  · exact hfree.2 hname

theorem mediaNames_nodup (template : ComfyTemplate) : template.mediaNames.Nodup := by
  rw [ComfyTemplate.mediaNames]
  split_ifs <;> decide

/-- The media names under their slots, bound one after the other. -/
theorem bindMedia_ok_iff {template : ComfyTemplate} {lease : LeaseGrant}
    {inputs inputs' : Dict String JsonValue} :
    (∃ images, bindSlots "image" template.imageSlots imagesInputName lease inputs = .ok images ∧
      bindAudios template lease images = .ok inputs') ↔
      (∀ mediaName ∈ template.mediaNames,
        MediaAdmitted (template.slotsOf mediaName) lease mediaName) ∧
        inputs.update (template.mediaNames.map fun mediaName =>
          (mediaName, mediaValue lease mediaName)) = inputs' := by
  have hslots : template.slotsOf audiosInputName = template.audioSlots := if_neg audios_ne_images
  simp only [bindSlots_ok_iff, bindAudios, ComfyTemplate.mediaNames]
  split_ifs with haudios
  · simp only [pure_ok_iff, List.forall_mem_singleton]
    constructor
    · intro h
      obtain ⟨_, ⟨himages, rfl⟩, hinputs⟩ := h
      exact ⟨himages, hinputs⟩
    · intro h
      exact ⟨_, ⟨h.1, rfl⟩, h.2⟩
  · simp only [bindSlots_ok_iff, List.forall_mem_cons, List.not_mem_nil, false_imp_iff,
      implies_true, and_true, hslots]
    constructor
    · intro h
      obtain ⟨_, ⟨himages, rfl⟩, haudios, hinputs⟩ := h
      exact ⟨⟨himages, haudios⟩, hinputs⟩
    · intro h
      exact ⟨_, ⟨h.1.1, rfl⟩, h.1.2, h.2⟩

theorem requestInputs_eq (template : ComfyTemplate) (lease : LeaseGrant) :
    requestInputs template lease =
      (Dict.update Table.empty (filledInputs lease.payload template.inputs)).update
        (template.mediaNames.map fun mediaName => (mediaName, mediaValue lease mediaName)) := by
  rw [requestInputs, Dict.ofPairs, Dict.update, List.foldl_append]
  rfl

theorem lookup_media {template : ComfyTemplate} {lease : LeaseGrant} {mediaName : String}
    (h : mediaName ∈ template.mediaNames) :
    (requestInputs template lease).lookup mediaName = some (mediaValue lease mediaName) := by
  rw [requestInputs_eq]
  apply Dict.lookup_update_of_mem
  · rw [List.map_map]
    exact (List.map_id _).symm ▸ mediaNames_nodup template
  · exact List.mem_map_of_mem h

/-- The values of an object. -/
def valuesOf : JsonValue → List JsonValue
  | .dict members => members.map Prod.snd
  | _ => []

theorem boundKeys_ok {template : ComfyTemplate} {lease : LeaseGrant}
    (h : ∀ mediaName ∈ template.mediaNames,
      MediaAdmitted (template.slotsOf mediaName) lease mediaName) :
    template.mediaNames.mapM (boundKeys (requestInputs template lease)) =
      .ok (template.mediaNames.map fun mediaName => valuesOf (mediaValue lease mediaName)) := by
  apply mapM_ok
  intro mediaName hmedia
  obtain ⟨bound, hvalue, -⟩ := h mediaName hmedia
  rw [boundKeys, lookup_media hmedia, hvalue]
  rfl

theorem boundKey_iff {template : ComfyTemplate} {lease : LeaseGrant} {key : String} :
    BoundKey template lease key ↔
      (template.mediaNames.map fun mediaName =>
        valuesOf (mediaValue lease mediaName)).flatten.any (isText key) := by
  simp only [BoundKey, List.any_eq_true, List.mem_flatten, List.mem_map, isText_iff]
  constructor
  · intro h
    obtain ⟨mediaName, hmedia, bound, name, hvalue, hrow⟩ := h
    refine ⟨.str key, ⟨_, ⟨mediaName, hmedia, rfl⟩, ?_⟩, rfl⟩
    rw [hvalue]
    exact List.mem_map_of_mem hrow
  · intro h
    obtain ⟨_, ⟨_, ⟨mediaName, hmedia, rfl⟩, hmem⟩, rfl⟩ := h
    refine ⟨mediaName, hmedia, ?_⟩
    cases hvalue : mediaValue lease mediaName with
    | dict bound =>
        rw [hvalue] at hmem
        obtain ⟨⟨name, _⟩, hrow, rfl⟩ := List.mem_map.mp hmem
        exact ⟨bound, name, rfl, hrow⟩
    | _ =>
        rw [hvalue] at hmem
        exact absurd hmem List.not_mem_nil

/-- The leases that the gate lets through, and the request it makes of them. -/
theorem validateLease_ok_iff {template : ComfyTemplate} (hvalid : ValidTemplate template)
    {lease : LeaseGrant} {request : ValidatedRequest} :
    validateLease template lease = .ok request ↔
      LeaseAdmitted template lease ∧ request = acceptedRequest template lease := by
  have hnames : template.declared.rows.map Prod.fst = template.inputs.map TemplateInput.name := by
    rw [hvalid.declared_rows, List.map_map]
    rfl
  have hkinds := hvalid.kinds
  simp only [validateLease, hvalid.declared_entries, hnames, bind_ok_iff, exists_unit_iff, rejectUnless_eq_ok,
    pure_ok_iff, decide_eq_true_eq, List.all_eq_true, Bool.or_eq_true]
  constructor
  · intro h
    obtain ⟨hversion, hkeys, inputs, hinputs, images, himages, inputs', haudios, bound, hbound,
      hcovered, hrequest⟩ := h
    obtain ⟨hadmitted, rfl⟩ := (setInputs_ok_iff hkinds).mp hinputs
    obtain ⟨hmedia, hinputs'⟩ := bindMedia_ok_iff.mp ⟨images, himages, haudios⟩
    rw [← requestInputs_eq] at hinputs'
    subst hinputs'
    rw [boundKeys_ok hmedia] at hbound
    obtain rfl := Except.ok.inj hbound
    refine ⟨⟨hversion, hkeys, hadmitted, hmedia, fun key hkey => ?_⟩, hrequest.symm⟩
    exact boundKey_iff.mpr (hcovered key hkey)
  · intro h
    obtain ⟨hadmitted, rfl⟩ := h
    obtain ⟨images, himages, haudios⟩ := bindMedia_ok_iff.mpr
      ⟨hadmitted.media, (requestInputs_eq template lease).symm⟩
    refine ⟨hadmitted.version, hadmitted.keys, _,
      (setInputs_ok_iff hkinds).mpr ⟨hadmitted.inputs, rfl⟩, images, himages, _, haudios, _,
      boundKeys_ok hadmitted.media, fun key hkey => ?_, rfl⟩
    exact boundKey_iff.mp (hadmitted.covered key hkey)

theorem succeeds_validateLease_iff {template : ComfyTemplate} (hvalid : ValidTemplate template)
    {lease : LeaseGrant} : Succeeds (validateLease template lease) ↔ LeaseAdmitted template lease := by
  simp only [Succeeds, validateLease_ok_iff hvalid, exists_and_left, exists_eq, and_true]

theorem raises_checkedValue (entry : TemplateInput) (value : JsonValue) :
    Raises AgentExc.IsRejection (checkedValue entry value) := by
  have hcheck := raises_rejectUnless
  rw [checkedValue]
  split_ifs
  · exact (hcheck ..).bind fun _ _ => raises_pure _
  · cases value with
    | str text => exact (hcheck ..).bind fun _ _ => raises_pure _
    | _ => exact trivial
  · exact (hcheck ..).bind fun _ _ => (hcheck ..).bind fun _ _ => raises_pure _

theorem raises_setInput (payload : JobPayload) (inputs : Dict String JsonValue)
    (entry : TemplateInput) : Raises AgentExc.IsRejection (setInput payload inputs entry) := by
  rw [setInput]
  cases payload.get? entry.name with
  | none => exact (raises_rejectUnless ..).bind fun _ _ => raises_pure _
  | some value => exact (raises_checkedValue entry value).bind fun _ _ => raises_pure _

theorem raises_bindSlots (kind mediaName : String) (slots : List ImageSlot) (lease : LeaseGrant)
    (inputs : Dict String JsonValue) :
    Raises AgentExc.IsRejection (bindSlots kind slots mediaName lease inputs) := by
  have hcheck := raises_rejectUnless
  refine Raises.bind ?_ fun _ _ => raises_pure _
  rw [boundSlots]
  cases (lease.payload.get? mediaName).getD (.dict []) with
  | dict rows =>
      exact (hcheck ..).bind fun _ _ => (raises_forM fun _ _ => hcheck ..).bind fun _ _ =>
        (raises_forM fun _ _ => hcheck ..).bind fun _ _ => raises_pure _
  | _ => exact trivial

/-- The assertion about the bound slots never fails. -/
theorem raises_validateLease {template : ComfyTemplate} (hvalid : ValidTemplate template)
    (lease : LeaseGrant) : Raises AgentExc.IsRejection (validateLease template lease) := by
  have hcheck := raises_rejectUnless
  rw [validateLease, hvalid.declared_entries]
  refine (hcheck ..).bind fun _ _ => (hcheck ..).bind fun _ _ => ?_
  refine (raises_foldlM (fun _ _ _ => raises_setInput ..) _).bind fun inputs hinputs => ?_
  refine (raises_bindSlots ..).bind fun images himages => ?_
  refine Raises.bind ?_ fun inputs' haudios => ?_
  · rw [bindAudios]
    split_ifs
    · exact raises_pure _
    · exact raises_bindSlots ..
  · obtain ⟨-, rfl⟩ := (setInputs_ok_iff hvalid.kinds).mp hinputs
    obtain ⟨hmedia, hrequest⟩ := bindMedia_ok_iff.mp ⟨images, himages, haudios⟩
    rw [← requestInputs_eq] at hrequest
    rw [← hrequest, boundKeys_ok hmedia]
    exact (raises_ok _).bind fun _ _ => (hcheck ..).bind fun _ _ => raises_pure _

/-! ### What the schema describes -/

theorem slotsSchema_eq (slots : List ImageSlot) :
    slotsSchema slots = textMap (slots.map ImageSlot.name) (requiredSlots slots) := by
  rw [slotsSchema, textMap, List.map_map]
  rfl

theorem ValidTemplate.properties_rows {template : ComfyTemplate} (h : ValidTemplate template) :
    template.properties.rows =
      template.inputs.map (fun entry => (entry.name, entry.schema)) ++
        template.mediaNames.map fun mediaName =>
          (mediaName, slotsSchema (template.slotsOf mediaName)) := by
  apply Dict.rows_ofPairs
  rw [List.map_append, List.map_map, List.map_map]
  refine List.nodup_append.mpr ⟨h.inputNames_nodup, ?_, ?_⟩
  · exact (List.map_id _).symm ▸ mediaNames_nodup template
  · intro name hname other hother heq
    obtain ⟨entry, hentry, rfl⟩ := List.mem_map.mp hname
    obtain ⟨mediaName, hmedia, rfl⟩ := List.mem_map.mp hother
    have hsame : entry.name = mediaName := heq
    exact h.name_notMem hentry (hsame ▸ hmedia)

/-- What a payload must be to conform to the schema of a validated template. -/
theorem conforms_inputSchema_iff {template : ComfyTemplate} (hvalid : ValidTemplate template)
    {payload : JobPayload} :
    conforms (inputSchema template) payload.value ↔
      (∀ member ∈ payload.members,
        member.1 ∈ template.inputs.map TemplateInput.name ∨ member.1 ∈ template.mediaNames) ∧
      (∀ entry ∈ template.inputs, InputAdmitted payload entry) ∧
      ∀ mediaName ∈ template.mediaNames,
        (∀ value, payload.get? mediaName = some value →
          conforms (slotsSchema (template.slotsOf mediaName)) value) ∧
        ((template.slotsOf mediaName).any ImageSlot.required →
          (payload.get? mediaName).isSome) := by
  have hnames : template.properties.rows.map Prod.fst =
      template.inputs.map TemplateInput.name ++ template.mediaNames := by
    rw [hvalid.properties_rows, List.map_append, List.map_map, List.map_map]
    exact congrArg _ (List.map_id _)
  rw [inputSchema, conforms_closedObject, hnames, hvalid.properties_rows,
    ComfyTemplate.requiredNames]
  simp only [List.mem_append, or_imp, forall_and, List.mem_map, List.mem_filter, forall_exists_index, and_imp, forall_apply_eq_imp_iff₂, conforms_schema,
    JsonObject.value, JsonValue.dict.injEq, exists_eq_left', ← Option.isSome_iff_exists,
    JsonObject.get?]
  constructor
  · intro h
    obtain ⟨hkeys, ⟨hdescribed, hmedia⟩, hrequired, hpresent⟩ := h
    refine ⟨hkeys, fun entry hentry => ⟨hdescribed entry hentry, ?_⟩, hmedia, hpresent⟩
    exact fun htrue => hrequired entry.name entry hentry htrue rfl
  · intro h
    obtain ⟨hkeys, hinputs, hmedia, hpresent⟩ := h
    refine ⟨hkeys, ⟨fun entry hentry => (hinputs entry hentry).described, hmedia⟩, ?_, hpresent⟩
    intro name entry hentry htrue hname
    rw [← hname]
    exact (hinputs entry hentry).required htrue

/-! ### The gate against the schema -/

/-- The payload binds the key to a slot. -/
def BindsAsset (template : ComfyTemplate) (payload : JobPayload) (key : String) : Prop :=
  ∃ mediaName ∈ template.mediaNames, ∃ bound name,
    payload.get? mediaName = some (.dict bound) ∧ (name, .str key) ∈ bound

/-- What a template promises to accept. -/
structure PublishedLease (template : ComfyTemplate) (lease : LeaseGrant) : Prop where
  version : lease.contractVersion = template.contractVersion
  conforms : conforms (inputSchema template) lease.payload.value
  granted : ∀ key, BindsAsset template lease.payload key → key ∈ lease.inputKeys
  bound : ∀ key ∈ lease.inputKeys, BindsAsset template lease.payload key

theorem boundKey_iff_bindsAsset {template : ComfyTemplate} {lease : LeaseGrant} {key : String} :
    BoundKey template lease key ↔ BindsAsset template lease.payload key := by
  apply exists_congr
  intro mediaName
  apply and_congr_right
  intro _
  apply exists_congr
  intro bound
  apply exists_congr
  intro name
  rw [mediaValue]
  cases lease.payload.get? mediaName with
  | some value => simp
  | none =>
      constructor
      · intro h
        obtain ⟨hempty, hrow⟩ := h
        obtain rfl := JsonValue.dict.inj hempty
        exact absurd hrow List.not_mem_nil
      · intro h
        cases h.1

theorem any_required_iff {slots : List ImageSlot} :
    slots.any ImageSlot.required ↔ requiredSlots slots ≠ [] := by
  rw [List.any_eq_true, ne_eq, requiredSlots, List.map_eq_nil_iff, List.filter_eq_nil_iff]
  push Not
  rfl

/-- The slots of one kind are bound as the gate wants it when the object conforms to their schema
and the job was granted what it binds. -/
theorem mediaAdmitted_iff {slots : List ImageSlot} {lease : LeaseGrant} {mediaName : String} :
    MediaAdmitted slots lease mediaName ↔
      ((∀ value, lease.payload.get? mediaName = some value → conforms (slotsSchema slots) value) ∧
        (slots.any ImageSlot.required → (lease.payload.get? mediaName).isSome)) ∧
      ∀ bound name key, lease.payload.get? mediaName = some (.dict bound) →
        (name, .str key) ∈ bound → key ∈ lease.inputKeys := by
  rw [MediaAdmitted, mediaValue, slotsSchema_eq, any_required_iff]
  cases hget : lease.payload.get? mediaName with
  | none =>
      constructor
      · intro h
        obtain ⟨bound, hempty, -, hrequired, -⟩ := h
        obtain rfl := JsonValue.dict.inj hempty
        refine ⟨⟨nofun, fun hne => ?_⟩, nofun⟩
        obtain ⟨name, hname⟩ := List.exists_mem_of_ne_nil _ hne
        cases hrequired name hname
      · intro h
        refine ⟨[], rfl, nofun, fun name hname => ?_, nofun⟩
        cases h.1.2 (List.ne_nil_of_mem hname)
  | some value =>
      have hform := JsonObject.wellFormed_of_get? hget
      constructor
      · intro h
        obtain ⟨bound, hvalue, hnames, hrequired, hgranted⟩ := h
        obtain rfl : value = .dict bound := hvalue
        refine ⟨⟨fun other hother => ?_, fun _ => rfl⟩, fun bound' name key hsame hrow => ?_⟩
        · obtain rfl := Option.some.inj hother
          refine (conforms_textMap hform).mpr ⟨bound, rfl, hnames, fun row hrow => ?_, hrequired⟩
          obtain ⟨key, -, heq⟩ := hgranted row hrow
          exact ⟨key, heq⟩
        · obtain rfl := JsonValue.dict.inj (Option.some.inj hsame)
          obtain ⟨key', hkey', heq⟩ := hgranted _ hrow
          exact JsonValue.str.inj heq ▸ hkey'
      · intro h
        obtain ⟨⟨hconforms, -⟩, hgranted⟩ := h
        obtain ⟨bound, rfl, hnames, htexts, hrequired⟩ :=
          (conforms_textMap hform).mp (hconforms value rfl)
        refine ⟨bound, rfl, hnames, hrequired, fun row hrow => ?_⟩
        obtain ⟨text, heq⟩ := htexts row hrow
        exact ⟨text, hgranted bound row.1 text rfl (heq ▸ hrow), heq⟩

/-- The gate and the schema describe the same leases. -/
theorem leaseAdmitted_iff {template : ComfyTemplate} (hvalid : ValidTemplate template)
    {lease : LeaseGrant} : LeaseAdmitted template lease ↔ PublishedLease template lease := by
  constructor
  · intro h
    have hmedia := fun mediaName hname => mediaAdmitted_iff.mp (h.media mediaName hname)
    refine ⟨h.version, ?_, ?_, fun key hkey => boundKey_iff_bindsAsset.mp (h.covered key hkey)⟩
    · exact (conforms_inputSchema_iff hvalid).mpr
        ⟨h.keys, h.inputs, fun mediaName hname => (hmedia mediaName hname).1⟩
    · intro key hbinds
      obtain ⟨mediaName, hname, bound, name, hget, hrow⟩ := hbinds
      exact (hmedia mediaName hname).2 bound name key hget hrow
  · intro h
    obtain ⟨hkeys, hinputs, hmedia⟩ := (conforms_inputSchema_iff hvalid).mp h.conforms
    refine ⟨h.version, hkeys, hinputs, fun mediaName hname => ?_,
      fun key hkey => boundKey_iff_bindsAsset.mpr (h.bound key hkey)⟩
    refine mediaAdmitted_iff.mpr ⟨hmedia mediaName hname, fun bound name key hget hrow => ?_⟩
    exact h.granted key ⟨mediaName, hname, bound, name, hget, hrow⟩

/-- The plugin accepts exactly what a validated template publishes, and rejects the rest. -/
theorem comfy_accepts_published {registry : TemplateRegistry} {template : ComfyTemplate}
    {lease : LeaseGrant} (htemplate : registry.get? lease.capabilityId = some template)
    (hvalidated : validateTemplate template = .ok ()) :
    (Succeeds (validate registry lease) ↔ PublishedLease template lease) ∧
      Raises AgentExc.IsRejection (validate registry lease) := by
  have hvalid := validateTemplate_ok_iff.mp hvalidated
  rw [validate, htemplate]
  exact ⟨(succeeds_validateLease_iff hvalid).trans (leaseAdmitted_iff hvalid),
    raises_validateLease hvalid lease⟩

/-- A template that restyles one reference image, which a job may leave out. -/
def portraitTemplate : ComfyTemplate where
  capabilityId := "portrait.v1"
  contractVersion := 1
  templateVersion := "1"
  graph := ⟨[
    ("2", .dict [("class_type", .str "LoadImage"), ("inputs", .dict [("image", .str "a.png")])]),
    ("3", .dict [("class_type", .str "VAEEncode"),
      ("inputs", .dict [("pixels", .list [.str "2", .int 0])])]),
    ("9", .dict [("class_type", .str "KSampler"),
      ("inputs", .dict [("text", .str ""), ("steps", .int 20),
        ("latent", .list [.str "3", .int 0])])]),
    ("12", .dict [("class_type", .str "SaveImage"),
      ("inputs", .dict [("images", .list [.str "9", .int 0]), ("filename_prefix", .str "")])])],
    by rfl⟩
  inputs := [
    { name := "prompt", nodeId := "9", inputName := "text", kind := "string",
      minimum := some (.int 1), maxLength := some 2000, required := true },
    { name := "steps", nodeId := "9", inputName := "steps", kind := "integer",
      minimum := some (.int 1), maximum := some (.int 50), default := .int 20 }]
  imageSlots := [{ name := "ref", nodeId := "2", dependentNodeIds := ["3"] }]
  outputNodeId := "12"
  outputContentType := "image/png"
  modelId := "portrait"
  modelVersion := "1"

/-- A lease of a portrait with the given reference images. -/
def portraitLease (keys : List String) (images : JsonValue) (hform : images.wellFormed) :
    LeaseGrant where
  jobId := "job"
  claimToken := "token"
  leaseUntil := 0
  executionDeadlineSeconds := 600
  capabilityId := "portrait.v1"
  contractVersion := 1
  requestDigest := ""
  idempotencyKey := "key"
  inputKeys := keys
  outputKey := "outputs/portrait.png"
  payload :=
    ⟨[("prompt", .str "a cat"), ("images", images)], by
      rw [JsonValue.wellFormed_dict]
      simpa [JsonValue.wellFormed, JsonValue.wellFormedMembers] using hform⟩
  inputGrants := []
  outputGrant := ⟨"outputs/portrait.png", "", "PUT", 0, none⟩

def boundPortrait : LeaseGrant :=
  portraitLease ["inputs/a.png"] (.dict [("ref", .str "inputs/a.png")]) rfl

theorem wellFormed_noImages : (JsonValue.dict []).wellFormed := rfl

def plainPortrait : LeaseGrant := portraitLease [] (.dict []) wellFormed_noImages

theorem comfy_accepts_published_portrait :
    (Succeeds (validate (.ofTemplates [portraitTemplate]) boundPortrait) ↔
        PublishedLease portraitTemplate boundPortrait) ∧
      Raises AgentExc.IsRejection (validate (.ofTemplates [portraitTemplate]) boundPortrait) :=
  comfy_accepts_published rfl (by decide)

example : Succeeds (validate (.ofTemplates [portraitTemplate]) boundPortrait) := ⟨_, rfl⟩

end GpuWorkerPool
