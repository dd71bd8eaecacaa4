import GpuWorkerPool.EngineStages
import GpuWorkerPool.Validation

/-!
The workflow templates of `ComfyWorkflowPlugin`: what a template declares, the schema it publishes,
and the gate for its leases.
-/

namespace GpuWorkerPool

open Base JsonSchema

def imagesInputName : String := "images"

def audiosInputName : String := "audios"

def loadImageClassType : String := "LoadImage"

def loadAudioClassType : String := "LoadAudio"

def seedInputName : String := "seed"

def inputKinds : List String := ["string", "integer", "number", "boolean"]

/-- One value a job may fill in one node of the template's graph. A default of `null` is none. -/
structure TemplateInput where
  name : String
  nodeId : String
  inputName : String
  kind : String
  minimum : Option JsonNumber := none
  maximum : Option JsonNumber := none
  maxLength : Option Int := none
  default : JsonValue := .null
  required : Bool := false

/-- A `LoadImage` node, or a `LoadAudio` node, that a job may bind one granted asset to. -/
structure ImageSlot where
  name : String
  nodeId : String
  required : Bool := false
  dependentNodeIds : List String := []
  deriving DecidableEq, Repr

structure ComfyTemplate where
  capabilityId : String
  contractVersion : Int
  templateVersion : String
  graph : JsonObject
  inputs : List TemplateInput
  imageSlots : List ImageSlot
  outputNodeId : String
  outputContentType : String
  modelId : String
  modelVersion : String
  audioSlots : List ImageSlot := []

/-- The templates one machine is approved to run, by capability id. -/
abbrev TemplateRegistry := Table ComfyTemplate.capabilityId

/-- `TemplateRegistry(templates)` -/
def TemplateRegistry.ofTemplates (templates : List ComfyTemplate) : TemplateRegistry :=
  templates.foldl Table.put Table.empty

/-- `isinstance(value, dict)` -/
def isObject : JsonValue → Bool
  | .dict _ => true
  | _ => false

/-- `isinstance(value, bool)` -/
def isBoolean : JsonValue → Bool
  | .bool _ => true
  | _ => false

/-- An `int` that is no `bool`. -/
def isInteger : JsonValue → Bool
  | .int _ => true
  | _ => false

/-- An `int` or a `float` that is no `bool`. -/
def isNumber : JsonValue → Bool
  | .int _ => true
  | .float _ => true
  | _ => false

/-- `value is None` -/
def isNull : JsonValue → Bool
  | .null => true
  | _ => false

/-! ### Validation of a template -/

namespace ComfyTemplate

variable (template : ComfyTemplate)

def slots : List ImageSlot := template.imageSlots ++ template.audioSlots

/-- `isinstance(template.graph.get(node_id), dict)` -/
def declaresNode (nodeId : String) : Bool := (template.graph.get? nodeId).any isObject

/-- Name and node of every entry of the allowlist. -/
def entries : List (String × String) :=
  template.inputs.map (fun entry => (entry.name, entry.nodeId)) ++
    template.slots.map fun slot => (slot.name, slot.nodeId)

/-- One turn of the loop over the allowlist. -/
def declareEntry (names : List String) (entry : String × String) : Except Exc (List String) := do
  require (entry.1 ∉ names) ("two allowlist entries share the name " ++ entry.1)
  require (template.declaresNode entry.2)
    (entry.1 ++ " names a node the graph does not declare: " ++ entry.2)
  pure (entry.1 :: names)

/-- `node.get("class_type") == class_type` -/
def hasClassType (nodeId classType : String) : Bool :=
  ((template.graph.get? nodeId).bind fun node => node.member? "class_type").any (isText classType)

def checkDependent (slot : ImageSlot) (dependentId : String) : Except Exc Unit := do
  require (template.declaresNode dependentId)
    ("image slot " ++ slot.name ++ " names a dependent node the graph does not declare: " ++
      dependentId)
  require (dependentId ∉ template.slots.map ImageSlot.nodeId)
    ("image slot " ++ slot.name ++ " names another slot's node as a dependent: " ++ dependentId)

def checkSlot (kind classType : String) (slot : ImageSlot) : Except Exc Unit := do
  require (template.hasClassType slot.nodeId classType)
    s!"{kind} slot {slot.name} must bind a {classType} node"
  forM slot.dependentNodeIds (template.checkDependent slot)

def checkKind (entry : TemplateInput) : Except Exc Unit :=
  require (entry.kind ∈ inputKinds)
    ("input " ++ entry.name ++ " declares an unknown kind: " ++ entry.kind)

end ComfyTemplate

/-- `_validate_template` -/
def validateTemplate (template : ComfyTemplate) : Except Exc Unit := do
  let _ ← template.entries.foldlM template.declareEntry [imagesInputName, audiosInputName]
  forM template.inputs ComfyTemplate.checkKind
  forM template.imageSlots (template.checkSlot "image" loadImageClassType)
  forM template.audioSlots (template.checkSlot "audio" loadAudioClassType)
  require (template.declaresNode template.outputNodeId)
    ("output_node_id names a node the graph does not declare: " ++ template.outputNodeId)

/-- `_template_from_document` for a document with all its members, of the types of the template. -/
def templateFromDocument (document : ComfyTemplate) : Except Exc ComfyTemplate := do
  validateCapabilityId document.capabilityId
  validateTemplate document
  pure document

/-! ### The published schema -/

def boundKeyword (keyword : String) (bound : Option JsonNumber) : List (String × JsonValue) :=
  bound.toList.map fun bound => (keyword, bound.value)

def TemplateInput.schema (entry : TemplateInput) : JsonValue :=
  .dict (("type", .str entry.kind) ::
    if entry.kind = "string" then
      boundKeyword "minLength" entry.minimum ++ boundKeyword "maxLength" (entry.maxLength.map .int)
    else boundKeyword "minimum" entry.minimum ++ boundKeyword "maximum" entry.maximum)

/-- The names of the slots that must be bound. -/
def requiredSlots (slots : List ImageSlot) : List String :=
  (slots.filter ImageSlot.required).map ImageSlot.name

def slotsSchema (slots : List ImageSlot) : JsonValue :=
  let properties : Dict String JsonValue :=
    .ofPairs (slots.map fun slot => (slot.name, .dict [("type", .str "string")]))
  .dict (closedObject properties.rows (requiredSlots slots))

namespace ComfyTemplate

variable (template : ComfyTemplate)

/-- The names under which a payload binds assets. -/
def mediaNames : List String :=
  if template.audioSlots = [] then [imagesInputName] else [imagesInputName, audiosInputName]

def slotsOf (mediaName : String) : List ImageSlot :=
  if mediaName = imagesInputName then template.imageSlots else template.audioSlots

def properties : Dict String JsonValue :=
  .ofPairs (template.inputs.map (fun entry => (entry.name, entry.schema)) ++
    template.mediaNames.map fun mediaName => (mediaName, slotsSchema (template.slotsOf mediaName)))

def requiredNames : List String :=
  (template.inputs.filter TemplateInput.required).map TemplateInput.name ++
    template.mediaNames.filter fun mediaName => (template.slotsOf mediaName).any ImageSlot.required

end ComfyTemplate

/-- `input_schema` -/
def inputSchema (template : ComfyTemplate) : JsonValue :=
  .dict (closedObject template.properties.rows template.requiredNames)

/-! ### The gate -/

/-- `minimum is not None and value < minimum` -/
def isBelow (value : JsonValue) (minimum : Option JsonNumber) : Bool :=
  minimum.any fun bound => value.numberLess bound.value

/-- `maximum is not None and value > maximum` -/
def isAbove (value : JsonValue) (maximum : Option JsonNumber) : Bool :=
  maximum.any fun bound => bound.value.numberLess value

def checkedString (entry : TemplateInput) : JsonValue → Except AgentExc JsonValue
  | .str text => do
      let length : JsonValue := .int text.length
      rejectUnless (!(isBelow length entry.minimum || isAbove length (entry.maxLength.map .int)))
        (entry.name ++ " is outside its declared length")
      pure (.str text)
  | _ => throw (.pluginRequestRejected (entry.name ++ " must be a string"))

def checkedNumber (entry : TemplateInput) (value : JsonValue) : Except AgentExc JsonValue := do
  rejectUnless (if entry.kind = "integer" then isInteger value else isNumber value)
    (entry.name ++ if entry.kind = "integer" then " must be an integer" else " must be a number")
  rejectUnless (!(isBelow value entry.minimum || isAbove value entry.maximum))
    (entry.name ++ " is outside its declared range")
  pure value

/-- `_checked_value` -/
def checkedValue (entry : TemplateInput) (value : JsonValue) : Except AgentExc JsonValue :=
  if entry.kind = "boolean" then do
    rejectUnless (isBoolean value) (entry.name ++ " must be a boolean")
    pure value
  else if entry.kind = "string" then checkedString entry value
  else checkedNumber entry value

/-- `_bound_slots` -/
def boundSlots (kind : String) (slots : List ImageSlot) (payloadName : String) (lease : LeaseGrant) :
    Except AgentExc (List (String × JsonValue)) := do
  match (lease.payload.get? payloadName).getD (.dict []) with
  | .dict requested =>
      rejectUnless (requested.all fun row => row.1 ∈ slots.map ImageSlot.name)
        (payloadName ++ " names a slot the template does not declare")
      forM slots fun slot =>
        rejectUnless (!slot.required || (requested.lookup slot.name).isSome)
          s!"{kind} slot {slot.name} is required"
      forM requested fun row =>
        rejectUnless (lease.grants row.2) (kind ++ " slot " ++ row.1 ++ " must bind a granted input")
      pure requested
  | _ => throw (.pluginRequestRejected (payloadName ++ " must map a declared slot to a granted key"))

/-- `{entry.name: entry for entry in template.inputs}` -/
def ComfyTemplate.declared (template : ComfyTemplate) : Dict String TemplateInput :=
  .ofPairs (template.inputs.map fun entry => (entry.name, entry))

namespace ComfyWorkflowPlugin

/-- One turn of the loop over the declared inputs. -/
def setInput (payload : JobPayload) (inputs : Dict String JsonValue) (entry : TemplateInput) :
    Except AgentExc (Dict String JsonValue) :=
  match payload.get? entry.name with
  | some value => do
      let value ← checkedValue entry value
      pure (inputs.put (entry.name, value))
  | none => do
      rejectUnless (!entry.required) (entry.name ++ " is required")
      pure (if isNull entry.default then inputs else inputs.put (entry.name, entry.default))

/-- Puts the bound slots of one kind under their name. -/
def bindSlots (kind : String) (slots : List ImageSlot) (mediaName : String) (lease : LeaseGrant)
    (inputs : Dict String JsonValue) : Except AgentExc (Dict String JsonValue) := do
  let bound ← boundSlots kind slots mediaName lease
  pure (inputs.put (mediaName, .dict bound))

def bindAudios (template : ComfyTemplate) (lease : LeaseGrant) (inputs : Dict String JsonValue) :
    Except AgentExc (Dict String JsonValue) :=
  if template.audioSlots = [] then pure inputs
  else bindSlots "audio" template.audioSlots audiosInputName lease inputs

/-- The values of `inputs.get(media_name, {})`, which is asserted to be an object. -/
def boundKeys (inputs : Dict String JsonValue) (mediaName : String) :
    Except AgentExc (List JsonValue) :=
  match (inputs.lookup mediaName).getD (.dict []) with
  | .dict bound => .ok (bound.map Prod.snd)
  | _ => .error (.raised "AssertionError")

/-- The rest of `validate` for the template of the capability. -/
def validateLease (template : ComfyTemplate) (lease : LeaseGrant) :
    Except AgentExc ValidatedRequest := do
  rejectUnless (lease.contractVersion = template.contractVersion) "unsupported contract version"
  rejectUnless (lease.payload.members.all fun member =>
      member.1 ∈ template.declared.rows.map Prod.fst || member.1 ∈ template.mediaNames)
    "payload carries unsupported keys"
  let inputs ← (template.declared.rows.map Prod.snd).foldlM (setInput lease.payload) Table.empty
  let inputs ← bindSlots "image" template.imageSlots imagesInputName lease inputs
  let inputs ← bindAudios template lease inputs
  let bound ← template.mediaNames.mapM (boundKeys inputs)
  rejectUnless (lease.inputKeys.all fun key => bound.flatten.any (isText key))
    "the lease granted an input no slot binds"
  pure
    { capabilityId := lease.capabilityId, contractVersion := lease.contractVersion,
      inputs := inputs, seed := AISmithEnginePlugin.seedOf (inputs.lookup seedInputName) }

def validate (registry : TemplateRegistry) (lease : LeaseGrant) : Except AgentExc ValidatedRequest :=
  match registry.get? lease.capabilityId with
  | none => .error (.pluginRequestRejected "unsupported capability")
  | some template => validateLease template lease

end ComfyWorkflowPlugin

/-! ### Validated templates -/

/-- What a slot of a validated template satisfies. -/
structure ValidSlot (template : ComfyTemplate) (classType : String) (slot : ImageSlot) : Prop where
  classType : template.hasClassType slot.nodeId classType
  dependents : ∀ dependentId ∈ slot.dependentNodeIds,
    template.declaresNode dependentId ∧ dependentId ∉ template.slots.map ImageSlot.nodeId

/-- What `_validate_template` checks. -/
structure ValidTemplate (template : ComfyTemplate) : Prop where
  names_nodup : (template.entries.map Prod.fst).Nodup
  names_free : ∀ entry ∈ template.entries, entry.1 ≠ imagesInputName ∧ entry.1 ≠ audiosInputName
  nodes : ∀ entry ∈ template.entries, template.declaresNode entry.2
  kinds : ∀ entry ∈ template.inputs, entry.kind ∈ inputKinds
  imageSlots : ∀ slot ∈ template.imageSlots, ValidSlot template loadImageClassType slot
  audioSlots : ∀ slot ∈ template.audioSlots, ValidSlot template loadAudioClassType slot
  output : template.declaresNode template.outputNodeId

theorem declareEntry_ok_iff {template : ComfyTemplate} {names names' : List String}
    {entry : String × String} :
    template.declareEntry names entry = .ok names' ↔
      (entry.1 ∉ names ∧ template.declaresNode entry.2) ∧ names' = entry.1 :: names := by
  rw [ComfyTemplate.declareEntry, check_bind_ok_iff, check_bind_ok_iff, require_eq_ok,
    require_eq_ok, pure_ok_iff, decide_eq_true_eq, and_assoc, eq_comm (a := names')]

theorem declareEntries_ok_iff {template : ComfyTemplate} {entries : List (String × String)}
    {names : List String} :
    Succeeds (entries.foldlM template.declareEntry names) ↔
      (entries.map Prod.fst).Nodup ∧ (∀ entry ∈ entries, entry.1 ∉ names) ∧
        ∀ entry ∈ entries, template.declaresNode entry.2 := by
  induction entries generalizing names with
  | nil => exact ⟨fun _ => by simp, fun _ => succeeds_ok names⟩
  | cons entry rest ih =>
      rw [List.foldlM_cons, succeeds_bind_iff, List.map_cons, List.nodup_cons]
      simp only [List.forall_mem_cons, declareEntry_ok_iff]
      constructor
      · intro h
        obtain ⟨_, ⟨⟨hnew, hnode⟩, rfl⟩, hrest⟩ := h
        obtain ⟨hnodup, hfree, hnodes⟩ := ih.mp hrest
        refine ⟨⟨?_, hnodup⟩, ⟨hnew, fun other hother hmem => ?_⟩, hnode, hnodes⟩
        · intro hmem
          obtain ⟨other, hother, hname⟩ := List.mem_map.mp hmem
          exact hfree other hother (hname ▸ List.mem_cons_self)
        · exact hfree other hother (List.mem_cons_of_mem _ hmem)
      · intro h
        obtain ⟨⟨hapart, hnodup⟩, ⟨hnew, hfree⟩, hnode, hnodes⟩ := h
        refine ⟨_, ⟨⟨hnew, hnode⟩, rfl⟩, ih.mpr ⟨hnodup, fun other hother hmem => ?_, hnodes⟩⟩
        rcases List.mem_cons.mp hmem with hname | hname
        · exact hapart (hname ▸ List.mem_map_of_mem hother)
        · exact hfree other hother hname

theorem checkSlot_ok_iff {template : ComfyTemplate} {kind classType : String} {slot : ImageSlot} :
    template.checkSlot kind classType slot = .ok () ↔ ValidSlot template classType slot := by
  rw [ComfyTemplate.checkSlot, check_bind_ok_iff, require_eq_ok, forM_ok_iff]
  simp only [ComfyTemplate.checkDependent, check_bind_ok_iff, require_eq_ok, decide_eq_true_eq]
  exact ⟨fun h => ⟨h.1, h.2⟩, fun h => ⟨h.classType, h.dependents⟩⟩

theorem validateTemplate_ok_iff {template : ComfyTemplate} :
    validateTemplate template = .ok () ↔ ValidTemplate template := by
  rw [validateTemplate, bind_ok_iff]
  simp only [check_bind_ok_iff, forM_ok_iff, ComfyTemplate.checkKind, require_eq_ok,
    decide_eq_true_eq, checkSlot_ok_iff]
  have hentries := @declareEntries_ok_iff template template.entries
    [imagesInputName, audiosInputName]
  simp only [List.mem_cons, List.not_mem_nil, or_false, not_or] at hentries
  constructor
  · intro h
    obtain ⟨names, hnames, hkinds, himages, haudios, houtput⟩ := h
    obtain ⟨hnodup, hfree, hnodes⟩ := hentries.mp ⟨names, hnames⟩
    exact ⟨hnodup, hfree, hnodes, hkinds, himages, haudios, houtput⟩
  · intro h
    obtain ⟨names, hnames⟩ := hentries.mpr ⟨h.names_nodup, h.names_free, h.nodes⟩
    exact ⟨names, hnames, h.kinds, h.imageSlots, h.audioSlots, h.output⟩

end GpuWorkerPool
