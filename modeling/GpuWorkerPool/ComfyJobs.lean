import GpuWorkerPool.ComfyFrame
import GpuWorkerPool.ComfySchema

/-!
The graph that an execution builds for an accepted request: the declared inputs are set, every slot
is bound to the name of an upload or else dropped, and the output is named after the job. A job that
its template fits never fails in these edits.
-/

namespace GpuWorkerPool

open Base ComfyWorkflowPlugin

def imageNodeInputName : String := "image"

def audioNodeInputName : String := "audio"

def filenamePrefixInputName : String := "filename_prefix"

def outputPrefixRoot : String := "ogwp"

/-- What an execution raises: an edit of the graph fails, or something that it awaits does. -/
inductive ComfyExc where
  | graph (error : GraphExc)
  | agent (error : AgentExc)

structure RuntimeResponse where
  statusCode : Nat
  body : JsonValue

/-- The files of a job, and what the local runtime answers to the upload for a slot, by the name of
the file and its content. -/
structure LocalRuntime where
  readBytes : PosixPath → Except AgentExc (List UInt8)
  uploadImage : String → String → List UInt8 → Except AgentExc RuntimeResponse

/-- `_raise_for_status` -/
def raiseForStatus (response : RuntimeResponse) : Except AgentExc Unit :=
  if response.statusCode / 100 = 2 then .ok () else .error (.raised "RuntimeError")

/-- The name under which the local runtime stored an upload. -/
def storedName : JsonValue → Except AgentExc String
  | .dict members =>
      match members.lookup "name" with
      | some (.str name) => if name = "" then .error (.raised "RuntimeError") else .ok name
      | _ => .error (.raised "RuntimeError")
  | _ => .error (.raised "AttributeError")

/-- `_upload` -/
def LocalRuntime.upload (runtime : LocalRuntime) (context : ExecutionContext) (slotName : String)
    (source : PosixPath) : Except AgentExc String := do
  let filename := context.jobId ++ "-" ++ slotName ++ source.suffix
  let content ← runtime.readBytes source
  let response ← runtime.uploadImage slotName filename content
  raiseForStatus response
  storedName response.body

/-! ### The edits of an execution -/

/-- How the edits read and change the graph that they hold as a `σ`. -/
structure GraphOps (σ : Type) where
  nodeInputs : σ → String → Except GraphExc (List (String × JsonValue))
  editInputs : (List (String × JsonValue) → List (String × JsonValue)) → σ → String →
    Except GraphExc σ
  dropSlot : σ → ImageSlot → Except GraphExc σ

/-- The edits of a graph as a value. -/
def graphOps : GraphOps Graph := ⟨nodeInputs, editInputs, dropSlot⟩

namespace ComfyWorkflowPlugin

section Edits

variable {σ : Type} (ops : GraphOps σ)

/-- `_node_inputs(graph, node_id)[input_name] = value` -/
def setNodeInput (graph : σ) (nodeId inputName : String) (value : JsonValue) : Except GraphExc σ :=
  ops.editInputs (Table.putRow Prod.fst (inputName, value)) graph nodeId

def fillInput (request : ValidatedRequest) (graph : σ) (entry : TemplateInput) :
    Except GraphExc σ :=
  match request.inputs.lookup entry.name with
  | some value => setNodeInput ops graph entry.nodeId entry.inputName value
  | none => pure graph

def inGraph {α : Type} : Except GraphExc α → Except ComfyExc α
  | .ok a => .ok a
  | .error error => .error (.graph error)

def awaited {α : Type} : Except AgentExc α → Except ComfyExc α
  | .ok a => .ok a
  | .error error => .error (.agent error)

/-- `context.input_paths[key]` -/
def inputPath (context : ExecutionContext) (key : String) : Except GraphExc PosixPath :=
  match context.inputPaths.lookup key with
  | some path => .ok path
  | none => .error .keyError

/-- One turn of a loop over the slots, for a slot that is bound to the key or to none. -/
def placeSlot (runtime : LocalRuntime) (context : ExecutionContext) (inputName : String)
    (key : Option String) (graph : σ) (slot : ImageSlot) : Except ComfyExc σ :=
  match key with
  | none => inGraph (ops.dropSlot graph slot)
  | some key => do
      let source ← inGraph (inputPath context key)
      let name ← awaited (runtime.upload context slot.name source)
      inGraph (setNodeInput ops graph slot.nodeId inputName (.str name))

/-- The prefix of the names of the files of a job. -/
def outputPrefix (context : ExecutionContext) : JsonValue :=
  .str (outputPrefixRoot ++ "/" ++ context.jobId)

def nameOutput (template : ComfyTemplate) (context : ExecutionContext) (graph : σ) :
    Except GraphExc σ := do
  let inputs ← ops.nodeInputs graph template.outputNodeId
  if (inputs.lookup filenamePrefixInputName).isSome then
    setNodeInput ops graph template.outputNodeId filenamePrefixInputName (outputPrefix context)
  else pure graph

/-- The members of a value that is asserted to be an object. -/
def assertObject : JsonValue → Except GraphExc (List (String × JsonValue))
  | .dict members => .ok members
  | _ => .error .assertionError

def requestedImages (request : ValidatedRequest) : Except GraphExc (List (String × JsonValue)) :=
  match request.inputs.lookup imagesInputName with
  | some images => assertObject images
  | none => .error .keyError

def requestedAudios (request : ValidatedRequest) : Except GraphExc (List (String × JsonValue)) :=
  assertObject ((request.inputs.lookup audiosInputName).getD (.dict []))

/-- `bound.get(slot.name)`, if it is a text. -/
def keyOf (bound : List (String × JsonValue)) (slot : ImageSlot) : Option String :=
  match bound.lookup slot.name with
  | some (.str key) => some key
  | _ => none

/-- The edits of `execute` on the copy of the graph, up to its submission. -/
def editGraph (runtime : LocalRuntime) (template : ComfyTemplate) (context : ExecutionContext)
    (request : ValidatedRequest) (graph : σ) : Except ComfyExc σ := do
  let graph ← inGraph (template.inputs.foldlM (fillInput ops request) graph)
  let images ← inGraph (requestedImages request)
  let graph ← template.imageSlots.foldlM (fun graph slot =>
    placeSlot ops runtime context imageNodeInputName (keyOf images slot) graph slot) graph
  let audios ← inGraph (requestedAudios request)
  let graph ← template.audioSlots.foldlM (fun graph slot =>
    placeSlot ops runtime context audioNodeInputName (keyOf audios slot) graph slot) graph
  inGraph (nameOutput ops template context graph)

end Edits

/-- The nodes of the template's graph. -/
def templateGraph (template : ComfyTemplate) : Graph := .ofPairs template.graph.members

/-- The graph that `execute` submits. -/
def submittedGraph (runtime : LocalRuntime) (template : ComfyTemplate) (context : ExecutionContext)
    (request : ValidatedRequest) : Except ComfyExc Graph :=
  editGraph graphOps runtime template context request (templateGraph template)

/-! ### Accepted requests -/

theorem filledInputs_nodup {template : ComfyTemplate} (hvalid : ValidTemplate template)
    (payload : JobPayload) : ((filledInputs payload template.inputs).map Prod.fst).Nodup := by
  have hnames : ∀ entries : List TemplateInput,
      ((filledInputs payload entries).map Prod.fst).Sublist (entries.map TemplateInput.name) := by
    intro entries
    induction entries with
    | nil => exact List.Sublist.refl _
    | cons entry rest ih =>
        rw [filledInputs, List.filterMap_cons, List.map_cons]
        cases filledInput payload entry with
        | none => exact ih.cons _
        | some value => exact ih.cons_cons _
  exact (hnames template.inputs).nodup hvalid.inputNames_nodup

/-- An accepted request holds what the lease fills of every declared input. -/
theorem lookup_filled {template : ComfyTemplate} (hvalid : ValidTemplate template)
    {lease : LeaseGrant} {entry : TemplateInput} (hentry : entry ∈ template.inputs) :
    (requestInputs template lease).lookup entry.name = filledInput lease.payload entry := by
  have hfree : entry.name ∉ (template.mediaNames.map fun mediaName =>
      (mediaName, mediaValue lease mediaName)).map Prod.fst := by
    rw [List.map_map]
    exact (List.map_id template.mediaNames).symm ▸ hvalid.name_notMem hentry
  rw [requestInputs_eq, Dict.lookup_update_of_notMem hfree]
  cases hfilled : filledInput lease.payload entry with
  | some value =>
      apply Dict.lookup_update_of_mem (filledInputs_nodup hvalid lease.payload)
      exact List.mem_filterMap.mpr ⟨entry, hentry, by rw [hfilled]; rfl⟩
  | none =>
      rw [Dict.lookup_update_of_notMem]
      · rfl
      · intro hmem
        obtain ⟨⟨name, value⟩, hrow, hname⟩ := List.mem_map.mp hmem
        obtain ⟨other, hother, hvalue⟩ := List.mem_filterMap.mp hrow
        obtain ⟨value', hfilled', hpair⟩ := Option.map_eq_some_iff.mp hvalue
        have hsame : other = entry := by
          apply List.inj_on_of_nodup_map hvalid.inputNames_nodup hother hentry
          exact (congrArg Prod.fst hpair).trans hname
        rw [hsame, hfilled] at hfilled'
        cases hfilled'

/-- A slot of the template, the input it is bound at, and the key that the lease binds it to. -/
structure Placement where
  slot : ImageSlot
  inputName : String
  key : Option String

def membersOf : JsonValue → List (String × JsonValue)
  | .dict members => members
  | _ => []

def placementsOf (lease : LeaseGrant) (mediaName inputName : String) (slots : List ImageSlot) :
    List Placement :=
  slots.map fun slot => ⟨slot, inputName, keyOf (membersOf (mediaValue lease mediaName)) slot⟩

/-- What the lease makes of the slots, in the order of the loops. -/
def placements (template : ComfyTemplate) (lease : LeaseGrant) : List Placement :=
  placementsOf lease imagesInputName imageNodeInputName template.imageSlots ++
    placementsOf lease audiosInputName audioNodeInputName template.audioSlots

def place {σ : Type} (ops : GraphOps σ) (runtime : LocalRuntime) (context : ExecutionContext)
    (graph : σ) (placement : Placement) : Except ComfyExc σ :=
  placeSlot ops runtime context placement.inputName placement.key graph placement.slot

theorem requestedImages_accepted {template : ComfyTemplate} {lease : LeaseGrant}
    (hadmitted : LeaseAdmitted template lease) :
    requestedImages (acceptedRequest template lease) =
      .ok (membersOf (mediaValue lease imagesInputName)) := by
  have hmem : imagesInputName ∈ template.mediaNames := by
    rw [ComfyTemplate.mediaNames]
    split_ifs <;> exact List.mem_cons_self
  obtain ⟨bound, hvalue, -⟩ := hadmitted.media _ hmem
  rw [requestedImages, acceptedRequest, lookup_media hmem, hvalue]
  rfl

/-- Without audio slots there is nothing to place, whatever the request holds. -/
theorem requestedAudios_accepted {template : ComfyTemplate} (hvalid : ValidTemplate template)
    {lease : LeaseGrant} (hadmitted : LeaseAdmitted template lease) :
    ∃ audios, requestedAudios (acceptedRequest template lease) = .ok audios ∧
      (template.audioSlots ≠ [] → audios = membersOf (mediaValue lease audiosInputName)) := by
  by_cases haudios : template.audioSlots = []
  · have hnames : template.mediaNames = [imagesInputName] := if_pos haudios
    have hnone : (requestInputs template lease).lookup audiosInputName = none := by
      rw [requestInputs_eq, hnames, Dict.lookup_update_of_notMem, Dict.lookup_update_of_notMem]
      · rfl
      · intro hmem
        obtain ⟨⟨name, value⟩, hrow, rfl⟩ := List.mem_map.mp hmem
        obtain ⟨entry, hentry, hvalue⟩ := List.mem_filterMap.mp hrow
        obtain ⟨_, -, hpair⟩ := Option.map_eq_some_iff.mp hvalue
        have hfree := hvalid.names_free (entry.name, entry.nodeId)
          (List.mem_append_left _ (List.mem_map.mpr ⟨entry, hentry, rfl⟩))
        exact hfree.2 (congrArg Prod.fst hpair)
      · exact fun hmem => audios_ne_images (List.mem_singleton.mp hmem)
    refine ⟨[], ?_, fun h => absurd haudios h⟩
    rw [requestedAudios, acceptedRequest, hnone]
    rfl
  · have hmem : audiosInputName ∈ template.mediaNames := by
      rw [ComfyTemplate.mediaNames, if_neg haudios]
      exact List.mem_cons_of_mem _ List.mem_cons_self
    obtain ⟨bound, hvalue, -⟩ := hadmitted.media _ hmem
    refine ⟨bound, ?_, fun _ => ?_⟩
    · rw [requestedAudios, acceptedRequest, lookup_media hmem, hvalue]
      rfl
    · rw [hvalue]
      rfl

theorem inGraph_ok_bind {α β : Type} (a : α) (f : α → Except ComfyExc β) :
    inGraph (.ok a) >>= f = f a := rfl

/-- The edits for an accepted lease. -/
theorem editGraph_accepted {σ : Type} {ops : GraphOps σ} {runtime : LocalRuntime}
    {context : ExecutionContext} {template : ComfyTemplate} (hvalid : ValidTemplate template)
    {lease : LeaseGrant} (hadmitted : LeaseAdmitted template lease) (graph : σ) :
    editGraph ops runtime template context (acceptedRequest template lease) graph = (do
      let graph ← inGraph (template.inputs.foldlM
        (fillInput ops (acceptedRequest template lease)) graph)
      let graph ← (placements template lease).foldlM (place ops runtime context) graph
      inGraph (nameOutput ops template context graph)) := by
  obtain ⟨audios, haudios, hmembers⟩ := requestedAudios_accepted hvalid hadmitted
  have hplaced : ∀ graph : σ, (template.audioSlots.foldlM (fun graph slot =>
      placeSlot ops runtime context audioNodeInputName (keyOf audios slot) graph slot) graph) =
      (placementsOf lease audiosInputName audioNodeInputName template.audioSlots).foldlM
        (place ops runtime context) graph := by
    intro graph
    by_cases hslots : template.audioSlots = []
    · rw [hslots]
      rfl
    · rw [hmembers hslots, placementsOf, List.foldlM_map]
      rfl
  simp only [editGraph, requestedImages_accepted hadmitted, haudios, inGraph_ok_bind, hplaced]
  apply bind_congr
  intro filled
  rw [placements, List.foldlM_append, bind_assoc]
  apply congrArg (· >>= _)
  rw [placementsOf, List.foldlM_map]
  rfl

end ComfyWorkflowPlugin

end GpuWorkerPool
