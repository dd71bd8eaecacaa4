import GpuWorkerPool.ComfyJobs

/-!
When the edits for an accepted job fail. The validator lets through templates whose slots remove the
output or a node that another slot is bound at, and templates with nodes that have no inputs; on the
other jobs the edits find every node they need.
-/

namespace GpuWorkerPool

open Base ComfyWorkflowPlugin

/-- An edit failed. -/
def ComfyExc.IsGraph : ComfyExc → Prop
  | .graph _ => True
  | .agent _ => False

/-- Something that was awaited failed. -/
def ComfyExc.IsAwaited : ComfyExc → Prop
  | .graph _ => False
  | .agent _ => True

/-- The nodes that go with the slots that are bound to nothing. -/
def removedBy : List Placement → Finset String
  | [] => ∅
  | placement :: rest =>
      (if placement.key = none then placement.slot.removedNodeIds else ∅) ∪ removedBy rest

def removedNodes (template : ComfyTemplate) (lease : LeaseGrant) : Finset String :=
  removedBy (placements template lease)

theorem inGraph_ok_iff {α : Type} {p : Except GraphExc α} {a : α} :
    inGraph p = .ok a ↔ p = .ok a := by
  cases p <;> simp [inGraph]

theorem awaited_ok_iff {α : Type} {p : Except AgentExc α} {a : α} :
    awaited p = .ok a ↔ p = .ok a := by
  cases p <;> simp [awaited]

theorem raises_inGraph {α : Type} (p : Except GraphExc α) :
    Raises ComfyExc.IsGraph (inGraph p) := by
  cases p <;> exact trivial

theorem raises_awaited {α : Type} (p : Except AgentExc α) :
    Raises ComfyExc.IsAwaited (awaited p) := by
  cases p <;> exact trivial

section Edits

variable {allowed : String → String → JsonValue → Prop} {original graph graph' : Graph}
  {removed : Finset String} {runtime : LocalRuntime} {context : ExecutionContext}

theorem succeeds_setNodeInput_iff {nodeId inputName : String} {value : JsonValue} :
    Succeeds (setNodeInput graphOps graph nodeId inputName value) ↔ Editable graph nodeId := by
  constructor
  · intro h
    obtain ⟨_, h⟩ := h
    obtain ⟨node, inputs, hfound, -⟩ := editInputs_ok_iff.mp h
    exact ⟨node, inputs, hfound⟩
  · intro h
    obtain ⟨node, inputs, hfound⟩ := h
    exact ⟨_, editInputs_ok_iff.mpr ⟨node, inputs, hfound, rfl⟩⟩

/-- A drop succeeds when all nodes that it leaves have inputs. -/
theorem Framed.succeeds_drop_iff (h : Framed allowed original removed graph) {slot : ImageSlot} :
    Succeeds (dropSlot graph slot) ↔
      ∀ nodeId, (original.lookup nodeId).isSome → nodeId ∉ removed →
        nodeId ∉ slot.removedNodeIds → Editable original nodeId := by
  rw [Succeeds]
  simp only [dropSlot_ok_iff, exists_and_left, exists_eq', and_true]
  constructor
  · intro hall nodeId hdeclared hkept hleft
    obtain ⟨node, hnode⟩ := Option.isSome_iff_exists.mp (h.mem_iff.mpr ⟨hdeclared, hkept⟩)
    obtain ⟨inputs, hinputs⟩ := hall (nodeId, node)
      (List.mem_filter.mpr ⟨Dict.lookup_eq_some_iff.mp hnode, decide_eq_true hleft⟩)
    exact (h.editable_iff.mp ⟨node, inputs, hnode, hinputs⟩).1
  · intro hall row hrow
    obtain ⟨hrow, hleft⟩ := List.mem_filter.mp hrow
    have hnode : graph.lookup row.1 = some row.2 := Dict.lookup_eq_some_iff.mpr hrow
    obtain ⟨hdeclared, hkept⟩ := h.mem_iff.mp (Option.isSome_iff_exists.mpr ⟨_, hnode⟩)
    obtain ⟨node, inputs, hnode', hinputs⟩ := h.editable_iff.mpr
      ⟨hall row.1 hdeclared hkept (of_decide_eq_true hleft), hkept⟩
    obtain rfl := Option.some.inj (hnode.symm.trans hnode')
    exact ⟨inputs, hinputs⟩

/-! ### The slots -/

/-- The upload that a placement writes is allowed where it is written. -/
def AllowsUpload (allowed : String → String → JsonValue → Prop) (runtime : LocalRuntime)
    (context : ExecutionContext) (placement : Placement) : Prop :=
  ∀ key source name, placement.key = some key → context.inputPaths.lookup key = some source →
    runtime.upload context placement.slot.name source = .ok name →
    allowed placement.slot.nodeId placement.inputName (.str name)

theorem place_unbound {placement : Placement} (hkey : placement.key = none) :
    place graphOps runtime context graph placement =
      inGraph (dropSlot graph placement.slot) := by
  rw [place, hkey]
  rfl

theorem place_bound {placement : Placement} {key : String} (hkey : placement.key = some key) :
    place graphOps runtime context graph placement = (do
      let source ← inGraph (inputPath context key)
      let name ← awaited (runtime.upload context placement.slot.name source)
      inGraph (setNodeInput graphOps graph placement.slot.nodeId placement.inputName
        (.str name))) := by
  rw [place, hkey]
  rfl

theorem place_bound_ok_iff {placement : Placement} {key : String}
    (hkey : placement.key = some key) :
    place graphOps runtime context graph placement = .ok graph' ↔
      ∃ source name, context.inputPaths.lookup key = some source ∧
        runtime.upload context placement.slot.name source = .ok name ∧
        setNodeInput graphOps graph placement.slot.nodeId placement.inputName (.str name) =
          .ok graph' := by
  rw [place_bound hkey]
  simp only [bind_ok_iff, inGraph_ok_iff, awaited_ok_iff]
  have hpath : ∀ source, inputPath context key = .ok source ↔
      context.inputPaths.lookup key = some source := by
    intro source
    rw [inputPath]
    cases context.inputPaths.lookup key <;> simp
  simp only [hpath, exists_and_left]

/-- One turn of a loop over the slots. -/
theorem Framed.place (h : Framed allowed original removed graph) {placement : Placement}
    (hupload : AllowsUpload allowed runtime context placement)
    (hok : ComfyWorkflowPlugin.place graphOps runtime context graph placement = .ok graph') :
    Framed allowed original (removed ∪ removedBy [placement]) graph' := by
  cases hkey : placement.key with
  | none =>
      have hremoved : removedBy [placement] = placement.slot.removedNodeIds := by
        simp [removedBy, hkey]
      rw [place_unbound hkey] at hok
      rw [hremoved]
      exact h.drop (inGraph_ok_iff.mp hok)
  | some key =>
      have hremoved : removedBy [placement] = ∅ := by simp [removedBy, hkey]
      obtain ⟨source, name, hpath, hname, hset⟩ := (place_bound_ok_iff hkey).mp hok
      rw [hremoved, Finset.union_empty]
      exact h.put (hupload key source name hkey hpath hname) (not_linksInto_text _ _) hset

theorem removedBy_cons (placement : Placement) (rest : List Placement) (removed : Finset String) :
    removed ∪ removedBy (placement :: rest) =
      removed ∪ removedBy [placement] ∪ removedBy rest := by
  simp [removedBy, Finset.union_assoc]

/-- All turns of the loops over the slots. -/
theorem Framed.placed {placements : List Placement} (h : Framed allowed original removed graph)
    (hupload : ∀ placement ∈ placements, AllowsUpload allowed runtime context placement)
    (hok : placements.foldlM (ComfyWorkflowPlugin.place graphOps runtime context) graph = .ok graph') :
    Framed allowed original (removed ∪ removedBy placements) graph' := by
  induction placements generalizing graph removed with
  | nil =>
      rw [List.foldlM_nil, pure_ok_iff] at hok
      rw [← hok, removedBy, Finset.union_empty]
      exact h
  | cons placement rest ih =>
      rw [List.forall_mem_cons] at hupload
      rw [List.foldlM_cons, bind_ok_iff] at hok
      obtain ⟨next, hnext, hrest⟩ := hok
      rw [removedBy_cons]
      exact ih (h.place hupload.1 hnext) hupload.2 hrest

/-- What the placements need of the graph: bound slots at nodes with inputs that stay, and inputs
at every node that the first drop leaves. -/
structure Ready (original : Graph) (removed : Finset String) (placements : List Placement) :
    Prop where
  bound : ∀ placement ∈ placements, placement.key ≠ none →
    Editable original placement.slot.nodeId ∧
      placement.slot.nodeId ∉ removed ∪ removedBy placements
  unbound : ∀ first, placements.find? (·.key.isNone) = some first → ∀ nodeId,
    (original.lookup nodeId).isSome → nodeId ∉ removed → nodeId ∉ first.slot.removedNodeIds →
    Editable original nodeId

theorem ready_bound_iff {placement : Placement} {rest : List Placement} {key : String}
    (hkey : placement.key = some key) :
    Ready original removed (placement :: rest) ↔
      (Editable original placement.slot.nodeId ∧
        placement.slot.nodeId ∉ removed ∪ removedBy rest) ∧ Ready original removed rest := by
  have hremoved : removedBy (placement :: rest) = removedBy rest := by simp [removedBy, hkey]
  have hfirst : (placement :: rest).find? (·.key.isNone) = rest.find? (·.key.isNone) := by
    simp [hkey]
  constructor
  · intro h
    have hbound := h.bound
    have hunbound := h.unbound
    rw [hremoved, List.forall_mem_cons] at hbound
    rw [hfirst] at hunbound
    exact ⟨hbound.1 (by rw [hkey]; exact Option.some_ne_none key), hbound.2, hunbound⟩
  · intro h
    obtain ⟨hfit, hrest⟩ := h
    refine ⟨?_, by rw [hfirst]; exact hrest.unbound⟩
    rw [hremoved, List.forall_mem_cons]
    exact ⟨fun _ => hfit, hrest.bound⟩

theorem ready_unbound_iff {placement : Placement} {rest : List Placement}
    (hkey : placement.key = none) :
    Ready original removed (placement :: rest) ↔
      (∀ nodeId, (original.lookup nodeId).isSome → nodeId ∉ removed →
        nodeId ∉ placement.slot.removedNodeIds → Editable original nodeId) ∧
      Ready original (removed ∪ placement.slot.removedNodeIds) rest := by
  have hremoved : removed ∪ removedBy (placement :: rest) =
      removed ∪ placement.slot.removedNodeIds ∪ removedBy rest := by
    simp [removedBy, hkey, Finset.union_assoc]
  have hfirst : (placement :: rest).find? (·.key.isNone) = some placement := by
    simp [hkey]
  constructor
  · intro h
    have hbound := h.bound
    have hunbound := h.unbound placement hfirst
    rw [hremoved, List.forall_mem_cons] at hbound
    refine ⟨hunbound, hbound.2, fun _ _ nodeId hdeclared hkept _ => ?_⟩
    rw [Finset.mem_union, not_or] at hkept
    exact hunbound nodeId hdeclared hkept.1 hkept.2
  · intro h
    obtain ⟨hfit, hrest⟩ := h
    constructor
    · rw [hremoved, List.forall_mem_cons]
      exact ⟨fun hbound => absurd hkey hbound, hrest.bound⟩
    · intro first hsome
      rw [hfirst] at hsome
      obtain rfl := Option.some.inj hsome
      exact hfit

/-- Ready placements end in a graph unless something they await fails. -/
theorem Framed.raises_placed {placements : List Placement}
    (h : Framed (fun _ _ _ => True) original removed graph)
    (hready : Ready original removed placements)
    (hpaths : ∀ placement ∈ placements, ∀ key, placement.key = some key →
      (context.inputPaths.lookup key).isSome) :
    Raises ComfyExc.IsAwaited
      (placements.foldlM (ComfyWorkflowPlugin.place graphOps runtime context) graph) := by
  induction placements generalizing graph removed with
  | nil => exact raises_pure _
  | cons placement rest ih =>
      rw [List.forall_mem_cons] at hpaths
      rw [List.foldlM_cons]
      cases hkey : placement.key with
      | none =>
          obtain ⟨hfit, hrest⟩ := (ready_unbound_iff hkey).mp hready
          obtain ⟨next, hnext⟩ := h.succeeds_drop_iff.mpr hfit
          rw [place_unbound hkey, inGraph_ok_iff.mpr hnext]
          exact ih (h.drop hnext) hrest hpaths.2
      | some key =>
          obtain ⟨⟨heditable, hkept⟩, hrest⟩ := (ready_bound_iff hkey).mp hready
          rw [Finset.mem_union, not_or] at hkept
          obtain ⟨source, hsource⟩ := Option.isSome_iff_exists.mp (hpaths.1 key hkey)
          have hpath : inputPath context key = .ok source := by rw [inputPath, hsource]
          rw [place_bound hkey, hpath, inGraph_ok_bind, bind_assoc]
          refine (raises_awaited _).bind fun name _ => ?_
          have hset : Succeeds (setNodeInput graphOps graph placement.slot.nodeId
              placement.inputName (.str name)) :=
            succeeds_setNodeInput_iff.mpr (h.editable_iff.mpr ⟨heditable, hkept.1⟩)
          obtain ⟨next, hnext⟩ := hset
          rw [inGraph_ok_iff.mpr hnext]
          exact ih (h.put trivial (not_linksInto_text _ _) hnext) hrest hpaths.2

/-- Placements that end in a graph were ready, if no node that is bound is removed later. -/
theorem Framed.ready_of_placed {placements : List Placement}
    (h : Framed (fun _ _ _ => True) original removed graph)
    (hkept : ∀ placement ∈ placements, placement.key ≠ none →
      placement.slot.nodeId ∉ removed ∪ removedBy placements)
    (hok : placements.foldlM (ComfyWorkflowPlugin.place graphOps runtime context) graph =
      .ok graph') : Ready original removed placements := by
  induction placements generalizing graph removed with
  | nil =>
      refine ⟨List.forall_mem_nil _, fun first hfirst => ?_⟩
      cases hfirst
  | cons placement rest ih =>
      rw [List.foldlM_cons, bind_ok_iff] at hok
      obtain ⟨next, hnext, hrest⟩ := hok
      rw [removedBy_cons, List.forall_mem_cons] at hkept
      have hframed := h.place (fun _ _ _ _ _ _ => trivial) hnext
      have hready := ih hframed hkept.2 hrest
      cases hkey : placement.key with
      | none =>
          rw [place_unbound hkey, inGraph_ok_iff] at hnext
          have hremoved : removedBy [placement] = placement.slot.removedNodeIds := by
            simp [removedBy, hkey]
          rw [hremoved] at hready
          exact (ready_unbound_iff hkey).mpr ⟨h.succeeds_drop_iff.mp ⟨next, hnext⟩, hready⟩
      | some key =>
          have hremoved : removedBy [placement] = ∅ := by simp [removedBy, hkey]
          obtain ⟨_, _, -, -, hset⟩ := (place_bound_ok_iff hkey).mp hnext
          have heditable := h.editable_iff.mp (succeeds_setNodeInput_iff.mp ⟨next, hset⟩)
          rw [hremoved, Finset.union_empty] at hready hkept
          refine (ready_bound_iff hkey).mpr ⟨⟨heditable.1, hkept.1 ?_⟩, hready⟩
          rw [hkey]
          exact Option.some_ne_none key

/-! ### The declared inputs and the output -/

theorem Framed.fill {request : ValidatedRequest} {entry : TemplateInput}
    (h : Framed allowed original ∅ graph)
    (hallowed : ∀ value, request.inputs.lookup entry.name = some value →
      allowed entry.nodeId entry.inputName value)
    (hok : fillInput graphOps request graph entry = .ok graph') :
    Framed allowed original ∅ graph' := by
  rw [fillInput] at hok
  cases hvalue : request.inputs.lookup entry.name with
  | none =>
      rw [hvalue] at hok
      exact Except.ok.inj hok ▸ h
  | some value =>
      rw [hvalue] at hok
      refine h.put (hallowed value hvalue) (fun hlinks => ?_) hok
      obtain ⟨_, hremoved, -⟩ := hlinks
      exact absurd hremoved (Finset.notMem_empty _)

theorem Framed.filled {request : ValidatedRequest} {entries : List TemplateInput}
    (h : Framed allowed original ∅ graph)
    (hallowed : ∀ entry ∈ entries, ∀ value, request.inputs.lookup entry.name = some value →
      allowed entry.nodeId entry.inputName value)
    (hok : entries.foldlM (fillInput graphOps request) graph = .ok graph') :
    Framed allowed original ∅ graph' := by
  induction entries generalizing graph with
  | nil => exact Except.ok.inj hok ▸ h
  | cons entry rest ih =>
      rw [List.forall_mem_cons] at hallowed
      rw [List.foldlM_cons, bind_ok_iff] at hok
      obtain ⟨next, hnext, hrest⟩ := hok
      exact ih (h.fill hallowed.1 hnext) hallowed.2 hrest

theorem Framed.succeeds_filled_iff {request : ValidatedRequest} {entries : List TemplateInput}
    (h : Framed (fun _ _ _ => True) original ∅ graph) :
    Succeeds (entries.foldlM (fillInput graphOps request) graph) ↔
      ∀ entry ∈ entries, (request.inputs.lookup entry.name).isSome →
        Editable original entry.nodeId := by
  induction entries generalizing graph with
  | nil => exact ⟨fun _ => List.forall_mem_nil _, fun _ => succeeds_ok graph⟩
  | cons entry rest ih =>
      rw [List.foldlM_cons, succeeds_bind_iff, List.forall_mem_cons]
      have hfirst : Succeeds (fillInput graphOps request graph entry) ↔
          ((request.inputs.lookup entry.name).isSome → Editable original entry.nodeId) := by
        rw [fillInput]
        cases request.inputs.lookup entry.name with
        | none => simp [Succeeds, pure, Except.pure]
        | some value =>
            rw [succeeds_setNodeInput_iff, h.editable_iff]
            simp
      rw [← hfirst]
      constructor
      · intro hsucceeds
        obtain ⟨next, hnext, hrest⟩ := hsucceeds
        exact ⟨⟨next, hnext⟩, (ih (h.fill (fun _ _ => trivial) hnext)).mp hrest⟩
      · intro hsucceeds
        obtain ⟨⟨next, hnext⟩, hrest⟩ := hsucceeds
        exact ⟨next, hnext, (ih (h.fill (fun _ _ => trivial) hnext)).mpr hrest⟩

theorem nodeInputs_ok_iff {nodeId : String} {inputs : List (String × JsonValue)} :
    nodeInputs graph nodeId = .ok inputs ↔
      ∃ node, graph.lookup nodeId = some node ∧ HasInputs node inputs := by
  rw [nodeInputs]
  cases graph.lookup nodeId <;> simp [HasInputs]

/-- The output is named where it has a prefix, and else left as it is. -/
theorem nameOutput_ok_iff {template : ComfyTemplate} :
    nameOutput graphOps template context graph = .ok graph' ↔
      Editable graph template.outputNodeId ∧
        if (inputAt graph template.outputNodeId filenamePrefixInputName).isSome then
          setNodeInput graphOps graph template.outputNodeId filenamePrefixInputName
            (outputPrefix context) = .ok graph'
        else graph = graph' := by
  rw [nameOutput, bind_ok_iff]
  constructor
  · intro h
    obtain ⟨inputs, hinputs, hnamed⟩ := h
    have hinputs : nodeInputs graph template.outputNodeId = .ok inputs := hinputs
    obtain ⟨node, hfound⟩ := nodeInputs_ok_iff.mp hinputs
    refine ⟨⟨node, inputs, hfound⟩, ?_⟩
    rw [inputAt, hinputs]
    split_ifs at hnamed ⊢ with hprefix
    · exact hnamed
    · exact pure_ok_iff.mp hnamed
  · intro h
    obtain ⟨⟨node, inputs, hfound⟩, hnamed⟩ := h
    have hinputs : nodeInputs graph template.outputNodeId = .ok inputs :=
      nodeInputs_ok_iff.mpr ⟨node, hfound⟩
    refine ⟨inputs, hinputs, ?_⟩
    rw [inputAt, hinputs] at hnamed
    split_ifs at hnamed ⊢ with hprefix
    · exact hnamed
    · exact pure_ok_iff.mpr hnamed

theorem succeeds_nameOutput_iff {template : ComfyTemplate} :
    Succeeds (nameOutput graphOps template context graph) ↔
      Editable graph template.outputNodeId := by
  rw [Succeeds]
  simp only [nameOutput_ok_iff, exists_and_left, and_iff_left_iff_imp]
  intro heditable
  split_ifs
  · exact succeeds_setNodeInput_iff.mpr heditable
  · exact ⟨graph, rfl⟩

theorem Framed.named {template : ComfyTemplate} (h : Framed allowed original removed graph)
    (hallowed : (inputAt graph template.outputNodeId filenamePrefixInputName).isSome →
      allowed template.outputNodeId filenamePrefixInputName (outputPrefix context))
    (hok : nameOutput graphOps template context graph = .ok graph') :
    Framed allowed original removed graph' := by
  obtain ⟨-, hnamed⟩ := nameOutput_ok_iff.mp hok
  split_ifs at hnamed with hpresent
  · exact h.put (hallowed hpresent) (not_linksInto_text _ _) hnamed
  · exact hnamed ▸ h

end Edits

/-! ### Safe jobs -/

/-- The agent downloaded every granted input. -/
def CoversInputs (context : ExecutionContext) (lease : LeaseGrant) : Prop :=
  ∀ key ∈ lease.inputKeys, (context.inputPaths.lookup key).isSome

/-- The submitted graph has the output node and the node of every bound slot, and no input links to
a removed node. -/
structure WellPlaced (template : ComfyTemplate) (lease : LeaseGrant) (graph : Graph) : Prop where
  output : (graph.lookup template.outputNodeId).isSome
  bound : ∀ placement ∈ placements template lease, placement.key ≠ none →
    (graph.lookup placement.slot.nodeId).isSome
  unlinked : ∀ nodeId node inputs, graph.lookup nodeId = some node → HasInputs node inputs →
    ∀ row ∈ inputs, ¬ LinksInto (removedNodes template lease) row.2

/-- No edit fails, and what is submitted is well placed. -/
def SafeOutcome (template : ComfyTemplate) (lease : LeaseGrant) (outcome : Except ComfyExc Graph) :
    Prop :=
  Raises ComfyExc.IsAwaited outcome ∧ ∀ graph, outcome = .ok graph → WellPlaced template lease graph

/-- What a job needs of its template: inputs at every node it writes to, at the output, and at the
nodes that the first drop leaves; and no unbound slot removes the output or the node of a bound
slot. -/
structure FitsJob (template : ComfyTemplate) (lease : LeaseGrant) : Prop where
  inputs : ∀ entry ∈ template.inputs, (filledInput lease.payload entry).isSome →
    Editable (templateGraph template) entry.nodeId
  bound : ∀ placement ∈ placements template lease, placement.key ≠ none →
    Editable (templateGraph template) placement.slot.nodeId ∧
      placement.slot.nodeId ∉ removedNodes template lease
  unbound : ∀ first, (placements template lease).find? (·.key.isNone) = some first →
    ∀ nodeId, ((templateGraph template).lookup nodeId).isSome →
      nodeId ∉ first.slot.removedNodeIds → Editable (templateGraph template) nodeId
  output : Editable (templateGraph template) template.outputNodeId ∧
    template.outputNodeId ∉ removedNodes template lease

theorem ready_iff {original : Graph} {placements : List Placement} :
    Ready original ∅ placements ↔
      (∀ placement ∈ placements, placement.key ≠ none →
        Editable original placement.slot.nodeId ∧
          placement.slot.nodeId ∉ removedBy placements) ∧
      ∀ first, placements.find? (·.key.isNone) = some first → ∀ nodeId,
        (original.lookup nodeId).isSome → nodeId ∉ first.slot.removedNodeIds →
        Editable original nodeId := by
  constructor
  · intro h
    have hbound := h.bound
    rw [Finset.empty_union] at hbound
    exact ⟨hbound, fun first hfirst nodeId hdeclared =>
      h.unbound first hfirst nodeId hdeclared (Finset.notMem_empty _)⟩
  · intro h
    obtain ⟨hbound, hunbound⟩ := h
    refine ⟨?_, fun first hfirst nodeId hdeclared _ => hunbound first hfirst nodeId hdeclared⟩
    rw [Finset.empty_union]
    exact hbound

/-- The names of every object of inputs in a template are distinct. -/
theorem distinctInputs_templateGraph (template : ComfyTemplate) :
    DistinctInputs (templateGraph template) := by
  intro nodeId node inputs hnode hinputs
  have hmem := Dict.mem_of_mem_ofPairs (Dict.lookup_eq_some_iff.mp hnode)
  have hform := (JsonValue.wellFormed_dict.mp template.graph.wellFormed).2 _ hmem
  obtain ⟨members, rfl, hlookup⟩ := hasInputs_iff.mp hinputs
  have hmember := (JsonValue.wellFormed_dict.mp hform).2 _ (JsonValue.mem_of_lookup hlookup)
  exact (JsonValue.wellFormed_dict.mp hmember).1

/-- A slot is bound to a granted key only. -/
theorem granted_of_placement {template : ComfyTemplate} {lease : LeaseGrant}
    (hadmitted : LeaseAdmitted template lease) {placement : Placement}
    (hplacement : placement ∈ placements template lease) {key : String}
    (hkey : placement.key = some key) : key ∈ lease.inputKeys := by
  have hgranted : ∀ mediaName slots slot, slot ∈ slots →
      (slots ≠ [] → mediaName ∈ template.mediaNames) →
      keyOf (membersOf (mediaValue lease mediaName)) slot = some key → key ∈ lease.inputKeys := by
    intro mediaName slots slot hslot hmedia hkeyOf
    obtain ⟨bound, hvalue, -, -, hgrants⟩ := hadmitted.media mediaName
      (hmedia (List.ne_nil_of_mem hslot))
    rw [hvalue, keyOf] at hkeyOf
    cases hlookup : (membersOf (.dict bound)).lookup slot.name with
    | none =>
        rw [hlookup] at hkeyOf
        cases hkeyOf
    | some value =>
        obtain ⟨key', hkey', heq⟩ := hgrants _ (JsonValue.mem_of_lookup hlookup)
        obtain rfl : value = .str key' := heq
        rw [hlookup] at hkeyOf
        exact Option.some.inj hkeyOf ▸ hkey'
  rcases List.mem_append.mp hplacement with himage | haudio
  · obtain ⟨slot, hslot, rfl⟩ := List.mem_map.mp himage
    refine hgranted imagesInputName template.imageSlots slot hslot (fun _ => ?_) hkey
    rw [ComfyTemplate.mediaNames]
    split_ifs <;> exact List.mem_cons_self
  · obtain ⟨slot, hslot, rfl⟩ := List.mem_map.mp haudio
    refine hgranted audiosInputName template.audioSlots slot hslot (fun haudios => ?_) hkey
    rw [ComfyTemplate.mediaNames, if_neg haudios]
    exact List.mem_cons_of_mem _ List.mem_cons_self

/-- The parts of the edits that end in a graph. -/
theorem submittedGraph_ok_cases {runtime : LocalRuntime} {context : ExecutionContext}
    {template : ComfyTemplate} (hvalid : ValidTemplate template) {lease : LeaseGrant}
    (hadmitted : LeaseAdmitted template lease) {graph : Graph}
    (h : submittedGraph runtime template context (acceptedRequest template lease) = .ok graph) :
    ∃ filled placed,
      template.inputs.foldlM (fillInput graphOps (acceptedRequest template lease))
        (templateGraph template) = .ok filled ∧
      (placements template lease).foldlM (place graphOps runtime context) filled = .ok placed ∧
      nameOutput graphOps template context placed = .ok graph := by
  rw [submittedGraph, editGraph_accepted hvalid hadmitted, bind_ok_iff] at h
  obtain ⟨filled, hfilled, h⟩ := h
  obtain ⟨placed, hplaced, hnamed⟩ := bind_ok_iff.mp h
  exact ⟨filled, placed, inGraph_ok_iff.mp hfilled, hplaced, inGraph_ok_iff.mp hnamed⟩

/-- A local runtime that stores every upload. -/
def storingRuntime : LocalRuntime where
  readBytes _ := .ok []
  uploadImage _ _ _ := .ok ⟨200, .dict [("name", .str "stored.png")]⟩

/-- The context of a job with all its inputs in one file. -/
def storingContext (lease : LeaseGrant) : ExecutionContext where
  jobId := lease.jobId
  leaseId := lease.claimToken
  deadline := 0
  workspace := .ofText "/work"
  inputPaths := .ofPairs (lease.inputKeys.map fun key => (key, .ofText "/work/input"))

theorem coversInputs_storingContext (lease : LeaseGrant) :
    CoversInputs (storingContext lease) lease := by
  intro key hkey
  rw [Dict.isSome_lookup_iff, storingContext, Dict.keys_ofPairs, List.map_map]
  exact List.mem_map.mpr ⟨key, hkey, rfl⟩

theorem raises_place_storing {context : ExecutionContext} {graph : Graph} (placement : Placement) :
    Raises ComfyExc.IsGraph (place graphOps storingRuntime context graph placement) := by
  cases hkey : placement.key with
  | none =>
      rw [place_unbound hkey]
      exact raises_inGraph _
  | some key =>
      rw [place_bound hkey]
      refine (raises_inGraph _).bind fun source _ => Raises.bind ?_ fun name _ => raises_inGraph _
      have hname : storingRuntime.upload context placement.slot.name source = .ok "stored.png" := rfl
      rw [hname]
      exact trivial

theorem raises_submitted_storing (context : ExecutionContext) {template : ComfyTemplate}
    (hvalid : ValidTemplate template) {lease : LeaseGrant}
    (hadmitted : LeaseAdmitted template lease) :
    Raises ComfyExc.IsGraph
      (submittedGraph storingRuntime template context (acceptedRequest template lease)) := by
  rw [submittedGraph, editGraph_accepted hvalid hadmitted]
  refine (raises_inGraph _).bind fun filled _ => ?_
  refine (raises_foldlM (fun graph placement _ => raises_place_storing placement) filled).bind ?_
  exact fun placed _ => raises_inGraph _

theorem wellPlaced_of_framed {allowed : String → String → JsonValue → Prop}
    {template : ComfyTemplate} {lease : LeaseGrant} {graph : Graph}
    (hframed : Framed allowed (templateGraph template) (removedNodes template lease) graph)
    (hfits : FitsJob template lease) : WellPlaced template lease graph where
  output := by
    obtain ⟨⟨node, _, hnode, -⟩, hkept⟩ := hfits.output
    exact hframed.mem_iff.mpr ⟨Option.isSome_iff_exists.mpr ⟨node, hnode⟩, hkept⟩
  bound := by
    intro placement hplacement hkey
    obtain ⟨⟨node, _, hnode, -⟩, hkept⟩ := hfits.bound placement hplacement hkey
    exact hframed.mem_iff.mpr ⟨Option.isSome_iff_exists.mpr ⟨node, hnode⟩, hkept⟩
  unlinked := by
    intro nodeId node inputs hnode hinputs row hrow
    obtain ⟨before, -, hnodeFramed⟩ := hframed.nodes nodeId node hnode
    obtain ⟨_, -, -, hinputsFramed⟩ := hnodeFramed.hasInputs hinputs
    have hlookup := JsonValue.lookup_eq_of_mem hinputsFramed.nodup hrow
    exact (hinputsFramed.present _ _ hlookup).2

/-- Exactly the jobs that fit their template are built safely, whatever the local runtime does. -/
theorem validated_job_safe_iff {registry : TemplateRegistry} {template : ComfyTemplate}
    {lease : LeaseGrant} {request : ValidatedRequest}
    (htemplate : registry.get? lease.capabilityId = some template)
    (hvalidated : validateTemplate template = .ok ())
    (haccepted : validate registry lease = .ok request) :
    (∀ runtime context, CoversInputs context lease →
        SafeOutcome template lease (submittedGraph runtime template context request)) ↔
      FitsJob template lease := by
  have hvalid := validateTemplate_ok_iff.mp hvalidated
  rw [validate, htemplate] at haccepted
  obtain ⟨hadmitted, rfl⟩ := (validateLease_ok_iff hvalid).mp haccepted
  have hstart : ∀ allowed, Framed allowed (templateGraph template) ∅ (templateGraph template) :=
    fun _ => Framed.refl (distinctInputs_templateGraph template)
  have hinputs : ∀ entry ∈ template.inputs,
      (acceptedRequest template lease).inputs.lookup entry.name =
        filledInput lease.payload entry := fun entry hentry => lookup_filled hvalid hentry
  constructor
  · intro hsafe
    obtain ⟨hraises, hplaced⟩ := hsafe storingRuntime (storingContext lease)
      (coversInputs_storingContext lease)
    have hstored := raises_submitted_storing (storingContext lease) hvalid hadmitted
    cases hgraph : submittedGraph storingRuntime template (storingContext lease)
        (acceptedRequest template lease) with
    | error error =>
        rw [hgraph] at hraises hstored
        cases error with
        | graph _ => exact absurd hraises id
        | agent _ => exact absurd hstored id
    | ok graph =>
        have hwell := hplaced graph hgraph
        obtain ⟨filled, placed, hfilled, hplaced, hnamed⟩ :=
          submittedGraph_ok_cases hvalid hadmitted hgraph
        have hfilledFramed := (hstart fun _ _ _ => True).filled (fun _ _ _ _ => trivial) hfilled
        have hplacedFramed := hfilledFramed.placed (fun _ _ _ _ _ _ _ _ => trivial) hplaced
        have hframed := hplacedFramed.named (fun _ => trivial) hnamed
        rw [Finset.empty_union] at hframed hplacedFramed
        have hready := hfilledFramed.ready_of_placed (fun placement hmem hkey => by
          rw [Finset.empty_union]
          exact (hframed.mem_iff.mp (hwell.bound placement hmem hkey)).2) hplaced
        obtain ⟨hbound, hunbound⟩ := ready_iff.mp hready
        refine ⟨fun entry hentry hfill => ?_, hbound, hunbound, ?_⟩
        · rw [← hinputs entry hentry] at hfill
          exact (hstart _).succeeds_filled_iff.mp ⟨filled, hfilled⟩ entry hentry hfill
        · exact hplacedFramed.editable_iff.mp (succeeds_nameOutput_iff.mp ⟨graph, hnamed⟩)
  · intro hfits runtime context hcovers
    have hpaths : ∀ placement ∈ placements template lease, ∀ key, placement.key = some key →
        (context.inputPaths.lookup key).isSome := by
      intro placement hplacement key hkey
      exact hcovers key (granted_of_placement hadmitted hplacement hkey)
    obtain ⟨filled, hfilled⟩ := (hstart _).succeeds_filled_iff.mpr fun entry hentry hfill =>
      hfits.inputs entry hentry (hinputs entry hentry ▸ hfill)
    have hfilledFramed := (hstart fun _ _ _ => True).filled (fun _ _ _ _ => trivial) hfilled
    have hready := ready_iff.mpr ⟨hfits.bound, hfits.unbound⟩
    refine ⟨?_, fun graph hgraph => ?_⟩
    · rw [submittedGraph, editGraph_accepted hvalid hadmitted, inGraph_ok_iff.mpr hfilled]
      refine (hfilledFramed.raises_placed hready hpaths).bind fun placed hplaced => ?_
      have hplacedFramed := hfilledFramed.placed (fun _ _ _ _ _ _ _ _ => trivial) hplaced
      rw [Finset.empty_union] at hplacedFramed
      obtain ⟨graph, hnamed⟩ := succeeds_nameOutput_iff.mpr
        (hplacedFramed.editable_iff.mpr hfits.output)
      rw [inGraph_ok_iff.mpr hnamed]
      exact trivial
    · obtain ⟨filled', placed, hfilled', hplaced, hnamed⟩ :=
        submittedGraph_ok_cases hvalid hadmitted hgraph
      have hfilledFramed' := (hstart fun _ _ _ => True).filled (fun _ _ _ _ => trivial) hfilled'
      have hplacedFramed := hfilledFramed'.placed (fun _ _ _ _ _ _ _ _ => trivial) hplaced
      have hframed := hplacedFramed.named (fun _ => trivial) hnamed
      rw [Finset.empty_union] at hframed
      exact wellPlaced_of_framed hframed hfits

theorem validate_boundPortrait :
    validate (.ofTemplates [portraitTemplate]) boundPortrait =
      .ok (acceptedRequest portraitTemplate boundPortrait) := rfl

theorem validated_job_safe_iff_portrait :
    (∀ runtime context, CoversInputs context boundPortrait →
      SafeOutcome portraitTemplate boundPortrait (submittedGraph runtime portraitTemplate context
        (acceptedRequest portraitTemplate boundPortrait))) ↔
      FitsJob portraitTemplate boundPortrait :=
  validated_job_safe_iff rfl (by decide) validate_boundPortrait

/-- The portrait with its output among the nodes that go with the reference image. -/
def overreachingTemplate : ComfyTemplate :=
  { portraitTemplate with
    imageSlots := [{ name := "ref", nodeId := "2", dependentNodeIds := ["3", "12"] }] }

/-- A job without the reference image removes its own output node. -/
theorem validated_job_crashes :
    templateFromDocument overreachingTemplate = .ok overreachingTemplate ∧
      validateTemplate overreachingTemplate = .ok () ∧ ∃ request,
      validate (.ofTemplates [overreachingTemplate]) plainPortrait = .ok request ∧
      CoversInputs (storingContext plainPortrait) plainPortrait ∧
      submittedGraph storingRuntime overreachingTemplate (storingContext plainPortrait) request =
        .error (.graph .keyError) :=
  ⟨rfl, by decide, _, rfl, coversInputs_storingContext _, rfl⟩

end GpuWorkerPool
