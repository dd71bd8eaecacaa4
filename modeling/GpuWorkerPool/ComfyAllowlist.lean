import GpuWorkerPool.ComfySafety

/-!
What a job can change of a workflow. Each value that the edits write is the job's value or the
default of a declared input, the name of an upload, or the prefix of the output, and it is written
where the template allows it.
-/

namespace GpuWorkerPool

open Base ComfyWorkflowPlugin

/-- The name of an upload, at the input of the node of a bound slot. -/
inductive Uploaded (runtime : LocalRuntime) (context : ExecutionContext)
    (placements : List Placement) : String → String → JsonValue → Prop where
  | intro {placement : Placement} {key : String} {source : PosixPath} {name : String}
      (hplacement : placement ∈ placements) (hkey : placement.key = some key)
      (hsource : context.inputPaths.lookup key = some source)
      (hname : runtime.upload context placement.slot.name source = .ok name) :
      Uploaded runtime context placements placement.slot.nodeId placement.inputName (.str name)

/-- The value of the job, which the input describes, or else the default of the template. -/
inductive Filled (template : ComfyTemplate) (payload : JobPayload) :
    String → String → JsonValue → Prop where
  | job {entry : TemplateInput} {value : JsonValue} (hentry : entry ∈ template.inputs)
      (hvalue : payload.get? entry.name = some value) (hdescribes : entry.Describes value) :
      Filled template payload entry.nodeId entry.inputName value
  | default {entry : TemplateInput} (hentry : entry ∈ template.inputs)
      (hvalue : payload.get? entry.name = none) (hdefault : isNull entry.default = false) :
      Filled template payload entry.nodeId entry.inputName entry.default

/-- What may stand in a submitted graph at an input of a node. -/
inductive Written (runtime : LocalRuntime) (context : ExecutionContext) (template : ComfyTemplate)
    (lease : LeaseGrant) : String → String → JsonValue → Prop where
  | filled {nodeId name : String} {value : JsonValue}
      (h : Filled template lease.payload nodeId name value) :
      Written runtime context template lease nodeId name value
  | uploaded {nodeId name : String} {value : JsonValue}
      (h : Uploaded runtime context (placements template lease) nodeId name value) :
      Written runtime context template lease nodeId name value
  | named (h : (inputAt (templateGraph template) template.outputNodeId
        filenamePrefixInputName).isSome ∨
        ∃ value, Filled template lease.payload template.outputNodeId filenamePrefixInputName
          value) :
      Written runtime context template lease template.outputNodeId filenamePrefixInputName
        (outputPrefix context)

/-! ### Single inputs -/

section Inputs

variable {allowed : String → String → JsonValue → Prop} {original graph graph' : Graph}
  {removed : Finset String}

theorem inputAt_of_hasInputs {nodeId name : String} {node : JsonValue}
    {inputs : List (String × JsonValue)} (hnode : graph.lookup nodeId = some node)
    (hinputs : HasInputs node inputs) : inputAt graph nodeId name = inputs.lookup name := by
  rw [inputAt, nodeInputs_ok_iff.mpr ⟨node, hnode, hinputs⟩]

theorem inputAt_eq_some_iff {nodeId name : String} {value : JsonValue} :
    inputAt graph nodeId name = some value ↔ ∃ node inputs,
      (graph.lookup nodeId = some node ∧ HasInputs node inputs) ∧
        inputs.lookup name = some value := by
  constructor
  · intro h
    rw [inputAt] at h
    cases hinputs : nodeInputs graph nodeId with
    | error error =>
        rw [hinputs] at h
        cases h
    | ok inputs =>
        rw [hinputs] at h
        obtain ⟨node, hfound⟩ := nodeInputs_ok_iff.mp hinputs
        exact ⟨node, inputs, hfound, h⟩
  · intro h
    obtain ⟨node, inputs, ⟨hnode, hinputs⟩, hlookup⟩ := h
    rw [inputAt_of_hasInputs hnode hinputs, hlookup]

theorem inputAt_set {nodeId name : String} {value : JsonValue}
    (hok : setNodeInput graphOps graph nodeId name value = .ok graph') (nodeId' name' : String) :
    inputAt graph' nodeId' name' =
      if nodeId = nodeId' ∧ name = name' then some value else inputAt graph nodeId' name' := by
  obtain ⟨node, inputs, ⟨hnode, hinputs⟩, rfl⟩ := editInputs_ok_iff.mp hok
  by_cases hid : nodeId = nodeId'
  · subst hid
    have hput : Dict.lookup (graph.put (nodeId, withInputs
        (Table.putRow Prod.fst (name, value) inputs) node)) nodeId =
        some (withInputs (Table.putRow Prod.fst (name, value) inputs) node) := by
      rw [Dict.lookup_put, if_pos rfl]
    rw [inputAt_of_hasInputs hput (hinputs.withInputs _), inputAt_of_hasInputs hnode hinputs,
      Dict.lookup_putRow]
    simp
  · rw [if_neg fun h => hid h.1, inputAt, inputAt, nodeInputs, nodeInputs,
      Dict.lookup_put_of_ne _ _ hid]

theorem Framed.inputAt_drop (h : Framed allowed original removed graph) {slot : ImageSlot}
    (hok : dropSlot graph slot = .ok graph') {nodeId name : String} {value : JsonValue} :
    inputAt graph' nodeId name = some value ↔ nodeId ∉ slot.removedNodeIds ∧
      inputAt graph nodeId name = some value ∧ ¬ LinksInto slot.removedNodeIds value := by
  obtain ⟨hall, rfl⟩ := dropSlot_ok_iff.mp hok
  have hnodup : ∀ node inputs, graph.lookup nodeId = some node → HasInputs node inputs →
      (inputs.map Prod.fst).Nodup := by
    intro node inputs hnode hinputs
    obtain ⟨before, -, hframed⟩ := h.nodes nodeId node hnode
    obtain ⟨_, -, -, hinputsFramed⟩ := hframed.hasInputs hinputs
    exact hinputsFramed.nodup
  by_cases hremoved : nodeId ∈ slot.removedNodeIds
  · have hnone : (pruneGraph slot.removedNodeIds graph).lookup nodeId = none := by
      rw [pruneGraph, Dict.lookup_prune, if_pos hremoved]
    rw [inputAt, nodeInputs, hnone]
    simp [hremoved]
  · have hlookup : (pruneGraph slot.removedNodeIds graph).lookup nodeId =
        (graph.lookup nodeId).map (cutLinks slot.removedNodeIds) := by
      rw [pruneGraph, Dict.lookup_prune, if_neg hremoved]
    cases hnode : graph.lookup nodeId with
    | none =>
        rw [inputAt, nodeInputs, hlookup, inputAt, nodeInputs, hnode]
        simp
    | some node =>
        obtain ⟨inputs, hinputs⟩ := hall (nodeId, node) (List.mem_filter.mpr
          ⟨Dict.lookup_eq_some_iff.mp hnode, decide_eq_true hremoved⟩)
        have hcut : HasInputs (cutLinks slot.removedNodeIds node)
            (withoutLinks slot.removedNodeIds inputs) := by
          rw [hinputs.cutLinks]
          exact hinputs.withInputs _
        rw [inputAt_of_hasInputs (hlookup.trans (by rw [hnode]; rfl)) hcut,
          inputAt_of_hasInputs hnode hinputs, lookup_withoutLinks (hnodup node inputs hnode hinputs)]
        simp [hremoved]

/-- An allowed value stands at the input, or one stood there that linked into a removed node. -/
def Settled (allowed : JsonValue → Prop) (removed : Finset String) : Option JsonValue → Prop
  | some value => allowed value
  | none => ∃ value, allowed value ∧ LinksInto removed value

theorem settled_set {nodeId name nodeId' name' : String} {value : JsonValue}
    (hsettled : Settled (allowed nodeId' name') removed (inputAt graph nodeId' name'))
    (hallowed : allowed nodeId name value)
    (hok : setNodeInput graphOps graph nodeId name value = .ok graph') :
    Settled (allowed nodeId' name') removed (inputAt graph' nodeId' name') := by
  rw [inputAt_set hok]
  split_ifs with hsame
  · obtain ⟨rfl, rfl⟩ := hsame
    exact hallowed
  · exact hsettled

theorem Framed.settled_drop {allowed' : String → String → JsonValue → Prop}
    (h : Framed allowed' original removed graph) {slot : ImageSlot}
    (hok : dropSlot graph slot = .ok graph') {nodeId name : String}
    (hkept : nodeId ∉ slot.removedNodeIds)
    (hsettled : Settled (allowed nodeId name) removed (inputAt graph nodeId name)) :
    Settled (allowed nodeId name) (removed ∪ slot.removedNodeIds) (inputAt graph' nodeId name) := by
  cases hafter : inputAt graph' nodeId name with
  | some value =>
      obtain ⟨-, hbefore, -⟩ := (h.inputAt_drop hok).mp hafter
      rw [hbefore] at hsettled
      exact hsettled
  | none =>
      cases hbefore : inputAt graph nodeId name with
      | none =>
          rw [hbefore] at hsettled
          obtain ⟨value, hallowed, hlinks⟩ := hsettled
          exact ⟨value, hallowed, hlinks.mono Finset.subset_union_left⟩
      | some value =>
          rw [hbefore] at hsettled
          refine ⟨value, hsettled, ?_⟩
          by_contra hunlinked
          have hfurther : ¬ LinksInto slot.removedNodeIds value :=
            fun hlinks => hunlinked (hlinks.mono Finset.subset_union_right)
          rw [(h.inputAt_drop hok).mpr ⟨hkept, hbefore, hfurther⟩] at hafter
          cases hafter

/-! ### Whole runs -/

variable {runtime : LocalRuntime} {context : ExecutionContext}

theorem Framed.settled_place {allowed' : String → String → JsonValue → Prop}
    (h : Framed allowed' original removed graph) {placement : Placement}
    (hupload : AllowsUpload allowed runtime context placement)
    (hok : ComfyWorkflowPlugin.place graphOps runtime context graph placement = .ok graph')
    {nodeId name : String} (hkept : nodeId ∉ removedBy [placement])
    (hsettled : Settled (allowed nodeId name) removed (inputAt graph nodeId name)) :
    Settled (allowed nodeId name) (removed ∪ removedBy [placement])
      (inputAt graph' nodeId name) := by
  cases hkey : placement.key with
  | none =>
      have hremoved : removedBy [placement] = placement.slot.removedNodeIds := by
        simp [removedBy, hkey]
      rw [place_unbound hkey] at hok
      rw [hremoved] at hkept ⊢
      exact h.settled_drop (inGraph_ok_iff.mp hok) hkept hsettled
  | some key =>
      have hremoved : removedBy [placement] = ∅ := by simp [removedBy, hkey]
      obtain ⟨source, stored, hsource, hname, hset⟩ := (place_bound_ok_iff hkey).mp hok
      rw [hremoved, Finset.union_empty]
      exact settled_set hsettled (hupload key source stored hkey hsource hname) hset

theorem Framed.settled_placed {placements : List Placement}
    (h : Framed (fun _ _ _ => True) original removed graph)
    (hupload : ∀ placement ∈ placements, AllowsUpload allowed runtime context placement)
    (hok : placements.foldlM (ComfyWorkflowPlugin.place graphOps runtime context) graph =
      .ok graph') {nodeId name : String} (hkept : nodeId ∉ removedBy placements)
    (hsettled : Settled (allowed nodeId name) removed (inputAt graph nodeId name)) :
    Settled (allowed nodeId name) (removed ∪ removedBy placements)
      (inputAt graph' nodeId name) := by
  induction placements generalizing graph removed with
  | nil =>
      rw [List.foldlM_nil, pure_ok_iff] at hok
      rw [← hok, removedBy, Finset.union_empty]
      exact hsettled
  | cons placement rest ih =>
      rw [List.forall_mem_cons] at hupload
      rw [List.foldlM_cons, bind_ok_iff] at hok
      obtain ⟨next, hnext, hrest⟩ := hok
      have hsplit := removedBy_cons placement rest ∅
      simp only [Finset.empty_union] at hsplit
      rw [hsplit, Finset.mem_union, not_or] at hkept
      rw [removedBy_cons]
      exact ih (h.place (fun _ _ _ _ _ _ => trivial) hnext) hupload.2 hrest hkept.2
        (h.settled_place hupload.1 hnext hkept.1 hsettled)

/-- Every bound slot's input is settled after the loops over the slots. -/
theorem Framed.placed_settled {placements : List Placement}
    (h : Framed (fun _ _ _ => True) original removed graph)
    (hupload : ∀ placement ∈ placements, AllowsUpload allowed runtime context placement)
    (hok : placements.foldlM (ComfyWorkflowPlugin.place graphOps runtime context) graph =
      .ok graph') :
    ∀ placement ∈ placements, placement.key ≠ none → placement.slot.nodeId ∉ removedBy placements →
      Settled (allowed placement.slot.nodeId placement.inputName) (removed ∪ removedBy placements)
        (inputAt graph' placement.slot.nodeId placement.inputName) := by
  induction placements generalizing graph removed with
  | nil => exact List.forall_mem_nil _
  | cons first rest ih =>
      obtain ⟨hfirst, hothers⟩ := List.forall_mem_cons.mp hupload
      rw [List.foldlM_cons, bind_ok_iff] at hok
      obtain ⟨next, hnext, hrest⟩ := hok
      have hframed := h.place (fun _ _ _ _ _ _ => trivial) hnext
      have hsplit := removedBy_cons first rest ∅
      simp only [Finset.empty_union] at hsplit
      rw [removedBy_cons, hsplit]
      simp only [Finset.mem_union, not_or]
      rw [List.forall_mem_cons]
      refine ⟨fun hkey hkept => ?_, fun placement hmem hkey hkept => ?_⟩
      · obtain ⟨key, hkey⟩ := Option.ne_none_iff_exists'.mp hkey
        obtain ⟨source, stored, hsource, hname, hset⟩ := (place_bound_ok_iff hkey).mp hnext
        refine hframed.settled_placed hothers hrest hkept.2 ?_
        rw [inputAt_set hset, if_pos ⟨rfl, rfl⟩]
        exact hfirst key source stored hkey hsource hname
      · exact ih hframed hothers hrest placement hmem hkey hkept.2

theorem settled_fill {request : ValidatedRequest} {entry : TemplateInput}
    (hallowed : ∀ value, request.inputs.lookup entry.name = some value →
      allowed entry.nodeId entry.inputName value)
    (hok : fillInput graphOps request graph entry = .ok graph') {nodeId name : String}
    (hsettled : Settled (allowed nodeId name) ∅ (inputAt graph nodeId name)) :
    Settled (allowed nodeId name) ∅ (inputAt graph' nodeId name) := by
  rw [fillInput] at hok
  cases hvalue : request.inputs.lookup entry.name with
  | none =>
      rw [hvalue] at hok
      exact Except.ok.inj hok ▸ hsettled
  | some value =>
      rw [hvalue] at hok
      exact settled_set hsettled (hallowed value hvalue) hok

theorem settled_filled {request : ValidatedRequest} {entries : List TemplateInput}
    (hallowed : ∀ entry ∈ entries, ∀ value, request.inputs.lookup entry.name = some value →
      allowed entry.nodeId entry.inputName value)
    (hok : entries.foldlM (fillInput graphOps request) graph = .ok graph') {nodeId name : String}
    (hsettled : Settled (allowed nodeId name) ∅ (inputAt graph nodeId name)) :
    Settled (allowed nodeId name) ∅ (inputAt graph' nodeId name) := by
  induction entries generalizing graph with
  | nil => exact Except.ok.inj hok ▸ hsettled
  | cons entry rest ih =>
      rw [List.forall_mem_cons] at hallowed
      rw [List.foldlM_cons, bind_ok_iff] at hok
      obtain ⟨next, hnext, hrest⟩ := hok
      exact ih hallowed.2 hrest (settled_fill hallowed.1 hnext hsettled)

/-- Every declared input that the request fills is settled after the loop over them. -/
theorem filled_settled {request : ValidatedRequest} {entries : List TemplateInput}
    (hallowed : ∀ entry ∈ entries, ∀ value, request.inputs.lookup entry.name = some value →
      allowed entry.nodeId entry.inputName value)
    (hok : entries.foldlM (fillInput graphOps request) graph = .ok graph') :
    ∀ entry ∈ entries, (request.inputs.lookup entry.name).isSome →
      Settled (allowed entry.nodeId entry.inputName) ∅
        (inputAt graph' entry.nodeId entry.inputName) := by
  induction entries generalizing graph with
  | nil => exact List.forall_mem_nil _
  | cons entry rest ih =>
      obtain ⟨hfirst, hothers⟩ := List.forall_mem_cons.mp hallowed
      rw [List.foldlM_cons, bind_ok_iff] at hok
      obtain ⟨next, hnext, hrest⟩ := hok
      rw [List.forall_mem_cons]
      refine ⟨fun hfilled => ?_, ih hothers hrest⟩
      obtain ⟨value, hvalue⟩ := Option.isSome_iff_exists.mp hfilled
      apply settled_filled hothers hrest
      rw [fillInput, hvalue] at hnext
      rw [inputAt_set hnext, if_pos ⟨rfl, rfl⟩]
      exact hfirst value hvalue

theorem inputAt_named {template : ComfyTemplate}
    (hok : nameOutput graphOps template context graph = .ok graph') {nodeId name : String} :
    inputAt graph' nodeId name = inputAt graph nodeId name ∨
      (inputAt graph template.outputNodeId filenamePrefixInputName).isSome ∧
        (nodeId = template.outputNodeId ∧ name = filenamePrefixInputName) ∧
        inputAt graph' nodeId name = some (outputPrefix context) := by
  obtain ⟨-, hnamed⟩ := nameOutput_ok_iff.mp hok
  split_ifs at hnamed with hpresent
  · rw [inputAt_set hnamed]
    split_ifs with hsame
    · obtain ⟨rfl, rfl⟩ := hsame
      exact Or.inr ⟨hpresent, ⟨rfl, rfl⟩, rfl⟩
    · exact Or.inl rfl
  · exact Or.inl (hnamed ▸ rfl)

/-- Whatever prefix the output had is replaced. -/
theorem prefix_named {template : ComfyTemplate}
    (hok : nameOutput graphOps template context graph = .ok graph') {value : JsonValue}
    (hvalue : inputAt graph' template.outputNodeId filenamePrefixInputName = some value) :
    value = outputPrefix context := by
  obtain ⟨-, hnamed⟩ := nameOutput_ok_iff.mp hok
  split_ifs at hnamed with hpresent
  · rw [inputAt_set hnamed, if_pos ⟨rfl, rfl⟩] at hvalue
    exact (Option.some.inj hvalue).symm
  · rw [hnamed, hvalue] at hpresent
    exact absurd rfl hpresent

end Inputs

/-! ### Submitted graphs -/

/-- The submitted graph is the template's but for what is written where the template allows it, and
every filled input, every bound slot and the prefix of the output hold what they are to hold unless
the node is removed. -/
structure Allowlisted (runtime : LocalRuntime) (context : ExecutionContext)
    (template : ComfyTemplate) (lease : LeaseGrant) (graph : Graph) : Prop where
  framed : Framed (Written runtime context template lease) (templateGraph template)
    (removedNodes template lease) graph
  filled : ∀ entry ∈ template.inputs, (filledInput lease.payload entry).isSome →
    entry.nodeId ∉ removedNodes template lease →
    Settled (Written runtime context template lease entry.nodeId entry.inputName)
      (removedNodes template lease) (inputAt graph entry.nodeId entry.inputName)
  bound : ∀ placement ∈ placements template lease, placement.key ≠ none →
    placement.slot.nodeId ∉ removedNodes template lease →
    ∃ value, Uploaded runtime context (placements template lease) placement.slot.nodeId
        placement.inputName value ∧
      inputAt graph placement.slot.nodeId placement.inputName = some value
  named : ∀ value, inputAt graph template.outputNodeId filenamePrefixInputName = some value →
    value = outputPrefix context

/-- A slot is bound at the `image` or the `audio` input of its node. -/
theorem inputName_of_mem {template : ComfyTemplate} {lease : LeaseGrant} {placement : Placement}
    (h : placement ∈ placements template lease) : placement.inputName ≠ filenamePrefixInputName := by
  have himage : imageNodeInputName ≠ filenamePrefixInputName := by decide
  have haudio : audioNodeInputName ≠ filenamePrefixInputName := by decide
  rcases List.mem_append.mp h with hslot | hslot
  · obtain ⟨slot, -, rfl⟩ := List.mem_map.mp hslot
    exact himage
  · obtain ⟨slot, -, rfl⟩ := List.mem_map.mp hslot
    exact haudio

theorem Uploaded.name_ne {runtime : LocalRuntime} {context : ExecutionContext}
    {template : ComfyTemplate} {lease : LeaseGrant} {nodeId name : String} {value : JsonValue}
    (h : Uploaded runtime context (placements template lease) nodeId name value) :
    name ≠ filenamePrefixInputName := by
  cases h with
  | intro hplacement _ _ _ => exact inputName_of_mem hplacement

theorem Uploaded.unlinked {runtime : LocalRuntime} {context : ExecutionContext}
    {placements : List Placement} {nodeId name : String} {value : JsonValue}
    (h : Uploaded runtime context placements nodeId name value) (removed : Finset String) :
    ¬ LinksInto removed value := by
  cases h with
  | intro _ _ _ _ => exact not_linksInto_text removed _

theorem filled_of_accepted {template : ComfyTemplate} {lease : LeaseGrant}
    (hadmitted : LeaseAdmitted template lease) {entry : TemplateInput}
    (hentry : entry ∈ template.inputs) {value : JsonValue}
    (hvalue : filledInput lease.payload entry = some value) :
    Filled template lease.payload entry.nodeId entry.inputName value := by
  rw [filledInput] at hvalue
  cases hget : lease.payload.get? entry.name with
  | some sent =>
      rw [hget] at hvalue
      obtain rfl := Option.some.inj hvalue
      exact .job hentry hget ((hadmitted.inputs entry hentry).described sent hget)
  | none =>
      rw [hget] at hvalue
      dsimp only at hvalue
      split_ifs at hvalue with hnull
      obtain rfl := Option.some.inj hvalue
      exact .default hentry hget (Bool.eq_false_iff.mpr hnull)

/-- A value that an accepted lease sends for a declared input links to no node. -/
theorem job_value_no_link {template : ComfyTemplate} (hvalid : ValidTemplate template)
    {lease : LeaseGrant} (hadmitted : LeaseAdmitted template lease) {entry : TemplateInput}
    (hentry : entry ∈ template.inputs) {value : JsonValue}
    (hvalue : lease.payload.get? entry.name = some value) (nodeId : String) :
    ¬ IsLink value nodeId := by
  intro hlink
  obtain ⟨rest, rfl⟩ := hlink
  have hkind := hvalid.kinds entry hentry
  have hdescribes := ((hadmitted.inputs entry hentry).described _ hvalue).1
  simp only [inputKinds, List.mem_cons, List.not_mem_nil, or_false] at hkind
  rcases hkind with hkind | hkind | hkind | hkind
  all_goals
    rw [hkind] at hdescribes
    simp [JsonSchema.typeMatches] at hdescribes

/-- A prefix is there to be replaced only if the template or a declared input put it there. -/
theorem Framed.prefix_written {runtime : LocalRuntime} {context : ExecutionContext}
    {template : ComfyTemplate} {lease : LeaseGrant} {removed : Finset String} {graph : Graph}
    (h : Framed (fun nodeId name value => Filled template lease.payload nodeId name value ∨
      Uploaded runtime context (placements template lease) nodeId name value)
      (templateGraph template) removed graph)
    (hpresent : (inputAt graph template.outputNodeId filenamePrefixInputName).isSome) :
    Written runtime context template lease template.outputNodeId filenamePrefixInputName
      (outputPrefix context) := by
  obtain ⟨value, hvalue⟩ := Option.isSome_iff_exists.mp hpresent
  obtain ⟨node, inputs, ⟨hnode, hinputs⟩, hlookup⟩ := inputAt_eq_some_iff.mp hvalue
  obtain ⟨before, hbefore, hframed⟩ := h.nodes _ node hnode
  obtain ⟨inputs', hinputs', -, hinputsFramed⟩ := hframed.hasInputs hinputs
  apply Written.named
  rcases (hinputsFramed.present _ value hlookup).1 with hsame | hfilled | huploaded
  · rw [inputAt_of_hasInputs hbefore hinputs', hsame]
    exact Or.inl rfl
  · exact Or.inr ⟨value, hfilled⟩
  · exact absurd rfl huploaded.name_ne

/-- A graph that is submitted for an accepted lease. -/
theorem allowlisted_of_submitted {runtime : LocalRuntime} {context : ExecutionContext}
    {template : ComfyTemplate} (hvalid : ValidTemplate template) {lease : LeaseGrant}
    (hadmitted : LeaseAdmitted template lease) {graph : Graph}
    (h : submittedGraph runtime template context (acceptedRequest template lease) = .ok graph) :
    Allowlisted runtime context template lease graph := by
  obtain ⟨filled, placed, hfilled, hplaced, hnamed⟩ := submittedGraph_ok_cases hvalid hadmitted h
  have hstart : ∀ allowed, Framed allowed (templateGraph template) ∅ (templateGraph template) :=
    fun _ => Framed.refl (distinctInputs_templateGraph template)
  have hvalues : ∀ entry ∈ template.inputs, ∀ value,
      (acceptedRequest template lease).inputs.lookup entry.name = some value →
        Filled template lease.payload entry.nodeId entry.inputName value := by
    intro entry hentry value hvalue
    have hlookup : (acceptedRequest template lease).inputs.lookup entry.name =
        filledInput lease.payload entry := lookup_filled hvalid hentry
    exact filled_of_accepted hadmitted hentry (hlookup.symm.trans hvalue)
  have huploads : ∀ placement ∈ placements template lease,
      AllowsUpload (Uploaded runtime context (placements template lease)) runtime context
        placement := fun placement hmem key source name hkey hsource hname =>
    .intro hmem hkey hsource hname
  have hwritten : ∀ nodeId name value, Uploaded runtime context (placements template lease) nodeId
      name value → Written runtime context template lease nodeId name value :=
    fun _ _ _ huploaded => .uploaded huploaded
  have hfilledTrue := (hstart fun _ _ _ => True).filled (fun _ _ _ _ => trivial) hfilled
  -- the prefix is judged by what stood there before it was written
  have hbefore : Framed (fun nodeId name value => Filled template lease.payload nodeId name value ∨
      Uploaded runtime context (placements template lease) nodeId name value)
      (templateGraph template) (∅ ∪ removedNodes template lease) placed :=
    ((hstart _).filled (fun entry hentry value hvalue => Or.inl (hvalues entry hentry value hvalue))
      hfilled).placed (fun placement hmem key source name hkey hsource hname =>
        Or.inr (huploads placement hmem key source name hkey hsource hname)) hplaced
  have hprefix := hbefore.prefix_written
  rw [Finset.empty_union] at hbefore
  refine ⟨?_, fun entry hentry hfill hkept => ?_, fun placement hmem hkey hkept => ?_,
    fun value hvalue => prefix_named hnamed hvalue⟩
  · have hframed : Framed (Written runtime context template lease) (templateGraph template)
        (removedNodes template lease) placed := hbefore.mono fun nodeId name value hallowed =>
      hallowed.elim .filled .uploaded
    exact hframed.named hprefix hnamed
  · have hlookup : (acceptedRequest template lease).inputs.lookup entry.name =
        filledInput lease.payload entry := lookup_filled hvalid hentry
    have hsettled : Settled (Written runtime context template lease entry.nodeId entry.inputName) ∅
        (inputAt filled entry.nodeId entry.inputName) :=
      filled_settled (fun entry hentry value hvalue => .filled (hvalues entry hentry value hvalue))
        hfilled entry hentry (hlookup ▸ hfill)
    have hplacedSettled := hfilledTrue.settled_placed
      (fun placement hmem key source name hkey hsource hname =>
        hwritten _ _ _ (huploads placement hmem key source name hkey hsource hname)) hplaced hkept
      hsettled
    rw [Finset.empty_union] at hplacedSettled
    rcases inputAt_named hnamed with hsame | ⟨hpresent, ⟨hnode, hname⟩, hvalue⟩
    · rw [hsame]
      exact hplacedSettled
    · rw [hvalue, hnode, hname]
      exact hprefix hpresent
  · have hsettled := hfilledTrue.placed_settled huploads hplaced placement hmem hkey hkept
    rcases inputAt_named hnamed with hsame | ⟨-, ⟨-, hname⟩, -⟩
    · rw [hsame]
      cases hvalue : inputAt placed placement.slot.nodeId placement.inputName with
      | some value =>
          rw [hvalue] at hsettled
          exact ⟨value, hsettled, rfl⟩
      | none =>
          rw [hvalue] at hsettled
          obtain ⟨value, huploaded, hlinks⟩ := hsettled
          exact absurd hlinks (huploaded.unlinked _)
    · exact absurd hname (inputName_of_mem hmem)

end GpuWorkerPool
