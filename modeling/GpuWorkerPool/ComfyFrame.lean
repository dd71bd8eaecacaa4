import GpuWorkerPool.Base.JsonEncoding
import GpuWorkerPool.ComfyGraph

/-!
What the edits of a graph leave as it was. A graph is framed by its original when nodes were only
removed, links to removed nodes only cut, and every other change is at an input where it is allowed.
-/

namespace GpuWorkerPool

open Base

/-- The input of a node, if the node has it. -/
def inputAt (graph : Graph) (nodeId name : String) : Option JsonValue :=
  match nodeInputs graph nodeId with
  | .ok inputs => inputs.lookup name
  | .error _ => none

/-- The value links to one of the removed nodes. -/
def LinksInto (removed : Finset String) (value : JsonValue) : Prop :=
  ∃ removedId ∈ removed, IsLink value removedId

theorem LinksInto.mono {removed removed' : Finset String} {value : JsonValue}
    (h : LinksInto removed value) (hsub : removed ⊆ removed') : LinksInto removed' value := by
  obtain ⟨removedId, hremoved, hlink⟩ := h
  exact ⟨removedId, hsub hremoved, hlink⟩

theorem not_linksInto_text (removed : Finset String) (text : String) :
    ¬ LinksInto removed (.str text) := by
  intro h
  obtain ⟨_, -, _, heq⟩ := h
  cases heq

theorem linksInto_union {removed further : Finset String} {value : JsonValue} :
    LinksInto (removed ∪ further) value ↔ LinksInto removed value ∨ LinksInto further value := by
  simp only [LinksInto, Finset.mem_union, or_and_right, exists_or]

/-! ### The inputs of a node -/

theorem lookup_withoutLinks {removed : Finset String} {inputs : List (String × JsonValue)}
    (hnodup : (inputs.map Prod.fst).Nodup) {name : String} {value : JsonValue} :
    (withoutLinks removed inputs).lookup name = some value ↔
      inputs.lookup name = some value ∧ ¬ LinksInto removed value := by
  have hkept : ((withoutLinks removed inputs).map Prod.fst).Nodup :=
    (List.filter_sublist.map Prod.fst).nodup hnodup
  have hlinks : (¬ LinksInto removed value) ↔ ∀ removedId ∈ removed, ¬ IsLink value removedId := by
    simp only [LinksInto, not_exists, not_and]
  rw [hlinks]
  constructor
  · intro h
    obtain ⟨hmem, hunlinked⟩ := mem_withoutLinks.mp (JsonValue.mem_of_lookup h)
    exact ⟨JsonValue.lookup_eq_of_mem hnodup hmem, hunlinked⟩
  · intro h
    obtain ⟨hlookup, hunlinked⟩ := h
    exact JsonValue.lookup_eq_of_mem hkept
      (mem_withoutLinks.mpr ⟨JsonValue.mem_of_lookup hlookup, hunlinked⟩)

/-- The inputs are those of before, but for allowed values and for links into removed nodes. -/
structure InputsFramed (allowed : String → JsonValue → Prop) (removed : Finset String)
    (before after : List (String × JsonValue)) : Prop where
  nodup : (after.map Prod.fst).Nodup
  present : ∀ name value, after.lookup name = some value →
    (before.lookup name = some value ∨ allowed name value) ∧ ¬ LinksInto removed value
  absent : ∀ name value, before.lookup name = some value → after.lookup name = none →
    ∃ cut, (cut = value ∨ allowed name cut) ∧ LinksInto removed cut

theorem InputsFramed.refl {allowed : String → JsonValue → Prop}
    {inputs : List (String × JsonValue)} (hnodup : (inputs.map Prod.fst).Nodup) :
    InputsFramed allowed ∅ inputs inputs where
  nodup := hnodup
  present := by
    intro name value h
    refine ⟨Or.inl h, fun hlinks => ?_⟩
    obtain ⟨_, hremoved, -⟩ := hlinks
    exact absurd hremoved (Finset.notMem_empty _)
  absent := by
    intro name value hbefore hafter
    rw [hbefore] at hafter
    cases hafter

theorem InputsFramed.put {allowed : String → JsonValue → Prop} {removed : Finset String}
    {before after : List (String × JsonValue)} (h : InputsFramed allowed removed before after)
    {name : String} {value : JsonValue} (hallowed : allowed name value)
    (hunlinked : ¬ LinksInto removed value) :
    InputsFramed allowed removed before (Table.putRow Prod.fst (name, value) after) where
  nodup := (Table.put ⟨after, h.nodup⟩ (name, value)).keys_nodup
  present := by
    intro other value' hlookup
    rw [Dict.lookup_putRow] at hlookup
    split_ifs at hlookup with hname
    · obtain rfl := Option.some.inj hlookup
      exact ⟨Or.inr (hname ▸ hallowed), hunlinked⟩
    · exact h.present other value' hlookup
  absent := by
    intro other value' hbefore hafter
    rw [Dict.lookup_putRow] at hafter
    split_ifs at hafter with hname
    exact h.absent other value' hbefore hafter

theorem InputsFramed.cut {allowed : String → JsonValue → Prop} {removed : Finset String}
    {before after : List (String × JsonValue)} (h : InputsFramed allowed removed before after)
    (further : Finset String) :
    InputsFramed allowed (removed ∪ further) before (withoutLinks further after) where
  nodup := (List.filter_sublist.map Prod.fst).nodup h.nodup
  present := by
    intro name value hlookup
    obtain ⟨hafter, hfurther⟩ := (lookup_withoutLinks h.nodup).mp hlookup
    obtain ⟨hsource, hunlinked⟩ := h.present name value hafter
    exact ⟨hsource, fun hlinks => (linksInto_union.mp hlinks).elim hunlinked hfurther⟩
  absent := by
    intro name value hbefore hkept
    cases hafter : after.lookup name with
    | none =>
        obtain ⟨cut, hcut, hlinks⟩ := h.absent name value hbefore hafter
        exact ⟨cut, hcut, hlinks.mono Finset.subset_union_left⟩
    | some value' =>
        have hlinks : LinksInto further value' := by
          by_contra hunlinked
          rw [(lookup_withoutLinks h.nodup).mpr ⟨hafter, hunlinked⟩] at hkept
          cases hkept
        refine ⟨value', ?_, hlinks.mono Finset.subset_union_right⟩
        rcases (h.present name value' hafter).1 with hsame | hallowed
        · exact Or.inl (Option.some.inj (hsame.symm.trans hbefore))
        · exact Or.inr hallowed

theorem InputsFramed.mono {allowed allowed' : String → JsonValue → Prop} {removed : Finset String}
    {before after : List (String × JsonValue)} (h : InputsFramed allowed removed before after)
    (hallowed : ∀ name value, allowed name value → allowed' name value) :
    InputsFramed allowed' removed before after where
  nodup := h.nodup
  present := by
    intro name value hlookup
    obtain ⟨hsource, hunlinked⟩ := h.present name value hlookup
    exact ⟨hsource.imp_right (hallowed name value), hunlinked⟩
  absent := by
    intro name value hbefore hafter
    obtain ⟨cut, hcut, hlinks⟩ := h.absent name value hbefore hafter
    exact ⟨cut, hcut.imp_right (hallowed name cut), hlinks⟩

/-! ### Graphs -/

/-- The node is that of before, but for its inputs. -/
inductive NodeFramed (allowed : String → JsonValue → Prop) (removed : Finset String)
    (node : JsonValue) : JsonValue → Prop where
  | bare (hbare : ∀ inputs, ¬ HasInputs node inputs) : NodeFramed allowed removed node node
  | edited {before after : List (String × JsonValue)} (hbefore : HasInputs node before)
      (hinputs : InputsFramed allowed removed before after) :
      NodeFramed allowed removed node (withInputs after node)

/-- The graph is the original one without the removed nodes, and every node is framed. -/
structure Framed (allowed : String → String → JsonValue → Prop) (original : Graph)
    (removed : Finset String) (graph : Graph) : Prop where
  nodeIds : graph.rows.map Prod.fst = (original.rows.map Prod.fst).filter (· ∉ removed)
  nodes : ∀ nodeId node, graph.lookup nodeId = some node →
    ∃ before, original.lookup nodeId = some before ∧
      NodeFramed (allowed nodeId) removed before node

variable {allowed : String → String → JsonValue → Prop} {original graph graph' : Graph}
  {removed : Finset String}

theorem NodeFramed.hasInputs {allowed : String → JsonValue → Prop} {node node' : JsonValue}
    {after : List (String × JsonValue)} (h : NodeFramed allowed removed node node')
    (hinputs : HasInputs node' after) :
    ∃ before, HasInputs node before ∧ node' = withInputs after node ∧
      InputsFramed allowed removed before after := by
  cases h with
  | bare hbare => exact absurd hinputs (hbare after)
  | edited hbefore hframed =>
      have hsame := (hbefore.withInputs _).symm.trans hinputs
      obtain rfl := Except.ok.inj hsame
      exact ⟨_, hbefore, rfl, hframed⟩

theorem Framed.mono {allowed' : String → String → JsonValue → Prop}
    (h : Framed allowed original removed graph)
    (hallowed : ∀ nodeId name value, allowed nodeId name value → allowed' nodeId name value) :
    Framed allowed' original removed graph where
  nodeIds := h.nodeIds
  nodes := by
    intro nodeId node hnode
    obtain ⟨before, hbefore, hframed⟩ := h.nodes nodeId node hnode
    refine ⟨before, hbefore, ?_⟩
    cases hframed with
    | bare hbare => exact .bare hbare
    | edited hinputs hframed => exact .edited hinputs (hframed.mono (hallowed nodeId))

/-- Every object of inputs in the graph has distinct names. -/
def DistinctInputs (graph : Graph) : Prop :=
  ∀ nodeId node inputs, graph.lookup nodeId = some node → HasInputs node inputs →
    (inputs.map Prod.fst).Nodup

theorem Framed.refl (h : DistinctInputs original) : Framed allowed original ∅ original where
  nodeIds := by simp
  nodes := by
    intro nodeId node hnode
    refine ⟨node, hnode, ?_⟩
    by_cases hbare : ∀ inputs, ¬ HasInputs node inputs
    · exact .bare hbare
    · push Not at hbare
      obtain ⟨inputs, hinputs⟩ := hbare
      have hframed : NodeFramed (allowed nodeId) ∅ node (withInputs inputs node) :=
        .edited hinputs (.refl (h nodeId node inputs hnode hinputs))
      rwa [hinputs.withInputs_self] at hframed

/-- A node is in the graph if it was and is not removed. -/
theorem Framed.mem_iff (h : Framed allowed original removed graph) {nodeId : String} :
    (graph.lookup nodeId).isSome ↔ (original.lookup nodeId).isSome ∧ nodeId ∉ removed := by
  rw [Dict.isSome_lookup_iff, Dict.isSome_lookup_iff, h.nodeIds, List.mem_filter,
    decide_eq_true_eq]

/-- The node has an `inputs` object. -/
def Editable (graph : Graph) (nodeId : String) : Prop :=
  ∃ node inputs, graph.lookup nodeId = some node ∧ HasInputs node inputs

theorem Framed.editable_iff (h : Framed allowed original removed graph) {nodeId : String} :
    Editable graph nodeId ↔ Editable original nodeId ∧ nodeId ∉ removed := by
  constructor
  · intro heditable
    obtain ⟨node, inputs, hnode, hinputs⟩ := heditable
    obtain ⟨before, hbefore, hframed⟩ := h.nodes nodeId node hnode
    obtain ⟨inputs', hinputs', -⟩ := hframed.hasInputs hinputs
    exact ⟨⟨before, inputs', hbefore, hinputs'⟩, (h.mem_iff.mp (hnode ▸ rfl)).2⟩
  · intro hedit
    obtain ⟨⟨before, inputs, hbefore, hinputs⟩, hkept⟩ := hedit
    obtain ⟨node, hnode⟩ := Option.isSome_iff_exists.mp (h.mem_iff.mpr ⟨hbefore ▸ rfl, hkept⟩)
    obtain ⟨before', hsame, hframed⟩ := h.nodes nodeId node hnode
    obtain rfl := Option.some.inj (hbefore.symm.trans hsame)
    cases hframed with
    | bare hbare => exact absurd hinputs (hbare inputs)
    | edited hedited _ => exact ⟨_, _, hnode, hedited.withInputs _⟩

/-- Setting an input where it is allowed. -/
theorem Framed.put (h : Framed allowed original removed graph) {nodeId name : String}
    {value : JsonValue} (hallowed : allowed nodeId name value)
    (hunlinked : ¬ LinksInto removed value)
    (hok : editInputs (Table.putRow Prod.fst (name, value)) graph nodeId = .ok graph') :
    Framed allowed original removed graph' := by
  obtain ⟨node, inputs, ⟨hnode, hinputs⟩, rfl⟩ := editInputs_ok_iff.mp hok
  refine ⟨?_, fun otherId node' hnode' => ?_⟩
  · have hmem : nodeId ∈ graph.rows.map Prod.fst := Dict.isSome_lookup_iff.mp (hnode ▸ rfl)
    rw [← h.nodeIds]
    exact (Table.keys_putRow _ _).trans (if_pos hmem)
  · rw [Dict.lookup_put] at hnode'
    split_ifs at hnode' with hid
    · subst hid
      obtain rfl := Option.some.inj hnode'
      obtain ⟨before, hbefore, hframed⟩ := h.nodes nodeId node hnode
      obtain ⟨inputs', hinputs', rfl, hframed'⟩ := hframed.hasInputs hinputs
      rw [withInputs_withInputs]
      exact ⟨before, hbefore, .edited hinputs' (hframed'.put hallowed hunlinked)⟩
    · exact h.nodes otherId node' hnode'

/-- Dropping a slot. -/
theorem Framed.drop (h : Framed allowed original removed graph) {slot : ImageSlot}
    (hok : dropSlot graph slot = .ok graph') :
    Framed allowed original (removed ∪ slot.removedNodeIds) graph' := by
  obtain ⟨hall, rfl⟩ := dropSlot_ok_iff.mp hok
  refine ⟨?_, fun nodeId node' hnode' => ?_⟩
  · have hkept : (pruneGraph slot.removedNodeIds graph).rows.map Prod.fst =
        (graph.rows.map Prod.fst).filter (· ∉ slot.removedNodeIds) := by
      simp [pruneGraph, Dict.prune, Dict.without, Table.mapRows, List.filter_map,
        Function.comp_def]
    rw [hkept, h.nodeIds, List.filter_filter]
    apply List.filter_congr
    intro nodeId _
    simp [Bool.and_comm]
  · rw [pruneGraph, Dict.lookup_prune] at hnode'
    split_ifs at hnode' with hremoved
    obtain ⟨node, hnode, rfl⟩ := Option.map_eq_some_iff.mp hnode'
    have hrow := Dict.lookup_eq_some_iff.mp hnode
    obtain ⟨inputs, hinputs⟩ := hall _ (List.mem_filter.mpr ⟨hrow, decide_eq_true hremoved⟩)
    obtain ⟨before, hbefore, hframed⟩ := h.nodes nodeId node hnode
    obtain ⟨inputs', hinputs', rfl, hframed'⟩ := hframed.hasInputs hinputs
    rw [hinputs.cutLinks, withInputs_withInputs]
    exact ⟨before, hbefore, .edited hinputs' (hframed'.cut _)⟩

end GpuWorkerPool
