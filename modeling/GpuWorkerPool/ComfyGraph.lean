import GpuWorkerPool.Base.Pruning
import GpuWorkerPool.ComfyTemplates
import Mathlib.Data.Finset.Lattice.Union

/-!
The workflow graph of a template and the edits that an execution makes in place: an input is set, or
a slot is dropped. Dropping a slot prunes the graph, so dropping several does not depend on their
order.
-/

namespace GpuWorkerPool

open Base

abbrev Graph := Dict String JsonValue

/-- What the edits of a graph raise. -/
inductive GraphExc where
  | keyError
  | assertionError
  deriving DecidableEq, Repr

def inputsKey : String := "inputs"

/-- The members of `node["inputs"]`, where node and inputs are asserted to be objects. -/
def inputsOf : JsonValue → Except GraphExc (List (String × JsonValue))
  | .dict members =>
      match members.lookup inputsKey with
      | some (.dict inputs) => .ok inputs
      | some _ => .error .assertionError
      | none => .error .keyError
  | _ => .error .assertionError

/-- The node with its inputs replaced. -/
def withInputs (inputs : List (String × JsonValue)) : JsonValue → JsonValue
  | .dict members => .dict (Table.putRow Prod.fst (inputsKey, .dict inputs) members)
  | node => node

/-- `_node_inputs` -/
def nodeInputs (graph : Graph) (nodeId : String) : Except GraphExc (List (String × JsonValue)) :=
  match graph.lookup nodeId with
  | some node => inputsOf node
  | none => .error .keyError

/-- Edits the object that `_node_inputs` returns. -/
def editInputs (edit : List (String × JsonValue) → List (String × JsonValue)) (graph : Graph)
    (nodeId : String) : Except GraphExc Graph := do
  let inputs ← nodeInputs graph nodeId
  pure (graph.put (nodeId, withInputs (edit inputs) ((graph.lookup nodeId).getD .null)))

/-- `_links_to` -/
def linksTo (value : JsonValue) (nodeId : String) : Bool :=
  match value with
  | .list (first :: _) => isText nodeId first
  | _ => false

/-- The inputs that link to none of the removed nodes. -/
def withoutLinks (removed : Finset String) (inputs : List (String × JsonValue)) :
    List (String × JsonValue) :=
  inputs.filter fun row => ∀ removedId ∈ removed, !linksTo row.2 removedId

/-- `{slot.node_id, *slot.dependent_node_ids}` -/
def ImageSlot.removedNodeIds (slot : ImageSlot) : Finset String :=
  insert slot.nodeId slot.dependentNodeIds.toFinset

/-- `_drop_slot` -/
def dropSlot (graph : Graph) (slot : ImageSlot) : Except GraphExc Graph :=
  let kept := graph.without slot.removedNodeIds
  (kept.rows.map Prod.fst).foldlM (editInputs (withoutLinks slot.removedNodeIds)) kept

/-- A link to a node: a nonempty list whose first item is the node's id. -/
def IsLink (value : JsonValue) (nodeId : String) : Prop :=
  ∃ rest, value = .list (.str nodeId :: rest)

theorem linksTo_iff {value : JsonValue} {nodeId : String} :
    linksTo value nodeId ↔ IsLink value nodeId := by
  cases value with
  | list items => cases items <;> simp [linksTo, IsLink]
  | _ => simp [linksTo, IsLink]

theorem mem_withoutLinks {removed : Finset String} {inputs : List (String × JsonValue)}
    {row : String × JsonValue} :
    row ∈ withoutLinks removed inputs ↔
      row ∈ inputs ∧ ∀ removedId ∈ removed, ¬ IsLink row.2 removedId := by
  simp only [withoutLinks, List.mem_filter, decide_eq_true_eq, Bool.not_eq_true',
    ← linksTo_iff, Bool.not_eq_true]

/-! ### Nodes -/

/-- The node is an object whose `inputs` are these. -/
def HasInputs (node : JsonValue) (inputs : List (String × JsonValue)) : Prop :=
  inputsOf node = .ok inputs

theorem hasInputs_iff {node : JsonValue} {inputs : List (String × JsonValue)} :
    HasInputs node inputs ↔
      ∃ members, node = .dict members ∧ members.lookup inputsKey = some (.dict inputs) := by
  rw [HasInputs]
  cases node with
  | dict members =>
      rw [inputsOf]
      cases hlookup : members.lookup inputsKey with
      | none => simp [hlookup]
      | some value => cases value <;> simp [hlookup]
  | _ => simp [inputsOf]

theorem HasInputs.withInputs {node : JsonValue} {inputs : List (String × JsonValue)}
    (h : HasInputs node inputs) (inputs' : List (String × JsonValue)) :
    HasInputs (withInputs inputs' node) inputs' := by
  obtain ⟨members, rfl, -⟩ := hasInputs_iff.mp h
  refine hasInputs_iff.mpr ⟨_, rfl, ?_⟩
  rw [Dict.lookup_putRow, if_pos rfl]

/-- Takes the links to the removed nodes out of a node. -/
def cutLinks (removed : Finset String) (node : JsonValue) : JsonValue :=
  match inputsOf node with
  | .ok inputs => withInputs (withoutLinks removed inputs) node
  | .error _ => node

theorem HasInputs.cutLinks {node : JsonValue} {inputs : List (String × JsonValue)}
    (h : HasInputs node inputs) (removed : Finset String) :
    cutLinks removed node = GpuWorkerPool.withInputs (withoutLinks removed inputs) node := by
  rw [GpuWorkerPool.cutLinks, h]

theorem HasInputs.withInputs_self {node : JsonValue} {inputs : List (String × JsonValue)}
    (h : HasInputs node inputs) : GpuWorkerPool.withInputs inputs node = node := by
  obtain ⟨members, rfl, hlookup⟩ := hasInputs_iff.mp h
  exact congrArg JsonValue.dict (Dict.putRow_of_lookup hlookup)

theorem withInputs_withInputs (inputs inputs' : List (String × JsonValue)) (node : JsonValue) :
    withInputs inputs' (withInputs inputs node) = withInputs inputs' node := by
  cases node with
  | dict members => exact congrArg JsonValue.dict (Dict.putRow_putRow members inputsKey _ _)
  | _ => rfl

theorem withoutLinks_empty (inputs : List (String × JsonValue)) : withoutLinks ∅ inputs = inputs := by
  simp [withoutLinks]

theorem withoutLinks_withoutLinks (removed further : Finset String)
    (inputs : List (String × JsonValue)) :
    withoutLinks further (withoutLinks removed inputs) = withoutLinks (removed ∪ further) inputs := by
  rw [withoutLinks, withoutLinks, withoutLinks, List.filter_filter]
  apply List.filter_congr
  intro row _
  rw [Bool.eq_iff_iff]
  simp only [Bool.and_eq_true, decide_eq_true_eq, Finset.mem_union, or_imp, forall_and]
  exact and_comm

/-- Links are taken out of a node once for all. -/
theorem absorbs_cutLinks : Absorbs cutLinks where
  bot node := by
    cases hinputs : inputsOf node with
    | error error => rw [cutLinks, hinputs]
    | ok inputs =>
        have h : HasInputs node inputs := hinputs
        exact (h.cutLinks ∅).trans (by rw [withoutLinks_empty, h.withInputs_self])
  sup removed further node := by
    cases hinputs : inputsOf node with
    | error error =>
        have hsame : ∀ ids, cutLinks ids node = node := by
          intro ids
          rw [cutLinks, hinputs]
        rw [hsame, hsame, hsame]
    | ok inputs =>
        have h : HasInputs node inputs := hinputs
        have hcut := h.withInputs (withoutLinks removed inputs)
        rw [h.cutLinks, hcut.cutLinks, h.cutLinks, withInputs_withInputs, withoutLinks_withoutLinks]
        rfl

/-! ### Dropping slots -/

/-- Every node has an `inputs` object. -/
def AllHaveInputs (graph : Graph) : Prop := ∀ row ∈ graph.rows, ∃ inputs, HasInputs row.2 inputs

/-- The graph without the removed nodes and the links to them. -/
def pruneGraph (removed : Finset String) (graph : Graph) : Graph := graph.prune cutLinks removed

theorem AllHaveInputs.prune {graph : Graph} (removed : Finset String)
    (h : AllHaveInputs (graph.without removed)) : AllHaveInputs (pruneGraph removed graph) := by
  intro row hrow
  obtain ⟨before, hbefore, rfl⟩ := List.mem_map.mp hrow
  obtain ⟨inputs, hinputs⟩ := h before hbefore
  exact ⟨_, by rw [hinputs.cutLinks]; exact hinputs.withInputs _⟩

/-- Takes the links to the removed nodes out of some nodes. -/
def cutAt (removed : Finset String) (nodeIds : List String) (graph : Graph) : Graph :=
  graph.mapRows (fun row => (row.1, if row.1 ∈ nodeIds then cutLinks removed row.2 else row.2))
    fun _ => rfl

theorem cutAt_cutAt (removed : Finset String) (nodeId : String) (rest : List String) (graph : Graph) :
    cutAt removed rest (cutAt removed [nodeId] graph) = cutAt removed (nodeId :: rest) graph := by
  apply Table.ext
  simp only [cutAt, Table.mapRows, List.map_map, Function.comp_def, List.mem_cons,
    List.not_mem_nil, or_false]
  apply congrArg (List.map · graph.rows)
  funext row
  by_cases hfirst : row.1 = nodeId
  · by_cases hrest : row.1 ∈ rest
    · rw [if_pos hrest, if_pos hfirst, if_pos (Or.inl hfirst), absorbs_cutLinks.idem]
    · rw [if_neg hrest, if_pos hfirst, if_pos (Or.inl hfirst)]
  · simp [hfirst]

theorem AllHaveInputs.cutAt {graph : Graph} (h : AllHaveInputs graph) (removed : Finset String)
    (nodeIds : List String) : AllHaveInputs (cutAt removed nodeIds graph) := by
  intro row hrow
  obtain ⟨before, hbefore, rfl⟩ := List.mem_map.mp hrow
  obtain ⟨inputs, hinputs⟩ := h before hbefore
  dsimp only
  split_ifs
  · exact ⟨_, by rw [hinputs.cutLinks]; exact hinputs.withInputs _⟩
  · exact ⟨inputs, hinputs⟩

theorem editInputs_ok {edit : List (String × JsonValue) → List (String × JsonValue)}
    {graph : Graph} {nodeId : String} {node : JsonValue} {inputs : List (String × JsonValue)}
    (hnode : graph.lookup nodeId = some node) (hinputs : HasInputs node inputs) :
    editInputs edit graph nodeId = .ok (graph.put (nodeId, withInputs (edit inputs) node)) := by
  rw [editInputs, nodeInputs, hnode]
  dsimp only
  rw [hinputs]
  rfl

/-- An edit finds an object with inputs and rewrites them. -/
theorem editInputs_ok_iff {edit : List (String × JsonValue) → List (String × JsonValue)}
    {graph graph' : Graph} {nodeId : String} :
    editInputs edit graph nodeId = .ok graph' ↔
      ∃ node inputs, (graph.lookup nodeId = some node ∧ HasInputs node inputs) ∧
        graph.put (nodeId, withInputs (edit inputs) node) = graph' := by
  rw [editInputs, nodeInputs, bind_ok_iff]
  cases hnode : graph.lookup nodeId with
  | none =>
      constructor
      · intro h
        obtain ⟨_, hnone, -⟩ := h
        cases hnone
      · intro h
        obtain ⟨_, _, ⟨hnone, -⟩, -⟩ := h
        cases hnone
  | some node =>
      simp only [pure_ok_iff]
      constructor
      · intro h
        obtain ⟨inputs, hinputs, hgraph⟩ := h
        exact ⟨node, inputs, ⟨rfl, hinputs⟩, hgraph⟩
      · intro h
        obtain ⟨_, inputs, ⟨hsome, hinputs⟩, hgraph⟩ := h
        obtain rfl := Option.some.inj hsome
        exact ⟨inputs, hinputs, hgraph⟩

theorem editInputs_withoutLinks {removed : Finset String} {graph : Graph} {nodeId : String}
    (h : AllHaveInputs graph) (hnode : nodeId ∈ graph.rows.map Prod.fst) :
    editInputs (withoutLinks removed) graph nodeId = .ok (cutAt removed [nodeId] graph) := by
  obtain ⟨⟨nodeId, node⟩, hrow, rfl⟩ := List.mem_map.mp hnode
  obtain ⟨inputs, hinputs⟩ := h _ hrow
  have hlookup : graph.lookup nodeId = some node := Dict.lookup_eq_some_iff.mpr hrow
  rw [editInputs_ok hlookup hinputs, ← hinputs.cutLinks, Dict.put_eq_mapRows _ hlookup]
  simp only [cutAt, List.mem_singleton]

/-- The loop over the nodes that are left. -/
theorem foldlM_editInputs {removed : Finset String} {nodeIds : List String} {graph : Graph}
    (h : AllHaveInputs graph) (hnodes : ∀ nodeId ∈ nodeIds, nodeId ∈ graph.rows.map Prod.fst) :
    nodeIds.foldlM (editInputs (withoutLinks removed)) graph = .ok (cutAt removed nodeIds graph) := by
  induction nodeIds generalizing graph with
  | nil =>
      have hsame : cutAt removed [] graph = graph := by
        apply Table.ext
        simp [cutAt, Table.mapRows]
      rw [hsame]
      rfl
  | cons nodeId rest ih =>
      rw [List.forall_mem_cons] at hnodes
      have hkeys : (cutAt removed [nodeId] graph).rows.map Prod.fst = graph.rows.map Prod.fst := by
        simp [cutAt, Table.mapRows]
      rw [List.foldlM_cons, editInputs_withoutLinks h hnodes.1]
      refine (ih (h.cutAt removed [nodeId]) (hkeys ▸ hnodes.2)).trans ?_
      rw [cutAt_cutAt]

/-- A loop of edits ends normally only if it finds inputs at every node. -/
theorem hasInputs_of_foldlM {edit : List (String × JsonValue) → List (String × JsonValue)}
    {nodeIds : List String} {graph graph' : Graph}
    (h : nodeIds.foldlM (editInputs edit) graph = .ok graph') :
    ∀ nodeId ∈ nodeIds, ∃ node inputs, graph.lookup nodeId = some node ∧ HasInputs node inputs := by
  induction nodeIds generalizing graph with
  | nil => exact List.forall_mem_nil _
  | cons first rest ih =>
      rw [List.foldlM_cons, bind_ok_iff] at h
      obtain ⟨next, hnext, hrest⟩ := h
      obtain ⟨node, inputs, hfound, rfl⟩ := editInputs_ok_iff.mp hnext
      rw [List.forall_mem_cons]
      refine ⟨⟨node, inputs, hfound⟩, fun nodeId hmem => ?_⟩
      obtain ⟨node', inputs', hnode', hinputs'⟩ := ih hrest nodeId hmem
      by_cases heq : first = nodeId
      · exact heq ▸ ⟨node, inputs, hfound⟩
      · rw [Dict.lookup_put_of_ne _ _ heq] at hnode'
        exact ⟨node', inputs', hnode', hinputs'⟩

/-- A dropped slot prunes the graph, if all other nodes have inputs. -/
theorem dropSlot_eq {graph : Graph} {slot : ImageSlot}
    (h : AllHaveInputs (graph.without slot.removedNodeIds)) :
    dropSlot graph slot = .ok (pruneGraph slot.removedNodeIds graph) := by
  rw [dropSlot]
  refine (foldlM_editInputs h fun _ hnode => hnode).trans ?_
  apply congrArg
  apply Table.ext
  apply List.map_congr_left
  intro row hrow
  rw [if_pos (List.mem_map_of_mem hrow)]

theorem dropSlot_ok_iff {graph graph' : Graph} {slot : ImageSlot} :
    dropSlot graph slot = .ok graph' ↔ AllHaveInputs (graph.without slot.removedNodeIds) ∧
      pruneGraph slot.removedNodeIds graph = graph' := by
  constructor
  · intro h
    have hall : AllHaveInputs (graph.without slot.removedNodeIds) := by
      intro row hrow
      obtain ⟨node, inputs, hnode, hinputs⟩ :=
        hasInputs_of_foldlM h row.1 (List.mem_map_of_mem hrow)
      rw [Dict.lookup_eq_some_iff.mpr hrow] at hnode
      obtain rfl := Option.some.inj hnode
      exact ⟨inputs, hinputs⟩
    rw [dropSlot_eq hall] at h
    exact ⟨hall, Except.ok.inj h⟩
  · intro h
    obtain ⟨hall, rfl⟩ := h
    exact dropSlot_eq hall

theorem AllHaveInputs.without {graph : Graph} (h : AllHaveInputs graph) (removed : Finset String) :
    AllHaveInputs (graph.without removed) :=
  fun row hrow => h row (List.mem_filter.mp hrow).1

end GpuWorkerPool
