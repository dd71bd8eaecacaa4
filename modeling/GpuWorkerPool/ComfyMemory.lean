import GpuWorkerPool.ComfyAllowlist
import Mathlib.Logic.Relation

/-!
The graphs of a plugin in its memory. The objects that the edits change are the graph and the inputs
of its nodes, so these are held by reference. An execution copies the graph of the template and edits
the copy, and the graphs of the templates stay as they are over all jobs.
-/

namespace GpuWorkerPool

open Base ComfyWorkflowPlugin

/-- A node that holds its inputs by reference, or a value without inputs. -/
inductive NodeObject where
  | bare (node : JsonValue) (hbare : ∀ inputs, ¬ HasInputs node inputs)
  | linked (node : JsonValue) (cell : Nat) (hlinked : ∃ inputs, HasInputs node inputs)

abbrev GraphObject := Dict String NodeObject

/-- The objects of inputs and the graphs, by reference. -/
structure GraphMemory where
  inputs : List (List (String × JsonValue))
  graphs : List GraphObject

abbrev NodeRow := String × NodeObject

namespace NodeObject

def cell? : NodeObject → Option Nat
  | bare _ _ => none
  | linked _ cell _ => some cell

def read (inputs : List (List (String × JsonValue))) : NodeObject → JsonValue
  | bare node _ => node
  | linked node cell _ => withInputs (inputs[cell]?.getD []) node

end NodeObject

/-- The references to inputs in a graph. -/
def cellsOf (rows : List NodeRow) : List Nat := rows.filterMap fun row => row.2.cell?

def readRows (inputs : List (List (String × JsonValue))) (rows : List NodeRow) :
    List (String × JsonValue) :=
  rows.map fun row => (row.1, row.2.read inputs)

theorem keys_readRows (inputs : List (List (String × JsonValue))) (rows : List NodeRow) :
    (readRows inputs rows).map Prod.fst = rows.map Prod.fst := by
  rw [readRows, List.map_map]
  rfl

namespace GraphMemory

def graphAt (memory : GraphMemory) (ref : Nat) : GraphObject := memory.graphs[ref]?.getD Table.empty

/-- The graph that an object stands for. -/
def read (memory : GraphMemory) (ref : Nat) : Graph where
  rows := readRows memory.inputs (memory.graphAt ref).rows
  keys_nodup := (keys_readRows _ _).symm ▸ (memory.graphAt ref).keys_nodup

/-- Puts other content into an object of inputs. -/
def write (memory : GraphMemory) (cell : Nat) (inputs : List (String × JsonValue)) : GraphMemory :=
  { memory with inputs := memory.inputs.set cell inputs }

/-- Pops nodes from a graph. -/
def remove (memory : GraphMemory) (ref : Nat) (removed : Finset String) : GraphMemory :=
  { memory with graphs := memory.graphs.set ref ((memory.graphAt ref).without removed) }

/-- `_node_inputs` -/
def nodeInputs (ref : Nat) (memory : GraphMemory) (nodeId : String) :
    Except GraphExc (List (String × JsonValue)) :=
  match (memory.graphAt ref).lookup nodeId with
  | some (.linked _ cell _) => .ok (memory.inputs[cell]?.getD [])
  | some (.bare node _) => inputsOf node
  | none => .error .keyError

/-- Edits the object that `_node_inputs` returns. A node without inputs has none to edit. -/
def editInputs (ref : Nat) (edit : List (String × JsonValue) → List (String × JsonValue))
    (memory : GraphMemory) (nodeId : String) : Except GraphExc GraphMemory :=
  match (memory.graphAt ref).lookup nodeId with
  | some (.linked _ cell _) => .ok (memory.write cell (edit (memory.inputs[cell]?.getD [])))
  | some (.bare node _) => do
      let _ ← inputsOf node
      pure memory
  | none => .error .keyError

/-- `_drop_slot` -/
def dropSlot (ref : Nat) (memory : GraphMemory) (slot : ImageSlot) : Except GraphExc GraphMemory :=
  let kept := memory.remove ref slot.removedNodeIds
  ((kept.graphAt ref).rows.map Prod.fst).foldlM
    (editInputs ref (withoutLinks slot.removedNodeIds)) kept

/-- The edits of one graph object. -/
def ops (ref : Nat) : GraphOps GraphMemory := ⟨nodeInputs ref, editInputs ref, dropSlot ref⟩

end GraphMemory

theorem not_hasInputs_of_error {node : JsonValue} {error : GraphExc}
    (h : inputsOf node = .error error) (inputs : List (String × JsonValue)) :
    ¬ HasInputs node inputs := by
  intro hinputs
  rw [HasInputs, h] at hinputs
  cases hinputs

/-- A node with an object of inputs of its own. -/
def storeNode (node : JsonValue) (inputs : List (List (String × JsonValue))) :
    NodeObject × List (List (String × JsonValue)) :=
  match hown : inputsOf node with
  | .ok own => (.linked node inputs.length ⟨own, hown⟩, inputs ++ [own])
  | .error _ => (.bare node (not_hasInputs_of_error hown), inputs)

def storeRows : List (String × JsonValue) → List (List (String × JsonValue)) →
    List NodeRow × List (List (String × JsonValue))
  | [], inputs => ([], inputs)
  | row :: rest, inputs =>
      let stored := storeNode row.2 inputs
      let others := storeRows rest stored.2
      ((row.1, stored.1) :: others.1, others.2)

theorem keys_storeRows (rows : List (String × JsonValue))
    (inputs : List (List (String × JsonValue))) :
    (storeRows rows inputs).1.map Prod.fst = rows.map Prod.fst := by
  induction rows generalizing inputs with
  | nil => rfl
  | cons row rest ih =>
      rw [storeRows, List.map_cons, List.map_cons]
      exact congrArg _ (ih _)

/-- New objects for a graph, after those that are there. -/
def GraphMemory.store (memory : GraphMemory) (graph : Graph) : GraphMemory :=
  let stored := storeRows graph.rows memory.inputs
  { inputs := stored.2,
    graphs := memory.graphs ++ [⟨stored.1, (keys_storeRows _ _).symm ▸ graph.keys_nodup⟩] }

/-- `copy.deepcopy(graph)`, for a graph whose nodes share nothing: its new reference is the next. -/
def GraphMemory.deepcopy (memory : GraphMemory) (ref : Nat) : GraphMemory :=
  memory.store (memory.read ref)

/-! ### Reading -/

theorem hasInputs_linked {node : JsonValue} (hlinked : ∃ inputs, HasInputs node inputs)
    (inputs : List (String × JsonValue)) : HasInputs (withInputs inputs node) inputs := by
  obtain ⟨inputs', hinputs⟩ := hlinked
  exact hinputs.withInputs inputs

namespace GraphMemory

variable {memory : GraphMemory} {ref : Nat}

theorem lookup_read (nodeId : String) :
    (memory.read ref).lookup nodeId =
      ((memory.graphAt ref).lookup nodeId).map (NodeObject.read memory.inputs) := by
  ext node
  rw [Dict.lookup_eq_some_iff, Option.map_eq_some_iff]
  simp only [Dict.lookup_eq_some_iff, read, readRows, List.mem_map, Prod.mk.injEq, Prod.exists]
  constructor
  · intro h
    obtain ⟨_, object, hrow, rfl, rfl⟩ := h
    exact ⟨object, hrow, rfl⟩
  · intro h
    obtain ⟨object, hrow, rfl⟩ := h
    exact ⟨nodeId, object, hrow, rfl, rfl⟩

theorem nodeInputs_read (nodeId : String) :
    nodeInputs ref memory nodeId = GpuWorkerPool.nodeInputs (memory.read ref) nodeId := by
  rw [nodeInputs, GpuWorkerPool.nodeInputs, lookup_read]
  cases (memory.graphAt ref).lookup nodeId with
  | none => rfl
  | some object =>
      cases object with
      | bare node hbare => rfl
      | linked node cell hlinked => exact (hasInputs_linked hlinked _).symm

end GraphMemory

/-- The inputs of a node are no inputs of another node. -/
theorem eq_of_cell {rows : List NodeRow} (hnodup : (cellsOf rows).Nodup) {row other : NodeRow}
    (hrow : row ∈ rows) (hother : other ∈ rows) {cell : Nat} (hcell : row.2.cell? = some cell)
    (hsame : other.2.cell? = some cell) : row = other := by
  induction rows with
  | nil => cases hrow
  | cons first rest ih =>
      rw [cellsOf, List.filterMap_cons] at hnodup
      have hlater : ∀ later ∈ rest, first.2.cell? = some cell → later.2.cell? ≠ some cell := by
        intro later hmem hfirst hlater
        rw [hfirst] at hnodup
        exact (List.nodup_cons.mp hnodup).1 (List.mem_filterMap.mpr ⟨later, hmem, hlater⟩)
      have hrest : (cellsOf rest).Nodup := by
        cases hfirst : first.2.cell? with
        | none =>
            rw [hfirst] at hnodup
            exact hnodup
        | some _ =>
            rw [hfirst] at hnodup
            exact (List.nodup_cons.mp hnodup).2
      rcases List.mem_cons.mp hrow with hrowFirst | hrowRest
      · rcases List.mem_cons.mp hother with hotherFirst | hotherRest
        · rw [hrowFirst, hotherFirst]
        · exact absurd hsame (hlater other hotherRest (hrowFirst ▸ hcell))
      · rcases List.mem_cons.mp hother with hotherFirst | hotherRest
        · exact absurd hcell (hlater row hrowRest (hotherFirst ▸ hsame))
        · exact ih hrest hrowRest hotherRest

theorem NodeObject.read_of_cell_ne {object : NodeObject} {cell : Nat}
    (h : object.cell? ≠ some cell) (inputs : List (List (String × JsonValue)))
    (value : List (String × JsonValue)) : object.read (inputs.set cell value) = object.read inputs := by
  cases object with
  | bare node hbare => rfl
  | linked node other hlinked =>
      have hne : cell ≠ other := fun heq => h (congrArg some heq.symm)
      rw [read, read, List.getElem?_set_ne hne]

/-- A graph reads the same from memories that agree on its inputs. -/
theorem readRows_congr {rows : List NodeRow} {inputs inputs' : List (List (String × JsonValue))}
    (hcells : ∀ cell ∈ cellsOf rows, inputs'[cell]? = inputs[cell]?) :
    readRows inputs' rows = readRows inputs rows := by
  apply List.map_congr_left
  intro row hrow
  apply congrArg (Prod.mk row.1)
  cases hobject : row.2 with
  | bare node hbare => rfl
  | linked node cell hlinked =>
      rw [NodeObject.read, NodeObject.read,
        hcells cell (List.mem_filterMap.mpr ⟨row, hrow, by rw [hobject]; rfl⟩)]

/-! ### Copies -/

/-- The stored rows read as the rows, from objects of inputs of their own. -/
structure StoredRows (rows : List (String × JsonValue)) (inputs : List (List (String × JsonValue)))
    (stored : List NodeRow × List (List (String × JsonValue))) : Prop where
  grown : ∃ added, stored.2 = inputs ++ added
  reads : readRows stored.2 stored.1 = rows
  fresh : ∀ cell ∈ cellsOf stored.1, inputs.length ≤ cell ∧ cell < stored.2.length
  separate : (cellsOf stored.1).Nodup

theorem storeNode_cases (node : JsonValue) (inputs : List (List (String × JsonValue))) :
    (∃ hbare, storeNode node inputs = (.bare node hbare, inputs)) ∨
      ∃ own hlinked, HasInputs node own ∧
        storeNode node inputs = (.linked node inputs.length hlinked, inputs ++ [own]) := by
  rw [storeNode]
  split
  · rename_i own hown
    exact Or.inr ⟨own, ⟨own, hown⟩, hown, rfl⟩
  · rename_i hnone
    exact Or.inl ⟨not_hasInputs_of_error hnone, rfl⟩

theorem storeRows_stored (rows : List (String × JsonValue))
    (inputs : List (List (String × JsonValue))) :
    StoredRows rows inputs (storeRows rows inputs) := by
  induction rows generalizing inputs with
  | nil => exact ⟨⟨[], (List.append_nil _).symm⟩, rfl, List.forall_mem_nil _, List.nodup_nil⟩
  | cons row rest ih =>
      rw [storeRows]
      rcases storeNode_cases row.2 inputs with ⟨hbare, hnode⟩ | ⟨own, hlinked, hown, hnode⟩
      · rw [hnode]
        have h := ih inputs
        exact ⟨h.grown, congrArg _ h.reads, h.fresh, h.separate⟩
      · rw [hnode]
        have h := ih (inputs ++ [own])
        obtain ⟨added, hgrown⟩ := h.grown
        rw [List.append_assoc] at hgrown
        have hhere : (storeRows rest (inputs ++ [own])).2[inputs.length]? = some own := by
          rw [hgrown, List.getElem?_append_right (Nat.le_refl _), Nat.sub_self]
          rfl
        refine ⟨⟨_, hgrown⟩, ?_, fun cell hcell => ?_, ?_⟩
        · rw [readRows, List.map_cons, NodeObject.read, hhere, Option.getD_some,
            hown.withInputs_self]
          exact congrArg _ h.reads
        · rcases List.mem_cons.mp hcell with rfl | hcell
          · exact ⟨Nat.le_refl _, (List.getElem?_eq_some_iff.mp hhere).1⟩
          · obtain ⟨hge, hlt⟩ := h.fresh cell hcell
            rw [List.length_append] at hge
            exact ⟨by omega, hlt⟩
        · refine List.nodup_cons.mpr ⟨fun hmem => ?_, h.separate⟩
          have hge := (h.fresh inputs.length hmem).1
          rw [List.length_append, List.length_singleton] at hge
          omega

/-- What was in memory at the start is as it was, and one more graph has only inputs of its own. -/
structure Spares (start memory : GraphMemory) : Prop where
  grown : start.inputs.length ≤ memory.inputs.length
  inputs : ∀ cell < start.inputs.length, memory.inputs[cell]? = start.inputs[cell]?
  graphs : ∀ ref < start.graphs.length, memory.graphs[ref]? = start.graphs[ref]?
  length : memory.graphs.length = start.graphs.length + 1
  fresh : ∀ cell ∈ cellsOf (memory.graphAt start.graphs.length).rows, start.inputs.length ≤ cell

/-- An edit of a graph object writes one of its inputs or removes nodes. -/
inductive CopyEdit (ref : Nat) (memory : GraphMemory) : GraphMemory → Prop where
  | write {cell : Nat} (hcell : cell ∈ cellsOf (memory.graphAt ref).rows)
      (inputs : List (String × JsonValue)) :
      CopyEdit ref memory (memory.write cell inputs)
  | remove (removed : Finset String) : CopyEdit ref memory (memory.remove ref removed)

theorem GraphMemory.graphAt_remove {memory : GraphMemory} {ref : Nat}
    (href : ref < memory.graphs.length) (removed : Finset String) :
    (memory.remove ref removed).graphAt ref = (memory.graphAt ref).without removed := by
  rw [graphAt, remove, List.getElem?_set_self href]
  rfl

theorem GraphMemory.read_remove {memory : GraphMemory} {ref : Nat}
    (href : ref < memory.graphs.length) (removed : Finset String) :
    (memory.remove ref removed).read ref = (memory.read ref).without removed := by
  apply Table.ext
  simp only [read, readRows]
  rw [graphAt_remove href]
  simp only [Dict.without, List.filter_map, Function.comp_def]
  rfl

theorem cellsOf_without {graph : GraphObject} {removed : Finset String} :
    (cellsOf (graph.without removed).rows).Sublist (cellsOf graph.rows) :=
  List.filter_sublist.filterMap _

/-- An edit of the copy spares everything else. -/
theorem Spares.edit {start memory memory' : GraphMemory} (h : Spares start memory)
    (hedit : CopyEdit start.graphs.length memory memory') : Spares start memory' := by
  have href : start.graphs.length < memory.graphs.length := by
    rw [h.length]
    exact Nat.lt_succ_self _
  cases hedit with
  | write hcell inputs =>
      refine ⟨?_, fun other hother => ?_, h.graphs, h.length, h.fresh⟩
      · rw [GraphMemory.write, List.length_set]
        exact h.grown
      · have hne : _ ≠ other := Nat.ne_of_gt (Nat.lt_of_lt_of_le hother (h.fresh _ hcell))
        rw [GraphMemory.write, List.getElem?_set_ne hne]
        exact h.inputs other hother
  | remove removed =>
      refine ⟨h.grown, h.inputs, fun ref hlt => ?_, ?_, ?_⟩
      · rw [GraphMemory.remove, List.getElem?_set_ne (Nat.ne_of_gt hlt)]
        exact h.graphs ref hlt
      · rw [GraphMemory.remove, List.length_set]
        exact h.length
      · rw [GraphMemory.graphAt_remove href]
        exact fun cell hcell => h.fresh cell (cellsOf_without.subset hcell)

theorem Spares.edits {start memory memory' : GraphMemory} (h : Spares start memory)
    (hedits : Relation.ReflTransGen (CopyEdit start.graphs.length) memory memory') :
    Spares start memory' := by
  induction hedits with
  | refl => exact h
  | tail _ hedit ih => exact ih.edit hedit

/-- The copy stands for the graph. -/
structure Copied (start memory : GraphMemory) (graph : Graph) : Prop where
  spares : Spares start memory
  separate : (cellsOf (memory.graphAt start.graphs.length).rows).Nodup
  bounded : ∀ cell ∈ cellsOf (memory.graphAt start.graphs.length).rows, cell < memory.inputs.length
  reads : memory.read start.graphs.length = graph

/-- A stored graph is a copy of the graph. -/
theorem copied_store (memory : GraphMemory) (graph : Graph) :
    Copied memory (memory.store graph) graph := by
  have hrows := storeRows_stored graph.rows memory.inputs
  have hcopy : (memory.store graph).graphAt memory.graphs.length =
      ⟨(storeRows graph.rows memory.inputs).1,
        (keys_storeRows _ _).symm ▸ graph.keys_nodup⟩ := by
    rw [GraphMemory.graphAt, GraphMemory.store, List.getElem?_append_right (Nat.le_refl _),
      Nat.sub_self]
    rfl
  obtain ⟨added, hgrown⟩ := hrows.grown
  have hinputs : (memory.store graph).inputs = memory.inputs ++ added := hgrown
  refine ⟨⟨?_, fun cell hcell => ?_, fun other hother => ?_, ?_, ?_⟩, ?_, ?_, ?_⟩
  · rw [hinputs, List.length_append]
    exact Nat.le_add_right _ _
  · rw [hinputs, List.getElem?_append_left hcell]
  · exact List.getElem?_append_left hother
  · exact List.length_append
  · rw [hcopy]
    exact fun cell hcell => (hrows.fresh cell hcell).1
  · rw [hcopy]
    exact hrows.separate
  · rw [hcopy]
    exact fun cell hcell => (hrows.fresh cell hcell).2
  · apply Table.ext
    rw [GraphMemory.read]
    dsimp only
    rw [hcopy]
    exact hrows.reads

/-! ### The edits of a copy are the edits of its graph -/

theorem Copied.edit {start memory memory' : GraphMemory} {graph : Graph}
    (h : Copied start memory graph) (hedit : CopyEdit start.graphs.length memory memory') :
    Copied start memory' (memory'.read start.graphs.length) := by
  have hspares := h.spares.edit hedit
  have href : start.graphs.length < memory.graphs.length := by
    rw [h.spares.length]
    exact Nat.lt_succ_self _
  cases hedit with
  | write hcell inputs =>
      refine ⟨hspares, h.separate, fun cell hmem => ?_, rfl⟩
      rw [GraphMemory.write, List.length_set]
      exact h.bounded cell hmem
  | remove removed =>
      have hkept := GraphMemory.graphAt_remove href removed
      refine ⟨hspares, ?_, ?_, rfl⟩
      · rw [hkept]
        exact cellsOf_without.nodup h.separate
      · rw [hkept]
        exact fun cell hmem => h.bounded cell (cellsOf_without.subset hmem)

/-- Writing the inputs of one node of a graph object. -/
theorem read_write {memory : GraphMemory} {ref : Nat}
    (hseparate : (cellsOf (memory.graphAt ref).rows).Nodup)
    (hbounded : ∀ cell ∈ cellsOf (memory.graphAt ref).rows, cell < memory.inputs.length)
    {nodeId : String} {node : JsonValue} {cell : Nat} {hlinked : ∃ inputs, HasInputs node inputs}
    (hlookup : (memory.graphAt ref).lookup nodeId = some (.linked node cell hlinked))
    (inputs : List (String × JsonValue)) :
    (memory.write cell inputs).read ref =
      (memory.read ref).put
        (nodeId, withInputs inputs (withInputs (memory.inputs[cell]?.getD []) node)) := by
  have hrow := Dict.lookup_eq_some_iff.mp hlookup
  have hcell : cell < memory.inputs.length :=
    hbounded cell (List.mem_filterMap.mpr ⟨_, hrow, rfl⟩)
  have hread : (memory.read ref).lookup nodeId =
      some (withInputs (memory.inputs[cell]?.getD []) node) := by
    rw [GraphMemory.lookup_read, hlookup]
    rfl
  apply Table.ext
  rw [Dict.put_eq_mapRows (withInputs inputs) hread]
  simp only [Table.mapRows, GraphMemory.read, GraphMemory.write, readRows, List.map_map]
  apply List.map_congr_left
  intro row hmem
  by_cases hid : row.1 = nodeId
  · have hobject : row.2 = .linked node cell hlinked := by
      have hfound : (memory.graphAt ref).lookup row.1 = some row.2 :=
        Dict.lookup_eq_some_iff.mpr hmem
      rw [hid, hlookup] at hfound
      exact (Option.some.inj hfound).symm
    simp only [Function.comp_apply, hid, hobject, if_true, NodeObject.read]
    rw [List.getElem?_set_self hcell, withInputs_withInputs]
    rfl
  · have hother : row.2.cell? ≠ some cell := by
      intro hsame
      exact hid (congrArg Prod.fst (eq_of_cell hseparate hmem hrow hsame rfl))
    simp only [Function.comp_apply, if_neg hid]
    rw [NodeObject.read_of_cell_ne hother]

theorem Copied.matches_edit {start memory : GraphMemory} {graph : Graph}
    (h : Copied start memory graph)
    (edit : List (String × JsonValue) → List (String × JsonValue)) (nodeId : String) :
    Matches (Copied start)
      (GraphMemory.editInputs start.graphs.length edit memory nodeId)
      (editInputs edit graph nodeId) := by
  rw [← h.reads, GraphMemory.editInputs, editInputs, nodeInputs, GraphMemory.lookup_read]
  cases hlookup : (memory.graphAt start.graphs.length).lookup nodeId with
  | none => exact .error _
  | some object =>
      cases object with
      | bare node hbare =>
          simp only [Option.map_some, NodeObject.read]
          cases hinputs : inputsOf node with
          | ok inputs => exact absurd hinputs (hbare inputs)
          | error error => exact .error error
      | linked node cell hlinked =>
          have hcell : cell ∈ cellsOf (memory.graphAt start.graphs.length).rows :=
            List.mem_filterMap.mpr ⟨_, Dict.lookup_eq_some_iff.mp hlookup, rfl⟩
          have hinputs : inputsOf (withInputs (memory.inputs[cell]?.getD []) node) =
              .ok (memory.inputs[cell]?.getD []) := hasInputs_linked hlinked _
          have hwritten := h.edit (.write hcell (edit (memory.inputs[cell]?.getD [])))
          rw [read_write h.separate h.bounded hlookup] at hwritten
          simp only [Option.map_some, NodeObject.read, hinputs]
          exact .ok hwritten

theorem Copied.matches_drop {start memory : GraphMemory} {graph : Graph}
    (h : Copied start memory graph) (slot : ImageSlot) :
    Matches (Copied start) (GraphMemory.dropSlot start.graphs.length memory slot)
      (dropSlot graph slot) := by
  have href : start.graphs.length < memory.graphs.length := by
    rw [h.spares.length]
    exact Nat.lt_succ_self _
  have hremoved := h.edit (.remove slot.removedNodeIds)
  rw [GraphMemory.read_remove href, h.reads] at hremoved
  have hkeys : ((memory.remove start.graphs.length slot.removedNodeIds).graphAt
      start.graphs.length).rows.map Prod.fst =
      (graph.without slot.removedNodeIds).rows.map Prod.fst := by
    rw [← hremoved.reads]
    exact (keys_readRows _ _).symm
  rw [GraphMemory.dropSlot, dropSlot, hkeys]
  exact Matches.foldlM (fun memory graph h nodeId _ => h.matches_edit _ nodeId) hremoved

/-- Edits of one kind follow edits of another kind, on related states. -/
structure Simulates {σ τ : Type} (R : σ → τ → Prop) (ops : GraphOps σ) (ops' : GraphOps τ) :
    Prop where
  nodeInputs : ∀ s t, R s t → ∀ nodeId, ops.nodeInputs s nodeId = ops'.nodeInputs t nodeId
  editInputs : ∀ s t, R s t → ∀ edit nodeId,
    Matches R (ops.editInputs edit s nodeId) (ops'.editInputs edit t nodeId)
  dropSlot : ∀ s t, R s t → ∀ slot, Matches R (ops.dropSlot s slot) (ops'.dropSlot t slot)

theorem matches_inGraph {α β : Type} {R : α → β → Prop} {p : Except GraphExc α}
    {q : Except GraphExc β} (h : Matches R p q) :
    Matches R (ComfyWorkflowPlugin.inGraph p) (ComfyWorkflowPlugin.inGraph q) := by
  cases h with
  | ok h => exact .ok h
  | error error => exact .error _

theorem matches_self {ε α : Type} (p : Except ε α) : Matches Eq p p := by
  cases p with
  | ok a => exact .ok rfl
  | error error => exact .error error

section Simulation

variable {σ τ : Type} {R : σ → τ → Prop} {ops : GraphOps σ} {ops' : GraphOps τ}
  {runtime : LocalRuntime} {template : ComfyTemplate} {context : ExecutionContext}
  {request : ValidatedRequest}

theorem Simulates.placeSlot (hsim : Simulates R ops ops') {s : σ} {t : τ} (h : R s t)
    (inputName : String) (key : Option String) (slot : ImageSlot) :
    Matches R (ComfyWorkflowPlugin.placeSlot ops runtime context inputName key s slot)
      (ComfyWorkflowPlugin.placeSlot ops' runtime context inputName key t slot) := by
  cases key with
  | none => exact matches_inGraph (hsim.dropSlot s t h slot)
  | some key =>
      refine (matches_self _).bind fun source _ hsource => ?_
      subst hsource
      refine (matches_self _).bind fun name _ hname => ?_
      subst hname
      exact matches_inGraph (hsim.editInputs s t h _ _)

theorem Simulates.placeSlots (hsim : Simulates R ops ops') {s : σ} {t : τ} (h : R s t)
    (inputName : String) (key : ImageSlot → Option String) (slots : List ImageSlot) :
    Matches R
      (slots.foldlM (fun s slot =>
        ComfyWorkflowPlugin.placeSlot ops runtime context inputName (key slot) s slot) s)
      (slots.foldlM (fun t slot =>
        ComfyWorkflowPlugin.placeSlot ops' runtime context inputName (key slot) t slot) t) :=
  Matches.foldlM (fun _ _ h slot _ => hsim.placeSlot h inputName (key slot) slot) h

theorem Simulates.editGraph (hsim : Simulates R ops ops') {s : σ} {t : τ} (h : R s t) :
    Matches R (ComfyWorkflowPlugin.editGraph ops runtime template context request s)
      (ComfyWorkflowPlugin.editGraph ops' runtime template context request t) := by
  refine (matches_inGraph (Matches.foldlM (fun s t h entry _ => ?_) h)).bind fun s t h => ?_
  · rw [fillInput, fillInput]
    cases request.inputs.lookup entry.name with
    | none => exact .ok h
    | some value => exact hsim.editInputs s t h _ _
  refine (matches_self _).bind fun images _ himages => ?_
  subst himages
  refine (hsim.placeSlots h _ (keyOf images) _).bind fun s t h => ?_
  refine (matches_self _).bind fun audios _ haudios => ?_
  subst haudios
  refine (hsim.placeSlots h _ (keyOf audios) _).bind fun s t h => ?_
  apply matches_inGraph
  rw [nameOutput, nameOutput, hsim.nodeInputs s t h]
  refine (matches_self _).bind fun inputs _ hinputs => ?_
  subst hinputs
  split_ifs
  · exact hsim.editInputs s t h _ _
  · exact .ok h

end Simulation

/-- The edits of the copy simulate those of the graph it stands for. -/
theorem simulates_copied (start : GraphMemory) :
    Simulates (Copied start) (GraphMemory.ops start.graphs.length) graphOps where
  nodeInputs memory graph h nodeId := by
    rw [← h.reads]
    exact GraphMemory.nodeInputs_read nodeId
  editInputs memory graph h edit nodeId := h.matches_edit edit nodeId
  dropSlot memory graph h slot := h.matches_drop slot

end GpuWorkerPool
