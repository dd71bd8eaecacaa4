import Mathlib.Data.Fintype.Card
import GpuWorkerPool.Base.JsonEncoding
import GpuWorkerPool.Base.Unfolding
import GpuWorkerPool.Validation

/-!
`_validate_json_tree` on the objects it walks: lists and dictionaries that refer to one another by
identity, so that a container can be shared or contain itself. The walk keeps the identities it has
seen and visits no container twice, which is why it ends; it ends normally exactly on trees within
the bounds, and what it admits is the payload that the other modules validate.
-/

namespace GpuWorkerPool

open Base

/-! ### Objects -/

/-- A value that is no container. -/
inductive PyLeaf where
  | none
  | bool (b : Bool)
  | int (n : Int)
  | float (f : Float64)
  | str (s : String)
  | other

/-- A leaf or a reference to a container. -/
inductive PyValue (ι : Type) where
  | leaf (l : PyLeaf)
  | container (id : ι)

/-- The key of a member is `none` unless it is a string. -/
inductive PyContainer (ι : Type) where
  | list (items : List (PyValue ι))
  | dict (members : List (Option String × PyValue ι))

/-- The containers that are reached from a payload, by their identities. -/
structure PyHeap (ι : Type) where
  cell : ι → PyContainer ι
  distinct : ∀ id members, cell id = .dict members → (members.filterMap Prod.fst).Nodup

/-- The error of a leaf. -/
def PyLeaf.refused : PyLeaf → Option String
  | .float f => if f.isFinite then .none else some "job payload numbers must be finite"
  | .other => some "job payload contains an unsupported value"
  | _ => .none

namespace PyContainer

variable {ι : Type}

/-- The items of a list, the values of a dictionary. -/
def values : PyContainer ι → List (PyValue ι)
  | .list items => items
  | .dict members => members.map Prod.snd

def stringKeys : PyContainer ι → Bool
  | .list _ => true
  | .dict members => members.all fun member => member.1.isSome

end PyContainer

namespace PyHeap

variable {ι : Type}

def children (heap : PyHeap ι) : PyValue ι → List (PyValue ι)
  | .leaf _ => []
  | .container id => (heap.cell id).values

/-- `id(value)` of a container. -/
def identity : PyValue ι → Option ι
  | .leaf _ => none
  | .container id => some id

/-- The loop, with the top of the stack first. -/
def walk [Fintype ι] [DecidableEq ι] (heap : PyHeap ι) :
    List (PyValue ι × Nat) → Finset ι → Except Exc Unit
  | [], _ => .ok ()
  | (.leaf l, depth) :: stack, seen =>
      if depth > maxJobPayloadDepth then
        .error (.valueError s!"job payload exceeds depth {maxJobPayloadDepth}")
      else
        match l.refused with
        | some text => .error (.valueError text)
        | none => walk heap stack seen
  | (.container id, depth) :: stack, seen =>
      if depth > maxJobPayloadDepth then
        .error (.valueError s!"job payload exceeds depth {maxJobPayloadDepth}")
      else if id ∈ seen then
        .error (.valueError "job payload contains a repeated or cyclic container")
      else if (heap.cell id).stringKeys then
        let pushed := (heap.cell id).values.map fun child => (child, depth + 1)
        walk heap (pushed.reverse ++ stack) (insert id seen)
      else .error (.valueError "job payload object keys must be strings")
termination_by stack seen => ((Finset.univ \ seen).card, stack.length)
decreasing_by
  · exact Prod.Lex.right _ (Nat.lt_succ_self _)
  · -- a container that is walked is one unseen container less
    apply Prod.Lex.left
    rename_i hnew _
    rw [Finset.sdiff_insert]
    exact Finset.card_erase_lt_of_mem (Finset.mem_sdiff.mpr ⟨Finset.mem_univ id, hnew⟩)

/-- `_validate_json_tree` -/
def validateJsonTree [Fintype ι] [DecidableEq ι] (heap : PyHeap ι) (root : PyValue ι) :
    Except Exc Unit :=
  walk heap [(root, 1)] ∅

/-! ### What the walk admits -/

/-- What the walk asks of a value at a depth, apart from its identity. -/
def Admissible (heap : PyHeap ι) (depth : Nat) : PyValue ι → Prop
  | .leaf l => depth ≤ maxJobPayloadDepth ∧ l.refused = none
  | .container id => depth ≤ maxJobPayloadDepth ∧ (heap.cell id).stringKeys

/-- A tree of bounded depth with string keys and supported leaves. A path is the list of the places
that lead from the root to a value. -/
structure BoundedTree (heap : PyHeap ι) (root : PyValue ι) : Prop where
  once : MetOnce heap.children identity root
  shallow : ∀ path value, follow heap.children root path = some value →
    path.length + 1 ≤ maxJobPayloadDepth
  keys : ∀ path id, follow heap.children root path = some (.container id) →
    (heap.cell id).stringKeys
  leaves : ∀ path l, follow heap.children root path = some (.leaf l) → l.refused = none

theorem boundedTree_iff {heap : PyHeap ι} {root : PyValue ι} : BoundedTree heap root ↔
    Throughout heap.children heap.Admissible 1 root ∧ MetOnce heap.children identity root := by
  constructor
  · intro h
    refine ⟨fun path value hpath => ?_, h.once⟩
    have hdepth := h.shallow path value hpath
    rw [Nat.add_comm] at hdepth
    cases value with
    | leaf l => exact ⟨hdepth, h.leaves path l hpath⟩
    | container id => exact ⟨hdepth, h.keys path id hpath⟩
  · rintro ⟨hall, honce⟩
    refine ⟨honce, fun path value hpath => ?_, fun path id hpath => (hall path _ hpath).2,
      fun path l hpath => (hall path _ hpath).2⟩
    have hhere := hall path value hpath
    rw [Nat.add_comm]
    cases value with
    | leaf l => exact hhere.1
    | container id => exact hhere.1

/-- The stack of the walk: each value with its depth. -/
def Admits (heap : PyHeap ι) (stack : List (PyValue ι × Nat)) (seen : Set ι) : Prop :=
  (∀ item ∈ stack, Throughout heap.children heap.Admissible item.2 item.1) ∧
    Unvisited heap.children identity (stack.map Prod.fst) seen

theorem throughout_leaf {heap : PyHeap ι} {l : PyLeaf} {depth : Nat} :
    Throughout heap.children heap.Admissible depth (.leaf l) ↔
      depth ≤ maxJobPayloadDepth ∧ l.refused = none := by
  rw [throughout_iff]
  exact ⟨And.left, fun h => ⟨h, fun _ hchild => absurd hchild List.not_mem_nil⟩⟩

theorem throughout_container {heap : PyHeap ι} {id : ι} {depth : Nat} :
    Throughout heap.children heap.Admissible depth (.container id) ↔
      (depth ≤ maxJobPayloadDepth ∧ (heap.cell id).stringKeys) ∧
        ∀ child ∈ (heap.cell id).values,
          Throughout heap.children heap.Admissible (depth + 1) child :=
  throughout_iff

theorem admits_leaf {heap : PyHeap ι} {l : PyLeaf} {depth : Nat} {stack : List (PyValue ι × Nat)}
    {seen : Set ι} : Admits heap ((.leaf l, depth) :: stack) seen ↔
      (depth ≤ maxJobPayloadDepth ∧ l.refused = none) ∧ Admits heap stack seen := by
  rw [Admits, Admits, List.forall_mem_cons, throughout_leaf, List.map_cons, unvisited_leaf rfl rfl,
    and_assoc]

theorem admits_container {heap : PyHeap ι} {id : ι} {depth : Nat}
    {stack : List (PyValue ι × Nat)} {seen : Set ι} :
    Admits heap ((.container id, depth) :: stack) seen ↔
      (depth ≤ maxJobPayloadDepth ∧ (heap.cell id).stringKeys) ∧ id ∉ seen ∧
        Admits heap (((heap.cell id).values.map fun child => (child, depth + 1)).reverse ++ stack)
          (insert id seen) := by
  have hthroughout : Throughout heap.children heap.Admissible depth (.container id) ↔
      (depth ≤ maxJobPayloadDepth ∧ (heap.cell id).stringKeys) ∧
        ∀ item ∈ ((heap.cell id).values.map fun child => (child, depth + 1)).reverse,
          Throughout heap.children heap.Admissible item.2 item.1 := by
    rw [throughout_container]
    simp only [List.mem_reverse, List.forall_mem_map]
  have hpushed : (((heap.cell id).values.map fun child => (child, depth + 1)).reverse ++ stack).map
      Prod.fst = (heap.children (.container id)).reverse ++ stack.map Prod.fst := by
    rw [List.map_append, List.map_reverse, List.map_map]
    exact congrArg (fun values => List.reverse values ++ stack.map Prod.fst) (List.map_id' _)
  have hidentity : identity (PyValue.container id) = some id := rfl
  rw [Admits, Admits, List.forall_mem_cons, hthroughout, List.map_cons, unvisited_node hidentity,
    hpushed, List.forall_mem_append]
  tauto

variable [Fintype ι] [DecidableEq ι]

/-- The walk ends normally on the stacks it admits, whatever order the errors are met in. -/
theorem walk_ok_iff (heap : PyHeap ι) (stack : List (PyValue ι × Nat)) (seen : Finset ι) :
    walk heap stack seen = .ok () ↔ Admits heap stack seen := by
  induction stack, seen using walk.induct heap with
  | case1 seen =>
      rw [walk]
      exact ⟨fun _ => ⟨fun _ h => absurd h List.not_mem_nil, unvisited_nil⟩, fun _ => rfl⟩
  | case2 l depth stack seen hdeep =>
      rw [walk, if_pos hdeep, admits_leaf]
      exact ⟨fun h => (by cases h), fun h => absurd hdeep (not_lt.mpr h.1.1)⟩
  | case3 l depth stack seen hdepth text hrefused =>
      rw [walk, if_neg hdepth, hrefused, admits_leaf, hrefused]
      exact ⟨fun h => (by cases h), fun h => (by cases h.1.2)⟩
  | case4 l depth stack seen hdepth hrefused ih =>
      rw [walk, if_neg hdepth, hrefused, admits_leaf, hrefused]
      simp only [not_lt.mp hdepth, true_and]
      exact ih
  | case5 id depth stack seen hdeep =>
      rw [walk, if_pos hdeep, admits_container]
      exact ⟨fun h => (by cases h), fun h => absurd hdeep (not_lt.mpr h.1.1)⟩
  | case6 id depth stack seen hdepth hseen =>
      rw [walk, if_neg hdepth, if_pos hseen, admits_container]
      exact ⟨fun h => (by cases h), fun h => absurd (Finset.mem_coe.mpr hseen) h.2.1⟩
  | case7 id depth stack seen hdepth hnew hkeys pushed ih =>
      rw [walk, if_neg hdepth, if_neg hnew, if_pos hkeys, ih, admits_container, Finset.coe_insert]
      exact ⟨fun h => ⟨⟨not_lt.mp hdepth, hkeys⟩, Finset.mem_coe.not.mpr hnew, h⟩, fun h => h.2.2⟩
  | case8 id depth stack seen hdepth hnew hkeys =>
      rw [walk, if_neg hdepth, if_neg hnew, if_neg hkeys, admits_container]
      exact ⟨fun h => (by cases h), fun h => absurd h.1.2 hkeys⟩

theorem validateJsonTree_ok_iff (heap : PyHeap ι) (root : PyValue ι) :
    heap.validateJsonTree root = .ok () ↔ BoundedTree heap root := by
  rw [validateJsonTree, walk_ok_iff, boundedTree_iff, Admits, List.map_singleton, Finset.coe_empty,
    unvisited_singleton, List.forall_mem_singleton]

theorem raises_walk (heap : PyHeap ι) (stack : List (PyValue ι × Nat)) (seen : Finset ι) :
    Raises Exc.IsValueError (walk heap stack seen) := by
  induction stack, seen using walk.induct heap with
  | case1 seen =>
      rw [walk]
      exact raises_ok ()
  | case2 l depth stack seen hdeep =>
      rw [walk, if_pos hdeep]
      exact raises_error ⟨_, rfl⟩
  | case3 l depth stack seen hdepth text hrefused =>
      rw [walk, if_neg hdepth, hrefused]
      exact raises_error ⟨text, rfl⟩
  | case4 l depth stack seen hdepth hrefused ih =>
      rw [walk, if_neg hdepth, hrefused]
      exact ih
  | case5 id depth stack seen hdeep =>
      rw [walk, if_pos hdeep]
      exact raises_error ⟨_, rfl⟩
  | case6 id depth stack seen hdepth hseen =>
      rw [walk, if_neg hdepth, if_pos hseen]
      exact raises_error ⟨_, rfl⟩
  | case7 id depth stack seen hdepth hnew hkeys pushed ih =>
      rw [walk, if_neg hdepth, if_neg hnew, if_pos hkeys]
      exact ih
  | case8 id depth stack seen hdepth hnew hkeys =>
      rw [walk, if_neg hdepth, if_neg hnew, if_neg hkeys]
      exact raises_error ⟨_, rfl⟩

/-! ### The JSON of a payload -/

end PyHeap

/-- The JSON of a leaf. -/
def PyLeaf.json? : PyLeaf → Option JsonValue
  | .none => some .null
  | .bool b => some (.bool b)
  | .int n => some (.int n)
  | .float f => some (.float f)
  | .str s => some (.str s)
  | .other => Option.none

namespace PyHeap

variable {ι : Type}

/-- The JSON value that `json.dumps` writes of a value, where containers are nested at most `fuel`
deep. -/
def unfold (heap : PyHeap ι) : Nat → PyValue ι → Option JsonValue
  | _, .leaf l => l.json?
  | 0, .container _ => none
  | fuel + 1, .container id =>
      match heap.cell id with
      | .list items => (items.mapM fun item => unfold heap fuel item).map .list
      | .dict members =>
          (members.mapM fun member : Option String × PyValue ι => member.1.bind fun name =>
            (unfold heap fuel member.2).map fun value => (name, value)).map .dict

/-- `validate_job_payload`. A value that the walk admits is nested no deeper than the bound. -/
def validateJobPayload [Fintype ι] [DecidableEq ι] [FloatRepr] (heap : PyHeap ι) (root : PyValue ι) :
    Except Exc Unit := do
  validateJsonTree heap root
  match unfold heap maxJobPayloadDepth root with
  | some value =>
      require (value.encode.length ≤ maxJobPayloadBytes)
        s!"job payload exceeds {maxJobPayloadBytes} bytes"
  | none => .error (.valueError "Circular reference detected")

section Unfold

variable {heap : PyHeap ι} {id : ι} {fuel : Nat} {json : JsonValue}

theorem unfold_list_iff {items : List (PyValue ι)} (hcell : heap.cell id = .list items) :
    heap.unfold (fuel + 1) (.container id) = some json ↔
      ∃ results, List.Forall₂ (fun item result => heap.unfold fuel item = some result) items results ∧
        .list results = json := by
  rw [unfold, hcell]
  dsimp only
  rw [Option.map_eq_some_iff]
  simp only [mapM_eq_some_iff]

/-- The members of a dictionary with their JSON. -/
def WritesMember (heap : PyHeap ι) (fuel : Nat) (member : Option String × PyValue ι)
    (result : String × JsonValue) : Prop :=
  member.1 = some result.1 ∧ heap.unfold fuel member.2 = some result.2

theorem unfold_dict_iff {members : List (Option String × PyValue ι)}
    (hcell : heap.cell id = .dict members) :
    heap.unfold (fuel + 1) (.container id) = some json ↔
      ∃ results, List.Forall₂ (WritesMember heap fuel) members results ∧ .dict results = json := by
  have hmember (member : Option String × PyValue ι) (result : String × JsonValue) :
      (member.1.bind fun name => (heap.unfold fuel member.2).map fun value => (name, value)) =
        some result ↔ WritesMember heap fuel member result := by
    rw [Option.bind_eq_some_iff]
    constructor
    · rintro ⟨name, hname, h⟩
      obtain ⟨value, hvalue, rfl⟩ := Option.map_eq_some_iff.mp h
      exact ⟨hname, hvalue⟩
    · rintro ⟨hname, hvalue⟩
      exact ⟨result.1, hname, by rw [hvalue, Option.map_some]⟩
  rw [unfold, hcell]
  dsimp only
  rw [Option.map_eq_some_iff]
  simp only [mapM_eq_some_iff, hmember]

/-- The bound on the depth is enough to write what the walk admits. -/
theorem exists_unfold {depth : Nat} {value : PyValue ι}
    (hall : Throughout heap.children heap.Admissible depth value)
    (hfuel : maxJobPayloadDepth < depth + fuel) : ∃ json, heap.unfold fuel value = some json := by
  induction fuel generalizing depth value with
  | zero =>
      obtain ⟨hhere, -⟩ := throughout_iff.mp hall
      cases value with
      | leaf l => exact absurd hfuel (not_lt.mpr hhere.1)
      | container id => exact absurd hfuel (not_lt.mpr hhere.1)
  | succ fuel ih =>
      obtain ⟨hhere, hchildren⟩ := throughout_iff.mp hall
      cases value with
      | leaf l =>
          have hrefused := hhere.2
          cases l with
          | other => cases hrefused
          | none | bool _ | int _ | float _ | str _ => exact ⟨_, rfl⟩
      | container id =>
          have hchild {child : PyValue ι} (hmem : child ∈ (heap.cell id).values) :
              ∃ json, heap.unfold fuel child = some json :=
            ih (hchildren child hmem) (by omega)
          have hkeys := hhere.2
          cases hcell : heap.cell id with
          | list items =>
              rw [hcell] at hchild
              obtain ⟨results, hresults⟩ := exists_forall₂ fun item hitem => hchild hitem
              exact ⟨_, (unfold_list_iff hcell).mpr ⟨results, hresults, rfl⟩⟩
          | dict members =>
              rw [hcell] at hchild hkeys
              have hwrites : ∀ member ∈ members, ∃ result, WritesMember heap fuel member result := by
                intro member hmember
                obtain ⟨name, hname⟩ := Option.isSome_iff_exists.mp
                  (List.all_eq_true.mp hkeys member hmember)
                obtain ⟨value, hvalue⟩ := hchild (List.mem_map_of_mem hmember)
                exact ⟨(name, value), hname, hvalue⟩
              obtain ⟨results, hresults⟩ := exists_forall₂ hwrites
              exact ⟨_, (unfold_dict_iff hcell).mpr ⟨results, hresults, rfl⟩⟩

theorem validateJsonTree_leaf {l : PyLeaf} {depth : Nat} (h : l.json? = some json) :
    GpuWorkerPool.validateJsonTree depth json = .ok () ↔
      depth ≤ maxJobPayloadDepth ∧ l.refused = none := by
  cases l with
  | other => cases h
  | float f =>
      obtain rfl := Option.some.inj h
      rw [GpuWorkerPool.validateJsonTree, andThen_eq_ok, require_eq_ok, decide_eq_true_eq,
        require_eq_ok, PyLeaf.refused]
      by_cases hfinite : f.isFinite
      · simp [hfinite]
      · simp [hfinite]
  | none | bool _ | int _ | str _ =>
      obtain rfl := Option.some.inj h
      simp [GpuWorkerPool.validateJsonTree, andThen_eq_ok, PyLeaf.refused]

/-- The JSON of a value passes the checks of the tree exactly when the value does. -/
theorem validateJsonTree_unfold {depth : Nat} {value : PyValue ι}
    (h : heap.unfold fuel value = some json) :
    GpuWorkerPool.validateJsonTree depth json = .ok () ↔
      Throughout heap.children heap.Admissible depth value := by
  induction fuel generalizing depth value json with
  | zero =>
      cases value with
      | container id => cases h
      | leaf l =>
          rw [throughout_leaf]
          exact validateJsonTree_leaf h
  | succ fuel ih =>
      cases value with
      | leaf l =>
          rw [throughout_leaf]
          exact validateJsonTree_leaf h
      | container id =>
          rw [throughout_container]
          cases hcell : heap.cell id with
          | list items =>
              obtain ⟨results, hresults, rfl⟩ := (unfold_list_iff hcell).mp h
              have hitems : (∀ item ∈ items, Throughout heap.children heap.Admissible (depth + 1) item) ↔
                  ∀ result ∈ results, GpuWorkerPool.validateJsonTree (depth + 1) result = .ok () :=
                forall_mem_iff_of_forall₂ hresults fun _ _ hitem => (ih hitem).symm
              rw [GpuWorkerPool.validateJsonTree, andThen_eq_ok, require_eq_ok, decide_eq_true_eq,
                validateJsonItems_ok_iff, ← hitems]
              simp only [PyContainer.stringKeys, PyContainer.values, and_true]
          | dict members =>
              obtain ⟨results, hresults, rfl⟩ := (unfold_dict_iff hcell).mp h
              have hvalues : (∀ member ∈ members,
                  Throughout heap.children heap.Admissible (depth + 1) member.2) ↔
                  ∀ result ∈ results, GpuWorkerPool.validateJsonTree (depth + 1) result.2 = .ok () :=
                forall_mem_iff_of_forall₂ hresults fun _ _ hmember => (ih hmember.2).symm
              have hkeys : (PyContainer.dict members).stringKeys := by
                rw [PyContainer.stringKeys, List.all_eq_true, forall_mem_iff_of_forall₂ hresults
                  fun _ _ hmember => iff_of_true (by rw [hmember.1]; rfl) trivial]
                exact fun _ _ => trivial
              rw [GpuWorkerPool.validateJsonTree, andThen_eq_ok, require_eq_ok, decide_eq_true_eq,
                validateJsonMembers_ok_iff, ← hvalues]
              simp only [hkeys, PyContainer.values, List.forall_mem_map, and_true]

/-- A dictionary has no two members of one name, and so the JSON has none. -/
theorem wellFormed_unfold {value : PyValue ι} (h : heap.unfold fuel value = some json) :
    json.wellFormed := by
  induction fuel generalizing value json with
  | zero =>
      cases value with
      | container id => cases h
      | leaf l => cases l <;> cases h <;> rfl
  | succ fuel ih =>
      cases value with
      | leaf l => cases l <;> cases h <;> rfl
      | container id =>
          cases hcell : heap.cell id with
          | list items =>
              obtain ⟨results, hresults, rfl⟩ := (unfold_list_iff hcell).mp h
              rw [JsonValue.wellFormed, JsonValue.wellFormedItems_iff]
              exact (forall_mem_iff_of_forall₂ hresults fun _ _ hitem =>
                iff_of_true trivial (ih hitem)).mp fun _ _ => trivial
          | dict members =>
              obtain ⟨results, hresults, rfl⟩ := (unfold_dict_iff hcell).mp h
              have hnames : members.filterMap Prod.fst = results.map Prod.fst := by
                clear hcell h
                induction hresults with
                | nil => rfl
                | cons hmember _ ih =>
                    rw [List.filterMap_cons_some hmember.1, ih, List.map_cons]
              rw [JsonValue.wellFormed_dict]
              refine ⟨hnames ▸ heap.distinct id members hcell, ?_⟩
              exact (forall_mem_iff_of_forall₂ hresults fun _ _ hmember =>
                iff_of_true trivial (ih hmember.2)).mp fun _ _ => trivial

end Unfold

variable [Fintype ι] [DecidableEq ι] [FloatRepr]

theorem validateJobPayload_ok_iff (heap : PyHeap ι) (root : PyValue ι) :
    heap.validateJobPayload root = .ok () ↔ BoundedTree heap root ∧
      ∃ value, heap.unfold maxJobPayloadDepth root = some value ∧
        value.encode.length ≤ maxJobPayloadBytes := by
  rw [validateJobPayload, andThen_eq_ok, validateJsonTree_ok_iff]
  apply and_congr_right
  intro htree
  obtain ⟨value, hvalue⟩ := exists_unfold (boundedTree_iff.mp htree).1
    (by omega : maxJobPayloadDepth < 1 + maxJobPayloadDepth)
  rw [hvalue]
  simp

theorem raises_validateJobPayload (heap : PyHeap ι) (root : PyValue ι) :
    Raises Exc.IsValueError (heap.validateJobPayload root) := by
  refine (raises_walk heap _ _).bind fun _ _ => ?_
  cases heap.unfold maxJobPayloadDepth root with
  | none => exact raises_error ⟨_, rfl⟩
  | some value => exact raises_require _ _

/-- The walk ends, with a `ValueError` or normally, and normally exactly on bounded trees; of these
the validation accepts those whose text is within its bound. -/
theorem payload_accepted_iff (heap : PyHeap ι) (root : PyValue ι) :
    (heap.validateJsonTree root = .ok () ↔ BoundedTree heap root) ∧
      Raises Exc.IsValueError (heap.validateJsonTree root) ∧
      (heap.validateJobPayload root = .ok () ↔ BoundedTree heap root ∧
        ∃ value, heap.unfold maxJobPayloadDepth root = some value ∧
          value.encode.length ≤ maxJobPayloadBytes) ∧
      Raises Exc.IsValueError (heap.validateJobPayload root) :=
  ⟨validateJsonTree_ok_iff heap root, raises_walk heap _ _, validateJobPayload_ok_iff heap root,
    raises_validateJobPayload heap root⟩

/-- Of objects that form a tree, the validation accepts those whose payload it accepts. -/
theorem validateJobPayload_payload {heap : PyHeap ι} {root : PyValue ι} {payload : JobPayload}
    (honce : MetOnce heap.children identity root)
    (h : heap.unfold maxJobPayloadDepth root = some payload.value) :
    heap.validateJobPayload root = .ok () ↔ GpuWorkerPool.validateJobPayload payload = .ok () := by
  rw [validateJobPayload_ok_iff, boundedTree_iff, ← validateJsonTree_unfold h,
    GpuWorkerPool.validateJobPayload, andThen_eq_ok, require_eq_ok, decide_eq_true_eq, h]
  simp [honce]

/-- An accepted dictionary is a payload. -/
theorem exists_payload {heap : PyHeap ι} {id : ι} {members : List (Option String × PyValue ι)}
    (hcell : heap.cell id = .dict members) (h : heap.validateJobPayload (.container id) = .ok ()) :
    ∃ payload : JobPayload, heap.unfold maxJobPayloadDepth (.container id) = some payload.value ∧
      GpuWorkerPool.validateJobPayload payload = .ok () := by
  obtain ⟨htree, value, hvalue, -⟩ := (validateJobPayload_ok_iff heap _).mp h
  obtain ⟨results, -, hresults⟩ := (unfold_dict_iff hcell).mp hvalue
  subst hresults
  have hpayload : heap.unfold maxJobPayloadDepth (.container id) =
      some (JsonObject.mk results (wellFormed_unfold hvalue)).value := hvalue
  exact ⟨_, hpayload, (validateJobPayload_payload htree.once hpayload).mp h⟩

/-- A list that contains itself. -/
def selfContaining : PyHeap (Fin 1) where
  cell _ := .list [.leaf (.int 1), .container 0]
  distinct _ _ h := by cases h

example : selfContaining.validateJsonTree (.container 0) =
    .error (.valueError "job payload contains a repeated or cyclic container") := by
  rw [validateJsonTree]
  simp [walk, selfContaining, PyContainer.stringKeys, PyContainer.values, maxJobPayloadDepth]

end PyHeap

end GpuWorkerPool
