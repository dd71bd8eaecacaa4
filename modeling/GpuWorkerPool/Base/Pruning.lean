import GpuWorkerPool.Base.Table
import Mathlib.Data.Finset.Lattice.Fold

/-!
Actions of a join semilattice that absorb: acting twice is acting by the join. What such actions add
up to depends on the set they come from, and on neither their order nor their number. Removing nodes
from a linked graph is one, over the sets of nodes.
-/

namespace Base

section Absorption

variable {σ ι L : Type} [SemilatticeSup L] [OrderBot L]

/-- Acting by one element and then by another is acting by their join. -/
structure Absorbs (act : L → σ → σ) : Prop where
  bot : ∀ s, act ⊥ s = s
  sup : ∀ a b s, act b (act a s) = act (a ⊔ b) s

variable {act : L → σ → σ}

theorem Absorbs.idem (h : Absorbs act) (a : L) (s : σ) : act a (act a s) = act a s := by
  rw [h.sup, sup_idem]

/-- A sequence of actions is the action of the join of all of them. -/
theorem Absorbs.foldl [DecidableEq ι] (h : Absorbs act) (f : ι → L) (order : List ι) (s : σ) :
    order.foldl (fun s i => act (f i) s) s = act (order.toFinset.sup f) s := by
  induction order generalizing s with
  | nil => exact (h.bot s).symm
  | cons i rest ih =>
      calc rest.foldl (fun s i => act (f i) s) (act (f i) s)
          = act (rest.toFinset.sup f) (act (f i) s) := ih _
        _ = act (f i ⊔ rest.toFinset.sup f) s := h.sup _ _ _
        _ = act ((i :: rest).toFinset.sup f) s := by rw [List.toFinset_cons, Finset.sup_insert]

end Absorption

namespace Dict

variable {κ ν : Type} [DecidableEq κ]

/-- Writing under a stored key rewrites its row. -/
theorem put_eq_mapRows {d : Dict κ ν} {k : κ} {v : ν} (f : ν → ν) (h : d.lookup k = some v) :
    Table.put d (k, f v) =
      d.mapRows (fun row => (row.1, if row.1 = k then f row.2 else row.2)) fun _ => rfl := by
  have hgeneral : ∀ rows : List (κ × ν), (rows.map Prod.fst).Nodup → (k, v) ∈ rows →
      Table.putRow Prod.fst (k, f v) rows =
        rows.map fun row => (row.1, if row.1 = k then f row.2 else row.2) := by
    intro rows
    induction rows with
    | nil => exact fun _ hmem => absurd hmem List.not_mem_nil
    | cons row rest ih =>
        intro hnodup hmem
        rw [List.map_cons, List.nodup_cons] at hnodup
        rw [Table.putRow, List.map_cons]
        rcases List.mem_cons.mp hmem with hrow | hrest
        · rw [← hrow, if_pos rfl, if_pos rfl]
          have hsame : ∀ other ∈ rest,
              (other.1, if other.1 = k then f other.2 else other.2) = id other := by
            intro other hother
            have hne : other.1 ≠ k := by
              intro heq
              apply hnodup.1
              rw [← hrow, show k = other.1 from heq.symm]
              exact List.mem_map.mpr ⟨other, hother, rfl⟩
            rw [if_neg hne]
            rfl
          rw [List.map_congr_left hsame, List.map_id]
        · have hne : row.1 ≠ k := fun heq => hnodup.1 (heq ▸ List.mem_map_of_mem hrest)
          rw [if_neg hne, if_neg hne, ih hnodup.2 hrest]
  exact Table.ext (hgeneral d.rows d.keys_nodup (lookup_eq_some_iff.mp h))

variable (cut : Finset κ → ν → ν)

/-- Leaves the nodes of a set away. -/
def without (d : Dict κ ν) (removed : Finset κ) : Dict κ ν where
  rows := d.rows.filter fun row => row.1 ∉ removed
  keys_nodup := (List.filter_sublist.map Prod.fst).nodup d.keys_nodup

/-- Leaves the nodes of a set away, and `cut` takes the links to them out of every other node. -/
def prune (removed : Finset κ) (d : Dict κ ν) : Dict κ ν :=
  (d.without removed).mapRows (fun row => (row.1, cut removed row.2)) fun _ => rfl

theorem lookup_mapRows (d : Dict κ ν) (f : κ × ν → ν) (k : κ) :
    Dict.lookup (d.mapRows (fun row => (row.1, f row)) fun _ => rfl) k =
      (d.lookup k).map fun v => f (k, v) := by
  rw [lookup, Table.get?_mapRows, lookup, Option.map_map, Option.map_map]
  cases hget : d.get? k with
  | none => rfl
  | some row =>
      obtain rfl := Table.key_eq_of_get? hget
      rfl

theorem lookup_without (d : Dict κ ν) (removed : Finset κ) (k : κ) :
    (d.without removed).lookup k = if k ∈ removed then none else d.lookup k := by
  ext v
  rw [lookup_eq_some_iff, without, List.mem_filter, ← lookup_eq_some_iff]
  by_cases hk : k ∈ removed
  · simp [hk]
  · simp [hk]

theorem lookup_prune (d : Dict κ ν) (removed : Finset κ) (k : κ) :
    (d.prune cut removed).lookup k =
      if k ∈ removed then none else (d.lookup k).map (cut removed) := by
  rw [prune, lookup_mapRows (d.without removed) fun row => cut removed row.2, lookup_without]
  split_ifs with hk
  · rfl
  · rfl

variable {cut}

end Dict

end Base
