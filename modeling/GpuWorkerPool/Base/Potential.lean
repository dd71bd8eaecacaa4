import GpuWorkerPool.Base.Table
import Mathlib.Algebra.Order.BigOperators.Group.Finset
import Mathlib.Algebra.Order.Group.Int
import Mathlib.Algebra.BigOperators.Group.List.Basic
import Mathlib.Algebra.Ring.Int.Defs

/-!
Counting the steps of a run against a potential. A potential that no step lowers and every counted
step raises bounds how often the steps are counted. The potential of a keyed table is the total
weight of its rows, which grows where every row is kept under its key with no less weight.
-/

namespace Base

section Steps

variable {σ ι : Type} (step : σ → ι → σ)

/-- How many steps of the run meet the condition. -/
def countSteps (p : σ → ι → Bool) (s : σ) : List ι → Nat
  | [] => 0
  | i :: run => (if p s i then 1 else 0) + countSteps p (step s i) run

theorem countSteps_le_add {p q r : σ → ι → Bool} (h : ∀ s i, p s i → q s i ∨ r s i) (s : σ) (run : List ι) :
    countSteps step p s run ≤ countSteps step q s run + countSteps step r s run := by
  induction run generalizing s with
  | nil => exact Nat.zero_le _
  | cons i run ih =>
      have hrest := ih (step s i)
      have hhere : (if p s i then 1 else 0) ≤ (if q s i then 1 else 0) + if r s i then 1 else 0 := by
        by_cases hp : p s i
        · rcases h s i hp with hq | hr
          · simp [hp, hq]
          · simp [hp, hr]
        · simp [hp]
      simp only [countSteps]
      omega

/-- A step lemma for the states that the run goes through. -/
theorem countSteps_le (p : σ → ι → Bool) (φ : σ → ℤ) (s : σ) (run : List ι)
    (hstep : ∀ before i rest, run = before ++ i :: rest →
      φ (before.foldl step s) + (if p (before.foldl step s) i then 1 else 0) ≤
        φ (step (before.foldl step s) i)) :
    φ s + countSteps step p s run ≤ φ (run.foldl step s) := by
  induction run generalizing s with
  | nil => simp [countSteps]
  | cons i run ih =>
      have hhere : φ s + (if p s i then 1 else 0) ≤ φ (step s i) := hstep [] i run rfl
      have hrest := ih (step s i) fun before i' rest hrun =>
        hstep (i :: before) i' rest (congrArg (i :: ·) hrun)
      simp only [countSteps, List.foldl_cons]
      by_cases hp : p s i
      · rw [if_pos hp] at hhere ⊢
        omega
      · rw [if_neg hp] at hhere ⊢
        omega

end Steps

namespace Table

variable {ρ κ : Type} {key : ρ → κ}

/-- The total weight of the rows. -/
def total (t : Table key) (weight : ρ → ℤ) : ℤ := (t.rows.map weight).sum

theorem total_add (t : Table key) (f g : ρ → ℤ) :
    (t.total fun row => f row + g row) = t.total f + t.total g :=
  List.sum_map_add

variable [DecidableEq κ]

/-- A row that is replaced counts for what it was no more, and for what it is. -/
theorem countP_putRow (p : ρ → Bool) {row old : ρ} {rows : List ρ} (hmem : old ∈ rows)
    (hkey : key old = key row) (hnodup : (rows.map key).Nodup) :
    (putRow key row rows).countP p + (if p old then 1 else 0) =
      rows.countP p + if p row then 1 else 0 := by
  induction rows with
  | nil => cases hmem
  | cons first rest ih =>
      rw [List.map_cons, List.nodup_cons] at hnodup
      rcases List.mem_cons.mp hmem with rfl | hrest
      · rw [putRow, if_pos hkey, List.countP_cons, List.countP_cons]
        omega
      · have hfirst : key first ≠ key row := by
          intro hsame
          exact hnodup.1 (hsame.trans hkey.symm ▸ List.mem_map_of_mem hrest)
        have hcount := ih hrest hnodup.2
        rw [putRow, if_neg hfirst, List.countP_cons, List.countP_cons]
        omega

theorem total_eq_sum (t : Table key) (weight : ρ → ℤ) :
    t.total weight = ∑ k ∈ (t.rows.map key).toFinset, (t.get? k).elim 0 weight := by
  rw [List.sum_toFinset _ t.keys_nodup, List.map_map, total]
  congr 1
  apply List.map_congr_left
  intro row hrow
  rw [Function.comp_apply, get?_key_of_mem hrow]
  rfl

/-- Every row is kept under its key, with no less weight, beside rows of no negative weight. -/
theorem total_le {t t' : Table key} {f g : ρ → ℤ} (hnonneg : ∀ row ∈ t'.rows, 0 ≤ g row)
    (hkept : ∀ row ∈ t.rows, ∃ row', t'.get? (key row) = some row' ∧ f row ≤ g row') :
    t.total f ≤ t'.total g := by
  have hweight (k : κ) : 0 ≤ (t'.get? k).elim 0 g := by
    cases hget : t'.get? k with
    | none => exact le_refl _
    | some row => exact hnonneg row (mem_of_get? hget)
  have hkeys : (t.rows.map key).toFinset ⊆ (t'.rows.map key).toFinset := by
    intro k hk
    obtain ⟨row, hrow, rfl⟩ := List.mem_map.mp (List.mem_toFinset.mp hk)
    obtain ⟨row', hget', -⟩ := hkept row hrow
    have hkey := key_eq_of_get? hget'
    exact List.mem_toFinset.mpr (hkey ▸ List.mem_map_of_mem (mem_of_get? hget'))
  rw [total_eq_sum, total_eq_sum]
  calc ∑ k ∈ (t.rows.map key).toFinset, (t.get? k).elim 0 f
      ≤ ∑ k ∈ (t.rows.map key).toFinset, (t'.get? k).elim 0 g := by
        apply Finset.sum_le_sum
        intro k hk
        obtain ⟨row, hrow, rfl⟩ := List.mem_map.mp (List.mem_toFinset.mp hk)
        obtain ⟨row', hget', hle⟩ := hkept row hrow
        rw [get?_key_of_mem hrow, hget']
        exact hle
    _ ≤ ∑ k ∈ (t'.rows.map key).toFinset, (t'.get? k).elim 0 g :=
        Finset.sum_le_sum_of_subset_of_nonneg hkeys fun k _ _ => hweight k

/-- One row weighs one more. -/
theorem one_le_total {t : Table key} {k : κ} {row : ρ} (h : t.get? k = some row) :
    1 ≤ t.total fun r => if key r = k then 1 else 0 := by
  obtain ⟨hmem, hkey⟩ := get?_eq_some_iff.mp h
  apply List.single_le_sum
  · intro weight hweight
    obtain ⟨r, -, rfl⟩ := List.mem_map.mp hweight
    split <;> decide
  · exact List.mem_map.mpr ⟨row, hmem, if_pos hkey⟩

end Table

end Base
