import GpuWorkerPool.Base.Sql
import GpuWorkerPool.Base.Table

/-!
`UPDATE` over a keyed table. The rows on which the clause is true are set, every other row stays,
and the answer is the number of rows that were set. A clause that asks for one key sets one row or
none, and then the statement is a lookup and a write in place.
-/

namespace Base

namespace Table

section Image

variable {ρ σ κ : Type} {key : ρ → κ} {key' : σ → κ}

/-- The images of the rows, under the same keys. -/
def image (t : Table key) (f : ρ → σ) (hkey : ∀ row, key' (f row) = key row) : Table key' where
  rows := t.rows.map f
  keys_nodup := by
    have hkeys : key' ∘ f = key := funext hkey
    rw [List.map_map, hkeys]
    exact t.keys_nodup

variable {f : ρ → σ} {hkey : ∀ row, key' (f row) = key row}

theorem get?_image [DecidableEq κ] (t : Table key) (k : κ) :
    (t.image f hkey).get? k = (t.get? k).map f := by
  simp only [get?, image, List.find?_map, Function.comp_def, hkey]

/-- A row can be stored before it is mapped or after. -/
theorem image_put [DecidableEq κ] (t : Table key) (row : ρ) :
    (t.put row).image f hkey = (t.image f hkey).put (f row) :=
  Table.ext (map_putRow hkey row t.rows).symm

/-- Two ways to rewrite the rows that the image does not tell apart. -/
theorem image_mapRows (t : Table key) {g : ρ → ρ} {h : σ → σ} (hg : ∀ row, key (g row) = key row)
    (hh : ∀ row, key' (h row) = key' row) (hsame : ∀ row ∈ t.rows, f (g row) = h (f row)) :
    (t.mapRows g hg).image f hkey = (t.image f hkey).mapRows h hh := by
  apply Table.ext
  calc (t.rows.map g).map f = t.rows.map fun row => f (g row) := List.map_map
    _ = t.rows.map fun row => h (f row) := List.map_congr_left hsame
    _ = (t.rows.map f).map h := List.map_map.symm

end Image

variable {ρ κ : Type} {key : ρ → κ}

theorem mapRows_eq_self {t : Table key} {f : ρ → ρ} (hkey : ∀ r, key (f r) = key r)
    (hsame : ∀ r ∈ t.rows, f r = r) : t.mapRows f hkey = t :=
  Table.ext ((List.map_congr_left hsame).trans (List.map_id t.rows))

variable [DecidableEq κ]

theorem map_eq_putRow {rows : List ρ} (hnodup : (rows.map key).Nodup) {row : ρ} (hmem : row ∈ rows)
    {f : ρ → ρ} (hkey : ∀ r, key (f r) = key r) (hothers : ∀ r, key r ≠ key row → f r = r) :
    rows.map f = putRow key (f row) rows := by
  induction rows with
  | nil => cases hmem
  | cons r rest ih =>
      rw [List.map_cons, List.nodup_cons] at hnodup
      rw [List.map_cons, putRow, hkey]
      rcases List.mem_cons.mp hmem with rfl | hrest
      · have hfixed : ∀ r ∈ rest, f r = r := fun r hr =>
          hothers r fun heq => hnodup.1 (heq ▸ List.mem_map_of_mem hr)
        rw [if_pos rfl, List.map_congr_left hfixed, List.map_id']
      · have hne : key r ≠ key row := fun heq => hnodup.1 (heq ▸ List.mem_map_of_mem hrest)
        rw [if_neg hne, hothers r hne, ih hnodup.2 hrest]

/-- To rewrite the row under one key is to write it. -/
theorem mapRows_eq_put {t : Table key} {k : κ} {row : ρ} (h : t.get? k = some row) {f : ρ → ρ}
    (hkey : ∀ r, key (f r) = key r) (hothers : ∀ r, key r ≠ k → f r = r) :
    t.mapRows f hkey = t.put (f row) := by
  obtain ⟨hmem, rfl⟩ := get?_eq_some_iff.mp h
  exact Table.ext (map_eq_putRow t.keys_nodup hmem hkey hothers)

/-- Writing a row that is there changes nothing. -/
theorem put_eq_self {t : Table key} {row : ρ} (h : t.get? (key row) = some row) : t.put row = t :=
  (mapRows_eq_put h (f := id) (fun _ => rfl) fun _ _ => rfl).symm.trans
    (mapRows_eq_self (fun _ => rfl) fun _ _ => rfl)

theorem countP_key {t : Table key} {k : κ} {row : ρ} (h : t.get? k = some row) :
    (t.rows.countP fun r => key r = k) = 1 := by
  obtain ⟨hmem, rfl⟩ := get?_eq_some_iff.mp h
  have hcount := List.count_eq_one_of_mem t.keys_nodup (List.mem_map_of_mem hmem)
  rw [List.count_eq_countP, List.countP_map] at hcount
  simpa [Function.comp_def, beq_eq_decide] using hcount

end Table

namespace Sql

variable {ρ κ : Type} {key : ρ → κ}

/-- What the statement makes of one row. -/
def setWhere (clause : ρ → Truth) (set : ρ → ρ) (row : ρ) : ρ :=
  if isTrue (clause row) then set row else row

theorem key_setWhere {set : ρ → ρ} (hkey : ∀ row, key (set row) = key row) (clause : ρ → Truth)
    (row : ρ) : key (setWhere clause set row) = key row := by
  rw [setWhere]
  split
  · exact hkey row
  · rfl

/-- `UPDATE … SET … WHERE …`: the table after it, and how many rows were set. -/
def update (t : Table key) (clause : ρ → Truth) (set : ρ → ρ)
    (hkey : ∀ row, key (set row) = key row) : Table key × Nat :=
  (t.mapRows (setWhere clause set) (key_setWhere hkey clause),
    t.rows.countP fun row => isTrue (clause row))

variable [DecidableEq κ]

/-- A clause that asks for one key sets the row under it, or none. -/
theorem update_one (t : Table key) {clause : ρ → Truth} (set : ρ → ρ)
    (hkey : ∀ row, key (set row) = key row) {k : κ}
    (hclause : ∀ row, isTrue (clause row) → key row = k) :
    update t clause set hkey =
      match (t.get? k).filter fun row => isTrue (clause row) with
      | some row => (t.put (set row), 1)
      | none => (t, 0) := by
  cases hfound : (t.get? k).filter fun row => isTrue (clause row) with
  | none =>
      have hfalse : ∀ row ∈ t.rows, ¬ isTrue (clause row) := by
        intro row hrow htrue
        have hget := Table.get?_key_of_mem hrow
        rw [hclause row htrue] at hget
        rw [hget, Option.filter_some, if_pos htrue] at hfound
        cases hfound
      refine Prod.ext ?_ ?_
      · apply Table.mapRows_eq_self (key_setWhere hkey clause)
        exact fun row hrow => if_neg (hfalse row hrow)
      · exact List.countP_eq_zero.mpr hfalse
  | some row =>
      obtain ⟨hget, htrue⟩ := Option.filter_eq_some_iff.mp hfound
      have hput := Table.mapRows_eq_put hget (key_setWhere hkey clause) fun r hne =>
        if_neg fun htrue => hne (hclause r htrue)
      have hhere : ∀ r ∈ t.rows, isTrue (clause r) ↔ decide (key r = k) := by
        intro r hr
        rw [decide_eq_true_eq]
        refine ⟨hclause r, fun hkeyr => ?_⟩
        have hsame := Table.get?_key_of_mem hr
        rw [hkeyr, hget, Option.some_inj] at hsame
        exact hsame ▸ htrue
      refine Prod.ext ?_ ?_
      · rw [setWhere, if_pos htrue] at hput
        exact hput
      · exact (List.countP_congr hhere).trans (Table.countP_key hget)

end Sql

end Base
