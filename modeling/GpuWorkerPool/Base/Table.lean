import Mathlib.Data.List.Basic
import Mathlib.Data.List.Nodup

/-!
Keyed tables in insertion order. A table is a list of rows, no two of them under one key, where a
row carries its own key. Writing a row under a stored key replaces the row in place; any other
row goes to the end. This is the behaviour of an insertion-ordered dictionary whose values know
their key, and the order is kept because a reader that takes the first best row depends on it.
-/

namespace Base

/-- Rows in insertion order, at most one for each key. -/
@[ext]
structure Table {ρ κ : Type} (key : ρ → κ) where
  rows : List ρ
  keys_nodup : (rows.map key).Nodup

namespace Table

variable {ρ κ : Type} {key : ρ → κ}

def empty : Table key := ⟨[], List.nodup_nil⟩

variable [DecidableEq κ]

/-- The row stored under a key. -/
def get? (t : Table key) (k : κ) : Option ρ := t.rows.find? fun row => key row = k

/-- Replaces the row under `row`'s key in place, or appends `row`. -/
def putRow (key : ρ → κ) (row : ρ) : List ρ → List ρ
  | [] => [row]
  | r :: rest => if key r = key row then row :: rest else r :: putRow key row rest

theorem keys_putRow (row : ρ) (rows : List ρ) :
    (putRow key row rows).map key =
      if key row ∈ rows.map key then rows.map key else rows.map key ++ [key row] := by
  induction rows with
  | nil => rfl
  | cons r rest ih =>
      rw [putRow]
      by_cases hr : key r = key row
      · simp [hr]
      · have hne : key row ≠ key r := fun h => hr h.symm
        simp only [hr, if_false, List.map_cons, ih, List.mem_cons, hne, false_or]
        split <;> rfl

theorem putRow_of_notMem {row : ρ} {rows : List ρ} (h : key row ∉ rows.map key) :
    putRow key row rows = rows ++ [row] := by
  induction rows with
  | nil => rfl
  | cons r rest ih =>
      rw [List.map_cons, List.mem_cons, not_or] at h
      rw [putRow, if_neg (Ne.symm h.1), ih h.2, List.cons_append]

def put (t : Table key) (row : ρ) : Table key where
  rows := putRow key row t.rows
  keys_nodup := by
    rw [keys_putRow]
    split
    · exact t.keys_nodup
    · rename_i hnew
      exact List.nodup_append.mpr ⟨t.keys_nodup, List.nodup_singleton _, by
        intro k hk k' hk' heq
        rw [List.mem_singleton] at hk'
        exact hnew (hk' ▸ heq ▸ hk)⟩

theorem key_eq_of_get? {t : Table key} {k : κ} {row : ρ} (h : t.get? k = some row) :
    key row = k := by
  have hfind := List.find?_some h
  simpa using hfind

theorem mem_of_get? {t : Table key} {k : κ} {row : ρ} (h : t.get? k = some row) :
    row ∈ t.rows :=
  List.mem_of_find?_eq_some h

theorem find?_eq_some_of_mem {rows : List ρ} (hnodup : (rows.map key).Nodup) {row : ρ}
    (h : row ∈ rows) : (rows.find? fun r => key r = key row) = some row := by
  induction rows with
  | nil => simp at h
  | cons r rest ih =>
      rw [List.map_cons, List.nodup_cons] at hnodup
      rcases List.mem_cons.mp h with rfl | hrest
      · simp
      · have hne : key r ≠ key row := fun heq => hnodup.1 (heq ▸ List.mem_map_of_mem hrest)
        rw [List.find?_cons_of_neg (by simpa using hne)]
        exact ih hnodup.2 hrest

theorem get?_key_of_mem {t : Table key} {row : ρ} (h : row ∈ t.rows) :
    t.get? (key row) = some row :=
  find?_eq_some_of_mem t.keys_nodup h

theorem get?_eq_some_iff {t : Table key} {k : κ} {row : ρ} :
    t.get? k = some row ↔ row ∈ t.rows ∧ key row = k := by
  constructor
  · exact fun h => ⟨mem_of_get? h, key_eq_of_get? h⟩
  · rintro ⟨hmem, rfl⟩
    exact get?_key_of_mem hmem

theorem get?_eq_none_iff {t : Table key} {k : κ} :
    t.get? k = none ↔ ∀ row ∈ t.rows, key row ≠ k := by
  simp [get?]

@[simp] theorem get?_empty (k : κ) : (empty : Table key).get? k = none := rfl

theorem find?_putRow (row : ρ) (rows : List ρ) (k : κ) :
    ((putRow key row rows).find? fun r => key r = k) =
      if key row = k then some row else rows.find? fun r => key r = k := by
  induction rows with
  | nil => by_cases hk : key row = k <;> simp [putRow, hk]
  | cons r rest ih =>
      rw [putRow]
      by_cases hr : key r = key row
      · by_cases hk : key row = k <;> simp [hr, hk]
      · rw [if_neg hr, List.find?_cons, ih, List.find?_cons]
        by_cases hk : key row = k
        · have hrk : key r ≠ k := fun h => hr (h.trans hk.symm)
          simp only [hrk, decide_false, hk, if_true]
        · simp only [hk, if_false]

theorem get?_put (t : Table key) (row : ρ) (k : κ) :
    (t.put row).get? k = if key row = k then some row else t.get? k :=
  find?_putRow row t.rows k

@[simp] theorem get?_put_self (t : Table key) (row : ρ) :
    (t.put row).get? (key row) = some row := by
  rw [get?_put, if_pos rfl]

theorem get?_put_of_ne (t : Table key) {row : ρ} {k : κ} (h : key row ≠ k) :
    (t.put row).get? k = t.get? k := by
  rw [get?_put, if_neg h]

theorem mem_rows_iff {t : Table key} {row : ρ} :
    row ∈ t.rows ↔ t.get? (key row) = some row :=
  ⟨get?_key_of_mem, mem_of_get?⟩

/-- A row of the table after a write is the row written, or an old row under another key. -/
theorem mem_put {t : Table key} {row r : ρ} :
    r ∈ (t.put row).rows ↔ r = row ∨ (r ∈ t.rows ∧ key r ≠ key row) := by
  rw [mem_rows_iff, get?_put, mem_rows_iff]
  by_cases h : key row = key r
  · rw [if_pos h, Option.some_inj]
    exact ⟨fun he => Or.inl he.symm, fun hor => hor.elim Eq.symm fun hr => absurd h.symm hr.2⟩
  · rw [if_neg h]
    exact ⟨fun hr => Or.inr ⟨hr, fun he => h he.symm⟩,
      fun hor => hor.elim (fun he => absurd (congrArg key he).symm h) And.left⟩

/-- Writes the row and moves it to the end. -/
def putLast (t : Table key) (row : ρ) : Table key where
  rows := (t.rows.filter fun r => key r ≠ key row) ++ [row]
  keys_nodup := by
    rw [List.map_append]
    refine List.nodup_append.mpr
      ⟨(List.filter_sublist.map key).nodup t.keys_nodup, List.nodup_singleton _, ?_⟩
    intro k hk k' hk' heq
    obtain ⟨r, hr, rfl⟩ := List.mem_map.mp hk
    obtain rfl := List.mem_singleton.mp hk'
    exact absurd heq (by simpa using (List.mem_filter.mp hr).2)

theorem mem_putLast {t : Table key} {row r : ρ} :
    r ∈ (t.putLast row).rows ↔ r ∈ t.rows ∧ key r ≠ key row ∨ r = row := by
  simp [putLast]

theorem get?_putLast (t : Table key) (row : ρ) (k : κ) :
    (t.putLast row).get? k = if key row = k then some row else t.get? k := by
  by_cases hk : key row = k
  · rw [if_pos hk]
    exact get?_eq_some_iff.mpr ⟨mem_putLast.mpr (Or.inr rfl), hk⟩
  · rw [if_neg hk]
    refine Option.ext fun r => ?_
    rw [get?_eq_some_iff, get?_eq_some_iff, mem_putLast]
    constructor
    · rintro ⟨⟨hmem, -⟩ | rfl, hkey⟩
      · exact ⟨hmem, hkey⟩
      · exact absurd hkey hk
    · rintro ⟨hmem, rfl⟩
      exact ⟨Or.inl ⟨hmem, fun h => hk h.symm⟩, rfl⟩

/-- Removes rows from the front as long as they satisfy `p`. -/
def dropWhile (t : Table key) (p : ρ → Bool) : Table key where
  rows := t.rows.dropWhile p
  keys_nodup := ((List.dropWhile_sublist p).map key).nodup t.keys_nodup

/-- A row that is no longer found satisfied `p`. -/
theorem get?_dropWhile (t : Table key) (p : ρ → Bool) (k : κ) :
    (t.dropWhile p).get? k = t.get? k ∨
      (t.dropWhile p).get? k = none ∧ ∃ row, t.get? k = some row ∧ p row := by
  cases hget : t.get? k with
  | none =>
      refine Or.inl (get?_eq_none_iff.mpr fun row hrow => ?_)
      exact get?_eq_none_iff.mp hget row ((List.dropWhile_sublist p).subset hrow)
  | some row =>
      obtain ⟨hmem, rfl⟩ := get?_eq_some_iff.mp hget
      by_cases hstays : row ∈ t.rows.dropWhile p
      · exact Or.inl (get?_key_of_mem (t := t.dropWhile p) hstays)
      · refine Or.inr ⟨get?_eq_none_iff.mpr fun r hr hkey => ?_, row, rfl, ?_⟩
        · have hsame := get?_key_of_mem ((List.dropWhile_sublist p).subset hr)
          rw [hkey, hget, Option.some_inj] at hsame
          exact hstays (hsame ▸ hr)
        · have hsplit := List.takeWhile_append_dropWhile (p := p) (l := t.rows)
          rw [← hsplit, List.mem_append] at hmem
          exact List.all_eq_true.mp List.all_takeWhile row (hmem.resolve_right hstays)

/-- Rewrites every row without touching its key. -/
def mapRows (t : Table key) (f : ρ → ρ) (hkey : ∀ row, key (f row) = key row) : Table key where
  rows := t.rows.map f
  keys_nodup := by
    have hkeys : key ∘ f = key := funext hkey
    rw [List.map_map, hkeys]
    exact t.keys_nodup

theorem get?_mapRows (t : Table key) (f : ρ → ρ) (hkey : ∀ row, key (f row) = key row) (k : κ) :
    (t.mapRows f hkey).get? k = (t.get? k).map f := by
  simp only [get?, mapRows, List.find?_map, Function.comp_def, hkey]

theorem map_putRow {σ : Type} {key' : σ → κ} {f : ρ → σ} (hkey : ∀ row, key' (f row) = key row)
    (row : ρ) (rows : List ρ) :
    putRow key' (f row) (rows.map f) = (putRow key row rows).map f := by
  induction rows with
  | nil => rfl
  | cons r rest ih =>
      rw [List.map_cons, putRow, putRow, hkey, hkey, ih]
      split <;> rfl

/-- A row can be rewritten before it is stored or after. -/
theorem put_mapRows (t : Table key) (f : ρ → ρ) (hkey : ∀ row, key (f row) = key row) (row : ρ) :
    (t.mapRows f hkey).put (f row) = (t.put row).mapRows f hkey :=
  Table.ext (map_putRow hkey row t.rows)

end Table

/-- An insertion-ordered dictionary: a table of key and value pairs. -/
abbrev Dict (κ ν : Type) := Table (Prod.fst : κ × ν → κ)

namespace Dict

variable {κ ν : Type} [DecidableEq κ]

def lookup (d : Dict κ ν) (k : κ) : Option ν := (d.get? k).map Prod.snd

theorem lookup_eq_some_iff {d : Dict κ ν} {k : κ} {v : ν} :
    d.lookup k = some v ↔ (k, v) ∈ d.rows := by
  rw [lookup, Option.map_eq_some_iff]
  constructor
  · rintro ⟨⟨k', v'⟩, hget, rfl⟩
    obtain ⟨hmem, rfl⟩ := Table.get?_eq_some_iff.mp hget
    exact hmem
  · exact fun hmem => ⟨(k, v), Table.get?_key_of_mem hmem, rfl⟩

theorem lookup_eq_find? (rows : List (κ × ν)) (k : κ) :
    rows.lookup k = (rows.find? fun row => row.1 = k).map Prod.snd := by
  induction rows with
  | nil => rfl
  | cons row rest ih =>
      rw [List.lookup_cons, List.find?_cons, ih]
      by_cases hk : row.1 = k
      · simp [hk]
      · have hbeq : (k == row.1) = false := beq_false_of_ne (Ne.symm hk)
        simp [hk, hbeq]

theorem lookup_rows (d : Dict κ ν) (k : κ) : d.rows.lookup k = d.lookup k :=
  lookup_eq_find? d.rows k

theorem lookup_putRow (rows : List (κ × ν)) (k k' : κ) (v : ν) :
    (Table.putRow Prod.fst (k, v) rows).lookup k' = if k = k' then some v else rows.lookup k' := by
  rw [lookup_eq_find?, Table.find?_putRow, lookup_eq_find?]
  split <;> rfl

theorem lookup_putRow_of_ne (rows : List (κ × ν)) {k k' : κ} (v : ν) (h : k ≠ k') :
    (Table.putRow Prod.fst (k, v) rows).lookup k' = rows.lookup k' := by
  rw [lookup_putRow, if_neg h]

/-- Writing the value that is there changes nothing. -/
theorem putRow_of_lookup {rows : List (κ × ν)} {k : κ} {v : ν} (h : rows.lookup k = some v) :
    Table.putRow Prod.fst (k, v) rows = rows := by
  induction rows with
  | nil => cases h
  | cons row rest ih =>
      rw [Table.putRow]
      by_cases hk : row.1 = k
      · rw [if_pos hk]
        rw [List.lookup_cons, hk, beq_self_eq_true] at h
        rw [← Option.some.inj h, ← hk]
      · rw [if_neg hk]
        rw [List.lookup_cons, beq_false_of_ne (Ne.symm hk)] at h
        rw [ih h]

/-- The second of two writes under a key is the one that stays. -/
theorem putRow_putRow (rows : List (κ × ν)) (k : κ) (v v' : ν) :
    Table.putRow Prod.fst (k, v') (Table.putRow Prod.fst (k, v) rows) =
      Table.putRow Prod.fst (k, v') rows := by
  induction rows with
  | nil => exact if_pos rfl
  | cons row rest ih =>
      rw [Table.putRow, Table.putRow]
      by_cases hk : row.1 = k
      · rw [if_pos hk, if_pos hk, Table.putRow, if_pos rfl]
      · rw [if_neg hk, if_neg hk, Table.putRow, if_neg hk, ih]

theorem lookup_put (d : Dict κ ν) (k k' : κ) (v : ν) :
    Dict.lookup (d.put (k, v)) k' = if k = k' then some v else d.lookup k' := by
  rw [lookup, Table.get?_put]
  split <;> rfl

theorem lookup_put_of_ne (d : Dict κ ν) {k k' : κ} (v : ν) (h : k ≠ k') :
    Dict.lookup (d.put (k, v)) k' = d.lookup k' := by
  rw [lookup_put, if_neg h]

/-- `d.update(pairs)`: later pairs win. -/
def update (d : Dict κ ν) (pairs : List (κ × ν)) : Dict κ ν := pairs.foldl Table.put d

/-- A dictionary comprehension over pairs. -/
def ofPairs (pairs : List (κ × ν)) : Dict κ ν := update Table.empty pairs

theorem keys_update (d : Dict κ ν) (pairs : List (κ × ν)) (k : κ) :
    k ∈ (d.update pairs).rows.map Prod.fst ↔ k ∈ d.rows.map Prod.fst ∨ k ∈ pairs.map Prod.fst := by
  induction pairs generalizing d with
  | nil => simp [update]
  | cons pair rest ih =>
      have hput : k ∈ (Table.put d pair).rows.map Prod.fst ↔
          k ∈ d.rows.map Prod.fst ∨ k = pair.1 := by
        rw [Table.put, Table.keys_putRow]
        split
        · rename_i hmem
          exact ⟨Or.inl, fun h => h.elim id fun heq => heq ▸ hmem⟩
        · rw [List.mem_append, List.mem_singleton]
      rw [update, List.foldl_cons, ← update, ih, hput, List.map_cons, List.mem_cons, or_assoc]

/-- Pairs under keys that are all new are appended in order. -/
theorem rows_update {d : Dict κ ν} {pairs : List (κ × ν)} (hnodup : (pairs.map Prod.fst).Nodup)
    (hnew : ∀ pair ∈ pairs, pair.1 ∉ d.rows.map Prod.fst) :
    (d.update pairs).rows = d.rows ++ pairs := by
  induction pairs generalizing d with
  | nil => simp [update]
  | cons pair rest ih =>
      rw [List.map_cons, List.nodup_cons] at hnodup
      have hput : (Table.put d pair).rows = d.rows ++ [pair] :=
        Table.putRow_of_notMem (hnew pair List.mem_cons_self)
      rw [update, List.foldl_cons, ← update, ih hnodup.2, hput, List.append_assoc]
      · rfl
      · intro other hother
        rw [hput, List.map_append, List.mem_append, not_or]
        refine ⟨hnew other (List.mem_cons_of_mem _ hother), fun hsame => hnodup.1 ?_⟩
        have heq : other.1 = pair.1 := by simpa using hsame
        exact heq ▸ List.mem_map_of_mem hother

theorem rows_ofPairs {pairs : List (κ × ν)} (hnodup : (pairs.map Prod.fst).Nodup) :
    (ofPairs pairs).rows = pairs := by
  rw [ofPairs, rows_update hnodup (fun _ _ h => by simp [Table.empty] at h)]
  rfl

theorem lookup_update_of_notMem {d : Dict κ ν} {pairs : List (κ × ν)} {k : κ}
    (h : k ∉ pairs.map Prod.fst) : (d.update pairs).lookup k = d.lookup k := by
  induction pairs generalizing d with
  | nil => rfl
  | cons pair rest ih =>
      rw [List.map_cons, List.mem_cons, not_or] at h
      rw [update, List.foldl_cons, ← update, ih h.2, lookup_put_of_ne d _ (Ne.symm h.1)]

/-- A value of the updated dictionary is one of the pairs or was there before. -/
theorem lookup_update_cases {d : Dict κ ν} {pairs : List (κ × ν)} {k : κ} {v : ν}
    (h : (d.update pairs).lookup k = some v) :
    (k, v) ∈ pairs ∨ k ∉ pairs.map Prod.fst ∧ d.lookup k = some v := by
  induction pairs generalizing d with
  | nil => exact Or.inr ⟨List.not_mem_nil, h⟩
  | cons pair rest ih =>
      rw [update, List.foldl_cons, ← update] at h
      rcases ih h with hrest | ⟨hrest, hput⟩
      · exact Or.inl (List.mem_cons_of_mem _ hrest)
      · by_cases hk : pair.1 = k
        · subst hk
          have hself : Dict.lookup (d.put pair) pair.1 = some pair.2 := by
            rw [lookup, Table.get?_put_self]
            rfl
          obtain rfl := Option.some.inj (hself.symm.trans hput)
          exact Or.inl List.mem_cons_self
        · rw [lookup, Table.get?_put_of_ne d hk, ← lookup] at hput
          refine Or.inr ⟨?_, hput⟩
          rw [List.map_cons, List.mem_cons, not_or]
          exact ⟨Ne.symm hk, hrest⟩

theorem isSome_lookup_iff {d : Dict κ ν} {k : κ} :
    (d.lookup k).isSome ↔ k ∈ d.rows.map Prod.fst := by
  rw [Option.isSome_iff_exists, List.mem_map]
  constructor
  · rintro ⟨v, hv⟩
    exact ⟨(k, v), lookup_eq_some_iff.mp hv, rfl⟩
  · rintro ⟨⟨k', v⟩, hrow, rfl⟩
    exact ⟨v, lookup_eq_some_iff.mpr hrow⟩

theorem mem_of_mem_ofPairs {pairs : List (κ × ν)} {row : κ × ν} (h : row ∈ (ofPairs pairs).rows) :
    row ∈ pairs :=
  (lookup_update_cases (lookup_eq_some_iff.mpr h)).elim id fun hempty => by
    cases hempty.2

theorem keys_ofPairs (pairs : List (κ × ν)) (k : κ) :
    k ∈ (ofPairs pairs).rows.map Prod.fst ↔ k ∈ pairs.map Prod.fst := by
  rw [ofPairs, keys_update]
  simp [Table.empty]

theorem lookup_update_of_mem {d : Dict κ ν} {pairs : List (κ × ν)}
    (hnodup : (pairs.map Prod.fst).Nodup) {k : κ} {v : ν} (h : (k, v) ∈ pairs) :
    (d.update pairs).lookup k = some v := by
  have hkey : k ∈ (d.update pairs).rows.map Prod.fst :=
    (keys_update d pairs k).mpr (Or.inr (List.mem_map_of_mem h))
  obtain ⟨⟨k', v'⟩, hrow, rfl⟩ := List.mem_map.mp hkey
  have hlookup := lookup_eq_some_iff.mpr hrow
  rcases lookup_update_cases hlookup with hpair | ⟨hnone, -⟩
  · have hsame := (List.inj_on_of_nodup_map hnodup) hpair h rfl
    exact hlookup.trans (congrArg some (congrArg Prod.snd hsame))
  · exact absurd (List.mem_map_of_mem h) hnone

/-- `==` of two dictionaries: the same entries, in any order. -/
def same [DecidableEq ν] (d e : Dict κ ν) : Bool :=
  d.rows.length = e.rows.length && d.rows.all fun row => e.lookup row.1 = some row.2

end Dict

end Base
