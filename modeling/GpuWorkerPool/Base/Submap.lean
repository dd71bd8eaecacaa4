import GpuWorkerPool.Base.Table
import Mathlib.Data.List.Perm.Subperm

/-!
Sub-maps of dictionaries. Dictionaries under keys that are pairwise apart are all sub-maps of the
one they are merged into, in whatever order they are merged.
-/

namespace Base.Dict

variable {κ ν : Type} [DecidableEq κ]

/-- Every entry of `d` is one of `e`. -/
def Included (d e : Dict κ ν) : Prop := ∀ k v, d.lookup k = some v → e.lookup k = some v

/-- No key of `d` is one of `e`. -/
def KeysApart (d e : Dict κ ν) : Prop := ∀ k ∈ d.rows.map Prod.fst, k ∉ e.rows.map Prod.fst

theorem Included.refl (d : Dict κ ν) : Included d d := fun _ _ h => h

theorem Included.trans {d e f : Dict κ ν} (h : Included d e) (h' : Included e f) : Included d f :=
  fun k v hk => h' k v (h k v hk)

theorem KeysApart.symm {d e : Dict κ ν} (h : KeysApart d e) : KeysApart e d :=
  fun k he hd => h k hd he

theorem mem_keys_of_lookup {d : Dict κ ν} {k : κ} {v : ν} (h : d.lookup k = some v) :
    k ∈ d.rows.map Prod.fst :=
  List.mem_map_of_mem (lookup_eq_some_iff.mp h)

/-- What is written last is there. -/
theorem included_update (d e : Dict κ ν) : Included e (d.update e.rows) := by
  intro k v h
  exact lookup_update_of_mem e.keys_nodup (lookup_eq_some_iff.mp h)

/-- Entries under other keys stay. -/
theorem Included.update {d e f : Dict κ ν} (h : Included d e) (hapart : KeysApart d f) :
    Included d (e.update f.rows) := by
  intro k v hk
  rw [lookup_update_of_notMem (hapart k (mem_keys_of_lookup hk))]
  exact h k v hk

/-- Entries of the dictionary and entries that are written over it. -/
theorem update_included {d e f : Dict κ ν} (hd : Included d f) (he : Included e f) :
    Included (d.update e.rows) f := by
  intro k v hk
  rcases lookup_update_cases hk with hmem | hold
  · exact he k v (lookup_eq_some_iff.mpr hmem)
  · exact hd k v hold.2

/-- `merge(d, *es)`: later dictionaries win. -/
def mergeAll (d : Dict κ ν) (es : List (Dict κ ν)) : Dict κ ν :=
  es.foldl (fun merged e => merged.update e.rows) d

theorem Included.mergeAll {d e : Dict κ ν} {es : List (Dict κ ν)} (h : Included d e)
    (hapart : ∀ f ∈ es, KeysApart d f) : Included d (mergeAll e es) := by
  induction es generalizing e with
  | nil => exact h
  | cons f rest ih =>
      rw [List.forall_mem_cons] at hapart
      exact ih (h.update hapart.1) hapart.2

/-- Dictionaries that are pairwise apart are all in the merged one. -/
theorem included_mergeAll {d e : Dict κ ν} {es : List (Dict κ ν)} (hapart : es.Pairwise KeysApart)
    (he : e ∈ es) : Included e (mergeAll d es) := by
  induction es generalizing d with
  | nil => cases he
  | cons f rest ih =>
      rw [List.pairwise_cons] at hapart
      rcases List.mem_cons.mp he with rfl | hrest
      · exact (included_update d e).mergeAll hapart.1
      · exact ih hapart.2 hrest

/-- A dictionary comprehension that keeps the entries under some of the keys. -/
def restrict (d : Dict κ ν) (p : κ → Bool) : Dict κ ν where
  rows := d.rows.filter fun row => p row.1
  keys_nodup := ((List.filter_sublist).map Prod.fst).nodup d.keys_nodup

theorem lookup_restrict_eq_some_iff {d : Dict κ ν} {p : κ → Bool} {k : κ} {v : ν} :
    (d.restrict p).lookup k = some v ↔ d.lookup k = some v ∧ p k := by
  rw [lookup_eq_some_iff, lookup_eq_some_iff]
  exact List.mem_filter

/-- A dictionary comprehension that renames the keys. -/
def renameKeys (d : Dict κ ν) (f : κ → κ) : Dict κ ν :=
  .ofPairs (d.rows.map fun row => (f row.1, row.2))

theorem lookup_renameKeys {d : Dict κ ν} {f : κ → κ} {k : κ} {v : ν}
    (h : (d.renameKeys f).lookup k = some v) : ∃ k', k = f k' ∧ d.lookup k' = some v := by
  have hmem := mem_of_mem_ofPairs (lookup_eq_some_iff.mp h)
  obtain ⟨row, hrow, heq⟩ := List.mem_map.mp hmem
  obtain ⟨rfl, rfl⟩ := Prod.mk.inj heq
  exact ⟨row.1, rfl, lookup_eq_some_iff.mpr hrow⟩

theorem same_self [DecidableEq ν] (d : Dict κ ν) : d.same d := by
  rw [same, decide_eq_true rfl, Bool.true_and, List.all_eq_true]
  exact fun row hrow => decide_eq_true (lookup_eq_some_iff.mpr hrow)

/-- Equal dictionaries have the same entries, in any order. -/
theorem perm_of_same [DecidableEq ν] {d e : Dict κ ν} (h : d.same e) : d.rows.Perm e.rows := by
  rw [same, Bool.and_eq_true, decide_eq_true_eq, List.all_eq_true] at h
  obtain ⟨hlength, hrows⟩ := h
  have hsub : d.rows ⊆ e.rows := fun row hrow =>
    lookup_eq_some_iff.mp (decide_eq_true_eq.mp (hrows row hrow))
  exact (List.subperm_of_subset (List.Nodup.of_map Prod.fst d.keys_nodup) hsub).perm_of_length_le
    (Nat.le_of_eq hlength.symm)

theorem lookup_eq_of_same [DecidableEq ν] {d e : Dict κ ν} (h : d.same e) (k : κ) :
    d.lookup k = e.lookup k := by
  ext v
  rw [lookup_eq_some_iff, lookup_eq_some_iff]
  exact (perm_of_same h).mem_iff

/-- A dictionary comprehension over some keys. -/
theorem lookup_ofPairs_map (keys : List κ) (f : κ → ν) (k : κ) :
    (ofPairs (keys.map fun key => (key, f key))).lookup k = if k ∈ keys then some (f k) else none := by
  have hkeys : k ∈ (ofPairs (keys.map fun key => (key, f key))).rows.map Prod.fst ↔ k ∈ keys := by
    rw [keys_ofPairs, List.map_map]
    exact List.mem_map.trans ⟨fun ⟨_, hkey, heq⟩ => heq ▸ hkey, fun hk => ⟨k, hk, rfl⟩⟩
  cases hlookup : (ofPairs (keys.map fun key => (key, f key))).lookup k with
  | none => rw [if_neg fun hk => by simpa [hlookup] using isSome_lookup_iff.mpr (hkeys.mpr hk)]
  | some v =>
      rw [if_pos (hkeys.mp (mem_keys_of_lookup hlookup))]
      obtain ⟨key, -, heq⟩ := List.mem_map.mp (mem_of_mem_ofPairs (lookup_eq_some_iff.mp hlookup))
      obtain ⟨rfl, rfl⟩ := Prod.mk.inj heq
      rfl

end Base.Dict
