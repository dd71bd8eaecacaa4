import GpuWorkerPool.Admission
import GpuWorkerPool.Base.Submap

/-!
The version maps of a worker that serves several ComfyUI profiles. The first profile keeps the plain
keys. Every further one registers its own entries under `<key>@<profile>`, and its plugin attests
them there, beside the facts that all profiles of the runtime share.
-/

namespace GpuWorkerPool

open Base

/-! ### Keys -/

def recipeKeyName : String := "magic_recipe"

def configKeyName : String := "magic_config"

def profileKeyName : String := "magic_profile"

def namespaceSeparator : String := "@"

/-- `key.startswith('magic_feature_')` -/
def isFeatureKey (key : String) : Bool := "magic_feature_".toList.isPrefixOf key.toList

/-- A key of the recipe, the configuration, the profile or a feature. -/
def isOwnKey (key : String) : Bool :=
  key ∈ [recipeKeyName, configKeyName, profileKeyName] || isFeatureKey key

/-- `recipe_key` -/
def recipeKey (profile : Option String) (key : String) : String :=
  match profile with
  | none => key
  | some profile => key ++ namespaceSeparator ++ profile

/-- The key has no namespace separator. -/
def PlainKey (key : String) : Prop := '@' ∉ key.toList

instance (key : String) : Decidable (PlainKey key) := inferInstanceAs (Decidable ('@' ∉ key.toList))

theorem not_plainKey_recipeKey (profile key : String) : ¬ PlainKey (recipeKey (some profile) key) := by
  intro h
  apply h
  simp [recipeKey, namespaceSeparator, String.toList_append]

/-- A plain key and the profile are read back. -/
theorem partitionAt_recipeKey {key : String} (hplain : PlainKey key) (profile : String) :
    partitionAt (recipeKey (some profile) key) = (key, profile) := by
  have hkey : ∀ c ∈ key.toList, decide (c ≠ '@') = true := by
    intro c hc
    apply decide_eq_true
    intro hsame
    exact hplain (hsame ▸ hc)
  have hchars : (recipeKey (some profile) key).toList = key.toList ++ '@' :: profile.toList := by
    simp [recipeKey, namespaceSeparator, String.toList_append]
  rw [partitionAt, hchars, List.takeWhile_append_of_pos hkey, List.dropWhile_append_of_pos hkey]
  simp

theorem recipeKey_injective {key key' profile profile' : String} (hplain : PlainKey key)
    (hplain' : PlainKey key')
    (h : recipeKey (some profile) key = recipeKey (some profile') key') :
    key = key' ∧ profile = profile' := by
  have hparts := partitionAt_recipeKey hplain profile
  rw [h, partitionAt_recipeKey hplain' profile'] at hparts
  exact ⟨(congrArg Prod.fst hparts).symm, (congrArg Prod.snd hparts).symm⟩

/-! ### The map of one profile -/

def PlainKeys (versions : Dict String String) : Prop :=
  ∀ key ∈ versions.rows.map Prod.fst, PlainKey key

/-- `namespaced_versions`; `none` is a `KeyError`. -/
def namespacedVersions (profile : String) (versions : Dict String String) :
    Option (Dict String String) := do
  let recipe ← versions.lookup recipeKeyName
  let config ← versions.lookup configKeyName
  let name ← versions.lookup profileKeyName
  let own : Dict String String := .ofPairs
    ([(recipeKeyName, recipe), (configKeyName, config), (profileKeyName, name)] ++
      (versions.restrict isFeatureKey).rows)
  pure (own.renameKeys (recipeKey (some profile)))

/-- `attested_versions` -/
def attestedVersions (profile : String) (versions : Dict String String) :
    Option (Dict String String) := do
  let own ← namespacedVersions profile versions
  pure ((versions.restrict fun key => !isOwnKey key).update own.rows)

/-- The versions of one profile, under its name, recipe and configuration. -/
structure ProfileVersions where
  profile : String
  recipe : String
  config : String
  versions : Dict String String
  recipe_entry : versions.lookup recipeKeyName = some recipe
  config_entry : versions.lookup configKeyName = some config
  profile_entry : versions.lookup profileKeyName = some profile

namespace ProfileVersions

variable (p : ProfileVersions)

/-- The entries that belong to the profile alone. -/
def ownEntries : Dict String String :=
  .ofPairs ([(recipeKeyName, p.recipe), (configKeyName, p.config), (profileKeyName, p.profile)] ++
    (p.versions.restrict isFeatureKey).rows)

/-- The entries under the keys of a further profile. -/
def namespaced : Dict String String := p.ownEntries.renameKeys (recipeKey (some p.profile))

theorem namespacedVersions_eq : namespacedVersions p.profile p.versions = some p.namespaced := by
  rw [namespacedVersions, p.recipe_entry, p.config_entry, p.profile_entry]
  rfl

theorem attestedVersions_eq : attestedVersions p.profile p.versions =
    some ((p.versions.restrict fun key => !isOwnKey key).update p.namespaced.rows) := by
  rw [attestedVersions, p.namespacedVersions_eq]
  rfl

variable {p}

theorem lookup_ownEntries {key value : String} (h : p.ownEntries.lookup key = some value) :
    p.versions.lookup key = some value ∧ isOwnKey key := by
  have hmem := Dict.mem_of_mem_ofPairs (Dict.lookup_eq_some_iff.mp h)
  rw [List.mem_append] at hmem
  rcases hmem with hnamed | hfeature
  · simp only [List.mem_cons, Prod.mk.injEq, List.not_mem_nil, or_false] at hnamed
    rcases hnamed with ⟨rfl, rfl⟩ | ⟨rfl, rfl⟩ | ⟨rfl, rfl⟩
    · exact ⟨p.recipe_entry, by decide⟩
    · exact ⟨p.config_entry, by decide⟩
    · exact ⟨p.profile_entry, by decide⟩
  · obtain ⟨hlookup, hkey⟩ :=
      Dict.lookup_restrict_eq_some_iff.mp (Dict.lookup_eq_some_iff.mpr hfeature)
    exact ⟨hlookup, by rw [isOwnKey, hkey, Bool.or_true]⟩

theorem lookup_namespaced {key value : String} (h : p.namespaced.lookup key = some value) :
    ∃ key', key = recipeKey (some p.profile) key' ∧ p.versions.lookup key' = some value ∧
      isOwnKey key' := by
  obtain ⟨key', hkey, hlookup⟩ := Dict.lookup_renameKeys h
  exact ⟨key', hkey, lookup_ownEntries hlookup⟩

theorem mem_keys_namespaced {key : String} (h : key ∈ p.namespaced.rows.map Prod.fst) :
    ∃ key', key = recipeKey (some p.profile) key' ∧ key' ∈ p.versions.rows.map Prod.fst := by
  obtain ⟨row, hrow, rfl⟩ := List.mem_map.mp h
  obtain ⟨key', hkey, hlookup, -⟩ := lookup_namespaced (Dict.lookup_eq_some_iff.mpr hrow)
  exact ⟨key', hkey, Dict.mem_keys_of_lookup hlookup⟩

end ProfileVersions

/-! ### The merged map -/

/-- The registered versions of `prepare_environment`: the first map plain, each further one through
`namespaced_versions`. -/
def mergedVersions (first : ProfileVersions) (further : List ProfileVersions) :
    Option (Dict String String) :=
  further.foldlM (fun versions p => do
    let own ← namespacedVersions p.profile p.versions
    pure (versions.update own.rows)) first.versions

theorem mergedVersions_eq (first : ProfileVersions) (further : List ProfileVersions) :
    mergedVersions first further =
      some (Dict.mergeAll first.versions (further.map ProfileVersions.namespaced)) := by
  rw [mergedVersions]
  generalize first.versions = versions
  induction further generalizing versions with
  | nil => rfl
  | cons p rest ih =>
      rw [List.foldlM_cons, p.namespacedVersions_eq]
      exact ih (versions.update p.namespaced.rows)

/-- The facts of the runtime are the same in both maps. -/
def SharedAgree (p q : ProfileVersions) : Prop :=
  ∀ key, isOwnKey key = false → p.versions.lookup key = q.versions.lookup key

/-- The plugin of a profile; those after the first attest under their namespaced keys. -/
structure ProfilePlugin where
  inspected : ProfileVersions
  namespaced : Bool

/-- The `runtime_versions` of a completion, for a runtime that has not changed. -/
def ProfilePlugin.attested (plugin : ProfilePlugin) : Option (Dict String String) :=
  if plugin.namespaced then attestedVersions plugin.inspected.profile plugin.inspected.versions
  else some plugin.inspected.versions

/-- The plugins of a worker. -/
def profilePlugins (first : ProfileVersions) (further : List ProfileVersions) :
    List ProfilePlugin :=
  ⟨first, false⟩ :: further.map fun p => ⟨p, true⟩

/-- Profiles of one runtime, under names of their own and with plain keys. -/
structure OneRuntime (first : ProfileVersions) (further : List ProfileVersions) : Prop where
  names_nodup : ((first :: further).map ProfileVersions.profile).Nodup
  plain : ∀ p ∈ first :: further, PlainKeys p.versions
  shared : ∀ p ∈ further, SharedAgree first p

section Merged

variable {first : ProfileVersions} {further : List ProfileVersions}

theorem keysApart_namespaced {versions : Dict String String} (hplain : PlainKeys versions)
    (p : ProfileVersions) : Dict.KeysApart versions p.namespaced := by
  intro key hkey hown
  obtain ⟨key', rfl, -⟩ := ProfileVersions.mem_keys_namespaced hown
  exact not_plainKey_recipeKey p.profile key' (hplain _ hkey)

theorem namespaced_keysApart {p q : ProfileVersions} (hp : PlainKeys p.versions)
    (hq : PlainKeys q.versions) (hne : p.profile ≠ q.profile) :
    Dict.KeysApart p.namespaced q.namespaced := by
  intro key hkey hkey'
  obtain ⟨k, rfl, hk⟩ := ProfileVersions.mem_keys_namespaced hkey
  obtain ⟨k', hsame, hk'⟩ := ProfileVersions.mem_keys_namespaced hkey'
  exact hne (recipeKey_injective (hp k hk) (hq k' hk') hsame).2

theorem OneRuntime.further_apart (h : OneRuntime first further) :
    (further.map ProfileVersions.namespaced).Pairwise Dict.KeysApart := by
  have hnames : (further.map ProfileVersions.profile).Nodup := (List.nodup_cons.mp h.names_nodup).2
  have hplain := fun p hp => h.plain p (List.mem_cons_of_mem first hp)
  rw [List.pairwise_map]
  refine (List.pairwise_map.mp hnames).imp_of_mem fun hp hq hne => ?_
  exact namespaced_keysApart (hplain _ hp) (hplain _ hq) hne

theorem OneRuntime.plain_plugin (h : OneRuntime first further) {plugin : ProfilePlugin}
    (hplugin : plugin ∈ profilePlugins first further) : PlainKeys plugin.inspected.versions := by
  rcases List.mem_cons.mp hplugin with rfl | hfurther
  · exact h.plain first List.mem_cons_self
  · obtain ⟨p, hp, rfl⟩ := List.mem_map.mp hfurther
    exact h.plain p (List.mem_cons_of_mem first hp)

theorem OneRuntime.first_included (h : OneRuntime first further) :
    Dict.Included first.versions
      (Dict.mergeAll first.versions (further.map ProfileVersions.namespaced)) := by
  apply (Dict.Included.refl _).mergeAll
  intro own hown
  obtain ⟨p, -, rfl⟩ := List.mem_map.mp hown
  exact keysApart_namespaced (h.plain first List.mem_cons_self) p

/-- The plugin of every profile attests entries that the worker registered. -/
theorem OneRuntime.attested_included (h : OneRuntime first further) :
    ∃ merged, mergedVersions first further = some merged ∧
      ∀ plugin ∈ profilePlugins first further, ∃ attested,
        plugin.attested = some attested ∧ Dict.Included attested merged := by
  refine ⟨_, mergedVersions_eq first further, fun plugin hplugin => ?_⟩
  rcases List.mem_cons.mp hplugin with rfl | hfurther
  · exact ⟨first.versions, rfl, h.first_included⟩
  · obtain ⟨p, hp, rfl⟩ := List.mem_map.mp hfurther
    refine ⟨_, p.attestedVersions_eq, Dict.update_included ?_ ?_⟩
    · intro key value hlookup
      obtain ⟨hversions, hkey⟩ := Dict.lookup_restrict_eq_some_iff.mp hlookup
      apply h.first_included
      rw [h.shared p hp key (by simpa using hkey)]
      exact hversions
    · exact Dict.included_mergeAll h.further_apart (List.mem_map_of_mem hp)

end Merged

/-! ### Inspection -/

/-- What `inspect_runtime` reads of a running ComfyUI. -/
structure RuntimeFacts where
  comfyuiVersion : String
  pytorchVersion : String
  argv : List String

/-- `str(flag in argv).lower()` -/
def flagText (argv : List String) (flag : String) : String :=
  if flag ∈ argv then "true" else "false"

/-- `argv[argv.index(flag) + 1] if flag in argv else 'comfy-default'`; `none` is an `IndexError`. -/
def flagValue (argv : List String) (flag : String) : Option String :=
  if flag ∈ argv then argv[argv.idxOf flag + 1]? else some "comfy-default"

def processAttention (argv : List String) : String :=
  if "--use-sage-attention" ∈ argv then "sage"
  else if "--use-ck-attention" ∈ argv then "kitchen"
  else "comfy-default"

/-- The map of `inspect_runtime` before the features. The configuration is given by its
fingerprint. -/
def fixedVersions (facts : RuntimeFacts) (profile recipe config reserveVram : String) :
    Dict String String :=
  Table.put (Dict.ofPairs [
    (recipeKeyName, recipe),
    ("comfyui", facts.comfyuiVersion),
    ("pytorch", facts.pytorchVersion),
    (profileKeyName, profile),
    ("process_attention", processAttention facts.argv),
    ("dynamic_vram", flagText facts.argv "--enable-dynamic-vram"),
    ("pinned_memory_disabled", flagText facts.argv "--disable-pinned-memory"),
    ("reserve_vram", reserveVram)]) (configKeyName, config)

/-- What `inspect_runtime` returns after its checks. -/
def inspectedVersions (facts : RuntimeFacts) (profile recipe config : String)
    (features : Dict String String) : Option (Dict String String) := do
  let reserveVram ← flagValue facts.argv "--reserve-vram"
  pure ((fixedVersions facts profile recipe config reserveVram).update features.rows)

/-- The names of a profile's features are feature keys without a separator. -/
def FeatureKeys (features : Dict String String) : Prop :=
  ∀ key ∈ features.rows.map Prod.fst, isFeatureKey key ∧ PlainKey key

instance (features : Dict String String) : Decidable (FeatureKeys features) :=
  inferInstanceAs
    (Decidable (∀ key ∈ features.rows.map Prod.fst, isFeatureKey key ∧ PlainKey key))

/-- The map of the profile was inspected on the runtime. -/
def ProfileVersions.InspectedOn (facts : RuntimeFacts) (p : ProfileVersions) : Prop :=
  ∃ features, FeatureKeys features ∧
    inspectedVersions facts p.profile p.recipe p.config features = some p.versions

section Inspected

variable {facts : RuntimeFacts}

theorem plainKeys_fixedVersions (profile recipe config reserveVram : String) :
    PlainKeys (fixedVersions facts profile recipe config reserveVram) := by
  have hplain : ∀ key ∈ [recipeKeyName, "comfyui", "pytorch", profileKeyName, "process_attention",
      "dynamic_vram", "pinned_memory_disabled", "reserve_vram", configKeyName],
      PlainKey key := by decide
  intro key hkey
  apply hplain key
  obtain ⟨row, hrow, rfl⟩ := List.mem_map.mp hkey
  rcases Table.mem_put.mp hrow with rfl | ⟨hfixed, -⟩
  · simp
  · have hname := List.mem_map_of_mem (f := Prod.fst) (Dict.mem_of_mem_ofPairs hfixed)
    exact List.mem_append_left [configKeyName] hname

theorem lookup_fixedVersions {profile recipe config profile' recipe' config' reserveVram key : String}
    (hkey : isOwnKey key = false) :
    (fixedVersions facts profile recipe config reserveVram).lookup key =
      (fixedVersions facts profile' recipe' config' reserveVram).lookup key := by
  simp only [isOwnKey, Bool.or_eq_false_iff, decide_eq_false_iff_not, List.mem_cons,
    List.not_mem_nil, or_false, not_or] at hkey
  obtain ⟨⟨hrecipe, hconfig, hprofile⟩, -⟩ := hkey
  simp only [fixedVersions, Dict.ofPairs, Dict.update, List.foldl_cons, List.foldl_nil,
    Dict.lookup_put, if_neg (Ne.symm hrecipe), if_neg (Ne.symm hconfig), if_neg (Ne.symm hprofile)]

/-- Beside the facts of the runtime there are only own entries. -/
theorem sharedAgree_of_fixed {p q : ProfileVersions} {reserveVram : String}
    {features features' : Dict String String}
    (hfeatures : ∀ key ∈ features.rows.map Prod.fst, isFeatureKey key)
    (hfeatures' : ∀ key ∈ features'.rows.map Prod.fst, isFeatureKey key)
    (hp : p.versions =
      (fixedVersions facts p.profile p.recipe p.config reserveVram).update features.rows)
    (hq : q.versions =
      (fixedVersions facts q.profile q.recipe q.config reserveVram).update features'.rows) :
    SharedAgree p q := by
  intro key hkey
  have hother : isFeatureKey key ≠ true := by
    intro hfeature
    rw [isOwnKey, hfeature, Bool.or_true] at hkey
    cases hkey
  rw [hp, hq, Dict.lookup_update_of_notMem fun hmem => hother (hfeatures key hmem),
    Dict.lookup_update_of_notMem fun hmem => hother (hfeatures' key hmem)]
  exact lookup_fixedVersions hkey

theorem ProfileVersions.InspectedOn.exists_fixed {p : ProfileVersions} (h : p.InspectedOn facts) :
    ∃ reserveVram features, flagValue facts.argv "--reserve-vram" = some reserveVram ∧
      FeatureKeys features ∧
      p.versions = (fixedVersions facts p.profile p.recipe p.config reserveVram).update features.rows := by
  obtain ⟨features, hfeatures, hversions⟩ := h
  obtain ⟨reserveVram, hreserve, heq⟩ := Option.bind_eq_some_iff.mp hversions
  exact ⟨reserveVram, features, hreserve, hfeatures, (Option.some.inj heq).symm⟩

theorem ProfileVersions.InspectedOn.plainKeys {p : ProfileVersions} (h : p.InspectedOn facts) :
    PlainKeys p.versions := by
  obtain ⟨reserveVram, features, -, hfeatures, hversions⟩ := h.exists_fixed
  intro key hkey
  rw [hversions, Dict.keys_update] at hkey
  rcases hkey with hfixed | hfeature
  · exact plainKeys_fixedVersions _ _ _ _ key hfixed
  · exact (hfeatures key hfeature).2

/-- Two maps that were inspected on one runtime share its facts. -/
theorem sharedAgree_of_inspectedOn {p q : ProfileVersions} (hp : p.InspectedOn facts)
    (hq : q.InspectedOn facts) : SharedAgree p q := by
  obtain ⟨reserveVram, features, hreserve, hfeatures, hversions⟩ := hp.exists_fixed
  obtain ⟨reserveVram', features', hreserve', hfeatures', hversions'⟩ := hq.exists_fixed
  obtain rfl := Option.some.inj (hreserve.symm.trans hreserve')
  exact sharedAgree_of_fixed (fun key hkey => (hfeatures key hkey).1)
    (fun key hkey => (hfeatures' key hkey).1) hversions hversions'

/-- Profiles under names of their own that were inspected on one runtime. -/
theorem OneRuntime.of_inspectedOn {first : ProfileVersions} {further : List ProfileVersions}
    (hnames : ((first :: further).map ProfileVersions.profile).Nodup)
    (h : ∀ p ∈ first :: further, p.InspectedOn facts) : OneRuntime first further where
  names_nodup := hnames
  plain p hp := (h p hp).plainKeys
  shared p hp :=
    sharedAgree_of_inspectedOn (h first List.mem_cons_self) (h p (List.mem_cons_of_mem first hp))

end Inspected

end GpuWorkerPool
