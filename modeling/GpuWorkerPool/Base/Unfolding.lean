import Mathlib.Data.List.Forall2
import Mathlib.Data.List.Pairwise
import Mathlib.Data.Set.Lattice

/-!
A graph read from a root along the places of its children. A path is a list of places; it is
followed child by child, so a node that is shared or on a cycle is reached by several paths. That
every node with an identity is reached at most once, and that a property holds at every depth, are
both read off a node and its children.
-/

namespace Base

variable {α κ : Type} (children : α → List α) (identity : α → Option κ)

/-- What is reached from `a` along a path. -/
def follow (a : α) : List Nat → Option α
  | [] => some a
  | place :: path => ((children a)[place]?).bind fun child => follow child path

/-- The identities that are met from `a` on. -/
def Met (a : α) : Set κ := {k | ∃ path b, follow children a path = some b ∧ identity b = some k}

/-- No identity is met along two paths from `a`. -/
def MetOnce (a : α) : Prop :=
  ∀ k path path' b b', follow children a path = some b → follow children a path' = some b' →
    identity b = some k → identity b' = some k → path = path'

/-- `P` holds of everything that is reached from `a`, and of its depth when `a` is at `depth`. -/
def Throughout (P : Nat → α → Prop) (depth : Nat) (a : α) : Prop :=
  ∀ path b, follow children a path = some b → P (depth + path.length) b

variable {children identity}

theorem follow_cons {a b : α} {place : Nat} {path : List Nat} :
    follow children a (place :: path) = some b ↔
      ∃ child, (children a)[place]? = some child ∧ follow children child path = some b := by
  rw [follow, Option.bind_eq_some_iff]

theorem met_of_identity {a : α} {k : κ} (h : identity a = some k) : k ∈ Met children identity a :=
  ⟨[], a, rfl, h⟩

theorem met_of_child {a child : α} {k : κ} (hchild : child ∈ children a)
    (h : k ∈ Met children identity child) : k ∈ Met children identity a := by
  obtain ⟨path, b, hpath, hk⟩ := h
  obtain ⟨place, hplace⟩ := List.mem_iff_getElem?.mp hchild
  exact ⟨place :: path, b, follow_cons.mpr ⟨child, hplace, hpath⟩, hk⟩

/-- What is met is the node itself or met from a child. -/
theorem mem_met_iff {a : α} {k : κ} : k ∈ Met children identity a ↔
    identity a = some k ∨ ∃ child ∈ children a, k ∈ Met children identity child := by
  constructor
  · rintro ⟨path, b, hpath, hk⟩
    cases path with
    | nil =>
        cases hpath
        exact Or.inl hk
    | cons place path =>
        obtain ⟨child, hchild, hrest⟩ := follow_cons.mp hpath
        exact Or.inr ⟨child, List.mem_of_getElem? hchild, path, b, hrest, hk⟩
  · rintro (hk | ⟨child, hchild, hk⟩)
    · exact met_of_identity hk
    · exact met_of_child hchild hk

theorem throughout_iff {P : Nat → α → Prop} {depth : Nat} {a : α} :
    Throughout children P depth a ↔
      P depth a ∧ ∀ child ∈ children a, Throughout children P (depth + 1) child := by
  constructor
  · intro h
    refine ⟨h [] a rfl, fun child hchild path b hpath => ?_⟩
    obtain ⟨place, hplace⟩ := List.mem_iff_getElem?.mp hchild
    have hP := h (place :: path) b (follow_cons.mpr ⟨child, hplace, hpath⟩)
    rwa [List.length_cons, Nat.add_comm path.length, ← Nat.add_assoc] at hP
  · rintro ⟨hhere, hchildren⟩ path b hpath
    cases path with
    | nil =>
        cases hpath
        exact hhere
    | cons place path =>
        obtain ⟨child, hplace, hrest⟩ := follow_cons.mp hpath
        have hP := hchildren child (List.mem_of_getElem? hplace) path b hrest
        rwa [List.length_cons, Nat.add_comm path.length, ← Nat.add_assoc]

/-- Nothing that is met from one of two nodes is met from the other. -/
def Apart (children : α → List α) (identity : α → Option κ) (a b : α) : Prop :=
  ∀ k, k ∈ Met children identity a → k ∉ Met children identity b

theorem Apart.symm {a b : α} (h : Apart children identity a b) : Apart children identity b a :=
  fun k hb ha => h k ha hb

/-- Every identity is met once from a node when it is met once from one of its children and not from
the others, and the node's own identity is not met again. -/
theorem metOnce_iff {a : α} : MetOnce children identity a ↔
    (∀ child ∈ children a, MetOnce children identity child) ∧
      (children a).Pairwise (Apart children identity) ∧
      ∀ k, identity a = some k → ∀ child ∈ children a, k ∉ Met children identity child := by
  constructor
  · intro h
    refine ⟨?_, ?_, ?_⟩
    · intro child hchild k path path' b b' hpath hpath' hk hk'
      obtain ⟨place, hplace⟩ := List.mem_iff_getElem?.mp hchild
      have heq := h k (place :: path) (place :: path') b b' (follow_cons.mpr ⟨child, hplace, hpath⟩)
        (follow_cons.mpr ⟨child, hplace, hpath'⟩) hk hk'
      exact (List.cons.inj heq).2
    · rw [List.pairwise_iff_getElem]
      rintro i j hi hj hij k ⟨path, b, hpath, hk⟩ ⟨path', b', hpath', hk'⟩
      have heq := h k (i :: path) (j :: path') b b'
        (follow_cons.mpr ⟨_, List.getElem?_eq_getElem hi, hpath⟩)
        (follow_cons.mpr ⟨_, List.getElem?_eq_getElem hj, hpath'⟩) hk hk'
      exact absurd (List.cons.inj heq).1 (Nat.ne_of_lt hij)
    · rintro k hk child hchild ⟨path, b, hpath, hb⟩
      obtain ⟨place, hplace⟩ := List.mem_iff_getElem?.mp hchild
      have heq := h k [] (place :: path) a b rfl (follow_cons.mpr ⟨child, hplace, hpath⟩) hk hb
      cases heq
  · rintro ⟨hchildren, hapart, hown⟩ k path path' b b' hpath hpath' hk hk'
    cases path with
    | nil =>
        cases hpath
        cases path' with
        | nil => rfl
        | cons place path' =>
            obtain ⟨child, hplace, hrest⟩ := follow_cons.mp hpath'
            exact absurd ⟨path', b', hrest, hk'⟩ (hown k hk child (List.mem_of_getElem? hplace))
    | cons place path =>
        obtain ⟨child, hplace, hrest⟩ := follow_cons.mp hpath
        cases path' with
        | nil =>
            cases hpath'
            exact absurd ⟨path, b, hrest, hk⟩ (hown k hk' child (List.mem_of_getElem? hplace))
        | cons place' path' =>
            obtain ⟨child', hplace', hrest'⟩ := follow_cons.mp hpath'
            by_cases hsame : place = place'
            · subst hsame
              obtain rfl := Option.some.inj (hplace.symm.trans hplace')
              rw [hchildren child (List.mem_of_getElem? hplace) k path path' b b' hrest hrest' hk hk']
            · exfalso
              obtain ⟨hi, rfl⟩ := List.getElem?_eq_some_iff.mp hplace
              obtain ⟨hj, rfl⟩ := List.getElem?_eq_some_iff.mp hplace'
              rw [List.pairwise_iff_getElem] at hapart
              rcases Nat.lt_or_gt_of_ne hsame with hlt | hgt
              · exact hapart place place' hi hj hlt k ⟨path, b, hrest, hk⟩ ⟨path', b', hrest', hk'⟩
              · exact hapart place' place hj hi hgt k ⟨path', b', hrest', hk'⟩ ⟨path, b, hrest, hk⟩

/-! ### A stack of nodes -/

/-- What the nodes of a stack meet is met once among them all, and none of it was seen before. -/
structure Unvisited (children : α → List α) (identity : α → Option κ) (stack : List α)
    (seen : Set κ) : Prop where
  once : ∀ a ∈ stack, MetOnce children identity a
  apart : stack.Pairwise (Apart children identity)
  fresh : ∀ a ∈ stack, ∀ k ∈ Met children identity a, k ∉ seen

theorem unvisited_nil {seen : Set κ} : Unvisited children identity [] seen where
  once := fun _ h => absurd h List.not_mem_nil
  apart := List.Pairwise.nil
  fresh := fun _ h => absurd h List.not_mem_nil

theorem unvisited_singleton {a : α} :
    Unvisited children identity [a] ∅ ↔ MetOnce children identity a := by
  constructor
  · exact fun h => h.once a (List.mem_singleton.mpr rfl)
  · intro h
    refine ⟨?_, List.pairwise_singleton _ _, fun _ _ _ _ hk => hk⟩
    intro b hb
    rwa [List.mem_singleton.mp hb]

/-- A node without identity and children is no part of what is met. -/
theorem unvisited_leaf {a : α} (hidentity : identity a = none) (hchildren : children a = [])
    {stack : List α} {seen : Set κ} :
    Unvisited children identity (a :: stack) seen ↔ Unvisited children identity stack seen := by
  have hnone : ∀ k, k ∉ Met children identity a := by
    intro k hk
    rcases mem_met_iff.mp hk with hk | ⟨child, hchild, -⟩
    · rw [hidentity] at hk
      cases hk
    · rw [hchildren] at hchild
      cases hchild
  constructor
  · intro h
    exact ⟨fun b hb => h.once b (List.mem_cons_of_mem _ hb), (List.pairwise_cons.mp h.apart).2,
      fun b hb => h.fresh b (List.mem_cons_of_mem _ hb)⟩
  · intro h
    refine ⟨List.forall_mem_cons.mpr ⟨?_, h.once⟩, List.pairwise_cons.mpr ⟨?_, h.apart⟩,
      List.forall_mem_cons.mpr ⟨fun k hk => absurd hk (hnone k), h.fresh⟩⟩
    · intro k path path' b b' hpath _ hk _
      exact absurd ⟨path, b, hpath, hk⟩ (hnone k)
    · exact fun _ _ k hk => absurd hk (hnone k)

/-- A node is exchanged for its children once its identity is seen. -/
theorem unvisited_node {a : α} {k : κ} (hidentity : identity a = some k) {stack : List α}
    {seen : Set κ} :
    Unvisited children identity (a :: stack) seen ↔
      k ∉ seen ∧ Unvisited children identity ((children a).reverse ++ stack) (insert k seen) := by
  constructor
  · intro h
    obtain ⟨honce, hrest⟩ := List.forall_mem_cons.mp h.once
    obtain ⟨hapart, hpairs⟩ := List.pairwise_cons.mp h.apart
    obtain ⟨hfresh, hothers⟩ := List.forall_mem_cons.mp h.fresh
    obtain ⟨hchildren, hsiblings, hown⟩ := metOnce_iff.mp honce
    refine ⟨hfresh k (met_of_identity hidentity), ?_, ?_, ?_⟩
    · intro b hb
      rcases List.mem_append.mp hb with hb | hb
      · exact hchildren b (List.mem_reverse.mp hb)
      · exact hrest b hb
    · refine List.pairwise_append.mpr ⟨?_, hpairs, fun child hchild b hb j hj => ?_⟩
      · exact (List.pairwise_reverse.mpr hsiblings).imp Apart.symm
      · exact hapart b hb j (met_of_child (List.mem_reverse.mp hchild) hj)
    · intro b hb j hj hseen
      rcases Set.mem_insert_iff.mp hseen with rfl | hseen
      · rcases List.mem_append.mp hb with hb | hb
        · exact hown j hidentity b (List.mem_reverse.mp hb) hj
        · exact hapart b hb j (met_of_identity hidentity) hj
      · rcases List.mem_append.mp hb with hb | hb
        · exact hfresh j (met_of_child (List.mem_reverse.mp hb) hj) hseen
        · exact hothers b hb j hj hseen
  · rintro ⟨hk, h⟩
    have hchild {child : α} (hchild : child ∈ children a) : child ∈ (children a).reverse ++ stack :=
      List.mem_append_left _ (List.mem_reverse.mpr hchild)
    obtain ⟨hsiblings, hpairs, hcross⟩ := List.pairwise_append.mp h.apart
    refine ⟨List.forall_mem_cons.mpr ⟨metOnce_iff.mpr ⟨?_, ?_, ?_⟩, ?_⟩,
      List.pairwise_cons.mpr ⟨?_, hpairs⟩, List.forall_mem_cons.mpr ⟨?_, ?_⟩⟩
    · exact fun child hmem => h.once child (hchild hmem)
    · exact (List.pairwise_reverse.mp hsiblings).imp Apart.symm
    · intro j hj child hmem hmet
      obtain rfl := Option.some.inj (hidentity.symm.trans hj)
      exact h.fresh child (hchild hmem) k hmet (Set.mem_insert k seen)
    · exact fun b hb => h.once b (List.mem_append_right _ hb)
    · intro b hb j hj hb'
      rcases mem_met_iff.mp hj with hj | ⟨child, hmem, hj⟩
      · obtain rfl := Option.some.inj (hidentity.symm.trans hj)
        exact h.fresh b (List.mem_append_right _ hb) k hb' (Set.mem_insert k seen)
      · exact hcross child (List.mem_reverse.mpr hmem) b hb j hj hb'
    · intro j hj hseen
      rcases mem_met_iff.mp hj with hj | ⟨child, hmem, hj⟩
      · obtain rfl := Option.some.inj (hidentity.symm.trans hj)
        exact hk hseen
      · exact h.fresh child (hchild hmem) j hj (Set.mem_insert_of_mem k hseen)
    · exact fun b hb j hj hseen =>
        h.fresh b (List.mem_append_right _ hb) j hj (Set.mem_insert_of_mem k hseen)

/-! ### Children that are read one by one -/

section Reading

variable {β : Type} {R : α → β → Prop} {items : List α} {results : List β}

theorem exists_forall₂ (h : ∀ a ∈ items, ∃ b, R a b) : ∃ results, List.Forall₂ R items results := by
  induction items with
  | nil => exact ⟨[], .nil⟩
  | cons a rest ih =>
      obtain ⟨⟨b, hb⟩, hrest⟩ := List.forall_mem_cons.mp h
      obtain ⟨bs, hbs⟩ := ih hrest
      exact ⟨b :: bs, .cons hb hbs⟩

theorem forall_mem_iff_of_forall₂ {P : α → Prop} {Q : β → Prop} (h : List.Forall₂ R items results)
    (hiff : ∀ a b, R a b → (P a ↔ Q b)) : (∀ a ∈ items, P a) ↔ ∀ b ∈ results, Q b := by
  induction h with
  | nil => simp
  | cons hab _ ih => rw [List.forall_mem_cons, List.forall_mem_cons, hiff _ _ hab, ih]

theorem mapM_eq_some_iff {f : α → Option β} :
    items.mapM f = some results ↔ List.Forall₂ (fun a b => f a = some b) items results := by
  induction items generalizing results with
  | nil =>
      rw [List.mapM_nil, List.forall₂_nil_left_iff]
      exact ⟨fun h => (Option.some.inj h).symm, fun h => congrArg some h.symm⟩
  | cons a rest ih =>
      rw [List.mapM_cons, List.forall₂_cons_left_iff]
      constructor
      · intro h
        obtain ⟨b, hb, h⟩ := Option.bind_eq_some_iff.mp h
        obtain ⟨bs, hbs, h⟩ := Option.bind_eq_some_iff.mp h
        exact ⟨b, bs, hb, ih.mp hbs, (Option.some.inj h).symm⟩
      · rintro ⟨b, bs, hb, hbs, rfl⟩
        rw [hb, ih.mpr hbs]
        rfl

end Reading

end Base
