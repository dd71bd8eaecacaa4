import Mathlib.Logic.Basic

/-!
Programs that end in a value or an exception. `Raises P p` bounds the exceptions of a program, and
`p = .ok a` is taken apart along the structure of `p`.
-/

namespace Base

variable {ε α β σ : Type} {P : ε → Prop}

/-- Every exception of the program satisfies `P`. -/
def Raises (P : ε → Prop) : Except ε α → Prop
  | .ok _ => True
  | .error error => P error

theorem raises_ok (a : α) : Raises P (.ok a : Except ε α) := trivial

theorem raises_pure (a : α) : Raises P (pure a : Except ε α) := trivial

theorem raises_error {error : ε} (h : P error) : Raises P (.error error : Except ε α) := h

theorem Raises.bind {p : Except ε α} {f : α → Except ε β} (hp : Raises P p)
    (hf : ∀ a, p = .ok a → Raises P (f a)) : Raises P (p >>= f) := by
  cases p with
  | ok a => exact hf a rfl
  | error error => exact hp

theorem Raises.mono {Q : ε → Prop} {p : Except ε α} (h : Raises P p) (hPQ : ∀ error, P error → Q error) :
    Raises Q p := by
  cases p with
  | ok a => trivial
  | error error => exact hPQ error h

theorem Raises.of_eq {p : Except ε α} {error : ε} (h : Raises P p) (heq : p = .error error) :
    P error := by
  rw [heq] at h
  exact h

theorem raises_foldlM {step : σ → α → Except ε σ} {items : List α}
    (hstep : ∀ s, ∀ a ∈ items, Raises P (step s a)) (s : σ) : Raises P (items.foldlM step s) := by
  induction items generalizing s with
  | nil => exact raises_pure s
  | cons a rest ih =>
      rw [List.foldlM_cons]
      exact (hstep s a List.mem_cons_self).bind fun s' _ =>
        ih (fun s a ha => hstep s a (List.mem_cons_of_mem _ ha)) s'

theorem raises_forM {check : α → Except ε Unit} {items : List α}
    (hcheck : ∀ a ∈ items, Raises P (check a)) : Raises P (forM items check) := by
  induction items with
  | nil => exact raises_pure _
  | cons a rest ih =>
      rw [List.forM_cons]
      exact (hcheck a List.mem_cons_self).bind fun _ _ =>
        ih fun a ha => hcheck a (List.mem_cons_of_mem _ ha)

theorem bind_ok_iff {p : Except ε α} {f : α → Except ε β} {b : β} :
    p >>= f = .ok b ↔ ∃ a, p = .ok a ∧ f a = .ok b := by
  cases p <;> simp [bind, Except.bind]

theorem exists_unit_iff {p : Unit → Prop} : (∃ u, p u) ↔ p () :=
  ⟨fun ⟨(), h⟩ => h, fun h => ⟨(), h⟩⟩

theorem check_bind_ok_iff {p : Except ε Unit} {f : Unit → Except ε β} {b : β} :
    p >>= f = .ok b ↔ p = .ok () ∧ f () = .ok b := by
  rw [bind_ok_iff, exists_unit_iff]

theorem pure_ok_iff {a b : α} : (pure a : Except ε α) = .ok b ↔ a = b := by
  simp [pure, Except.pure]

/-- A sequence of checks passes when each does. -/
theorem forM_ok_iff {check : α → Except ε Unit} {items : List α} :
    forM items check = .ok () ↔ ∀ a ∈ items, check a = .ok () := by
  induction items with
  | nil => simp [pure, Except.pure]
  | cons a rest ih =>
      rw [List.forM_cons, check_bind_ok_iff, List.forall_mem_cons, ih]

theorem mapM_ok {f : α → Except ε β} {g : α → β} {items : List α}
    (h : ∀ a ∈ items, f a = .ok (g a)) : items.mapM f = .ok (items.map g) := by
  induction items with
  | nil => rfl
  | cons a rest ih =>
      rw [List.forall_mem_cons] at h
      rw [List.mapM_cons, h.1, ih h.2]
      rfl

/-- Whether the program ends in a value. -/
def Succeeds (p : Except ε α) : Prop := ∃ a, p = .ok a

theorem succeeds_bind_iff {p : Except ε α} {f : α → Except ε β} :
    Succeeds (p >>= f) ↔ ∃ a, p = .ok a ∧ Succeeds (f a) := by
  simp only [Succeeds, bind_ok_iff]
  constructor
  · rintro ⟨b, a, ha, hb⟩
    exact ⟨a, ha, b, hb⟩
  · rintro ⟨a, ha, b, hb⟩
    exact ⟨b, a, ha, hb⟩

theorem succeeds_ok (a : α) : Succeeds (.ok a : Except ε α) := ⟨a, rfl⟩

/-! ### Two programs -/

/-- Both programs end in the same exception, or both in values that are related. -/
inductive Matches {γ : Type} (R : α → γ → Prop) : Except ε α → Except ε γ → Prop where
  | ok {a : α} {c : γ} (h : R a c) : Matches R (.ok a) (.ok c)
  | error (error : ε) : Matches R (.error error) (.error error)

section Matching

variable {γ δ : Type} {R : α → γ → Prop} {S : β → δ → Prop}

theorem Matches.bind {p : Except ε α} {q : Except ε γ} {f : α → Except ε β} {g : γ → Except ε δ}
    (h : Matches R p q) (hnext : ∀ a c, R a c → Matches S (f a) (g c)) :
    Matches S (p >>= f) (q >>= g) := by
  cases h with
  | ok h => exact hnext _ _ h
  | error error => exact .error error

theorem Matches.foldlM {ι : Type} {step : α → ι → Except ε α} {step' : γ → ι → Except ε γ}
    {items : List ι} (hstep : ∀ a c, R a c → ∀ item ∈ items, Matches R (step a item) (step' c item))
    {a : α} {c : γ} (h : R a c) : Matches R (items.foldlM step a) (items.foldlM step' c) := by
  induction items generalizing a c with
  | nil => exact .ok h
  | cons item rest ih =>
      rw [List.foldlM_cons, List.foldlM_cons]
      exact (hstep a c h item List.mem_cons_self).bind fun a' c' h' =>
        ih (fun a c h item hmem => hstep a c h item (List.mem_cons_of_mem _ hmem)) h'

theorem Matches.of_ok {p : Except ε α} {q : Except ε γ} (h : Matches R p q) {a : α}
    (hok : p = .ok a) : ∃ c, q = .ok c ∧ R a c := by
  cases h with
  | ok h =>
      obtain rfl := Except.ok.inj hok
      exact ⟨_, rfl, h⟩
  | error error => cases hok

theorem Matches.of_ok_right {p : Except ε α} {q : Except ε γ} (h : Matches R p q) {c : γ}
    (hok : q = .ok c) : ∃ a, p = .ok a ∧ R a c := by
  cases h with
  | ok h =>
      obtain rfl := Except.ok.inj hok
      exact ⟨_, rfl, h⟩
  | error error => cases hok

end Matching

end Base
