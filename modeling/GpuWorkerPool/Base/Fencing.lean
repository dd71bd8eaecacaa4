import Mathlib.Logic.Basic

/-!
Fencing by keys. A key opens at most one row at a time. A change is fenced for the keys issued so
far when none of them starts to open a row, and a key that still opens one opens the same row up to
a given relation. Fenced changes compose, so a key that has once stopped opening a row never opens
one again.
-/

namespace Base

section Fencing

variable {κ ρ : Type}

/-- The change from `held` to `held'` is fenced for the issued keys. -/
def Fenced (same : ρ → ρ → Prop) (issued : κ → Prop) (held held' : κ → Option ρ) : Prop :=
  ∀ k, issued k → ∀ row', held' k = some row' → ∃ row, held k = some row ∧ same row row'

variable {same : ρ → ρ → Prop} {issued issued' : κ → Prop} {held held' held'' : κ → Option ρ}

theorem Fenced.refl (hsame : ∀ row, same row row) (issued : κ → Prop) (held : κ → Option ρ) :
    Fenced same issued held held :=
  fun _ _ row hrow => ⟨row, hrow, hsame row⟩

/-- Keys are only ever issued, so the earlier change bounds the composite. -/
theorem Fenced.trans (htrans : ∀ {a b c}, same a b → same b c → same a c)
    (hissued : ∀ k, issued k → issued' k) (h : Fenced same issued held held')
    (h' : Fenced same issued' held' held'') : Fenced same issued held held'' := by
  intro k hk row'' hrow''
  obtain ⟨row', hrow', hsame'⟩ := h' k (hissued k hk) row'' hrow''
  obtain ⟨row, hrow, hsame⟩ := h k hk row' hrow'
  exact ⟨row, hrow, htrans hsame hsame'⟩

theorem Fenced.mono (hissued : ∀ k, issued k → issued' k) (h : Fenced same issued' held held') :
    Fenced same issued held held' :=
  fun k hk => h k (hissued k hk)

/-- A dead key stays dead. -/
theorem Fenced.dead (h : Fenced same issued held held') {k : κ} (hk : issued k)
    (hdead : held k = none) : held' k = none := by
  cases hheld' : held' k with
  | none => rfl
  | some row' =>
      obtain ⟨row, hrow, -⟩ := h k hk row' hheld'
      exact absurd (hdead.symm.trans hrow) (by simp)

end Fencing

end Base
