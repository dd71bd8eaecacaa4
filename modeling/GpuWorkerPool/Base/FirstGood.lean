import Mathlib.Data.List.Basic

/-!
A loop that tries a state and takes its next step only when the state is refused. It stops at the
first state that is good, which is the state after the shortest prefix of its steps that makes it
so. Steps that change nothing can be left out of the account.
-/

namespace Base

variable {σ α : Type}

/-- The first good state on the way through `steps`. -/
def firstGood (good : σ → Bool) (step : σ → α → σ) (s : σ) : List α → Option σ
  | [] => if good s then some s else none
  | a :: rest => if good s then some s else firstGood good step (step s a) rest

/-- `taken` is the shortest prefix of `steps` after which the state is good. -/
structure ShortestGood (good : σ → Bool) (after : List α → σ) (steps taken : List α) : Prop where
  taken_prefix : taken <+: steps
  good_after : good (after taken)
  shorter : ∀ fewer, fewer <+: taken → fewer ≠ taken → good (after fewer) = false

variable {good : σ → Bool} {step : σ → α → σ}

theorem firstGood_cases (s : σ) (steps : List α) :
    (∃ taken, firstGood good step s steps = some (taken.foldl step s) ∧
        ShortestGood good (fun taken => taken.foldl step s) steps taken) ∨
      firstGood good step s steps = none ∧
        ∀ taken, taken <+: steps → good (taken.foldl step s) = false := by
  induction steps generalizing s with
  | nil =>
      cases hgood : good s with
      | true =>
          refine Or.inl ⟨[], ?_, List.nil_prefix, hgood, ?_⟩
          · rw [firstGood, if_pos hgood, List.foldl_nil]
          · intro fewer hfewer hne
            exact absurd (List.prefix_nil.mp hfewer) hne
      | false =>
          refine Or.inr ⟨?_, ?_⟩
          · rw [firstGood, hgood, if_neg Bool.false_ne_true]
          · intro taken htaken
            rw [List.prefix_nil.mp htaken, List.foldl_nil, hgood]
  | cons a rest ih =>
      cases hgood : good s with
      | true =>
          refine Or.inl ⟨[], ?_, List.nil_prefix, hgood, ?_⟩
          · rw [firstGood, if_pos hgood, List.foldl_nil]
          · intro fewer hfewer hne
            exact absurd (List.prefix_nil.mp hfewer) hne
      | false =>
          rw [firstGood, hgood, if_neg Bool.false_ne_true]
          rcases ih (step s a) with ⟨taken, hfirst, hprefix, hafter, hshorter⟩ | ⟨hnone, hbad⟩
          · refine Or.inl ⟨a :: taken, hfirst, List.cons_prefix_cons.mpr ⟨rfl, hprefix⟩, hafter, ?_⟩
            intro fewer hfewer hne
            rcases List.prefix_cons_iff.mp hfewer with rfl | ⟨tail, rfl, htail⟩
            · exact hgood
            · exact hshorter tail htail fun h => hne (h ▸ rfl)
          · refine Or.inr ⟨hnone, ?_⟩
            intro taken htaken
            rcases List.prefix_cons_iff.mp htaken with rfl | ⟨tail, rfl, htail⟩
            · exact hgood
            · exact hbad tail htail

/-- Only what is good after a prefix of the steps matters. -/
theorem ShortestGood.congr {after after' : List α → σ} {steps taken : List α}
    (hafter : ∀ taken, taken <+: steps → good (after taken) = good (after' taken))
    (h : ShortestGood good after steps taken) : ShortestGood good after' steps taken where
  taken_prefix := h.taken_prefix
  good_after := by
    rw [← hafter taken h.taken_prefix]
    exact h.good_after
  shorter := by
    intro fewer hfewer hne
    rw [← hafter fewer (hfewer.trans h.taken_prefix)]
    exact h.shorter fewer hfewer hne

/-- Without the steps that change nothing the prefix is still the shortest. -/
theorem ShortestGood.filter {after : List α → σ} {steps taken : List α} {changes : α → Bool}
    (hafter : ∀ taken, after (taken.filter changes) = after taken)
    (h : ShortestGood good after steps taken) :
    ShortestGood good after (steps.filter changes) (taken.filter changes) where
  taken_prefix := h.taken_prefix.filter changes
  good_after := by
    rw [hafter]
    exact h.good_after
  shorter := by
    intro fewer hfewer hne
    obtain ⟨longer, hlonger, rfl⟩ := List.prefix_filter_iff.mp hfewer
    rw [hafter]
    exact h.shorter longer hlonger fun heq => hne (heq ▸ rfl)

end Base
