import Mathlib.Data.List.Basic

/-!
Two automata that are given the same operations. Each answers every operation from its own state,
and a client sees the answers only. Where related states answer alike exactly under a condition on
the state and the operation, and stay related under it, the answers of a whole run are alike exactly
when every step of the run meets the condition.
-/

namespace Base

/-- An automaton that answers operations. -/
structure Automaton (Op : Type) (Reply : Op → Type) where
  State : Type
  step : State → (op : Op) → State × Reply op

namespace Automaton

variable {Op : Type} {Reply Reply' : Op → Type}

/-- The state after a run. -/
def after (M : Automaton Op Reply) : M.State → List Op → M.State
  | s, [] => s
  | s, op :: run => M.after (M.step s op).1 run

/-- The condition holds of every step of the run. -/
def EachStep (M : Automaton Op Reply) (cond : M.State → Op → Prop) : M.State → List Op → Prop
  | _, [] => True
  | s, op :: run => cond s op ∧ M.EachStep cond (M.step s op).1 run

/-- Every operation of the run is answered alike. -/
def AnswersAlike (M : Automaton Op Reply) (N : Automaton Op Reply')
    (alike : ∀ op, Reply op → Reply' op → Prop) : M.State → N.State → List Op → Prop
  | _, _, [] => True
  | s, t, op :: run =>
      alike op (M.step s op).2 (N.step t op).2 ∧
        AnswersAlike M N alike (M.step s op).1 (N.step t op).1 run

theorem eachStep_of_forall {M : Automaton Op Reply} {cond : M.State → Op → Prop} {run : List Op}
    (h : ∀ s, ∀ op ∈ run, cond s op) (s : M.State) : M.EachStep cond s run := by
  induction run generalizing s with
  | nil => exact trivial
  | cons op run ih =>
      exact ⟨h s op List.mem_cons_self, ih (fun s op hop => h s op (List.mem_cons_of_mem _ hop)) _⟩

variable {M : Automaton Op Reply} {N : Automaton Op Reply'}
  {alike : ∀ op, Reply op → Reply' op → Prop} {related : M.State → N.State → Prop}
  {cond : M.State → Op → Prop} {run : List Op}

theorem related_after (hstep : ∀ s t, ∀ op ∈ run, related s t → cond s op →
      related (M.step s op).1 (N.step t op).1)
    {s : M.State} {t : N.State} (hrelated : related s t) (hcond : M.EachStep cond s run) :
    related (M.after s run) (N.after t run) := by
  induction run generalizing s t with
  | nil => exact hrelated
  | cons op run ih =>
      apply ih (fun s t op hop => hstep s t op (List.mem_cons_of_mem _ hop))
      · exact hstep s t op List.mem_cons_self hrelated hcond.1
      · exact hcond.2

theorem answersAlike_iff (halike : ∀ s t, ∀ op ∈ run, related s t →
      (alike op (M.step s op).2 (N.step t op).2 ↔ cond s op))
    (hstep : ∀ s t, ∀ op ∈ run, related s t → cond s op →
      related (M.step s op).1 (N.step t op).1)
    {s : M.State} {t : N.State} (hrelated : related s t) :
    AnswersAlike M N alike s t run ↔ M.EachStep cond s run := by
  induction run generalizing s t with
  | nil => exact Iff.rfl
  | cons op run ih =>
      rw [AnswersAlike, EachStep, halike s t op List.mem_cons_self hrelated]
      apply and_congr_right
      intro hcond
      apply ih (fun s t op hop => halike s t op (List.mem_cons_of_mem _ hop))
        (fun s t op hop => hstep s t op (List.mem_cons_of_mem _ hop))
      exact hstep s t op List.mem_cons_self hrelated hcond

end Automaton

end Base
