import Mathlib.Algebra.Order.Field.Basic
import Mathlib.Tactic.Linarith
import Mathlib.Tactic.Ring

/-!
Token buckets over an ordered field. A bucket holds tokens up to a limit and refills at a constant
rate; who reads it adds what has come in since the last reading. Reading early or late makes no
difference, and what was spent in any stretch of time is bounded by the limit and what came in.
-/

namespace Base

variable {K : Type} [Field K] [LinearOrder K]

/-- The tokens of a bucket after some time. -/
def refill (limit rate tokens elapsed : K) : K := min limit (tokens + elapsed * rate)

section Refill

variable {limit rate tokens elapsed : K}

theorem refill_le_limit : refill limit rate tokens elapsed ≤ limit := min_le_left _ _

theorem refill_le_add : refill limit rate tokens elapsed ≤ tokens + elapsed * rate := min_le_right _ _

theorem refill_zero (h : tokens ≤ limit) : refill limit rate tokens 0 = tokens := by
  rw [refill, zero_mul, add_zero, min_eq_right h]

theorem refill_eq_limit (h : limit ≤ tokens + elapsed * rate) :
    refill limit rate tokens elapsed = limit :=
  min_eq_left h

variable [IsStrictOrderedRing K]

/-- A full bucket stays full. -/
theorem refill_limit (hrate : 0 ≤ rate) (helapsed : 0 ≤ elapsed) :
    refill limit rate limit elapsed = limit :=
  refill_eq_limit (le_add_of_nonneg_right (mul_nonneg helapsed hrate))

theorem refill_nonneg (hlimit : 0 ≤ limit) (hrate : 0 ≤ rate) (htokens : 0 ≤ tokens)
    (helapsed : 0 ≤ elapsed) : 0 ≤ refill limit rate tokens elapsed :=
  le_min hlimit (add_nonneg htokens (mul_nonneg helapsed hrate))

/-- A reading in between changes nothing. -/
theorem refill_refill (hrate : 0 ≤ rate) {later : K} (hlater : 0 ≤ later) :
    refill limit rate (refill limit rate tokens elapsed) later =
      refill limit rate tokens (elapsed + later) := by
  have hmore : 0 ≤ later * rate := mul_nonneg hlater hrate
  rw [refill, refill, refill, ← min_add_add_right, ← min_assoc,
    min_eq_left (le_add_of_nonneg_right hmore), add_mul, add_assoc]

end Refill

/-- What was spent since an instant and what is left are within the limit and what came in. -/
def WithinBudget (limit rate : K) (spent : Nat) (level elapsed : K) : Prop :=
  spent + level ≤ limit + elapsed * rate

section Budget

variable {limit rate level elapsed : K} {spent : Nat}

theorem WithinBudget.start (h : level ≤ limit) : WithinBudget limit rate 0 level 0 := by
  simpa [WithinBudget] using h

variable [IsStrictOrderedRing K]

theorem WithinBudget.elapse (h : WithinBudget limit rate spent level elapsed) (later : K) :
    WithinBudget limit rate spent (refill limit rate level later) (elapsed + later) := by
  have hrefill : refill limit rate level later ≤ level + later * rate := refill_le_add
  unfold WithinBudget at h ⊢
  linarith [add_mul elapsed later rate]

theorem WithinBudget.spend (h : WithinBudget limit rate spent level elapsed) :
    WithinBudget limit rate (spent + 1) (level - 1) elapsed := by
  unfold WithinBudget at h ⊢
  push_cast
  linarith

/-- Tokens may be lost. -/
theorem WithinBudget.drain (h : WithinBudget limit rate spent level elapsed) {lower : K}
    (hlower : lower ≤ level) : WithinBudget limit rate spent lower elapsed := by
  unfold WithinBudget at h ⊢
  linarith

/-- No more is spent than the limit and what came in. -/
theorem WithinBudget.spent_le (h : WithinBudget limit rate spent level elapsed)
    (hlevel : 0 ≤ level) : (spent : K) ≤ limit + elapsed * rate := by
  unfold WithinBudget at h
  linarith

end Budget

end Base
