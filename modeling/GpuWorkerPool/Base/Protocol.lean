import GpuWorkerPool.Base.History
import Mathlib.Algebra.BigOperators.Group.Finset.Piecewise
import Mathlib.Algebra.Order.BigOperators.Group.Finset
import Mathlib.Tactic.Ring

/-!
Protocols of calls. A protocol moves through stages as a program takes actions and receives
replies; it says in which stages an action may be taken and in which a program may end. A call that
obeys a protocol is at any time in the stage to which the actions it took have led.
-/

namespace Base

variable {σ A : Type} {Rep : A → Type} {ε α β Req Resp S : Type}

/-- The stages of a program, and what it may do in each. -/
structure Protocol (A : Type) (Rep : A → Type) (S : Type) where
  allowed : S → A → Prop
  next : S → (a : A) → Rep a → S

namespace Protocol

variable (P : Protocol A Rep S)

/-- From the stage on, the program takes allowed actions only and ends where `Q` holds of the stage
and the result. -/
def Obeys (Q : Except ε α → S → Prop) : S → Prog A Rep ε α → Prop
  | s, .ret value => Q (.ok value) s
  | s, .raise error => Q (.error error) s
  | s, .await a next => P.allowed s a ∧ ∀ reply, Obeys Q (P.next s a reply) (next reply)

/-- The stage to which a path leads. -/
def stage (exec : (a : A) → σ → σ × Rep a) (s : S) (path : List (A × σ)) : S :=
  path.foldl (fun s step => P.next s step.1 (exec step.1 step.2).2) s

variable {P}

theorem stage_concat (exec : (a : A) → σ → σ × Rep a) (s : S) (path : List (A × σ)) (a : A)
    (w : σ) : P.stage exec s (path ++ [(a, w)]) = P.next (P.stage exec s path) a (exec a w).2 :=
  List.foldl_append ..

theorem Obeys.mono {Q Q' : Except ε α → S → Prop} {s : S} {p : Prog A Rep ε α}
    (h : P.Obeys Q s p) (himp : ∀ res s, Q res s → Q' res s) : P.Obeys Q' s p := by
  induction p generalizing s with
  | ret value => exact himp _ _ h
  | raise error => exact himp _ _ h
  | await a next ih => exact ⟨h.1, fun reply => ih reply (h.2 reply)⟩

theorem obeys_congr {Q Q' : Except ε α → S → Prop} {s : S} {p : Prog A Rep ε α}
    (h : ∀ res s, Q res s ↔ Q' res s) : P.Obeys Q s p ↔ P.Obeys Q' s p :=
  ⟨fun hp => hp.mono fun res s => (h res s).mp, fun hp => hp.mono fun res s => (h res s).mpr⟩

theorem obeys_bind {Q : Except ε β → S → Prop} {s : S} {p : Prog A Rep ε α}
    {f : α → Prog A Rep ε β} :
    P.Obeys Q s (p >>= f) ↔ P.Obeys (fun res s =>
      match res with
      | .ok value => P.Obeys Q s (f value)
      | .error error => Q (.error error) s) s p := by
  induction p generalizing s with
  | ret value => exact Iff.rfl
  | raise error => exact Iff.rfl
  | await a next ih => exact and_congr_right fun _ => forall_congr' fun _ => ih _

theorem obeys_handle {Q : Except ε α → S → Prop} {s : S} {p : Prog A Rep ε α}
    {handler : ε → Prog A Rep ε α} :
    P.Obeys Q s (p.handle handler) ↔ P.Obeys (fun res s =>
      match res with
      | .ok value => Q (.ok value) s
      | .error error => P.Obeys Q s (handler error)) s p := by
  induction p generalizing s with
  | ret value => exact Iff.rfl
  | raise error => exact Iff.rfl
  | await a next ih => exact and_congr_right fun _ => forall_congr' fun _ => ih _

/-- Whatever its result, a guarded program runs its cleanup. -/
theorem obeys_ensure {Q : Except ε α → S → Prop} {s : S} {p : Prog A Rep ε α}
    {cleanup : Prog A Rep ε Unit} :
    P.Obeys Q s (p.ensure cleanup) ↔ P.Obeys (fun res s =>
      P.Obeys (fun out s =>
        match out with
        | .ok _ => Q res s
        | .error error => Q (.error error) s) s cleanup) s p := by
  induction p generalizing s with
  | ret value =>
      show P.Obeys Q s (cleanup >>= fun _ => Prog.ret value) ↔ P.Obeys _ s cleanup
      rw [obeys_bind]
      exact obeys_congr fun out s => by cases out <;> exact Iff.rfl
  | raise error =>
      show P.Obeys Q s (cleanup >>= fun _ => Prog.raise error) ↔ P.Obeys _ s cleanup
      rw [obeys_bind]
      exact obeys_congr fun out s => by cases out <;> exact Iff.rfl
  | await a next ih => exact and_congr_right fun _ => forall_congr' fun _ => ih _

/-- A program whose actions are allowed in a stage and do not leave it. -/
theorem obeys_of_awaits {R : A → Prop} {s : S} (hactions : ∀ a, R a → P.allowed s a)
    (hnext : ∀ a reply, R a → P.next s a reply = s) {p : Prog A Rep ε α} (hp : p.Awaits R) :
    P.Obeys (fun _ s' => s' = s) s p := by
  induction p with
  | ret value => rfl
  | raise error => rfl
  | await a next ih =>
      refine ⟨hactions a hp.1, fun reply => ?_⟩
      rw [hnext a reply hp.1]
      exact ih reply (hp.2 reply)

/-- A program whose actions are allowed in every stage. -/
theorem obeys_of_allowed {R : A → Prop} (hactions : ∀ s a, R a → P.allowed s a)
    {p : Prog A Rep ε α} (hp : p.Awaits R) (s : S) : P.Obeys (fun _ _ => True) s p := by
  induction p generalizing s with
  | ret value => trivial
  | raise error => trivial
  | await a next ih => exact ⟨hactions s a hp.1, fun reply => ih reply (hp.2 reply) _⟩

/-- What is left of a program obeys the protocol from the stage that its path has led to. -/
theorem Obeys.follows {exec : (a : A) → σ → σ × Rep a} {Q : Except ε α → S → Prop} {s : S}
    {p q : Prog A Rep ε α} {path : List (A × σ)} (h : P.Obeys Q s p) (hpath : p.Follows exec path q) :
    P.Obeys Q (P.stage exec s path) q := by
  induction hpath generalizing s with
  | nil p => exact h
  | cons rest ih => exact ih (h.2 _)

section Counting

variable [DecidableEq S] (P) (exec : (a : A) → σ → σ × Rep a) (start target : S)

/-- How many of the first `n` calls are in a stage. -/
def callsIn (history : List (Event σ A)) (n : Nat) : Nat :=
  (List.range n).countP fun i => P.stage exec start (pathOf history i) = target

theorem countP_range_update {p q : Nat → Bool} {n k : Nat} (hk : k < n)
    (hoff : ∀ i, i ≠ k → q i = p i) :
    ((List.range n).countP q : Int) =
      (List.range n).countP p + ((q k).toInt - (p k).toInt) := by
  induction n with
  | zero => exact absurd hk (Nat.not_lt_zero k)
  | succ n ih =>
      rw [List.range_succ, List.countP_append, List.countP_append]
      rcases Nat.lt_succ_iff_lt_or_eq.mp hk with hlt | rfl
      · have hn := hoff n (Nat.ne_of_gt hlt)
        simp only [List.countP_singleton, hn, Nat.cast_add, ih hlt]
        ring
      · have hsame : (List.range k).countP q = (List.range k).countP p :=
          List.countP_congr fun i hi => by rw [hoff i (Nat.ne_of_lt (List.mem_range.mp hi))]
        rw [hsame]
        cases hq : q k <;> cases hp : p k <;> simp [hq, hp]

/-- A call that has just begun is in the first stage. -/
theorem callsIn_begin {history : List (Event σ A)} {n : Nat} (hold : ∀ e ∈ history, e.call < n)
    (hstart : start ≠ target) :
    P.callsIn exec start target history (n + 1) = P.callsIn exec start target history n := by
  have hnone : pathOf history n = [] := by
    refine List.eq_nil_iff_forall_not_mem.mpr fun step hstep => ?_
    exact absurd (hold _ (mem_pathOf.mp hstep)) (Nat.lt_irrefl n)
  rw [callsIn, callsIn, List.range_succ, List.countP_append, List.countP_singleton, hnone]
  simp [stage, hstart]

/-- When a call acts, only its own stage changes. -/
theorem callsIn_concat {history : List (Event σ A)} {n : Nat} {e : Event σ A} (hn : e.call < n) :
    (P.callsIn exec start target (history ++ [e]) n : Int) =
      P.callsIn exec start target history n +
        ((decide (P.next (P.stage exec start (pathOf history e.call)) e.action
            (exec e.action e.world).2 = target)).toInt -
          (decide (P.stage exec start (pathOf history e.call) = target)).toInt) := by
  rw [callsIn, callsIn, countP_range_update hn]
  · rw [pathOf_concat, if_pos rfl, stage_concat]
  · intro i hi
    rw [pathOf_concat, if_neg (Ne.symm hi), List.append_nil]

end Counting

/-- A program earns and spends; it spends no more than it has earned. -/
def credit (earns : (a : A) → Rep a → Bool) (spends : A → Bool) : Protocol A Rep Nat where
  allowed s a := spends a = true → 0 < s
  next s a reply := s - (if spends a then 1 else 0) + if earns a reply then 1 else 0

section Credit

variable {exec : (a : A) → σ → σ × Rep a} {earns : (a : A) → Rep a → Bool} {spends : A → Bool}

/-- What a path has spent and what it has left is what it started with and what it earned. -/
theorem Obeys.credit_spent {Q : Except ε α → Nat → Prop} {s : Nat} {p q : Prog A Rep ε α}
    {path : List (A × σ)} (h : (credit earns spends).Obeys Q s p) (hpath : p.Follows exec path q) :
    path.countP (fun step => spends step.1) + (credit earns spends).stage exec s path =
      s + path.countP fun step => earns step.1 (exec step.1 step.2).2 := by
  induction hpath generalizing s with
  | nil p => exact Nat.add_comm _ _
  | @cons a next w path q rest ih =>
      have hrest := ih (h.2 (exec a w).2)
      have hallowed : spends a = true → 0 < s := h.1
      have hbalance : (credit earns spends).next s a (exec a w).2 + (if spends a then 1 else 0) =
          s + if earns a (exec a w).2 then 1 else 0 := by
        show s - _ + _ + _ = _
        by_cases hspends : spends a = true
        · have hpositive := hallowed hspends
          rw [if_pos hspends]
          omega
        · rw [if_neg hspends, Nat.sub_zero, Nat.add_zero]
      have hstage : (credit earns spends).stage exec s ((a, w) :: path) =
          (credit earns spends).stage exec ((credit earns spends).next s a (exec a w).2) path := rfl
      rw [List.countP_cons, List.countP_cons, hstage]
      dsimp only
      omega

end Credit

/-- A count over a history is the sum of the counts over the paths of its calls. -/
theorem sum_countP_pathOf (p : A × σ → Bool) {history : List (Event σ A)} {n : Nat}
    (hn : ∀ e ∈ history, e.call < n) :
    (Finset.range n).sum (fun i => (pathOf history i).countP p) =
      history.countP fun e => p (e.action, e.world) := by
  induction history with
  | nil => exact Finset.sum_const_zero
  | cons e rest ih =>
      have hrest := ih fun e he => hn e (List.mem_cons_of_mem _ he)
      have hcall : e.call ∈ Finset.range n := Finset.mem_range.mpr (hn e List.mem_cons_self)
      have hpath : ∀ i, (pathOf (e :: rest) i).countP p = (pathOf rest i).countP p +
          if e.call = i then (if p (e.action, e.world) = true then 1 else 0) else 0 := by
        intro i
        rw [pathOf_cons]
        split
        · exact List.countP_cons
        · rfl
      simp only [hpath, Finset.sum_add_distrib, hrest, Finset.sum_ite_eq, hcall, if_true,
        List.countP_cons]

end Protocol

/-- The program of a call obeys the protocol from the stage that the call is in. -/
theorem Recorded.obeys {P : Protocol A Rep S} {srv : Server σ A Rep ε Req Resp}
    {reg : Regime σ A Rep ε Req Resp} {s t : Sys σ A Rep ε Req Resp} {history : List (Event σ A)}
    (h : Recorded srv reg s history t) {i : Nat} (hi : s.calls.length ≤ i)
    {c : Call A Rep ε Req Resp} (hc : t.calls[i]? = some c) {Q : Except ε Resp → S → Prop}
    {start : S} (hobeys : P.Obeys Q start (srv.program c.request)) :
    P.Obeys Q (P.stage srv.exec start (pathOf history i)) c.prog :=
  hobeys.follows (h.follows_new hi hc)

/-- The calls that begin in a run spend no more than is earned in it. -/
theorem Recorded.spent_le_earned {srv : Server σ A Rep ε Req Resp}
    {reg : Regime σ A Rep ε Req Resp} {s t : Sys σ A Rep ε Req Resp} {history : List (Event σ A)}
    {earns : (a : A) → Rep a → Bool} {spends : A → Bool} {Q : Except ε Resp → Nat → Prop}
    (h : Recorded srv reg s history t)
    (hobeys : ∀ q, (Protocol.credit earns spends).Obeys Q 0 (srv.program q)) :
    history.countP (fun e => decide (s.calls.length ≤ e.call) && spends e.action) ≤
      history.countP fun e => earns e.action (srv.exec e.action e.world).2 := by
  let later := history.filter fun e => s.calls.length ≤ e.call
  have hsublist : later.Sublist history := List.filter_sublist
  have hlater : ∀ e ∈ later, e.call < t.calls.length :=
    fun e he => h.call_lt e (hsublist.subset he)
  have hpath : ∀ i ∈ Finset.range t.calls.length,
      (pathOf later i).countP (fun step => spends step.1) ≤
        (pathOf later i).countP fun step => earns step.1 (srv.exec step.1 step.2).2 := by
    intro i hi
    by_cases hnew : s.calls.length ≤ i
    · have hsame : pathOf later i = pathOf history i := by
        rw [pathOf, pathOf, List.filter_filter]
        refine congrArg _ (List.filter_congr fun e _ => ?_)
        by_cases hcall : e.call = i <;> simp [hcall, hnew]
      have hbalance := (hobeys _).credit_spent
        (h.follows_new hnew (List.getElem?_eq_getElem (Finset.mem_range.mp hi)))
      rw [hsame]
      omega
    · have hnone : pathOf later i = [] := by
        refine List.eq_nil_iff_forall_not_mem.mpr fun step hstep => hnew ?_
        exact of_decide_eq_true (List.mem_filter.mp (mem_pathOf.mp hstep)).2
      rw [hnone]
      exact le_refl _
  calc
    _ = later.countP fun e => spends e.action := by
        rw [List.countP_filter]
        exact List.countP_congr fun e _ => by rw [Bool.and_comm]
    _ = (Finset.range t.calls.length).sum fun i =>
          (pathOf later i).countP fun step => spends step.1 :=
        (Protocol.sum_countP_pathOf (fun step => spends step.1) hlater).symm
    _ ≤ (Finset.range t.calls.length).sum fun i =>
          (pathOf later i).countP fun step => earns step.1 (srv.exec step.1 step.2).2 :=
        Finset.sum_le_sum hpath
    _ = later.countP fun e => earns e.action (srv.exec e.action e.world).2 :=
        Protocol.sum_countP_pathOf (fun step => earns step.1 (srv.exec step.1 step.2).2) hlater
    _ ≤ _ := hsublist.countP_le

end Base
