import GpuWorkerPool.Base.Program

/-!
Programs in an environment. An environment relates the state in which an action is awaited, the
reply and the state in which the reply arrives, so that another program, a device or a person can
stand behind an action. `RunsIn` are the runs of a program, and `Always` is the judgement that the
rules below build up along the program text.
-/

namespace Base

namespace Prog

section Environment

variable {A B : Type} {Rep : A → Type} {RepB : B → Type} {ε α β σ : Type}

inductive RunsIn (env : (a : A) → σ → Rep a → σ → Prop) :
    Prog A Rep ε α → σ → Except ε α → σ → Prop
  | ret (value : α) (s : σ) : RunsIn env (.ret value) s (.ok value) s
  | raise (error : ε) (s : σ) : RunsIn env (.raise error) s (.error error) s
  | await {action : A} {next : Rep action → Prog A Rep ε α} {s t u : σ} {reply : Rep action}
      {res : Except ε α} (here : env action s reply t) (rest : RunsIn env (next reply) t res u) :
      RunsIn env (.await action next) s res u

/-- Every run of the program from `s` ends in `Q`. -/
def Always (env : (a : A) → σ → Rep a → σ → Prop) :
    Prog A Rep ε α → σ → (Except ε α → σ → Prop) → Prop
  | ret value, s, Q => Q (.ok value) s
  | raise error, s, Q => Q (.error error) s
  | await action next, s, Q => ∀ reply t, env action s reply t → Always env (next reply) t Q

variable {env : (a : A) → σ → Rep a → σ → Prop}

theorem Always.of_runsIn {p : Prog A Rep ε α} {s t : σ} {res : Except ε α}
    {Q : Except ε α → σ → Prop} (h : Always env p s Q) (hruns : RunsIn env p s res t) : Q res t := by
  induction hruns with
  | ret value s => exact h
  | raise error s => exact h
  | await here rest ih =>
      apply ih
      exact h _ _ here

/-- A program goes on with what its first part returned. -/
theorem RunsIn.bind {p : Prog A Rep ε α} {f : α → Prog A Rep ε β} {s t u : σ} {value : α}
    {res : Except ε β} (h : RunsIn env p s (.ok value) t) (hrest : RunsIn env (f value) t res u) :
    RunsIn env (p >>= f) s res u := by
  generalize hended : (Except.ok value : Except ε α) = ended at h
  induction h with
  | ret value s =>
      obtain rfl := Except.ok.inj hended
      exact hrest
  | raise error s => cases hended
  | await here rest ih => exact .await here (ih hrest hended)

theorem RunsIn.handle {p : Prog A Rep ε α} {handler : ε → Prog A Rep ε α} {s t : σ} {value : α}
    (h : RunsIn env p s (.ok value) t) : RunsIn env (p.handle handler) s (.ok value) t := by
  generalize hended : (Except.ok value : Except ε α) = ended at h
  induction h with
  | ret value s => exact .ret value s
  | raise error s => cases hended
  | await here rest ih => exact .await here (ih hended)

theorem always_true (p : Prog A Rep ε α) (s : σ) : Always env p s fun _ _ => True := by
  induction p generalizing s with
  | ret value => trivial
  | raise error => trivial
  | await action next ih =>
      intro reply t _
      exact ih reply t

theorem Always.mono {p : Prog A Rep ε α} {s : σ} {Q Q' : Except ε α → σ → Prop}
    (h : Always env p s Q) (himp : ∀ res t, Q res t → Q' res t) : Always env p s Q' := by
  induction p generalizing s with
  | ret value => exact himp _ _ h
  | raise error => exact himp _ _ h
  | await action next ih =>
      intro reply t here
      apply ih
      exact h reply t here

theorem always_bind {p : Prog A Rep ε α} {f : α → Prog A Rep ε β} {s : σ}
    {Q : Except ε β → σ → Prop} :
    Always env (p >>= f) s Q ↔ Always env p s fun res t =>
      match res with
      | .ok value => Always env (f value) t Q
      | .error error => Q (.error error) t := by
  induction p generalizing s with
  | ret value => exact Iff.rfl
  | raise error => exact Iff.rfl
  | await action next ih =>
      exact forall_congr' fun reply => forall_congr' fun t => forall_congr' fun _ => ih reply

theorem always_handle {p : Prog A Rep ε α} {handler : ε → Prog A Rep ε α} {s : σ}
    {Q : Except ε α → σ → Prop} :
    Always env (p.handle handler) s Q ↔ Always env p s fun res t =>
      match res with
      | .ok value => Q (.ok value) t
      | .error error => Always env (handler error) t Q := by
  induction p generalizing s with
  | ret value => exact Iff.rfl
  | raise error => exact Iff.rfl
  | await action next ih =>
      exact forall_congr' fun reply => forall_congr' fun t => forall_congr' fun _ => ih reply

/-- The cleanup runs after either end, and an error of its own replaces the result. -/
theorem Always.ensure {p : Prog A Rep ε α} {cleanup : Prog A Rep ε Unit} {s : σ}
    {Q : Except ε α → σ → Prop}
    (h : Always env p s fun res t =>
      Always env cleanup t fun cleaned u =>
        match cleaned with
        | .ok _ => Q res u
        | .error error => Q (.error error) u) : Always env (p.ensure cleanup) s Q := by
  induction p generalizing s with
  | ret value =>
      have hcleanup : Always env cleanup s _ := h
      apply always_bind.mpr
      apply hcleanup.mono
      intro cleaned u hcleaned
      cases cleaned <;> exact hcleaned
  | raise error =>
      have hcleanup : Always env cleanup s _ := h
      apply always_bind.mpr
      apply hcleanup.mono
      intro cleaned u hcleaned
      cases cleaned <;> exact hcleaned
  | await action next ih =>
      intro reply t here
      apply ih
      exact h reply t here

/-- A part that speaks of its own actions is judged by its own environment, when each of its
actions stands for a program that answers within it. -/
theorem Always.translate {envB : (b : B) → σ → RepB b → σ → Prop}
    {g : (a : A) → Prog B RepB ε (Rep a)}
    (hg : ∀ a s, Always envB (g a) s fun res t => ∃ reply, res = .ok reply ∧ env a s reply t)
    {p : Prog A Rep ε α} {s : σ} {Q : Except ε α → σ → Prop} (h : Always env p s Q) :
    Always envB (p.translate g) s Q := by
  induction p generalizing s with
  | ret value => exact h
  | raise error => exact h
  | await action next ih =>
      apply always_bind.mpr
      apply (hg action s).mono
      intro res t hreply
      obtain ⟨reply, rfl, here⟩ := hreply
      exact ih reply (h reply t here)

end Environment

end Prog

end Base
