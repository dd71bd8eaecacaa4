import Mathlib.Logic.Relation

/-!
Programs over awaited actions. A program is a finite tree: it returns, raises, or awaits an action
and continues with the reply. Between two awaits nothing else runs; at an await the shared state
may have been changed by others. `run` executes a program alone, `Runs` executes it under
interference, and `Sat` is the rely and guarantee judgement that the rules below build up along
the program text.
-/

namespace Base

/-- A program that awaits actions of type `A`, where `Rep a` is the type of the reply to `a`. -/
inductive Prog (A : Type) (Rep : A → Type) (ε α : Type) : Type where
  | ret (value : α)
  | raise (error : ε)
  | await (action : A) (next : Rep action → Prog A Rep ε α)

namespace Prog

variable {A : Type} {Rep : A → Type} {ε α β : Type}

def bind : Prog A Rep ε α → (α → Prog A Rep ε β) → Prog A Rep ε β
  | ret value, f => f value
  | raise error, _ => raise error
  | await action next, f => await action fun reply => (next reply).bind f

/-- `try p except error: handler error`. -/
def handle : Prog A Rep ε α → (ε → Prog A Rep ε α) → Prog A Rep ε α
  | ret value, _ => ret value
  | raise error, handler => handler error
  | await action next, handler => await action fun reply => (next reply).handle handler

/-- `try p finally cleanup`. -/
def ensure : Prog A Rep ε α → Prog A Rep ε Unit → Prog A Rep ε α
  | ret value, cleanup => cleanup.bind fun _ => ret value
  | raise error, cleanup => cleanup.bind fun _ => raise error
  | await action next, cleanup => await action fun reply => (next reply).ensure cleanup

/-- Replaces each await by a program that produces its reply. -/
def translate {B : Type} {RepB : B → Type} (g : (a : A) → Prog B RepB ε (Rep a)) :
    Prog A Rep ε α → Prog B RepB ε α
  | ret value => ret value
  | raise error => raise error
  | await action next => (g action).bind fun reply => (next reply).translate g

instance : Monad (Prog A Rep ε) where
  pure := ret
  bind := bind

instance : MonadExceptOf ε (Prog A Rep ε) where
  throw := raise
  tryCatch := handle

/-- Awaits one action and returns its reply. -/
def perform (action : A) : Prog A Rep ε (Rep action) := await action ret

/-- Raises the error of a failed reply. -/
def ofExcept : Except ε α → Prog A Rep ε α
  | .ok value => ret value
  | .error error => raise error

@[simp] theorem pure_eq (value : α) : (pure value : Prog A Rep ε α) = ret value := rfl

@[simp] theorem throw_eq (error : ε) : (throw error : Prog A Rep ε α) = raise error := rfl

@[simp] theorem ret_bind (value : α) (f : α → Prog A Rep ε β) :
    (ret value >>= f : Prog A Rep ε β) = f value := rfl

@[simp] theorem raise_bind (error : ε) (f : α → Prog A Rep ε β) :
    (raise error >>= f : Prog A Rep ε β) = raise error := rfl

@[simp] theorem await_bind (action : A) (next : Rep action → Prog A Rep ε α)
    (f : α → Prog A Rep ε β) :
    (await action next >>= f : Prog A Rep ε β) = await action fun reply => next reply >>= f := rfl

@[simp] theorem perform_bind (action : A) (f : Rep action → Prog A Rep ε β) :
    (perform action >>= f : Prog A Rep ε β) = await action f := rfl

/-- Every action that the program can await satisfies `P`, whatever the replies. -/
def Awaits (P : A → Prop) : Prog A Rep ε α → Prop
  | ret _ => True
  | raise _ => True
  | await action next => P action ∧ ∀ reply, (next reply).Awaits P

/-- Every result that the program can end with satisfies `R`, whatever the replies. -/
def Ends (R : Except ε α → Prop) : Prog A Rep ε α → Prop
  | ret value => R (.ok value)
  | raise error => R (.error error)
  | await _ next => ∀ reply, (next reply).Ends R

section Footprint

variable {P P' : A → Prop}

theorem Awaits.bind {p : Prog A Rep ε α} {f : α → Prog A Rep ε β} (hp : p.Awaits P)
    (hf : ∀ value, (f value).Awaits P) : (p >>= f).Awaits P := by
  induction p with
  | ret value => exact hf value
  | raise error => trivial
  | await action next ih => exact ⟨hp.1, fun reply => ih reply (hp.2 reply)⟩

theorem Awaits.handle {p : Prog A Rep ε α} {handler : ε → Prog A Rep ε α} (hp : p.Awaits P)
    (hhandler : ∀ error, (handler error).Awaits P) : (p.handle handler).Awaits P := by
  induction p with
  | ret value => trivial
  | raise error => exact hhandler error
  | await action next ih => exact ⟨hp.1, fun reply => ih reply (hp.2 reply)⟩

theorem Awaits.ensure {p : Prog A Rep ε α} {cleanup : Prog A Rep ε Unit} (hp : p.Awaits P)
    (hcleanup : cleanup.Awaits P) : (p.ensure cleanup).Awaits P := by
  induction p with
  | ret value => exact .bind hcleanup fun _ => trivial
  | raise error => exact .bind hcleanup fun _ => trivial
  | await action next ih => exact ⟨hp.1, fun reply => ih reply (hp.2 reply)⟩

theorem Awaits.translate {B : Type} {RepB : B → Type} {Q : B → Prop}
    {g : (a : A) → Prog B RepB ε (Rep a)} (hg : ∀ a, P a → (g a).Awaits Q) {p : Prog A Rep ε α}
    (hp : p.Awaits P) : (p.translate g).Awaits Q := by
  induction p with
  | ret value => trivial
  | raise error => trivial
  | await action next ih => exact .bind (hg action hp.1) fun reply => ih reply (hp.2 reply)

theorem Awaits.mono (himp : ∀ action, P action → P' action) {p : Prog A Rep ε α}
    (hp : p.Awaits P) : p.Awaits P' := by
  induction p with
  | ret value => trivial
  | raise error => trivial
  | await action next ih => exact ⟨himp _ hp.1, fun reply => ih reply (hp.2 reply)⟩

theorem ends_bind {R : Except ε β → Prop} (herror : ∀ error, R (.error error))
    (p : Prog A Rep ε α) {f : α → Prog A Rep ε β} (hf : ∀ value, (f value).Ends R) :
    (p >>= f).Ends R := by
  induction p with
  | ret value => exact hf value
  | raise error => exact herror error
  | await action next ih => exact fun reply => ih reply

theorem ends_of_forall {R : Except ε α → Prop} (hR : ∀ res, R res) (p : Prog A Rep ε α) :
    p.Ends R := by
  induction p with
  | ret value => exact hR _
  | raise error => exact hR _
  | await action next ih => exact ih

theorem awaits_true (p : Prog A Rep ε α) : p.Awaits fun _ => True := by
  induction p with
  | ret value => trivial
  | raise error => trivial
  | await action next ih => exact ⟨trivial, ih⟩

@[simp] theorem awaits_ret (value : α) : (ret value : Prog A Rep ε α).Awaits P := trivial

@[simp] theorem awaits_raise (error : ε) : (raise error : Prog A Rep ε α).Awaits P := trivial

@[simp] theorem awaits_ofExcept (reply : Except ε α) :
    (ofExcept reply : Prog A Rep ε α).Awaits P := by
  cases reply <;> trivial

end Footprint

section Execution

variable {σ : Type} (exec : (a : A) → σ → σ × Rep a)

/-- Runs a program with nobody else at work. -/
def run : Prog A Rep ε α → σ → σ × Except ε α
  | ret value, s => (s, .ok value)
  | raise error, s => (s, .error error)
  | await action next, s => run (next (exec action s).2) (exec action s).1

/-- Runs a program whose awaits are each preceded by a step of the others. -/
inductive Runs (rely : σ → σ → Prop) : Prog A Rep ε α → σ → Except ε α → σ → Prop
  | ret (value : α) (s : σ) : Runs rely (.ret value) s (.ok value) s
  | raise (error : ε) (s : σ) : Runs rely (.raise error) s (.error error) s
  | await {action : A} {next : Rep action → Prog A Rep ε α} {s t u : σ} {res : Except ε α}
      (others : rely s t)
      (rest : Runs rely (next (exec action t).2) (exec action t).1 res u) :
      Runs rely (.await action next) s res u

theorem run_bind (p : Prog A Rep ε α) (f : α → Prog A Rep ε β) (s : σ) :
    run exec (p >>= f) s =
      match run exec p s with
      | (t, .ok value) => run exec (f value) t
      | (t, .error error) => (t, .error error) := by
  induction p generalizing s with
  | ret value => rfl
  | raise error => rfl
  | await action next ih => exact ih (exec action s).2 (exec action s).1

/-- A handler of a program that returns has nothing to do. -/
theorem run_handle_of_ok {p : Prog A Rep ε α} {handler : ε → Prog A Rep ε α} {s : σ} {value : α}
    (h : (run exec p s).2 = .ok value) : (run exec (p.handle handler) s).2 = .ok value := by
  induction p generalizing s with
  | ret value => exact h
  | raise error => exact absurd h (by simp [run])
  | await action next ih => exact ih (exec action s).2 h

@[simp] theorem run_ofExcept (reply : Except ε α) (s : σ) :
    run exec (ofExcept reply : Prog A Rep ε α) s = (s, reply) := by
  cases reply <;> rfl

/-- What the actions of a program do to the state one by one, an undisturbed run does to it. -/
theorem run_of_awaits {P : A → Prop} {R : σ → σ → Prop} (hrefl : ∀ s, R s s)
    (htrans : ∀ {s t u}, R s t → R t u → R s u) (hactions : ∀ a s, P a → R s (exec a s).1)
    {p : Prog A Rep ε α} (hp : p.Awaits P) (s : σ) : R s (run exec p s).1 := by
  induction p generalizing s with
  | ret value => exact hrefl s
  | raise error => exact hrefl s
  | await action next ih => exact htrans (hactions action s hp.1) (ih _ (hp.2 _) _)

theorem run_of_ends {R : Except ε α → Prop} {p : Prog A Rep ε α} (hp : p.Ends R) (s : σ) :
    R (run exec p s).2 := by
  induction p generalizing s with
  | ret value => exact hp
  | raise error => exact hp
  | await action next ih => exact ih _ (hp _) _

/-- An undisturbed run awaits its actions in states that satisfy `P`. -/
def Passes (P : σ → Prop) : Prog A Rep ε α → σ → Prop
  | ret _, _ => True
  | raise _, _ => True
  | await action next, s => P s ∧ Passes P (next (exec action s).2) (exec action s).1

instance decidablePasses {P : σ → Prop} [DecidablePred P] :
    (p : Prog A Rep ε α) → (s : σ) → Decidable (Passes exec P p s)
  | ret _, _ => .isTrue trivial
  | raise _, _ => .isTrue trivial
  | await action next, s =>
      have : Decidable (Passes exec P (next (exec action s).2) (exec action s).1) :=
        decidablePasses _ _
      inferInstanceAs (Decidable (_ ∧ _))

/-- An undisturbed run is one of the runs under interference, where the others may stand still. -/
theorem Runs.of_run {rely : σ → σ → Prop} {P : σ → Prop} (hrefl : ∀ s, P s → rely s s)
    {p : Prog A Rep ε α} {s : σ} (hpasses : Passes exec P p s) :
    Runs exec rely p s (run exec p s).2 (run exec p s).1 := by
  induction p generalizing s with
  | ret value => exact .ret value s
  | raise error => exact .raise error s
  | await action next ih => exact .await (hrefl s hpasses.1) (ih _ hpasses.2)

end Execution

/-- What a program may assume and must keep. `inv` holds whenever it is resumed, `rely` bounds what
the others did since, `allow` restricts the actions a run may take in a state, and every action it
takes keeps `inv` and stays inside `guar`. -/
structure Contract (A σ : Type) where
  inv : σ → Prop
  allow : A → σ → Prop
  rely : σ → σ → Prop
  guar : σ → σ → Prop

section Judgement

variable {σ : Type} (exec : (a : A) → σ → σ × Rep a) (K : Contract A σ)

/-- From `s`, under interference within `K.rely`, every action keeps the contract and the program
ends in `Q`. -/
def Sat : Prog A Rep ε α → σ → (Except ε α → σ → Prop) → Prop
  | ret value, s, Q => Q (.ok value) s
  | raise error, s, Q => Q (.error error) s
  | await action next, s, Q => ∀ t, K.rely s t → K.inv t → K.allow action t →
      K.inv (exec action t).1 ∧ K.guar t (exec action t).1 ∧
        Sat (next (exec action t).2) (exec action t).1 Q

variable {exec K}

@[simp] theorem sat_ret {value : α} {s : σ} {Q : Except ε α → σ → Prop} :
    Sat exec K (ret value : Prog A Rep ε α) s Q ↔ Q (.ok value) s := Iff.rfl

@[simp] theorem sat_raise {error : ε} {s : σ} {Q : Except ε α → σ → Prop} :
    Sat exec K (raise error : Prog A Rep ε α) s Q ↔ Q (.error error) s := Iff.rfl

theorem Sat.mono {p : Prog A Rep ε α} {s : σ} {Q Q' : Except ε α → σ → Prop}
    (h : Sat exec K p s Q) (himp : ∀ res t, Q res t → Q' res t) : Sat exec K p s Q' := by
  induction p generalizing s with
  | ret value => exact himp _ _ h
  | raise error => exact himp _ _ h
  | await action next ih =>
      intro t hrely hinv hallow
      obtain ⟨hinv', hguar, hnext⟩ := h t hrely hinv hallow
      exact ⟨hinv', hguar, ih _ hnext⟩

theorem Sat.ends {p : Prog A Rep ε α} {s : σ} {Q : Except ε α → σ → Prop}
    {R : Except ε α → Prop} (h : Sat exec K p s Q) (hR : p.Ends R) :
    Sat exec K p s fun res t => Q res t ∧ R res := by
  induction p generalizing s with
  | ret value => exact ⟨h, hR⟩
  | raise error => exact ⟨h, hR⟩
  | await action next ih =>
      intro t hrely hinv hallow
      obtain ⟨hinv', hguar, hnext⟩ := h t hrely hinv hallow
      exact ⟨hinv', hguar, ih _ hnext (hR _)⟩

/-- What neither the others nor the program itself can destroy still holds at the end. -/
theorem Sat.keeps {p : Prog A Rep ε α} {s : σ} {Q : Except ε α → σ → Prop} {P : σ → Prop}
    (h : Sat exec K p s Q) (hrely : ∀ s t, P s → K.rely s t → P t)
    (hguar : ∀ s t, P s → K.guar s t → P t) (hs : P s) :
    Sat exec K p s fun res t => Q res t ∧ P t := by
  induction p generalizing s with
  | ret value => exact ⟨h, hs⟩
  | raise error => exact ⟨h, hs⟩
  | await action next ih =>
      intro t hst hinv hallow
      obtain ⟨hinv', hstep, hnext⟩ := h t hst hinv hallow
      exact ⟨hinv', hstep, ih _ hnext (hguar _ _ (hrely _ _ hs hst) hstep)⟩

/-- Postconditions of a sequence: the first part hands its value to the second, and its error
through. -/
theorem sat_bind {p : Prog A Rep ε α} {f : α → Prog A Rep ε β} {s : σ}
    {Q : Except ε β → σ → Prop} :
    Sat exec K (p >>= f) s Q ↔ Sat exec K p s fun res t =>
      match res with
      | .ok value => Sat exec K (f value) t Q
      | .error error => Q (.error error) t := by
  induction p generalizing s with
  | ret value => exact Iff.rfl
  | raise error => exact Iff.rfl
  | await action next ih =>
      exact forall_congr' fun t => forall_congr' fun _ => forall_congr' fun _ =>
        forall_congr' fun _ => and_congr_right fun _ => and_congr_right fun _ => ih _

theorem sat_handle {p : Prog A Rep ε α} {handler : ε → Prog A Rep ε α} {s : σ}
    {Q : Except ε α → σ → Prop} :
    Sat exec K (p.handle handler) s Q ↔ Sat exec K p s fun res t =>
      match res with
      | .ok value => Q (.ok value) t
      | .error error => Sat exec K (handler error) t Q := by
  induction p generalizing s with
  | ret value => exact Iff.rfl
  | raise error => exact Iff.rfl
  | await action next ih =>
      exact forall_congr' fun t => forall_congr' fun _ => forall_congr' fun _ =>
        forall_congr' fun _ => and_congr_right fun _ => and_congr_right fun _ => ih _

/-- What is judged of a program holds of each of its runs under the same interference. -/
theorem Sat.of_runs {rely : σ → σ → Prop} {p : Prog A Rep ε α} {s u : σ} {res : Except ε α}
    {Q : Except ε α → σ → Prop} (hruns : Runs exec rely p s res u) (hinv : K.inv s)
    (hadmits : ∀ a s t, K.inv s → rely s t → K.rely s t ∧ K.inv t ∧ K.allow a t)
    (h : Sat exec K p s Q) : Q res u ∧ K.inv u := by
  induction hruns with
  | ret value s => exact ⟨h, hinv⟩
  | raise error s => exact ⟨h, hinv⟩
  | await others rest ih =>
      obtain ⟨hrely, hinv', hallow⟩ := hadmits _ _ _ hinv others
      obtain ⟨hinv'', -, hnext⟩ := h _ hrely hinv' hallow
      exact ih hinv'' hnext

/-- An action that leaves the state alone: its reply belongs to a state the others led to. -/
theorem sat_read {action : A} {next : Rep action → Prog A Rep ε α} {s : σ}
    {Q : Except ε α → σ → Prop} (hread : ∀ t, (exec action t).1 = t)
    (hguar : ∀ t, K.inv t → K.guar t t)
    (hnext : ∀ t, K.rely s t → K.inv t → Sat exec K (next (exec action t).2) t Q) :
    Sat exec K (.await action next) s Q := by
  intro t hrely hinv _
  rw [hread]
  exact ⟨hinv, hguar t hinv, hnext t hrely hinv⟩

/-- A program that awaits nothing ends where it would end alone. -/
theorem sat_of_still {p : Prog A Rep ε α} (hp : p.Awaits fun _ => False) {s : σ}
    {Q : Except ε α → σ → Prop} (h : Q (run exec p s).2 s) : Sat exec K p s Q := by
  cases p with
  | ret value => exact h
  | raise error => exact h
  | await action next => exact hp.1.elim

/-- When the actions that a program may await keep the contract, so does the program. -/
theorem sat_of_awaits {P : A → Prop}
    (hactions : ∀ a s, P a → K.inv s → K.allow a s →
      K.inv (exec a s).1 ∧ K.guar s (exec a s).1)
    {p : Prog A Rep ε α} (hp : p.Awaits P) (s : σ) : Sat exec K p s fun _ _ => True := by
  induction p generalizing s with
  | ret value => trivial
  | raise error => trivial
  | await action next ih =>
      intro t _ hinv hallow
      obtain ⟨hinv', hguar⟩ := hactions action t hp.1 hinv hallow
      exact ⟨hinv', hguar, ih _ (hp.2 _) _⟩

end Judgement

end Prog

end Base
