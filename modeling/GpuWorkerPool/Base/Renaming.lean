import GpuWorkerPool.Base.Schedule
import Mathlib.Data.List.Forall2

/-!
Renamings. A renaming of a server replaces what its actions, replies, requests and responses carry
by other names, so that the shared world runs the same under the new names as under the old ones.
Two runs by the same schedule, one of them renamed, then answer every call with the same response
up to the renaming, and with the same error.
-/

namespace Base

variable {σ A : Type} {Rep : A → Type} {ε α β γ Req Resp : Type}

/-- New names in actions and in their replies. -/
structure Renaming (A : Type) (Rep : A → Type) where
  action : A → A
  reply : (a : A) → Rep a → Rep (action a)

namespace Prog

variable (N : Renaming A Rep)

/-- The second program is the first one under the new names, and `f` renames its value. -/
def Renames (f : α → β) : Prog A Rep ε α → Prog A Rep ε β → Prop
  | ret value, q => q = ret (f value)
  | raise error, q => q = raise error
  | await a next, q => ∃ next' : Rep (N.action a) → Prog A Rep ε β,
      q = await (N.action a) next' ∧ ∀ reply, (next reply).Renames f (next' (N.reply a reply))

variable {N}

theorem Renames.bind {f : α → β} {g : γ → δ} {p : Prog A Rep ε α} {q : Prog A Rep ε β}
    {k : α → Prog A Rep ε γ} {l : β → Prog A Rep ε δ} (hp : p.Renames N f q)
    (hk : ∀ value, (k value).Renames N g (l (f value))) : (p >>= k).Renames N g (q >>= l) := by
  induction p generalizing q with
  | ret value =>
      obtain rfl : q = ret (f value) := hp
      exact hk value
  | raise error =>
      obtain rfl : q = raise error := hp
      rfl
  | await a next ih =>
      obtain ⟨next', rfl, hnext⟩ := hp
      exact ⟨fun reply => next' reply >>= l, rfl, fun reply => ih reply (hnext reply)⟩

theorem Renames.handle {f : α → β} {p : Prog A Rep ε α} {q : Prog A Rep ε β}
    {handler : ε → Prog A Rep ε α} {handler' : ε → Prog A Rep ε β} (hp : p.Renames N f q)
    (hhandler : ∀ error, (handler error).Renames N f (handler' error)) :
    (p.handle handler).Renames N f (q.handle handler') := by
  induction p generalizing q with
  | ret value =>
      obtain rfl : q = ret (f value) := hp
      rfl
  | raise error =>
      obtain rfl : q = raise error := hp
      exact hhandler error
  | await a next ih =>
      obtain ⟨next', rfl, hnext⟩ := hp
      exact ⟨fun reply => (next' reply).handle handler', rfl, fun reply => ih reply (hnext reply)⟩

theorem Renames.ite {c : Prop} [Decidable c] {f : α → β} {p p' : Prog A Rep ε α}
    {q q' : Prog A Rep ε β} (hp : p.Renames N f q) (hp' : p'.Renames N f q') :
    (if c then p else p').Renames N f (if c then q else q') := by
  by_cases hc : c
  · rwa [if_pos hc, if_pos hc]
  · rwa [if_neg hc, if_neg hc]

theorem await_cast {a b : A} (h : b = a) (next : Rep a → Prog A Rep ε α) :
    await a next = await b fun reply => next (h ▸ reply) := by
  subst h
  rfl

/-- A program whose actions, replies and values keep their names is its own renaming. -/
theorem renames_self {P : A → Prop} {f : α → α}
    (hfixed : ∀ a, P a → N.action a = a ∧ ∀ reply, HEq (N.reply a reply) reply)
    {p : Prog A Rep ε α} (hp : p.Awaits P) (hends : p.Ends fun res => res.map f = res) :
    p.Renames N f p := by
  induction p with
  | ret value => exact congrArg ret (Except.ok.inj hends).symm
  | raise error => rfl
  | await a next ih =>
      obtain ⟨haction, hreply⟩ := hfixed a hp.1
      refine ⟨_, await_cast haction next, fun reply => ?_⟩
      have hsame : (haction ▸ N.reply a reply : Rep a) = reply :=
        eq_of_heq ((eqRec_heq haction _).trans (hreply reply))
      rw [hsame]
      exact ih reply (hp.2 reply) (hends reply)

/-- A reply that is raised or returned. -/
theorem renames_ofExcept {f : α → β} {reply : Except ε α} {reply' : Except ε β}
    (h : reply' = reply.map f) : (ofExcept reply : Prog A Rep ε α).Renames N f (ofExcept reply') := by
  subst h
  cases reply <;> rfl

theorem Renames.ofExcept {f : α → β} {res : Except ε α} {q : Prog A Rep ε β}
    (h : (Prog.ofExcept res : Prog A Rep ε α).Renames N f q) : q = Prog.ofExcept (res.map f) := by
  cases res <;> exact h

end Prog

/-- A renaming under which the shared world and the programs of the server run the same. -/
structure ServerRenaming (srv : Server σ A Rep ε Req Resp) extends Renaming A Rep where
  world : σ → σ
  request : Req → Req
  response : Resp → Resp
  exec : ∀ a w, srv.exec (action a) (world w) =
    (world (srv.exec a w).1, reply a (srv.exec a w).2)
  program : ∀ q, (srv.program q).Renames toRenaming response (srv.program (request q))

namespace ServerRenaming

variable {srv : Server σ A Rep ε Req Resp} (R : ServerRenaming srv)

/-- The second call is the first one under the new names. -/
structure SameCall (c d : Call A Rep ε Req Resp) : Prop where
  request : d.request = R.request c.request
  prog : c.prog.Renames R.toRenaming R.response d.prog

/-- The second system is the first one under the new names. -/
structure SameSystem (s t : Sys σ A Rep ε Req Resp) : Prop where
  world : t.world = R.world s.world
  calls : List.Forall₂ R.SameCall s.calls t.calls

variable {R}

/-- The answer of a call, under the new names. -/
theorem SameCall.answer {c d : Call A Rep ε Req Resp} (h : R.SameCall c d) :
    d.answer? = c.answer?.map (Except.map R.response) := by
  obtain ⟨q, p⟩ := c
  obtain ⟨q', p'⟩ := d
  have hprog := h.prog
  cases p with
  | ret value =>
      obtain rfl : p' = .ret (R.response value) := hprog
      rfl
  | raise error =>
      obtain rfl : p' = .raise error := hprog
      rfl
  | await a next =>
      obtain ⟨next', rfl, -⟩ := hprog
      rfl

section Lists

variable {R : α → β → Prop} {xs : List α} {ys : List β}

theorem forall₂_set (h : List.Forall₂ R xs ys) {x : α} {y : β} (hxy : R x y) (i : Nat) :
    List.Forall₂ R (xs.set i x) (ys.set i y) := by
  induction h generalizing i with
  | nil => exact .nil
  | cons hhead htail ih =>
      cases i with
      | zero => exact .cons hxy htail
      | succ i => exact .cons hhead (ih i)

theorem forall₂_getElem? (h : List.Forall₂ R xs ys) (i : Nat) :
    Option.Rel R xs[i]? ys[i]? := by
  induction h generalizing i with
  | nil => exact .none
  | cons hhead htail ih =>
      cases i with
      | zero => exact .some hhead
      | succ i => exact ih i

end Lists

theorem SameSystem.advance {s t : Sys σ A Rep ε Req Resp} (h : R.SameSystem s t) (i : Nat) :
    R.SameSystem (s.advance srv i) (t.advance srv i) := by
  have hcall := forall₂_getElem? h.calls i
  rw [Sys.advance, Sys.advance]
  cases hs : s.calls[i]? with
  | none =>
      cases ht : t.calls[i]? with
      | none => exact h
      | some d =>
          rw [hs, ht] at hcall
          cases hcall
  | some c =>
      cases ht : t.calls[i]? with
      | none =>
          rw [hs, ht] at hcall
          cases hcall
      | some d =>
          rw [hs, ht] at hcall
          cases hcall with
          | some hsame =>
              obtain ⟨q, p⟩ := c
              obtain ⟨q', p'⟩ := d
              obtain ⟨hrequest, hprog⟩ := hsame
              cases p with
              | ret value =>
                  obtain rfl : p' = .ret (R.response value) := hprog
                  exact h
              | raise error =>
                  obtain rfl : p' = .raise error := hprog
                  exact h
              | await a next =>
                  obtain ⟨next', rfl, hnext⟩ := hprog
                  have hexec : srv.exec (R.action a) t.world =
                      (R.world (srv.exec a s.world).1, R.reply a (srv.exec a s.world).2) := by
                    rw [h.world, R.exec]
                  have hcalls := forall₂_set (x := ⟨q, next (srv.exec a s.world).2⟩)
                    (y := ⟨q', next' (srv.exec (R.action a) t.world).2⟩) h.calls
                    ⟨hrequest, by rw [hexec]; exact hnext _⟩ i
                  exact ⟨congrArg Prod.fst hexec, hcalls⟩

/-- The same schedule moves both systems to systems that are the same again. -/
theorem SameSystem.move {s t : Sys σ A Rep ε Req Resp} (h : R.SameSystem s t) (move : Move σ Req)
    (henv : ∀ change, move = .env change → ∀ w, change (R.world w) = R.world (change w)) :
    R.SameSystem (s.move srv move) (t.move srv (move.map R.request)) := by
  cases move with
  | begin q => exact ⟨h.world, List.rel_append h.calls (.cons ⟨rfl, R.program q⟩ .nil)⟩
  | env change => exact ⟨(congrArg change h.world).trans (henv change rfl _), h.calls⟩
  | advance i => exact h.advance i

theorem SameSystem.play {s t : Sys σ A Rep ε Req Resp} (h : R.SameSystem s t)
    {moves : List (Move σ Req)}
    (henv : ∀ change, .env change ∈ moves → ∀ w, change (R.world w) = R.world (change w)) :
    R.SameSystem (s.play srv moves) (t.play srv (moves.map (Move.map R.request))) := by
  induction moves generalizing s t with
  | nil => exact h
  | cons move rest ih =>
      have hhead := h.move move fun change hmove => henv change (hmove ▸ List.mem_cons_self)
      exact ih hhead fun change hchange => henv change (List.mem_cons_of_mem _ hchange)

end ServerRenaming

end Base
