import GpuWorkerPool.Base.Program

/-!
Servers whose calls interleave at their awaits. A server answers a request by running its program
against one shared world. Any number of calls are in flight; a step begins a call, lets one call
take its next action, or changes the world from outside. Calls are never forgotten, so the list of
calls is also the history of the requests made and of the answers given.

A `Discipline` is a proof that the programs keep a world invariant and each other's assumptions.
Its only theorem of use, `Discipline.safe_of_reaches`, turns the judgements about single programs
into facts about every reachable system state.
-/

namespace Base

variable {σ A : Type} {Rep : A → Type} {ε Req Resp : Type}

/-- Shared actions and the program that answers each request. -/
structure Server (σ A : Type) (Rep : A → Type) (ε Req Resp : Type) where
  exec : (a : A) → σ → σ × Rep a
  program : Req → Prog A Rep ε Resp

/-- One call: its request and what is left of its program. -/
structure Call (A : Type) (Rep : A → Type) (ε Req Resp : Type) where
  request : Req
  prog : Prog A Rep ε Resp

namespace Call

/-- The answer of a call that has finished. -/
def answer? (c : Call A Rep ε Req Resp) : Option (Except ε Resp) :=
  match c.prog with
  | .ret value => some (.ok value)
  | .raise error => some (.error error)
  | .await _ _ => none

/-- The error of a call that was answered with one. -/
def error? (c : Call A Rep ε Req Resp) : Option ε :=
  match c.prog with
  | .raise error => some error
  | _ => none

theorem exists_ofExcept {c : Call A Rep ε Req Resp} (h : c.answer? ≠ none) :
    ∃ res, c.prog = Prog.ofExcept res := by
  rw [answer?] at h
  split at h
  · rename_i value hprog
    exact ⟨.ok value, hprog⟩
  · rename_i error hprog
    exact ⟨.error error, hprog⟩
  · exact absurd rfl h

end Call

/-- The world and every call begun so far, in order. -/
structure Sys (σ A : Type) (Rep : A → Type) (ε Req Resp : Type) where
  world : σ
  calls : List (Call A Rep ε Req Resp)

/-- Some call is still in flight. -/
def Sys.Busy (s : Sys σ A Rep ε Req Resp) : Prop := ∃ c ∈ s.calls, c.answer? = none

instance (s : Sys σ A Rep ε Req Resp) : Decidable s.Busy :=
  inferInstanceAs (Decidable (∃ c ∈ s.calls, c.answer? = none))

/-- What the outside does: the requests it makes in a world, the actions a run lets a request take
in a world, and the changes it makes to the world itself. -/
structure Regime (σ A : Type) (Rep : A → Type) (ε Req Resp : Type) where
  accepts : Req → σ → Prop
  allow : Req → A → σ → Prop
  env : Sys σ A Rep ε Req Resp → σ → Prop

section Steps

variable (srv : Server σ A Rep ε Req Resp) (reg : Regime σ A Rep ε Req Resp)

inductive Step : Sys σ A Rep ε Req Resp → Sys σ A Rep ε Req Resp → Prop
  | begin {s : Sys σ A Rep ε Req Resp} (q : Req) (accepted : reg.accepts q s.world) :
      Step s ⟨s.world, s.calls ++ [⟨q, srv.program q⟩]⟩
  | advance {s : Sys σ A Rep ε Req Resp} (i : Nat) (q : Req) (a : A)
      (next : Rep a → Prog A Rep ε Resp) (here : s.calls[i]? = some ⟨q, .await a next⟩)
      (allowed : reg.allow q a s.world) :
      Step s ⟨(srv.exec a s.world).1, s.calls.set i ⟨q, next (srv.exec a s.world).2⟩⟩
  | env {s : Sys σ A Rep ε Req Resp} (w : σ) (changed : reg.env s w) : Step s ⟨w, s.calls⟩

/-- Any number of steps. -/
def Reaches : Sys σ A Rep ε Req Resp → Sys σ A Rep ε Req Resp → Prop :=
  Relation.ReflTransGen (Step srv reg)

variable {srv reg}

/-- A run under a narrower regime is a run under a wider one. -/
theorem Step.mono {reg' : Regime σ A Rep ε Req Resp} {s t : Sys σ A Rep ε Req Resp}
    (haccepts : ∀ q w, reg.accepts q w → reg'.accepts q w)
    (hallow : ∀ q a w, reg.allow q a w → reg'.allow q a w)
    (henv : ∀ s w, reg.env s w → reg'.env s w) (h : Step srv reg s t) : Step srv reg' s t := by
  cases h with
  | begin q accepted => exact .begin q (haccepts _ _ accepted)
  | advance i q a next here allowed => exact .advance i q a next here (hallow _ _ _ allowed)
  | env w changed => exact .env w (henv _ _ changed)

theorem Reaches.mono {reg' : Regime σ A Rep ε Req Resp} {s t : Sys σ A Rep ε Req Resp}
    (haccepts : ∀ q w, reg.accepts q w → reg'.accepts q w)
    (hallow : ∀ q a w, reg.allow q a w → reg'.allow q a w)
    (henv : ∀ s w, reg.env s w → reg'.env s w) (h : Reaches srv reg s t) : Reaches srv reg' s t := by
  induction h with
  | refl => exact .refl
  | tail _ hstep ih => exact ih.tail (hstep.mono haccepts hallow henv)

/-- Calls are never forgotten, nor what they were asked. -/
theorem Step.requests {s t : Sys σ A Rep ε Req Resp} (h : Step srv reg s t) :
    ∀ c ∈ s.calls, ∃ d ∈ t.calls, d.request = c.request := by
  intro c hc
  cases h with
  | begin q accepted => exact ⟨c, List.mem_append_left _ hc, rfl⟩
  | advance i q a next here allowed =>
      obtain ⟨j, hj⟩ := List.mem_iff_getElem?.mp hc
      by_cases hij : i = j
      · subst hij
        obtain rfl := Option.some.inj (here.symm.trans hj)
        exact ⟨_, List.mem_set (List.getElem?_eq_some_iff.mp here).1 _, rfl⟩
      · exact ⟨c, List.mem_of_getElem? ((List.getElem?_set_ne hij).trans hj), rfl⟩
  | env w changed => exact ⟨c, hc, rfl⟩

/-- A run makes no other requests than those its last state remembers. -/
theorem Reaches.requested {s t : Sys σ A Rep ε Req Resp} (h : Reaches srv reg s t) :
    Reaches srv { reg with
      accepts := fun q w => reg.accepts q w ∧ ∃ c ∈ t.calls, c.request = q } s t := by
  induction h with
  | refl => exact .refl
  | tail _ hstep ih =>
      refine .tail (Reaches.mono ?_ ?_ ?_ ih) ?_
      · rintro _ w ⟨haccepts, c, hc, rfl⟩
        exact ⟨haccepts, hstep.requests c hc⟩
      · exact fun q a w hallow => hallow
      · exact fun u w henv => henv
      · cases hstep with
        | begin q accepted => exact .begin q ⟨accepted, _, List.mem_append_right _
            (List.mem_singleton_self _), rfl⟩
        | advance i q a next here allowed => exact .advance i q a next here allowed
        | env w changed => exact .env w changed

end Steps

section Alone

variable (srv : Server σ A Rep ε Req Resp)

/-- Lets the call at the end of the list run to its answer with nobody else at work. -/
def Sys.finish (s : Sys σ A Rep ε Req Resp) (q : Req) (p : Prog A Rep ε Resp) :
    Sys σ A Rep ε Req Resp :=
  ⟨(p.run srv.exec s.world).1, s.calls ++ [⟨q, Prog.ofExcept (p.run srv.exec s.world).2⟩]⟩

/-- Begins a request and runs it to its answer with nobody else at work. -/
def Sys.serve (s : Sys σ A Rep ε Req Resp) (q : Req) : Sys σ A Rep ε Req Resp :=
  s.finish srv q (srv.program q)

/-- The actions of an undisturbed run are all allowed. -/
def AllowedAlone (allow : A → σ → Prop) : Prog A Rep ε Resp → σ → Prop
  | .ret _, _ => True
  | .raise _, _ => True
  | .await a next, w =>
      allow a w ∧ AllowedAlone allow (next (srv.exec a w).2) (srv.exec a w).1

instance decidableAllowedAlone {allow : A → σ → Prop} [∀ a w, Decidable (allow a w)] :
    (p : Prog A Rep ε Resp) → (w : σ) → Decidable (AllowedAlone srv allow p w)
  | .ret _, _ => .isTrue trivial
  | .raise _, _ => .isTrue trivial
  | .await a next, w =>
      have : Decidable (AllowedAlone srv allow (next (srv.exec a w).2) (srv.exec a w).1) :=
        decidableAllowedAlone _ _
      inferInstanceAs (Decidable (_ ∧ _))

variable {srv} {reg : Regime σ A Rep ε Req Resp}

theorem reaches_finish (w : σ) (calls : List (Call A Rep ε Req Resp)) (q : Req)
    (p : Prog A Rep ε Resp) (hallow : AllowedAlone srv (reg.allow q) p w) :
    Reaches srv reg ⟨w, calls ++ [⟨q, p⟩]⟩ (Sys.finish srv ⟨w, calls⟩ q p) := by
  induction p generalizing w with
  | ret value => exact .refl
  | raise error => exact .refl
  | await a next ih =>
      obtain ⟨hhere, hrest⟩ := hallow
      have hstep : Step srv reg ⟨w, calls ++ [⟨q, .await a next⟩]⟩
          ⟨(srv.exec a w).1, calls ++ [⟨q, next (srv.exec a w).2⟩]⟩ := by
        let c : Call A Rep ε Req Resp := ⟨q, .await a next⟩
        have h : Step srv reg ⟨w, calls ++ [c]⟩ ⟨(srv.exec a w).1,
            (calls ++ [c]).set calls.length ⟨q, next (srv.exec a w).2⟩⟩ :=
          .advance calls.length q a next (by simp [c]) hhere
        simpa using h
      exact Relation.ReflTransGen.head hstep (ih _ _ hrest)

theorem Sys.serve_eq {s : Sys σ A Rep ε Req Resp} {q : Req} {w : σ} {res : Except ε Resp}
    (h : (srv.program q).run srv.exec s.world = (w, res)) :
    s.serve srv q = ⟨w, s.calls ++ [⟨q, Prog.ofExcept res⟩]⟩ := by
  rw [serve, finish, h]

/-- Serving a request alone is one of the interleavings. -/
theorem reaches_serve (s : Sys σ A Rep ε Req Resp) (q : Req) (haccepts : reg.accepts q s.world)
    (hallow : AllowedAlone srv (reg.allow q) (srv.program q) s.world) :
    Reaches srv reg s (s.serve srv q) :=
  Relation.ReflTransGen.head (Step.begin q haccepts) (reaches_finish _ _ _ _ hallow)

/-- Lets one call take its next action. -/
def Sys.advance (srv : Server σ A Rep ε Req Resp) (s : Sys σ A Rep ε Req Resp) (i : Nat) :
    Sys σ A Rep ε Req Resp :=
  match s.calls[i]? with
  | some ⟨q, .await a next⟩ =>
      ⟨(srv.exec a s.world).1, s.calls.set i ⟨q, next (srv.exec a s.world).2⟩⟩
  | _ => s

theorem Sys.advance_await {s : Sys σ A Rep ε Req Resp} {i : Nat} {q : Req} {a : A}
    {next : Rep a → Prog A Rep ε Resp} (h : s.calls[i]? = some ⟨q, .await a next⟩) :
    s.advance srv i =
      ⟨(srv.exec a s.world).1, s.calls.set i ⟨q, next (srv.exec a s.world).2⟩⟩ := by
  rw [advance, h]

/-- Serves requests one after the other. -/
def Sys.serveAll (srv : Server σ A Rep ε Req Resp) (s : Sys σ A Rep ε Req Resp) :
    List Req → Sys σ A Rep ε Req Resp
  | [] => s
  | q :: rest => (s.serve srv q).serveAll srv rest

/-- Each request is accepted when its turn comes, and its actions are allowed. -/
def ServedAlone (srv : Server σ A Rep ε Req Resp) (reg : Regime σ A Rep ε Req Resp)
    (s : Sys σ A Rep ε Req Resp) : List Req → Prop
  | [] => True
  | q :: rest =>
      reg.accepts q s.world ∧ AllowedAlone srv (reg.allow q) (srv.program q) s.world ∧
        ServedAlone srv reg (s.serve srv q) rest

theorem reaches_serveAll (s : Sys σ A Rep ε Req Resp) (requests : List Req)
    (h : ServedAlone srv reg s requests) : Reaches srv reg s (s.serveAll srv requests) := by
  induction requests generalizing s with
  | nil => exact .refl
  | cons q rest ih =>
      obtain ⟨haccepts, hallow, hrest⟩ := h
      exact (reaches_serve s q haccepts hallow).trans (ih _ hrest)

theorem allowedAlone_of_awaits {P : A → Prop} {allow : A → σ → Prop} {p : Prog A Rep ε Resp}
    (h : p.Awaits P) (hallow : ∀ a w, P a → allow a w) (w : σ) : AllowedAlone srv allow p w := by
  induction p generalizing w with
  | ret value => trivial
  | raise error => trivial
  | await a next ih => exact ⟨hallow a w h.1, ih _ (h.2 _) _⟩

theorem ServedAlone.cons {s : Sys σ A Rep ε Req Resp} {q : Req} {rest : List Req}
    (hallow : ∀ q a w, reg.allow q a w) (haccepts : reg.accepts q s.world)
    (hrest : ServedAlone srv reg (s.serve srv q) rest) : ServedAlone srv reg s (q :: rest) :=
  ⟨haccepts, allowedAlone_of_awaits (Prog.awaits_true _) (fun a w _ => hallow q a w) _, hrest⟩

end Alone

/-- A proof method for a server under a regime. Calls rely on `rely` while in flight, and their
answers satisfy a postcondition that the world keeps for ever (`evolve`). A call is known by its
place in the list of calls, so that one history can treat earlier calls differently. -/
structure Discipline (srv : Server σ A Rep ε Req Resp) (reg : Regime σ A Rep ε Req Resp) where
  inv : σ → Prop
  rely : σ → σ → Prop
  evolve : σ → σ → Prop
  guar : Req → σ → σ → Prop
  post : Nat → Req → Except ε Resp → σ → Prop
  rely_refl : ∀ w, rely w w
  rely_trans : ∀ {u v w}, rely u v → rely v w → rely u w
  rely_evolve : ∀ {v w}, rely v w → evolve v w
  guar_rely : ∀ {q v w}, inv v → guar q v w → rely v w
  post_stable : ∀ {i q res v w}, inv v → evolve v w → post i q res v → post i q res w
  begin_sat : ∀ i q w, inv w → reg.accepts q w →
    Prog.Sat srv.exec ⟨inv, reg.allow q, rely, guar q⟩ (srv.program q) w (post i q)
  env_ok : ∀ {s w}, inv s.world → reg.env s w →
    inv w ∧ evolve s.world w ∧ (s.Busy → rely s.world w)

namespace Discipline

variable {srv : Server σ A Rep ε Req Resp} {reg : Regime σ A Rep ε Req Resp}
  (D : Discipline srv reg)

def contract (q : Req) : Prog.Contract A σ := ⟨D.inv, reg.allow q, D.rely, D.guar q⟩

/-- The world invariant holds and every call is on the way to its postcondition. -/
structure Safe (s : Sys σ A Rep ε Req Resp) : Prop where
  inv : D.inv s.world
  calls : ∀ i c, s.calls[i]? = some c →
    Prog.Sat srv.exec (D.contract c.request) c.prog s.world (D.post i c.request)

variable {D}

theorem Safe.answered {s : Sys σ A Rep ε Req Resp} (h : D.Safe s) {i : Nat}
    {c : Call A Rep ε Req Resp} {res : Except ε Resp} (hc : s.calls[i]? = some c)
    (hanswer : c.answer? = some res) : D.post i c.request res s.world := by
  have hsat := h.calls i c hc
  unfold Call.answer? at hanswer
  split at hanswer
  · rename_i value hprog
    rw [hprog] at hsat
    exact Option.some.inj hanswer ▸ hsat
  · rename_i error hprog
    rw [hprog] at hsat
    exact Option.some.inj hanswer ▸ hsat
  · exact absurd hanswer (by simp)

/-- A call survives a step of the others, in flight by `rely` and finished by `evolve`. -/
theorem sat_of_step {i : Nat} {c : Call A Rep ε Req Resp} {v w : σ} (hinv : D.inv v)
    (hrely : c.answer? = none → D.rely v w) (hevolve : D.evolve v w)
    (h : Prog.Sat srv.exec (D.contract c.request) c.prog v (D.post i c.request)) :
    Prog.Sat srv.exec (D.contract c.request) c.prog w (D.post i c.request) := by
  obtain ⟨q, p⟩ := c
  cases p with
  | ret value => exact D.post_stable hinv hevolve h
  | raise error => exact D.post_stable hinv hevolve h
  | await a next => exact fun u hu => h u (D.rely_trans (hrely rfl) hu)

theorem safe_step {s t : Sys σ A Rep ε Req Resp} (h : D.Safe s) (hstep : Step srv reg s t) :
    D.Safe t := by
  cases hstep with
  | begin q accepted =>
      refine ⟨h.inv, fun i c hc => ?_⟩
      rcases Nat.lt_or_ge i s.calls.length with hlt | hge
      · exact h.calls i c (by rwa [List.getElem?_append_left hlt] at hc)
      · rw [List.getElem?_append_right hge, List.getElem?_singleton] at hc
        split at hc
        · cases hc
          exact D.begin_sat i q s.world h.inv accepted
        · exact absurd hc (by simp)
  | advance i q a next here allowed =>
      obtain ⟨hinv, hguar, hnext⟩ := h.calls i _ here s.world (D.rely_refl _) h.inv allowed
      have hrely := D.guar_rely h.inv hguar
      refine ⟨hinv, fun j c hc => ?_⟩
      by_cases hij : i = j
      · subst hij
        rw [List.getElem?_set_self (List.getElem?_eq_some_iff.mp here).1] at hc
        cases hc
        exact hnext
      · rw [List.getElem?_set_ne hij] at hc
        exact sat_of_step h.inv (fun _ => hrely) (D.rely_evolve hrely) (h.calls j c hc)
  | env w changed =>
      obtain ⟨hinv, hevolve, hrely⟩ := D.env_ok h.inv changed
      refine ⟨hinv, fun i c hc => sat_of_step h.inv (fun hbusy => hrely ?_) hevolve
        (h.calls i c hc)⟩
      exact ⟨c, List.mem_of_getElem? hc, hbusy⟩

theorem safe_of_reaches {s t : Sys σ A Rep ε Req Resp} (h : D.Safe s)
    (hreach : Reaches srv reg s t) : D.Safe t := by
  induction hreach with
  | refl => exact h
  | tail _ hstep ih => exact safe_step ih hstep

/-- A system without calls is safe once its world satisfies the invariant. -/
theorem safe_of_no_calls {w : σ} (h : D.inv w) : D.Safe ⟨w, []⟩ :=
  ⟨h, fun i c hc => absurd hc (by simp)⟩

/-- What one step of a safe system does to the world: nothing, an action of some call within its
guarantee, or a change from outside. -/
theorem Safe.step_cases {s t : Sys σ A Rep ε Req Resp} (h : D.Safe s)
    (hstep : Step srv reg s t) :
    t.world = s.world ∨ (∃ c ∈ s.calls, D.guar c.request s.world t.world) ∨
      reg.env s t.world := by
  cases hstep with
  | begin q accepted => exact Or.inl rfl
  | advance i q a next here allowed =>
      obtain ⟨-, hguar, -⟩ := h.calls i _ here s.world (D.rely_refl _) h.inv allowed
      exact Or.inr (Or.inl ⟨_, List.mem_of_getElem? here, hguar⟩)
  | env w changed => exact Or.inr (Or.inr changed)

end Discipline

end Base
