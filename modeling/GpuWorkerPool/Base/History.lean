import GpuWorkerPool.Base.Interleaving

/-!
Histories. The history of a run lists the actions that its calls took, each with the place of its
call and the world it was taken in. What one call took is a path through the program of its
request, so a fact about every path of a program is a fact about every call of every run.
-/

namespace Base

variable {σ A : Type} {Rep : A → Type} {ε α β Req Resp : Type}

namespace Prog

section Paths

variable (exec : (a : A) → σ → σ × Rep a)

/-- The actions of the path, each taken in the world beside it, lead from one program to the other. -/
inductive Follows : Prog A Rep ε α → List (A × σ) → Prog A Rep ε α → Prop
  | nil (p : Prog A Rep ε α) : Follows p [] p
  | cons {a : A} {next : Rep a → Prog A Rep ε α} {w : σ} {path : List (A × σ)}
      {q : Prog A Rep ε α} (rest : Follows (next (exec a w).2) path q) :
      Follows (.await a next) ((a, w) :: path) q

/-- Every path of the program to its end satisfies `Q`, together with the result. -/
def Along : Prog A Rep ε α → (List (A × σ) → Except ε α → Prop) → Prop
  | ret value, Q => Q [] (.ok value)
  | raise error, Q => Q [] (.error error)
  | await a next, Q => ∀ w, (next (exec a w).2).Along fun path => Q ((a, w) :: path)

/-- Every await of the program satisfies `P`, together with what follows it. -/
def AtAwaits (P : (a : A) → (Rep a → Prog A Rep ε α) → Prop) : Prog A Rep ε α → Prop
  | ret _ => True
  | raise _ => True
  | await a next => P a next ∧ ∀ reply, (next reply).AtAwaits P

variable {exec}

theorem AtAwaits.follows {P : (a : A) → (Rep a → Prog A Rep ε α) → Prop} {p q : Prog A Rep ε α}
    {path : List (A × σ)} (hp : p.AtAwaits P) (h : Follows exec p path q) : q.AtAwaits P := by
  induction h with
  | nil p => exact hp
  | cons rest ih => exact ih (hp.2 _)

theorem atAwaits_of_awaits {P : (a : A) → (Rep a → Prog A Rep ε α) → Prop} {R : A → Prop}
    (hactions : ∀ a next, R a → P a next) {p : Prog A Rep ε α} (hp : p.Awaits R) :
    p.AtAwaits P := by
  induction p with
  | ret value => trivial
  | raise error => trivial
  | await a next ih => exact ⟨hactions a next hp.1, fun reply => ih reply (hp.2 reply)⟩

theorem Follows.concat {p : Prog A Rep ε α} {path : List (A × σ)} {a : A}
    {next : Rep a → Prog A Rep ε α} (h : Follows exec p path (.await a next)) (w : σ) :
    Follows exec p (path ++ [(a, w)]) (next (exec a w).2) := by
  generalize hq : Prog.await a next = q at h
  induction h with
  | nil p =>
      subst hq
      exact .cons (.nil _)
  | cons rest ih => exact .cons (ih hq)

theorem Follows.awaits {P : A → Prop} {p q : Prog A Rep ε α} {path : List (A × σ)}
    (h : Follows exec p path q) (hp : p.Awaits P) : (∀ e ∈ path, P e.1) ∧ q.Awaits P := by
  induction h with
  | nil p => exact ⟨by simp, hp⟩
  | cons rest ih =>
      obtain ⟨hpath, hq⟩ := ih (hp.2 _)
      exact ⟨List.forall_mem_cons.mpr ⟨hp.1, hpath⟩, hq⟩

theorem Along.follows {Q : List (A × σ) → Except ε α → Prop} {p : Prog A Rep ε α}
    {path : List (A × σ)} {res : Except ε α} (hp : p.Along exec Q)
    (h : Follows exec p path (ofExcept res)) : Q path res := by
  generalize hq : (ofExcept res : Prog A Rep ε α) = q at h
  induction h generalizing Q with
  | nil p =>
      subst hq
      cases res <;> exact hp
  | cons rest ih => exact ih (hp _) hq

theorem Along.mono {Q Q' : List (A × σ) → Except ε α → Prop} {p : Prog A Rep ε α}
    (hp : p.Along exec Q) (himp : ∀ path res, Q path res → Q' path res) : p.Along exec Q' := by
  induction p generalizing Q Q' with
  | ret value => exact himp _ _ hp
  | raise error => exact himp _ _ hp
  | await a next ih => exact fun w => ih _ (hp w) fun path => himp _

theorem Along.and {Q Q' : List (A × σ) → Except ε α → Prop} {p : Prog A Rep ε α}
    (hp : p.Along exec Q) (hp' : p.Along exec Q') :
    p.Along exec fun path res => Q path res ∧ Q' path res := by
  induction p generalizing Q Q' with
  | ret value => exact ⟨hp, hp'⟩
  | raise error => exact ⟨hp, hp'⟩
  | await a next ih => exact fun w => ih _ (hp w) (hp' w)

theorem along_of_forall {Q : List (A × σ) → Except ε α → Prop} (h : ∀ path res, Q path res)
    (p : Prog A Rep ε α) : p.Along exec Q := by
  induction p generalizing Q with
  | ret value => exact h _ _
  | raise error => exact h _ _
  | await a next ih => exact fun w => ih _ fun path => h _

theorem along_of_ends {R : Except ε α → Prop} {p : Prog A Rep ε α} (hp : p.Ends R) :
    p.Along exec fun _ res => R res := by
  induction p with
  | ret value => exact hp
  | raise error => exact hp
  | await a next ih => exact fun w => ih _ (hp _)

/-- A sequence takes a path of its first part and then one of its second, or the first one raises. -/
theorem along_bind {p : Prog A Rep ε α} {f : α → Prog A Rep ε β}
    {Q : List (A × σ) → Except ε β → Prop} :
    (p >>= f).Along exec Q ↔ p.Along exec fun path res =>
      match res with
      | .ok value => (f value).Along exec fun rest => Q (path ++ rest)
      | .error error => Q path (.error error) := by
  induction p generalizing Q with
  | ret value => exact Iff.rfl
  | raise error => exact Iff.rfl
  | await a next ih => exact forall_congr' fun w => ih _

theorem along_handle {p : Prog A Rep ε α} {handler : ε → Prog A Rep ε α}
    {Q : List (A × σ) → Except ε α → Prop} :
    (p.handle handler).Along exec Q ↔ p.Along exec fun path res =>
      match res with
      | .ok value => Q path (.ok value)
      | .error error => (handler error).Along exec fun rest => Q (path ++ rest) := by
  induction p generalizing Q with
  | ret value => exact Iff.rfl
  | raise error => exact Iff.rfl
  | await a next ih => exact forall_congr' fun w => ih _

/-- A guarded program that returns has returned from its body. -/
theorem along_ensure {p : Prog A Rep ε α} {cleanup : Prog A Rep ε Unit}
    {Q : List (A × σ) → Except ε α → Prop}
    (hp : p.Along exec fun path res => cleanup.Along exec fun rest out =>
      match out with
      | .ok _ => Q (path ++ rest) res
      | .error error => Q (path ++ rest) (.error error)) : (p.ensure cleanup).Along exec Q := by
  induction p generalizing Q with
  | ret value =>
      refine along_bind.mpr (Along.mono hp fun path out hout => ?_)
      cases out with
      | error _ => exact hout
      | ok _ =>
          show Q (path ++ []) (.ok value)
          rw [List.append_nil]
          exact hout
  | raise error =>
      refine along_bind.mpr (Along.mono hp fun path out hout => ?_)
      cases out with
      | error _ => exact hout
      | ok _ =>
          show Q (path ++ []) (.error error)
          rw [List.append_nil]
          exact hout
  | await a next ih => exact fun w => ih _ (hp w)

theorem along_of_awaits {P : A → Prop} {p : Prog A Rep ε α} (hp : p.Awaits P) :
    p.Along exec fun path _ => ∀ e ∈ path, P e.1 := by
  induction p with
  | ret value => exact fun e he => absurd he (by simp)
  | raise error => exact fun e he => absurd he (by simp)
  | await a next ih =>
      exact fun w => (ih _ (hp.2 _)).mono fun path _ hpath => List.forall_mem_cons.mpr ⟨hp.1, hpath⟩

/-! ### What a program takes -/

variable (exec) in
/-- Every action on a path of the program satisfies `P`, where the replies are those of `exec`. -/
def Takes (P : A → Prop) (p : Prog A Rep ε α) : Prop :=
  p.Along exec fun path _ => ∀ step ∈ path, P step.1

variable {P : A → Prop}

theorem takes_of_awaits {p : Prog A Rep ε α} (hp : p.Awaits P) : p.Takes exec P :=
  along_of_awaits hp

theorem takes_await {a : A} {next : Rep a → Prog A Rep ε α} (ha : P a)
    (hnext : ∀ w, (next (exec a w).2).Takes exec P) : (await a next).Takes exec P :=
  fun w => Along.mono (hnext w) fun _ _ hpath => List.forall_mem_cons.mpr ⟨ha, hpath⟩

theorem Takes.bind {p : Prog A Rep ε α} {f : α → Prog A Rep ε β} (hp : p.Takes exec P)
    (hf : ∀ value, (f value).Takes exec P) : (p >>= f).Takes exec P := by
  refine along_bind.mpr (Along.mono hp fun path res hpath => ?_)
  cases res with
  | error error => exact hpath
  | ok value => exact Along.mono (hf value) fun rest _ hrest =>
      List.forall_mem_append.mpr ⟨hpath, hrest⟩

theorem Takes.handle {p : Prog A Rep ε α} {handler : ε → Prog A Rep ε α} (hp : p.Takes exec P)
    (hhandler : ∀ error, (handler error).Takes exec P) : (p.handle handler).Takes exec P := by
  refine along_handle.mpr (Along.mono hp fun path res hpath => ?_)
  cases res with
  | ok value => exact hpath
  | error error => exact Along.mono (hhandler error) fun rest _ hrest =>
      List.forall_mem_append.mpr ⟨hpath, hrest⟩

theorem Takes.ensure {p : Prog A Rep ε α} {cleanup : Prog A Rep ε Unit} (hp : p.Takes exec P)
    (hcleanup : cleanup.Takes exec P) : (p.ensure cleanup).Takes exec P := by
  refine along_ensure (Along.mono hp fun path res hpath => Along.mono hcleanup ?_)
  intro rest out hrest
  cases out <;> exact List.forall_mem_append.mpr ⟨hpath, hrest⟩

end Paths

end Prog

/-- An action that a call took, and the world it was taken in. -/
structure Event (σ A : Type) where
  call : Nat
  action : A
  world : σ

/-- What one call took. -/
def pathOf (history : List (Event σ A)) (i : Nat) : List (A × σ) :=
  (history.filter fun e => e.call = i).map fun e => (e.action, e.world)

theorem mem_pathOf {history : List (Event σ A)} {i : Nat} {step : A × σ} :
    step ∈ pathOf history i ↔ ⟨i, step.1, step.2⟩ ∈ history := by
  simp only [pathOf, List.mem_map, List.mem_filter, decide_eq_true_eq]
  constructor
  · rintro ⟨e, ⟨he, rfl⟩, rfl⟩
    exact he
  · exact fun h => ⟨_, ⟨h, rfl⟩, rfl⟩

theorem pathOf_cons (history : List (Event σ A)) (e : Event σ A) (i : Nat) :
    pathOf (e :: history) i =
      if e.call = i then (e.action, e.world) :: pathOf history i else pathOf history i := by
  by_cases h : e.call = i <;> simp [pathOf, h]

theorem pathOf_concat (history : List (Event σ A)) (e : Event σ A) (i : Nat) :
    pathOf (history ++ [e]) i =
      pathOf history i ++ if e.call = i then [(e.action, e.world)] else [] := by
  by_cases h : e.call = i <;> simp [pathOf, h]

section Runs

variable (srv : Server σ A Rep ε Req Resp) (reg : Regime σ A Rep ε Req Resp)

/-- A run with its history. -/
inductive Recorded : Sys σ A Rep ε Req Resp → List (Event σ A) → Sys σ A Rep ε Req Resp → Prop
  | refl (s : Sys σ A Rep ε Req Resp) : Recorded s [] s
  | begin {s t : Sys σ A Rep ε Req Resp} {history : List (Event σ A)}
      (before : Recorded s history t) (q : Req) (accepted : reg.accepts q t.world) :
      Recorded s history ⟨t.world, t.calls ++ [⟨q, srv.program q⟩]⟩
  | advance {s t : Sys σ A Rep ε Req Resp} {history : List (Event σ A)}
      (before : Recorded s history t) (i : Nat) (q : Req) (a : A)
      (next : Rep a → Prog A Rep ε Resp) (here : t.calls[i]? = some ⟨q, .await a next⟩)
      (allowed : reg.allow q a t.world) :
      Recorded s (history ++ [⟨i, a, t.world⟩])
        ⟨(srv.exec a t.world).1, t.calls.set i ⟨q, next (srv.exec a t.world).2⟩⟩
  | env {s t : Sys σ A Rep ε Req Resp} {history : List (Event σ A)}
      (before : Recorded s history t) (w : σ) (changed : reg.env t w) :
      Recorded s history ⟨w, t.calls⟩

variable {srv reg} {s t : Sys σ A Rep ε Req Resp} {history : List (Event σ A)}

theorem Recorded.reaches (h : Recorded srv reg s history t) : Reaches srv reg s t := by
  induction h with
  | refl => exact .refl
  | begin before q accepted ih => exact ih.tail (.begin q accepted)
  | advance before i q a next here allowed ih => exact ih.tail (.advance i q a next here allowed)
  | env before w changed ih => exact ih.tail (.env w changed)

theorem Reaches.recorded (h : Reaches srv reg s t) : ∃ history, Recorded srv reg s history t := by
  induction h with
  | refl => exact ⟨[], .refl s⟩
  | tail _ hstep ih =>
      obtain ⟨history, hbefore⟩ := ih
      cases hstep with
      | begin q accepted => exact ⟨_, hbefore.begin q accepted⟩
      | advance i q a next here allowed => exact ⟨_, hbefore.advance i q a next here allowed⟩
      | env w changed => exact ⟨_, hbefore.env w changed⟩

/-- Every event belongs to a call. -/
theorem Recorded.call_lt (h : Recorded srv reg s history t) :
    ∀ e ∈ history, e.call < t.calls.length := by
  induction h with
  | refl => simp
  | begin before q accepted ih =>
      intro e he
      rw [List.length_append]
      exact Nat.lt_add_right _ (ih e he)
  | advance before i q a next here allowed ih =>
      intro e he
      rw [List.length_set]
      rcases List.mem_append.mp he with hold | hnew
      · exact ih e hold
      · obtain rfl := List.mem_singleton.mp hnew
        exact (List.getElem?_eq_some_iff.mp here).1
  | env before w changed ih => exact ih

/-- What a call took is a path through the program of its request to what is left of it, when the
call began in the run. -/
theorem Recorded.follows_new (h : Recorded srv reg s history t) {i : Nat}
    (hi : s.calls.length ≤ i) {c : Call A Rep ε Req Resp} (hc : t.calls[i]? = some c) :
    (srv.program c.request).Follows srv.exec (pathOf history i) c.prog := by
  induction h generalizing c with
  | refl =>
      rw [List.getElem?_eq_none hi] at hc
      exact absurd hc (by simp)
  | begin before q accepted ih =>
      rename_i u history
      rcases Nat.lt_or_ge i u.calls.length with hlt | hge
      · exact ih (by rwa [List.getElem?_append_left hlt] at hc)
      · rw [List.getElem?_append_right hge, List.getElem?_singleton] at hc
        split at hc
        · cases hc
          have hnone : pathOf history i = [] := by
            refine List.eq_nil_iff_forall_not_mem.mpr fun step hstep => ?_
            exact absurd (before.call_lt _ (mem_pathOf.mp hstep)) (Nat.not_lt.mpr hge)
          rw [hnone]
          exact .nil _
        · exact absurd hc (by simp)
  | advance before k q a next here allowed ih =>
      rw [pathOf_concat]
      by_cases hki : k = i
      · subst hki
        rw [List.getElem?_set_self (List.getElem?_eq_some_iff.mp here).1] at hc
        cases hc
        rw [if_pos rfl]
        exact (ih here).concat _
      · rw [List.getElem?_set_ne hki] at hc
        rw [if_neg hki, List.append_nil]
        exact ih hc
  | env before w changed ih => exact ih hc

theorem Recorded.follows {w : σ} (h : Recorded srv reg ⟨w, []⟩ history t) {i : Nat}
    {c : Call A Rep ε Req Resp} (hc : t.calls[i]? = some c) :
    (srv.program c.request).Follows srv.exec (pathOf history i) c.prog :=
  h.follows_new (Nat.zero_le i) hc

/-- What holds along every path of a program holds of each call that was answered. -/
theorem Recorded.along {w : σ} (h : Recorded srv reg ⟨w, []⟩ history t) {i : Nat}
    {c : Call A Rep ε Req Resp} {res : Except ε Resp} (hc : t.calls[i]? = some c)
    (hanswer : c.prog = Prog.ofExcept res) {Q : List (A × σ) → Except ε Resp → Prop}
    (hq : (srv.program c.request).Along srv.exec Q) : Q (pathOf history i) res :=
  hq.follows (hanswer ▸ h.follows hc)

/-- A call took, and has left, only actions that the program of its request can await. -/
theorem Recorded.awaits {w : σ} {P : A → Prop} (h : Recorded srv reg ⟨w, []⟩ history t) {i : Nat}
    {c : Call A Rep ε Req Resp} (hc : t.calls[i]? = some c)
    (hp : (srv.program c.request).Awaits P) :
    (∀ e ∈ history, e.call = i → P e.action) ∧ c.prog.Awaits P := by
  obtain ⟨hpath, hrest⟩ := (h.follows hc).awaits hp
  refine ⟨?_, hrest⟩
  rintro e he rfl
  exact hpath (e.action, e.world) (mem_pathOf.mpr he)

/-- What every step of a run keeps holds at its end and wherever an action was taken. -/
theorem Recorded.invariant {I : σ → Prop} (h : Recorded srv reg s history t) (hs : I s.world)
    (hsteps : ∀ e ∈ history, I e.world → I (srv.exec e.action e.world).1)
    (henv : ∀ u v, reg.env u v → I u.world → I v) :
    I t.world ∧ ∀ e ∈ history, I e.world := by
  induction h with
  | refl => exact ⟨hs, by simp⟩
  | begin before q accepted ih => exact ih hsteps
  | advance before i q a next here allowed ih =>
      obtain ⟨hworld, hevents⟩ := ih fun e he => hsteps e (List.mem_append_left _ he)
      refine ⟨hsteps _ (List.mem_append_right _ (List.mem_singleton_self _)) hworld, ?_⟩
      intro e he
      rcases List.mem_append.mp he with hold | hnew
      · exact hevents e hold
      · obtain rfl := List.mem_singleton.mp hnew
        exact hworld
  | env before w changed ih =>
      obtain ⟨hworld, hevents⟩ := ih hsteps
      exact ⟨henv _ _ changed hworld, hevents⟩

/-- Where every step of a run leads to a world that `R` puts behind the one before, `R` puts the
worlds of the run in order. -/
theorem Recorded.pairwise {R : σ → σ → Prop} (h : Recorded srv reg s history t)
    (hrefl : ∀ v, R v v) (htrans : ∀ {u v w}, R u v → R v w → R u w)
    (hexec : ∀ e ∈ history, R e.world (srv.exec e.action e.world).1)
    (henv : ∀ u v, reg.env u v → R u.world v) :
    (s.world :: history.map Event.world ++ [t.world]).Pairwise R := by
  have hnext {past : List σ} {v w : σ} (hpast : (past ++ [v]).Pairwise R) (hvw : R v w) :
      ∀ u ∈ past ++ [v], R u w := by
    intro u hu
    rcases List.mem_append.mp hu with hbefore | hlast
    · exact htrans ((List.pairwise_append.mp hpast).2.2 u hbefore v (List.mem_singleton_self v)) hvw
    · rwa [List.mem_singleton.mp hlast]
  have hconcat {past : List σ} {w : σ} (hpast : past.Pairwise R) (hw : ∀ u ∈ past, R u w) :
      (past ++ [w]).Pairwise R :=
    List.pairwise_append.mpr ⟨hpast, List.pairwise_singleton _ _, fun u hu x hx =>
      (List.mem_singleton.mp hx).symm ▸ hw u hu⟩
  induction h with
  | refl => simpa using hrefl s.world
  | begin before q accepted ih => exact ih hexec
  | @advance t history before i q a next here allowed ih =>
      have hpast := ih fun e he => hexec e (List.mem_append_left _ he)
      have hstep := hexec _ (List.mem_append_right _ (List.mem_singleton_self _))
      rw [List.map_append, ← List.cons_append]
      exact hconcat hpast (hnext hpast hstep)
  | env before w changed ih =>
      have hpast := ih hexec
      have hlast := hnext hpast (henv _ _ changed)
      refine hconcat (List.pairwise_append.mp hpast).1 fun u hu => hlast u ?_
      exact List.mem_append_left _ hu

/-- A run comes by each of its events, and goes on from it. -/
theorem Recorded.split (h : Recorded srv reg s history t) {pre post : List (Event σ A)}
    {e : Event σ A} (hevent : history = pre ++ e :: post) :
    ∃ calls, Recorded srv reg ⟨(srv.exec e.action e.world).1, calls⟩ post t := by
  induction h generalizing post with
  | refl => exact absurd hevent (by simp)
  | begin before q accepted ih =>
      obtain ⟨calls, hrest⟩ := ih hevent
      exact ⟨calls, hrest.begin q accepted⟩
  | @advance t history before i q a next here allowed ih =>
      rcases List.eq_nil_or_concat post with rfl | ⟨post, last, rfl⟩
      · obtain ⟨-, hlast⟩ := List.append_inj' hevent rfl
        obtain rfl := List.singleton_inj.mp hlast
        exact ⟨_, .refl _⟩
      · have hconcat : history ++ [⟨i, a, t.world⟩] = (pre ++ e :: post) ++ [last] := by
          rw [hevent]
          simp
        obtain ⟨hbefore, hlast⟩ := List.append_inj' hconcat rfl
        obtain rfl := List.singleton_inj.mp hlast
        obtain ⟨calls, hrest⟩ := ih hbefore
        refine ⟨calls, ?_⟩
        simpa using hrest.advance i q a next here allowed
  | env before w changed ih =>
      obtain ⟨calls, hrest⟩ := ih hevent
      exact ⟨calls, hrest.env w changed⟩

/-- What no step can destroy holds at the end of a run in which some action has established it. -/
theorem Recorded.stable {w : σ} {I : σ → Prop} {P : A → Prop}
    (h : Recorded srv reg ⟨w, []⟩ history t) (hp : ∀ q, (srv.program q).Awaits P)
    (hsteps : ∀ a v, P a → I v → I (srv.exec a v).1)
    (henv : ∀ u v, reg.env u v → I u.world → I v) {e : Event σ A} (he : e ∈ history)
    (hholds : I (srv.exec e.action e.world).1) : I t.world := by
  induction h with
  | refl => exact absurd he (by simp)
  | begin before q accepted ih => exact ih he
  | advance before i q a next here allowed ih =>
      rcases List.mem_append.mp he with hold | hnew
      · exact hsteps a _ (before.awaits here (hp q)).2.1 (ih hold)
      · obtain rfl := List.mem_singleton.mp hnew
        exact hholds
  | env before w changed ih => exact henv _ _ changed (ih he)

end Runs

end Base
