import GpuWorkerPool.Base.History

/-!
Runs by schedule. A schedule says which request begins, which call takes its next action and what
changes from outside, one after the other; it determines the run and its history. A schedule is
permitted by a regime when each of its moves is.
-/

namespace Base

variable {σ A : Type} {Rep : A → Type} {ε Req Resp : Type}

/-- One move of a schedule. To advance a call that is answered does nothing. -/
inductive Move (σ Req : Type) where
  | begin (q : Req)
  | advance (i : Nat)
  | env (change : σ → σ)

/-- The same move with another request. -/
def Move.map {Req' : Type} (f : Req → Req') : Move σ Req → Move σ Req'
  | begin q => begin (f q)
  | advance i => advance i
  | env change => env change

section Play

variable (srv : Server σ A Rep ε Req Resp)

def Sys.move (s : Sys σ A Rep ε Req Resp) : Move σ Req → Sys σ A Rep ε Req Resp
  | .begin q => ⟨s.world, s.calls ++ [⟨q, srv.program q⟩]⟩
  | .advance i => s.advance srv i
  | .env change => ⟨change s.world, s.calls⟩

/-- The action that the move lets a call take. -/
def Sys.taken (s : Sys σ A Rep ε Req Resp) : Move σ Req → List (Event σ A)
  | .advance i =>
      match s.calls[i]? with
      | some ⟨_, .await a _⟩ => [⟨i, a, s.world⟩]
      | _ => []
  | _ => []

def Sys.play (s : Sys σ A Rep ε Req Resp) : List (Move σ Req) → Sys σ A Rep ε Req Resp
  | [] => s
  | move :: rest => (s.move srv move).play rest

/-- The history of the run. -/
def Sys.played (s : Sys σ A Rep ε Req Resp) : List (Move σ Req) → List (Event σ A)
  | [] => []
  | move :: rest => s.taken move ++ (s.move srv move).played rest

/-- The regime permits each move in its turn. -/
def Permitted (reg : Regime σ A Rep ε Req Resp) (s : Sys σ A Rep ε Req Resp) :
    List (Move σ Req) → Prop
  | [] => True
  | .begin q :: rest =>
      reg.accepts q s.world ∧ Permitted reg (s.move srv (.begin q)) rest
  | .advance i :: rest =>
      (match s.calls[i]? with
        | some ⟨q, .await a _⟩ => reg.allow q a s.world
        | _ => True) ∧ Permitted reg (s.move srv (.advance i)) rest
  | .env change :: rest =>
      reg.env s (change s.world) ∧ Permitted reg (s.move srv (.env change)) rest

variable {srv} {reg : Regime σ A Rep ε Req Resp}

theorem Recorded.move {s t : Sys σ A Rep ε Req Resp} {history : List (Event σ A)}
    (h : Recorded srv reg s history t) (move : Move σ Req) {rest : List (Move σ Req)}
    (hpermitted : Permitted srv reg t (move :: rest)) :
    Recorded srv reg s (history ++ t.taken move) (t.move srv move) := by
  cases move with
  | begin q => exact (List.append_nil history).symm ▸ h.begin q hpermitted.1
  | env change => exact (List.append_nil history).symm ▸ h.env _ hpermitted.1
  | advance i =>
      have hallow := hpermitted.1
      rw [Sys.move, Sys.advance, Sys.taken]
      cases hcall : t.calls[i]? with
      | none => exact (List.append_nil history).symm ▸ h
      | some c =>
          obtain ⟨q, p⟩ := c
          cases p with
          | ret _ | raise _ => exact (List.append_nil history).symm ▸ h
          | await a next =>
              rw [hcall] at hallow
              exact h.advance i q a next hcall hallow

theorem Permitted.rest {s : Sys σ A Rep ε Req Resp} {move : Move σ Req}
    {rest : List (Move σ Req)} (h : Permitted srv reg s (move :: rest)) :
    Permitted srv reg (s.move srv move) rest := by
  cases move <;> exact h.2

/-- A regime that admits every request and every action asks only about what changes outside. -/
theorem permitted_of_env (haccepts : ∀ q w, reg.accepts q w) (hallow : ∀ q a w, reg.allow q a w)
    {moves : List (Move σ Req)}
    (henv : ∀ change, .env change ∈ moves →
      ∀ s : Sys σ A Rep ε Req Resp, reg.env s (change s.world))
    (s : Sys σ A Rep ε Req Resp) : Permitted srv reg s moves := by
  induction moves generalizing s with
  | nil => trivial
  | cons move rest ih =>
      have hrest := ih fun change hchange => henv change (List.mem_cons_of_mem _ hchange)
      cases move with
      | begin q => exact ⟨haccepts q _, hrest _⟩
      | env change => exact ⟨henv change List.mem_cons_self s, hrest _⟩
      | advance i =>
          refine ⟨?_, hrest _⟩
          split
          · exact hallow _ _ _
          · trivial

theorem Sys.play_append (s : Sys σ A Rep ε Req Resp) (first rest : List (Move σ Req)) :
    s.play srv (first ++ rest) = (s.play srv first).play srv rest := by
  induction first generalizing s with
  | nil => rfl
  | cons move first ih => exact ih _

theorem Sys.played_append (s : Sys σ A Rep ε Req Resp) (first rest : List (Move σ Req)) :
    s.played srv (first ++ rest) = s.played srv first ++ (s.play srv first).played srv rest := by
  induction first generalizing s with
  | nil => rfl
  | cons move first ih =>
      rw [List.cons_append, Sys.played, Sys.played, ih, List.append_assoc]
      rfl

theorem Permitted.append {s : Sys σ A Rep ε Req Resp} {first rest : List (Move σ Req)}
    (h : Permitted srv reg s (first ++ rest)) :
    Permitted srv reg s first ∧ Permitted srv reg (s.play srv first) rest := by
  induction first generalizing s with
  | nil => exact ⟨trivial, h⟩
  | cons move first ih =>
      obtain ⟨hfirst, hrest⟩ := ih h.rest
      refine ⟨?_, hrest⟩
      cases move <;> exact ⟨h.1, hfirst⟩

theorem Recorded.play {s t : Sys σ A Rep ε Req Resp} {history : List (Event σ A)}
    (h : Recorded srv reg s history t) {moves : List (Move σ Req)}
    (hpermitted : Permitted srv reg t moves) :
    Recorded srv reg s (history ++ t.played srv moves) (t.play srv moves) := by
  induction moves generalizing t history with
  | nil => exact (List.append_nil history).symm ▸ h
  | cons move rest ih =>
      rw [Sys.played, Sys.play, ← List.append_assoc]
      exact ih (h.move move hpermitted) hpermitted.rest

end Play

/-! ### Leaving a call out -/

/-- The same move when the call at a place was never begun. -/
def Move.without (k : Nat) : Move σ Req → Option (Move σ Req)
  | begin q => some (begin q)
  | advance i => if i = k then none else some (advance (if k < i then i - 1 else i))
  | env change => some (env change)

section Without

variable {srv : Server σ A Rep ε Req Resp} {k : Nat}

/-- Every other call is found one place earlier, or where it was. -/
theorem getElem?_without (calls : List (Call A Rep ε Req Resp)) {i : Nat} (hi : i ≠ k) :
    (calls.eraseIdx k)[if k < i then i - 1 else i]? = calls[i]? := by
  by_cases hlater : k < i
  · rw [if_pos hlater, List.getElem?_eraseIdx_of_ge (by omega), Nat.sub_add_cancel (by omega)]
  · rw [if_neg hlater, List.getElem?_eraseIdx_of_lt (by omega)]

theorem set_without (calls : List (Call A Rep ε Req Resp)) {i : Nat} (hi : i ≠ k)
    (c : Call A Rep ε Req Resp) :
    (calls.set i c).eraseIdx k = (calls.eraseIdx k).set (if k < i then i - 1 else i) c := by
  by_cases hlater : k < i
  · rw [if_pos hlater, List.eraseIdx_set_lt hlater]
  · rw [if_neg hlater, List.eraseIdx_set_gt (by omega)]

/-- An action that a move lets a call take is that call's, in the world of the move. -/
theorem Sys.of_mem_taken {s : Sys σ A Rep ε Req Resp} {i : Nat} {e : Event σ A}
    (he : e ∈ s.taken (.advance i)) : e.call = i ∧ e.world = s.world := by
  rw [taken] at he
  split at he
  · obtain rfl := List.mem_singleton.mp he
    exact ⟨rfl, rfl⟩
  · exact absurd he (by simp)

/-- Two systems that agree up to `R` and to the call at a place. -/
structure AgreeWithout (R : σ → σ → Prop) (k : Nat) (s t : Sys σ A Rep ε Req Resp) : Prop where
  world : R s.world t.world
  calls : t.calls = s.calls.eraseIdx k
  begun : k < s.calls.length

variable {R : σ → σ → Prop} {P : σ → Prop} {s t : Sys σ A Rep ε Req Resp}

/-- An action of any other call that `R` does not show to its program. -/
theorem AgreeWithout.advance (h : AgreeWithout R k s t) {i : Nat} (hi : i ≠ k)
    (hexec : ∀ e ∈ s.taken (.advance i), ∀ e' ∈ t.taken (.advance (if k < i then i - 1 else i)),
      (srv.exec e.action t.world).2 = (srv.exec e.action s.world).2 ∧
        R (srv.exec e.action s.world).1 (srv.exec e.action t.world).1) :
    AgreeWithout R k (s.advance srv i) (t.advance srv (if k < i then i - 1 else i)) := by
  have hcall : t.calls[if k < i then i - 1 else i]? = s.calls[i]? := by
    rw [h.calls, getElem?_without _ hi]
  rw [Sys.taken, Sys.taken, hcall] at hexec
  rw [Sys.advance, Sys.advance, hcall]
  cases hhere : s.calls[i]? with
  | none => exact h
  | some c =>
      obtain ⟨q, p⟩ := c
      cases p with
      | ret _ | raise _ => exact h
      | await a next =>
          rw [hhere] at hexec
          obtain ⟨hreply, hworld⟩ :=
            hexec _ (List.mem_singleton_self _) _ (List.mem_singleton_self _)
          refine ⟨hworld, ?_, ?_⟩
          · show t.calls.set _ _ = (s.calls.set i _).eraseIdx k
            rw [set_without _ hi, h.calls, hreply]
          · show k < (s.calls.set i _).length
            rw [List.length_set]
            exact h.begun

/-- An action of the call at the place, which `R` does not show to the others. -/
theorem AgreeWithout.skip (h : AgreeWithout R k s t)
    (hskip : ∀ e ∈ s.taken (.advance k), R (srv.exec e.action s.world).1 t.world) :
    AgreeWithout R k (s.advance srv k) t := by
  rw [Sys.taken] at hskip
  rw [Sys.advance]
  cases hhere : s.calls[k]? with
  | none => exact h
  | some c =>
      obtain ⟨q, p⟩ := c
      cases p with
      | ret _ | raise _ => exact h
      | await a next =>
          rw [hhere] at hskip
          refine ⟨hskip _ (List.mem_singleton_self _), ?_, ?_⟩
          · show t.calls = (s.calls.set k _).eraseIdx k
            rw [List.eraseIdx_set_eq, h.calls]
          · show k < (s.calls.set k _).length
            rw [List.length_set]
            exact h.begun

/-- A schedule with a call and the same schedule without it lead to the same answers for all other
calls, when `R` keeps to the steps of both and to those of the call alone. -/
theorem AgreeWithout.play {reg : Regime σ A Rep ε Req Resp} {moves : List (Move σ Req)}
    (h : AgreeWithout R k s t) (hpermitted : Permitted srv reg s moves)
    (hexec : ∀ a u v, R u v → P u → P v →
      (srv.exec a v).2 = (srv.exec a u).2 ∧ R (srv.exec a u).1 (srv.exec a v).1)
    (hskip : ∀ e ∈ s.played srv moves, e.call = k →
      ∀ v, R e.world v → R (srv.exec e.action e.world).1 v)
    (henv : ∀ change, .env change ∈ moves → ∀ u v, reg.env u (change u.world) →
      R u.world v → R (change u.world) (change v))
    (hok : ∀ e ∈ s.played srv moves, P e.world)
    (hok' : ∀ e ∈ t.played srv (moves.filterMap (Move.without k)), P e.world) :
    AgreeWithout R k (s.play srv moves) (t.play srv (moves.filterMap (Move.without k))) := by
  induction moves generalizing s t with
  | nil => exact h
  | cons move rest ih =>
      have hrest := fun change hchange => henv change (List.mem_cons_of_mem _ hchange)
      have hskips := fun e he => hskip e (List.mem_append_right _ he)
      have hoks := fun e he => hok e (List.mem_append_right _ he)
      cases move with
      | begin q =>
          refine ih ⟨h.world, ?_, ?_⟩ hpermitted.2 hskips hrest hoks hok'
          · show t.calls ++ _ = (s.calls ++ _).eraseIdx k
            rw [List.eraseIdx_append_of_lt_length h.begun, h.calls]
          · show k < (s.calls ++ [_]).length
            rw [List.length_append]
            exact Nat.lt_add_right _ h.begun
      | env change =>
          have hchanged := henv change List.mem_cons_self s t.world hpermitted.1 h.world
          exact ih ⟨hchanged, h.calls, h.begun⟩ hpermitted.2 hskips hrest hoks hok'
      | advance i =>
          by_cases hi : i = k
          · subst hi
            have hmoves : (Move.advance i :: rest).filterMap (Move.without i) =
                rest.filterMap (Move.without i) :=
              List.filterMap_cons_none (if_pos rfl)
            rw [hmoves] at hok' ⊢
            refine ih (h.skip fun e he => ?_) hpermitted.2 hskips hrest hoks hok'
            obtain ⟨hcall, hworld⟩ := Sys.of_mem_taken he
            rw [← hworld]
            exact hskip e (List.mem_append_left _ he) hcall _ (hworld ▸ h.world)
          · have hmoves : (Move.advance i :: rest).filterMap (Move.without k) =
                .advance (if k < i then i - 1 else i) :: rest.filterMap (Move.without k) :=
              List.filterMap_cons_some (if_neg hi)
            rw [hmoves] at hok' ⊢
            refine ih (h.advance hi fun e he e' he' => ?_) hpermitted.2 hskips hrest hoks
              fun e he => hok' e (List.mem_append_right _ he)
            refine hexec _ _ _ h.world ?_ ?_
            · exact (Sys.of_mem_taken he).2 ▸ hok e (List.mem_append_left _ he)
            · exact (Sys.of_mem_taken he').2 ▸ hok' e' (List.mem_append_left _ he')

end Without

end Base
