import GpuWorkerPool.Base.Table
import GpuWorkerPool.Base.TokenBucket
import GpuWorkerPool.Contracts
import Mathlib.Algebra.Order.Field.Rat

/-!
`RateLimiter`: bounded per-key token buckets in exact rational arithmetic. What a caller can observe
of a limiter are the levels of its keys: an idle bucket that is evicted was full, and a bucket that
is refilled early has the same level later, so neither shows.
-/

namespace GpuWorkerPool

open Base

/-- `total_seconds` -/
def totalSeconds (duration : Int) : ℚ := duration / 1000000

/-- The tokens of each key and when they were counted, least recently counted first. -/
structure RateLimiter where
  limit : Int
  maxKeys : Int := 4096
  buckets : Dict String (ℚ × DateTime) := Table.empty
  limit_pos : 1 ≤ limit
  maxKeys_pos : 1 ≤ maxKeys

namespace RateLimiter

/-- `RateLimiter(limit_per_minute, max_keys=max_keys)` -/
def new (limit maxKeys : Int) : Except Exc RateLimiter :=
  if h : 1 ≤ limit ∧ 1 ≤ maxKeys then
    .ok { limit := limit, maxKeys := maxKeys, limit_pos := h.1, maxKeys_pos := h.2 }
  else .error (.valueError "rate limits and bucket capacity must be positive")

/-- A limiter that has counted nobody. -/
structure IsNew (l : RateLimiter) (limit maxKeys : Int) : Prop where
  limit : l.limit = limit
  maxKeys : l.maxKeys = maxKeys
  buckets : l.buckets = Table.empty

theorem isNew_of_new {limit maxKeys : Int} {l : RateLimiter} (h : new limit maxKeys = .ok l) :
    l.IsNew limit maxKeys := by
  rw [new] at h
  split at h
  · cases h
    exact ⟨rfl, rfl, rfl⟩
  · cases h

/-- The bucket was not counted for a minute. -/
def idle (now : DateTime) (row : String × ℚ × DateTime) : Bool :=
  60 ≤ totalSeconds (now - row.2.2)

/-- The loop of `allow`: idle buckets leave from the front. -/
def evicted (l : RateLimiter) (now : DateTime) : RateLimiter :=
  { l with buckets := l.buckets.dropWhile (idle now) }

/-- The tokens that `allow` finds in the bucket of a key. -/
def counted (l : RateLimiter) (now : DateTime) (key : String) : ℚ :=
  let (tokens, updated) := (l.buckets.lookup key).getD (l.limit, now)
  min l.limit (tokens + max 0 (totalSeconds (now - updated)) * l.limit / 60)

/-- There is no bucket for the key and no room for one. -/
def full (l : RateLimiter) (key : String) : Bool :=
  (l.buckets.lookup key).isNone && l.maxKeys ≤ l.buckets.rows.length

/-- `self._buckets[key] = (tokens, now)`, moved to the end. -/
def store (l : RateLimiter) (now : DateTime) (key : String) (tokens : ℚ) : RateLimiter :=
  { l with buckets := l.buckets.putLast (key, tokens, now) }

def allow (l : RateLimiter) (now : DateTime) (key : String) : RateLimiter × Bool :=
  let l := l.evicted now
  if l.full key then (l, false)
  else
    let tokens := l.counted now key
    let allowed := decide (1 ≤ tokens)
    (l.store now key (if allowed then tokens - 1 else tokens), allowed)

/-! ### Levels -/

/-- The tokens that a key has at an instant, stored or not. -/
def level (l : RateLimiter) (now : DateTime) (key : String) : ℚ :=
  match l.buckets.lookup key with
  | some (tokens, updated) =>
      refill (l.limit : ℚ) (l.limit / 60) tokens (totalSeconds (now - updated))
  | none => l.limit

/-- No bucket is in debt, above the limit or from the future. -/
def Sound (l : RateLimiter) (now : DateTime) : Prop :=
  ∀ key tokens updated, l.buckets.lookup key = some (tokens, updated) →
    0 ≤ tokens ∧ tokens ≤ l.limit ∧ updated ≤ now

section Levels

variable {l : RateLimiter} {now instant : DateTime}

theorem rate_nonneg (l : RateLimiter) : (0 : ℚ) ≤ l.limit / 60 := by
  have hlimit : (1 : ℚ) ≤ l.limit := by exact_mod_cast l.limit_pos
  linarith

theorem totalSeconds_nonneg (h : now ≤ instant) : 0 ≤ totalSeconds (instant - now) := by
  have hsub : (0 : ℚ) ≤ ((instant - now : Int) : ℚ) := by exact_mod_cast Int.sub_nonneg_of_le h
  exact div_nonneg hsub (by norm_num)

theorem totalSeconds_add (first second : Int) :
    totalSeconds first + totalSeconds second = totalSeconds (first + second) := by
  rw [totalSeconds, totalSeconds, totalSeconds, ← add_div, Int.cast_add]

theorem Sound.later (h : l.Sound now) (hlater : now ≤ instant) : l.Sound instant := by
  intro key tokens updated hkey
  obtain ⟨hnonneg, hlimit, hupdated⟩ := h key tokens updated hkey
  exact ⟨hnonneg, hlimit, hupdated.trans hlater⟩

theorem IsNew.sound {limit maxKeys : Int} (h : l.IsNew limit maxKeys) (now : DateTime) :
    l.Sound now := by
  intro key tokens updated hkey
  rw [h.buckets] at hkey
  exact absurd hkey (by simp [Dict.lookup])

theorem level_le_limit (l : RateLimiter) (now : DateTime) (key : String) :
    l.level now key ≤ l.limit := by
  rw [level]
  split
  · exact refill_le_limit
  · exact le_refl _

theorem level_nonneg (h : l.Sound now) (key : String) : 0 ≤ l.level now key := by
  have hlimit : (1 : ℚ) ≤ l.limit := by exact_mod_cast l.limit_pos
  rw [level]
  split
  · rename_i tokens updated hkey
    obtain ⟨hnonneg, -, hupdated⟩ := h key tokens updated hkey
    exact refill_nonneg (by linarith) l.rate_nonneg hnonneg (totalSeconds_nonneg hupdated)
  · linarith

/-- Levels refill while nobody looks. -/
theorem level_later (h : now ≤ instant) (key : String) :
    l.level instant key =
      refill (l.limit : ℚ) (l.limit / 60) (l.level now key) (totalSeconds (instant - now)) := by
  rw [level, level]
  split
  · rename_i tokens updated hkey
    rw [refill_refill l.rate_nonneg (totalSeconds_nonneg h), totalSeconds_add]
    congr 2
    unfold DateTime at *
    omega
  · exact (refill_limit l.rate_nonneg (totalSeconds_nonneg h)).symm

/-- What `allow` counts is the level. -/
theorem counted_eq_level (hsound : l.Sound now) (key : String) :
    l.counted now key = l.level now key := by
  rw [counted, level]
  cases hkey : l.buckets.lookup key with
  | none => simp [totalSeconds]
  | some bucket =>
      obtain ⟨tokens, updated⟩ := bucket
      obtain ⟨-, -, hupdated⟩ := hsound key tokens updated hkey
      show min (l.limit : ℚ) (tokens + max 0 (totalSeconds (now - updated)) * l.limit / 60) = _
      rw [max_eq_right (totalSeconds_nonneg hupdated), mul_div_assoc]
      rfl

theorem lookup_evicted (l : RateLimiter) (now : DateTime) (key : String) :
    (l.evicted now).buckets.lookup key = l.buckets.lookup key ∨
      (l.evicted now).buckets.lookup key = none ∧ ∃ tokens updated,
        l.buckets.lookup key = some (tokens, updated) ∧ 60 ≤ totalSeconds (now - updated) := by
  rcases l.buckets.get?_dropWhile (idle now) key with hsame | ⟨hnone, row, hrow, hidle⟩
  · exact Or.inl (congrArg (Option.map Prod.snd) hsame)
  · refine Or.inr ⟨congrArg (Option.map Prod.snd) hnone, row.2.1, row.2.2, ?_, ?_⟩
    · exact congrArg (Option.map Prod.snd) hrow
    · simpa [idle] using hidle

theorem Sound.evicted (h : l.Sound now) : (l.evicted now).Sound now := by
  intro key tokens updated hkey
  rcases l.lookup_evicted now key with hsame | ⟨hnone, -⟩
  · exact h key tokens updated (hsame.symm.trans hkey)
  · exact absurd (hnone.symm.trans hkey) (by simp)

/-- An evicted bucket was full again. -/
theorem level_evicted (h : l.Sound now) (key : String) :
    (l.evicted now).level now key = l.level now key := by
  rw [level, level]
  rcases l.lookup_evicted now key with hsame | ⟨hnone, tokens, updated, hkey, hidle⟩
  · rw [hsame]
    rfl
  · obtain ⟨hnonneg, -, -⟩ := h key tokens updated hkey
    have hrefilled : (l.limit : ℚ) ≤ tokens + totalSeconds (now - updated) * (l.limit / 60) := by
      nlinarith [mul_le_mul_of_nonneg_right hidle l.rate_nonneg]
    rw [hnone, hkey]
    exact (refill_eq_limit hrefilled).symm

end Levels

section Allow

variable {l : RateLimiter} {now : DateTime}

/-- The bucket of a key holds a token, and is stored or has room. -/
def Admits (l : RateLimiter) (now : DateTime) (key : String) : Prop :=
  (l.evicted now).full key = false ∧ 1 ≤ l.level now key

theorem lookup_store (l : RateLimiter) (now : DateTime) (key : String) (tokens : ℚ)
    (key' : String) :
    (l.store now key tokens).buckets.lookup key' =
      if key = key' then some (tokens, now) else l.buckets.lookup key' := by
  rw [Dict.lookup, store, Table.get?_putLast]
  split <;> rfl

theorem level_store (l : RateLimiter) {tokens : ℚ} (h : tokens ≤ l.limit) (key key' : String) :
    (l.store now key tokens).level now key' = if key = key' then tokens else l.level now key' := by
  rw [level, lookup_store]
  by_cases hkey : key = key'
  · rw [if_pos hkey, if_pos hkey]
    show refill (l.limit : ℚ) _ tokens (totalSeconds (now - now)) = tokens
    rw [Int.sub_self, totalSeconds, Int.cast_zero, zero_div, refill_zero h]
  · rw [if_neg hkey, if_neg hkey]
    rfl

theorem counted_evicted (hsound : l.Sound now) (key : String) :
    (l.evicted now).counted now key = l.level now key :=
  (counted_eq_level hsound.evicted key).trans (level_evicted hsound key)

/-- The bucket of the key after `allow` has counted it. -/
def charged (l : RateLimiter) (now : DateTime) (key : String) : ℚ :=
  if 1 ≤ l.level now key then l.level now key - 1 else l.level now key

theorem charged_nonneg (hsound : l.Sound now) (key : String) : 0 ≤ l.charged now key := by
  have hlevel := level_nonneg hsound key
  rw [charged]
  split <;> linarith

theorem charged_le_limit (l : RateLimiter) (now : DateTime) (key : String) :
    l.charged now key ≤ l.limit := by
  have hlevel := l.level_le_limit now key
  rw [charged]
  split <;> linarith

/-- `allow` refuses a key without room and counts any other. -/
theorem allow_cases (hsound : l.Sound now) (key : String) :
    (l.evicted now).full key = true ∧ l.allow now key = (l.evicted now, false) ∨
      (l.evicted now).full key = false ∧ l.allow now key =
        ((l.evicted now).store now key (l.charged now key), decide (1 ≤ l.level now key)) := by
  rw [allow, counted_evicted hsound, charged]
  cases hfull : (l.evicted now).full key with
  | true => exact Or.inl ⟨rfl, rfl⟩
  | false =>
      refine Or.inr ⟨rfl, ?_⟩
      simp only [Bool.false_eq_true, if_false, decide_eq_true_eq]

theorem allow_limit (hsound : l.Sound now) (key : String) :
    (l.allow now key).1.limit = l.limit ∧ (l.allow now key).1.maxKeys = l.maxKeys := by
  rcases allow_cases hsound key with ⟨-, hallow⟩ | ⟨-, hallow⟩ <;> rw [hallow] <;> exact ⟨rfl, rfl⟩

theorem allow_eq_true_iff (hsound : l.Sound now) (key : String) :
    (l.allow now key).2 = true ↔ l.Admits now key := by
  rw [Admits]
  rcases allow_cases hsound key with ⟨hfull, hallow⟩ | ⟨hfull, hallow⟩ <;>
    simp [hallow, hfull]

/-- The level of the key pays for an admission; no other level changes. -/
theorem level_allow (hsound : l.Sound now) (key key' : String) :
    (l.allow now key).1.level now key' =
      if key = key' ∧ (l.allow now key).2 = true then l.level now key - 1
      else l.level now key' := by
  rcases allow_cases hsound key with ⟨-, hallow⟩ | ⟨-, hallow⟩
  · rw [hallow, level_evicted hsound]
    simp
  · have hstored : (l.allow now key).1.level now key' = _ :=
      (congrArg (fun out => out.1.level now key') hallow).trans
        (level_store (l.evicted now) (l.charged_le_limit now key) key key')
    rw [hstored, hallow, level_evicted hsound, charged]
    by_cases hkey : key = key'
    · subst hkey
      simp
    · simp [hkey]

theorem Sound.allow (hsound : l.Sound now) (key : String) : (l.allow now key).1.Sound now := by
  rcases allow_cases hsound key with ⟨-, hallow⟩ | ⟨-, hallow⟩
  · rw [hallow]
    exact hsound.evicted
  · rw [hallow]
    intro key' tokens updated hkey'
    rw [lookup_store] at hkey'
    split at hkey'
    · cases hkey'
      exact ⟨charged_nonneg hsound key, l.charged_le_limit now key, le_refl _⟩
    · exact hsound.evicted key' tokens updated hkey'

/-- A limiter with room refuses by levels alone. -/
theorem admits_iff_of_room {key : String} (hroom : (l.buckets.rows.length : Int) < l.maxKeys) :
    l.Admits now key ↔ 1 ≤ l.level now key := by
  have hshorter : (l.evicted now).buckets.rows.length ≤ l.buckets.rows.length :=
    (List.dropWhile_sublist _).length_le
  have hspace : ¬ (l.evicted now).maxKeys ≤ ((l.evicted now).buckets.rows.length : Int) := by
    show ¬ l.maxKeys ≤ _
    omega
  have hfull : (l.evicted now).full key = false := by
    rw [full, decide_eq_false hspace, Bool.and_false]
  rw [Admits, hfull]
  simp

end Allow

/-- Two limiters that nobody can tell apart while both have room: no key has another level. -/
structure Twin (now : DateTime) (l l' : RateLimiter) : Prop where
  limit : l'.limit = l.limit
  sound : l.Sound now
  sound' : l'.Sound now
  levels : ∀ key, l'.level now key = l.level now key

/-- The table is not full. -/
def HasRoom (l : RateLimiter) : Prop := (l.buckets.rows.length : Int) < l.maxKeys

section Twins

variable {l l' : RateLimiter} {now instant : DateTime}

theorem Twin.refl (h : l.Sound now) : Twin now l l := ⟨rfl, h, h, fun _ => rfl⟩

theorem Twin.later (h : Twin now l l') (hlater : now ≤ instant) : Twin instant l l' := by
  refine ⟨h.limit, h.sound.later hlater, h.sound'.later hlater, fun key => ?_⟩
  rw [level_later hlater, level_later hlater, h.limit, h.levels]

/-- With room, twins decide alike and stay twins. -/
theorem Twin.allow (h : Twin now l l') (hroom : l.HasRoom) (hroom' : l'.HasRoom) (key : String) :
    (l'.allow now key).2 = (l.allow now key).2 ∧
      Twin now (l.allow now key).1 (l'.allow now key).1 := by
  have hsame : (l'.allow now key).2 = (l.allow now key).2 := by
    rw [Bool.eq_iff_iff, allow_eq_true_iff h.sound', allow_eq_true_iff h.sound,
      admits_iff_of_room hroom', admits_iff_of_room hroom, h.levels]
  refine ⟨hsame, ?_, h.sound.allow key, h.sound'.allow key, fun key' => ?_⟩
  · rw [(allow_limit h.sound' key).1, (allow_limit h.sound key).1, h.limit]
  · rw [level_allow h.sound', level_allow h.sound, hsame, h.levels, h.levels]

/-- A refusal leaves a limiter the twin of what it was. -/
theorem Twin.refuse (h : Twin now l l') {key : String} (hrefused : (l.allow now key).2 = false) :
    Twin now (l.allow now key).1 l' := by
  refine ⟨?_, h.sound.allow key, h.sound', fun key' => ?_⟩
  · rw [(allow_limit h.sound key).1, h.limit]
  · rw [level_allow h.sound, hrefused, h.levels]
    simp

end Twins

end RateLimiter

end GpuWorkerPool
