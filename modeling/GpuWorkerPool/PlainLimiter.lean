import GpuWorkerPool.RateLimiter

/-!
The bounded limiter against a plain one, which keeps a bucket for every key for ever. Calls that
find no room are refused and cost nothing; on all others the two answer alike, because an evicted
bucket was full again. The stored buckets stay within capacity and in the order of their last use.
-/

namespace GpuWorkerPool

open Base

/-- One bucket for each key, never evicted; a key without one has all its tokens. -/
structure PlainLimiter where
  limit : Int
  buckets : String → Option (ℚ × DateTime)

namespace PlainLimiter

def new (limit : Int) : PlainLimiter := ⟨limit, fun _ => none⟩

/-- The tokens that a key has at an instant. -/
def level (p : PlainLimiter) (now : DateTime) (key : String) : ℚ :=
  let (tokens, updated) := (p.buckets key).getD (p.limit, now)
  refill (p.limit : ℚ) (p.limit / 60) tokens (totalSeconds (now - updated))

def store (p : PlainLimiter) (now : DateTime) (key : String) (tokens : ℚ) : PlainLimiter :=
  { p with buckets := fun key' => if key = key' then some (tokens, now) else p.buckets key' }

/-- A call takes a token if the bucket holds one. -/
def allow (p : PlainLimiter) (now : DateTime) (key : String) : PlainLimiter × Bool :=
  if 1 ≤ p.level now key then (p.store now key (p.level now key - 1), true)
  else (p.store now key (p.level now key), false)

/-- No bucket is in debt, above the limit or from the future. -/
structure Sound (p : PlainLimiter) (now : DateTime) : Prop where
  limit_pos : 1 ≤ p.limit
  buckets : ∀ key tokens updated, p.buckets key = some (tokens, updated) →
    0 ≤ tokens ∧ tokens ≤ p.limit ∧ updated ≤ now

section Levels

variable {p : PlainLimiter} {now instant : DateTime}

theorem sound_new {limit : Int} (hlimit : 1 ≤ limit) (now : DateTime) : (new limit).Sound now := by
  refine ⟨hlimit, fun key tokens updated hkey => ?_⟩
  cases hkey

theorem Sound.later (h : p.Sound now) (hlater : now ≤ instant) : p.Sound instant := by
  refine ⟨h.limit_pos, fun key tokens updated hkey => ?_⟩
  obtain ⟨hnonneg, hlimit, hupdated⟩ := h.buckets key tokens updated hkey
  exact ⟨hnonneg, hlimit, hupdated.trans hlater⟩

theorem Sound.rate_nonneg (h : p.Sound now) : (0 : ℚ) ≤ p.limit / 60 := by
  have hlimit : (1 : ℚ) ≤ p.limit := by exact_mod_cast h.limit_pos
  linarith

theorem level_le_limit (p : PlainLimiter) (now : DateTime) (key : String) :
    p.level now key ≤ p.limit :=
  refill_le_limit

theorem level_nonneg (h : p.Sound now) (key : String) : 0 ≤ p.level now key := by
  have hlimit : (1 : ℚ) ≤ p.limit := by exact_mod_cast h.limit_pos
  have hnonneg : (0 : ℚ) ≤ p.limit := by linarith
  unfold level
  cases hkey : p.buckets key with
  | none =>
      show (0 : ℚ) ≤ refill _ _ (p.limit : ℚ) (totalSeconds (now - now))
      rw [Int.sub_self, totalSeconds, Int.cast_zero, zero_div]
      exact refill_nonneg hnonneg h.rate_nonneg hnonneg (le_refl _)
  | some bucket =>
      obtain ⟨htokens, -, hupdated⟩ := h.buckets key bucket.1 bucket.2 hkey
      exact refill_nonneg hnonneg h.rate_nonneg htokens (RateLimiter.totalSeconds_nonneg hupdated)

/-- Levels refill while nobody looks. -/
theorem level_later (h : p.Sound now) (hlater : now ≤ instant) (key : String) :
    p.level instant key =
      refill (p.limit : ℚ) (p.limit / 60) (p.level now key) (totalSeconds (instant - now)) := by
  have hzero (time : DateTime) : totalSeconds (time - time) = 0 := by
    rw [Int.sub_self, totalSeconds, Int.cast_zero, zero_div]
  have helapsed := RateLimiter.totalSeconds_nonneg hlater
  unfold level
  cases p.buckets key with
  | none =>
      show refill _ _ (p.limit : ℚ) (totalSeconds (instant - instant)) =
        refill _ _ (refill _ _ (p.limit : ℚ) (totalSeconds (now - now))) _
      rw [hzero, hzero, refill_zero (le_refl _), refill_limit h.rate_nonneg helapsed]
  | some bucket =>
      show refill _ _ bucket.1 (totalSeconds (instant - bucket.2)) =
        refill _ _ (refill _ _ bucket.1 (totalSeconds (now - bucket.2))) _
      rw [refill_refill h.rate_nonneg helapsed, RateLimiter.totalSeconds_add]
      congr 2
      unfold DateTime at *
      omega

theorem level_store (p : PlainLimiter) {tokens : ℚ} (h : tokens ≤ p.limit) (now : DateTime)
    (key key' : String) :
    (p.store now key tokens).level now key' =
      if key = key' then tokens else p.level now key' := by
  have hstored : (p.store now key tokens).buckets key' =
      if key = key' then some (tokens, now) else p.buckets key' := rfl
  rw [level, hstored]
  by_cases hkey : key = key'
  · rw [if_pos hkey, if_pos hkey]
    show refill (p.limit : ℚ) _ tokens (totalSeconds (now - now)) = tokens
    rw [Int.sub_self, totalSeconds, Int.cast_zero, zero_div, refill_zero h]
  · rw [if_neg hkey, if_neg hkey]
    rfl

theorem Sound.store (h : p.Sound now) {tokens : ℚ} (hnonneg : 0 ≤ tokens)
    (hlimit : tokens ≤ p.limit) (key : String) : (p.store now key tokens).Sound now := by
  refine ⟨h.limit_pos, fun key' tokens' updated hkey' => ?_⟩
  change (if key = key' then some (tokens, now) else p.buckets key') = _ at hkey'
  split at hkey'
  · cases hkey'
    exact ⟨hnonneg, hlimit, le_refl _⟩
  · exact h.buckets key' tokens' updated hkey'

/-- A call answers by the level, and pays from it. -/
theorem allow_spec (h : p.Sound now) (key : String) :
    ((p.allow now key).2 = true ↔ 1 ≤ p.level now key) ∧ (p.allow now key).1.Sound now ∧
      (p.allow now key).1.limit = p.limit ∧
      ∀ key', (p.allow now key).1.level now key' =
        if key = key' ∧ (p.allow now key).2 = true then p.level now key - 1
        else p.level now key' := by
  have hlimit := p.level_le_limit now key
  have hnonneg := level_nonneg h key
  rw [allow]
  by_cases hlevel : 1 ≤ p.level now key
  · rw [if_pos hlevel]
    have hpaid : p.level now key - 1 ≤ p.limit := by linarith
    refine ⟨iff_of_true rfl hlevel, h.store (by linarith) hpaid key, rfl, fun key' => ?_⟩
    show (p.store now key _).level now key' = _
    simp only [level_store p hpaid, and_true]
  · rw [if_neg hlevel]
    refine ⟨iff_of_false Bool.false_ne_true hlevel, h.store hnonneg hlimit key, rfl,
      fun key' => ?_⟩
    show (p.store now key _).level now key' = _
    rw [level_store p hlimit]
    by_cases hkey : key = key'
    · rw [if_pos hkey, if_neg fun hand => Bool.false_ne_true hand.2, hkey]
    · rw [if_neg hkey, if_neg fun hand => hkey hand.1]

end Levels

end PlainLimiter

namespace RateLimiter

/-- The key has no bucket, and the table is full of buckets of which the oldest was used within the
minute. -/
def refuses (l : RateLimiter) (now : DateTime) (key : String) : Bool :=
  (l.buckets.lookup key).isNone && l.maxKeys ≤ l.buckets.rows.length &&
    l.buckets.rows.head?.any fun row => totalSeconds (now - row.2.2) < 60

/-- The stored buckets are within capacity and in the order of their last use. -/
structure Tidy (l : RateLimiter) (now : DateTime) : Prop where
  sound : l.Sound now
  bounded : (l.buckets.rows.length : Int) ≤ l.maxKeys
  ordered : l.buckets.rows.Pairwise fun row later => row.2.2 ≤ later.2.2

section Steps

variable {l : RateLimiter} {now instant : DateTime}

theorem IsNew.tidy {limit maxKeys : Int} (h : l.IsNew limit maxKeys) (now : DateTime) :
    l.Tidy now := by
  have hmax := l.maxKeys_pos
  refine ⟨h.sound now, ?_, ?_⟩
  · rw [h.buckets]
    show ((0 : Nat) : Int) ≤ l.maxKeys
    omega
  · rw [h.buckets]
    exact List.Pairwise.nil

theorem Tidy.later (h : l.Tidy now) (hlater : now ≤ instant) : l.Tidy instant :=
  ⟨h.sound.later hlater, h.bounded, h.ordered⟩

theorem Tidy.evicted (h : l.Tidy now) : (l.evicted now).Tidy now := by
  have hsub : (l.buckets.rows.dropWhile (idle now)).Sublist l.buckets.rows :=
    List.dropWhile_sublist _
  refine ⟨h.sound.evicted, ?_, h.ordered.sublist hsub⟩
  have hshorter := hsub.length_le
  have hbounded := h.bounded
  show ((l.buckets.rows.dropWhile (idle now)).length : Int) ≤ l.maxKeys
  omega

/-- There is room after eviction unless the oldest bucket is live. -/
theorem full_evicted (h : l.Tidy now) (key : String) :
    (l.evicted now).full key = l.refuses now key := by
  have hmax := l.maxKeys_pos
  have hbounded := h.bounded
  rw [full, refuses]
  cases hrows : l.buckets.rows with
  | nil =>
      have hempty : (l.evicted now).buckets.rows = [] := by
        show l.buckets.rows.dropWhile _ = _
        rw [hrows]
        rfl
      have hroom : ¬ (l.evicted now).maxKeys ≤ ((0 : Nat) : Int) := by
        show ¬ l.maxKeys ≤ _
        omega
      rw [hempty, List.length_nil, decide_eq_false hroom]
      simp
  | cons first rest =>
      by_cases hidle : idle now first = true
      · have hshorter : (l.evicted now).buckets.rows.length ≤ rest.length := by
          show (l.buckets.rows.dropWhile (idle now)).length ≤ _
          rw [hrows, List.dropWhile_cons_of_pos hidle]
          exact (List.dropWhile_sublist _).length_le
        have hroom : ¬ (l.evicted now).maxKeys ≤ ((l.evicted now).buckets.rows.length : Int) := by
          rw [hrows, List.length_cons] at hbounded
          show ¬ l.maxKeys ≤ _
          omega
        have hold : ¬ totalSeconds (now - first.2.2) < 60 := not_lt.mpr (of_decide_eq_true hidle)
        rw [decide_eq_false hroom]
        simp [hold]
      · have hsame : l.evicted now = l := by
          have hrest : l.buckets.dropWhile (idle now) = l.buckets := by
            refine Table.ext ?_
            show l.buckets.rows.dropWhile _ = _
            rw [hrows, List.dropWhile_cons_of_neg hidle]
          rw [RateLimiter.evicted, hrest]
        have hlive : totalSeconds (now - first.2.2) < 60 := by
          simpa [idle] using hidle
        rw [hsame, hrows]
        simp [hlive]

theorem Tidy.store (h : l.Tidy now) {tokens : ℚ} (hnonneg : 0 ≤ tokens) (hlimit : tokens ≤ l.limit)
    {key : String} (hroom : l.full key = false) : (l.store now key tokens).Tidy now := by
  have hrows : (l.store now key tokens).buckets.rows =
      (l.buckets.rows.filter fun row => row.1 ≠ key) ++ [(key, tokens, now)] := rfl
  refine ⟨fun key' tokens' updated hkey' => ?_, ?_, ?_⟩
  · rw [lookup_store] at hkey'
    split at hkey'
    · cases hkey'
      exact ⟨hnonneg, hlimit, le_refl _⟩
    · exact h.sound key' tokens' updated hkey'
  · have hbounded := h.bounded
    have hfilter : ((l.buckets.rows.filter fun row => row.1 ≠ key).length : Int) < l.maxKeys := by
      rw [full, Bool.and_eq_false_iff, decide_eq_false_iff_not] at hroom
      rcases hroom with hstored | hspace
      · have hlookup : (l.buckets.lookup key).isSome := by simpa using hstored
        obtain ⟨bucket, hbucket⟩ := Option.isSome_iff_exists.mp hlookup
        have hmem := Dict.lookup_eq_some_iff.mp hbucket
        have hshorter : (l.buckets.rows.filter fun row => row.1 ≠ key).length <
            l.buckets.rows.length :=
          List.length_filter_lt_length_iff_exists.mpr ⟨_, hmem, by simp⟩
        omega
      · have hshorter := List.length_filter_le (fun row => decide (row.1 ≠ key)) l.buckets.rows
        omega
    rw [hrows, List.length_append, List.length_singleton]
    show _ ≤ l.maxKeys
    push_cast
    omega
  · rw [hrows, List.pairwise_append]
    refine ⟨h.ordered.sublist List.filter_sublist, List.pairwise_singleton _ _, ?_⟩
    intro row hrow last hlast
    rw [List.mem_singleton.mp hlast]
    have hstored := Dict.lookup_eq_some_iff.mpr (List.mem_filter.mp hrow).1
    exact (h.sound row.1 row.2.1 row.2.2 hstored).2.2

theorem Tidy.allow (h : l.Tidy now) (key : String) : (l.allow now key).1.Tidy now := by
  rcases allow_cases h.sound key with ⟨-, hallow⟩ | ⟨hroom, hallow⟩
  · rw [hallow]
    exact h.evicted
  · rw [hallow]
    exact h.evicted.store (charged_nonneg h.sound key) (l.charged_le_limit now key) hroom

/-- A bucket used within the minute stays, and only a call for its own key changes it. -/
theorem lookup_allow_live (h : l.Tidy now) (key : String) {stored : String} {tokens : ℚ}
    {updated : DateTime} (hstored : l.buckets.lookup stored = some (tokens, updated))
    (hlive : totalSeconds (now - updated) < 60) :
    ∃ bucket, (l.allow now key).1.buckets.lookup stored = some bucket ∧
      (stored ≠ key → bucket = (tokens, updated)) := by
  have hkept : (l.evicted now).buckets.lookup stored = some (tokens, updated) := by
    rcases l.lookup_evicted now stored with hsame | ⟨-, tokens', updated', hrow, hidle⟩
    · rw [hsame, hstored]
    · rw [hstored] at hrow
      cases hrow
      exact absurd hlive (not_lt.mpr hidle)
  rcases allow_cases h.sound key with ⟨-, hallow⟩ | ⟨-, hallow⟩
  · rw [hallow]
    exact ⟨_, hkept, fun _ => rfl⟩
  · rw [hallow]
    show ∃ bucket, ((l.evicted now).store now key _).buckets.lookup stored = some bucket ∧ _
    rw [lookup_store]
    by_cases hkey : key = stored
    · rw [if_pos hkey]
      exact ⟨_, rfl, fun hne => absurd hkey.symm hne⟩
    · rw [if_neg hkey]
      exact ⟨_, hkept, fun _ => rfl⟩

end Steps

/-! ### Runs -/

/-- A call of `allow`. -/
structure Call where
  now : DateTime
  key : String

/-- The clock never runs backwards. -/
def InOrder : DateTime → List Call → Prop
  | _, [] => True
  | now, call :: rest => now ≤ call.now ∧ InOrder call.now rest

/-- The time of the last call. -/
def clock : DateTime → List Call → DateTime
  | now, [] => now
  | _, call :: rest => clock call.now rest

def after (l : RateLimiter) (calls : List Call) : RateLimiter :=
  calls.foldl (fun l call => (l.allow call.now call.key).1) l

/-- The calls with their answers. -/
def answered : RateLimiter → List Call → List (Call × Bool)
  | _, [] => []
  | l, call :: rest =>
      (call, (l.allow call.now call.key).2) :: answered (l.allow call.now call.key).1 rest

/-- The plain limiter next to the bounded one: a call that is refused for want of room does not
reach it. -/
def plainAfter : RateLimiter → PlainLimiter → List Call → PlainLimiter
  | _, p, [] => p
  | l, p, call :: rest =>
      plainAfter (l.allow call.now call.key).1
        (if l.refuses call.now call.key then p else (p.allow call.now call.key).1) rest

/-- The bounded limiter is tidy, and every key has the tokens that it has in the plain one. -/
structure Follows (l : RateLimiter) (p : PlainLimiter) (now : DateTime) : Prop where
  limit : p.limit = l.limit
  tidy : l.Tidy now
  plain : p.Sound now
  levels : ∀ key, p.level now key = l.level now key

section Runs

variable {l : RateLimiter} {p : PlainLimiter} {now instant : DateTime}

theorem IsNew.follows {limit maxKeys : Int} (h : l.IsNew limit maxKeys) (now : DateTime) :
    l.Follows (PlainLimiter.new limit) now := by
  have hlimit := h.limit
  have hpos := l.limit_pos
  rw [hlimit] at hpos
  refine ⟨hlimit.symm, h.tidy now, PlainLimiter.sound_new hpos now, fun key => ?_⟩
  have hnone : l.buckets.lookup key = none := by
    rw [h.buckets]
    rfl
  rw [level, hnone, hlimit]
  show refill (limit : ℚ) (limit / 60) limit (totalSeconds (now - now)) = limit
  rw [Int.sub_self, totalSeconds, Int.cast_zero, zero_div, refill_zero (le_refl _)]

theorem Follows.later (h : l.Follows p now) (hlater : now ≤ instant) : l.Follows p instant := by
  refine ⟨h.limit, h.tidy.later hlater, h.plain.later hlater, fun key => ?_⟩
  rw [PlainLimiter.level_later h.plain hlater, level_later hlater, h.limit, h.levels]

/-- One call: the bounded limiter refuses for want of room, or the two answer alike. -/
theorem Follows.allow (h : l.Follows p now) (key : String) :
    (l.allow now key).2 = (if l.refuses now key then false else (p.allow now key).2) ∧
      (l.allow now key).1.Follows (if l.refuses now key then p else (p.allow now key).1) now := by
  have hfull := full_evicted h.tidy key
  have hsound := h.tidy.sound
  obtain ⟨hanswer, hplain, hlimit, hlevels⟩ := PlainLimiter.allow_spec h.plain key
  cases hrefuses : l.refuses now key with
  | true =>
      rw [hrefuses] at hfull
      have hrefused : (l.allow now key).2 = false := by
        rw [Bool.eq_false_iff, ne_eq, allow_eq_true_iff hsound]
        exact fun hadmits => absurd (hadmits.1.symm.trans hfull) Bool.false_ne_true
      refine ⟨hrefused, (allow_limit hsound key).1 ▸ h.limit, h.tidy.allow key, h.plain,
        fun key' => ?_⟩
      show p.level now key' = _
      rw [level_allow hsound, hrefused, if_neg fun hand => Bool.false_ne_true hand.2]
      exact h.levels key'
  | false =>
      rw [hrefuses] at hfull
      have hsame : (l.allow now key).2 = true ↔ 1 ≤ p.level now key := by
        rw [allow_eq_true_iff hsound, Admits, hfull, h.levels]
        exact and_iff_right rfl
      have hequal : (l.allow now key).2 = (p.allow now key).2 :=
        Bool.eq_iff_iff.mpr (hsame.trans hanswer.symm)
      refine ⟨hequal, ?_, h.tidy.allow key, hplain, fun key' => ?_⟩
      · exact hlimit.trans (h.limit.trans (allow_limit hsound key).1.symm)
      · rw [level_allow hsound, hequal, ← h.levels key, ← h.levels key']
        exact hlevels key'

theorem inOrder_append {before rest : List Call} :
    InOrder now (before ++ rest) ↔ InOrder now before ∧ InOrder (clock now before) rest := by
  induction before generalizing now with
  | nil => simp [InOrder, clock]
  | cons call before ih =>
      show now ≤ call.now ∧ InOrder call.now (before ++ rest) ↔
        (now ≤ call.now ∧ InOrder call.now before) ∧ InOrder (clock call.now before) rest
      rw [ih, and_assoc]

theorem Follows.after (h : l.Follows p now) {calls : List Call} (hclock : InOrder now calls) :
    (l.after calls).Follows (plainAfter l p calls) (clock now calls) := by
  induction calls generalizing l p now with
  | nil => exact h
  | cons call rest ih => exact ih ((h.later hclock.1).allow call.key).2 hclock.2

/-! ### What a window admits -/

/-- An admission of the key in the window of `T` seconds from `start`. -/
def admittedIn (key : String) (start : DateTime) (T : ℚ) (answer : Call × Bool) : Bool :=
  answer.2 && answer.1.key = key && start ≤ answer.1.now &&
    totalSeconds (answer.1.now - start) ≤ T

theorem answered_later {calls : List Call} (hclock : InOrder now calls) {answer : Call × Bool}
    (h : answer ∈ l.answered calls) : now ≤ answer.1.now := by
  induction calls generalizing l now with
  | nil => cases h
  | cons call rest ih =>
      rcases List.mem_cons.mp h with rfl | hrest
      · exact hclock.1
      · exact hclock.1.trans (ih hclock.2 hrest)

/-- After the end of a window nothing is admitted in it. -/
theorem countP_admittedIn_late (l : RateLimiter) {calls : List Call} (hclock : InOrder now calls)
    (key : String) {start : DateTime} {T : ℚ} (hlate : T < totalSeconds (now - start)) :
    (l.answered calls).countP (admittedIn key start T) = 0 := by
  rw [List.countP_eq_zero]
  intro answer hanswer hadmitted
  have hlater := answered_later hclock hanswer
  have hin : totalSeconds (answer.1.now - start) ≤ T := by
    rw [admittedIn, Bool.and_eq_true] at hadmitted
    exact of_decide_eq_true hadmitted.2
  have helapsed : totalSeconds (now - start) ≤ totalSeconds (answer.1.now - start) := by
    unfold totalSeconds
    refine div_le_div_of_nonneg_right ?_ (by norm_num)
    exact_mod_cast Int.sub_le_sub_right hlater start
  linarith

/-- From inside the window on, the level and what comes in pay for every admission. -/
theorem countP_admittedIn_le (hsound : l.Sound now) {calls : List Call} (hclock : InOrder now calls)
    (key : String) {start : DateTime} {T : ℚ} (hstart : start ≤ now)
    (hin : totalSeconds (now - start) ≤ T) :
    ((l.answered calls).countP (admittedIn key start T) : ℚ) ≤
      l.level now key + (T - totalSeconds (now - start)) * (l.limit / 60) := by
  induction calls generalizing l now with
  | nil =>
      have hlevel := level_nonneg hsound key
      have hcomes : 0 ≤ (T - totalSeconds (now - start)) * (l.limit / 60) :=
        mul_nonneg (by linarith) l.rate_nonneg
      simpa [answered] using add_nonneg hlevel hcomes
  | cons call rest ih =>
      have hlater := hclock.1
      have hlevel := level_nonneg hsound key
      have hrate := l.rate_nonneg
      by_cases hlate : totalSeconds (call.now - start) ≤ T
      · have hcall := hsound.later hlater
        have hrefill : l.level call.now key ≤
            l.level now key + totalSeconds (call.now - now) * (l.limit / 60) := by
          rw [level_later hlater]
          exact refill_le_add
        have helapsed : totalSeconds (now - start) + totalSeconds (call.now - now) =
            totalSeconds (call.now - start) := by
          rw [totalSeconds_add]
          congr 1
          unfold DateTime at *
          omega
        have hrest := ih (hcall.allow call.key) hclock.2 (hstart.trans hlater) hlate
        rw [level_allow hcall, (allow_limit hcall call.key).1] at hrest
        have hpaid : (((l.answered (call :: rest)).countP (admittedIn key start T) : ℕ) : ℚ) ≤
            l.level call.now key + (T - totalSeconds (call.now - start)) * (l.limit / 60) := by
          rw [answered, List.countP_cons]
          by_cases hpays : call.key = key ∧ (l.allow call.now call.key).2 = true
          · have hkey : l.level call.now call.key = l.level call.now key := by rw [hpays.1]
            rw [if_pos hpays, hkey] at hrest
            split <;> push_cast <;> linarith
          · have hnot : admittedIn key start T (call, (l.allow call.now call.key).2) = false := by
              rw [Bool.eq_false_iff]
              intro hadmitted
              simp only [admittedIn, Bool.and_eq_true, decide_eq_true_eq] at hadmitted
              exact hpays ⟨hadmitted.1.1.2, hadmitted.1.1.1⟩
            rw [if_neg hpays] at hrest
            rw [hnot]
            simpa using hrest
        nlinarith
      · have hcalls : InOrder call.now (call :: rest) := ⟨le_refl _, hclock.2⟩
        rw [countP_admittedIn_late l hcalls key (not_le.mp hlate)]
        have hcomes : 0 ≤ (T - totalSeconds (now - start)) * (l.limit / 60) :=
          mul_nonneg (by linarith) hrate
        simpa using add_nonneg hlevel hcomes

/-- A window admits no more than the limit and what comes in. -/
theorem countP_admittedIn_window (hsound : l.Sound now) {calls : List Call}
    (hclock : InOrder now calls) (key : String) (start : DateTime) {T : ℚ} (hT : 0 ≤ T) :
    ((l.answered calls).countP (admittedIn key start T) : ℚ) ≤ l.limit + l.limit * T / 60 := by
  have hlimit : (1 : ℚ) ≤ l.limit := by exact_mod_cast l.limit_pos
  have hbound : (0 : ℚ) ≤ l.limit + l.limit * T / 60 := by positivity
  induction calls generalizing l now with
  | nil => simpa [answered] using hbound
  | cons call rest ih =>
      have hcall := hsound.later hclock.1
      by_cases hearly : call.now < start
      · have hnot : admittedIn key start T (call, (l.allow call.now call.key).2) = false := by
          have hbefore : decide (start ≤ call.now) = false := decide_eq_false (not_le.mpr hearly)
          simp [admittedIn, hbefore]
        have hsame := (allow_limit hcall call.key).1
        have hrest := ih (hcall.allow call.key) hclock.2 (by rw [hsame]; exact hlimit)
          (by rw [hsame]; exact hbound)
        rw [answered, List.countP_cons, hnot, ← hsame]
        simpa using hrest
      · have hstart := not_lt.mp hearly
        have hcalls : InOrder call.now (call :: rest) := ⟨le_refl _, hclock.2⟩
        by_cases hlate : totalSeconds (call.now - start) ≤ T
        · have hlevel := l.level_le_limit call.now key
          have hpast := mul_nonneg (totalSeconds_nonneg hstart) l.rate_nonneg
          have hpaid := countP_admittedIn_le hcall hcalls key hstart hlate
          linarith
        · rw [countP_admittedIn_late l hcalls key (not_le.mp hlate)]
          simpa using hbound

/-- What the bounded limiter shows over a sequence of calls. -/
structure BehavesAsPlain (l : RateLimiter) (limit maxKeys : Int) (calls : List Call) : Prop where
  /-- Every answer is the plain one's, but for refusals for want of room. -/
  answers : ∀ before call rest, calls = before ++ call :: rest →
    ((l.after before).allow call.now call.key).2 =
      if (l.after before).refuses call.now call.key then false
      else ((plainAfter l (PlainLimiter.new limit) before).allow call.now call.key).2
  stored : ∀ before rest, calls = before ++ rest →
    ((l.after before).buckets.rows.length : Int) ≤ maxKeys ∧
      (l.after before).buckets.rows.Pairwise fun row later => row.2.2 ≤ later.2.2
  kept : ∀ before call rest, calls = before ++ call :: rest → ∀ stored tokens updated,
    (l.after before).buckets.lookup stored = some (tokens, updated) →
    totalSeconds (call.now - updated) < 60 →
    ∃ bucket, ((l.after before).allow call.now call.key).1.buckets.lookup stored = some bucket ∧
      (stored ≠ call.key → bucket = (tokens, updated))
  window : ∀ key start (T : ℚ), 0 ≤ T →
    ((l.answered calls).countP (admittedIn key start T) : ℚ) ≤ limit + limit * T / 60

theorem after_maxKeys (h : l.Tidy now) {calls : List Call} (hclock : InOrder now calls) :
    (l.after calls).maxKeys = l.maxKeys := by
  induction calls generalizing l now with
  | nil => rfl
  | cons call rest ih =>
      have hcall := h.later hclock.1
      exact (ih (hcall.allow call.key) hclock.2).trans (allow_limit hcall.sound call.key).2

/-- The bounded limiter behaves as the plain one, for every sequence of calls. -/
theorem bounded_behaves_as_plain {limit maxKeys : Int} (hnew : new limit maxKeys = .ok l)
    {calls : List Call} (hclock : InOrder now calls) : BehavesAsPlain l limit maxKeys calls := by
  have hisNew := isNew_of_new hnew
  have hfollows := hisNew.follows now
  have hreach {before rest : List Call} (heq : calls = before ++ rest) :
      InOrder now before ∧ InOrder (clock now before) rest := by
    rw [heq] at hclock
    exact inOrder_append.mp hclock
  constructor
  · intro before call rest heq
    obtain ⟨hbefore, hlater, -⟩ := hreach heq
    exact (((hfollows.after hbefore).later hlater).allow call.key).1
  · intro before rest heq
    have htidy := (hfollows.after (hreach heq).1).tidy
    refine ⟨?_, htidy.ordered⟩
    rw [← hisNew.maxKeys, ← after_maxKeys hfollows.tidy (hreach heq).1]
    exact htidy.bounded
  · intro before call rest heq stored tokens updated hstored hlive
    obtain ⟨hbefore, hlater, -⟩ := hreach heq
    exact lookup_allow_live ((hfollows.after hbefore).tidy.later hlater) call.key hstored hlive
  · intro key start T hT
    rw [← hisNew.limit]
    exact countP_admittedIn_window hfollows.tidy.sound hclock key start hT

end Runs

/-- One admission a minute for each of at most two callers. -/
def smallLimiter : RateLimiter where
  limit := 1
  maxKeys := 2
  limit_pos := le_rfl
  maxKeys_pos := by decide

/-- Two callers fill the table, a third finds no room, and a minute later it does. -/
def smallCalls : List Call := [⟨0, "one"⟩, ⟨0, "two"⟩, ⟨0, "three"⟩, ⟨61000000, "three"⟩]

theorem bounded_behaves_small : BehavesAsPlain smallLimiter 1 2 smallCalls := by
  have hnew : new 1 2 = .ok smallLimiter := rfl
  have hclock : InOrder 0 smallCalls := by simp [InOrder, smallCalls]
  exact bounded_behaves_as_plain hnew hclock

example : (smallLimiter.answered smallCalls).map Prod.snd = [true, true, false, true] := by
  decide +kernel

/-! ### The plain limiter on the same calls -/

/-- The plain limiter by itself: every call reaches it. -/
def plainAlone (limit : Int) (calls : List Call) : PlainLimiter :=
  calls.foldl (fun p call => (p.allow call.now call.key).1) (PlainLimiter.new limit)

/-- Every answer is the one that the plain limiter gives on the same calls, but for refusals for
want of room. -/
def AnswersAsPlainAlone (l : RateLimiter) (limit : Int) (calls : List Call) : Prop :=
  ∀ before call rest, calls = before ++ call :: rest →
    ((l.after before).allow call.now call.key).2 =
      if (l.after before).refuses call.now call.key then false
      else ((plainAlone limit before).allow call.now call.key).2

/-- The only bucket is taken when the second caller comes first, and idle when it comes again. -/
def crowdedCalls : List Call := [⟨0, "a"⟩, ⟨59000000, "b"⟩, ⟨60000000, "b"⟩]

/-- A call that finds no room costs nothing, while it takes a token of a plain limiter. -/
theorem refused_for_room_costs_nothing :
    ¬ ∀ (limit maxKeys : Int) (l : RateLimiter) (now : DateTime) (calls : List Call),
      new limit maxKeys = .ok l → InOrder now calls → AnswersAsPlainAlone l limit calls := by
  intro h
  let l : RateLimiter :=
    { limit := 1, maxKeys := 1, limit_pos := by decide, maxKeys_pos := by decide }
  have hclock : InOrder 0 crowdedCalls := by simp [InOrder, crowdedCalls]
  have hthird := h 1 1 l 0 crowdedCalls rfl hclock
    [⟨0, "a"⟩, ⟨59000000, "b"⟩] ⟨60000000, "b"⟩ [] rfl
  exact absurd hthird (by decide +kernel)

end RateLimiter

end GpuWorkerPool
