import OxideGate.AccountTheorems
import OxideGate.Clocked

/-!
# The rate limit under concurrency

`refill` sets `last` to the reading it is given, an older one too. A thread that is overtaken
between reading the clock and taking the lock therefore turns `last` back, and the next refill
pays a second time for time that has been paid already (`overtaken_admits`). In runs where no
refill comes with an overtaken reading, the limit holds (`rate_limit_of_inOrder`).
-/

namespace OxideGate

open Runs

namespace Account

/-- What an account has admitted and refilled since `t0` is paid for by the time up to the
last reading of each bucket. -/
structure Paced (burst r rate : ℚ) (t0 : Instant) (s : Account) : Prop where
  requests_perSec : s.requests.perSec = r
  tokens_perSec : s.tokens.perSec = rate
  level_le : s.requests.level ≤ s.requests.capacity
  level_nonneg : 0 ≤ s.requests.level
  admits : s.requests.level + s.leases.length ≤ burst + r * (s.requests.last - t0)
  added : s.added ≤ rate * (s.tokens.last - t0)

theorem paced_new (cfg : TenantConfig ℚ) (t0 : Instant) :
    Paced (max cfg.requestsPerSecond 1) cfg.requestsPerSecond (cfg.tokensPerMinute.toNat / 60) t0
      (new cfg t0) where
  requests_perSec := rfl
  tokens_perSec := rfl
  level_le := le_rfl
  level_nonneg := by
    show 0 ≤ max cfg.requestsPerSecond ((1 : ℕ) : ℚ)
    rw [Nat.cast_one]
    exact le_max_of_le_right one_pos.le
  admits := by
    show max cfg.requestsPerSecond ((1 : ℕ) : ℚ) + ((0 : ℕ) : ℚ)
      ≤ max cfg.requestsPerSecond 1 + cfg.requestsPerSecond * (t0 - t0)
    rw [Nat.cast_one, Nat.cast_zero, sub_self, mul_zero]
  added := by
    show (0 : ℚ) ≤ (cfg.tokensPerMinute.toNat : ℚ) / ((60 : ℕ) : ℚ) * (t0 - t0)
    rw [sub_self, mul_zero]

section
variable {burst r rate : ℚ} {t0 : Instant} {s : Account} {now : Instant}

/-- The request bucket after a refill that is not overtaken. -/
theorem Paced.refill_requests (h : Paced burst r rate t0 s) (hr : 0 ≤ r)
    (hlast : s.requests.last ≤ now) :
    (s.requests.refill now).perSec = r ∧
      (s.requests.refill now).level ≤ (s.requests.refill now).capacity ∧
      0 ≤ (s.requests.refill now).level ∧
      (s.requests.refill now).level + s.leases.length
        ≤ burst + r * ((s.requests.refill now).last - t0) := by
  have hrate : 0 ≤ s.requests.perSec := h.requests_perSec ▸ hr
  have hgrow := s.requests.le_refill_level now h.level_le hrate
  have hadd := s.requests.refill_level_le_add now hlast hrate
  have hadmits := h.admits
  have hnonneg := h.level_nonneg
  rw [h.requests_perSec] at hadd
  rw [Bucket.refill_perSec, Bucket.refill_capacity, Bucket.refill_last]
  exact ⟨h.requests_perSec, s.requests.refill_level_le now h.level_le, by linarith, by linarith⟩

/-- The token bucket after a refill that is not overtaken. -/
theorem Paced.refill_tokens (h : Paced burst r rate t0 s) (hrate : 0 ≤ rate)
    (hlast : s.tokens.last ≤ now) : (s.tokens.refill now).perSec = rate ∧
      s.added + s.tokens.gain now ≤ rate * ((s.tokens.refill now).last - t0) := by
  have hgain := s.tokens.gain_le now hlast (h.tokens_perSec ▸ hrate)
  have hadded := h.added
  rw [h.tokens_perSec] at hgain
  rw [Bucket.refill_perSec, Bucket.refill_last]
  exact ⟨h.tokens_perSec, by linarith⟩

end

/-- A critical section that refills in order keeps the pace. -/
theorem Paced.step {burst r rate : ℚ} {t0 : Instant} (hr : 0 ≤ r) (hrate : 0 ≤ rate)
    {s s' : Account} {a : Act} (h : Paced burst r rate t0 s) (hs : Stepped s a s')
    (hord : s.InOrder a) : Paced burst r rate t0 s' := by
  cases hs with
  | concurrencyLimited => exact h
  | counted => exact h
  | rateLimited now reserve hroom hlimit =>
    -- the token bucket is not looked at
    obtain ⟨hperSec, hle, hnonneg, hadmits⟩ := h.refill_requests hr (hord hroom).1
    exact ⟨hperSec, h.tokens_perSec, hle, hnonneg, hadmits, h.added⟩
  | tokenBudget now reserve hroom hlimit hbudget =>
    obtain ⟨hperSec, hle, hnonneg, hadmits⟩ := h.refill_requests hr (hord hroom).1
    obtain ⟨htokens, hadded⟩ := h.refill_tokens hrate ((hord hroom).2 hlimit)
    exact ⟨hperSec, htokens, hle, hnonneg, hadmits, hadded⟩
  | granted now reserve hroom hlimit hbudget =>
    obtain ⟨hperSec, hle, hnonneg, hadmits⟩ := h.refill_requests hr (hord hroom).1
    obtain ⟨htokens, hadded⟩ := h.refill_tokens hrate ((hord hroom).2 hlimit)
    refine ⟨hperSec, htokens, ?_, ?_, ?_, hadded⟩
    · show (s.requests.refill now).level - 1 ≤ (s.requests.refill now).capacity
      linarith
    · show 0 ≤ (s.requests.refill now).level - 1
      linarith
    · -- the grant is paid with one unit of the level
      show (s.requests.refill now).level - 1 + ((s.leases ++ [_]).length : ℚ)
        ≤ burst + r * ((s.requests.refill now).last - t0)
      rw [List.length_append, List.length_singleton]
      push_cast
      linarith
  | recorded id n r hr hlive =>
    refine ⟨h.requests_perSec, h.tokens_perSec, h.level_le, h.level_nonneg, ?_, h.added⟩
    show s.requests.level + ((s.leases.set id _).length : ℚ) ≤ _
    rw [List.length_set]
    exact h.admits
  | dropped id now r hr hlive =>
    obtain ⟨htokens, hadded⟩ := h.refill_tokens hrate hord
    refine ⟨h.requests_perSec, htokens, h.level_le, h.level_nonneg, ?_, hadded⟩
    show s.requests.level + ((s.leases.set id _).length : ℚ) ≤ _
    rw [List.length_set]
    exact h.admits
  | probed now =>
    obtain ⟨htokens, hadded⟩ := h.refill_tokens hrate hord
    exact ⟨h.requests_perSec, htokens, h.level_le, h.level_nonneg, h.admits, hadded⟩

end Account

namespace Clocked

/-- What one event does. -/
inductive Stepped (s : Clocked) : Event → Clocked → Prop
  | tick (dt : ℚ) (hdt : 0 ≤ dt) : Stepped s (.tick dt) { s with clock := s.clock + dt }
  | read (thread : ℕ) (call : Call) (hfree : s.calls thread = none) :
      Stepped s (.read thread call)
        { s with calls := Function.update s.calls thread (some (call, s.clock)) }
  | enter (thread : ℕ) (call : Call) (now : Instant) (account : Account)
      (hcall : s.calls thread = some (call, now))
      (hstep : s.account.step (call.act now) = some account) :
      Stepped s (.enter thread)
        { s with account := account, calls := Function.update s.calls thread none }
  | tokensAvailable (account : Account)
      (hstep : s.account.step (.tokensAvailable s.clock) = some account) :
      Stepped s .tokensAvailable { s with account := account }
  | recordTokens (id : ℕ) (n : UInt64) (account : Account)
      (hstep : s.account.step (.recordTokens id n) = some account) :
      Stepped s (.recordTokens id n) { s with account := account }
  | active (account : Account) (hstep : s.account.step .active = some account) :
      Stepped s .active { s with account := account }

theorem step_cases {s s' : Clocked} {e : Event} (h : s.step e = some s') : Stepped s e s' := by
  cases e with
  | tick dt =>
    by_cases hdt : 0 ≤ dt
    · simp only [step, if_pos hdt, Option.some.injEq] at h
      exact h ▸ .tick dt hdt
    · simp [step, if_neg hdt] at h
  | read thread call =>
    cases hc : s.calls thread with
    | none =>
      simp only [step, hc, Option.some.injEq] at h
      exact h ▸ .read thread call hc
    | some p => simp [step, hc] at h
  | enter thread =>
    cases hc : s.calls thread with
    | none => simp [step, hc] at h
    | some p =>
      obtain ⟨call, now⟩ := p
      simp only [step, hc] at h
      obtain ⟨account, hstep, rfl⟩ := Option.map_eq_some_iff.mp h
      exact .enter thread call now account hc hstep
  | tokensAvailable =>
    have h : (s.account.step (.tokensAvailable s.clock)).map
        (fun account => { s with account := account }) = some s' := h
    obtain ⟨account, hstep, rfl⟩ := Option.map_eq_some_iff.mp h
    exact .tokensAvailable account hstep
  | recordTokens id n =>
    obtain ⟨account, hstep, rfl⟩ := Option.map_eq_some_iff.mp h
    exact .recordTokens id n account hstep
  | active =>
    have h : (s.account.step .active).map (fun account => { s with account := account })
      = some s' := h
    obtain ⟨account, hstep, rfl⟩ := Option.map_eq_some_iff.mp h
    exact .active account hstep

/-- The invariant of the threads' runs in order: the account keeps its pace, and no reading is
ahead of the clock. -/
structure OnTime (burst r rate : ℚ) (t0 : Instant) (s : Clocked) : Prop where
  paced : s.account.Paced burst r rate t0
  requests_last : s.account.requests.last ≤ s.clock
  tokens_last : s.account.tokens.last ≤ s.clock
  calls : ∀ thread call now, s.calls thread = some (call, now) → now ≤ s.clock

theorem onTime_start (cfg : TenantConfig ℚ) (t0 : Instant) :
    OnTime (max cfg.requestsPerSecond 1) cfg.requestsPerSecond (cfg.tokensPerMinute.toNat / 60) t0
      (start cfg t0) where
  paced := Account.paced_new cfg t0
  requests_last := le_rfl
  tokens_last := le_rfl
  calls := fun _ _ _ hc => by simp [start] at hc

/-- A critical section with a reading that is not ahead of the clock. -/
theorem OnTime.locked {burst r rate : ℚ} {t0 : Instant} (hr : 0 ≤ r) (hrate : 0 ≤ rate)
    {s : Clocked} (h : OnTime burst r rate t0 s) {a : Account.Act} {account : Account}
    (hstep : s.account.step a = some account) (hnow : ∀ now ∈ a.reading, now ≤ s.clock)
    (hord : s.account.InOrder a) : OnTime burst r rate t0 { s with account := account } := by
  have hcases := Account.step_cases hstep
  obtain ⟨hreq, htok⟩ := Account.last_le hcases hnow h.requests_last h.tokens_last
  exact ⟨h.paced.step hr hrate hcases hord, hreq, htok, h.calls⟩

theorem OnTime.step {burst r rate : ℚ} {t0 : Instant} (hr : 0 ≤ r) (hrate : 0 ≤ rate)
    {s s' : Clocked} {e : Event} (h : OnTime burst r rate t0 s) (hord : s.InOrder e)
    (hs : Stepped s e s') : OnTime burst r rate t0 s' := by
  cases hs with
  | tick dt hdt =>
    have hclock : s.clock ≤ s.clock + dt := le_add_of_nonneg_right hdt
    exact ⟨h.paced, h.requests_last.trans hclock, h.tokens_last.trans hclock,
      fun thread call now hc => (h.calls thread call now hc).trans hclock⟩
  | read thread call hfree =>
    refine ⟨h.paced, h.requests_last, h.tokens_last, fun thread' call' now hc => ?_⟩
    show now ≤ s.clock
    by_cases ht : thread' = thread
    · simp only [ht, Function.update_self, Option.some.injEq, Prod.mk.injEq] at hc
      exact le_of_eq hc.2.symm
    · simp only [Function.update_of_ne ht] at hc
      exact h.calls thread' call' now hc
  | enter thread call now account hcall hstep =>
    -- the reading is from the time of the call, and the clock has not gone back since
    have hle := h.calls thread call now hcall
    simp only [InOrder, hcall] at hord
    have hnow : ∀ now' ∈ (call.act now).reading, now' ≤ s.clock := by
      intro now' hnow'
      cases call <;> exact (Option.some.inj hnow') ▸ hle
    have hafter := h.locked hr hrate hstep hnow hord
    refine ⟨hafter.paced, hafter.requests_last, hafter.tokens_last,
      fun thread' call' now' hc => ?_⟩
    by_cases ht : thread' = thread
    · simp [ht] at hc
    · simp only [Function.update_of_ne ht] at hc
      exact h.calls thread' call' now' hc
  | tokensAvailable account hstep =>
    refine h.locked hr hrate hstep ?_ h.tokens_last
    intro now hnow
    exact le_of_eq (Option.some.inj hnow).symm
  | recordTokens id n account hstep =>
    exact h.locked hr hrate hstep (fun _ hnow => nomatch hnow) trivial
  | active account hstep =>
    exact h.locked hr hrate hstep (fun _ hnow => nomatch hnow) trivial

/-- The rate limit, for every interleaving in which no refill comes with an overtaken
reading. -/
theorem rate_limit_of_inOrder (cfg : TenantConfig ℚ) (hr : 0 < cfg.requestsPerSecond)
    (t0 : Instant) (events : List Event) (s : Clocked)
    (hrun : exec step (start cfg t0) events = some s)
    (hord : Along step InOrder (start cfg t0) events) :
    (s.account.leases.length : ℚ)
        ≤ max cfg.requestsPerSecond 1 + cfg.requestsPerSecond * (s.clock - t0) ∧
      s.account.added ≤ cfg.tokensPerMinute.toNat / 60 * (s.clock - t0) := by
  have hrate := Account.rate_nonneg cfg
  have h := exec_invariant_along
    (fun _ _ _ hi hp hs => OnTime.step hr.le hrate hi hp (step_cases hs)) (onTime_start cfg t0)
    hord hrun
  have hadmits := h.paced.admits
  have hadded := h.paced.added
  have hnonneg := h.paced.level_nonneg
  have hreq : cfg.requestsPerSecond * (s.account.requests.last - t0)
      ≤ cfg.requestsPerSecond * (s.clock - t0) :=
    mul_le_mul_of_nonneg_left (sub_le_sub_right h.requests_last t0) hr.le
  have htok : (cfg.tokensPerMinute.toNat / 60 : ℚ) * (s.account.tokens.last - t0)
      ≤ cfg.tokensPerMinute.toNat / 60 * (s.clock - t0) :=
    mul_le_mul_of_nonneg_left (sub_le_sub_right h.tokens_last t0) hrate
  exact ⟨by linarith, by linarith⟩

/-- Two calls a second apart, and a refused call that is not overtaken. -/
theorem rate_limit_of_inOrder_two :
    ∃ s : Clocked, exec step (start ⟨"acme", "key", .paid, 60, 1, 4⟩ 0)
        [.read 0 (.admission 1), .enter 0, .tick 1, .read 1 (.admission 1),
          .read 2 (.admission 1), .enter 1, .enter 2] = some s ∧
      (s.account.leases.length : ℚ) ≤ max 1 1 + 1 * (s.clock - 0) := by
  have hsome : (exec step (start ⟨"acme", "key", .paid, 60, 1, 4⟩ 0)
      [.read 0 (.admission 1), .enter 0, .tick 1, .read 1 (.admission 1),
        .read 2 (.admission 1), .enter 1, .enter 2]).isSome := by decide +kernel
  obtain ⟨s, hs⟩ := Option.isSome_iff_exists.mp hsome
  exact ⟨s, hs, (rate_limit_of_inOrder _ (by norm_num) 0 _ s hs (by decide +kernel)).1⟩

/-- A thread that is overtaken between reading the clock and taking the lock turns `last`
back, and one second pays for two requests. -/
theorem overtaken_admits :
    ∃ s : Clocked, exec step (start ⟨"acme", "key", .paid, 60, 1, 4⟩ 0)
        [.read 0 (.admission 1), .read 1 (.admission 1), .enter 1, .tick 1,
          .read 2 (.admission 1), .read 3 (.admission 1), .enter 2, .enter 0, .enter 3] = some s ∧
      ¬ (s.account.leases.length : ℚ) ≤ max 1 1 + 1 * (s.clock - 0) := by
  have hrun : (exec step (start ⟨"acme", "key", .paid, 60, 1, 4⟩ 0)
      [.read 0 (.admission 1), .read 1 (.admission 1), .enter 1, .tick 1,
        .read 2 (.admission 1), .read 3 (.admission 1), .enter 2, .enter 0, .enter 3]).map
      (fun s => (s.account.leases.length, s.clock)) = some (3, 1) := by decide +kernel
  obtain ⟨s, hs, he⟩ := Option.map_eq_some_iff.mp hrun
  rw [Prod.mk.injEq] at he
  refine ⟨s, hs, ?_⟩
  rw [he.1, he.2]
  norm_num

end Clocked
end OxideGate
