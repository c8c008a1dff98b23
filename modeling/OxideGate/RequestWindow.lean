import OxideGate.LeaseBookTheorems
import OxideGate.Lib.Windows
import OxideGate.RateLimit
import OxideGate.TokenWindow

/-!
# The request bucket admits exactly what the rate allows

In runs of operations that do not overlap the tenant keeps the pace of its limits (`Serial.Paced`),
and the level of the request bucket is the least that any window since the tenant was built leaves
over (`Rated`), so `admit` refuses a request as `RateLimited` exactly when it is one too many for
some window.
-/

namespace OxideGate

open Runs Windows

namespace Account

/-- The readings of the successful calls of `admit`, in their order. -/
def grants (s : Account) : List Instant := s.leases.map Record.grantedAt

/-- The level of the request bucket is what the grants since `t0` have left. -/
structure Rated (burst r : ℚ) (t0 : Instant) (s : Account) : Prop where
  capacity : s.requests.capacity = burst
  perSec : s.requests.perSec = r
  isLevel : IsLevel burst r t0 s.grants s.requests.last s.requests.level

theorem rated_new (cfg : TenantConfig ℚ) (t0 : Instant) :
    Rated (max cfg.requestsPerSecond 1) cfg.requestsPerSecond t0 (new cfg t0) where
  capacity := by
    show max cfg.requestsPerSecond ((1 : ℕ) : ℚ) = _
    rw [Nat.cast_one]
  perSec := rfl
  isLevel := by
    show IsLevel _ _ t0 [] t0 (max cfg.requestsPerSecond ((1 : ℕ) : ℚ))
    rw [Nat.cast_one]
    exact isLevel_full _ _ t0

section
variable {burst r : ℚ} {t0 : Instant} {s : Account}

/-- A refill at a reading that is not older than the last one. -/
theorem Rated.refill (h : Rated burst r t0 s) (hr : 0 ≤ r) {now : Instant}
    (hlast : s.requests.last ≤ now) :
    IsLevel burst r t0 s.grants now (s.requests.refill now).level := by
  rcases hlast.lt_or_eq with hlt | heq
  · have helapse := h.isLevel.elapse hr hlt
    rw [Bucket.refill_of_lt hlt, h.perSec, h.capacity, Rat.cast_id]
    exact helapse
  · rw [Bucket.refill_of_le heq.ge, ← heq]
    exact h.isLevel

/-- Nothing that counts has changed. -/
theorem Rated.frame (h : Rated burst r t0 s) {s' : Account} (hreq : s'.requests = s.requests)
    (hgrants : s'.grants = s.grants) : Rated burst r t0 s' where
  capacity := hreq ▸ h.capacity
  perSec := hreq ▸ h.perSec
  isLevel := by
    rw [hreq, hgrants]
    exact h.isLevel

/-- The bucket has been refilled at `now`, and then perhaps paid for a grant. -/
theorem Rated.refilled (h : Rated burst r t0 s) {s' : Account} {now : Instant} {level : ℚ}
    (hreq : s'.requests = { s.requests.refill now with level })
    (hlevel : IsLevel burst r t0 s'.grants now level) : Rated burst r t0 s' where
  capacity := by
    rw [hreq]
    exact (Bucket.refill_capacity _ _).trans h.capacity
  perSec := by
    rw [hreq]
    exact (Bucket.refill_perSec _ _).trans h.perSec
  isLevel := by
    rw [hreq, Bucket.refill_last]
    exact hlevel

/-- One critical section; only a grant counts. -/
theorem Rated.step (h : Rated burst r t0 s) (hr : 0 ≤ r) {s' : Account} {a : Act}
    (hs : Stepped s a s') (hlast : ∀ now ∈ a.reading, s.requests.last ≤ now) :
    Rated burst r t0 s' := by
  cases hs with
  | concurrencyLimited | probed | counted => exact h.frame rfl rfl
  | rateLimited now | tokenBudget now => exact h.refilled rfl (h.refill hr (hlast now rfl))
  | granted now reserve =>
    refine h.refilled rfl ?_
    rw [grants, List.map_append]
    exact (h.refill hr (hlast now rfl)).grant
  | recorded id n rec hrec hlive => exact h.frame rfl (map_grantedAt_set hrec rfl)
  | dropped id now rec hrec hlive => exact h.frame rfl (map_grantedAt_set hrec rfl)

end

end Account

namespace Serial

open Account

/-! ## The pace of a serial run -/

/-- The invariant of a serial run: the account keeps its pace. -/
structure Paced (burst r rate : ℚ) (t0 : Instant) (s : Serial) : Prop where
  account : s.account.Paced burst r rate t0
  requests_last : s.account.requests.last ≤ s.clock
  tokens_last : s.account.tokens.last ≤ s.clock

/-- A tenant that has just been built. -/
theorem paced_start (cfg : TenantConfig ℚ) (t0 : Instant) :
    Paced (max cfg.requestsPerSecond 1) cfg.requestsPerSecond (cfg.tokensPerMinute.toNat / 60) t0
      (start cfg t0) where
  account := Account.paced_new cfg t0
  requests_last := le_rfl
  tokens_last := le_rfl

/-- In a serial run no reading is overtaken. -/
theorem Paced.step {burst r rate : ℚ} {t0 : Instant} (hr : 0 ≤ r) (hrate : 0 ≤ rate)
    {s s' : Serial} {a : Act} (h : Paced burst r rate t0 s) (hs : s.step a = some s') :
    Paced burst r rate t0 s' := by
  obtain ⟨hclock, -, hstep⟩ := step_cases hs
  have hreading := reading_eq hs
  have hreq := h.requests_last.trans hclock
  have htok := h.tokens_last.trans hclock
  have hcases := Account.step_cases hstep
  have hlast := Account.last_le hcases (fun now hnow => (hreading now hnow).le) hreq htok
  have hord : s.account.InOrder a := by
    cases a with
    | admission now reserve =>
      rw [← hreading now rfl] at hreq htok
      exact fun _ => ⟨hreq, fun _ => htok⟩
    | drop id now =>
      rw [← hreading now rfl] at htok
      exact htok
    | tokensAvailable now =>
      rw [← hreading now rfl] at htok
      exact htok
    | recordTokens id k => trivial
    | active => trivial
  exact ⟨h.account.step hr hrate hcases hord, hlast.1, hlast.2⟩

/-- Critical sections with readings in order are a serial run. -/
theorem exec_of_pairwise {acc acc' : Account} {acts : List Act} {clock now : Instant}
    (hrun : exec Account.step acc acts = some acc')
    (hord : (clock :: ((acts.flatMap fun b => b.reading.toList) ++ [now])).Pairwise (· ≤ ·)) :
    ∃ last, exec step ⟨acc, clock⟩ acts = some ⟨acc', last⟩ ∧ last ≤ now := by
  induction acts generalizing acc clock with
  | nil =>
    rw [exec_nil, Option.some.injEq] at hrun
    refine ⟨clock, by rw [hrun]; rfl, ?_⟩
    simpa using hord
  | cons a acts ih =>
    obtain ⟨b, hb, hrest⟩ := (exec_cons _).mp hrun
    cases hread : a.reading with
    | none =>
      have hstep : step ⟨acc, clock⟩ a = some ⟨b, clock⟩ := by
        simp [step, hread, hb]
      rw [List.flatMap_cons, hread] at hord
      obtain ⟨last, hlast, hle⟩ := ih hrest hord
      exact ⟨last, (exec_cons _).mpr ⟨_, hstep, hlast⟩, hle⟩
    | some reading =>
      rw [List.flatMap_cons, hread] at hord
      have hclock : clock ≤ reading := (List.pairwise_cons.mp hord).1 reading (by simp)
      have hstep : step ⟨acc, clock⟩ a = some ⟨b, reading⟩ := by
        simp [step, hread, hb, hclock]
      obtain ⟨last, hlast, hle⟩ := ih hrest (List.pairwise_cons.mp hord).2
      exact ⟨last, (exec_cons _).mpr ⟨_, hstep, hlast⟩, hle⟩

/-! ## Refusals -/

/-- The request bucket and the concurrency slots in a serial run. -/
structure Rated (burst r : ℚ) (t0 : Instant) (m : UInt32) (s : Serial) : Prop where
  account : s.account.Rated burst r t0
  requests_last : s.account.requests.last ≤ s.clock
  tokens_last : s.account.tokens.last ≤ s.clock
  counted : (LeaseBook.ofAccount s.account).Counted m

theorem rated_start (cfg : TenantConfig ℚ) (t0 : Instant) :
    Rated (max cfg.requestsPerSecond 1) cfg.requestsPerSecond t0 cfg.maxConcurrent
      (start cfg t0) where
  account := rated_new cfg t0
  requests_last := le_refl t0
  tokens_last := le_refl t0
  counted := LeaseBook.counted_new (t := .fromConfig cfg t0) rfl

theorem Rated.step {burst r : ℚ} {t0 : Instant} {m : UInt32} (hr : 0 ≤ r) {s s' : Serial}
    {a : Act} (h : Rated burst r t0 m s) (hs : s.step a = some s') : Rated burst r t0 m s' := by
  obtain ⟨hclock, -, hstep⟩ := step_cases hs
  have hstepped := Account.step_cases hstep
  have hreading := reading_eq hs
  have hlast := Account.last_le hstepped (fun now hnow => (hreading now hnow).le)
    (h.requests_last.trans hclock) (h.tokens_last.trans hclock)
  refine ⟨h.account.step hr hstepped fun now hnow => ?_, hlast.1, hlast.2,
    h.counted.step (LeaseBook.step_cases (LeaseBook.ofAccount_step hstep))⟩
  rw [hreading now hnow]
  exact h.requests_last.trans hclock

/-- In a run of operations that do not overlap, a request that finds a free concurrency slot at
`now` is refused as `RateLimited` exactly when it is one too many since some time `u`. -/
theorem rate_limited_iff (cfg : TenantConfig ℚ) (hr : 0 < cfg.requestsPerSecond) (t0 : Instant)
    {acts : List Act} {s : Serial} (hrun : exec step (start cfg t0) acts = some s)
    {now : Instant} (hnow : s.clock ≤ now)
    (hroom : s.account.leases.countP Record.isLive < cfg.maxConcurrent.toNat) (reserve : UInt64) :
    (s.account.tenant.admitLease now reserve).1 = .error .rateLimited ↔
      ∃ u, t0 ≤ u ∧ u ≤ now ∧ max cfg.requestsPerSecond 1 + cfg.requestsPerSecond * (now - u)
        < since s.account.grants u + 1 := by
  have hrated := exec_invariant (fun _ _ _ h hs => Rated.step hr.le h hs) (rated_start cfg t0) hrun
  have hlevel := hrated.account.refill hr.le (hrated.requests_last.trans hnow)
  have hactive : s.account.tenant.state.active < s.account.tenant.maxConcurrent := by
    have hcount := hrated.counted.active_eq
    have hmax := hrated.counted.max_eq
    rw [LeaseBook.ofAccount_live] at hcount
    rw [show s.account.tenant.maxConcurrent = cfg.maxConcurrent from hmax, UInt32.lt_iff_toNat_lt]
    exact hcount ▸ hroom
  rw [Tenant.admitLease_rateLimited]
  have hiff := hlevel.lt_iff 1
  unfold leftOver at hiff
  rw [show (s.account.tenant.state.requests.refill now).level
    = (s.account.requests.refill now).level from rfl, Nat.cast_one, hiff]
  constructor
  · intro h
    obtain ⟨-, u, h0, hu, hlt⟩ := h
    exact ⟨u, h0, hu, by linarith⟩
  · intro h
    obtain ⟨u, h0, hu, hlt⟩ := h
    exact ⟨hactive, u, h0, hu, by linarith⟩

/-- A burst of two, a refusal, and a lease dropped in between. -/
theorem rate_limited_iff_burst :
    let cfg : TenantConfig ℚ := ⟨"acme", "key", .free, 60, 2, 4⟩
    ∃ s : Serial, exec step (start cfg 0)
        [.admission 0 1, .admission 0 1, .admission 0 1, .drop 0 (1 / 4)] = some s ∧
      ((s.account.tenant.admitLease (1 / 4) 1).1 = .error .rateLimited ↔
        ∃ u, 0 ≤ u ∧ u ≤ 1 / 4 ∧
          max 2 1 + 2 * (1 / 4 - u) < (since s.account.grants u : ℚ) + 1) := by
  intro cfg
  have hcond : ((exec step (start cfg 0)
      [.admission 0 1, .admission 0 1, .admission 0 1, .drop 0 (1 / 4)]).any fun s =>
        decide (s.clock ≤ 1 / 4) && decide (s.account.leases.countP Record.isLive < 4)) = true := by
    decide +kernel
  cases hs : exec step (start cfg 0)
      [.admission 0 1, .admission 0 1, .admission 0 1, .drop 0 (1 / 4)] with
  | none =>
    rw [hs] at hcond
    exact absurd hcond (by simp)
  | some s =>
    rw [hs, Option.any_some, Bool.and_eq_true, decide_eq_true_eq, decide_eq_true_eq] at hcond
    exact ⟨s, rfl, rate_limited_iff cfg (by norm_num [cfg]) 0 hs hcond.1 hcond.2 1⟩

end Serial
end OxideGate
