import OxideGate.Account
import OxideGate.TenantsTheorems
import Mathlib.Tactic.Ring

/-!
# Conservation of a tenant's tokens

`Kept` is the invariant of an account under every order of critical sections and every clock
reading: what the bucket started with plus what refills added is in the bucket, held by live
leases, used by dropped ones, or was cut off from a refund at the capacity.
-/

namespace OxideGate

open Runs Tally

namespace Bucket

variable (b : Bucket ℚ) (now : Instant)

theorem refill_level : (b.refill now).level = b.level + b.gain now := by
  unfold gain
  ring

/-- A refill takes nothing away. -/
theorem gain_nonneg (h : b.level ≤ b.capacity) (hrate : 0 ≤ b.perSec) : 0 ≤ b.gain now :=
  sub_nonneg.mpr (b.le_refill_level now h hrate)

/-- It adds what the time since the last one is worth at most. -/
theorem gain_le (hlast : b.last ≤ now) (hrate : 0 ≤ b.perSec) :
    b.gain now ≤ b.perSec * (now - b.last) := by
  have := b.refill_level_le_add now hlast hrate
  unfold gain
  linarith

end Bucket

namespace Record

variable {r : Record}

theorem held_live (h : r.isLive) : r.held = r.lease.reserved.toNat := if_pos h

theorem spent_live (h : r.isLive) : r.spent = 0 := if_pos h

theorem overuse_live (h : r.isLive) : r.overuse = 0 := if_pos h

/-- Nobody's overuse makes up for another's. -/
theorem overuse_nonneg (r : Record) : 0 ≤ r.overuse := by
  unfold overuse
  split
  · exact le_rfl
  · exact le_max_right _ _

end Record

namespace Account

/-- What one critical section does to an account. -/
inductive Stepped (s : Account) : Act → Account → Prop
  | concurrencyLimited (now : Instant) (reserve : UInt64)
      (hfull : s.tenant.maxConcurrent ≤ s.tenant.state.active) :
      Stepped s (.admission now reserve) s
  | rateLimited (now : Instant) (reserve : UInt64)
      (hroom : s.tenant.state.active < s.tenant.maxConcurrent)
      (hrate : (s.requests.refill now).level < 1) :
      Stepped s (.admission now reserve) { s with
        tenant := { s.tenant with state := { s.tenant.state with
          requests := s.requests.refill now } } }
  | tokenBudget (now : Instant) (reserve : UInt64)
      (hroom : s.tenant.state.active < s.tenant.maxConcurrent)
      (hrate : 1 ≤ (s.requests.refill now).level)
      (hbudget : (s.tokens.refill now).level < reserve.toNat) :
      Stepped s (.admission now reserve) { s with
        tenant := { s.tenant with state := { s.tenant.state with
          requests := s.requests.refill now
          tokens := s.tokens.refill now } }
        added := s.added + s.tokens.gain now }
  | granted (now : Instant) (reserve : UInt64)
      (hroom : s.tenant.state.active < s.tenant.maxConcurrent)
      (hrate : 1 ≤ (s.requests.refill now).level)
      (hbudget : reserve.toNat ≤ (s.tokens.refill now).level) :
      Stepped s (.admission now reserve)
        { tenant := { s.tenant with state :=
            { requests := { s.requests.refill now with
                level := (s.requests.refill now).level - 1 }
              tokens := { s.tokens.refill now with
                level := (s.tokens.refill now).level - reserve.toNat }
              active := s.tenant.state.active + 1 } }
          leases := s.leases ++ [⟨⟨reserve, 0⟩, now, none⟩]
          added := s.added + s.tokens.gain now
          cutOff := s.cutOff }
  | recorded (id : ℕ) (n : UInt64) (r : Record) (hr : s.leases[id]? = some r)
      (hlive : r.isLive) : Stepped s (.recordTokens id n) (s.recordOn id r n)
  | dropped (id : ℕ) (now : Instant) (r : Record) (hr : s.leases[id]? = some r)
      (hlive : r.isLive) : Stepped s (.drop id now) (s.dropOn id r now)
  | probed (now : Instant) :
      Stepped s (.tokensAvailable now) { s with
        tenant := { s.tenant with state := { s.tenant.state with
          tokens := s.tokens.refill now } }
        added := s.added + s.tokens.gain now }
  | counted : Stepped s .active s

/-- What `admit` does. -/
theorem stepped_admission (s : Account) (now : Instant) (reserve : UInt64) :
    Stepped s (.admission now reserve) (s.admission now reserve) := by
  have hcases := Tenant.admission_cases s.tenant now reserve
  unfold admission
  generalize s.tenant.admitLease now reserve = r at hcases
  cases hcases with
  | concurrencyLimited hfull => exact .concurrencyLimited now reserve hfull
  -- the model compares with a cast 1, to stay within any arithmetic
  | rateLimited hroom hrate =>
    rw [Nat.cast_one] at hrate
    exact .rateLimited now reserve hroom hrate
  | tokenBudget hroom hrate hbudget =>
    rw [Nat.cast_one] at hrate
    exact .tokenBudget now reserve hroom (not_lt.mp hrate) hbudget
  | granted hroom hrate hbudget =>
    have hone : ((1 : ℕ) : ℚ) = 1 := Nat.cast_one
    rw [hone] at hrate ⊢
    exact .granted now reserve hroom (not_lt.mp hrate) (not_lt.mp hbudget)

/-- Every critical section is one of these. -/
theorem step_cases {s s' : Account} {a : Act} (h : step s a = some s') : Stepped s a s' := by
  cases a with
  | admission now reserve =>
    rw [← Option.some.inj h]
    exact stepped_admission s now reserve
  | recordTokens id n =>
    obtain ⟨r, hr, rfl⟩ := Option.map_eq_some_iff.mp h
    obtain ⟨hr, hlive⟩ := Option.filter_eq_some_iff.mp hr
    exact .recorded id n r hr hlive
  | drop id now =>
    obtain ⟨r, hr, rfl⟩ := Option.map_eq_some_iff.mp h
    obtain ⟨hr, hlive⟩ := Option.filter_eq_some_iff.mp hr
    exact .dropped id now r hr hlive
  | tokensAvailable now =>
    rw [← Option.some.inj h]
    exact .probed now
  | active =>
    rw [← Option.some.inj h]
    exact .counted

/-- The buckets see only readings that the operations bring. -/
theorem last_le {s s' : Account} {a : Act} (hs : Stepped s a s') {clock : Instant}
    (hnow : ∀ now ∈ a.reading, now ≤ clock) (hreq : s.requests.last ≤ clock)
    (htok : s.tokens.last ≤ clock) : s'.requests.last ≤ clock ∧ s'.tokens.last ≤ clock := by
  have hrefill : ∀ (b : Bucket ℚ) (now : Instant), now ≤ clock → (b.refill now).last ≤ clock := by
    intro b now h
    rw [Bucket.refill_last]
    exact h
  cases hs with
  | concurrencyLimited => exact ⟨hreq, htok⟩
  | counted => exact ⟨hreq, htok⟩
  | recorded => exact ⟨hreq, htok⟩
  | rateLimited now => exact ⟨hrefill _ now (hnow now rfl), htok⟩
  | tokenBudget now => exact ⟨hrefill _ now (hnow now rfl), hrefill _ now (hnow now rfl)⟩
  | granted now => exact ⟨hrefill _ now (hnow now rfl), hrefill _ now (hnow now rfl)⟩
  | dropped id now => exact ⟨hreq, hrefill _ now (hnow now rfl)⟩
  | probed now => exact ⟨hreq, hrefill _ now (hnow now rfl)⟩

/-! ## Drops -/

/-- Dropping a lease refunds what it has left, up to the capacity. -/
theorem dropOn_level (s : Account) (id : ℕ) (r : Record) (now : Instant) :
    (s.dropOn id r now).tokens.level
      = min ((s.tokens.refill now).level + refund r.lease) s.tokens.capacity := by
  show min ((s.tokens.refill now).level + refund r.lease) (s.tokens.refill now).capacity = _
  rw [Bucket.refill_capacity]

/-- The level after a drop and what was cut off account for the whole refund. -/
theorem dropOn_level_add (s : Account) (id : ℕ) (r : Record) (now : Instant) :
    (s.dropOn id r now).tokens.level + (s.dropOn id r now).cutOff
      = s.tokens.level + s.tokens.gain now + refund r.lease + s.cutOff := by
  rw [dropOn_level, ← Bucket.refill_level]
  show _ + (s.cutOff + max ((s.tokens.refill now).level + refund r.lease - s.tokens.capacity) 0)
    = _
  rcases le_total ((s.tokens.refill now).level + refund r.lease) s.tokens.capacity with hle | hle
  · -- the refund fits, and nothing is cut off
    rw [min_eq_left hle, max_eq_right (sub_nonpos.mpr hle)]
    ring
  · rw [min_eq_right hle, max_eq_left (sub_nonneg.mpr hle)]
    ring

/-! ## The invariant -/

/-- The invariant of an account whose token bucket has capacity `C` and rate `rate`. -/
structure Kept (C rate : ℚ) (s : Account) : Prop where
  capacity : s.tokens.capacity = C
  perSec : s.tokens.perSec = rate
  level_le : s.tokens.level ≤ C
  balance : s.tokens.level + tally Record.held s.leases + tally Record.spent s.leases + s.cutOff
    = C + s.added
  /-- The level falls below zero only by what dropped leases have used too much. -/
  debt : 0 ≤ s.tokens.level + tally Record.overuse s.leases
  cutOff_nonneg : 0 ≤ s.cutOff

/-- The books of a new account are balanced. -/
theorem kept_new (cfg : TenantConfig ℚ) (t0 : Instant) :
    Kept cfg.tokensPerMinute.toNat (cfg.tokensPerMinute.toNat / 60) (new cfg t0) where
  capacity := rfl
  perSec := rfl
  level_le := le_rfl
  balance := by
    show (cfg.tokensPerMinute.toNat : ℚ) + 0 + 0 + 0 = cfg.tokensPerMinute.toNat + 0
    ring
  debt := by
    show (0 : ℚ) ≤ cfg.tokensPerMinute.toNat + 0
    rw [add_zero]
    exact Nat.cast_nonneg _
  cutOff_nonneg := le_rfl

/-- A refill without anything else. -/
theorem Kept.refilled {C rate : ℚ} (hrate : 0 ≤ rate) {s s' : Account} (h : Kept C rate s)
    {now : Instant} (ht : s'.tokens = s.tokens.refill now) (hl : s'.leases = s.leases)
    (ha : s'.added = s.added + s.tokens.gain now) (hc : s'.cutOff = s.cutOff) :
    Kept C rate s' := by
  have hle : s.tokens.level ≤ s.tokens.capacity := h.capacity ▸ h.level_le
  have hgain := s.tokens.gain_nonneg now hle (h.perSec ▸ hrate)
  have hbalance := h.balance
  have hdebt := h.debt
  exact
    { capacity := by rw [ht, Bucket.refill_capacity, h.capacity]
      perSec := by rw [ht, Bucket.refill_perSec, h.perSec]
      level_le := by
        rw [ht, ← h.capacity]
        exact s.tokens.refill_level_le now hle
      balance := by
        rw [ht, hl, ha, hc, Bucket.refill_level]
        linarith
      debt := by
        rw [ht, hl, Bucket.refill_level]
        linarith
      cutOff_nonneg := hc ▸ h.cutOff_nonneg }

/-- Recording tokens on a live lease changes no tally: it is settled when it is dropped. -/
theorem tally_recordOn {s : Account} {id : ℕ} {r : Record} (hr : s.leases[id]? = some r)
    (hlive : r.isLive) (n : UInt64) :
    tally Record.held (s.recordOn id r n).leases = tally Record.held s.leases ∧
      tally Record.spent (s.recordOn id r n).leases = tally Record.spent s.leases ∧
      tally Record.overuse (s.recordOn id r n).leases = tally Record.overuse s.leases := by
  have hlive' : Record.isLive { r with lease := r.lease.recordTokens n } := hlive
  refine ⟨tally_set_eq hr ?_, tally_set_eq hr ?_, tally_set_eq hr ?_⟩
  · rw [Record.held_live hlive, Record.held_live hlive']
    rfl
  · rw [Record.spent_live hlive, Record.spent_live hlive']
  · rw [Record.overuse_live hlive, Record.overuse_live hlive']

/-- A drop settles the lease's reservation against its use. -/
theorem Kept.dropOn {C rate : ℚ} (hrate : 0 ≤ rate) {s : Account} (h : Kept C rate s) {id : ℕ}
    {r : Record} (hr : s.leases[id]? = some r) (hlive : r.isLive) (now : Instant) :
    Kept C rate (s.dropOn id r now) := by
  have hle : s.tokens.level ≤ s.tokens.capacity := h.capacity ▸ h.level_le
  have hgain := s.tokens.gain_nonneg now hle (h.perSec ▸ hrate)
  have hbalance := h.balance
  have hdebt := h.debt
  have hlevel := s.dropOn_level_add id r now
  have hheld := tally_set Record.held hr { r with droppedAt := some now }
  have hspent := tally_set Record.spent hr { r with droppedAt := some now }
  have hover := tally_set Record.overuse hr { r with droppedAt := some now }
  rw [Record.held_live hlive] at hheld
  rw [Record.spent_live hlive, add_zero] at hspent
  rw [Record.overuse_live hlive, add_zero] at hover
  exact
    { capacity := by
        show (s.tokens.refill now).capacity = C
        rw [Bucket.refill_capacity, h.capacity]
      perSec := by
        show (s.tokens.refill now).perSec = rate
        rw [Bucket.refill_perSec, h.perSec]
      level_le := by
        rw [dropOn_level, h.capacity]
        exact min_le_right _ _
      balance := by
        show _ + tally Record.held (s.leases.set id { r with droppedAt := some now })
          + tally Record.spent (s.leases.set id { r with droppedAt := some now }) + _
          = C + (s.added + s.tokens.gain now)
        rw [refund] at hlevel
        rw [show Record.held { r with droppedAt := some now } = 0 from rfl] at hheld
        rw [show Record.spent { r with droppedAt := some now } = r.lease.used.toNat from rfl]
          at hspent
        linarith
      debt := by
        show 0 ≤ _ + tally Record.overuse (s.leases.set id { r with droppedAt := some now })
        rw [hover, dropOn_level, Bucket.refill_level]
        -- a negative refund is covered by the overuse of the lease
        have hmax : -refund r.lease
            ≤ Record.overuse { r with droppedAt := some now } := by
          show -refund r.lease
            ≤ max ((r.lease.used.toNat : ℚ) - (r.lease.reserved.toNat : ℚ)) 0
          rw [refund, neg_sub]
          exact le_max_left _ _
        have hnn := Record.overuse_nonneg { r with droppedAt := some now }
        rcases min_choice (s.tokens.level + s.tokens.gain now + refund r.lease)
          s.tokens.capacity with hmin | hmin
        · rw [hmin]
          linarith
        · -- at the capacity, which the level has not been above
          rw [hmin]
          linarith
      cutOff_nonneg := add_nonneg h.cutOff_nonneg (le_max_right _ _) }

/-- A grant moves the reservation from the refilled bucket to the new lease. -/
theorem Kept.granted {C rate : ℚ} (hrate : 0 ≤ rate) {s : Account} (h : Kept C rate s)
    {now : Instant} {reserve : UInt64} (hbudget : reserve.toNat ≤ (s.tokens.refill now).level)
    {requests : Bucket ℚ} {active : UInt32} :
    Kept C rate
      { tenant := { s.tenant with state :=
          { requests := requests
            tokens := { s.tokens.refill now with
              level := (s.tokens.refill now).level - reserve.toNat }
            active := active } }
        leases := s.leases ++ [⟨⟨reserve, 0⟩, now, none⟩]
        added := s.added + s.tokens.gain now
        cutOff := s.cutOff } := by
  have hr : Kept C rate { s with
      tenant := { s.tenant with state := { s.tenant.state with tokens := s.tokens.refill now } }
      added := s.added + s.tokens.gain now } := h.refilled hrate rfl rfl rfl rfl
  have hlevel : (s.tokens.refill now).level ≤ C := hr.level_le
  have hbalance : (s.tokens.refill now).level + tally Record.held s.leases
      + tally Record.spent s.leases + s.cutOff = C + (s.added + s.tokens.gain now) := hr.balance
  have hover : 0 ≤ tally Record.overuse s.leases := by
    refine List.sum_nonneg fun x hx => ?_
    obtain ⟨r, -, rfl⟩ := List.mem_map.mp hx
    exact r.overuse_nonneg
  have hnat : (0 : ℚ) ≤ reserve.toNat := Nat.cast_nonneg _
  have hnew : ∀ f : Record → ℚ, tally f (s.leases ++ [⟨⟨reserve, 0⟩, now, none⟩])
      = tally f s.leases + f ⟨⟨reserve, 0⟩, now, none⟩ := by
    intro f
    rw [tally_append, tally_cons, tally_nil, add_zero]
  have hheld : Record.held ⟨⟨reserve, 0⟩, now, none⟩ = reserve.toNat := Record.held_live rfl
  have hspent : Record.spent ⟨⟨reserve, 0⟩, now, none⟩ = 0 := Record.spent_live rfl
  have hdebt : Record.overuse ⟨⟨reserve, 0⟩, now, none⟩ = 0 := Record.overuse_live rfl
  refine ⟨hr.capacity, hr.perSec, ?_, ?_, ?_, h.cutOff_nonneg⟩
  · show (s.tokens.refill now).level - (reserve.toNat : ℚ) ≤ C
    linarith
  · rw [hnew, hnew, hheld, hspent]
    show (s.tokens.refill now).level - (reserve.toNat : ℚ) + _ + _ + _ = _
    linarith
  · rw [hnew, hdebt]
    show 0 ≤ (s.tokens.refill now).level - (reserve.toNat : ℚ) + _
    linarith

/-- One critical section keeps the invariant. -/
theorem Kept.step {C rate : ℚ} (hrate : 0 ≤ rate) {s s' : Account} {a : Act}
    (h : Kept C rate s) (hs : Stepped s a s') : Kept C rate s' := by
  cases hs with
  | concurrencyLimited => exact h
  | rateLimited now reserve hroom hlimit => exact ⟨h.1, h.2, h.3, h.4, h.5, h.6⟩
  | tokenBudget now reserve hroom hlimit hbudget => exact h.refilled hrate rfl rfl rfl rfl
  | granted now reserve hroom hlimit hbudget => exact h.granted hrate hbudget
  | recorded id n r hr hlive =>
    obtain ⟨hheld, hspent, hover⟩ := tally_recordOn hr hlive n
    refine ⟨h.capacity, h.perSec, h.level_le, ?_, ?_, h.cutOff_nonneg⟩
    · rw [hheld, hspent]
      exact h.balance
    · rw [hover]
      exact h.debt
  | dropped id now r hr hlive => exact h.dropOn hrate hr hlive now
  | probed now => exact h.refilled hrate rfl rfl rfl rfl
  | counted => exact h

/-- They stay so in every run. -/
theorem Kept.exec {C rate : ℚ} (hrate : 0 ≤ rate) {s s' : Account} {acts : List Act}
    (h : Kept C rate s) (hrun : exec Account.step s acts = some s') : Kept C rate s' :=
  exec_invariant (fun _ _ _ hi hs => Kept.step hrate hi (step_cases hs)) h hrun

theorem rate_nonneg (cfg : TenantConfig ℚ) : (0 : ℚ) ≤ cfg.tokensPerMinute.toNat / 60 :=
  div_nonneg (Nat.cast_nonneg _) (by norm_num)

/-- There is no debt where no lease uses more than it has reserved. -/
theorem tally_overuse_eq_zero {l : List Record}
    (h : ∀ r ∈ l, r.lease.used ≤ r.lease.reserved) : tally Record.overuse l = 0 := by
  have hzero : ∀ r ∈ l, r.overuse = 0 := by
    intro r hr
    have hle : (r.lease.used.toNat : ℚ) ≤ r.lease.reserved.toNat := by
      exact_mod_cast UInt64.le_iff_toNat_le.mp (h r hr)
    unfold Record.overuse
    split
    · rfl
    · exact max_eq_right (sub_nonpos.mpr hle)
  rw [tally_congr hzero]
  show ((l.map fun _ => (0 : ℚ))).sum = 0
  simp

/-- A drop that settles more than was reserved charges the whole excess. -/
theorem dropOn_level_of_overuse {C rate : ℚ} {s : Account} (h : Kept C rate s)
    {r : Record} (hover : r.lease.reserved ≤ r.lease.used) (id : ℕ) (now : Instant) :
    (s.dropOn id r now).tokens.level = (s.tokens.refill now).level
        - ((r.lease.used.toNat : ℚ) - (r.lease.reserved.toNat : ℚ)) ∧
      (s.dropOn id r now).cutOff = s.cutOff := by
  have hle : s.tokens.level ≤ s.tokens.capacity := h.capacity ▸ h.level_le
  have hrefill := s.tokens.refill_level_le now hle
  have hnat : (r.lease.reserved.toNat : ℚ) ≤ r.lease.used.toNat := by
    exact_mod_cast UInt64.le_iff_toNat_le.mp hover
  have hfits : (s.tokens.refill now).level + refund r.lease ≤ s.tokens.capacity := by
    unfold refund
    linarith
  constructor
  · rw [dropOn_level, min_eq_left hfits, refund]
    ring
  · show s.cutOff + max _ 0 = s.cutOff
    rw [max_eq_right (sub_nonpos.mpr hfits), add_zero]

/-- The token account in every reachable state, for every order of critical sections and all
clock readings: nothing is lost but what refunds had cut off, the level stays below the
capacity, and it is negative only by what dropped leases have used beyond their
reservations. -/
theorem tokens_conserved (cfg : TenantConfig ℚ) (t0 : Instant) (acts : List Act) (s : Account)
    (hrun : exec step (new cfg t0) acts = some s) :
    let C : ℚ := cfg.tokensPerMinute.toNat
    let held := tally Record.held s.leases
    let spent := tally Record.spent s.leases
    s.tokens.level + held + spent ≤ C + s.added ∧
    s.tokens.level + held + spent + s.cutOff = C + s.added ∧
    s.tokens.level ≤ C ∧
    0 ≤ s.tokens.level + tally Record.overuse s.leases ∧
    ((∀ r ∈ s.leases, r.lease.used ≤ r.lease.reserved) → 0 ≤ s.tokens.level) ∧
    ∀ id r now s', s.leases[id]? = some r → r.lease.reserved ≤ r.lease.used →
      step s (.drop id now) = some s' →
      s'.tokens.level = (s.tokens.refill now).level
          - ((r.lease.used.toNat : ℚ) - (r.lease.reserved.toNat : ℚ)) ∧
        s'.cutOff = s.cutOff := by
  intro C held spent
  have h : Kept C (C / 60) s := (kept_new cfg t0).exec (rate_nonneg cfg) hrun
  have hbalance := h.balance
  have hcut := h.cutOff_nonneg
  refine ⟨?_, hbalance, h.level_le, h.debt, ?_, ?_⟩
  · have : s.tokens.level + held + spent + s.cutOff = C + s.added := hbalance
    linarith
  · intro hused
    have hdebt := h.debt
    rw [tally_overuse_eq_zero hused, add_zero] at hdebt
    exact hdebt
  · intro id r now s' hr hover hstep
    cases step_cases hstep with
    | dropped _ _ r' hr' hlive =>
      rw [hr, Option.some.injEq] at hr'
      rw [← hr']
      exact dropOn_level_of_overuse h hover id now

/-- Two leases, the first of them overused by 30 tokens, a refusal and two readings that go back:
the account ends 10 tokens in debt. -/
theorem tokens_conserved_debt :
    ∃ s : Account, exec step (new ⟨"acme", "key", .paid, 60, 2, 4⟩ 0)
        [.admission 0 20, .admission 0 30, .recordTokens 0 50, .drop 0 10, .admission 5 20,
          .recordTokens 1 30, .drop 1 3] = some s ∧
      s.tokens.level = -10 ∧ s.added = 10 ∧ tally Record.overuse s.leases = 30 ∧
      s.tokens.level + tally Record.held s.leases + tally Record.spent s.leases + s.cutOff
        = 60 + s.added ∧
      0 ≤ s.tokens.level + tally Record.overuse s.leases := by
  have hrun : (exec step (new ⟨"acme", "key", .paid, 60, 2, 4⟩ 0)
      [.admission 0 20, .admission 0 30, .recordTokens 0 50, .drop 0 10, .admission 5 20,
        .recordTokens 1 30, .drop 1 3]).map
        (fun s => (s.tokens.level, s.added, tally Record.overuse s.leases))
      = some (-10, 10, 30) := by decide +kernel
  obtain ⟨s, hs, heq⟩ := Option.map_eq_some_iff.mp hrun
  simp only [Prod.mk.injEq] at heq
  obtain ⟨hlevel, hadded, hoveruse⟩ := heq
  have h := tokens_conserved _ _ _ s hs
  exact ⟨s, hs, hlevel, hadded, hoveruse, h.2.1, h.2.2.2.1⟩

end Account
end OxideGate
