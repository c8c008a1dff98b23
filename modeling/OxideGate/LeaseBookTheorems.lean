import OxideGate.LeaseBook
import OxideGate.TenantsTheorems

/-!
# Concurrency slots are counted exactly

`active` is the number of live leases in every state that critical sections lead to, in any
order and with any clock readings, and for every arithmetic of the buckets.
-/

namespace OxideGate
namespace LeaseBook

open Account (Act)
open Runs

variable {R : Type} [Add R] [Sub R] [Mul R] [Min R] [LT R] [DecidableLT R] [NatCast R] [RatCast R]

/-- What one critical section does to the counter and to the leases. -/
inductive Stepped (s : LeaseBook R) : Act → LeaseBook R → Prop
  | granted {now : Instant} {reserve : UInt64} {l : Lease}
      (h : (s.tenant.admitLease now reserve).1 = .ok l) :
      Stepped s (.admission now reserve)
        ⟨(s.tenant.admitLease now reserve).2, s.leases ++ [some l]⟩
  | refused {now : Instant} {reserve : UInt64} {e : AdmitError}
      (h : (s.tenant.admitLease now reserve).1 = .error e) :
      Stepped s (.admission now reserve) ⟨(s.tenant.admitLease now reserve).2, s.leases⟩
  | recorded {id : ℕ} {n : UInt64} {l : Lease} (hl : s.leases[id]? = some (some l)) :
      Stepped s (.recordTokens id n)
        { s with leases := s.leases.set id (some (l.recordTokens n)) }
  | dropped {id : ℕ} {now : Instant} {l : Lease} (hl : s.leases[id]? = some (some l)) :
      Stepped s (.drop id now) ⟨s.tenant.dropLease l now, s.leases.set id none⟩
  | probed {now : Instant} :
      Stepped s (.tokensAvailable now) { s with tenant := (s.tenant.tokensAvailable now).2 }
  | counted : Stepped s .active s

theorem step_cases {s s' : LeaseBook R} {a : Act} (h : s.step a = some s') : Stepped s a s' := by
  cases a with
  | admission now reserve =>
    simp only [step, call, admission, Option.map_some, Option.some.injEq] at h
    cases hr : (s.tenant.admitLease now reserve).1 with
    | ok l =>
      rw [hr] at h
      rw [← h]
      exact .granted hr
    | error e =>
      rw [hr] at h
      rw [← h]
      exact .refused hr
  | recordTokens id n =>
    simp only [step, call, Option.map_map, Option.map_eq_some_iff, Option.join_eq_some_iff] at h
    obtain ⟨l, hl, rfl⟩ := h
    exact .recorded hl
  | drop id now =>
    simp only [step, call, Option.map_map, Option.map_eq_some_iff, Option.join_eq_some_iff] at h
    obtain ⟨l, hl, rfl⟩ := h
    exact .dropped hl
  | tokensAvailable now =>
    rw [← Option.some.inj h]
    exact .probed
  | active =>
    rw [← Option.some.inj h]
    exact .counted

/-! ## Live leases -/

theorem countP_set_add {id : ℕ} {leases : List (Option Lease)} {l : Lease}
    (h : leases[id]? = some (some l)) (o : Option Lease) :
    (leases.set id o).countP Option.isSome + 1
      = leases.countP Option.isSome + if o.isSome then 1 else 0 := by
  obtain ⟨hlt, hget⟩ := List.getElem?_eq_some_iff.mp h
  have hpos : 0 < leases.countP Option.isSome := by
    rw [List.countP_pos_iff]
    exact ⟨some l, List.mem_of_getElem? h, rfl⟩
  rw [List.countP_set hlt, hget, Option.isSome_some, if_pos rfl]
  omega

omit [Add R] [Sub R] [Mul R] [Min R] [LT R] [DecidableLT R] [NatCast R] [RatCast R] in
theorem live_pos {s : LeaseBook R} {id : ℕ} {l : Lease} (h : s.leases[id]? = some (some l)) :
    0 < s.live := by
  rw [live, List.countP_pos_iff]
  exact ⟨some l, List.mem_of_getElem? h, rfl⟩

/-- The counter is right, and within the limit. -/
structure Counted (maxConcurrent : UInt32) (s : LeaseBook R) : Prop where
  active_eq : s.tenant.state.active.toNat = s.live
  live_le : s.live ≤ maxConcurrent.toNat
  max_eq : s.tenant.maxConcurrent = maxConcurrent

omit [Add R] [Sub R] [Mul R] [Min R] [LT R] [DecidableLT R] [NatCast R] [RatCast R] in
theorem counted_new {t : Tenant R} (h : t.state.active = 0) : Counted t.maxConcurrent (new t) where
  active_eq := by
    show t.state.active.toNat = 0
    rw [h]
    rfl
  live_le := Nat.zero_le _
  max_eq := rfl

/-- One critical section keeps the count. -/
theorem Counted.step {m : UInt32} {s s' : LeaseBook R} {a : Act} (h : Counted m s)
    (hs : Stepped s a s') : Counted m s' := by
  have hactive := h.active_eq
  have hle := h.live_le
  cases hs with
  | @granted now reserve l hok =>
    obtain ⟨-, hroom, htaken, hmax⟩ := Tenant.admitLease_ok hok
    have hlive : live ⟨(s.tenant.admitLease now reserve).2, s.leases ++ [some l]⟩
        = s.live + 1 := by
      simp [live]
    rw [h.max_eq] at hroom
    have hlt := UInt32.lt_iff_toNat_lt.mp hroom
    refine ⟨?_, ?_, hmax.trans h.max_eq⟩
    · rw [hlive, htaken, Tenant.toNat_add_one hroom, hactive]
    · rw [hlive]
      omega
  | refused herror =>
    obtain ⟨hsame, hmax⟩ := Tenant.admitLease_error herror
    refine ⟨?_, hle, hmax.trans h.max_eq⟩
    rw [hsame]
    exact hactive
  | @recorded id n l hl =>
    have hset := countP_set_add hl (some (l.recordTokens n))
    rw [Option.isSome_some, if_pos rfl] at hset
    have hlive : live { s with leases := s.leases.set id (some (l.recordTokens n)) } = s.live :=
      Nat.add_right_cancel hset
    refine ⟨?_, ?_, h.max_eq⟩
    · rw [hlive]
      exact hactive
    · rw [hlive]
      exact hle
  | @dropped id now l hl =>
    have hset := countP_set_add hl none
    rw [Option.isSome_none, if_neg (by simp), Nat.add_zero] at hset
    have hlive : live ⟨s.tenant.dropLease l now, s.leases.set id none⟩ + 1 = s.live := hset
    have hpos := live_pos hl
    refine ⟨?_, ?_, h.max_eq⟩
    · show (Tenant.release s.tenant.state.active).toNat = _
      rw [Tenant.toNat_release (by omega)]
      omega
    · omega
  | probed => exact ⟨hactive, hle, h.max_eq⟩
  | counted => exact h

theorem Counted.exec {m : UInt32} {s s' : LeaseBook R} {acts : List Act} (h : Counted m s)
    (hrun : exec LeaseBook.step s acts = some s') : Counted m s' :=
  exec_invariant (fun _ _ _ hi hs => Counted.step hi (step_cases hs)) h hrun

/-- In every state that critical sections lead to, `active` is the number of live leases and
within the limit. So no counter leaves its range, and `admit` finds the tenant at its limit
exactly when that many leases are live. -/
theorem slots_counted {t : Tenant R} (h0 : t.state.active = 0) {acts : List Act}
    {s : LeaseBook R} (hrun : exec step (new t) acts = some s) :
    (s.tenant.state.active.toNat = s.live ∧ s.live ≤ t.maxConcurrent.toNat) ∧
      (∀ now reserve l, (s.tenant.admitLease now reserve).1 = .ok l →
        (s.tenant.admitLease now reserve).2.state.active.toNat
          = s.tenant.state.active.toNat + 1) ∧
      (∀ (id : ℕ) l now, s.leases[id]? = some (some l) →
        (s.tenant.dropLease l now).state.active.toNat + 1 = s.tenant.state.active.toNat) ∧
      ∀ now reserve, (s.tenant.admitLease now reserve).1 = .error .concurrencyLimited ↔
        s.live = t.maxConcurrent.toNat := by
  have hcounted := (counted_new h0).exec hrun
  have hactive := hcounted.active_eq
  have hle := hcounted.live_le
  refine ⟨⟨hactive, hle⟩, ?_, ?_, ?_⟩
  · intro now reserve l hok
    obtain ⟨-, hroom, htaken, -⟩ := Tenant.admitLease_ok hok
    rw [htaken, Tenant.toNat_add_one hroom]
  · intro id l now hl
    have hpos := live_pos hl
    show (Tenant.release s.tenant.state.active).toNat + 1 = _
    rw [Tenant.toNat_release (by omega)]
    omega
  · intro now reserve
    rw [Tenant.admitLease_concurrencyLimited, hcounted.max_eq, UInt32.le_iff_toNat_le]
    omega

/-- A configured tenant with two leases, one of them dropped after the cap was hit. -/
theorem slots_counted_full :
    let t := Tenant.fromConfig (⟨"acme", "key", .free, 60, 5, 2⟩ : TenantConfig ℚ) 0
    ∃ s : LeaseBook ℚ, exec step (new t)
        [.admission 0 1, .admission 0 1, .admission 0 1, .drop 0 1, .active] = some s ∧
      s.tenant.state.active.toNat = s.live ∧ s.live ≤ 2 := by
  intro t
  have hsome : (exec step (new t)
      [.admission 0 1, .admission 0 1, .admission 0 1, .drop 0 1, .active]).isSome := by
    decide +kernel
  obtain ⟨s, hs⟩ := Option.isSome_iff_exists.mp hsome
  exact ⟨s, hs, (slots_counted rfl hs).1⟩

/-! ## Accounts -/

/-- The lease of a record that is live. -/
theorem ofAccount_getElem {s : Account} {id : ℕ} {l : Lease} :
    (ofAccount s).leases[id]? = some (some l) ↔
      ∃ r, s.leases[id]?.filter Record.isLive = some r ∧ r.lease = l := by
  simp only [ofAccount, List.getElem?_map, Option.map_eq_some_iff, Option.filter_eq_some_iff]
  constructor
  · intro h
    obtain ⟨r, hr, hl⟩ := h
    by_cases hlive : r.isLive = true
    · rw [if_pos hlive, Option.some.injEq] at hl
      exact ⟨r, ⟨hr, hlive⟩, hl⟩
    · rw [if_neg hlive] at hl
      exact absurd hl (by simp)
  · intro h
    obtain ⟨r, ⟨hr, hlive⟩, hl⟩ := h
    refine ⟨r, hr, ?_⟩
    rw [if_pos hlive, hl]

/-- An account is a lease book that keeps more. -/
theorem ofAccount_step {s s' : Account} {a : Act} (h : s.step a = some s') :
    (ofAccount s).step a = some (ofAccount s') := by
  cases a with
  | admission now reserve =>
    have htenant : (ofAccount s).tenant = s.tenant := rfl
    rw [← Option.some.inj h]
    simp only [step, call, admission, Account.admission, htenant, Option.map_some,
      Option.some.injEq]
    cases hr : (s.tenant.admitLease now reserve).1 with
    | ok l => simp [ofAccount, Record.isLive]
    | error e => cases e <;> rfl
  | recordTokens id n =>
    obtain ⟨r, hr, rfl⟩ := Option.map_eq_some_iff.mp h
    have hlive := (Option.filter_eq_some_iff.mp hr).2
    have hl := ofAccount_getElem.mpr ⟨r, hr, rfl⟩
    have hlive' : Record.isLive { r with lease := r.lease.recordTokens n } = true := hlive
    simp only [step, call, hl, Option.join_some, Option.map_some, Option.some.injEq]
    simp only [ofAccount, Account.recordOn, List.map_set, if_pos hlive']
  | drop id now =>
    obtain ⟨r, hr, rfl⟩ := Option.map_eq_some_iff.mp h
    have hl := ofAccount_getElem.mpr ⟨r, hr, rfl⟩
    have hdead : ¬ Record.isLive { r with droppedAt := some now } = true := by
      simp [Record.isLive]
    simp only [step, call, hl, Option.join_some, Option.map_some, Option.some.injEq]
    simp only [ofAccount, Account.dropOn, List.map_set, if_neg hdead]
  | tokensAvailable now =>
    rw [← Option.some.inj h]
    rfl
  | active =>
    rw [← Option.some.inj h]
    rfl

theorem ofAccount_live (s : Account) : (ofAccount s).live = s.leases.countP Record.isLive := by
  rw [live, ofAccount, List.countP_map]
  refine List.countP_congr fun r _ => ?_
  by_cases hlive : r.isLive = true <;> simp [hlive]

end LeaseBook
end OxideGate
