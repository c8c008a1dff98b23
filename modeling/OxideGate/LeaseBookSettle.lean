import OxideGate.Lib.Ceiling
import OxideGate.LeaseBookRefusals

/-!
# The order in which leases settle

Several leases are dropped at one clock reading. The first drop refills the token bucket, the
others find it refilled, and each gives its refund to a level that is cut off at the capacity
(`settle_level`). The counter of live leases cannot tell the orders apart; the level can, when a
debt comes after a refund that was cut off.
-/

namespace OxideGate

/-! ## Classes of buckets, under any clock readings -/

namespace Bucket

variable {R : Type} [Add R] [Sub R] [Mul R] [Min R] [NatCast R] [RatCast R]

/-- A lawful class that is closed under refills at earlier readings as well. -/
structure Stable (Fits : Bucket R → Prop) : Prop extends Lawful Fits where
  refill_any : ∀ b t, Fits b → Fits (b.refill t)

theorem stable_clamped : Stable Clamped where
  toLawful := lawful_clamped
  refill_any := fun b t h => by
    rw [Clamped, refill_capacity]
    exact b.refill_level_le t h

theorem stable_endless : Stable Endless where
  toLawful := lawful_endless
  refill_any := fun b t h => by
    rcases le_total b.last t with ht | ht
    · exact h.refill ht
    · rw [refill_of_le ht]
      exact ⟨h.level, h.capacity, h.perSec⟩

end Bucket

/-- The part of a reservation that has not been used. -/
def Lease.unused (l : Lease) : ℕ := l.reserved.toNat - l.used.toNat

theorem refund_nonneg_iff (l : Lease) : 0 ≤ Account.refund l ↔ l.used ≤ l.reserved := by
  rw [Account.refund, sub_nonneg, Nat.cast_le, UInt64.le_iff_toNat_le]

theorem max_refund (l : Lease) : max (Account.refund l) 0 = l.unused := by
  rw [Account.refund, Lease.unused]
  rcases le_total l.used.toNat l.reserved.toNat with hle | hle
  · rw [Nat.cast_sub hle, max_eq_left (sub_nonneg.mpr (Nat.cast_le.mpr hle))]
  · rw [Nat.sub_eq_zero_of_le hle, Nat.cast_zero,
      max_eq_right (sub_nonpos.mpr (Nat.cast_le.mpr hle))]

namespace LeaseBook

open Account (Act refund)
open Runs

variable {R : Type}

/-- The lease given with the number `id`. -/
def leaseOf (s : LeaseBook R) (id : ℕ) : Lease := (s.leases[id]?.join).getD ⟨0, 0⟩

/-- The numbers of different live leases. -/
structure Outstanding (s : LeaseBook R) (ids : List ℕ) : Prop where
  nodup : ids.Nodup
  live : ∀ id ∈ ids, ∃ l, s.leases[id]? = some (some l)

theorem Outstanding.perm {s : LeaseBook R} {ids order : List ℕ} (h : Outstanding s ids)
    (hperm : order.Perm ids) : Outstanding s order where
  nodup := hperm.nodup_iff.mpr h.nodup
  live := fun id hid => h.live id (hperm.mem_iff.mp hid)

variable [Add R] [Sub R] [Mul R] [Min R] [LT R] [DecidableLT R] [NatCast R] [RatCast R]

/-- Leases are dropped one after the other, all at the reading `now`. -/
def settle (s : LeaseBook R) (now : Instant) (order : List ℕ) : Option (LeaseBook R) :=
  exec step s (order.map fun id => .drop id now)

/-- The first of several drops leaves the other leases as they are. -/
theorem Outstanding.drop {s : LeaseBook R} {id : ℕ} {ids : List ℕ}
    (h : Outstanding s (id :: ids)) (now : Instant) :
    ∃ s' : LeaseBook R, step s (.drop id now) = some s' ∧
      s'.tenant = s.tenant.dropLease (s.leaseOf id) now ∧ s'.live + 1 = s.live ∧
      Outstanding s' ids ∧ ∀ j ∈ ids, s'.leaseOf j = s.leaseOf j := by
  obtain ⟨hid, hnodup⟩ := List.nodup_cons.mp h.nodup
  obtain ⟨l, hl⟩ := h.live id List.mem_cons_self
  have hother : ∀ j ∈ ids, (s.leases.set id none)[j]? = s.leases[j]? := by
    intro j hj
    have hne : id ≠ j := fun e => hid (e ▸ hj)
    rw [List.getElem?_set_ne hne]
  have hcount := countP_set_add hl none
  rw [Option.isSome_none, if_neg (by simp), Nat.add_zero] at hcount
  refine ⟨⟨s.tenant.dropLease l now, s.leases.set id none⟩, ?_, ?_, hcount, ⟨hnodup, ?_⟩, ?_⟩
  · rw [step, call, hl, Option.join_some, Option.map_some, Option.map_some]
  · rw [leaseOf, hl, Option.join_some, Option.getD_some]
  · intro j hj
    rw [hother j hj]
    exact h.live j (List.mem_cons_of_mem id hj)
  · intro j hj
    rw [leaseOf, leaseOf, hother j hj]

/-- Live leases can be dropped in any order, and each takes one off the live ones. -/
theorem exists_settle {s : LeaseBook R} {ids : List ℕ} (h : Outstanding s ids) (now : Instant) :
    ∃ s', s.settle now ids = some s' ∧ s'.live + ids.length = s.live := by
  induction ids generalizing s with
  | nil => exact ⟨s, rfl, rfl⟩
  | cons id ids ih =>
    obtain ⟨s₁, hs₁, -, hlive₁, hout, -⟩ := h.drop now
    obtain ⟨s', hs', hlive'⟩ := ih hout
    refine ⟨s', (exec_cons _).mpr ⟨s₁, hs₁, hs'⟩, ?_⟩
    rw [List.length_cons]
    omega

/-- The counter goes down by the number of leases, in whatever order they are dropped. -/
theorem settle_active {m : UInt32} {s : LeaseBook R} (hcounted : Counted m s) {ids : List ℕ}
    (h : Outstanding s ids) {order : List ℕ} (hperm : order.Perm ids) (now : Instant) :
    ∃ s', s.settle now order = some s' ∧
      s'.tenant.state.active.toNat + ids.length = s.tenant.state.active.toNat := by
  obtain ⟨s', hs', hlive⟩ := exists_settle (h.perm hperm) now
  refine ⟨s', hs', ?_⟩
  rw [(hcounted.exec hs').active_eq, hcounted.active_eq, ← hperm.length_eq]
  exact hlive

/-! ## What every reachable bucket keeps -/

theorem fits_step {Fits : Bucket R → Prop} (hl : Bucket.Stable Fits) {s s' : LeaseBook R} {a : Act}
    (h : Fits s.tenant.state.tokens) (hs : Stepped s a s') : Fits s'.tenant.state.tokens := by
  have hadmit : ∀ now reserve, Fits (s.tenant.admitLease now reserve).2.state.tokens := by
    intro now reserve
    have hcases := s.tenant.admission_cases now reserve
    generalize s.tenant.admitLease now reserve = res at hcases ⊢
    cases hcases with
    | concurrencyLimited => exact h
    | rateLimited => exact h
    | tokenBudget => exact hl.refill_any _ now h
    | granted => exact hl.take _ _ (hl.refill_any _ now h)
  cases hs with
  | granted => exact hadmit _ _
  | refused => exact hadmit _ _
  | recorded => exact h
  | @dropped id now l => exact hl.refund _ _ _ (hl.refill_any _ now h)
  | @probed now => exact hl.refill_any _ now h
  | counted => exact h

theorem fits_exec {Fits : Bucket R → Prop} (hl : Bucket.Stable Fits) {s s' : LeaseBook R}
    {acts : List Act} (h : Fits s.tenant.state.tokens) (hrun : exec step s acts = some s') :
    Fits s'.tenant.state.tokens := by
  have hstep : ∀ (s : LeaseBook R) (a : Act) (t : LeaseBook R), Fits s.tenant.state.tokens →
      step s a = some t → Fits t.tenant.state.tokens :=
    fun _ _ _ hi hs => fits_step hl hi (step_cases hs)
  exact exec_invariant hstep h hrun

/-! ## The level -/

/-- One drop puts its refund into the bucket as it is at the reading. -/
theorem dropLease_tokens (t : Tenant ℚ) (l : Lease) (now : Instant) :
    (t.dropLease l now).state.tokens.level
        = Ceiling.put t.state.tokens.capacity (t.state.tokens.refill now).level (refund l) ∧
      (t.dropLease l now).state.tokens.capacity = t.state.tokens.capacity ∧
      (t.dropLease l now).state.tokens.last = now := by
  refine ⟨?_, Bucket.refill_capacity _ _, Bucket.refill_last _ _⟩
  rw [← Bucket.refill_capacity t.state.tokens now]
  rfl

/-- The first of several drops puts its refund into the bucket, refilled at the reading. -/
theorem settle_cons {s s' : LeaseBook ℚ} {now : Instant} {id : ℕ} {ids : List ℕ}
    (h : Outstanding s (id :: ids)) (hs' : s.settle now (id :: ids) = some s') :
    ∃ s₁ : LeaseBook ℚ, s₁.settle now ids = some s' ∧ Outstanding s₁ ids ∧
      s₁.tenant.state.tokens.level = Ceiling.put s.tenant.state.tokens.capacity
        (s.tenant.state.tokens.refill now).level (refund (s.leaseOf id)) ∧
      s₁.tenant.state.tokens.capacity = s.tenant.state.tokens.capacity ∧
      s₁.tenant.state.tokens.last = now ∧
      ids.map (fun j => refund (s₁.leaseOf j)) = ids.map fun j => refund (s.leaseOf j) := by
  obtain ⟨s₁, hs₁, htenant, -, hout, hother⟩ := h.drop now
  obtain ⟨s₂, hs₂, hrest⟩ := (exec_cons _).mp hs'
  rw [hs₁, Option.some.injEq] at hs₂
  obtain ⟨hlevel, hcapacity, hlast⟩ := dropLease_tokens s.tenant (s.leaseOf id) now
  rw [← htenant] at hlevel hcapacity hlast
  refine ⟨s₁, hs₂ ▸ hrest, hout, hlevel, hcapacity, hlast, ?_⟩
  exact List.map_congr_left fun j hj => by rw [hother j hj]

/-- The later drops find the bucket refilled. -/
theorem settle_refilled {s s' : LeaseBook ℚ} {now : Instant} {ids : List ℕ}
    (h : Outstanding s ids) (hlast : s.tenant.state.tokens.last = now)
    (hs' : s.settle now ids = some s') :
    s'.tenant.state.tokens.level = Ceiling.putAll s.tenant.state.tokens.capacity
      s.tenant.state.tokens.level (ids.map fun id => refund (s.leaseOf id)) := by
  induction ids generalizing s with
  | nil =>
    rw [← Option.some.inj hs']
    rfl
  | cons id ids ih =>
    obtain ⟨s₁, hrest, hout, hlevel, hcapacity, hlast₁, hrefunds⟩ := settle_cons h hs'
    rw [Bucket.refill_of_le hlast.ge] at hlevel
    rw [ih hout hlast₁ hrest, hlevel, hcapacity, hrefunds]
    rfl

/-- Drops at one reading put their refunds one after the other into the refilled bucket. -/
theorem settle_level {s s' : LeaseBook ℚ} {now : Instant} {ids : List ℕ}
    (h : Outstanding s ids) (hne : ids ≠ []) (hs' : s.settle now ids = some s') :
    s'.tenant.state.tokens.level = Ceiling.putAll s.tenant.state.tokens.capacity
      (s.tenant.state.tokens.refill now).level (ids.map fun id => refund (s.leaseOf id)) := by
  obtain ⟨id, ids, rfl⟩ := List.exists_cons_of_ne_nil hne
  obtain ⟨s₁, hrest, hout, hlevel, hcapacity, hlast, hrefunds⟩ := settle_cons h hs'
  rw [settle_refilled hout hlast hrest, hlevel, hcapacity, hrefunds]
  rfl

omit [Add R] [Sub R] [Mul R] [Min R] [LT R] [DecidableLT R] [NatCast R] [RatCast R] in
/-- The refunds of leases lift a level by what the leases did not use. -/
theorem gains_refund (s : LeaseBook R) (ids : List ℕ) :
    Ceiling.gains (ids.map fun id => refund (s.leaseOf id))
      = (ids.map fun id => ((s.leaseOf id).unused : ℚ)).sum := by
  rw [Ceiling.gains, List.map_map]
  exact congrArg List.sum (List.map_congr_left fun id _ => max_refund (s.leaseOf id))

/-- The level does not depend on the order exactly if no lease has used more than its
reservation, or the unused parts all fit into the bucket. -/
theorem settle_level_iff {s : LeaseBook ℚ} (hclamped : s.tenant.state.tokens.Clamped)
    {ids : List ℕ} (h : Outstanding s ids) (now : Instant) :
    (∀ o₁ o₂ s₁ s₂, o₁.Perm ids → o₂.Perm ids → s.settle now o₁ = some s₁ →
        s.settle now o₂ = some s₂ →
        s₁.tenant.state.tokens.level = s₂.tenant.state.tokens.level) ↔
      (∀ id ∈ ids, (s.leaseOf id).used ≤ (s.leaseOf id).reserved) ∨
        (s.tenant.state.tokens.refill now).level
          + (ids.map fun id => ((s.leaseOf id).unused : ℚ)).sum
          ≤ s.tenant.state.tokens.capacity := by
  by_cases hne : ids = []
  · subst hne
    refine ⟨fun _ => Or.inl fun id hid => absurd hid List.not_mem_nil, fun _ => ?_⟩
    intro o₁ o₂ s₁ s₂ h₁ h₂ hs₁ hs₂
    rw [List.perm_nil.mp h₁] at hs₁
    rw [List.perm_nil.mp h₂] at hs₂
    rw [Option.some.inj (hs₁.symm.trans hs₂)]
  have hlevel : ∀ order s', order.Perm ids → s.settle now order = some s' →
      s'.tenant.state.tokens.level = Ceiling.putAll s.tenant.state.tokens.capacity
        (s.tenant.state.tokens.refill now).level (order.map fun id => refund (s.leaseOf id)) := by
    intro order s' hperm hs'
    have hne' : order ≠ [] := fun hnil => hne (List.nil_perm.mp (hnil ▸ hperm))
    exact settle_level (h.perm hperm) hne' hs'
  -- the refunds in some order are those of the leases in some order
  have horder : ∀ ds : List ℚ, ds.Perm (ids.map fun id => refund (s.leaseOf id)) →
      ∃ order : List ℕ, ds = order.map (fun id => refund (s.leaseOf id)) ∧ order.Perm ids := by
    intro ds hds
    have hcomp := List.eq_map_comp_perm fun id => refund (s.leaseOf id)
    exact (congrFun (congrFun hcomp ds) ids).mpr hds
  have hfull := s.tenant.state.tokens.refill_level_le now hclamped
  have hiff := Ceiling.putAll_perm_iff hfull (ids.map fun id => refund (s.leaseOf id))
  rw [gains_refund, List.forall_mem_map] at hiff
  simp only [refund_nonneg_iff] at hiff
  rw [← hiff]
  constructor
  · intro hsame ds₁ ds₂ h₁ h₂
    obtain ⟨o₁, rfl, ho₁⟩ := horder ds₁ h₁
    obtain ⟨o₂, rfl, ho₂⟩ := horder ds₂ h₂
    obtain ⟨s₁, hs₁, -⟩ := exists_settle (h.perm ho₁) now
    obtain ⟨s₂, hs₂, -⟩ := exists_settle (h.perm ho₂) now
    rw [← hlevel o₁ s₁ ho₁ hs₁, ← hlevel o₂ s₂ ho₂ hs₂]
    exact hsame o₁ o₂ s₁ s₂ ho₁ ho₂ hs₁ hs₂
  · intro hsame o₁ o₂ s₁ s₂ h₁ h₂ hs₁ hs₂
    rw [hlevel o₁ s₁ h₁ hs₁, hlevel o₂ s₂ h₂ hs₂]
    exact hsame _ _ (h₁.map _) (h₂.map _)

/-- Leases of a configured tenant that settle at one reading leave the same counter in every
order. They leave the same level in every order exactly if none of them used more than it
reserved, or the refilled level and all that they did not use fit into the bucket. A tenant
without limits keeps its endless level. -/
theorem settle_order (t0 now : Instant) (acts : List Act) (ids : List ℕ) :
    (∀ (cfg : TenantConfig ℚ) (s : LeaseBook ℚ),
      exec step (new (.fromConfig cfg t0)) acts = some s → Outstanding s ids →
      (∀ order, order.Perm ids → ∃ s', s.settle now order = some s' ∧
        s'.tenant.state.active.toNat + ids.length = s.tenant.state.active.toNat) ∧
      ((∀ o₁ o₂ s₁ s₂, o₁.Perm ids → o₂.Perm ids → s.settle now o₁ = some s₁ →
          s.settle now o₂ = some s₂ →
          s₁.tenant.state.tokens.level = s₂.tenant.state.tokens.level) ↔
        (∀ id ∈ ids, (s.leaseOf id).used ≤ (s.leaseOf id).reserved) ∨
          (s.tenant.state.tokens.refill now).level
            + (ids.map fun id => ((s.leaseOf id).unused : ℚ)).sum
            ≤ s.tenant.state.tokens.capacity)) ∧
    ∀ (id : String) (s : LeaseBook (WithTop ℚ)),
      exec step (new (.unlimited id t0)) acts = some s → Outstanding s ids →
      ∀ order, order.Perm ids → ∃ s', s.settle now order = some s' ∧
        s'.tenant.state.active.toNat + ids.length = s.tenant.state.active.toNat ∧
        s'.tenant.state.tokens.level = ⊤ := by
  constructor
  · intro cfg s hrun h
    have hcounted := (counted_new (t := Tenant.fromConfig cfg t0) rfl).exec hrun
    have hclamped := fits_exec Bucket.stable_clamped (s := new (.fromConfig cfg t0)) le_rfl hrun
    exact ⟨fun order hperm => settle_active hcounted h hperm now,
      settle_level_iff hclamped h now⟩
  · intro id s hrun h order hperm
    have hcounted := (counted_new (t := Tenant.unlimited id t0) rfl).exec hrun
    have hendless := fits_exec Bucket.stable_endless (s := new (.unlimited id t0))
      ⟨rfl, rfl, rfl⟩ hrun
    obtain ⟨s', hs', hactive⟩ := settle_active hcounted h hperm now
    exact ⟨s', hs', hactive, (fits_exec Bucket.stable_endless hendless hs').level⟩

/-- A debt and a refund that fits. -/
theorem settle_order_fits :
    ∃ s : LeaseBook ℚ, exec step (new (.fromConfig ⟨"acme", "key", .paid, 600, 5, 4⟩ 0))
        [.admission 0 100, .admission 0 100, .recordTokens 1 200] = some s ∧
      ∀ s₁ s₂, s.settle 0 [0, 1] = some s₁ → s.settle 0 [1, 0] = some s₂ →
        s₁.tenant.state.tokens.level = s₂.tenant.state.tokens.level := by
  have hrun : ((exec step (new (.fromConfig ⟨"acme", "key", .paid, 600, 5, 4⟩ 0))
      [.admission 0 100, .admission 0 100, .recordTokens 1 200]).map fun s : LeaseBook ℚ =>
        (s.leases, s.tenant.state.tokens)) = some ([some ⟨100, 0⟩, some ⟨100, 200⟩],
          ⟨600, 10, 400, 0⟩) := by
    decide +kernel
  obtain ⟨s, hs, he⟩ := Option.map_eq_some_iff.mp hrun
  simp only [Prod.mk.injEq] at he
  have hout : Outstanding s [0, 1] := ⟨by decide, by simp [he.1]⟩
  have hiff := ((settle_order 0 0 _ [0, 1]).1 _ s hs hout).2
  refine ⟨s, hs, fun s₁ s₂ h₁ h₂ => ?_⟩
  refine hiff.mpr (Or.inr ?_) _ _ s₁ s₂ (List.Perm.refl _) (List.Perm.swap 0 1 []) h₁ h₂
  simp only [leaseOf, he.1, he.2]
  decide +kernel

/-- The bucket has refilled while the reservations were held: a refund before a debt is cut off,
a refund after it is not. -/
theorem settle_order_full :
    ((exec step (new (.fromConfig ⟨"acme", "key", .paid, 600, 5, 4⟩ 0))
        [.admission 0 100, .admission 0 100, .recordTokens 1 200]).bind fun s : LeaseBook ℚ =>
          s.settle 60 [0, 1]).map (fun s => s.tenant.state.tokens.level) = some 500 ∧
    ((exec step (new (.fromConfig ⟨"acme", "key", .paid, 600, 5, 4⟩ 0))
        [.admission 0 100, .admission 0 100, .recordTokens 1 200]).bind fun s : LeaseBook ℚ =>
          s.settle 60 [1, 0]).map (fun s => s.tenant.state.tokens.level) = some 600 := by
  decide +kernel

end LeaseBook
end OxideGate
