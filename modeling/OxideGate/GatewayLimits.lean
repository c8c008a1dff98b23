import Mathlib.Algebra.BigOperators.Group.Finset.Basic
import OxideGate.GatewayAccounts

/-!
# What the gateway lets through

The limits of a tenant, read off its account and stated about the requests of the gateway: how many
of them have a lease (`active_counts`), how far the token bucket can be from what they hold and
have used (`tokens_bounded`), and, when no clock reading is overtaken at the tenant's lock, how many
requests and tokens a tenant gets in the time that has passed (`limits_enforced`).
-/

namespace OxideGate

open Runs Tally

namespace Gateway

namespace LeaseCell

/-- A lease was given. -/
def given : LeaseCell → ℕ
  | .none => 0
  | .held _ | .settled _ => 1

/-- A lease is held. -/
def live : LeaseCell → ℕ
  | .held _ => 1
  | .none | .settled _ => 0

/-- The tokens that a request holds back, or has used in the end. -/
def charge : LeaseCell → ℕ
  | .none => 0
  | .held l => l.reserved.toNat
  | .settled l => l.used.toNat

/-- The tokens that a request has used beyond its reservation. -/
def excess : LeaseCell → ℕ
  | .none | .held _ => 0
  | .settled l => l.used.toNat - l.reserved.toNat

end LeaseCell

/-- A quantity summed over the requests of a tenant. -/
def State.total {R : Type} (s : State R) (n : ℕ) (f : LeaseCell → ℕ) : ℕ :=
  tally (fun r : Request => if r.tenant = n then f r.lease else 0) s.requests

variable {n : ℕ} {owners : List ℕ} {s : State ℚ} {acc : Account}

/-- Summed over its requests or over the leases of its account, a tenant's quantities are the
same. -/
theorem Mirrors.total_eq (h : Mirrors n owners s acc) {f : LeaseCell → ℕ} (hf : f .none = 0) :
    s.total n f = tally (fun rec => f rec.cell) acc.leases := by
  -- the share of request `i`
  let v : ℕ → ℕ := fun i => s.cells[i]?.elim 0 fun c => if c.1 = n then f c.2 else 0
  have hcells : s.total n f = tally v (List.range s.cells.length) := by
    rw [tally_getElem? (fun c : ℕ × LeaseCell => if c.1 = n then f c.2 else 0) s.cells]
    unfold State.total State.cells tally
    rw [List.map_map]
    rfl
  have hleases : tally (fun rec => f rec.cell) acc.leases = tally v owners := by
    have hmap : acc.leases.map (fun rec => f rec.cell) = owners.map v := by
      refine List.ext_getElem? fun k => ?_
      rw [List.getElem?_map, List.getElem?_map]
      cases hk : owners[k]? with
      | none =>
        have hlen := List.getElem?_eq_none_iff.mp hk
        rw [h.length] at hlen
        rw [List.getElem?_eq_none hlen]
        rfl
      | some i =>
        obtain ⟨rec, hrec, hcell⟩ := h.exists_lease hk
        rw [hrec]
        simp [v, hcell]
    rw [tally, tally, hmap]
  rw [hcells, hleases, tally, tally, ← List.sum_toFinset v List.nodup_range,
    ← List.sum_toFinset v h.nodup]
  symm
  apply Finset.sum_subset
  · intro i hi
    obtain ⟨c, hc, -⟩ := h.exists_cell (List.mem_toFinset.mp hi)
    rw [List.mem_toFinset, List.mem_range]
    exact (List.getElem?_eq_some_iff.mp hc).1
  · intro i _ hi
    -- the others have no lease
    rw [List.mem_toFinset] at hi
    cases hc : s.cells[i]? with
    | none => rfl
    | some c =>
      obtain ⟨m, cell⟩ := c
      by_cases hm : m = n
      · subst hm
        have hnone : cell = .none := by
          by_contra hne
          exact hi (h.complete i cell hc hne)
        rw [hnone]
        exact (if_pos rfl).trans hf
      · exact if_neg hm

/-! ## At any clock reading -/

theorem live_cell (rec : Record) : LeaseCell.live rec.cell = (rec.isLive).toNat := by
  unfold Record.cell
  cases rec.isLive <;> rfl

theorem excess_cell (rec : Record) : (LeaseCell.excess rec.cell : ℚ) = rec.overuse := by
  unfold Record.cell Record.overuse
  split
  · exact Nat.cast_zero
  · show ((rec.lease.used.toNat - rec.lease.reserved.toNat : ℕ) : ℚ) = _
    rcases le_total rec.lease.reserved.toNat rec.lease.used.toNat with hle | hle
    · rw [Nat.cast_sub hle, max_eq_left (sub_nonneg.mpr (Nat.cast_le.mpr hle))]
    · rw [Nat.sub_eq_zero_of_le hle, Nat.cast_zero,
        max_eq_right (sub_nonpos.mpr (Nat.cast_le.mpr hle))]

theorem charge_cell (rec : Record) :
    (LeaseCell.charge rec.cell : ℚ) = rec.held + rec.spent := by
  unfold Record.cell Record.held Record.spent
  split
  · exact (add_zero _).symm
  · exact (zero_add _).symm

/-- A sum of natural numbers over the leases, as a rational number. -/
theorem cast_tally {β : Type*} (f : β → ℕ) (g : β → ℚ) (h : ∀ b, (f b : ℚ) = g b) (l : List β) :
    ((tally f l : ℕ) : ℚ) = tally g l := by
  induction l with
  | nil => exact Nat.cast_zero
  | cons b l ih => rw [tally_cons, tally_cons, Nat.cast_add, ih, h]

/-- The counter of a configured tenant's concurrent requests never leaks: it is the number of
requests that hold a lease, in every reachable state, and within the tenant's cap. -/
theorem active_counts (cfg : Config) (configs : List (TenantConfig ℚ)) (t0 : Instant)
    (actions : List Action) (s : State ℚ)
    (hrun : exec (step cfg) (start cfg configs t0) actions = some s) (n : ℕ) (c : TenantConfig ℚ)
    (hc : configs[n]? = some c) :
    ∃ t, s.tenants[n]? = some t ∧ t.state.active.toNat = s.total n LeaseCell.live ∧
      s.total n LeaseCell.live ≤ c.maxConcurrent.toNat := by
  obtain ⟨acts, acc, hacts, ⟨-, -, owners, hmirrors⟩, -⟩ := account_of_exec hrun hc
  have hstep : ∀ (b : Account) a b', (LeaseBook.ofAccount b).Counted c.maxConcurrent →
      b.step a = some b' → (LeaseBook.ofAccount b').Counted c.maxConcurrent := fun b a b' h hs =>
    h.step (LeaseBook.step_cases (LeaseBook.ofAccount_step hs))
  have hnew : (LeaseBook.ofAccount (.new c t0)).Counted c.maxConcurrent :=
    LeaseBook.counted_new (t := .fromConfig c t0) rfl
  have hcounted := exec_invariant hstep hnew hacts
  have htotal : s.total n LeaseCell.live = (LeaseBook.ofAccount acc).live := by
    rw [hmirrors.total_eq rfl, LeaseBook.ofAccount_live, ← tally_toNat]
    exact tally_congr fun rec _ => live_cell rec
  refine ⟨acc.tenant, hmirrors.tenant, ?_, ?_⟩
  · rw [htotal]
    exact hcounted.active_eq
  · rw [htotal]
    exact hcounted.live_le

/-- One request has been streamed, the other one holds its lease. -/
theorem active_counts_one :
    ∃ s, exec (step ⟨2, 0, 1, true, 16⟩)
        (start ⟨2, 0, 1, true, 16⟩ [⟨"acme", "k1", .paid, 600, 5, 4⟩] 0) (overrunning 0 1)
        = some s ∧
      ∃ t, s.tenants[0]? = some t ∧ t.state.active.toNat = 1 ∧ 1 ≤ (4 : UInt32).toNat := by
  have hrun : (exec (step ⟨2, 0, 1, true, 16⟩)
      (start ⟨2, 0, 1, true, 16⟩ [⟨"acme", "k1", .paid, 600, 5, 4⟩] 0) (overrunning 0 1)).map
          (fun s => s.total 0 LeaseCell.live) = some 1 := by
    decide +kernel
  obtain ⟨s, hs, hl⟩ := Option.map_eq_some_iff.mp hrun
  obtain ⟨t, ht, hactive, hcap⟩ := active_counts _ _ _ _ s hs 0 _ rfl
  rw [hl] at hactive hcap
  exact ⟨s, hs, t, ht, hactive, hcap⟩

/-- A configured tenant's token bucket in every reachable state, at any clock readings: never above
its capacity, and in debt by no more than what finished requests have used beyond their
reservations. -/
theorem tokens_bounded (cfg : Config) (configs : List (TenantConfig ℚ)) (t0 : Instant)
    (actions : List Action) (s : State ℚ)
    (hrun : exec (step cfg) (start cfg configs t0) actions = some s) (n : ℕ) (c : TenantConfig ℚ)
    (hc : configs[n]? = some c) :
    ∃ t, s.tenants[n]? = some t ∧ t.state.tokens.level ≤ c.tokensPerMinute.toNat ∧
      0 ≤ t.state.tokens.level + s.total n LeaseCell.excess := by
  obtain ⟨acts, acc, hacts, ⟨-, -, owners, hmirrors⟩, -⟩ := account_of_exec hrun hc
  have hkept := (Account.kept_new c t0).exec (Account.rate_nonneg c) hacts
  refine ⟨acc.tenant, hmirrors.tenant, hkept.level_le, ?_⟩
  rw [hmirrors.total_eq rfl, cast_tally _ _ excess_cell]
  exact hkept.debt

/-- A stream that goes twenty tokens beyond its reservation. -/
theorem tokens_bounded_excess :
    ∃ s, exec (step ⟨2, 0, 1, true, 16⟩)
        (start ⟨2, 0, 1, true, 16⟩ [⟨"acme", "k1", .paid, 600, 5, 4⟩] 0) (overrunning 0 1)
        = some s ∧
      ∃ t, s.tenants[0]? = some t ∧ t.state.tokens.level ≤ 600 ∧ 0 ≤ t.state.tokens.level + 20 := by
  have hrun : (exec (step ⟨2, 0, 1, true, 16⟩)
      (start ⟨2, 0, 1, true, 16⟩ [⟨"acme", "k1", .paid, 600, 5, 4⟩] 0) (overrunning 0 1)).map
          (fun s => s.total 0 LeaseCell.excess) = some 20 := by
    decide +kernel
  obtain ⟨s, hs, hl⟩ := Option.map_eq_some_iff.mp hrun
  obtain ⟨t, ht, hlevel, hdebt⟩ := tokens_bounded _ _ _ _ s hs 0 _ rfl
  rw [hl] at hdebt
  exact ⟨s, hs, t, ht, hlevel, hdebt⟩

/-! ## With readings in order -/

/-- A configured tenant's limits hold in the gateway, whatever the interleaving of the requests and
however they end, as long as none of its clock readings is overtaken on the way to its lock, in
whatever order those of the other tenants come: up to `now` the tenant has been given no more leases
than a full bucket and the time since the start pay for, and its requests hold and have used no more
tokens than that, but for what some of them have used beyond their reservations. -/
theorem limits_enforced (cfg : Config) (configs : List (TenantConfig ℚ)) (t0 : Instant)
    (actions : List Action) (s : State ℚ)
    (hrun : exec (step cfg) (start cfg configs t0) actions = some s) (now : Instant)
    (n : ℕ) (hord : (t0 :: (outputs (step cfg) (State.readings n) (start cfg configs t0) actions
      ++ [now])).Pairwise (· ≤ ·)) (c : TenantConfig ℚ) (hc : configs[n]? = some c)
    (hr : 0 < c.requestsPerSecond) :
    (s.total n LeaseCell.given : ℚ)
        ≤ max c.requestsPerSecond 1 + c.requestsPerSecond * (now - t0) ∧
      (s.total n LeaseCell.charge : ℚ) ≤ c.tokensPerMinute.toNat
        + c.tokensPerMinute.toNat / 60 * (now - t0) + s.total n LeaseCell.excess := by
  obtain ⟨acts, acc, hacts, ⟨-, -, owners, hmirrors⟩, hseen⟩ := account_of_exec hrun hc
  have hrate := Account.rate_nonneg c
  -- the tenant sees its readings in the order of the run
  obtain ⟨last, hserial, hlast⟩ := Serial.exec_of_pairwise hacts
    (hord.sublist ((hseen.append (List.Sublist.refl [now])).cons_cons t0))
  have hpaced := exec_invariant (fun _ _ _ h hs => Serial.Paced.step hr.le hrate h hs)
    (Serial.paced_start c t0) hserial
  have hkept := (Account.kept_new c t0).exec hrate hacts
  have hgiven : s.total n LeaseCell.given = acc.leases.length := by
    rw [hmirrors.total_eq rfl]
    have hone : ∀ rec ∈ acc.leases, LeaseCell.given rec.cell = (true).toNat := by
      intro rec _
      unfold Record.cell
      split <;> rfl
    rw [tally_congr hone, tally_toNat (fun _ => true), List.countP_true]
  have hcharge : (s.total n LeaseCell.charge : ℚ)
      = tally Record.held acc.leases + tally Record.spent acc.leases := by
    rw [hmirrors.total_eq rfl, cast_tally _ _ charge_cell, tally_add]
  have hexcess : (s.total n LeaseCell.excess : ℚ) = tally Record.overuse acc.leases := by
    rw [hmirrors.total_eq rfl, cast_tally _ _ excess_cell]
  constructor
  · have hadmits := hpaced.account.admits
    have hnonneg := hpaced.account.level_nonneg
    have htime : c.requestsPerSecond * (acc.requests.last - t0)
        ≤ c.requestsPerSecond * (now - t0) :=
      mul_le_mul_of_nonneg_left (sub_le_sub_right (hpaced.requests_last.trans hlast) t0) hr.le
    rw [hgiven]
    linarith
  · have hbalance := hkept.balance
    have hdebt := hkept.debt
    have hcut := hkept.cutOff_nonneg
    have hadded := hpaced.account.added
    have htime : (c.tokensPerMinute.toNat / 60 : ℚ) * (acc.tokens.last - t0)
        ≤ c.tokensPerMinute.toNat / 60 * (now - t0) :=
      mul_le_mul_of_nonneg_left (sub_le_sub_right (hpaced.tokens_last.trans hlast) t0) hrate
    rw [hcharge, hexcess]
    linarith

/-- A lease and a hundred and twenty tokens, twenty of them too many, in three seconds, while the
other tenant's clock reading is ahead of them all. -/
theorem limits_enforced_two :
    ∃ s, exec (step ⟨2, 0, 1, true, 16⟩)
        (start ⟨2, 0, 1, true, 16⟩
          [⟨"acme", "k1", .paid, 600, 5, 4⟩, ⟨"beta", "k2", .free, 60, 1, 1⟩] 0)
        (overrunning 1 5) = some s ∧
      (1 : ℚ) ≤ max 5 1 + 5 * (3 - 0) ∧ (120 : ℚ) ≤ 600 + 600 / 60 * (3 - 0) + 20 := by
  have hrun : (exec (step ⟨2, 0, 1, true, 16⟩)
      (start ⟨2, 0, 1, true, 16⟩
        [⟨"acme", "k1", .paid, 600, 5, 4⟩, ⟨"beta", "k2", .free, 60, 1, 1⟩] 0)
      (overrunning 1 5)).map (fun s => (s.total 0 LeaseCell.given, s.total 0 LeaseCell.charge,
        s.total 0 LeaseCell.excess)) = some (1, 120, 20) := by
    decide +kernel
  obtain ⟨s, hs, hl⟩ := Option.map_eq_some_iff.mp hrun
  simp only [Prod.mk.injEq] at hl
  have h := limits_enforced _ _ _ _ s hs 3 0 (by decide +kernel) _ rfl (by norm_num)
  rw [hl.1, hl.2.1, hl.2.2] at h
  exact ⟨s, hs, h⟩

end Gateway
end OxideGate
