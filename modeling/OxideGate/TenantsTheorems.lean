import OxideGate.Tenants
import Mathlib.Tactic.NormNum
import Mathlib.Tactic.Linarith

/-!
# Tiers, buckets and tenants: what each operation does

* `Bucket.refill` never lowers a level, never lifts it above the capacity, and adds at most the
  rate times the time that has passed since `last`;
* `Admission` lists the four ways `admit` can end, refills included.
-/

namespace OxideGate

/-! ## Tiers -/

theorem Tier.weight_pos (t : Tier) : 0 < t.weight := by
  cases t <;> norm_num [Tier.weight]

theorem Tier.weight_le_one (t : Tier) : t.weight ≤ 1 := by
  cases t <;> norm_num [Tier.weight]

/-- A tier's weight divides one dispatch. -/
theorem Tier.exists_mul_weight (t : Tier) : ∃ m : ℕ, m * t.weight = 1 := by
  cases t
  · exact ⟨2, by norm_num [Tier.weight]⟩
  · exact ⟨1, by norm_num [Tier.weight]⟩

/-! ## Buckets -/

attribute [ext] Bucket

namespace Bucket

section
variable {R : Type} [Add R] [Mul R] [Min R] [RatCast R] (b : Bucket R) (now : Instant)

/-- Time has passed since `last`: the level rises, up to the capacity. -/
theorem refill_of_pos {b : Bucket R} {now : Instant}
    (h : 0 < saturatingDurationSince now b.last) : b.refill now =
      { b with
        level := min (b.level + (saturatingDurationSince now b.last : R) * b.perSec) b.capacity
        last := now } :=
  if_pos h

/-- No time has passed: only `last` changes. -/
theorem refill_of_not_pos {b : Bucket R} {now : Instant}
    (h : ¬ 0 < saturatingDurationSince now b.last) : b.refill now = { b with last := now } :=
  if_neg h

/-- A reading after `last` pays for the time in between. -/
theorem refill_of_lt {b : Bucket R} {now : Instant} (h : b.last < now) : b.refill now =
    { b with
      level := min (b.level + ((now - b.last : ℚ) : R) * b.perSec) b.capacity, last := now } := by
  have hdt : saturatingDurationSince now b.last = now - b.last :=
    max_eq_left (sub_nonneg.mpr h.le)
  have hpos : 0 < saturatingDurationSince now b.last := by
    rw [hdt]
    exact sub_pos.mpr h
  rw [refill_of_pos hpos, hdt]

/-- Any other reading pays for nothing. -/
theorem refill_of_le {b : Bucket R} {now : Instant} (h : now ≤ b.last) :
    b.refill now = { b with last := now } := by
  have hdt : saturatingDurationSince now b.last = 0 := max_eq_right (sub_nonpos.mpr h)
  apply refill_of_not_pos
  rw [hdt]
  exact lt_irrefl 0

@[simp] theorem refill_capacity : (b.refill now).capacity = b.capacity := by
  by_cases h : 0 < saturatingDurationSince now b.last
  · rw [refill_of_pos h]
  · rw [refill_of_not_pos h]

@[simp] theorem refill_perSec : (b.refill now).perSec = b.perSec := by
  by_cases h : 0 < saturatingDurationSince now b.last
  · rw [refill_of_pos h]
  · rw [refill_of_not_pos h]

/-- `last` follows the reading whatever it is, an older one too. -/
@[simp] theorem refill_last : (b.refill now).last = now := by
  by_cases h : 0 < saturatingDurationSince now b.last
  · rw [refill_of_pos h]
  · rw [refill_of_not_pos h]

end

variable (b : Bucket ℚ) (now : Instant)

theorem refill_level_le (h : b.level ≤ b.capacity) : (b.refill now).level ≤ b.capacity := by
  by_cases hdt : 0 < saturatingDurationSince now b.last
  · rw [refill_of_pos hdt]
    exact min_le_right _ _
  · rw [refill_of_not_pos hdt]
    exact h

theorem le_refill_level (h : b.level ≤ b.capacity) (hrate : 0 ≤ b.perSec) :
    b.level ≤ (b.refill now).level := by
  by_cases hdt : 0 < saturatingDurationSince now b.last
  · rw [refill_of_pos hdt]
    refine le_min ?_ h
    have := mul_nonneg hdt.le hrate
    rw [Rat.cast_id]
    linarith
  · rw [refill_of_not_pos hdt]

/-- A reading that is not older than `last` pays for the time in between, at most. -/
theorem refill_level_le_add (hlast : b.last ≤ now) (hrate : 0 ≤ b.perSec) :
    (b.refill now).level ≤ b.level + b.perSec * (now - b.last) := by
  by_cases hdt : 0 < saturatingDurationSince now b.last
  · rw [refill_of_pos hdt]
    refine (min_le_left _ _).trans ?_
    rw [Rat.cast_id, saturatingDurationSince, max_eq_left (sub_nonneg.mpr hlast), mul_comm]
  · rw [refill_of_not_pos hdt]
    have := mul_nonneg hrate (sub_nonneg.mpr hlast)
    show b.level ≤ _
    linarith

end Bucket

/-! ## Tenants -/

namespace Tenant

/-- The increment in `admit` stays below the limit that it has just checked. -/
theorem toNat_add_one {a m : UInt32} (h : a < m) : (a + 1).toNat = a.toNat + 1 := by
  have hm := m.toNat_lt
  rw [UInt32.lt_iff_toNat_lt] at h
  rw [UInt32.toNat_add]
  show (a.toNat + 1) % 2 ^ 32 = a.toNat + 1
  omega

/-- `saturating_sub` takes one off a counter that is not zero. -/
theorem toNat_release {a : UInt32} (h : 0 < a.toNat) : (release a).toNat = a.toNat - 1 := by
  unfold release
  have hne : a ≠ 0 := by
    rintro rfl
    exact absurd h (by decide)
  rw [if_neg hne, UInt32.toNat_sub_of_le]
  · rfl
  · rw [UInt32.le_iff_toNat_le]
    exact h

variable {R : Type} [Add R] [Sub R] [Mul R] [Min R] [LT R] [DecidableLT R] [NatCast R] [RatCast R]

/-- The ways `admit` can end, and what each leaves behind. -/
inductive Admission (t : Tenant R) (now : Instant) (reserve : UInt64) :
    Except AdmitError Lease × Tenant R → Prop
  | concurrencyLimited (hfull : t.maxConcurrent ≤ t.state.active) :
      Admission t now reserve (.error .concurrencyLimited, t)
  | rateLimited (hroom : t.state.active < t.maxConcurrent)
      (hrate : (t.state.requests.refill now).level < ((1 : ℕ) : R)) :
      Admission t now reserve (.error .rateLimited, { t with state := { t.state with
        requests := t.state.requests.refill now } })
  | tokenBudget (hroom : t.state.active < t.maxConcurrent)
      (hrate : ¬ (t.state.requests.refill now).level < ((1 : ℕ) : R))
      (hbudget : (t.state.tokens.refill now).level < (reserve.toNat : R)) :
      Admission t now reserve (.error .tokenBudget, { t with state := { t.state with
        requests := t.state.requests.refill now
        tokens := t.state.tokens.refill now } })
  | granted (hroom : t.state.active < t.maxConcurrent)
      (hrate : ¬ (t.state.requests.refill now).level < ((1 : ℕ) : R))
      (hbudget : ¬ (t.state.tokens.refill now).level < (reserve.toNat : R)) :
      Admission t now reserve (.ok ⟨reserve, 0⟩, { t with state :=
        { requests := { t.state.requests.refill now with
            level := (t.state.requests.refill now).level - ((1 : ℕ) : R) }
          tokens := { t.state.tokens.refill now with
            level := (t.state.tokens.refill now).level - (reserve.toNat : R) }
          active := t.state.active + 1 } })

theorem admission_cases (t : Tenant R) (now : Instant) (reserve : UInt64) :
    Admission t now reserve (t.admitLease now reserve) := by
  unfold admitLease
  by_cases hfull : t.maxConcurrent ≤ t.state.active
  · rw [if_pos hfull]
    exact .concurrencyLimited hfull
  · have hroom : t.state.active < t.maxConcurrent := UInt32.not_le.mp hfull
    rw [if_neg hfull]
    by_cases hrate : (t.state.requests.refill now).level < ((1 : ℕ) : R)
    · rw [if_pos hrate]
      exact .rateLimited hroom hrate
    · rw [if_neg hrate]
      by_cases hbudget : (t.state.tokens.refill now).level < (reserve.toNat : R)
      · rw [if_pos hbudget]
        exact .tokenBudget hroom hrate hbudget
      · rw [if_neg hbudget]
        exact .granted hroom hrate hbudget

/-- A granted admission found room, and takes it. -/
theorem admitLease_ok {t : Tenant R} {now : Instant} {reserve : UInt64} {l : Lease}
    (h : (t.admitLease now reserve).1 = .ok l) :
    l = ⟨reserve, 0⟩ ∧ t.state.active < t.maxConcurrent ∧
      (t.admitLease now reserve).2.state.active = t.state.active + 1 ∧
      (t.admitLease now reserve).2.maxConcurrent = t.maxConcurrent := by
  have hcases := t.admission_cases now reserve
  generalize t.admitLease now reserve = res at h hcases ⊢
  cases hcases with
  | concurrencyLimited | rateLimited | tokenBudget => exact absurd h (by simp)
  | granted hroom => exact ⟨(Except.ok.inj h).symm, hroom, rfl, rfl⟩

/-- Admission changes limits only. -/
theorem admitLease_name (t : Tenant R) (now : Instant) (reserve : UInt64) :
    (t.admitLease now reserve).2.id = t.id ∧ (t.admitLease now reserve).2.tier = t.tier := by
  have hcases := t.admission_cases now reserve
  generalize t.admitLease now reserve = res at hcases ⊢
  cases hcases with
  | concurrencyLimited | rateLimited | tokenBudget | granted => exact ⟨rfl, rfl⟩

/-- A refusal takes no concurrency slot. -/
theorem admitLease_error {t : Tenant R} {now : Instant} {reserve : UInt64} {e : AdmitError}
    (h : (t.admitLease now reserve).1 = .error e) :
    (t.admitLease now reserve).2.state.active = t.state.active ∧
      (t.admitLease now reserve).2.maxConcurrent = t.maxConcurrent := by
  have hcases := t.admission_cases now reserve
  generalize t.admitLease now reserve = res at h hcases ⊢
  cases hcases with
  | concurrencyLimited | rateLimited | tokenBudget => exact ⟨rfl, rfl⟩
  | granted => exact absurd h (by simp)

/-- The first check: the concurrency cap. -/
theorem admitLease_concurrencyLimited {t : Tenant R} {now : Instant} {reserve : UInt64} :
    (t.admitLease now reserve).1 = .error .concurrencyLimited
      ↔ t.maxConcurrent ≤ t.state.active := by
  have hcases := t.admission_cases now reserve
  generalize t.admitLease now reserve = res at hcases ⊢
  cases hcases with
  | concurrencyLimited hfull => exact ⟨fun _ => hfull, fun _ => rfl⟩
  | rateLimited hroom | tokenBudget hroom | granted hroom =>
    refine ⟨fun h => absurd h (by simp), fun hfull => ?_⟩
    exact absurd hfull (UInt32.not_le.mpr hroom)

/-- The second check: the request bucket. -/
theorem admitLease_rateLimited {t : Tenant R} {now : Instant} {reserve : UInt64} :
    (t.admitLease now reserve).1 = .error .rateLimited ↔ t.state.active < t.maxConcurrent ∧
      (t.state.requests.refill now).level < ((1 : ℕ) : R) := by
  have hcases := t.admission_cases now reserve
  generalize t.admitLease now reserve = res at hcases ⊢
  cases hcases with
  | concurrencyLimited hfull =>
    refine ⟨fun h => absurd h (by simp), fun h => ?_⟩
    exact absurd hfull (UInt32.not_le.mpr h.1)
  | rateLimited hroom hrate => exact ⟨fun _ => ⟨hroom, hrate⟩, fun _ => rfl⟩
  | tokenBudget _ hrate | granted _ hrate =>
    exact ⟨fun h => absurd h (by simp), fun h => absurd h.2 hrate⟩

end Tenant

/-! ## All tenants -/

namespace Tenants

variable {R : Type} [Max R] [Div R] [LT R] [DecidableLT R] [NatCast R]

/-- When the loop of `from_configs` gets to the end, every rate is positive, no API key occurs twice
and there is an entry for each tenant. -/
theorem insertConfigs_ok {now : Instant} {byKey byKey' : AList fun _ : String => Tenant R}
    {configs : List (TenantConfig R)} (h : insertConfigs now byKey configs = .ok byKey') :
    (∀ cfg ∈ configs, ((0 : ℕ) : R) < cfg.requestsPerSecond ∧ cfg.apiKey ∉ byKey) ∧
      (configs.map TenantConfig.apiKey).Nodup ∧
      byKey'.entries = (configs.map fun cfg => ⟨cfg.apiKey, .fromConfig cfg now⟩).reverse
        ++ byKey.entries := by
  induction configs generalizing byKey with
  | nil =>
    rw [← Except.ok.inj h]
    exact ⟨fun _ hcfg => absurd hcfg List.not_mem_nil, List.nodup_nil, rfl⟩
  | cons cfg configs ih =>
    rw [insertConfigs] at h
    by_cases hrate : ¬ ((0 : ℕ) : R) < cfg.requestsPerSecond
    · rw [if_pos hrate] at h
      exact absurd h (by simp)
    rw [if_neg hrate] at h
    by_cases hkey : (byKey.lookup cfg.apiKey).isSome
    · rw [if_pos hkey] at h
      exact absurd h (by simp)
    rw [if_neg hkey] at h
    rw [AList.lookup_isSome] at hkey
    obtain ⟨hall, hkeys, hentries⟩ := ih h
    have hnew : ∀ c ∈ configs, c.apiKey ≠ cfg.apiKey ∧ c.apiKey ∉ byKey := by
      intro c hc
      have hnot := (hall c hc).2
      rw [AList.mem_insert, not_or] at hnot
      exact hnot
    refine ⟨fun c hc => ?_, ?_, ?_⟩
    · rcases List.mem_cons.mp hc with rfl | hc
      · exact ⟨not_not.mp hrate, hkey⟩
      · exact ⟨(hall c hc).1, (hnew c hc).2⟩
    · rw [List.map_cons, List.nodup_cons, List.mem_map]
      refine ⟨?_, hkeys⟩
      rintro ⟨c, hc, he⟩
      exact (hnew c hc).1 he
    · rw [hentries, AList.entries_insert_of_notMem hkey, List.map_cons, List.reverse_cons,
        List.append_assoc, List.singleton_append]

/-- What is accepted has positive rates and distinct API keys, and an entry for each tenant. -/
theorem fromConfigs_ok {configs : List (TenantConfig R)} {now : Instant} {tenants : Tenants R}
    (h : fromConfigs configs now = .ok tenants) :
    (∀ cfg ∈ configs, ((0 : ℕ) : R) < cfg.requestsPerSecond) ∧
      (configs.map TenantConfig.apiKey).Nodup ∧ tenants.anonymous = none ∧
      tenants.byKey.entries
        = (configs.map fun cfg => ⟨cfg.apiKey, .fromConfig cfg now⟩).reverse := by
  unfold fromConfigs at h
  cases hinsert : insertConfigs now ∅ configs with
  | error e =>
    rw [hinsert] at h
    exact absurd h (by simp [Except.map])
  | ok byKey =>
    rw [hinsert] at h
    obtain ⟨hall, hkeys, hentries⟩ := insertConfigs_ok hinsert
    rw [← Except.ok.inj h]
    refine ⟨fun cfg hcfg => (hall cfg hcfg).1, hkeys, rfl, ?_⟩
    rw [hentries]
    exact List.append_nil _

/-- An entry that is refused after the entries `before`: its rate is not positive, or another entry
has its API key already. -/
def Offends (before : List (TenantConfig R)) (cfg : TenantConfig R) : Prop :=
  ¬ ((0 : ℕ) : R) < cfg.requestsPerSecond ∨ cfg.apiKey ∈ before.map TenantConfig.apiKey

/-- The error that an entry is refused with. The rate is looked at before the key. -/
def complaint (cfg : TenantConfig R) : TenantsError :=
  if ¬ ((0 : ℕ) : R) < cfg.requestsPerSecond then .badRate cfg.id else .duplicateKey cfg.id

/-- The loop of `from_configs` stops at an entry after others that it has inserted. -/
theorem insertConfigs_error {now : Instant} {byKey : AList fun _ : String => Tenant R}
    {configs : List (TenantConfig R)} {e : TenantsError}
    (h : insertConfigs now byKey configs = .error e) :
    ∃ before cfg after byKey', configs = before ++ cfg :: after ∧
      insertConfigs now byKey before = .ok byKey' ∧ e = complaint cfg ∧
      (¬ ((0 : ℕ) : R) < cfg.requestsPerSecond ∨ cfg.apiKey ∈ byKey') := by
  induction configs generalizing byKey with
  | nil => exact absurd h (by simp [insertConfigs])
  | cons cfg configs ih =>
    rw [insertConfigs] at h
    by_cases hrate : ¬ ((0 : ℕ) : R) < cfg.requestsPerSecond
    · rw [if_pos hrate] at h
      refine ⟨[], cfg, configs, byKey, rfl, rfl, ?_, Or.inl hrate⟩
      rw [complaint, if_pos hrate, Except.error.inj h]
    rw [if_neg hrate] at h
    by_cases hkey : (byKey.lookup cfg.apiKey).isSome
    · rw [if_pos hkey] at h
      refine ⟨[], cfg, configs, byKey, rfl, rfl, ?_, Or.inr (AList.lookup_isSome.mp hkey)⟩
      rw [complaint, if_neg hrate, Except.error.inj h]
    rw [if_neg hkey] at h
    obtain ⟨before, c, after, byKey', rfl, hok, he, hoffends⟩ := ih h
    refine ⟨cfg :: before, c, after, byKey', rfl, ?_, he, hoffends⟩
    rw [insertConfigs, if_neg hrate, if_neg hkey]
    exact hok

/-- What is accepted has no entry that offends. -/
theorem not_offends_of_ok {configs : List (TenantConfig R)} {now : Instant} {tenants : Tenants R}
    (h : fromConfigs configs now = .ok tenants) (before : List (TenantConfig R))
    (cfg : TenantConfig R) (after : List (TenantConfig R)) (he : configs = before ++ cfg :: after) :
    ¬ Offends before cfg := by
  obtain ⟨hrate, hkeys, -⟩ := fromConfigs_ok h
  subst he
  rw [List.map_append, List.map_cons, List.nodup_append] at hkeys
  rintro (hbad | hdup)
  · exact hbad (hrate cfg (by simp))
  · exact hkeys.2.2 _ hdup _ List.mem_cons_self rfl

/-- A refusal names the first entry that offends. -/
theorem fromConfigs_first {configs : List (TenantConfig R)} {now : Instant} {e : TenantsError}
    (h : fromConfigs configs now = .error e) :
    ∃ before cfg after, configs = before ++ cfg :: after ∧ Offends before cfg ∧
      e = complaint cfg ∧ ∀ b c a, before = b ++ c :: a → ¬ Offends b c := by
  have hinsert : insertConfigs now ∅ configs = .error e := by
    unfold fromConfigs at h
    cases hc : insertConfigs now ∅ configs with
    | ok byKey =>
      rw [hc] at h
      exact absurd h (by simp [Except.map])
    | error e' =>
      rw [hc] at h
      rw [Except.error.inj h]
  obtain ⟨before, cfg, after, byKey', hconfigs, hok, he, hoffends⟩ := insertConfigs_error hinsert
  have haccepted : fromConfigs before now = .ok ⟨byKey', none⟩ := by
    rw [fromConfigs, hok]
    rfl
  refine ⟨before, cfg, after, hconfigs, hoffends.imp_right fun hmem => ?_, he,
    not_offends_of_ok haccepted⟩
  have hentries := (fromConfigs_ok haccepted).2.2.2
  rw [AList.mem_keys, AList.keys, List.keys, hentries, List.map_reverse, List.map_map,
    List.mem_reverse] at hmem
  exact hmem

/-- The lists of tenants that are accepted. -/
theorem fromConfigs_ok_iff (configs : List (TenantConfig R)) (now : Instant) :
    (∃ tenants, fromConfigs configs now = .ok tenants) ↔
      (∀ cfg ∈ configs, ((0 : ℕ) : R) < cfg.requestsPerSecond) ∧
        (configs.map TenantConfig.apiKey).Nodup := by
  constructor
  · rintro ⟨tenants, h⟩
    obtain ⟨hrate, hkeys, -⟩ := fromConfigs_ok h
    exact ⟨hrate, hkeys⟩
  · rintro ⟨hrate, hkeys⟩
    cases he : fromConfigs configs now with
    | ok tenants => exact ⟨tenants, rfl⟩
    | error e =>
      obtain ⟨before, cfg, after, rfl, hbad | hdup, -⟩ := fromConfigs_first he
      · exact absurd (hrate cfg (by simp)) hbad
      · rw [List.map_append, List.map_cons, List.nodup_append] at hkeys
        exact absurd rfl (hkeys.2.2 _ hdup _ List.mem_cons_self)

/-- A key resolves to the tenant that was configured with it. -/
theorem resolve_fromConfigs {configs : List (TenantConfig R)} {now : Instant} {tenants : Tenants R}
    (h : fromConfigs configs now = .ok tenants) (k : String) (t : Tenant R) :
    tenants.resolve (some k) = some t ↔
      ∃ cfg ∈ configs, cfg.apiKey = k ∧ Tenant.fromConfig cfg now = t := by
  obtain ⟨-, -, hanon, hentries⟩ := fromConfigs_ok h
  simp only [resolve, hanon, Option.bind_some]
  rw [← Option.mem_def, AList.mem_lookup_iff, hentries, List.mem_reverse, List.mem_map]
  constructor
  · rintro ⟨cfg, hcfg, he⟩
    rw [Sigma.mk.injEq] at he
    exact ⟨cfg, hcfg, he.1, eq_of_heq he.2⟩
  · rintro ⟨cfg, hcfg, rfl, rfl⟩
    exact ⟨cfg, hcfg, rfl⟩

end Tenants
end OxideGate
