import OxideGate.LeaseBookTheorems
import Mathlib.Algebra.Order.AddGroupWithTop
import Mathlib.Algebra.Order.Ring.WithTop
import Mathlib.Tactic.Ring

/-!
# A refused admission is unobservable

A refused `admit` may refill a bucket and move its `last`, and so does `tokens_available`. A
refill only brings forward what the next one would do (`Lawful.refill_refill`), so two tenants
whose buckets agree on every later refill (`Alike`) give the same answers to the same
operations, and stay so when one of them runs an operation that is unseen.
-/

namespace OxideGate

/-! ## Buckets that refill lazily -/

namespace Bucket

variable {R : Type} [Add R] [Mul R] [Min R] [RatCast R]

/-- From `clock` on the two buckets cannot be told apart. -/
structure Alike (clock : Instant) (b b' : Bucket R) : Prop where
  capacity : b'.capacity = b.capacity
  perSec : b'.perSec = b.perSec
  last : b.last ≤ clock
  last' : b'.last ≤ clock
  level : ∀ t, clock ≤ t → (b'.refill t).level = (b.refill t).level

theorem alike_refl {clock : Instant} {b : Bucket R} (h : b.last ≤ clock) : Alike clock b b :=
  ⟨rfl, rfl, h, h, fun _ _ => rfl⟩

theorem Alike.mono {clock t : Instant} {b b' : Bucket R} (h : Alike clock b b') (ht : clock ≤ t) :
    Alike t b b' :=
  ⟨h.capacity, h.perSec, h.last.trans ht, h.last'.trans ht, fun u hu => h.level u (ht.trans hu)⟩

/-- A refill makes them equal. -/
theorem Alike.refill_eq {clock t : Instant} {b b' : Bucket R} (h : Alike clock b b')
    (ht : clock ≤ t) : b'.refill t = b.refill t := by
  ext1
  · rw [refill_capacity, refill_capacity, h.capacity]
  · rw [refill_perSec, refill_perSec, h.perSec]
  · exact h.level t ht
  · rw [refill_last, refill_last]

variable [Sub R] [NatCast R]

/-- A class of buckets, closed under what a tenant does to them, in which an extra refill has no
lasting effect. -/
structure Lawful (Fits : Bucket R → Prop) : Prop where
  refill_refill : ∀ b t u, Fits b → b.last ≤ t → t ≤ u →
    ((b.refill t).refill u).level = (b.refill u).level
  refill : ∀ b t, Fits b → b.last ≤ t → Fits (b.refill t)
  take : ∀ b (n : ℕ), Fits b → Fits { b with level := b.level - (n : R) }
  refund : ∀ b (m n : ℕ), Fits b →
    Fits { b with level := min (b.level + ((m : R) - (n : R))) b.capacity }

/-- A refill of one of them only. -/
theorem Alike.refill_left {Fits : Bucket R → Prop} (hl : Lawful Fits) {clock t : Instant}
    {b b' : Bucket R} (h : Alike clock b b') (hb : Fits b) (ht : clock ≤ t) :
    Alike t (b.refill t) b' where
  capacity := by rw [refill_capacity, h.capacity]
  perSec := by rw [refill_perSec, h.perSec]
  last := by rw [refill_last]
  last' := h.last'.trans ht
  level := by
    intro u hu
    rw [hl.refill_refill b t u hb (h.last.trans ht) hu, h.level u (ht.trans hu)]

/-! ## The buckets of a tenant -/

/-- A configured bucket: the level is cut off at the capacity. -/
def Clamped (b : Bucket ℚ) : Prop := b.level ≤ b.capacity

theorem lawful_clamped : Lawful Clamped where
  refill_refill := by
    intro b t u hb ht hu
    unfold Clamped at hb
    rcases ht.lt_or_eq with ht | ht
    · rcases hu.lt_or_eq with hu | hu
      · rw [refill_of_lt ht, refill_of_lt hu, refill_of_lt (ht.trans hu)]
        simp only [Rat.cast_id]
        have hsplit : (u - b.last) * b.perSec = (t - b.last) * b.perSec + (u - t) * b.perSec := by
          ring
        rw [hsplit, ← add_assoc]
        rcases le_total 0 b.perSec with hrate | hrate
        · -- the level was cut off at the capacity before it would be anyway
          have hgrow := mul_nonneg (sub_nonneg.mpr hu.le) hrate
          rw [← min_add_add_right, min_assoc, min_eq_right (a := b.capacity + _) (by linarith)]
        · -- the level falls, so nothing is cut off
          have hfall := mul_nonpos_of_nonneg_of_nonpos (sub_nonneg.mpr ht.le) hrate
          rw [min_eq_left (a := b.level + _) (by linarith)]
      · rw [← hu, refill_of_le (b := b.refill t) (by rw [refill_last])]
    · have hsame : b.refill t = b := by
        rw [refill_of_le ht.ge, ← ht]
      rw [hsame]
  refill := fun b t hb _ => by
    rw [Clamped, refill_capacity]
    exact b.refill_level_le t hb
  take := fun b n hb => by
    have hn : (0 : ℚ) ≤ n := Nat.cast_nonneg n
    unfold Clamped at hb
    show b.level - n ≤ b.capacity
    linarith
  refund := fun b m n _ => min_le_right _ _

end Bucket

/-- A finite amount of a quantity that may be infinite. -/
instance instRatCastEndless : RatCast (WithTop ℚ) := ⟨fun q => ((q : ℚ) : WithTop ℚ)⟩

namespace Bucket

/-- A bucket that never runs out. -/
structure Endless (b : Bucket (WithTop ℚ)) : Prop where
  level : b.level = ⊤
  capacity : b.capacity = ⊤
  perSec : b.perSec = ⊤

theorem Endless.refill {b : Bucket (WithTop ℚ)} (h : b.Endless) {t : Instant} (ht : b.last ≤ t) :
    (b.refill t).Endless where
  level := by
    rcases ht.lt_or_eq with ht | ht
    · rw [refill_of_lt ht, h.level, h.capacity, top_add, min_self]
    · rw [refill_of_le ht.ge]
      exact h.level
  capacity := by rw [refill_capacity, h.capacity]
  perSec := by rw [refill_perSec, h.perSec]

theorem lawful_endless : Lawful Endless where
  refill_refill := by
    intro b t u hb ht hu
    have hlast : (b.refill t).last ≤ u := by
      rw [refill_last]
      exact hu
    rw [((hb.refill ht).refill hlast).level, (hb.refill (ht.trans hu)).level]
  refill := fun b t hb ht => hb.refill ht
  take := fun b n hb => ⟨by rw [hb.level]; rfl, hb.capacity, hb.perSec⟩
  refund := fun b m n hb =>
    ⟨by rw [hb.level, hb.capacity, top_add, min_self], hb.capacity, hb.perSec⟩

end Bucket

/-! ## Tenants -/

namespace Tenant

variable {R : Type} [Add R] [Mul R] [Min R] [RatCast R]

/-- From `clock` on the two tenants cannot be told apart; the first one's buckets are lawful. -/
structure Alike (Fits : Bucket R → Prop) (clock : Instant) (t t' : Tenant R) : Prop where
  maxConcurrent : t'.maxConcurrent = t.maxConcurrent
  active : t'.state.active = t.state.active
  requests : t.state.requests.Alike clock t'.state.requests
  tokens : t.state.tokens.Alike clock t'.state.tokens
  requests_fits : Fits t.state.requests
  tokens_fits : Fits t.state.tokens

variable {Fits : Bucket R → Prop} {clock now : Instant} {t t' : Tenant R}

theorem Alike.mono (h : Alike Fits clock t t') (hnow : clock ≤ now) : Alike Fits now t t' :=
  ⟨h.maxConcurrent, h.active, h.requests.mono hnow, h.tokens.mono hnow, h.requests_fits,
    h.tokens_fits⟩

variable [Sub R] [NatCast R]

theorem Alike.tokensAvailable (hl : Bucket.Lawful Fits) (h : Alike Fits clock t t')
    (hnow : clock ≤ now) : (t'.tokensAvailable now).1 = (t.tokensAvailable now).1 ∧
      Alike Fits now (t.tokensAvailable now).2 (t'.tokensAvailable now).2 := by
  have htok := h.tokens.refill_eq hnow
  have htok_fits := hl.refill _ now h.tokens_fits (h.tokens.last.trans hnow)
  have hsame : (t.state.tokens.refill now).Alike now (t'.state.tokens.refill now) := by
    rw [htok]
    exact Bucket.alike_refl (le_of_eq (Bucket.refill_last _ now))
  refine ⟨?_, h.maxConcurrent, h.active, h.requests.mono hnow, hsame, h.requests_fits, htok_fits⟩
  show (t'.state.tokens.refill now).level = (t.state.tokens.refill now).level
  rw [htok]

/-- A look at the tokens leaves no trace. -/
theorem Alike.probed (hl : Bucket.Lawful Fits) (h : Alike Fits clock t t') (hnow : clock ≤ now) :
    Alike Fits now (t.tokensAvailable now).2 t' :=
  ⟨h.maxConcurrent, h.active, h.requests.mono hnow,
    h.tokens.refill_left hl h.tokens_fits hnow, h.requests_fits,
    hl.refill _ now h.tokens_fits (h.tokens.last.trans hnow)⟩

theorem Alike.dropLease (hl : Bucket.Lawful Fits) (h : Alike Fits clock t t')
    (hnow : clock ≤ now) (l : Lease) :
    Alike Fits now (t.dropLease l now) (t'.dropLease l now) := by
  have htok := h.tokens.refill_eq hnow
  have htok_fits := hl.refill _ now h.tokens_fits (h.tokens.last.trans hnow)
  unfold Tenant.dropLease
  simp only [htok, h.active]
  exact ⟨h.maxConcurrent, rfl, h.requests.mono hnow,
    Bucket.alike_refl (le_of_eq (Bucket.refill_last _ now)), h.requests_fits,
    hl.refund _ l.reserved.toNat l.used.toNat htok_fits⟩

variable [LT R] [DecidableLT R]

/-- The same call of `admit` ends in the same way. -/
theorem Alike.admitLease (hl : Bucket.Lawful Fits) (h : Alike Fits clock t t')
    (hnow : clock ≤ now) (reserve : UInt64) :
    (t'.admitLease now reserve).1 = (t.admitLease now reserve).1 ∧
      Alike Fits now (t.admitLease now reserve).2 (t'.admitLease now reserve).2 := by
  have hreq := h.requests.refill_eq hnow
  have htok := h.tokens.refill_eq hnow
  have hreq_fits := hl.refill _ now h.requests_fits (h.requests.last.trans hnow)
  have htok_fits := hl.refill _ now h.tokens_fits (h.tokens.last.trans hnow)
  have hrefl : ∀ (b : Bucket R) (l : R), ({ b.refill now with level := l } : Bucket R).Alike now
      { b.refill now with level := l } :=
    fun b l => Bucket.alike_refl (le_of_eq (b.refill_last now))
  unfold Tenant.admitLease
  rw [h.maxConcurrent, h.active]
  simp only [hreq, htok]
  by_cases hfull : t.maxConcurrent ≤ t.state.active
  · rw [if_pos hfull, if_pos hfull]
    exact ⟨rfl, h.mono hnow⟩
  · rw [if_neg hfull, if_neg hfull]
    by_cases hrate : (t.state.requests.refill now).level < ((1 : ℕ) : R)
    · rw [if_pos hrate, if_pos hrate]
      exact ⟨rfl, rfl, h.active, hrefl _ _, h.tokens.mono hnow, hreq_fits,
        h.tokens_fits⟩
    · rw [if_neg hrate, if_neg hrate]
      by_cases hbudget : (t.state.tokens.refill now).level < (reserve.toNat : R)
      · rw [if_pos hbudget, if_pos hbudget]
        exact ⟨rfl, rfl, h.active, hrefl _ _, hrefl _ _, hreq_fits, htok_fits⟩
      · rw [if_neg hbudget, if_neg hbudget]
        exact ⟨rfl, rfl, rfl, hrefl _ _, hrefl _ _, hl.take _ 1 hreq_fits,
          hl.take _ reserve.toNat htok_fits⟩

/-- A refused call of `admit` leaves none either. -/
theorem Alike.refused (hl : Bucket.Lawful Fits) (h : Alike Fits clock t t') (hnow : clock ≤ now)
    {reserve : UInt64} {e : AdmitError} (he : (t.admitLease now reserve).1 = .error e) :
    Alike Fits now (t.admitLease now reserve).2 t' := by
  have hcases := t.admission_cases now reserve
  have hreq_fits := hl.refill _ now h.requests_fits (h.requests.last.trans hnow)
  have htok_fits := hl.refill _ now h.tokens_fits (h.tokens.last.trans hnow)
  generalize t.admitLease now reserve = r at he hcases
  cases hcases with
  | concurrencyLimited hfull => exact h.mono hnow
  | rateLimited hroom hrate =>
    exact ⟨h.maxConcurrent, h.active, h.requests.refill_left hl h.requests_fits hnow,
      h.tokens.mono hnow, hreq_fits, h.tokens_fits⟩
  | tokenBudget hroom hrate hbudget =>
    exact ⟨h.maxConcurrent, h.active, h.requests.refill_left hl h.requests_fits hnow,
      h.tokens.refill_left hl h.tokens_fits hnow, hreq_fits, htok_fits⟩
  | granted => exact absurd he (by simp)

end Tenant

/-! ## Runs -/

namespace LeaseBook

open Account (Act)

variable {R : Type} [Add R] [Sub R] [Mul R] [Min R] [LT R] [DecidableLT R] [NatCast R] [RatCast R]

/-- An operation that need not have happened: a refused `admit`, or one that only looks. -/
inductive Unseen : Act × Answer R → Prop
  | refused (now : Instant) (reserve : UInt64) (e : AdmitError) :
      Unseen (.admission now reserve, .admission (.error e))
  | tokensAvailable (now : Instant) (level : R) :
      Unseen (.tokensAvailable now, .tokensAvailable level)
  | active (n : UInt32) : Unseen (.active, .active n)

/-- Some of the unseen operations are left out of a transcript. -/
inductive Erased : List (Act × Answer R) → List (Act × Answer R) → Prop
  | nil : Erased [] []
  | keep (e : Act × Answer R) {tr tr' : List (Act × Answer R)} (h : Erased tr tr') :
      Erased (e :: tr) (e :: tr')
  | erase {e : Act × Answer R} (he : Unseen e) {tr tr' : List (Act × Answer R)}
      (h : Erased tr tr') : Erased (e :: tr) tr'

/-- The same leases on tenants that cannot be told apart. -/
structure Alike (Fits : Bucket R → Prop) (clock : Instant) (s s' : LeaseBook R) : Prop where
  leases : s'.leases = s.leases
  tenant : s.tenant.Alike Fits clock s'.tenant

variable {Fits : Bucket R → Prop} {clock : Instant} {s s' u : LeaseBook R}

theorem transcript_cons {a : Act} {as : List Act} {tr : List (Act × Answer R)} :
    s.transcript clock (a :: as) = some tr ↔ clock ≤ a.reading.getD clock ∧
      ∃ answer u tr', s.call a = some (answer, u) ∧
        u.transcript (a.reading.getD clock) as = some tr' ∧ tr = (a, answer) :: tr' := by
  rw [transcript]
  by_cases hle : clock ≤ a.reading.getD clock
  · rw [if_pos hle]
    simp only [Option.bind_eq_some_iff, Option.map_eq_some_iff, Prod.exists, hle, true_and]
    constructor
    · intro h
      obtain ⟨answer, u, hcall, tr', htr, heq⟩ := h
      exact ⟨answer, u, tr', hcall, htr, heq.symm⟩
    · intro h
      obtain ⟨answer, u, tr', hcall, htr, heq⟩ := h
      exact ⟨answer, u, hcall, tr', htr, heq.symm⟩
  · rw [if_neg hle]
    exact ⟨fun h => absurd h (by simp), fun h => absurd h.1 hle⟩

/-- The same operation has the same answer. -/
theorem Alike.call (hl : Bucket.Lawful Fits) (h : Alike Fits clock s s') {a : Act}
    (hnow : clock ≤ a.reading.getD clock) {answer : Answer R}
    (hcall : s.call a = some (answer, u)) :
    ∃ u', s'.call a = some (answer, u') ∧ Alike Fits (a.reading.getD clock) u u' := by
  have hleases := h.leases
  cases a with
  | admission now reserve =>
    obtain ⟨hsame, htenant⟩ := h.tenant.admitLease hl (show clock ≤ now from hnow) reserve
    simp only [LeaseBook.call, admission, Option.some.injEq] at hcall ⊢
    cases hr : (s.tenant.admitLease now reserve).1 with
    | ok l =>
      rw [hr] at hcall hsame
      obtain ⟨rfl, rfl⟩ := Prod.mk.inj hcall
      rw [hsame, hleases]
      exact ⟨_, rfl, rfl, htenant⟩
    | error e =>
      rw [hr] at hcall hsame
      obtain ⟨rfl, rfl⟩ := Prod.mk.inj hcall
      rw [hsame, hleases]
      exact ⟨_, rfl, rfl, htenant⟩
  | recordTokens id n =>
    simp only [LeaseBook.call, Option.map_eq_some_iff, hleases] at hcall ⊢
    obtain ⟨l, hid, heq⟩ := hcall
    obtain ⟨rfl, rfl⟩ := Prod.mk.inj heq
    exact ⟨_, ⟨l, hid, rfl⟩, rfl, h.tenant.mono hnow⟩
  | drop id now =>
    simp only [LeaseBook.call, Option.map_eq_some_iff, hleases] at hcall ⊢
    obtain ⟨l, hid, heq⟩ := hcall
    obtain ⟨rfl, rfl⟩ := Prod.mk.inj heq
    exact ⟨_, ⟨l, hid, rfl⟩, rfl, h.tenant.dropLease hl hnow l⟩
  | tokensAvailable now =>
    obtain ⟨hsame, htenant⟩ := h.tenant.tokensAvailable hl (show clock ≤ now from hnow)
    simp only [LeaseBook.call, Option.some.injEq] at hcall ⊢
    obtain ⟨rfl, rfl⟩ := Prod.mk.inj hcall
    rw [hsame]
    exact ⟨_, rfl, hleases, htenant⟩
  | active =>
    simp only [LeaseBook.call, Option.some.injEq] at hcall ⊢
    obtain ⟨rfl, rfl⟩ := Prod.mk.inj hcall
    rw [h.tenant.active]
    exact ⟨_, rfl, hleases, h.tenant.mono hnow⟩

/-- An unseen operation leaves no trace. -/
theorem Alike.unseen (hl : Bucket.Lawful Fits) (h : Alike Fits clock s s') {a : Act}
    (hnow : clock ≤ a.reading.getD clock) {answer : Answer R} (hcall : s.call a = some (answer, u))
    (hunseen : Unseen (a, answer)) : Alike Fits (a.reading.getD clock) u s' := by
  cases hunseen with
  | refused now reserve e =>
    simp only [LeaseBook.call, admission, Option.some.injEq] at hcall
    cases hr : (s.tenant.admitLease now reserve).1 with
    | ok l =>
      rw [hr] at hcall
      exact absurd (Prod.mk.inj hcall).1 (by simp)
    | error e' =>
      rw [hr] at hcall
      rw [← (Prod.mk.inj hcall).2]
      exact ⟨h.leases, h.tenant.refused hl hnow hr⟩
  | tokensAvailable now level =>
    simp only [LeaseBook.call, Option.some.injEq] at hcall
    rw [← (Prod.mk.inj hcall).2]
    exact ⟨h.leases, h.tenant.probed hl hnow⟩
  | active n =>
    simp only [LeaseBook.call, Option.some.injEq] at hcall
    rw [← (Prod.mk.inj hcall).2]
    exact ⟨h.leases, h.tenant.mono hnow⟩

/-- The run without the erased operations goes through, with the answers that are left. -/
theorem Alike.transcript (hl : Bucket.Lawful Fits) (h : Alike Fits clock s s') {acts : List Act}
    {tr tr' : List (Act × Answer R)} (htr : s.transcript clock acts = some tr)
    (he : Erased tr tr') {clock' : Instant} (hclock : clock' ≤ clock) :
    s'.transcript clock' (tr'.map Prod.fst) = some tr' := by
  induction acts generalizing s s' clock clock' tr tr' with
  | nil =>
    rw [LeaseBook.transcript, Option.some.injEq] at htr
    rw [← htr] at he
    cases he with
    | nil => rfl
  | cons a acts ih =>
    obtain ⟨hnow, answer, u, tr₁, hcall, htr₁, rfl⟩ := transcript_cons.mp htr
    cases he with
    | keep e he =>
      obtain ⟨u', hcall', halike⟩ := h.call hl hnow hcall
      -- the clock of the shorter run may be behind, up to the next reading
      have hclock' : clock' ≤ a.reading.getD clock' ∧
          a.reading.getD clock' ≤ a.reading.getD clock := by
        cases hr : a.reading with
        | none => exact ⟨le_rfl, hclock⟩
        | some now =>
          rw [hr] at hnow
          exact ⟨hclock.trans hnow, le_rfl⟩
      rw [List.map_cons]
      exact transcript_cons.mpr ⟨hclock'.1, answer, u', _, hcall', ih halike htr₁ he hclock'.2, rfl⟩
    | erase hunseen he =>
      exact ih (h.unseen hl hnow hcall hunseen) htr₁ he (hclock.trans hnow)

omit [Sub R] [LT R] [DecidableLT R] [NatCast R] in
theorem alike_new {t : Tenant R} (hreq : Fits t.state.requests) (htok : Fits t.state.tokens)
    (hreq_last : t.state.requests.last ≤ clock) (htok_last : t.state.tokens.last ≤ clock) :
    Alike Fits clock (new t) (new t) :=
  ⟨rfl, rfl, rfl, Bucket.alike_refl hreq_last, Bucket.alike_refl htok_last, hreq, htok⟩

/-- In a run of operations that do not overlap, refused calls of `admit` and calls of
`tokens_available` and `active` can be left out: every other operation returns what it did. The
tenant is a configured one, or the one of single-tenant mode. -/
theorem refusals_unseen :
    (∀ (cfg : TenantConfig ℚ) (t0 : Instant) (acts : List Act) (tr tr' : List (Act × Answer ℚ)),
      (new (.fromConfig cfg t0)).transcript t0 acts = some tr → Erased tr tr' →
      (new (.fromConfig cfg t0)).transcript t0 (tr'.map Prod.fst) = some tr') ∧
    ∀ (id : String) (t0 : Instant) (acts : List Act) (tr tr' : List (Act × Answer (WithTop ℚ))),
      (new (.unlimited id t0)).transcript t0 acts = some tr → Erased tr tr' →
      (new (.unlimited id t0)).transcript t0 (tr'.map Prod.fst) = some tr' := by
  constructor
  · intro cfg t0 acts tr tr' htr he
    have halike : Alike Bucket.Clamped t0 (new (.fromConfig cfg t0)) (new (.fromConfig cfg t0)) :=
      alike_new (le_refl (max _ _)) (le_refl (Nat.cast _)) (le_refl t0) (le_refl t0)
    exact halike.transcript Bucket.lawful_clamped htr he (le_refl t0)
  · intro id t0 acts tr tr' htr he
    have halike : Alike Bucket.Endless t0 (new (.unlimited id t0)) (new (.unlimited id t0)) :=
      alike_new ⟨rfl, rfl, rfl⟩ ⟨rfl, rfl, rfl⟩ (le_refl t0) (le_refl t0)
    exact halike.transcript Bucket.lawful_endless htr he (le_refl t0)

/-- A tenant with one slot, a burst of two and 60 tokens: a full slot, an empty token bucket and an
empty request bucket each refuse a call, and the tokens and the slots are looked at once. -/
def eventful : List (Act × Answer ℚ) :=
  [(.admission 0 40, .admission (.ok ⟨40, 0⟩)),
    (.admission 0 10, .admission (.error .concurrencyLimited)), (.active, .active 1),
    (.drop 0 1, .done), (.admission 1 61, .admission (.error .tokenBudget)),
    (.tokensAvailable 1, .tokensAvailable 60), (.admission 1 10, .admission (.ok ⟨10, 0⟩)),
    (.drop 1 1, .done), (.admission 1 10, .admission (.ok ⟨10, 0⟩)), (.drop 2 1, .done),
    (.admission 1 10, .admission (.error .rateLimited)),
    (.admission 2 60, .admission (.ok ⟨60, 0⟩))]

/-- `eventful` without the three refusals and the two looks. -/
def uneventful : List (Act × Answer ℚ) :=
  [(.admission 0 40, .admission (.ok ⟨40, 0⟩)), (.drop 0 1, .done),
    (.admission 1 10, .admission (.ok ⟨10, 0⟩)), (.drop 1 1, .done),
    (.admission 1 10, .admission (.ok ⟨10, 0⟩)), (.drop 2 1, .done),
    (.admission 2 60, .admission (.ok ⟨60, 0⟩))]

theorem erased_eventful : Erased eventful uneventful :=
  .keep _ <| .erase (.refused 0 10 _) <| .erase (.active 1) <| .keep _ <|
    .erase (.refused 1 61 _) <| .erase (.tokensAvailable 1 60) <| .keep _ <| .keep _ <|
    .keep _ <| .keep _ <| .erase (.refused 1 10 _) <| .keep _ .nil

/-- Refusals of all three kinds and both looks, left out at once. -/
theorem refusals_unseen_eventful :
    (new (.fromConfig ⟨"acme", "key", .paid, 60, 2, 1⟩ 0)).transcript 0 (eventful.map Prod.fst)
        = some eventful ∧
      Erased eventful uneventful ∧
      (new (.fromConfig ⟨"acme", "key", .paid, 60, 2, 1⟩ 0)).transcript 0 (uneventful.map Prod.fst)
        = some uneventful := by
  have hrun : (new (.fromConfig ⟨"acme", "key", .paid, 60, 2, 1⟩ 0)).transcript 0
      (eventful.map Prod.fst) = some eventful := by decide +kernel
  exact ⟨hrun, erased_eventful, refusals_unseen.1 _ 0 _ _ _ hrun erased_eventful⟩

end LeaseBook
end OxideGate
