import OxideGate.AccountTheorems
import OxideGate.Clocked

/-!
# Tokens per minute over a window

While a reservation is held, the bucket goes on refilling towards its full capacity, and the
unused part of the reservation is refunded on top. A grant can so find a bucket that is worth
more than it holds: the level it finds and the refunds that older leases are still to get may
add up to more than the capacity, and a window that starts there can use all of it
(`window_overrun`).

`Metered` keeps for each lease the room that its grant left below the capacity, less the
refunds of older leases since. As long as no refund exceeds the room of a later lease, the
limit holds for every window (`token_window_of_room`).
-/

namespace OxideGate

open Runs Tally

namespace Record

/-- Tokens used by a lease that was granted at `a` or later and dropped by `t`. -/
def usedWithin (a t : Instant) (r : Record) : ℚ :=
  match r.droppedAt with
  | some d => if a ≤ r.grantedAt ∧ d ≤ t then (r.lease.used.toNat : ℚ) else 0
  | none => 0

theorem held_nonneg (r : Record) : 0 ≤ r.held := by
  unfold held
  split
  · exact Nat.cast_nonneg _
  · exact le_rfl

theorem usedWithin_live (a t : Instant) {r : Record} (h : r.isLive) : r.usedWithin a t = 0 := by
  have hnone : r.droppedAt = none := Option.isNone_iff_eq_none.mp h
  rw [usedWithin, hnone]

/-- A lease dropped after the window is not counted in it. -/
theorem usedWithin_late {a t now : Instant} (h : t < now) (r : Record) :
    Record.usedWithin a t { r with droppedAt := some now } = 0 :=
  if_neg fun hc => absurd hc.2 (not_le.mpr h)

/-- A lease granted before the window is not counted in it. -/
theorem usedWithin_early {a : Instant} {r : Record} (h : r.grantedAt < a) (t : Instant) :
    r.usedWithin a t = 0 := by
  unfold usedWithin
  split
  · exact if_neg fun hc => absurd hc.1 (not_le.mpr h)
  · rfl

theorem usedWithin_le (a t : Instant) (r : Record) : r.usedWithin a t ≤ r.spent := by
  unfold usedWithin spent isLive
  cases r.droppedAt with
  | none => simp
  | some d =>
    by_cases hc : a ≤ r.grantedAt ∧ d ≤ t
    · simp [hc]
    · simp [hc]

/-- What is counted in the window was used by the leases from its first grant on. -/
theorem tally_usedWithin_le (a t : Instant) (l : List Record) :
    tally (usedWithin a t) l = 0 ∨ ∃ j g, (l.map grantedAt)[j]? = some g ∧ a ≤ g ∧
      tally (usedWithin a t) l ≤ tally spent (l.drop j) := by
  induction l with
  | nil => exact Or.inl rfl
  | cons r l ih =>
    by_cases hr : a ≤ r.grantedAt
    · -- the first lease of the window: count it and all after it
      right
      exact ⟨0, r.grantedAt, rfl, hr, tally_le_tally fun x _ => x.usedWithin_le a t⟩
    · rw [tally_cons, usedWithin_early (not_le.mp hr), zero_add]
      refine ih.imp id fun hex => ?_
      obtain ⟨j, g, hj, hg, hle⟩ := hex
      exact ⟨j + 1, g, hj, hg, hle⟩

end Record

/-! ## Rooms -/

/-- A serial run that also keeps, for each lease, the room that the bucket had below its
capacity when the lease was granted, less the refunds of older leases since. -/
structure Metered where
  serial : Serial
  rooms : List ℚ

namespace Metered

abbrev account (s : Metered) : Account := s.serial.account

/-- The rooms after an operation. A grant leaves what the bucket it found lacks; a drop takes
the refund from the rooms of the leases granted later. -/
def roomsAfter (s : Metered) : Account.Act → List ℚ
  | .admission now reserve =>
    match (s.account.tenant.admitLease now reserve).1 with
    | .ok _ => s.rooms ++ [s.account.tokens.capacity - (s.account.tokens.refill now).level]
    | .error _ => s.rooms
  | .drop id _ =>
    match s.account.leases[id]? with
    | some r => s.rooms.mapIdx fun j x => if id < j then x - Account.refund r.lease else x
    | none => s.rooms
  | .recordTokens _ _ => s.rooms
  | .tokensAvailable _ => s.rooms
  | .active => s.rooms

def start (cfg : TenantConfig ℚ) (t0 : Instant) : Metered := ⟨.start cfg t0, []⟩

def step (s : Metered) (a : Account.Act) : Option Metered :=
  (s.serial.step a).map fun serial => ⟨serial, s.roomsAfter a⟩

/-- The rooms only watch: a metered run is a serial run. -/
theorem map_serial_exec (s : Metered) (acts : List Account.Act) :
    (exec step s acts).map serial = exec Serial.step s.serial acts := by
  induction acts generalizing s with
  | nil => rfl
  | cons a acts ih =>
    cases hs : s.serial.step a with
    | none => simp [exec, step, hs]
    | some serial => simpa [exec, step, hs] using ih ⟨serial, s.roomsAfter a⟩

/-- The refund of a lease fits into the room of every lease that was granted after it. -/
def HasRoom (s : Metered) : Account.Act → Prop
  | .drop id _ => ∀ r ∈ s.account.leases[id]?, ∀ x ∈ s.rooms.drop (id + 1),
      Account.refund r.lease ≤ x
  | _ => True

instance (s : Metered) : (a : Account.Act) → Decidable (s.HasRoom a)
  | .drop id _ => inferInstanceAs (Decidable (∀ r ∈ s.account.leases[id]?,
      ∀ x ∈ s.rooms.drop (id + 1), Account.refund r.lease ≤ x))
  | .admission _ _ => isTrue trivial
  | .recordTokens _ _ => isTrue trivial
  | .tokensAvailable _ => isTrue trivial
  | .active => isTrue trivial

end Metered

namespace Account

/-- The bucket and the leases from the `j`-th on, which was granted at `g`, are paid for by
what the bucket was worth at that grant and the refills since. -/
def PaidFrom (C rate : ℚ) (j : ℕ) (g : Instant) (room : ℚ) (s : Account) : Prop :=
  s.tokens.level + tally Record.held (s.leases.drop j) + tally Record.spent (s.leases.drop j)
    ≤ C - room + rate * (s.tokens.last - g)

section
variable {C rate : ℚ} {j : ℕ} {g : Instant} {room : ℚ} {s : Account} {now : Instant}

/-- A refill with a reading that is not older than the last one. -/
theorem PaidFrom.refill (hrate : 0 ≤ rate) (hk : Kept C rate s) (hlast : s.tokens.last ≤ now)
    (h : PaidFrom C rate j g room s) :
    (s.tokens.refill now).level + tally Record.held (s.leases.drop j)
        + tally Record.spent (s.leases.drop j)
      ≤ C - room + rate * ((s.tokens.refill now).last - g) := by
  have hgain := s.tokens.gain_le now hlast (hk.perSec ▸ hrate)
  rw [hk.perSec] at hgain
  unfold PaidFrom at h
  rw [Bucket.refill_level, Bucket.refill_last]
  linarith

/-- A refill pays for itself: the time it counts has passed. -/
theorem PaidFrom.refilled (hrate : 0 ≤ rate) (hk : Kept C rate s) (hlast : s.tokens.last ≤ now)
    (h : PaidFrom C rate j g room s) {s' : Account} (ht : s'.tokens = s.tokens.refill now)
    (hl : s'.leases = s.leases) : PaidFrom C rate j g room s' := by
  rw [PaidFrom, ht, hl]
  exact h.refill hrate hk hlast

/-- A later grant moves its reservation from the bucket to a lease. -/
theorem PaidFrom.granted (hrate : 0 ≤ rate) (hk : Kept C rate s) (hlast : s.tokens.last ≤ now)
    (h : PaidFrom C rate j g room s) (hj : j ≤ s.leases.length) (reserve : UInt64) :
    (s.tokens.refill now).level - reserve.toNat
        + tally Record.held ((s.leases ++ [Record.mk ⟨reserve, 0⟩ now none]).drop j)
        + tally Record.spent ((s.leases ++ [Record.mk ⟨reserve, 0⟩ now none]).drop j)
      ≤ C - room + rate * ((s.tokens.refill now).last - g) := by
  have hheld : Record.held ⟨⟨reserve, 0⟩, now, none⟩ = reserve.toNat := Record.held_live rfl
  have hspent : Record.spent ⟨⟨reserve, 0⟩, now, none⟩ = 0 := Record.spent_live rfl
  have hpaid := h.refill hrate hk hlast
  rw [List.drop_append_of_le_length hj, tally_append, tally_append, tally_cons, tally_cons,
    tally_nil, tally_nil, hheld, hspent]
  linarith

/-- The new lease itself: bucket and reservation are what the grant has found. -/
theorem paidFrom_new (hk : Kept C rate s) (reserve : UInt64) :
    (s.tokens.refill now).level - reserve.toNat
        + tally Record.held
          ((s.leases ++ [Record.mk ⟨reserve, 0⟩ now none]).drop s.leases.length)
        + tally Record.spent
          ((s.leases ++ [Record.mk ⟨reserve, 0⟩ now none]).drop s.leases.length)
      ≤ C - (s.tokens.capacity - (s.tokens.refill now).level)
        + rate * ((s.tokens.refill now).last - now) := by
  have hheld : Record.held ⟨⟨reserve, 0⟩, now, none⟩ = reserve.toNat := Record.held_live rfl
  have hspent : Record.spent ⟨⟨reserve, 0⟩, now, none⟩ = 0 := Record.spent_live rfl
  rw [List.drop_left, tally_cons, tally_cons, tally_nil, tally_nil, hheld, hspent, hk.capacity,
    Bucket.refill_last, sub_self, mul_zero]
  linarith

theorem PaidFrom.recordOn (h : PaidFrom C rate j g room s) {id : ℕ} {r : Record}
    (hr : s.leases[id]? = some r) (hlive : r.isLive) (n : UInt64) :
    PaidFrom C rate j g room (s.recordOn id r n) := by
  unfold PaidFrom at h ⊢
  have hlive' : Record.isLive { r with lease := r.lease.recordTokens n } := hlive
  show s.tokens.level
    + tally Record.held ((s.leases.set id { r with lease := r.lease.recordTokens n }).drop j)
    + tally Record.spent ((s.leases.set id { r with lease := r.lease.recordTokens n }).drop j)
    ≤ C - room + rate * (s.tokens.last - g)
  rw [List.drop_set]
  split
  · -- an older lease, which is not among those counted
    exact h
  · rename_i hj
    have hr' : (s.leases.drop j)[id - j]? = some r := by
      rw [List.getElem?_drop, Nat.add_sub_cancel' (not_lt.mp hj), hr]
    have hheld : Record.held { r with lease := r.lease.recordTokens n } = r.held := by
      rw [Record.held_live hlive, Record.held_live hlive']
      rfl
    have hspent : Record.spent { r with lease := r.lease.recordTokens n } = r.spent := by
      rw [Record.spent_live hlive, Record.spent_live hlive']
    rw [tally_set_eq hr' hheld, tally_set_eq hr' hspent]
    exact h

/-- A drop turns a reservation into use and refund. The refund of an older lease comes out of
the room. -/
theorem PaidFrom.dropOn (hrate : 0 ≤ rate) (hk : Kept C rate s) (hlast : s.tokens.last ≤ now)
    (h : PaidFrom C rate j g room s) {id : ℕ} {r : Record} (hr : s.leases[id]? = some r)
    (hlive : r.isLive) :
    PaidFrom C rate j g (if id < j then room - refund r.lease else room)
      (s.dropOn id r now) := by
  have hpaid := h.refill hrate hk hlast
  have hmin := min_le_left ((s.tokens.refill now).level + refund r.lease) s.tokens.capacity
  unfold PaidFrom
  rw [dropOn_level]
  show _ + tally Record.held ((s.leases.set id { r with droppedAt := some now }).drop j)
    + tally Record.spent ((s.leases.set id { r with droppedAt := some now }).drop j)
    ≤ _ + rate * ((s.tokens.refill now).last - g)
  rw [List.drop_set]
  split
  · -- an older lease: the bucket gains its refund, and the room loses it
    linarith
  · -- one of those counted: its reservation splits into use and refund
    rename_i hj
    have hr' : (s.leases.drop j)[id - j]? = some r := by
      rw [List.getElem?_drop, Nat.add_sub_cancel' (not_lt.mp hj), hr]
    have hheld := tally_set Record.held hr' { r with droppedAt := some now }
    have hspent := tally_set Record.spent hr' { r with droppedAt := some now }
    rw [Record.held_live hlive,
      show Record.held { r with droppedAt := some now } = 0 from rfl] at hheld
    rw [Record.spent_live hlive,
      show Record.spent { r with droppedAt := some now } = r.lease.used.toNat from rfl] at hspent
    unfold refund at hmin ⊢
    linarith

end

theorem map_grantedAt_set {l : List Record} {id : ℕ} {r r' : Record} (hr : l[id]? = some r)
    (hg : r'.grantedAt = r.grantedAt) :
    (l.set id r').map Record.grantedAt = l.map Record.grantedAt := by
  obtain ⟨hid, rfl⟩ := List.getElem?_eq_some_iff.mp hr
  rw [List.map_set, hg, ← List.getElem_map Record.grantedAt (h := by simpa using hid),
    List.set_getElem_self]

/-- After the window nothing more is counted in it. -/
theorem tally_usedWithin_late {a t : Instant} {s s' : Account} {act : Act}
    (hs : Stepped s act s') (hlate : ∀ now ∈ act.reading, t < now) :
    tally (Record.usedWithin a t) s'.leases = tally (Record.usedWithin a t) s.leases := by
  cases hs with
  | concurrencyLimited => rfl
  | rateLimited => rfl
  | tokenBudget => rfl
  | probed => rfl
  | counted => rfl
  | granted now reserve hroom hlimit hbudget =>
    rw [tally_append, tally_cons, tally_nil, Record.usedWithin_live a t rfl, add_zero, add_zero]
  | recorded id n r hr hlive =>
    have hlive' : Record.isLive { r with lease := r.lease.recordTokens n } := hlive
    exact tally_set_eq hr
      (by rw [Record.usedWithin_live a t hlive, Record.usedWithin_live a t hlive'])
  | dropped id now r hr hlive =>
    exact tally_set_eq hr
      (by rw [Record.usedWithin_live a t hlive, Record.usedWithin_late (hlate now rfl)])

/-- Overuse is settled once and stays. -/
theorem tally_overuse_le {s s' : Account} {act : Act} (hs : Stepped s act s') :
    tally Record.overuse s.leases ≤ tally Record.overuse s'.leases := by
  cases hs with
  | concurrencyLimited => exact le_rfl
  | rateLimited => exact le_rfl
  | tokenBudget => exact le_rfl
  | probed => exact le_rfl
  | counted => exact le_rfl
  | granted now reserve hroom hlimit hbudget =>
    rw [tally_append, tally_cons, tally_nil, Record.overuse_live rfl, add_zero, add_zero]
  | recorded id n r hr hlive => exact (tally_recordOn hr hlive n).2.2.ge
  | dropped id now r hr hlive =>
    have hset := tally_set Record.overuse hr { r with droppedAt := some now }
    have hnonneg := Record.overuse_nonneg { r with droppedAt := some now }
    rw [Record.overuse_live hlive, add_zero] at hset
    show _ ≤ tally Record.overuse (s.leases.set id { r with droppedAt := some now })
    linarith

/-- What is used in a window that is not over, when the room of its first lease has not
been exceeded. -/
theorem PaidFrom.tally_usedWithin_le {C rate : ℚ} (hrate : 0 ≤ rate) {a t g : Instant} {j : ℕ}
    {room : ℚ} (hroom : 0 ≤ room) (hag : a ≤ g) {s : Account} (hk : Kept C rate s)
    (hlast : s.tokens.last ≤ t) (h : PaidFrom C rate j g room s) :
    tally Record.spent (s.leases.drop j) ≤ C + rate * (t - a) + tally Record.overuse s.leases := by
  have hdebt := hk.debt
  have hheld : 0 ≤ tally Record.held (s.leases.drop j) := by
    refine List.sum_nonneg fun x hx => ?_
    obtain ⟨r, -, rfl⟩ := List.mem_map.mp hx
    exact r.held_nonneg
  have htime : rate * (s.tokens.last - g) ≤ rate * (t - a) :=
    mul_le_mul_of_nonneg_left (by linarith) hrate
  unfold PaidFrom at h
  linarith

end Account

namespace Serial

/-- The clock never goes back, and the critical section is one of the account. -/
theorem step_cases {s s' : Serial} {a : Account.Act} (h : s.step a = some s') :
    s.clock ≤ s'.clock ∧ s'.clock = a.reading.getD s.clock ∧
      s.account.step a = some s'.account := by
  by_cases hle : s.clock ≤ a.reading.getD s.clock
  · simp only [step, if_pos hle] at h
    obtain ⟨account, hstep, rfl⟩ := Option.map_eq_some_iff.mp h
    exact ⟨hle, rfl, hstep⟩
  · simp [step, if_neg hle] at h

/-- The reading of an operation is the clock after it. -/
theorem reading_eq {s s' : Serial} {a : Account.Act} (h : s.step a = some s') :
    ∀ now ∈ a.reading, now = s'.clock := by
  intro now hnow
  rw [(step_cases h).2.1, Option.mem_def.mp hnow, Option.getD_some]

end Serial

namespace Metered

/-! ## The invariant of a metered run -/

/-- Every lease is paid for, and every room is as its definition says. -/
structure Accounted (C rate : ℚ) (s : Metered) : Prop where
  kept : s.account.Kept C rate
  requests_last : s.account.requests.last ≤ s.serial.clock
  tokens_last : s.account.tokens.last ≤ s.serial.clock
  length : s.rooms.length = s.account.leases.length
  paid : ∀ j g room, (s.account.leases.map Record.grantedAt)[j]? = some g →
    s.rooms[j]? = some room → s.account.PaidFrom C rate j g room

/-- Nothing has been granted yet. -/
theorem accounted_start (cfg : TenantConfig ℚ) (t0 : Instant) :
    Accounted cfg.tokensPerMinute.toNat (cfg.tokensPerMinute.toNat / 60) (start cfg t0) where
  kept := Account.kept_new cfg t0
  requests_last := le_rfl
  tokens_last := le_rfl
  length := rfl
  paid := fun j g room hg => by simp [start, account, Serial.start, Account.new] at hg

/-- What a grant leaves: the rooms of the older leases, and that of the new one. -/
theorem Accounted.paid_granted {C rate : ℚ} (hrate : 0 ≤ rate) {s : Metered}
    (h : Accounted C rate s) {now : Instant} (hlast : s.account.tokens.last ≤ now)
    (reserve : UInt64) {account : Account}
    (hlevel : account.tokens = { s.account.tokens.refill now with
      level := (s.account.tokens.refill now).level - reserve.toNat })
    (hleases : account.leases = s.account.leases ++ [Record.mk ⟨reserve, 0⟩ now none]) :
    ∀ j g room, (account.leases.map Record.grantedAt)[j]? = some g →
      (s.rooms ++ [s.account.tokens.capacity - (s.account.tokens.refill now).level])[j]?
        = some room → account.PaidFrom C rate j g room := by
  intro j g room hg hroom
  unfold Account.PaidFrom
  rw [hlevel, hleases]
  rw [hleases, List.map_append] at hg
  rcases Nat.lt_trichotomy j s.account.leases.length with hj | hj | hj
  · -- an older lease keeps its grant and its room
    rw [List.getElem?_append_left (by rw [List.length_map]; exact hj)] at hg
    rw [List.getElem?_append_left (by rw [h.length]; exact hj)] at hroom
    exact (h.paid j g room hg hroom).granted hrate h.kept hlast hj.le reserve
  · -- the lease that is granted here
    rw [List.getElem?_append_right (by rw [List.length_map, hj]), List.length_map, hj,
      Nat.sub_self] at hg
    rw [List.getElem?_append_right (by rw [h.length, hj]), h.length, hj, Nat.sub_self] at hroom
    rw [← Option.some.inj hg, ← Option.some.inj hroom, hj]
    exact Account.paidFrom_new h.kept reserve
  · rw [List.getElem?_eq_none (by simp; omega)] at hg
    exact absurd hg (by simp)

/-- A grant is paid for from its own level, and the earlier ones stay paid for. -/
theorem Accounted.paid_admission {C rate : ℚ} (hrate : 0 ≤ rate) {s : Metered}
    (h : Accounted C rate s) {now : Instant} (hlast : s.account.tokens.last ≤ now)
    (reserve : UInt64) :
    (s.roomsAfter (.admission now reserve)).length
        = (s.account.admission now reserve).leases.length ∧
      ∀ j g room, ((s.account.admission now reserve).leases.map Record.grantedAt)[j]? = some g →
        (s.roomsAfter (.admission now reserve))[j]? = some room →
        (s.account.admission now reserve).PaidFrom C rate j g room := by
  have hcases := Tenant.admission_cases s.account.tenant now reserve
  simp only [roomsAfter, Account.admission]
  generalize s.account.tenant.admitLease now reserve = r at hcases
  cases hcases with
  | concurrencyLimited hfull => exact ⟨h.length, h.paid⟩
  | rateLimited hroom hlimit => exact ⟨h.length, h.paid⟩
  | tokenBudget hroom hlimit hbudget =>
    refine ⟨h.length, fun j g room hg hroom => ?_⟩
    exact (h.paid j g room hg hroom).refilled hrate h.kept hlast rfl rfl
  | granted hroom hlimit hbudget =>
    refine ⟨?_, h.paid_granted hrate hlast reserve rfl rfl⟩
    rw [List.length_append, List.length_append, h.length]
    rfl

/-- A refund takes its amount from the rooms of the later grants. -/
theorem Accounted.paid_dropOn {C rate : ℚ} (hrate : 0 ≤ rate) {s : Metered}
    (h : Accounted C rate s) {now : Instant} (hlast : s.account.tokens.last ≤ now) {id : ℕ}
    {r : Record} (hr : s.account.leases[id]? = some r) (hlive : r.isLive) :
    (s.roomsAfter (.drop id now)).length = (s.account.dropOn id r now).leases.length ∧
      ∀ j g room, ((s.account.dropOn id r now).leases.map Record.grantedAt)[j]? = some g →
        (s.roomsAfter (.drop id now))[j]? = some room →
        (s.account.dropOn id r now).PaidFrom C rate j g room := by
  have hrooms : s.roomsAfter (.drop id now)
      = s.rooms.mapIdx fun j x => if id < j then x - Account.refund r.lease else x := by
    simp only [roomsAfter, hr]
  rw [hrooms]
  constructor
  · rw [List.length_mapIdx, h.length]
    exact (List.length_set ..).symm
  · intro j g room hg hroom
    have hg' : ((s.account.dropOn id r now).leases.map Record.grantedAt)
        = s.account.leases.map Record.grantedAt := Account.map_grantedAt_set hr rfl
    rw [hg'] at hg
    rw [List.getElem?_mapIdx] at hroom
    obtain ⟨x, hx, rfl⟩ := Option.map_eq_some_iff.mp hroom
    exact (h.paid j g x hg hx).dropOn hrate h.kept hlast hr hlive

/-- A step keeps the account of rooms. -/
theorem Accounted.step {C rate : ℚ} (hrate : 0 ≤ rate) {s s' : Metered} {a : Account.Act}
    (h : Accounted C rate s) (hs : s.step a = some s') : Accounted C rate s' := by
  obtain ⟨serial, hserial, rfl⟩ := Option.map_eq_some_iff.mp hs
  obtain ⟨hclock, -, hstep⟩ := Serial.step_cases hserial
  have hcases := Account.step_cases hstep
  have hnow := Serial.reading_eq hserial
  have hlast := Account.last_le hcases (fun now hn => (hnow now hn).le)
    (h.requests_last.trans hclock) (h.tokens_last.trans hclock)
  have htok : ∀ now ∈ a.reading, s.account.tokens.last ≤ now := by
    intro now hn
    rw [hnow now hn]
    exact h.tokens_last.trans hclock
  suffices hrooms : (s.roomsAfter a).length = serial.account.leases.length ∧
      ∀ j g room, (serial.account.leases.map Record.grantedAt)[j]? = some g →
        (s.roomsAfter a)[j]? = some room → serial.account.PaidFrom C rate j g room from
    ⟨h.kept.step hrate hcases, hlast.1, hlast.2, hrooms.1, hrooms.2⟩
  cases a with
  | admission now reserve =>
    rw [← Option.some.inj hstep]
    exact h.paid_admission hrate (htok now rfl) reserve
  | recordTokens id n =>
    obtain ⟨r, hr, he⟩ := Option.map_eq_some_iff.mp hstep
    obtain ⟨hr, hlive⟩ := Option.filter_eq_some_iff.mp hr
    rw [← he]
    have hgrants : ((s.account.recordOn id r n).leases.map Record.grantedAt)
        = s.account.leases.map Record.grantedAt := Account.map_grantedAt_set hr rfl
    refine ⟨h.length.trans (List.length_set ..).symm, fun j g room hg hroom => ?_⟩
    rw [hgrants] at hg
    exact (h.paid j g room hg hroom).recordOn hr hlive n
  | drop id now =>
    obtain ⟨r, hr, he⟩ := Option.map_eq_some_iff.mp hstep
    obtain ⟨hr, hlive⟩ := Option.filter_eq_some_iff.mp hr
    rw [← he]
    exact h.paid_dropOn hrate (htok now rfl) hr hlive
  | tokensAvailable now =>
    rw [← Option.some.inj hstep]
    refine ⟨h.length, fun j g room hg hroom => ?_⟩
    exact (h.paid j g room hg hroom).refilled hrate h.kept (htok now rfl) rfl rfl
  | active =>
    rw [← Option.some.inj hstep]
    exact ⟨h.length, h.paid⟩

/-- The invariant for the window from `a` to `t`, in a run whose refunds fit: no room is
exceeded, and what is used in the window is paid for, up to what dropped leases have used too
much. -/
structure Windowed (C rate : ℚ) (a t : Instant) (s : Metered) : Prop where
  accounted : Accounted C rate s
  rooms : ∀ x ∈ s.rooms, 0 ≤ x
  bound : tally (Record.usedWithin a t) s.account.leases
    ≤ C + rate * (t - a) + tally Record.overuse s.account.leases

theorem windowed_start (cfg : TenantConfig ℚ) (t0 : Instant) {a t : Instant} (hat : a ≤ t) :
    Windowed cfg.tokensPerMinute.toNat (cfg.tokensPerMinute.toNat / 60) a t (start cfg t0) where
  accounted := accounted_start cfg t0
  rooms := fun x hx => absurd hx List.not_mem_nil
  bound := by
    have hC : (0 : ℚ) ≤ cfg.tokensPerMinute.toNat := Nat.cast_nonneg _
    have hpos := mul_nonneg (Account.rate_nonneg cfg) (sub_nonneg.mpr hat)
    show (0 : ℚ) ≤ cfg.tokensPerMinute.toNat + cfg.tokensPerMinute.toNat / 60 * (t - a) + 0
    linarith

/-- A refund that fits exceeds no room, and a grant finds no more than the capacity. -/
theorem Accounted.rooms_nonneg {C rate : ℚ} {s : Metered} (h : Accounted C rate s)
    {a : Account.Act} (hroom : s.HasRoom a) (hrooms : ∀ x ∈ s.rooms, 0 ≤ x) :
    ∀ x ∈ s.roomsAfter a, 0 ≤ x := by
  cases a with
  | admission now reserve =>
    simp only [roomsAfter]
    cases (s.account.tenant.admitLease now reserve).1 with
    | error e => exact hrooms
    | ok l =>
      intro x hx
      rcases List.mem_append.mp hx with hx | hx
      · exact hrooms x hx
      · have hle := s.account.tokens.refill_level_le now (h.kept.capacity ▸ h.kept.level_le)
        rw [List.mem_singleton.mp hx]
        exact sub_nonneg.mpr hle
  | drop id now =>
    simp only [roomsAfter]
    cases hr : s.account.leases[id]? with
    | none => exact hrooms
    | some r =>
      intro y hy
      obtain ⟨j, hj, rfl⟩ := List.mem_mapIdx.mp hy
      split
      · rename_i hid
        have hmem : s.rooms[j] ∈ s.rooms.drop (id + 1) := by
          rw [List.mem_drop_iff_getElem]
          exact ⟨j - (id + 1), by omega, by congr 1; omega⟩
        exact sub_nonneg.mpr (hroom r hr _ hmem)
      · exact hrooms _ (List.getElem_mem hj)
  | recordTokens id n => exact hrooms
  | tokensAvailable now => exact hrooms
  | active => exact hrooms

/-- A step that has room for its refund keeps the window's bound. -/
theorem Windowed.step {C rate : ℚ} (hC : 0 ≤ C) (hrate : 0 ≤ rate) {a t : Instant} (hat : a ≤ t)
    {s s' : Metered} {act : Account.Act} (h : Windowed C rate a t s) (hroom : s.HasRoom act)
    (hs : s.step act = some s') : Windowed C rate a t s' := by
  have hacc := h.accounted.step hrate hs
  obtain ⟨serial, hserial, rfl⟩ := Option.map_eq_some_iff.mp hs
  have hrooms := h.accounted.rooms_nonneg hroom h.rooms
  refine ⟨hacc, hrooms, ?_⟩
  obtain ⟨-, hreading, hstep⟩ := Serial.step_cases hserial
  have hcases := Account.step_cases hstep
  rcases le_or_gt serial.clock t with ht | ht
  · rcases Record.tally_usedWithin_le a t serial.account.leases with hzero | hfirst
    · -- nothing has been used in the window yet
      have hover : 0 ≤ tally Record.overuse serial.account.leases := by
        refine List.sum_nonneg fun x hx => ?_
        obtain ⟨r, -, rfl⟩ := List.mem_map.mp hx
        exact r.overuse_nonneg
      have hpos := mul_nonneg hrate (sub_nonneg.mpr hat)
      show tally (Record.usedWithin a t) serial.account.leases
        ≤ _ + tally Record.overuse serial.account.leases
      rw [hzero]
      linarith
    · -- the room of the first lease of the window pays for all that is used in it
      obtain ⟨j, g, hg, hag, hle⟩ := hfirst
      obtain ⟨hj, -⟩ := List.getElem?_eq_some_iff.mp hg
      have hj' : j < (s.roomsAfter act).length := by
        rw [hacc.length]
        simpa using hj
      have hpaid := hacc.paid j g _ hg (List.getElem?_eq_getElem hj')
      refine hle.trans (hpaid.tally_usedWithin_le hrate ?_ hag hacc.kept
        (hacc.tokens_last.trans ht))
      exact hrooms _ (List.getElem_mem hj')
  · -- the window is over: what is counted in it stays as it is
    have hlate : ∀ now ∈ act.reading, t < now := by
      intro now hn
      rw [hreading, hn] at ht
      exact ht
    have hover := Account.tally_overuse_le hcases
    have hbound := h.bound
    show tally (Record.usedWithin a t) serial.account.leases
      ≤ _ + tally Record.overuse serial.account.leases
    rw [Account.tally_usedWithin_late hcases hlate]
    linarith

/-- Tokens per minute over every window, in runs in which no refund exceeds the room of a later
lease. -/
theorem token_window_of_room (cfg : TenantConfig ℚ) (t0 : Instant) (acts : List Account.Act)
    (s : Metered) (hrun : exec step (start cfg t0) acts = some s)
    (hroom : Along step HasRoom (start cfg t0) acts)
    (hused : ∀ r ∈ s.account.leases, r.lease.used ≤ r.lease.reserved) (a t : Instant)
    (hat : a ≤ t) :
    tally (Record.usedWithin a t) s.account.leases
      ≤ cfg.tokensPerMinute.toNat + cfg.tokensPerMinute.toNat / 60 * (t - a) := by
  have hC : (0 : ℚ) ≤ cfg.tokensPerMinute.toNat := Nat.cast_nonneg _
  have h := exec_invariant_along
    (fun _ _ _ hi hp hs => Windowed.step hC (Account.rate_nonneg cfg) hat hi hp hs)
    (windowed_start cfg t0 hat) hroom hrun
  have hbound := h.bound
  rw [Account.tally_overuse_eq_zero hused, add_zero] at hbound
  exact hbound

/-- Two leases at a time over a minute; the older one is refunded into the room of the other. -/
theorem token_window_of_room_minute :
    ∃ s : Metered, exec step (start ⟨"acme", "key", .paid, 60, 10, 4⟩ 0)
        [.admission 0 40, .admission 0 20, .recordTokens 0 10, .drop 0 30, .recordTokens 1 20,
          .admission 30 50, .drop 1 60] = some s ∧
      tally (Record.usedWithin 0 60) s.account.leases
        ≤ (60 : UInt64).toNat + (60 : UInt64).toNat / 60 * (60 - 0) := by
  have hrun : (exec step (start ⟨"acme", "key", .paid, 60, 10, 4⟩ 0)
      [.admission 0 40, .admission 0 20, .recordTokens 0 10, .drop 0 30, .recordTokens 1 20,
        .admission 30 50, .drop 1 60]).map (fun s => s.account.leases)
      = some [⟨⟨40, 10⟩, 0, some 30⟩, ⟨⟨20, 20⟩, 0, some 60⟩, ⟨⟨50, 0⟩, 30, none⟩] := by
    decide +kernel
  obtain ⟨s, hs, hl⟩ := Option.map_eq_some_iff.mp hrun
  refine ⟨s, hs, token_window_of_room _ 0 _ s hs (by decide +kernel) ?_ 0 60 (by norm_num)⟩
  rw [hl]
  decide

end Metered

/-- One reservation is held while the bucket refills and is refunded after the next grant: two
full budgets are used within an instant. -/
theorem Serial.window_overrun :
    ∃ s : Serial, exec step (start ⟨"acme", "key", .paid, 60, 10, 4⟩ 0)
        [.admission 0 60, .admission 60 60, .drop 0 60, .admission 60 60, .recordTokens 1 60,
          .recordTokens 2 60, .drop 1 60, .drop 2 60] = some s ∧
      (∀ r ∈ s.account.leases, r.lease.used ≤ r.lease.reserved) ∧
      ¬ tally (Record.usedWithin 60 60) s.account.leases
        ≤ (60 : UInt64).toNat + (60 : UInt64).toNat / 60 * (60 - 60) := by
  have hrun : (exec step (start ⟨"acme", "key", .paid, 60, 10, 4⟩ 0)
      [.admission 0 60, .admission 60 60, .drop 0 60, .admission 60 60, .recordTokens 1 60,
        .recordTokens 2 60, .drop 1 60, .drop 2 60]).map (fun s => s.account.leases)
      = some [⟨⟨60, 0⟩, 0, some 60⟩, ⟨⟨60, 60⟩, 60, some 60⟩, ⟨⟨60, 60⟩, 60, some 60⟩] := by
    decide +kernel
  obtain ⟨s, hs, hl⟩ := Option.map_eq_some_iff.mp hrun
  refine ⟨s, hs, ?_, ?_⟩
  · rw [hl]
    decide
  · rw [hl]
    decide +kernel

end OxideGate
