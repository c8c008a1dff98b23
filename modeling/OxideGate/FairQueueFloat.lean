import OxideGate.FairQueueRounds
import OxideGate.FairQueueWait
import OxideGate.Lib.Binary64

/-!
# The queue in `f64`

`FairQueue` has rationals where the source has `f64`. `FloatQueue` is the same queue in `f64`, and
`exact` reads its numbers as rationals. The weights of the tiers are 1 and a half, so that a tenant
is left with no credit or with half of one, and no operation ever rounds: the two queues return
the same items, in every run (`float_exact`).
-/

namespace OxideGate

open Binary64

/-- `Tier::weight`. -/
def Tier.weightF64 : Tier → Float
  | .free => 0.5
  | .paid => 1.0

/-- `TenantQueue`. -/
structure FloatTenantQueue (T : Type) where
  items : List T
  weight : Float
  deficit : Float

/-- `FairQueue`. -/
structure FloatQueue (K T : Type) where
  queues : K → Option (FloatTenantQueue T)
  active : List K
  turnStarted : Bool
  len : ℕ
  capacity : ℕ

/-- How one round of the loop ends. -/
inductive FloatVisit (K T : Type) where
  | ret (item : Option T) (q : FloatQueue K T)
  | next (q : FloatQueue K T)

variable {K T : Type}

namespace FloatQueue

def new (capacity : ℕ) : FloatQueue K T where
  queues := fun _ => none
  active := []
  turnStarted := false
  len := 0
  capacity := capacity

variable [DecidableEq K]

def push (q : FloatQueue K T) (key : K) (weight : Float) (item : T) :
    Except T Unit × FloatQueue K T :=
  if q.capacity ≤ q.len then (.error item, q)
  else
    match q.queues key with
    | some tq =>
      (.ok (), { q with
        len := q.len + 1
        queues := Function.update q.queues key (some { tq with items := tq.items ++ [item] }) })
    | none =>
      (.ok (), { q with
        len := q.len + 1
        queues := Function.update q.queues key (some ⟨[item], weight, 0.0⟩)
        active := q.active ++ [key] })

/-- The deficit the front tenant has in this round. -/
def credited (q : FloatQueue K T) (tq : FloatTenantQueue T) : Float :=
  if q.turnStarted then tq.deficit else tq.deficit + tq.weight

/-- One round of `pop`'s loop. -/
def visit (q : FloatQueue K T) : FloatVisit K T :=
  match q.active with
  | [] => .ret none q
  | key :: rest =>
    match q.queues key with
    | none => .ret none q
    | some tq =>
      let d := q.credited tq
      if 1.0 ≤ d then
        let item := tq.items.head?
        let items := tq.items.tail
        if items = [] then
          .ret item { q with
            queues := Function.update q.queues key none
            active := rest
            turnStarted := false
            len := q.len - 1 }
        else if d - 1.0 < 1.0 then
          .ret item { q with
            queues := Function.update q.queues key (some ⟨items, tq.weight, d - 1.0⟩)
            active := (key :: rest).rotate 1
            turnStarted := false
            len := q.len - 1 }
        else
          .ret item { q with
            queues := Function.update q.queues key (some ⟨items, tq.weight, d - 1.0⟩)
            turnStarted := true
            len := q.len - 1 }
      else
        .next { q with
          queues := Function.update q.queues key (some ⟨tq.items, tq.weight, d⟩)
          active := (key :: rest).rotate 1
          turnStarted := false }

/-- The loop of `pop`, cut off after `fuel` rounds. -/
def popLoop : ℕ → FloatQueue K T → Option (Option T × FloatQueue K T)
  | 0, _ => none
  | fuel + 1, q =>
    match q.visit with
    | .ret item q' => some (item, q')
    | .next q' => popLoop fuel q'

/-- `pop`: one round for each tenant, and one more. -/
def pop (q : FloatQueue K T) : Option (Option T × FloatQueue K T) :=
  popLoop (q.active.length + 1) q

/-- A call on the queue. In FIFO mode all items are pushed with the weight of a paid tenant. -/
inductive Op (K T : Type) where
  | push (key : K) (tier : Tier) (item : T)
  | pop

/-- A run, and the items it pops. -/
def run (q : FloatQueue K (K × T)) :
    List (Op K T) → Option (List (K × T) × FloatQueue K (K × T))
  | [] => some ([], q)
  | .push key tier item :: ops => run (q.push key tier.weightF64 (key, item)).2 ops
  | .pop :: ops =>
    q.pop.bind fun p => (run p.2 ops).map fun r => (p.1.toList ++ r.1, r.2)

end FloatQueue

/-! ## The numbers that occur -/

@[simp] theorem Tier.value_weightF64 (tier : Tier) : value tier.weightF64 = tier.weight := by
  cases tier <;> decide +kernel

namespace FloatQueue

/-- What a tenant can be left with. -/
def Credit (d : Float) : Prop := d = 0.0 ∨ d = 0.5

/-- Adding a tier's weight to a credit does not round. -/
theorem Credit.add {d : Float} (hd : Credit d) (tier : Tier) :
    value (d + tier.weightF64) = value d + tier.weight := by
  rcases hd with rfl | rfl <;> cases tier <;> decide +kernel

/-- The comparison sees the number. -/
theorem Credit.one_le {d : Float} (hd : Credit d) (tier : Tier) :
    1.0 ≤ d + tier.weightF64 ↔ 1 ≤ value (d + tier.weightF64) := by
  rcases hd with rfl | rfl <;> cases tier <;> decide +kernel

/-- A tenant that is passed over has half a credit. -/
theorem Credit.short {d : Float} (hd : Credit d) {tier : Tier} (h : ¬ 1.0 ≤ d + tier.weightF64) :
    Credit (d + tier.weightF64) := by
  unfold Credit
  rcases hd with rfl | rfl <;> cases tier <;> revert h <;> decide +kernel

/-- A dispatch is taken off, and leaves less than one. -/
theorem Credit.spend {d : Float} (hd : Credit d) {tier : Tier} (h : 1.0 ≤ d + tier.weightF64) :
    Credit (d + tier.weightF64 - 1.0) ∧ d + tier.weightF64 - 1.0 < 1.0 ∧
      value (d + tier.weightF64 - 1.0) = value (d + tier.weightF64) - 1 := by
  unfold Credit
  rcases hd with rfl | rfl <;> cases tier <;> revert h <;> decide +kernel

/-- What is left is less than one item. -/
theorem Credit.lt_one {d : Float} (hd : Credit d) : value d < 1 := by
  rcases hd with rfl | rfl <;> decide +kernel

end FloatQueue

/-! ## Reading the queue as rationals -/

def FloatTenantQueue.exact (tq : FloatTenantQueue T) : TenantQueue T :=
  ⟨tq.items, value tq.weight, value tq.deficit⟩

/-- The queue with its numbers read as rationals. -/
def FloatQueue.exact (q : FloatQueue K T) : FairQueue K T where
  queues := fun k => (q.queues k).map FloatTenantQueue.exact
  active := q.active
  turnStarted := q.turnStarted
  len := q.len
  capacity := q.capacity

/-- The end of a round, with its numbers read as rationals. -/
def FloatVisit.exact : FloatVisit K T → Visit K T
  | .ret item q => .ret item q.exact
  | .next q => .next q.exact

/-- The queue after a round. -/
def FloatVisit.queue : FloatVisit K T → FloatQueue K T
  | .ret _ q => q
  | .next q => q

namespace FloatQueue

def Op.exact : Op K T → FairQueue.Op K T
  | .push key tier item => .push key tier.weight item
  | .pop => .pop

theorem Op.exact_tiered (op : Op K T) : op.exact.Tiered := by
  cases op with
  | push key tier item => exact ⟨tier, rfl⟩
  | pop => trivial

@[simp] theorem exact_new (capacity : ℕ) :
    (new capacity : FloatQueue K T).exact = FairQueue.new capacity := rfl

@[simp] theorem exact_queues (q : FloatQueue K T) (key : K) :
    q.exact.queues key = (q.queues key).map FloatTenantQueue.exact := rfl

/-- No turn spans two calls of `pop`, and the credits are small. -/
structure Small (q : FloatQueue K T) : Prop where
  resting : q.turnStarted = false
  entry : ∀ k tq, q.queues k = some tq → ∃ tier : Tier, tq.weight = tier.weightF64 ∧
    Credit tq.deficit

/-- The empty queue. -/
theorem small_new (capacity : ℕ) : (new capacity : FloatQueue K T).Small where
  resting := rfl
  entry := fun k tq hk => by simp [new] at hk

/-- The credit of the front tenant is exact. -/
theorem Small.credited {q : FloatQueue K T} (h : q.Small) {key : K} {tq : FloatTenantQueue T}
    (hk : q.queues key = some tq) :
    ∃ tier : Tier, tq.weight = tier.weightF64 ∧ Credit tq.deficit ∧
      q.credited tq = tq.deficit + tier.weightF64 ∧
      q.exact.credited tq.exact = value (q.credited tq) := by
  obtain ⟨tier, hw, hd⟩ := h.entry key tq hk
  have hcredited : q.credited tq = tq.deficit + tier.weightF64 := by
    rw [FloatQueue.credited, h.resting, hw]
    rfl
  refine ⟨tier, hw, hd, hcredited, ?_⟩
  rw [hcredited, hd.add, FairQueue.credited, show q.exact.turnStarted = false from h.resting,
    ← tier.value_weightF64, ← hw]
  rfl

variable [DecidableEq K]

/-- An entry that is replaced. -/
theorem exact_update (q : FloatQueue K T) (key : K) (v : Option (FloatTenantQueue T))
    (active : List K) (started : Bool) (len capacity : ℕ) :
    exact ⟨Function.update q.queues key v, active, started, len, capacity⟩
      = ⟨Function.update q.exact.queues key (v.map FloatTenantQueue.exact), active, started, len,
        capacity⟩ := by
  simp only [exact, FairQueue.mk.injEq, and_true]
  exact Function.comp_update (Option.map FloatTenantQueue.exact) q.queues key v

/-- `push` in binary64 is the exact one. -/
theorem push_exact (q : FloatQueue K T) (key : K) (tier : Tier) (item : T) :
    q.exact.push key tier.weight item
      = ((q.push key tier.weightF64 item).1, (q.push key tier.weightF64 item).2.exact) := by
  unfold push FairQueue.push
  by_cases hfull : q.capacity ≤ q.len
  · rw [if_pos hfull, if_pos (show q.exact.capacity ≤ q.exact.len from hfull)]
  · rw [if_neg hfull, if_neg (show ¬ q.exact.capacity ≤ q.exact.len from hfull), exact_queues]
    cases hk : q.queues key with
    | none =>
      simp only [Option.map_none, exact_update, Option.map_some, FloatTenantQueue.exact,
        Tier.value_weightF64, value_zero]
      rfl
    | some tq =>
      simp only [Option.map_some, exact_update, FloatTenantQueue.exact]
      rfl

/-- So is a round of `pop`. -/
theorem visit_exact {q : FloatQueue K T} (h : q.Small) : q.exact.visit = q.visit.exact := by
  unfold visit FairQueue.visit
  rw [show q.exact.active = q.active from rfl]
  cases hactive : q.active with
  | nil => rfl
  | cons key rest =>
    simp only [exact_queues]
    cases hk : q.queues key with
    | none => rfl
    | some tq =>
      obtain ⟨tier, hw, hd, hcredited, hread⟩ := h.credited hk
      have hone : 1.0 ≤ q.credited tq ↔ 1 ≤ value (q.credited tq) := by
        rw [hcredited]
        exact hd.one_le tier
      simp only [Option.map_some, hread, ← hone]
      by_cases hserve : 1.0 ≤ q.credited tq
      · have hfull : 1.0 ≤ tq.deficit + tier.weightF64 := hcredited ▸ hserve
        have hspend := hd.spend hfull
        rw [← hcredited] at hspend
        obtain ⟨hleft, hless, hvalue⟩ := hspend
        have hlt : value (q.credited tq) - 1 < 1 := hvalue ▸ hleft.lt_one
        simp only [if_pos hserve, if_pos hless, if_pos hlt]
        by_cases hlast : tq.items.tail = []
        · rw [if_pos hlast, if_pos (show tq.exact.items.tail = [] from hlast)]
          simp only [FloatVisit.exact, exact_update, Option.map_none]
          rfl
        · rw [if_neg hlast, if_neg (show ¬ tq.exact.items.tail = [] from hlast)]
          simp only [FloatVisit.exact, exact_update, Option.map_some, FloatTenantQueue.exact,
            hvalue]
          rfl
      · simp only [if_neg hserve, FloatVisit.exact, exact_update, Option.map_some,
          FloatTenantQueue.exact]
        rfl

/-! ## The numbers stay small -/

/-- One entry is replaced by a small one or taken out. -/
theorem Small.update {q : FloatQueue K T} (h : q.Small) {key : K}
    {v : Option (FloatTenantQueue T)}
    (hv : ∀ tq, v = some tq → ∃ tier : Tier, tq.weight = tier.weightF64 ∧ Credit tq.deficit)
    (active : List K) (len capacity : ℕ) :
    (⟨Function.update q.queues key v, active, false, len, capacity⟩ : FloatQueue K T).Small where
  resting := rfl
  entry := by
    intro k tq hk
    change Function.update q.queues key v k = some tq at hk
    by_cases hkey : k = key
    · rw [hkey, Function.update_self] at hk
      exact hv tq hk
    · rw [Function.update_of_ne hkey] at hk
      exact h.entry k tq hk

/-- A push at a tier's weight leaves the credits small. -/
theorem Small.push {q : FloatQueue K T} (h : q.Small) (key : K) (tier : Tier) (item : T) :
    (q.push key tier.weightF64 item).2.Small := by
  unfold FloatQueue.push
  by_cases hfull : q.capacity ≤ q.len
  · rwa [if_pos hfull]
  · rw [if_neg hfull]
    cases hk : q.queues key with
    | none =>
      have hnew : (⟨Function.update q.queues key (some ⟨[item], tier.weightF64, 0.0⟩),
          q.active ++ [key], false, q.len + 1, q.capacity⟩ : FloatQueue K T).Small := by
        refine h.update (fun tq htq => ?_) _ _ _
        obtain rfl := Option.some.inj htq
        exact ⟨tier, rfl, Or.inl rfl⟩
      rwa [← h.resting] at hnew
    | some tq =>
      have hgrown : (⟨Function.update q.queues key
          (some { tq with items := tq.items ++ [item] }),
          q.active, false, q.len + 1, q.capacity⟩ : FloatQueue K T).Small := by
        refine h.update (fun tq' htq' => ?_) _ _ _
        obtain rfl := Option.some.inj htq'
        exact h.entry key tq hk
      rwa [← h.resting] at hgrown

/-- So does a round. -/
theorem Small.visit {q : FloatQueue K T} (h : q.Small) : q.visit.queue.Small := by
  unfold FloatQueue.visit
  cases hactive : q.active with
  | nil => exact h
  | cons key rest =>
    simp only
    cases hk : q.queues key with
    | none => exact h
    | some tq =>
      obtain ⟨tier, hw, hd, hcredited, -⟩ := h.credited hk
      simp only [hcredited]
      by_cases hserve : 1.0 ≤ tq.deficit + tier.weightF64
      · obtain ⟨hleft, hless, -⟩ := hd.spend hserve
        simp only [if_pos hserve, if_pos hless]
        by_cases hlast : tq.items.tail = []
        · rw [if_pos hlast]
          exact h.update (fun _ hnone => absurd hnone (Option.some_ne_none _).symm) _ _ _
        · rw [if_neg hlast]
          refine h.update (fun tq' htq' => ?_) _ _ _
          obtain rfl := Option.some.inj htq'
          exact ⟨tier, hw, hleft⟩
      · rw [if_neg hserve]
        refine h.update (fun tq' htq' => ?_) _ _ _
        obtain rfl := Option.some.inj htq'
        exact ⟨tier, hw, hd.short hserve⟩

/-! ## Runs -/

/-- The loop takes the same rounds, by induction on its fuel. -/
theorem popLoop_exact {q : FloatQueue K T} (h : q.Small) (fuel : ℕ) :
    FairQueue.popLoop fuel q.exact = (popLoop fuel q).map (fun p => (p.1, p.2.exact)) ∧
      ∀ p ∈ popLoop fuel q, p.2.Small := by
  induction fuel generalizing q with
  | zero => exact ⟨rfl, fun p hp => by simp [popLoop] at hp⟩
  | succ fuel ih =>
    have hvisit := visit_exact h
    have hsmall := h.visit
    rw [FairQueue.popLoop, popLoop, hvisit]
    cases hq : q.visit with
    | ret item q' =>
      refine ⟨rfl, fun p hp => ?_⟩
      obtain rfl := Option.mem_some_iff.mp hp
      rwa [hq] at hsmall
    | next q' =>
      rw [hq] at hsmall
      exact ih hsmall

/-- The loop returns, with the item that exact arithmetic picks. -/
theorem pop_exact {q : FloatQueue K (K × T)} (h : q.Small) (hlight : FairQueue.Light q.exact) :
    ∃ p, q.pop = some p ∧ p.1 = q.exact.pop.1 ∧ p.2.exact = q.exact.pop.2 ∧ p.2.Small := by
  have hhalf : ∀ k tq, q.exact.queues k = some tq → (1 / 2 : ℚ) ≤ tq.weight := by
    intro k tq hk
    obtain ⟨ftq, hftq, rfl⟩ := Option.map_eq_some_iff.mp hk
    obtain ⟨tier, hw, -⟩ := h.entry k ftq hftq
    rw [FloatTenantQueue.exact, hw, Tier.value_weightF64]
    cases tier <;> norm_num [Tier.weight]
  have hspare := hlight.wf.tally_spare_le (by norm_num) hhalf
  have htwo : ⌈(1 : ℚ) / (1 / 2)⌉₊ = 2 := by norm_num
  rw [htwo, Nat.mul_one] at hspare
  have hloop := FairQueue.popLoop_of_spare hlight.wf (Nat.lt_succ_of_le hspare)
  obtain ⟨hsame, hsmall⟩ := popLoop_exact h (q.active.length + 1)
  rw [show q.exact.active = q.active from rfl, hsame] at hloop
  obtain ⟨p, hp, hread⟩ := Option.map_eq_some_iff.mp hloop
  exact ⟨p, hp, congrArg Prod.fst hread, congrArg Prod.snd hread, hsmall p hp⟩

/-- And so a whole run of tiered calls. -/
theorem run_exact {q : FloatQueue K (K × T)} (h : q.Small) (hlight : FairQueue.Light q.exact)
    (ops : List (Op K T)) :
    ∃ r, q.run ops = some r ∧ r.1 = q.exact.popped (ops.map Op.exact) ∧
      r.2.exact = q.exact.run (ops.map Op.exact) ∧ r.2.Small := by
  induction ops generalizing q with
  | nil => exact ⟨_, rfl, rfl, rfl, h⟩
  | cons op ops ih =>
    have hnext := hlight.apply op.exact_tiered
    cases op with
    | push key tier item =>
      have hpush := congrArg Prod.snd (push_exact q key tier (key, item))
      have happly : (q.exact.apply (Op.exact (.push key tier item))).2
          = (q.push key tier.weightF64 (key, item)).2.exact := hpush
      obtain ⟨r, hr, hitems, hqueue, hsmall⟩ :=
        ih (h.push key tier (key, item)) (happly ▸ hnext)
      refine ⟨r, hr, ?_, ?_, hsmall⟩
      · rw [hitems, List.map_cons, FairQueue.popped, happly]
        rfl
      · rw [hqueue, List.map_cons, FairQueue.run, happly]
    | pop =>
      obtain ⟨p, hp, hitem, hleft, hsmall⟩ := pop_exact h hlight
      have happly : q.exact.apply (Op.exact (.pop : Op K T)) = (p.1, p.2.exact) :=
        Prod.ext hitem.symm hleft.symm
      rw [happly] at hnext
      obtain ⟨r, hr, hitems, hqueue, hsmall'⟩ := ih hsmall hnext
      refine ⟨(p.1.toList ++ r.1, r.2), ?_, ?_, ?_, hsmall'⟩
      · rw [run, hp, Option.bind_some, hr]
        rfl
      · rw [hitems, List.map_cons, FairQueue.popped, happly]
      · rw [hqueue, List.map_cons, FairQueue.run, happly]

/-- In every run the queue in `f64` returns the items that the queue with exact weights and
credits returns, in the same order, and its numbers are the exact ones. -/
theorem float_exact (capacity : ℕ) (ops : List (Op K T)) :
    ∃ popped q, (new capacity).run ops = some (popped, q) ∧
      popped = (FairQueue.new capacity).popped (ops.map Op.exact) ∧
      q.exact = (FairQueue.new capacity).run (ops.map Op.exact) ∧
      ∀ k tq, q.queues k = some tq → tq.deficit = 0.0 ∨ tq.deficit = 0.5 := by
  obtain ⟨⟨popped, q⟩, hr, hitems, hqueue, hsmall⟩ :=
    run_exact (small_new capacity) (FairQueue.light_new capacity) ops
  refine ⟨popped, q, hr, hitems, hqueue, fun k tq hk => ?_⟩
  obtain ⟨_, -, hd⟩ := hsmall.entry k tq hk
  exact hd

end FloatQueue

end OxideGate
