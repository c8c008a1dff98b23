import OxideGate.FairQueueRuns

/-!
# The items of a `FairQueue` are only passed on

No call looks into an item: relabelling the items of a queue commutes with `push` and `pop`. What
is proved of queues with tagged items is so true of every queue, `untag`ged.
-/

namespace OxideGate

variable {K T U : Type}

def TenantQueue.map (f : T → U) (tq : TenantQueue T) : TenantQueue U :=
  ⟨tq.items.map f, tq.weight, tq.deficit⟩

/-- The queue with its items relabelled. -/
def FairQueue.map (f : T → U) (q : FairQueue K T) : FairQueue K U where
  queues := fun k => (q.queues k).map (TenantQueue.map f)
  active := q.active
  turnStarted := q.turnStarted
  len := q.len
  capacity := q.capacity

/-- The end of a round, with the items relabelled. -/
def Visit.map (f : T → U) : Visit K T → Visit K U
  | .ret item q => .ret (item.map f) (q.map f)
  | .next q => .next (q.map f)

namespace FairQueue

variable (f : T → U) (q : FairQueue K T)

@[simp] theorem map_new (capacity : ℕ) : map f (new capacity : FairQueue K T) = new capacity := rfl

@[simp] theorem map_queues (key : K) :
    (q.map f).queues key = (q.queues key).map (TenantQueue.map f) := rfl

/-- The backlog of a key, relabelled. -/
theorem backlog_map (key : K) : (q.map f).backlog key = (q.backlog key).map f := by
  simp only [backlog, map_queues]
  cases q.queues key <;> rfl

/-- Labels do not bear on the number of rounds that `pop` may take. -/
theorem rounds_map : (q.map f).rounds = q.rounds := by
  have hmissing : (q.map f).missing = q.missing := by
    funext key
    simp only [missing, map_queues]
    cases q.queues key <;> rfl
  rw [rounds, rounds, hmissing]
  rfl

variable [DecidableEq K]

/-- An entry that is replaced. -/
theorem map_update (key : K) (v : Option (TenantQueue T)) (active : List K) (started : Bool)
    (len capacity : ℕ) :
    map f ⟨Function.update q.queues key v, active, started, len, capacity⟩
      = ⟨Function.update (q.map f).queues key (v.map (TenantQueue.map f)), active, started, len,
        capacity⟩ := by
  simp only [map, mk.injEq, and_true]
  exact Function.comp_update (Option.map (TenantQueue.map f)) q.queues key v

/-- Pushing a relabelled item is relabelling what was pushed. -/
theorem push_map (key : K) (weight : ℚ) (item : T) :
    ((q.map f).push key weight (f item)).2 = (q.push key weight item).2.map f := by
  unfold push
  by_cases hfull : q.capacity ≤ q.len
  · rw [if_pos hfull, if_pos (show (q.map f).capacity ≤ (q.map f).len from hfull)]
  · rw [if_neg hfull, if_neg (show ¬ (q.map f).capacity ≤ (q.map f).len from hfull), map_queues]
    cases hk : q.queues key with
    | none =>
      simp only [Option.map_none, map_update]
      rfl
    | some tq =>
      simp only [Option.map_some, map_update, TenantQueue.map, List.map_append, List.map_singleton]
      rfl

/-- What a push that finds room leaves is determined. -/
theorem Pushed.push_eq {q q' : FairQueue K T} {key : K} {weight : ℚ} {item : T}
    (hroom : q.len < q.capacity) (hp : Pushed q key weight item q') :
    (q.push key weight item).2 = q' := by
  cases hp with
  | grow tq htq => simp only [push, if_neg (Nat.not_le.mpr hroom), htq]
  | join hnone => simp only [push, if_neg (Nat.not_le.mpr hroom), hnone]

/-- A round looks at weights and deficits only. -/
theorem visit_map : (q.map f).visit = q.visit.map f := by
  unfold visit
  rw [show (q.map f).active = q.active from rfl]
  cases hactive : q.active with
  | nil => rfl
  | cons key rest =>
    simp only [map_queues]
    cases hk : q.queues key with
    | none => rfl
    | some tq =>
      have hcredited : (q.map f).credited (tq.map f) = q.credited tq := rfl
      have hitems : (tq.map f).items.tail = tq.items.tail.map f := List.map_tail.symm
      have hhead : (tq.map f).items.head? = tq.items.head?.map f := List.head?_map
      simp only [Option.map_some, hcredited, hitems, hhead, List.map_eq_nil_iff]
      -- the four ways in which the round ends replace the same entry
      split
      · split
        · simp only [Visit.map, map_update, Option.map_none]
          rfl
        · split
          all_goals
            simp only [Visit.map, map_update, Option.map_some, TenantQueue.map]
            rfl
      · simp only [Visit.map, map_update, Option.map_some, TenantQueue.map]
        rfl

/-- So does the loop, by induction on its fuel. -/
theorem popLoop_map (fuel : ℕ) :
    popLoop fuel (q.map f) = (popLoop fuel q).map fun p => (p.1.map f, p.2.map f) := by
  induction fuel generalizing q with
  | zero => rfl
  | succ fuel ih =>
    rw [popLoop, popLoop, visit_map]
    cases q.visit with
    | ret item q' => rfl
    | next q' => exact ih q'

/-- `pop` returns the same item, relabelled. -/
theorem pop_map : (q.map f).pop = (q.pop.1.map f, q.pop.2.map f) := by
  rw [pop, pop, rounds_map, popLoop_map]
  cases popLoop q.rounds q <;> rfl

end FairQueue
end OxideGate
