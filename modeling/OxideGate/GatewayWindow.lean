import OxideGate.GatewayLatency

/-!
# The batching window

With a window the scheduler keeps a batch open until the deadline that it has set when it took the
first request of it. `window_kept` says what the window costs and what it does not: no batch is
dealt with before its window has passed, so whoever opens one waits all of it; and once it has
passed the scheduler has a step to take, so that nobody waits for a batch any longer.
-/

namespace OxideGate
namespace Gateway

open Runs Tally

variable {R : Type}

/-- In the `for` loop over the batch. -/
def SchedPc.deals : SchedPc → Bool
  | .dispatch | .acquireFor _ => true
  | .acquire | .next _ _ | .collect => false

/-- What the deadline says of those who wait. -/
structure Windowed (cfg : Config) (s : Timed R) : Prop extends OnClock s where
  shaped : Shaped s.gateway
  bound : s.deadline ≤ s.now + cfg.window
  dealing : s.gateway.pc.deals → s.deadline ≤ s.now
  /-- Who has opened a window has waited for it, or waits for it in the batch. -/
  openers : ∀ i ∈ s.openers, i ∈ s.gateway.accepted ∧
    (s.enqueuedAt i + cfg.window ≤ s.now ∨
      s.enqueuedAt i + cfg.window ≤ s.deadline ∧ 0 < s.gateway.batched i)
  windows : ∀ w ∈ s.queueWait, w.request ∈ s.openers → cfg.window ≤ w.time

theorem windowed_init (cfg : Config) (tenants : List (Tenant R)) :
    Windowed cfg (Timed.init cfg tenants) where
  toOnClock := onClock_init cfg tenants
  shaped := shaped_init cfg tenants
  bound := Nat.zero_le _
  dealing := fun _ => le_rfl
  openers := fun _ hi => absurd hi List.not_mem_nil
  windows := fun _ hw => absurd hw List.not_mem_nil

/-- What is popped has been accepted, and has not been sent. -/
theorem Placed.of_popped {s : State R} (h : Placed s) {item : QueuedRequest}
    (hq : s.queue.pop.1 = some item) :
    item.respondTo ∈ s.accepted ∧ item.respondTo ∉ s.sent := by
  have hperm := FairQueue.pop_perm h.wf
  rw [hq] at hperm
  have hqueued : s.queued item.respondTo
      = item.of item.respondTo + tally (QueuedRequest.of item.respondTo) s.queue.pop.2.contents :=
    tally_perm _ hperm
  have hof : item.of item.respondTo = 1 := if_pos rfl
  have hsends := h.sends item.respondTo
  have honce := (h.once item.respondTo).trans (Bool.toNat_le _)
  refine ⟨List.count_pos_iff.mp (by omega), fun hsent => ?_⟩
  have := List.count_pos_iff.mpr hsent
  omega

/-- A request that is with a task is not in the batch. -/
theorem Placed.not_batched {s : State R} (h : Placed s) {k : ℕ} {t : Task} {slot : BackendSlot}
    (ht : s.tasks[k]? = some t) (hpc : t.pc = .ready slot) :
    s.batched t.item.respondTo = 0 := by
  have hplaces := h.places t.item.respondTo
  have honce := (h.once t.item.respondTo).trans (Bool.toNat_le _)
  have hbusy : t.busy t.item.respondTo = 1 := by
    rw [Task.busy, hpc]
    exact if_pos rfl
  have htally := le_tally (Task.busy t.item.respondTo) (List.mem_of_getElem? ht)
  unfold State.dispatched at hplaces
  omega

theorem Noted.deadline_cases {cfg : Config} {s u : Timed R} {a : Action} (h : Noted cfg s a u) :
    u.deadline = s.deadline ∧ u.openers = s.openers ∨
    ∃ slot n item, a = .pop ∧ s.gateway.pc = .next (some slot) n ∧
      s.gateway.queue.pop.1 = some item ∧ u.deadline = s.now + cfg.window ∧
      u.openers = s.openers ++ [item.respondTo] := by
  cases h with
  | opened slot n item hpc hq => exact Or.inr ⟨slot, n, item, rfl, hpc, hq, rfl, rfl⟩
  | _ => exact Or.inl ⟨rfl, rfl⟩

variable [Add R] [Sub R] [Mul R] [Min R] [LT R] [DecidableLT R] [NatCast R] [RatCast R]

/-- Nobody leaves the batch but through the `for` loop. -/
theorem batched_mono {cfg : Config} {s s' : State R} {a : Action} (hs : Stepped cfg s a s')
    (hdeals : s.pc.deals = false) (i : ℕ) : s.batched i ≤ s'.batched i := by
  cases hs with
  | notify j r hr hpc =>
    unfold State.notifyOne State.setRequest
    split
    · rename_i slot hpc'
      simp only [State.batched, hpc']
      exact le_rfl
    · exact le_rfl
  | popped slot item hpc hq =>
    simp only [State.batched, hpc, tally_append]
    split <;> exact Nat.add_le_add_left (Nat.le_add_right _ _) _
  | acquire | popEmpty | consume | park | wake | again | deadline | expire =>
    simp_all [State.batched, SchedPc.items]
  | batchDone hpc | skip _ _ _ _ hpc | spawn _ _ _ _ hpc | await _ _ _ hpc | acquireFor _ _ _ hpc =>
    rw [hpc] at hdeals
    exact absurd hdeals (by simp [SchedPc.deals])
  | releaseBody | hangUp | settle | backendErr | discard =>
    simp [State.batched, State.setRequest, State.setTask, State.settle]
  | _ => exact le_rfl

/-- The loop begins when the window has passed. -/
theorem deals_cases {cfg : Config} {s s' : State R} {a : Action} (hs : Stepped cfg s a s')
    (hdeals : s'.pc.deals) : s.pc.deals ∨ a = .pop ∧ cfg.window = 0 ∨
      ∃ forward, a = .expire forward ∧
        (s.pc = .collect ∨ ∃ woken, s.pc = .next none (.parked woken)) := by
  cases hs with
  | notify j r hr hpc =>
    refine Or.inl ?_
    unfold State.notifyOne State.setRequest at hdeals
    split at hdeals
    · exact absurd hdeals (by simp [SchedPc.deals])
    · exact hdeals
  | popped slot item hpc hq =>
    refine Or.inr (Or.inl ⟨rfl, ?_⟩)
    by_contra hwindow
    simp [hwindow, SchedPc.deals] at hdeals
  | deadline forward hpc => exact Or.inr (Or.inr ⟨forward, rfl, Or.inl hpc⟩)
  | expire woken forward hpc => exact Or.inr (Or.inr ⟨forward, rfl, Or.inr ⟨woken, hpc⟩⟩)
  | acquire | popEmpty | consume | park | wake | again | batchDone =>
    exact absurd hdeals (by simp [SchedPc.deals])
  | skip _ _ _ _ hpc | spawn _ _ _ _ hpc | await _ _ _ hpc | acquireFor _ _ _ hpc =>
    rw [hpc]
    exact Or.inl rfl
  | releaseBody | hangUp | settle | backendErr | discard =>
    exact Or.inl (by simpa [State.setRequest, State.setTask, State.settle] using hdeals)
  | _ => exact Or.inl hdeals

/-- An opener has waited for its window, or is still in the batch. -/
theorem Windowed.openers_step {cfg : Config} {s u : Timed R} {a : Action} {g : State R}
    (h : Windowed cfg s) (hs : Stepped cfg s.gateway a g) (hnoted : Noted cfg s a u) :
    ∀ i ∈ u.openers, i ∈ g.accepted ∧ (u.enqueuedAt i + cfg.window ≤ s.now ∨
      u.enqueuedAt i + cfg.window ≤ u.deadline ∧ 0 < g.batched i) := by
  intro i hi
  have hkept : ∀ i ∈ s.openers, i ∈ g.accepted ∧ u.enqueuedAt i = s.enqueuedAt i := by
    intro i hi
    have haccepted := (h.openers i hi).1
    refine ⟨?_, hnoted.enqueuedAt_eq (h.handled.not_pushed hs haccepted)⟩
    rcases (events_cases hs).1 with he | ⟨j, r, -, -, -, -, he⟩
    · rwa [he]
    · rw [he]
      exact List.mem_append_left _ haccepted
  rcases hnoted.deadline_cases with ⟨hdeadline, hopeners⟩ |
    ⟨slot, n, item, rfl, hpc, hq, hdeadline, hopeners⟩
  · rw [hopeners] at hi
    obtain ⟨haccepted, he⟩ := hkept i hi
    refine ⟨haccepted, ?_⟩
    rw [he, hdeadline]
    rcases (h.openers i hi).2 with hwaited | ⟨hwindow, hbatched⟩
    · exact Or.inl hwaited
    · cases hdeals : s.gateway.pc.deals with
      | true => exact Or.inl (hwindow.trans (h.dealing hdeals))
      | false => exact Or.inr ⟨hwindow, hbatched.trans_le (batched_mono hs hdeals i)⟩
  · rw [hopeners] at hi
    rcases List.mem_append.mp hi with hi | hi
    · obtain ⟨haccepted, he⟩ := hkept i hi
      refine ⟨haccepted, ?_⟩
      rw [he]
      -- the last window is over: there is no batch
      have hempty : s.gateway.batch = [] := by
        have hshaped := h.shaped
        rw [Shaped, hpc] at hshaped
        exact hshaped
      rcases (h.openers i hi).2 with hwaited | ⟨-, hbatched⟩
      · exact Or.inl hwaited
      · simp [State.batched, hempty, hpc, SchedPc.items] at hbatched
    · rw [List.mem_singleton.mp hi]
      have haccepted := (h.handled.of_popped hq).1
      have hread := (h.enqueued _ haccepted).2
      have hpush : Action.pop ≠ .push item.respondTo := by simp
      cases hs with
      | popped slot' item' hpc' hq' =>
        rw [hq] at hq'
        obtain rfl := Option.some.inj hq'
        refine ⟨haccepted, Or.inr ⟨?_, ?_⟩⟩
        · rw [hnoted.enqueuedAt_eq hpush, hdeadline]
          omega
        · have hof : item.of item.respondTo = 1 := if_pos rfl
          simp only [State.batched, tally_append, tally_cons, tally_nil, hof]
          omega
      | popEmpty slot' hpc' hq' => exact absurd (hq.symm.trans hq') (by simp)

theorem Windowed.step {cfg : Config} {s s' : Timed R} (h : Windowed cfg s)
    (hs : TimedStepped cfg s s') : Windowed cfg s' := by
  have hclock := h.toOnClock.step hs
  cases hs with
  | passed d =>
    have hlater : s.now ≤ s.now + d := Nat.le_add_right _ _
    exact {
      toOnClock := hclock
      shaped := h.shaped
      bound := h.bound.trans (Nat.add_le_add_right hlater _)
      dealing := fun hdeals => (h.dealing hdeals).trans hlater
      openers := fun i hi =>
        ⟨(h.openers i hi).1, (h.openers i hi).2.imp_left fun hwaited => hwaited.trans hlater⟩
      windows := h.windows }
  | acted a u g hallows hs hnoted =>
    have hopeners := h.openers_step hs hnoted
    refine {
      toOnClock := hclock
      shaped := h.shaped.step hs
      bound := ?_
      dealing := fun hdeals => ?_
      openers := fun i hi => hnoted.now ▸ hopeners i hi
      windows := fun w hw hi => ?_ }
    · show u.deadline ≤ u.now + cfg.window
      rw [hnoted.now]
      rcases hnoted.deadline_cases with ⟨he, -⟩ | ⟨-, -, -, -, -, -, he, -⟩
      · rw [he]
        exact h.bound
      · rw [he]
    · show u.deadline ≤ u.now
      rw [hnoted.now]
      have hbound := h.bound
      rcases hnoted.deadline_cases with ⟨he, -⟩ | ⟨slot, n, item, rfl, hpc, -, he, -⟩
      · rw [he]
        rcases deals_cases hs hdeals with hold | ⟨-, hwindow⟩ | ⟨forward, rfl, hpc⟩
        · exact h.dealing hold
        · omega
        · rcases hpc with hpc | ⟨woken, hpc⟩
          · have hlate : s.deadline < s.now := by simpa [Timed.allows, hpc] using hallows
            exact hlate.le
          · simpa [Timed.allows, hpc] using hallows
      · rcases deals_cases hs hdeals with hold | ⟨-, hwindow⟩ | ⟨forward, ha, -⟩
        · rw [hpc] at hold
          exact absurd hold (by simp [SchedPc.deals])
        · omega
        · exact absurd ha (by simp)
    · replace hi : w.request ∈ u.openers := hi
      replace hw : w ∈ u.queueWait := hw
      rcases sent_cases hs with ⟨-, ha⟩ | ⟨k, n, t, slot, rfl, ht, hpc, -⟩
      · rw [hnoted.queueWait_eq ha] at hw
        rcases hnoted.deadline_cases with ⟨-, he⟩ | ⟨slot, n, item, rfl, -, hq, -, he⟩
        · exact h.windows w hw (he ▸ hi)
        · rcases List.mem_append.mp (he ▸ hi) with hi | hi
          · exact h.windows w hw hi
          · have hsent := (h.toOnClock.accepted hw).1
            rw [List.mem_singleton.mp hi] at hsent
            exact absurd hsent (h.handled.of_popped hq).2
      · rw [hnoted.queueWait_send ht] at hw
        rcases hnoted.deadline_cases with ⟨-, he⟩ | ⟨_, _, _, ha, -⟩
        · rw [he] at hi
          rcases List.mem_append.mp hw with hw | hw
          · exact h.windows w hw hi
          · rw [List.mem_singleton.mp hw] at hi ⊢
            show cfg.window ≤ s.now - s.enqueuedAt t.item.respondTo
            have hnone := h.handled.not_batched ht hpc
            have hwaited := (h.openers _ hi).2
            simp only at hwaited
            omega
        · exact absurd ha (by simp)

/-- Time holds up only what the end of a window makes up for. -/
theorem own_of_timed {cfg : Config} {s : Timed R}
    (hstuck : ∀ a : Action, a.own ∨ (∃ forward, a = .expire forward) →
      s.step cfg (.act a) = none) : Rests (step cfg) (fun a => a.own) s.gateway := by
  have hallowed : ∀ a : Action, a.own ∨ (∃ forward, a = .expire forward) → s.allows a →
      Gateway.step cfg s.gateway a = none := by
    intro a ha hallows
    have hnone := hstuck a ha
    rwa [Timed.step, if_pos hallows, Option.map_eq_none_iff] at hnone
  intro a ha
  cases a with
  | again =>
    by_cases hearly : s.now ≤ s.deadline
    · exact hallowed .again (Or.inl ha) (decide_eq_true hearly)
    · -- the check of the deadline ends the window instead
      cases hpc : s.gateway.pc with
      | collect =>
        have hnone := hallowed (.expire false) (Or.inr ⟨false, rfl⟩)
          (by simpa [Timed.allows, hpc] using Nat.lt_of_not_le hearly)
        simp [Gateway.step, Action.party, schedulerStep, hpc] at hnone
      | _ => simp [Gateway.step, Action.party, schedulerStep, hpc]
  | expire => exact absurd ha (by simp [Action.own])
  | _ => exact hallowed _ (Or.inl ha) rfl

/-- Whatever happens when, with a limiter that `Semaphore::new` accepts: no batch is dealt with
before its window has passed, so that whoever has opened one has waited for all of it, in the queue
wait and in the latency. And nobody waits for it longer: where the gateway can do nothing on its
own, by now, either nothing is queued and what is in the batch has still time, or the backend works
on as many requests as the limiter allows. -/
theorem window_kept (cfg : Config) (tenants : List (Tenant R)) (s₀ : Timed R)
    (hspawn : Timed.spawn cfg tenants = some s₀) (actions : List TimedAction) (s : Timed R)
    (hrun : exec (Timed.step cfg) s₀ actions = some s) :
    (s.gateway.pc.deals → s.deadline ≤ s.now) ∧
    (∀ w ∈ s.queueWait ++ s.ttft ++ s.requestDuration, w.request ∈ s.openers →
      cfg.window ≤ w.time) ∧
    ((∀ a : Action, a.own ∨ (∃ forward, a = .expire forward) → s.step cfg (.act a) = none) →
      s.gateway.queue.contents = [] ∧
        (s.gateway.batch = [] ∨ s.now < s.deadline ∧ s.deadline ≤ s.now + cfg.window) ∨
      0 < cfg.maxInflight ∧ s.gateway.atWork = cfg.maxInflight) := by
  rw [Timed.eq_init_of_spawn hspawn] at hrun
  have h : Windowed cfg s :=
    exec_invariant (fun _ _ _ h hs => h.step (timed_cases hs)) (windowed_init cfg tenants) hrun
  refine ⟨h.dealing, fun w hw hi => ?_, fun hstuck => ?_⟩
  · rw [List.append_assoc] at hw
    rcases List.mem_append.mp hw with hw | hw
    · exact h.windows w hw hi
    · obtain ⟨w', hw', hsame, hle⟩ := (measured_of_exec hrun).covered w hw
      have hwait := h.windows w' hw' (hsame ▸ hi)
      omega
  · obtain ⟨as, has, -⟩ := timed_run hrun
    have hown := own_of_timed hstuck
    rcases own_scheduler has hown with ⟨slot, hpc⟩ | ⟨hpc, hnone⟩
    · refine Or.inl ⟨own_queue has hown hpc, ?_⟩
      cases slot with
      | some slot =>
        have hshaped := h.shaped
        rw [Shaped, hpc] at hshaped
        exact Or.inl hshaped
      | none =>
        have hnone := hstuck (.expire false) (Or.inr ⟨false, rfl⟩)
        refine Or.inr ⟨?_, h.bound⟩
        simpa [Timed.step, Timed.allows, hpc, step, Action.party, schedulerStep] using hnone
    · obtain ⟨hm, hcount⟩ := handedOut_of_waiting has hpc hnone
      exact Or.inr ⟨hm, own_handedOut has hown ▸ hcount⟩

/-- The first request waits for the whole window, the one that joins it for the rest. -/
theorem window_kept_joined :
    ∃ s : Timed ℚ, exec (Timed.step ⟨4, 20, 2, true, 16⟩)
        (Timed.init ⟨4, 20, 2, true, 16⟩ [.fromConfig ⟨"acme", "key", .paid, 600, 5, 4⟩ 0])
        [.act .acquire, .act (.arrive 0 ⟨none, true⟩), .act (.admission 0 0), .act (.push 0),
          .act (.notify 0), .pass 3, .act .pop, .act .again, .act .pop, .act .notified, .act .pop,
          .act .notified, .pass 8, .act (.arrive 0 ⟨some 8, false⟩), .act (.admission 1 0),
          .act (.push 1), .act (.notify 1), .act .wake, .act .pop, .act .again, .act .pop,
          .act .notified, .pass 12, .act (.expire false), .act .dispatchNext, .act .dispatchNext,
          .act .acquireFor, .act (.send 0 8), .act (.send 1 8)] = some s ∧
      s.queueWait = [⟨0, some "paid", 23⟩, ⟨1, some "paid", 12⟩] ∧ s.openers = [0] ∧
      ∀ w ∈ s.queueWait ++ s.ttft ++ s.requestDuration, w.request ∈ s.openers → 20 ≤ w.time := by
  have hrun : (exec (Timed.step ⟨4, 20, 2, true, 16⟩)
      (Timed.init ⟨4, 20, 2, true, 16⟩ [.fromConfig ⟨"acme", "key", .paid, 600, 5, 4⟩ 0])
      [.act .acquire, .act (.arrive 0 ⟨none, true⟩), .act (.admission 0 0), .act (.push 0),
        .act (.notify 0), .pass 3, .act .pop, .act .again, .act .pop, .act .notified, .act .pop,
        .act .notified, .pass 8, .act (.arrive 0 ⟨some 8, false⟩), .act (.admission 1 0),
        .act (.push 1), .act (.notify 1), .act .wake, .act .pop, .act .again, .act .pop,
        .act .notified, .pass 12, .act (.expire false), .act .dispatchNext, .act .dispatchNext,
        .act .acquireFor, .act (.send 0 8), .act (.send 1 8)]).map
        (fun s : Timed ℚ => (s.queueWait, s.openers))
      = some ([⟨0, some "paid", 23⟩, ⟨1, some "paid", 12⟩], [0]) := by
    decide +kernel
  obtain ⟨s, hs, hstate⟩ := Option.map_eq_some_iff.mp hrun
  obtain ⟨hwait, hopeners⟩ := Prod.mk.inj hstate
  exact ⟨s, hs, hwait, hopeners, (window_kept _ _ _ rfl _ s hs).2.1⟩

end Gateway
end OxideGate
