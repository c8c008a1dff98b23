import OxideGate.GatewayHandlers

/-!
# No lost wakeup

A submitter pushes under the lock and calls `notify_one` afterwards; the scheduler pops, finds
nothing and only then waits in `notified()`. `Awake` is what holds between these steps: after an
empty pop the queue is empty, or a permit is stored, or a submitter is still to notify; and
when the scheduler parks there is no permit, so the first or the last of the three is left.
-/

namespace OxideGate
namespace Gateway

open Runs

variable {R : Type}

/-- The handler has pushed and not yet called `notify_one`. -/
def Request.notifying (r : Request) : Bool := r.pc = .notifying

def State.notifying (s : State R) : Prop := ∃ i : ℕ, s.requests[i]?.any Request.notifying

/-- The scheduler does not wait for a wakeup that nobody owes it. -/
structure Awake (s : State R) : Prop where
  /-- Between an empty pop and `notified()`. -/
  empty : ∀ slot, s.pc = .next slot .empty →
    s.queue.contents = [] ∨ s.permit = true ∨ s.notifying
  parked : ∀ slot, s.pc = .next slot (.parked false) →
    s.permit = false ∧ (s.queue.contents = [] ∨ s.notifying)

/-- There is nothing to show while the scheduler is not about to wait. -/
theorem awake_of_pc {s : State R} (hempty : ∀ slot, s.pc ≠ .next slot .empty)
    (hparked : ∀ slot, s.pc ≠ .next slot (.parked false)) : Awake s where
  empty := fun slot hpc => absurd hpc (hempty slot)
  parked := fun slot hpc => absurd hpc (hparked slot)

theorem awake_init (cfg : Config) (tenants : List (Tenant R)) : Awake (init cfg tenants) :=
  awake_of_pc (fun _ => by simp [init]) fun _ => by simp [init]

/-- A step that leaves the scheduler, its permit and the queue alone, and every submitter that
is still to notify. -/
theorem Awake.frame {s s' : State R} (h : Awake s) (hpc : s'.pc = s.pc)
    (hpermit : s'.permit = s.permit) (hqueue : s'.queue = s.queue)
    (hnotifying : s.notifying → s'.notifying) : Awake s' where
  empty := fun slot hnext => by
    rw [hpermit, hqueue]
    exact (h.empty slot (hpc ▸ hnext)).imp_right (Or.imp_right hnotifying)
  parked := fun slot hnext => by
    rw [hpermit, hqueue]
    exact (h.parked slot (hpc ▸ hnext)).imp_right (Or.imp_right hnotifying)

/-- After `notify_one` a permit is stored or the scheduler is woken. -/
theorem awake_notifyOne (s : State R) (requests : List Request) :
    Awake { s.notifyOne with requests := requests } := by
  unfold State.notifyOne
  split
  · exact awake_of_pc (fun _ => by simp) fun _ => by simp
  · rename_i hpc
    exact ⟨fun _ _ => Or.inr (Or.inl rfl), fun slot hparked => absurd hparked (hpc slot)⟩

/-- A push leaves a submitter that is still to notify. -/
theorem Awake.pushed {s s' : State R} (h : Awake s) (hpc : s'.pc = s.pc)
    (hpermit : s'.permit = s.permit) (hnotifying : s'.notifying) : Awake s' where
  empty := fun _ _ => Or.inr (Or.inr hnotifying)
  parked := fun slot hparked => by
    rw [hpermit]
    exact ⟨(h.parked slot (hpc ▸ hparked)).1, Or.inr hnotifying⟩

/-- The scheduler parks only when no permit is stored. -/
theorem Awake.park {s : State R} (h : Awake s) {slot : Option BackendSlot}
    (hpc : s.pc = .next slot .empty) (hpermit : s.permit = false) :
    Awake { s with pc := .next slot (.parked false) } where
  empty := fun _ hempty => absurd hempty (by simp)
  parked := fun _ _ => by
    refine ⟨hpermit, ?_⟩
    rcases h.empty slot hpc with hempty | hstored | hnotifying
    · exact Or.inl hempty
    · rw [hpermit] at hstored
      exact absurd hstored (by simp)
    · exact Or.inr hnotifying

/-- No move but `notify_one` itself ends the wait for it. -/
theorem Request.Moved.notifying {i : ℕ} {r r' : Request} {a : Action} (hm : Moved i r a r')
    (ha : ∀ j, a ≠ .notify j) (h : r.notifying) : r'.notifying := by
  have hpc : r.pc = .notifying := of_decide_eq_true h
  cases hm with
  | notify => exact absurd rfl (ha i)
  | send k g => exact h
  | deliver k reply hchan => exact h
  | granted _ _ hr | denied _ _ _ hr | pushed hr | queueFull hr | receiveStream _ hr
  | receiveBuffered _ hr | receiveError _ hr | bodyOk _ _ hr | bodyErr _ hr | releaseBody _ _ hr
  | chunk _ _ hr | closeBody _ hr | hangUp hr | cancel _ hr | settle _ _ _ hr =>
    rw [hr] at hpc
    exact absurd hpc (by simp)

variable [Add R] [Sub R] [Mul R] [Min R] [LT R] [DecidableLT R] [NatCast R] [RatCast R]

theorem notifying_step {cfg : Config} {s s' : State R} {a : Action} (hs : Stepped cfg s a s')
    (ha : ∀ j, a ≠ .notify j) (h : s.notifying) : s'.notifying := by
  obtain ⟨i, hi⟩ := h
  exact ⟨i, any_requests hs (fun _ _ _ hm => hm.notifying ha) hi⟩

/-- Every step keeps the scheduler from sleeping through a push. -/
theorem Awake.step {cfg : Config} {s s' : State R} {a : Action} (hplaced : Placed s) (h : Awake s)
    (hs : Stepped cfg s a s') : Awake s' := by
  by_cases hnotify : ∃ j, a = .notify j
  · obtain ⟨j, rfl⟩ := hnotify
    cases hs with
    | notify _ r hr hpc => exact awake_notifyOne s _
  have hnotifying := notifying_step hs fun j hj => hnotify ⟨j, hj⟩
  cases hs with
  | notify i r hr hpc => exact absurd ⟨i, rfl⟩ hnotify
  | pushed i r t queue hr hpc ht hroom hq =>
    refine h.pushed rfl rfl ⟨i, ?_⟩
    show Option.any _ (s.requests.set i { r with pc := .notifying })[i]?
    rw [List.getElem?_set_self (List.getElem?_eq_some_iff.mp hr).1]
    rfl
  -- the steps of the scheduler: all but the next two leave `next()`, or are about to pop
  | popEmpty slot hpc hq =>
    have hperm := FairQueue.pop_perm hplaced.wf
    rw [hq] at hperm
    exact ⟨fun _ _ => Or.inl hperm.2, fun _ hparked => absurd hparked (by simp)⟩
  | park slot hpc hpermit => exact h.park hpc hpermit
  | popped slot item hpc hq =>
    refine awake_of_pc (fun _ => ?_) fun _ => ?_
    · show (if _ then SchedPc.dispatch else SchedPc.collect) ≠ _
      split <;> simp
    · show (if _ then SchedPc.dispatch else SchedPc.collect) ≠ _
      split <;> simp
  | acquire | consume | wake | again | deadline | expire | batchDone | spawn | await | acquireFor =>
    exact awake_of_pc (fun _ => by simp) fun _ => by simp
  -- the steps of the other parties, and a skipped item
  | releaseBody | hangUp | settle | skip | backendErr | discard =>
    exact h.frame (by simp [State.setRequest, State.setTask, State.settle])
      (by simp [State.setRequest, State.setTask, State.settle])
      (by simp [State.setRequest, State.setTask, State.settle]) hnotifying
  | _ => exact h.frame rfl rfl rfl hnotifying

/-- Whenever the scheduler is parked without a wakeup, no permit is stored either, and the queue
is empty or a submitter has pushed and is still to call `notify_one`: whatever the number of
submitters, the order of the steps, and the windows that expire in between. -/
theorem no_lost_wakeup (cfg : Config) (tenants : List (Tenant R)) (actions : List Action)
    (s : State R) (hrun : exec (step cfg) (init cfg tenants) actions = some s)
    (slot : Option BackendSlot) (hparked : s.pc = .next slot (.parked false)) :
    s.permit = false ∧ (s.queue.isEmpty = true ∨
      ∃ (i : ℕ) (r : Request), s.requests[i]? = some r ∧ r.pc = .notifying) := by
  have hstep : ∀ (s : State R) a s', Placed s ∧ Awake s → step cfg s a = some s' →
      Placed s' ∧ Awake s' := by
    intro s a s' h hs
    exact ⟨h.1.step (step_cases hs), h.2.step h.1 (step_cases hs)⟩
  obtain ⟨hplaced, hawake⟩ := exec_invariant hstep
    ⟨placed_init cfg tenants, awake_init cfg tenants⟩ hrun
  obtain ⟨hpermit, hempty | ⟨i, hi⟩⟩ := hawake.parked slot hparked
  · refine ⟨hpermit, Or.inl ?_⟩
    unfold FairQueue.isEmpty
    rw [hplaced.wf.len_eq, hempty]
    rfl
  · refine ⟨hpermit, Or.inr ?_⟩
    cases hr : s.requests[i]? with
    | none => simp [hr] at hi
    | some r =>
      rw [hr] at hi
      exact ⟨i, r, hr, of_decide_eq_true hi⟩

/-- The scheduler parks, and a request is pushed: its handler is still to notify. -/
theorem no_lost_wakeup_pushed :
    ∃ s : State ℚ, exec (step ⟨2, 5, 1, true, 16⟩)
        (init ⟨2, 5, 1, true, 16⟩ [.fromConfig ⟨"acme", "key", .free, 600, 5, 4⟩ 0])
        [.acquire, .pop, .notified, .arrive 0 ⟨none, false⟩, .admission 0 0, .push 0] = some s ∧
      s.permit = false ∧ (s.queue.isEmpty = true ∨
        ∃ (i : ℕ) (r : Request), s.requests[i]? = some r ∧ r.pc = .notifying) := by
  have hrun : (exec (step ⟨2, 5, 1, true, 16⟩)
      (init ⟨2, 5, 1, true, 16⟩ [.fromConfig ⟨"acme", "key", .free, 600, 5, 4⟩ 0])
      [.acquire, .pop, .notified, .arrive 0 ⟨none, false⟩, .admission 0 0, .push 0]).map
        (fun s : State ℚ => s.pc) = some (.next (some ⟨some 0⟩) (.parked false)) := by
    decide +kernel
  obtain ⟨s, hs, hpc⟩ := Option.map_eq_some_iff.mp hrun
  exact ⟨s, hs, no_lost_wakeup _ _ _ s hs _ hpc⟩

end Gateway
end OxideGate
