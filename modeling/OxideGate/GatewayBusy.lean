import OxideGate.GatewayRest

/-!
# No slot stays free while a request waits

The limiter is there to keep the backend busy, and no busier than `max_inflight`. When the gateway
has done all that it can do on its own, and waits for the backend, its clients or a timer, then
either there is nothing queued, or every permit is with a request that the backend works on
(`work_conserving`). What is in a batch then waits for the end of its window only.
-/

namespace OxideGate
namespace Gateway

open Runs Tally

variable {R : Type}

/-- At `backend.send(..).await`. -/
def TaskPc.atWork : TaskPc → Bool
  | .sending _ => true
  | .ready _ | .responding _ | .finished => false

/-- At a body that the backend has still to send. -/
def HandlerPc.atWork : HandlerPc → Bool
  | .reading _ | .streaming _ => true
  | _ => false

/-- How many requests the backend works on. -/
def State.atWork (s : State R) : ℕ :=
  s.tasks.countP (fun t => t.pc.atWork) + s.requests.countP fun r => r.pc.atWork

variable [Add R] [Sub R] [Mul R] [Min R] [LT R] [DecidableLT R] [NatCast R] [RatCast R]

section Stuck

variable {cfg : Config} {tenants : List (Tenant R)} {actions : List Action} {s : State R}

/-- Where the gateway can do nothing, who has a slot is at work. -/
theorem own_slots (hrun : exec (step cfg) (init cfg tenants) actions = some s)
    (hstuck : Rests (step cfg) (fun a => a.own) s) {r : Request} (hr : r ∈ s.requests) :
    r.slots (fun _ => 1) = r.pc.atWork.toNat := by
  obtain ⟨i, hi⟩ := List.getElem?_of_mem hr
  have hcoherent := (handled_of_exec hrun).coherent i r hi
  have hchan : r.pc ≠ .waiting ∨ r.chan = .empty → r.pc ≠ .notifying → r.chan.slot = none := by
    intro hwaiting hnotifying
    cases hslot : r.chan.slot with
    | none => rfl
    | some slot =>
      have hfull := Chan.of_slot hslot
      rcases (hcoherent.of_full hfull).1 with hpc | hpc
      · exact absurd hpc hnotifying
      · rcases hwaiting with hne | hempty
        · exact absurd hpc hne
        · exact absurd (hfull.symm.trans hempty) (by simp)
  rw [Request.slots]
  rcases own_handler hrun hstuck hi with hpc | ⟨hpc, hempty⟩ | ⟨slot, hpc | hpc⟩
  · rw [hchan (by simp [hpc]) (by simp [hpc]), hpc]
    rfl
  · rw [hchan (Or.inr hempty) (by simp [hpc]), hpc]
    rfl
  · rw [hchan (by simp [hpc]) (by simp [hpc]), hpc]
    rfl
  · rw [hchan (by simp [hpc]) (by simp [hpc]), hpc]
    rfl

/-- So the slots that have been handed out are those of the requests at work. -/
theorem own_handedOut (hrun : exec (step cfg) (init cfg tenants) actions = some s)
    (hstuck : Rests (step cfg) (fun a => a.own) s) : s.handedOut (fun _ => 1) = s.atWork := by
  have htasks : tally (fun t : Task => share (fun _ => 1) t.pc.slot) s.tasks
      = tally (fun t : Task => t.pc.atWork.toNat) s.tasks := by
    refine tally_congr fun t ht => ?_
    rcases own_task hrun hstuck ht with hpc | ⟨slot, hpc⟩
    · rw [hpc]
      rfl
    · rw [hpc]
      rfl
  have hrequests : tally (Request.slots fun _ => 1) s.requests
      = tally (fun r : Request => r.pc.atWork.toNat) s.requests :=
    tally_congr fun r hr => own_slots hrun hstuck hr
  rw [State.handedOut, htasks, hrequests, tally_toNat, tally_toNat, State.atWork]

end Stuck

/-- With a limiter that `Semaphore::new` accepts: where the gateway can do nothing on its own,
nothing is queued, and what is in the batch waits for the end of its window; or there is a limiter,
and the backend works on as many requests as it allows. -/
theorem work_conserving (cfg : Config) (tenants : List (Tenant R)) (s₀ : State R)
    (hspawn : spawn cfg tenants = some s₀) (actions : List Action) (s : State R)
    (hrun : exec (step cfg) s₀ actions = some s)
    (hstuck : ∀ a : Action, a.own → step cfg s a = none) :
    (s.queue.contents = [] ∧
      (s.batch = [] ∨ cfg.window ≠ 0 ∧ s.pc = .next none (.parked false))) ∨
      0 < cfg.maxInflight ∧ s.atWork = cfg.maxInflight := by
  rw [eq_init_of_spawn hspawn] at hrun
  obtain ⟨-, -, hshaped, -⟩ := invariants_of_exec hrun
  rcases own_scheduler hrun hstuck with ⟨slot, hpc⟩ | ⟨hpc, hnone⟩
  · refine Or.inl ⟨own_queue hrun hstuck hpc, ?_⟩
    cases slot with
    | some slot =>
      rw [Shaped, hpc] at hshaped
      exact Or.inl hshaped
    | none =>
      -- with no window the scheduler takes the slot first
      refine Or.inr ⟨fun hwindow => ?_, hpc⟩
      have hfirst : SlotFirst s :=
        exec_invariant (fun _ _ _ h hs => h.step hwindow (step_cases hs)) ⟨rfl, trivial⟩ hrun
      have hnever := hfirst.2
      rw [hpc] at hnever
      exact hnever
  · obtain ⟨hm, hcount⟩ := handedOut_of_waiting hrun hpc hnone
    exact Or.inr ⟨hm, own_handedOut hrun hstuck ▸ hcount⟩

/-- One slot and two requests: the second one is queued while the backend works on the first. -/
theorem work_conserving_full :
    ∃ s : State ℚ, exec (step ⟨4, 0, 1, true, 16⟩)
        (init ⟨4, 0, 1, true, 16⟩ [.fromConfig ⟨"acme", "key", .paid, 600, 5, 4⟩ 0])
        [.acquire, .arrive 0 ⟨none, false⟩, .admission 0 0, .push 0, .notify 0, .pop,
          .dispatchNext, .dispatchNext, .send 0 8, .arrive 0 ⟨some 8, true⟩, .admission 1 0,
          .push 1, .notify 1] = some s ∧
      s.queue.contents = [⟨⟨some 8, true⟩, 1, "paid"⟩] ∧ s.atWork = 1 := by
  have hrun : (exec (step ⟨4, 0, 1, true, 16⟩)
      (init ⟨4, 0, 1, true, 16⟩ [.fromConfig ⟨"acme", "key", .paid, 600, 5, 4⟩ 0])
      [.acquire, .arrive 0 ⟨none, false⟩, .admission 0 0, .push 0, .notify 0, .pop,
        .dispatchNext, .dispatchNext, .send 0 8, .arrive 0 ⟨some 8, true⟩, .admission 1 0,
        .push 1, .notify 1]).map (fun s : State ℚ => (s.queue.contents, s.pc, s.free,
          s.tasks.all (·.pc = .sending ⟨some 0⟩),
          s.requests.all fun r => r.pc = .waiting ∧ r.chan = .empty))
      = some ([⟨⟨some 8, true⟩, 1, "paid"⟩], .acquire, some [], true, true) := by
    decide +kernel
  obtain ⟨s, hs, hstate⟩ := Option.map_eq_some_iff.mp hrun
  simp only [Prod.mk.injEq] at hstate
  obtain ⟨hcontents, hpc, hfree, htasks, hrequests⟩ := hstate
  have htask : ∀ (k : ℕ) (t : Task), s.tasks[k]? = some t → t.pc = .sending ⟨some 0⟩ :=
    fun k t ht => of_decide_eq_true (List.all_eq_true.mp htasks t (List.mem_of_getElem? ht))
  have hrequest : ∀ (i : ℕ) (r : Request), s.requests[i]? = some r →
      r.pc = .waiting ∧ r.chan = .empty :=
    fun i r hr => of_decide_eq_true (List.all_eq_true.mp hrequests r (List.mem_of_getElem? hr))
  have hstuck : ∀ a : Action, a.own → step ⟨4, 0, 1, true, 16⟩ s a = none := by
    intro a ha
    have hhandler : ∀ i, (s.requests[i]?.bind fun r => handlerStep ⟨4, 0, 1, true, 16⟩ s i r a)
        = none := by
      intro i
      rw [Option.bind_eq_none_iff]
      intro r hr
      obtain ⟨hpc, hchan⟩ := hrequest i r hr
      cases a <;> first
        | exact absurd ha Bool.false_ne_true
        | simp [handlerStep, hpc, hchan]
    have hdispatch : ∀ k, (s.tasks[k]?.bind fun t => taskStep s k t a) = none := by
      intro k
      rw [Option.bind_eq_none_iff]
      intro t ht
      cases a <;> first
        | exact absurd ha Bool.false_ne_true
        | simp [taskStep, htask k t ht]
    have hscheduler : schedulerStep ⟨4, 0, 1, true, 16⟩ s a = none := by
      cases a <;> first
        | exact absurd ha Bool.false_ne_true
        | simp [schedulerStep, State.acquireSlot, hpc, hfree]
    cases a <;> first
      | exact absurd ha Bool.false_ne_true
      | exact hhandler _
      | exact hdispatch _
      | exact hscheduler
  rcases work_conserving _ _ _ rfl _ s hs hstuck with ⟨hempty, -⟩ | ⟨-, hfull⟩
  · rw [hcontents] at hempty
    exact absurd hempty (by simp)
  · exact ⟨s, hs, hcontents, hfull⟩

end Gateway
end OxideGate
