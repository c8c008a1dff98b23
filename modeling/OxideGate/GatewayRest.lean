import OxideGate.GatewayAbandoned
import OxideGate.GatewayGauge
import OxideGate.GatewayLeases
import OxideGate.GatewayNotify
import OxideGate.GatewayProgress
import OxideGate.GatewayReplies

/-!
# The gateway comes to rest

The parties wait for each other: a handler for its reply, the scheduler for a slot or a wakeup, a
slot for the handler that reads its body. `due` are the actions that a party takes as soon as it
can, with no client hanging up, nothing failing, and every window ending at the next chance. In a
reachable state with nothing left to do but arrivals none of them can be taken, and in any other
one of them can (`rests_iff`): nobody waits in a circle. Together with the work that every step
uses up, the gateway finishes every request that it has accepted (`drains_to_rest`).
-/

namespace OxideGate
namespace Gateway

open Runs Tally

variable {R : Type}

/-- What a party does as soon as it can. -/
def Action.due : Action → Bool
  | .arrive _ _ | .chunk _ _ | .bodyErr _ | .disconnect _ | .backendErr _ _ | .again => false
  | _ => true

/-- What the gateway does with neither a client nor the backend nor a timer to wait for. -/
def Action.own : Action → Bool
  | .arrive _ _ | .chunk _ _ | .bodyOk _ _ | .bodyErr _ | .closeBody _ | .disconnect _
  | .backendOk _ | .backendErr _ _ | .expire _ => false
  | _ => true

theorem cost_of_due {a : Action} (h : a.due) : a.cost = 0 := by
  cases a <;> first
    | rfl
    | exact absurd h (by simp [Action.due])

/-- Every handler and every task is done, and the scheduler waits for a request. -/
structure AtRest (s : State R) : Prop where
  handlers : ∀ r ∈ s.requests, r.pc = .done
  tasks : ∀ t ∈ s.tasks, t.pc = .finished
  queue : s.queue.len = 0
  batch : s.batch = []
  scheduler : ∃ slot, s.pc = .next (some slot) (.parked false)
  permit : s.permit = false

/-! ## No work is left -/

theorem HandlerPc.work_eq_zero {pc : HandlerPc} : pc.work = 0 ↔ pc = .done := by
  cases pc <;> simp [HandlerPc.work]

theorem TaskPc.work_eq_zero {pc : TaskPc} : pc.work = 0 ↔ pc = .finished := by
  cases pc <;> simp [TaskPc.work]

theorem SchedPc.work_eq_zero {pc : SchedPc} :
    pc.work = 0 ↔ ∃ slot, pc = .next (some slot) (.parked false) := by
  constructor
  · intro h
    unfold SchedPc.work at h
    split at h
    · exact ⟨_, rfl⟩
    all_goals exact absurd h (by simp)
  · rintro ⟨slot, rfl⟩
    rfl

theorem work_eq_zero_iff {s : State R} : s.work = 0 ↔ AtRest s := by
  have hhandlers : s.handlerWork = 0 ↔ ∀ r ∈ s.requests, r.pc = .done := by
    unfold State.handlerWork
    rw [tally_eq_zero]
    exact forall₂_congr fun r _ => HandlerPc.work_eq_zero
  have htasks : s.taskWork = 0 ↔ ∀ t ∈ s.tasks, t.pc = .finished := by
    unfold State.taskWork
    rw [tally_eq_zero]
    exact forall₂_congr fun t _ => TaskPc.work_eq_zero
  have hpermit : s.permit.toNat = 0 ↔ s.permit = false := by
    cases s.permit <;> simp
  constructor
  · intro h
    unfold State.work State.schedulerWork at h
    exact
      { handlers := hhandlers.mp (by omega)
        tasks := htasks.mp (by omega)
        queue := by omega
        batch := List.length_eq_zero_iff.mp (by omega)
        scheduler := SchedPc.work_eq_zero.mp (by omega)
        permit := hpermit.mp (by omega) }
  · intro h
    unfold State.work State.schedulerWork
    rw [hhandlers.mpr h.handlers, htasks.mpr h.tasks, h.queue, h.batch,
      SchedPc.work_eq_zero.mpr h.scheduler, hpermit.mpr h.permit]
    rfl

/-! ## What can be done -/

variable [Add R] [Sub R] [Mul R] [Min R] [LT R] [DecidableLT R] [NatCast R] [RatCast R]

/-- There are permits only with a limiter. -/
theorem free_none {cfg : Config} {s s' : State R} {a : Action} (h : s.free = none)
    (hhandled : Handled s) (hs : Stepped cfg s a s') : s'.free = none := by
  cases slots_cases hhandled hs with
  | same hfree => rw [hfree, h]
  | taken slot hslot =>
    rw [h] at hslot
    generalize s'.free = free at hslot
    cases hslot
    rfl
  | dropped slot hfree =>
    rw [hfree, h]
    rfl

/-- What holds of every reachable state, of use for what its parties can do. -/
theorem invariants_of_exec {cfg : Config} {tenants : List (Tenant R)} {actions : List Action}
    {s : State R} (hrun : exec (step cfg) (init cfg tenants) actions = some s) :
    Served s ∧ Awake s ∧ Shaped s ∧ (cfg.maxInflight = 0 → s.free = none) := by
  have hstep : ∀ (s : State R) a s',
      Served s ∧ Awake s ∧ Shaped s ∧ (cfg.maxInflight = 0 → s.free = none) →
      step cfg s a = some s' →
      Served s' ∧ Awake s' ∧ Shaped s' ∧ (cfg.maxInflight = 0 → s'.free = none) := by
    intro s a s' ⟨hserved, hawake, hshaped, hfree⟩ hs
    have hs' := step_cases hs
    exact ⟨hserved.step hs', hawake.step hserved.toPlaced hs', hshaped.step hs',
      fun hm => free_none (hfree hm) hserved.toHandled hs'⟩
  refine exec_invariant hstep ⟨served_init cfg tenants, awake_init cfg tenants,
    shaped_init cfg tenants, fun hm => ?_⟩ hrun
  show (if 0 < cfg.maxInflight then _ else none) = none
  rw [hm]
  rfl

section Stuck

variable {cfg : Config} {tenants : List (Tenant R)} {actions : List Action} {s : State R}

/-- A task that is not finished can go on, or waits for the backend. -/
theorem own_task (hrun : exec (step cfg) (init cfg tenants) actions = some s)
    (hstuck : Rests (step cfg) (fun a => a.own) s) {t : Task} (ht : t ∈ s.tasks) :
    t.pc = .finished ∨ ∃ slot, t.pc = .sending slot := by
  obtain ⟨k, hk⟩ := List.getElem?_of_mem ht
  have h := served_of_exec hrun
  cases hpc : t.pc with
  | ready slot =>
    obtain ⟨r, hr⟩ := exists_request (h.entered _ (h.unanswered hk (by simp [hpc])).1)
    have hnone := hstuck (.send k 0) rfl
    simp [step, Action.party, hk, taskStep, hpc, hr] at hnone
  | sending slot => exact Or.inr ⟨slot, rfl⟩
  | responding reply =>
    obtain ⟨s', hs'⟩ := deliver_enabled hrun hk hpc
    rw [hstuck (.deliver k) rfl] at hs'
    exact absurd hs' (by simp)
  | finished => exact Or.inl rfl

/-- A handler that is not done can go on, waits for a reply that has not come, or for its body. -/
theorem own_handler (hrun : exec (step cfg) (init cfg tenants) actions = some s)
    (hstuck : Rests (step cfg) (fun a => a.own) s) {i : ℕ} {r : Request}
    (hr : s.requests[i]? = some r) : r.pc = .done ∨ r.pc = .waiting ∧ r.chan = .empty ∨
      ∃ slot, r.pc = .reading slot ∨ r.pc = .streaming slot := by
  have hserved := served_of_exec hrun
  obtain ⟨t, ht⟩ := (housed_of_exec hrun).exists_tenant hr
  cases hpc : r.pc with
  | admitting =>
    have hnone := hstuck (.admission i 0) rfl
    simp [step, Action.party, hr, handlerStep, hpc, ht] at hnone
  | pushing =>
    have hnone := hstuck (.push i) rfl
    simp [step, Action.party, hr, handlerStep, hpc, ht] at hnone
  | notifying =>
    have hnone := hstuck (.notify i) rfl
    simp [step, Action.party, hr, handlerStep, hpc] at hnone
  | waiting =>
    have hcoherent := hserved.coherent i r hr
    rw [Request.Coherent, hpc] at hcoherent
    rcases hcoherent.2 with hempty | ⟨reply, hfull⟩
    · exact Or.inr (Or.inl ⟨rfl, hempty⟩)
    · have hnone := hstuck (.receive i) rfl
      simp [step, Action.party, hr, handlerStep, hpc, hfull] at hnone
  | reading slot => exact Or.inr (Or.inr ⟨slot, Or.inl rfl⟩)
  | parsed slot n =>
    have hnone := hstuck (.releaseBody i) rfl
    simp [step, Action.party, hr, handlerStep, hpc] at hnone
  | streaming slot => exact Or.inr (Or.inr ⟨slot, Or.inr rfl⟩)
  | closing slot exit =>
    have hnone := hstuck (.settle i 0) rfl
    simp [step, Action.party, hr, handlerStep, hpc] at hnone
  | done => exact Or.inl rfl

/-- The scheduler can go on, or is parked, or waits for a slot. -/
theorem own_scheduler (hrun : exec (step cfg) (init cfg tenants) actions = some s)
    (hstuck : Rests (step cfg) (fun a => a.own) s) :
    (∃ slot, s.pc = .next slot (.parked false)) ∨
      (s.pc = .acquire ∨ ∃ item, s.pc = .acquireFor item) ∧ s.acquireSlot = none := by
  have h := served_of_exec hrun
  cases hpc : s.pc with
  | acquire =>
    have hnone := hstuck .acquire rfl
    simp only [step, Action.party, schedulerStep, hpc, Option.map_eq_none_iff] at hnone
    exact Or.inr ⟨Or.inl rfl, hnone⟩
  | next slot n =>
    cases n with
    | poll =>
      have hnone := hstuck .pop rfl
      simp [step, Action.party, schedulerStep, hpc] at hnone
    | empty =>
      have hnone := hstuck .notified rfl
      simp [step, Action.party, schedulerStep, hpc] at hnone
    | parked woken =>
      cases woken with
      | true =>
        have hnone := hstuck .wake rfl
        simp [step, Action.party, schedulerStep, hpc] at hnone
      | false => exact Or.inl ⟨slot, rfl⟩
  | collect =>
    have hnone := hstuck .again rfl
    simp [step, Action.party, schedulerStep, hpc] at hnone
  | dispatch =>
    have hnone := hstuck .dispatchNext rfl
    cases hbatch : s.batch with
    | nil => simp [step, Action.party, schedulerStep, hpc, hbatch] at hnone
    | cons e rest =>
      obtain ⟨item, slot⟩ := e
      -- what is in the batch has been accepted, so its request is there
      have hbatched := batched_cons hpc hbatch item.respondTo
      have hof : item.of item.respondTo = 1 := if_pos rfl
      have hplaces := h.places item.respondTo
      have haccepted : item.respondTo ∈ s.accepted := List.count_pos_iff.mp (by omega)
      obtain ⟨r, hr⟩ := exists_request (h.entered _ haccepted)
      simp [step, Action.party, schedulerStep, hpc, hbatch, hr] at hnone
  | acquireFor item =>
    have hnone := hstuck .acquireFor rfl
    simp only [step, Action.party, schedulerStep, hpc, Option.map_eq_none_iff] at hnone
    exact Or.inr ⟨Or.inr ⟨item, rfl⟩, hnone⟩

/-- What is not free is a slot. -/
theorem exists_free (hm : 0 < cfg.maxInflight)
    (hrun : exec (step cfg) (init cfg tenants) actions = some s) :
    ∃ free, s.free = some free ∧ free.length + s.live (fun _ => 1) = cfg.maxInflight := by
  obtain ⟨⟨free, hfree, hbalance⟩, -⟩ := balanced_of_exec hm hrun
  have hcount := hbalance fun _ => 1
  exact ⟨free, hfree, by simpa [tally] using hcount⟩

/-- While the scheduler waits for a slot, all of them are with requests that were dispatched. -/
theorem handedOut_of_waiting (hrun : exec (step cfg) (init cfg tenants) actions = some s)
    (hpc : s.pc = .acquire ∨ ∃ item, s.pc = .acquireFor item) (hnone : s.acquireSlot = none) :
    0 < cfg.maxInflight ∧ s.handedOut (fun _ => 1) = cfg.maxInflight := by
  obtain ⟨-, -, hshaped, hunlimited⟩ := invariants_of_exec hrun
  have hm : 0 < cfg.maxInflight := by
    refine Nat.pos_of_ne_zero fun hzero => ?_
    rw [State.acquireSlot, hunlimited hzero] at hnone
    exact absurd hnone (by simp)
  obtain ⟨hslot, hbatch⟩ := hshaped.acquiring hpc
  obtain ⟨free, hfree, hcount⟩ := exists_free hm hrun
  rw [live_eq_handedOut hslot hbatch] at hcount
  rw [State.acquireSlot, hfree] at hnone
  cases free with
  | nil => exact ⟨hm, by simpa using hcount⟩
  | cons p l => exact absurd hnone (by simp)

/-- A parked scheduler has seen all that is queued, once everybody has called `notify_one`. -/
theorem own_queue (hrun : exec (step cfg) (init cfg tenants) actions = some s)
    (hstuck : Rests (step cfg) (fun a => a.own) s) {slot : Option BackendSlot}
    (hpc : s.pc = .next slot (.parked false)) : s.queue.contents = [] := by
  obtain ⟨-, hawake, -, -⟩ := invariants_of_exec hrun
  rcases (hawake.parked _ hpc).2 with hempty | ⟨i, hi⟩
  · exact hempty
  · obtain ⟨r, hr⟩ := exists_request hi
    rw [hr] at hi
    have hnotifying : r.pc = .notifying := of_decide_eq_true hi
    rcases own_handler hrun hstuck hr with hdone | ⟨hwaiting, -⟩ | ⟨slot, hbody⟩
    · exact absurd (hnotifying.symm.trans hdone) (by simp)
    · exact absurd (hnotifying.symm.trans hwaiting) (by simp)
    · rw [hnotifying] at hbody
      exact absurd hbody (by simp)

/-- Where nothing due can be done, the gateway can do nothing. -/
theorem own_of_due (hstuck : Rests (step cfg) (fun a => a.due) s) :
    Rests (step cfg) (fun a => a.own) s := by
  intro a ha
  cases a with
  | again =>
    -- the window would end as well
    have hnone := hstuck (.expire false) rfl
    cases hpc : s.pc <;> simp_all [step, Action.party, schedulerStep]
  | arrive | chunk | bodyOk | bodyErr | closeBody | disconnect | backendOk | backendErr | expire =>
    exact absurd ha (by simp [Action.own])
  | _ => exact hstuck _ rfl

/-- A task always has something to do until it is finished. -/
theorem stuck_task (hrun : exec (step cfg) (init cfg tenants) actions = some s)
    (hstuck : Rests (step cfg) (fun a => a.due) s) : ∀ t ∈ s.tasks, t.pc = .finished := by
  intro t ht
  rcases own_task hrun (own_of_due hstuck) ht with hfinished | ⟨slot, hpc⟩
  · exact hfinished
  · obtain ⟨k, hk⟩ := List.getElem?_of_mem ht
    have hnone := hstuck (.backendOk k) rfl
    simp [step, Action.party, hk, taskStep, hpc] at hnone

/-- A handler has something to do until it is done, or waits for a reply that has not come. -/
theorem stuck_handler (hrun : exec (step cfg) (init cfg tenants) actions = some s)
    (hstuck : Rests (step cfg) (fun a => a.due) s) {i : ℕ} {r : Request}
    (hr : s.requests[i]? = some r) : r.pc = .done ∨ r.pc = .waiting ∧ r.chan = .empty := by
  rcases own_handler hrun (own_of_due hstuck) hr with hdone | hwaiting | ⟨slot, hpc | hpc⟩
  · exact Or.inl hdone
  · exact Or.inr hwaiting
  · have hnone := hstuck (.bodyOk i 0) rfl
    simp [step, Action.party, hr, handlerStep, hpc] at hnone
  · have hnone := hstuck (.closeBody i) rfl
    simp [step, Action.party, hr, handlerStep, hpc] at hnone

/-- Nobody but the scheduler has a slot. -/
theorem stuck_handedOut (hrun : exec (step cfg) (init cfg tenants) actions = some s)
    (hstuck : Rests (step cfg) (fun a => a.due) s) : s.handedOut (fun _ => 1) = 0 := by
  by_contra hne
  rcases exists_owner hne with ⟨k, t, slot, ht, hslot⟩ | ⟨i, r, slot, hr, hslot⟩
  · rw [stuck_task hrun hstuck t (List.mem_of_getElem? ht)] at hslot
    exact absurd hslot (by simp [TaskPc.slot])
  · rcases hslot with hslot | hslot
    · have hfull := Chan.of_slot hslot
      obtain ⟨hpc, -⟩ := ((served_of_exec hrun).coherent i r hr).of_full hfull
      rcases stuck_handler hrun hstuck hr with hdone | ⟨-, hempty⟩
      · rw [hdone] at hpc
        exact absurd hpc (by simp)
      · rw [hempty] at hfull
        exact absurd hfull (by simp)
    · rcases stuck_handler hrun hstuck hr with hdone | ⟨hwaiting, -⟩
      · rw [hdone] at hslot
        exact absurd hslot (by simp [HandlerPc.slot])
      · rw [hwaiting] at hslot
        exact absurd hslot (by simp [HandlerPc.slot])

/-- The scheduler has something to do until it waits for the first request of a batch. -/
theorem stuck_scheduler (hrun : exec (step cfg) (init cfg tenants) actions = some s)
    (hstuck : Rests (step cfg) (fun a => a.due) s) :
    ∃ slot, s.pc = .next (some slot) (.parked false) := by
  rcases own_scheduler hrun (own_of_due hstuck) with ⟨slot, hpc⟩ | ⟨hpc, hnone⟩
  · cases slot with
    | none =>
      have hnone := hstuck (.expire false) rfl
      simp [step, Action.party, schedulerStep, hpc] at hnone
    | some slot => exact ⟨slot, hpc⟩
  · obtain ⟨hm, hcount⟩ := handedOut_of_waiting hrun hpc hnone
    rw [stuck_handedOut hrun hstuck] at hcount
    omega

end Stuck

/-! ## Rest -/

omit [Add R] [Sub R] [Mul R] [Min R] [LT R] [DecidableLT R] [NatCast R] [RatCast R] in
/-- With nothing queued, nothing in the batch and every task finished, no request is in between. -/
theorem in_between_eq_zero {s : State R} (hcontents : s.queue.contents = []) (hbatch : s.batch = [])
    (hitems : s.pc.items = []) (htasks : ∀ t ∈ s.tasks, t.pc = .finished) (i : ℕ) :
    s.queued i + s.batched i + s.dispatched i = 0 := by
  have hdispatched : s.dispatched i = 0 := by
    unfold State.dispatched
    rw [tally_eq_zero]
    intro t ht
    unfold Task.busy
    rw [htasks t ht]
  unfold State.queued State.batched
  rw [hcontents, hbatch, hitems, hdispatched]
  rfl

/-- Where no due action can be taken, everything is done. -/
theorem stuck_atRest {cfg : Config} {tenants : List (Tenant R)} {actions : List Action}
    {s : State R} (hrun : exec (step cfg) (init cfg tenants) actions = some s)
    (hstuck : Rests (step cfg) (fun a => a.due) s) : AtRest s := by
  obtain ⟨hserved, hawake, hshaped, -⟩ := invariants_of_exec hrun
  obtain ⟨slot, hpc⟩ := stuck_scheduler hrun hstuck
  have htasks := stuck_task hrun hstuck
  have hbatch : s.batch = [] := by
    unfold Shaped at hshaped
    rw [hpc] at hshaped
    exact hshaped
  have hcontents : s.queue.contents = [] := own_queue hrun (own_of_due hstuck) hpc
  refine
    { handlers := fun r hr => ?_
      tasks := htasks
      queue := by rw [hserved.wf.len_eq, hcontents, List.length_nil]
      batch := hbatch
      scheduler := ⟨slot, hpc⟩
      permit := (hawake.parked _ hpc).1 }
  obtain ⟨i, hi⟩ := List.getElem?_of_mem hr
  rcases stuck_handler hrun hstuck hi with hdone | ⟨hwaiting, hempty⟩
  · exact hdone
  · -- the sender of the reply would have to be somewhere
    have hone := (hserved.on_the_way hi (by rw [Request.awaits, hwaiting]) hempty).2.2
    have hzero := in_between_eq_zero hcontents hbatch (by rw [hpc]; rfl) htasks i
    omega

/-- No deadlock, and no waiting in vain: with a limiter that `Semaphore::new` accepts, in a
reachable state none of the parties can do what it would do next exactly if every handler and every
task is done, the queue and the batch are empty, and the scheduler waits for the next request with a
slot in its hand. -/
theorem rests_iff (cfg : Config) (tenants : List (Tenant R)) (s₀ : State R)
    (hspawn : spawn cfg tenants = some s₀) (actions : List Action) (s : State R)
    (hrun : exec (step cfg) s₀ actions = some s) :
    (∀ a : Action, a.due → step cfg s a = none) ↔ AtRest s := by
  rw [eq_init_of_spawn hspawn] at hrun
  constructor
  · exact stuck_atRest hrun
  · intro hrest a ha
    cases hs : step cfg s a with
    | none => rfl
    | some s' =>
      -- there is no work left that the step could do
      have hspends := spends_step (placed_of_exec hrun) (step_cases hs)
      rw [cost_of_due ha, work_eq_zero_iff.mpr hrest] at hspends
      omega

/-- The first request has been answered, and the scheduler waits for the second. -/
theorem rests_iff_served :
    ∃ s : State ℚ, exec (step ⟨2, 0, 1, true, 16⟩)
        (init ⟨2, 0, 1, true, 16⟩ [.fromConfig ⟨"acme", "key", .paid, 600, 5, 4⟩ 0])
        [.acquire, .pop, .notified, .arrive 0 ⟨none, false⟩, .admission 0 0, .push 0, .notify 0,
          .wake, .pop, .dispatchNext, .dispatchNext, .send 0 8, .backendOk 0, .deliver 0,
          .receive 0, .bodyOk 0 8, .releaseBody 0, .settle 0 1, .acquire, .pop, .notified]
        = some s ∧
      ∀ a : Action, a.due → step ⟨2, 0, 1, true, 16⟩ s a = none := by
  have hrun : (exec (step ⟨2, 0, 1, true, 16⟩)
      (init ⟨2, 0, 1, true, 16⟩ [.fromConfig ⟨"acme", "key", .paid, 600, 5, 4⟩ 0])
      [.acquire, .pop, .notified, .arrive 0 ⟨none, false⟩, .admission 0 0, .push 0, .notify 0,
        .wake, .pop, .dispatchNext, .dispatchNext, .send 0 8, .backendOk 0, .deliver 0,
        .receive 0, .bodyOk 0 8, .releaseBody 0, .settle 0 1, .acquire, .pop, .notified]).map
          (fun s : State ℚ => s.work) = some 0 := by
    decide +kernel
  obtain ⟨s, hs, hwork⟩ := Option.map_eq_some_iff.mp hrun
  exact ⟨s, hs, (rests_iff _ _ _ rfl _ s hs).mpr (work_eq_zero_iff.mp hwork)⟩

/-- Once accepted, always accepted. -/
theorem accepted_mono {cfg : Config} {s u : State R} {later : List Action} {i : ℕ}
    (h : exec (step cfg) s later = some u) (hi : i ∈ s.accepted) : i ∈ u.accepted := by
  have hstep : ∀ (s : State R) a s', i ∈ s.accepted → step cfg s a = some s' → i ∈ s'.accepted := by
    intro s a s' hi hs
    rcases (events_cases (step_cases hs)).1 with he | ⟨j, r, -, -, -, -, he⟩
    · exact he ▸ hi
    · exact he ▸ List.mem_append_left _ hi
  exact exec_invariant hstep hi h

omit [Add R] [Sub R] [Mul R] [Min R] [LT R] [DecidableLT R] [NatCast R] [RatCast R] in
/-- At rest a request that has been accepted is answered, or it is skipped. -/
theorem AtRest.finished {s : State R} (h : AtRest s) (hplaced : Placed s) {i : ℕ}
    (hi : i ∈ s.accepted) : s.answered.count i = 1 ∧ s.skipped.count i = 0 ∨
      s.answered.count i = 0 ∧ s.skipped.count i = 1 ∧ s.hungUp i := by
  obtain ⟨slot, hpc⟩ := h.scheduler
  have hcontents : s.queue.contents = [] := by
    rw [← List.length_eq_zero_iff, ← hplaced.wf.len_eq, h.queue]
  have hzero := in_between_eq_zero hcontents h.batch (by rw [hpc]; rfl) h.tasks i
  have hplaces := hplaced.places i
  have honce := (hplaced.once i).trans (Bool.toNat_le _)
  have hpos := List.count_pos_iff.mpr hi
  rcases Nat.eq_zero_or_pos (s.skipped.count i) with hskipped | hskipped
  · exact Or.inl ⟨by omega, hskipped⟩
  · exact Or.inr ⟨by omega, by omega, hplaced.skipped i (List.count_pos_iff.mp hskipped)⟩

/-- At rest the scheduler has the only slot. -/
theorem AtRest.live {cfg : Config} {tenants : List (Tenant R)} {actions : List Action}
    {s : State R} (h : AtRest s) (hrun : exec (step cfg) (init cfg tenants) actions = some s)
    (hstuck : Rests (step cfg) (fun a => a.due) s) : s.live (fun _ => 1) = 1 := by
  obtain ⟨slot, hpc⟩ := h.scheduler
  unfold State.live State.scheduled
  rw [stuck_handedOut hrun hstuck, hpc, h.batch]
  rfl

/-- Every request that has been accepted is finished, whatever has happened before: with a limiter
that `Semaphore::new` accepts, from every reachable state the parties come to rest, within the work
that is left, without any client hanging up or the backend failing. Then every accepted request has
been answered once, or skipped once because its client was gone; every lease is dropped; every
permit is free but the one for the next request, which the gauge shows. -/
theorem drains_to_rest (cfg : Config) (tenants : List (Tenant R)) (s₀ : State R)
    (hspawn : spawn cfg tenants = some s₀) (actions : List Action) (s : State R)
    (hrun : exec (step cfg) s₀ actions = some s) :
    ∃ later u, (∀ a ∈ later, a.due) ∧ exec (step cfg) s later = some u ∧ later.length ≤ s.work ∧
      AtRest u ∧
      (∀ i ∈ s.accepted, u.answered.count i = 1 ∧ u.skipped.count i = 0 ∨
        u.answered.count i = 0 ∧ u.skipped.count i = 1 ∧ u.hungUp i) ∧
      (∀ r ∈ u.requests, r.lease.isHeld = false) ∧ u.backendInflight = 1 ∧
      ∀ free, u.free = some free → free.length + 1 = cfg.maxInflight := by
  rw [eq_init_of_spawn hspawn] at hrun
  have hinv : ∀ (s : State R) a s', Placed s → step cfg s a = some s' → Placed s' :=
    fun _ _ _ h hs => h.step (step_cases hs)
  have hplaced := placed_of_exec hrun
  obtain ⟨later, u, hlater, hu, hstuck⟩ :=
    exists_rest (p := fun a => a.due) hinv (spends cfg) (fun _ => cost_of_due) hplaced
  have hrun' := (exec_append _).mpr ⟨s, hrun, hu⟩
  have hrest := stuck_atRest hrun' hstuck
  have hlive := hrest.live hrun' hstuck
  have hserved := served_of_exec hrun'
  refine ⟨later, u, hlater, hu, ?_, hrest, fun i hi => ?_, fun r hr => ?_, ?_, fun free hfree => ?_⟩
  · have hlen :=
      length_le_potential hinv (spends cfg) hplaced (fun a ha => cost_of_due (hlater a ha)) hu
    omega
  · exact hrest.finished hserved.toPlaced (accepted_mono hu hi)
  · obtain ⟨i, hi⟩ := List.getElem?_of_mem hr
    have hcoherent := hserved.coherent i r hi
    rw [Request.Coherent, hrest.handlers r hr] at hcoherent
    exact hcoherent.1
  · rw [(gauge_of_exec hrun').1, hlive]
    rfl
  · rcases Nat.eq_zero_or_pos cfg.maxInflight with hm | hm
    · rw [(invariants_of_exec hrun').2.2.2 hm] at hfree
      exact absurd hfree (by simp)
    · obtain ⟨free', hfree', hcount⟩ := exists_free hm hrun'
      rw [hfree', Option.some.injEq] at hfree
      rw [← hfree]
      omega

/-- One slot and three requests: one at the backend, one in the batch, and one whose client hangs
up in the queue. -/
theorem drains_to_rest_busy :
    ∃ s : State ℚ, exec (step ⟨2, 5, 1, true, 16⟩)
        (init ⟨2, 5, 1, true, 16⟩ [.fromConfig ⟨"acme", "key", .paid, 600, 5, 4⟩ 0])
        [.arrive 0 ⟨none, false⟩, .admission 0 0, .push 0, .notify 0, .acquire, .pop,
          .arrive 0 ⟨some 8, true⟩, .admission 1 0, .push 1, .notify 1, .again, .pop,
          .expire false, .dispatchNext, .dispatchNext, .send 0 8, .arrive 0 ⟨none, true⟩,
          .admission 2 0, .push 2, .notify 2, .disconnect 2] = some s ∧
      s.accepted = [0, 1, 2] ∧
      ∃ later u, (∀ a ∈ later, a.due) ∧ exec (step ⟨2, 5, 1, true, 16⟩) s later = some u ∧
        AtRest u ∧ u.backendInflight = 1 ∧ (u.answered.count 2 = 1 ∨ u.skipped.count 2 = 1) := by
  have hrun : (exec (step ⟨2, 5, 1, true, 16⟩)
      (init ⟨2, 5, 1, true, 16⟩ [.fromConfig ⟨"acme", "key", .paid, 600, 5, 4⟩ 0])
      [.arrive 0 ⟨none, false⟩, .admission 0 0, .push 0, .notify 0, .acquire, .pop,
        .arrive 0 ⟨some 8, true⟩, .admission 1 0, .push 1, .notify 1, .again, .pop,
        .expire false, .dispatchNext, .dispatchNext, .send 0 8, .arrive 0 ⟨none, true⟩,
        .admission 2 0, .push 2, .notify 2, .disconnect 2]).map
          (fun s : State ℚ => s.accepted) = some [0, 1, 2] := by
    decide +kernel
  obtain ⟨s, hs, haccepted⟩ := Option.map_eq_some_iff.mp hrun
  obtain ⟨later, u, hlater, hu, -, hrest, hfinished, -, hgauge, -⟩ :=
    drains_to_rest _ _ _ rfl _ s hs
  refine ⟨s, hs, haccepted, later, u, hlater, hu, hrest, hgauge, ?_⟩
  exact (hfinished 2 (by rw [haccepted]; decide)).imp And.left fun h => h.2.1

end Gateway
end OxideGate
