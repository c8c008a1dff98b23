import OxideGate.GatewaySlots

/-!
# How many requests wait

`submit` refuses a request when the queue is full, and the queue is all that it looks at. What
the scheduler has popped in the batching window without a slot waits as well. `waiting_cases`
says how a step changes the number of all of them. It stays within `queue_depth` as long as nobody
submits while popped requests wait for their slots (`waited_of_along`). Without a window there are
no such requests, and with one there is a run that leaves the bound behind for every configuration with
a queue and a scheduler (`exists_overrun`): `waiting_bounded` says which configurations keep it.
-/

namespace OxideGate
namespace Gateway

open Runs Tally

variable {R : Type}

namespace State

variable (s : State R)

/-- The requests that have been popped and have no slot yet. -/
def slotless : ℕ :=
  s.pc.items.length + tally (fun e => if e.2 = none then 1 else 0) s.batch

/-- The accepted requests that have no slot, popped or not. -/
def waiting : ℕ := s.queue.len + s.slotless

/-- The requests that have one: first in a batch, with a task, or with their handler. -/
def withSlot : ℕ := tally (fun e => share (fun _ => 1) e.2) s.batch + s.handedOut fun _ => 1

end State

/-- A step that adds nothing to the queue and leaves the popped requests alone. -/
theorem waiting_frame {s s' : State R} (hqueue : s'.queue.len ≤ s.queue.len)
    (hitems : s'.pc.items = s.pc.items) (hbatch : s'.batch = s.batch) :
    s'.waiting ≤ s.waiting := by
  rw [State.waiting, State.waiting, State.slotless, State.slotless, hitems, hbatch]
  exact Nat.add_le_add_right hqueue _

/-- The first request of the batch goes: skipped, dispatched, or into the hands of the
scheduler. -/
theorem waiting_of_batch {s s' : State R} {item : QueuedRequest} {slot : Option BackendSlot}
    {rest : List (QueuedRequest × Option BackendSlot)} (hqueue : s'.queue = s.queue)
    (hpc : s.pc = .dispatch) (hbatch : s.batch = (item, slot) :: rest) (hbatch' : s'.batch = rest)
    (hitems : s'.pc.items.length ≤ if slot = none then 1 else 0) : s'.waiting ≤ s.waiting := by
  have hnone : s.pc.items.length = 0 := by rw [hpc]; rfl
  unfold State.waiting State.slotless
  rw [hqueue, hbatch', hbatch, tally_cons, hnone]
  dsimp only
  omega

/-- `notify_one` moves no request. -/
theorem notifyOne_queue (s : State R) :
    s.notifyOne.queue = s.queue ∧ s.notifyOne.pc.items = s.pc.items := by
  unfold State.notifyOne
  split
  · rename_i hpc
    rw [hpc]
    exact ⟨rfl, rfl⟩
  · exact ⟨rfl, rfl⟩

variable [Add R] [Sub R] [Mul R] [Min R] [LT R] [DecidableLT R] [NatCast R] [RatCast R]

/-- Only a push adds to the requests that wait. -/
theorem waiting_cases {cfg : Config} {s s' : State R} {a : Action} (hwf : s.queue.WF)
    (hs : Stepped cfg s a s') :
    s'.waiting ≤ s.waiting ∨
    ∃ i, a = .push i ∧ s.queue.len < s.queue.capacity ∧ s'.waiting = s.waiting + 1 := by
  cases hs with
  | pushed i r t queue hr hpc ht hroom hq =>
    refine Or.inr ⟨i, rfl, hroom, ?_⟩
    show queue.len + s.slotless = s.queue.len + s.slotless + 1
    rw [hq.len.1]
    omega
  | notify i r hr hpc =>
    exact Or.inl (waiting_frame (by rw [State.setRequest, (notifyOne_queue s).1])
      (notifyOne_queue s).2 (notifyOne_frame s).2.2.1)
  | popped slot item hpc hq =>
    -- out of the queue, and at most one more without a slot
    left
    have hlen := FairQueue.pop_len hwf
    rw [hq, Option.isSome_some, if_pos rfl] at hlen
    have hitems : (if cfg.window = 0 then SchedPc.dispatch else .collect).items.length = 0 := by
      split <;> rfl
    have hslot : (if slot = none then 1 else 0) ≤ 1 := by split <;> omega
    show s.queue.pop.2.len + ((if cfg.window = 0 then SchedPc.dispatch else .collect).items.length
      + tally _ (s.batch ++ [(item, slot)])) ≤ s.queue.len + (s.pc.items.length + _)
    rw [hitems, hpc, tally_append, tally_cons, tally_nil]
    show _ ≤ _ + (0 + _)
    dsimp only
    omega
  | popEmpty slot hpc hq =>
    have hlen := FairQueue.pop_len hwf
    refine Or.inl (waiting_frame (show s.queue.pop.2.len ≤ s.queue.len by omega) ?_ rfl)
    rw [hpc]
    rfl
  | acquire slot free hpc | consume slot hpc | park slot hpc | wake slot hpc | again hpc
  | deadline forward hpc | expire woken forward hpc | batchDone hpc =>
    refine Or.inl (waiting_frame le_rfl ?_ rfl)
    rw [hpc]
    rfl
  | skip item slot rest r hpc hbatch hr hchan =>
    refine Or.inl (waiting_of_batch (State.dropSlot?_queue _ _) hpc hbatch
      (State.dropSlot?_batch _ _) ?_)
    rw [State.dropSlot?_pc, hpc]
    exact Nat.zero_le _
  | spawn item slot rest r hpc hbatch hr hchan =>
    exact Or.inl (waiting_of_batch rfl hpc hbatch rfl (Nat.zero_le _))
  | await item rest r hpc hbatch hr hchan =>
    exact Or.inl (waiting_of_batch rfl hpc hbatch rfl le_rfl)
  | acquireFor item slot free hpc hslot =>
    exact Or.inl (Nat.add_le_add_left (Nat.add_le_add_right (Nat.zero_le _) _) _)
  | releaseBody | hangUp | settle | backendErr | discard =>
    exact Or.inl (waiting_frame (by simp [State.setRequest, State.setTask, State.settle])
      (by simp [State.setRequest, State.setTask, State.settle])
      (by simp [State.setRequest, State.setTask, State.settle]))
  | _ => exact Or.inl (waiting_frame le_rfl rfl rfl)

/-- The queue changes by a push for a tenant, or by a pop. -/
theorem queue_cases {cfg : Config} {s s' : State R} {a : Action} (hs : Stepped cfg s a s') :
    s'.queue = s.queue ∨ (a = .pop ∧ s'.queue = s.queue.pop.2) ∨
    ∃ i r t, a = .push i ∧ s.requests[i]? = some r ∧ s.tenants[r.tenant]? = some t ∧
      FairQueue.Pushed s.queue (State.queueKey cfg t).1 (State.queueKey cfg t).2
        ⟨r.req, i, t.tier.asStr⟩ s'.queue := by
  cases hs with
  | pushed i r t queue hr hpc ht hroom hq => exact Or.inr (Or.inr ⟨i, r, t, rfl, hr, ht, hq⟩)
  | notify i r hr hpc => exact Or.inl (notifyOne_queue s).1
  | popped slot item hpc hq => exact Or.inr (Or.inl ⟨rfl, rfl⟩)
  | popEmpty slot hpc hq => exact Or.inr (Or.inl ⟨rfl, rfl⟩)
  | releaseBody | hangUp | settle | skip | backendErr | discard =>
    exact Or.inl (by simp [State.setRequest, State.setTask, State.settle])
  | _ => exact Or.inl rfl

/-- The queue keeps its capacity. -/
theorem capacity_step {cfg : Config} {s s' : State R} {a : Action} (hwf : s.queue.WF)
    (hs : Stepped cfg s a s') : s'.queue.capacity = s.queue.capacity := by
  rcases queue_cases hs with he | ⟨-, he⟩ | ⟨i, r, t, -, -, -, hq⟩
  · rw [he]
  · rw [he, FairQueue.pop_capacity hwf]
  · exact hq.len.2

/-! ## The bound -/

/-- What `queue_depth` is to bound: at most so many accepted requests wait, at most `max_inflight`
more have a slot, and a push that finds `queue_depth` requests waiting is refused. -/
def BoundKept (cfg : Config) (s : State R) : Prop :=
  s.waiting ≤ cfg.queueDepth ∧
  s.waiting + s.withSlot ≤ cfg.queueDepth + cfg.maxInflight ∧
  ∀ i s', step cfg s (.push i) = some s' → cfg.queueDepth ≤ s.waiting →
    s'.accepted = s.accepted ∧ s'.refused = s.refused ++ [i]

/-- What can happen after `spawn`: any steps, or, once `run` has panicked on more than `maxPermits`
permits, those of the others. -/
def Possible (cfg : Config) (actions : List Action) : Prop :=
  cfg.maxInflight ≤ maxPermits ∨ ∀ a ∈ actions, a.party ≠ .scheduler

/-- What has happened so far was possible. -/
theorem Possible.before {cfg : Config} {before after : List Action}
    (h : Possible cfg (before ++ after)) : Possible cfg before :=
  h.imp_right fun hothers a ha => hothers a (List.mem_append_left _ ha)

/-- Nobody pushes while a request that has been popped waits for its slot. -/
def Undivided (s : State R) (a : Action) : Prop := ∀ i, a = .push i → s.slotless = 0

/-- What a run keeps in which nobody does. -/
structure Waited (cfg : Config) (s : State R) : Prop where
  handled : Handled s
  balanced : Balanced cfg.maxInflight s
  capacity : s.queue.capacity = cfg.queueDepth
  waiting : s.waiting ≤ cfg.queueDepth

/-- A push that is accepted finds room in the queue, and nothing waits but the queue. -/
theorem Waited.step {cfg : Config} {s s' : State R} {a : Action} (h : Waited cfg s)
    (hundivided : Undivided s a) (hs : Stepped cfg s a s') : Waited cfg s' where
  handled := h.handled.step hs
  balanced := h.balanced.step (slots_cases h.handled hs)
  capacity := (capacity_step h.handled.wf hs).trans h.capacity
  waiting := by
    have hwaiting := h.waiting
    rcases waiting_cases h.handled.wf hs with hle | ⟨i, rfl, hlen, he⟩
    · exact hle.trans hwaiting
    · rw [h.capacity] at hlen
      have := hundivided i rfl
      unfold State.waiting at he ⊢
      omega

/-- The induction over such a run. -/
theorem waited_of_along {cfg : Config} (hm : 0 < cfg.maxInflight) {tenants : List (Tenant R)}
    {actions : List Action} {s : State R}
    (hrun : exec (step cfg) (init cfg tenants) actions = some s)
    (halong : Along (step cfg) Undivided (init cfg tenants) actions) : Waited cfg s :=
  exec_invariant_along (fun _ _ _ h hp hs => h.step hp (step_cases hs))
    ⟨handled_init cfg tenants, balanced_init hm tenants, rfl, Nat.zero_le _⟩ halong hrun

omit [Add R] [Sub R] [Mul R] [Min R] [LT R] [DecidableLT R] [NatCast R] [RatCast R] in
/-- A request with a slot has one of the limiter's. -/
theorem Balanced.withSlot_le {m : ℕ} {s : State R} (h : Balanced m s) : s.withSlot ≤ m := by
  obtain ⟨free, -, hbalance⟩ := h
  have hcount := hbalance fun _ => 1
  have hm : tally (fun _ => 1) (List.range m) = m := by simp [tally]
  rw [hm] at hcount
  unfold State.live State.scheduled at hcount
  unfold State.withSlot
  omega

/-- With nothing popped and without a slot, the queue is full when the bound is reached. -/
theorem Waited.boundKept {cfg : Config} {s : State R} (h : Waited cfg s)
    (hslotless : s.slotless = 0) : BoundKept cfg s := by
  refine ⟨h.waiting, Nat.add_le_add h.waiting h.balanced.withSlot_le, ?_⟩
  intro i s' hstep hfull
  cases step_cases hstep with
  | pushed _ r t queue hr hpc ht hlen hq =>
    rw [h.capacity] at hlen
    unfold State.waiting at hfull
    omega
  | queueFull _ r hr hpc hlen => exact ⟨rfl, rfl⟩

/-! ## Without a window -/

/-- Every request that is popped has its slot, and the scheduler is never in the window. -/
def SlotFirst (s : State R) : Prop :=
  s.slotless = 0 ∧
  match s.pc with
  | .next none _ | .collect => False
  | .acquire | .next (some _) _ | .dispatch | .acquireFor _ => True

omit [Add R] [Sub R] [Mul R] [Min R] [LT R] [DecidableLT R] [NatCast R] [RatCast R] in
/-- It is about the scheduler and the batch only. -/
theorem SlotFirst.frame {s s' : State R} (h : SlotFirst s) (hpc : s'.pc = s.pc)
    (hbatch : s'.batch = s.batch) : SlotFirst s' := by
  unfold SlotFirst State.slotless at h ⊢
  rw [hpc, hbatch]
  exact h

/-- With no window the scheduler pops only with a slot in its hand. -/
theorem SlotFirst.step {cfg : Config} (hwindow : cfg.window = 0) {s s' : State R} {a : Action}
    (h : SlotFirst s) (hs : Stepped cfg s a s') : SlotFirst s' := by
  obtain ⟨hslotless, hpc'⟩ := id h
  unfold State.slotless at hslotless
  cases hs with
  | notify i r hr hpc =>
    show SlotFirst { s.notifyOne with requests := _ }
    unfold State.notifyOne
    split
    · rename_i slot hparked
      rw [hparked] at hslotless hpc'
      cases slot with
      | none => exact absurd hpc' id
      | some slot => exact ⟨hslotless, trivial⟩
    · exact h.frame rfl rfl
  | acquire slot free hpc hslot =>
    rw [hpc] at hslotless
    exact ⟨hslotless, trivial⟩
  | popped slot item hpc hq =>
    rw [hpc] at hslotless hpc'
    cases slot with
    | none => exact absurd hpc' id
    | some slot =>
      rw [if_pos hwindow]
      refine ⟨?_, trivial⟩
      show 0 + tally _ (s.batch ++ [(item, some slot)]) = 0
      rw [tally_append]
      exact hslotless
  | popEmpty slot hpc hq | consume slot hpc hpermit | park slot hpc hpermit | wake slot hpc =>
    rw [hpc] at hslotless hpc'
    cases slot with
    | none => exact absurd hpc' id
    | some slot => exact ⟨hslotless, trivial⟩
  -- the steps of the window
  | again hpc | deadline forward hpc | expire woken forward hpc =>
    rw [hpc] at hpc'
    exact absurd hpc' id
  | batchDone hpc hbatch =>
    rw [hpc] at hslotless
    exact ⟨hslotless, trivial⟩
  | skip item slot rest r hpc hbatch hr hchan =>
    rw [hbatch, tally_cons] at hslotless
    unfold SlotFirst State.slotless
    rw [State.dropSlot?_pc, State.dropSlot?_batch, hpc]
    rw [hpc] at hslotless
    exact ⟨by dsimp only; omega, trivial⟩
  | spawn item slot rest r hpc hbatch hr hchan =>
    rw [hpc, hbatch, tally_cons] at hslotless
    refine ⟨?_, trivial⟩
    show 0 + tally _ rest = 0
    omega
  -- no item of a batch is without a slot
  | await item rest r hpc hbatch hr hchan =>
    rw [hbatch, tally_cons, if_pos rfl] at hslotless
    omega
  | acquireFor item slot free hpc hslot =>
    rw [hpc] at hslotless
    exact absurd hslotless (by show 1 + _ ≠ 0; omega)
  | releaseBody | hangUp | settle | backendErr | discard =>
    exact h.frame (by simp [State.setRequest, State.setTask, State.settle])
      (by simp [State.setRequest, State.setTask, State.settle])
  | _ => exact h.frame rfl rfl

/-- With no window, what follows from `SlotFirst` holds along every run. -/
theorem along_of_slotFirst {cfg : Config} (hwindow : cfg.window = 0) {P : State R → Action → Prop}
    (h : ∀ s a, SlotFirst s → P s a) (tenants : List (Tenant R)) (actions : List Action) :
    Along (step cfg) P (init cfg tenants) actions := by
  have hstep : ∀ (s : State R) a s', SlotFirst s → True → step cfg s a = some s' →
      SlotFirst s' := by
    intro s a s' h _ hs
    exact h.step hwindow (step_cases hs)
  exact Along.of_invariant hstep (fun s a hs _ => h s a hs) ⟨rfl, trivial⟩
    (along_of_forall _ (fun _ _ => trivial) _ _)

/-! ## Which configurations keep the bound -/

/-- Only the scheduler takes requests out of the queue. -/
theorem slotless_eq {cfg : Config} {s s' : State R} {a : Action} (hs : Stepped cfg s a s')
    (ha : a.party ≠ .scheduler) : s'.slotless = s.slotless := by
  cases hs with
  | notify i r hr hpc =>
    show s.notifyOne.pc.items.length + tally _ s.notifyOne.batch = _
    rw [(notifyOne_queue s).2, (notifyOne_frame s).2.2.1]
    rfl
  | releaseBody | hangUp | settle | backendErr | discard =>
    simp [State.slotless, State.setRequest, State.setTask, State.settle]
  | acquire | popped | popEmpty | consume | park | wake | again | deadline | expire | batchDone
  | skip | spawn | await | acquireFor => exact absurd rfl ha
  | _ => rfl

/-- With no window the scheduler takes the slot first, and with no queue there is nothing to pop;
with too many permits there is nobody who would. -/
theorem slotless_eq_zero {cfg : Config}
    (hcfg : cfg.window = 0 ∨ cfg.queueDepth = 0 ∨ maxPermits < cfg.maxInflight)
    {tenants : List (Tenant R)} {actions : List Action} (hpossible : Possible cfg actions)
    {s : State R} (hrun : exec (step cfg) (init cfg tenants) actions = some s) :
    s.slotless = 0 := by
  rcases hcfg with hwindow | hdepth | hpermits
  · have hstep : ∀ (s : State R) a s', SlotFirst s → step cfg s a = some s' → SlotFirst s' :=
      fun _ _ _ h hs => h.step hwindow (step_cases hs)
    exact (exec_invariant hstep ⟨rfl, trivial⟩ hrun).1
  · have hstep : ∀ (s : State R) a s',
        Handled s ∧ s.queue.capacity = 0 ∧ s.waiting = 0 → step cfg s a = some s' →
        Handled s' ∧ s'.queue.capacity = 0 ∧ s'.waiting = 0 := by
      rintro s a s' ⟨hhandled, hcapacity, hwaiting⟩ hs
      have hs := step_cases hs
      refine ⟨hhandled.step hs, (capacity_step hhandled.wf hs).trans hcapacity, ?_⟩
      rcases waiting_cases hhandled.wf hs with hle | ⟨i, -, hlen, -⟩
      · omega
      · omega
    have hnone := exec_invariant hstep ⟨handled_init cfg tenants, hdepth, rfl⟩ hrun
    exact Nat.eq_zero_of_add_eq_zero_left hnone.2.2
  · have hothers := hpossible.resolve_left (Nat.not_le.mpr hpermits)
    have halong : Along (step cfg) (fun _ a => a.party ≠ .scheduler) (init cfg tenants) actions := by
      refine (along_iff _).mpr fun before a after t he _ => hothers a ?_
      rw [he]
      exact List.mem_append_right _ List.mem_cons_self
    have hstep : ∀ (s : State R) a s', s.slotless = 0 → a.party ≠ .scheduler →
        step cfg s a = some s' → s'.slotless = 0 :=
      fun _ _ _ hzero ha hs => (slotless_eq (step_cases hs) ha).trans hzero
    exact exec_invariant_along hstep rfl halong hrun

/-- A tenant that gives a lease. -/
theorem step_admission {cfg : Config} {s : State R} {i : ℕ} {r : Request} {t : Tenant R} {l : Lease}
    {reserve : UInt32} (hr : s.requests[i]? = some r) (hpc : r.pc = .admitting)
    (ht : s.tenants[r.tenant]? = some t) (hreserve : r.req.maxTokens = some reserve)
    {now : Instant} (hl : (t.admitLease now reserve.toUInt64).1 = .ok l) :
    step cfg s (.admission i now) = some { s with
      tenants := s.tenants.set r.tenant (t.admitLease now reserve.toUInt64).2
      requests := s.requests.set i { r with
        req := { r.req with maxTokens := some reserve }, lease := .held l, pc := .pushing } } := by
  show s.requests[i]?.bind _ = _
  rw [hr, Option.bind_some]
  simp only [handlerStep, hpc, ht, State.admission, hreserve, Option.getD_some, hl]
  rfl

/-- A push that finds room. -/
theorem step_push {cfg : Config} {s : State R} {i : ℕ} {r : Request} {t : Tenant R}
    (hr : s.requests[i]? = some r) (hpc : r.pc = .pushing) (ht : s.tenants[r.tenant]? = some t)
    (hroom : s.queue.len < s.queue.capacity) :
    ∃ queue, FairQueue.Pushed s.queue (State.queueKey cfg t).1 (State.queueKey cfg t).2
        ⟨r.req, i, t.tier.asStr⟩ queue ∧
      step cfg s (.push i) = some { s with
        queue := queue
        requests := s.requests.set i { r with pc := .notifying }
        accepted := s.accepted ++ [i] } := by
  rcases push_eq s cfg i r t with ⟨hfull, -⟩ | ⟨-, queue, hq, he⟩
  · exact absurd hfull (Nat.not_le.mpr hroom)
  · refine ⟨queue, hq, ?_⟩
    show s.requests[i]?.bind _ = _
    rw [hr, Option.bind_some, ← he]
    simp only [handlerStep, hpc, ht]

/-- The tenant of a request that is to fill the queue. A file can have it under any number of keys. -/
def filler : Tenant ℚ := .fromConfig ⟨"acme", "key", .paid, 600, 5, 4⟩ 0

/-- `k` requests have come, each from a tenant of its own, and the other tenants up to `n` have
given no lease yet. -/
structure Fed (n k : ℕ) (s : State ℚ) : Prop where
  requests : s.requests.length = k
  tenants : ∀ j, k ≤ j → j < n → s.tenants[j]? = some filler
  wf : s.queue.WF

/-- One more request is queued. -/
theorem Fed.feed (cfg : Config) {n k : ℕ} {s : State ℚ} (h : Fed n k s) (hk : k < n)
    (hroom : s.queue.len < s.queue.capacity) :
    ∃ s', exec (step cfg) s [.arrive k ⟨some 0, false⟩, .admission k 0, .push k] = some s' ∧
      Fed n (k + 1) s' ∧ s'.queue.len = s.queue.len + 1 ∧ s'.queue.capacity = s.queue.capacity ∧
      s'.pc = s.pc ∧ s'.batch = s.batch := by
  have htenant := h.tenants k le_rfl hk
  have hlt : k < s.tenants.length := (List.getElem?_eq_some_iff.mp htenant).1
  have hlease : (filler.admitLease 0 (0 : UInt32).toUInt64).1 = .ok ⟨0, 0⟩ := by decide +kernel
  have hlast : (s.requests ++ [Request.arrived k ⟨some 0, false⟩])[k]?
      = some (.arrived k ⟨some 0, false⟩) := by
    rw [← h.requests, List.getElem?_concat_length]
  have hlong := (List.getElem?_eq_some_iff.mp hlast).1
  let r : Request := ⟨k, ⟨some 0, false⟩, .pushing, .held ⟨0, 0⟩, .empty, .fresh, 0, []⟩
  let s₁ : State ℚ := { s with
    requests := s.requests ++ [.arrived k ⟨some 0, false⟩], inflight := s.inflight + 1 }
  let s₂ : State ℚ := { s₁ with
    tenants := s.tenants.set k (filler.admitLease 0 (0 : UInt32).toUInt64).2
    requests := s₁.requests.set k r }
  have harrive : step cfg s (.arrive k ⟨some 0, false⟩) = some s₁ := if_pos hlt
  have hadmission : step cfg s₁ (.admission k 0) = some s₂ :=
    step_admission (s := s₁) hlast rfl htenant rfl hlease
  have hr : s₂.requests[k]? = some r := List.getElem?_set_self hlong
  have ht : s₂.tenants[k]? = some _ := List.getElem?_set_self hlt
  obtain ⟨queue, hq, hpush⟩ := step_push hr rfl ht hroom
  refine ⟨_, (exec_cons _).mpr ⟨s₁, harrive, (exec_cons _).mpr ⟨s₂, hadmission,
    (exec_cons _).mpr ⟨_, hpush, rfl⟩⟩⟩, ⟨?_, fun j hj hjn => ?_, ?_⟩, hq.len.1, hq.len.2, rfl, rfl⟩
  · show (s₂.requests.set k _).length = k + 1
    rw [List.length_set, List.length_set, List.length_append, h.requests]
    rfl
  · show (s.tenants.set k _)[j]? = some filler
    rw [List.getElem?_set_ne (by omega)]
    exact h.tenants j (by omega) hjn
  · exact hq.wf h.wf (queueKey_weight_pos cfg _) hroom

/-- As many requests are queued as there is room for. -/
theorem Fed.fill (cfg : Config) {n k : ℕ} {s : State ℚ} (h : Fed n k s) (m : ℕ) (hk : k + m ≤ n)
    (hroom : s.queue.len + m ≤ s.queue.capacity) :
    ∃ actions s', exec (step cfg) s actions = some s' ∧ Fed n (k + m) s' ∧
      s'.queue.len = s.queue.len + m ∧ s'.queue.capacity = s.queue.capacity ∧ s'.pc = s.pc ∧
      s'.batch = s.batch := by
  induction m with
  | zero => exact ⟨[], s, rfl, h, rfl, rfl, rfl, rfl⟩
  | succ m ih =>
    obtain ⟨actions, t, ht, hfed, hlen, hcapacity, hpc, hbatch⟩ := ih (by omega) (by omega)
    obtain ⟨u, hu, hfed', hlen', hcapacity', hpc', hbatch'⟩ :=
      hfed.feed cfg (by omega) (by omega)
    exact ⟨_, u, (exec_append _).mpr ⟨t, ht, hu⟩, hfed', by omega, by omega, hpc'.trans hpc,
      hbatch'.trans hbatch⟩

/-- The scheduler takes a request out of the queue and opens, or keeps open, the window. -/
theorem Fed.popped (cfg : Config) {n k : ℕ} {s : State ℚ} (h : Fed n k s)
    {slot : Option BackendSlot} (hpc : s.pc = .next slot .poll) (hwindow : cfg.window ≠ 0)
    (hlen : 0 < s.queue.len) :
    ∃ s' item, exec (step cfg) s [.pop, .again] = some s' ∧ Fed n k s' ∧
      s'.queue.len + 1 = s.queue.len ∧ s'.queue.capacity = s.queue.capacity ∧
      s'.pc = .next none .poll ∧ s'.batch = s.batch ++ [(item, slot)] := by
  have hpop := FairQueue.pop_len h.wf
  cases hitem : s.queue.pop.1 with
  | none =>
    have hperm := FairQueue.pop_perm h.wf
    rw [hitem] at hperm
    rw [h.wf.len_eq, hperm.1] at hlen
    exact absurd hlen (Nat.lt_irrefl 0)
  | some item =>
    have hstep : step cfg s .pop = some { s with
        queue := s.queue.pop.2, batch := s.batch ++ [(item, slot)], pc := .collect } := by
      show schedulerStep cfg s .pop = _
      simp only [schedulerStep, hpc, State.pop]
      split
      · rename_i item' queue hq
        rw [hq, Option.some.injEq] at hitem
        rw [hitem, if_neg hwindow, hq]
      · rename_i queue hq
        rw [hq] at hitem
        exact absurd hitem (by simp)
    rw [hitem] at hpop
    exact ⟨_, item, (exec_cons _).mpr ⟨_, hstep, rfl⟩,
      ⟨h.requests, h.tenants, FairQueue.pop_wf h.wf⟩, hpop.symm, FairQueue.pop_capacity h.wf, rfl,
      rfl⟩

/-- With a window one more request waits than the queue has room for: the scheduler has its slot and
its first request, takes a second one without a slot, and then the queue fills up. -/
theorem exists_overrun {cfg : Config} (hm : 0 < cfg.maxInflight) (hwindow : cfg.window ≠ 0)
    (hdepth : 0 < cfg.queueDepth) :
    ∃ (tenants : List (Tenant ℚ)) (actions : List Action) (s : State ℚ),
      exec (step cfg) (init cfg tenants) actions = some s ∧ s.waiting = cfg.queueDepth + 1 := by
  let n := cfg.queueDepth + 2
  obtain ⟨p, l, hfree⟩ : ∃ p l, List.range cfg.maxInflight = p :: l :=
    List.exists_cons_of_ne_nil (by simpa using hm.ne')
  let s₀ : State ℚ := { init cfg (List.replicate n filler) with
    free := some l, backendInflight := 1, pc := .next (some ⟨some p⟩) .poll }
  have hacquire : step cfg (init cfg (List.replicate n filler)) .acquire = some s₀ := by
    simp [step, Action.party, schedulerStep, State.acquireSlot, init, hm, hfree, s₀]
  have hfed : Fed n 0 s₀ :=
    ⟨rfl, fun j _ hj => List.getElem?_replicate_of_lt hj, FairQueue.wf_new _⟩
  -- one request with the slot, one without, and a full queue
  obtain ⟨as₁, s₁, h₁, hfed₁, hlen₁, hcapacity₁, hpc₁, hbatch₁⟩ :=
    hfed.fill cfg 1 (by omega) (show 0 + 1 ≤ cfg.queueDepth by omega)
  obtain ⟨s₂, item₂, h₂, hfed₂, hlen₂, hcapacity₂, hpc₂, hbatch₂⟩ :=
    hfed₁.popped cfg hpc₁ hwindow (by omega)
  have hempty : s₀.queue.len = 0 := rfl
  have hcapacity : s₀.queue.capacity = cfg.queueDepth := rfl
  obtain ⟨as₃, s₃, h₃, hfed₃, hlen₃, hcapacity₃, hpc₃, hbatch₃⟩ :=
    hfed₂.fill cfg 1 (by omega) (by omega)
  obtain ⟨s₄, item₄, h₄, hfed₄, hlen₄, hcapacity₄, hpc₄, hbatch₄⟩ :=
    hfed₃.popped cfg (hpc₃.trans hpc₂) hwindow (by omega)
  obtain ⟨as₅, s₅, h₅, -, hlen₅, -, hpc₅, hbatch₅⟩ :=
    hfed₄.fill cfg cfg.queueDepth (by omega) (by omega)
  refine ⟨List.replicate n filler, .acquire :: (as₁ ++ ([.pop, .again] ++ (as₃ ++ ([.pop, .again]
    ++ as₅)))), s₅, (exec_cons _).mpr ⟨s₀, hacquire, (exec_append _).mpr ⟨s₁, h₁,
    (exec_append _).mpr ⟨s₂, h₂, (exec_append _).mpr ⟨s₃, h₃, (exec_append _).mpr ⟨s₄, h₄, h₅⟩⟩⟩⟩⟩,
    ?_⟩
  have hslotless : s₅.slotless = 1 := by
    rw [State.slotless, hpc₅, hpc₄, hbatch₅, hbatch₄, hbatch₃, hbatch₂, hbatch₁]
    rfl
  rw [State.waiting, hslotless]
  omega

/-- The bound under admission control: every run of a gateway keeps it exactly if there is no
batching window, or no queue, or no scheduler. -/
theorem waiting_bounded (cfg : Config) (hm : 0 < cfg.maxInflight) :
    (∀ (tenants : List (Tenant ℚ)) (actions : List Action) (s : State ℚ), Possible cfg actions →
      exec (step cfg) (init cfg tenants) actions = some s → BoundKept cfg s) ↔
      cfg.window = 0 ∨ cfg.queueDepth = 0 ∨ maxPermits < cfg.maxInflight := by
  constructor
  · intro h
    by_contra hcfg
    rw [not_or, not_or, Nat.not_lt] at hcfg
    obtain ⟨hwindow, hdepth, hpermits⟩ := hcfg
    obtain ⟨tenants, actions, s, hrun, hwaiting⟩ :=
      exists_overrun hm hwindow (Nat.pos_of_ne_zero hdepth)
    have hbound := (h tenants actions s (Or.inl hpermits) hrun).1
    omega
  · intro hcfg tenants actions s hpossible hrun
    have halong : Along (step cfg) Undivided (init cfg tenants) actions := by
      refine (along_iff _).mpr fun before a after t he hbefore _ _ => ?_
      exact slotless_eq_zero hcfg (he ▸ hpossible).before hbefore
    exact (waited_of_along hm hrun halong).boundKept (slotless_eq_zero hcfg hpossible hrun)

/-- With a queue of depth 1 and no window, the request that comes while another one waits is
refused; with a window, some run of the gateway lets too many wait. -/
theorem waiting_bounded_window :
    (∃ s s' : State ℚ, exec (step ⟨1, 0, 1, true, 16⟩)
        (init ⟨1, 0, 1, true, 16⟩ [.fromConfig ⟨"acme", "key", .paid, 600, 5, 4⟩ 0])
        [.arrive 0 ⟨none, false⟩, .arrive 0 ⟨some 8, true⟩, .arrive 0 ⟨some 8, true⟩,
          .admission 0 0, .push 0, .admission 1 0, .admission 2 0, .acquire, .pop,
          .push 1] = some s ∧
      step ⟨1, 0, 1, true, 16⟩ s (.push 2) = some s' ∧ s'.accepted = [0, 1] ∧ s'.refused = [2]) ∧
    ¬ ∀ (tenants : List (Tenant ℚ)) (actions : List Action) (s : State ℚ),
      Possible ⟨1, 5, 1, true, 16⟩ actions →
      exec (step ⟨1, 5, 1, true, 16⟩) (init ⟨1, 5, 1, true, 16⟩ tenants) actions = some s →
        BoundKept ⟨1, 5, 1, true, 16⟩ s := by
  have hrun : (exec (step ⟨1, 0, 1, true, 16⟩)
      (init ⟨1, 0, 1, true, 16⟩ [.fromConfig ⟨"acme", "key", .paid, 600, 5, 4⟩ 0])
      [.arrive 0 ⟨none, false⟩, .arrive 0 ⟨some 8, true⟩, .arrive 0 ⟨some 8, true⟩,
        .admission 0 0, .push 0, .admission 1 0, .admission 2 0, .acquire, .pop, .push 1]).map
        (fun s : State ℚ => (s.waiting, s.accepted, s.refused,
          (step ⟨1, 0, 1, true, 16⟩ s (.push 2)).isSome)) = some (1, [0, 1], [], true) := by
    decide +kernel
  obtain ⟨s, hs, hl⟩ := Option.map_eq_some_iff.mp hrun
  simp only [Prod.mk.injEq] at hl
  obtain ⟨hwaiting, haccepted, hrefused, hsome⟩ := hl
  obtain ⟨s', hs'⟩ := Option.isSome_iff_exists.mp hsome
  obtain ⟨-, -, hfull⟩ := (waiting_bounded _ (by decide)).mpr (Or.inl rfl) _ _ s
    (Or.inl (by decide)) hs
  obtain ⟨haccepted', hrefused'⟩ := hfull 2 s' hs' hwaiting.ge
  refine ⟨⟨s, s', hs, hs', haccepted'.trans haccepted, ?_⟩, fun h => ?_⟩
  · rw [hrefused', hrefused]
    rfl
  · exact absurd ((waiting_bounded _ (by decide)).mp h) (by decide)

/-- With a queue of depth 1, a window lets two requests wait without a slot, and a third push is
accepted although one request waits already. -/
theorem waiting_overrun :
    ∃ s s' : State ℚ, exec (step ⟨1, 5, 1, true, 16⟩)
        (init ⟨1, 5, 1, true, 16⟩ [.fromConfig ⟨"acme", "key", .paid, 600, 5, 4⟩ 0])
        [.arrive 0 ⟨none, false⟩, .arrive 0 ⟨some 8, true⟩, .arrive 0 ⟨some 8, true⟩,
          .admission 0 0, .push 0, .admission 1 0, .admission 2 0, .acquire, .pop, .push 1, .again,
          .pop] = some s ∧
      step ⟨1, 5, 1, true, 16⟩ s (.push 2) = some s' ∧
      s.waiting = 1 ∧ s'.accepted = [0, 1, 2] ∧ s'.waiting = 2 := by
  have hrun : (exec (step ⟨1, 5, 1, true, 16⟩)
      (init ⟨1, 5, 1, true, 16⟩ [.fromConfig ⟨"acme", "key", .paid, 600, 5, 4⟩ 0])
      [.arrive 0 ⟨none, false⟩, .arrive 0 ⟨some 8, true⟩, .arrive 0 ⟨some 8, true⟩,
        .admission 0 0, .push 0, .admission 1 0, .admission 2 0, .acquire, .pop, .push 1, .again,
        .pop]).map (fun s : State ℚ => (s.waiting, (step ⟨1, 5, 1, true, 16⟩ s (.push 2)).map
          fun s' => (s'.accepted, s'.waiting))) = some (1, some ([0, 1, 2], 2)) := by
    decide +kernel
  obtain ⟨s, hs, hl⟩ := Option.map_eq_some_iff.mp hrun
  simp only [Prod.mk.injEq] at hl
  obtain ⟨s', hs', hl'⟩ := Option.map_eq_some_iff.mp hl.2
  simp only [Prod.mk.injEq] at hl'
  exact ⟨s, s', hs, hs', hl.1, hl'.1, hl'.2⟩

end Gateway
end OxideGate
