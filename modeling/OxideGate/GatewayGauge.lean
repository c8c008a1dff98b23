import OxideGate.GatewaySlots

/-!
# `BACKEND_INFLIGHT`

The gauge goes up and down with the slots, and the scheduler takes a slot before it has a request
to use it for. A request that has been dispatched keeps exactly one slot until its reply is through
or dropped (`load_eq`), so the gauge is the number of those requests plus the slots that are
still with the scheduler.
-/

namespace OxideGate
namespace Gateway

open Runs Tally

variable {R : Type}

/-! ## Requests at the backend -/

/-- Dispatched, and the backend has neither refused nor answered into the channel. -/
def TaskPc.pending : TaskPc → Bool
  | .ready _ | .sending _ | .responding (.ok _) => true
  | .responding (.error _) | .finished => false

/-- A reply of the backend has not been received yet. -/
def Chan.pending : Chan → Bool
  | .full (.ok _) => true
  | .full (.error _) | .empty | .taken | .closed => false

/-- The body of the reply is neither through nor dropped. -/
def HandlerPc.pending : HandlerPc → Bool
  | .reading _ | .parsed _ _ | .streaming _ | .closing (some _) _ => true
  | .admitting | .pushing | .notifying | .waiting | .closing none _ | .done => false

namespace State

variable (s : State R)

/-- Request `i` has been dispatched, and its reply is neither fully forwarded nor dropped. -/
def pending (i : ℕ) : Bool :=
  (s.tasks.any fun t => t.item.respondTo = i ∧ t.pc.pending) ||
    s.requests[i]?.any fun r => r.chan.pending || r.pc.pending

/-- How many requests are. -/
def pendingCount : ℕ := (List.range s.requests.length).countP s.pending

/-- The slots of request `i`: with its tasks, in its channel, with its handler. -/
def load (i : ℕ) : ℕ :=
  tally (fun t : Task => if t.item.respondTo = i then share (fun _ => 1) t.pc.slot else 0) s.tasks
    + s.requests[i]?.elim 0 (Request.slots fun _ => 1)

end State

/-! ## One slot for each of them -/

/-- A handler that has a slot has received its reply. -/
def Request.Fetched (r : Request) : Prop := ∀ slot, r.pc.slot = some slot → r.chan = .taken

theorem Request.Fetched.moved {i : ℕ} {r r' : Request} {a : Action} (h : r.Fetched)
    (hm : Moved i r a r') : r'.Fetched := by
  intro slot' hslot
  cases hm with
  | receiveStream slot hpc hchan hstream => rfl
  | receiveBuffered slot hpc hchan hstream => rfl
  | bodyOk n slot hpc => exact h slot (by rw [hpc]; rfl)
  | bodyErr slot hpc => exact h slot (by rw [hpc]; rfl)
  | closeBody slot hpc => exact h slot (by rw [hpc]; rfl)
  | cancel slot hpc => exact h slot (by rw [hpc]; rfl)
  | chunk bytes slot hpc => exact h slot' hslot
  | send k g => exact h slot' hslot
  | deliver k reply hchan =>
    have htaken := h slot' hslot
    rw [hchan] at htaken
    exact absurd htaken (by simp)
  | _ => exact absurd hslot (by simp [HandlerPc.slot])

theorem share_one_le (slot : Option BackendSlot) : share (fun _ => 1) slot ≤ 1 := by
  cases slot with
  | none => exact Nat.zero_le _
  | some slot => exact le_refl _

theorem share_task (t : Task) : share (fun _ => 1) t.pc.slot = t.pc.pending.toNat := by
  cases t.pc with
  | ready slot => rfl
  | sending slot => rfl
  | responding reply => cases reply <;> rfl
  | finished => rfl

theorem share_chan (c : Chan) : share (fun _ => 1) c.slot = c.pending.toNat := by
  cases c with
  | full reply => cases reply <;> rfl
  | empty => rfl
  | taken => rfl
  | closed => rfl

theorem share_handler (pc : HandlerPc) : share (fun _ => 1) pc.slot = pc.pending.toNat := by
  cases pc with
  | closing slot exit => cases slot <;> rfl
  | _ => rfl

/-- A request has one slot at most in its channel and with its handler, and none before a task
has answered it. -/
theorem Request.Fetched.slots {r : Request} (h : r.Fetched) :
    r.slots (fun _ => 1) = (r.chan.pending || r.pc.pending).toNat ∧
      (r.slots (fun _ => 1) ≠ 0 → r.replied) := by
  rw [Request.slots, share_chan, share_handler, Request.replied]
  cases hslot : r.pc.slot with
  | none =>
    have hpc : r.pc.pending.toNat = 0 := by rw [← share_handler, hslot, share_none]
    cases hp : r.pc.pending with
    | true => simp [hp] at hpc
    | false =>
      refine ⟨by simp, fun hne => ?_⟩
      cases hchan : r.chan with
      | full reply => rfl
      | taken => rfl
      | empty => simp [hchan, Chan.pending] at hne
      | closed => simp [hchan, Chan.pending] at hne
  | some slot =>
    have hpc : r.pc.pending.toNat = 1 := by rw [← share_handler, hslot, share_some]
    have hp : r.pc.pending = true := by simpa using hpc
    rw [h slot hslot, hp]
    exact ⟨rfl, fun _ => rfl⟩

/-- A task that has a slot has not answered yet. -/
theorem Task.share_le_busy (t : Task) (i : ℕ) :
    (if t.item.respondTo = i then share (fun _ => 1) t.pc.slot else 0) ≤ t.busy i := by
  unfold Task.busy QueuedRequest.of
  cases hpc : t.pc with
  | finished => simp [TaskPc.slot]
  | _ =>
    split
    · exact share_one_le _
    · exact Nat.zero_le _

/-- The slots of the tasks of a request. -/
def State.taskLoad (s : State R) (i : ℕ) : ℕ :=
  tally (fun t : Task => if t.item.respondTo = i then share (fun _ => 1) t.pc.slot else 0) s.tasks

theorem taskLoad_le_dispatched (s : State R) (i : ℕ) : s.taskLoad i ≤ s.dispatched i :=
  tally_le_tally fun t _ => t.share_le_busy i

theorem taskLoad_ne_zero_iff (s : State R) (i : ℕ) :
    s.taskLoad i ≠ 0 ↔ (s.tasks.any fun t => t.item.respondTo = i ∧ t.pc.pending) = true := by
  rw [State.taskLoad, Ne, tally_eq_zero, List.any_eq_true]
  push Not
  refine exists_congr fun t => and_congr_right fun _ => ?_
  rw [share_task]
  cases t.pc.pending <;> simp

/-- A request that has been dispatched keeps one slot until its reply is through. -/
theorem load_eq {s : State R} (h : Handled s)
    (hfetched : ∀ (i : ℕ) r, s.requests[i]? = some r → r.Fetched) (i : ℕ) :
    s.load i = (s.pending i).toNat := by
  have hplaces := h.places i
  have honce := (h.once i).trans (Bool.toNat_le _)
  have htasks := taskLoad_le_dispatched s i
  have hany := taskLoad_ne_zero_iff s i
  show s.taskLoad i + s.requests[i]?.elim 0 (Request.slots fun _ => 1) = _
  unfold State.pending
  cases hpending : s.tasks.any fun t => t.item.respondTo = i ∧ t.pc.pending with
  | true =>
    have hpos := hany.mpr hpending
    -- its task is still to answer it, so nothing has come back yet
    have hzero : s.requests[i]?.elim 0 (Request.slots fun _ => 1) = 0 := by
      cases hr : s.requests[i]? with
      | none => rfl
      | some r =>
        obtain ⟨-, hreplied⟩ := (hfetched i r hr).slots
        by_contra hne
        have hanswered := List.count_pos_iff.mpr (h.answered i r hr (hreplied hne))
        omega
    rw [hzero, Bool.true_or, Bool.toNat_true]
    omega
  | false =>
    have hzero : s.taskLoad i = 0 := by
      by_contra hne
      rw [hany.mp hne] at hpending
      exact absurd hpending (by decide)
    rw [hzero, Bool.false_or, Nat.zero_add]
    cases hr : s.requests[i]? with
    | none => rfl
    | some r => exact (hfetched i r hr).slots.1

/-- What has been handed out is with the requests that have been dispatched. -/
theorem handedOut_eq {s : State R} (h : Handled s)
    (hfetched : ∀ (i : ℕ) r, s.requests[i]? = some r → r.Fetched) :
    s.handedOut (fun _ => 1) = s.pendingCount := by
  have hplace : ∀ t ∈ s.tasks, share (fun _ => 1) t.pc.slot ≠ 0 →
      t.item.respondTo < s.requests.length := by
    intro t ht hne
    obtain ⟨k, hk⟩ := List.mem_iff_getElem?.mp ht
    have hpc : t.pc ≠ .finished := by
      intro hpc
      rw [hpc] at hne
      exact hne rfl
    have hentered := h.entered _ (h.unanswered hk hpc).1
    by_contra hlt
    rw [List.getElem?_eq_none (Nat.le_of_not_lt hlt)] at hentered
    exact absurd hentered (by simp)
  have hload : tally s.load (List.range s.requests.length) = s.handedOut fun _ => 1 := by
    rw [State.handedOut, ← tally_fibers hplace, ← tally_getElem? _ s.requests, ← tally_add]
    rfl
  rw [← hload, tally_congr fun i _ => load_eq h hfetched i, tally_toNat]
  rfl

/-- The scheduler has a slot exactly when it owns one in `next()` or in its batch. -/
theorem scheduled_eq_zero (s : State R) :
    s.scheduled (fun _ => 1) = 0 ↔ s.pc.slot = none ∧ ∀ e ∈ s.batch, e.2 = none := by
  have hshare : ∀ slot : Option BackendSlot, share (fun _ => 1) slot = 0 ↔ slot = none := by
    intro slot
    cases slot <;> simp [share]
  rw [State.scheduled, Nat.add_eq_zero_iff, tally_eq_zero, hshare]
  simp only [hshare]

/-- The gauge counts the live slots, with or without a limiter. -/
theorem SlotMove.gauge {s s' : State R} (h : SlotMove s s')
    (hgauge : s.backendInflight = s.live fun _ => 1) : s'.backendInflight = s'.live fun _ => 1 := by
  cases h with
  | same hfree hsame hlive =>
    rw [hsame, hlive]
    exact hgauge
  | taken slot hslot hup hlive =>
    rw [hup, hlive, hgauge]
    rfl
  | dropped slot hfree hdown hlive =>
    have := hlive fun _ => 1
    omega

variable [Add R] [Sub R] [Mul R] [Min R] [LT R] [DecidableLT R] [NatCast R] [RatCast R]

theorem gauge_of_exec {cfg : Config} {tenants : List (Tenant R)} {actions : List Action}
    {s : State R} (hrun : exec (step cfg) (init cfg tenants) actions = some s) :
    s.backendInflight = s.live (fun _ => 1) ∧
      ∀ (i : ℕ) r, s.requests[i]? = some r → r.Fetched := by
  have hstep : ∀ (s : State R) a s', (Handled s ∧ s.backendInflight = (s.live fun _ => 1) ∧
      ∀ (i : ℕ) r, s.requests[i]? = some r → r.Fetched) → step cfg s a = some s' →
      Handled s' ∧ s'.backendInflight = (s'.live fun _ => 1) ∧
        ∀ (i : ℕ) r, s'.requests[i]? = some r → r.Fetched := by
    intro s a s' ⟨hhandled, hgauge, hfetched⟩ hs
    have hs' := step_cases hs
    refine ⟨hhandled.step hs', (slots_cases hhandled hs').gauge hgauge, ?_⟩
    refine forall_requests hs' (fun _ _ _ slot hslot => ?_) (fun _ _ _ _ hm _ h => h.moved hm)
      hfetched
    exact absurd hslot (by simp [Request.arrived, HandlerPc.slot])
  refine (exec_invariant hstep ⟨handled_init cfg tenants, rfl, fun i r hr => ?_⟩ hrun).2
  simp [init] at hr

/-- The gauge is the number of requests at the backend, and the slots that are with the
scheduler come on top. -/
theorem backendInflight_eq {cfg : Config} {tenants : List (Tenant R)} {actions : List Action}
    {s : State R} (hrun : exec (step cfg) (init cfg tenants) actions = some s) :
    s.backendInflight = s.pendingCount + s.scheduled fun _ => 1 := by
  obtain ⟨hgauge, hfetched⟩ := gauge_of_exec hrun
  rw [hgauge, State.live, handedOut_eq (handled_of_exec hrun) hfetched, Nat.add_comm]
  exact Nat.cast_add _ _

/-- The gauge is the number of requests that have been dispatched and whose reply is neither
fully forwarded nor dropped, exactly in the reachable states in which the scheduler has no slot
for a request that it has not dispatched. -/
theorem backendInflight_exact_iff (cfg : Config) (tenants : List (Tenant R))
    (actions : List Action) (s : State R)
    (hrun : exec (step cfg) (init cfg tenants) actions = some s) :
    s.backendInflight = s.pendingCount ↔ s.pc.slot = none ∧ ∀ e ∈ s.batch, e.2 = none := by
  have heq := backendInflight_eq hrun
  rw [← scheduled_eq_zero]
  omega

/-- A streamed reply while the scheduler waits for a second slot. -/
theorem backendInflight_exact_iff_streaming :
    ∃ s : State ℚ, exec (step ⟨2, 0, 1, true, 16⟩)
        (init ⟨2, 0, 1, true, 16⟩ [.fromConfig ⟨"acme", "key", .paid, 600, 5, 4⟩ 0])
        [.arrive 0 ⟨none, true⟩, .admission 0 0, .push 0, .notify 0, .acquire, .pop,
          .dispatchNext, .send 0 8, .backendOk 0, .deliver 0, .receive 0, .dispatchNext] = some s ∧
      s.backendInflight = s.pendingCount := by
  have hrun : ((exec (step ⟨2, 0, 1, true, 16⟩)
      (init ⟨2, 0, 1, true, 16⟩ [.fromConfig ⟨"acme", "key", .paid, 600, 5, 4⟩ 0])
      [.arrive 0 ⟨none, true⟩, .admission 0 0, .push 0, .notify 0, .acquire, .pop,
        .dispatchNext, .send 0 8, .backendOk 0, .deliver 0, .receive 0, .dispatchNext]).map
      fun s : State ℚ => (s.pc, s.batch)) = some (.acquire, []) := by
    decide +kernel
  obtain ⟨s, hs, hl⟩ := Option.map_eq_some_iff.mp hrun
  simp only [Prod.mk.injEq] at hl
  refine ⟨s, hs, (backendInflight_exact_iff _ _ _ s hs).mpr ⟨?_, ?_⟩⟩
  · rw [hl.1]
    rfl
  · rw [hl.2]
    exact List.forall_mem_nil _

/-- Nobody has sent a request, and the scheduler is parked in `next()`: the gauge is at one, with
and without a limiter. -/
theorem backendInflight_idle :
    (exec (step ⟨2, 0, 1, true, 16⟩) (init ⟨2, 0, 1, true, 16⟩ [])
        [.acquire, .pop, .notified]).map
      (fun s : State ℚ => (s.backendInflight, s.pendingCount, s.requests, s.tasks.length))
      = some (1, 0, [], 0) ∧
    (exec (step ⟨2, 5, 0, false, 16⟩) (init ⟨2, 5, 0, false, 16⟩ [])
        [.acquire, .pop, .notified]).map
      (fun s : State ℚ => (s.backendInflight, s.pendingCount, s.requests, s.tasks.length))
      = some (1, 0, [], 0) := by
  decide +kernel

end Gateway
end OxideGate
