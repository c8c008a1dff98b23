import OxideGate.GatewayPlaces
import OxideGate.Lib.Progress

/-!
# How much work is left

Neither the scheduler's loop nor its waits spin: every step of every party uses up some of the
work that the requests brought along. `work` weighs where everybody stands. A queued request
weighs more than one in the batch, and that more than its task; a wakeup weighs what the
scheduler does when it finds nothing. Only an arrival brings work, and only a chunk of a streamed
body leaves it as it is (`spends`), so a run is as long as its requests and chunks allow
(`run_length_le`).
-/

namespace OxideGate
namespace Gateway

open Runs Tally

variable {R : Type}

/-! ## Weights -/

/-- What the handler still has to do, with the queue entry and the wakeup that it will cause. -/
def HandlerPc.work : HandlerPc → ℕ
  | .admitting => 22
  | .pushing => 21
  | .notifying => 8
  | .waiting => 4
  | .reading _ => 3
  | .parsed _ _ | .streaming _ => 2
  | .closing _ _ => 1
  | .done => 0

/-- Waiting for the first request, the scheduler parks; in the window it goes on to dispatch. -/
def SchedPc.work : SchedPc → ℕ
  | .next (some _) (.parked false) => 0
  | .next (some _) .empty => 1
  | .next (some _) .poll => 2
  | .next (some _) (.parked true) | .acquire => 3
  | .dispatch => 4
  | .next none (.parked false) => 5
  | .next none .empty => 6
  | .next none .poll => 7
  | .next none (.parked true) | .collect | .acquireFor _ => 8

def TaskPc.work : TaskPc → ℕ
  | .ready _ => 3
  | .sending _ => 2
  | .responding _ => 1
  | .finished => 0

namespace State

variable (s : State R)

def handlerWork : ℕ := tally (fun r => r.pc.work) s.requests

def taskWork : ℕ := tally (fun t => t.pc.work) s.tasks

def schedulerWork : ℕ :=
  12 * s.queue.len + 5 * s.batch.length + s.pc.work + 2 * s.permit.toNat

def work : ℕ := s.handlerWork + s.taskWork + s.schedulerWork

end State

/-- What an action brings along, and itself. -/
def Action.cost : Action → ℕ
  | .arrive _ _ => 23
  | .chunk _ _ => 1
  | _ => 0

/-- A request arrives. -/
def Action.arrives : Action → Bool
  | .arrive _ _ => true
  | _ => false

/-- A chunk of a streamed body passes. -/
def Action.streams : Action → Bool
  | .chunk _ _ => true
  | _ => false

theorem tally_cost (actions : List Action) : tally Action.cost actions
    = 23 * actions.countP Action.arrives + actions.countP Action.streams := by
  have hcost : ∀ a : Action, a.cost = 23 * a.arrives.toNat + a.streams.toNat := by
    intro a
    cases a <;> rfl
  induction actions with
  | nil => rfl
  | cons a actions ih =>
    rw [tally_cons, ih, List.countP_cons, List.countP_cons, hcost]
    cases a.arrives <;> cases a.streams <;> simp <;> omega

theorem work_init (cfg : Config) (tenants : List (Tenant R)) : (init cfg tenants).work = 3 := rfl

/-! ## One party at a time -/

/-- One handler goes on, and may leave work to the scheduler. -/
theorem spends_request {s s' : State R} {i : ℕ} {r : Request} {cost : ℕ} (left : ℕ) (r' : Request)
    (hr : s.requests[i]? = some r) (hrequests : s'.requests = s.requests.set i r')
    (htasks : s'.tasks = s.tasks) (hscheduler : s'.schedulerWork ≤ s.schedulerWork + left)
    (hlt : r'.pc.work + left + 1 ≤ r.pc.work + cost) : s'.work + 1 ≤ s.work + cost := by
  have hset := tally_set (fun r => r.pc.work) hr r'
  unfold State.work State.handlerWork State.taskWork
  rw [hrequests, htasks]
  omega

/-- One task goes on, and may write to its request. -/
theorem spends_task {s s' : State R} {k : ℕ} {t t' : Task} (ht : s.tasks[k]? = some t)
    (htasks : s'.tasks = s.tasks.set k t') (hrequests : s'.handlerWork = s.handlerWork)
    (hscheduler : s'.schedulerWork = s.schedulerWork) (hlt : t'.pc.work + 1 ≤ t.pc.work) :
    s'.work + 1 ≤ s.work := by
  have hset := tally_set (fun t => t.pc.work) ht t'
  unfold State.work State.taskWork
  rw [htasks, hrequests, hscheduler]
  omega

/-- The scheduler goes on, and may spawn a task. -/
theorem spends_scheduler {s s' : State R} (spawned : List Task)
    (hrequests : s'.requests = s.requests) (htasks : s'.tasks = s.tasks ++ spawned)
    (hlt : tally (fun t => t.pc.work) spawned + s'.schedulerWork + 1 ≤ s.schedulerWork) :
    s'.work + 1 ≤ s.work := by
  unfold State.work State.handlerWork State.taskWork
  rw [hrequests, htasks, tally_append]
  omega

theorem schedulerWork_dropSlot? (s : State R) (slot : Option BackendSlot) :
    (s.dropSlot? slot).schedulerWork = s.schedulerWork := by
  cases slot <;> rfl

theorem notifyOne_tasks (s : State R) : s.notifyOne.tasks = s.tasks := by
  unfold State.notifyOne
  split <;> rfl

/-- A wakeup makes the scheduler look once more. -/
theorem schedulerWork_notifyOne (s : State R) :
    s.notifyOne.schedulerWork ≤ s.schedulerWork + 3 := by
  unfold State.notifyOne
  split
  · rename_i slot hpc
    unfold State.schedulerWork
    rw [hpc]
    cases slot <;> simp only [SchedPc.work] <;> omega
  · unfold State.schedulerWork
    show 12 * s.queue.len + 5 * s.batch.length + s.pc.work + 2 * Bool.toNat true ≤ _
    rw [Bool.toNat_true]
    omega

/-! ## Every step -/

variable [Add R] [Sub R] [Mul R] [Min R] [LT R] [DecidableLT R] [NatCast R] [RatCast R]

/-- Every step does some of the work that is left, or of the work that its action brings. -/
theorem spends_step {cfg : Config} {s s' : State R} {a : Action} (hplaced : Placed s)
    (hs : Stepped cfg s a s') : s'.work + 1 ≤ s.work + a.cost := by
  cases hs with
  | arrive tenant req ht =>
    show tally _ (s.requests ++ [_]) + s.taskWork + s.schedulerWork + 1 ≤ _
    rw [tally_append, tally_cons, tally_nil]
    unfold State.work State.handlerWork
    show _ + (22 + 0) + _ + _ + 1 ≤ _ + 23
    omega
  -- the handler goes on, and nobody else
  | granted i now r t reserve l hr hpc | denied i now r t reserve e hr hpc
  | queueFull i r hr hpc | receiveStream i r slot hr hpc | receiveBuffered i r slot hr hpc
  | receiveError i r e hr hpc | bodyOk i n r slot hr hpc | bodyErr i r slot hr hpc
  | closeBody i r slot hr hpc | cancel i r slot hr hpc =>
    exact spends_request 0 _ hr rfl rfl le_rfl (by rw [hpc]; simp [HandlerPc.work, Action.cost])
  | chunk i bytes r slot hr hpc => exact spends_request 0 _ hr rfl rfl le_rfl le_rfl
  | releaseBody i r slot n hr hpc =>
    exact spends_request 0 _ hr rfl rfl le_rfl (by rw [hpc]; simp [HandlerPc.work, Action.cost])
  | hangUp i r hr hpc =>
    refine spends_request 0 { r with chan := .closed, pc := .closing none .cancelled } hr ?_ ?_
      (schedulerWork_dropSlot? s _).le (by rw [hpc]; simp [HandlerPc.work, Action.cost])
    · rw [State.setRequest, State.dropSlot?_requests]
    · exact State.dropSlot?_tasks _ _
  | settle i now r slot exit hr hpc =>
    refine spends_request 0 _ hr rfl ?_ (schedulerWork_dropSlot? s slot).le
      (by rw [hpc]; simp [HandlerPc.work, Action.cost])
    exact State.dropSlot?_tasks _ _
  -- the handler gives the scheduler something to do
  | pushed i r t queue hr hpc ht hroom hq =>
    refine spends_request 12 _ hr rfl rfl ?_ (by rw [hpc]; simp [HandlerPc.work, Action.cost])
    simp only [State.schedulerWork, hq.len.1]
    omega
  | notify i r hr hpc =>
    refine spends_request 3 { r with pc := .waiting } hr ?_ (notifyOne_tasks s)
      (schedulerWork_notifyOne s)
      (by rw [hpc]; simp [HandlerPc.work, Action.cost])
    rw [State.setRequest, notifyOne_requests]
  -- the scheduler goes on; cases on the slot where its weight depends on it
  | acquire slot free hpc hslot =>
    refine spends_scheduler [] rfl (List.append_nil _).symm ?_
    simp only [State.schedulerWork, hpc, SchedPc.work, tally_nil]
    omega
  | popped slot item hpc hq =>
    have hlen := FairQueue.pop_len hplaced.wf
    rw [hq, Option.isSome_some, if_pos rfl] at hlen
    refine spends_scheduler [] rfl (List.append_nil _).symm ?_
    have hnext : (if cfg.window = 0 then SchedPc.dispatch else .collect).work ≤ 8 := by
      split <;> simp [SchedPc.work]
    have hpoll : 2 ≤ (SchedPc.next slot .poll).work := by
      cases slot <;> simp [SchedPc.work]
    simp only [State.schedulerWork, hpc, hlen, List.length_append, List.length_singleton, tally_nil]
    omega
  | popEmpty slot hpc hq =>
    have hlen := FairQueue.pop_len hplaced.wf
    rw [hq, Option.isSome_none, if_neg Bool.false_ne_true, Nat.add_zero] at hlen
    refine spends_scheduler [] rfl (List.append_nil _).symm ?_
    cases slot <;> simp only [State.schedulerWork, hpc, hlen, SchedPc.work, tally_nil] <;> omega
  | consume slot hpc hpermit =>
    refine spends_scheduler [] rfl (List.append_nil _).symm ?_
    cases slot <;> simp only [State.schedulerWork, hpc, hpermit, SchedPc.work, tally_nil,
      Bool.toNat_true, Bool.toNat_false] <;> omega
  | park slot hpc hpermit =>
    refine spends_scheduler [] rfl (List.append_nil _).symm ?_
    cases slot <;> simp only [State.schedulerWork, hpc, SchedPc.work, tally_nil] <;> omega
  | wake slot hpc =>
    refine spends_scheduler [] rfl (List.append_nil _).symm ?_
    cases slot <;> simp only [State.schedulerWork, hpc, SchedPc.work, tally_nil] <;> omega
  | again hpc | deadline forward hpc | batchDone hpc hbatch =>
    refine spends_scheduler [] rfl (List.append_nil _).symm ?_
    simp only [State.schedulerWork, hpc, SchedPc.work, tally_nil]
    omega
  | expire woken forward hpc =>
    refine spends_scheduler [] rfl (List.append_nil _).symm ?_
    cases woken <;> cases forward <;> cases hpermit : s.permit <;>
      simp [State.schedulerWork, hpc, hpermit, SchedPc.work]
  | skip item slot rest r hpc hbatch hr hchan =>
    refine spends_scheduler [] (State.dropSlot?_requests _ _)
      ((State.dropSlot?_tasks _ _).trans (List.append_nil _).symm) ?_
    rw [schedulerWork_dropSlot?]
    simp only [State.schedulerWork, hbatch, List.length_cons, tally_nil]
    omega
  | spawn item slot rest r hpc hbatch hr hchan =>
    refine spends_scheduler [⟨item, .ready slot⟩] rfl rfl ?_
    simp only [State.schedulerWork, hpc, hbatch, List.length_cons, SchedPc.work, tally_cons,
      tally_nil, TaskPc.work]
    omega
  | await item rest r hpc hbatch hr hchan =>
    refine spends_scheduler [] rfl (List.append_nil _).symm ?_
    simp only [State.schedulerWork, hpc, hbatch, List.length_cons, SchedPc.work, tally_nil]
    omega
  | acquireFor item slot free hpc hslot =>
    refine spends_scheduler [⟨item, .ready slot⟩] rfl rfl ?_
    simp only [State.schedulerWork, hpc, SchedPc.work, tally_cons, tally_nil, TaskPc.work]
    omega
  -- a task goes on
  | send k g t slot r ht hpc hr =>
    exact spends_task ht rfl (tally_set_eq hr rfl) rfl (by rw [hpc]; simp [TaskPc.work])
  | backendOk k t slot ht hpc | backendErr k e t slot ht hpc =>
    exact spends_task ht rfl rfl rfl (by rw [hpc]; simp [TaskPc.work])
  | deliver k t reply r ht hpc hr hchan =>
    exact spends_task ht rfl (tally_set_eq hr rfl) rfl (by rw [hpc]; simp [TaskPc.work])
  | discard k t reply r ht hpc hr hchan =>
    refine spends_task ht (State.dropSlot?_tasks _ _) ?_ (schedulerWork_dropSlot? _ _)
      (by rw [hpc]; simp [TaskPc.work])
    unfold State.handlerWork
    rw [State.dropSlot?_requests]

/-! ## Whole runs -/

/-- Every step of the gateway spends work. -/
theorem spends (cfg : Config) :
    Spends (step cfg) (Placed (R := R)) State.work Action.cost :=
  fun _ _ _ hplaced hs => spends_step hplaced (step_cases hs)

/-- A run takes at most 22 steps for each request after its arrival, one for each chunk of a
streamed body, and three more for the scheduler to begin with. In particular it ends unless
requests or chunks keep coming: nobody polls. -/
theorem run_length_le (cfg : Config) (tenants : List (Tenant R)) (actions : List Action)
    (s : State R) (hrun : exec (step cfg) (init cfg tenants) actions = some s) :
    actions.length + s.work
      ≤ 3 + 23 * actions.countP Action.arrives + actions.countP Action.streams := by
  have hlen := length_add_potential_le (fun _ _ _ h hs => h.step (step_cases hs)) (spends cfg)
    (placed_init cfg tenants) hrun
  rw [work_init, tally_cost] at hlen
  omega

/-- One streamed request, from its arrival until the scheduler waits for the next one. -/
theorem run_length_le_streamed :
    ∃ s : State ℚ, exec (step ⟨2, 0, 1, true, 16⟩)
        (init ⟨2, 0, 1, true, 16⟩ [.fromConfig ⟨"acme", "key", .paid, 600, 5, 4⟩ 0])
        [.arrive 0 ⟨none, true⟩, .admission 0 0, .push 0, .notify 0, .acquire, .pop, .dispatchNext,
          .send 0 8, .backendOk 0, .deliver 0, .receive 0, .chunk 0 (ascii "data: a\n\n"),
          .closeBody 0, .settle 0 1, .dispatchNext, .acquire, .pop, .notified, .pop,
          .notified] = some s ∧
      20 + s.work ≤ 3 + 23 * 1 + 1 := by
  have hrun : (exec (step ⟨2, 0, 1, true, 16⟩)
      (init ⟨2, 0, 1, true, 16⟩ [.fromConfig ⟨"acme", "key", .paid, 600, 5, 4⟩ 0])
      [.arrive 0 ⟨none, true⟩, .admission 0 0, .push 0, .notify 0, .acquire, .pop, .dispatchNext,
        .send 0 8, .backendOk 0, .deliver 0, .receive 0, .chunk 0 (ascii "data: a\n\n"),
        .closeBody 0, .settle 0 1, .dispatchNext, .acquire, .pop, .notified, .pop, .notified]).map
          (fun s : State ℚ => s.pc) = some (.next (some ⟨some 0⟩) (.parked false)) := by
    decide +kernel
  obtain ⟨s, hs, -⟩ := Option.map_eq_some_iff.mp hrun
  exact ⟨s, hs, run_length_le _ _ _ s hs⟩

end Gateway
end OxideGate
