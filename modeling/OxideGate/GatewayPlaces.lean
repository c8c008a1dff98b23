import OxideGate.GatewaySteps
import OxideGate.TenantsTheorems

/-!
# Where a request is

Every accepted request is in exactly one place: in the queue, in the batch of the scheduler
(or in its hands, while it waits for a slot for it), with a dispatch task, answered, or skipped.
`Placed` says so with counts, which every hand-over changes by one on each side.
-/

namespace OxideGate
namespace Gateway

open Runs Tally

variable {R : Type}

/-! ## Counting a request's items -/

/-- 1 for an item of request `i`. -/
def QueuedRequest.of (i : ℕ) (q : QueuedRequest) : ℕ := if q.respondTo = i then 1 else 0

/-- The item that the scheduler holds while it waits for a slot for it. -/
def SchedPc.items : SchedPc → List QueuedRequest
  | .acquireFor item => [item]
  | .acquire | .next _ _ | .collect | .dispatch => []

/-- 1 for a task of request `i` that has not answered yet. -/
def Task.busy (i : ℕ) (t : Task) : ℕ :=
  match t.pc with
  | .finished => 0
  | .ready _ | .sending _ | .responding _ => t.item.of i

/-- 1 for a task of request `i` that has not called `Backend::send` yet. -/
def Task.unsent (i : ℕ) (t : Task) : ℕ :=
  match t.pc with
  | .ready _ => t.item.of i
  | .sending _ | .responding _ | .finished => 0

/-- The handler has been through `push`. -/
def Request.submitted (r : Request) : Bool :=
  match r.pc with
  | .admitting | .pushing => false
  | _ => true

/-- The receiver of the reply is dropped. -/
def Request.hungUp (r : Request) : Bool := r.chan = .closed

namespace State

variable (s : State R) (i : ℕ)

def queued : ℕ := tally (QueuedRequest.of i) s.queue.contents

def batched : ℕ :=
  tally (QueuedRequest.of i) s.pc.items + tally (fun e => e.1.of i) s.batch

def dispatched : ℕ := tally (Task.busy i) s.tasks

def unsent : ℕ := tally (Task.unsent i) s.tasks

def submitted : Bool := s.requests[i]?.any Request.submitted

def hungUp : Bool := s.requests[i]?.any Request.hungUp

/-- Everything that says where a request is, but the requests themselves. -/
def whereabouts :=
  (s.queue, s.pc.items, s.batch, s.tasks, s.accepted, s.refused, s.sent, s.answered, s.skipped)

end State

/-- The location invariant. -/
structure Placed (s : State R) : Prop where
  wf : s.queue.WF
  places : ∀ i, s.queued i + s.batched i + s.dispatched i + s.answered.count i
    + s.skipped.count i = s.accepted.count i
  sends : ∀ i, s.queued i + s.batched i + s.unsent i + s.skipped.count i + s.sent.count i
    = s.accepted.count i
  once : ∀ i, s.accepted.count i + s.refused.count i ≤ (s.submitted i).toNat
  skipped : ∀ i ∈ s.skipped, s.hungUp i

/-- Nobody is anywhere yet. -/
theorem placed_init (cfg : Config) (tenants : List (Tenant R)) : Placed (init cfg tenants) where
  wf := FairQueue.wf_new cfg.queueDepth
  places := fun _ => rfl
  sends := fun _ => rfl
  once := fun _ => Nat.zero_le _
  skipped := fun _ hi => absurd hi List.not_mem_nil

/-- Where nothing is pushed, each request is still accepted or refused at most once. -/
theorem Placed.once_mono {s s' : State R} (h : Placed s) (haccepted : s'.accepted = s.accepted)
    (hrefused : s'.refused = s.refused) (hsubmitted : ∀ i, s.submitted i → s'.submitted i) (i : ℕ) :
    s'.accepted.count i + s'.refused.count i ≤ (s'.submitted i).toNat := by
  rw [haccepted, hrefused]
  refine (h.once i).trans ?_
  cases hs : s.submitted i with
  | false => exact Nat.zero_le _
  | true => rw [hsubmitted i hs]

/-- A step that moves no item keeps the invariant, if it lets nobody submit again and no
receiver come back. -/
theorem Placed.frame {s s' : State R} (h : Placed s) (hsame : s'.whereabouts = s.whereabouts)
    (hsubmitted : ∀ i, s.submitted i → s'.submitted i) (hhungUp : ∀ i, s.hungUp i → s'.hungUp i) :
    Placed s' := by
  simp only [State.whereabouts, Prod.mk.injEq] at hsame
  obtain ⟨hqueue, hitems, hbatch, htasks, haccepted, hrefused, hsent, hanswered, hskipped⟩ := hsame
  refine ⟨hqueue ▸ h.wf, fun i => ?_, fun i => ?_, fun i => ?_, fun i hi => ?_⟩
  · have := h.places i
    unfold State.queued State.batched State.dispatched at this ⊢
    rw [hqueue, hitems, hbatch, htasks, hanswered, hskipped, haccepted]
    exact this
  · have := h.sends i
    unfold State.queued State.batched State.unsent at this ⊢
    rw [hqueue, hitems, hbatch, htasks, hskipped, hsent, haccepted]
    exact this
  · exact h.once_mono haccepted hrefused hsubmitted i
  · exact hhungUp i (h.skipped i (hskipped ▸ hi))

/-- A step that moves no item and changes no request. -/
theorem Placed.unchanged {s s' : State R} (h : Placed s) (hsame : s'.whereabouts = s.whereabouts)
    (hrequests : s'.requests = s.requests) : Placed s' := by
  apply h.frame hsame
  · intro i hi
    rw [State.submitted, hrequests]
    exact hi
  · intro i hi
    rw [State.hungUp, hrequests]
    exact hi

/-- A step that changes one request and moves no item. -/
theorem Placed.setRequest {s s' : State R} (h : Placed s) {i : ℕ} {r r' : Request}
    (hr : s.requests[i]? = some r) (hrequests : s'.requests = s.requests.set i r')
    (hsub : r.submitted → r'.submitted) (hhang : r.hungUp → r'.hungUp)
    (hsame : s'.whereabouts = s.whereabouts) : Placed s' := by
  apply h.frame hsame
  · intro j hj
    unfold State.submitted
    rw [hrequests]
    exact any_set hr hsub hj
  · intro j hj
    unfold State.hungUp
    rw [hrequests]
    exact any_set hr hhang hj

/-! ## The steps that move an item -/

theorem count_concat (l : List ℕ) (i j : ℕ) :
    (l ++ [j]).count i = l.count i + if j = i then 1 else 0 := by
  rw [List.count_append, List.count_singleton]
  simp

theorem submitted_set_of_ne (s : State R) {i j : ℕ} (h : i ≠ j) (r : Request) :
    (s.setRequest i r).submitted j = s.submitted j := by
  unfold State.submitted State.setRequest
  rw [List.getElem?_set_ne h]

theorem submitted_set_self (s : State R) {i : ℕ} {r : Request} (h : s.requests[i]? = some r)
    (r' : Request) : (s.setRequest i r').submitted i = r'.submitted := by
  unfold State.submitted State.setRequest
  rw [List.getElem?_set_self (List.getElem?_eq_some_iff.mp h).1]
  rfl

/-- A request in front of `push` has not been submitted before. -/
theorem Placed.fresh {s : State R} (h : Placed s) {i : ℕ} {r : Request}
    (hr : s.requests[i]? = some r) (hpc : r.submitted = false) :
    s.accepted.count i = 0 ∧ s.refused.count i = 0 := by
  have honce := h.once i
  have hfalse : s.submitted i = false := by
    unfold State.submitted
    rw [hr]
    exact hpc
  rw [hfalse] at honce
  simp only [Bool.toNat_false] at honce
  omega

/-- It gets through `push` only once. -/
theorem Placed.once_decided {s : State R} (h : Placed s) {i : ℕ} {r : Request}
    (hr : s.requests[i]? = some r) (hpc : r.submitted = false) (r' : Request)
    (hpc' : r'.submitted = true) (j : ℕ) :
    s.accepted.count j + s.refused.count j + (if i = j then 1 else 0)
      ≤ ((s.setRequest i r').submitted j).toNat := by
  by_cases hij : i = j
  · subst hij
    obtain ⟨haccepted, hrefused⟩ := h.fresh hr hpc
    rw [submitted_set_self s hr, if_pos rfl, haccepted, hrefused, hpc']
    rfl
  · rw [submitted_set_of_ne s hij, if_neg hij]
    exact h.once j

/-- A push that finds room puts the request into the queue. -/
theorem Placed.pushed {s : State R} (h : Placed s) {i : ℕ} {r : Request}
    {queue : FairQueue String QueuedRequest} {key : String} {weight : ℚ} {item : QueuedRequest}
    (hr : s.requests[i]? = some r) (hpc : r.pc = .pushing) (hweight : 0 < weight)
    (hroom : s.queue.len < s.queue.capacity) (hitem : item.respondTo = i)
    (hq : FairQueue.Pushed s.queue key weight item queue) :
    Placed { s with
      queue := queue
      requests := s.requests.set i { r with pc := .notifying }
      accepted := s.accepted ++ [i] } := by
  have hfresh : r.submitted = false := by rw [Request.submitted, hpc]
  have hqueued : ∀ j, tally (QueuedRequest.of j) queue.contents
      = (if i = j then 1 else 0) + s.queued j := by
    intro j
    rw [tally_perm _ (hq.perm h.wf), tally_cons, QueuedRequest.of, hitem, State.queued]
  -- the push adds one on both sides of `places` and `sends`, for request `i` alone
  refine ⟨hq.wf h.wf hweight hroom, fun j => ?_, fun j => ?_, fun j => ?_, fun j hj => ?_⟩
  · have := h.places j
    show tally (QueuedRequest.of j) queue.contents + s.batched j + s.dispatched j
      + s.answered.count j + s.skipped.count j = (s.accepted ++ [i]).count j
    rw [hqueued, count_concat]
    omega
  · have := h.sends j
    show tally (QueuedRequest.of j) queue.contents + s.batched j + s.unsent j
      + s.skipped.count j + s.sent.count j = (s.accepted ++ [i]).count j
    rw [hqueued, count_concat]
    omega
  · show (s.accepted ++ [i]).count j + s.refused.count j
      ≤ ((s.setRequest i { r with pc := .notifying }).submitted j).toNat
    have := h.once_decided hr hfresh { r with pc := .notifying } rfl j
    rw [count_concat]
    omega
  · refine any_set hr ?_ (h.skipped j hj)
    exact id

/-- A push that finds none refuses it. -/
theorem Placed.queueFull {s : State R} (h : Placed s) {i : ℕ} {r : Request}
    (hr : s.requests[i]? = some r) (hpc : r.pc = .pushing) :
    Placed { s with
      requests := s.requests.set i
        { r with pc := .closing none (.returned (.error .queueFull)), chan := .closed }
      refused := s.refused ++ [i] } := by
  have hfresh : r.submitted = false := by rw [Request.submitted, hpc]
  refine ⟨h.wf, h.places, h.sends, fun j => ?_, fun j hj => ?_⟩
  · show s.accepted.count j + (s.refused ++ [i]).count j
      ≤ ((s.setRequest i { r with
        pc := .closing none (.returned (.error .queueFull)), chan := .closed }).submitted j).toNat
    have := h.once_decided hr hfresh { r with
      pc := .closing none (.returned (.error .queueFull)), chan := .closed } rfl j
    rw [count_concat]
    omega
  · refine any_set hr ?_ (h.skipped j hj)
    exact fun _ => rfl

/-- A step after which every request's items are in as many places as before. -/
theorem Placed.moved {s s' : State R} (h : Placed s) (hwf : s'.queue.WF)
    (hplaces : ∀ i, s'.queued i + s'.batched i + s'.dispatched i + s'.answered.count i
      + s'.skipped.count i = s.queued i + s.batched i + s.dispatched i + s.answered.count i
        + s.skipped.count i)
    (hsends : ∀ i, s'.queued i + s'.batched i + s'.unsent i + s'.skipped.count i
      + s'.sent.count i = s.queued i + s.batched i + s.unsent i + s.skipped.count i
        + s.sent.count i)
    (haccepted : s'.accepted = s.accepted) (hrefused : s'.refused = s.refused)
    (hsubmitted : ∀ i, s.submitted i → s'.submitted i)
    (hskipped : ∀ i ∈ s'.skipped, s'.hungUp i) : Placed s' where
  wf := hwf
  places := fun i => by rw [hplaces, haccepted, h.places i]
  sends := fun i => by rw [hsends, haccepted, h.sends i]
  once := h.once_mono haccepted hrefused hsubmitted
  skipped := hskipped

/-- From the queue into the batch. -/
theorem Placed.popped {s : State R} (h : Placed s) {slot : Option BackendSlot} {n : NextPc}
    {item : QueuedRequest} (hpc : s.pc = .next slot n) (hq : s.queue.pop.1 = some item)
    {pc : SchedPc} (hitems : pc.items = []) :
    Placed { s with
      queue := s.queue.pop.2, batch := s.batch ++ [(item, slot)], pc := pc } := by
  have hperm := FairQueue.pop_perm h.wf
  rw [hq] at hperm
  have hnone : s.pc.items = [] := by rw [hpc]; rfl
  have hqueued : ∀ j, s.queued j = item.of j + tally (QueuedRequest.of j) s.queue.pop.2.contents :=
    fun j => tally_perm _ hperm
  have hbatched : ∀ j, tally (QueuedRequest.of j) pc.items
      + tally (fun e => e.1.of j) (s.batch ++ [(item, slot)]) = s.batched j + item.of j := by
    intro j
    rw [hitems, tally_append, tally_cons, tally_nil, tally_nil, State.batched, hnone, tally_nil]
    show 0 + (_ + (item.of j + 0)) = _
    omega
  refine h.moved (FairQueue.pop_wf h.wf) (fun j => ?_) (fun j => ?_) rfl rfl (fun _ => id)
    h.skipped
  · show tally (QueuedRequest.of j) s.queue.pop.2.contents + (_ + _) + s.dispatched j
      + s.answered.count j + s.skipped.count j = _
    rw [hbatched, hqueued]
    omega
  · show tally (QueuedRequest.of j) s.queue.pop.2.contents + (_ + _) + s.unsent j
      + s.skipped.count j + s.sent.count j = _
    rw [hbatched, hqueued]
    omega

/-- An empty pop. -/
theorem Placed.popEmpty {s : State R} (h : Placed s) {slot : Option BackendSlot} {n n' : NextPc}
    (hpc : s.pc = .next slot n) (hq : s.queue.pop.1 = none) :
    Placed { s with queue := s.queue.pop.2, pc := .next slot n' } := by
  have hperm := FairQueue.pop_perm h.wf
  rw [hq] at hperm
  have hqueued : ∀ j, tally (QueuedRequest.of j) s.queue.pop.2.contents = s.queued j := by
    intro j
    rw [State.queued, hperm.1, hperm.2]
  have hbatched : ∀ j, s.batched j = tally (fun e => e.1.of j) s.batch := by
    intro j
    rw [State.batched, hpc]
    exact Nat.zero_add _
  refine h.moved (FairQueue.pop_wf h.wf) (fun j => ?_) (fun j => ?_) rfl rfl (fun _ => id)
    h.skipped
  · show tally (QueuedRequest.of j) s.queue.pop.2.contents + (0 + _) + s.dispatched j
      + s.answered.count j + s.skipped.count j = _
    rw [hqueued, hbatched, Nat.zero_add]
  · show tally (QueuedRequest.of j) s.queue.pop.2.contents + (0 + _) + s.unsent j
      + s.skipped.count j + s.sent.count j = _
    rw [hqueued, hbatched, Nat.zero_add]

/-- The first item of the batch, when the scheduler is in its `for` loop. -/
theorem batched_cons {s : State R} {item : QueuedRequest} {slot : Option BackendSlot}
    {rest : List (QueuedRequest × Option BackendSlot)} (hpc : s.pc = .dispatch)
    (hbatch : s.batch = (item, slot) :: rest) (j : ℕ) :
    s.batched j = item.of j + tally (fun e => e.1.of j) rest := by
  rw [State.batched, hpc, hbatch, tally_cons]
  exact Nat.zero_add _

/-- From the batch to the skipped requests. -/
theorem Placed.skip {s : State R} (h : Placed s) {item : QueuedRequest}
    {slot : Option BackendSlot} {rest : List (QueuedRequest × Option BackendSlot)} {r : Request}
    (hpc : s.pc = .dispatch) (hbatch : s.batch = (item, slot) :: rest)
    (hr : s.requests[item.respondTo]? = some r) (hchan : r.chan = .closed) :
    Placed { s with batch := rest, skipped := s.skipped ++ [item.respondTo] } := by
  have hbatched := batched_cons hpc hbatch
  have hafter : ∀ j, tally (QueuedRequest.of j) s.pc.items = 0 := by
    intro j
    rw [hpc]
    rfl
  refine h.moved h.wf (fun j => ?_) (fun j => ?_) rfl rfl (fun _ => id) fun j hj => ?_
  · show s.queued j + (tally (QueuedRequest.of j) s.pc.items + tally (fun e => e.1.of j) rest)
      + s.dispatched j + s.answered.count j + (s.skipped ++ [item.respondTo]).count j = _
    rw [hafter, hbatched, count_concat, QueuedRequest.of]
    omega
  · show s.queued j + (tally (QueuedRequest.of j) s.pc.items + tally (fun e => e.1.of j) rest)
      + s.unsent j + (s.skipped ++ [item.respondTo]).count j + s.sent.count j = _
    rw [hafter, hbatched, count_concat, QueuedRequest.of]
    omega
  · rcases List.mem_append.mp hj with hj | hj
    · exact h.skipped j hj
    · rw [List.mem_singleton.mp hj]
      show Option.any Request.hungUp s.requests[item.respondTo]?
      rw [hr]
      exact decide_eq_true hchan

/-- From the batch, or from the hands of the scheduler, to a task of its own. -/
theorem Placed.spawn {s : State R} (h : Placed s) {item : QueuedRequest} {slot : BackendSlot}
    {rest : List (QueuedRequest × Option BackendSlot)} {free : Option (List ℕ)} {gauge : ℤ}
    (hbatched : ∀ j, s.batched j = item.of j + tally (fun e => e.1.of j) rest) :
    Placed { s with
      free := free, backendInflight := gauge, batch := rest
      tasks := s.tasks ++ [⟨item, .ready slot⟩], pc := .dispatch } := by
  refine h.moved h.wf (fun j => ?_) (fun j => ?_) rfl rfl (fun _ => id) h.skipped
  · show s.queued j + (0 + tally (fun e => e.1.of j) rest)
      + tally (Task.busy j) (s.tasks ++ [⟨item, .ready slot⟩]) + s.answered.count j
      + s.skipped.count j = _
    rw [hbatched, tally_append, tally_cons, tally_nil, State.dispatched]
    show _ + (tally (Task.busy j) s.tasks + (item.of j + 0)) + _ + _ = _
    omega
  · show s.queued j + (0 + tally (fun e => e.1.of j) rest)
      + tally (Task.unsent j) (s.tasks ++ [⟨item, .ready slot⟩]) + s.skipped.count j
      + s.sent.count j = _
    rw [hbatched, tally_append, tally_cons, tally_nil, State.unsent]
    show _ + (tally (Task.unsent j) s.tasks + (item.of j + 0)) + _ + _ = _
    omega

/-- From the batch into the hands of the scheduler. -/
theorem Placed.await {s : State R} (h : Placed s) {item : QueuedRequest}
    {rest : List (QueuedRequest × Option BackendSlot)} (hpc : s.pc = .dispatch)
    (hbatch : s.batch = (item, none) :: rest) :
    Placed { s with batch := rest, pc := .acquireFor item } := by
  have hbatched := batched_cons hpc hbatch
  have hafter : ∀ j, tally (QueuedRequest.of j) (SchedPc.acquireFor item).items = item.of j := by
    intro j
    exact Nat.add_zero _
  refine h.moved h.wf (fun j => ?_) (fun j => ?_) rfl rfl (fun _ => id) h.skipped
  · rw [hbatched]
    show s.queued j + (tally (QueuedRequest.of j) (SchedPc.acquireFor item).items + _)
      + s.dispatched j + _ + _ = _
    rw [hafter]
  · rw [hbatched]
    show s.queued j + (tally (QueuedRequest.of j) (SchedPc.acquireFor item).items + _)
      + s.unsent j + _ + _ = _
    rw [hafter]

/-- A task moves on, which changes how much of it is unsent. -/
theorem Placed.setTask {s s' : State R} (h : Placed s) {k : ℕ} {t t' : Task}
    (ht : s.tasks[k]? = some t) (htasks : s'.tasks = s.tasks.set k t')
    (hplaces : ∀ j, t'.busy j + s'.answered.count j = t.busy j + s.answered.count j)
    (hsends : ∀ j, t'.unsent j + s'.sent.count j = t.unsent j + s.sent.count j)
    (hqueue : s'.queue = s.queue) (hpc : s'.pc = s.pc) (hbatch : s'.batch = s.batch)
    (haccepted : s'.accepted = s.accepted) (hrefused : s'.refused = s.refused)
    (hskipped : s'.skipped = s.skipped) (hsubmitted : ∀ i, s.submitted i → s'.submitted i)
    (hhungUp : ∀ i ∈ s.skipped, s'.hungUp i) : Placed s' := by
  refine h.moved (hqueue ▸ h.wf) (fun j => ?_) (fun j => ?_) haccepted hrefused hsubmitted
    (hskipped ▸ hhungUp)
  · have hset := tally_set (Task.busy j) ht t'
    have := hplaces j
    unfold State.queued State.batched State.dispatched
    rw [hqueue, hpc, hbatch, htasks, hskipped]
    omega
  · have hset := tally_set (Task.unsent j) ht t'
    have := hsends j
    unfold State.queued State.batched State.unsent
    rw [hqueue, hpc, hbatch, htasks, hskipped]
    omega

theorem requests_dropSlot? {s : State R} {i : ℕ} {r : Request} (hr : s.requests[i]? = some r)
    (slot : Option BackendSlot) : (s.dropSlot? slot).requests[i]? = some r := by
  rw [State.dropSlot?_requests, hr]

/-- Dropping a slot moves no request. -/
theorem Placed.dropSlot? {s : State R} (h : Placed s) (slot : Option BackendSlot) :
    Placed (s.dropSlot? slot) := by
  apply h.unchanged
  · simp [State.whereabouts]
  · exact State.dropSlot?_requests s slot

/-- A request keeps its place in `push` and its hang-up when only these fields of it change. -/
theorem Placed.request {s : State R} (h : Placed s) {i : ℕ} {r : Request} (r' : Request)
    (hr : s.requests[i]? = some r) (hsub : r.submitted → r'.submitted)
    (hhang : r.hungUp → r'.hungUp) : Placed (s.setRequest i r') :=
  h.setRequest hr rfl hsub hhang rfl

/-- Nor does waking the scheduler. -/
theorem Placed.notifyOne {s : State R} (h : Placed s) : Placed s.notifyOne := by
  unfold State.notifyOne
  split
  · rename_i hpc
    apply h.unchanged
    · simp only [State.whereabouts, hpc, SchedPc.items]
    · rfl
  · exact h.unchanged rfl rfl

theorem notifyOne_requests (s : State R) : s.notifyOne.requests = s.requests := by
  unfold State.notifyOne
  split <;> rfl

/-- Every key pushes at a positive weight. -/
theorem queueKey_weight_pos (cfg : Config) (t : Tenant R) :
    0 < (State.queueKey cfg t).2 := by
  unfold State.queueKey
  split
  · exact Tier.weight_pos t.tier
  · exact one_pos

variable [Add R] [Sub R] [Mul R] [Min R] [LT R] [DecidableLT R] [NatCast R] [RatCast R]

/-- Every step keeps the location invariant. -/
theorem Placed.step {cfg : Config} {s s' : State R} {a : Action} (h : Placed s)
    (hs : Stepped cfg s a s') : Placed s' := by
  cases hs with
  | arrive tenant req ht =>
    refine h.frame rfl ?_ ?_
    · intro i hi
      exact any_append hi
    · intro i hi
      exact any_append hi
  | granted i now r t reserve l hr hpc ht hreserve hl =>
    exact h.setRequest hr rfl (fun hsub => by simp [Request.submitted, hpc] at hsub) id rfl
  | denied i now r t reserve e hr hpc ht hreserve he =>
    exact h.setRequest hr rfl (fun _ => rfl) id rfl
  | pushed i r t queue hr hpc ht hroom hq =>
    exact h.pushed hr hpc (queueKey_weight_pos cfg t) hroom rfl hq
  | queueFull i r hr hpc hfull => exact h.queueFull hr hpc
  | notify i r hr hpc =>
    have hr' : s.notifyOne.requests[i]? = some r := by rw [notifyOne_requests, hr]
    exact h.notifyOne.request _ hr' (fun _ => rfl) id
  | receiveStream i r slot hr hpc hchan hstream =>
    refine h.setRequest hr rfl (fun _ => rfl) (fun hh => ?_) rfl
    simp [Request.hungUp, hchan] at hh
  | receiveBuffered i r slot hr hpc hchan | receiveError i r e hr hpc hchan =>
    exact h.request _ hr (fun _ => rfl) fun hh => by simp [Request.hungUp, hchan] at hh
  | bodyOk i n r slot hr | bodyErr i r slot hr | closeBody i r slot hr | cancel i r slot hr =>
    exact h.request _ hr (fun _ => rfl) id
  | releaseBody i r slot n hr hpc =>
    exact (h.dropSlot? _).request _ (requests_dropSlot? hr _) (fun _ => rfl) id
  | chunk i bytes r slot hr hpc => exact h.request _ hr id id
  | hangUp i r hr hpc =>
    exact (h.dropSlot? _).request _ (requests_dropSlot? hr _) (fun _ => rfl) fun _ => rfl
  | settle i now r slot exit hr hpc =>
    have hset : (s.settle i r slot exit now).requests = (s.dropSlot? slot).requests.set i
        { r with
          lease := r.lease.settle, pc := .done, outcomes := r.outcomes ++ exit.outcomes } := by
      rw [State.dropSlot?_requests]
      rfl
    exact (h.dropSlot? slot).setRequest (requests_dropSlot? hr slot) hset (fun _ => rfl) id rfl
  | popped slot item hpc hq =>
    refine h.popped hpc hq ?_
    split <;> rfl
  | popEmpty slot hpc hq => exact h.popEmpty hpc hq
  | acquire slot free hpc | consume slot hpc | park slot hpc | wake slot hpc | again hpc
  | deadline forward hpc | expire woken forward hpc | batchDone hpc =>
    exact h.unchanged (by simp only [State.whereabouts, hpc, SchedPc.items]) rfl
  | skip item slot rest r hpc hbatch hr hchan => exact (h.skip hpc hbatch hr hchan).dropSlot? slot
  | spawn item slot rest r hpc hbatch hr hchan => exact h.spawn (batched_cons hpc hbatch)
  | await item rest r hpc hbatch hr hchan => exact h.await hpc hbatch
  | acquireFor item slot free hpc hslot =>
    refine h.spawn fun j => ?_
    rw [State.batched, hpc]
    exact congrArg (· + _) (Nat.add_zero _)
  | send k g t slot r ht hpc hr =>
    refine h.setTask ht rfl (fun j => ?_) (fun j => ?_) rfl rfl rfl rfl rfl rfl
      (fun i hi => any_set hr ?_ hi) fun i hi => any_set hr ?_ (h.skipped i hi)
    · simp only [Task.busy, hpc]
      rfl
    · show 0 + (s.sent ++ [t.item.respondTo]).count j = _
      rw [count_concat]
      simp only [Task.unsent, hpc, QueuedRequest.of]
      omega
    · exact id
    · exact id
  | backendOk k t slot ht hpc =>
    refine h.setTask ht rfl (fun j => ?_) (fun j => ?_) rfl rfl rfl rfl rfl rfl (fun _ => id)
      h.skipped
    · simp only [Task.busy, hpc]
      rfl
    · simp only [Task.unsent, hpc]
      rfl
  | backendErr k e t slot ht hpc =>
    -- the slot goes first, then the task has its reply
    have hd := h.dropSlot? (some slot)
    refine hd.setTask (by rw [State.dropSlot?_tasks, ht]) rfl (fun j => ?_) (fun j => ?_)
      rfl rfl rfl rfl rfl rfl (fun _ => id) hd.skipped
    · simp only [Task.busy, hpc]
      rfl
    · simp only [Task.unsent, hpc]
      rfl
  | deliver k t reply r ht hpc hr hchan =>
    refine h.setTask ht rfl (fun j => ?_) (fun j => ?_) rfl rfl rfl rfl rfl rfl
      (fun i hi => any_set hr ?_ hi) fun i hi => any_set hr ?_ (h.skipped i hi)
    · show 0 + (s.answered ++ [t.item.respondTo]).count j = _
      rw [count_concat]
      simp only [Task.busy, hpc, QueuedRequest.of]
      omega
    · simp only [Task.unsent, hpc]
    · exact id
    · -- an unused channel has not been hung up on
      intro hh
      simp [Request.hungUp, hchan] at hh
  | discard k t reply r ht hpc hr hchan =>
    refine Placed.dropSlot? ?_ _
    refine h.setTask ht rfl (fun j => ?_) (fun j => ?_) rfl rfl rfl rfl rfl rfl (fun _ => id)
      h.skipped
    · show 0 + (s.answered ++ [t.item.respondTo]).count j = _
      rw [count_concat]
      simp only [Task.busy, hpc, QueuedRequest.of]
      omega
    · simp only [Task.unsent, hpc]

/-- The only step that adds to the skipped requests is that of an abandoned item. -/
theorem skipped_cases {cfg : Config} {s s' : State R} {a : Action} (hs : Stepped cfg s a s') :
    s'.skipped = s.skipped ∨ ∃ i, s.hungUp i ∧ s'.skipped = s.skipped ++ [i] := by
  cases hs with
  | skip item slot rest r hpc hbatch hr hchan =>
    right
    refine ⟨item.respondTo, ?_, State.dropSlot?_skipped _ _⟩
    unfold State.hungUp
    rw [hr]
    exact decide_eq_true hchan
  | notify i r hr hpc =>
    left
    unfold State.notifyOne State.setRequest
    split <;> rfl
  | releaseBody i r slot n hr hpc => exact Or.inl (State.dropSlot?_skipped _ _)
  | hangUp i r hr hpc => exact Or.inl (State.dropSlot?_skipped _ _)
  | settle i now r slot exit hr hpc => exact Or.inl (State.dropSlot?_skipped _ _)
  | backendErr k e t slot ht hpc => exact Or.inl (State.dropSlot?_skipped _ _)
  | discard k t reply r ht hpc hr hchan => exact Or.inl (State.dropSlot?_skipped _ _)
  | _ => exact Or.inl rfl

/-- So in every run each request is in one place. -/
theorem placed_of_exec {cfg : Config} {tenants : List (Tenant R)} {actions : List Action}
    {s : State R} (hrun : exec (step cfg) (init cfg tenants) actions = some s) : Placed s :=
  exec_invariant (fun _ _ _ hi hs => hi.step (step_cases hs)) (placed_init cfg tenants) hrun

/-- In how many places request `i` is. -/
def State.places (s : State R) (i : ℕ) : ℕ :=
  s.queued i + s.batched i + s.dispatched i + s.answered.count i + s.skipped.count i

/-- No request is lost, duplicated or answered twice, whatever the configuration and the order
of the steps. -/
theorem request_in_one_place (cfg : Config) (tenants : List (Tenant R)) (actions : List Action)
    (s : State R) (hrun : exec (step cfg) (init cfg tenants) actions = some s) :
    (∀ i ∈ s.accepted, s.places i = 1) ∧
    (∀ i ∉ s.accepted, s.places i = 0 ∧ i ∉ s.sent) ∧
    (∀ i, s.sent.count i ≤ 1 ∧ s.answered.count i ≤ 1) ∧
    (∀ i ∈ s.refused, s.places i = 0 ∧ i ∉ s.sent) ∧
    (∀ i ∈ s.skipped, s.hungUp i) ∧
    ∀ a s' i, step cfg s a = some s' → s.skipped.count i < s'.skipped.count i → s.hungUp i := by
  have h := placed_of_exec hrun
  have hone : ∀ i, s.accepted.count i + s.refused.count i ≤ 1 := fun i =>
    (h.once i).trans (Bool.toNat_le _)
  have hout : ∀ i, s.accepted.count i = 0 → s.places i = 0 ∧ i ∉ s.sent := by
    intro i hi
    have hplaces := h.places i
    have hsends := h.sends i
    refine ⟨by unfold State.places; omega, fun hmem => ?_⟩
    have := List.count_pos_iff.mpr hmem
    omega
  refine ⟨fun i hi => ?_, fun i hi => ?_, fun i => ?_, fun i hi => ?_, h.skipped, ?_⟩
  · have := h.places i
    have := hone i
    have := List.count_pos_iff.mpr hi
    unfold State.places
    omega
  · exact hout i (List.count_eq_zero.mpr hi)
  · have := h.places i
    have := h.sends i
    have := hone i
    constructor <;> omega
  · have := hone i
    have := List.count_pos_iff.mpr hi
    exact hout i (by omega)
  · intro a s' i hstep hlt
    rcases skipped_cases (step_cases hstep) with he | ⟨j, hj, he⟩
    · rw [he] at hlt
      exact absurd hlt (lt_irrefl _)
    · rw [he, count_concat] at hlt
      by_cases hji : j = i
      · rw [← hji]
        exact hj
      · rw [if_neg hji] at hlt
        omega

/-- One request is answered, one hangs up in the queue, one finds the queue full. -/
theorem request_in_one_place_run :
    ∃ s : State ℚ, exec (step ⟨2, 0, 1, true, 16⟩)
        (init ⟨2, 0, 1, true, 16⟩ [.fromConfig ⟨"acme", "key", .paid, 600, 5, 4⟩ 0])
        [.arrive 0 ⟨none, false⟩, .arrive 0 ⟨some 8, true⟩, .arrive 0 ⟨some 8, false⟩,
          .admission 0 0, .push 0, .acquire, .admission 1 0, .push 1, .admission 2 1, .push 2,
          .pop, .notify 0, .notify 1, .dispatchNext, .send 0 8, .disconnect 1, .backendOk 0,
          .deliver 0, .receive 0, .bodyOk 0 8, .releaseBody 0, .dispatchNext, .acquire, .pop,
          .dispatchNext] = some s ∧
      s.places 0 = 1 ∧ s.places 1 = 1 ∧ s.hungUp 1 ∧ s.places 2 = 0 ∧ 2 ∉ s.sent := by
  have hrun : (exec (step ⟨2, 0, 1, true, 16⟩)
      (init ⟨2, 0, 1, true, 16⟩ [.fromConfig ⟨"acme", "key", .paid, 600, 5, 4⟩ 0])
      [.arrive 0 ⟨none, false⟩, .arrive 0 ⟨some 8, true⟩, .arrive 0 ⟨some 8, false⟩,
        .admission 0 0, .push 0, .acquire, .admission 1 0, .push 1, .admission 2 1, .push 2,
        .pop, .notify 0, .notify 1, .dispatchNext, .send 0 8, .disconnect 1, .backendOk 0,
        .deliver 0, .receive 0, .bodyOk 0 8, .releaseBody 0, .dispatchNext, .acquire, .pop,
        .dispatchNext]).map (fun s : State ℚ => (s.accepted, s.refused, s.skipped))
      = some ([0, 1], [2], [1]) := by
    decide +kernel
  obtain ⟨s, hs, hl⟩ := Option.map_eq_some_iff.mp hrun
  obtain ⟨hplaces, -, -, hrefused, hskipped, -⟩ := request_in_one_place _ _ _ s hs
  simp only [Prod.mk.injEq] at hl
  rw [hl.1] at hplaces
  rw [hl.2.1] at hrefused
  rw [hl.2.2] at hskipped
  exact ⟨s, hs, hplaces 0 (by decide), hplaces 1 (by decide), hskipped 1 (by decide),
    (hrefused 2 (by decide)).1, (hrefused 2 (by decide)).2⟩

end Gateway
end OxideGate
