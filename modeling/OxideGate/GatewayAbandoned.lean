import OxideGate.GatewayCap
import OxideGate.GatewayWaiting

/-!
# Clients that hang up before their request has a slot

The scheduler looks at `is_closed` when it comes to an item of its batch. The first item of a
batch has its slot by then. Every other item gets one after the check, and `acquire_slot` may
wait: a client that hangs up during that wait is not noticed any more.

* `Gone` is what the check makes of a request whose client has left: no step sends it;
* `Attended` is what holds of the item in the scheduler's hands as long as its client does not
  leave during that wait;
* `late_leave_sent` shows that a client that does leave then can always see its request sent.
-/

namespace OxideGate
namespace Gateway

open Runs Tally

variable {R : Type}

namespace State

variable (s : State R) (i : ℕ)

/-- Request `i` waits for a slot: in the queue, in the batch, or in the scheduler's hands. A slot
that is taken before `pop` is nobody's yet. -/
def AwaitsSlot : Prop :=
  ∃ item, item.respondTo = i ∧
    (item ∈ s.queue.contents ∨ (item, none) ∈ s.batch ∨ item ∈ s.pc.items)

/-- The client of request `i` has hung up, and there is no slot for the request yet. -/
def Abandoned : Prop := s.hungUp i ∧ s.AwaitsSlot i

/-- The client of request `i` hangs up while the scheduler waits in `acquire_slot` for the slot of
request `i`. -/
def leavesLate (a : Action) : Bool :=
  decide (a = .disconnect i) && s.pc.items.any fun item => decide (item.respondTo = i)

/-- How often request `i` has been sent, or is about to be by the task that has its slot. -/
def sends : ℕ := s.unsent i + s.sent.count i

end State

/-- A request that is not sent any more. -/
structure Gone (i : ℕ) (s : State R) : Prop where
  hungUp : s.hungUp i
  items : ∀ item ∈ s.pc.items, item.respondTo ≠ i
  sends : s.sends i = 0

/-- The client of the item in the scheduler's hands is still there, if it is request `i`'s. -/
structure Attended (i : ℕ) (s : State R) : Prop extends Placed s where
  items : ∀ item ∈ s.pc.items, item.respondTo = i → ¬ s.hungUp i

/-! ## Waiting for a slot -/

/-- A request that waits for a slot is in the queue or with the scheduler. -/
theorem State.AwaitsSlot.placed {s : State R} {i : ℕ} (h : s.AwaitsSlot i) :
    0 < s.queued i + s.batched i := by
  obtain ⟨item, rfl, hitem⟩ := h
  have hone : item.of item.respondTo = 1 := if_pos rfl
  unfold State.queued State.batched
  rcases hitem with hitem | hitem | hitem
  · have := le_tally (QueuedRequest.of item.respondTo) hitem
    omega
  · have := le_tally (fun e : QueuedRequest × Option BackendSlot => e.1.of item.respondTo) hitem
    dsimp only at this
    omega
  · have := le_tally (QueuedRequest.of item.respondTo) hitem
    omega

/-- It has been accepted, and has not been given to a dispatch task. -/
theorem Placed.of_awaitsSlot {s : State R} (h : Placed s) {i : ℕ} (hi : s.AwaitsSlot i) :
    s.submitted i ∧ i ∈ s.accepted ∧ s.sends i = 0 ∧ i ∉ s.answered := by
  have hplaced := hi.placed
  have hplaces := h.places i
  have hsends := h.sends i
  have honce := h.once i
  have hle := Bool.toNat_le (s.submitted i)
  refine ⟨?_, List.count_pos_iff.mp (by omega), ?_, ?_⟩
  · by_contra hfalse
    rw [Bool.not_eq_true] at hfalse
    rw [hfalse, Bool.toNat_false] at honce
    omega
  · unfold State.sends
    omega
  · intro hmem
    have := List.count_pos_iff.mpr hmem
    omega

/-- The item in the scheduler's hand waits for a slot. -/
theorem awaitsSlot_of_item {s : State R} {item : QueuedRequest} (hitem : item ∈ s.pc.items) :
    s.AwaitsSlot item.respondTo :=
  ⟨item, rfl, Or.inr (Or.inr hitem)⟩

/-- No request has been abandoned yet. -/
theorem attended_init (cfg : Config) (tenants : List (Tenant R)) (i : ℕ) :
    Attended i (init cfg tenants) where
  toPlaced := placed_init cfg tenants
  items := fun _ hitem => absurd hitem List.not_mem_nil

/-- Whoever is attended to and gives up is gone. -/
theorem Attended.gone {s : State R} {i : ℕ} (h : Attended i s) (habandoned : s.Abandoned i) :
    Gone i s where
  hungUp := habandoned.1
  items := fun item hitem hi => h.items item hitem hi habandoned.1
  sends := (h.toPlaced.of_awaitsSlot habandoned.2).2.2.1

/-! ## Owners -/

theorem Chan.of_slot {c : Chan} {slot : BackendSlot} (h : c.slot = some slot) :
    c = .full (.ok slot) := by
  cases c with
  | full reply =>
    cases reply with
    | ok b => rw [Option.some.inj h]
    | error e => exact absurd h (by simp [Chan.slot, replySlot])
  | empty | taken | closed => exact absurd h (by simp [Chan.slot])

theorem exists_request {s : State R} {i : ℕ} {f : Request → Bool} (h : s.requests[i]?.any f) :
    ∃ r, s.requests[i]? = some r := by
  cases hr : s.requests[i]? with
  | none => simp [hr] at h
  | some r => exact ⟨r, rfl⟩

/-- A slot that has been handed out is with a task, in a channel or with a handler. -/
theorem exists_owner {s : State R} (h : s.handedOut (fun _ => 1) ≠ 0) :
    (∃ (k : ℕ) (t : Task) (slot : BackendSlot), s.tasks[k]? = some t ∧ t.pc.slot = some slot) ∨
    ∃ (i : ℕ) (r : Request) (slot : BackendSlot), s.requests[i]? = some r ∧
      (r.chan.slot = some slot ∨ r.pc.slot = some slot) := by
  by_contra hnone
  rw [not_or] at hnone
  obtain ⟨htasks, hrequests⟩ := hnone
  apply h
  have hzero : ∀ slot : Option BackendSlot, (∀ b, slot ≠ some b) → share (fun _ => 1) slot = 0 := by
    intro slot hslot
    cases slot with
    | none => rfl
    | some b => exact absurd rfl (hslot b)
  have htask : tally (fun t => share (fun _ => 1) t.pc.slot) s.tasks = 0 := by
    rw [tally_eq_zero]
    intro t ht
    obtain ⟨k, hk⟩ := List.getElem?_of_mem ht
    exact hzero _ fun b hb => htasks ⟨k, t, b, hk, hb⟩
  have hrequest : tally (Request.slots fun _ => 1) s.requests = 0 := by
    rw [tally_eq_zero]
    intro r hr
    obtain ⟨i, hi⟩ := List.getElem?_of_mem hr
    rw [Request.slots, hzero _ fun b hb => hrequests ⟨i, r, b, hi, Or.inl hb⟩,
      hzero _ fun b hb => hrequests ⟨i, r, b, hi, Or.inr hb⟩]
  rw [State.handedOut, htask, hrequest]

/-! ## What a step does to the items on their way to the backend -/

/-- Whose channel is not closed has not hung up. -/
theorem not_hungUp {s : State R} {i : ℕ} {r : Request} (hr : s.requests[i]? = some r)
    (hchan : r.chan ≠ .closed) : ¬ s.hungUp i := by
  unfold State.hungUp
  rw [hr]
  simpa [Request.hungUp] using hchan

/-- A task of the list moves on, which changes how much of it is unsent. -/
theorem unsent_set {tasks : List Task} {k : ℕ} {t : Task} (ht : tasks[k]? = some t) (t' : Task)
    (i n : ℕ) (h : t'.unsent i + n = t.unsent i) :
    tally (Task.unsent i) (tasks.set k t') + n = tally (Task.unsent i) tasks := by
  have hset := tally_set (Task.unsent i) ht t'
  omega

/-- A task that is spawned has its item to send. -/
theorem unsent_spawn (tasks : List Task) (item : QueuedRequest) (slot : BackendSlot) (i : ℕ) :
    tally (Task.unsent i) (tasks ++ [⟨item, .ready slot⟩])
      = tally (Task.unsent i) tasks + item.of i := by
  rw [tally_append, tally_cons, tally_nil]
  rfl

theorem QueuedRequest.of_ne {item : QueuedRequest} {i : ℕ} (h : item.respondTo ≠ i) :
    item.of i = 0 :=
  if_neg h

/-- Nobody comes back. -/
theorem Request.Moved.hungUp {i : ℕ} {r r' : Request} {a : Action} (hm : Moved i r a r')
    (h : r.hungUp) : r'.hungUp := by
  cases hm with
  | receiveStream slot hpc hchan hstream => simp [Request.hungUp, hchan] at h
  | receiveBuffered slot hpc hchan hstream => simp [Request.hungUp, hchan] at h
  | receiveError e hpc hchan => simp [Request.hungUp, hchan] at h
  | deliver k reply hchan => simp [Request.hungUp, hchan] at h
  | queueFull hpc => rfl
  | hangUp hpc => rfl
  | _ => exact h

variable [Add R] [Sub R] [Mul R] [Min R] [LT R] [DecidableLT R] [NatCast R] [RatCast R]

/-- The scheduler takes an item into its hands when it has seen that the client is there. -/
theorem items_cases {cfg : Config} {s s' : State R} {a : Action} (hs : Stepped cfg s a s') :
    s'.pc.items = s.pc.items ∨
      a.party = .scheduler ∧ ∀ item ∈ s'.pc.items, ¬ s.hungUp item.respondTo := by
  have hnone : ∀ pc : SchedPc, pc.items = [] → ∀ item ∈ pc.items, ¬ s.hungUp item.respondTo := by
    intro pc hpc item hitem
    rw [hpc] at hitem
    exact absurd hitem List.not_mem_nil
  cases hs with
  | notify i r hr hpc => exact Or.inl (notifyOne_queue s).2
  | acquire | popEmpty | consume | park | wake | again | deadline | expire | batchDone | spawn
  | acquireFor => exact Or.inr ⟨rfl, hnone _ rfl⟩
  | popped slot item hpc hq =>
    refine Or.inr ⟨rfl, hnone _ ?_⟩
    dsimp only
    split <;> rfl
  | await item rest r hpc hbatch hr hchan =>
    refine Or.inr ⟨rfl, fun item' hitem => ?_⟩
    rw [List.mem_singleton.mp hitem]
    exact not_hungUp hr hchan
  | releaseBody | hangUp | settle | skip | backendErr | discard =>
    exact Or.inl (by simp [State.setRequest, State.setTask, State.settle])
  | _ => exact Or.inl rfl

/-- A request gets its slot when it is in the scheduler's hands, or when the scheduler has just
seen that its client is there. -/
theorem sends_cases {cfg : Config} {s s' : State R} {a : Action} (hs : Stepped cfg s a s') :
    (∀ i, s'.sends i = s.sends i) ∨ ∃ item : QueuedRequest,
      (∀ i, s'.sends i = s.sends i + item.of i) ∧
      (item ∈ s.pc.items ∨ ¬ s.hungUp item.respondTo) := by
  unfold State.sends State.unsent
  cases hs with
  | notify i r hr hpc =>
    left
    unfold State.notifyOne State.setRequest
    split <;> exact fun _ => rfl
  | spawn item slot rest r hpc hbatch hr hchan =>
    refine Or.inr ⟨item, fun i => ?_, Or.inr (not_hungUp hr hchan)⟩
    rw [unsent_spawn]
    exact Nat.add_right_comm _ _ _
  | acquireFor item slot free hpc hslot =>
    refine Or.inr ⟨item, fun i => ?_, Or.inl ?_⟩
    · rw [unsent_spawn]
      exact Nat.add_right_comm _ _ _
    · rw [hpc]
      exact List.mem_singleton_self item
  | send k g t slot r ht hpc hr =>
    left
    intro i
    show tally _ (s.tasks.set k _) + (s.sent ++ [t.item.respondTo]).count i = _
    have hset := unsent_set ht { t with pc := .sending slot } i (t.item.of i)
      (by simp only [Task.unsent, hpc, Nat.zero_add])
    rw [count_concat]
    unfold QueuedRequest.of at hset
    omega
  | backendOk k t slot ht hpc =>
    left
    intro i
    have hset := unsent_set ht { t with pc := .responding (.ok slot) } i 0
      (by simp only [Task.unsent, hpc])
    show tally _ (s.tasks.set k _) + s.sent.count i = _
    omega
  | backendErr k e t slot ht hpc =>
    left
    intro i
    have hset := unsent_set ht { t with pc := .responding (.error e) } i 0
      (by simp only [Task.unsent, hpc])
    simp only [State.setTask, State.dropSlot?_tasks, State.dropSlot?_sent]
    omega
  | deliver k t reply r ht hpc hr hchan =>
    left
    intro i
    have hset := unsent_set ht { t with pc := .finished } i 0
      (by simp only [Task.unsent, hpc])
    show tally _ (s.tasks.set k _) + s.sent.count i = _
    omega
  | discard k t reply r ht hpc hr hchan =>
    left
    intro i
    have hset := unsent_set ht { t with pc := .finished } i 0
      (by simp only [Task.unsent, hpc])
    simp only [State.dropSlot?_tasks, State.dropSlot?_sent]
    omega
  | releaseBody | hangUp | settle | skip =>
    exact Or.inl fun _ => by simp [State.setRequest, State.settle]
  | _ => exact Or.inl fun _ => rfl

/-! ## Requests that are not sent any more -/

/-- A request that is gone stays so, unsent. -/
theorem Gone.step {cfg : Config} {s s' : State R} {a : Action} {i : ℕ} (h : Gone i s)
    (hs : Stepped cfg s a s') : Gone i s' where
  hungUp := any_requests hs (fun _ _ _ hm => hm.hungUp) h.hungUp
  items := by
    intro item hitem hi
    rcases items_cases hs with he | ⟨-, hnew⟩
    · rw [he] at hitem
      exact h.items item hitem hi
    · exact hnew item hitem (hi ▸ h.hungUp)
  sends := by
    rcases sends_cases hs with he | ⟨item, he, hitem⟩
    · rw [he, h.sends]
    · have hne : item.respondTo ≠ i := by
        rcases hitem with hhands | hthere
        · exact h.items item hhands
        · exact fun hi => hthere (hi ▸ h.hungUp)
      rw [he, h.sends, QueuedRequest.of_ne hne]

/-! ## The item in the scheduler's hands -/

/-- A step at which nobody leaves too late keeps the request attended to. -/
theorem Attended.step {cfg : Config} {s s' : State R} {a : Action} {i : ℕ} (h : Attended i s)
    (hstay : s.leavesLate i a = false) (hs : Stepped cfg s a s') : Attended i s' where
  toPlaced := h.toPlaced.step hs
  items := by
    intro item hitem hi hhung
    rcases items_cases hs with he | ⟨hparty, hnew⟩
    · rw [he] at hitem
      refine h.items item hitem hi (any_requests_back hs (fun _ _ => rfl) ?_ hhung)
      intro r r' hr hm hr'
      cases hm with
      | queueFull hpc =>
        -- the item in the scheduler's hands is past `push`
        have hsub := (h.toPlaced.of_awaitsSlot (awaitsSlot_of_item hitem)).1
        rw [hi, State.submitted, hr, Option.any_some, Request.submitted, hpc] at hsub
        exact absurd hsub (by simp)
      | hangUp hpc =>
        -- it is in this wait that nobody looks again
        have hlate : s.pc.items.any fun item => decide (item.respondTo = i) :=
          List.any_eq_true.mpr ⟨item, hitem, by simpa using hi⟩
        simp [State.leavesLate, hlate] at hstay
      | receiveStream | receiveBuffered | receiveError | deliver =>
        exact absurd hr' (by simp [Request.hungUp])
      | _ => exact hr'
    · refine hnew item hitem (hi ▸ any_requests_back hs (fun _ _ => rfl) ?_ hhung)
      intro r r' hr hm hr'
      cases hm <;> exact absurd hparty (by simp [Action.party])

/-- A request whose client hangs up before there is a slot for it is never sent, unless the client
leaves while the scheduler waits for that slot. -/
theorem abandoned_unsent (cfg : Config) (tenants : List (Tenant R)) (i : ℕ)
    (actions : List Action) (s : State R)
    (hstay : Along (step cfg) (fun s a => s.leavesLate i a = false) (init cfg tenants) actions)
    (hrun : exec (step cfg) (init cfg tenants) actions = some s) (habandoned : s.Abandoned i)
    (later : List Action) (s' : State R) (hlater : exec (step cfg) s later = some s') :
    i ∉ s'.sent := by
  have hattended : Attended i s :=
    exec_invariant_along (fun _ _ _ h hstay hs => h.step hstay (step_cases hs))
      (attended_init cfg tenants i) hstay hrun
  have hgone : Gone i s' :=
    exec_invariant (fun _ _ _ h hs => h.step (step_cases hs)) (hattended.gone habandoned) hlater
  have hsends := hgone.sends
  unfold State.sends at hsends
  intro hi
  have := List.count_pos_iff.mpr hi
  omega

/-! ## A wait for a slot can end -/

section Wait

variable {cfg : Config} {s s₁ : State R} {a : Action}

/-- The parties other than the scheduler can get a permit back to the limiter. -/
def Freed (cfg : Config) (s : State R) : Prop :=
  ∃ later s', exec (step cfg) s later = some s' ∧ s'.pc = s.pc ∧ ∃ p l, s'.free = some (p :: l)

/-- What a step makes possible was possible before it. -/
theorem Freed.of_step (hs : step cfg s a = some s₁) (hpc : s₁.pc = s.pc) (h : Freed cfg s₁) :
    Freed cfg s := by
  obtain ⟨later, s', hlater, hpc', hfree⟩ := h
  exact ⟨a :: later, s', (exec_cons _).mpr ⟨s₁, hs, hlater⟩, hpc'.trans hpc, hfree⟩

/-- A step that drops a slot. -/
theorem freed_of_drop {p : ℕ} (hs : step cfg s a = some s₁) (hpc : s₁.pc = s.pc)
    (hfree : s₁.free = s.free.map fun l => p :: l) (hlimiter : s.free ≠ none) : Freed cfg s := by
  obtain ⟨l, hl⟩ := Option.ne_none_iff_exists'.mp hlimiter
  rw [hl] at hfree
  exact ⟨[a], s₁, (exec_cons _).mpr ⟨s₁, hs, rfl⟩, hpc, p, l, hfree⟩

/-- A handler that is closing gives its permit back. -/
theorem freed_closing {i p : ℕ} {r : Request} {exit : Exit} (hlimiter : s.free ≠ none)
    (hr : s.requests[i]? = some r) (hpc : r.pc = .closing (some ⟨some p⟩) exit) : Freed cfg s := by
  have hs : step cfg s (.settle i 0) = some (s.settle i r (some ⟨some p⟩) exit 0) := by
    simp only [step, Action.party, hr, Option.bind_some, handlerStep, hpc]
  exact freed_of_drop hs rfl rfl hlimiter

/-- A handler that has a slot reads the reply, or pipes it through, or is about to drop it. -/
theorem freed_handler {i p : ℕ} {r : Request} (hlimiter : s.free ≠ none)
    (hr : s.requests[i]? = some r) (hslot : r.pc.slot = some ⟨some p⟩) : Freed cfg s := by
  have hset : ∀ r' : Request, (s.setRequest i r').requests[i]? = some r' := fun r' =>
    List.getElem?_set_self (List.getElem?_eq_some_iff.mp hr).1
  cases hpc : r.pc with
  | reading slot =>
    rw [hpc] at hslot
    rw [Option.some.inj hslot] at hpc
    have hs : step cfg s (.bodyErr i) = some (s.bodyErr i r ⟨some p⟩) := by
      simp only [step, Action.party, hr, Option.bind_some, handlerStep, hpc]
    exact .of_step hs rfl (freed_closing hlimiter (hset _) rfl)
  | parsed slot n =>
    rw [hpc] at hslot
    rw [Option.some.inj hslot] at hpc
    have hs : step cfg s (.releaseBody i) = some (s.releaseBody i r ⟨some p⟩ n) := by
      simp only [step, Action.party, hr, Option.bind_some, handlerStep, hpc]
    exact freed_of_drop hs rfl rfl hlimiter
  | streaming slot =>
    rw [hpc] at hslot
    rw [Option.some.inj hslot] at hpc
    have hs : step cfg s (.closeBody i)
        = some (s.setRequest i { r with pc := .closing (some ⟨some p⟩) .bodyClosed }) := by
      simp only [step, Action.party, hr, Option.bind_some, handlerStep, hpc]
    exact .of_step hs rfl (freed_closing hlimiter (hset _) rfl)
  | closing slot exit =>
    rw [hpc] at hslot
    exact freed_closing hlimiter hr (by rw [hpc, show slot = some ⟨some p⟩ from hslot])
  | admitting | pushing | notifying | waiting | done =>
    rw [hpc] at hslot
    exact absurd hslot (by simp [HandlerPc.slot])

/-- A reply that waits in its channel goes when its client does. -/
theorem freed_reply {i p : ℕ} {r : Request} {item : QueuedRequest}
    (hacquire : s.pc = .acquireFor item) (hlimiter : s.free ≠ none)
    (hr : s.requests[i]? = some r) (hcoherent : r.Coherent)
    (hslot : r.chan.slot = some ⟨some p⟩) : Freed cfg s := by
  have hchan := Chan.of_slot hslot
  have hwaiting : ∀ (s : State R) (r : Request), s.free ≠ none → s.requests[i]? = some r →
      r.pc = .waiting → r.chan = .full (.ok ⟨some p⟩) → Freed cfg s := by
    intro s r hlimiter hr hpc hchan
    have hs : step cfg s (.disconnect i) = some (s.hangUp i r) := by
      simp only [step, Action.party, hr, Option.bind_some, handlerStep, hpc]
    unfold State.hangUp at hs
    rw [hchan] at hs
    exact freed_of_drop hs rfl rfl hlimiter
  rcases (hcoherent.of_full hchan).1 with hpc | hpc
  · have hs : step cfg s (.notify i)
        = some (s.notifyOne.setRequest i { r with pc := .waiting }) := by
      simp only [step, Action.party, hr, Option.bind_some, handlerStep, hpc]
    have hnotify : s.notifyOne = { s with permit := true } := by
      simp only [State.notifyOne, hacquire]
    rw [hnotify] at hs
    refine .of_step hs rfl (hwaiting _ { r with pc := .waiting } hlimiter ?_ rfl hchan)
    exact List.getElem?_set_self (List.getElem?_eq_some_iff.mp hr).1
  · exact hwaiting s r hlimiter hr hpc hchan

/-- A dispatch task gives its slot back when the backend fails, or hands it on with the reply. -/
theorem freed_task {k p : ℕ} {t : Task} {item : QueuedRequest} {tenants : List (Tenant R)}
    {actions : List Action} (hrun : exec (step cfg) (init cfg tenants) actions = some s)
    (hacquire : s.pc = .acquireFor item) (hlimiter : s.free ≠ none) (ht : s.tasks[k]? = some t)
    (hslot : t.pc.slot = some ⟨some p⟩) : Freed cfg s := by
  have hhandled := handled_of_exec hrun
  have hsending : ∀ (s : State R) (t : Task), s.free ≠ none → s.tasks[k]? = some t →
      t.pc = .sending ⟨some p⟩ → Freed cfg s := by
    intro s t hlimiter ht hpc
    have hs : step cfg s (.backendErr k .backendUnreachable) = some ((s.dropSlot ⟨some p⟩).setTask k
        { t with pc := .responding (.error .backendUnreachable) }) := by
      simp only [step, Action.party, ht, Option.bind_some, taskStep, hpc]
    exact freed_of_drop hs rfl rfl hlimiter
  cases hpc : t.pc with
  | ready slot =>
    rw [hpc] at hslot
    rw [Option.some.inj hslot] at hpc
    have hentered := hhandled.entered _ (hhandled.unanswered ht (by simp [hpc])).1
    obtain ⟨r, hr⟩ := exists_request hentered
    have hs : step cfg s (.send k 0) = some (s.send k t ⟨some p⟩ r 0) := by
      simp only [step, Action.party, ht, Option.bind_some, taskStep, hpc, hr, Option.map_some]
    refine .of_step hs rfl (hsending _ { t with pc := .sending ⟨some p⟩ } hlimiter ?_ rfl)
    exact List.getElem?_set_self (List.getElem?_eq_some_iff.mp ht).1
  | sending slot =>
    rw [hpc] at hslot
    rw [Option.some.inj hslot] at hpc
    exact hsending s t hlimiter ht hpc
  | responding reply =>
    rw [hpc] at hslot
    cases reply with
    | error e => exact absurd hslot (by simp [TaskPc.slot, replySlot])
    | ok slot =>
      rw [Option.some.inj hslot] at hpc
      obtain ⟨s₁, hs⟩ := deliver_enabled hrun ht hpc
      have hhandled₁ := hhandled.step (step_cases hs)
      cases step_cases hs with
      | deliver _ t' reply' r ht' hpc' hr hchan =>
        rw [ht, Option.some.injEq] at ht'
        rw [← ht', hpc, TaskPc.responding.injEq] at hpc'
        have hr₁ := List.getElem?_set_self (a := { r with chan := .full reply' })
          (List.getElem?_eq_some_iff.mp hr).1
        exact .of_step hs rfl (freed_reply hacquire hlimiter hr₁ (hhandled₁.coherent _ _ hr₁)
          (by rw [← hpc']; rfl))
      | discard _ t' reply' r ht' hpc' hr hchan =>
        rw [ht, Option.some.injEq] at ht'
        rw [← ht', hpc, TaskPc.responding.injEq] at hpc'
        rw [← hpc'] at hs
        exact freed_of_drop hs rfl rfl hlimiter
  | finished =>
    rw [hpc] at hslot
    exact absurd hslot (by simp [TaskPc.slot])

/-- While the scheduler waits for a slot, the others can always give one back. -/
theorem freed_of_exec (hm : 0 < cfg.maxInflight) {tenants : List (Tenant R)}
    {actions : List Action} (hrun : exec (step cfg) (init cfg tenants) actions = some s)
    {item : QueuedRequest} (hacquire : s.pc = .acquireFor item) : Freed cfg s := by
  obtain ⟨hbalanced, hshaped⟩ := balanced_of_exec hm hrun
  obtain ⟨free, hfree, hbalance⟩ := id hbalanced
  have hlimiter : s.free ≠ none := by simp [hfree]
  cases free with
  | cons p l => exact ⟨[], s, rfl, rfl, p, l, hfree⟩
  | nil =>
    obtain ⟨hslot, hbatch⟩ := hshaped.acquiring (Or.inr ⟨item, hacquire⟩)
    have hout : s.handedOut (fun _ => 1) ≠ 0 := by
      have hall := hbalance fun _ => 1
      rw [live_eq_handedOut hslot hbatch] at hall
      intro hzero
      rw [hzero] at hall
      simp [tally] at hall
      omega
    -- every slot that is handed out has a permit
    rcases exists_owner hout with ⟨k, t, slot, ht, hslot⟩ | ⟨i, r, slot, hr, hslot⟩
    · obtain ⟨p, -, rfl⟩ := hbalanced.owns_permit (Or.inl ⟨k, t, ht, rfl, hslot⟩)
      exact freed_task hrun hacquire hlimiter ht hslot
    · obtain ⟨p, -, rfl⟩ := hbalanced.owns_permit (Or.inr ⟨r, hr, hslot⟩)
      rcases hslot with hchan | hpc
      · exact freed_reply hacquire hlimiter hr ((handled_of_exec hrun).coherent i r hr) hchan
      · exact freed_handler hlimiter hr hpc

end Wait

/-- What the scheduler waits for comes, and then the item in its hands is sent. -/
theorem sent_of_exec {cfg : Config} (hm : 0 < cfg.maxInflight) {tenants : List (Tenant R)}
    {actions : List Action} {s : State R}
    (hrun : exec (step cfg) (init cfg tenants) actions = some s) {item : QueuedRequest}
    (hacquire : s.pc = .acquireFor item) :
    ∃ later s', exec (step cfg) s later = some s' ∧ item.respondTo ∈ s'.sent := by
  obtain ⟨later, s₁, hlater, hpc, p, l, hfree⟩ := freed_of_exec hm hrun hacquire
  rw [hacquire] at hpc
  have hitem : item ∈ s₁.pc.items := by
    rw [hpc]
    exact List.mem_singleton_self item
  have hplaced := placed_of_exec ((exec_append _).mpr ⟨s, hrun, hlater⟩)
  obtain ⟨r, hr⟩ := exists_request (hplaced.of_awaitsSlot (awaitsSlot_of_item hitem)).1
  have hs₁ : step cfg s₁ .acquireFor = some ({ s₁ with
      free := some l, backendInflight := s₁.backendInflight + 1 }.spawnDispatch item ⟨some p⟩) := by
    simp only [step, Action.party, schedulerStep, hpc, State.acquireSlot, hfree, Option.map_some]
  obtain ⟨s₂, hs₂⟩ : ∃ s₂, s₂ = { s₁ with
      free := some l, backendInflight := s₁.backendInflight + 1 }.spawnDispatch item ⟨some p⟩ :=
    ⟨_, rfl⟩
  have ht : s₂.tasks[s₁.tasks.length]? = some ⟨item, .ready ⟨some p⟩⟩ := by
    rw [hs₂]
    exact List.getElem?_concat_length
  have hr₂ : s₂.requests[item.respondTo]? = some r := by
    rw [hs₂]
    exact hr
  have hs₃ : step cfg s₂ (.send s₁.tasks.length 0)
      = some (s₂.send s₁.tasks.length ⟨item, .ready ⟨some p⟩⟩ ⟨some p⟩ r 0) := by
    simp only [step, Action.party, ht, Option.bind_some, taskStep, hr₂, Option.map_some]
  refine ⟨later ++ [.acquireFor, .send s₁.tasks.length 0], _, (exec_append _).mpr ⟨s₁, hlater,
    (exec_cons _).mpr ⟨s₂, hs₂ ▸ hs₁, (exec_cons _).mpr ⟨_, hs₃, rfl⟩⟩⟩, ?_⟩
  exact List.mem_append_right _ (List.mem_singleton_self _)

/-- A client that leaves while the scheduler waits for the slot of its request hangs up before
there is a slot, and its request can be sent all the same. -/
theorem late_leave_sent {cfg : Config} (hm : 0 < cfg.maxInflight) {tenants : List (Tenant R)}
    {i : ℕ} {actions : List Action} {s s₁ : State R} {a : Action}
    (hrun : exec (step cfg) (init cfg tenants) actions = some s) (hlate : s.leavesLate i a)
    (hs : step cfg s a = some s₁) :
    s₁.Abandoned i ∧ ∃ later s', exec (step cfg) s₁ later = some s' ∧ i ∈ s'.sent := by
  simp only [State.leavesLate, Bool.and_eq_true, decide_eq_true_eq, List.any_eq_true] at hlate
  obtain ⟨rfl, item, hitem, rfl⟩ := hlate
  have hhandled := handled_of_exec hrun
  have hacquire : s.pc = .acquireFor item := by
    cases hpc : s.pc with
    | acquireFor item' =>
      rw [hpc] at hitem
      rw [List.mem_singleton.mp hitem]
    | acquire | next _ _ | collect | dispatch =>
      rw [hpc] at hitem
      exact absurd hitem List.not_mem_nil
  have hrun₁ := exec_concat _ hrun hs
  cases step_cases hs with
  | cancel _ r slot hr hpc =>
    -- no reply has been received for a request that still waits for its slot
    have hcoherent := hhandled.coherent _ r hr
    rw [Request.Coherent, hpc] at hcoherent
    exact absurd (hhandled.answered _ r hr (by simp [Request.replied, hcoherent.2]))
      (hhandled.of_awaitsSlot (awaitsSlot_of_item hitem)).2.2.2
  | hangUp _ r hr hpc =>
    have hpc₁ : ((s.dropSlot? r.chan.slot).setRequest item.respondTo { r with
        chan := .closed, pc := .closing none .cancelled }).pc = s.pc := State.dropSlot?_pc _ _
    refine ⟨⟨?_, awaitsSlot_of_item ?_⟩, sent_of_exec hm hrun₁ (hpc₁.trans hacquire)⟩
    · show Option.any _ ((s.dropSlot? r.chan.slot).requests.set _ _)[_]? = true
      rw [State.dropSlot?_requests, List.getElem?_set_self (List.getElem?_eq_some_iff.mp hr).1]
      rfl
    · rw [hpc₁]
      exact hitem

/-- Requests whose clients hang up before there is a slot for them are never sent in exactly those
runs in which no client leaves while the scheduler waits for the slot of its request. -/
theorem abandoned_unsent_iff (cfg : Config) (hm : 0 < cfg.maxInflight) (tenants : List (Tenant R))
    (i : ℕ) (actions : List Action) (u : State R)
    (hrun : exec (step cfg) (init cfg tenants) actions = some u) :
    (∀ before after s, actions = before ++ after →
      exec (step cfg) (init cfg tenants) before = some s → s.Abandoned i →
      ∀ later s', exec (step cfg) s later = some s' → i ∉ s'.sent) ↔
    Along (step cfg) (fun s a => s.leavesLate i a = false) (init cfg tenants) actions := by
  rw [along_iff]
  constructor
  · intro hunsent before a after s hactions hs
    by_contra hlate
    rw [Bool.not_eq_false] at hlate
    rw [hactions, exec_append] at hrun
    obtain ⟨t, ht, htu⟩ := hrun
    rw [hs, Option.some.injEq] at ht
    subst ht
    obtain ⟨s₁, hs₁, -⟩ := (exec_cons _).mp htu
    obtain ⟨habandoned, later, s', hlater, hsent⟩ := late_leave_sent hm hs hlate hs₁
    refine hunsent (before ++ [a]) after s₁ ?_ ?_ habandoned later s' hlater hsent
    · rw [hactions, List.append_assoc]
      rfl
    · exact exec_concat _ hs hs₁
  · intro hstay before after s hactions hs habandoned later s' hlater
    refine abandoned_unsent cfg tenants i before s ((along_iff _).mpr ?_) hs habandoned later s'
      hlater
    intro before' a after' t hbefore ht
    apply hstay before' a (after' ++ after) t _ ht
    rw [hactions, hbefore, List.append_assoc, List.cons_append]

/-- A window with two requests: the client of the second hangs up before its turn in the batch,
and stays unsent. -/
theorem abandoned_unsent_iff_window :
    ∃ s : State ℚ, exec (step ⟨4, 5, 1, true, 16⟩)
        (init ⟨4, 5, 1, true, 16⟩ [.fromConfig ⟨"acme", "key", .paid, 600, 5, 4⟩ 0])
        [.arrive 0 ⟨some 8, false⟩, .admission 0 0, .push 0, .notify 0, .arrive 0 ⟨some 8, false⟩,
          .admission 1 0, .push 1, .notify 1, .acquire, .pop, .again, .pop, .expire false,
          .dispatchNext, .disconnect 1] = some s ∧
      s.Abandoned 1 ∧
      ∀ later s', exec (step ⟨4, 5, 1, true, 16⟩) s later = some s' → 1 ∉ s'.sent := by
  have hrun : (exec (step ⟨4, 5, 1, true, 16⟩)
      (init ⟨4, 5, 1, true, 16⟩ [.fromConfig ⟨"acme", "key", .paid, 600, 5, 4⟩ 0])
      [.arrive 0 ⟨some 8, false⟩, .admission 0 0, .push 0, .notify 0, .arrive 0 ⟨some 8, false⟩,
        .admission 1 0, .push 1, .notify 1, .acquire, .pop, .again, .pop, .expire false,
        .dispatchNext, .disconnect 1]).map (fun s : State ℚ => (s.batch, s.hungUp 1))
      = some ([(⟨⟨some 8, false⟩, 1, "paid"⟩, none)], true) := by
    decide +kernel
  obtain ⟨s, hs, hl⟩ := Option.map_eq_some_iff.mp hrun
  simp only [Prod.mk.injEq] at hl
  obtain ⟨hbatch, hhung⟩ := hl
  have habandoned : s.Abandoned 1 := by
    refine ⟨hhung, ⟨⟨some 8, false⟩, 1, "paid"⟩, rfl, Or.inr (Or.inl ?_)⟩
    rw [hbatch]
    exact List.mem_singleton_self _
  have hunsent := (abandoned_unsent_iff _ (by decide) _ 1 _ s hs).mpr (by decide +kernel)
  exact ⟨s, hs, habandoned, hunsent _ [] s (List.append_nil _).symm hs habandoned⟩

/-- The client of the second request of a window hangs up while the scheduler waits for the slot
that the first one has: it is sent all the same. -/
theorem abandoned_sent :
    ¬ ∀ (cfg : Config) (tenants : List (Tenant ℚ)) (i : ℕ) (actions : List Action) (s : State ℚ)
        (later : List Action) (s' : State ℚ), 0 < cfg.maxInflight →
      exec (step cfg) (init cfg tenants) actions = some s → s.Abandoned i →
      exec (step cfg) s later = some s' → i ∉ s'.sent := by
  have hrun : (exec (step ⟨4, 5, 1, true, 16⟩)
      (init ⟨4, 5, 1, true, 16⟩ [.fromConfig ⟨"acme", "key", .paid, 600, 5, 4⟩ 0])
      [.arrive 0 ⟨some 8, false⟩, .admission 0 0, .push 0, .notify 0, .arrive 0 ⟨some 8, false⟩,
        .admission 1 0, .push 1, .notify 1, .acquire, .pop, .again, .pop, .expire false,
        .dispatchNext, .dispatchNext, .disconnect 1]).map (fun s : State ℚ => (s.pc, s.hungUp 1,
          (exec (step ⟨4, 5, 1, true, 16⟩) s
            [.send 0 8, .backendErr 0 .backendUnreachable, .acquireFor, .send 1 8]).map State.sent))
      = some (.acquireFor ⟨⟨some 8, false⟩, 1, "paid"⟩, true, some [0, 1]) := by
    decide +kernel
  intro hall
  obtain ⟨s, hs, hl⟩ := Option.map_eq_some_iff.mp hrun
  simp only [Prod.mk.injEq] at hl
  obtain ⟨hpc, hhung, hlater⟩ := hl
  obtain ⟨s', hs', hsent⟩ := Option.map_eq_some_iff.mp hlater
  have habandoned : s.Abandoned 1 := by
    refine ⟨hhung, ⟨⟨some 8, false⟩, 1, "paid"⟩, rfl, Or.inr (Or.inr ?_)⟩
    rw [hpc]
    exact List.mem_singleton_self _
  have hnot := hall _ _ 1 _ s _ s' (by decide) hs habandoned hs'
  rw [hsent] at hnot
  exact hnot (by decide)

/-- With the window off nobody leaves late: the scheduler never waits after the check. -/
theorem along_not_leavesLate {cfg : Config} (hwindow : cfg.window = 0) (tenants : List (Tenant R))
    (i : ℕ) (actions : List Action) :
    Along (step cfg) (fun s a => s.leavesLate i a = false) (init cfg tenants) actions := by
  refine along_of_slotFirst hwindow (fun s a h => ?_) tenants actions
  have hslotless := h.1
  unfold State.slotless at hslotless
  have hitems : s.pc.items = [] := List.length_eq_zero_iff.mp (by omega)
  simp [State.leavesLate, hitems]

end Gateway
end OxideGate
