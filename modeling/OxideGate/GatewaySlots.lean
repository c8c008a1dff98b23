import Mathlib.Data.Finset.Card
import OxideGate.GatewayHandlers

/-!
# Backend slots

A slot goes from the scheduler through the batch, a dispatch task and the channel of the reply to
the handler, and any of them can drop it. `live` weighs the slots wherever they are, and
`slots_cases` says what a step can do to them: nothing, take one from the limiter, or drop one.
Since the weight is arbitrary, one balance (`Balanced`) counts the slots, tells them apart, and
shows that every one of them holds a permit.
-/

namespace OxideGate
namespace Gateway

open Runs Tally

variable {R : Type}

/-! ## Where slots are -/

def SchedPc.slot : SchedPc → Option BackendSlot
  | .next slot _ => slot
  | .acquire | .collect | .dispatch | .acquireFor _ => none

def TaskPc.slot : TaskPc → Option BackendSlot
  | .ready slot | .sending slot => some slot
  | .responding reply => replySlot reply
  | .finished => none

def HandlerPc.slot : HandlerPc → Option BackendSlot
  | .reading slot | .parsed slot _ | .streaming slot => some slot
  | .closing slot _ => slot
  | .admitting | .pushing | .notifying | .waiting | .done => none

/-- The weight of a slot, if there is one. -/
def share (φ : BackendSlot → ℕ) : Option BackendSlot → ℕ
  | some slot => φ slot
  | none => 0

@[simp] theorem share_some (φ : BackendSlot → ℕ) (slot : BackendSlot) :
    share φ (some slot) = φ slot := rfl

@[simp] theorem share_none (φ : BackendSlot → ℕ) : share φ none = 0 := rfl

/-- The slots of a request: in its channel, or with its handler. -/
def Request.slots (φ : BackendSlot → ℕ) (r : Request) : ℕ :=
  share φ r.chan.slot + share φ r.pc.slot

namespace State

variable (s : State R) (φ : BackendSlot → ℕ)

/-- The slots that the scheduler owns. -/
def scheduled : ℕ := share φ s.pc.slot + tally (fun e => share φ e.2) s.batch

/-- The slots that dispatch tasks and handlers own. -/
def handedOut : ℕ := tally (fun t => share φ t.pc.slot) s.tasks + tally (Request.slots φ) s.requests

/-- The slots that have not been dropped. -/
def live : ℕ := s.scheduled φ + s.handedOut φ

end State

/-! ## What a step does to them -/

/-- A step leaves the slots as they are, takes one from the limiter, or drops one. -/
inductive SlotMove (s s' : State R) : Prop
  | same (hfree : s'.free = s.free) (hgauge : s'.backendInflight = s.backendInflight)
      (hlive : ∀ φ, s'.live φ = s.live φ)
  | taken (slot : BackendSlot) (hslot : Acquired s.free slot s'.free)
      (hgauge : s'.backendInflight = s.backendInflight + 1)
      (hlive : ∀ φ, s'.live φ = s.live φ + φ slot)
  | dropped (slot : BackendSlot) (hfree : s'.free = s.free.map fun l => slot.permit.toList ++ l)
      (hgauge : s'.backendInflight = s.backendInflight - 1)
      (hlive : ∀ φ, s'.live φ + φ slot = s.live φ)

/-- The slot that is dropped, if there is one, is the one that its owner no longer has. -/
theorem slotMove_drop {s s' : State R} (slot : Option BackendSlot)
    (hfree : s'.free = (s.dropSlot? slot).free)
    (hgauge : s'.backendInflight = (s.dropSlot? slot).backendInflight)
    (hlive : ∀ φ, s'.live φ + share φ slot = s.live φ) : SlotMove s s' := by
  cases slot with
  | none => exact .same hfree hgauge hlive
  | some slot => exact .dropped slot hfree hgauge hlive

/-- Only the scheduler's own place and the batch change, and tasks are spawned. -/
theorem live_of_scheduler (s s' : State R) {slot slot' : Option BackendSlot}
    {batch batch' : List (QueuedRequest × Option BackendSlot)} {spawned : List Task}
    (hpc : s.pc.slot = slot) (hpc' : s'.pc.slot = slot') (hbatch : s.batch = batch)
    (hbatch' : s'.batch = batch') (htasks : s'.tasks = s.tasks ++ spawned)
    (hrequests : s'.requests = s.requests) (φ : BackendSlot → ℕ) :
    s'.live φ + (share φ slot + tally (fun e => share φ e.2) batch) = s.live φ + (share φ slot'
      + tally (fun e => share φ e.2) batch' + tally (fun t => share φ t.pc.slot) spawned) := by
  unfold State.live State.scheduled State.handedOut
  rw [hpc, hpc', hbatch, hbatch', htasks, hrequests, tally_append]
  omega

/-- A task finishes, and its request has the reply. -/
theorem live_of_deliver (s s' : State R) {k i : ℕ} {t t' : Task} {r r' : Request}
    (ht : s.tasks[k]? = some t) (hr : s.requests[i]? = some r) (hpc : s'.pc = s.pc)
    (hbatch : s'.batch = s.batch) (htasks : s'.tasks = s.tasks.set k t')
    (hrequests : s'.requests = s.requests.set i r') (φ : BackendSlot → ℕ) :
    s'.live φ + share φ t.pc.slot + r.slots φ = s.live φ + share φ t'.pc.slot + r'.slots φ := by
  have htask := tally_set (fun t => share φ t.pc.slot) ht t'
  have hrequest := tally_set (Request.slots φ) hr r'
  unfold State.live State.scheduled State.handedOut
  rw [hpc, hbatch, htasks, hrequests]
  omega

/-- One request changes, and the slots that it has with it. -/
theorem live_of_request {s s' : State R} {i : ℕ} {r r' : Request} (hr : s.requests[i]? = some r)
    (hpc : s'.pc.slot = s.pc.slot) (hbatch : s'.batch = s.batch) (htasks : s'.tasks = s.tasks)
    (hrequests : s'.requests = s.requests.set i r') (φ : BackendSlot → ℕ) :
    s'.live φ + r.slots φ = s.live φ + r'.slots φ := by
  have hset := tally_set (Request.slots φ) hr r'
  unfold State.live State.scheduled State.handedOut
  rw [hpc, hbatch, htasks, hrequests]
  omega

/-- A handler goes on, and drops the slot that it gives up, if it gives one up. -/
theorem slotMove_request {s s' : State R} {i : ℕ} {r : Request} (slot : Option BackendSlot)
    (r' : Request) (hr : s.requests[i]? = some r) (hrequests : s'.requests = s.requests.set i r')
    (hslots : ∀ φ, r'.slots φ + share φ slot = r.slots φ)
    (hfree : s'.free = (s.dropSlot? slot).free)
    (hgauge : s'.backendInflight = (s.dropSlot? slot).backendInflight)
    (hpc : s'.pc.slot = s.pc.slot) (hbatch : s'.batch = s.batch) (htasks : s'.tasks = s.tasks) :
    SlotMove s s' := by
  refine slotMove_drop slot hfree hgauge fun φ => ?_
  have hlive := live_of_request hr hpc hbatch htasks hrequests φ
  have := hslots φ
  omega

/-- A task goes on, and drops its slot if it gives it up. -/
theorem slotMove_task {s s' : State R} {k : ℕ} {t t' : Task} (slot : Option BackendSlot)
    (ht : s.tasks[k]? = some t) (htasks : s'.tasks = s.tasks.set k t')
    (hslots : ∀ φ, share φ t'.pc.slot + share φ slot = share φ t.pc.slot)
    (hfree : s'.free = (s.dropSlot? slot).free)
    (hgauge : s'.backendInflight = (s.dropSlot? slot).backendInflight)
    (hpc : s'.pc = s.pc) (hbatch : s'.batch = s.batch)
    (hrequests : ∀ φ, tally (Request.slots φ) s'.requests = tally (Request.slots φ) s.requests) :
    SlotMove s s' := by
  refine slotMove_drop slot hfree hgauge fun φ => ?_
  have hset := tally_set (fun t => share φ t.pc.slot) ht t'
  have := hslots φ
  unfold State.live State.scheduled State.handedOut
  rw [hpc, hbatch, htasks, hrequests]
  omega

/-- The scheduler goes on, and keeps what it has. -/
theorem slotMove_scheduler {s s' : State R} (hpc : s'.pc.slot = s.pc.slot)
    (hfree : s'.free = s.free) (hgauge : s'.backendInflight = s.backendInflight)
    (hbatch : s'.batch = s.batch) (htasks : s'.tasks = s.tasks)
    (hrequests : s'.requests = s.requests) : SlotMove s s' := by
  refine .same hfree hgauge fun φ => ?_
  unfold State.live State.scheduled State.handedOut
  rw [hpc, hbatch, htasks, hrequests]

/-- What a request holds: the slot in its channel and the one in its handler's hand. -/
theorem Request.slots_of_pc {r : Request} (φ : BackendSlot → ℕ) {pc : HandlerPc} (hpc : r.pc = pc) :
    r.slots φ = share φ r.chan.slot + share φ pc.slot := by
  rw [Request.slots, hpc]

theorem notifyOne_slot (s : State R) : s.notifyOne.pc.slot = s.pc.slot := by
  unfold State.notifyOne
  split
  · rename_i hpc
    rw [hpc]
    rfl
  · rfl

/-- `notify_one` is about the scheduler's sleep only. -/
theorem notifyOne_frame (s : State R) : s.notifyOne.free = s.free ∧
    s.notifyOne.backendInflight = s.backendInflight ∧ s.notifyOne.batch = s.batch ∧
    s.notifyOne.tasks = s.tasks := by
  unfold State.notifyOne
  split <;> exact ⟨rfl, rfl, rfl, rfl⟩

section Steps

variable [Add R] [Sub R] [Mul R] [Min R] [LT R] [DecidableLT R] [NatCast R] [RatCast R]

/-- A request arrives without a slot. -/
theorem slots_client {cfg : Config} {s s' : State R} {a : Action} (ha : a.party = .client)
    (hs : Stepped cfg s a s') : SlotMove s s' := by
  cases hs with
  | arrive tenant req ht =>
    refine .same rfl rfl fun φ => ?_
    show s.scheduled φ + (_ + tally (Request.slots φ) (s.requests ++ [_])) = _
    rw [tally_append, tally_cons, tally_nil]
    rfl
  | _ => exact absurd ha (by simp [Action.party])

/-- A handler takes its slot out of the channel, and drops it at the end. -/
theorem slots_handler {cfg : Config} {s s' : State R} {a : Action} {i : ℕ} (hhandled : Handled s)
    (ha : a.party = .handler i) (hs : Stepped cfg s a s') : SlotMove s s' := by
  cases hs with
  -- the handler keeps what it has, no slot before the reply and its slot until the body is in hand
  | granted i now r t reserve l hr hpc | denied i now r t reserve e hr hpc
  | pushed i r t queue hr hpc | bodyOk i n r slot hr hpc | bodyErr i r slot hr hpc
  | closeBody i r slot hr hpc | cancel i r slot hr hpc =>
    refine slotMove_request none _ hr rfl (fun φ => ?_) rfl rfl rfl rfl rfl
    rw [Request.slots_of_pc φ hpc]
    rfl
  | chunk i bytes r slot hr hpc =>
    exact slotMove_request none _ hr rfl (fun φ => rfl) rfl rfl rfl rfl rfl
  | queueFull i r hr hpc hfull =>
    have hchan := hhandled.coherent i r hr
    rw [Request.Coherent, hpc] at hchan
    refine slotMove_request none _ hr rfl (fun φ => ?_) rfl rfl rfl rfl rfl
    rw [Request.slots_of_pc φ hpc, hchan.2]
    rfl
  | notify i r hr hpc =>
    obtain ⟨hfree, hgauge, hbatch, htasks⟩ := notifyOne_frame s
    refine slotMove_request none { r with pc := .waiting } hr ?_ (fun φ => ?_) hfree hgauge
      (notifyOne_slot s) hbatch htasks
    · rw [State.setRequest, notifyOne_requests]
    · rw [Request.slots_of_pc φ hpc]
      rfl
  -- from the channel to the handler
  | receiveStream i r slot hr hpc hchan | receiveBuffered i r slot hr hpc hchan =>
    refine slotMove_request none _ hr rfl (fun φ => ?_) rfl rfl rfl rfl rfl
    rw [Request.slots_of_pc φ hpc, hchan]
    exact Nat.zero_add _
  | receiveError i r e hr hpc hchan =>
    refine slotMove_request none _ hr rfl (fun φ => ?_) rfl rfl rfl rfl rfl
    rw [Request.slots_of_pc φ hpc, hchan]
    rfl
  -- the handler lets go of it
  | releaseBody i r slot n hr hpc =>
    refine slotMove_request (some slot) _ hr rfl (fun φ => ?_) rfl rfl rfl rfl rfl
    rw [Request.slots_of_pc φ hpc]
    rfl
  | hangUp i r hr hpc =>
    refine slotMove_request r.chan.slot
      { r with chan := .closed, pc := .closing none .cancelled } hr
      ?_ (fun φ => ?_) rfl rfl ?_ ?_ ?_
    · rw [State.setRequest, State.dropSlot?_requests]
    · rw [Request.slots_of_pc φ hpc]
      show 0 + 0 + share φ r.chan.slot = share φ r.chan.slot + 0
      omega
    · exact congrArg SchedPc.slot (State.dropSlot?_pc _ _)
    · exact State.dropSlot?_batch _ _
    · exact State.dropSlot?_tasks _ _
  | settle i now r slot exit hr hpc =>
    refine slotMove_request slot _ hr rfl (fun φ => ?_) rfl rfl ?_ ?_ ?_
    · rw [Request.slots_of_pc φ hpc]
      rfl
    · exact congrArg SchedPc.slot (State.dropSlot?_pc _ _)
    · exact State.dropSlot?_batch _ _
    · exact State.dropSlot?_tasks _ _
  | _ => exact absurd ha (by simp [Action.party])

/-- The scheduler takes a slot, and hands it to the batch and to a task. -/
theorem slots_scheduler {cfg : Config} {s s' : State R} {a : Action} (ha : a.party = .scheduler)
    (hs : Stepped cfg s a s') : SlotMove s s' := by
  cases hs with
  | acquire slot free hpc hslot =>
    refine .taken slot hslot rfl fun φ => ?_
    have hlive := live_of_scheduler s { s with
        free := free, backendInflight := s.backendInflight + 1, pc := .next (some slot) .poll }
      (congrArg SchedPc.slot hpc) rfl rfl rfl (List.append_nil _).symm rfl φ
    simp only [SchedPc.slot, share_some, share_none, tally_nil] at hlive
    omega
  | popped slot item hpc hq =>
    refine .same rfl rfl fun φ => ?_
    have hpc' : (if cfg.window = 0 then SchedPc.dispatch else .collect).slot = none := by
      split <;> rfl
    have hlive := live_of_scheduler s { s with
        queue := s.queue.pop.2, batch := s.batch ++ [(item, slot)]
        pc := if cfg.window = 0 then .dispatch else .collect }
      (congrArg SchedPc.slot hpc) hpc' rfl rfl (List.append_nil _).symm rfl φ
    simp only [SchedPc.slot, share_none, tally_append, tally_cons, tally_nil] at hlive
    omega
  | popEmpty slot hpc | consume slot hpc | park slot hpc | wake slot hpc | again hpc
  | deadline forward hpc | expire woken forward hpc | batchDone hpc =>
    exact slotMove_scheduler (by rw [hpc]; rfl) rfl rfl rfl rfl rfl
  | skip item slot rest r hpc hbatch hr hchan =>
    refine slotMove_drop slot (by cases slot <;> rfl) (by cases slot <;> rfl) fun φ => ?_
    have hlive := live_of_scheduler s ({ s with
        batch := rest, skipped := s.skipped ++ [item.respondTo] }.dropSlot? slot)
      rfl (congrArg SchedPc.slot (State.dropSlot?_pc _ slot)) hbatch (State.dropSlot?_batch _ slot)
      ((State.dropSlot?_tasks _ slot).trans (List.append_nil _).symm)
      (State.dropSlot?_requests _ slot) φ
    simp only [tally_cons, tally_nil] at hlive
    omega
  | spawn item slot rest r hpc hbatch hr hchan =>
    refine .same rfl rfl fun φ => ?_
    have hlive := live_of_scheduler s { s with
        batch := rest, tasks := s.tasks ++ [⟨item, .ready slot⟩], pc := .dispatch }
      (congrArg SchedPc.slot hpc) rfl hbatch rfl rfl rfl φ
    simp only [SchedPc.slot, TaskPc.slot, share_some, share_none, tally_cons, tally_nil] at hlive
    omega
  | await item rest r hpc hbatch hr hchan =>
    refine .same rfl rfl fun φ => ?_
    have hlive := live_of_scheduler s { s with
        batch := rest, pc := .acquireFor item }
      (congrArg SchedPc.slot hpc) rfl hbatch rfl (List.append_nil _).symm rfl φ
    simp only [SchedPc.slot, share_none, tally_cons, tally_nil] at hlive
    omega
  | acquireFor item slot free hpc hslot =>
    refine .taken slot hslot rfl fun φ => ?_
    have hlive := live_of_scheduler s { s with
        free := free, backendInflight := s.backendInflight + 1
        tasks := s.tasks ++ [⟨item, .ready slot⟩], pc := .dispatch }
      (congrArg SchedPc.slot hpc) rfl rfl rfl rfl rfl φ
    simp only [SchedPc.slot, TaskPc.slot, share_some, share_none, tally_cons, tally_nil] at hlive
    omega
  | _ => exact absurd ha (by simp [Action.party])

/-- A task keeps its slot through `send`, and gives it to the channel with the reply. -/
theorem slots_task {cfg : Config} {s s' : State R} {a : Action} {k : ℕ} (ha : a.party = .task k)
    (hs : Stepped cfg s a s') : SlotMove s s' := by
  cases hs with
  | send k g t slot r ht hpc hr =>
    refine slotMove_task none ht rfl (fun φ => by rw [hpc]; rfl) rfl rfl rfl rfl fun φ => ?_
    exact tally_set_eq hr rfl
  | backendOk k t slot ht hpc =>
    exact slotMove_task none ht rfl (fun φ => by rw [hpc]; rfl) rfl rfl rfl rfl fun _ => rfl
  | backendErr k e t slot ht hpc =>
    refine slotMove_task (some slot) ht rfl (fun φ => ?_) rfl rfl rfl rfl fun _ => rfl
    rw [hpc]
    exact Nat.zero_add _
  | deliver k t reply r ht hpc hr hchan =>
    refine .same rfl rfl fun φ => ?_
    have hlive := live_of_deliver s { s with
        tasks := s.tasks.set k { t with pc := .finished }
        requests := s.requests.set t.item.respondTo { r with chan := .full reply }
        answered := s.answered ++ [t.item.respondTo] }
      ht hr rfl rfl rfl rfl φ
    simp only [Request.slots, hpc, hchan, TaskPc.slot, Chan.slot, share_none] at hlive
    omega
  | discard k t reply r ht hpc hr hchan =>
    refine slotMove_task (replySlot reply) ht (State.dropSlot?_tasks _ _) (fun φ => ?_) ?_ ?_
      (State.dropSlot?_pc _ _) (State.dropSlot?_batch _ _) fun φ => ?_
    · rw [hpc]
      exact Nat.zero_add _
    · cases replySlot reply <;> rfl
    · cases replySlot reply <;> rfl
    · rw [State.dropSlot?_requests]
  | _ => exact absurd ha (by simp [Action.party])

/-- Whoever takes a step, at most one slot is taken from the limiter or dropped. -/
theorem slots_cases {cfg : Config} {s s' : State R} {a : Action} (hhandled : Handled s)
    (hs : Stepped cfg s a s') : SlotMove s s' := by
  cases ha : a.party with
  | client => exact slots_client ha hs
  | handler i => exact slots_handler hhandled ha hs
  | scheduler => exact slots_scheduler ha hs
  | task k => exact slots_task ha hs

end Steps

/-! ## The balance -/

/-- The free permits and the slots are all the permits there are, whatever a slot weighs. -/
def Balanced (m : ℕ) (s : State R) : Prop :=
  ∃ free, s.free = some free ∧
    ∀ φ, tally (fun p => φ ⟨some p⟩) free + s.live φ = tally (fun p => φ ⟨some p⟩) (List.range m)

/-- To begin with all permits are free. -/
theorem balanced_init {cfg : Config} (hm : 0 < cfg.maxInflight) (tenants : List (Tenant R)) :
    Balanced cfg.maxInflight (init cfg tenants) :=
  ⟨List.range cfg.maxInflight, if_pos hm, fun _ => rfl⟩

/-- Every slot has a permit of the limiter. -/
theorem Balanced.permit {m : ℕ} {s : State R} (h : Balanced m s) {slot : BackendSlot}
    (hlive : 0 < s.live fun b => if b = slot then 1 else 0) : ∃ p < m, slot = ⟨some p⟩ := by
  obtain ⟨free, -, hbalance⟩ := h
  by_contra hnone
  have hzero : tally (fun p => if (⟨some p⟩ : BackendSlot) = slot then 1 else 0) (List.range m)
      = 0 := by
    rw [tally_eq_zero]
    intro p hp
    rw [if_neg]
    intro he
    exact hnone ⟨p, List.mem_range.mp hp, he.symm⟩
  have := hbalance fun b => if b = slot then 1 else 0
  omega

/-- No permit is in two places. -/
theorem Balanced.le_one {m : ℕ} {s : State R} (h : Balanced m s) {free : List ℕ}
    (hfree : s.free = some free) (p : ℕ) :
    free.count p + (s.live fun b => if b = ⟨some p⟩ then 1 else 0) ≤ 1 := by
  obtain ⟨free', hfree', hbalance⟩ := h
  rw [hfree, Option.some.injEq] at hfree'
  subst hfree'
  have hcount : ∀ l : List ℕ,
      tally (fun q => if (⟨some q⟩ : BackendSlot) = ⟨some p⟩ then 1 else 0) l = l.count p := by
    intro l
    induction l with
    | nil => rfl
    | cons q l ih =>
      rw [tally_cons, ih, List.count_cons, add_comm]
      simp
  have hall := hbalance fun b => if b = ⟨some p⟩ then 1 else 0
  have honce := List.nodup_iff_count_le_one.mp (List.nodup_range (n := m)) p
  rw [hcount, hcount] at hall
  omega

/-- With a limiter the slot that is acquired has the first free permit. -/
theorem acquired_some {free : List ℕ} {slot : BackendSlot} {free' : Option (List ℕ)}
    (h : Acquired (some free) slot free') :
    ∃ p l, free = p :: l ∧ slot = ⟨some p⟩ ∧ free' = some l := by
  cases h with
  | permit p l => exact ⟨p, l, rfl, rfl, rfl⟩

/-- A slot that moves is neither lost nor doubled. -/
theorem Balanced.step {m : ℕ} {s s' : State R} (h : Balanced m s) (hmove : SlotMove s s') :
    Balanced m s' := by
  obtain ⟨free, hfree, hbalance⟩ := h
  cases hmove with
  | same hfree' hgauge hlive =>
    refine ⟨free, hfree'.trans hfree, fun φ => ?_⟩
    rw [hlive, hbalance]
  | taken slot hslot hgauge hlive =>
    rw [hfree] at hslot
    obtain ⟨p, l, rfl, rfl, hl⟩ := acquired_some hslot
    refine ⟨l, hl, fun φ => ?_⟩
    have := hbalance φ
    rw [tally_cons] at this
    rw [hlive]
    omega
  | dropped slot hfree' hgauge hlive =>
    -- the slot was live, so it has a permit to give back
    have hslot := hlive fun b => if b = slot then 1 else 0
    rw [if_pos rfl] at hslot
    obtain ⟨p, -, rfl⟩ : ∃ p < m, slot = ⟨some p⟩ :=
      Balanced.permit ⟨free, hfree, hbalance⟩ (by omega)
    refine ⟨p :: free, by rw [hfree', hfree]; rfl, fun φ => ?_⟩
    have := hbalance φ
    have := hlive φ
    rw [tally_cons]
    omega

/-! ## What the scheduler holds -/

/-- Only the first request of a batch comes with a slot, and it is the first to be dispatched. -/
def BatchShape (batch : List (QueuedRequest × Option BackendSlot)) : SchedPc → Prop
  | .acquire | .next (some _) _ => batch = []
  | .next none _ | .collect => batch ≠ [] ∧ ∀ e ∈ batch.tail, e.2 = none
  | .dispatch => ∀ e ∈ batch.tail, e.2 = none
  | .acquireFor _ => ∀ e ∈ batch, e.2 = none

def Shaped (s : State R) : Prop := BatchShape s.batch s.pc

theorem shaped_init (cfg : Config) (tenants : List (Tenant R)) : Shaped (init cfg tenants) := rfl

theorem BatchShape.tail {batch : List (QueuedRequest × Option BackendSlot)} {pc : SchedPc}
    (h : BatchShape batch pc) : ∀ e ∈ batch.tail, e.2 = none := by
  unfold BatchShape at h
  split at h
  · rw [h]
    exact fun _ he => absurd he List.not_mem_nil
  · rw [h]
    exact fun _ he => absurd he List.not_mem_nil
  · exact h.2
  · exact h.2
  · exact h
  · exact fun e he => h e (List.mem_of_mem_tail he)

/-- What `pop` adds to the batch comes with the slot that was taken for it, or after it. -/
theorem BatchShape.popped {batch : List (QueuedRequest × Option BackendSlot)}
    {slot : Option BackendSlot} {n : NextPc} (h : BatchShape batch (.next slot n))
    (item : QueuedRequest) : ∀ e ∈ (batch ++ [(item, slot)]).tail, e.2 = none := by
  cases slot with
  | some slot =>
    have hnil : batch = [] := h
    rw [hnil]
    exact fun _ he => absurd he List.not_mem_nil
  | none =>
    obtain ⟨hne, htail⟩ : batch ≠ [] ∧ ∀ e ∈ batch.tail, e.2 = none := h
    rw [List.tail_append_of_ne_nil hne]
    intro e he
    rcases List.mem_append.mp he with he | he
    · exact htail e he
    · rw [List.mem_singleton.mp he]

theorem shaped_notifyOne {s : State R} (h : Shaped s) : Shaped s.notifyOne := by
  unfold State.notifyOne
  split
  · rename_i slot hpc
    unfold Shaped at h ⊢
    rw [hpc] at h
    cases slot <;> exact h
  · exact h

theorem Shaped.frame {s s' : State R} (h : Shaped s) (hpc : s'.pc = s.pc)
    (hbatch : s'.batch = s.batch) : Shaped s' := by
  unfold Shaped
  rw [hpc, hbatch]
  exact h

/-! ## Owners -/

/-- A dispatch task of request `i` has the slot, or the reply or the handler of request `i`. -/
def State.owns (s : State R) (i : ℕ) (slot : BackendSlot) : Prop :=
  (∃ (k : ℕ) (t : Task), s.tasks[k]? = some t ∧ t.item.respondTo = i ∧ t.pc.slot = some slot) ∨
  ∃ r : Request, s.requests[i]? = some r ∧ (r.chan.slot = some slot ∨ r.pc.slot = some slot)

/-- Request `i` is being sent to the backend, or its reply has begun and its body is neither
fully received nor dropped. -/
def State.atBackend (s : State R) (i : ℕ) : Prop :=
  (∃ (k : ℕ) (t : Task) (slot : BackendSlot), s.tasks[k]? = some t ∧ t.item.respondTo = i ∧
    (t.pc = .sending slot ∨ t.pc = .responding (.ok slot))) ∨
  ∃ (r : Request) (slot : BackendSlot), s.requests[i]? = some r ∧
    (r.chan = .full (.ok slot) ∨ r.pc = .reading slot ∨ r.pc = .streaming slot ∨
      ∃ exit, r.pc = .closing (some slot) exit)

/-- A request at the backend holds a slot. -/
theorem exists_owns {s : State R} {i : ℕ} (h : s.atBackend i) : ∃ slot, s.owns i slot := by
  rcases h with ⟨k, t, slot, ht, hi, hpc | hpc⟩ | ⟨r, slot, hr, hchan | hpc | hpc | ⟨exit, hpc⟩⟩
  · exact ⟨slot, Or.inl ⟨k, t, ht, hi, by rw [hpc]; rfl⟩⟩
  · exact ⟨slot, Or.inl ⟨k, t, ht, hi, by rw [hpc]; rfl⟩⟩
  · exact ⟨slot, Or.inr ⟨r, hr, Or.inl (by rw [hchan]; rfl)⟩⟩
  · exact ⟨slot, Or.inr ⟨r, hr, Or.inr (by rw [hpc]; rfl)⟩⟩
  · exact ⟨slot, Or.inr ⟨r, hr, Or.inr (by rw [hpc]; rfl)⟩⟩
  · exact ⟨slot, Or.inr ⟨r, hr, Or.inr (by rw [hpc]; rfl)⟩⟩

/-- An owner's slot weighs in its own record. -/
theorem Request.le_slots {r : Request} {slot : BackendSlot} (φ : BackendSlot → ℕ)
    (h : r.chan.slot = some slot ∨ r.pc.slot = some slot) : φ slot ≤ r.slots φ := by
  unfold Request.slots
  rcases h with h | h
  · rw [h, share_some]
    exact Nat.le_add_right _ _
  · rw [h, share_some]
    exact Nat.le_add_left _ _

/-- What is owned is live. -/
theorem le_live_of_owns {s : State R} {i : ℕ} {slot : BackendSlot} (h : s.owns i slot)
    (φ : BackendSlot → ℕ) : φ slot ≤ s.live φ := by
  unfold State.live State.handedOut
  rcases h with ⟨k, t, ht, -, hslot⟩ | ⟨r, hr, hslot⟩
  · have htally := le_tally (fun t => share φ t.pc.slot) (List.mem_of_getElem? ht)
    simp only [hslot, share_some] at htally
    omega
  · have htally := le_tally (Request.slots φ) (List.mem_of_getElem? hr)
    have := Request.le_slots φ hslot
    omega

/-- What two requests own is live twice. -/
theorem two_mul_le_live {s : State R} {i j : ℕ} {slot : BackendSlot} (hij : i ≠ j)
    (hi : s.owns i slot) (hj : s.owns j slot) (φ : BackendSlot → ℕ) :
    2 * φ slot ≤ s.live φ := by
  unfold State.live State.handedOut
  rcases hi with ⟨k, t, ht, hti, hslot⟩ | ⟨r, hr, hslot⟩ <;>
    rcases hj with ⟨k', t', ht', htj, hslot'⟩ | ⟨r', hr', hslot'⟩
  · have hkk : k ≠ k' := by
      rintro rfl
      rw [ht, Option.some.injEq] at ht'
      exact hij (by rw [← hti, ← htj, ht'])
    have htally := add_le_tally (fun t => share φ t.pc.slot) hkk ht ht'
    simp only [hslot, hslot', share_some] at htally
    omega
  · have htask := le_tally (fun t => share φ t.pc.slot) (List.mem_of_getElem? ht)
    have hrequest := le_tally (Request.slots φ) (List.mem_of_getElem? hr')
    have := Request.le_slots φ hslot'
    simp only [hslot, share_some] at htask
    omega
  · have htask := le_tally (fun t => share φ t.pc.slot) (List.mem_of_getElem? ht')
    have hrequest := le_tally (Request.slots φ) (List.mem_of_getElem? hr)
    have := Request.le_slots φ hslot
    simp only [hslot', share_some] at htask
    omega
  · have htally := add_le_tally (Request.slots φ) hij hr hr'
    have := Request.le_slots φ hslot
    have := Request.le_slots φ hslot'
    omega

/-- With a limiter every slot in use has one of its permits. -/
theorem Balanced.owns_permit {m : ℕ} {s : State R} (h : Balanced m s) {i : ℕ}
    {slot : BackendSlot} (hi : s.owns i slot) : ∃ p < m, slot = ⟨some p⟩ := by
  have hlive := le_live_of_owns hi fun b => if b = slot then 1 else 0
  rw [if_pos rfl] at hlive
  exact h.permit hlive

/-- A permit in use is not free. -/
theorem Balanced.notMem_free {m : ℕ} {s : State R} (h : Balanced m s) {free : List ℕ}
    (hfree : s.free = some free) {i p : ℕ} (hi : s.owns i ⟨some p⟩) : p ∉ free := by
  intro hmem
  have hlive := le_live_of_owns hi fun b => if b = ⟨some p⟩ then 1 else 0
  have := h.le_one hfree p
  have := List.count_pos_iff.mpr hmem
  rw [if_pos rfl] at hlive
  omega

/-- No two requests share a slot. -/
theorem Balanced.owner_unique {m : ℕ} {s : State R} (h : Balanced m s) {i j : ℕ}
    {slot : BackendSlot} (hi : s.owns i slot) (hj : s.owns j slot) : i = j := by
  by_contra hij
  obtain ⟨p, -, rfl⟩ := h.owns_permit hi
  obtain ⟨free, hfree, -⟩ := id h
  have htwo := two_mul_le_live hij hi hj fun b => if b = ⟨some p⟩ then 1 else 0
  have := h.le_one hfree p
  rw [if_pos rfl] at htwo
  omega

/-- As many requests own slots as there are permits, at most. -/
theorem Balanced.card_le {m : ℕ} {s : State R} (h : Balanced m s) {owners : Finset ℕ}
    (howners : ∀ i ∈ owners, ∃ slot, s.owns i slot) : owners.card ≤ m := by
  have hpermit : ∀ i, ∃ p, i ∈ owners → p ∈ Finset.range m ∧ s.owns i ⟨some p⟩ := by
    intro i
    by_cases hi : i ∈ owners
    · obtain ⟨slot, hslot⟩ := howners i hi
      obtain ⟨p, hp, rfl⟩ := h.owns_permit hslot
      exact ⟨p, fun _ => ⟨Finset.mem_range.mpr hp, hslot⟩⟩
    · exact ⟨0, fun hi' => absurd hi' hi⟩
  choose permit hpermit using hpermit
  rw [← Finset.card_range m]
  -- a permit leads back to the request whose slot holds it
  refine Finset.card_le_card_of_injOn permit (fun i hi => (hpermit i hi).1) fun i hi j hj he => ?_
  refine h.owner_unique (hpermit i hi).2 ?_
  rw [show permit i = permit j from he]
  exact (hpermit j hj).2

/-- In `acquire_slot` the scheduler has no slot. -/
theorem Shaped.acquiring {s : State R} (h : Shaped s)
    (hpc : s.pc = .acquire ∨ ∃ item, s.pc = .acquireFor item) :
    s.pc.slot = none ∧ ∀ e ∈ s.batch, e.2 = none := by
  unfold Shaped at h
  rcases hpc with hpc | ⟨item, hpc⟩
  · rw [hpc] at h ⊢
    have hnil : s.batch = [] := h
    rw [hnil]
    exact ⟨rfl, fun _ he => absurd he List.not_mem_nil⟩
  · rw [hpc] at h ⊢
    exact ⟨rfl, h⟩

/-- With empty hands the scheduler has handed out all slots there are. -/
theorem live_eq_handedOut {s : State R} (hpc : s.pc.slot = none)
    (hbatch : ∀ e ∈ s.batch, e.2 = none) (φ : BackendSlot → ℕ) : s.live φ = s.handedOut φ := by
  have hzero : tally (fun e => share φ e.2) s.batch = 0 := by
    rw [tally_eq_zero]
    intro e he
    rw [hbatch e he]
    rfl
  rw [State.live, State.scheduled, hpc, hzero]
  exact Nat.zero_add _

variable [Add R] [Sub R] [Mul R] [Min R] [LT R] [DecidableLT R] [NatCast R] [RatCast R]

/-- Every step keeps the shape of the batch. -/
theorem Shaped.step {cfg : Config} {s s' : State R} {a : Action} (h : Shaped s)
    (hs : Stepped cfg s a s') : Shaped s' := by
  cases hs with
  | notify i r hr hpc => exact (shaped_notifyOne h).frame rfl rfl
  | acquire slot free hpc hslot =>
    unfold Shaped at h
    rw [hpc] at h
    exact h
  | popped slot item hpc hq =>
    unfold Shaped at h
    rw [hpc] at h
    have htail := h.popped item
    show BatchShape (s.batch ++ [(item, slot)]) (if cfg.window = 0 then .dispatch else .collect)
    split
    · exact htail
    · exact ⟨by simp, htail⟩
  | popEmpty slot hpc hq | consume slot hpc hpermit | park slot hpc hpermit | wake slot hpc =>
    unfold Shaped at h
    rw [hpc] at h
    cases slot <;> exact h
  | again hpc =>
    unfold Shaped at h
    rw [hpc] at h
    exact h
  | deadline forward hpc => exact h.tail
  | expire woken forward hpc => exact h.tail
  | batchDone hpc hbatch => exact hbatch
  | skip item slot rest r hpc hbatch hr hchan =>
    have htail := BatchShape.tail h
    rw [hbatch] at htail
    unfold Shaped
    rw [State.dropSlot?_pc, State.dropSlot?_batch, hpc]
    exact fun e he => htail e (List.mem_of_mem_tail he)
  | spawn item slot rest r hpc hbatch hr hchan =>
    have htail := BatchShape.tail h
    rw [hbatch] at htail
    exact fun e he => htail e (List.mem_of_mem_tail he)
  | await item rest r hpc hbatch hr hchan =>
    have htail := BatchShape.tail h
    rw [hbatch] at htail
    exact htail
  | acquireFor item slot free hpc hslot => exact h.tail
  | releaseBody | hangUp | settle | backendErr | discard =>
    exact h.frame (by simp [State.setRequest, State.setTask, State.settle])
      (by simp [State.setRequest, State.setTask, State.settle])
  | _ => exact h.frame rfl rfl

/-- The slots of every reachable state are balanced, and the batch has its shape. -/
theorem balanced_of_exec {cfg : Config} (hm : 0 < cfg.maxInflight) {tenants : List (Tenant R)}
    {actions : List Action} {s : State R}
    (hrun : exec (step cfg) (init cfg tenants) actions = some s) :
    Balanced cfg.maxInflight s ∧ Shaped s := by
  have hstep : ∀ (s : State R) a s', Handled s ∧ Balanced cfg.maxInflight s ∧ Shaped s →
      step cfg s a = some s' → Handled s' ∧ Balanced cfg.maxInflight s' ∧ Shaped s' := by
    intro s a s' ⟨hhandled, hbalanced, hshaped⟩ hs
    have hs' := step_cases hs
    exact ⟨hhandled.step hs', hbalanced.step (slots_cases hhandled hs'), hshaped.step hs'⟩
  exact (exec_invariant hstep
    ⟨handled_init cfg tenants, balanced_init hm tenants, shaped_init cfg tenants⟩ hrun).2

/-- The limiter is exact: in every reachable state the free permits and the live slots add up to
`max_inflight`; every request at the backend owns a slot of its own, so there are at most
`max_inflight` of them; and while the scheduler waits for a slot it has none, so all of them are
with requests that have been dispatched. -/
theorem limiter_exact (cfg : Config) (hm : 0 < cfg.maxInflight) (tenants : List (Tenant R))
    (actions : List Action) (s : State R)
    (hrun : exec (step cfg) (init cfg tenants) actions = some s) :
    ∃ free, s.free = some free ∧ free.length + s.live (fun _ => 1) = cfg.maxInflight ∧
      (∀ i, s.atBackend i → ∃ p < cfg.maxInflight, s.owns i ⟨some p⟩ ∧ p ∉ free) ∧
      (∀ i j slot, s.owns i slot → s.owns j slot → i = j) ∧
      (∀ sent : Finset ℕ, (∀ i ∈ sent, s.atBackend i) → sent.card ≤ cfg.maxInflight) ∧
      ((s.pc = .acquire ∨ ∃ item, s.pc = .acquireFor item) →
        s.pc.slot = none ∧ (∀ e ∈ s.batch, e.2 = none) ∧
          s.live (fun _ => 1) = s.handedOut fun _ => 1) := by
  obtain ⟨hbalanced, hshaped⟩ := balanced_of_exec hm hrun
  obtain ⟨free, hfree, hbalance⟩ := id hbalanced
  refine ⟨free, hfree, ?_, fun i hi => ?_, fun _ _ _ => hbalanced.owner_unique,
    fun sent hsent => ?_,
    fun hpc => ?_⟩
  · have hcount := hbalance fun _ => 1
    simpa [tally] using hcount
  · obtain ⟨slot, hslot⟩ := exists_owns hi
    obtain ⟨p, hp, rfl⟩ := hbalanced.owns_permit hslot
    exact ⟨p, hp, hslot, hbalanced.notMem_free hfree hslot⟩
  · exact hbalanced.card_le fun i hi => exists_owns (hsent i hi)
  · obtain ⟨hnone, hbatch⟩ := hshaped.acquiring hpc
    exact ⟨hnone, hbatch, live_eq_handedOut hnone hbatch _⟩

/-- A window with two requests and one slot: the first is at the backend while the scheduler
waits for the slot of the second. -/
theorem limiter_exact_window :
    ∃ s : State ℚ, exec (step ⟨2, 5, 1, true, 16⟩)
        (init ⟨2, 5, 1, true, 16⟩ [.fromConfig ⟨"acme", "key", .paid, 600, 5, 4⟩ 0])
        [.arrive 0 ⟨none, false⟩, .arrive 0 ⟨some 8, true⟩, .admission 0 0, .push 0, .notify 0,
          .admission 1 0, .push 1, .notify 1, .acquire, .pop, .again, .pop, .expire false,
          .dispatchNext, .dispatchNext, .send 0 8] = some s ∧
      s.free = some [] ∧ s.live (fun _ => 1) = 1 ∧ s.handedOut (fun _ => 1) = 1 := by
  have hrun : (exec (step ⟨2, 5, 1, true, 16⟩)
      (init ⟨2, 5, 1, true, 16⟩ [.fromConfig ⟨"acme", "key", .paid, 600, 5, 4⟩ 0])
      [.arrive 0 ⟨none, false⟩, .arrive 0 ⟨some 8, true⟩, .admission 0 0, .push 0, .notify 0,
        .admission 1 0, .push 1, .notify 1, .acquire, .pop, .again, .pop, .expire false,
        .dispatchNext, .dispatchNext, .send 0 8]).map (fun s : State ℚ => (s.free, s.pc))
      = some (some [], .acquireFor ⟨⟨some 8, true⟩, 1, "paid"⟩) := by
    decide +kernel
  obtain ⟨s, hs, hl⟩ := Option.map_eq_some_iff.mp hrun
  simp only [Prod.mk.injEq] at hl
  obtain ⟨free, hfree, hcount, -, -, -, hwait⟩ := limiter_exact _ (by decide) _ _ s hs
  obtain ⟨-, -, hall⟩ := hwait (Or.inr ⟨_, hl.2⟩)
  rw [hl.1, Option.some.injEq] at hfree
  rw [← hfree, List.length_nil, Nat.zero_add] at hcount
  exact ⟨s, hs, hl.1, hcount, hall ▸ hcount⟩

end Gateway
end OxideGate
