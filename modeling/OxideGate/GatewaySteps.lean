import OxideGate.FairQueueTheorems
import OxideGate.Gateway

/-!
# What one step of the gateway does

`Stepped` lists the steps of all parties with what each finds and what it leaves, and
`step_cases` reads them off `step`, once. Where a function of `State` branches, each branch is
a step of its own.
-/

namespace OxideGate
namespace Gateway

variable {R : Type}

/-- A gateway with a scheduler starts from `init`. -/
theorem eq_init_of_spawn {cfg : Config} {tenants : List (Tenant R)} {s₀ : State R}
    (h : spawn cfg tenants = some s₀) : s₀ = init cfg tenants := by
  rw [spawn, Option.ite_none_right_eq_some] at h
  exact (Option.some.inj h.2).symm

/-! ## Fields that a dropped slot leaves alone -/

namespace State

variable (s : State R) (slot : Option BackendSlot)

@[simp] theorem dropSlot?_tenants : (s.dropSlot? slot).tenants = s.tenants := by
  cases slot <;> rfl

@[simp] theorem dropSlot?_requests : (s.dropSlot? slot).requests = s.requests := by
  cases slot <;> rfl

@[simp] theorem dropSlot?_queue : (s.dropSlot? slot).queue = s.queue := by
  cases slot <;> rfl

@[simp] theorem dropSlot?_permit : (s.dropSlot? slot).permit = s.permit := by
  cases slot <;> rfl

@[simp] theorem dropSlot?_pc : (s.dropSlot? slot).pc = s.pc := by
  cases slot <;> rfl

@[simp] theorem dropSlot?_batch : (s.dropSlot? slot).batch = s.batch := by
  cases slot <;> rfl

@[simp] theorem dropSlot?_tasks : (s.dropSlot? slot).tasks = s.tasks := by
  cases slot <;> rfl

@[simp] theorem dropSlot?_inflight : (s.dropSlot? slot).inflight = s.inflight := by
  cases slot <;> rfl

@[simp] theorem dropSlot?_accepted : (s.dropSlot? slot).accepted = s.accepted := by
  cases slot <;> rfl

@[simp] theorem dropSlot?_refused : (s.dropSlot? slot).refused = s.refused := by
  cases slot <;> rfl

@[simp] theorem dropSlot?_sent : (s.dropSlot? slot).sent = s.sent := by
  cases slot <;> rfl

@[simp] theorem dropSlot?_answered : (s.dropSlot? slot).answered = s.answered := by
  cases slot <;> rfl

@[simp] theorem dropSlot?_skipped : (s.dropSlot? slot).skipped = s.skipped := by
  cases slot <;> rfl

end State

/-- A slot is taken from the limiter: `free'` are the permits left. -/
inductive Acquired : Option (List ℕ) → BackendSlot → Option (List ℕ) → Prop
  | unlimited : Acquired none ⟨none⟩ none
  | permit (p : ℕ) (l : List ℕ) : Acquired (some (p :: l)) ⟨some p⟩ (some l)

/-- The slot that `acquire_slot` returns goes up in the gauge. -/
theorem acquireSlot_cases {s : State R} {p : BackendSlot × State R}
    (h : s.acquireSlot = some p) :
    ∃ free, Acquired s.free p.1 free ∧
      p.2 = { s with free := free, backendInflight := s.backendInflight + 1 } := by
  unfold State.acquireSlot at h
  cases hf : s.free with
  | none =>
    simp only [hf, Option.some.injEq] at h
    exact ⟨none, h ▸ .unlimited, by rw [← h]⟩
  | some l =>
    cases l with
    | nil => simp [hf] at h
    | cons p l =>
      simp only [hf, Option.some.injEq] at h
      exact ⟨some l, h ▸ .permit p l, by rw [← h]⟩

variable [Add R] [Sub R] [Mul R] [Min R] [LT R] [DecidableLT R] [NatCast R] [RatCast R]

/-- What one step finds and leaves. -/
inductive Stepped (cfg : Config) (s : State R) : Action → State R → Prop
  | arrive (tenant : ℕ) (req : ChatCompletionRequest) (ht : tenant < s.tenants.length) :
      Stepped cfg s (.arrive tenant req) { s with
        requests := s.requests ++ [⟨tenant, req, .admitting, .none, .empty, .fresh, 0, []⟩]
        inflight := s.inflight + 1 }
  /-- The tenant gives a lease. -/
  | granted (i : ℕ) (now : Instant) (r : Request) (t : Tenant R) (reserve : UInt32) (l : Lease)
      (hr : s.requests[i]? = some r) (hpc : r.pc = .admitting)
      (ht : s.tenants[r.tenant]? = some t)
      (hreserve : reserve = r.req.maxTokens.getD cfg.defaultMaxTokens)
      (hl : (t.admitLease now reserve.toUInt64).1 = .ok l) :
      Stepped cfg s (.admission i now) { s with
        tenants := s.tenants.set r.tenant (t.admitLease now reserve.toUInt64).2
        requests := s.requests.set i { r with
          req := { r.req with maxTokens := some reserve }, lease := .held l, pc := .pushing } }
  /-- The tenant refuses. -/
  | denied (i : ℕ) (now : Instant) (r : Request) (t : Tenant R) (reserve : UInt32)
      (e : AdmitError) (hr : s.requests[i]? = some r) (hpc : r.pc = .admitting)
      (ht : s.tenants[r.tenant]? = some t)
      (hreserve : reserve = r.req.maxTokens.getD cfg.defaultMaxTokens)
      (he : (t.admitLease now reserve.toUInt64).1 = .error e) :
      Stepped cfg s (.admission i now) { s with
        tenants := s.tenants.set r.tenant (t.admitLease now reserve.toUInt64).2
        requests := s.requests.set i { r with
          req := { r.req with maxTokens := some reserve }, pc := .done
          outcomes := r.outcomes ++ [.of (.error (.admission e))] }
        inflight := s.inflight - 1 }
  | pushed (i : ℕ) (r : Request) (t : Tenant R) (queue : FairQueue String QueuedRequest)
      (hr : s.requests[i]? = some r) (hpc : r.pc = .pushing)
      (ht : s.tenants[r.tenant]? = some t) (hroom : s.queue.len < s.queue.capacity)
      (hq : FairQueue.Pushed s.queue (State.queueKey cfg t).1 (State.queueKey cfg t).2
        ⟨r.req, i, t.tier.asStr⟩ queue) :
      Stepped cfg s (.push i) { s with
        queue := queue
        requests := s.requests.set i { r with pc := .notifying }
        accepted := s.accepted ++ [i] }
  | queueFull (i : ℕ) (r : Request) (hr : s.requests[i]? = some r) (hpc : r.pc = .pushing)
      (hfull : s.queue.capacity ≤ s.queue.len) :
      Stepped cfg s (.push i) { s with
        requests := s.requests.set i { r with
          pc := .closing none (.returned (.error .queueFull)), chan := .closed }
        refused := s.refused ++ [i] }
  | notify (i : ℕ) (r : Request) (hr : s.requests[i]? = some r) (hpc : r.pc = .notifying) :
      Stepped cfg s (.notify i) (s.notifyOne.setRequest i { r with pc := .waiting })
  | receiveStream (i : ℕ) (r : Request) (slot : BackendSlot) (hr : s.requests[i]? = some r)
      (hpc : r.pc = .waiting) (hchan : r.chan = .full (.ok slot)) (hstream : r.req.stream = true) :
      Stepped cfg s (.receive i) { s with
        requests := s.requests.set i { r with
          chan := .taken, pc := .streaming slot, outcomes := r.outcomes ++ [.of (.ok ())] }
        inflight := s.inflight - 1 }
  | receiveBuffered (i : ℕ) (r : Request) (slot : BackendSlot) (hr : s.requests[i]? = some r)
      (hpc : r.pc = .waiting) (hchan : r.chan = .full (.ok slot))
      (hstream : r.req.stream = false) :
      Stepped cfg s (.receive i) (s.setRequest i { r with chan := .taken, pc := .reading slot })
  | receiveError (i : ℕ) (r : Request) (e : GatewayError) (hr : s.requests[i]? = some r)
      (hpc : r.pc = .waiting) (hchan : r.chan = .full (.error e)) :
      Stepped cfg s (.receive i) (s.setRequest i { r with
        chan := .taken, pc := .closing none (.returned (.error e)) })
  | bodyOk (i : ℕ) (n : UInt32) (r : Request) (slot : BackendSlot)
      (hr : s.requests[i]? = some r) (hpc : r.pc = .reading slot) :
      Stepped cfg s (.bodyOk i n) (s.setRequest i { r with pc := .parsed slot n })
  | bodyErr (i : ℕ) (r : Request) (slot : BackendSlot) (hr : s.requests[i]? = some r)
      (hpc : r.pc = .reading slot) :
      Stepped cfg s (.bodyErr i) (s.setRequest i { r with
        pc := .closing (some slot) (.returned (.error .backendUnreachable)) })
  | releaseBody (i : ℕ) (r : Request) (slot : BackendSlot) (n : UInt32)
      (hr : s.requests[i]? = some r) (hpc : r.pc = .parsed slot n) :
      Stepped cfg s (.releaseBody i) ((s.dropSlot? (some slot)).setRequest i { r with
        lease := r.lease.recordTokens n.toUInt64, pc := .closing none (.returned (.ok ())) })
  | chunk (i : ℕ) (bytes : List UInt8) (r : Request) (slot : BackendSlot)
      (hr : s.requests[i]? = some r) (hpc : r.pc = .streaming slot) :
      Stepped cfg s (.chunk i bytes) (s.setRequest i { r with
        frames := (r.frames.feed bytes).2
        lease := r.lease.recordTokens (r.frames.feed bytes).1.toUInt64 })
  | closeBody (i : ℕ) (r : Request) (slot : BackendSlot) (hr : s.requests[i]? = some r)
      (hpc : r.pc = .streaming slot) :
      Stepped cfg s (.closeBody i) (s.setRequest i { r with
        pc := .closing (some slot) .bodyClosed })
  /-- The client hangs up while its handler waits for the reply. -/
  | hangUp (i : ℕ) (r : Request) (hr : s.requests[i]? = some r) (hpc : r.pc = .waiting) :
      Stepped cfg s (.disconnect i) ((s.dropSlot? r.chan.slot).setRequest i { r with
        chan := .closed, pc := .closing none .cancelled })
  /-- The client hangs up while its handler reads the body. -/
  | cancel (i : ℕ) (r : Request) (slot : BackendSlot) (hr : s.requests[i]? = some r)
      (hpc : r.pc = .reading slot) :
      Stepped cfg s (.disconnect i) (s.setRequest i { r with
        pc := .closing (some slot) .cancelled })
  | settle (i : ℕ) (now : Instant) (r : Request) (slot : Option BackendSlot) (exit : Exit)
      (hr : s.requests[i]? = some r) (hpc : r.pc = .closing slot exit) :
      Stepped cfg s (.settle i now) (s.settle i r slot exit now)
  | acquire (slot : BackendSlot) (free : Option (List ℕ)) (hpc : s.pc = .acquire)
      (hslot : Acquired s.free slot free) :
      Stepped cfg s .acquire { s with
        free := free
        backendInflight := s.backendInflight + 1
        pc := .next (some slot) .poll }
  | popped (slot : Option BackendSlot) (item : QueuedRequest) (hpc : s.pc = .next slot .poll)
      (hq : s.queue.pop.1 = some item) :
      Stepped cfg s .pop { s with
        queue := s.queue.pop.2
        batch := s.batch ++ [(item, slot)]
        pc := if cfg.window = 0 then .dispatch else .collect }
  | popEmpty (slot : Option BackendSlot) (hpc : s.pc = .next slot .poll)
      (hq : s.queue.pop.1 = none) :
      Stepped cfg s .pop { s with queue := s.queue.pop.2, pc := .next slot .empty }
  | consume (slot : Option BackendSlot) (hpc : s.pc = .next slot .empty)
      (hpermit : s.permit = true) :
      Stepped cfg s .notified { s with permit := false, pc := .next slot .poll }
  | park (slot : Option BackendSlot) (hpc : s.pc = .next slot .empty)
      (hpermit : s.permit = false) :
      Stepped cfg s .notified { s with pc := .next slot (.parked false) }
  | wake (slot : Option BackendSlot) (hpc : s.pc = .next slot (.parked true)) :
      Stepped cfg s .wake { s with pc := .next slot .poll }
  | again (hpc : s.pc = .collect) : Stepped cfg s .again { s with pc := .next none .poll }
  | deadline (forward : Bool) (hpc : s.pc = .collect) :
      Stepped cfg s (.expire forward) { s with pc := .dispatch }
  | expire (woken forward : Bool) (hpc : s.pc = .next none (.parked woken)) :
      Stepped cfg s (.expire forward) { s with
        permit := s.permit || (woken && forward), pc := .dispatch }
  | batchDone (hpc : s.pc = .dispatch) (hbatch : s.batch = []) :
      Stepped cfg s .dispatchNext { s with pc := .acquire }
  | skip (item : QueuedRequest) (slot : Option BackendSlot)
      (rest : List (QueuedRequest × Option BackendSlot)) (r : Request) (hpc : s.pc = .dispatch)
      (hbatch : s.batch = (item, slot) :: rest) (hr : s.requests[item.respondTo]? = some r)
      (hchan : r.chan = .closed) :
      Stepped cfg s .dispatchNext ({ s with
        batch := rest, skipped := s.skipped ++ [item.respondTo] }.dropSlot? slot)
  | spawn (item : QueuedRequest) (slot : BackendSlot)
      (rest : List (QueuedRequest × Option BackendSlot)) (r : Request) (hpc : s.pc = .dispatch)
      (hbatch : s.batch = (item, some slot) :: rest) (hr : s.requests[item.respondTo]? = some r)
      (hchan : r.chan ≠ .closed) :
      Stepped cfg s .dispatchNext { s with
        batch := rest, tasks := s.tasks ++ [⟨item, .ready slot⟩], pc := .dispatch }
  | await (item : QueuedRequest) (rest : List (QueuedRequest × Option BackendSlot))
      (r : Request) (hpc : s.pc = .dispatch) (hbatch : s.batch = (item, none) :: rest)
      (hr : s.requests[item.respondTo]? = some r) (hchan : r.chan ≠ .closed) :
      Stepped cfg s .dispatchNext { s with batch := rest, pc := .acquireFor item }
  | acquireFor (item : QueuedRequest) (slot : BackendSlot) (free : Option (List ℕ))
      (hpc : s.pc = .acquireFor item) (hslot : Acquired s.free slot free) :
      Stepped cfg s .acquireFor { s with
        free := free
        backendInflight := s.backendInflight + 1
        tasks := s.tasks ++ [⟨item, .ready slot⟩]
        pc := .dispatch }
  | send (k : ℕ) (g : UInt32) (t : Task) (slot : BackendSlot) (r : Request)
      (ht : s.tasks[k]? = some t) (hpc : t.pc = .ready slot)
      (hr : s.requests[t.item.respondTo]? = some r) :
      Stepped cfg s (.send k g) (s.send k t slot r g)
  | backendOk (k : ℕ) (t : Task) (slot : BackendSlot) (ht : s.tasks[k]? = some t)
      (hpc : t.pc = .sending slot) :
      Stepped cfg s (.backendOk k) (s.setTask k { t with pc := .responding (.ok slot) })
  | backendErr (k : ℕ) (e : GatewayError) (t : Task) (slot : BackendSlot)
      (ht : s.tasks[k]? = some t) (hpc : t.pc = .sending slot) :
      Stepped cfg s (.backendErr k e)
        ((s.dropSlot? (some slot)).setTask k { t with pc := .responding (.error e) })
  | deliver (k : ℕ) (t : Task) (reply : Reply) (r : Request) (ht : s.tasks[k]? = some t)
      (hpc : t.pc = .responding reply) (hr : s.requests[t.item.respondTo]? = some r)
      (hchan : r.chan = .empty) :
      Stepped cfg s (.deliver k) { s with
        tasks := s.tasks.set k { t with pc := .finished }
        requests := s.requests.set t.item.respondTo { r with chan := .full reply }
        answered := s.answered ++ [t.item.respondTo] }
  /-- The client is gone: the reply is dropped. -/
  | discard (k : ℕ) (t : Task) (reply : Reply) (r : Request) (ht : s.tasks[k]? = some t)
      (hpc : t.pc = .responding reply) (hr : s.requests[t.item.respondTo]? = some r)
      (hchan : r.chan = .closed) :
      Stepped cfg s (.deliver k) ({ s with
        tasks := s.tasks.set k { t with pc := .finished }
        answered := s.answered ++ [t.item.respondTo] }.dropSlot? (replySlot reply))

/-! ## The steps of each party -/

/-- `admit` gives a lease or refuses. -/
theorem admission_cases {cfg : Config} {s : State R} {i : ℕ} {r : Request} {t : Tenant R}
    (now : Instant) (hr : s.requests[i]? = some r) (hpc : r.pc = .admitting)
    (ht : s.tenants[r.tenant]? = some t) :
    Stepped cfg s (.admission i now) (s.admission cfg i r t now) := by
  unfold State.admission
  cases hl : (t.admitLease now (r.req.maxTokens.getD cfg.defaultMaxTokens).toUInt64).1 with
  | ok l =>
    simp only [hl]
    exact .granted i now r t _ l hr hpc ht rfl hl
  | error e =>
    simp only [hl]
    exact .denied i now r t _ e hr hpc ht rfl hl

omit [Add R] [Sub R] [Mul R] [Min R] [LT R] [DecidableLT R] [NatCast R] [RatCast R] in
/-- `push` finds the queue full, or room in it. -/
theorem push_eq (s : State R) (cfg : Config) (i : ℕ) (r : Request) (t : Tenant R) :
    (s.queue.capacity ≤ s.queue.len ∧ s.push cfg i r t = { s with
      requests := s.requests.set i
        { r with pc := .closing none (.returned (.error .queueFull)), chan := .closed }
      refused := s.refused ++ [i] }) ∨
    (s.queue.len < s.queue.capacity ∧ ∃ queue,
      FairQueue.Pushed s.queue (State.queueKey cfg t).1 (State.queueKey cfg t).2
        ⟨r.req, i, t.tier.asStr⟩ queue ∧
      s.push cfg i r t = { s with
        queue := queue
        requests := s.requests.set i { r with pc := .notifying }
        accepted := s.accepted ++ [i] }) := by
  rcases FairQueue.push_cases s.queue (State.queueKey cfg t).1 (State.queueKey cfg t).2
    ⟨r.req, i, t.tier.asStr⟩ with ⟨hfull, he⟩ | ⟨hroom, queue, he, hq⟩
  · refine Or.inl ⟨hfull, ?_⟩
    simp only [State.push, he]
  · refine Or.inr ⟨hroom, queue, hq, ?_⟩
    simp only [State.push, he]

/-- The steps of a handler, its client's and those of the body it waits for. -/
theorem handler_cases {cfg : Config} {s s' : State R} {i : ℕ} {r : Request} {a : Action}
    (hr : s.requests[i]? = some r) (ha : a.party = .handler i)
    (h : handlerStep cfg s i r a = some s') : Stepped cfg s a s' := by
  cases a <;> simp only [Action.party, Party.handler.injEq, reduceCtorEq] at ha
  all_goals subst ha
  all_goals simp only [handlerStep] at h
  case admission i now =>
    split at h
    · rename_i t hpc ht
      rw [← Option.some.inj h]
      exact admission_cases now hr hpc ht
    · exact absurd h (by simp)
  case push i =>
    split at h
    · rename_i t hpc ht
      rw [← Option.some.inj h]
      -- whether the queue is full is all that `push` branches on
      rcases push_eq s cfg i r t with ⟨hfull, he⟩ | ⟨hroom, queue, hq, he⟩
      · rw [he]
        exact .queueFull i r hr hpc hfull
      · rw [he]
        exact .pushed i r t queue hr hpc ht hroom hq
    · exact absurd h (by simp)
  case notify i =>
    split at h
    · rename_i hpc
      rw [← Option.some.inj h]
      exact .notify i r hr hpc
    · exact absurd h (by simp)
  case receive i =>
    split at h
    · rename_i reply hpc hchan
      rw [← Option.some.inj h]
      cases reply with
      | ok slot =>
        cases hstream : r.req.stream with
        | true =>
          simp only [State.receive, hstream, if_true]
          exact .receiveStream i r slot hr hpc hchan hstream
        | false =>
          simp only [State.receive, hstream, Bool.false_eq_true, if_false]
          exact .receiveBuffered i r slot hr hpc hchan hstream
      | error e => exact .receiveError i r e hr hpc hchan
    · exact absurd h (by simp)
  case bodyOk i n =>
    split at h
    · rename_i slot hpc
      rw [← Option.some.inj h]
      exact .bodyOk i n r slot hr hpc
    · exact absurd h (by simp)
  case bodyErr i =>
    split at h
    · rename_i slot hpc
      rw [← Option.some.inj h]
      exact .bodyErr i r slot hr hpc
    · exact absurd h (by simp)
  case releaseBody i =>
    split at h
    · rename_i slot n hpc
      rw [← Option.some.inj h]
      exact .releaseBody i r slot n hr hpc
    · exact absurd h (by simp)
  case chunk i bytes =>
    split at h
    · rename_i slot hpc
      rw [← Option.some.inj h]
      exact .chunk i bytes r slot hr hpc
    · exact absurd h (by simp)
  case closeBody i =>
    split at h
    · rename_i slot hpc
      rw [← Option.some.inj h]
      exact .closeBody i r slot hr hpc
    · exact absurd h (by simp)
  case disconnect i =>
    split at h
    · rename_i hpc
      rw [← Option.some.inj h]
      exact .hangUp i r hr hpc
    · rename_i slot hpc
      rw [← Option.some.inj h]
      exact .cancel i r slot hr hpc
    · exact absurd h (by simp)
  case settle i now =>
    split at h
    · rename_i slot exit hpc
      rw [← Option.some.inj h]
      exact .settle i now r slot exit hr hpc
    · exact absurd h (by simp)

omit [Add R] [Sub R] [Mul R] [Min R] [LT R] [DecidableLT R] [NatCast R] [RatCast R] in
/-- An item whose client is there is dispatched, or waits for its slot. -/
theorem dispatchItem_eq (s : State R) (item : QueuedRequest) (slot : Option BackendSlot)
    {chan : Chan} (h : chan ≠ .closed) : s.dispatchItem item slot chan
      = match slot with
        | some slot => s.spawnDispatch item slot
        | none => { s with pc := .acquireFor item } := by
  cases chan with
  | closed => exact absurd rfl h
  | empty => rfl
  | full reply => rfl
  | taken => rfl

/-- The steps of the scheduler task. -/
theorem scheduler_cases {cfg : Config} {s s' : State R} {a : Action}
    (ha : a.party = .scheduler) (h : schedulerStep cfg s a = some s') : Stepped cfg s a s' := by
  cases a <;> simp only [Action.party, reduceCtorEq] at ha
  all_goals simp only [schedulerStep] at h
  case acquire =>
    split at h
    · rename_i hpc
      obtain ⟨p, hp, rfl⟩ := Option.map_eq_some_iff.mp h
      obtain ⟨free, hslot, he⟩ := acquireSlot_cases hp
      rw [he]
      exact .acquire p.1 free hpc hslot
    · exact absurd h (by simp)
  case pop =>
    split at h
    · rename_i slot hpc
      rw [← Option.some.inj h]
      unfold State.pop
      split
      · rename_i item queue hq
        have hpop : Stepped cfg s .pop _ := .popped slot item hpc (by rw [hq])
        rw [hq] at hpop
        exact hpop
      · rename_i queue hq
        have hpop : Stepped cfg s .pop _ := .popEmpty slot hpc (by rw [hq])
        rw [hq] at hpop
        exact hpop
    · exact absurd h (by simp)
  case notified =>
    split at h
    · rename_i slot hpc
      rw [← Option.some.inj h]
      unfold State.notified
      split
      · rename_i hpermit
        exact .consume slot hpc hpermit
      · rename_i hpermit
        exact .park slot hpc (Bool.eq_false_iff.mpr hpermit)
    · exact absurd h (by simp)
  case wake =>
    split at h
    · rename_i slot hpc
      rw [← Option.some.inj h]
      exact .wake slot hpc
    · exact absurd h (by simp)
  case again =>
    split at h
    · rename_i hpc
      rw [← Option.some.inj h]
      exact .again hpc
    · exact absurd h (by simp)
  case expire forward =>
    split at h
    · rename_i hpc
      rw [← Option.some.inj h]
      exact .deadline forward hpc
    · rename_i woken hpc
      rw [← Option.some.inj h]
      exact .expire woken forward hpc
    · exact absurd h (by simp)
  case dispatchNext =>
    split at h
    · rename_i hpc hbatch
      rw [← Option.some.inj h]
      exact .batchDone hpc hbatch
    · rename_i item slot rest hpc hbatch
      obtain ⟨r, hr, rfl⟩ := Option.map_eq_some_iff.mp h
      by_cases hchan : r.chan = .closed
      · rw [hchan]
        exact .skip item slot rest r hpc hbatch hr hchan
      · rw [dispatchItem_eq _ item slot hchan]
        cases slot with
        | some slot => exact .spawn item slot rest r hpc hbatch hr hchan
        | none => exact .await item rest r hpc hbatch hr hchan
    · exact absurd h (by simp)
  case acquireFor =>
    split at h
    · rename_i item hpc
      obtain ⟨p, hp, rfl⟩ := Option.map_eq_some_iff.mp h
      obtain ⟨free, hslot, he⟩ := acquireSlot_cases hp
      rw [he]
      exact .acquireFor item p.1 free hpc hslot
    · exact absurd h (by simp)

/-- The steps of a dispatch task and the backend's answers to it. -/
theorem task_cases {cfg : Config} {s s' : State R} {k : ℕ} {t : Task} {a : Action}
    (ht : s.tasks[k]? = some t) (ha : a.party = .task k) (h : taskStep s k t a = some s') :
    Stepped cfg s a s' := by
  cases a <;> simp only [Action.party, Party.task.injEq, reduceCtorEq] at ha
  all_goals subst ha
  all_goals simp only [taskStep] at h
  case send k g =>
    split at h
    · rename_i slot hpc
      obtain ⟨r, hr, rfl⟩ := Option.map_eq_some_iff.mp h
      exact .send k g t slot r ht hpc hr
    · exact absurd h (by simp)
  case backendOk k =>
    split at h
    · rename_i slot hpc
      rw [← Option.some.inj h]
      exact .backendOk k t slot ht hpc
    · exact absurd h (by simp)
  case backendErr k e =>
    split at h
    · rename_i slot hpc
      rw [← Option.some.inj h]
      exact .backendErr k e t slot ht hpc
    · exact absurd h (by simp)
  case deliver k =>
    split at h
    · rename_i reply hpc
      obtain ⟨r, hr, hd⟩ := Option.bind_eq_some_iff.mp h
      unfold State.deliver at hd
      cases hchan : r.chan with
      | empty =>
        simp only [hchan, Option.some.injEq] at hd
        rw [← hd]
        exact .deliver k t reply r ht hpc hr hchan
      | closed =>
        simp only [hchan, Option.some.injEq] at hd
        rw [← hd]
        exact .discard k t reply r ht hpc hr hchan
      | full reply' => simp [hchan] at hd
      | taken => simp [hchan] at hd
    · exact absurd h (by simp)

/-- Every step is one of those that `Stepped` lists. -/
theorem step_cases {cfg : Config} {s s' : State R} {a : Action}
    (h : step cfg s a = some s') : Stepped cfg s a s' := by
  unfold step at h
  split at h
  · split at h
    · unfold State.arrive at h
      split at h
      · rename_i ht
        rw [← Option.some.inj h]
        exact .arrive _ _ ht
      · exact absurd h (by simp)
    · exact absurd h (by simp)
  · rename_i i ha
    obtain ⟨r, hr, h⟩ := Option.bind_eq_some_iff.mp h
    exact handler_cases hr ha h
  · rename_i ha
    exact scheduler_cases ha h
  · rename_i k ha
    obtain ⟨t, ht, h⟩ := Option.bind_eq_some_iff.mp h
    exact task_cases ht ha h

end Gateway
end OxideGate
