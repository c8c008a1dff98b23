import OxideGate.FairQueue
import OxideGate.FrameCounter
import OxideGate.Lib.Runs
import OxideGate.Tenants

/-!
# The gateway: handlers, scheduler and dispatch tasks (`lib.rs`, `scheduler.rs`)

A request runs through four parties that work at their own pace: its handler (`serve`,
`submit`, `buffered_response`, the response body), the scheduler task (`run`), a dispatch task
of its own (`dispatch`), and its client, who can hang up. `State` holds what they share and
where each of them stands; an `Action` is what one of them does between two points at which
others can run: a critical section, a hand-over, or the part of a function between two awaits.

Requests are named by their place in the order of arrival, dispatch tasks by theirs in the
order in which they are spawned. The lists `accepted`, `refused`, `sent`, `answered` and
`skipped` record events that the source does not store.
-/

namespace OxideGate
namespace Gateway

/-! ## Data -/

/-- `SchedulerConfig`, and the `default_max_tokens` of `AppState`. -/
structure Config where
  queueDepth : ℕ
  /-- The batching window in nanoseconds; 0 disables it. -/
  window : ℕ
  /-- Maximum requests in flight at the backend; 0 is unlimited. -/
  maxInflight : ℕ
  fair : Bool
  defaultMaxTokens : UInt32
deriving DecidableEq, Repr

/-- The fields of `ChatCompletionRequest` that the gateway acts on. -/
structure ChatCompletionRequest where
  maxTokens : Option UInt32
  stream : Bool
deriving DecidableEq, Repr

inductive GatewayError where
  | backendUnreachable
  | backendStatus (status : ℕ) (body : String)
  | queueFull
  | schedulerGone
  | unauthorized
  | admission (e : AdmitError)
deriving DecidableEq, Repr

/-- `GatewayError::parts`: the status code and the short code in the body. -/
def GatewayError.parts : GatewayError → ℕ × String
  | .backendUnreachable => (502, "backend_unreachable")
  | .backendStatus _ _ => (502, "backend_error")
  | .queueFull => (429, "queue_full")
  | .schedulerGone => (500, "scheduler_gone")
  | .unauthorized => (401, "invalid_api_key")
  | .admission .rateLimited => (429, "rate_limited")
  | .admission .concurrencyLimited => (429, "concurrency_limited")
  | .admission .tokenBudget => (429, "token_budget_exhausted")

/-- The labels of `REQUESTS_TOTAL`. -/
inductive Outcome where
  | ok
  | rejected (reason : String)
  | error
deriving DecidableEq, Repr

/-- How `chat_completions_handler` counts the result of `serve`. -/
def Outcome.of : Except GatewayError Unit → Outcome
  | .ok () => .ok
  | .error .queueFull => .rejected GatewayError.queueFull.parts.2
  | .error (.admission e) => .rejected (GatewayError.admission e).parts.2
  | .error _ => .error

/-- `BackendSlot`: a permit of the limiter, or none when the limiter is disabled. -/
structure BackendSlot where
  permit : Option ℕ
deriving DecidableEq, Repr

/-- `Reply`. Of `Dispatched` only the slot is kept: the response is what its owner reads. -/
abbrev Reply := Except GatewayError BackendSlot

/-- The slot inside a reply. -/
def replySlot : Reply → Option BackendSlot
  | .ok slot => some slot
  | .error _ => none

/-- `QueuedRequest`. The oneshot sender is the number of the request it answers. -/
structure QueuedRequest where
  req : ChatCompletionRequest
  respondTo : ℕ
  tier : String
deriving DecidableEq, Repr

/-! ## Where the parties stand -/

/-- The oneshot channel of a request, seen from its receiver. -/
inductive Chan where
  | empty
  | full (reply : Reply)
  | taken
  /-- The receiver is dropped. -/
  | closed
deriving DecidableEq, Repr

/-- The slot of a reply that has been sent and not received. -/
def Chan.slot : Chan → Option BackendSlot
  | .full reply => replySlot reply
  | .empty | .taken | .closed => none

/-- The lease of a request: not yet given, held by the handler, or dropped. -/
inductive LeaseCell where
  | none
  | held (l : Lease)
  | settled (l : Lease)
deriving DecidableEq, Repr

/-- How a handler gets to drop what it holds. -/
inductive Exit where
  /-- `serve` returns. -/
  | returned (result : Except GatewayError Unit)
  /-- The handler's future is dropped at an await. -/
  | cancelled
  /-- A response body that is piped through ends or is dropped. -/
  | bodyClosed
deriving DecidableEq

/-- What `chat_completions_handler` counts: a handler that is dropped counts nothing, and a
streamed reply has been counted before its body is piped through. -/
def Exit.outcomes : Exit → List Outcome
  | .returned result => [.of result]
  | .cancelled | .bodyClosed => []

/-- The handler of a request. -/
inductive HandlerPc where
  | admitting
  | pushing
  /-- Pushed, `notify_one` not yet called. -/
  | notifying
  /-- At `rx.await`. -/
  | waiting
  /-- At `resp.json().await`. -/
  | reading (slot : BackendSlot)
  /-- The body is in hand and reports `n` completion tokens. -/
  | parsed (slot : BackendSlot) (n : UInt32)
  /-- The response body is being piped through to the client. -/
  | streaming (slot : BackendSlot)
  /-- About to drop the lease, and the slot if there is one. -/
  | closing (slot : Option BackendSlot) (exit : Exit)
  | done
deriving DecidableEq

/-- `record_tokens` on the lease that a handler holds. -/
def LeaseCell.recordTokens (n : UInt64) : LeaseCell → LeaseCell
  | .held l => .held (l.recordTokens n)
  | .none => .none
  | .settled l => .settled l

/-- The lease is dropped. -/
def LeaseCell.settle : LeaseCell → LeaseCell
  | .held l => .settled l
  | .none => .none
  | .settled l => .settled l

structure Request where
  tenant : ℕ
  req : ChatCompletionRequest
  pc : HandlerPc
  lease : LeaseCell
  chan : Chan
  /-- The `FrameCounter` of its streamed reply. -/
  frames : FrameCounter
  /-- Completion tokens that the backend generates for this request, once it is sent. -/
  generated : UInt32
  /-- Every count of this request in `REQUESTS_TOTAL`. -/
  outcomes : List Outcome
deriving DecidableEq

/-- `Shared::next`: about to pop, after an empty pop, or in `notified()`. -/
inductive NextPc where
  | poll
  | empty
  | parked (woken : Bool)
deriving DecidableEq, Repr

/-- The scheduler task. -/
inductive SchedPc where
  /-- In `acquire_slot` at the top of the loop. -/
  | acquire
  /-- In `next()`, for the first request with the slot it will get, or in the window. -/
  | next (slot : Option BackendSlot) (n : NextPc)
  /-- At the deadline check of the window. -/
  | collect
  /-- In the `for` loop over the batch. -/
  | dispatch
  /-- In `acquire_slot` for one request of the batch. -/
  | acquireFor (item : QueuedRequest)
deriving DecidableEq

/-- A dispatch task. -/
inductive TaskPc where
  | ready (slot : BackendSlot)
  /-- At `backend.send(..).await`. -/
  | sending (slot : BackendSlot)
  | responding (reply : Reply)
  | finished
deriving DecidableEq

structure Task where
  item : QueuedRequest
  pc : TaskPc
deriving DecidableEq

structure State (R : Type) where
  tenants : List (Tenant R)
  requests : List Request
  queue : FairQueue String QueuedRequest
  /-- The permit stored in `Notify`. -/
  permit : Bool
  /-- The free permits of the limiter, if there is one. -/
  free : Option (List ℕ)
  pc : SchedPc
  batch : List (QueuedRequest × Option BackendSlot)
  tasks : List Task
  /-- The gauge `INFLIGHT`. -/
  inflight : ℤ
  /-- The gauge `BACKEND_INFLIGHT`. -/
  backendInflight : ℤ
  accepted : List ℕ
  refused : List ℕ
  sent : List ℕ
  answered : List ℕ
  skipped : List ℕ

inductive Action where
  | arrive (tenant : ℕ) (req : ChatCompletionRequest)
  | admission (i : ℕ) (now : Instant)
  | push (i : ℕ)
  | notify (i : ℕ)
  | receive (i : ℕ)
  | bodyOk (i : ℕ) (n : UInt32)
  | bodyErr (i : ℕ)
  | releaseBody (i : ℕ)
  | chunk (i : ℕ) (bytes : List UInt8)
  | closeBody (i : ℕ)
  | disconnect (i : ℕ)
  | settle (i : ℕ) (now : Instant)
  | acquire
  | pop
  | notified
  | wake
  | again
  | expire (forward : Bool)
  | dispatchNext
  | acquireFor
  | send (k : ℕ) (g : UInt32)
  | backendOk (k : ℕ)
  | backendErr (k : ℕ) (e : GatewayError)
  | deliver (k : ℕ)
deriving DecidableEq

variable {R : Type}

/-- The scheduler gets to the top of its loop, nothing queued, every permit free. For the step
from `spawn` to here see `spawn` below. -/
def init (cfg : Config) (tenants : List (Tenant R)) : State R where
  tenants := tenants
  requests := []
  queue := .new cfg.queueDepth
  permit := false
  free := if 0 < cfg.maxInflight then some (List.range cfg.maxInflight) else none
  pc := .acquire
  batch := []
  tasks := []
  inflight := 0
  backendInflight := 0
  accepted := []
  refused := []
  sent := []
  answered := []
  skipped := []

/-- `Semaphore::MAX_PERMITS` on a 64-bit machine, `usize::MAX >> 3`. -/
def maxPermits : ℕ := 2 ^ 61 - 1

/-- `spawn`, with a scheduler: `Semaphore::new` panics on more than `maxPermits` permits, and then
`run` never gets to its loop. The handlers that are left to themselves take steps that they could
take with a scheduler too, so what `step` never does from `init` does not happen there either. -/
def spawn (cfg : Config) (tenants : List (Tenant R)) : Option (State R) :=
  if cfg.maxInflight ≤ maxPermits then some (init cfg tenants) else none

namespace State

variable (s : State R)

/-! ## Slots, replies and wakeups -/

/-- `BackendSlot::drop`. -/
def dropSlot (slot : BackendSlot) : State R :=
  { s with
    free := s.free.map fun l => slot.permit.toList ++ l
    backendInflight := s.backendInflight - 1 }

def dropSlot? : Option BackendSlot → State R
  | some slot => s.dropSlot slot
  | none => s

/-- `acquire_slot`: a slot, once there is a free permit or when there is no limiter. -/
def acquireSlot : Option (BackendSlot × State R) :=
  match s.free with
  | none => some (⟨none⟩, { s with backendInflight := s.backendInflight + 1 })
  -- the scheduler waits in `acquire_owned`
  | some [] => none
  | some (p :: l) =>
    some (⟨some p⟩, { s with free := some l, backendInflight := s.backendInflight + 1 })

/-- `Notify::notify_one`: wakes the scheduler if it is parked, else stores a permit. -/
def notifyOne : State R :=
  match s.pc with
  | .next slot (.parked false) => { s with pc := .next slot (.parked true) }
  | _ => { s with permit := true }

def setRequest (i : ℕ) (r : Request) : State R := { s with requests := s.requests.set i r }

def setTask (k : ℕ) (t : Task) : State R := { s with tasks := s.tasks.set k t }

/-! ## Handlers -/

/-- `serve` returns `result` to `chat_completions_handler`, which counts it. -/
def leave (i : ℕ) (r : Request) (result : Except GatewayError Unit) : State R :=
  { s with
    requests := s.requests.set i { r with outcomes := r.outcomes ++ [.of result] }
    inflight := s.inflight - 1 }

/-- A request that has been authenticated enters `chat_completions_handler`. -/
def arrive (tenant : ℕ) (req : ChatCompletionRequest) : Option (State R) :=
  if tenant < s.tenants.length then
    some { s with
      requests := s.requests ++ [⟨tenant, req, .admitting, .none, .empty, .fresh, 0, []⟩]
      inflight := s.inflight + 1 }
  else none

/-- `serve` up to `submit`: reserve, and ask the tenant for a lease. -/
def admission [Add R] [Sub R] [Mul R] [Min R] [LT R] [DecidableLT R] [NatCast R] [RatCast R]
    (cfg : Config) (i : ℕ) (r : Request) (t : Tenant R) (now : Instant) : State R :=
  let reserve := r.req.maxTokens.getD cfg.defaultMaxTokens
  let r := { r with req := { r.req with maxTokens := some reserve } }
  let admitted := t.admitLease now reserve.toUInt64
  let s := { s with tenants := s.tenants.set r.tenant admitted.2 }
  match admitted.1 with
  | .ok lease => s.setRequest i { r with lease := .held lease, pc := .pushing }
  -- `?` returns the refusal before there is a lease or a channel
  | .error e => s.leave i { r with pc := .done } (.error (.admission e))

/-- In FIFO mode every request shares one key. -/
def queueKey (cfg : Config) (t : Tenant R) : String × ℚ :=
  if cfg.fair then (t.id, t.tier.weight) else ("", 1)

/-- `submit` up to `notify_one`. -/
def push (cfg : Config) (i : ℕ) (r : Request) (t : Tenant R) : State R :=
  let key := queueKey cfg t
  match s.queue.push key.1 key.2 ⟨r.req, i, t.tier.asStr⟩ with
  | (.ok (), queue) =>
    { s with
      queue := queue
      requests := s.requests.set i { r with pc := .notifying }
      accepted := s.accepted ++ [i] }
  | (.error _, queue) =>
    -- `submit` returns, and `rx` goes with it; nothing is notified
    { s with
      queue := queue
      requests := s.requests.set i
        { r with pc := .closing none (.returned (.error .queueFull)), chan := .closed }
      refused := s.refused ++ [i] }

/-- `rx.await` returns the reply. -/
def receive (i : ℕ) (r : Request) (reply : Reply) : State R :=
  match reply with
  | .ok slot =>
    -- the body of a streamed reply is piped after the handler has returned
    if r.req.stream then s.leave i { r with chan := .taken, pc := .streaming slot } (.ok ())
    else s.setRequest i { r with chan := .taken, pc := .reading slot }
  | .error e =>
    -- `dispatch` has dropped the slot already
    s.setRequest i { r with chan := .taken, pc := .closing none (.returned (.error e)) }

/-- `resp.json()` fails, which is an error of the HTTP client. -/
def bodyErr (i : ℕ) (r : Request) (slot : BackendSlot) : State R :=
  s.setRequest i
    { r with pc := .closing (some slot) (.returned (.error .backendUnreachable)) }

/-- `buffered_response` with the whole body in hand: the slot goes, the tokens are recorded,
and the lease is next. -/
def releaseBody (i : ℕ) (r : Request) (slot : BackendSlot) (n : UInt32) : State R :=
  (s.dropSlot slot).setRequest i
    { r with lease := r.lease.recordTokens n.toUInt64, pc := .closing none (.returned (.ok ())) }

/-- The closure of `stream_response` with a chunk that is no error: its token frames are
recorded. -/
def chunk (i : ℕ) (r : Request) (bytes : List UInt8) : State R :=
  let (n, frames) := r.frames.feed bytes
  s.setRequest i { r with frames := frames, lease := r.lease.recordTokens n.toUInt64 }

/-- The handler's future is dropped at `rx.await`: the receiver goes, and with it a reply that
has been sent. -/
def hangUp (i : ℕ) (r : Request) : State R :=
  (s.dropSlot? r.chan.slot).setRequest i
    { r with chan := .closed, pc := .closing none .cancelled }

/-- `Lease::drop` for the lease of a handler. -/
def dropLease [Add R] [Sub R] [Mul R] [Min R] [NatCast R] [RatCast R] (r : Request)
    (now : Instant) : List (Tenant R) :=
  match r.lease, s.tenants[r.tenant]? with
  | .held l, some t => s.tenants.set r.tenant (t.dropLease l now)
  | _, _ => s.tenants

/-- The handler drops its lease, then its slot, and is gone. The gauge goes down where the
outcome is counted: both stand after `serve` in `chat_completions_handler`. -/
def settle [Add R] [Sub R] [Mul R] [Min R] [NatCast R] [RatCast R] (i : ℕ) (r : Request)
    (slot : Option BackendSlot) (exit : Exit) (now : Instant) : State R :=
  { s.dropSlot? slot with
    tenants := s.dropLease r now
    requests := s.requests.set i
      { r with lease := r.lease.settle, pc := .done, outcomes := r.outcomes ++ exit.outcomes }
    inflight := s.inflight - exit.outcomes.length }

/-! ## The scheduler task -/

/-- `Shared::pop` in `next()`: what is popped goes into the batch, with the slot that was
taken for it. -/
def pop (cfg : Config) (slot : Option BackendSlot) : State R :=
  match s.queue.pop with
  | (some item, queue) =>
    { s with
      queue := queue
      batch := s.batch ++ [(item, slot)]
      -- in the window `slot` is `none`: slots are taken just before dispatch
      pc := if cfg.window = 0 then .dispatch else .collect }
  | (none, queue) => { s with queue := queue, pc := .next slot .empty }

/-- `notified().await`: consume a stored permit, or park. -/
def notified (slot : Option BackendSlot) : State R :=
  if s.permit then { s with permit := false, pc := .next slot .poll }
  else { s with pc := .next slot (.parked false) }

/-- The deadline of the window passes while the scheduler is parked. A wakeup that has come
but has not been seen is passed on to `Notify`, or not. -/
def expire (woken forward : Bool) : State R :=
  { s with permit := s.permit || (woken && forward), pc := .dispatch }

/-- `tokio::spawn(dispatch(..))`. -/
def spawnDispatch (item : QueuedRequest) (slot : BackendSlot) : State R :=
  { s with tasks := s.tasks ++ [⟨item, .ready slot⟩], pc := .dispatch }

/-- One item of the batch: skip it if its client is gone, else dispatch it with its slot. -/
def dispatchItem (item : QueuedRequest) (slot : Option BackendSlot) (chan : Chan) : State R :=
  match chan with
  -- `is_closed`: the sender goes with the item, and the slot is freed
  | .closed => { s with skipped := s.skipped ++ [item.respondTo] }.dropSlot? slot
  | _ =>
    match slot with
    | some slot => s.spawnDispatch item slot
    | none => { s with pc := .acquireFor item }

/-! ## Dispatch tasks -/

/-- `Backend::send` starts. The backend generates `g` tokens for the request. -/
def send (k : ℕ) (t : Task) (slot : BackendSlot) (r : Request) (g : UInt32) : State R :=
  { s with
    tasks := s.tasks.set k { t with pc := .sending slot }
    requests := s.requests.set t.item.respondTo { r with generated := g }
    sent := s.sent ++ [t.item.respondTo] }

/-- `respond_to.send(result)`: into the channel, or dropped when the receiver is gone. -/
def deliver (k : ℕ) (t : Task) (reply : Reply) (r : Request) : Option (State R) :=
  let s := { s.setTask k { t with pc := .finished } with
    answered := s.answered ++ [t.item.respondTo] }
  match r.chan with
  | .empty => some (s.setRequest t.item.respondTo { r with chan := .full reply })
  | .closed => some (s.dropSlot? (replySlot reply))
  -- `send` consumes the sender: a used channel has none
  | .full _ => none
  | .taken => none

end State

/-! ## One step -/

variable [Add R] [Sub R] [Mul R] [Min R] [LT R] [DecidableLT R] [NatCast R] [RatCast R]

/-- What a handler does next, and what its client or the backend does to it. -/
def handlerStep (cfg : Config) (s : State R) (i : ℕ) (r : Request) : Action → Option (State R)
  | .admission _ now =>
    match r.pc, s.tenants[r.tenant]? with
    | .admitting, some t => some (s.admission cfg i r t now)
    | _, _ => none
  | .push _ =>
    match r.pc, s.tenants[r.tenant]? with
    | .pushing, some t => some (s.push cfg i r t)
    | _, _ => none
  | .notify _ =>
    match r.pc with
    | .notifying => some (s.notifyOne.setRequest i { r with pc := .waiting })
    | _ => none
  | .receive _ =>
    match r.pc, r.chan with
    | .waiting, .full reply => some (s.receive i r reply)
    | _, _ => none
  | .bodyOk _ n =>
    match r.pc with
    | .reading slot => some (s.setRequest i { r with pc := .parsed slot n })
    | _ => none
  | .bodyErr _ =>
    match r.pc with
    | .reading slot => some (s.bodyErr i r slot)
    | _ => none
  | .releaseBody _ =>
    match r.pc with
    | .parsed slot n => some (s.releaseBody i r slot n)
    | _ => none
  | .chunk _ bytes =>
    match r.pc with
    | .streaming _ => some (s.chunk i r bytes)
    | _ => none
  | .closeBody _ =>
    match r.pc with
    | .streaming slot => some (s.setRequest i { r with pc := .closing (some slot) .bodyClosed })
    | _ => none
  | .disconnect _ =>
    -- a future is dropped where it is suspended: the two awaits of the handler
    match r.pc with
    | .waiting => some (s.hangUp i r)
    | .reading slot => some (s.setRequest i { r with pc := .closing (some slot) .cancelled })
    | _ => none
  | .settle _ now =>
    match r.pc with
    | .closing slot exit => some (s.settle i r slot exit now)
    | _ => none
  | _ => none

/-- What the scheduler task does next. -/
def schedulerStep (cfg : Config) (s : State R) : Action → Option (State R)
  | .acquire =>
    match s.pc with
    | .acquire => s.acquireSlot.map fun p => { p.2 with pc := .next (some p.1) .poll }
    | _ => none
  | .pop =>
    match s.pc with
    | .next slot .poll => some (s.pop cfg slot)
    | _ => none
  | .notified =>
    match s.pc with
    | .next slot .empty => some (s.notified slot)
    | _ => none
  | .wake =>
    match s.pc with
    | .next slot (.parked true) => some { s with pc := .next slot .poll }
    | _ => none
  | .again =>
    match s.pc with
    | .collect => some { s with pc := .next none .poll }
    | _ => none
  | .expire forward =>
    match s.pc with
    -- `checked_duration_since` returns None
    | .collect => some { s with pc := .dispatch }
    -- only a wait inside the window is under a timeout, and it owns no slot
    | .next none (.parked woken) => some (s.expire woken forward)
    | _ => none
  | .dispatchNext =>
    match s.pc, s.batch with
    | .dispatch, [] => some { s with pc := .acquire }
    | .dispatch, (item, slot) :: rest =>
      s.requests[item.respondTo]?.map fun r =>
        { s with batch := rest }.dispatchItem item slot r.chan
    | _, _ => none
  | .acquireFor =>
    match s.pc with
    | .acquireFor item => s.acquireSlot.map fun p => p.2.spawnDispatch item p.1
    | _ => none
  | _ => none

/-- What a dispatch task does next, and what the backend does to it. -/
def taskStep (s : State R) (k : ℕ) (t : Task) : Action → Option (State R)
  | .send _ g =>
    match t.pc with
    | .ready slot => s.requests[t.item.respondTo]?.map fun r => s.send k t slot r g
    | _ => none
  | .backendOk _ =>
    match t.pc with
    | .sending slot => some (s.setTask k { t with pc := .responding (.ok slot) })
    | _ => none
  | .backendErr _ e =>
    match t.pc with
    | .sending slot =>
      -- `map` drops the closure that owns the slot, before the reply is sent
      some ((s.dropSlot slot).setTask k { t with pc := .responding (.error e) })
    | _ => none
  | .deliver _ =>
    match t.pc with
    | .responding reply => s.requests[t.item.respondTo]?.bind fun r => s.deliver k t reply r
    | _ => none
  | _ => none

/-- The party that an action belongs to. -/
inductive Party where
  | client
  | handler (i : ℕ)
  | scheduler
  | task (k : ℕ)

def Action.party : Action → Party
  | .arrive _ _ => .client
  | .admission i _ | .push i | .notify i | .receive i | .bodyOk i _ | .bodyErr i
  | .releaseBody i | .chunk i _ | .closeBody i | .disconnect i | .settle i _ => .handler i
  | .acquire | .pop | .notified | .wake | .again | .expire _ | .dispatchNext
  | .acquireFor => .scheduler
  | .send k _ | .backendOk k | .backendErr k _ | .deliver k => .task k

/-- One step of one party; `none` when it cannot be taken. -/
def step (cfg : Config) (s : State R) (a : Action) : Option (State R) :=
  match a.party with
  | .client =>
    match a with
    | .arrive tenant req => s.arrive tenant req
    | _ => none
  | .handler i => s.requests[i]?.bind fun r => handlerStep cfg s i r a
  | .scheduler => schedulerStep cfg s a
  | .task k => s.tasks[k]?.bind fun t => taskStep s k t a

end Gateway
end OxideGate
