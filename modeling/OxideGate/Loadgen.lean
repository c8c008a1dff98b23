import Mathlib.Algebra.Order.Group.Nat
import OxideGate.FrameCounter
import OxideGate.Lib.Runs
import OxideGate.Lib.Tails

/-!
# The load generator (`bin/loadgen.rs`)

* `oneRequest` is `one_request`, as a function of what the HTTP client returns to it;
* `Stats` are one worker's counters and histograms;
* `step` is `run_phase`: workers that claim request numbers from one counter at their own pace,
  and the main task that joins them in order and merges what they return.

The histograms are those of a crate: `HistogramCrate` has the operations that are used.
A `Duration` is a number of nanoseconds.
-/

namespace OxideGate
namespace Loadgen

abbrev Duration := ℕ

/-- How a single request ended. -/
inductive Outcome where
  | ok (ttft : Option Duration) (e2e : Duration)
  | rejected
  | httpError
  | transport
  | truncated
deriving DecidableEq, Repr

/-! ## One request -/

/-- What `bytes_stream` yields: a piece of the body or an error, and when it came. -/
structure Chunk where
  elapsed : Duration
  bytes : Except Unit (List UInt8)

/-- A response: its status, its body, and when the body ended. -/
structure Response where
  status : ℕ
  body : List Chunk
  ended : Duration

/-- `Response::bytes`: the whole body, unless one of its pieces is an error. -/
def Response.complete (resp : Response) : Bool :=
  resp.body.all fun chunk => chunk.bytes.isOk

/-- The last bytes that `one_request` keeps. -/
def tailLength : ℕ := 64

/-- `tail.extend_from_slice(..)`, and `drain` of what is too much. -/
def extendTail (tail bytes : List UInt8) : List UInt8 :=
  let tail := tail ++ bytes
  if tailLength < tail.length then tail.drop (tail.length - tailLength) else tail

/-- The loop over the chunks of a streamed reply, and the check after it. -/
def drainChunks (ended : Duration) (ttft : Option Duration) (tail : List UInt8) :
    List Chunk → Outcome
  | [] =>
    if (Tails.windows 6 tail).any (· == ascii "[DONE]") then .ok ttft ended else .truncated
  | ⟨elapsed, bytes⟩ :: chunks =>
    match bytes with
    | .error _ => .transport
    | .ok bytes =>
      let ttft := if ttft.isNone && !bytes.isEmpty then some elapsed else ttft
      drainChunks ended ttft (extendTail tail bytes) chunks

/-- `one_request`, from the result of `send()` on. -/
def oneRequest (stream : Bool) : Option Response → Outcome
  | none => .transport
  | some resp =>
    if resp.status = 429 then .rejected
    -- `is_success`
    else if ¬ (200 ≤ resp.status ∧ resp.status < 300) then .httpError
    else if !stream then
      if resp.complete then .ok none resp.ended else .transport
    else drainChunks resp.ended none [] resp.body

/-! ## What a worker collects -/

/-- The operations of `hdrhistogram` that are used, on histograms `H`. -/
structure HistogramCrate (H : Type) where
  /-- `Histogram::new_with_bounds`. -/
  newWithBounds : Except Unit H
  saturatingRecord : H → UInt64 → H
  add : H → H → Except Unit H
  /-- `Histogram::len`: the number of samples. -/
  len : H → ℕ

/-- `Stats`. -/
structure Stats (H : Type) where
  ttft : H
  e2e : H
  ok : UInt64
  rejected : UInt64
  httpError : UInt64
  transport : UInt64
  truncated : UInt64
deriving DecidableEq, Repr

/-- `micros`. -/
def micros (d : Duration) : UInt64 :=
  let us := d / 1000
  if us < 2 ^ 64 then us.toUInt64 else (2 ^ 64 - 1).toUInt64

namespace Stats

variable {H : Type} (crate : HistogramCrate H)

/-- `Stats::new`. -/
def new : Except Unit (Stats H) := do
  let ttft ← crate.newWithBounds
  let e2e ← crate.newWithBounds
  return ⟨ttft, e2e, 0, 0, 0, 0, 0⟩

/-- `Stats::record`. -/
def record (s : Stats H) : Outcome → Stats H
  | .ok ttft e2e =>
    let s := { s with ok := s.ok + 1, e2e := crate.saturatingRecord s.e2e (micros e2e) }
    match ttft with
    | some t => { s with ttft := crate.saturatingRecord s.ttft (micros t) }
    | none => s
  | .rejected => { s with rejected := s.rejected + 1 }
  | .httpError => { s with httpError := s.httpError + 1 }
  | .transport => { s with transport := s.transport + 1 }
  | .truncated => { s with truncated := s.truncated + 1 }

/-- `Stats::merge`. -/
def merge (s other : Stats H) : Except Unit (Stats H) := do
  let ttft ← crate.add s.ttft other.ttft
  let e2e ← crate.add s.e2e other.e2e
  return {
    ttft, e2e
    ok := s.ok + other.ok
    rejected := s.rejected + other.rejected
    httpError := s.httpError + other.httpError
    transport := s.transport + other.transport
    truncated := s.truncated + other.truncated }

/-- `Stats::failed`. -/
def failed (s : Stats H) : UInt64 := s.rejected + s.httpError + s.transport + s.truncated

end Stats

/-! ## `run_phase` -/

/-- What `run_phase` is called with, and the width of a `usize`, which a `u64` has room for. -/
structure Args where
  concurrency : ℕ
  total : ℕ
  usizeBits : ℕ
  usizeBits_le : usizeBits ≤ 64

/-- A worker task. -/
inductive WorkerPc (H : Type) where
  /-- Spawned; `Stats::new` is next. -/
  | starting
  /-- At the top of its loop. -/
  | claiming (stats : Stats H)
  /-- Has the number `i`, which may not be due yet. -/
  | claimed (i : ℕ) (stats : Stats H)
  /-- In `one_request`, for the number `i`. -/
  | requesting (i : ℕ) (stats : Stats H)
  | finished (stats : Stats H)
deriving DecidableEq

structure Worker (H : Type) where
  pc : WorkerPc H
  /-- The task has panicked or returned `Err`, and got no further than `pc`. -/
  failed : Bool
  /-- What its requests have come to. -/
  outcomes : List Outcome
deriving DecidableEq

/-- The main task, from the spawning of the workers on. -/
inductive MainPc (H : Type) where
  | spawned
  /-- The workers before `k` are joined. -/
  | joining (k : ℕ) (merged : Stats H)
  | returned (result : Option (Stats H))
deriving DecidableEq

structure State (H : Type) where
  next : ℕ
  workers : List (Worker H)
  main : MainPc H
  /-- The numbers below `total` that were claimed, each with the worker that did. -/
  claims : List (ℕ × ℕ)
  /-- The numbers that `one_request` was called for. -/
  issued : List ℕ
deriving DecidableEq

inductive Action where
  | start (w : ℕ)
  | claim (w : ℕ)
  | issue (w : ℕ)
  | respond (w : ℕ) (outcome : Outcome)
  | crash (w : ℕ)
  | collect
  | join
deriving DecidableEq

def init {H : Type} (args : Args) : State H where
  next := 0
  workers := List.replicate args.concurrency ⟨.starting, false, []⟩
  main := .spawned
  claims := []
  issued := []

/-- `AtomicUsize::fetch_add(1)`: what is stored; the old value is what it returns. -/
def fetchAdd (args : Args) (next : ℕ) : ℕ := (next + 1) % 2 ^ args.usizeBits

section

variable {H : Type} (crate : HistogramCrate H) (args : Args) (s : State H)

def State.setWorker (w : ℕ) (t : Worker H) : State H := { s with workers := s.workers.set w t }

/-- What worker `w` does next. -/
def workerStep (w : ℕ) (t : Worker H) : Action → Option (State H)
  | .start _ =>
    match t.pc, Stats.new crate with
    | .starting, .ok stats => some (s.setWorker w { t with pc := .claiming stats })
    | .starting, .error _ => some (s.setWorker w { t with failed := true })
    | _, _ => none
  | .claim _ =>
    match t.pc with
    | .claiming stats =>
      let i := s.next
      let s := { s with next := fetchAdd args s.next }
      if args.total ≤ i then some (s.setWorker w { t with pc := .finished stats })
      else some ({ s with claims := s.claims ++ [(w, i)] }.setWorker w
        { t with pc := .claimed i stats })
    | _ => none
  | .issue _ =>
    match t.pc with
    | .claimed i stats => some ({ s with issued := s.issued ++ [i] }.setWorker w
        { t with pc := .requesting i stats })
    | _ => none
  | .respond _ outcome =>
    match t.pc with
    | .requesting _ stats => some (s.setWorker w { t with
        pc := .claiming (stats.record crate outcome), outcomes := t.outcomes ++ [outcome] })
    | _ => none
  | .crash _ =>
    match t.pc with
    | .finished _ => none
    | _ => some (s.setWorker w { t with failed := true })
  | .collect => none
  | .join => none

/-- What the main task does next. It waits for a worker that has not finished. -/
def mainStep : Action → Option (State H)
  | .collect =>
    match s.main, Stats.new crate with
    | .spawned, .ok stats => some { s with main := .joining 0 stats }
    | .spawned, .error _ => some { s with main := .returned none }
    | _, _ => none
  | .join =>
    match s.main with
    | .joining k merged =>
      match s.workers[k]? with
      | none => some { s with main := .returned (some merged) }
      | some t =>
        if t.failed then some { s with main := .returned none }
        else
          match t.pc with
          | .finished stats =>
            match merged.merge crate stats with
            | .ok merged => some { s with main := .joining (k + 1) merged }
            | .error _ => some { s with main := .returned none }
          | _ => none
    | _ => none
  | _ => none

/-- One step of a worker or of the main task. A task that has failed takes none. -/
def step (s : State H) (a : Action) : Option (State H) :=
  match a with
  | .start w | .claim w | .issue w | .respond w _ | .crash w =>
    s.workers[w]?.bind fun t => if t.failed then none else workerStep crate args s w t a
  | .collect | .join => mainStep crate s a

end

end Loadgen
end OxideGate
